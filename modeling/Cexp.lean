import Cexp.Transition
import Cexp.LinkedChain
import Cexp.AtomicFifo
import Cexp.ThreadCount
import Cexp.Interleaving
import Cexp.OnesComplement
import Cexp.ByteOrder
import Cexp.ByteRegions
import Cexp.Terminated
import Cexp.TlsSession
import Cexp.TcpPacket
import Cexp.TcpChecksum
import Cexp.ArpPacket
import Cexp.DecimalText
import Cexp.BlockingQueue
import Cexp.QueueStep
import Cexp.QueueInvariant
import Cexp.QueueHistory
import Cexp.QueueCapacity
import Cexp.QueueWakeups
import Cexp.QueueNodes
import Cexp.QueueDestroy
import Cexp.QueueRelease
import Cexp.QueueSync
import Cexp.QueueCalls
import Cexp.QueueProgress
import Cexp.QueueFlow
import Cexp.QueueContents
import Cexp.QueueProcess
import Cexp.QueueIndependence
import Cexp.QueueShutdown
import Cexp.QueueTest
import Cexp.QueueTestRun
import Cexp.ProFormat
import Cexp.ProFrame
import Cexp.FrameChecksum
import Cexp.FrameAck
import Cexp.FrameReply
import Cexp.FrameCorruption
import Cexp.PacketForwarding
import Cexp.FrameExchange
import Cexp.SynProbe
import Cexp.IocpServer
import Cexp.IocpStep
import Cexp.IocpService
import Cexp.IocpCalls
import Cexp.IocpHandler
import Cexp.IocpOwnership
import Cexp.IocpStream
import Cexp.IocpDelivery
import Cexp.IocpProgress
import Cexp.IocpContexts
import Cexp.IocpRelease
import Cexp.IocpTarget
import Cexp.IocpReceives
import Cexp.IocpSslServer
import Cexp.SslSessions
import Cexp.SslFragments
import Cexp.SslConnection
import Cexp.SelectServer
import Cexp.SelectTable
import Cexp.SelectRelease
import Cexp.PlainServer
import Cexp.PlainConnections
import Cexp.MessageBuffer
import Cexp.GuiServer
import Cexp.GuiStep
import Cexp.GuiInstances
import Cexp.GuiFailure
import Cexp.ReceiveWindow
import Cexp.WindowProgress
import Cexp.Client
import Cexp.ClientConnection
import Cexp.ClientCalls
import Cexp.ReceiveBuffer
import Cexp.ClientReports
import Cexp.AdapterList
import Cexp.AdapterRecords
import Cexp.AdapterChoice
import Cexp.PickDevice
import Cexp.ArpSponsor
import Cexp.SendText
import Cexp.Conversation
import Cexp.ServerMessages
import Cexp.PortEntry
