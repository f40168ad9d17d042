import Cexp.OnesComplement
import Cexp.ProFormat

/-! The functions of `pro_frame.c`: the reply frame, its two check buffers and the
checksum. A `payloadLen` is the length of a payload that fits its field. -/

namespace Cexp.ProFrame

open ByteOrder OnesComplement

/-- `bytes[i]`. -/
def byteAt (bytes : List Byte) (i : Nat) : Byte := bytes.getD i 0

/-- `*((long*)bytes) == 2`. -/
def isLoopback (bytes : List Byte) : Bool :=
  le32 (byteAt bytes 0) (byteAt bytes 1) (byteAt bytes 2) (byteAt bytes 3) == 2

def linkLen (bytes : List Byte) : Nat := if isLoopback bytes then 4 else 14

/-- A received frame, long enough for the bytes that `tcp_rep_frame` reads: up to the
acknowledgment number of the TCP header. -/
structure Received where
  bytes : List Byte
  long : linkLen bytes + 32 ≤ bytes.length

def htons (w : BitVec 16) : BitVec 16 := le16 ((w >>> 8).setWidth 8) (w.setWidth 8)

def fillIpHeader (header : IpHdr) (payloadLen : Nat) : IpHdr :=
  { header with
    verIhl := 0x45
    serviceType := 0
    totalLength := htons (BitVec.ofNat 16 (20 + 20 + payloadLen))
    flagsFragmentOffset := 2 <<< 5
    time2live := 0x32
    protocol := 6
    hdrChksum := 0 }

def fillTcpHeader (header : TcpHdr) : TcpHdr :=
  { header with
    dOffsetRsrvd := 5 <<< 4
    flags := 0x18
    window := 0xff <<< 8
    chksum := 0
    urgentPointer := 0 }

def convertByteOrder (val : BitVec 32) : List Byte :=
  [(val >>> 8).setWidth 8, val.setWidth 8, (val >>> 24).setWidth 8, (val >>> 16).setWidth 8]

/-- The payload's part of the check buffer: pairs exchanged, an odd last byte after a zero. -/
def fillPayload (tcpPayload : List Byte) : List Byte :=
  let payloadLen := tcpPayload.length
  let even := if payloadLen % 2 = 0 then payloadLen else (payloadLen - 1) >>> 1 <<< 1
  swapPairs (tcpPayload.take even) ++
    if payloadLen - even ≠ 0 then [0, byteAt tcpPayload (payloadLen - 1)] else []

def fillTcpCheckBuffer (ipHeader : IpHdr) (tcpHeader : TcpHdr) (tcpPayload : List Byte) :
    List Byte :=
  let payloadLen := tcpPayload.length
  convertByteOrder ipHeader.srcIp ++ convertByteOrder ipHeader.dstIp ++
    [ipHeader.protocol, 0,
      BitVec.ofNat 8 ((payloadLen + 20) &&& 0xff), BitVec.ofNat 8 ((payloadLen + 20) >>> 8),
      (tcpHeader.srcPort >>> 8).setWidth 8, (tcpHeader.srcPort &&& 0xff).setWidth 8,
      (tcpHeader.dstPort >>> 8).setWidth 8, (tcpHeader.dstPort &&& 0xff).setWidth 8] ++
    convertByteOrder tcpHeader.seq ++ convertByteOrder tcpHeader.ack ++
    [tcpHeader.flags, tcpHeader.dOffsetRsrvd,
      (tcpHeader.window >>> 8).setWidth 8, (tcpHeader.window &&& 0xff).setWidth 8,
      0, 0, 0, 0] ++
    fillPayload tcpPayload

def fillIpCheckbuf (ipHeader : IpHdr) : List Byte :=
  [ipHeader.serviceType, ipHeader.verIhl,
    (ipHeader.totalLength >>> 8).setWidth 8, (ipHeader.totalLength &&& 0xff).setWidth 8,
    (ipHeader.identification >>> 8).setWidth 8, (ipHeader.identification &&& 0xff).setWidth 8,
    (ipHeader.flagsFragmentOffset >>> 8).setWidth 8,
    (ipHeader.flagsFragmentOffset &&& 0xff).setWidth 8,
    ipHeader.protocol, ipHeader.time2live, 0, 0] ++
    convertByteOrder ipHeader.srcIp ++ convertByteOrder ipHeader.dstIp

def sumWords (sum : BitVec 32) : List Byte → BitVec 32
  | a :: b :: ptr => sumWords (sum + (le16 a b).setWidth 32) ptr
  | [a] => sum + a.setWidth 32
  | [] => sum

def calChecksum (ptr : List Byte) (nbytes : Nat) : BitVec 16 :=
  let sum := sumWords 0 (ptr.take nbytes)
  let sum := (sum >>> 16) + (sum &&& 0xffff)
  let sum := sum + (sum >>> 16)
  (~~~sum).setWidth 16

/-- The link header of the reply. -/
def replyLink (eheader : EthernetHdr) (bytes : List Byte) : EthernetHdr :=
  if isLoopback bytes then
    eheader.copyLoopback (byteAt bytes 0) (byteAt bytes 1) (byteAt bytes 2) (byteAt bytes 3)
  else
    { destMac := Vector.ofFn fun i => byteAt bytes (6 + i)
      srcMac := Vector.ofFn fun i => byteAt bytes i
      proType := le16 (byteAt bytes 12) (byteAt bytes 13) }

/-- The IP fields taken from the received datagram at `bytes`. -/
def replyIp (ipHeader : IpHdr) (bytes : List Byte) : IpHdr :=
  { ipHeader with
    identification := le16 (byteAt bytes 4) (byteAt bytes 5) + 1
    srcIp := le32 (byteAt bytes 16) (byteAt bytes 17) (byteAt bytes 18) (byteAt bytes 19)
    dstIp := le32 (byteAt bytes 12) (byteAt bytes 13) (byteAt bytes 14) (byteAt bytes 15) }

/-- The TCP fields taken from the received segment at `bytes`. -/
def replyTcp (tcpHeader : TcpHdr) (bytes : List Byte) (blen : BitVec 32) : TcpHdr :=
  { tcpHeader with
    srcPort := le16 (byteAt bytes 2) (byteAt bytes 3)
    dstPort := le16 (byteAt bytes 0) (byteAt bytes 1)
    seq := le32 (byteAt bytes 8) (byteAt bytes 9) (byteAt bytes 10) (byteAt bytes 11)
    ack := le32 (byteAt bytes 4) (byteAt bytes 5) (byteAt bytes 6) (byteAt bytes 7) + blen - 44 }

def tcpRepFrame (hf : TcpFrame) (bytes : List Byte) (blen : BitVec 32) (payload : Payload) :
    TcpFrame :=
  let payloadLen := payload.data.length
  let eheader := replyLink hf.eheader bytes
  let bytes := bytes.drop (linkLen bytes)
  let ipHeader := replyIp hf.ipHeader bytes
  let tcpHeader := replyTcp hf.tcpHeader (bytes.drop 20) blen
  let tcpHeader := fillTcpHeader tcpHeader
  let ipHeader := fillIpHeader ipHeader payloadLen
  let tcpHeader := { tcpHeader with flags := 0x18 }
  let checkBuf := fillTcpCheckBuffer ipHeader tcpHeader payload.data
  let chksum := calChecksum checkBuf (32 + (payloadLen + 1) >>> 1 <<< 1)
  let tcpHeader := { tcpHeader with chksum := htons chksum }
  let checkBuf := fillIpCheckbuf ipHeader ++ checkBuf.drop 20
  let chksum := calChecksum checkBuf 20
  let ipHeader := { ipHeader with hdrChksum := htons chksum }
  let hf := { hf with eheader := eheader, ipHeader := ipHeader, tcpHeader := tcpHeader }
  hf.copyPayload payload

end Cexp.ProFrame
