import Cexp.Transition

/-! The server window of `gui_server.c` over `startIocpServer`: the button on the GUI thread
and any number of server threads, each from `startServerThred` to its return, which share
`state`, the listening socket and the result variables. A server thread waits at most for
so long for the threads it has created; of these, `CompletionThread` writes `wsacode`. -/

namespace Cexp.GuiServer

def SOCKET_ERROR : Int := -1

def ERROR_IO_PENDING : Nat := 997

inductive Sock where
  | unused
  | opened
  | closed
  deriving DecidableEq, Repr

inductive GuiPc where
  | idle
  | cleanClose
  | cleanReset
  | readPort
  | localIp
  | localIpCleanup
  | createThread
  deriving DecidableEq, Repr

/-- `failed` and `returning` are the ends of `startIocpServer` after its last report. -/
inductive ServerPc where
  | notStarted
  | entered
  | testInit
  | startup
  | setInit
  | socket
  | bind
  | testBind
  | listen
  | getError
  | returnError
  | assign (code : Nat)
  | testCode
  | reportFailed
  | failed
  | setUp
  | reportRunning
  | accept
  | accepting (fd : Option Nat)
  | recv
  | testRecv
  | recvError
  | shutDown
  | closeListener
  | testCleanup
  | cleanup
  | clearInit
  | reportStopped
  | returning
  | returned
  deriving DecidableEq, Repr

/-- The globals of the two files, how often Winsock has been started, the listening sockets,
each named by the server thread that created it, and the threads. -/
structure State where
  state : Nat
  winsockInit : Bool
  ecode : Int
  wsacode : Nat
  gsSocket : Option Nat
  startups : Nat
  socket : Nat → Sock
  gui : GuiPc
  server : Nat → ServerPc
  completion : Nat → Bool
  servers : Nat

def init : State where
  state := 0
  winsockInit := false
  ecode := 0
  wsacode := 0
  gsSocket := none
  startups := 0
  socket := fun _ => .unused
  gui := .idle
  server := fun _ => .notStarted
  completion := fun _ => false
  servers := 0

/-- One step. The labels carry what the user enters and what the calls return; `gui` and
`server` are the operations that leave no choice. -/
inductive Label where
  | click
  | readPort (port : Int)
  | localIp (ok : Bool)
  | gui
  | startup (i : Nat) (ok : Bool)
  | socket (i : Nat) (ok : Bool)
  | bind (i : Nat) (ok : Bool)
  | lastError (i : Nat) (code : Nat)
  | accept (i : Nat) (ok : Bool)
  | recv (i : Nat) (ok : Bool)
  | server (i : Nat)
  | completionError (i : Nat) (code : Nat)
  | completionExit (i : Nat)
  deriving DecidableEq, Repr

def State.move (s : State) (i : Nat) (pc : ServerPc) : State :=
  { s with server := Function.update s.server i pc }

/-- `closesocket(g_sSocket)`, which fails without a socket. -/
def State.closesocket (s : State) : State :=
  { s with socket := fun i =>
      if s.gsSocket = some i ∧ s.socket i = .opened then .closed else s.socket i }

/-- The last `WSACleanup` closes every socket; without a `WSAStartup` it fails. -/
def State.wsaCleanup (s : State) : State :=
  { s with
    startups := s.startups - 1
    socket := fun i => if s.startups = 1 ∧ s.socket i = .opened then .closed else s.socket i }

/-- `OnStatChanged` stores its argument first. -/
def State.onStatChanged (s : State) (runState : Nat) : State := { s with state := runState }

def guiStep (s : State) : Option State :=
  match s.gui with
  | .cleanClose => some { s.closesocket with gui := .cleanReset }
  | .cleanReset => some { s with gsSocket := none, gui := .idle }
  | .localIpCleanup => some { s.wsaCleanup with gui := .createThread }
  | .createThread =>
    some { s.move s.servers .entered with servers := s.servers + 1, gui := .idle }
  | _ => none

def serverStep (s : State) (i : Nat) : Option State :=
  match s.server i with
  | .entered => some (s.move i .testInit)
  | .testInit => some (s.move i (if s.winsockInit then .socket else .startup))
  | .setInit => some { s.move i .socket with winsockInit := true }
  | .testBind => some (s.move i (if s.ecode = SOCKET_ERROR then .getError else .listen))
  | .listen => some (s.move i (.assign 0))
  | .returnError => some (s.move i (.assign s.wsacode))
  | .assign code => some { s.move i .testCode with wsacode := code }
  | .testCode => some (s.move i (if s.wsacode ≠ 0 then .reportFailed else .setUp))
  | .reportFailed => some ((s.move i .failed).onStatChanged (s.wsacode + 1))
  | .failed => some (s.move i .returned)
  | .setUp =>
    some { s.move i .reportRunning with completion := Function.update s.completion i true }
  | .reportRunning => some ((s.move i .accept).onStatChanged 1)
  | .accept => some (s.move i (.accepting s.gsSocket))
  | .testRecv => some (s.move i (if s.ecode = SOCKET_ERROR then .recvError else .accept))
  | .shutDown => some (s.move i .closeListener)
  | .closeListener => some (s.closesocket.move i .testCleanup)
  | .testCleanup => some (s.move i (if s.winsockInit then .cleanup else .reportStopped))
  | .cleanup => some (s.wsaCleanup.move i .clearInit)
  | .clearInit => some { s.move i .reportStopped with winsockInit := false }
  | .reportStopped => some ((s.move i .returning).onStatChanged 0)
  | .returning => some (s.move i .returned)
  | _ => none

def step (s : State) : Label → Option State
  | .click =>
    match s.gui with
    | .idle => some { s with gui := if s.state ≠ 0 then .cleanClose else .readPort }
    | _ => none
  | .readPort port =>
    match s.gui with
    | .readPort => some { s with gui := if port ≤ 0 ∨ 65535 < port then .idle else .localIp }
    | _ => none
  | .localIp ok =>
    match s.gui with
    | .localIp => some { s with
        startups := if ok then s.startups + 1 else s.startups
        gui := .localIpCleanup }
    | _ => none
  | .gui => guiStep s
  | .startup i ok =>
    match s.server i with
    | .startup =>
      if ok then some { s.move i .setInit with startups := s.startups + 1 }
      else some (s.move i .getError)
    | _ => none
  | .socket i ok =>
    match s.server i with
    | .socket =>
      if ok then
        if 0 < s.startups then
          some { s.move i .bind with
            gsSocket := some i, socket := Function.update s.socket i .opened }
        else none
      else some { s.move i .bind with gsSocket := none }
    | _ => none
  | .bind i ok =>
    match s.server i with
    | .bind =>
      if ok then
        if s.gsSocket.any fun j => s.socket j = .opened then
          some { s.move i .testBind with ecode := 0 }
        else none
      else some { s.move i .testBind with ecode := SOCKET_ERROR }
    | _ => none
  | .lastError i code =>
    if 0 < code then
      match s.server i with
      | .getError => some { s.move i .returnError with wsacode := code }
      | .recvError => some { s.move i (if code ≠ ERROR_IO_PENDING then .shutDown else .accept) with
          wsacode := code }
      | _ => none
    else none
  | .accept i ok =>
    match s.server i with
    | .accepting fd =>
      if ok then
        if fd.any fun j => s.socket j = .opened then some (s.move i .recv) else none
      else some (s.move i .shutDown)
    | _ => none
  | .recv i ok =>
    match s.server i with
    | .recv => some { s.move i .testRecv with ecode := if ok then 0 else SOCKET_ERROR }
    | _ => none
  | .server i => serverStep s i
  | .completionError i code =>
    if s.completion i ∧ 0 < code then some { s with wsacode := code } else none
  | .completionExit i =>
    if s.completion i then some { s with completion := Function.update s.completion i false }
    else none

end Cexp.GuiServer
