import Cexp.Transition

/-! The client of `myclient.c` and `gui_client.c`: the connect button and `ReadySocket` on the
GUI thread, any number of `waitReceive` threads, and Winsock's sockets behind their handles.
The globals are read and written one at a time; a handle is used again once it is closed. -/

namespace Cexp.Client

abbrev Byte := BitVec 8

def BUF_SIZE : Nat := 128

/-- `SOCKET` is unsigned: this value, too, passes the test `client_fd >= 0`. -/
def INVALID_SOCKET : Nat := 2 ^ 64 - 1

def WSAEWOULDBLOCK : Int := 10035

def WSAENOTSOCK : Int := 10038

/-- An open socket: the number of the `socket` call that created it, counted from 1. -/
structure Socket where
  connection : Nat
  established : Bool
  deriving DecidableEq, Repr

/-- Where a thread is in `OnStatChanged`, which reads back the flag it has just stored. -/
inductive StatPc where
  | store (state : Bool)
  | test
  | runReceive
  deriving DecidableEq, Repr

inductive CleanPc where
  | clear
  | load
  | close (fd : Nat)
  | stateChanged (p : StatPc)
  deriving DecidableEq, Repr

inductive GuiPc where
  | idle
  | compare
  | ready
  | testInit
  | startup
  | setInit
  | socket
  | setNonBlock
  | connect
  | selectWrite
  | setBlock
  | setConnected
  | stateChanged (p : StatPc)
  | clean (p : CleanPc) (next : GuiPc)
  | exited
  deriving DecidableEq, Repr

inductive ReceivePc where
  | notStarted
  | fdSet
  | select (fd : Nat)
  | selecting
  | load
  | recv (fd : Nat)
  | receiving
  | isSet
  | available
  | callback
  | clean (p : CleanPc)
  | testInit
  | cleanup
  | clearInit
  | ended
  deriving DecidableEq, Repr

/-- A `waitReceive` thread with its locals, and the connection it was started for: the last
one created when `runReceive` ran. -/
structure Receiver where
  pc : ReceivePc
  connection : Nat
  readSet : Nat
  buffer : List Byte
  num : Nat
  deriving DecidableEq, Repr

/-- The globals of the two files (`guiConnected` is the `connected` of `gui_client.c`), how
often Winsock has been started, its open sockets, and the threads. -/
structure State where
  clientFd : Nat
  connected : Bool
  gwinsockInit : Bool
  guiConnected : Bool
  startups : Nat
  socket : Nat → Option Socket
  connections : Nat
  gui : GuiPc
  receiver : Nat → Receiver
  threads : Nat

def newReceiver (connection : Nat) : Receiver :=
  ⟨.fdSet, connection, 0, List.replicate BUF_SIZE 0, 0⟩

def init : State where
  clientFd := 0
  connected := false
  gwinsockInit := false
  guiConnected := false
  startups := 0
  socket := fun _ => none
  connections := 0
  gui := .idle
  receiver := fun _ => { newReceiver 0 with pc := .notStarted }
  threads := 0

inductive SelectResult where
  | ready
  | timeout
  | failed (eno : Int)
  deriving DecidableEq, Repr

inductive RecvResult where
  | data (bytes : List Byte)
  | closed
  | failed (eno : Int)
  deriving DecidableEq, Repr

/-- One step. The labels carry what the user does and what the calls return; `gui` and
`receive` are the operations that leave no choice. -/
inductive Label where
  | toggle
  | quit
  | compare (differs : Bool)
  | startup (ok : Bool)
  | socket (fd : Option Nat)
  | setNonBlock (ok : Bool)
  | connect (code : Option Int)
  | selectWrite (ready : Bool) (code : Int)
  | setBlock (ok : Bool)
  | gui
  | selected (t : Nat) (result : SelectResult)
  | received (t : Nat) (result : RecvResult)
  | available (t : Nat) (bytesAvailable : Option Nat)
  | receive (t : Nat)
  deriving DecidableEq, Repr

def State.setReceiver (s : State) (t : Nat) (th : Receiver) : State :=
  { s with receiver := Function.update s.receiver t th }

def State.closesocket (s : State) (fd : Nat) : State :=
  { s with socket := Function.update s.socket fd none }

def State.establish (s : State) (fd : Nat) : State :=
  { s with
    socket := Function.update s.socket fd
      ((s.socket fd).map fun x => { x with established := true }) }

/-- The last `WSACleanup` closes every socket; without a `WSAStartup` it fails. -/
def State.wsaCleanup (s : State) : State :=
  { s with
    startups := s.startups - 1
    socket := if s.startups = 1 then fun _ => none else s.socket }

def State.runReceive (s : State) : State :=
  { s.setReceiver s.threads (newReceiver s.connections) with threads := s.threads + 1 }

def statStep (s : State) : StatPc → State × Option StatPc
  | .store state => ({ s with guiConnected := state }, some .test)
  | .test => (s, if s.guiConnected then some .runReceive else none)
  | .runReceive => (s.runReceive, none)

def cleanStep (s : State) : CleanPc → State × Option CleanPc
  | .clear => ({ s with connected := false }, some .load)
  | .load =>
    (s, some (if 0 ≤ s.clientFd then .close s.clientFd else .stateChanged (.store false)))
  | .close fd => (s.closesocket fd, some (.stateChanged (.store false)))
  | .stateChanged p => ((statStep s p).1, (statStep s p).2.map .stateChanged)

def guiStep (s : State) : Option State :=
  match s.gui with
  | .ready => some { s with gui := if s.connected then .idle else .testInit }
  | .testInit => some { s with gui := if s.gwinsockInit then .socket else .startup }
  | .setInit => some { s with gwinsockInit := true, gui := .socket }
  | .setConnected => some { s with connected := true, gui := .stateChanged (.store true) }
  | .stateChanged p =>
    some { (statStep s p).1 with gui := ((statStep s p).2.map .stateChanged).getD .idle }
  | .clean p next =>
    some { (cleanStep s p).1 with gui := ((cleanStep s p).2.map (.clean · next)).getD next }
  | _ => none

/-- `buffer[i] = b`, undefined outside the buffer. -/
def store (buffer : List Byte) (i : Nat) (b : Byte) : Option (List Byte) :=
  if i < buffer.length then some (buffer.set i b) else none

/-- `buffer[num] = 13, buffer[num + 1] = 10; num += 2`. -/
def appendLineEnd (th : Receiver) : Option Receiver := do
  let buffer ← store th.buffer th.num 13
  let buffer ← store buffer (th.num + 1) 10
  some { th with buffer := buffer, num := th.num + 2 }

def finish (th : Receiver) (bytesAvailable : Option Nat) : Option Receiver := do
  let th ← if bytesAvailable = some 0 then appendLineEnd th else some th
  let buffer ← store th.buffer th.num 0
  some { th with pc := .callback, buffer := buffer }

def receiveStep (s : State) (t : Nat) : Option State :=
  let th := s.receiver t
  let goto (s : State) (pc : ReceivePc) := s.setReceiver t { th with pc := pc }
  match th.pc with
  | .fdSet =>
    some (s.setReceiver t { th with pc := .select s.clientFd, readSet := s.clientFd })
  | .select _ => some (goto s .selecting)
  | .load => some (goto s (.recv s.clientFd))
  | .recv _ => some (goto s .receiving)
  | .isSet => some (goto s (if s.clientFd = th.readSet then .available else .clean .clear))
  | .callback => some (goto s .fdSet)
  | .clean p => some (goto (cleanStep s p).1 (((cleanStep s p).2.map .clean).getD .testInit))
  | .testInit => some (goto s (if s.gwinsockInit then .cleanup else .ended))
  | .cleanup => some (goto s.wsaCleanup .clearInit)
  | .clearInit => some (goto { s with gwinsockInit := false } .ended)
  | _ => none

def step (s : State) : Label → Option State
  | .toggle =>
    match s.gui with
    | .idle => some { s with gui := if s.guiConnected then .clean .clear .idle else .compare }
    | _ => none
  | .quit =>
    match s.gui with
    | .idle => some { s with gui := .clean .clear .exited }
    | _ => none
  | .compare differs =>
    match s.gui with
    | .compare =>
      some { s with gui := if s.guiConnected && differs then .clean .clear .ready else .ready }
    | _ => none
  | .startup ok =>
    match s.gui with
    | .startup =>
      if ok then some { s with startups := s.startups + 1, gui := .setInit }
      else some { s with gui := .idle }
    | _ => none
  | .socket fd =>
    match s.gui, fd with
    | .socket, none => some { s with clientFd := INVALID_SOCKET, gui := .idle }
    | .socket, some fd =>
      if 0 < s.startups ∧ fd < INVALID_SOCKET ∧ s.socket fd = none then
        some { s with
          clientFd := fd
          socket := Function.update s.socket fd (some ⟨s.connections + 1, false⟩)
          connections := s.connections + 1
          gui := .setNonBlock }
      else none
    | _, _ => none
  | .setNonBlock ok =>
    match s.gui with
    | .setNonBlock => some { s with gui := if ok then .connect else .clean .clear .connect }
    | _ => none
  | .connect code =>
    match s.gui with
    | .connect =>
      match code with
      | none => some { s.establish s.clientFd with gui := .selectWrite }
      | some e =>
        some { s with gui := if e = WSAEWOULDBLOCK then .selectWrite else .clean .clear .idle }
    | _ => none
  | .selectWrite ready _ =>
    match s.gui with
    | .selectWrite =>
      if ready then some { s.establish s.clientFd with gui := .setBlock }
      else some { s with gui := .clean .clear .idle }
    | _ => none
  | .setBlock ok =>
    match s.gui with
    | .setBlock => some { s with gui := if ok then .setConnected else .clean .clear .setConnected }
    | _ => none
  | .gui => guiStep s
  | .selected t result =>
    match (s.receiver t).pc with
    | .selecting =>
      some (s.setReceiver t { s.receiver t with
        pc := if result = .ready then .load else .clean .clear })
    | _ => none
  | .received t result =>
    match (s.receiver t).pc, result with
    | .receiving, .data bytes =>
      if 0 < bytes.length ∧ bytes.length ≤ BUF_SIZE - 2 then
        some (s.setReceiver t { s.receiver t with
          pc := .isSet
          buffer := bytes ++ (s.receiver t).buffer.drop bytes.length
          num := bytes.length })
      else none
    | .receiving, _ => some (s.setReceiver t { s.receiver t with pc := .clean .clear })
    | _, _ => none
  | .available t bytesAvailable =>
    match (s.receiver t).pc with
    | .available => (finish (s.receiver t) bytesAvailable).map (s.setReceiver t)
    | _ => none
  | .receive t => receiveStep s t

inductive Event where
  | stateChanged (state : Bool)
  | dataReceived (buffer : List Byte) (num : Nat)
  | debugMsg (format : String) (args : List Int)
  deriving DecidableEq, Repr

def events (s : State) : Label → List Event
  | .selectWrite false code => [.debugMsg "connect failed: %d" [code]]
  | .gui =>
    match s.gui with
    | .stateChanged (.store state) | .clean (.stateChanged (.store state)) _ =>
      [.stateChanged state]
    | _ => []
  | .selected _ .timeout =>
    [.debugMsg "No data received from server, disconnect from server" []]
  | .selected _ (.failed eno) => [.debugMsg "select failed: %d, errno: %d" [-1, eno]]
  | .received _ .closed => [.debugMsg "The other peer closed" []]
  | .received _ (.failed eno) =>
    if eno = WSAENOTSOCK then [.debugMsg "client closed connection" []]
    else [.debugMsg "read error, %d" [eno]]
  | .receive t =>
    match (s.receiver t).pc with
    | .isSet =>
      if s.clientFd = (s.receiver t).readSet then [] else [.debugMsg "connection closed" []]
    | .callback => [.dataReceived (s.receiver t).buffer (s.receiver t).num]
    | .clean (.stateChanged (.store state)) => [.stateChanged state]
    | _ => []
  | _ => []

end Cexp.Client
