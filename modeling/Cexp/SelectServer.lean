import Cexp.Transition
import Cexp.ThreadCount

/-! The TLS server of `myserver.c`: the loop of `SSLServerThread` over its table of
connections, with the open sockets and the live SSL objects behind it. The loop is split at
`select`, at `accept` and at every slot of its two passes; `SSL_new` succeeds. The function
is called once, by `main`, so the static `count` starts at 0. -/

namespace Cexp.SelectServer

def MAX_CONNS : Nat := 2

abbrev Slot := Fin MAX_CONNS

def Slot.first : Slot := ⟨0, by decide⟩

inductive SslError where
  | wantRead
  | wantWrite
  | other (code : Int)
  deriving DecidableEq, Repr

inductive Pc where
  | select
  | accept
  | handshake (i : Slot)
  | readWrite (i : Slot)
  | returned
  deriving DecidableEq, Repr

/-- The locals that outlive an iteration, 0 in a slot for no handle and for NULL; then what
the calls act on. Connections are numbered in the order in which they are accepted. -/
structure State where
  pc : Pc
  count : Int
  clients : Slot → Nat
  hConns : Slot → Nat
  rwConns : Slot → Nat
  accepted : Nat
  socket : Nat → Option Nat
  session : Nat → Option Nat
  created : Nat → Bool
  closed : Nat → Nat
  freed : Nat → Nat

def init : State where
  pc := .select
  count := 0
  clients := fun _ => 0
  hConns := fun _ => 0
  rwConns := fun _ => 0
  accepted := 0
  socket := fun _ => none
  session := fun _ => none
  created := fun _ => false
  closed := fun _ => 0
  freed := fun _ => 0

/-- One step, with what the calls return: whether the listening socket is in the set after
`select`; the handle from `accept` and the object from `SSL_new`; the result of `SSL_accept`
or `SSL_read` for the slot, and what `SSL_get_error` says about it. -/
inductive Label where
  | select (listening : Bool)
  | accept (client : Option Nat) (sconn : Nat)
  | handshake (ret : Int) (err : SslError)
  | read (numRead : Int) (se : SslError)
  deriving DecidableEq, Repr

def Pc.afterHandshake (i : Slot) : Pc :=
  if h : i.val + 1 < MAX_CONNS then .handshake ⟨i.val + 1, h⟩ else .readWrite .first

def Pc.afterRead (i : Slot) : Pc :=
  if h : i.val + 1 < MAX_CONNS then .readWrite ⟨i.val + 1, h⟩ else .select

def State.goto (s : State) (pc : Pc) : State := { s with pc := pc }

def State.openSocket (s : State) (client : Nat) : State :=
  { s with
    accepted := s.accepted + 1
    socket := Function.update s.socket client (some s.accepted) }

/-- `closesocket`, which fails for a handle that names no open socket. -/
def State.closesocket (s : State) (client : Nat) : State :=
  match s.socket client with
  | none => s
  | some n => { s with
      socket := Function.update s.socket client none
      closed := Function.update s.closed n (s.closed n + 1) }

/-- `SSL_new` and `SSL_set_fd` for connection `n`. -/
def State.sslNew (s : State) (sconn n : Nat) : State :=
  { s with
    session := Function.update s.session sconn (some n)
    created := Function.update s.created n true }

def State.sslFree (s : State) (sconn : Nat) : State :=
  match s.session sconn with
  | none => s
  | some n => { s with
      session := Function.update s.session sconn none
      freed := Function.update s.freed n (s.freed n + 1) }

def State.firstFree (s : State) : Option Slot :=
  (List.finRange MAX_CONNS).find? fun i => s.clients i = 0

/-- The branch for a connection that is accepted as number `n`. -/
def State.newConnection (s : State) (client sconn n : Nat) : Option State :=
  if s.count = MAX_CONNS then some (s.closesocket client)
  else
    match s.firstFree with
    | none => some { s with count := s.count + 1 }
    | some i =>
      if sconn ≠ 0 ∧ s.session sconn = none then
        some { s.sslNew sconn n with
          count := s.count + 1
          clients := Function.update s.clients i client
          hConns := Function.update s.hConns i sconn }
      else none

def State.handshakeFailed (s : State) (i : Slot) : State :=
  { (s.sslFree (s.hConns i)).closesocket (s.clients i) with
    hConns := Function.update s.hConns i 0
    clients := Function.update s.clients i 0
    count := s.count - 1 }

def State.readFailed (s : State) (i : Slot) : State :=
  { s.closesocket (s.clients i) with
    clients := Function.update s.clients i 0
    rwConns := Function.update s.rwConns i 0
    count := s.count - 1 }

def State.handshake (s : State) (i : Slot) (ret : Int) (err : SslError) : State :=
  if s.hConns i = 0 then s
  else if ret ≤ 0 then
    if ret < 0 ∧ (err = .wantRead ∨ err = .wantWrite) then s else s.handshakeFailed i
  else { s with
    hConns := Function.update s.hConns i 0
    rwConns := Function.update s.rwConns i (s.hConns i) }

def State.readWrite (s : State) (i : Slot) (numRead : Int) (se : SslError) : State :=
  if s.rwConns i = 0 then s
  else if numRead ≤ 0 then
    if se = .wantRead then s else s.readFailed i
  else s

/-- `accept` returns a handle that is not zero and not open, and `SSL_new` an object that is
not live. `WSACleanup` at the end closes what is still open, without `closesocket`. -/
def step (s : State) : Label → Option State
  | .select listening =>
    match s.pc with
    | .select => some (s.goto (if listening then .accept else .handshake .first))
    | _ => none
  | .accept client sconn =>
    match s.pc, client with
    | .accept, none => some { s.goto .returned with socket := fun _ => none }
    | .accept, some client =>
      if client ≠ 0 ∧ s.socket client = none then
        ((s.openSocket client).newConnection client sconn s.accepted).map
          (·.goto (.handshake .first))
      else none
    | _, _ => none
  | .handshake ret err =>
    match s.pc with
    | .handshake i => some ((s.handshake i ret err).goto (.afterHandshake i))
    | _ => none
  | .read numRead se =>
    match s.pc with
    | .readWrite i => some ((s.readWrite i numRead se).goto (.afterRead i))
    | _ => none

end Cexp.SelectServer
