import Cexp.IocpServer
import Cexp.TlsSession

/-! The TLS server of `myIocpSSLServer.cpp` from its accept loop on: the loop on the main
thread, `CompletionThread`, the completion port, and OpenSSL's session behind every client.
What the file shares with `myIocpServer.c` is as there; nothing is put into its queue. -/

namespace Cexp.IocpSslServer

open TlsSession
open IocpServer (Heap Sock Packet BUF_SIZE)

def DDATA_SIZE : Nat := 128

/-- The array `ddata`, whether it has been written outside its bounds, and what the thread
has printed of it. -/
structure Display where
  ddata : List Byte
  outside : Bool
  output : List Byte
  deriving DecidableEq

/-- `ddata[numRead] = 0` and `printf` after `SSL_read`, whose return is -1 for none. -/
def Display.print (x : Display) (data : Option (List Byte)) : Display :=
  let numRead : Int := match data with
    | none => -1
    | some d => d.length
  let ddata := data.getD [] ++ x.ddata.drop (data.getD []).length
  let inside := 0 ≤ numRead ∧ numRead < ddata.length
  let ddata := if inside then ddata.set numRead.toNat 0 else ddata
  { ddata := ddata
    outside := x.outside || !decide inside
    output := x.output ++ ddata.takeWhile (· ≠ 0) }

/-- What `CompletionThread` does with the bytes of one completion, from `SSL_set_bio` on. -/
def received (decrypt : Nat → List Byte → Option (List Byte)) (x : Session × Display)
    (edata : List Byte) : Session × Display :=
  let (session, data) := (x.1.setBio.bioWrite edata).read decrypt DDATA_SIZE
  (session, x.2.print data)

structure Client where
  ctx : Heap
  socket : Sock
  overlapped : Heap
  associated : Bool
  buffer : List Byte
  outstanding : Bool
  session : Session

inductive MainPc where
  | calloc
  | accept (c : Nat)
  | sslNew (c : Nat)
  | sslSetFd (c : Nat)
  | sslAccept (c : Nat)
  | associate (c : Nat)
  | recv (c : Nat)
  | recvFailed (c : Nat)
  | post
  | waitCompletion
  | closePort
  | closed
  deriving DecidableEq, Repr

inductive CompletionPc where
  | getStatus
  | emptyTransfer
  | closeClient
  | freeClient
  | copy (transferredNum : Nat)
  | setBio (edata : List Byte)
  | bioWrite (memBio : Nat) (edata : List Byte)
  | sslRead
  | recv
  | exitClose
  | exitFree
  | exitFreeOverlapped
  | exited
  deriving DecidableEq

/-- The global `ssl` names the session by the client that `SSL_new` was called for. -/
structure State where
  ssl : Option Nat
  main : MainPc
  pc : CompletionPc
  clientCtx : Option Nat
  overlappedPtr : Option Nat
  display : Display
  client : Nat → Client
  packets : List Packet
  closed : Bool

def init : State where
  ssl := none
  main := .calloc
  pc := .getStatus
  clientCtx := none
  overlappedPtr := none
  display := ⟨List.replicate DDATA_SIZE 0, false, []⟩
  client := fun _ =>
    ⟨.unused, .unused, .unused, false, List.replicate BUF_SIZE 0, false, Session.new⟩
  packets := []
  closed := false

/-- One step; `main` and `completion` are the operations that leave no choice. A session
that still has its socket reads `direct` from there. -/
inductive Label where
  | calloc (c : Nat)
  | accept (ok : Bool)
  | recvFirst (ok : Bool)
  | waitCompletion
  | main
  | getStatus
  | completion
  | sslRead (direct : Option (List Byte))
  | recvAgain (ok : Bool)
  | arrive (c : Nat) (chunk : List Byte)
  | peerClosed (c : Nat)
  | fail (c : Nat)
  deriving DecidableEq

def State.setClient (s : State) (c : Nat) (x : Client) : State :=
  { s with client := Function.update s.client c x }

def State.setSession (s : State) (c : Nat) (x : Session) : State :=
  s.setClient c { s.client c with session := x }

def State.freeOverlapped (s : State) : State :=
  match s.overlappedPtr with
  | none => s
  | some c => s.setClient c { s.client c with overlapped := .freed }

def State.complete (s : State) (c : Nat) (p : Packet) : Option State :=
  if (s.client c).associated ∧ (s.client c).outstanding then
    some { s.setClient c { s.client c with outstanding := false } with packets := s.packets ++ [p] }
  else none

def mainStep (s : State) : Option State :=
  match s.main with
  | .sslNew c => some { s.setSession c Session.new with main := .sslSetFd c, ssl := some c }
  | .sslSetFd c => s.ssl.map fun d =>
    { s.setSession d { (s.client d).session with bio := none } with main := .sslAccept c }
  | .sslAccept c => some { s with main := .associate c }
  | .associate c =>
    some { s.setClient c { s.client c with associated := true } with main := .recv c }
  | .recvFailed c =>
    some { s.setClient c { s.client c with overlapped := .freed, socket := .closed } with
      main := .post }
  | .post =>
    some { s with main := .waitCompletion, packets := s.packets ++ [⟨0, none, none, true⟩] }
  | .closePort => some { s with main := .closed, closed := true }
  | _ => none

def getStatus (s : State) : Option State :=
  match s.pc with
  | .getStatus =>
    if s.closed then some { s with pc := .exitClose, overlappedPtr := none }
    else
      match s.packets with
      | [] => none
      | p :: rest =>
        let pc := if p.success = false then .exitClose
          else if p.transferred = 0 then .emptyTransfer else .copy p.transferred
        some { s with packets := rest, pc := pc, clientCtx := p.key, overlappedPtr := p.overlapped }
  | _ => none

def completionStep (s : State) : Option State :=
  match s.pc, s.clientCtx with
  | .emptyTransfer, some _ => some { s.freeOverlapped with pc := .closeClient }
  | .emptyTransfer, none => some { s.freeOverlapped with pc := .exitClose }
  | .closeClient, some c =>
    some { s.setClient c { s.client c with socket := .closed } with pc := .freeClient }
  | .freeClient, some c =>
    some { s.setClient c { s.client c with ctx := .freed } with pc := .getStatus, clientCtx := none }
  | .copy n, some c => some { s with pc := .setBio ((s.client c).buffer.take n) }
  | .setBio edata, some _ => s.ssl.map fun d =>
    { s.setSession d (s.client d).session.setBio with pc := .bioWrite d edata }
  | .bioWrite d edata, some _ =>
    some { s.setSession d ((s.client d).session.bioWrite edata) with pc := .sslRead }
  | .exitClose, some c =>
    some { s.setClient c { s.client c with socket := .closed } with pc := .exitFree }
  | .exitClose, none => some { s with pc := .exitFreeOverlapped }
  | .exitFree, some c =>
    some { s.setClient c { s.client c with ctx := .freed } with pc := .exitFreeOverlapped }
  | .exitFreeOverlapped, _ => some { s.freeOverlapped with pc := .exited }
  | _, _ => none

/-- `decrypt c` is the protection of the stream of client `c`. -/
def step (decrypt : Nat → Nat → List Byte → Option (List Byte)) (s : State) :
    Label → Option State
  | .calloc c =>
    match s.main with
    | .calloc =>
      if (s.client c).ctx = .unused then
        some { s.setClient c { s.client c with ctx := .live } with main := .accept c }
      else none
    | _ => none
  | .accept ok =>
    match s.main with
    | .accept c =>
      if ok then some { s.setClient c { s.client c with socket := .opened } with main := .sslNew c }
      else some { s with main := .post }
    | _ => none
  | .recvFirst ok =>
    match s.main with
    | .recv c =>
      if ok then
        some { s.setClient c { s.client c with overlapped := .live, outstanding := true } with
          main := .calloc }
      else some { s.setClient c { s.client c with overlapped := .live } with main := .recvFailed c }
    | _ => none
  | .waitCompletion =>
    match s.main with
    | .waitCompletion => some { s with main := .closePort }
    | _ => none
  | .main => mainStep s
  | .getStatus => getStatus s
  | .completion => completionStep s
  | .sslRead direct =>
    match s.pc, s.ssl with
    | .sslRead, some d =>
      let x := (s.client d).session
      if x.bio = none then
        some { s with pc := .recv, display := s.display.print (direct.map (·.take DDATA_SIZE)) }
      else
        some { s.setSession d (x.read (decrypt d) DDATA_SIZE).1 with
          pc := .recv
          display := s.display.print (x.read (decrypt d) DDATA_SIZE).2 }
    | _, _ => none
  | .recvAgain ok =>
    match s.pc, s.clientCtx with
    | .recv, some c =>
      if ok then
        if (s.client c).socket = .opened then
          some { s.setClient c { s.client c with outstanding := true } with pc := .getStatus }
        else none
      else some { s with pc := .exitClose }
    | _, _ => none
  | .arrive c chunk =>
    if 0 < chunk.length ∧ chunk.length ≤ BUF_SIZE then
      (s.complete c ⟨chunk.length, some c, some c, true⟩).map fun s' =>
        s'.setClient c { s'.client c with
          buffer := chunk ++ (s.client c).buffer.drop chunk.length }
    else none
  | .peerClosed c => s.complete c ⟨0, some c, some c, true⟩
  | .fail c => s.complete c ⟨0, some c, some c, false⟩

end Cexp.IocpSslServer
