import Cexp.Client

/-! The functions of `myclient.c` one whole call at a time: `ReadySocket`, `mysocket_clean` and
a `waitReceive` that runs to its end, whatever the socket calls inside them return. Every socket
that was ever created stays on record, with how often it has been passed to `closesocket`. -/

namespace Cexp.ClientCalls

open Transition
open Client (INVALID_SOCKET WSAEWOULDBLOCK BUF_SIZE SelectResult RecvResult)

/-- A socket that was created; `connection` counts the `socket` calls. -/
structure Socket where
  connection : Nat
  fd : Nat
  isOpen : Bool
  established : Bool
  closes : Nat
  deriving DecidableEq, Repr

def Socket.close (x : Socket) : Socket :=
  { x with isOpen := false, closes := x.closes + 1 }

def Socket.establish (x : Socket) : Socket :=
  { x with established := x.established || x.isOpen }

@[simp] theorem Socket.close_fd (x : Socket) : x.close.fd = x.fd := rfl

@[simp] theorem Socket.establish_fd (x : Socket) : x.establish.fd = x.fd := rfl

/-- The globals, the sockets with the newest first, the last value `stateChanged` was called
with, and what the last call returned, if it was one of `ReadySocket`. -/
structure State where
  clientFd : Nat
  connected : Bool
  gwinsockInit : Bool
  hasStateChanged : Bool
  startups : Nat
  sockets : List Socket
  reported : Option Bool
  returned : Option Int
  deriving DecidableEq, Repr

def init (hasStateChanged : Bool) : State where
  clientFd := 0
  connected := false
  gwinsockInit := false
  hasStateChanged := hasStateChanged
  startups := 0
  sockets := []
  reported := none
  returned := none

/-- A handle names the newest socket that was given it. -/
def State.updateSocket (s : State) (fd : Nat) (f : Socket → Socket) : State :=
  { s with sockets := s.sockets.replaceF fun x => if x.fd = fd then some (f x) else none }

def State.closesocket (s : State) (fd : Nat) : State := s.updateSocket fd Socket.close

def State.stateChanged (s : State) (state : Bool) : State :=
  if s.hasStateChanged then { s with reported := some state } else s

def State.wsaStartup (s : State) : State :=
  { s with startups := s.startups + 1, gwinsockInit := true }

/-- The last `WSACleanup` closes every socket. -/
def State.wsaCleanup (s : State) : State :=
  { s with
    startups := s.startups - 1
    sockets := if s.startups = 1 then s.sockets.map fun x => { x with isOpen := false }
      else s.sockets
    gwinsockInit := false }

def State.create (s : State) (fd : Nat) : State :=
  { s with
    clientFd := fd
    sockets := ⟨s.sockets.length + 1, fd, true, false, 0⟩ :: s.sockets }

def mysocketClean (s : State) : State :=
  let s := { s with connected := false }
  let s := if 0 ≤ s.clientFd then s.closesocket s.clientFd else s
  s.stateChanged false

def setBlock (ioctl : Bool) (s : State) : State × Int :=
  if ioctl then (s, 0) else (mysocketClean s, 1)

/-- What the calls inside `ReadySocket` return; `connect` is the error code, if any. -/
structure ReadyResults where
  startup : Bool
  socket : Option Nat
  setNonBlock : Bool
  connect : Option Int
  select : SelectResult
  setBlock : Bool
  deriving DecidableEq, Repr

def ReadyResults.connectFails (r : ReadyResults) : Bool :=
  match r.connect with
  | none => false
  | some e => e ≠ WSAEWOULDBLOCK

/-- `ReadySocket` from its first call of `setBlock` on; neither call's result is looked at. -/
def connectSocket (r : ReadyResults) (s : State) : State × Int :=
  let s := (setBlock r.setNonBlock s).1
  if r.connectFails then (mysocketClean s, 1)
  else if r.select ≠ .ready then (mysocketClean s, 1)
  else
    let s := s.updateSocket s.clientFd Socket.establish
    let s := (setBlock r.setBlock s).1
    (State.stateChanged { s with connected := true } true, 0)

def readySocket (r : ReadyResults) (s : State) : State × Int :=
  if s.connected then (s, 0)
  else if !s.gwinsockInit && !r.startup then (s, 1)
  else
    let s := if s.gwinsockInit then s else s.wsaStartup
    match r.socket with
    | none => ({ s with clientFd := INVALID_SOCKET }, 1)
    | some fd => connectSocket r (s.create fd)

/-- One pass of the loop of `waitReceive`; `isSet` is the `FD_ISSET` after `recv`. -/
structure Round where
  select : SelectResult
  recv : RecvResult
  isSet : Bool
  deriving DecidableEq, Repr

/-- What follows the loop. -/
def endReceive (s : State) : State :=
  let s := mysocketClean s
  if s.gwinsockInit then s.wsaCleanup else s

/-- The loop leaves the globals alone (its buffer is in `Cexp.Client`); `none` where the rounds
do not end it. -/
def waitReceive (s : State) : List Round → Option State
  | [] => none
  | r :: rs =>
    match r.select, r.recv with
    | .ready, .data bytes =>
      if bytes.length = 0 ∨ BUF_SIZE - 2 < bytes.length then none
      else if r.isSet then waitReceive s rs
      else if rs = [] then some (endReceive s) else none
    | _, _ => if rs = [] then some (endReceive s) else none

inductive Call where
  | readySocket (r : ReadyResults)
  | mysocketClean
  | waitReceive (rounds : List Round)
  deriving DecidableEq, Repr

/-- `socket` returns a handle that no open socket has. -/
def State.fresh (s : State) (fd : Nat) : Bool :=
  fd < INVALID_SOCKET && s.sockets.all fun x => !(x.fd == fd && x.isOpen)

def step (s : State) : Call → Option State
  | .readySocket r =>
    if r.socket.all s.fresh then
      some { (readySocket r s).1 with returned := some (readySocket r s).2 }
    else none
  | .mysocketClean => some { mysocketClean s with returned := none }
  | .waitReceive rounds =>
    (waitReceive s rounds).map fun s => { s with returned := none }

/-- The socket `client_fd` names. -/
def State.named (s : State) : Option Socket := s.sockets.find? fun x => x.fd = s.clientFd

/-- The connection flag tells the truth, and every socket but the current connection has been
closed once. -/
structure Truthful (s : State) : Prop where
  connected : s.connected = true ↔
    ∃ x, s.named = some x ∧ x.isOpen = true ∧ x.established = true
  returned : s.returned = some 0 → s.connected = true
  reported : ∀ state, s.reported = some state → state = s.connected
  atMostOnce : ∀ x ∈ s.sockets, x.closes ≤ 1
  once : ∀ x ∈ s.sockets, ¬(s.connected = true ∧ s.named = some x) → x.closes = 1

/-- `ReadySocket` comes as far as its first `ioctlsocket`. -/
def State.creates (s : State) (r : ReadyResults) : Bool :=
  !s.connected && (s.gwinsockInit || r.startup) && r.socket.isSome

/-- Neither `ioctlsocket` fails, of those that `ReadySocket` comes to. -/
def ReadyResults.modesSet (r : ReadyResults) : Bool :=
  r.setNonBlock && (r.setBlock || r.connectFails || r.select ≠ .ready)

/-- Neither `ioctlsocket` of `ReadySocket` fails, and `mysocket_clean` runs only while connected
or when `client_fd` names no socket that was ever created. -/
def cleansOnce (s : State) : Call → Bool
  | .readySocket r => !s.creates r || r.modesSet
  | .mysocketClean | .waitReceive _ => s.connected || s.named.isNone

def Socket.released (x : Socket) : Prop := x.closes = 1 ∧ x.isOpen = false

/-- The newest socket is the current connection, if there is one; every other is closed. -/
structure Settled (s : State) : Prop where
  connected : s.connected = true → ∃ x xs, s.sockets = x :: xs ∧ x.fd = s.clientFd ∧
    x.isOpen = true ∧ x.established = true ∧ x.closes = 0 ∧ ∀ y ∈ xs, y.released
  disconnected : s.connected = false → ∀ y ∈ s.sockets, y.released
  silent : s.hasStateChanged = false → s.reported = none
  reported : ∀ state, s.reported = some state → state = s.connected
  returned : s.returned = some 0 → s.connected = true

theorem settled_init (cb : Bool) : Settled (init cb) where
  connected h := nomatch h
  disconnected _ _ hy := nomatch hy
  silent _ := rfl
  reported _ h := nomatch h
  returned h := nomatch h

theorem named_cons {s : State} {x : Socket} {xs : List Socket} (hs : s.sockets = x :: xs)
    (hx : x.fd = s.clientFd) : s.named = some x := by
  simp [State.named, hs, hx]

theorem Settled.truthful {s : State} (h : Settled s) : Truthful s := by
  cases hc : s.connected with
  | false =>
    have hrel := h.disconnected hc
    refine ⟨⟨fun hh => by simp [hc] at hh, ?_⟩, h.returned, h.reported,
      fun x hx => (hrel x hx).1.le, fun x hx _ => (hrel x hx).1⟩
    rintro ⟨x, hx, ho, -⟩
    simp [(hrel x (List.mem_of_find?_eq_some hx)).2] at ho
  | true =>
    obtain ⟨x, xs, hs, hx, ho, he, hz, hrel⟩ := h.connected hc
    have hn := named_cons hs hx
    refine ⟨⟨fun _ => ⟨x, hn, ho, he⟩, fun _ => hc⟩, h.returned, h.reported, fun y hy => ?_,
      fun y hy hcur => ?_⟩
    · rcases List.mem_cons.mp (hs ▸ hy) with rfl | hy
      · omega
      · exact (hrel y hy).1.le
    · rcases List.mem_cons.mp (hs ▸ hy) with rfl | hy
      · exact absurd ⟨hc, hn⟩ hcur
      · exact (hrel y hy).1

/-- The newest socket, which `client_fd` names, has been closed twice, or is closed while the
flag is set. -/
theorem not_truthful_of_head {s : State} {x : Socket} {xs : List Socket} (hs : s.sockets = x :: xs)
    (hx : x.fd = s.clientFd) (hbad : 2 ≤ x.closes ∨ s.connected = true ∧ x.isOpen = false) :
    ¬ Truthful s := by
  intro h
  rcases hbad with htwice | ⟨hc, hshut⟩
  · have hle := h.atMostOnce x (hs ▸ List.mem_cons_self)
    omega
  · obtain ⟨y, hy, ho, -⟩ := h.connected.mp hc
    rw [named_cons hs hx] at hy
    obtain rfl := Option.some.inj hy
    simp [hshut] at ho

theorem updateSocket_cons {s : State} {x : Socket} {xs : List Socket} (hs : s.sockets = x :: xs)
    (hx : x.fd = s.clientFd) (f : Socket → Socket) :
    (s.updateSocket s.clientFd f).sockets = f x :: xs := by
  simp [State.updateSocket, hs, hx]

theorem stateChanged_eq (s : State) (state : Bool) : s.stateChanged state =
    { s with reported := if s.hasStateChanged then some state else s.reported } := by
  unfold State.stateChanged
  split <;> rfl

theorem stateChanged_reported {s : State} (h : s.hasStateChanged = false → s.reported = none)
    {state v : Bool} (hv : (s.stateChanged state).reported = some v) : v = state := by
  rw [stateChanged_eq] at hv
  simp only at hv
  split at hv
  case isTrue => exact (Option.some.inj hv).symm
  case isFalse hcb => simp [h (by simpa using hcb)] at hv

theorem stateChanged_silent {s : State} (h : s.hasStateChanged = false → s.reported = none)
    (state : Bool) (hcb : (s.stateChanged state).hasStateChanged = false) :
    (s.stateChanged state).reported = none := by
  rw [stateChanged_eq] at hcb ⊢
  simpa [show s.hasStateChanged = false from hcb] using h hcb

theorem mysocketClean_eq (s : State) : mysocketClean s =
    (({ s with connected := false } : State).closesocket s.clientFd).stateChanged false := by
  simp [mysocketClean]

@[simp] theorem mysocketClean_connected (s : State) : (mysocketClean s).connected = false := by
  rw [mysocketClean_eq, stateChanged_eq]
  rfl

@[simp] theorem mysocketClean_clientFd (s : State) : (mysocketClean s).clientFd = s.clientFd := by
  rw [mysocketClean_eq, stateChanged_eq]
  rfl

theorem mysocketClean_sockets (s : State) : (mysocketClean s).sockets =
    s.sockets.replaceF fun x => if x.fd = s.clientFd then some x.close else none := by
  rw [mysocketClean_eq, stateChanged_eq]
  rfl

theorem mysocketClean_cons {s : State} {x : Socket} {xs : List Socket} (hs : s.sockets = x :: xs)
    (hx : x.fd = s.clientFd) : (mysocketClean s).sockets = x.close :: xs := by
  simp [mysocketClean_sockets, hs, hx]

theorem mysocketClean_of_unnamed {s : State} (h : s.named = none) :
    (mysocketClean s).sockets = s.sockets := by
  have hnone : ∀ x ∈ s.sockets, x.fd ≠ s.clientFd := by
    simpa [State.named] using h
  rw [mysocketClean_sockets]
  exact List.replaceF_of_forall_none fun x hx => if_neg (hnone x hx)

theorem mysocketClean_silent {s : State} (h : s.hasStateChanged = false → s.reported = none)
    (hcb : (mysocketClean s).hasStateChanged = false) : (mysocketClean s).reported = none := by
  rw [mysocketClean_eq] at hcb ⊢
  exact stateChanged_silent (s := ({ s with connected := false } : State).closesocket s.clientFd)
    h false hcb

theorem mysocketClean_reported {s : State} (h : s.hasStateChanged = false → s.reported = none)
    {v : Bool} (hv : (mysocketClean s).reported = some v) : v = false := by
  rw [mysocketClean_eq] at hv
  exact stateChanged_reported (s := ({ s with connected := false } : State).closesocket s.clientFd)
    h hv

theorem settled_clean {s : State} {code : Option Int}
    (hsil : s.hasStateChanged = false → s.reported = none)
    (hrel : ∀ y ∈ (mysocketClean s).sockets, y.released) (hcode : code ≠ some 0) :
    Settled { mysocketClean s with returned := code } where
  connected h := by simp at h
  disconnected _ := hrel
  silent := mysocketClean_silent hsil
  reported v hv := (mysocketClean_reported hsil hv).trans (mysocketClean_connected s).symm
  returned h := absurd h hcode

theorem settled_connected {s : State} {x : Socket} {xs : List Socket} (hs : s.sockets = x :: xs)
    (hx : x.fd = s.clientFd) (ho : x.isOpen = true) (he : x.established = true) (hz : x.closes = 0)
    (hrel : ∀ y ∈ xs, y.released) (hsil : s.hasStateChanged = false → s.reported = none) :
    Settled { State.stateChanged { s with connected := true } true with returned := some 0 } where
  connected _ := ⟨x, xs, by simpa [stateChanged_eq] using hs, by simpa [stateChanged_eq] using hx,
    ho, he, hz, hrel⟩
  disconnected h := by simp [stateChanged_eq] at h
  silent := stateChanged_silent (s := { s with connected := true }) hsil true
  reported v hv := by
    simpa [stateChanged_eq] using stateChanged_reported (s := { s with connected := true }) hsil hv
  returned _ := by simp [stateChanged_eq]

theorem Settled.clean_released {s : State} (h : Settled s)
    (hok : (s.connected || s.named.isNone) = true) :
    ∀ y ∈ (mysocketClean s).sockets, y.released := by
  cases hc : s.connected with
  | false =>
    have hn : s.named = none := by simpa [hc] using hok
    rw [mysocketClean_of_unnamed hn]
    exact h.disconnected hc
  | true =>
    obtain ⟨x, xs, hs, hx, -, -, hz, hrel⟩ := h.connected hc
    intro y hy
    rw [mysocketClean_cons hs hx] at hy
    rcases List.mem_cons.mp hy with rfl | hy
    · exact ⟨by simp [Socket.close, hz], rfl⟩
    · exact hrel y hy

/-- Closed once already, the socket `client_fd` names is closed a second time. -/
theorem Settled.clean_twice {s : State} (h : Settled s)
    (hno : (s.connected || s.named.isNone) = false) :
    ∃ y ∈ (mysocketClean s).sockets, 2 ≤ y.closes := by
  obtain ⟨hc, hn⟩ := Bool.or_eq_false_iff.mp hno
  obtain ⟨x, hx⟩ : ∃ x, s.named = some x := Option.isSome_iff_exists.mp (by
    cases hs : s.named with
    | none => simp [hs] at hn
    | some x => rfl)
  have hfd : x.fd = s.clientFd := by simpa using List.find?_some hx
  have hmem := List.mem_of_find?_eq_some hx
  obtain ⟨a, a', l₁, l₂, -, ha, hl, hr⟩ := List.exists_of_replaceF
    (p := fun x : Socket => if x.fd = s.clientFd then some x.close else none) hmem (if_pos hfd)
  refine ⟨a', ?_, ?_⟩
  · rw [mysocketClean_sockets, hr]
    simp
  · split at ha
    case isFalse => cases ha
    case isTrue =>
      obtain rfl := Option.some.inj ha
      have hone := (h.disconnected hc a (by simp [hl])).1
      simp [Socket.close, hone]

@[simp] theorem updateSocket_clientFd (s : State) (fd : Nat) (f : Socket → Socket) :
    (s.updateSocket fd f).clientFd = s.clientFd := rfl

/-- After `socket`: the newest socket is open and `client_fd` names it. -/
structure Created (s : State) (x : Socket) (xs : List Socket) : Prop where
  sockets : s.sockets = x :: xs
  fd : x.fd = s.clientFd
  isOpen : x.isOpen = true
  closes : x.closes = 0
  released : ∀ y ∈ xs, y.released
  silent : s.hasStateChanged = false → s.reported = none

theorem Created.clean {s : State} {x : Socket} {xs : List Socket} (h : Created s x xs)
    {code : Option Int} (hcode : code ≠ some 0) :
    Settled { mysocketClean s with returned := code } := by
  refine settled_clean h.silent (fun y hy => ?_) hcode
  rw [mysocketClean_cons h.sockets h.fd] at hy
  rcases List.mem_cons.mp hy with rfl | hy
  · exact ⟨by simp [Socket.close, h.closes], rfl⟩
  · exact h.released y hy

theorem Created.connect {s : State} {x : Socket} {xs : List Socket} (h : Created s x xs)
    {r : ReadyResults} (hr : r.modesSet = true) :
    Settled { (connectSocket r s).1 with returned := some (connectSocket r s).2 } := by
  simp only [ReadyResults.modesSet, Bool.and_eq_true] at hr
  obtain ⟨hnon, hblock⟩ := hr
  unfold connectSocket
  simp only [setBlock, hnon, if_true]
  split
  case isTrue => exact h.clean (by simp)
  case isFalse hconn =>
    split
    case isTrue => exact h.clean (by simp)
    case isFalse hsel =>
      have hb : r.setBlock = true := by simpa [hconn, hsel] using hblock
      simp only [hb, if_true]
      exact settled_connected (updateSocket_cons h.sockets h.fd Socket.establish) h.fd h.isOpen
        (by simp [Socket.establish, h.isOpen]) h.closes h.released h.silent

theorem Created.connect_bad {s : State} {x : Socket} {xs : List Socket} (h : Created s x xs)
    {r : ReadyResults} (hr : r.modesSet = false) :
    ¬ Truthful { (connectSocket r s).1 with returned := some (connectSocket r s).2 } := by
  have hclean {u : State} {y : Socket} {code : Option Int} (hu : u.sockets = y :: xs)
      (hy : y.fd = u.clientFd) (hone : 1 ≤ y.closes) :
      ¬ Truthful { mysocketClean u with returned := code } :=
    not_truthful_of_head (mysocketClean_cons hu hy) (by simpa using hy)
      (Or.inl (by simp [Socket.close]; omega))
  have hset {u : State} {y : Socket} {code : Option Int} (hu : u.sockets = y :: xs)
      (hy : y.fd = u.clientFd) (hshut : y.isOpen = false) :
      ¬ Truthful { State.stateChanged { u with connected := true } true with returned := code } :=
    not_truthful_of_head (x := y) (by simpa [stateChanged_eq] using hu)
      (by simpa [stateChanged_eq] using hy) (Or.inr (by simp [stateChanged_eq, hshut]))
  have hone := mysocketClean_cons h.sockets h.fd
  have hfd : x.close.fd = (mysocketClean s).clientFd := by simpa using h.fd
  unfold connectSocket
  cases hnon : r.setNonBlock with
  | false =>
    simp only [setBlock, Bool.false_eq_true, if_false]
    split
    case isTrue => exact hclean hone hfd (by simp [Socket.close])
    case isFalse =>
      split
      case isTrue => exact hclean hone hfd (by simp [Socket.close])
      case isFalse =>
        have hest := updateSocket_cons hone hfd Socket.establish
        cases r.setBlock with
        | true => exact hset hest hfd rfl
        | false =>
          exact hset (mysocketClean_cons hest hfd) (by simpa using hfd) rfl
  | true =>
    simp only [ReadyResults.modesSet, hnon, Bool.true_and, Bool.or_eq_false_iff] at hr
    obtain ⟨⟨hb, hconn⟩, hsel⟩ := hr
    simp only [setBlock, hconn, hb, Bool.false_eq_true, if_true, if_false]
    rw [if_neg (by simpa using hsel)]
    have hest := updateSocket_cons h.sockets h.fd Socket.establish
    exact hset (mysocketClean_cons hest h.fd) (by simpa using h.fd)
      rfl

theorem Settled.started {s : State} (h : Settled s) :
    Settled (if s.gwinsockInit then s else s.wsaStartup) := by
  split
  case isTrue => exact h
  case isFalse => exact ⟨h.connected, h.disconnected, h.silent, h.reported, h.returned⟩

@[simp] theorem started_connected (s : State) :
    (if s.gwinsockInit then s else s.wsaStartup).connected = s.connected := by
  split <;> rfl

theorem Settled.create {s : State} (h : Settled s) (hc : s.connected = false) (fd : Nat) :
    Created (s.create fd) ⟨s.sockets.length + 1, fd, true, false, 0⟩ s.sockets :=
  ⟨rfl, rfl, rfl, rfl, h.disconnected hc, h.silent⟩

theorem Settled.ready {s : State} (h : Settled s) {r : ReadyResults}
    (hok : (!s.creates r || r.modesSet) = true) :
    Settled { (readySocket r s).1 with returned := some (readySocket r s).2 } := by
  unfold readySocket
  split
  case isTrue hc => exact ⟨h.connected, h.disconnected, h.silent, h.reported, fun _ => hc⟩
  case isFalse hc =>
    have hdis : s.connected = false := by simpa using hc
    split
    case isTrue =>
      exact ⟨h.connected, h.disconnected, h.silent, h.reported, fun hr => by simp at hr⟩
    case isFalse hinit =>
      have h' := h.started
      cases hs : r.socket with
      | none =>
        refine ⟨fun hcon => ?_, h'.disconnected, h'.silent, h'.reported, fun hr => by simp at hr⟩
        rw [started_connected] at hcon
        simp [hdis] at hcon
      | some fd =>
        refine (h'.create (by simpa using hdis) fd).connect ?_
        have hcreates : s.creates r = true := by
          cases hi : s.gwinsockInit <;> simp_all [State.creates]
        simpa [hcreates] using hok

theorem Settled.ready_bad {s : State} (h : Settled s) {r : ReadyResults}
    (hno : (!s.creates r || r.modesSet) = false) :
    ¬ Truthful { (readySocket r s).1 with returned := some (readySocket r s).2 } := by
  simp only [Bool.or_eq_false_iff, Bool.not_eq_false', State.creates, Bool.and_eq_true,
    Bool.not_eq_true'] at hno
  obtain ⟨⟨⟨hdis, hinit⟩, hsome⟩, hmodes⟩ := hno
  obtain ⟨fd, hfd⟩ := Option.isSome_iff_exists.mp hsome
  have hgo : ¬(!s.gwinsockInit && !r.startup) = true := by
    cases hi : s.gwinsockInit <;> simp_all
  unfold readySocket
  simp only [hdis, Bool.false_eq_true, if_false, hgo, hfd]
  exact (h.started.create (by simpa using hdis) fd).connect_bad hmodes

theorem waitReceive_eq {s t : State} {rounds : List Round} (h : waitReceive s rounds = some t) :
    t = endReceive s := by
  induction rounds with
  | nil => cases h
  | cons r rs ih =>
    have hend (hh : (if rs = [] then some (endReceive s) else none) = some t) :
        t = endReceive s := by
      split at hh
      case isTrue => exact (Option.some.inj hh).symm
      case isFalse => cases hh
    unfold waitReceive at h
    split at h
    · split at h
      case isTrue => cases h
      case isFalse =>
        split at h
        case isTrue => exact ih h
        case isFalse => exact hend h
    · exact hend h

theorem Settled.wsaCleanup {s : State} (h : Settled s) (hc : s.connected = false) :
    Settled s.wsaCleanup where
  connected hcon := by
    have : s.connected = true := hcon
    simp [hc] at this
  disconnected _ := by
    unfold State.wsaCleanup
    simp only
    split
    case isTrue =>
      intro y hy
      obtain ⟨x, hx, rfl⟩ := List.mem_map.mp hy
      exact ⟨(h.disconnected hc x hx).1, rfl⟩
    case isFalse => exact h.disconnected hc
  silent := h.silent
  reported := h.reported
  returned := h.returned

theorem wsaCleanup_closes {s : State} {y : Socket} (hy : y ∈ s.sockets) :
    ∃ z ∈ s.wsaCleanup.sockets, z.closes = y.closes := by
  unfold State.wsaCleanup
  simp only
  split
  case isTrue => exact ⟨_, List.mem_map_of_mem hy, rfl⟩
  case isFalse => exact ⟨y, hy, rfl⟩

theorem Settled.endReceive {s : State} (h : Settled s)
    (hok : (s.connected || s.named.isNone) = true) :
    Settled { ClientCalls.endReceive s with returned := none } := by
  have hclean : Settled { mysocketClean s with returned := none } :=
    settled_clean h.silent (h.clean_released hok) (by simp)
  unfold ClientCalls.endReceive
  simp only
  split
  case isTrue => exact hclean.wsaCleanup (mysocketClean_connected s)
  case isFalse => exact hclean

theorem Settled.endReceive_bad {s : State} (h : Settled s)
    (hno : (s.connected || s.named.isNone) = false) :
    ¬ Truthful { ClientCalls.endReceive s with returned := none } := by
  intro ht
  obtain ⟨y, hy, htwice⟩ := h.clean_twice hno
  obtain ⟨z, hz, hle⟩ : ∃ z ∈ (ClientCalls.endReceive s).sockets, 2 ≤ z.closes := by
    unfold ClientCalls.endReceive
    simp only
    split
    case isTrue =>
      obtain ⟨z, hz, he⟩ := wsaCleanup_closes hy
      exact ⟨z, hz, by omega⟩
    case isFalse => exact ⟨y, hy, htwice⟩
  have hone := ht.atMostOnce z hz
  omega

theorem step_readySocket {s t : State} {r : ReadyResults} (h : step s (.readySocket r) = some t) :
    t = { (readySocket r s).1 with returned := some (readySocket r s).2 } := by
  simp only [step] at h
  split at h
  case isTrue => exact (Option.some.inj h).symm
  case isFalse => cases h

theorem step_waitReceive {s t : State} {rounds : List Round}
    (h : step s (.waitReceive rounds) = some t) : t = { endReceive s with returned := none } := by
  obtain ⟨u, hu, rfl⟩ := Option.map_eq_some_iff.mp h
  rw [waitReceive_eq hu]

theorem Settled.step {s t : State} {c : Call} (h : Settled s) (hok : cleansOnce s c = true)
    (hs : step s c = some t) : Settled t := by
  cases c with
  | readySocket r =>
    rw [step_readySocket hs]
    exact h.ready hok
  | mysocketClean =>
    obtain rfl := Option.some.inj hs
    exact settled_clean h.silent (h.clean_released hok) (by simp)
  | waitReceive rounds =>
    rw [step_waitReceive hs]
    exact h.endReceive hok

theorem Settled.step_bad {s t : State} {c : Call} (h : Settled s)
    (hs : ClientCalls.step s c = some t) (ht : Truthful t) : cleansOnce s c = true := by
  by_contra hno
  have hno : cleansOnce s c = false := by simpa using hno
  cases c with
  | readySocket r =>
    rw [step_readySocket hs] at ht
    exact h.ready_bad hno ht
  | mysocketClean =>
    obtain rfl := Option.some.inj hs
    obtain ⟨y, hy, htwice⟩ := h.clean_twice hno
    have hone := ht.atMostOnce y hy
    omega
  | waitReceive rounds =>
    rw [step_waitReceive hs] at ht
    exact h.endReceive_bad hno ht

/-- Over any calls, the flag tells the truth after each exactly if none of them closes a socket
that it, or an earlier one, has closed already or goes on to use. -/
theorem truthful_iff_cleansOnce {cb : Bool} {calls : List Call} {s : State}
    (h : exec step (init cb) calls = some s) :
    Always step Truthful (init cb) calls ↔
      Meets step (fun s c => cleansOnce s c = true) (init cb) calls :=
  always_iff_meets (fun _ _ _ hS hok hs => hS.step hok hs) (fun _ hS => hS.truthful)
    (fun _ _ _ hS hs ht => hS.step_bad hs ht) (settled_init cb) h

def connects (fd : Nat) : ReadyResults :=
  ⟨true, some fd, true, some WSAEWOULDBLOCK, .ready, true⟩

/-- A connection that the peer closes, and another one on the same handle. -/
def connectTwice : List Call :=
  [.readySocket (connects 304),
    .waitReceive [⟨.ready, .data [72, 105], true⟩, ⟨.ready, .closed, true⟩],
    .readySocket (connects 304)]

theorem truthful_iff_cleansOnce_connectTwice :
    ∃ s, exec step (init true) connectTwice = some s ∧
      Always step Truthful (init true) connectTwice := by
  obtain ⟨s, hs, -⟩ := exec_exists step (init true) connectTwice (fun _ => true) (by decide +kernel)
  exact ⟨s, hs, (truthful_iff_cleansOnce hs).mpr (by decide +kernel)⟩

/-- The socket is writable, but cannot be set to blocking again: `ReadySocket` reports a
connection on a socket it has just closed. -/
theorem flag_set_on_closed_socket : ¬ ∀ (cb : Bool) (calls : List Call) (s : State),
    exec step (init cb) calls = some s → Always step Truthful (init cb) calls := by
  intro h
  obtain ⟨s, hs, hp⟩ := exec_exists step (init true)
    [.readySocket { connects 304 with setBlock := false }]
    (fun s => s.connected && s.named.all fun x => !x.isOpen) (by decide +kernel)
  have ht := (h true _ s hs).last hs
  simp only [Bool.and_eq_true, Option.all_eq_true_iff_get] at hp
  obtain ⟨x, hx, ho, -⟩ := ht.connected.mp hp.1
  have hshut := hp.2 (by simp [hx])
  simp [hx, ho] at hshut

end Cexp.ClientCalls
