import Cexp.SelectServer

/-! `ServerThread` of `myserver.c`, the server without TLS: one set of sockets goes from each
`select` to the next. -/

namespace Cexp.PlainServer

open Transition
open SelectServer (MAX_CONNS Slot)

abbrev Byte := BitVec 8

def BUF_SIZE : Nat := 256

def FD_SETSIZE : Nat := 64

def INVALID_SOCKET : Nat := 2 ^ 64 - 1

/-- The loop stands at `select`, or is left; `undefined` once it has written behind `buffer`. -/
inductive Pc where
  | loop
  | returned
  | undefined
  deriving DecidableEq, Repr

/-- The locals that outlive an iteration, and the sockets that are open. -/
structure State where
  pc : Pc
  serverFd : Nat
  readSet : Finset Nat
  clients : Slot → Nat
  buffer : List Byte
  count : Int
  client : Nat
  opened : Finset Nat

def init (serverFd : Nat) : State where
  pc := .loop
  serverFd := serverFd
  readSet := {serverFd}
  clients := fun _ => 0
  buffer := List.replicate BUF_SIZE 0
  count := 0
  client := 0
  opened := {serverFd}

inductive RecvResult where
  | data (bytes : List Byte)
  | closed
  | failed (eno : Int)
  deriving DecidableEq, Repr

/-- What the calls of one iteration return, where it comes to them: the sockets that are ready
after `select`, the socket from `accept`, and what `recv` reads from each slot. -/
structure Label where
  ready : Finset Nat
  accepted : Option Nat
  recv : Slot → RecvResult

def fdSet (fd : Nat) (set : Finset Nat) : Finset Nat :=
  if set.card < FD_SETSIZE then insert fd set else set

/-- `select` leaves only what is ready, and the iteration goes on when it fails. -/
def State.select (s : State) (ready : Finset Nat) : State := { s with readSet := s.readSet ∩ ready }

/-- What follows the loop: `WSACleanup` closes what is still open. -/
def State.endLoop (s : State) : State := { s with pc := .returned, opened := ∅ }

def State.firstFree (s : State) : Option Slot :=
  (List.finRange MAX_CONNS).find? fun i => s.clients i = 0

/-- The branch for a new connection. `FD_SET` is given `client`, which the loop over the slots
last set, not the new socket. -/
def State.newConnection (s : State) (newSocket : Nat) : State :=
  if s.count = MAX_CONNS then s
  else { s with
    readSet := fdSet s.client s.readSet
    count := s.count + 1
    clients := match s.firstFree with
      | none => s.clients
      | some i => Function.update s.clients i newSocket
    opened := insert newSocket s.opened }

/-- `accept` returns a handle that is not zero and not open. -/
def State.accept (s : State) (newSocket : Option Nat) : Option State :=
  if s.serverFd ∈ s.readSet then
    match newSocket with
    | none => some s.endLoop
    | some fd =>
      if fd ≠ 0 ∧ fd ≠ INVALID_SOCKET ∧ fd ∉ s.opened then some (s.newConnection fd) else none
  else some s

def State.hangUp (s : State) (i : Slot) : State :=
  { s with
    clients := Function.update s.clients i 0
    readSet := s.readSet.erase s.client
    count := s.count - 1
    opened := s.opened.erase s.client }

def exitWord : List Byte := [101, 120, 105, 116]

/-- `buffer[numRead] = '\0'`, and the answer to `exit`, which `strcmp` finds at the end. -/
def State.received (s : State) (bytes : List Byte) : State :=
  let buffer := bytes ++ 0 :: s.buffer.drop (bytes.length + 1)
  if BUF_SIZE ≤ bytes.length then { s with pc := .undefined }
  else if 4 ≤ bytes.length ∧ (buffer.drop (bytes.length - 4)).takeWhile (· ≠ 0) = exitWord then
    { s with buffer := buffer }.endLoop
  else { s with buffer := buffer }

/-- The read of slot `i`; `recv` returns at most `BUF_SIZE` bytes. -/
def State.serve (s : State) (i : Slot) (r : RecvResult) : Option State :=
  let s := { s with client := s.clients i }
  if s.client ≠ 0 ∧ s.client ∈ s.readSet then
    match r with
    | .data bytes =>
      if 0 < bytes.length ∧ bytes.length ≤ BUF_SIZE then some (s.received bytes) else none
    | _ => some (s.hangUp i)
  else some s

/-- The loop over the slots, until the server is left. -/
def serveAll (recv : Slot → RecvResult) (s : State) : List Slot → Option State
  | [] => some s
  | i :: is =>
    match s.pc with
    | .loop => (s.serve i (recv i)).bind fun s => serveAll recv s is
    | _ => some s

/-- One iteration, from a call of `select` to the next. -/
def step (s : State) (l : Label) : Option State :=
  match s.pc with
  | .loop => ((s.select l.ready).accept l.accepted).bind fun s =>
      serveAll l.recv s (List.finRange MAX_CONNS)
  | _ => none

def State.connected (s : State) : Finset Slot := Finset.univ.filter fun i => s.clients i ≠ 0

/-- At `select`, every open connection and the listening socket are watched and counted; no
write has missed the buffer. -/
structure Watching (s : State) : Prop where
  inBuffer : s.pc ≠ .undefined
  listener : s.pc = .loop → s.serverFd ∈ s.readSet
  watched : s.pc = .loop → ∀ i, s.clients i ≠ 0 → s.clients i ∈ s.readSet
  counted : s.pc = .loop → s.count = s.connected.card
  bounded : s.pc = .loop → 0 ≤ s.count ∧ s.count ≤ MAX_CONNS

def lastSlot : Slot := ⟨1, by decide⟩

theorem eq_first_or_last (i : Slot) : i = Slot.first ∨ i = lastSlot := by
  revert i
  decide

/-- Nothing but the listening socket and 0 is ever in the set: a new connection is put into the
first free slot, while `client` holds what the last slot held before. -/
structure Deaf (s : State) : Prop where
  opened : s.serverFd ∈ s.opened
  readSet : ∀ fd ∈ s.readSet, fd = s.serverFd ∨ fd = 0
  clients : ∀ i, s.clients i ≠ 0 → s.clients i ∈ s.opened ∧ s.clients i ≠ s.serverFd
  counted : s.count = s.connected.card
  order : s.clients lastSlot ≠ 0 → s.clients Slot.first ≠ 0
  stale : s.client = s.clients lastSlot

theorem deaf_init (serverFd : Nat) : Deaf (init serverFd) where
  opened := Finset.mem_singleton_self serverFd
  readSet fd h := Or.inl (Finset.mem_singleton.mp h)
  clients _ h := absurd rfl h
  counted := by simp [init, State.connected]
  order h := absurd rfl h
  stale := rfl

theorem Deaf.unwatched {s : State} (h : Deaf s) {i : Slot} (hi : s.clients i ≠ 0) :
    s.clients i ∉ s.readSet := fun hmem =>
  (h.readSet _ hmem).elim (h.clients i hi).2 hi

theorem Deaf.select {s : State} (h : Deaf s) (ready : Finset Nat) : Deaf (s.select ready) where
  opened := h.opened
  readSet fd hfd := h.readSet fd (Finset.mem_inter.mp hfd).1
  clients := h.clients
  counted := h.counted
  order := h.order
  stale := h.stale

theorem accept_cases {s t : State} {newSocket : Option Nat} (h : s.accept newSocket = some t) :
    (s.serverFd ∉ s.readSet ∧ t = s) ∨
    (s.serverFd ∈ s.readSet ∧ newSocket = none ∧ t = s.endLoop) ∨
    ∃ fd, s.serverFd ∈ s.readSet ∧ newSocket = some fd ∧ fd ≠ 0 ∧ fd ∉ s.opened ∧
      t = s.newConnection fd := by
  unfold State.accept at h
  split at h
  case isFalse hl => exact Or.inl ⟨hl, (Option.some.inj h).symm⟩
  case isTrue hl =>
    cases newSocket with
    | none => exact Or.inr (Or.inl ⟨hl, rfl, (Option.some.inj h).symm⟩)
    | some fd =>
      simp only at h
      split at h
      case isTrue hfd =>
        exact Or.inr (Or.inr ⟨fd, hl, rfl, hfd.1, hfd.2.2, (Option.some.inj h).symm⟩)
      case isFalse => cases h

theorem firstFree_of_count {s : State} (h : Deaf s) (hc : s.count ≠ MAX_CONNS) :
    ∃ i, s.firstFree = some i ∧ s.clients i = 0 ∧ (i = lastSlot → s.clients Slot.first ≠ 0) := by
  have hlist : List.finRange MAX_CONNS = [Slot.first, lastSlot] := rfl
  by_cases h0 : s.clients Slot.first = 0
  · refine ⟨Slot.first, ?_, h0, fun he => absurd he (by decide)⟩
    simp [State.firstFree, hlist, h0]
  · by_cases h1 : s.clients lastSlot = 0
    · exact ⟨lastSlot, by simp [State.firstFree, hlist, h0, h1], h1, fun _ => h0⟩
    · have hall : s.connected = Finset.univ := by
        refine Finset.filter_true_of_mem fun i _ => ?_
        rcases eq_first_or_last i with rfl | rfl
        · exact h0
        · exact h1
      refine absurd ?_ hc
      rw [h.counted, hall]
      rfl

theorem connected_update {s : State} {i : Slot} {fd : Nat} (hfd : fd ≠ 0) (hi : s.clients i = 0)
    {t : State} (ht : t.clients = Function.update s.clients i fd) :
    t.connected.card = s.connected.card + 1 := by
  have hins : t.connected = insert i s.connected := by
    ext j
    by_cases hj : j = i
    · subst hj
      simp [State.connected, ht, hfd]
    · simp [State.connected, ht, hj]
  rw [hins, Finset.card_insert_of_notMem (by simp [State.connected, hi])]

/-- While there is room, the last slot is free, and `client` is 0. -/
theorem Deaf.client_eq_zero {s : State} (h : Deaf s) (hc : s.count ≠ MAX_CONNS) : s.client = 0 := by
  obtain ⟨i, -, hi, -⟩ := firstFree_of_count h hc
  rw [h.stale]
  by_contra hlast
  rcases eq_first_or_last i with rfl | rfl
  · exact h.order hlast hi
  · exact hlast hi

/-- The loop over the slots has passed over all of them. -/
def State.passed (s : State) : State := { s with client := s.clients lastSlot }

@[simp] theorem passed_readSet (s : State) : s.passed.readSet = s.readSet := rfl
@[simp] theorem passed_clients (s : State) : s.passed.clients = s.clients := rfl

theorem Deaf.passed {s : State} (h : Deaf s) : Deaf s.passed where
  opened := h.opened
  readSet := h.readSet
  clients := h.clients
  counted := h.counted
  order := h.order
  stale := rfl

theorem Deaf.newConnection {s : State} (h : Deaf s) {fd : Nat} (hfd : fd ≠ 0)
    (hnew : fd ∉ s.opened) (hc : s.count ≠ MAX_CONNS) :
    Deaf (s.newConnection fd).passed ∧ (s.newConnection fd).pc = s.pc ∧
      ∃ i, (s.newConnection fd).clients i = fd := by
  obtain ⟨i, hfree, hi, horder⟩ := firstFree_of_count h hc
  have heq : s.newConnection fd = { s with
      readSet := fdSet s.client s.readSet
      count := s.count + 1
      clients := Function.update s.clients i fd
      opened := insert fd s.opened } := by
    rw [State.newConnection, if_neg hc, hfree]
  rw [heq]
  refine ⟨⟨?_, fun x hx => ?_, fun j hj => ?_, ?_, fun _ => ?_, rfl⟩, rfl, i,
    Function.update_self i fd s.clients⟩
  · exact Finset.mem_insert_of_mem h.opened
  · rw [passed_readSet, h.client_eq_zero hc, fdSet] at hx
    split at hx
    case isTrue => exact (Finset.mem_insert.mp hx).elim Or.inr (h.readSet x)
    case isFalse => exact h.readSet x hx
  · rw [passed_clients] at hj ⊢
    by_cases hji : j = i
    · subst hji
      simp only [Function.update_self]
      exact ⟨Finset.mem_insert_self _ _, fun he => hnew (he ▸ h.opened)⟩
    · simp only [Function.update_of_ne hji] at hj ⊢
      exact ⟨Finset.mem_insert_of_mem (h.clients j hj).1, (h.clients j hj).2⟩
  · have hcard : (s.connected.card : Int) + 1 = (s.connected.card + 1 : Nat) := rfl
    rw [connected_update hfd hi rfl, ← hcard, ← h.counted]
    rfl
  · rw [passed_clients]
    by_cases hi0 : Slot.first = i
    · simp only [← hi0, Function.update_self]
      exact hfd
    · simp only [Function.update_of_ne hi0]
      rcases eq_first_or_last i with rfl | rfl
      · exact absurd rfl hi0
      · exact horder rfl

theorem serve_of_unwatched {s : State} {i : Slot}
    (h : s.clients i ≠ 0 → s.clients i ∉ s.readSet) (r : RecvResult) :
    s.serve i r = some { s with client := s.clients i } :=
  if_neg fun hr => h hr.1 hr.2

theorem serveAll_cons {s : State} (hs : s.pc = .loop) (recv : Slot → RecvResult) (i : Slot)
    (is : List Slot) :
    serveAll recv s (i :: is) = (s.serve i (recv i)).bind fun s => serveAll recv s is := by
  rw [serveAll, hs]

/-- A connection that is not in the set is passed over. -/
theorem serveAll_of_unwatched {s : State} (h : ∀ i, s.clients i ≠ 0 → s.clients i ∉ s.readSet)
    (hs : s.pc = .loop) (recv : Slot → RecvResult) :
    serveAll recv s (List.finRange MAX_CONNS) = some s.passed := by
  have hlist : List.finRange MAX_CONNS = [Slot.first, lastSlot] := rfl
  rw [hlist, serveAll_cons hs, serve_of_unwatched (h Slot.first), Option.bind_some,
    serveAll_cons (by exact hs), serve_of_unwatched (by exact h lastSlot), Option.bind_some]
  rfl

theorem serveAll_of_returned {s : State} (hs : s.pc = .returned) (recv : Slot → RecvResult) :
    serveAll recv s (List.finRange MAX_CONNS) = some s := by
  have hlist : List.finRange MAX_CONNS = [Slot.first, lastSlot] := rfl
  rw [hlist]
  simp only [serveAll, hs]

/-- What an iteration can do: without the listening socket in the set, nothing; else it ends
the server, refuses a connection or takes one in. -/
theorem step_cases {s t : State} {l : Label} (h : Deaf s) (ht : step s l = some t) :
    s.pc = .loop ∧
    (s.serverFd ∉ (s.select l.ready).readSet ∧ t = (s.select l.ready).passed ∨
    s.serverFd ∈ (s.select l.ready).readSet ∧
      (l.accepted = none ∧ t = (s.select l.ready).endLoop ∨
      (∃ fd, l.accepted = some fd ∧ s.count = MAX_CONNS ∧ t = (s.select l.ready).passed) ∨
      ∃ fd, l.accepted = some fd ∧ fd ≠ 0 ∧ fd ∉ s.opened ∧ s.count ≠ MAX_CONNS ∧
        t = ((s.select l.ready).newConnection fd).passed)) := by
  have hsel := h.select l.ready
  unfold step at ht
  split at ht
  case h_2 => cases ht
  case h_1 hs =>
    refine ⟨hs, ?_⟩
    obtain ⟨u, hu, ht⟩ := Option.bind_eq_some_iff.mp ht
    have hskip := serveAll_of_unwatched (fun _ => hsel.unwatched) hs l.recv
    rcases accept_cases hu with ⟨hl, rfl⟩ | ⟨hl, hnone, rfl⟩ | ⟨fd, hl, hsome, hfd, hnew, rfl⟩
    · exact Or.inl ⟨hl, Option.some.inj (ht.symm.trans hskip)⟩
    · rw [serveAll_of_returned rfl] at ht
      exact Or.inr ⟨hl, Or.inl ⟨hnone, (Option.some.inj ht).symm⟩⟩
    · refine Or.inr ⟨hl, Or.inr ?_⟩
      by_cases hc : s.count = MAX_CONNS
      · have hrefused : (s.select l.ready).newConnection fd = s.select l.ready := if_pos hc
        rw [hrefused] at ht
        exact Or.inl ⟨fd, hsome, hc, Option.some.inj (ht.symm.trans hskip)⟩
      · obtain ⟨hdeaf, hpc, -⟩ := hsel.newConnection hfd hnew hc
        have hpass := serveAll_of_unwatched (s := (s.select l.ready).newConnection fd)
          (fun _ => hdeaf.unwatched) (hpc.trans hs) l.recv
        exact Or.inr ⟨fd, hsome, hfd, hnew, hc, Option.some.inj (ht.symm.trans hpass)⟩

/-- While the server is in its loop, the set does not hear of any connection. -/
def State.deaf (s : State) : Prop := s.pc = .returned ∨ s.pc = .loop ∧ Deaf s

theorem deaf_step {s t : State} {l : Label} (h : s.deaf) (ht : step s l = some t) : t.deaf := by
  rcases h with hs | ⟨hs, h⟩
  · rw [step, hs] at ht
    cases ht
  have hsel := h.select l.ready
  obtain ⟨-, ⟨-, rfl⟩ | ⟨-, ⟨-, rfl⟩ | ⟨fd, -, -, rfl⟩ | ⟨fd, -, hfd, hnew, hc, rfl⟩⟩⟩ :=
    step_cases h ht
  · exact Or.inr ⟨hs, hsel.passed⟩
  · exact Or.inl rfl
  · exact Or.inr ⟨hs, hsel.passed⟩
  · obtain ⟨hdeaf, hpc, -⟩ := hsel.newConnection hfd hnew hc
    exact Or.inr ⟨hpc.trans hs, hdeaf⟩

/-- No connection is ever watched, in any run: none is read from. -/
theorem connection_unwatched {serverFd : Nat} {ls : List Label} {t : State}
    (he : exec step (init serverFd) ls = some t) (hpc : t.pc = .loop) {i : Slot}
    (hi : t.clients i ≠ 0) : t.clients i ∉ t.readSet := by
  have hdeaf : t.deaf := exec_invariant_of_meets
    (fun s l t hs _ => deaf_step hs) (Or.inr ⟨rfl, deaf_init serverFd⟩) (meets_true _ ls) he
  rcases hdeaf with hr | ⟨-, hd⟩
  · rw [hr] at hpc
    cases hpc
  · exact hd.unwatched hi

/-- The server is left, or nobody has connected yet. -/
def alone (serverFd : Nat) (s : State) : Prop :=
  s.pc = .returned ∨
    s.pc = .loop ∧ Deaf s ∧ s.serverFd = serverFd ∧ serverFd ∈ s.readSet ∧ ∀ i, s.clients i = 0

theorem alone_init (serverFd : Nat) : alone serverFd (init serverFd) :=
  Or.inr ⟨rfl, deaf_init serverFd, rfl, Finset.mem_singleton_self serverFd, fun _ => rfl⟩

theorem watching_of_alone {serverFd : Nat} {s : State} (h : alone serverFd s) : Watching s := by
  rcases h with hr | ⟨hs, hd, rfl, hl, hc⟩
  · have hno : s.pc ≠ .loop := by rw [hr]; nofun
    exact ⟨by rw [hr]; nofun, fun h => absurd h hno, fun h => absurd h hno,
      fun h => absurd h hno, fun h => absurd h hno⟩
  · have hcard : s.connected.card = 0 := by simp [State.connected, hc]
    have hcount : s.count = 0 := by rw [hd.counted, hcard]; rfl
    exact ⟨by rw [hs]; nofun, fun _ => hl, fun _ i hi => absurd (hc i) hi,
      fun _ => hd.counted, fun _ => by rw [hcount]; decide⟩

/-- `select` leaves the listening socket in the set, and `accept` fails. -/
def leaves (serverFd : Nat) (l : Label) : Prop := serverFd ∈ l.ready ∧ l.accepted = none

/-- An iteration that does not end the server takes the listening socket out of the set, or
takes in a connection that is not watched. -/
theorem leaves_of_watching {serverFd : Nat} {s t : State} {l : Label} (h : alone serverFd s)
    (ht : step s l = some t) (hw : Watching t) : leaves serverFd l := by
  rcases h with hs | ⟨hs, hd, rfl, hl, hc⟩
  · rw [step, hs] at ht
    cases ht
  have hsel := hd.select l.ready
  obtain ⟨-, ⟨hout, rfl⟩ | ⟨hin, hcase⟩⟩ := step_cases hd ht
  · exact absurd (hw.listener hs) hout
  obtain ⟨hnone, rfl⟩ | ⟨fd, -, hfull, rfl⟩ | ⟨fd, -, hfd, hnew, hroom, rfl⟩ := hcase
  · exact ⟨(Finset.mem_inter.mp hin).2, hnone⟩
  · rw [hd.counted] at hfull
    simp [State.connected, hc, MAX_CONNS] at hfull
  · obtain ⟨hdeaf, hpc, i, hi⟩ := hsel.newConnection hfd hnew hroom
    have hne : ((s.select l.ready).newConnection fd).passed.clients i ≠ 0 := by
      rw [passed_clients, hi]
      exact hfd
    exact absurd (hw.watched (hpc.trans hs) i hne) (hdeaf.unwatched hne)

theorem alone_step {serverFd : Nat} {s t : State} {l : Label} (h : alone serverFd s)
    (hok : leaves serverFd l) (ht : step s l = some t) : alone serverFd t := by
  rcases h with hs | ⟨hs, hd, rfl, hl, hc⟩
  · rw [step, hs] at ht
    cases ht
  obtain ⟨-, ⟨hout, -⟩ | ⟨-, ⟨-, rfl⟩ | ⟨fd, hsome, -⟩ | ⟨fd, hsome, -⟩⟩⟩ := step_cases hd ht
  · exact absurd (Finset.mem_inter.mpr ⟨hl, hok.1⟩) hout
  · exact Or.inl rfl
  · cases hok.2.symm.trans hsome
  · cases hok.2.symm.trans hsome

/-- Every open connection is watched at every `select` exactly when the first `accept` fails:
the server never comes to a second `select` with all it should watch. -/
theorem watching_iff (serverFd : Nat) {ls : List Label} {t : State}
    (he : exec step (init serverFd) ls = some t) :
    Always step Watching (init serverFd) ls ↔ ∀ l ∈ ls, leaves serverFd l := by
  rw [← meets_iff_forall_mem he]
  exact always_iff_meets (fun _ _ _ h hok ht => alone_step h hok ht)
    (fun _ h => watching_of_alone h) (fun _ _ _ h ht hw => leaves_of_watching h ht hw)
    (alone_init serverFd) he

theorem watching_iff_failedAccept :
    Always step Watching (init 4) [⟨{4}, none, fun _ => .closed⟩] :=
  (watching_iff 4 (t := (init 4).endLoop) (by rfl)).mpr (by simp [leaves])

/-- The first connection is not in the set of the second `select`. -/
theorem first_connection_unwatched :
    ¬ ∀ (serverFd : Nat) (ls : List Label) (t : State),
      exec step (init serverFd) ls = some t → Always step Watching (init serverFd) ls := by
  intro h
  obtain ⟨t, ht, hconnected⟩ := exec_exists step (init 4) [⟨{4}, some 8, fun _ => .closed⟩]
    (fun t => t.pc = .loop ∧ t.clients Slot.first = 8) (by decide +kernel)
  obtain ⟨hpc, hfirst⟩ := of_decide_eq_true hconnected
  have hne : t.clients Slot.first ≠ 0 := by rw [hfirst]; decide
  have hw := (h 4 _ t ht).last ht
  exact connection_unwatched ht hpc hne (hw.watched hpc _ hne)

end Cexp.PlainServer
