import Cexp.PlainServer

/-! What becomes of the connections of `ServerThread`: the first two stay in the table for as
long as the server runs, unread, every later one is closed at once, and once `select` has returned
without the listening socket nothing happens any more. -/

namespace Cexp.PlainServer

open Transition
open SelectServer (MAX_CONNS Slot)

/-- Nothing has been read, and the open sockets are the listening one and those of the table. -/
structure Idle (s : State) : Prop where
  defined : s.pc ≠ .undefined
  buffer : s.buffer = List.replicate BUF_SIZE 0
  opened : s.pc = .loop →
    ∀ fd, fd ∈ s.opened ↔ fd = s.serverFd ∨ fd ≠ 0 ∧ ∃ i, s.clients i = fd
  closed : s.pc = .returned → s.opened = ∅

theorem idle_init (serverFd : Nat) : Idle (init serverFd) where
  defined := nofun
  buffer := rfl
  opened _ fd := by
    have hnone : ¬ (fd ≠ 0 ∧ ∃ i : Slot, (init serverFd).clients i = fd) := fun h =>
      h.1 (h.2.choose_spec.symm.trans rfl)
    simp only [hnone, or_false]
    exact Finset.mem_singleton
  closed h := by cases h

theorem newConnection_eq {s : State} (fd : Nat) (hd : Deaf s) (hc : s.count ≠ MAX_CONNS) :
    ∃ i, s.clients i = 0 ∧ s.newConnection fd = { s with
      readSet := fdSet s.client s.readSet
      count := s.count + 1
      clients := Function.update s.clients i fd
      opened := insert fd s.opened } := by
  obtain ⟨i, hfree, hi, -⟩ := firstFree_of_count hd hc
  exact ⟨i, hi, by rw [State.newConnection, if_neg hc, hfree]⟩

theorem Idle.newConnection {s : State} {fd : Nat} (h : Idle s) (hd : Deaf s) (hs : s.pc = .loop)
    (hfd : fd ≠ 0) (hc : s.count ≠ MAX_CONNS) : Idle (s.newConnection fd).passed := by
  obtain ⟨i, hi, heq⟩ := newConnection_eq fd hd hc
  have hopened : (s.newConnection fd).passed.opened = insert fd s.opened := by rw [heq]; rfl
  have hclients : (s.newConnection fd).passed.clients = Function.update s.clients i fd := by
    rw [passed_clients, heq]
  have hself : (s.newConnection fd).passed.clients i = fd := by
    rw [hclients, Function.update_self]
  have hother {j : Slot} (hj : j ≠ i) : (s.newConnection fd).passed.clients j = s.clients j := by
    rw [hclients, Function.update_of_ne hj]
  have hpc : (s.newConnection fd).passed.pc = .loop := by rw [heq]; exact hs
  refine ⟨by rw [hpc]; nofun, by rw [heq]; exact h.buffer, fun _ x => ?_, fun hr => ?_⟩
  · have hx := h.opened hs x
    have hfdl : (s.newConnection fd).passed.serverFd = s.serverFd := by rw [heq]; rfl
    rw [hopened, hfdl, Finset.mem_insert, hx]
    constructor
    · rintro (rfl | hl | ⟨hx0, j, hj⟩)
      · exact Or.inr ⟨hfd, i, hself⟩
      · exact Or.inl hl
      · have hji : j ≠ i := by
          rintro rfl
          exact hx0 (hj.symm.trans hi)
        exact Or.inr ⟨hx0, j, (hother hji).trans hj⟩
    · rintro (hl | ⟨hx0, j, hj⟩)
      · exact Or.inr (Or.inl hl)
      · by_cases hji : j = i
        · subst hji
          exact Or.inl (hj.symm.trans hself)
        · exact Or.inr (Or.inr ⟨hx0, j, (hother hji).symm.trans hj⟩)
  · rw [hpc] at hr
    cases hr

/-- The state at a `select`: nothing read, and no connection that could be. -/
def Quiet (s : State) : Prop := Idle s ∧ s.deaf

theorem quiet_init (serverFd : Nat) : Quiet (init serverFd) :=
  ⟨idle_init serverFd, Or.inr ⟨rfl, deaf_init serverFd⟩⟩

theorem Quiet.step {s t : State} {l : Label} (h : Quiet s) (ht : step s l = some t) : Quiet t := by
  refine ⟨?_, deaf_step h.2 ht⟩
  obtain ⟨hI, hr | ⟨hs, hd⟩⟩ := h
  · rw [PlainServer.step, hr] at ht
    cases ht
  have hsel : Idle (s.select l.ready) := ⟨hI.defined, hI.buffer, hI.opened, hI.closed⟩
  have hpass : Idle (s.select l.ready).passed :=
    ⟨hI.defined, hI.buffer, hI.opened, hI.closed⟩
  obtain ⟨-, ⟨-, rfl⟩ | ⟨-, ⟨-, rfl⟩ | ⟨fd, -, -, rfl⟩ | ⟨fd, -, hfd, -, hc, rfl⟩⟩⟩ :=
    step_cases hd ht
  · exact hpass
  · exact ⟨by simp [State.endLoop], hI.buffer, by simp [State.endLoop], fun _ => rfl⟩
  · exact hpass
  · exact hsel.newConnection (hd.select l.ready) hs hfd hc

theorem quiet_of_exec {serverFd : Nat} {ls : List Label} {s : State}
    (h : exec step (init serverFd) ls = some s) : Quiet s :=
  exec_invariant_of_meets (fun _ _ _ hq _ ht => hq.step ht) (quiet_init serverFd)
    (meets_true _ ls) h

/-- The connections of the table are kept. -/
theorem Quiet.clients_kept {s t : State} {l : Label} (h : Quiet s)
    (ht : PlainServer.step s l = some t) {i : Slot} (hi : s.clients i ≠ 0) :
    t.clients i = s.clients i := by
  obtain ⟨-, hr | ⟨-, hd⟩⟩ := h
  · rw [PlainServer.step, hr] at ht
    cases ht
  obtain ⟨-, ⟨-, rfl⟩ | ⟨-, ⟨-, rfl⟩ | ⟨fd, -, -, rfl⟩ | ⟨fd, -, -, -, hc, rfl⟩⟩⟩ :=
    step_cases hd ht
  · rfl
  · rfl
  · rfl
  · obtain ⟨j, hj, heq⟩ := newConnection_eq fd (hd.select l.ready) hc
    have hij : i ≠ j := by
      rintro rfl
      exact hi hj
    rw [passed_clients, heq]
    exact Function.update_of_ne hij fd s.clients

/-- The server runs, and the listening socket is not in the set: the same but for what `select`
has taken out of the set, and `client`. -/
structure Stuck (s t : State) : Prop where
  running : t.pc = .loop
  listener : t.serverFd ∉ t.readSet
  clients : t.clients = s.clients
  count : t.count = s.count
  opened : t.opened = s.opened

theorem Stuck.step {s t u : State} {l : Label} (h : Stuck s t) (hq : Quiet t)
    (hu : PlainServer.step t l = some u) : Stuck s u := by
  obtain ⟨-, hr | ⟨-, hd⟩⟩ := hq
  · exact absurd (h.running.symm.trans hr) nofun
  have hout : t.serverFd ∉ (t.select l.ready).readSet := fun hm =>
    h.listener (Finset.mem_inter.mp hm).1
  obtain ⟨-, ⟨-, rfl⟩ | ⟨hin, -⟩⟩ := step_cases hd hu
  · exact ⟨h.running, hout, h.clients, h.count, h.opened⟩
  · exact absurd hin hout

/-- In every run of `ServerThread` nothing is ever read: the buffer stays as it was, with no write
past its end. Whoever is in the table stays there, the open sockets are those of the table and
the listening one, and once the listening socket is out of the set the server goes on for ever
without taking in, refusing or closing anything. -/
theorem serverThread_serves_nobody {serverFd : Nat} {ls more : List Label} {s t : State}
    (h : exec step (init serverFd) ls = some s) (ht : exec step s more = some t) :
    Idle t ∧ (∀ i, s.clients i ≠ 0 → t.clients i = s.clients i) ∧
      (s.pc = .loop → s.serverFd ∉ s.readSet → Stuck s t) := by
  have hq := quiet_of_exec h
  have hkept : Quiet t ∧ (∀ i, s.clients i ≠ 0 → t.clients i = s.clients i) ∧
      (s.pc = .loop → s.serverFd ∉ s.readSet → Stuck s t) := by
    refine exec_invariant_of_meets (I := fun t => Quiet t ∧
        (∀ i, s.clients i ≠ 0 → t.clients i = s.clients i) ∧
          (s.pc = .loop → s.serverFd ∉ s.readSet → Stuck s t)) ?_
      ⟨hq, fun _ _ => rfl, fun hs hl => ⟨hs, hl, rfl, rfl, rfl⟩⟩ (meets_true _ more) ht
    rintro u l v ⟨hqu, hcl, hst⟩ - hv
    refine ⟨hqu.step hv, fun i hi => ?_, fun hs hl => (hst hs hl).step hqu hv⟩
    have hui := hcl i hi
    rw [hqu.clients_kept hv (hui ▸ hi), hui]
  exact ⟨hkept.1.1, hkept.2⟩

/-- A client connects, and at the next `select` nobody else does. -/
theorem serverThread_serves_nobody_connected :
    ∃ s t, exec step (init 4) [⟨{4}, some 8, fun _ => .closed⟩, ⟨∅, none, fun _ => .closed⟩] =
        some s ∧ exec step s [⟨{4, 8}, some 9, fun _ => .data [1]⟩] = some t ∧
      Idle t ∧ t.clients Slot.first = 8 ∧ Stuck s t := by
  obtain ⟨s, hs, hps⟩ := exec_exists step (init 4)
    [⟨{4}, some 8, fun _ => .closed⟩, ⟨∅, none, fun _ => .closed⟩]
    (fun s => decide (s.pc = .loop ∧ s.clients Slot.first = 8 ∧ s.serverFd ∉ s.readSet) &&
      (exec step s [⟨{4, 8}, some 9, fun _ => .data [1]⟩]).any fun _ => true)
    (by decide +kernel)
  obtain ⟨hps, hnext⟩ := Bool.and_eq_true_iff.mp hps
  obtain ⟨hpc, hfirst, hl⟩ := of_decide_eq_true hps
  obtain ⟨t, ht, -⟩ := exec_exists step s _ _ hnext
  obtain ⟨hidle, hkept, hstuck⟩ := serverThread_serves_nobody hs ht
  refine ⟨s, t, hs, ht, hidle, ?_, hstuck hpc hl⟩
  rw [hkept Slot.first (by rw [hfirst]; decide), hfirst]

end Cexp.PlainServer
