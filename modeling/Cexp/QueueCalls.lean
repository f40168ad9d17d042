import Cexp.QueueHistory

/-! Which calls the threads of a queue are in: a step inside a call returns it or leaves every
thread in the call it was in, and without `destroyQueue` no call is stopped. -/

namespace Cexp.BlockingQueue

variable {T D : Type}

def Pc.enqueues : Pc D → Bool
  | .linked => true
  | p => p.newNode.isSome

/-- No call can be stopped: `stop` is clear, and was when each thread read it. -/
structure Unstopped (s : State T D) : Prop where
  stop : s.stop = false
  pc : ∀ t c, s.pc t ≠ .stopped c

def SameCall (p p' : Pc D) : Prop :=
  (p' = .outside ↔ p = .outside) ∧ p'.enqueues = p.enqueues

structure Returns (s s' : State T D) (t : T) (r : Result D) : Prop where
  was : s.pc t ≠ .outside
  now : s'.pc t = .outside
  result : (r = .enqueued ∧ s.pc t = .linked) ∨ ∃ a d, r = .data d ∧ s.pc t = .release a d
  other : ∀ u, u ≠ t → SameCall (s.pc u) (s'.pc u)

theorem SameCall.refl (p : Pc D) : SameCall p p := ⟨Iff.rfl, rfl⟩

variable [DecidableEq T]

theorem sameCall_update {s : State T D} {t : T} {p : Pc D} (h : SameCall (s.pc t) p) (u : T) :
    SameCall (s.pc u) (Function.update s.pc t p u) := by
  by_cases hu : u = t
  · subst hu
    simpa using h
  · simpa [hu] using SameCall.refl (s.pc u)

theorem Step.unstopped {s s' : State T D} {l : Label T D} (h : Step s l s')
    (hl : l.mover.isSome = true) (hI : Unstopped s) : Unstopped s' := by
  have hmove {t : T} {p : Pc D} (hp : ∀ c, p ≠ .stopped c) (u : T) (c : Call) :
      Function.update s.pc t p u ≠ .stopped c := by
    by_cases hu : u = t
    · subst hu
      simpa using hp c
    · simpa [hu] using hI.pc u c
  cases h with
  | noMemory => exact hI
  | stopSet ht hs => simp [hI.stop] at hs
  | @wakeOne t u c k ht hu hk =>
    refine ⟨hI.stop, fun v d => ?_⟩
    have haw : (s.pc t).afterWake ≠ .stopped d := by
      unfold Pc.afterWake
      split <;> simp
    by_cases hv : v = t
    · subst hv
      simpa [State.move] using haw
    · have := hmove (t := u) (p := .reenter k) (by simp) v d
      simpa [State.move, hv] using this
  | wakeNone =>
    refine ⟨hI.stop, hmove fun d => ?_⟩
    unfold Pc.afterWake
    split <;> simp
  | destroy | otherStop | otherLimit => cases hl
  | _ => exact ⟨hI.stop, hmove (by simp)⟩

theorem Step.destroyer_eq {s s' : State T D} {l : Label T D} (h : Step s l s')
    (hl : l.mover.isSome = true) : s'.destroyer = s.destroyer := by
  cases h with
  | destroy => cases hl
  | _ => rfl

omit [DecidableEq T] in
theorem Label.mover_of_insideCall {l : Label T D} (hl : l.insideCall = true) :
    l.mover.isSome = true := by
  cases l <;> first | rfl | cases hl

theorem Step.inside_cases {s s' : State T D} {l : Label T D} (h : Step s l s')
    (hl : l.insideCall = true) (hI : Unstopped s) :
    (∃ t r, events s l = [.ret t r] ∧ Returns s s' t r) ∨
      ((∀ t r, Event.ret t r ∉ events s l) ∧ ∀ u, SameCall (s.pc u) (s'.pc u)) := by
  have hreturn {t u : T} : u ≠ t → SameCall (s.pc u) (Function.update s.pc t .outside u) := by
    intro hu
    simpa [hu] using SameCall.refl (s.pc u)
  cases h with
  | noMemory | malloc | dequeue | destroy | otherStop | otherLimit => cases hl
  | @enter t c ht | @reenter t c ht | @testWait t c w ht | @testPass t c w ht | @sleep t c ht
  | @spurious t c ht | @stopClear t c w ht =>
    refine Or.inr ⟨by simp [events], sameCall_update ?_⟩
    rw [ht]
    cases c <;> exact ⟨by simp, rfl⟩
  | stopSet ht hs => simp [hI.stop] at hs
  | dropNode ht | leaveStopped ht => exact absurd ht (hI.pc _ _)
  | @linkFirst t a w ht | @linkLast t a r w n ht =>
    refine Or.inr ⟨by simp [events, ht], sameCall_update ?_⟩
    rw [ht]
    exact ⟨by simp, rfl⟩
  | @unlink t a w n ht =>
    refine Or.inr ⟨by simp [events, ht], sameCall_update ?_⟩
    rw [ht]
    exact ⟨by simp, rfl⟩
  | @wakeOne t u c k ht hu hk =>
    have htu : t ≠ u := by
      rintro rfl
      rw [hu] at ht
      cases ht
    have hwoken (v : T) : SameCall (s.pc v) ((s.move u (.reenter k)).pc v) :=
      sameCall_update (by rw [hu]; cases k <;> exact ⟨by simp, rfl⟩) v
    cases hp : s.pc t <;> simp only [hp, Pc.owes] at ht
    case linked =>
      refine Or.inl ⟨t, .enqueued, by simp [events, hp], ?_, ?_, Or.inl ⟨rfl, hp⟩, fun v hv => ?_⟩
      · simp [hp]
      · simp [State.move, Pc.afterWake]
      · simpa [State.move, hv] using hwoken v
    case unlinked a d =>
      refine Or.inr ⟨by simp [events, hp], fun v => ?_⟩
      by_cases hv : v = t
      · subst hv
        simp only [State.move, Function.update_self, hp, Pc.afterWake]
        exact ⟨by simp, rfl⟩
      · simpa [State.move, hv] using hwoken v
    all_goals cases ht
  | @wakeNone t c ht hu =>
    cases hp : s.pc t <;> simp only [hp, Pc.owes] at ht
    case linked =>
      refine Or.inl ⟨t, .enqueued, by simp [events, hp], ?_, ?_, Or.inl ⟨rfl, hp⟩, fun v => ?_⟩
      · simp [hp]
      · simp [State.move, Pc.afterWake]
      · exact hreturn
    case unlinked a d =>
      refine Or.inr ⟨by simp [events, hp], sameCall_update ?_⟩
      rw [hp]
      exact ⟨by simp [Pc.afterWake], rfl⟩
    all_goals cases ht
  | @release t a d ht =>
    refine Or.inl ⟨t, .data d, by simp [events, ht], ?_, ?_, Or.inr ⟨a, d, rfl, ht⟩, fun v => ?_⟩
    · simp [ht]
    · simp [State.move]
    · exact hreturn

theorem Step.mover_inside {s s' : State T D} {l : Label T D} (h : Step s l s')
    (hl : l.insideCall = true) : ∃ t, l.mover = some t ∧ s.pc t ≠ .outside := by
  cases h with
  | noMemory | malloc | dequeue | destroy | otherStop | otherLimit => cases hl
  | wakeOne ho | wakeNone ho =>
    refine ⟨_, rfl, fun hp => ?_⟩
    simp [hp, Pc.owes] at ho
  | enter ht | reenter ht | testWait ht | testPass ht | sleep ht | spurious ht | stopSet ht
  | stopClear ht | dropNode ht | leaveStopped ht | linkFirst ht | linkLast ht | unlink ht
  | release ht => exact ⟨_, rfl, by simp [ht]⟩

end Cexp.BlockingQueue
