import Cexp.QueueHistory

/-! The lock and the condition variables of a queue: which of them `createQueue` initialises,
and which of them the calls use. -/

namespace Cexp.BlockingQueue

open Transition

variable {T D : Type}

inductive Sync where
  | lock
  | cond (c : Cond)
  deriving DecidableEq, Repr

/-- The `InitializeCriticalSection` and `InitializeConditionVariable` calls of `createQueue`. -/
def initialized : List Sync := [.lock, .cond .notEmpty]

/-- What a step of an `enqueue` or a `dequeue` enters, sleeps on or wakes. -/
def syncUses (s : State T D) : Label T D → List Sync
  | .enter _ => [.lock]
  | .sleep t =>
    match s.pc t with
    | .sleep c => [.cond c.sleepsOn]
    | _ => []
  | .wake t _ => (s.pc t).owes.toList.map .cond
  | _ => []

/-- The thread's next operation is on `notFull`. -/
def Pc.atNotFull : Pc D → Bool
  | .sleep (.enqueue _) | .unlinked _ _ => true
  | _ => false

/-- The step is not that of an `enqueue` which finds the queue full, nor that of a `dequeue`
which takes an item. -/
def avoidsNotFull (s : State T D) : Label T D → Bool
  | .test t =>
    match s.pc t with
    | .test (.enqueue a) _ => !(mustWait s (.enqueue a) && !s.stop)
    | _ => true
  | .body t =>
    match s.pc t with
    | .body .dequeue _ => false
    | _ => true
  | _ => true

variable [DecidableEq T] [Fintype T]

/-- Whatever call goes on, it uses only what has been initialised. -/
def UsesInitialized (s : State T D) : Prop :=
  ∀ l t, step s l = some t → ∀ x ∈ syncUses s l, x ∈ initialized

def AwayFromNotFull (s : State T D) : Prop := ∀ t, (s.pc t).atNotFull = false

theorem atNotFull_wakeAll {c : Cond} {p : Pc D} (h : p.atNotFull = false) :
    (wakeAll c p).atNotFull = false := by
  cases p <;> simp only [wakeAll]
  case asleep k => split <;> rfl
  all_goals exact h

omit [Fintype T] in
theorem AwayFromNotFull.move {s s' : State T D} (h : AwayFromNotFull s) {t : T} {p : Pc D}
    (hp : p.atNotFull = false) (hpc : s'.pc = Function.update s.pc t p) : AwayFromNotFull s' := by
  intro u
  by_cases hu : u = t
  · simp [hpc, hu, hp]
  · simpa [hpc, hu] using h u

omit [Fintype T] in
theorem AwayFromNotFull.destroy {s s' : State T D} (h : AwayFromNotFull s) {junk : Option Addr}
    (hd : destroyStep s junk = some s') : AwayFromNotFull s' := by
  have hpc : s'.pc = s.pc ∨ ∃ c, s'.pc = fun t => wakeAll c (s.pc t) := by
    unfold destroyStep at hd
    split at hd
    case h_2 =>
      split at hd <;> cases hd
      exact Or.inl rfl
    case h_5 => split at hd <;> (cases hd; exact Or.inl rfl)
    case h_3 | h_4 =>
      cases hd
      exact Or.inr ⟨_, rfl⟩
    case h_9 => cases hd
    all_goals
      cases hd
      exact Or.inl rfl
  intro t
  rcases hpc with hpc | ⟨c, hpc⟩
  · rw [hpc]
    exact h t
  · rw [hpc]
    exact atNotFull_wakeAll (h t)

omit [Fintype T] in
theorem afterWake_atNotFull (p : Pc D) : p.afterWake.atNotFull = false := by
  cases p <;> rfl

omit [Fintype T] in
theorem Step.awayFromNotFull {s s' : State T D} {l : Label T D} (hs : Step s l s')
    (h : AwayFromNotFull s) (hok : avoidsNotFull s l = true) : AwayFromNotFull s' := by
  cases hs with
  | noMemory | otherStop | otherLimit => exact h
  | destroy hd => exact h.destroy hd
  | wakeOne => exact (h.move (t := _) (p := .reenter _) rfl rfl).move (afterWake_atNotFull _) rfl
  | wakeNone => exact h.move (afterWake_atNotFull _) rfl
  | @testWait t c w ht hw hstop =>
    refine h.move (p := .sleep c) ?_ rfl
    cases c with
    | enqueue a => simp [avoidsNotFull, ht, hw, hstop] at hok
    | dequeue => rfl
  | unlink ht => simp [avoidsNotFull, ht] at hok
  | malloc | dequeue | enter | reenter | testPass | sleep | spurious | stopSet | stopClear
  | dropNode | leaveStopped | linkFirst | linkLast | release => exact h.move rfl rfl

omit [Fintype T] in
theorem Step.usesInitialized {s s' : State T D} {l : Label T D} (hs : Step s l s')
    (h : AwayFromNotFull s) : ∀ x ∈ syncUses s l, x ∈ initialized := by
  have howes {t : T} {c : Cond} (ho : (s.pc t).owes = some c) : c = .notEmpty := by
    have hp := h t
    cases hpc : s.pc t <;> simp_all [Pc.owes, Pc.atNotFull]
  cases hs with
  | enter | reenter => simp [syncUses, initialized]
  | @sleep t c ht =>
    cases c with
    | enqueue a => simpa [ht, Pc.atNotFull] using h t
    | dequeue => simp [syncUses, ht, Call.sleepsOn, initialized]
  | wakeOne ht | wakeNone ht =>
    obtain rfl := howes ht
    simp [syncUses, ht, initialized]
  | _ => simp [syncUses]

theorem exists_wake {s : State T D} {t : T} {c : Cond} (ht : (s.pc t).owes = some c) :
    ∃ u s', step s (.wake t u) = some s' := by
  by_cases hu : ∃ u k, s.pc u = .asleep k ∧ k.sleepsOn = c
  · obtain ⟨u, k, hp, hk⟩ := hu
    exact ⟨some u, _, by simp only [step, ht, hp, hk, if_true]; rfl⟩
  · have hnone (u : T) : (s.pc u).asleepOn c = false := by
      cases hp : s.pc u with
      | asleep k => simpa [Pc.asleepOn] using fun hk => hu ⟨u, k, hp, hk⟩
      | _ => rfl
    exact ⟨none, _, by simp only [step, ht, hnone, implies_true, if_true]; rfl⟩

/-- The thread that takes another way goes on to `notFull`. -/
theorem avoidsNotFull_of_usesInitialized {s t : State T D} {l : Label T D}
    (hs : step s l = some t) (hu : UsesInitialized t) : avoidsNotFull s l = true := by
  cases step_cases hs with
  | @testWait i c w ht hw hstop =>
    cases c with
    | dequeue => simp [avoidsNotFull, ht]
    | enqueue a =>
      have hpc : (s.move i (.sleep (.enqueue a))).pc i = .sleep (.enqueue a) := by
        simp [State.move]
      have hx := hu (.sleep i) _ (by simp only [step, hpc]; rfl)
      simp [syncUses, hpc, Call.sleepsOn, initialized] at hx
  | @unlink i a w n ht hf hn =>
    generalize hv : ({ s.leave i (.unlinked a n.data) with
      front := n.next, rear := if n.next = none then none else s.rear, size := s.size - 1 } :
        State T D) = v at hu
    have hpc : (v.pc i).owes = some .notFull := by simp [← hv, State.leave, State.move, Pc.owes]
    obtain ⟨u, s', hw⟩ := exists_wake hpc
    have hx := hu _ s' hw
    simp [syncUses, hpc, initialized] at hx
  | testPass ht hw =>
    rcases hw with hw | hw <;> cases ‹Call› <;> simp [avoidsNotFull, ht, hw]
  | linkFirst ht | linkLast ht => simp [avoidsNotFull, ht]
  | _ => rfl

omit [DecidableEq T] [Fintype T] in
theorem awayFromNotFull_createQueue (size : Int32) :
    AwayFromNotFull (createQueue size : State T D) := fun _ => rfl

/-- The calls on a queue use only what `createQueue` has initialised exactly if no `enqueue`
finds it full and no `dequeue` takes an item. -/
theorem sync_initialized_iff {size : Int32} {tr : List (Label T D)} {s : State T D}
    (h : exec step (createQueue size) tr = some s) :
    Always step UsesInitialized (createQueue size) tr ↔
      Meets step (fun s l => avoidsNotFull s l = true) (createQueue size) tr :=
  always_iff_meets (I := AwayFromNotFull)
    (fun _ _ _ hI hok hs => (step_cases hs).awayFromNotFull hI hok)
    (fun _ hI _ _ hs => (step_cases hs).usesInitialized hI)
    (fun _ _ _ _ hs hP => avoidsNotFull_of_usesInitialized hs hP)
    (awayFromNotFull_createQueue size) h

/-- A consumer goes to sleep and is woken by an item. -/
def wakeConsumer : List (Label Role Nat) :=
  [.dequeue .consumer, .enter .consumer, .test .consumer, .sleep .consumer,
    .enqueue .producer 7 1 (some 100), .enter .producer, .test .producer, .stopTest .producer,
    .body .producer, .wake .producer (some .consumer)]

theorem sync_initialized_iff_wakeConsumer :
    Always step UsesInitialized (createQueue 1) wakeConsumer := by
  obtain ⟨s, hs, -⟩ := exec_exists step (createQueue 1) wakeConsumer (fun _ => true) (by decide)
  exact (sync_initialized_iff hs).mpr (by decide)

/-- The consumer takes the item and wakes `notFull`. -/
theorem notFull_woken_uninitialized : ¬ ∀ (size : Int32) (tr : List (Label Role Nat))
    (s : State Role Nat), exec step (createQueue size) tr = some s → UsesInitialized s := by
  intro h
  obtain ⟨s, hs, hp⟩ := exec_exists step (createQueue 1) (wakeConsumer ++
    [.enter .consumer, .test .consumer, .stopTest .consumer, .body .consumer])
    (fun s => (step s (.wake .consumer none)).isSome &&
      decide (.cond .notFull ∈ syncUses s (.wake .consumer none))) (by decide)
  simp only [Bool.and_eq_true, decide_eq_true_eq] at hp
  obtain ⟨t, ht⟩ := Option.isSome_iff_exists.mp hp.1
  have hx := h 1 _ s hs _ t ht _ hp.2
  simp [initialized] at hx

end Cexp.BlockingQueue
