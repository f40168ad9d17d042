import Cexp.QueueHistory

/-! The queue alone in its process, before `destroyQueue` is called: the limit is the one
given to `createQueue`, `stop` stays clear, and what a thread found in its loop test
still holds when it acts on it, since it keeps the lock from the one to the other. -/

namespace Cexp.BlockingQueue

open Transition LinkedChain

variable {T D : Type}

theorem limitOf_pos (size : Int32) : 0 < limitOf size := by
  unfold limitOf INT_MAX
  split
  case isTrue => decide
  case isFalse h =>
    rw [Int32.le_iff_toInt_le, Int32.toInt_zero] at h
    omega

theorem limitOf_le (size : Int32) : limitOf size ≤ INT_MAX := by
  unfold limitOf INT_MAX
  split
  case isTrue => exact Int.le_refl _
  case isFalse =>
    have := size.toInt_lt
    omega

structure Bounded (size : Int32) (s : State T D) : Prop where
  stop : s.stop = false
  limit : s.glimitSize = limitOf size
  capacity : s.size ≤ limitOf size
  waits : ∀ t c, s.pc t = .sleep c → mustWait s c = true
  passes : ∀ t c w, s.pc t = .stopTest c w ∨ s.pc t = .body c w → mustWait s c = false

theorem mustWait_congr {s s' : State T D} (hl : s'.glimitSize = s.glimitSize)
    (hs : s'.size = s.size) (c : Call) : mustWait s' c = mustWait s c := by
  cases c <;> simp [mustWait, hl, hs]

theorem Own.relies {s : State T D} {as : List Addr} (h : Own s as) {t u : T} {c : Call}
    (ht : s.lock = some (.thread t))
    (hu : s.pc u = .sleep c ∨ ∃ w, s.pc u = .stopTest c w ∨ s.pc u = .body c w) : u = t := by
  have hl : s.lock = some (.thread u) := by
    apply h.lock_eq
    rcases hu with hu | ⟨w, hu | hu⟩ <;> rw [hu] <;> rfl
  simpa using hl.symm.trans ht

variable [DecidableEq T]

theorem Bounded.move {size : Int32} {s s' : State T D} {t : T} {p : Pc D} (h : Bounded size s)
    (hstop : s'.stop = s.stop) (hlimit : s'.glimitSize = s.glimitSize)
    (hsize : s'.size = s.size) (hpc : s'.pc = Function.update s.pc t p)
    (hwait : ∀ c, p = .sleep c → mustWait s c = true)
    (hpass : ∀ c w, p = .stopTest c w ∨ p = .body c w → mustWait s c = false) :
    Bounded size s' := by
  refine ⟨hstop.trans h.stop, hlimit.trans h.limit, hsize ▸ h.capacity, fun u c hu => ?_,
    fun u c w hu => ?_⟩
  · rw [mustWait_congr hlimit hsize]
    by_cases hut : u = t
    · subst u
      exact hwait c (by simpa [hpc] using hu)
    · exact h.waits u c (by simpa [hpc, hut] using hu)
  · rw [mustWait_congr hlimit hsize]
    by_cases hut : u = t
    · subst u
      exact hpass c w (by simpa [hpc] using hu)
    · exact h.passes u c w (by simpa [hpc, hut] using hu)

/-- The thread at its critical section changes the size and leaves the lock; nobody
else relies on a loop test. -/
theorem Bounded.body {size : Int32} {s s' : State T D} {as : List Addr} {t : T} {p : Pc D}
    (h : Bounded size s) (ho : Own s as) (hl : s.lock = some (.thread t))
    (hstop : s'.stop = s.stop) (hlimit : s'.glimitSize = s.glimitSize)
    (hsize : s'.size ≤ limitOf size) (hpc : s'.pc = Function.update s.pc t p)
    (hwait : ∀ c, p ≠ .sleep c) (hpass : ∀ c w, p ≠ .stopTest c w ∧ p ≠ .body c w) :
    Bounded size s' := by
  refine ⟨hstop.trans h.stop, hlimit.trans h.limit, hsize, fun u c hu => ?_, fun u c w hu => ?_⟩
  · by_cases hut : u = t
    · subst u
      exact absurd (by simpa [hpc] using hu) (hwait c)
    · rw [hpc, Function.update_of_ne hut] at hu
      exact absurd (ho.relies hl (Or.inl hu)) hut
  · by_cases hut : u = t
    · subst u
      rw [hpc, Function.update_self] at hu
      exact hu.elim (fun e => absurd e (hpass c w).1) (fun e => absurd e (hpass c w).2)
    · rw [hpc, Function.update_of_ne hut] at hu
      exact absurd (ho.relies hl (Or.inr ⟨w, hu⟩)) hut

theorem Step.bounded {size : Int32} {s s' : State T D} {l : Label T D} {as : List Addr}
    (h : Step s l s') (ho : Own s as) (hb : Bounded size s) (hl : l.ownQueue = true)
    (hd : s'.destroyer = .notCalled) : Bounded size s' := by
  cases h with
  | noMemory => exact hb
  | malloc ht | dequeue ht | enter ht | reenter ht | sleep ht | spurious ht | stopSet ht
  | dropNode ht | leaveStopped ht | release ht =>
    exact hb.move rfl rfl rfl rfl (fun c hc => by cases hc) (fun c w hc => by simp at hc)
  | @testWait t c w ht hw hs =>
    refine hb.move rfl rfl rfl rfl (fun k hk => ?_) (fun k v hk => by simp at hk)
    cases hk
    exact hw
  | @testPass t c w ht hw =>
    have hw' : mustWait s c = false := hw.resolve_right (by simp [hb.stop])
    refine hb.move rfl rfl rfl rfl (fun k hk => by cases hk) (fun k v hk => ?_)
    simp only [Pc.stopTest.injEq, reduceCtorEq, or_false] at hk
    exact hk.1 ▸ hw'
  | @stopClear t c w ht hs =>
    have hw' := hb.passes t c w (Or.inl ht)
    refine hb.move rfl rfl rfl rfl (fun k hk => by cases hk) (fun k v hk => ?_)
    simp only [Pc.body.injEq, reduceCtorEq, false_or] at hk
    exact hk.1 ▸ hw'
  | @linkFirst t a w ht | @linkLast t a r w n ht =>
    have hw := hb.passes t _ w (Or.inr ht)
    have hlt : s.size < limitOf size := by
      simpa [mustWait, hb.limit] using hw
    refine hb.body ho (ho.lock_eq (t := t) (by rw [ht]; rfl)) rfl rfl ?_ rfl
      (fun c hc => by cases hc) (fun c w => by simp)
    exact hlt
  | @unlink t a w n ht =>
    have := hb.capacity
    refine hb.body ho (ho.lock_eq (t := t) (by rw [ht]; rfl)) rfl rfl ?_ rfl
      (fun c hc => by cases hc) (fun c w => by simp)
    show s.size - 1 ≤ limitOf size
    omega
  | @wakeOne t u c k ht hu hk =>
    have hu' : Bounded size (s.move u (.reenter k)) :=
      hb.move rfl rfl rfl rfl (fun c hc => by cases hc) (fun c w hc => by simp at hc)
    refine hu'.move rfl rfl rfl rfl ?_ ?_
    all_goals cases s.pc t <;> simp [Pc.afterWake]
  | @wakeNone t c ht hu =>
    refine hb.move rfl rfl rfl rfl ?_ ?_
    all_goals cases s.pc t <;> simp [Pc.afterWake]
  | destroy hs =>
    cases hp : s.destroyer <;> simp only [destroyStep, hp] at hs
    all_goals
      repeat' split at hs
      all_goals cases hs
      all_goals simp at hd
  | otherStop | otherLimit => cases hl

variable [Fintype T]

theorem step_notCalled {s s' : State T D} {l : Label T D} (h : step s l = some s')
    (hd : s'.destroyer = .notCalled) : s.destroyer = .notCalled := by
  cases step_cases h with
  | destroy hs =>
    cases hp : s.destroyer <;> simp only [destroyStep, hp] at hs
    case notCalled => rfl
    all_goals
      repeat' split at hs
      all_goals cases hs
      all_goals simp at hd
  | _ => exact hd

theorem run_bounded {size : Int32} {tr : List (Label T D)} {s : State T D}
    (h : exec step (createQueue size) tr = some s) (hown : ∀ l ∈ tr, l.ownQueue = true)
    (hd : s.destroyer = .notCalled) : ∃ as, Rep s as ∧ Own s as ∧ Bounded size s := by
  let I (s : State T D) : Prop := s.destroyer = .notCalled →
    ∃ as, Rep s as ∧ Own s as ∧ Bounded size s
  have hstep (s : State T D) (l : Label T D) (s' : State T D) (hI : I s)
      (hl : l.ownQueue = true) (hs : step s l = some s') : I s' := by
    intro hd'
    obtain ⟨as, hr, ho, hb⟩ := hI (step_notCalled hs hd')
    obtain ⟨bs, hbs⟩ := (step_cases hs).refines hr ho (by simp [entered, hd'])
    exact ⟨bs, hbs.rep, hbs.own, (step_cases hs).bounded ho hb hl hd'⟩
  have h0 : I (createQueue size) := by
    obtain ⟨⟨as, hr, ho, _⟩, _⟩ :=
      run_refines (T := T) (D := D) (s := createQueue size) (exec_nil (createQueue size)) rfl
    refine fun _ => ⟨as, hr, ho, rfl, rfl, (limitOf_pos size).le, ?_, ?_⟩
    · simp [createQueue]
    · simp [createQueue]
  exact exec_invariant_of_meets hstep h0 (meets_of_mem hown _) h hd

/-- The representation invariant of the queue object with its capacity, and what it
buys the two critical sections: no overflow, no NULL dereference. -/
structure WellFormed (size : Int32) (s : State T D) (as : List Addr) : Prop where
  chain : Chain QueueNode.next s.mem s.front as
  acyclic : as.Nodup
  front_iff : s.front = none ↔ s.rear = none
  rear_iff : s.rear = none ↔ s.size = 0
  last : as ≠ [] → ∃ r n, s.rear = some r ∧ as.getLast? = some r ∧ s.mem r = some n ∧
    n.next = none
  length : s.size = as.length
  capacity : 0 ≤ s.size ∧ s.size ≤ limitOf size
  no_overflow : ∀ t a w, s.pc t = .body (.enqueue a) w → s.size < INT_MAX
  no_null : ∀ t w, s.pc t = .body .dequeue w → ∃ a n, s.front = some a ∧ s.mem a = some n
  defined : ∀ t c w, s.pc t = .body c w → (step s (.body t)).isSome = true

theorem wellFormed_of_bounded {size : Int32} {s : State T D} {as : List Addr} (hr : Rep s as)
    (hb : Bounded size s) : WellFormed size s as := by
  have hover (t : T) (a : Addr) (w : Bool) (ht : s.pc t = .body (.enqueue a) w) :
      s.size < INT_MAX := by
    have hw := hb.passes t _ w (Or.inr ht)
    have hlt : s.size < limitOf size := by simpa [mustWait, hb.limit] using hw
    exact lt_of_lt_of_le hlt (limitOf_le size)
  have hnull (t : T) (w : Bool) (ht : s.pc t = .body .dequeue w) :
      ∃ a n, s.front = some a ∧ s.mem a = some n := by
    have hw := hb.passes t _ w (Or.inr ht)
    cases as with
    | nil => simp [mustWait, hr.size] at hw
    | cons a as =>
      obtain ⟨n, hn⟩ := hr.chain.live (List.mem_cons_self (a := a) (l := as))
      exact ⟨a, n, hr.chain.1, hn⟩
  have hrear : s.rear = none ↔ as = [] := by rw [hr.rear, List.getLast?_eq_none_iff]
  refine ⟨hr.chain, hr.chain.nodup, hr.chain.eq_none_iff.trans hrear.symm, ?_, fun hne => ?_,
    hr.size, ⟨?_, hb.capacity⟩, hover, hnull, fun t c w ht => ?_⟩
  · rw [hrear, hr.size, Int.natCast_eq_zero, List.length_eq_zero_iff]
  · obtain ⟨r, hlast⟩ := Option.ne_none_iff_exists'.mp (mt List.getLast?_eq_none_iff.mp hne)
    obtain ⟨n, hn, hnext⟩ := hr.chain.last_next hlast
    exact ⟨r, n, hr.rear.trans hlast, hlast, hn, hnext⟩
  · rw [hr.size]
    exact Int.natCast_nonneg _
  · cases c with
    | enqueue a =>
      have hm := hover t a w ht
      cases hre : s.rear with
      | none => simp [step, ht, linkNode, hm, hre]
      | some r =>
        have hlast := List.mem_of_mem_getLast? (hr.rear.symm.trans hre)
        obtain ⟨n, hn⟩ := hr.chain.live hlast
        simp [step, ht, linkNode, hm, hre, hn]
    | dequeue =>
      obtain ⟨a, n, hf, hn⟩ := hnull t w ht
      simp [step, ht, unlinkFront, hf, hn]

/-- With the queue alone in its process and before `destroyQueue`, its representation
invariant holds in every reachable state, within the limit given to `createQueue`. -/
theorem queue_wellFormed {size : Int32} {tr : List (Label T D)} {s : State T D}
    (h : exec step (createQueue size) tr = some s) (hown : ∀ l ∈ tr, l.ownQueue = true)
    (hd : s.destroyer = .notCalled) : ∃ as, WellFormed size s as := by
  obtain ⟨as, hr, _, hb⟩ := run_bounded h hown hd
  exact ⟨as, wellFormed_of_bounded hr hb⟩

def fillUp : List (Label Role Nat) :=
  [.enqueue .producer 7 1 (some 100), .enter .producer, .test .producer, .stopTest .producer,
    .body .producer, .wake .producer none, .enqueue .producer 8 1 (some 101), .enter .producer,
    .test .producer, .sleep .producer]

theorem queue_wellFormed_fillUp :
    ∃ s, exec step (createQueue 1) fillUp = some s ∧ s.size = 1 ∧ ∃ as, WellFormed 1 s as := by
  obtain ⟨s, hs, hp⟩ := exec_exists step (createQueue 1) fillUp
    (fun s => decide (s.destroyer = .notCalled ∧ s.size = 1)) (by decide)
  have hp' := of_decide_eq_true hp
  exact ⟨s, hs, hp'.2, queue_wellFormed hs (by decide) hp'.1⟩

end Cexp.BlockingQueue
