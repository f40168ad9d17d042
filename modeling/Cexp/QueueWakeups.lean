import Cexp.QueueCapacity

/-! No wake-up is lost: a counting invariant over the sleepers on a condition variable, the
threads woken from it and the wakes still owed to it. -/

namespace Cexp.BlockingQueue

open Transition ThreadCount

variable {T D : Type}

/-- The thread was woken from `c`, and the section that starts with its re-check of the
loop test is still to come or not over yet. -/
def Pc.wokenOn (c : Cond) : Pc D → Bool
  | .reenter k | .test k true | .stopTest k true | .body k true => k.sleepsOn == c
  | _ => false

def Pc.unchecked (c : Cond) : Pc D → Bool
  | .reenter k | .test k true => k.sleepsOn == c
  | _ => false

def Pc.pastTest : Pc D → Bool
  | .stopTest _ _ | .stopped _ | .body _ _ => true
  | _ => false

def Pc.owesTo (c : Cond) (p : Pc D) : Bool := p.owes == some c

@[simp] theorem notEmpty_beq_notFull : (Cond.notEmpty == Cond.notFull) = false := rfl

@[simp] theorem notFull_beq_notEmpty : (Cond.notFull == Cond.notEmpty) = false := rfl

/-- What the threads sleeping on `c` wait for: queued items or free slots. -/
def available (size : Int32) (s : State T D) : Cond → Int
  | .notEmpty => s.size
  | .notFull => limitOf size - s.size

variable [Fintype T]

def sleepers (s : State T D) (c : Cond) : Nat := count (Pc.asleepOn c) s.pc

def woken (s : State T D) (c : Cond) : Nat := count (Pc.wokenOn c) s.pc

def owed (s : State T D) (c : Cond) : Nat := count (Pc.owesTo c) s.pc

theorem woken_eq_unchecked {s : State T D} (h : ∀ t, (s.pc t).pastTest = false) (c : Cond) :
    woken s c = count (Pc.unchecked c) s.pc := by
  refine count_congr fun t => ?_
  have ht := h t
  cases hp : s.pc t with
  | stopTest k w | stopped k | body k w =>
    rw [hp] at ht
    cases ht
  | test k w => cases w <;> rfl
  | _ => rfl

def NoLostWake (size : Int32) (s : State T D) : Prop :=
  ∀ c, 0 < sleepers s c → available size s c ≤ woken s c + owed s c

variable [DecidableEq T]

/-- Moving one thread keeps the count in order if nothing is left to wait for, or if the
thread does not fall asleep and gives at least as much as it takes. -/
theorem NoLostWake.move {size : Int32} {s s' : State T D} {t : T} {p q : Pc D}
    (h : NoLostWake size s) (ht : s.pc t = p) (hpc : s'.pc = Function.update s.pc t q)
    (hc : ∀ c, available size s' c ≤ 0 ∨
      ((q.asleepOn c).toNat ≤ (p.asleepOn c).toNat ∧
        available size s' c + (p.wokenOn c).toNat + (p.owesTo c).toNat ≤
          available size s c + (q.wokenOn c).toNat + (q.owesTo c).toNat)) :
    NoLostWake size s' := by
  intro c hs
  have ha := count_update (p := Pc.asleepOn c) s.pc t q
  have hw := count_update (p := Pc.wokenOn c) s.pc t q
  have ho := count_update (p := Pc.owesTo c) s.pc t q
  have hi := h c
  rw [ht] at ha hw ho
  simp only [sleepers, woken, owed, hpc] at hs hi ⊢
  rcases hc c with hz | ⟨hq, hle⟩
  · omega
  · have := hi (by omega)
    omega

theorem NoLostWake.shift {size : Int32} {s s' : State T D} {t : T} {p q : Pc D}
    (h : NoLostWake size s) (ht : s.pc t = p) (hpc : s'.pc = Function.update s.pc t q)
    (hs : s'.size = s.size) (hc : ∀ c, available size s c ≤ 0 ∨
      ((q.asleepOn c).toNat ≤ (p.asleepOn c).toNat ∧
        (p.wokenOn c).toNat + (p.owesTo c).toNat ≤ (q.wokenOn c).toNat + (q.owesTo c).toNat)) :
    NoLostWake size s' := by
  refine h.move ht hpc fun c => ?_
  have he : available size s' c = available size s c := by
    cases c <;> simp [available, hs]
  rw [he]
  rcases hc c with hz | ⟨hq, hle⟩
  · exact Or.inl hz
  · exact Or.inr ⟨hq, by omega⟩

theorem NoLostWake.wake {size : Int32} {s : State T D} {t : T} {c : Cond}
    (h : NoLostWake size s) (ht : (s.pc t).owes = some c) :
    (∀ u k, s.pc u = .asleep k → k.sleepsOn = c →
      NoLostWake size ((s.move u (.reenter k)).move t (s.pc t).afterWake)) ∧
    ((∀ u, (s.pc u).asleepOn c = false) → NoLostWake size (s.move t (s.pc t).afterWake)) := by
  have hafter (e : Cond) : (s.pc t).afterWake.asleepOn e = false ∧
      (s.pc t).afterWake.wokenOn e = false ∧ (s.pc t).afterWake.owesTo e = false ∧
      (s.pc t).asleepOn e = false ∧ (s.pc t).wokenOn e = false := by
    cases hp : s.pc t <;> simp_all [Pc.owes, Pc.afterWake, Pc.asleepOn, Pc.wokenOn, Pc.owesTo]
  constructor
  · intro u k hu hk e hs
    have htu : t ≠ u := by
      rintro rfl
      rw [hu] at ht
      cases ht
    have hpc : (s.move u (.reenter k)).pc t = s.pc t := by simp [State.move, htu]
    have ha := count_update (p := Pc.asleepOn e) s.pc u (.reenter k)
    have hw := count_update (p := Pc.wokenOn e) s.pc u (.reenter k)
    have ho := count_update (p := Pc.owesTo e) s.pc u (.reenter k)
    have ha' := count_update (p := Pc.asleepOn e) (s.move u (.reenter k)).pc t (s.pc t).afterWake
    have hw' := count_update (p := Pc.wokenOn e) (s.move u (.reenter k)).pc t (s.pc t).afterWake
    have ho' := count_update (p := Pc.owesTo e) (s.move u (.reenter k)).pc t (s.pc t).afterWake
    have hi := h e
    obtain ⟨h1, h2, h3, h4, h5⟩ := hafter e
    have hu1 : (Pc.asleepOn e (.asleep k : Pc D)) = (k.sleepsOn == e) := rfl
    have hu2 : (Pc.wokenOn e (.reenter k : Pc D)) = (k.sleepsOn == e) := rfl
    have hu3 : (Pc.asleepOn e (.reenter k : Pc D)) = false := rfl
    have hu4 : (Pc.wokenOn e (.asleep k : Pc D)) = false := rfl
    have hu5 : (Pc.owesTo e (.asleep k : Pc D)) = false := rfl
    have hu6 : (Pc.owesTo e (.reenter k : Pc D)) = false := rfl
    have ht' : (s.pc t).owesTo e = (k.sleepsOn == e) := by
      simp only [Pc.owesTo, ht, hk]
      rfl
    rw [hpc, h1, h4] at ha'
    rw [hpc, h2, h5] at hw'
    rw [hpc, h3, ht'] at ho'
    rw [hu, hu1, hu3] at ha
    rw [hu, hu2, hu4] at hw
    rw [hu, hu5, hu6] at ho
    simp only [sleepers, woken, owed, State.move, available, Bool.toNat_false] at *
    have := hi (by omega)
    cases e <;> simp only at this ⊢ <;> omega
  · intro hnone e hs
    have ha := count_update (p := Pc.asleepOn e) s.pc t (s.pc t).afterWake
    have hw := count_update (p := Pc.wokenOn e) s.pc t (s.pc t).afterWake
    have ho := count_update (p := Pc.owesTo e) s.pc t (s.pc t).afterWake
    have hi := h e
    obtain ⟨h1, h2, h3, h4, h5⟩ := hafter e
    rw [h1, h4] at ha
    rw [h2, h5] at hw
    rw [h3] at ho
    by_cases hec : e = c
    · subst e
      have hz : sleepers s c = 0 := count_eq_zero_iff.mpr hnone
      simp only [sleepers, State.move, Bool.toNat_false] at *
      omega
    · have ht' : (s.pc t).owesTo e = false := by
        simp [Pc.owesTo, ht, Ne.symm hec]
      rw [ht'] at ho
      simp only [sleepers, woken, owed, State.move, available, Bool.toNat_false] at *
      have := hi (by omega)
      cases e <;> simp only at this ⊢ <;> omega

theorem Step.noLostWake {size : Int32} {s s' : State T D} {l : Label T D} (h : Step s l s')
    (hb : Bounded size s) (hl : l.ownQueue = true) (hd : s'.destroyer = .notCalled)
    (hn : NoLostWake size s) : NoLostWake size s' := by
  have hwait (k : Call) (hk : mustWait s k = true) : available size s k.sleepsOn ≤ 0 := by
    cases k <;> simp_all [mustWait, available, Call.sleepsOn, hb.limit]
  cases h with
  | noMemory => exact hn
  | malloc ht | dequeue ht | enter ht | reenter ht | spurious ht | dropNode ht
  | leaveStopped ht | release ht =>
    refine hn.shift ht rfl rfl fun c => Or.inr ?_
    simp [Pc.asleepOn, Pc.wokenOn, Pc.owesTo, Pc.owes]
  | @testWait t k w ht hw hs =>
    refine hn.shift ht rfl rfl fun c => ?_
    by_cases hc : k.sleepsOn = c
    · exact Or.inl (hc ▸ hwait k hw)
    · right
      cases w <;> simp [Pc.asleepOn, Pc.wokenOn, Pc.owesTo, Pc.owes, hc]
  | @testPass t k w ht | @stopClear t k w ht =>
    refine hn.shift ht rfl rfl fun c => Or.inr ?_
    cases w <;> simp [Pc.asleepOn, Pc.wokenOn, Pc.owesTo, Pc.owes]
  | stopSet ht hs => simp [hb.stop] at hs
  | @sleep t k ht =>
    refine hn.shift ht rfl rfl fun c => ?_
    by_cases hc : k.sleepsOn = c
    · exact Or.inl (hc ▸ hwait k (hb.waits t k ht))
    · exact Or.inr (by simp [Pc.asleepOn, Pc.wokenOn, Pc.owesTo, Pc.owes, hc])
  | @linkFirst t a w ht | @linkLast t a r w n ht =>
    refine hn.move ht rfl fun c => Or.inr ?_
    cases c <;> cases w <;> simp [available, Pc.asleepOn, Pc.wokenOn, Pc.owesTo, Pc.owes,
      Call.sleepsOn]
    all_goals omega
  | @unlink t a w n ht =>
    refine hn.move ht rfl fun c => Or.inr ?_
    cases c <;> cases w <;> simp [available, Pc.asleepOn, Pc.wokenOn, Pc.owesTo, Pc.owes,
      Call.sleepsOn]
  | wakeOne ht hu hk => exact (hn.wake ht).1 _ _ hu hk
  | wakeNone ht hu => exact (hn.wake ht).2 hu
  | destroy hs =>
    cases hp : s.destroyer <;> simp only [destroyStep, hp] at hs
    all_goals
      repeat' split at hs
      all_goals cases hs
      all_goals simp at hd
  | otherStop | otherLimit => cases hl

theorem run_noLostWake {size : Int32} {tr : List (Label T D)} {s : State T D}
    (h : exec step (createQueue size) tr = some s) (hown : ∀ l ∈ tr, l.ownQueue = true)
    (hd : s.destroyer = .notCalled) : NoLostWake size s := by
  let I (s : State T D) : Prop := s.destroyer = .notCalled →
    (∃ as, Rep s as ∧ Own s as) ∧ Bounded size s ∧ NoLostWake size s
  have hstep (s : State T D) (l : Label T D) (s' : State T D) (hI : I s)
      (hl : l.ownQueue = true) (hs : step s l = some s') : I s' := by
    intro hd'
    obtain ⟨⟨as, hr, ho⟩, hb, hn⟩ := hI (step_notCalled hs hd')
    obtain ⟨bs, hbs⟩ := (step_cases hs).refines hr ho (by simp [entered, hd'])
    exact ⟨⟨bs, hbs.rep, hbs.own⟩, (step_cases hs).bounded ho hb hl hd',
      (step_cases hs).noLostWake hb hl hd' hn⟩
  have h0 : I (createQueue size) := by
    intro hd'
    obtain ⟨as, hr, ho, hb⟩ := run_bounded (T := T) (D := D) (exec_nil (createQueue size))
      (by simp) hd'
    refine ⟨⟨as, hr, ho⟩, hb, fun c hs => ?_⟩
    obtain ⟨t, ht⟩ := count_pos_iff.mp hs
    cases ht
  exact (exec_invariant_of_meets hstep h0 (meets_of_mem hown _) h hd).2.2

/-- No wake-up is lost: while some consumer sleeps, every queued item has a woken consumer
or an owed wake, symmetrically for producers and free slots; so the queue never has
sleepers on both sides with nobody woken and no wake owed. When no thread is between its
loop test and its leaving the lock, the woken threads are those that have not re-checked. -/
theorem queue_no_lost_wake {size : Int32} {tr : List (Label T D)} {s : State T D}
    (h : exec step (createQueue size) tr = some s) (hown : ∀ l ∈ tr, l.ownQueue = true)
    (hd : s.destroyer = .notCalled) :
    (0 < sleepers s .notEmpty → s.size ≤ woken s .notEmpty + owed s .notEmpty) ∧
    (0 < sleepers s .notFull →
      limitOf size - s.size ≤ woken s .notFull + owed s .notFull) ∧
    ((∀ t, (s.pc t).pastTest = false) → ∀ c, woken s c = count (Pc.unchecked c) s.pc) ∧
    ¬ (0 < sleepers s .notEmpty ∧ 0 < sleepers s .notFull ∧
      (∀ c, woken s c = 0) ∧ ∀ c, owed s c = 0) := by
  have hn := run_noLostWake h hown hd
  refine ⟨hn .notEmpty, hn .notFull, woken_eq_unchecked, ?_⟩
  rintro ⟨he, hf, hw, ho⟩
  have hpos := limitOf_pos size
  have hitems := hn .notEmpty he
  have hslots := hn .notFull hf
  simp only [available, hw, ho] at hitems hslots
  omega

def stolen : List (Label Role Nat) :=
  [.dequeue .consumer, .enter .consumer, .test .consumer, .sleep .consumer,
    .enqueue .producer 7 1 (some 100), .enter .producer, .test .producer, .stopTest .producer,
    .body .producer, .dequeue .thief, .enter .thief, .test .thief, .stopTest .thief, .body .thief]

theorem queue_no_lost_wake_stolen :
    ∃ s, exec step (createQueue 1) stolen = some s ∧ 0 < sleepers s .notEmpty ∧
      s.size ≤ woken s .notEmpty + owed s .notEmpty := by
  obtain ⟨s, hs, hp⟩ := exec_exists step (createQueue 1) stolen
    (fun s => decide (s.destroyer = .notCalled ∧ 0 < sleepers s .notEmpty)) (by decide)
  have hp' := of_decide_eq_true hp
  exact ⟨s, hs, hp'.2, (queue_no_lost_wake hs (by decide) hp'.1).1 hp'.2⟩

end Cexp.BlockingQueue
