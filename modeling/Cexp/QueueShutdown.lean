import Cexp.QueueIndependence
import Cexp.QueueProgress

/-! The callers of a queue when it is destroyed: whoever sleeps is woken, nobody falls asleep
again, and no call changes the chain any more. -/

namespace Cexp.BlockingQueue

open Transition

variable {T D : Type}

/-- Both condition variables have been woken. -/
def DestroyPc.woke : DestroyPc → Bool
  | .freeNodes | .freeQueue | .leave | .delete | .returned => true
  | _ => false

/-- From the moment `destroyQueue` has the lock nobody is about to sleep, and who sleeps is still
to be woken. -/
structure Waking (s : State T D) : Prop where
  stop : s.stop = true
  awake : entered s = true → ∀ t c, s.pc t ≠ .sleep c
  notEmpty : entered s = true → s.destroyer ≠ .wakeNotEmpty → ∀ t c, s.pc t = .asleep c →
    c.sleepsOn ≠ .notEmpty
  notFull : s.destroyer.woke = true → ∀ t c, s.pc t = .asleep c → c.sleepsOn ≠ .notFull

theorem DestroyPc.entered_of_woke {s : State T D} (h : s.destroyer.woke = true) :
    entered s = true ∧ s.destroyer ≠ .wakeNotEmpty := by
  cases hd : s.destroyer <;> simp_all [DestroyPc.woke, entered]

theorem Waking.none_asleep {s : State T D} (h : Waking s) (hw : s.destroyer.woke = true) (t : T)
    (c : Call) : s.pc t ≠ .asleep c ∧ s.pc t ≠ .sleep c := by
  obtain ⟨he, hne⟩ := DestroyPc.entered_of_woke hw
  refine ⟨fun ht => ?_, h.awake he t c⟩
  have h1 := h.notEmpty he hne t c ht
  have h2 := h.notFull hw t c ht
  cases c with
  | enqueue a => exact h2 rfl
  | dequeue => exact h1 rfl

theorem Pc.afterWake_awake (p : Pc D) :
    (∀ k, p.afterWake ≠ .sleep k) ∧ ∀ k, p.afterWake ≠ .asleep k := by
  unfold Pc.afterWake
  split <;> exact ⟨fun _ => by simp, fun _ => by simp⟩

theorem Pc.not_holds_of_owes {p : Pc D} {c : Cond} (h : p.owes = some c) : p.holds = false := by
  cases p <;> first | rfl | cases h

theorem wakeAll_cases {c : Cond} {p q : Pc D} (h : wakeAll c p = q) :
    q = p ∨ ∃ k, p = .asleep k ∧ q = .reenter k := by
  subst h
  cases p with
  | asleep k =>
    simp only [wakeAll]
    split
    · exact Or.inr ⟨k, rfl, rfl⟩
    · exact Or.inl rfl
  | _ => exact Or.inl rfl

theorem wakeAll_asleep {c : Cond} {p : Pc D} {k : Call} (h : wakeAll c p = .asleep k) :
    p = .asleep k ∧ k.sleepsOn ≠ c := by
  cases p with
  | asleep j =>
    simp only [wakeAll] at h
    split at h
    case isTrue => cases h
    case isFalse hne =>
      cases h
      exact ⟨rfl, hne⟩
  | _ => cases h

theorem wakeAll_holds {c : Cond} {p : Pc D} (h : p.holds = true) : (wakeAll c p).holds = true := by
  cases p with
  | asleep k => cases h
  | _ => exact h

/-- A thread about to sleep holds the lock, so `destroyQueue` comes after it has gone to sleep. -/
theorem Waking.enter {s : State T D} {as : List Addr} (h : Waking s) (ho : Own s as)
    (hl : s.lock = none) :
    Waking { s with lock := some .destroyer, destroyer := .wakeNotEmpty } where
  stop := h.stop
  awake _ t c ht := by
    have hlock := ho.lock_eq (t := t) (by rw [ht]; rfl)
    rw [hl] at hlock
    cases hlock
  notEmpty _ hne := absurd rfl hne
  notFull hw := by cases hw

variable [DecidableEq T]

theorem Waking.move {s s' : State T D} {t : T} {p : Pc D} (h : Waking s)
    (hstop : s'.stop = s.stop) (hd : s'.destroyer = s.destroyer)
    (hpc : s'.pc = Function.update s.pc t p) (hp : ∀ c, p ≠ .sleep c)
    (hp' : ∀ c, p = .asleep c → s.pc t = .sleep c) : Waking s' := by
  have he : entered s' = entered s := by simp only [entered, hd]
  have hother {u : T} (hu : u ≠ t) : s'.pc u = s.pc u := by simp [hpc, hu]
  have hself : s'.pc t = p := by simp [hpc]
  have hasleep {u : T} {c : Call} (hent : entered s = true) (hu : s'.pc u = .asleep c) :
      s.pc u = .asleep c := by
    by_cases hut : u = t
    · subst u
      exact absurd (hp' c (hself.symm.trans hu)) (h.awake hent t c)
    · rwa [hother hut] at hu
  refine ⟨hstop.trans h.stop, fun hent u c hu => ?_, fun hent hne u c hu => ?_,
    fun hw u c hu => ?_⟩
  · by_cases hut : u = t
    · subst u
      exact hp c (hself.symm.trans hu)
    · rw [hother hut] at hu
      exact h.awake (he ▸ hent) u c hu
  · exact h.notEmpty (he ▸ hent) (hd ▸ hne) u c (hasleep (he ▸ hent) hu)
  · rw [hd] at hw
    exact h.notFull hw u c (hasleep (DestroyPc.entered_of_woke hw).1 hu)

theorem Waking.destroy {s s' : State T D} {junk : Option Addr} (h : Waking s)
    (ho : entered s = false → ∃ as, Own s as) (hc : s.destroyer ≠ .notCalled)
    (hs : destroyStep s junk = some s') : Waking s' := by
  cases hp : s.destroyer <;> simp only [destroyStep, hp] at hs
  case notCalled => exact absurd hp hc
  case enter =>
    split at hs <;> cases hs
    rename_i hl
    obtain ⟨as, ho⟩ := ho (by simp [entered, hp])
    exact h.enter ho hl
  case wakeNotEmpty =>
    obtain rfl := Option.some.inj hs
    have hent : entered s = true := by simp [entered, hp]
    refine ⟨h.stop, fun _ t c ht => ?_, fun _ _ t c ht => (wakeAll_asleep ht).2,
      fun hw => by cases hw⟩
    rcases wakeAll_cases ht with he | ⟨k, -, he⟩
    · exact h.awake hent t c he.symm
    · cases he
  case wakeNotFull =>
    obtain rfl := Option.some.inj hs
    have hent : entered s = true := by simp [entered, hp]
    refine ⟨h.stop, fun _ t c ht => ?_, fun _ _ t c ht => ?_, fun _ t c ht => (wakeAll_asleep ht).2⟩
    · rcases wakeAll_cases ht with he | ⟨k, -, he⟩
      · exact h.awake hent t c he.symm
      · cases he
    · exact h.notEmpty hent (by simp [hp]) t c (wakeAll_asleep ht).1
  all_goals
    have hw : s.destroyer.woke = true := by rw [hp]; rfl
    have hnone := h.none_asleep hw
    repeat' split at hs
    all_goals cases hs
    all_goals exact ⟨h.stop, fun _ t c ht => (hnone t c).2 ht,
      fun _ _ t c ht => ((hnone t c).1 ht).elim, fun _ t c ht => ((hnone t c).1 ht).elim⟩

theorem Step.waking {s s' : State T D} {l : Label T D} (h : Step s l s') (hI : Waking s)
    (ho : entered s = false → ∃ as, Own s as) (hc : s.destroyer ≠ .notCalled)
    (hl : l.ownQueue = true) : Waking s' := by
  cases h with
  | noMemory => exact hI
  | malloc | dequeue | enter | reenter | testPass | spurious | stopSet | stopClear | dropNode
  | leaveStopped | linkFirst | linkLast | unlink | release =>
    exact hI.move rfl rfl rfl (by simp) (by simp)
  | testWait _ _ hs =>
    rw [hI.stop] at hs
    cases hs
  | @sleep t c ht =>
    refine hI.move rfl rfl rfl (by simp) fun k hk => ?_
    rw [ht]
    cases hk
    rfl
  | @wakeOne t u c k ht hu hk =>
    have hu' : Waking (s.move u (.reenter k)) := hI.move rfl rfl rfl (by simp) (by simp)
    obtain ⟨hs, ha⟩ := (s.pc t).afterWake_awake
    exact hu'.move rfl rfl rfl hs fun k hk => absurd hk (ha k)
  | @wakeNone t c ht hu =>
    obtain ⟨hs, ha⟩ := (s.pc t).afterWake_awake
    exact hI.move rfl rfl rfl hs fun k hk => absurd hk (ha k)
  | destroy hs => exact hI.destroy ho hc hs
  | otherStop | otherLimit => cases hl

/-- A thread that has the lock is in its section. -/
theorem Step.holds {s s' : State T D} {l : Label T D} (h : Step s l s')
    (hI : ∀ t, s.lock = some (.thread t) → (s.pc t).holds = true) :
    ∀ t, s'.lock = some (.thread t) → (s'.pc t).holds = true := by
  have hstay {u : T} {p : Pc D} {s'' : State T D} (hk : s''.lock = s.lock)
      (hpc : s''.pc = Function.update s.pc u p) (hp : (s.pc u).holds = true → p.holds = true) :
      ∀ t, s''.lock = some (.thread t) → (s''.pc t).holds = true := by
    intro t ht
    have ht' := hI t (hk ▸ ht)
    by_cases htu : t = u
    · subst u
      simpa [hpc] using hp ht'
    · simpa [hpc, htu] using ht'
  cases h with
  | noMemory | otherStop | otherLimit => exact hI
  | malloc ht | dequeue ht | testWait ht | testPass ht | spurious ht | stopSet ht | stopClear ht
  | release ht => exact hstay rfl rfl (by simp [ht, Pc.holds])
  | @enter t | @reenter t =>
    intro u hu
    obtain rfl : t = u := by simpa [State.acquire, State.move] using hu
    simp [State.acquire, State.move, Pc.holds]
  | sleep | dropNode | leaveStopped | linkFirst | linkLast | unlink =>
    intro u hu
    simp [State.leave] at hu
  | @wakeOne t u c k ht hu hk =>
    have htu : t ≠ u := by
      rintro rfl
      rw [hu] at ht
      cases ht
    intro v hv
    have hv' := hI v hv
    by_cases hvt : v = t
    · subst v
      rw [Pc.not_holds_of_owes ht] at hv'
      cases hv'
    · by_cases hvu : v = u
      · subst v
        simp [hu, Pc.holds] at hv'
      · simpa [State.move, hvt, hvu] using hv'
  | @wakeNone t c ht hu =>
    refine hstay rfl rfl fun hh => ?_
    rw [Pc.not_holds_of_owes ht] at hh
    cases hh
  | destroy hs =>
    cases hp : s.destroyer <;> simp only [destroyStep, hp] at hs
    case wakeNotEmpty | wakeNotFull =>
      obtain rfl := Option.some.inj hs
      exact fun t ht => wakeAll_holds (hI t ht)
    all_goals
      repeat' split at hs
      all_goals cases hs
      all_goals first | exact hI | (intro t ht; simp at ht)

variable [Fintype T]

theorem run_waking {size : Int32} {tr : List (Label T D)} {s : State T D}
    (h : exec step (createQueue size) tr = some s) (hown : ∀ l ∈ tr, l.ownQueue = true)
    (hd : s.destroyer ≠ .notCalled) : Waking s := by
  revert hown hd
  refine exec_prefix_induction (P := fun tr s => (∀ l ∈ tr, l.ownQueue = true) →
    s.destroyer ≠ .notCalled → Waking s) (fun _ hd => absurd rfl hd) ?_ h
  intro tr s l s' he ih hs hown hd
  obtain ⟨htr, hl⟩ : (∀ l ∈ tr, l.ownQueue = true) ∧ l.ownQueue = true := by
    simpa [or_imp, forall_and] using hown
  by_cases hc : s.destroyer = .notCalled
  · cases step_cases hs with
    | destroy hstep =>
      simp only [destroyStep, hc, Option.some.injEq] at hstep
      subst hstep
      exact ⟨rfl, fun hent => by simp [entered] at hent, fun hent => by simp [entered] at hent,
        fun hw => by cases hw⟩
    | _ => exact absurd hc hd
  · have hrep (he' : entered s = false) : ∃ as, Own s as := by
      obtain ⟨⟨as, _, ho, _⟩, _⟩ := run_refines he he'
      exact ⟨as, ho⟩
    exact (step_cases hs).waking (ih htr hc) hrep hc hl

theorem run_holds {size : Int32} {tr : List (Label T D)} {s : State T D}
    (h : exec step (createQueue size) tr = some s) :
    ∀ t, s.lock = some (.thread t) → (s.pc t).holds = true :=
  exec_invariant_of_meets (I := fun s : State T D =>
      ∀ t, s.lock = some (.thread t) → (s.pc t).holds = true)
    (fun _ _ _ hI _ hs => (step_cases hs).holds hI) (fun _ ht => by cases ht) (meets_true _ tr) h

omit [Fintype T] [DecidableEq T] in
theorem queueOps_eq_nil_of_no_body {s : State T D} {l : Label T D}
    (h : ∀ t c w, s.pc t ≠ .body c w) : queueOps (events s l) = [] := by
  cases l with
  | body t =>
    cases hp : s.pc t with
    | body c w => exact absurd hp (h t c w)
    | _ => simp [events, hp, queueOps]
  | enqueue t d len a => cases a <;> rfl
  | wake t w | release t => cases hp : s.pc t <;> simp [events, hp, queueOps]
  | _ => rfl

theorem step_woke {s t : State T D} {l : Label T D} (h : step s l = some t)
    (hw : s.destroyer.woke = true) : t.destroyer.woke = true := by
  cases step_cases h with
  | destroy hs =>
    cases hp : s.destroyer <;> simp only [destroyStep, hp] at hs
    case notCalled | enter | wakeNotEmpty | wakeNotFull =>
      rw [hp] at hw
      cases hw
    all_goals
      repeat' split at hs
      all_goals cases hs
      all_goals rfl
  | _ => exact hw

/-- With the queue alone in its process, once `destroyQueue` has woken both condition variables
no call sleeps or ever will, none takes or adds an item, and those in progress go on until they
have returned or wait for `destroyQueue` to leave the lock. -/
theorem destroyQueue_wakes_callers {size : Int32} {tr more : List (Label T D)} {s t : State T D}
    (h : exec step (createQueue size) tr = some s) (hw : s.destroyer.woke = true)
    (he : exec step s more = some t) (hown : ∀ l ∈ tr ++ more, l.ownQueue = true) :
    (∀ u c, t.pc u ≠ .asleep c ∧ t.pc u ≠ .sleep c) ∧
      queueOps (outputs step events s more) = [] ∧
      (AtRest t → ∀ u, t.pc u = .outside ∨
        t.lock = some .destroyer ∧ ∃ c, t.pc u = .enter c ∨ t.pc u = .reenter c) := by
  have hnot {s : State T D} (hs : s.destroyer.woke = true) : s.destroyer ≠ .notCalled := by
    intro hd
    rw [hd] at hs
    cases hs
  have hbody {tr : List (Label T D)} {s : State T D} (h : exec step (createQueue size) tr = some s)
      (hown : ∀ l ∈ tr, l.ownQueue = true) (hs : s.destroyer.woke = true) :
      ∀ t c w, s.pc t ≠ .body c w :=
    (run_draining h hown (hnot hs)).locked (DestroyPc.entered_of_woke hs).1
  induction more generalizing tr s with
  | nil =>
    obtain rfl := Option.some.inj he
    rw [List.append_nil] at hown
    have hnone := (run_waking h hown (hnot hw)).none_asleep hw
    refine ⟨hnone, rfl, fun hr u => ?_⟩
    rcases hr.pc_cases (run_holds h) (fun u c w hu => absurd hu (hbody h hown hw u c w)) u with
      hp | ⟨c, hp⟩ | hp
    · exact Or.inl hp
    · exact absurd hp (hnone u c).1
    · exact Or.inr hp
  | cons l more ih =>
    obtain ⟨v, hv, ht⟩ := exec_cons.mp he
    have hrun : exec step (createQueue size) (tr ++ [l]) = some v :=
      exec_append.mpr ⟨s, h, exec_cons.mpr ⟨v, hv, rfl⟩⟩
    obtain ⟨h1, h2, h3⟩ := ih hrun (step_woke hv hw) ht (by simpa using hown)
    refine ⟨h1, ?_, h3⟩
    have htr : ∀ m ∈ tr, m.ownQueue = true := fun m hm => hown m (by simp [hm])
    rw [outputs_cons hv, queueOps, List.filterMap_append]
    exact List.append_eq_nil_iff.mpr ⟨queueOps_eq_nil_of_no_body (hbody h htr hw), h2⟩

/-- A consumer asleep on an empty queue which is then destroyed. -/
def wokenByDestroy : List (Label Role Nat) :=
  [.dequeue .consumer, .enter .consumer, .test .consumer, .sleep .consumer] ++
    List.replicate 4 (.destroy none)

/-- `destroyQueue` leaves the lock, and the consumer enters it and returns without an item. -/
def wokenReturns : List (Label Role Nat) :=
  List.replicate 3 (.destroy none) ++
    [.enter .consumer, .test .consumer, .stopTest .consumer, .leaveStopped .consumer]

theorem destroyQueue_wakes_callers_consumer :
    ∃ s t, exec step (createQueue 1) wokenByDestroy = some s ∧
      s.pc .consumer = .reenter .dequeue ∧ exec step s wokenReturns = some t ∧
      t.pc .consumer = .outside ∧ queueOps (outputs step events s wokenReturns) = [] := by
  obtain ⟨s, hs, hp⟩ := exec_exists step (createQueue 1) wokenByDestroy
    (fun s => s.destroyer.woke && decide (s.pc .consumer = .reenter .dequeue) &&
      (exec step s wokenReturns).any fun t : State Role Nat => decide (t.pc .consumer = .outside))
    (by decide)
  simp only [Bool.and_eq_true, decide_eq_true_eq, Option.any_eq_true] at hp
  obtain ⟨⟨hw, hpc⟩, t, ht, hout⟩ := hp
  exact ⟨s, t, hs, hpc, ht, hout, (destroyQueue_wakes_callers hs hw ht (by decide)).2.1⟩

end Cexp.BlockingQueue
