import Cexp.QueueProcess

/-! How far the queues of one process are independent of each other. `destroyQueue` on one queue
stops the calls on all of them, and the last `createQueue` sets the limit of all. -/

namespace Cexp.BlockingQueue

open Transition

variable {T D Q : Type}

/-- The queue alone once `destroyQueue` has been called: the calls still past their test of
`stop` end, and after the destroyer has had the lock there are none. -/
structure Draining (size : Int32) (s : State T D) : Prop where
  stop : s.stop = true
  capacity : s.size ≤ limitOf size
  linking : ∀ t a w, s.pc t = .body (.enqueue a) w → s.size < limitOf size
  locked : entered s = true → ∀ t c w, s.pc t ≠ .body c w

variable [DecidableEq T]

theorem Draining.move {size : Int32} {s s' : State T D} {t : T} {p : Pc D} (h : Draining size s)
    (hstop : s'.stop = s.stop) (hsize : s'.size = s.size) (hd : s'.destroyer = s.destroyer)
    (hpc : s'.pc = Function.update s.pc t p) (hp : ∀ c w, p ≠ .body c w) : Draining size s' := by
  have hbody {u : T} {c : Call} {w : Bool} (hu : s'.pc u = .body c w) : s.pc u = .body c w := by
    by_cases hut : u = t
    · subst u
      exact absurd (by simpa [hpc] using hu) (hp c w)
    · simpa [hpc, hut] using hu
  refine ⟨hstop.trans h.stop, hsize ▸ h.capacity, fun u a w hu => ?_, fun he u c w hu => ?_⟩
  · rw [hsize]
    exact h.linking u a w (hbody hu)
  · exact h.locked (by simpa only [entered, hd] using he) u c w (hbody hu)

/-- The thread in its critical section is alone there. -/
theorem Draining.body {size : Int32} {s s' : State T D} {t : T} {p : Pc D} (h : Draining size s)
    (ho : entered s = false → ∃ as, Own s as) {c : Call} {w : Bool} (ht : s.pc t = .body c w)
    (hstop : s'.stop = s.stop) (hsize : s'.size ≤ limitOf size)
    (hpc : s'.pc = Function.update s.pc t p) (hp : ∀ c w, p ≠ .body c w) : Draining size s' := by
  have he : entered s = false := by
    by_contra he
    exact h.locked (by simpa using he) t c w ht
  obtain ⟨as, ho⟩ := ho he
  have hbody {u : T} {c : Call} {w : Bool} (hu : s'.pc u = .body c w) : False := by
    by_cases hut : u = t
    · subst u
      exact hp c w (by simpa [hpc] using hu)
    · rw [hpc, Function.update_of_ne hut] at hu
      exact hut (ho.relies (ho.lock_eq (t := t) (by rw [ht]; rfl)) (Or.inr ⟨w, Or.inr hu⟩))
  exact ⟨hstop.trans h.stop, hsize, fun u a w hu => (hbody hu).elim,
    fun _ u c w hu => hbody hu⟩

omit [DecidableEq T] in
theorem wakeAll_body {c : Cond} {p : Pc D} {b : Call} {w : Bool}
    (h : wakeAll c p = .body b w) : p = .body b w := by
  cases p with
  | asleep k =>
    simp only [wakeAll] at h
    split at h <;> cases h
  | _ => exact h

omit [DecidableEq T] in
theorem Draining.wakeAll {size : Int32} {s s' : State T D} (h : Draining size s) {c : Cond}
    (hstop : s'.stop = s.stop) (hsize : s'.size = s.size) (he : entered s = entered s')
    (hpc : ∀ t, s'.pc t = wakeAll c (s.pc t)) : Draining size s' := by
  refine ⟨hstop.trans h.stop, hsize ▸ h.capacity, fun t a w ht => ?_, fun he' t b w ht => ?_⟩
  · rw [hsize]
    exact h.linking t a w (wakeAll_body (hpc t ▸ ht))
  · exact h.locked (he.trans he') t b w (wakeAll_body (hpc t ▸ ht))

theorem Step.draining {size : Int32} {s s' : State T D} {l : Label T D} (h : Step s l s')
    (hd : Draining size s) (ho : entered s = false → ∃ as, Own s as)
    (hc : s.destroyer ≠ .notCalled) (hl : l.ownQueue = true) : Draining size s' := by
  cases h with
  | noMemory => exact hd
  | malloc | dequeue | enter | reenter | testWait | testPass | sleep | spurious | stopSet
  | dropNode | leaveStopped | release =>
    exact hd.move rfl rfl rfl rfl (by simp)
  | stopClear _ hs =>
    rw [hd.stop] at hs
    cases hs
  | @linkFirst t a w ht | @linkLast t a r w n ht =>
    exact hd.body ho ht rfl (hd.linking t a w ht) rfl (by simp)
  | @unlink t a w n ht =>
    have := hd.capacity
    exact hd.body ho ht rfl (show s.size - 1 ≤ limitOf size by omega) rfl (by simp)
  | @wakeOne t u c k ht hu hk =>
    have hu' : Draining size (s.move u (.reenter k)) := hd.move rfl rfl rfl rfl (by simp)
    refine hu'.move rfl rfl rfl rfl ?_
    cases s.pc t <;> simp [Pc.afterWake]
  | @wakeNone t c ht hu =>
    refine hd.move rfl rfl rfl rfl ?_
    cases s.pc t <;> simp [Pc.afterWake]
  | destroy hs =>
    cases hp : s.destroyer <;> simp only [destroyStep, hp] at hs
    case notCalled => exact absurd hp hc
    case enter =>
      split at hs <;> cases hs
      obtain ⟨as, ho⟩ := ho (by simp [entered, hp])
      refine ⟨hd.stop, hd.capacity, hd.linking, fun _ t c w ht => ?_⟩
      have hlock := ho.lock_eq (t := t) (by rw [ht]; rfl)
      simp_all
    case wakeNotEmpty | wakeNotFull =>
      obtain rfl := Option.some.inj hs
      exact hd.wakeAll rfl rfl (by simp [entered, hp]) fun _ => rfl
    all_goals
      repeat' split at hs
      all_goals cases hs
      all_goals exact ⟨hd.stop, hd.capacity, hd.linking, fun _ => hd.locked (by simp [entered, hp])⟩
  | otherStop | otherLimit => cases hl

omit [DecidableEq T] in
theorem Bounded.draining {size : Int32} {s s' : State T D} (h : Bounded size s)
    (hd : s'.destroyer = .enter) (hs : s'.stop = true) (hsize : s'.size = s.size)
    (hpc : s'.pc = s.pc) : Draining size s' := by
  refine ⟨hs, hsize ▸ h.capacity, fun t a w ht => ?_, fun he => by simp [entered, hd] at he⟩
  have hw := h.passes t _ w (Or.inr (hpc ▸ ht))
  simpa [mustWait, h.limit, hsize] using hw

theorem Step.stopped {s s' : State T D} {l : Label T D} (h : Step s l s') {t : T} {c : Call}
    (ht : s'.pc t = .stopped c) : s.pc t = .stopped c ∨ s.stop = true ∨
      s'.destroyer ≠ .notCalled := by
  have hmove {q q' : State T D} {u : T} {p : Pc D} (hpc : q'.pc = Function.update q.pc u p)
      (hp : p ≠ .stopped c) (hq : q'.pc t = .stopped c) : q.pc t = .stopped c := by
    by_cases hut : t = u
    · subst u
      exact absurd (by simpa [hpc] using hq) hp
    · simpa [hpc, hut] using hq
  cases h with
  | noMemory | otherStop | otherLimit => exact Or.inl ht
  | malloc | dequeue | enter | reenter | testWait | testPass | sleep | spurious | stopClear
  | dropNode | leaveStopped | release | linkFirst | linkLast | unlink =>
    exact Or.inl (hmove rfl (by simp) ht)
  | stopSet _ hs => exact Or.inr (Or.inl hs)
  | @wakeOne u v k b hu hv hk =>
    have hw : (s.pc u).afterWake ≠ .stopped c := by cases s.pc u <;> simp [Pc.afterWake]
    exact Or.inl (hmove (q := s) (u := v) rfl (by simp) (hmove rfl hw ht))
  | @wakeNone u k hu hk =>
    have hw : (s.pc u).afterWake ≠ .stopped c := by cases s.pc u <;> simp [Pc.afterWake]
    exact Or.inl (hmove rfl hw ht)
  | destroy hs =>
    refine Or.inr (Or.inr ?_)
    cases hp : s.destroyer <;> simp only [destroyStep, hp] at hs
    all_goals
      repeat' split at hs
      all_goals cases hs
      all_goals simp

variable [Fintype T]

theorem run_draining {size : Int32} {tr : List (Label T D)} {s : State T D}
    (h : exec step (createQueue size) tr = some s) (hown : ∀ l ∈ tr, l.ownQueue = true)
    (hd : s.destroyer ≠ .notCalled) : Draining size s := by
  revert hown hd
  refine exec_prefix_induction (P := fun tr s => (∀ l ∈ tr, l.ownQueue = true) →
    s.destroyer ≠ .notCalled → Draining size s) (fun _ hd => absurd rfl hd) ?_ h
  intro tr s l s' he ih hs hown hd
  obtain ⟨htr, hl⟩ : (∀ l ∈ tr, l.ownQueue = true) ∧ l.ownQueue = true := by
    simpa [or_imp, forall_and] using hown
  by_cases hc : s.destroyer = .notCalled
  · obtain ⟨_, _, _, hb⟩ := run_bounded he htr hc
    cases step_cases hs with
    | destroy hstep =>
      simp only [destroyStep, hc, Option.some.injEq] at hstep
      subst hstep
      exact hb.draining rfl rfl rfl rfl
    | _ => exact absurd hc hd
  · have hrep (he' : entered s = false) : ∃ as, Own s as := by
      obtain ⟨⟨as, _, ho, _⟩, _⟩ := run_refines he he'
      exact ⟨as, ho⟩
    exact (step_cases hs).draining (ih htr hc) hrep hc hl

/-- The queue alone keeps to the limit given to `createQueue`, and stops its callers only
once `destroyQueue` has been called. -/
theorem run_alone {size : Int32} {tr : List (Label T D)} {s : State T D}
    (h : exec step (createQueue size) tr = some s) (hown : ∀ l ∈ tr, l.ownQueue = true) :
    s.size ≤ limitOf size ∧ ∀ t c, s.pc t = .stopped c → s.destroyer ≠ .notCalled := by
  have hstopped : (∀ l ∈ tr, l.ownQueue = true) → s.destroyer = .notCalled →
      ∀ t c, s.pc t ≠ .stopped c := by
    refine exec_prefix_induction (P := fun tr s => (∀ l ∈ tr, l.ownQueue = true) →
      s.destroyer = .notCalled → ∀ t c, s.pc t ≠ .stopped c) (fun _ _ t c ht => by cases ht) ?_ h
    intro tr s l s' he ih hs hown hd t c ht
    have htr : ∀ l ∈ tr, l.ownQueue = true := fun l hl => hown l (by simp [hl])
    have hd' := step_notCalled hs hd
    obtain ⟨_, _, _, hb⟩ := run_bounded he htr hd'
    rcases (step_cases hs).stopped ht with hp | hp | hp
    · exact ih htr hd' t c hp
    · rw [hb.stop] at hp
      cases hp
    · exact hp hd
  refine ⟨?_, fun t c ht hd => hstopped hown hd t c ht⟩
  by_cases hd : s.destroyer = .notCalled
  · obtain ⟨_, _, _, hb⟩ := run_bounded h hown hd
    exact hb.capacity
  · exact (run_draining h hown hd).capacity

variable [DecidableEq Q]

/-- The operations on `q` in a run of the process. -/
def labelsOf (q : Q) (tr : List (ProcessLabel Q T D)) : List (Label T D) :=
  tr.filterMap fun
    | .queue r l => if r = q then some l else none
    | _ => none

/-- Queue `q`, created with `size`, is where its own operations alone would have brought it. -/
structure Independent (tr : List (ProcessLabel Q T D)) (p : Process Q T D) (q : Q)
    (size : Int32) : Prop where
  alone : ∃ s, exec step (createQueue size) (labelsOf q tr) = some s ∧ s.queue = p.queue q
  capacity : (p.queue q).size ≤ limitOf size
  stopped : ∀ t c, (p.queue q).pc t = .stopped c → (p.queue q).destroyer ≠ .notCalled

/-- Every loop test and every test of `stop` gives what the limit of the queue's own
`createQueue` and the call of its own `destroyQueue` would give. -/
def readsOwn (p : Process Q T D) : ProcessLabel Q T D → Bool
  | .queue q l => testsOwn (p.view q) ((p.queue q).own (p.creation q).size) l
  | _ => true

/-- What a run keeps of one queue: nothing has been done to it before it exists. -/
structure Kept (tr : List (ProcessLabel Q T D)) (p : Process Q T D) (q : Q) : Prop where
  own : ∀ l ∈ labelsOf q tr, l.ownQueue = true
  absent : (∀ size, p.creation q ≠ .created size) → labelsOf q tr = []
  fresh : ∀ size, p.creation q = .clearStop size ∨ p.creation q = .setLimit size →
    p.queue q = (createQueue size).queue
  created : ∀ size, p.creation q = .created size →
    exec step (createQueue size) (labelsOf q tr) = some ((p.queue q).own size)

omit [DecidableEq T] [Fintype T] in
theorem labelsOf_append (q : Q) (tr : List (ProcessLabel Q T D)) (l : ProcessLabel Q T D) :
    labelsOf q (tr ++ [l]) = labelsOf q tr ++ labelsOf q [l] := by
  simp [labelsOf, List.filterMap_append]

theorem kept_start (q : Q) : Kept [] (start : Process Q T D) q where
  own := by simp [labelsOf]
  absent _ := rfl
  fresh _ h := by simp [start] at h
  created _ h := by simp [start] at h

theorem Kept.frame {tr : List (ProcessLabel Q T D)} {p p' : Process Q T D} {q : Q}
    {l : ProcessLabel Q T D} (h : Kept tr p q) (hl : labelsOf q [l] = [])
    (hc : p'.creation q = p.creation q) (hq : p'.queue q = p.queue q) :
    Kept (tr ++ [l]) p' q := by
  have he : labelsOf q (tr ++ [l]) = labelsOf q tr := by
    rw [labelsOf_append, hl, List.append_nil]
  refine ⟨?_, ?_, fun size hf => ?_, fun size hf => ?_⟩
  · rw [he]
    exact h.own
  · rw [he, hc]
    exact h.absent
  · rw [hq]
    exact h.fresh size (hc ▸ hf)
  · rw [he, hq]
    exact h.created size (hc ▸ hf)

theorem Kept.next {tr : List (ProcessLabel Q T D)} {p p' : Process Q T D} {q : Q}
    {l : ProcessLabel Q T D} (h : Kept tr p q) (hok : readsOwn p l = true)
    (hs : processStep p l = some p') : Kept (tr ++ [l]) p' q := by
  cases l with
  | malloc r size =>
    simp only [processStep] at hs
    split at hs <;> cases hs
    have hr := ‹p.creation r = _›
    by_cases hq : q = r
    · subst q
      have he : labelsOf r (tr ++ [.malloc r size]) = [] := by
        rw [labelsOf_append, h.absent (by simp [hr])]
        rfl
      refine ⟨?_, fun _ => he, fun n hf => ?_, fun n hf => ?_⟩
      · simp [he]
      · obtain rfl : size = n := by simpa using hf
        simp
      · simp at hf
    · exact h.frame rfl (by simp [hq]) (by simp [hq])
  | create r =>
    simp only [processStep] at hs
    split at hs
    case h_3 => cases hs
    case h_1 n hr =>
      obtain rfl := Option.some.inj hs
      by_cases hq : q = r
      · subst q
        have he : labelsOf r (tr ++ [.create r]) = [] := by
          rw [labelsOf_append, h.absent (by simp [hr])]
          rfl
        refine ⟨by simp [he], fun _ => he, fun m hf => ?_, fun m hf => by simp at hf⟩
        obtain rfl : n = m := by simpa using hf
        exact h.fresh n (Or.inl hr)
      · exact h.frame rfl (by simp [hq]) rfl
    case h_2 n hr =>
      obtain rfl := Option.some.inj hs
      by_cases hq : q = r
      · subst q
        have he : labelsOf r (tr ++ [.create r]) = [] := by
          rw [labelsOf_append, h.absent (by simp [hr])]
          rfl
        refine ⟨by simp [he], fun _ => he, fun m hf => by simp at hf, fun m hf => ?_⟩
        obtain rfl : n = m := by simpa using hf
        rw [he, h.fresh n (Or.inr hr)]
        rfl
      · exact h.frame rfl (by simp [hq]) rfl
  | queue r l =>
    simp only [processStep] at hs
    split at hs
    case h_2 => cases hs
    case h_1 size hr =>
      split at hs
      case isFalse => cases hs
      case isTrue hl =>
        obtain ⟨s, hst, rfl⟩ := Option.map_eq_some_iff.mp hs
        by_cases hq : q = r
        · subst q
          have he : labelsOf r (tr ++ [.queue r l]) = labelsOf r tr ++ [l] := by
            rw [labelsOf_append]
            simp [labelsOf]
          refine ⟨fun m hm => ?_, fun hn => absurd hr (hn size), fun n hf => ?_, fun n hf => ?_⟩
          · rw [he, List.mem_append, List.mem_singleton] at hm
            rcases hm with hm | rfl
            · exact h.own m hm
            · exact hl
          · simp [Process.write, hr] at hf
          · obtain rfl : size = n := by simpa [Process.write, hr] using hf
            have ht : testsOwn (p.view r) ((p.queue r).own size) l = true := by
              simpa [readsOwn, hr, Creation.size] using hok
            have hown : step ((p.queue r).own size) l =
                (step (p.view r) l).map fun s => s.queue.own size := step_own _ _ _ size l hl ht
            rw [hst] at hown
            rw [he]
            refine exec_append.mpr ⟨_, h.created size hr, exec_cons.mpr ⟨_, hown, ?_⟩⟩
            simp [Process.write]
        · exact h.frame (by simp [labelsOf, Ne.symm hq]) rfl (by simp [Process.write, hq])

theorem Kept.independent {tr : List (ProcessLabel Q T D)} {p : Process Q T D} {q : Q}
    {size : Int32} (h : Kept tr p q) (hq : p.creation q = .created size) :
    Independent tr p q size := by
  have ha := h.created size hq
  have hr := run_alone ha h.own
  exact ⟨⟨_, ha, rfl⟩, hr.1, hr.2⟩

theorem testsOwn_of_step {q : Queue T D} {g : Int} {b : Bool} {size : Int32} {l : Label T D}
    {s w : State T D} (hs : step (q.state g b) l = some s) (hw : step (q.own size) l = some w)
    (he : w.queue = s.queue) : testsOwn (q.state g b) (q.own size) l = true := by
  have hpc : (q.own size).pc = q.pc ∧ (q.state g b).pc = q.pc := ⟨rfl, rfl⟩
  have hp (t : T) : w.pc t = s.pc t := congrFun (congrArg Queue.pc he) t
  cases l with
  | test t =>
    simp only [step, testsOwn, hpc.1, hpc.2] at hs hw ⊢
    cases hq : q.pc t with
    | test c k =>
      simp only [hq, Option.some.injEq] at hs hw ⊢
      have ht := hp t
      rw [← hs, ← hw] at ht
      simp only [State.move, Function.update_self] at ht
      generalize (mustWait (q.own size) c && !(q.own size).stop) = own at ht ⊢
      generalize (mustWait (q.state g b) c && !(q.state g b).stop) = seen at ht ⊢
      cases own <;> cases seen <;> simp_all
    | _ => rfl
  | stopTest t =>
    simp only [step, testsOwn, hpc.1, hpc.2] at hs hw ⊢
    cases hq : q.pc t with
    | stopTest c k =>
      simp only [hq, Option.some.injEq] at hs hw ⊢
      have ht := hp t
      rw [← hs, ← hw] at ht
      simp only [State.move, Function.update_self] at ht
      generalize (q.own size).stop = own at ht ⊢
      generalize (q.state g b).stop = seen at ht ⊢
      cases own <;> cases seen <;> simp_all
    | _ => rfl
  | _ => rfl

theorem independent_readsOwn {tr : List (ProcessLabel Q T D)} {p p' : Process Q T D}
    {l : ProcessLabel Q T D} (h : ∀ q, Kept tr p q) (hs : processStep p l = some p')
    (hi : ∀ q size, p'.creation q = .created size → Independent (tr ++ [l]) p' q size) :
    readsOwn p l = true := by
  cases l with
  | queue q l =>
    simp only [processStep] at hs
    split at hs
    case h_2 => cases hs
    case h_1 size hq =>
      split at hs
      case isFalse => cases hs
      case isTrue hl =>
        obtain ⟨s, hst, rfl⟩ := Option.map_eq_some_iff.mp hs
        obtain ⟨w, hw, he⟩ := (hi q size hq).alone
        have hlabels : labelsOf q (tr ++ [.queue q l]) = labelsOf q tr ++ [l] := by
          rw [labelsOf_append]
          simp [labelsOf]
        rw [hlabels] at hw
        obtain ⟨v, hv, hw⟩ := exec_append.mp hw
        obtain rfl := Option.some.inj (((h q).created size hq).symm.trans hv)
        obtain ⟨u, hu, hw⟩ := exec_cons.mp hw
        obtain rfl := Option.some.inj hw
        have hsame : u.queue = s.queue := by simpa [Process.write] using he
        have ht : testsOwn (p.view q) ((p.queue q).own size) l = true :=
          testsOwn_of_step hst hu hsame
        simpa [readsOwn, hq, Creation.size] using ht
  | _ => rfl

/-- Every queue of the process is, in every state of a run, where its own operations alone
would have brought it, exactly if every test of the globals in the run gives what the queue's
own would give. -/
theorem queues_independent_iff {tr : List (ProcessLabel Q T D)} {p : Process Q T D}
    (h : exec processStep start tr = some p) :
    (∀ pre u, pre <+: tr → exec processStep start pre = some u →
      ∀ q size, u.creation q = .created size → Independent pre u q size) ↔
    Meets processStep (fun p l => readsOwn p l = true) start tr :=
  prefixes_iff_meets (I := fun tr p => ∀ q, Kept tr p q)
    (P := fun tr p => ∀ q size, p.creation q = .created size → Independent tr p q size)
    (fun _ _ _ _ hk hok hs q => (hk q).next hok hs) (fun _ _ hk q _ hq => (hk q).independent hq)
    (fun _ _ _ _ => independent_readsOwn) kept_start h

def useBoth : List (ProcessLabel Bool Role Nat) :=
  [.malloc false 1, .create false, .create false, .malloc true 1, .create true, .create true,
    .queue false (.enqueue .producer 7 1 (some 100)), .queue true (.dequeue .consumer),
    .queue false (.enter .producer), .queue true (.enter .consumer),
    .queue false (.test .producer), .queue true (.test .consumer), .queue true (.sleep .consumer),
    .queue false (.stopTest .producer), .queue false (.body .producer)]

theorem queues_independent_iff_useBoth : ∃ p, exec processStep start useBoth = some p ∧
    (p.queue false).size = 1 ∧ (p.queue true).size = 0 ∧
    ∀ q size, p.creation q = .created size → Independent useBoth p q size := by
  obtain ⟨p, hp, hs⟩ := exec_exists processStep start useBoth
    (fun p => decide ((p.queue false).size = 1 ∧ (p.queue true).size = 0)) (by decide)
  have hs' := of_decide_eq_true hs
  exact ⟨p, hp, hs'.1, hs'.2, (queues_independent_iff hp).mpr (by decide) useBoth p
    (List.prefix_refl _) hp⟩

/-- One queue is destroyed and a caller of the other is turned away. -/
def destroyOther : List (ProcessLabel Bool Role Nat) :=
  [.malloc false 1, .create false, .create false, .malloc true 1, .create true, .create true,
    .queue false (.destroy none), .queue true (.dequeue .consumer), .queue true (.enter .consumer),
    .queue true (.test .consumer), .queue true (.stopTest .consumer)]

theorem queue_stopped_by_other :
    ¬ ∀ (tr : List (ProcessLabel Bool Role Nat)) (p : Process Bool Role Nat),
      exec processStep start tr = some p →
      ∀ q size, p.creation q = .created size → Independent tr p q size := by
  intro h
  obtain ⟨p, hp, hs⟩ := exec_exists processStep start destroyOther
    (fun p => decide (p.creation true = .created 1 ∧
      (p.queue true).pc .consumer = .stopped .dequeue ∧
      (p.queue true).destroyer = .notCalled)) (by decide)
  obtain ⟨hq, hpc, hd⟩ := of_decide_eq_true hs
  exact (h _ p hp true 1 hq).stopped .consumer .dequeue hpc hd

end Cexp.BlockingQueue
