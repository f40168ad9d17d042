import Cexp.QueueFlow

/-! What becomes of the data given to `enqueue`: at any time each is on the chain, with the one
call that is about to link it or has unlinked it, returned by `dequeue`, or dropped by a call that
gave up. -/

namespace Cexp.BlockingQueue

open Transition LinkedChain AtomicFifo

variable {T D : Type}

/-- What a thread has in its hands inside a call. -/
def Pc.held (mem : Addr → Option (QueueNode D)) (p : Pc D) : Multiset D :=
  (p.taken ++ p.given mem : List D)

def arriving : Label T D → List D
  | .enqueue _ data _ _ => [data]
  | _ => []

def handedOut (s : State T D) : Label T D → List D
  | .release t =>
    match s.pc t with
    | .release _ d => [d]
    | _ => []
  | _ => []

/-- What is lost: `enqueue` found no memory for the node, or the queue was stopped. -/
def dropped (s : State T D) : Label T D → List D
  | .enqueue _ data _ none => [data]
  | .leaveStopped t =>
    match s.pc t with
    | .stopped (.enqueue a) => (s.mem a).toList.map QueueNode.data
    | _ => []
  | _ => []

variable [Fintype T]

/-- On the chain and inside the calls. -/
def inQueue (s : State T D) (as : List Addr) : Multiset D :=
  (items s as : Multiset D) + ∑ t, (s.pc t).held s.mem

theorem inQueue_createQueue (size : Int32) : inQueue (createQueue size : State T D) [] = 0 := by
  have hnone (t : T) : ((createQueue size : State T D).pc t).held
      (createQueue size : State T D).mem = 0 := rfl
  simp [inQueue, items, contents, hnone]

variable [DecidableEq T]

omit [Fintype T] [DecidableEq T] in
theorem queueOps_wake (s : State T D) {t : T} (w : Option T) :
    queueOps (events s (.wake t w)) = [] :=
  List.filterMap_eq_nil_iff.mpr fun e he => by
    obtain ⟨u, rfl⟩ := events_wake s w e he
    rfl

/-- Only what the mover has in its hands changes. -/
theorem Step.sum_held {s s' : State T D} {l : Label T D} {as : List Addr} {t : T} (h : Step s l s')
    (hr : Rep s as) (ho : Own s as) (he : entered s' = false) (hl : l.mover = some t) :
    ∑ u, (s'.pc u).held s'.mem + (s.pc t).held s.mem =
      ∑ u, (s.pc u).held s.mem + (s'.pc t).held s'.mem := by
  apply ThreadCount.sum_frame t
  intro u hu
  obtain ⟨htaken, hgiven⟩ := h.frame_flow hr ho he (u := u) (by simpa [hl] using Ne.symm hu)
  rw [Pc.held, htaken, hgiven, Pc.held]

theorem Step.sum_held_of_none {s s' : State T D} {l : Label T D} {as : List Addr}
    (h : Step s l s') (hr : Rep s as) (ho : Own s as) (he : entered s' = false)
    (hl : l.mover = none) : ∑ u, (s'.pc u).held s'.mem = ∑ u, (s.pc u).held s.mem := by
  apply Finset.sum_congr rfl
  intro u _
  obtain ⟨htaken, hgiven⟩ := h.frame_flow hr ho he (u := u) (by simp [hl])
  rw [Pc.held, htaken, hgiven, Pc.held]

omit [Fintype T] in
/-- What the mover has and takes, it has afterwards, links, returns or drops. -/
theorem Step.mover_balance {s s' : State T D} {l : Label T D} {as : List Addr} {t : T}
    (h : Step s l s') (ho : Own s as) (hl : l.mover = some t) :
    (s.pc t).held s.mem + (pops (queueOps (events s l)) : Multiset D) + (arriving l : Multiset D) =
      (s'.pc t).held s'.mem + (pushes (queueOps (events s l)) : Multiset D) +
        ((handedOut s l : Multiset D) + (dropped s l : Multiset D)) := by
  have hquiet (hh : (s'.pc t).held s'.mem = (s.pc t).held s.mem) (he : queueOps (events s l) = [])
      (ha : arriving l = []) (ho : handedOut s l = []) (hd : dropped s l = []) :
      (s.pc t).held s.mem + (pops (queueOps (events s l)) : Multiset D) +
        (arriving l : Multiset D) = (s'.pc t).held s'.mem +
          (pushes (queueOps (events s l)) : Multiset D) +
            ((handedOut s l : Multiset D) + (dropped s l : Multiset D)) := by
    rw [hh, he, ha, ho, hd]
    rfl
  cases h with
  | noMemory => simp [events, queueOps, pops, pushes, arriving, handedOut, dropped]
  | malloc ht =>
    obtain rfl := Option.some.inj hl
    simp [events, queueOps, pops, pushes, arriving, handedOut, dropped, ht, State.move, Pc.held,
      Pc.taken, Pc.given, Pc.newNode]
  | dequeue ht =>
    obtain rfl := Option.some.inj hl
    refine hquiet ?_ rfl rfl rfl rfl
    simp [State.move, ht, Pc.held, Pc.taken, Pc.given, Pc.newNode]
  | @enter u k ht | @reenter u k ht | @testWait u k w ht | @testPass u k w ht | @sleep u k ht
  | @spurious u k ht | @stopSet u k w ht | @stopClear u k w ht =>
    obtain rfl := Option.some.inj hl
    refine hquiet ?_ rfl rfl rfl rfl
    cases k <;>
      simp [State.acquire, State.leave, State.move, ht, Pc.held, Pc.taken, Pc.given, Pc.newNode]
  | @dropNode u a ht =>
    obtain rfl := Option.some.inj hl
    have hdrop : dropped s (.leaveStopped u) = (s.mem a).toList.map QueueNode.data := by
      simp only [dropped, ht]
    simp [hdrop, events, queueOps, pops, pushes, arriving, handedOut, ht, State.leave, State.move,
      Pc.held, Pc.taken, Pc.given, Pc.newNode]
  | leaveStopped ht =>
    obtain rfl := Option.some.inj hl
    refine hquiet ?_ rfl rfl rfl ?_
    · simp [State.leave, State.move, ht, Pc.held, Pc.taken, Pc.given, Pc.newNode]
    · simp only [dropped, ht]
  | @linkFirst u a w ht | @linkLast u a r w n ht =>
    obtain rfl := Option.some.inj hl
    obtain ⟨m, hm, -⟩ := ho.live u a (by rw [ht]; rfl)
    have hev : events s (.body u) = [.link u m.data] := by simp [events, ht, hm]
    simp [hev, hm, queueOps, pops, pushes, arriving, handedOut, dropped, ht, State.leave,
      State.move, Pc.held, Pc.taken, Pc.given, Pc.newNode]
  | @unlink u a w n ht hfront hn =>
    obtain rfl := Option.some.inj hl
    have hev : events s (.body u) = [.unlink u n.data] := by
      simp [events, ht, unlinkFront, hfront, hn]
    simp [hev, queueOps, pops, pushes, arriving, handedOut, dropped, ht, State.leave,
      State.move, Pc.held, Pc.taken, Pc.given, Pc.newNode]
  | @wakeOne u v c k ht hv hk =>
    obtain rfl := Option.some.inj hl
    obtain ⟨htaken, hgiven⟩ := Pc.afterWake_ends ht
    refine hquiet ?_ ?_ rfl rfl rfl
    · simp [State.move, Pc.held, htaken, hgiven]
    · exact queueOps_wake s _
  | @wakeNone u c ht hv =>
    obtain rfl := Option.some.inj hl
    obtain ⟨htaken, hgiven⟩ := Pc.afterWake_ends ht
    refine hquiet ?_ ?_ rfl rfl rfl
    · simp [State.move, Pc.held, htaken, hgiven]
    · exact queueOps_wake s _
  | @release u a d ht =>
    obtain rfl := Option.some.inj hl
    have hev : events s (.release u) = [.ret u (.data d)] := by simp [events, ht]
    have hout : handedOut s (.release u) = [d] := by simp only [handedOut, ht]
    simp [hev, hout, queueOps, pops, pushes, arriving, dropped, ht, State.move, Pc.held, Pc.taken,
      Pc.given, Pc.newNode]
  | destroy | otherStop | otherLimit => cases hl

omit [Fintype T] in
/-- Inside a call that is not stopped the node of an `enqueue` stays with it until it is linked. -/
theorem Step.given_cases {s s' : State T D} {l : Label T D} {as : List Addr} (h : Step s l s')
    (hl : l.insideCall = true) (hr : Rep s as) (ho : Own s as) (he : entered s' = false)
    (hu : Unstopped s) :
    (pushes (queueOps (events s l)) = [] ∧ ∀ t, (s'.pc t).given s'.mem = (s.pc t).given s.mem) ∨
      ∃ t d, pushes (queueOps (events s l)) = [d] ∧ (s.pc t).enqueues = true ∧
        (s.pc t).given s.mem = [d] ∧ (s'.pc t).given s'.mem = [] ∧
        ∀ u, u ≠ t → (s'.pc u).given s'.mem = (s.pc u).given s.mem := by
  have hother (u : T) (hu : l.mover ≠ some u) := (h.frame_flow hr ho he hu).2
  have hquiet {t : T} (hm : l.mover = some t) (hp : pushes (queueOps (events s l)) = [])
      (hg : (s'.pc t).given s'.mem = (s.pc t).given s.mem) :
      pushes (queueOps (events s l)) = [] ∧
        ∀ u, (s'.pc u).given s'.mem = (s.pc u).given s.mem := by
    refine ⟨hp, fun u => ?_⟩
    by_cases hut : u = t
    · exact hut ▸ hg
    · exact hother u (by simpa [hm] using Ne.symm hut)
  cases h with
  | noMemory | malloc | dequeue | destroy | otherStop | otherLimit => cases hl
  | stopSet ht hs => simp [hu.stop] at hs
  | dropNode ht | leaveStopped ht => exact absurd ht (hu.pc _ _)
  | @enter t k ht | @reenter t k ht | @testWait t k w ht | @testPass t k w ht | @sleep t k ht
  | @spurious t k ht | @stopClear t k w ht =>
    refine Or.inl (hquiet rfl rfl ?_)
    cases k <;> simp [State.acquire, State.leave, State.move, ht, Pc.given, Pc.newNode]
  | @wakeOne t u d k ht hu hk =>
    have hops := congrArg pushes (queueOps_wake s (t := t) (some u))
    exact Or.inl (hquiet rfl hops (by simpa [State.move] using (Pc.afterWake_ends ht).2 s.mem))
  | @wakeNone t d ht hu =>
    have hops := congrArg pushes (queueOps_wake s (t := t) none)
    exact Or.inl (hquiet rfl hops (by simpa [State.move] using (Pc.afterWake_ends ht).2 s.mem))
  | @linkFirst t a w ht | @linkLast t a r w n ht =>
    obtain ⟨m, hm, -⟩ := ho.live t a (by rw [ht]; rfl)
    have hev : events s (.body t) = [.link t m.data] := by simp [events, ht, hm]
    refine Or.inr ⟨t, m.data, by rw [hev]; rfl, by rw [ht]; rfl, ?_, ?_, fun u hu => ?_⟩
    · simp [ht, Pc.given, Pc.newNode, hm]
    · simp [State.leave, State.move, Pc.given, Pc.newNode]
    · exact hother u (by simpa [Label.mover] using Ne.symm hu)
  | @unlink t a w n ht hfront hn =>
    have hev : events s (.body t) = [.unlink t n.data] := by
      simp [events, ht, unlinkFront, hfront, hn]
    refine Or.inl (hquiet rfl (by rw [hev]; rfl) ?_)
    simp [State.leave, State.move, ht, Pc.given, Pc.newNode]
  | @release t a d ht =>
    have hev : events s (.release t) = [.ret t (.data d)] := by simp [events, ht]
    refine Or.inl (hquiet rfl (by rw [hev]; rfl) ?_)
    simp [State.move, ht, Pc.given, Pc.newNode]

omit [Fintype T] [DecidableEq T] in
theorem handedOut_eq (s : State T D) (l : Label T D) : handedOut s l =
    (events s l).filterMap fun e => match e with
      | .ret _ (.data d) => some d
      | _ => none := by
  cases l with
  | enqueue t data len a => cases a <;> rfl
  | release t =>
    simp only [handedOut, events]
    cases s.pc t <;> rfl
  | wake t w =>
    simp only [handedOut, events]
    cases s.pc t <;> rfl
  | body t =>
    have hnone : ∀ e ∈ events s (.body t), ∃ d, e = .link t d ∨ e = .unlink t d := by
      intro e he
      simp only [events] at he
      split at he
      · obtain ⟨n, -, rfl⟩ := List.mem_map.mp he
        exact ⟨n.data, Or.inl rfl⟩
      · obtain ⟨⟨q, a, d⟩, -, rfl⟩ := List.mem_map.mp he
        exact ⟨d, Or.inr rfl⟩
      · cases he
    symm
    refine List.filterMap_eq_nil_iff.mpr fun e he => ?_
    obtain ⟨d, rfl | rfl⟩ := hnone e he <;> rfl
  | _ => rfl

omit [Fintype T] [DecidableEq T] in
theorem dropped_of_unstopped {s : State T D} {l : Label T D} (hl : l.insideCall = true)
    (hu : Unstopped s) : dropped s l = [] := by
  cases l with
  | enqueue => cases hl
  | leaveStopped t =>
    simp only [dropped]
    split
    case h_1 a hp => exact absurd hp (hu.pc t (.enqueue a))
    case h_2 => rfl
  | _ => rfl

/-- A step takes in what arrives and gives out what is returned or dropped. -/
theorem Step.inQueue_eq {s s' : State T D} {l : Label T D} {as bs : List Addr} (h : Step s l s')
    (hr : Rep s as) (ho : Own s as) (he : entered s' = false)
    (hb : Refines s (events s l) s' as bs) :
    inQueue s' bs + ((handedOut s l : Multiset D) + (dropped s l : Multiset D)) =
      inQueue s as + (arriving l : Multiset D) := by
  have hacc : (pops (queueOps (events s l)) : Multiset D) + (items s' bs : Multiset D) =
      (items s as : Multiset D) + (pushes (queueOps (events s l)) : Multiset D) := by
    rw [Multiset.coe_add, Multiset.coe_add, hb.accepts.pops_append]
  cases hl : l.mover with
  | none =>
    have hsum := h.sum_held_of_none hr ho he hl
    cases l with
    | destroy | otherStop | otherLimit =>
      have hitems : (items s' bs : Multiset D) = items s as := by
        simpa [events, queueOps, pops, pushes] using hacc
      rw [inQueue, inQueue, hsum, hitems]
      rfl
    | _ => cases hl
  | some t =>
    have hsum := h.sum_held hr ho he hl
    have hbal := h.mover_balance ho hl
    generalize (handedOut s l : Multiset D) + (dropped s l : Multiset D) = out at hbal ⊢
    generalize (arriving l : Multiset D) = arr at hbal ⊢
    generalize (pops (queueOps (events s l)) : Multiset D) = ps at hacc hbal
    generalize (pushes (queueOps (events s l)) : Multiset D) = qs at hacc hbal
    generalize (s.pc t).held s.mem = x at hsum hbal
    generalize (s'.pc t).held s'.mem = y at hsum hbal
    rw [inQueue, inQueue]
    apply add_right_cancel (b := ps + x)
    calc _ = (ps + (items s' bs : Multiset D)) + (∑ u, (s'.pc u).held s'.mem + x) + out := by abel
      _ = (items s as : Multiset D) + ∑ u, (s.pc u).held s.mem + (y + qs + out) := by
        rw [hacc, hsum]
        abel
      _ = _ := by
        rw [← hbal]
        abel

/-- What has gone in, against what came out and what is still there. -/
def Conserved (size : Int32) (ls : List (Label T D)) (s : State T D) (as : List Addr) : Prop :=
  (ls.flatMap arriving : Multiset D) =
    (outputs step handedOut (createQueue size) ls : Multiset D) +
      (outputs step dropped (createQueue size) ls : Multiset D) + inQueue s as

theorem Conserved.snoc {size : Int32} {ls : List (Label T D)} {l : Label T D} {s s' : State T D}
    {as bs : List Addr} (hc : Conserved size ls s as)
    (hrun : exec step (createQueue size) ls = some s) (hs : step s l = some s')
    (hq : inQueue s' bs + ((handedOut s l : Multiset D) + (dropped s l : Multiset D)) =
      inQueue s as + (arriving l : Multiset D)) : Conserved size (ls ++ [l]) s' bs := by
  have hone (ev : State T D → Label T D → List D) : outputs step ev s [l] = ev s l := by
    rw [outputs_cons hs, outputs, List.append_nil]
  rw [Conserved, List.flatMap_append, List.flatMap_singleton, outputs_append hrun,
    outputs_append hrun, hone, hone, ← Multiset.coe_add, ← Multiset.coe_add, ← Multiset.coe_add, hc,
    add_assoc, ← hq]
  abel

/-- In every run, until `destroyQueue` has the lock, the data given to `enqueue` are those that
`dequeue` has returned, those dropped, those on the chain, in the order linked, and those in the
hands of a call: none is lost and none appears twice. -/
theorem queue_data_conserved {size : Int32} {ls : List (Label T D)} {s : State T D}
    (h : exec step (createQueue size) ls = some s) (he : entered s = false) :
    ∃ as, Rep s as ∧ Own s as ∧ Conserved size ls s as ∧
      ((∀ t, s.pc t = .outside) → inQueue s as = items s as) := by
  have hinv : ∃ as, Rep s as ∧ Own s as ∧ Conserved size ls s as := by
    revert he
    refine exec_prefix_induction (P := fun ls s => entered s = false →
      ∃ as, Rep s as ∧ Own s as ∧ Conserved size ls s as) (fun _ => ?_) ?_ h
    · refine ⟨[], rep_createQueue size, own_createQueue size, ?_⟩
      rw [Conserved, inQueue_createQueue]
      rfl
    · intro ls s l s' hrun hI hs he
      obtain ⟨as, hr, ho, hc⟩ := hI (step_entered hs he)
      have hstep := step_cases hs
      obtain ⟨bs, hb⟩ := hstep.refines hr ho he
      exact ⟨bs, hb.rep, hb.own, hc.snoc hrun hs (hstep.inQueue_eq hr ho he hb)⟩
  obtain ⟨as, hr, ho, hc⟩ := hinv
  refine ⟨as, hr, ho, hc, fun hout => ?_⟩
  have hnone (t : T) : (s.pc t).held s.mem = 0 := by
    rw [hout t]
    rfl
  simp [inQueue, hnone]

theorem queue_data_conserved_handOver :
    ∃ s, exec step (createQueue 1) handOver = some s ∧ ∃ as, Conserved 1 handOver s as := by
  obtain ⟨s, hs, he⟩ := exec_exists step (createQueue 1) handOver (fun s => !entered s) (by decide)
  obtain ⟨as, -, -, hc, -⟩ := queue_data_conserved hs (by simpa using he)
  exact ⟨s, hs, as, hc⟩

end Cexp.BlockingQueue
