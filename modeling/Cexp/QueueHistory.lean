import Cexp.QueueInvariant

/-! What a run of the queue shows to its callers: the atomic FIFO order of the linked and
unlinked data, and for each thread the calls it completed, one after the other. -/

namespace Cexp.BlockingQueue

open Transition LinkedChain AtomicFifo

variable {T D : Type}

inductive IsCall (t : T) : List (Event T D) → Prop where
  | enqueued (d : D) : IsCall t [.enqueue t d, .link t d, .ret t .enqueued]
  | enqueueStopped (d : D) : IsCall t [.enqueue t d, .ret t .stopped]
  | noMemory (d : D) : IsCall t [.enqueue t d, .ret t .noMemory]
  | dequeued (d : D) : IsCall t [.dequeue t, .unlink t d, .ret t (.data d)]
  | dequeueStopped : IsCall t [.dequeue t, .ret t .stopped]

/-- The events so far of the call thread `t` is in, by the place it is at. -/
def Pending (mem : Addr → Option (QueueNode D)) (t : T) (p : Pc D) (es : List (Event T D)) :
    Prop :=
  match p with
  | .outside => es = []
  | .linked => ∃ d, es = [.enqueue t d, .link t d]
  | .unlinked _ d | .release _ d => es = [.dequeue t, .unlink t d]
  | p =>
    match p.newNode with
    | some a => ∃ n, mem a = some n ∧ es = [.enqueue t n.data]
    | none => es = [.dequeue t]

def Label.mover : Label T D → Option T
  | .enqueue t _ _ _ | .dequeue t | .enter t | .test t | .sleep t | .spurious t | .stopTest t
  | .leaveStopped t | .body t | .wake t _ | .release t => some t
  | .destroy _ | .otherStop _ | .otherLimit _ => none

theorem events_thread {s : State T D} {l : Label T D} {e : Event T D} (h : e ∈ events s l) :
    l.mover = some e.thread := by
  cases l with
  | enqueue t d n newNode =>
    cases newNode with
    | none =>
      rcases List.mem_cons.mp h with rfl | h
      · rfl
      · rw [List.mem_singleton.mp h]; rfl
    | some a => rw [List.mem_singleton.mp h]; rfl
  | dequeue t | leaveStopped t => rw [List.mem_singleton.mp h]; rfl
  | body t =>
    simp only [events] at h
    split at h
    · obtain ⟨n, _, rfl⟩ := List.mem_map.mp h; rfl
    · obtain ⟨n, _, rfl⟩ := List.mem_map.mp h; rfl
    · cases h
  | wake t w | release t =>
    simp only [events] at h
    split at h
    · rw [List.mem_singleton.mp h]; rfl
    · cases h
  | _ => cases h

theorem Pending.other {s s' : State T D} {u : T} {es : List (Event T D)}
    (h : Pending s.mem u (s.pc u) es)
    (hp : s'.pc u = s.pc u ∨ ∃ k, s.pc u = .asleep k ∧ s'.pc u = .reenter k)
    (hm : ∀ a, (s.pc u).newNode = some a → s'.mem a = s.mem a) :
    Pending s'.mem u (s'.pc u) es := by
  have hnode (a : Addr) (ha : (s.pc u).newNode = some a) (n : QueueNode D) :
      s.mem a = some n → s'.mem a = some n := fun hn => (hm a ha).trans hn
  rcases hp with hp | ⟨k, hk, hp⟩
  · rw [hp]
    cases hc : s.pc u with
    | enter k | test k w | sleep k | asleep k | reenter k | stopTest k w | stopped k
    | body k w =>
      rw [hc] at h hnode
      cases k with
      | enqueue a =>
        obtain ⟨n, hn, he⟩ := h
        exact ⟨n, hnode a rfl n hn, he⟩
      | dequeue => exact h
    | _ =>
      rw [hc] at h
      exact h
  · rw [hk] at h hnode
    rw [hp]
    cases k with
    | enqueue a =>
      obtain ⟨n, hn, he⟩ := h
      exact ⟨n, hnode a rfl n hn, he⟩
    | dequeue => exact h

variable [DecidableEq T]

/-- A step of another thread leaves a thread where it is, or wakes it up, and does
not touch the node it is about to link. -/
theorem Step.frame {s s' : State T D} {l : Label T D} {as : List Addr} (h : Step s l s')
    (hr : Rep s as) (ho : Own s as) (he : entered s' = false) {u : T} (hu : l.mover ≠ some u) :
    (s'.pc u = s.pc u ∨ ∃ k, s.pc u = .asleep k ∧ s'.pc u = .reenter k) ∧
      ∀ a, (s.pc u).newNode = some a → s'.mem a = s.mem a := by
  have hne {t : T} (ht : l.mover = some t) : u ≠ t := fun e => hu (e ▸ ht)
  cases h with
  | noMemory => exact ⟨Or.inl rfl, fun _ _ => rfl⟩
  | @malloc t data len a ht ha =>
    refine ⟨Or.inl (Function.update_of_ne (hne rfl) _ _), fun b hb => ?_⟩
    refine Function.update_of_ne ?_ _ _
    rintro rfl
    obtain ⟨n, hn, _⟩ := ho.live u b (Pc.owned_of_newNode hb)
    simp [ha] at hn
  | dequeue | enter | reenter | testWait | testPass | sleep | spurious | stopSet | stopClear
  | leaveStopped | linkFirst | unlink | wakeNone =>
    exact ⟨Or.inl (Function.update_of_ne (hne rfl) _ _), fun _ _ => rfl⟩
  | @dropNode t a ht | @release t a d ht =>
    have hfree := ho.freeNode_eq (t := t) (a := a) (by rw [ht]; rfl)
    exact ⟨Or.inl (Function.update_of_ne (hne rfl) _ _),
      fun b hb => hfree.2 u b (hne rfl) (Pc.owned_of_newNode hb)⟩
  | @linkLast t a r w n ht hrear hn hm =>
    refine ⟨Or.inl (Function.update_of_ne (hne rfl) _ _), fun b hb => ?_⟩
    refine Function.update_of_ne ?_ _ _
    rintro rfl
    exact ho.off_chain u b (Pc.owned_of_newNode hb)
      (List.mem_of_mem_getLast? (hr.rear.symm.trans hrear))
  | @wakeOne t v c k ht hv hk =>
    refine ⟨?_, fun _ _ => rfl⟩
    by_cases huv : u = v
    · subst u
      exact Or.inr ⟨k, hv, by simp [State.move, hne (t := t) rfl]⟩
    · exact Or.inl (by simp [State.move, hne (t := t) rfl, huv])
  | destroy hd =>
    cases hp : s.destroyer <;> simp only [destroyStep, hp] at hd
    case notCalled =>
      obtain rfl := Option.some.inj hd
      exact ⟨Or.inl rfl, fun _ _ => rfl⟩
    all_goals
      repeat' split at hd
      all_goals cases hd
      all_goals simp [entered] at he
  | otherStop b | otherLimit size => exact ⟨Or.inl rfl, fun _ _ => rfl⟩

theorem Step.pending {s s' : State T D} {l : Label T D} {t : T} {es : List (Event T D)}
    (h : Step s l s') (hl : l.mover = some t) (hp : Pending s.mem t (s.pc t) es) :
    Pending s'.mem t (s'.pc t) (es ++ events s l) ∨
      (s'.pc t = .outside ∧ IsCall t (es ++ events s l)) := by
  cases h with
  | @noMemory t' d len ht =>
    obtain rfl := Option.some.inj hl
    rw [ht] at hp
    obtain rfl : es = [] := hp
    exact Or.inr ⟨ht, .noMemory d⟩
  | @malloc t' data len a ht ha =>
    obtain rfl := Option.some.inj hl
    rw [ht] at hp
    obtain rfl : es = [] := hp
    left
    simp only [State.move, Function.update_self]
    exact ⟨_, Function.update_self _ _ _, rfl⟩
  | @dequeue t' ht =>
    obtain rfl := Option.some.inj hl
    rw [ht] at hp
    obtain rfl : es = [] := hp
    left
    simp only [State.move, Function.update_self]
    rfl
  | @enter t' c ht | @reenter t' c ht | @testWait t' c w ht | @testPass t' c w ht
  | @sleep t' c ht | @spurious t' c ht | @stopSet t' c w ht | @stopClear t' c w ht =>
    obtain rfl := Option.some.inj hl
    rw [ht] at hp
    left
    simp only [State.acquire, State.leave, State.move, Function.update_self, events,
      List.append_nil]
    cases c <;> exact hp
  | @dropNode t' a ht =>
    obtain rfl := Option.some.inj hl
    rw [ht] at hp
    obtain ⟨n, _, rfl⟩ := hp
    exact Or.inr ⟨Function.update_self _ _ _, .enqueueStopped n.data⟩
  | @leaveStopped t' ht =>
    obtain rfl := Option.some.inj hl
    rw [ht] at hp
    obtain rfl : es = [.dequeue t'] := hp
    exact Or.inr ⟨Function.update_self _ _ _, .dequeueStopped⟩
  | @linkFirst t' a w ht | @linkLast t' a r w n ht =>
    obtain rfl := Option.some.inj hl
    rw [ht] at hp
    obtain ⟨n, hn, rfl⟩ := hp
    left
    simp only [State.leave, State.move, Function.update_self, events, ht, hn]
    exact ⟨n.data, rfl⟩
  | @unlink t' a w n ht hf hn =>
    obtain rfl := Option.some.inj hl
    rw [ht] at hp
    obtain rfl : es = [.dequeue t'] := hp
    left
    have hev : events s (.body t') = [.unlink t' n.data] := by
      simp [events, ht, unlinkFront, hf, hn]
    simp only [State.leave, State.move, Function.update_self, hev]
    rfl
  | @wakeOne t' u c k ho hu hk | @wakeNone t' c ho hu =>
    obtain rfl := Option.some.inj hl
    cases ht : s.pc t' <;> simp only [ht, Pc.owes] at ho
    case linked =>
      rw [ht] at hp
      obtain ⟨d, rfl⟩ := hp
      right
      simp only [State.move, Function.update_self, events, ht, Pc.afterWake]
      exact ⟨trivial, .enqueued d⟩
    case unlinked a d =>
      rw [ht] at hp
      left
      simp only [State.move, Function.update_self, events, ht, Pc.afterWake, List.append_nil]
      exact hp
    all_goals cases ho
  | @release t' a d ht =>
    obtain rfl := Option.some.inj hl
    rw [ht] at hp
    obtain rfl : es = [.dequeue t', .unlink t' d] := hp
    right
    simp only [State.move, Function.update_self, events, ht]
    exact ⟨trivial, .dequeued d⟩
  | destroy | otherStop | otherLimit => cases hl

def CallLog (s : State T D) (es : List (Event T D)) (t : T) : Prop :=
  ∃ (calls : List (List (Event T D))) (pending : List (Event T D)),
    es.filter (fun e => decide (e.thread = t)) = calls.flatten ++ pending ∧
    (∀ c ∈ calls, IsCall t c) ∧ Pending s.mem t (s.pc t) pending

theorem Step.callLog {s s' : State T D} {l : Label T D} {as : List Addr}
    {es : List (Event T D)} {t : T} (h : Step s l s') (hr : Rep s as) (ho : Own s as)
    (he : entered s' = false) (hc : CallLog s es t) : CallLog s' (es ++ events s l) t := by
  obtain ⟨calls, pending, hes, hcalls, hp⟩ := hc
  by_cases hl : l.mover = some t
  · have hev : (events s l).filter (fun e => decide (e.thread = t)) = events s l := by
      refine List.filter_eq_self.mpr fun e he => ?_
      simpa using Option.some.inj ((events_thread he).symm.trans hl)
    rcases h.pending hl hp with hp' | ⟨hout, hcall⟩
    · exact ⟨calls, pending ++ events s l, by rw [List.filter_append, hes, hev,
        List.append_assoc], hcalls, hp'⟩
    · refine ⟨calls ++ [pending ++ events s l], [], ?_, ?_, ?_⟩
      · rw [List.filter_append, hes, hev]
        simp
      · intro c hc
        rcases List.mem_append.mp hc with hc | hc
        · exact hcalls c hc
        · exact List.mem_singleton.mp hc ▸ hcall
      · rw [hout]
        rfl
  · have hev : (events s l).filter (fun e => decide (e.thread = t)) = [] := by
      refine List.filter_eq_nil_iff.mpr fun e he => ?_
      have := events_thread he
      simp only [decide_eq_true_eq]
      rintro rfl
      exact hl this
    have hf := h.frame hr ho he hl
    exact ⟨calls, pending, by rw [List.filter_append, hev, List.append_nil, hes], hcalls,
      hp.other hf.1 hf.2⟩

variable [Fintype T]

theorem step_entered {s s' : State T D} {l : Label T D} (h : step s l = some s')
    (he : entered s' = false) : entered s = false := by
  cases step_cases h with
  | destroy hd =>
    cases hp : s.destroyer <;> simp only [destroyStep, hp] at hd
    case notCalled | enter => simp [entered, hp]
    case returned => cases hd
    case freeNodes =>
      split at hd <;> cases hd
      · simp [entered] at he
      · simp [entered] at he
    all_goals
      cases hd
      simp [entered] at he
  | _ => exact he

def history (size : Int32) (tr : List (Label T D)) : List (Event T D) :=
  outputs step events (createQueue size) tr

theorem run_refines {size : Int32} {tr : List (Label T D)} {s : State T D}
    (h : exec step (createQueue size) tr = some s) (he : entered s = false) :
    (∃ as, Rep s as ∧ Own s as ∧ Accepts [] (queueOps (history size tr)) (items s as)) ∧
      ∀ t, CallLog s (history size tr) t := by
  let I (es : List (Event T D)) (s : State T D) : Prop := entered s = false →
    (∃ as, Rep s as ∧ Own s as ∧ Accepts [] (queueOps es) (items s as)) ∧ ∀ t, CallLog s es t
  have hstep (es : List (Event T D)) (s : State T D) (l : Label T D) (s' : State T D)
      (hI : I es s) (hs : step s l = some s') : I (es ++ events s l) s' := by
    intro he'
    obtain ⟨⟨as, hr, ho, ha⟩, hc⟩ := hI (step_entered hs he')
    obtain ⟨bs, hb⟩ := (step_cases hs).refines hr ho he'
    refine ⟨⟨bs, hb.rep, hb.own, ?_⟩, fun t => (step_cases hs).callLog hr ho he' (hc t)⟩
    rw [queueOps, List.filterMap_append]
    exact ha.trans hb.accepts
  have h0 : I [] (createQueue size) := by
    exact fun _ => ⟨⟨[], rep_createQueue size, own_createQueue size, rfl⟩,
      fun t => ⟨[], [], rfl, by simp, rfl⟩⟩
  exact exec_history events hstep h0 h he

/-- The run so far, seen as a run of the atomic FIFO queue: the data unlinked, followed
by what is on the chain from `front`, is the data linked, and only the link and unlink
sections of calls that are not stopped change the chain or the size. -/
structure FifoRun (size : Int32) (tr : List (Label T D)) (s : State T D) (as : List Addr) :
    Prop where
  chain : Chain QueueNode.next s.mem s.front as
  order : pops (queueOps (history size tr)) ++ items s as = pushes (queueOps (history size tr))
  accepted : Accepts [] (queueOps (history size tr)) (items s as)
  calls : ∀ t, CallLog s (history size tr) t
  quiet : ∀ l s', step s l = some s' → entered s' = false → queueOps (events s l) = [] →
    s'.front = s.front ∧ s'.rear = s.rear ∧ s'.size = s.size ∧
      Chain QueueNode.next s'.mem s'.front as ∧ items s' as = items s as

/-- The blocking queue refines the atomic FIFO queue, for any threads and any
interleaving, up to the moment `destroyQueue` enters the lock. -/
theorem blockingQueue_refines_fifo {size : Int32} {tr : List (Label T D)} {s : State T D}
    (h : exec step (createQueue size) tr = some s) (he : entered s = false) :
    ∃ as, FifoRun size tr s as := by
  obtain ⟨⟨as, hr, ho, ha⟩, hc⟩ := run_refines h he
  refine ⟨as, hr.chain, by simpa using ha.pops_append, ha, hc, fun l s' hs he' hq => ?_⟩
  obtain ⟨bs, hb⟩ := (step_cases hs).refines hr ho he'
  obtain ⟨rfl, hf, hr', hsz⟩ := hb.quiet hq
  have hi : Accepts (items s bs) [] (items s' bs) := hq ▸ hb.accepts
  exact ⟨hf, hr', hsz, hb.rep.chain, Eq.symm hi⟩

inductive Role where
  | producer
  | consumer
  | thief
  deriving DecidableEq

instance : Fintype Role := ⟨{.producer, .consumer, .thief}, fun r => by cases r <;> decide⟩

def handOver : List (Label Role Nat) :=
  [.dequeue .consumer, .enter .consumer, .test .consumer, .sleep .consumer,
    .enqueue .producer 7 1 (some 100), .enter .producer, .test .producer, .stopTest .producer,
    .body .producer, .wake .producer (some .consumer), .enter .consumer, .test .consumer,
    .stopTest .consumer, .body .consumer, .wake .consumer none, .release .consumer]

theorem blockingQueue_refines_fifo_handOver :
    ∃ s, exec step (createQueue 1) handOver = some s ∧ (∃ as, FifoRun 1 handOver s as) ∧
      pops (queueOps (history 1 handOver)) = [7] := by
  obtain ⟨s, hs, hp⟩ := exec_exists step (createQueue 1) handOver
    (fun s => !entered s) (by decide)
  exact ⟨s, hs, blockingQueue_refines_fifo hs (by simpa using hp), by decide⟩

end Cexp.BlockingQueue
