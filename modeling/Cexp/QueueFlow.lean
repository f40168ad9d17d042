import Cexp.QueueCalls

/-! A queue between one producer and one consumer: what the consumer has taken, the chain and
what the producer is about to link are one stream, and every step inside a call keeps it. -/

namespace Cexp.BlockingQueue

open LinkedChain AtomicFifo

variable {T D : Type}

/-- The data a thread has unlinked and not returned yet. -/
def Pc.taken : Pc D → List D
  | .unlinked _ d | .release _ d => [d]
  | _ => []

/-- The data of the node a thread has not linked yet. -/
def Pc.given (mem : Addr → Option (QueueNode D)) (p : Pc D) : List D :=
  (p.newNode.bind mem).toList.map QueueNode.data

structure Between (s : State T D) (p c : T) : Prop where
  producer : ∀ t, t ≠ p → (s.pc t).enqueues = false
  consumer : ∀ t, t ≠ c → s.pc t = .outside ∨ (s.pc t).enqueues = true

/-- The stream from consumer `c` back to producer `p`. -/
def flow (s : State T D) (p c : T) (as : List Addr) : List D :=
  (s.pc c).taken ++ items s as ++ (s.pc p).given s.mem

def returned [DecidableEq T] (c : T) (es : List (Event T D)) : List D :=
  es.filterMap fun e => match e with
    | .ret t (.data d) => if t = c then some d else none
    | _ => none

theorem Pc.afterWake_ends {p : Pc D} {c : Cond} (h : p.owes = some c) :
    p.afterWake.taken = p.taken ∧ ∀ mem, p.afterWake.given mem = p.given mem := by
  cases p with
  | linked | unlinked => exact ⟨rfl, fun _ => rfl⟩
  | _ => cases h

theorem events_wake (s : State T D) {t : T} (w : Option T) :
    ∀ e ∈ events s (.wake t w), ∃ t, e = .ret t .enqueued := by
  intro e he
  simp only [events] at he
  split at he
  · exact ⟨t, List.mem_singleton.mp he⟩
  · cases he

variable [DecidableEq T]

theorem Step.frame_flow {s s' : State T D} {l : Label T D} {as : List Addr} {u : T}
    (h : Step s l s') (hr : Rep s as) (ho : Own s as) (he : entered s' = false)
    (hu : l.mover ≠ some u) : (s'.pc u).taken = (s.pc u).taken ∧
      (s'.pc u).given s'.mem = (s.pc u).given s.mem := by
  obtain ⟨hp, hm⟩ := h.frame hr ho he hu
  have hbind : (s.pc u).newNode.bind s'.mem = (s.pc u).newNode.bind s.mem := by
    cases hn : (s.pc u).newNode with
    | none => rfl
    | some a => simpa using hm a hn
  rcases hp with hp | ⟨k, hk, hp⟩
  · rw [hp]
    exact ⟨rfl, by rw [Pc.given, hbind, Pc.given]⟩
  · have hnode : (s'.pc u).newNode = (s.pc u).newNode := by
      rw [hp, hk]
      cases k <;> rfl
    exact ⟨by rw [hp, hk]; rfl, by rw [Pc.given, hnode, hbind, Pc.given]⟩

theorem flow_of_same {s s' : State T D} {l : Label T D} {p c : T} {as bs : List Addr}
    (hb : Refines s (events s l) s' as bs) (ht : (s'.pc c).taken = (s.pc c).taken)
    (hg : (s'.pc p).given s'.mem = (s.pc p).given s.mem)
    (he : ∀ e ∈ events s l, (∃ t, e = .ret t .enqueued)) :
    flow s p c as = returned c (events s l) ++ flow s' p c bs := by
  have hops : queueOps (events s l) = [] :=
    List.filterMap_eq_nil_iff.mpr fun e h => by obtain ⟨t, rfl⟩ := he e h; rfl
  have hret : returned c (events s l) = [] :=
    List.filterMap_eq_nil_iff.mpr fun e h => by obtain ⟨t, rfl⟩ := he e h; rfl
  have hacc := hb.accepts
  rw [hops] at hacc
  have hitems : items s as = items s' bs := hacc
  rw [hret, flow, flow, ht, hg, hitems, List.nil_append]

theorem Step.enqueue_flow {s s' : State T D} {p c : T} {d : D} {len : Int} {a : Addr}
    {as : List Addr} (h : Step s (.enqueue p d len (some a)) s') (hr : Rep s as) (ho : Own s as)
    (hd : s.destroyer = .notCalled) (hpc : p ≠ c) :
    ∃ bs, Rep s' bs ∧ Own s' bs ∧ flow s' p c bs = flow s p c as ++ [d] := by
  have he : entered s' = false := by simp [entered, h.destroyer_eq rfl, hd]
  obtain ⟨bs, hbs⟩ := h.refines hr ho he
  have hitems : items s as = items s' bs := hbs.accepts
  have hc := (h.frame_flow hr ho he (u := c) (by simpa [Label.mover] using hpc)).1
  refine ⟨bs, hbs.rep, hbs.own, ?_⟩
  rw [flow, flow, hc, hitems]
  cases h with
  | malloc ht ha => simp [State.move, Pc.given, Pc.newNode, ht]

theorem Step.dequeue_flow {s s' : State T D} {p c : T} {as : List Addr}
    (h : Step s (.dequeue c) s') (hr : Rep s as) (ho : Own s as)
    (hd : s.destroyer = .notCalled) (hpc : p ≠ c) :
    ∃ bs, Rep s' bs ∧ Own s' bs ∧ flow s' p c bs = flow s p c as := by
  have he : entered s' = false := by simp [entered, h.destroyer_eq rfl, hd]
  obtain ⟨bs, hbs⟩ := h.refines hr ho he
  have hitems : items s as = items s' bs := hbs.accepts
  have hp := (h.frame_flow hr ho he (u := p) (by simpa [Label.mover] using Ne.symm hpc)).2
  refine ⟨bs, hbs.rep, hbs.own, ?_⟩
  rw [flow, flow, hp, hitems]
  cases h with
  | dequeue ht => simp [State.move, Pc.taken, ht]

/-- What the consumer returns is taken from the front of the stream, and nothing else is. -/
theorem Step.keeps_flow {s s' : State T D} {l : Label T D} {p c : T} {as : List Addr}
    (h : Step s l s') (hl : l.insideCall = true) (hr : Rep s as) (ho : Own s as)
    (hu : Unstopped s) (hd : s.destroyer = .notCalled) (hb : Between s p c) (hpc : p ≠ c) :
    ∃ bs, Rep s' bs ∧ Own s' bs ∧
      flow s p c as = returned c (events s l) ++ flow s' p c bs := by
  have he : entered s' = false := by
    simp [entered, h.destroyer_eq (Label.mover_of_insideCall hl), hd]
  obtain ⟨bs, hbs⟩ := h.refines hr ho he
  refine ⟨bs, hbs.rep, hbs.own, ?_⟩
  have hother (u : T) (hu : l.mover ≠ some u) := h.frame_flow hr ho he hu
  have hquiet {t : T} (hm : l.mover = some t) (ht : (s'.pc t).taken = (s.pc t).taken)
      (hg : (s'.pc t).given s'.mem = (s.pc t).given s.mem)
      (he : ∀ e ∈ events s l, (∃ t, e = .ret t .enqueued)) :
      flow s p c as = returned c (events s l) ++ flow s' p c bs := by
    have hall (u : T) : (s'.pc u).taken = (s.pc u).taken ∧
        (s'.pc u).given s'.mem = (s.pc u).given s.mem := by
      by_cases hut : u = t
      · exact hut ▸ ⟨ht, hg⟩
      · exact hother u (by simpa [hm] using Ne.symm hut)
    exact flow_of_same hbs (hall c).1 (hall p).2 he
  cases h with
  | noMemory | malloc | dequeue | destroy | otherStop | otherLimit => cases hl
  | stopSet ht hs => simp [hu.stop] at hs
  | dropNode ht | leaveStopped ht => exact absurd ht (hu.pc _ _)
  | @enter t k ht | @reenter t k ht | @testWait t k w ht | @testPass t k w ht | @sleep t k ht
  | @spurious t k ht | @stopClear t k w ht =>
    refine hquiet rfl ?_ ?_ (by simp [events])
    · simp [State.acquire, State.leave, State.move, ht, Pc.taken]
    · cases k <;> simp [State.acquire, State.leave, State.move, ht, Pc.given, Pc.newNode]
  | @wakeOne t u d k ht hu hk =>
    have htu : t ≠ u := by
      rintro rfl
      rw [hu] at ht
      cases ht
    obtain ⟨htaken, hgiven⟩ := Pc.afterWake_ends ht
    refine hquiet rfl ?_ ?_ (events_wake _ _)
    · simpa [State.move] using htaken
    · simpa [State.move] using hgiven s.mem
  | @wakeNone t d ht hu =>
    obtain ⟨htaken, hgiven⟩ := Pc.afterWake_ends ht
    refine hquiet rfl ?_ ?_ (events_wake _ _)
    · simpa [State.move] using htaken
    · simpa [State.move] using hgiven s.mem
  | @linkFirst t a w ht | @linkLast t a r w n ht =>
    obtain rfl : t = p := by
      by_contra hne
      simpa [ht, Pc.enqueues, Pc.newNode] using hb.producer t hne
    obtain ⟨m, hm, -⟩ := ho.live t a (by rw [ht]; rfl)
    have hev : events s (.body t) = [.link t m.data] := by simp [events, ht, hm]
    have hacc := hbs.accepts
    rw [hev] at hacc ⊢
    have hitems : items s as ++ [m.data] = items _ bs := hacc
    have hg : (s.pc t).given s.mem = [m.data] := by simp [ht, Pc.given, Pc.newNode, hm]
    have hg' : ((Function.update s.pc t .linked) t).given s.mem = [] := by
      simp [Pc.given, Pc.newNode]
    rw [flow, flow, (hother c (by simpa [Label.mover] using hpc)).1, hg, ← hitems]
    simp [returned, State.leave, State.move, Pc.given, Pc.newNode]
  | @unlink t a w n ht hfront hn =>
    obtain rfl : t = c := by
      by_contra hne
      simpa [ht, Pc.enqueues, Pc.newNode] using hb.consumer t hne
    have hev : events s (.body t) = [.unlink t n.data] := by
      simp [events, ht, unlinkFront, hfront, hn]
    have hacc := hbs.accepts
    rw [hev] at hacc ⊢
    obtain ⟨rest, hitems, hrest⟩ : ∃ rest, items s as = n.data :: rest ∧ rest = items _ bs := hacc
    rw [flow, flow, (hother p (by simpa [Label.mover] using Ne.symm hpc)).2, hitems, hrest]
    simp [returned, State.leave, State.move, Pc.taken, ht]
  | @release t a d ht =>
    obtain rfl : t = c := by
      by_contra hne
      simpa [ht, Pc.enqueues, Pc.newNode] using hb.consumer t hne
    have hev : events s (.release t) = [.ret t (.data d)] := by simp [events, ht]
    have hacc := hbs.accepts
    rw [hev] at hacc ⊢
    have hitems : items s as = items _ bs := hacc
    rw [flow, flow, (hother p (by simpa [Label.mover] using Ne.symm hpc)).2, hitems]
    simp [returned, State.move, Pc.taken, ht]

end Cexp.BlockingQueue
