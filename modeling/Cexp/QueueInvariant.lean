import Cexp.QueueStep

/-! The representation of the queue as a chain of nodes, who owns the lock and the
nodes off the chain, and the refinement of the atomic FIFO queue: every step is
a push, a pop or nothing on what the chain holds. -/

namespace Cexp.BlockingQueue

open LinkedChain AtomicFifo

variable {T D : Type}

def Pc.holds : Pc D → Bool
  | .test _ _ | .sleep _ | .stopTest _ _ | .stopped _ | .body _ _ => true
  | _ => false

/-- The node an `enqueue` has allocated and not linked yet. -/
def Pc.newNode : Pc D → Option Addr
  | .enter (.enqueue a) | .test (.enqueue a) _ | .sleep (.enqueue a) | .asleep (.enqueue a)
  | .reenter (.enqueue a) | .stopTest (.enqueue a) _ | .stopped (.enqueue a)
  | .body (.enqueue a) _ => some a
  | _ => none

/-- The node a thread owns: one not linked yet, or one already unlinked. -/
def Pc.owned : Pc D → Option Addr
  | .unlinked temp _ | .release temp _ => some temp
  | p => p.newNode

structure Rep (s : State T D) (as : List Addr) : Prop where
  chain : Chain QueueNode.next s.mem s.front as
  rear : s.rear = as.getLast?
  size : s.size = as.length

structure Own (s : State T D) (as : List Addr) : Prop where
  holder : ∀ t, (s.pc t).holds = true ↔ s.lock = some (.thread t)
  not_destroyer : s.lock ≠ some .destroyer
  off_chain : ∀ t a, (s.pc t).owned = some a → a ∉ as
  live : ∀ t a, (s.pc t).owned = some a →
    ∃ n, s.mem a = some n ∧ ((s.pc t).newNode = some a → n.next = none)
  alone : ∀ t u a, (s.pc t).owned = some a → (s.pc u).owned = some a → t = u

def items (s : State T D) (as : List Addr) : List D := contents QueueNode.data s.mem as

theorem Pc.owned_of_newNode {p : Pc D} {a : Addr} (h : p.newNode = some a) :
    p.owned = some a := by
  cases p <;> simp_all [Pc.owned, Pc.newNode]

theorem Rep.congr {s s' : State T D} {as : List Addr} (h : Rep s as)
    (hf : s'.front = s.front) (hr : s'.rear = s.rear) (hs : s'.size = s.size)
    (hm : ∀ a ∈ as, s'.mem a = s.mem a) : Rep s' as ∧ items s' as = items s as :=
  ⟨⟨hf ▸ h.chain.congr hm, hr.trans h.rear, hs.trans h.size⟩, contents_congr hm⟩

theorem Own.lock_eq {s : State T D} {as : List Addr} (h : Own s as) {t : T}
    (ht : (s.pc t).holds = true) : s.lock = some (.thread t) := (h.holder t).mp ht

theorem rep_createQueue (size : Int32) : Rep (createQueue size : State T D) [] := ⟨rfl, rfl, rfl⟩

theorem own_createQueue (size : Int32) : Own (createQueue size : State T D) [] where
  holder t := by simp [createQueue, Pc.holds]
  not_destroyer := by simp [createQueue]
  off_chain t a ht := by simp [createQueue, Pc.owned, Pc.newNode] at ht
  live t a ht := by simp [createQueue, Pc.owned, Pc.newNode] at ht
  alone t u a ht := by simp [createQueue, Pc.owned, Pc.newNode] at ht

theorem Own.freeNode_eq {s : State T D} {as : List Addr} (h : Own s as) {t : T} {a : Addr}
    (ht : (s.pc t).owned = some a) :
    (∀ b ∈ as, freeNode s.mem (some a) b = s.mem b) ∧
      ∀ u b, u ≠ t → (s.pc u).owned = some b → freeNode s.mem (some a) b = s.mem b := by
  refine ⟨fun b hb => Function.update_of_ne ?_ _ _, fun u b hu hb => Function.update_of_ne ?_ _ _⟩
  · rintro rfl
    exact h.off_chain t b ht hb
  · rintro rfl
    exact hu (h.alone u t b hb ht)

def queueOps (es : List (Event T D)) : List (Op D) :=
  es.filterMap fun e => match e with
    | .link _ d => some (.push d)
    | .unlink _ d => some (.pop d)
    | _ => none

def entered (s : State T D) : Bool :=
  match s.destroyer with
  | .notCalled | .enter => false
  | _ => true

/-- The step takes the queue represented by `as` to the one represented by `bs`, and the
atomic queue follows; without a push or a pop nothing of the queue changes. -/
structure Refines (s : State T D) (es : List (Event T D)) (s' : State T D)
    (as bs : List Addr) : Prop where
  rep : Rep s' bs
  own : Own s' bs
  accepts : Accepts (items s as) (queueOps es) (items s' bs)
  quiet : queueOps es = [] → bs = as ∧ s'.front = s.front ∧ s'.rear = s.rear ∧ s'.size = s.size

theorem refines_of_quiet {s s' : State T D} {es : List (Event T D)} {as : List Addr}
    (hr : Rep s as) (hf : s'.front = s.front) (hr' : s'.rear = s.rear) (hs : s'.size = s.size)
    (hm : ∀ a ∈ as, s'.mem a = s.mem a) (ho : Own s' as) (he : queueOps es = []) :
    ∃ bs, Refines s es s' as bs := by
  have hh := hr.congr hf hr' hs hm
  exact ⟨as, hh.1, ho, by rw [he, hh.2]; rfl, fun _ => ⟨rfl, hf, hr', hs⟩⟩

variable [DecidableEq T]

theorem Own.move {s s' : State T D} {as bs : List Addr} {t : T} {p : Pc D} (h : Own s as)
    (hpc : s'.pc = Function.update s.pc t p)
    (hlock : (p.holds = true ∧ s'.lock = some (.thread t) ∧
        (s.lock = none ∨ s.lock = some (.thread t))) ∨
      (p.holds = false ∧ s'.lock = none ∧ s.lock = some (.thread t)) ∨
      (p.holds = false ∧ (s.pc t).holds = false ∧ s'.lock = s.lock))
    (hmem : ∀ u a, u ≠ t → (s.pc u).owned = some a → s'.mem a = s.mem a)
    (hbs : ∀ a ∈ bs, a ∈ as ∨ (s.pc t).owned = some a)
    (hp : ∀ a, p.owned = some a → a ∉ bs ∧ (∀ u, u ≠ t → (s.pc u).owned ≠ some a) ∧
      ∃ n, s'.mem a = some n ∧ (p.newNode = some a → n.next = none)) : Own s' bs := by
  have hself : s'.pc t = p := by simp [hpc]
  have hother (u : T) (hu : u ≠ t) : s'.pc u = s.pc u := by simp [hpc, hu]
  refine ⟨fun u => ?_, ?_, fun u a ha => ?_, fun u a ha => ?_, fun u v a hu hv => ?_⟩
  · have ht := h.holder t
    by_cases hu : u = t
    · subst u
      rw [hself]
      rcases hlock with ⟨hh, hl, _⟩ | ⟨hh, hl, _⟩ | ⟨hh, hh', hl⟩
      · simp [hh, hl]
      · simp [hh, hl]
      · rw [hh, hl, ← ht, hh']
    · rw [hother u hu, h.holder u]
      have := Ne.symm hu
      rcases hlock with ⟨_, hl, hl' | hl'⟩ | ⟨_, hl, hl'⟩ | ⟨_, _, hl⟩ <;> simp [*]
  · rcases hlock with ⟨_, hl, _⟩ | ⟨_, hl, _⟩ | ⟨_, _, hl⟩
    · simp [hl]
    · simp [hl]
    · exact hl ▸ h.not_destroyer
  · by_cases hu : u = t
    · subst u
      exact (hp a (hself ▸ ha)).1
    · rw [hother u hu] at ha
      intro hm
      rcases hbs a hm with hm | hm
      · exact h.off_chain u a ha hm
      · exact hu (h.alone u t a ha hm)
  · by_cases hu : u = t
    · subst u
      rw [hself] at ha ⊢
      exact (hp a ha).2.2
    · rw [hother u hu] at ha ⊢
      rw [hmem u a hu ha]
      exact h.live u a ha
  · by_cases hut : u = t <;> by_cases hvt : v = t
    · rw [hut, hvt]
    · rw [hut, hself] at hu
      rw [hother v hvt] at hv
      exact absurd hv ((hp a hu).2.1 v hvt)
    · rw [hvt, hself] at hv
      rw [hother u hut] at hu
      exact absurd hu ((hp a hv).2.1 u hut)
    · rw [hother u hut] at hu
      rw [hother v hvt] at hv
      exact h.alone u v a hu hv

theorem Own.shift {s s' : State T D} {as : List Addr} {t : T} {p : Pc D} (h : Own s as)
    (hpc : s'.pc = Function.update s.pc t p) (hm : s'.mem = s.mem)
    (ho : p.owned = (s.pc t).owned) (hn : p.newNode = (s.pc t).newNode)
    (hlock : (p.holds = true ∧ s'.lock = some (.thread t) ∧
        (s.lock = none ∨ s.lock = some (.thread t))) ∨
      (p.holds = false ∧ s'.lock = none ∧ s.lock = some (.thread t)) ∨
      (p.holds = false ∧ (s.pc t).holds = false ∧ s'.lock = s.lock)) : Own s' as := by
  refine h.move hpc hlock (fun _ a _ _ => by rw [hm]) (fun _ => Or.inl) fun a ha => ?_
  rw [ho] at ha
  refine ⟨h.off_chain t a ha, fun u hu he => hu (h.alone u t a he ha), ?_⟩
  rw [hm, hn]
  exact h.live t a ha

theorem Own.drop {s s' : State T D} {as bs : List Addr} {t : T} {p : Pc D} (h : Own s as)
    (hpc : s'.pc = Function.update s.pc t p)
    (hm : ∀ u a, u ≠ t → (s.pc u).owned = some a → s'.mem a = s.mem a)
    (hbs : ∀ a ∈ bs, a ∈ as ∨ (s.pc t).owned = some a) (ho : p.owned = none)
    (hlock : (p.holds = false ∧ s'.lock = none ∧ s.lock = some (.thread t)) ∨
      (p.holds = false ∧ (s.pc t).holds = false ∧ s'.lock = s.lock)) : Own s' bs :=
  h.move hpc (Or.inr hlock) hm hbs fun a ha => by simp [ho] at ha

theorem Step.refines {s s' : State T D} {l : Label T D} {as : List Addr} (h : Step s l s')
    (hr : Rep s as) (ho : Own s as) (he : entered s' = false) :
    ∃ bs, Refines s (events s l) s' as bs := by
  cases h with
  | noMemory ht => exact refines_of_quiet hr rfl rfl rfl (fun _ _ => rfl) ho rfl
  | @malloc t data len a ht ha =>
    have hfresh (b : Addr) (hb : ∃ n, s.mem b = some n) : b ≠ a := by
      rintro rfl
      simp [ha] at hb
    refine refines_of_quiet hr rfl rfl rfl
      (fun b hb => Function.update_of_ne (hfresh b (hr.chain.live hb)) _ _) ?_ rfl
    have hlive (u : T) (b : Addr) (hb : (s.pc u).owned = some b) : b ≠ a :=
      hfresh b ((ho.live u b hb).imp fun _ => And.left)
    refine ho.move rfl (Or.inr (Or.inr ⟨rfl, by simp [ht, Pc.holds], rfl⟩))
      (fun u b _ hb => Function.update_of_ne (hlive u b hb) _ _) (fun _ => Or.inl) ?_
    intro b hb
    obtain rfl := Option.some.inj hb
    exact ⟨fun hm => hfresh a (hr.chain.live hm) rfl, fun u _ hu => hlive u a hu rfl,
      _, Function.update_self _ _ _, fun _ => rfl⟩
  | dequeue ht =>
    exact refines_of_quiet hr rfl rfl rfl (fun _ _ => rfl) (ho.shift rfl rfl (by rw [ht]; rfl)
      (by rw [ht]; rfl) (Or.inr (Or.inr ⟨rfl, by rw [ht]; rfl, rfl⟩))) rfl
  | @enter t c ht hl | @reenter t c ht hl =>
    exact refines_of_quiet hr rfl rfl rfl (fun _ _ => rfl) (ho.shift rfl rfl
      (by rw [ht]; cases c <;> rfl) (by rw [ht]; cases c <;> rfl)
      (Or.inl ⟨rfl, rfl, Or.inl hl⟩)) rfl
  | @testWait t c w ht | @testPass t c w ht | @stopSet t c w ht | @stopClear t c w ht =>
    have hl := ho.lock_eq (t := t) (by rw [ht]; rfl)
    exact refines_of_quiet hr rfl rfl rfl (fun _ _ => rfl) (ho.shift rfl rfl
      (by rw [ht]; cases c <;> rfl) (by rw [ht]; cases c <;> rfl)
      (Or.inl ⟨rfl, hl, Or.inr hl⟩)) rfl
  | @sleep t c ht =>
    have hl := ho.lock_eq (t := t) (by rw [ht]; rfl)
    exact refines_of_quiet hr rfl rfl rfl (fun _ _ => rfl) (ho.shift rfl rfl
      (by rw [ht]; cases c <;> rfl) (by rw [ht]; cases c <;> rfl)
      (Or.inr (Or.inl ⟨rfl, rfl, hl⟩))) rfl
  | @spurious t c ht =>
    exact refines_of_quiet hr rfl rfl rfl (fun _ _ => rfl) (ho.shift rfl rfl
      (by rw [ht]; cases c <;> rfl) (by rw [ht]; cases c <;> rfl)
      (Or.inr (Or.inr ⟨rfl, by rw [ht]; rfl, rfl⟩))) rfl
  | @dropNode t a ht =>
    have hl := ho.lock_eq (t := t) (by rw [ht]; rfl)
    have hfree := ho.freeNode_eq (t := t) (a := a) (by rw [ht]; rfl)
    exact refines_of_quiet hr rfl rfl rfl hfree.1
      (ho.drop rfl hfree.2 (fun _ => Or.inl) rfl (Or.inl ⟨rfl, rfl, hl⟩)) rfl
  | @leaveStopped t ht =>
    have hl := ho.lock_eq (t := t) (by rw [ht]; rfl)
    exact refines_of_quiet hr rfl rfl rfl (fun _ _ => rfl) (ho.shift rfl rfl
      (by rw [ht]; rfl) (by rw [ht]; rfl) (Or.inr (Or.inl ⟨rfl, rfl, hl⟩))) rfl
  | @linkFirst t a w ht hrear hm =>
    have hl := ho.lock_eq (t := t) (by rw [ht]; rfl)
    have hown : (s.pc t).owned = some a := by rw [ht]; rfl
    obtain ⟨n, hn, hnext⟩ := ho.live t a hown
    obtain rfl : as = [] := List.getLast?_eq_none_iff.mp (hr.rear.symm.trans hrear)
    have hops : queueOps (events s (.body t)) = [.push n.data] := by
      simp [queueOps, events, ht, hn]
    refine ⟨[a], ⟨chain_singleton hn (hnext (by rw [ht]; rfl)), rfl, ?_⟩, ?_, ?_, ?_⟩
    · simp [hr.size]
    · refine ho.drop rfl (fun _ _ _ _ => rfl) (fun b hb => ?_) rfl (Or.inl ⟨rfl, rfl, hl⟩)
      rw [List.mem_singleton.mp hb]
      exact Or.inr hown
    · rw [hops]
      simp [hn, items, contents, Accepts, State.leave, State.move]
    · simp [hops]
  | @linkLast t a r w n ht hrear hn hm =>
    have hl := ho.lock_eq (t := t) (by rw [ht]; rfl)
    have hown : (s.pc t).owned = some a := by rw [ht]; rfl
    obtain ⟨m, hma, hnext⟩ := ho.live t a hown
    obtain ⟨pre, rfl⟩ := List.getLast?_eq_some_iff.mp (hr.rear.symm.trans hrear)
    have hmem := ho.off_chain t a hown
    have hops : queueOps (events s (.body t)) = [.push m.data] := by
      simp [queueOps, events, ht, hma]
    refine ⟨pre ++ [r, a],
      ⟨hr.chain.link rfl hma (hnext (by rw [ht]; rfl)) hmem, ?_, ?_⟩, ?_, ?_, ?_⟩
    · simp
    · simp [hr.size, add_assoc]
    · refine ho.drop rfl (fun u b hu hb => ?_) (fun b hb => ?_) rfl (Or.inl ⟨rfl, rfl, hl⟩)
      · exact Function.update_of_ne (fun e => ho.off_chain u b hb (by simp [e])) _ _
      · rcases List.mem_append.mp hb with hb | hb
        · exact Or.inl (by simp [hb])
        · rcases List.mem_cons.mp hb with rfl | hb
          · exact Or.inl (by simp)
          · exact Or.inr (by rw [hown, List.mem_singleton.mp hb])
    · have hc := contents_link QueueNode.data hn
        (show ({ n with next := some a } : QueueNode D).data = n.data from rfl) hma hmem
      rw [hops]
      exact hc.symm
    · simp [hops]
  | @unlink t a w n ht hfront hn =>
    have hl := ho.lock_eq (t := t) (by rw [ht]; rfl)
    obtain ⟨bs, rfl, hc⟩ := Chain.unlink (hfront ▸ hr.chain) hn
    have hnd := List.nodup_cons.mp hr.chain.nodup
    have hops : queueOps (events s (.body t)) = [.pop n.data] := by
      simp [queueOps, events, ht, unlinkFront, hfront, hn]
    refine ⟨bs, ⟨hc, ?_, ?_⟩, ?_, ?_, ?_⟩
    · have hnil := hc.eq_none_iff
      cases bs with
      | nil => simp [hnil]
      | cons b bs =>
        have hsome : n.next ≠ none := fun e => by simpa using hnil.mp e
        simpa [hsome] using hr.rear
    · simp [hr.size]
    · refine ho.move rfl (Or.inr (Or.inl ⟨rfl, rfl, hl⟩)) (fun _ _ _ _ => rfl)
        (fun b hb => Or.inl (List.mem_cons_of_mem _ hb)) fun b hb => ?_
      obtain rfl := Option.some.inj hb
      exact ⟨hnd.1, fun u _ hu => ho.off_chain u a hu (by simp), n, hn, fun e => by cases e⟩
    · have hitems : items s (a :: bs) = n.data :: items s bs := by simp [items, contents, hn]
      rw [hops]
      exact ⟨items s bs, hitems, rfl⟩
    · simp [hops]
  | @wakeOne t u c k ht hu hk =>
    have htu : t ≠ u := by
      rintro rfl
      rw [hu] at ht
      cases ht
    have hu' : Own (s.move u (.reenter k)) as := ho.shift rfl rfl
      (by rw [hu]; cases k <;> rfl) (by rw [hu]; cases k <;> rfl)
      (Or.inr (Or.inr ⟨rfl, by rw [hu]; rfl, rfl⟩))
    have hpc : (s.move u (.reenter k)).pc t = s.pc t := by simp [State.move, htu]
    refine refines_of_quiet hr rfl rfl rfl (fun _ _ => rfl) (hu'.shift rfl rfl ?_ ?_ ?_) ?_
    all_goals cases hp : s.pc t <;> simp_all [Pc.owes, Pc.afterWake, Pc.owned, Pc.newNode,
      Pc.holds, queueOps, events, State.move]
  | @wakeNone t c ht hu =>
    refine refines_of_quiet hr rfl rfl rfl (fun _ _ => rfl) (ho.shift rfl rfl ?_ ?_ ?_) ?_
    all_goals cases hp : s.pc t <;> simp_all [Pc.owes, Pc.afterWake, Pc.owned, Pc.newNode,
      Pc.holds, queueOps, events, State.move]
  | @release t a d ht =>
    have hfree := ho.freeNode_eq (t := t) (a := a) (by rw [ht]; rfl)
    exact refines_of_quiet hr rfl rfl rfl hfree.1
      (ho.drop rfl hfree.2 (fun _ => Or.inl) rfl (Or.inr ⟨rfl, by rw [ht]; rfl, rfl⟩))
      (by simp [queueOps, events, ht])
  | destroy hd =>
    cases hp : s.destroyer <;> simp only [destroyStep, hp] at hd
    case notCalled =>
      obtain rfl := Option.some.inj hd
      exact refines_of_quiet hr rfl rfl rfl (fun _ _ => rfl) ⟨ho.1, ho.2, ho.3, ho.4, ho.5⟩ rfl
    all_goals
      repeat' split at hd
      all_goals cases hd
      all_goals simp [entered] at he
  | otherStop b | otherLimit size =>
    exact refines_of_quiet hr rfl rfl rfl (fun _ _ => rfl) ⟨ho.1, ho.2, ho.3, ho.4, ho.5⟩ rfl

end Cexp.BlockingQueue
