import Cexp.QueueHistory

/-! Where the nodes of a queue are: on the chain, or with the one thread that has allocated or
unlinked them. `enqueue` and `dequeue` lose none, free none twice and read none that is free. -/

namespace Cexp.BlockingQueue

open Transition LinkedChain

variable {T D : Type}

/-- The node a step of a call gives to `free`. -/
def nodeFreed (s : State T D) : Label T D → Option Addr
  | .leaveStopped t =>
    match s.pc t with
    | .stopped (.enqueue a) => some a
    | _ => none
  | .release t =>
    match s.pc t with
    | .release temp _ => some temp
    | _ => none
  | _ => none

/-- The node whose fields a critical section reads or writes through the queue. -/
def nodeRead (s : State T D) : Label T D → Option Addr
  | .body t =>
    match s.pc t with
    | .body (.enqueue _) _ => s.rear
    | .body .dequeue _ => s.front
    | _ => none
  | _ => none

def NoLeak (s : State T D) (as : List Addr) : Prop :=
  ∀ a, (s.mem a).isSome = true → a ∈ as ∨ ∃ t, (s.pc t).owned = some a

/-- Every live node is in one place, and steps free and read live nodes only. -/
structure Accounted (s : State T D) (as : List Addr) : Prop where
  chain : Chain QueueNode.next s.mem s.front as
  live_iff : ∀ a, (s.mem a).isSome = true ↔ a ∈ as ∨ ∃ t, (s.pc t).owned = some a
  off_chain : ∀ t a, (s.pc t).owned = some a → a ∉ as
  sole : ∀ t u a, (s.pc t).owned = some a → (s.pc u).owned = some a → t = u
  freed : ∀ l a, nodeFreed s l = some a → (s.mem a).isSome = true ∧ a ∉ as ∧
    ∃ t, l.mover = some t ∧ (s.pc t).owned = some a
  read : ∀ l a, nodeRead s l = some a → (s.mem a).isSome = true

theorem accounted_of {s : State T D} {as : List Addr} (hr : Rep s as) (ho : Own s as)
    (hn : NoLeak s as) : Accounted s as where
  chain := hr.chain
  live_iff a := by
    refine ⟨hn a, ?_⟩
    rintro (ha | ⟨t, ht⟩)
    · obtain ⟨n, hm⟩ := hr.chain.live ha
      simp [hm]
    · obtain ⟨n, hm, -⟩ := ho.live t a ht
      simp [hm]
  off_chain := ho.off_chain
  sole := ho.alone
  freed l a h := by
    have hown (t : T) (ht : (s.pc t).owned = some a) (hl : l.mover = some t) :
        (s.mem a).isSome = true ∧ a ∉ as ∧ ∃ t, l.mover = some t ∧ (s.pc t).owned = some a := by
      obtain ⟨n, hm, -⟩ := ho.live t a ht
      exact ⟨by simp [hm], ho.off_chain t a ht, t, hl, ht⟩
    cases l with
    | leaveStopped t =>
      cases hp : s.pc t with
      | stopped c =>
        cases c with
        | enqueue b =>
          simp only [nodeFreed, hp] at h
          exact hown t (by rw [hp]; exact h) rfl
        | dequeue => simp [nodeFreed, hp] at h
      | _ => simp [nodeFreed, hp] at h
    | release t =>
      cases hp : s.pc t with
      | release b d =>
        simp only [nodeFreed, hp] at h
        exact hown t (by rw [hp]; exact h) rfl
      | _ => simp [nodeFreed, hp] at h
    | _ => cases h
  read l a h := by
    have hlive (ha : a ∈ as) : (s.mem a).isSome = true := by
      obtain ⟨n, hm⟩ := hr.chain.live ha
      simp [hm]
    cases l with
    | body t =>
      cases hp : s.pc t with
      | body c w =>
        cases c with
        | enqueue b =>
          simp only [nodeRead, hp] at h
          exact hlive (List.mem_of_getLast? (hr.rear.symm.trans h))
        | dequeue =>
          simp only [nodeRead, hp] at h
          exact hlive (List.mem_of_head? (hr.chain.head_eq.symm.trans h))
      | _ => simp [nodeRead, hp] at h
    | _ => cases h

variable [DecidableEq T]

/-- One thread moves: what becomes live is its own or on the chain, and what it had and what was
on the chain stays somewhere or is freed. -/
theorem NoLeak.move {s s' : State T D} {as bs : List Addr} {t : T} {p : Pc D} (h : NoLeak s as)
    (hpc : s'.pc = Function.update s.pc t p)
    (hlive : ∀ a, (s'.mem a).isSome = true → p.owned = some a ∨ a ∈ bs ∨
      ((s.mem a).isSome = true ∧ (s.pc t).owned ≠ some a ∧ (a ∈ as → a ∈ bs))) :
    NoLeak s' bs := by
  intro a ha
  rcases hlive a ha with hp | hb | ⟨hm, hne, hab⟩
  · exact Or.inr ⟨t, by simp [hpc, hp]⟩
  · exact Or.inl hb
  · refine (h a hm).imp hab ?_
    rintro ⟨u, hu⟩
    have hut : u ≠ t := by
      rintro rfl
      exact hne hu
    exact ⟨u, by simp [hpc, hut, hu]⟩

theorem NoLeak.shift {s s' : State T D} {as : List Addr} {t : T} {p : Pc D} (h : NoLeak s as)
    (hpc : s'.pc = Function.update s.pc t p) (hm : s'.mem = s.mem)
    (hp : p.owned = (s.pc t).owned) : NoLeak s' as := by
  refine h.move hpc fun a ha => ?_
  rw [hm] at ha
  by_cases hown : (s.pc t).owned = some a
  · exact Or.inl (hp.trans hown)
  · exact Or.inr (Or.inr ⟨ha, hown, id⟩)

theorem NoLeak.free {s s' : State T D} {as : List Addr} {t : T} {p : Pc D} {b : Addr}
    (h : NoLeak s as) (hpc : s'.pc = Function.update s.pc t p)
    (hm : s'.mem = freeNode s.mem (some b)) (hb : (s.pc t).owned = some b) : NoLeak s' as := by
  refine h.move hpc fun a ha => Or.inr (Or.inr ?_)
  have hab : a ≠ b := by
    rintro rfl
    simp [hm, freeNode] at ha
  refine ⟨by simpa [hm, freeNode, hab] using ha, ?_, id⟩
  rw [hb]
  exact fun he => hab (Option.some.inj he).symm

theorem Pc.owned_afterWake {p : Pc D} {c : Cond} (h : p.owes = some c) :
    p.afterWake.owned = p.owned := by
  cases p <;> simp_all [Pc.owes, Pc.afterWake, Pc.owned, Pc.newNode]

theorem Step.noLeak {s s' : State T D} {l : Label T D} {as bs : List Addr} (h : Step s l s')
    (hr : Rep s as) (ho : Own s as) (hn : NoLeak s as) (he : entered s' = false)
    (hr' : Rep s' bs) : NoLeak s' bs := by
  obtain ⟨bs', hbs⟩ := h.refines hr ho he
  obtain rfl := hbs.rep.chain.unique hr'.chain
  have hquiet (hq : queueOps (events s l) = []) (hI : NoLeak s' as) : NoLeak s' bs' := by
    obtain ⟨rfl, -⟩ := hbs.quiet hq
    exact hI
  cases h with
  | noMemory => exact hquiet rfl hn
  | @malloc t data len a ht ha =>
    refine hquiet rfl (hn.move rfl fun b hb => ?_)
    by_cases hba : b = a
    · exact Or.inl (by rw [hba]; rfl)
    · exact Or.inr (Or.inr ⟨by simpa [hba] using hb, by simp [ht, Pc.owned, Pc.newNode], id⟩)
  | @enter t c ht | @reenter t c ht | @testWait t c w ht | @testPass t c w ht | @sleep t c ht
  | @spurious t c ht | @stopSet t c w ht | @stopClear t c w ht =>
    exact hquiet rfl (hn.shift rfl rfl (by rw [ht]; cases c <;> rfl))
  | dequeue ht | leaveStopped ht => exact hquiet rfl (hn.shift rfl rfl (by rw [ht]; rfl))
  | @dropNode t a ht => exact hquiet rfl (hn.free rfl rfl (by rw [ht]; rfl))
  | @linkFirst t a w ht hrear =>
    obtain rfl : as = [] := List.getLast?_eq_none_iff.mp (hr.rear.symm.trans hrear)
    have ha : a ∈ bs' := List.mem_of_getLast? hr'.rear.symm
    refine hn.move rfl fun b hb => ?_
    by_cases hba : b = a
    · exact Or.inr (Or.inl (hba ▸ ha))
    · refine Or.inr (Or.inr ⟨hb, ?_, fun hc => by cases hc⟩)
      simp [ht, Pc.owned, Pc.newNode, Ne.symm hba]
  | @linkLast t a r w n ht hrear hnr =>
    have hown : (s.pc t).owned = some a := by rw [ht]; rfl
    obtain ⟨m, hma, hnext⟩ := ho.live t a hown
    obtain ⟨pre, rfl⟩ := List.getLast?_eq_some_iff.mp (hr.rear.symm.trans hrear)
    have hnew : QueueNode.next { n with next := some a } = some a := rfl
    have hlink := hr.chain.link hnew hma (hnext (by rw [ht]; rfl)) (ho.off_chain t a hown)
    obtain rfl := hlink.unique hr'.chain
    refine hn.move rfl fun b hb => ?_
    by_cases hba : b = a
    · exact Or.inr (Or.inl (by simp [hba]))
    · have hlive : (s.mem b).isSome = true := by
        by_cases hbr : b = r
        · simp [hbr, hnr]
        · simpa [State.leave, State.move, hbr] using hb
      refine Or.inr (Or.inr ⟨hlive, ?_, fun hc => ?_⟩)
      · simp [ht, Pc.owned, Pc.newNode, Ne.symm hba]
      · rcases List.mem_append.mp hc with hc | hc
        · exact List.mem_append_left _ hc
        · exact List.mem_append_right _ (by simp [List.mem_singleton.mp hc])
  | @unlink t a w n ht hfront hna =>
    obtain ⟨cs, rfl, hc⟩ := Chain.unlink (hfront ▸ hr.chain) hna
    obtain rfl := hc.unique hr'.chain
    refine hn.move rfl fun b hb => ?_
    by_cases hba : b = a
    · exact Or.inl (by rw [hba]; rfl)
    · refine Or.inr (Or.inr ⟨hb, by simp [ht, Pc.owned, Pc.newNode], fun hm => ?_⟩)
      exact (List.mem_cons.mp hm).resolve_left hba
  | @wakeOne t u c k ht hu hk =>
    have htu : t ≠ u := by
      rintro rfl
      rw [hu] at ht
      cases ht
    have hops : queueOps (events s (.wake t (some u))) = [] := by
      cases hp : s.pc t <;> simp [queueOps, events, hp]
    have hn' : NoLeak (s.move u (.reenter k)) as := hn.shift rfl rfl (by rw [hu]; cases k <;> rfl)
    refine hquiet hops (hn'.shift rfl rfl ?_)
    rw [Pc.owned_afterWake ht]
    simp [State.move, htu]
  | @wakeNone t c ht hu =>
    have hops : queueOps (events s (.wake t none)) = [] := by
      cases hp : s.pc t <;> simp [queueOps, events, hp]
    exact hquiet hops (hn.shift rfl rfl (Pc.owned_afterWake ht))
  | @release t a d ht =>
    exact hquiet (by simp [queueOps, events, ht]) (hn.free rfl rfl (by rw [ht]; rfl))
  | destroy hd =>
    cases hp : s.destroyer <;> simp only [destroyStep, hp] at hd
    case notCalled =>
      obtain rfl := Option.some.inj hd
      exact hquiet rfl hn
    all_goals
      repeat' split at hd
      all_goals cases hd
      all_goals simp [entered] at he
  | otherStop | otherLimit => exact hquiet rfl hn

variable [Fintype T]

theorem run_noLeak {size : Int32} {tr : List (Label T D)} {s : State T D}
    (h : exec step (createQueue size) tr = some s) (he : entered s = false) :
    ∃ as, Rep s as ∧ Own s as ∧ NoLeak s as := by
  revert he
  refine exec_prefix_induction (P := fun _ s => entered s = false →
    ∃ as, Rep s as ∧ Own s as ∧ NoLeak s as) ?_ ?_ h
  · exact fun _ => ⟨[], rep_createQueue size, own_createQueue size,
      fun a ha => by simp [createQueue] at ha⟩
  · intro tr s l s' _ ih hs he'
    obtain ⟨as, hr, ho, hn⟩ := ih (step_entered hs he')
    obtain ⟨bs, hbs⟩ := (step_cases hs).refines hr ho he'
    exact ⟨bs, hbs.rep, hbs.own, (step_cases hs).noLeak hr ho hn he' hbs.rep⟩

omit [DecidableEq T] in
/-- With the live nodes accounted for there is always room for another one. -/
theorem NoLeak.exists_fresh {s : State T D} {as : List Addr} (h : NoLeak s as) :
    ∃ a, s.mem a = none := by
  let used := as.toFinset ∪ Finset.univ.biUnion fun t => (s.pc t).owned.toFinset
  obtain ⟨a, ha⟩ := Infinite.exists_notMem_finset used
  refine ⟨a, Option.not_isSome_iff_eq_none.mp fun hlive => ha ?_⟩
  rcases h a hlive with hin | ⟨t, ht⟩
  · exact Finset.mem_union_left _ (List.mem_toFinset.mpr hin)
  · refine Finset.mem_union_right _ (Finset.mem_biUnion.mpr ⟨t, Finset.mem_univ t, ?_⟩)
    exact Option.mem_toFinset.mpr ht

/-- In every run, until `destroyQueue` has the lock, each live node is either on the chain or
held by exactly one thread, and no step frees or reads a node that is not live. Once no call is
in progress the live nodes are the queued ones. -/
theorem queue_nodes_accounted {size : Int32} {tr : List (Label T D)} {s : State T D}
    (h : exec step (createQueue size) tr = some s) (he : entered s = false) :
    ∃ as, Accounted s as ∧ s.size = as.length ∧
      ((∀ t, s.pc t = .outside) → ∀ a, (s.mem a).isSome = true ↔ a ∈ as) := by
  obtain ⟨as, hr, ho, hn⟩ := run_noLeak h he
  have hacc := accounted_of hr ho hn
  refine ⟨as, hacc, hr.size, fun hout a => (hacc.live_iff a).trans ?_⟩
  simp [hout, Pc.owned, Pc.newNode]

theorem queue_nodes_accounted_handOver :
    ∃ s, exec step (createQueue 1) handOver = some s ∧
      ∃ as, Accounted s as ∧ s.size = as.length := by
  obtain ⟨s, hs, hp⟩ := exec_exists step (createQueue 1) handOver
    (fun s => decide (entered s = false)) (by decide)
  obtain ⟨as, hacc, hsize, -⟩ := queue_nodes_accounted hs (of_decide_eq_true hp)
  exact ⟨s, hs, as, hacc, hsize⟩

end Cexp.BlockingQueue
