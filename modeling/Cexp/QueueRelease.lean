import Cexp.QueueDestroy

/-! What `destroyQueue` releases when it runs alone: its loop steps to the next node and then
frees through the same pointer, so it frees the node it is about to read. -/

namespace Cexp.BlockingQueue

open Transition LinkedChain

variable {T D : Type}

inductive Freed where
  | node (a : Addr)
  | queue
  deriving DecidableEq, Repr

/-- What a step of `destroyQueue` gives to `free`; `free(NULL)` frees nothing. -/
def destroyFrees (s : State T D) (junk : Option Addr) : List Freed :=
  match s.destroyer with
  | .freeNodes =>
    match s.front with
    | none => []
    | some a =>
      match s.mem a with
      | none => junk.toList.map .node
      | some n => n.next.toList.map .node
  | .freeQueue => [.queue]
  | _ => []

/-- The node whose `next` field a step of `destroyQueue` reads. -/
def destroyReads (s : State T D) : Option Addr :=
  match s.destroyer with
  | .freeNodes => s.front
  | _ => none

variable [DecidableEq T]

/-- `destroyQueue` returns, having freed each of the nodes `as` once, and the queue, and it
reads no node that it has freed. -/
structure ReleasesChain (s : State T D) (as : List Addr) : Prop where
  terminates : ∃ n, ∀ junks, (exec destroyStep s junks).isSome = true → junks.length ≤ n
  frees : ∀ junks t, exec destroyStep s junks = some t → t.destroyer = .returned →
    (outputs destroyStep destroyFrees s junks).Perm (.queue :: as.map .node)
  reads : ∀ junks t a, exec destroyStep s junks = some t → destroyReads t = some a →
    .node a ∉ outputs destroyStep destroyFrees s junks

/-- The operations of `destroyQueue` that are still to come when the chain is empty. -/
def DestroyPc.left : DestroyPc → Nat
  | .notCalled => 8
  | .enter => 7
  | .wakeNotEmpty => 6
  | .wakeNotFull => 5
  | .freeNodes => 4
  | .freeQueue => 3
  | .leave => 2
  | .delete => 1
  | .returned => 0

/-- `destroyQueue` on an empty chain, with what it has freed. -/
structure EmptyRelease (h : List Freed) (s : State T D) : Prop where
  front : s.front = none
  history : h = if freed s then [.queue] else []

theorem EmptyRelease.step {h : List Freed} {s t : State T D} {junk : Option Addr}
    (hI : EmptyRelease h s) (hs : destroyStep s junk = some t) :
    EmptyRelease (h ++ destroyFrees s junk) t ∧ t.destroyer.left + 1 = s.destroyer.left := by
  obtain ⟨hf, rfl⟩ := hI
  cases hd : s.destroyer <;> simp only [destroyStep, hd] at hs
  case enter =>
    split at hs
    case isFalse => cases hs
    case isTrue =>
      obtain rfl := Option.some.inj hs
      exact ⟨⟨hf, by simp [freed, destroyFrees, hd]⟩, rfl⟩
  case freeNodes =>
    split at hs
    case h_1 =>
      obtain rfl := Option.some.inj hs
      exact ⟨⟨hf, by simp [freed, destroyFrees, hd, hf]⟩, rfl⟩
    case h_2 a ha => simp [hf] at ha
  case returned => cases hs
  all_goals
    obtain rfl := Option.some.inj hs
    exact ⟨⟨hf, by simp [freed, destroyFrees, hd]⟩, rfl⟩

theorem EmptyRelease.length_le {h : List Freed} {s t : State T D} {junks : List (Option Addr)}
    (hI : EmptyRelease h s) (hs : exec destroyStep s junks = some t) :
    junks.length + t.destroyer.left = s.destroyer.left := by
  induction junks generalizing h s with
  | nil =>
    obtain rfl := Option.some.inj hs
    simp
  | cons junk junks ih =>
    obtain ⟨u, hu, ht⟩ := exec_cons.mp hs
    obtain ⟨hI', hleft⟩ := hI.step hu
    have := ih hI' ht
    rw [List.length_cons]
    omega

theorem releasesChain_nil {s : State T D} (hf : s.front = none) (hd : s.destroyer = .notCalled) :
    ReleasesChain s [] := by
  have h0 : EmptyRelease [] s := ⟨hf, by simp [freed, hd]⟩
  have hrun {junks : List (Option Addr)} {t : State T D} (ht : exec destroyStep s junks = some t) :
      EmptyRelease (outputs destroyStep destroyFrees s junks) t :=
    exec_history destroyFrees (fun _ _ _ _ hI hs => (hI.step hs).1) h0 ht
  refine ⟨⟨8, fun junks hj => ?_⟩, fun junks t ht hr => ?_, fun junks t a ht ha => ?_⟩
  · obtain ⟨t, ht⟩ := Option.isSome_iff_exists.mp hj
    have hlen := h0.length_le ht
    rw [hd] at hlen
    have h8 : DestroyPc.notCalled.left = 8 := rfl
    omega
  · rw [(hrun ht).history]
    simp [freed, hr]
  · have hnone : destroyReads t = none := by
      unfold destroyReads
      split
      · exact (hrun ht).front
      · rfl
    simp [hnone] at ha

theorem exec_to_loop {s : State T D} (hl : s.lock = none) (hd : s.destroyer = .notCalled) :
    ∃ u, exec destroyStep s (List.replicate 4 none) = some u ∧
      outputs destroyStep destroyFrees s (List.replicate 4 none) = [] ∧
      u.destroyer = .freeNodes ∧ u.front = s.front ∧ u.mem = s.mem := by
  refine ⟨{ s with
    stop := true
    lock := some .destroyer
    pc := fun t => wakeAll .notFull (wakeAll .notEmpty (s.pc t))
    destroyer := .freeNodes }, ?_, ?_, rfl, rfl, rfl⟩
  · simp [List.replicate, exec, destroyStep, hd, hl]
  · simp [List.replicate, outputs, destroyStep, destroyFrees, hd, hl]

/-- The node behind the first one is freed and then read. -/
theorem not_reads_of_two {s : State T D} {a b : Addr} {as : List Addr}
    (hc : Chain QueueNode.next s.mem s.front (a :: b :: as)) (hl : s.lock = none)
    (hd : s.destroyer = .notCalled) : ¬ ReleasesChain s (a :: b :: as) := by
  intro h
  obtain ⟨hfront, n, hn, hnext, -⟩ := hc
  obtain ⟨u, hu, hnone, hpc, hf, hm⟩ := exec_to_loop hl hd
  have hstep : destroyStep u none = some { u with
      front := n.next, mem := freeNode u.mem n.next } := by
    simp [destroyStep, hpc, hf, hfront, hm, hn]
  have hfrees : destroyFrees u none = [.node b] := by
    simp [destroyFrees, hpc, hf, hfront, hm, hn, hnext]
  have hrun := exec_append.mpr ⟨u, hu, exec_cons.mpr ⟨_, hstep, exec_nil _⟩⟩
  refine h.reads _ _ b hrun ?_ ?_
  · simp [destroyReads, hpc, hnext]
  · rw [outputs_append hu, hnone, outputs_cons hstep, hfrees]
    simp

theorem exec_from_loop {s : State T D} (hf : s.front = none) (hd : s.destroyer = .freeNodes) :
    ∃ u, exec destroyStep s (List.replicate 4 none) = some u ∧
      outputs destroyStep destroyFrees s (List.replicate 4 none) = [.queue] ∧
      u.destroyer = .returned := by
  refine ⟨{ s with lock := none, destroyer := .returned }, ?_, ?_, rfl⟩
  · simp [List.replicate, exec, destroyStep, hd, hf]
  · simp [List.replicate, outputs, destroyStep, destroyFrees, hd, hf]

/-- A single node is stepped over and `free` is given NULL in its place. -/
theorem not_frees_of_one {s : State T D} {a : Addr} (hc : Chain QueueNode.next s.mem s.front [a])
    (hl : s.lock = none) (hd : s.destroyer = .notCalled) : ¬ ReleasesChain s [a] := by
  intro h
  obtain ⟨hfront, n, hn, hnext⟩ := hc
  have hnext : n.next = none := hnext
  obtain ⟨u, hu, hnone, hpc, hf, hm⟩ := exec_to_loop hl hd
  have hstep : destroyStep u none = some { u with front := none } := by
    simp [destroyStep, hpc, hf, hfront, hm, hn, hnext, freeNode]
  have hfrees : destroyFrees u none = [] := by
    simp [destroyFrees, hpc, hf, hfront, hm, hn, hnext]
  obtain ⟨v, hv, hqueue, hret⟩ := exec_from_loop (s := { u with front := none }) rfl hpc
  have hrun := exec_append.mpr ⟨u, hu, exec_cons.mpr ⟨_, hstep, hv⟩⟩
  have hperm := (h.frees _ v hrun hret).length_eq
  rw [outputs_append hu, hnone, outputs_cons hstep, hfrees, hqueue] at hperm
  simp at hperm

/-- `destroyQueue` releases the chain exactly if there is nothing on it. -/
theorem destroyQueue_releases_iff {s : State T D} {as : List Addr} (hr : Rep s as)
    (hl : s.lock = none) (hd : s.destroyer = .notCalled) : ReleasesChain s as ↔ as = [] := by
  constructor
  · intro h
    match as, hr.chain with
    | [], _ => rfl
    | [a], hc => exact absurd h (not_frees_of_one hc hl hd)
    | a :: b :: as, hc => exact absurd h (not_reads_of_two hc hl hd)
  · rintro rfl
    exact releasesChain_nil (chain_nil.mp hr.chain) hd

theorem destroyQueue_releases_iff_created :
    ReleasesChain (createQueue 2 : State Role Nat) [] :=
  (destroyQueue_releases_iff (rep_createQueue 2) rfl rfl).mpr rfl

/-- A queue with one item. -/
def oneItem : State Role Nat :=
  { createQueue 2 with
    front := some 0
    rear := some 0
    size := 1
    mem := fun a => if a = 0 then some ⟨7, 0, none⟩ else none }

/-- The node of the item is never freed. -/
theorem destroyQueue_leaks_last : ¬ ∀ (s : State Role Nat) (as : List Addr), Rep s as →
    s.lock = none → (∀ t, s.pc t = .outside) → s.destroyer = .notCalled →
      ReleasesChain s as := by
  intro h
  have hr : Rep oneItem [0] := ⟨⟨rfl, ⟨7, 0, none⟩, rfl, rfl⟩, rfl, rfl⟩
  exact not_frees_of_one hr.chain rfl rfl (h oneItem [0] hr rfl (fun _ => rfl) rfl)

end Cexp.BlockingQueue
