import Mathlib

/-! Null-terminated singly linked chains in a memory of nodes, with the effect
on them of linking a node at the end and of unlinking the first one. -/

namespace LinkedChain

variable {α ν : Type*}

/-- `Chain next mem p as`: following `next` from `p` visits exactly the live
addresses `as` and ends in NULL. -/
def Chain (next : ν → Option α) (mem : α → Option ν) : Option α → List α → Prop
  | p, [] => p = none
  | p, a :: as => p = some a ∧ ∃ n, mem a = some n ∧ Chain next mem (next n) as

def contents {δ : Type*} (data : ν → δ) (mem : α → Option ν) (as : List α) : List δ :=
  as.filterMap fun a => (mem a).map data

variable {next : ν → Option α} {mem mem' : α → Option ν} {p : Option α} {as bs : List α}

@[simp] theorem chain_nil : Chain next mem p [] ↔ p = none := Iff.rfl

theorem chain_cons {a : α} : Chain next mem p (a :: as) ↔
    p = some a ∧ ∃ n, mem a = some n ∧ Chain next mem (next n) as := Iff.rfl

theorem Chain.head_eq (h : Chain next mem p as) : p = as.head? := by
  cases as with
  | nil => exact h
  | cons a as => exact h.1

theorem Chain.eq_none_iff (h : Chain next mem p as) : p = none ↔ as = [] := by
  rw [h.head_eq, List.head?_eq_none_iff]

theorem Chain.unique (h : Chain next mem p as) (h' : Chain next mem p bs) : as = bs := by
  induction as generalizing p bs with
  | nil =>
    cases bs with
    | nil => rfl
    | cons b bs => simp [chain_nil.mp h, chain_cons] at h'
  | cons a as ih =>
    obtain ⟨rfl, n, hn, hc⟩ := h
    cases bs with
    | nil => simp at h'
    | cons b bs =>
      obtain ⟨he, m, hm, hc'⟩ := h'
      obtain rfl := Option.some.inj he
      obtain rfl := Option.some.inj (hn.symm.trans hm)
      rw [ih hc hc']

theorem Chain.live (h : Chain next mem p as) {a : α} (ha : a ∈ as) : ∃ n, mem a = some n := by
  induction as generalizing p with
  | nil => simp at ha
  | cons b as ih =>
    obtain ⟨_, n, hn, hc⟩ := h
    rcases List.mem_cons.mp ha with rfl | ha
    · exact ⟨n, hn⟩
    · exact ih hc ha

theorem Chain.suffix (h : Chain next mem p (as ++ bs)) : ∃ q, Chain next mem q bs := by
  induction as generalizing p with
  | nil => exact ⟨p, h⟩
  | cons a as ih => exact ih h.2.choose_spec.2

theorem Chain.last_next (h : Chain next mem p as) {a : α} (ha : as.getLast? = some a) :
    ∃ n, mem a = some n ∧ next n = none := by
  obtain ⟨pre, rfl⟩ := List.getLast?_eq_some_iff.mp ha
  obtain ⟨q, _, n, hn, hnil⟩ := h.suffix
  exact ⟨n, hn, hnil⟩

/-- A chain that ends in NULL has no cycle: the tails from two visits of one
address would be the same tail. -/
theorem Chain.nodup (h : Chain next mem p as) : as.Nodup := by
  induction as generalizing p with
  | nil => exact List.nodup_nil
  | cons a as ih =>
    have hc := h.2.choose_spec.2
    refine List.nodup_cons.mpr ⟨fun ha => ?_, ih hc⟩
    obtain ⟨pre, post, rfl⟩ := List.append_of_mem ha
    obtain ⟨q, hq⟩ := hc.suffix
    have hp : q = p := hq.1.trans h.1.symm
    have he := congrArg List.length ((hp ▸ hq).unique h)
    simp only [List.length_cons, List.length_append] at he
    omega

theorem Chain.congr (h : Chain next mem p as) (hm : ∀ a ∈ as, mem' a = mem a) :
    Chain next mem' p as := by
  induction as generalizing p with
  | nil => exact h
  | cons a as ih =>
    obtain ⟨hp, n, hn, hc⟩ := h
    exact ⟨hp, n, (hm a (by simp)).trans hn, ih hc fun b hb => hm b (by simp [hb])⟩

theorem Chain.length_contents {δ : Type*} (data : ν → δ) (h : Chain next mem p as) :
    (contents data mem as).length = as.length := by
  induction as generalizing p with
  | nil => rfl
  | cons a as ih =>
    obtain ⟨_, n, hn, hc⟩ := h
    have hhead : contents data mem (a :: as) = data n :: contents data mem as := by
      simp [contents, hn]
    rw [hhead, List.length_cons, List.length_cons, ih hc]

theorem contents_congr {δ : Type*} {data : ν → δ} (hm : ∀ a ∈ as, mem' a = mem a) :
    contents data mem' as = contents data mem as :=
  List.filterMap_congr fun a ha => by rw [hm a ha]

theorem chain_singleton {a : α} {n : ν} (hn : mem a = some n) (hnext : next n = none) :
    Chain next mem (some a) [a] := ⟨rfl, n, hn, hnext⟩

/-- Redirecting the last node of a chain to a node that ends in NULL and is not
on the chain appends that node. -/
theorem Chain.link [DecidableEq α] {a b : α} {n' m : ν} (h : Chain next mem p (as ++ [a]))
    (hn' : next n' = some b) (hb : mem b = some m) (hm : next m = none)
    (hmem : b ∉ as ++ [a]) : Chain next (Function.update mem a (some n')) p (as ++ [a, b]) := by
  have hnd := h.nodup
  induction as generalizing p with
  | nil =>
    have hba : b ≠ a := by simpa using hmem
    exact ⟨h.1, n', by simp, hn', m, by simp [hba, hb], hm⟩
  | cons c as ih =>
    obtain ⟨hp, k, hk, hc⟩ := h
    have hnd' := List.nodup_cons.mp hnd
    have hca : c ≠ a := fun e => hnd'.1 (by simp [e])
    refine ⟨hp, k, by simp [hca, hk], ih hc (fun e => hmem ?_) hnd'.2⟩
    exact List.mem_cons_of_mem _ e

theorem contents_link {δ : Type*} [DecidableEq α] (data : ν → δ) {a b : α} {n n' m : ν}
    (hn : mem a = some n) (hd : data n' = data n) (hb : mem b = some m)
    (hmem : b ∉ as ++ [a]) :
    contents data (Function.update mem a (some n')) (as ++ [a, b]) =
      contents data mem (as ++ [a]) ++ [data m] := by
  have hba : b ≠ a := fun e => hmem (by simp [e])
  have hcongr : as.filterMap (fun c => (Function.update mem a (some n') c).map data) =
      as.filterMap (fun c => (mem c).map data) := by
    apply List.filterMap_congr
    intro c _
    by_cases hca : c = a
    · subst c
      simp [hn, hd]
    · simp [hca]
  simp [contents, hcongr, hba, hb, hn, hd]

theorem Chain.unlink {a : α} {n : ν} (h : Chain next mem (some a) as) (hn : mem a = some n) :
    ∃ bs, as = a :: bs ∧ Chain next mem (next n) bs := by
  cases as with
  | nil => simp at h
  | cons b bs =>
    obtain ⟨hb, m, hm, hc⟩ := h
    obtain rfl := Option.some.inj hb
    obtain rfl := Option.some.inj (hn.symm.trans hm)
    exact ⟨bs, rfl, hc⟩

end LinkedChain
