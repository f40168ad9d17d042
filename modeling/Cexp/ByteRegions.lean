import Mathlib

/-! Memory as the list of the bytes written to it, in order. What is read back from a log that
writes no address twice, little-endian words in such a memory, and regions laid out back to
back. -/

namespace ByteRegions

variable {β : Type*}

/-- `bs`, written one after another from `p` on. -/
def store : Nat → List β → List (Nat × β)
  | _, [] => []
  | p, b :: bs => (p, b) :: store (p + 1) bs

def addresses (log : List (Nat × β)) : List Nat := log.map Prod.fst

def memory (m : Nat → β) : List (Nat × β) → Nat → β
  | [] => m
  | w :: log => memory (Function.update m w.1 w.2) log

def load (m : Nat → β) (p n : Nat) : List β := (List.range' p n).map m

@[simp] theorem addresses_append (log log' : List (Nat × β)) :
    addresses (log ++ log') = addresses log ++ addresses log' := List.map_append

@[simp] theorem addresses_store (p : Nat) (bs : List β) :
    addresses (store p bs) = List.range' p bs.length := by
  induction bs generalizing p with
  | nil => rfl
  | cons b bs ih => simpa [store, addresses, List.range'_succ] using ih (p + 1)

theorem memory_of_not_mem {m : Nat → β} {log : List (Nat × β)} {a : Nat}
    (h : a ∉ addresses log) : memory m log a = m a := by
  induction log generalizing m with
  | nil => rfl
  | cons w log ih =>
    obtain ⟨hw, hlog⟩ := List.ne_and_not_mem_of_not_mem_cons h
    rw [memory, ih hlog, Function.update_of_ne hw]

/-- With no address written twice, every byte written stays. -/
theorem memory_of_mem {m : Nat → β} {log : List (Nat × β)} {a : Nat} {v : β}
    (hn : (addresses log).Nodup) (h : (a, v) ∈ log) : memory m log a = v := by
  induction log generalizing m with
  | nil => cases h
  | cons w log ih =>
    obtain ⟨hw, hlog⟩ := List.nodup_cons.mp hn
    rcases List.mem_cons.mp h with rfl | h
    · rw [memory, memory_of_not_mem hw, Function.update_self]
    · exact ih hlog h

theorem load_store {m : Nat → β} {log : List (Nat × β)} {p : Nat} {bs : List β}
    (hn : (addresses log).Nodup) (h : store p bs ⊆ log) :
    load (memory m log) p bs.length = bs := by
  induction bs generalizing p with
  | nil => rfl
  | cons b bs ih =>
    obtain ⟨hb, hbs⟩ := List.cons_subset.mp h
    have htail := ih hbs
    rw [load] at htail ⊢
    rw [List.length_cons, List.range'_succ, List.map_cons, memory_of_mem hn hb, htail]

/-- `n`, as `k` bytes with the lowest first. -/
def leBytes : Nat → Nat → List (BitVec 8)
  | 0, _ => []
  | k + 1, n => BitVec.ofNat 8 n :: leBytes k (n / 256)

def leNat : List (BitVec 8) → Nat
  | [] => 0
  | b :: bs => b.toNat + 256 * leNat bs

@[simp] theorem length_leBytes (k n : Nat) : (leBytes k n).length = k := by
  induction k generalizing n with
  | zero => rfl
  | succ k ih => simp [leBytes, ih]

theorem leNat_leBytes {k n : Nat} (h : n < 256 ^ k) : leNat (leBytes k n) = n := by
  induction k generalizing n with
  | zero =>
    have : n = 0 := by simpa using h
    simp [leBytes, leNat, this]
  | succ k ih =>
    have hdiv : n / 256 < 256 ^ k := Nat.div_lt_of_lt_mul (by rwa [Nat.pow_succ'] at h)
    rw [leBytes, leNat, ih hdiv, BitVec.toNat_ofNat]
    omega

/-- The 8-byte word at `p`. -/
def loadWord (m : Nat → BitVec 8) (p : Nat) : Nat := leNat (load m p 8)

theorem loadWord_store {m : Nat → BitVec 8} {log : List (Nat × BitVec 8)} {p n : Nat}
    (hn : (addresses log).Nodup) (h : store p (leBytes 8 n) ⊆ log) (hlt : n < 2 ^ 64) :
    loadWord (memory m log) p = n := by
  have hload := load_store (m := m) hn h
  rw [length_leBytes] at hload
  rw [loadWord, hload, leNat_leBytes (by omega)]

/-- Regions are pairs of an address and a size. -/
def Apart (r s : Nat × Nat) : Prop := r.1 + r.2 ≤ s.1 ∨ s.1 + s.2 ≤ r.1

/-- Each region begins where the one before it ends. -/
def BackToBack : Nat → List (Nat × Nat) → Prop
  | _, [] => True
  | p, r :: rs => r.1 = p ∧ BackToBack (p + r.2) rs

theorem BackToBack.le {p : Nat} {rs : List (Nat × Nat)} (h : BackToBack p rs) {r : Nat × Nat}
    (hr : r ∈ rs) : p ≤ r.1 := by
  induction rs generalizing p with
  | nil => cases hr
  | cons s rs ih =>
    rcases List.mem_cons.mp hr with rfl | hr
    · exact h.1.ge
    · exact (Nat.le_add_right p s.2).trans (ih h.2 hr)

theorem BackToBack.pairwise {p : Nat} {rs : List (Nat × Nat)} (h : BackToBack p rs) :
    rs.Pairwise Apart := by
  induction rs generalizing p with
  | nil => exact List.Pairwise.nil
  | cons r rs ih =>
    refine List.pairwise_cons.mpr ⟨fun s hs => Or.inl ?_, ih h.2⟩
    rw [h.1]
    exact h.2.le hs

end ByteRegions
