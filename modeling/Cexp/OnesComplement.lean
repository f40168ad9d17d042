import Mathlib

/-! The one's-complement sum of 16-bit words with its end-around carry, and byte sequences
read as words in either order. -/

namespace OnesComplement

/-- One's-complement addition of two 16-bit words: a carry out of the top comes back in. -/
def addCarry (a b : Nat) : Nat :=
  if a + b < 65536 then a + b else a + b - 65535

def sum16 (ws : List Nat) : Nat := ws.foldl addCarry 0

/-- The 16-bit number that repeated end-around carry leaves of a total. -/
def folded (n : Nat) : Nat :=
  if n = 0 then 0 else (n - 1) % 65535 + 1

theorem folded_le (n : Nat) : folded n ≤ 65535 := by
  unfold folded
  split_ifs <;> omega

theorem addCarry_folded {n w : Nat} (hw : w < 65536) :
    addCarry (folded n) w = folded (n + w) := by
  unfold addCarry folded
  split_ifs <;> omega

theorem sum16_eq {ws : List Nat} (h : ∀ w ∈ ws, w < 65536) : sum16 ws = folded ws.sum := by
  have hh (n : Nat) : ws.foldl addCarry (folded n) = folded (n + ws.sum) := by
    induction ws generalizing n with
    | nil => rfl
    | cons w ws ih =>
      rw [List.foldl_cons, addCarry_folded (h w (by simp)),
        ih (fun v hv => h v (by simp [hv])), List.sum_cons, Nat.add_assoc]
  simpa [sum16, folded] using hh 0

theorem folded_add_complement (n : Nat) : folded (n + (65535 - folded n)) = 65535 := by
  have := folded_le n
  unfold folded at *
  split_ifs at * <;> omega

theorem folded_add_mul {n : Nat} (hn : 0 < n) (k : Nat) : folded (n + 65535 * k) = folded n := by
  have he : n + 65535 * k - 1 = n - 1 + 65535 * k := by omega
  have h1 : n + 65535 * k ≠ 0 := by omega
  simp only [folded, h1, hn.ne', if_false, he, Nat.add_mul_mod_self_left]

theorem fold_twice {n : Nat} (h : n < 4294967296) :
    (n / 65536 + n % 65536 + (n / 65536 + n % 65536) / 65536) % 65536 = folded n := by
  obtain ⟨k, s, hk, hn, hs⟩ : ∃ k s, k ≤ 65535 ∧ n = s + 65535 * k ∧
      n / 65536 + n % 65536 = s := ⟨n / 65536, n / 65536 + n % 65536, by omega, by omega, rfl⟩
  have hle : s ≤ 131070 := by omega
  rw [hs]
  by_cases hz : s = 0
  · have hn0 : n = 0 := by omega
    simp [hz, hn0, folded]
  · rw [hn, folded_add_mul (by omega), folded, if_neg hz]
    rcases Nat.lt_or_ge s 65536 with hlt | hge
    · have hd : s / 65536 = 0 := by omega
      have hm : (s - 1) % 65535 = s - 1 := by omega
      omega
    · have hd : s / 65536 = 1 := by omega
      have hm : (s - 1) % 65535 = s - 65536 := by omega
      omega

/-- Big-endian words, the last byte of an odd number padded with zero. -/
def wordsBE : List (BitVec 8) → List Nat
  | a :: b :: l => (256 * a.toNat + b.toNat) :: wordsBE l
  | [a] => [256 * a.toNat]
  | [] => []

/-- Little-endian words, a trailing byte counting as the low byte of a word. -/
def wordsLE : List (BitVec 8) → List Nat
  | a :: b :: l => (a.toNat + 256 * b.toNat) :: wordsLE l
  | [a] => [a.toNat]
  | [] => []

def sumBE (l : List (BitVec 8)) : Nat := sum16 (wordsBE l)

def swapPairs {β : Type*} : List β → List β
  | a :: b :: l => b :: a :: swapPairs l
  | l => l

def padEven (l : List (BitVec 8)) : List (BitVec 8) :=
  if l.length % 2 = 0 then l else l ++ [0]

theorem wordsBE_lt {l : List (BitVec 8)} : ∀ w ∈ wordsBE l, w < 65536 := by
  induction l using wordsBE.induct with
  | case1 a b l ih =>
    intro w hw
    rcases List.mem_cons.mp hw with rfl | hw
    · omega
    · exact ih w hw
  | case2 a =>
    intro w hw
    rw [List.mem_singleton.mp hw]
    omega
  | case3 => simp [wordsBE]

theorem wordsLE_lt {l : List (BitVec 8)} : ∀ w ∈ wordsLE l, w < 65536 := by
  induction l using wordsLE.induct with
  | case1 a b l ih =>
    intro w hw
    rcases List.mem_cons.mp hw with rfl | hw
    · omega
    · exact ih w hw
  | case2 a =>
    intro w hw
    rw [List.mem_singleton.mp hw]
    omega
  | case3 => simp [wordsLE]

theorem sumBE_eq (l : List (BitVec 8)) : sumBE l = folded (wordsBE l).sum := sum16_eq wordsBE_lt

theorem wordsLE_sum_le (l : List (BitVec 8)) :
    (wordsLE l).sum ≤ 65535 * ((l.length + 1) / 2) := by
  induction l using wordsLE.induct with
  | case1 a b l ih =>
    simp only [wordsLE, List.sum_cons, List.length_cons]
    omega
  | case2 a =>
    simp only [wordsLE, List.sum_cons, List.sum_nil, List.length_cons, List.length_nil]
    omega
  | case3 => simp [wordsLE]

theorem wordsBE_append {l m : List (BitVec 8)} (h : l.length % 2 = 0) :
    wordsBE (l ++ m) = wordsBE l ++ wordsBE m := by
  induction l using wordsBE.induct with
  | case1 a b l ih =>
    have hl : l.length % 2 = 0 := by
      simp only [List.length_cons] at h
      omega
    simp only [List.cons_append, wordsBE, ih hl]
  | case2 a => simp at h
  | case3 => rfl

theorem swapPairs_append {β : Type*} {l m : List β} (h : l.length % 2 = 0) :
    swapPairs (l ++ m) = swapPairs l ++ swapPairs m := by
  induction l using swapPairs.induct with
  | case1 a b l ih =>
    have hl : l.length % 2 = 0 := by
      simp only [List.length_cons] at h
      omega
    simp only [List.cons_append, swapPairs, ih hl]
  | case2 l hl =>
    cases l with
    | nil => rfl
    | cons a l =>
      cases l with
      | nil => simp at h
      | cons b l => exact absurd rfl (hl a b l)

theorem length_swapPairs {β : Type*} (l : List β) : (swapPairs l).length = l.length := by
  induction l using swapPairs.induct with
  | case1 a b l ih => simp only [swapPairs, List.length_cons, ih]
  | case2 l hl => rw [swapPairs]; exact hl

theorem wordsLE_swapPairs {l : List (BitVec 8)} (h : l.length % 2 = 0) :
    wordsLE (swapPairs l) = wordsBE l := by
  induction l using wordsBE.induct with
  | case1 a b l ih =>
    have hl : l.length % 2 = 0 := by
      simp only [List.length_cons] at h
      omega
    simp only [swapPairs, wordsLE, wordsBE, ih hl, Nat.add_comm]
  | case2 a => simp at h
  | case3 => rfl

theorem padEven_length (l : List (BitVec 8)) : (padEven l).length % 2 = 0 := by
  unfold padEven
  split_ifs
  case pos h => exact h
  case neg h =>
    rw [List.length_append, List.length_singleton]
    omega

theorem wordsBE_padEven (l : List (BitVec 8)) : wordsBE (padEven l) = wordsBE l := by
  unfold padEven
  split_ifs
  case pos => rfl
  case neg h =>
    induction l using wordsBE.induct with
    | case1 a b l ih =>
      have hl : ¬ l.length % 2 = 0 := by
        simp only [List.length_cons] at h
        omega
      simp only [List.cons_append, wordsBE, ih hl]
    | case2 a => simp [wordsBE]
    | case3 => simp at h

/-- A 16-bit number with its two bytes exchanged. -/
def swapBytes (n : Nat) : Nat := 256 * (n % 256) + n / 256

theorem swapBytes_complement {n : Nat} (h : n ≤ 65535) :
    swapBytes (65535 - n) = 65535 - swapBytes n := by
  unfold swapBytes
  omega

theorem folded_of_congr {n s k : Nat} (hs : 0 < s) (hle : s ≤ 65535) (h : n = s + 65535 * k) :
    folded n = s := by
  rw [h, folded_add_mul hs, folded, if_neg hs.ne']
  omega

/-- Exchanging the bytes multiplies by 256, up to a multiple of 65535. -/
theorem wordsLE_sum_swapPairs {l : List (BitVec 8)} (h : l.length % 2 = 0) :
    ∃ k, 256 * (wordsLE l).sum = (wordsLE (swapPairs l)).sum + 65535 * k := by
  induction l using wordsLE.induct with
  | case1 a b l ih =>
    simp only [List.length_cons] at h
    obtain ⟨k, hk⟩ := ih (by omega)
    refine ⟨k + b.toNat, ?_⟩
    simp only [wordsLE, swapPairs, List.sum_cons]
    omega
  | case2 a => simp at h
  | case3 => exact ⟨0, rfl⟩

theorem swapPairs_swapPairs {β : Type*} (l : List β) : swapPairs (swapPairs l) = l := by
  induction l using swapPairs.induct with
  | case1 a b l ih => rw [swapPairs, swapPairs, ih]
  | case2 l hl => rw [swapPairs.eq_2 l hl, swapPairs.eq_2 l hl]

/-- The one's-complement sum does not depend on the byte order, but for the order of its own
two bytes: of two totals each of which is 256 times the other, folding leaves each the other's
swap. -/
theorem folded_swapBytes {a b k l : Nat} (hab : 256 * a = b + 65535 * k)
    (hba : 256 * b = a + 65535 * l) : folded b = swapBytes (folded a) := by
  by_cases hz : a = 0
  · have hb : b = 0 := by omega
    simp [hz, hb, folded, swapBytes]
  · obtain ⟨f, m, hf0, hf1, hfa, ha⟩ : ∃ f m, 0 < f ∧ f ≤ 65535 ∧ folded a = f ∧
        a = f + 65535 * m :=
      ⟨folded a, (a - 1) / 65535, by rw [folded, if_neg hz]; omega, folded_le a, rfl, by
        rw [folded, if_neg hz]; omega⟩
    have hswap : 256 * f = swapBytes f + 65535 * (f / 256) := by
      unfold swapBytes
      omega
    have hpos : 0 < swapBytes f := by
      unfold swapBytes
      omega
    have hle : swapBytes f ≤ 65535 := by
      unfold swapBytes
      omega
    -- `b` is positive and differs from the swapped sum by a multiple of 65535.
    have hbpos : 0 < b := by omega
    have hge : swapBytes f ≤ b := by omega
    rw [hfa]
    exact folded_of_congr hpos hle (k := (b - swapBytes f) / 65535) (by omega)

theorem sum16_swapPairs {l : List (BitVec 8)} (h : l.length % 2 = 0) :
    sum16 (wordsLE (swapPairs l)) = swapBytes (sum16 (wordsLE l)) := by
  obtain ⟨k, hk⟩ := wordsLE_sum_swapPairs h
  obtain ⟨m, hm⟩ := wordsLE_sum_swapPairs (l := swapPairs l) (by rwa [length_swapPairs])
  rw [swapPairs_swapPairs] at hm
  rw [sum16_eq wordsLE_lt, sum16_eq wordsLE_lt]
  exact folded_swapBytes hk hm

theorem wordsLE_padEven (l : List (BitVec 8)) : wordsLE (padEven l) = wordsLE l := by
  unfold padEven
  split
  case isTrue => rfl
  case isFalse h =>
    induction l using wordsLE.induct with
    | case1 a b l ih =>
      simp only [List.length_cons] at h
      rw [List.cons_append, List.cons_append, wordsLE, wordsLE, ih (by omega)]
    | case2 a => simp [wordsLE]
    | case3 => simp at h

theorem length_padEven (l : List (BitVec 8)) :
    (padEven l).length = (l.length + 1) >>> 1 <<< 1 := by
  rw [Nat.shiftLeft_eq, Nat.shiftRight_eq_div_pow, padEven]
  split_ifs
  · omega
  · rw [List.length_append, List.length_singleton]
    omega

theorem padEven_append {l : List (BitVec 8)} (h : l.length % 2 = 0) (m : List (BitVec 8)) :
    padEven (l ++ m) = l ++ padEven m := by
  have hlen : (l ++ m).length % 2 = m.length % 2 := by
    rw [List.length_append]
    omega
  unfold padEven
  rw [hlen]
  split
  · rfl
  · rw [List.append_assoc]

theorem sumBE_eq_swapBytes (l : List (BitVec 8)) : sumBE l = swapBytes (sum16 (wordsLE l)) := by
  have heven := padEven_length l
  rw [sumBE, ← wordsBE_padEven, ← wordsLE_swapPairs heven, sum16_swapPairs heven, wordsLE_padEven]

/-- The complement of a part of a total makes up for the whole if what is left out is a multiple
of 65535. -/
theorem folded_add_complement_iff (n d : Nat) :
    folded (n + d + (65535 - folded n)) = 65535 ↔ d % 65535 = 0 := by
  have := folded_le n
  unfold folded at *
  split_ifs at * <;> omega

theorem folded_mod (n : Nat) : folded n % 65535 = n % 65535 := by
  unfold folded
  split_ifs <;> omega

/-- Another byte changes the total by its difference, once or 256 times. -/
theorem wordsBE_sum_set {l : List (BitVec 8)} {i : Nat} (hi : i < l.length) (b : BitVec 8) :
    ∃ k, (k = 1 ∨ k = 256) ∧
      (wordsBE (l.set i b)).sum + k * l[i].toNat = (wordsBE l).sum + k * b.toNat := by
  induction l using wordsBE.induct generalizing i with
  | case1 x y l ih =>
    rcases i with _ | _ | i
    · refine ⟨256, Or.inr rfl, ?_⟩
      simp only [List.set_cons_zero, wordsBE, List.sum_cons, List.getElem_cons_zero]
      omega
    · refine ⟨1, Or.inl rfl, ?_⟩
      simp only [List.set_cons_succ, List.set_cons_zero, wordsBE, List.sum_cons,
        List.getElem_cons_succ, List.getElem_cons_zero]
      omega
    · have hi' : i < l.length := by
        simp only [List.length_cons] at hi
        omega
      obtain ⟨k, hk, hsum⟩ := ih hi'
      refine ⟨k, hk, ?_⟩
      simp only [List.set_cons_succ, wordsBE, List.sum_cons, List.getElem_cons_succ]
      omega
  | case2 x =>
    obtain rfl : i = 0 := by simpa using hi
    refine ⟨256, Or.inr rfl, ?_⟩
    simp only [List.set_cons_zero, wordsBE, List.sum_cons, List.sum_nil, List.getElem_cons_zero]
    omega
  | case3 => simp at hi

/-- The sum tells any two sequences apart that differ in one byte. -/
theorem sumBE_set_ne {l : List (BitVec 8)} {i : Nat} (hi : i < l.length) {b : BitVec 8}
    (hb : l[i] ≠ b) : sumBE (l.set i b) ≠ sumBE l := by
  obtain ⟨k, hk, hsum⟩ := wordsBE_sum_set hi b
  have hne : l[i].toNat ≠ b.toNat := fun he => hb (BitVec.eq_of_toNat_eq he)
  intro he
  rw [sumBE_eq, sumBE_eq] at he
  have hmod := folded_mod (wordsBE l).sum
  rw [← he, folded_mod] at hmod
  have h1 := l[i].isLt
  have h2 := b.isLt
  rcases hk with rfl | rfl <;> omega

theorem sumBE_append_set_ne {p l : List (BitVec 8)} {i : Nat} (hi : i < l.length) {b : BitVec 8}
    (hb : l[i] ≠ b) : sumBE (p ++ l.set i b) ≠ sumBE (p ++ l) := by
  have hpi : p.length + i < (p ++ l).length := by
    rw [List.length_append]
    omega
  have hset : (p ++ l).set (p.length + i) b = p ++ l.set i b := by
    rw [List.set_append_right _ _ (by omega), Nat.add_sub_cancel_left]
  rw [← hset]
  exact sumBE_set_ne hpi (by simpa using hb)

end OnesComplement
