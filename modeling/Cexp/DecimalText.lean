import Mathlib

/-! Decimal text in C: what `%d` prints, and what `atoi` reads back. -/

namespace DecimalText

/-- `%d`. -/
def ofInt (n : Int) : List Char :=
  if n < 0 then '-' :: Nat.toDigits 10 n.natAbs else Nat.toDigits 10 n.natAbs

def isSpace (c : Char) : Bool := c = ' ' || (9 ≤ c.toNat && c.toNat ≤ 13)

/-- The value of the digits a text begins with. -/
def digits (l : List Char) : Nat := Nat.ofDigitChars 10 (l.takeWhile Char.isDigit) 0

def signed : List Char → Int
  | '-' :: l => -(digits l : Int)
  | '+' :: l => digits l
  | l => digits l

/-- Space is skipped, and what does not fit an `int` becomes the nearest value that does. -/
def atoi (l : List Char) : Int :=
  max (-2147483648) (min 2147483647 (signed (l.dropWhile isSpace)))

theorem isDigit_toDigits {n : Nat} {c : Char} (h : c ∈ Nat.toDigits 10 n) : c.isDigit = true :=
  Nat.isDigit_of_mem_toDigits (by decide) (by decide) h

theorem digits_toDigits (n : Nat) : digits (Nat.toDigits 10 n) = n := by
  rw [digits, List.takeWhile_eq_self_iff.mpr fun c hc => isDigit_toDigits hc]
  exact Nat.ofDigitChars_ten_toDigits

theorem toNat_of_isDigit {c : Char} (h : c.isDigit = true) : 48 ≤ c.toNat ∧ c.toNat ≤ 57 := by
  simp only [Char.isDigit, Bool.and_eq_true, decide_eq_true_eq, ge_iff_le,
    UInt32.le_iff_toNat_le] at h
  exact h

theorem signed_of_isDigit {c : Char} (h : c.isDigit = true) (l : List Char) :
    signed (c :: l) = digits (c :: l) := by
  unfold signed
  split
  case h_1 he =>
    obtain ⟨rfl, -⟩ := List.cons.inj he
    exact absurd h (by decide)
  case h_2 he =>
    obtain ⟨rfl, -⟩ := List.cons.inj he
    exact absurd h (by decide)
  case h_3 => rfl

theorem isSpace_of_isDigit {c : Char} (h : c.isDigit = true) : isSpace c = false := by
  have hd := toNat_of_isDigit h
  have hne : c ≠ ' ' := by
    rintro rfl
    cases h
  simp [isSpace, hne]
  omega

/-- The sign and the digits, with no space before them. -/
theorem ofInt_head (n : Int) : ∃ c l, ofInt n = c :: l ∧ isSpace c = false ∧
    signed (c :: l) = n := by
  obtain ⟨c, l, he⟩ := List.exists_cons_of_ne_nil (Nat.toDigits_ne_nil (b := 10) (n := n.natAbs))
  have hc : c.isDigit = true := isDigit_toDigits (n := n.natAbs) (he ▸ List.mem_cons_self)
  have hval : digits (c :: l) = n.natAbs := by rw [← he, digits_toDigits]
  by_cases hn : n < 0
  · refine ⟨'-', c :: l, by rw [ofInt, if_pos hn, he], by decide, ?_⟩
    change -(digits (c :: l) : Int) = n
    rw [hval]
    omega
  · refine ⟨c, l, by rw [ofInt, if_neg hn, he], isSpace_of_isDigit hc, ?_⟩
    rw [signed_of_isDigit hc, hval]
    omega

theorem atoi_ofInt {n : Int} (hl : -2147483648 ≤ n) (hr : n ≤ 2147483647) :
    atoi (ofInt n) = n := by
  obtain ⟨c, l, he, hspace, hs⟩ := ofInt_head n
  rw [atoi, he, List.dropWhile_cons_of_neg (by simp [hspace]), hs]
  omega

theorem mem_ofInt {n : Int} {c : Char} (h : c ∈ ofInt n) : c = '-' ∨ c.isDigit = true := by
  unfold ofInt at h
  split at h
  · exact (List.mem_cons.mp h).imp_right isDigit_toDigits
  · exact Or.inr (isDigit_toDigits h)

theorem length_ofInt_le {n : Int} {k : Nat} (hk : 0 < k) (h : n.natAbs < 10 ^ k) :
    (ofInt n).length ≤ k + 1 := by
  have hdigits := (Nat.length_toDigits_le_iff (by decide) hk).mpr h
  unfold ofInt
  split
  · exact Nat.succ_le_succ hdigits
  · exact hdigits.trans (Nat.le_succ k)

end DecimalText
