import Mathlib

/-! 16- and 32-bit numbers as little-endian bytes, and the exchange of the byte order. -/

namespace ByteOrder

def le16 (b0 b1 : BitVec 8) : BitVec 16 := b0.setWidth 16 ||| (b1.setWidth 16 <<< 8)

def le32 (b0 b1 b2 b3 : BitVec 8) : BitVec 32 :=
  b0.setWidth 32 ||| (b1.setWidth 32 <<< 8) ||| (b2.setWidth 32 <<< 16) |||
    (b3.setWidth 32 <<< 24)

def bytes16 (w : BitVec 16) : List (BitVec 8) := [w.setWidth 8, (w >>> 8).setWidth 8]

def bytes32 (w : BitVec 32) : List (BitVec 8) :=
  [w.setWidth 8, (w >>> 8).setWidth 8, (w >>> 16).setWidth 8, (w >>> 24).setWidth 8]

theorem toNat_le16 (b0 b1 : BitVec 8) : (le16 b0 b1).toNat = b0.toNat + 256 * b1.toNat := by
  have h0 := b0.isLt
  have h1 := b1.isLt
  have hs : b1.toNat <<< 8 < 65536 := by
    rw [Nat.shiftLeft_eq]
    omega
  simp only [le16, BitVec.toNat_or, BitVec.toNat_setWidth, BitVec.toNat_shiftLeft]
  rw [Nat.mod_eq_of_lt (by omega), Nat.mod_eq_of_lt (a := b1.toNat) (by omega),
    Nat.mod_eq_of_lt hs, Nat.or_comm, ← Nat.shiftLeft_add_eq_or_of_lt h0, Nat.shiftLeft_eq]
  omega

theorem toNat_le32 (b0 b1 b2 b3 : BitVec 8) : (le32 b0 b1 b2 b3).toNat =
    b0.toNat + 256 * b1.toNat + 65536 * b2.toNat + 16777216 * b3.toNat := by
  have h0 := b0.isLt
  have h1 := b1.isLt
  have h2 := b2.isLt
  have h3 := b3.isLt
  have hs1 : b1.toNat <<< 8 = 256 * b1.toNat := by rw [Nat.shiftLeft_eq]; omega
  have hs2 : b2.toNat <<< 16 = 65536 * b2.toNat := by rw [Nat.shiftLeft_eq]; omega
  have hs3 : b3.toNat <<< 24 = 16777216 * b3.toNat := by rw [Nat.shiftLeft_eq]; omega
  have e1 : b0.toNat ||| b1.toNat <<< 8 = b0.toNat + 256 * b1.toNat := by
    rw [Nat.or_comm, ← Nat.shiftLeft_add_eq_or_of_lt h0, hs1, Nat.add_comm]
  have e2 : (b0.toNat + 256 * b1.toNat) ||| b2.toNat <<< 16 =
      b0.toNat + 256 * b1.toNat + 65536 * b2.toNat := by
    rw [Nat.or_comm, ← Nat.shiftLeft_add_eq_or_of_lt (i := 16) (by omega), hs2, Nat.add_comm]
  have e3 : (b0.toNat + 256 * b1.toNat + 65536 * b2.toNat) ||| b3.toNat <<< 24 =
      b0.toNat + 256 * b1.toNat + 65536 * b2.toNat + 16777216 * b3.toNat := by
    rw [Nat.or_comm, ← Nat.shiftLeft_add_eq_or_of_lt (i := 24) (by omega), hs3, Nat.add_comm]
  simp only [le32, BitVec.toNat_or, BitVec.toNat_setWidth, BitVec.toNat_shiftLeft]
  rw [Nat.mod_eq_of_lt (a := b0.toNat) (by omega), Nat.mod_eq_of_lt (a := b1.toNat) (by omega),
    Nat.mod_eq_of_lt (a := b2.toNat) (by omega), Nat.mod_eq_of_lt (a := b3.toNat) (by omega),
    Nat.mod_eq_of_lt (a := b1.toNat <<< 8) (by omega),
    Nat.mod_eq_of_lt (a := b2.toNat <<< 16) (by omega),
    Nat.mod_eq_of_lt (a := b3.toNat <<< 24) (by omega), e1, e2, e3]

theorem le16_bytes (w : BitVec 16) : le16 (w.setWidth 8) ((w >>> 8).setWidth 8) = w := by
  have hlt := w.isLt
  apply BitVec.eq_of_toNat_eq
  rw [toNat_le16, BitVec.toNat_setWidth, BitVec.toNat_setWidth, BitVec.toNat_ushiftRight,
    Nat.shiftRight_eq_div_pow]
  omega

theorem bytes16_le16 (b0 b1 : BitVec 8) : bytes16 (le16 b0 b1) = [b0, b1] := by
  have h := toNat_le16 b0 b1
  have h0 : (le16 b0 b1).setWidth 8 = b0 := BitVec.eq_of_toNat_eq (by simp [h]; omega)
  have h1 : ((le16 b0 b1) >>> 8).setWidth 8 = b1 := by
    apply BitVec.eq_of_toNat_eq
    simp only [BitVec.toNat_setWidth, BitVec.toNat_ushiftRight, Nat.shiftRight_eq_div_pow, h]
    omega
  rw [bytes16, h0, h1]

theorem bytes32_le32 (b0 b1 b2 b3 : BitVec 8) :
    bytes32 (le32 b0 b1 b2 b3) = [b0, b1, b2, b3] := by
  have h := toNat_le32 b0 b1 b2 b3
  have hb (k : Nat) (b : BitVec 8) (hk : (le32 b0 b1 b2 b3).toNat / 2 ^ k % 256 = b.toNat) :
      ((le32 b0 b1 b2 b3) >>> k).setWidth 8 = b := by
    apply BitVec.eq_of_toNat_eq
    simpa only [BitVec.toNat_setWidth, BitVec.toNat_ushiftRight, Nat.shiftRight_eq_div_pow] using hk
  have h0 : (le32 b0 b1 b2 b3).setWidth 8 = b0 := by
    simpa using hb 0 b0 (by omega)
  rw [bytes32, h0, hb 8 b1 (by omega), hb 16 b2 (by omega), hb 24 b3 (by omega)]

theorem le32_bytes (w : BitVec 32) : le32 (w.setWidth 8) ((w >>> 8).setWidth 8)
    ((w >>> 16).setWidth 8) ((w >>> 24).setWidth 8) = w := by
  have := w.isLt
  apply BitVec.eq_of_toNat_eq
  rw [toNat_le32]
  simp only [BitVec.toNat_setWidth, BitVec.toNat_ushiftRight, Nat.shiftRight_eq_div_pow]
  omega

theorem le32_inj {a0 a1 a2 a3 b0 b1 b2 b3 : BitVec 8} :
    le32 a0 a1 a2 a3 = le32 b0 b1 b2 b3 ↔ a0 = b0 ∧ a1 = b1 ∧ a2 = b2 ∧ a3 = b3 := by
  constructor
  · intro h
    have hh := congrArg bytes32 h
    simpa only [bytes32_le32, List.cons.injEq, and_true] using hh
  · rintro ⟨rfl, rfl, rfl, rfl⟩
    rfl

/-- The number whose bytes are those of `w` in the other order. -/
def byteSwap (w : BitVec 32) : BitVec 32 :=
  le32 ((w >>> 24).setWidth 8) ((w >>> 16).setWidth 8) ((w >>> 8).setWidth 8) (w.setWidth 8)

@[simp] theorem byteSwap_le32 (b0 b1 b2 b3 : BitVec 8) :
    byteSwap (le32 b0 b1 b2 b3) = le32 b3 b2 b1 b0 := by
  have h := bytes32_le32 b0 b1 b2 b3
  simp only [bytes32, List.cons.injEq, and_true] at h
  obtain ⟨h0, h1, h2, h3⟩ := h
  rw [byteSwap, h0, h1, h2, h3]

@[simp] theorem byteSwap_byteSwap (w : BitVec 32) : byteSwap (byteSwap w) = w := by
  conv_lhs => rw [byteSwap.eq_def w]
  rw [byteSwap_le32, le32_bytes]

theorem byteSwap_eq_iff {v w : BitVec 32} : byteSwap v = w ↔ v = byteSwap w := by
  constructor
  · rintro rfl
    simp
  · rintro rfl
    simp

theorem toNat_add_digit {b : BitVec 8} {d c : Nat} (h : c = (b.toNat + d) / 256) :
    (b + BitVec.ofNat 8 d).toNat + 256 * c = b.toNat + d := by
  rw [BitVec.toNat_add, BitVec.toNat_ofNat, Nat.add_mod_mod]
  omega

theorem le32_add_ofNat {n c0 c1 c2 : Nat} (hn : n < 65536) (b0 b1 b2 b3 : BitVec 8)
    (h0 : c0 = (b0.toNat + n % 256) / 256) (h1 : c1 = (b1.toNat + (n / 256 + c0)) / 256)
    (h2 : c2 = (b2.toNat + c1) / 256) : le32 b0 b1 b2 b3 + BitVec.ofNat 32 n =
      le32 (b0 + BitVec.ofNat 8 (n % 256)) (b1 + BitVec.ofNat 8 (n / 256 + c0))
        (b2 + BitVec.ofNat 8 c1) (b3 + BitVec.ofNat 8 c2) := by
  have hd0 := toNat_add_digit h0
  have hd1 := toNat_add_digit h1
  have hd2 := toNat_add_digit h2
  have hd3 := toNat_add_digit (b := b3) (d := c2) rfl
  have hlt := (b3 + BitVec.ofNat 8 c2).isLt
  apply BitVec.eq_of_toNat_eq
  rw [BitVec.toNat_add, toNat_le32, toNat_le32, BitVec.toNat_ofNat]
  omega

/-- When a sum in one byte order is a sum in the other: each digit's carry into the next byte
is what the other order carries or adds there. -/
theorem byteSwap_add_eq_iff {k n c0 c1 c2 d0 d1 d2 : Nat} (hk : k < 65536) (hn : n < 65536)
    {b0 b1 b2 b3 : BitVec 8}
    (hc0 : c0 = (b0.toNat + k % 256) / 256) (hc1 : c1 = (b1.toNat + (k / 256 + c0)) / 256)
    (hc2 : c2 = (b2.toNat + c1) / 256)
    (hd0 : d0 = (b3.toNat + n % 256) / 256) (hd1 : d1 = (b2.toNat + (n / 256 + d0)) / 256)
    (hd2 : d2 = (b1.toNat + d1) / 256) :
    byteSwap (le32 b0 b1 b2 b3 + BitVec.ofNat 32 k) = le32 b3 b2 b1 b0 + BitVec.ofNat 32 n ↔
      k % 256 = d2 ∧ (k / 256 + c0) % 256 = d1 ∧ c1 = (n / 256 + d0) % 256 ∧ c2 = n % 256 := by
  have hdigit (b : BitVec 8) (x y : Nat) : b + BitVec.ofNat 8 x = b + BitVec.ofNat 8 y ↔
      x % 256 = y % 256 := by
    rw [BitVec.add_right_inj, ← BitVec.toNat_inj, BitVec.toNat_ofNat, BitVec.toNat_ofNat]
  have h0 := b0.isLt
  have h1 := b1.isLt
  have h2 := b2.isLt
  have h3 := b3.isLt
  rw [le32_add_ofNat hk b0 b1 b2 b3 hc0 hc1 hc2, le32_add_ofNat hn b3 b2 b1 b0 hd0 hd1 hd2,
    byteSwap_le32, le32_inj, hdigit, hdigit, hdigit, hdigit]
  omega

end ByteOrder
