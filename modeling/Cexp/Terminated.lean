import Mathlib

/-! Lists with a terminator: what stands before the first `z`. -/

namespace Terminated

variable {α : Type*} [DecidableEq α] {z : α} {xs : List α}

theorem takeWhile_eq_self_iff : xs.takeWhile (· ≠ z) = xs ↔ z ∉ xs := by
  rw [List.takeWhile_eq_self_iff]
  constructor
  · intro h hz
    exact of_decide_eq_true (h z hz) rfl
  · intro h x hx
    exact decide_eq_true fun he => h (he ▸ hx)

theorem takeWhile_append_of_notMem (h : z ∉ xs) (ys : List α) :
    (xs ++ ys).takeWhile (· ≠ z) = xs ++ ys.takeWhile (· ≠ z) :=
  List.takeWhile_append_of_pos fun _ hx => decide_eq_true fun he => h (he ▸ hx)

/-- Nothing behind a terminator counts. -/
theorem takeWhile_append_of_mem (h : z ∈ xs) (ys : List α) :
    (xs ++ ys).takeWhile (· ≠ z) = xs.takeWhile (· ≠ z) := by
  induction xs with
  | nil => cases h
  | cons x xs ih =>
    by_cases hx : x = z
    · simp [hx]
    · have hmem : z ∈ xs := (List.mem_cons.mp h).resolve_left fun he => hx he.symm
      simpa [hx] using ih hmem

theorem takeWhile_append_cons (xs ys : List α) :
    (xs ++ z :: ys).takeWhile (· ≠ z) = xs.takeWhile (· ≠ z) := by
  by_cases h : z ∈ xs
  · exact takeWhile_append_of_mem h _
  · rw [takeWhile_append_of_notMem h, takeWhile_eq_self_iff.mpr h]
    simp

theorem takeWhile_eq_nil_iff (h : z ∈ xs) : xs.takeWhile (· ≠ z) = [] ↔ xs[0]? = some z := by
  cases xs with
  | nil => cases h
  | cons x xs => by_cases hx : x = z <;> simp [hx]

end Terminated
