import Mathlib

/-! Counting the threads of a finite set that are at a given kind of place, and adding up a
weight over the places they are at. -/

namespace ThreadCount

variable {τ π : Type*} [Fintype τ]

def count (p : π → Bool) (f : τ → π) : Nat :=
  (Finset.univ.filter fun t => p (f t) = true).card

variable {p q : π → Bool} {f g : τ → π}

theorem count_pos_iff : 0 < count p f ↔ ∃ t, p (f t) = true := by
  simp [count, Finset.card_pos, Finset.Nonempty]

theorem count_eq_zero_iff : count p f = 0 ↔ ∀ t, p (f t) = false := by
  have h := (count_pos_iff (p := p) (f := f)).not
  simpa using h

theorem count_congr (h : ∀ t, p (f t) = q (g t)) : count p f = count q g := by
  simp only [count, h]

theorem count_update [DecidableEq τ] (f : τ → π) (t : τ) (v : π) :
    count p (Function.update f t v) + (p (f t)).toNat = count p f + (p v).toNat := by
  have split (g : τ → π) : count p g =
      (Finset.univ.filter fun u => u ≠ t ∧ p (g u) = true).card + (p (g t)).toNat := by
    rw [count, ← Finset.card_filter_add_card_filter_not (s := Finset.univ.filter _) (· ≠ t)]
    congr 1
    · rw [Finset.filter_filter]
      simp only [and_comm]
    · cases hp : p (g t) with
      | false =>
        rw [Bool.toNat_false, Finset.card_eq_zero, Finset.filter_eq_empty_iff]
        intro u hu hn
        obtain rfl : u = t := not_not.mp hn
        simp [hp] at hu
      | true =>
        rw [Bool.toNat_true, Finset.card_eq_one]
        refine ⟨t, Finset.ext fun u => ?_⟩
        simp only [Finset.mem_filter, Finset.mem_univ, true_and, Finset.mem_singleton]
        constructor
        · rintro ⟨_, hn⟩
          exact not_not.mp hn
        · rintro rfl
          exact ⟨hp, by simp⟩
  have hrest : (Finset.univ.filter fun u => u ≠ t ∧ p (Function.update f t v u) = true) =
      Finset.univ.filter fun u => u ≠ t ∧ p (f u) = true := by
    apply Finset.filter_congr
    intro u _
    by_cases hu : u = t <;> simp [hu]
  rw [split f, split (Function.update f t v), hrest, Function.update_self]
  omega

def total (w : π → Nat) (f : τ → π) : Nat := ∑ t, w (f t)

theorem total_update [DecidableEq τ] (w : π → Nat) (f : τ → π) (t : τ) (v : π) :
    total w (Function.update f t v) + w (f t) = total w f + w v := by
  have split (g : τ → π) : total w g = w (g t) + ∑ u ∈ Finset.univ.erase t, w (g u) :=
    (Finset.add_sum_erase _ _ (Finset.mem_univ t)).symm
  have hrest : ∑ u ∈ Finset.univ.erase t, w (Function.update f t v u) =
      ∑ u ∈ Finset.univ.erase t, w (f u) := by
    refine Finset.sum_congr rfl fun u hu => ?_
    rw [Function.update_of_ne (Finset.ne_of_mem_erase hu)]
  rw [split f, split (Function.update f t v), hrest, Function.update_self]
  omega

/-- One thread changes what it has, in any additive measure. -/
theorem sum_frame {α : Type*} [AddCommMonoid α] [DecidableEq τ] {w w' : τ → α} (t : τ)
    (h : ∀ u, u ≠ t → w' u = w u) : ∑ u, w' u + w t = ∑ u, w u + w' t := by
  have hrest : ∑ u ∈ Finset.univ.erase t, w' u = ∑ u ∈ Finset.univ.erase t, w u :=
    Finset.sum_congr rfl fun u hu => h u (Finset.ne_of_mem_erase hu)
  rw [← Finset.add_sum_erase _ _ (Finset.mem_univ t), hrest,
    ← Finset.add_sum_erase Finset.univ w (Finset.mem_univ t)]
  abel

theorem total_le {w : π → Nat} {k : Nat} (h : ∀ t, w (f t) ≤ k * (p (f t)).toNat) :
    total w f ≤ k * count p f := by
  have hcount : count p f = ∑ t, (p (f t)).toNat := by
    rw [count, Finset.card_filter]
    refine Finset.sum_congr rfl fun t _ => ?_
    cases p (f t) <;> simp
  rw [hcount, Finset.mul_sum]
  exact Finset.sum_le_sum fun t _ => h t

end ThreadCount
