import Mathlib

/-! Tagged values in one list: what has one tag, in its order. A list is a merge of streams when
what it has of each tag is a prefix of that tag's stream. -/

namespace Interleaving

variable {κ ι α β : Type*} [DecidableEq κ]

def part (k : κ) (xs : List (κ × α)) : List α :=
  xs.filterMap fun x => if x.1 = k then some x.2 else none

@[simp] theorem part_nil (k : κ) : part k ([] : List (κ × α)) = [] := rfl

theorem part_cons (k j : κ) (a : α) (xs : List (κ × α)) :
    part k ((j, a) :: xs) = if j = k then a :: part k xs else part k xs := by
  by_cases h : j = k <;> simp [part, h]

theorem part_append (k : κ) (xs ys : List (κ × α)) :
    part k (xs ++ ys) = part k xs ++ part k ys :=
  List.filterMap_append

theorem part_singleton (k j : κ) (a : α) : part k [(j, a)] = if j = k then [a] else [] := by
  rw [part_cons, part_nil]

end Interleaving
