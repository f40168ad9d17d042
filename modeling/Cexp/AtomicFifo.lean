import Mathlib

/-! The atomic FIFO queue, given by the histories of pushes and pops it accepts. -/

namespace AtomicFifo

variable {δ : Type*}

inductive Op (δ : Type*) where
  | push (d : δ)
  | pop (d : δ)

/-- Started with the items `q`, the queue accepts the history and is left with `r`:
a push appends its item, a pop takes the first one. -/
def Accepts : List δ → List (Op δ) → List δ → Prop
  | q, [], r => q = r
  | q, .push d :: h, r => Accepts (q ++ [d]) h r
  | q, .pop d :: h, r => ∃ q', q = d :: q' ∧ Accepts q' h r

def pushes (h : List (Op δ)) : List δ :=
  h.filterMap fun o => match o with
    | .push d => some d
    | .pop _ => none

def pops (h : List (Op δ)) : List δ :=
  h.filterMap fun o => match o with
    | .push _ => none
    | .pop d => some d

theorem Accepts.trans {q r t : List δ} {h k : List (Op δ)} (hq : Accepts q h r)
    (hr : Accepts r k t) : Accepts q (h ++ k) t := by
  induction h generalizing q with
  | nil =>
    obtain rfl : q = r := hq
    exact hr
  | cons o h ih =>
    cases o with
    | push d => exact ih (q := q ++ [d]) hq
    | pop d =>
      obtain ⟨q', rfl, hq'⟩ := hq
      exact ⟨q', rfl, ih hq'⟩

/-- Nothing is lost, duplicated or reordered: what was popped, followed by what is
left, is what was there at first followed by what was pushed. -/
theorem Accepts.pops_append {q r : List δ} {h : List (Op δ)} (hq : Accepts q h r) :
    pops h ++ r = q ++ pushes h := by
  induction h generalizing q with
  | nil =>
    obtain rfl : q = r := hq
    simp [pops, pushes]
  | cons o h ih =>
    cases o with
    | push d =>
      have hh := ih (q := q ++ [d]) hq
      simpa [pops, pushes] using hh
    | pop d =>
      obtain ⟨q', rfl, hq'⟩ := hq
      have hh := ih hq'
      simpa [pops, pushes] using hh

end AtomicFifo
