import Mathlib

/-! Runs of a labelled transition function: the state a list of labels leads
to, the events it emits, and the rules that lift a fact about one step to
every run. -/

namespace Transition

variable {σ ℓ ε : Type*}

def exec (step : σ → ℓ → Option σ) : σ → List ℓ → Option σ
  | s, [] => some s
  | s, l :: ls => (step s l).bind fun s' => exec step s' ls

def outputs (step : σ → ℓ → Option σ) (ev : σ → ℓ → List ε) : σ → List ℓ → List ε
  | _, [] => []
  | s, l :: ls =>
    match step s l with
    | none => []
    | some s' => ev s l ++ outputs step ev s' ls

/-- Every step of the run meets `ok`, a condition on the state before the step. -/
def Meets (step : σ → ℓ → Option σ) (ok : σ → ℓ → Prop) : σ → List ℓ → Prop
  | _, [] => True
  | s, l :: ls => ok s l ∧
    match step s l with
    | none => True
    | some s' => Meets step ok s' ls

instance Meets.decidable (step : σ → ℓ → Option σ) (ok : σ → ℓ → Prop)
    [∀ s l, Decidable (ok s l)] : ∀ s ls, Decidable (Meets step ok s ls)
  | _, [] => isTrue trivial
  | s, l :: ls =>
    have : Decidable (match step s l with
        | none => True
        | some s' => Meets step ok s' ls) :=
      match step s l with
      | none => isTrue trivial
      | some s' => Meets.decidable step ok s' ls
    inferInstanceAs (Decidable (_ ∧ _))

/-- `P` holds in every state of the run, the first and the last included. -/
def Always (step : σ → ℓ → Option σ) (P : σ → Prop) : σ → List ℓ → Prop
  | s, [] => P s
  | s, l :: ls => P s ∧
    match step s l with
    | none => True
    | some s' => Always step P s' ls

variable {step : σ → ℓ → Option σ} {ev : σ → ℓ → List ε} {ok : σ → ℓ → Prop}

@[simp] theorem exec_nil (s : σ) : exec step s [] = some s := rfl

theorem exec_cons {s t : σ} {l : ℓ} {ls : List ℓ} :
    exec step s (l :: ls) = some t ↔ ∃ u, step s l = some u ∧ exec step u ls = some t := by
  simp only [exec, Option.bind_eq_some_iff]

theorem exec_append {s t : σ} {ls ms : List ℓ} :
    exec step s (ls ++ ms) = some t ↔ ∃ u, exec step s ls = some u ∧ exec step u ms = some t := by
  induction ls generalizing s with
  | nil => simp
  | cons l ls ih =>
    simp only [List.cons_append, exec_cons, ih]
    constructor
    · rintro ⟨u, hu, v, hv, ht⟩
      exact ⟨v, ⟨u, hu, hv⟩, ht⟩
    · rintro ⟨v, ⟨u, hu, hv⟩, ht⟩
      exact ⟨u, hu, v, hv, ht⟩

theorem exec_exists (f : σ → ℓ → Option σ) (s : σ) (ls : List ℓ) (p : σ → Bool)
    (h : (exec f s ls).any p = true) : ∃ t, exec f s ls = some t ∧ p t = true := by
  simpa [Option.any_eq_true] using h

theorem exec_prefix_induction {s₀ : σ} {P : List ℓ → σ → Prop} (h0 : P [] s₀)
    (hstep : ∀ ls s l t, exec step s₀ ls = some s → P ls s → step s l = some t →
      P (ls ++ [l]) t) {ls : List ℓ} {s : σ} (h : exec step s₀ ls = some s) : P ls s := by
  induction ls using List.reverseRecOn generalizing s with
  | nil =>
    obtain rfl := Option.some.inj h
    exact h0
  | append_singleton ls l ih =>
    obtain ⟨u, hu, hl⟩ := exec_append.mp h
    obtain ⟨t, ht, he⟩ := exec_cons.mp hl
    obtain rfl := Option.some.inj he
    exact hstep ls u l t hu (ih hu) ht

theorem outputs_cons {s t : σ} {l : ℓ} {ls : List ℓ} (h : step s l = some t) :
    outputs step ev s (l :: ls) = ev s l ++ outputs step ev t ls := by
  simp only [outputs, h]

theorem outputs_append {s t : σ} {ls ms : List ℓ} (h : exec step s ls = some t) :
    outputs step ev s (ls ++ ms) = outputs step ev s ls ++ outputs step ev t ms := by
  induction ls generalizing s with
  | nil =>
    obtain rfl := Option.some.inj h
    rfl
  | cons l ls ih =>
    obtain ⟨u, hu, ht⟩ := exec_cons.mp h
    rw [List.cons_append, outputs_cons hu, outputs_cons hu, ih ht, List.append_assoc]

theorem Meets.head {s t : σ} {l : ℓ} {ls : List ℓ} (h : Meets step ok s (l :: ls))
    (ht : step s l = some t) : ok s l ∧ Meets step ok t ls := by
  simpa only [Meets, ht] using h

theorem Meets.and {p q : σ → ℓ → Prop} {s : σ} {ls : List ℓ} (hp : Meets step p s ls)
    (hq : Meets step q s ls) : Meets step (fun s l => p s l ∧ q s l) s ls := by
  induction ls generalizing s with
  | nil => trivial
  | cons l ls ih =>
    refine ⟨⟨hp.1, hq.1⟩, ?_⟩
    cases hs : step s l with
    | none => trivial
    | some t => exact ih (hp.head hs).2 (hq.head hs).2

theorem Meets.left {s : σ} {ls ms : List ℓ} (h : Meets step ok s (ls ++ ms)) :
    Meets step ok s ls := by
  induction ls generalizing s with
  | nil => trivial
  | cons l ls ih =>
    refine ⟨h.1, ?_⟩
    cases hs : step s l with
    | none => trivial
    | some t => exact ih (h.head hs).2

/-- The run rule: what one step keeps of the events so far and the state, under a
condition on the state before the step, a run keeps whose steps all meet it. -/
theorem exec_history_of_meets (ev : σ → ℓ → List ε) {I : List ε → σ → Prop}
    (hstep : ∀ h s l t, I h s → ok s l → step s l = some t → I (h ++ ev s l) t)
    {h : List ε} {s t : σ} {ls : List ℓ} (h0 : I h s) (hm : Meets step ok s ls)
    (he : exec step s ls = some t) : I (h ++ outputs step ev s ls) t := by
  induction ls generalizing h s with
  | nil =>
    obtain rfl := Option.some.inj he
    simpa [outputs] using h0
  | cons l ls ih =>
    obtain ⟨u, hu, ht⟩ := exec_cons.mp he
    have hl := hm.head hu
    have hh := ih (hstep h s l u h0 hl.1 hu) hl.2 ht
    simpa only [outputs_cons hu, List.append_assoc] using hh

theorem meets_of_forall (h : ∀ s l, ok s l) (s : σ) (ls : List ℓ) : Meets step ok s ls := by
  induction ls generalizing s with
  | nil => trivial
  | cons l ls ih =>
    refine ⟨h s l, ?_⟩
    cases step s l with
    | none => trivial
    | some u => exact ih u

theorem meets_true (s : σ) (ls : List ℓ) : Meets step (fun _ _ => True) s ls :=
  meets_of_forall (fun _ _ => trivial) s ls

theorem meets_of_mem {p : ℓ → Prop} {ls : List ℓ} (hp : ∀ l ∈ ls, p l) (s : σ) :
    Meets step (fun _ l => p l) s ls := by
  induction ls generalizing s with
  | nil => trivial
  | cons l ls ih =>
    refine ⟨hp l (by simp), ?_⟩
    cases step s l with
    | none => trivial
    | some u => exact ih (fun m hm => hp m (by simp [hm])) u

theorem meets_iff_forall_mem {p : ℓ → Prop} {s t : σ} {ls : List ℓ}
    (he : exec step s ls = some t) : Meets step (fun _ l => p l) s ls ↔ ∀ l ∈ ls, p l := by
  refine ⟨fun hm => ?_, fun hp => meets_of_mem hp s⟩
  induction ls generalizing s with
  | nil => simp
  | cons l ls ih =>
    obtain ⟨u, hu, ht⟩ := exec_cons.mp he
    obtain ⟨hl, hrest⟩ := hm.head hu
    exact List.forall_mem_cons.mpr ⟨hl, ih ht hrest⟩

theorem exec_history (ev : σ → ℓ → List ε) {I : List ε → σ → Prop}
    (hstep : ∀ h s l t, I h s → step s l = some t → I (h ++ ev s l) t)
    {s t : σ} {ls : List ℓ} (h0 : I [] s) (he : exec step s ls = some t) :
    I (outputs step ev s ls) t :=
  exec_history_of_meets ev (fun h s l t hI _ => hstep h s l t hI) h0 (meets_true s ls) he

theorem exec_invariant_of_meets {I : σ → Prop}
    (hstep : ∀ s l t, I s → ok s l → step s l = some t → I t)
    {s t : σ} {ls : List ℓ} (h0 : I s) (hm : Meets step ok s ls)
    (he : exec step s ls = some t) : I t :=
  exec_history_of_meets (fun _ _ => ([] : List Unit)) (I := fun _ s => I s) (h := [])
    (fun _ => hstep) h0 hm he

theorem Always.last {P : σ → Prop} {s t : σ} {ls : List ℓ} (h : Always step P s ls)
    (he : exec step s ls = some t) : P t := by
  induction ls generalizing s with
  | nil =>
    obtain rfl := Option.some.inj he
    exact h
  | cons l ls ih =>
    obtain ⟨u, hu, ht⟩ := exec_cons.mp he
    have hrest : Always step P u ls := by simpa only [hu] using h.2
    exact ih hrest ht

theorem always_of_meets {I P : σ → Prop}
    (hstep : ∀ s l t, I s → ok s l → step s l = some t → I t) (hP : ∀ s, I s → P s)
    {s : σ} {ls : List ℓ} (h0 : I s) (hm : Meets step ok s ls) : Always step P s ls := by
  induction ls generalizing s with
  | nil => exact hP s h0
  | cons l ls ih =>
    refine ⟨hP s h0, ?_⟩
    cases hs : step s l with
    | none => trivial
    | some t =>
      have hl := hm.head hs
      exact ih (hstep s l t h0 hl.1 hs) hl.2

/-- The exact condition: `ok` keeps an invariant that gives `P`, and a step that misses `ok`
breaks `P` at once. -/
theorem always_iff_meets {I P : σ → Prop}
    (hstep : ∀ s l t, I s → ok s l → step s l = some t → I t) (hP : ∀ s, I s → P s)
    (hbad : ∀ s l t, I s → step s l = some t → P t → ok s l) {s t : σ} {ls : List ℓ}
    (h0 : I s) (he : exec step s ls = some t) : Always step P s ls ↔ Meets step ok s ls := by
  refine ⟨fun h => ?_, always_of_meets hstep hP h0⟩
  induction ls generalizing s with
  | nil => trivial
  | cons l ls ih =>
    obtain ⟨u, hu, ht⟩ := exec_cons.mp he
    have hrest : Always step P u ls := by simpa only [hu] using h.2
    have hPu : P u := by
      cases ls with
      | nil => exact hrest
      | cons m ls => exact hrest.1
    have hok := hbad s l u h0 hu hPu
    refine ⟨hok, ?_⟩
    simpa only [hu] using ih (hstep s l u h0 hok hu) ht hrest

/-- The exact condition for a property of every step of a run. -/
theorem meets_iff_meets {I : σ → Prop} {q : σ → ℓ → Prop}
    (hstep : ∀ s l t, I s → ok s l → step s l = some t → I t)
    (hq : ∀ s l t, I s → step s l = some t → (q s l ↔ ok s l)) {s t : σ} {ls : List ℓ} (h0 : I s)
    (he : exec step s ls = some t) : Meets step q s ls ↔ Meets step ok s ls := by
  induction ls generalizing s with
  | nil => exact Iff.rfl
  | cons l ls ih =>
    obtain ⟨u, hu, ht⟩ := exec_cons.mp he
    have hl := hq s l u h0 hu
    constructor
    · intro hm
      obtain ⟨hs, hrest⟩ := hm.head hu
      refine ⟨hl.mp hs, ?_⟩
      simp only [hu]
      exact (ih (hstep s l u h0 (hl.mp hs) hu) ht).mp hrest
    · intro hm
      obtain ⟨hs, hrest⟩ := hm.head hu
      refine ⟨hl.mpr hs, ?_⟩
      simp only [hu]
      exact (ih (hstep s l u h0 hs hu) ht).mpr hrest

/-- The exact condition for a property of the labels so far and the state, in every state of the
run. -/
theorem prefixes_iff_meets {I P : List ℓ → σ → Prop}
    (hstep : ∀ h s l t, I h s → ok s l → step s l = some t → I (h ++ [l]) t)
    (hP : ∀ h s, I h s → P h s)
    (hbad : ∀ h s l t, I h s → step s l = some t → P (h ++ [l]) t → ok s l)
    {h : List ℓ} {s t : σ} {ls : List ℓ} (h0 : I h s) (he : exec step s ls = some t) :
    (∀ pre u, pre <+: ls → exec step s pre = some u → P (h ++ pre) u) ↔ Meets step ok s ls := by
  induction ls generalizing h s with
  | nil =>
    refine ⟨fun _ => trivial, fun _ pre u hpre hu => ?_⟩
    obtain rfl := List.prefix_nil.mp hpre
    obtain rfl := Option.some.inj hu
    rw [List.append_nil]
    exact hP h s h0
  | cons l ls ih =>
    obtain ⟨v, hv, ht⟩ := exec_cons.mp he
    constructor
    · intro hall
      have hone : exec step s [l] = some v := exec_cons.mpr ⟨v, hv, rfl⟩
      have hok := hbad h s l v h0 hv (hall [l] v (by simp) hone)
      refine ⟨hok, ?_⟩
      simp only [hv]
      refine (ih (hstep h s l v h0 hok hv) ht).mp fun pre u hpre hu => ?_
      have hP' := hall (l :: pre) u ((List.cons_prefix_cons).mpr ⟨rfl, hpre⟩)
        (exec_cons.mpr ⟨v, hv, hu⟩)
      simpa using hP'
    · intro hm pre u hpre hu
      obtain ⟨hok, hrest⟩ := hm.head hv
      cases pre with
      | nil =>
        obtain rfl := Option.some.inj hu
        rw [List.append_nil]
        exact hP h s h0
      | cons m pre =>
        obtain ⟨rfl, hpre'⟩ := List.cons_prefix_cons.mp hpre
        obtain ⟨w, hw, hu'⟩ := exec_cons.mp hu
        obtain rfl := Option.some.inj (hv.symm.trans hw)
        have hP' := (ih (hstep h s m v h0 hok hv) ht).mpr hrest pre u hpre' hu'
        simpa using hP'

/-- No step with a label in `p` is possible. -/
def Stuck (step : σ → ℓ → Option σ) (p : ℓ → Prop) (s : σ) : Prop :=
  ∀ l, p l → step s l = none

section Measure

variable {p : ℓ → Prop} {I : σ → Prop} {μ : σ → Nat}

/-- A measure that every step with a label in `p` lowers bounds the runs of such steps. -/
theorem exec_length_le_of_invariant
    (hμ : ∀ s l t, I s → p l → step s l = some t → I t ∧ μ t < μ s) {s t : σ} {ls : List ℓ}
    (h0 : I s) (hp : ∀ l ∈ ls, p l) (he : exec step s ls = some t) :
    I t ∧ ls.length + μ t ≤ μ s := by
  induction ls generalizing s with
  | nil =>
    obtain rfl := Option.some.inj he
    simpa using h0
  | cons l ls ih =>
    obtain ⟨u, hu, ht⟩ := exec_cons.mp he
    obtain ⟨hl, hls⟩ := List.forall_mem_cons.mp hp
    obtain ⟨hIu, hlt⟩ := hμ s l u h0 hl hu
    obtain ⟨hIt, hle⟩ := ih hIu hls ht
    refine ⟨hIt, ?_⟩
    rw [List.length_cons]
    omega

/-- With such a measure, taking steps for as long as there are any ends. -/
theorem exists_stuck_of_invariant
    (hμ : ∀ s l t, I s → p l → step s l = some t → I t ∧ μ t < μ s) {s : σ} (h0 : I s) :
    ∃ ls t, (∀ l ∈ ls, p l) ∧ exec step s ls = some t ∧ Stuck step p t := by
  induction hn : μ s using Nat.strongRecOn generalizing s with
  | ind n ih =>
    by_cases hs : Stuck step p s
    · exact ⟨[], s, by simp, rfl, hs⟩
    · simp only [Stuck, not_forall] at hs
      obtain ⟨l, hl, hne⟩ := hs
      obtain ⟨u, hu⟩ := Option.ne_none_iff_exists'.mp hne
      obtain ⟨hIu, hlt⟩ := hμ s l u h0 hl hu
      obtain ⟨ls, t, hls, ht, hstuck⟩ := ih (μ u) (hn ▸ hlt) hIu rfl
      refine ⟨l :: ls, t, ?_, exec_cons.mpr ⟨u, hu, ht⟩, hstuck⟩
      exact List.forall_mem_cons.mpr ⟨hl, hls⟩

theorem exec_length_le (hμ : ∀ s l t, p l → step s l = some t → μ t < μ s) {s t : σ}
    {ls : List ℓ} (hp : ∀ l ∈ ls, p l) (he : exec step s ls = some t) :
    ls.length + μ t ≤ μ s :=
  (exec_length_le_of_invariant (I := fun _ => True)
    (fun s l t _ hl hs => ⟨trivial, hμ s l t hl hs⟩) trivial hp he).2

theorem exists_stuck (hμ : ∀ s l t, p l → step s l = some t → μ t < μ s) (s : σ) :
    ∃ ls t, (∀ l ∈ ls, p l) ∧ exec step s ls = some t ∧ Stuck step p t :=
  exists_stuck_of_invariant (I := fun _ => True)
    (fun s l t _ hl hs => ⟨trivial, hμ s l t hl hs⟩) trivial

end Measure

end Transition
