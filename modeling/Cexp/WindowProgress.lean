import Cexp.ReceiveWindow

/-! Whether the calls on the window can go on: the server's lock is held while the receiving
thread waits for the GUI thread, which waits for the lock inside a clear. -/

namespace Cexp.ReceiveWindow

open Transition

/-- The steps of calls in progress. -/
def Label.continues : Label → Bool
  | .call _ _ | .click => false
  | _ => true

/-- The lock is held by a thread inside its critical section. -/
structure Locked (s : State) : Prop where
  receiver : s.lock = some .receiver → s.display.holds = true
  gui : s.lock = some .gui → s.clear.holds = true

theorem locked_init : Locked init where
  receiver h := by cases h
  gui h := by cases h

theorem release_eq_some {s : State} {t u : Thread} (h : s.release t = some u) :
    s.lock = some u ∧ u ≠ t := by
  rw [State.release] at h
  split at h
  case isTrue => cases h
  case isFalse hne =>
    refine ⟨h, ?_⟩
    rintro rfl
    exact hne h

theorem Locked.display {s t : State} (hI : Locked s) (hs : displayStep s = some t) :
    Locked t := by
  cases hd : s.display <;> simp only [displayStep, hd] at hs
  case outside => cases hs
  case enter =>
    obtain ⟨-, hs⟩ := Option.ite_none_right_eq_some.mp hs
    obtain rfl := Option.some.inj hs
    exact ⟨fun _ => rfl, fun h => (by cases h)⟩
  case leave =>
    obtain rfl := Option.some.inj hs
    exact ⟨fun h => absurd rfl (release_eq_some h).2, fun h => hI.gui (release_eq_some h).1⟩
  case setSel | replaceSel =>
    obtain ⟨-, hs⟩ := Option.ite_none_right_eq_some.mp hs
    obtain rfl := Option.some.inj hs
    exact ⟨fun _ => rfl, hI.gui⟩
  all_goals
    obtain rfl := Option.some.inj hs
    exact ⟨fun _ => rfl, hI.gui⟩

theorem Locked.clear {s t : State} (hI : Locked s) (hs : clearStep s = some t) : Locked t := by
  cases hc : s.clear <;> simp only [clearStep, hc] at hs
  case outside => cases hs
  case enter =>
    obtain ⟨-, hs⟩ := Option.ite_none_right_eq_some.mp hs
    obtain rfl := Option.some.inj hs
    exact ⟨fun h => (by cases h), fun _ => rfl⟩
  case leave =>
    obtain rfl := Option.some.inj hs
    exact ⟨fun h => hI.receiver (release_eq_some h).1, fun h => absurd rfl (release_eq_some h).2⟩
  case reset =>
    obtain rfl := Option.some.inj hs
    exact ⟨hI.receiver, fun _ => rfl⟩
  all_goals
    obtain rfl := Option.some.inj hs
    have hgui : s.lock ≠ some .gui := fun h => by
      have hh := hI.gui h
      rw [hc] at hh
      cases hh
    exact ⟨hI.receiver, fun h => absurd h hgui⟩

theorem Locked.step {g : Guard} {s t : State} {l : Label} (hI : Locked s)
    (hs : step g s l = some t) : Locked t := by
  cases l with
  | display => exact hI.display hs
  | clear => exact hI.clear hs
  | call msg len =>
    obtain ⟨hd, hs⟩ := Option.ite_none_right_eq_some.mp hs
    obtain rfl := Option.some.inj hs
    refine ⟨fun h => ?_, hI.gui⟩
    have hh := hI.receiver h
    rw [hd] at hh
    cases hh
  | click =>
    obtain ⟨hc, hs⟩ := Option.ite_none_right_eq_some.mp hs
    obtain rfl := Option.some.inj hs
    refine ⟨hI.receiver, fun h => ?_⟩
    have hh := hI.gui h
    rw [hc] at hh
    cases hh
  | displayTimeout =>
    obtain ⟨-, hs⟩ := Option.ite_none_right_eq_some.mp hs
    obtain rfl := Option.some.inj hs
    exact ⟨fun _ => rfl, hI.gui⟩
  | clearTimeout =>
    obtain ⟨-, hs⟩ := Option.ite_none_right_eq_some.mp hs
    obtain rfl := Option.some.inj hs
    exact ⟨hI.receiver, fun _ => rfl⟩

/-- The receiving thread waits, with the lock, for the GUI thread to take its message, and the GUI
thread waits for the lock. -/
structure Deadlocked (s : State) : Prop where
  lock : s.lock = some .receiver
  clear : s.clear = .enter
  display : s.display = .replaceSel ∨ ∃ place, s.display = .setSel place

theorem Deadlocked.step_eq_none {s : State} (h : Deadlocked s) (l : Label) :
    step .criticalSection s l = none := by
  obtain ⟨hl, hc, hd⟩ := h
  cases l with
  | display => rcases hd with hd | ⟨place, hd⟩ <;> simp [step, displayStep, hd, hc]
  | call => rcases hd with hd | ⟨place, hd⟩ <;> simp [step, hd]
  | clear => simp [step, clearStep, hc, hl]
  | click => simp [step, hc]
  | displayTimeout | clearTimeout => simp [step]

theorem Locked.outside_of_stuck {g : Guard} {s : State} (hI : Locked s)
    (hs : Stuck (ReceiveWindow.step g) (fun l => l.continues = true) s) (hc : s.clear = .outside) :
    s.display = .outside := by
  have hstep : displayStep s = none := hs .display rfl
  cases hd : s.display <;> simp only [displayStep, hd, hc, if_true] at hstep
  case outside => rfl
  case enter =>
    cases hl : s.lock with
    | none => simp [hl] at hstep
    | some t =>
      cases t with
      | receiver =>
        have hh := hI.receiver hl
        rw [hd] at hh
        cases hh
      | gui =>
        have hh := hI.gui hl
        rw [hc] at hh
        cases hh
  all_goals cases hstep

theorem Locked.deadlocked_of_stuck {g : Guard} {s : State} (hI : Locked s)
    (hs : Stuck (ReceiveWindow.step g) (fun l => l.continues = true) s) (hc : s.clear ≠ .outside) :
    g = .criticalSection ∧ Deadlocked s := by
  have hclear : clearStep s = none := hs .clear rfl
  have hdisplay : displayStep s = none := hs .display rfl
  have htimeout := hs .clearTimeout rfl
  obtain hin : s.clear = .enter := by
    cases hp : s.clear <;> simp only [clearStep, hp] at hclear
    case outside => exact absurd hp hc
    case enter => rfl
    all_goals cases hclear
  have hlock : s.lock = some .receiver := by
    cases hl : s.lock with
    | none => simp [clearStep, hin, hl] at hclear
    | some t =>
      cases t with
      | receiver => rfl
      | gui =>
        have hh := hI.gui hl
        rw [hin] at hh
        cases hh
  refine ⟨?_, hlock, hin, ?_⟩
  · cases g with
    | criticalSection => rfl
    | mutex => simp [ReceiveWindow.step, hin, hlock] at htimeout
  · have hh := hI.receiver hlock
    cases hd : s.display with
    | replaceSel => exact Or.inl rfl
    | setSel place => exact Or.inr ⟨place, rfl⟩
    | outside | enter =>
      rw [hd] at hh
      cases hh
    | place | count | leave => simp [displayStep, hd] at hdisplay

/-- In every run a call in progress can go on or waits for one that can, but for the server's
deadlock, which no step of any kind ends: the client's clear gives up waiting. -/
theorem window_stuck_iff {g : Guard} {tr : List Label} {s : State}
    (h : exec (step g) init tr = some s) :
    (Stuck (step g) (fun l => l.continues = true) s ↔
      s.display = .outside ∧ s.clear = .outside ∨ g = .criticalSection ∧ Deadlocked s) ∧
      (g = .criticalSection → Deadlocked s → ∀ l, step g s l = none) := by
  have hI : Locked s :=
    exec_invariant_of_meets (fun _ _ _ hI _ hs => hI.step hs) locked_init (meets_true init tr) h
  refine ⟨⟨fun hs => ?_, ?_⟩, ?_⟩
  · by_cases hc : s.clear = .outside
    · exact Or.inl ⟨hI.outside_of_stuck hs hc, hc⟩
    · exact Or.inr (hI.deadlocked_of_stuck hs hc)
  · rintro (⟨hd, hc⟩ | ⟨rfl, hdead⟩) l hl
    · cases l with
      | call | click => cases hl
      | display => simp [step, displayStep, hd]
      | clear => simp [step, clearStep, hc]
      | displayTimeout => simp [step, hd]
      | clearTimeout => simp [step, hc]
    · exact hdead.step_eq_none l
  · rintro rfl hdead
    exact hdead.step_eq_none

/-- The window is cleared while a message is on its way to it. -/
def clearInside : List Label :=
  .call [72, 105] 2 :: List.replicate 2 .display ++ .click :: List.replicate 2 .clear

theorem window_stuck_iff_clearInside :
    ∃ s, exec (step .criticalSection) init clearInside = some s ∧ Deadlocked s ∧
      ∀ l, step .criticalSection s l = none := by
  obtain ⟨s, hs, hp⟩ := exec_exists (step .criticalSection) init clearInside
    (fun s => decide (s.lock = some .receiver) && decide (s.clear = .enter) &&
      decide (s.display = .setSel 0)) (by decide)
  simp only [Bool.and_eq_true, decide_eq_true_eq] at hp
  have hdead : Deadlocked s := ⟨hp.1.1, hp.1.2, Or.inr ⟨0, hp.2⟩⟩
  exact ⟨s, hs, hdead, (window_stuck_iff hs).2 rfl hdead⟩

end Cexp.ReceiveWindow
