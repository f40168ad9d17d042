import Cexp.QueueHistory

/-! `destroyQueue` against the threads still inside the queue: which steps use the queue
object, and that every run which frees it goes on to use it. -/

namespace Cexp.BlockingQueue

open Transition

variable {T D : Type}

/-- `free(q)` has run. -/
def freed (s : State T D) : Bool :=
  match s.destroyer with
  | .leave | .delete | .returned => true
  | _ => false

/-- The step reads a field of the queue object, or enters, leaves, sleeps on, wakes or
deletes its lock or one of its condition variables. -/
def touches (s : State T D) : Label T D → Bool
  | .enter _ | .test _ | .sleep _ | .leaveStopped _ | .body _ | .wake _ _ => true
  | .destroy _ =>
    match s.destroyer with
    | .enter | .wakeNotEmpty | .wakeNotFull | .freeNodes | .leave | .delete => true
    | _ => false
  | _ => false

variable [DecidableEq T] [Fintype T]

def SafeAfterFree (size : Int32) (tr : List (Label T D)) : Prop :=
  ∀ pre l post s, tr = pre ++ l :: post → exec step (createQueue size) pre = some s →
    freed s = true → touches s l = false

theorem SafeAfterFree.of_append {size : Int32} {tr more : List (Label T D)}
    (h : SafeAfterFree size (tr ++ more)) : SafeAfterFree size tr := by
  intro pre l post s he hs hf
  exact h pre l (post ++ more) s (by simp [he]) hs hf

theorem not_safe_of_left {size : Int32} {tr : List (Label T D)} {s : State T D}
    (h : exec step (createQueue size) tr = some s) :
    s.destroyer = .delete ∨ s.destroyer = .returned → ¬ SafeAfterFree size tr := by
  refine exec_prefix_induction (P := fun tr s => s.destroyer = .delete ∨
    s.destroyer = .returned → ¬ SafeAfterFree size tr) (by simp [createQueue]) ?_ h
  intro tr s l s' he ih hs hd hsafe
  by_cases hsd : s.destroyer = .delete ∨ s.destroyer = .returned
  · exact ih hsd hsafe.of_append
  · cases step_cases hs with
    | @destroy junk _ hstep =>
      cases hp : s.destroyer <;> simp only [destroyStep, hp] at hstep
      case leave =>
        have hh := hsafe tr (.destroy junk) [] s rfl he (by simp [freed, hp])
        simp [touches, hp] at hh
      case delete | returned => simp [hp] at hsd
      all_goals
        repeat' split at hstep
        all_goals cases hstep
        all_goals simp at hd
    | _ => exact hsd hd

/-- Every run that reaches `free(q)` has used the queue object since, or does so at once:
`destroyQueue` itself goes on to leave and delete the lock inside it. -/
theorem destroyQueue_never_safe {size : Int32} {tr : List (Label T D)} {s : State T D}
    (h : exec step (createQueue size) tr = some s) (hf : freed s = true) :
    ∃ more, (exec step (createQueue size) (tr ++ more)).isSome = true ∧
      ¬ SafeAfterFree size (tr ++ more) := by
  cases hp : s.destroyer with
  | leave =>
    let s' : State T D := { s with lock := none, destroyer := .delete }
    have hs : step s (.destroy none) = some s' := by simp only [step, destroyStep, hp, s']
    have he : exec step (createQueue size) (tr ++ [.destroy none]) = some s' :=
      exec_append.mpr ⟨s, h, exec_cons.mpr ⟨s', hs, rfl⟩⟩
    exact ⟨[.destroy none], by simp [he], not_safe_of_left he (Or.inl rfl)⟩
  | delete => exact ⟨[], by simp [h], by simpa using not_safe_of_left h (Or.inl hp)⟩
  | returned => exact ⟨[], by simp [h], by simpa using not_safe_of_left h (Or.inr hp)⟩
  | _ => simp [freed, hp] at hf

def shutDown : List (Label Role Nat) :=
  [.dequeue .consumer, .enter .consumer, .test .consumer, .sleep .consumer] ++
    List.replicate 6 (.destroy none)

theorem destroyQueue_never_safe_shutDown :
    ∃ more, (exec step (createQueue 2) (shutDown ++ more)).isSome = true ∧
      ¬ SafeAfterFree 2 (shutDown ++ more) := by
  obtain ⟨s, hs, hp⟩ := exec_exists step (createQueue 2) shutDown freed (by decide)
  exact destroyQueue_never_safe hs hp

/-- `destroyQueue` leaves the freed lock, and the woken consumer then enters it. -/
theorem destroyQueue_use_after_free :
    ¬ ∀ (size : Int32) (tr : List (Label Role Nat)),
      (exec step (createQueue size) tr).isSome = true → SafeAfterFree size tr := by
  intro h
  have hsafe := h 2 (shutDown ++ [.destroy none, .enter .consumer]) (by decide)
  obtain ⟨s, hs, hp⟩ := exec_exists step (createQueue 2)
    (shutDown ++ [.destroy none]) (fun s => freed s && touches s (.enter .consumer)) (by decide)
  rw [Bool.and_eq_true] at hp
  have hh := hsafe (shutDown ++ [.destroy none]) (.enter .consumer) [] s (by simp) hs hp.1
  simp [hp.2] at hh

end Cexp.BlockingQueue
