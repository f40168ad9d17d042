import Cexp.IocpContexts
import Cexp.IocpService

/-! What a run of `startIocpServer` has acquired when it reports that it has stopped: the
context allocated for the client that never came is lost in every run. -/

namespace Cexp.IocpServer

open Transition

variable {K : Type}

inductive Acquired (K : Type) where
  | context (k : K) (c : Nat)
  | socket (k : K) (c : Nat)
  | overlapped (k : K) (c : Nat)

/-- What the main thread acquires for a client in this step. -/
def acquires (s : State K) : Label K → List (Acquired K)
  | .calloc c => s.main.toList.map fun m => .context m.1 c
  | .accept true =>
    match s.main with
    | some (k, .accept c) => [.socket k c]
    | _ => []
  | .recvFirst _ =>
    match s.main with
    | some (k, .recv c) => [.overlapped k c]
    | _ => []
  | _ => []

/-- All that run `k` has acquired is released, and its two threads have ended. -/
structure Released (h : List (Acquired K)) (s : State K) (k : K) : Prop where
  context : ∀ c, .context k c ∈ h → (s.client c).ctx = .freed
  socket : ∀ c, .socket k c ∈ h → (s.client c).socket = .closed
  overlapped : ∀ c, .overlapped k c ∈ h → (s.client c).overlapped = .freed
  completion : (s.completion k).pc = .exited
  handler : s.handler k = .exited

/-- The run has allocated a context that nobody can free any more. -/
def Lost (h : List (Acquired K)) (s : State K) (k : K) : Prop :=
  ∃ c, .context k c ∈ h ∧ (s.client c).ctx = .live ∧ Unseen s c

theorem Lost.not_released {h : List (Acquired K)} {s : State K} {k : K} (hl : Lost h s k) :
    ¬ Released h s k := by
  obtain ⟨c, hc, hx, -⟩ := hl
  intro hr
  have hf := hr.context c hc
  simp [hx] at hf

variable [DecidableEq K]

structure Loses (h : List (Acquired K)) (s : State K) : Prop where
  calls : Calls s
  contexts : Contexts s
  held : ∀ k p c, s.main = some (k, p) → p.context = some c → .context k c ∈ h
  lost : ∀ k p, s.main = some (k, p) → p.left = true → Lost h s k

theorem loses_init : Loses [] (init : State K) where
  calls := calls_init
  contexts := contexts_init
  held _ _ _ hm := by cases hm
  lost _ _ hm := by cases hm

variable [Fintype K]

theorem Step.held {s s' : State K} {l : Label K} {h : List (Acquired K)} (hs : Step s l s')
    (hI : Loses h s) {k : K} {p : MainPc} {c : Nat} (hm : s'.main = some (k, p))
    (hp : p.context = some c) : .context k c ∈ h ++ acquires s l := by
  obtain ⟨-, ⟨q, hq, hc⟩ | ⟨rfl, -⟩⟩ := hs.context_cases hm hp
  · exact List.mem_append_left _ (hI.held k q c hq hc)
  · refine List.mem_append_right _ ?_
    cases hs with
    | calloc hq =>
      obtain ⟨rfl, rfl⟩ := Prod.mk.inj (Option.some.inj hm)
      simp [acquires, hq]

/-- The accept loop ends holding a context, which is lost from then on. -/
theorem Step.lost {s s' : State K} {l : Label K} {h : List (Acquired K)} (hs : Step s l s')
    (hI : Loses h s) {k : K} {p : MainPc} (hm : s'.main = some (k, p)) (hp : p.left = true) :
    Lost (h ++ acquires s l) s' k := by
  have hc := hs.contextChange hI.calls
  have hkeep {c : Nat} (hm : .context k c ∈ h) (hx : (s.client c).ctx = .live)
      (hu : Unseen s c) (hr : l ≠ .recvFirst true) : Lost (h ++ acquires s l) s' k :=
    ⟨c, List.mem_append_left _ hm, hu.live hc hx, hu.next hI.contexts hc fun hl => absurd hl hr⟩
  have hleft {q : MainPc} (hm : s.main = some (k, q)) (hq : q.left = true)
      (hr : l ≠ .recvFirst true) : Lost (h ++ acquires s l) s' k := by
    obtain ⟨c, hc, hx, hu⟩ := hI.lost k q hm hq
    exact hkeep hc hx hu hr
  have hend {q : MainPc} {c : Nat} (hm : s.main = some (k, q)) (hq : q.context = some c)
      (hr : l ≠ .recvFirst true) : Lost (h ++ acquires s l) s' k := by
    obtain ⟨hx, hu⟩ := hI.contexts.main k q c hm hq
    exact hkeep (hI.held k q c hm hq) hx hu hr
  have hr : l ≠ .recvFirst true := by
    rintro rfl
    cases hs
    obtain ⟨rfl, rfl⟩ := Prod.mk.inj (Option.some.inj hm)
    cases hp
  cases hs.mainMove with
  | same hm' => exact hleft (hm' ▸ hm) hp hr
  | start _ _ hj =>
    obtain ⟨rfl, rfl⟩ := Prod.mk.inj (Option.some.inj (hj.symm.trans hm))
    cases hp
  | done _ hj => simp [hj] at hm
  | next hm' hj _ hn =>
    obtain ⟨rfl, rfl⟩ := Prod.mk.inj (Option.some.inj (hj.symm.trans hm))
    rcases hn.left_cases hp with hq | rfl | rfl
    · exact hleft hm' hq hr
    · cases hn with
      | acceptFail => exact hend hm' rfl hr
    · cases hn with
      | recvFirstFail => exact hend hm' rfl hr

/-- No run has released all it acquired when it reports `stateChanged(0)`: a context is lost,
that of its last pass through the accept loop. -/
theorem stopped_run_not_released {tr : List (Label K)} {s : State K} {k : K}
    (h : exec step init tr = some s) (hm : s.main = some (k, .reportStopped)) :
    ¬ Released (outputs step acquires init tr) s k := by
  have hI : Loses (outputs step acquires init tr) s := by
    refine exec_history acquires (I := Loses) (fun h s l t hI hs => ?_) loses_init h
    have hs := step_cases hs
    exact ⟨hs.calls hI.calls, hs.contexts hI.calls hI.contexts, fun k p c => hs.held hI,
      fun k p => hs.lost hI⟩
  exact (hI.lost k .reportStopped hm rfl).not_released

/-- The window is stopped with a client connected, and nothing more to do for the handler. -/
def stopConnected : List (Label Unit) :=
  startRun ++ [.createQueue true, .main] ++ acceptClient 0 ++
    [.dequeue (), .cleanClose, .cleanReset, .calloc 1, .accept false, .main, .getStatus (),
      .completion (), .completion (), .completion (), .waitCompletion false, .waitHandler true,
      .main, .main, .main]

theorem stopped_run_not_released_connected : ∃ s, exec step init stopConnected = some s ∧
    (s.completion ()).pc = .exited ∧ (s.client 0).ctx = .live ∧ (s.client 0).socket = .closed ∧
    ¬ Released (outputs step acquires init stopConnected) s () := by
  obtain ⟨s, hs, hp⟩ := exec_exists step init stopConnected
    (fun s => decide (s.main = some ((), .reportStopped) ∧ (s.completion ()).pc = .exited ∧
      (s.client 0).ctx = .live ∧ (s.client 0).socket = .closed)) (by decide)
  obtain ⟨hm, hpc, hx, hc⟩ := of_decide_eq_true hp
  exact ⟨s, hs, hpc, hx, hc, stopped_run_not_released hs hm⟩

theorem handler_left_waiting : ¬ ∀ (tr : List (Label Unit)) (s : State Unit),
    exec step init tr = some s → s.main = some ((), .reportStopped) →
    Released (outputs step acquires init tr) s () := by
  intro h
  obtain ⟨s, hs, hp⟩ := exec_exists step init stopConnected
    (fun s => decide (s.main = some ((), .reportStopped)) && decide (s.handler () = .inDequeue ()))
    (by decide)
  rw [Bool.and_eq_true, decide_eq_true_eq, decide_eq_true_eq] at hp
  have hx := (h _ s hs hp.1).handler
  simp [hp.2] at hx

end Cexp.IocpServer
