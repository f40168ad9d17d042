import Cexp.GuiInstances

/-! What a failed start leaves behind. `OnStatChanged` stores `wsacode + 1` in the `state` that
`ToggleServer` tests, and `ReadySocket` returns with its socket open. -/

namespace Cexp.GuiServer

open Transition

def ServerPc.serving : ServerPc → Bool
  | .accept | .accepting _ | .recv | .testRecv | .recvError | .shutDown | .closeListener
  | .testCleanup | .cleanup | .clearInit | .reportStopped => true
  | _ => false

/-- Server `i` waits in `accept` on an open socket. -/
def State.listening (s : State) (i : Nat) : Prop :=
  ∃ j, s.server i = .accepting (some j) ∧ s.socket j = .opened

/-- Only a click or a client can make something happen. -/
structure Quiescent (s : State) : Prop where
  gui : s.gui = .idle
  server : ∀ i, s.server i = .notStarted ∨ s.server i = .returned ∨ s.listening i

/-- Server `i` is at `failed` once it has reported that `ReadySocket` failed. -/
structure Restored (s : State) : Prop where
  closed : ∀ i, s.server i = .failed → s.socket i ≠ .opened
  stopped : ∀ i, s.server i = .failed → s.state = 0
  retry : ∀ i t, s.server i = .failed → step s .click = some t → t.gui = .readPort
  running : Quiescent s → s.state ≠ 0 → ∃ i, s.listening i

/-- No failure of `ReadySocket` is reported. -/
def startSucceeds (s : State) : Label → Bool
  | .server i => s.server i ≠ .reportFailed
  | _ => true

structure Unfailed (s : State) : Prop where
  fresh : ∀ i, s.servers ≤ i → s.server i = .notStarted
  failed : ∀ i, s.server i ≠ .failed
  serving : s.state ≠ 0 → ∃ i, (s.server i).serving = true

theorem unfailed_init : Unfailed init where
  fresh _ _ := rfl
  failed _ h := by cases h
  serving h := absurd rfl h

theorem ServerPc.Next.keeps_serving {p q : ServerPc} (h : Next p q) (hp : p.serving = true) :
    q.serving = true := by
  cases h <;> first | rfl | cases hp

theorem ServerPc.Next.not_failed {p q : ServerPc} (h : Next p q) : q ≠ .failed := by
  cases h <;> simp

theorem Unfailed.restored {s : State} (h : Unfailed s) : Restored s where
  closed i hi := absurd hi (h.failed i)
  stopped i hi := absurd hi (h.failed i)
  retry i _ hi := absurd hi (h.failed i)
  running hq hs := by
    obtain ⟨i, hi⟩ := h.serving hs
    refine ⟨i, ?_⟩
    rcases hq.server i with he | he | hl
    · rw [he] at hi
      cases hi
    · rw [he] at hi
      cases hi
    · exact hl

theorem Unfailed.guiMoves {s t : State} (h : Unfailed s) {q : GuiPc} (hm : GuiMoves s t q) :
    Unfailed t := by
  refine ⟨fun i hi => ?_, fun i => ?_, fun hs => ?_⟩
  · rw [hm.server]
    exact h.fresh i (hm.servers ▸ hi)
  · rw [hm.server]
    exact h.failed i
  · rw [hm.server]
    exact h.serving (hm.state ▸ hs)

theorem Unfailed.create {s t : State} (h : Unfailed s)
    (hsv : t.server = Function.update s.server s.servers .entered)
    (hn : t.servers = s.servers + 1) (hst : t.state = s.state) : Unfailed t := by
  refine ⟨fun i hi => ?_, fun i hi => ?_, fun hs => ?_⟩
  · have hne : i ≠ s.servers := by omega
    rw [hsv, Function.update_of_ne hne]
    exact h.fresh i (by omega)
  · rcases moved_cases (P := fun p => p = .failed) hsv hi with ⟨-, hq⟩ | ⟨-, hi⟩
    · cases hq
    · exact h.failed i hi
  · obtain ⟨i, hi⟩ := h.serving (hst ▸ hs)
    have hne : i ≠ s.servers := by
      rintro rfl
      rw [h.fresh _ (Nat.le_refl _)] at hi
      cases hi
    exact ⟨i, by rw [hsv, Function.update_of_ne hne]; exact hi⟩

theorem Unfailed.moves {s t : State} (h : Unfailed s) {i : Nat} {q : ServerPc}
    (hm : Moves s t i q) (ha : (s.server i).active = true) (hq : q ≠ .failed)
    (hs : t.state ≠ 0 → q.serving = true ∨
      s.state ≠ 0 ∧ ((s.server i).serving = true → q.serving = true)) : Unfailed t := by
  refine ⟨fun j hj => hm.fresh ha h.fresh hj, fun j hj => ?_, fun hz => ?_⟩
  · rcases moved_cases (P := fun p => p = .failed) hm.server hj with ⟨-, hf⟩ | ⟨-, hj⟩
    · exact hq hf
    · exact h.failed j hj
  · have hnew (hv : q.serving = true) : ∃ j, (t.server j).serving = true :=
      ⟨i, by rw [hm.server, Function.update_self]; exact hv⟩
    rcases hs hz with hv | ⟨hz', hv⟩
    · exact hnew hv
    · obtain ⟨j, hj⟩ := h.serving hz'
      by_cases hij : j = i
      · exact hnew (hv (hij ▸ hj))
      · exact ⟨j, by rw [hm.server, Function.update_of_ne hij]; exact hj⟩

theorem Unfailed.change {s t : State} {l : Label} (h : Unfailed s) (hc : Change s l t)
    (hok : startSucceeds s l = true) : Unfailed t := by
  cases hc with
  | quiet hm => exact h.guiMoves hm
  | click hl hi hm => exact h.guiMoves hm
  | gui hn hm => exact h.guiMoves hm
  | create hi hsv hn hst => exact h.create hsv hn hst
  | cleanClose hi hm => exact h.guiMoves hm
  | cleanReset hi hm => exact h.guiMoves hm
  | @next i q hn hm hst =>
    exact h.moves hm hn.spec.1 hn.not_failed fun hz => Or.inr ⟨hst ▸ hz, hn.keeps_serving⟩
  | @socket i hi hm hst =>
    refine h.moves hm (by rw [hi]; rfl) (by simp) fun hz => Or.inr ⟨hst ▸ hz, fun hv => ?_⟩
    rw [hi] at hv
    cases hv
  | @noSocket i hi hm hst =>
    refine h.moves hm (by rw [hi]; rfl) (by simp) fun hz => Or.inr ⟨hst ▸ hz, fun hv => ?_⟩
    rw [hi] at hv
    cases hv
  | @close i q hi hm hst =>
    have hq : (s.server i).active = true ∧ q ≠ .failed ∧ q.serving = true := by
      rcases hi with ⟨hi, rfl⟩ | ⟨hi, rfl⟩ <;> rw [hi] <;> exact ⟨rfl, by simp, rfl⟩
    exact h.moves hm hq.1 hq.2.1 fun _ => Or.inl hq.2.2
  | @report i q v hl hr hm hst =>
    subst hl
    have hne : s.server i ≠ .reportFailed := by simpa [startSucceeds] using hok
    have ha := hr.spec.1
    generalize hp : s.server i = p at hr hne
    cases hr with
    | failed => exact absurd rfl hne
    | running => exact h.moves hm ha (by simp) fun _ => Or.inl rfl
    | stopped => exact h.moves hm ha (by simp) fun hz => absurd hst hz

/-- Whatever the failure, its report leaves `state` at `wsacode + 1`. -/
theorem restored_start_succeeds {s t : State} {l : Label} (h : step s l = some t)
    (ht : Restored t) : startSucceeds s l = true := by
  cases l with
  | server i =>
    by_contra hok
    have hi : s.server i = .reportFailed := by simpa [startSucceeds] using hok
    obtain rfl : (s.move i .failed).onStatChanged (s.wsacode + 1) = t := by
      simpa only [step, serverStep, hi, Option.some.injEq] using h
    have hz := ht.stopped i (by simp [State.onStatChanged, State.move])
    exact absurd hz (Nat.succ_ne_zero _)
  | _ => rfl

/-- The window is as it was after every failed start, and not stopped in a quiescent state only
if a server is running, exactly in the runs in which no start fails. -/
theorem failed_start_restored_iff {tr : List Label} {s : State} (h : exec step init tr = some s) :
    Always step Restored init tr ↔ Meets step (fun s l => startSucceeds s l = true) init tr :=
  always_iff_meets (fun _ _ _ hI hok hs => hI.change (step_change hs) hok)
    (fun _ hI => hI.restored) (fun _ _ _ _ => restored_start_succeeds) unfailed_init h

theorem failed_start_restored_iff_restart : ∃ s, exec step init restart = some s ∧
    (Always step Restored init restart ↔
      Meets step (fun s l => startSucceeds s l = true) init restart) ∧
    s.server 1 = .accepting (some 1) := by
  obtain ⟨s, hs, hp⟩ := exec_exists step init restart
    (fun s => decide (s.server 1 = .accepting (some 1))) (by decide)
  exact ⟨s, hs, failed_start_restored_iff hs, of_decide_eq_true hp⟩

def WSAEADDRINUSE : Nat := 10048

/-- Another program has the port. -/
def portInUse : List Label :=
  press ++ [.server 0, .server 0, .startup 0 true, .server 0, .socket 0 true, .bind 0 false,
    .server 0, .lastError 0 WSAEADDRINUSE, .server 0, .server 0, .server 0, .server 0]

theorem failed_start_not_restored : ¬ ∀ (tr : List Label) (s : State),
    exec step init tr = some s → Restored s := by
  intro h
  obtain ⟨s, hs, hp⟩ := exec_exists step init portInUse
    (fun s => decide (s.server 0 = .failed) && decide (s.socket 0 = .opened)) (by decide)
  simp only [Bool.and_eq_true, decide_eq_true_eq] at hp
  exact (h _ s hs).closed 0 hp.1 hp.2

end Cexp.GuiServer
