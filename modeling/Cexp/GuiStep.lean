import Cexp.GuiServer

/-! What one step of the server window can do to the threads, to `state` and to the listening
sockets. The invariants are proved by cases on this. -/

namespace Cexp.GuiServer

/-- The moves of a server thread that touch neither `state` nor a socket. -/
inductive ServerPc.Next : ServerPc → ServerPc → Prop where
  | entered : Next .entered .testInit
  | initialized : Next .testInit .socket
  | uninitialized : Next .testInit .startup
  | startupOk : Next .startup .setInit
  | startupFailed : Next .startup .getError
  | setInit : Next .setInit .socket
  | bind : Next .bind .testBind
  | bindFailed : Next .testBind .getError
  | bindOk : Next .testBind .listen
  | listen : Next .listen (.assign 0)
  | getError : Next .getError .returnError
  | returnError {code : Nat} : Next .returnError (.assign code)
  | assign {code : Nat} : Next (.assign code) .testCode
  | codeFailed : Next .testCode .reportFailed
  | codeOk : Next .testCode .setUp
  | failed : Next .failed .returned
  | setUp : Next .setUp .reportRunning
  | accept {fd : Option Nat} : Next .accept (.accepting fd)
  | accepted {fd : Option Nat} : Next (.accepting fd) .recv
  | acceptFailed {fd : Option Nat} : Next (.accepting fd) .shutDown
  | recv : Next .recv .testRecv
  | recvFailed : Next .testRecv .recvError
  | recvOk : Next .testRecv .accept
  | pending : Next .recvError .accept
  | notPending : Next .recvError .shutDown
  | shutDown : Next .shutDown .closeListener
  | cleanup : Next .testCleanup .cleanup
  | noCleanup : Next .testCleanup .reportStopped
  | clearInit : Next .clearInit .reportStopped
  | returning : Next .returning .returned

/-- The steps of `ToggleServer` up to the new thread. -/
inductive GuiPc.Next : GuiPc → GuiPc → Prop where
  | portError : Next .readPort .idle
  | port : Next .readPort .localIp
  | localIp : Next .localIp .localIpCleanup
  | localIpCleanup : Next .localIpCleanup .createThread

/-- `OnStatChanged` with its argument, and where the thread is before and after it. -/
inductive ServerPc.Report (wsacode : Nat) : ServerPc → ServerPc → Nat → Prop where
  | failed : Report wsacode .reportFailed .failed (wsacode + 1)
  | running : Report wsacode .reportRunning .accept 1
  | stopped : Report wsacode .reportStopped .returning 0

/-- Sockets are closed at most. -/
structure Closes (f g : Nat → Sock) : Prop where
  opened : ∀ i, g i = .opened → f i = .opened
  unused : ∀ i, f i = .unused → g i = .unused

theorem Closes.refl (f : Nat → Sock) : Closes f f := ⟨fun _ => id, fun _ => id⟩

theorem closes_closesocket (s : State) : Closes s.socket s.closesocket.socket where
  opened i h := by
    simp only [State.closesocket] at h
    split at h
    · cases h
    · exact h
  unused i h := by simp [State.closesocket, h]

theorem closes_wsaCleanup (s : State) : Closes s.socket s.wsaCleanup.socket where
  opened i h := by
    simp only [State.wsaCleanup] at h
    split at h
    · cases h
    · exact h
  unused i h := by simp [State.wsaCleanup, h]

/-- The thread has called `socket`, and has no error to return with. -/
def State.pastSocket (s : State) (i : Nat) : Bool :=
  match s.server i with
  | .bind | .testBind | .listen | .setUp | .reportRunning | .accept | .accepting _ | .recv
  | .testRecv | .recvError => true
  | .assign code => decide (code = 0)
  | .returnError | .testCode => decide (s.wsacode = 0)
  | _ => false

/-- The fields that a step of thread `i` to `q` leaves alone or changes. -/
structure Moves (s t : State) (i : Nat) (q : ServerPc) : Prop where
  server : t.server = Function.update s.server i q
  servers : t.servers = s.servers
  gui : t.gui = s.gui

structure GuiMoves (s t : State) (q : GuiPc) : Prop where
  server : t.server = s.server
  servers : t.servers = s.servers
  state : t.state = s.state
  gui : t.gui = q
  pastSocket : ∀ i, t.pastSocket i = true → s.pastSocket i = true

inductive Change (s : State) (l : Label) (t : State) : Prop where
  | quiet (hm : GuiMoves s t s.gui) (hg : t.gsSocket = s.gsSocket) (hs : t.socket = s.socket)
  | click (hl : l = .click) (hi : s.gui = .idle)
    (hm : GuiMoves s t (if s.state ≠ 0 then .cleanClose else .readPort))
    (hg : t.gsSocket = s.gsSocket) (hs : t.socket = s.socket)
  | gui {q : GuiPc} (hn : GuiPc.Next s.gui q) (hm : GuiMoves s t q)
    (hg : t.gsSocket = s.gsSocket) (hs : Closes s.socket t.socket)
  | create (hi : s.gui = .createThread)
    (hsv : t.server = Function.update s.server s.servers .entered)
    (hn : t.servers = s.servers + 1) (hst : t.state = s.state) (hgui : t.gui = .idle)
    (hg : t.gsSocket = s.gsSocket) (hs : t.socket = s.socket)
  | cleanClose (hi : s.gui = .cleanClose) (hm : GuiMoves s t .cleanReset)
    (hg : t.gsSocket = s.gsSocket) (hs : t.socket = s.closesocket.socket)
  | cleanReset (hi : s.gui = .cleanReset) (hm : GuiMoves s t .idle) (hg : t.gsSocket = none)
    (hs : t.socket = s.socket)
  | next {i : Nat} {q : ServerPc} (hn : ServerPc.Next (s.server i) q) (hm : Moves s t i q)
    (hst : t.state = s.state) (hg : t.gsSocket = s.gsSocket) (hs : t.socket = s.socket)
    (hp : t.pastSocket i = true → s.pastSocket i = true)
  | socket {i : Nat} (hi : s.server i = .socket) (hm : Moves s t i .bind)
    (hst : t.state = s.state) (hg : t.gsSocket = some i)
    (hs : t.socket = Function.update s.socket i .opened)
  | noSocket {i : Nat} (hi : s.server i = .socket) (hm : Moves s t i .bind)
    (hst : t.state = s.state) (hg : t.gsSocket = none) (hs : t.socket = s.socket)
  | close {i : Nat} {q : ServerPc} (hi : s.server i = .closeListener ∧ q = .testCleanup ∨
      s.server i = .cleanup ∧ q = .clearInit) (hm : Moves s t i q) (hst : t.state = s.state)
    (hg : t.gsSocket = s.gsSocket) (hs : Closes s.socket t.socket)
  | report {i : Nat} {q : ServerPc} {v : Nat} (hl : l = .server i)
    (hr : ServerPc.Report s.wsacode (s.server i) q v) (hm : Moves s t i q) (hst : t.state = v)
    (hg : t.gsSocket = s.gsSocket) (hs : t.socket = s.socket)

theorem guiStep_change {s t : State} (h : guiStep s = some t) : Change s .gui t := by
  unfold guiStep at h
  split at h
  case h_5 => cases h
  all_goals obtain rfl := Option.some.inj h
  · exact .cleanClose ‹_› ⟨rfl, rfl, rfl, rfl, fun _ => id⟩ rfl rfl
  · exact .cleanReset ‹_› ⟨rfl, rfl, rfl, rfl, fun _ => id⟩ rfl rfl
  · exact .gui (by rw [‹s.gui = _›]; exact .localIpCleanup) ⟨rfl, rfl, rfl, rfl, fun _ => id⟩ rfl
      (closes_wsaCleanup s)
  · exact .create ‹_› rfl rfl rfl rfl rfl rfl

theorem serverStep_change {s t : State} {i : Nat} (h : serverStep s i = some t) :
    Change s (.server i) t := by
  have hnext {q : ServerPc} {u : State} (hn : ServerPc.Next (s.server i) q) (hm : Moves s u i q)
      (hst : u.state = s.state) (hg : u.gsSocket = s.gsSocket) (hs : u.socket = s.socket)
      (hb : u.pastSocket i = true → s.pastSocket i = true) : Change s (.server i) u :=
    .next hn hm hst hg hs hb
  unfold serverStep at h
  split at h
  case h_22 => cases h
  all_goals
    obtain rfl := Option.some.inj h
    have hp := ‹s.server i = _›
  · exact hnext (hp ▸ .entered) ⟨rfl, rfl, rfl⟩ rfl rfl rfl
      (by simp [State.pastSocket, State.move, hp])
  · split
    · exact hnext (hp ▸ .initialized) ⟨rfl, rfl, rfl⟩ rfl rfl rfl
        (by simp [State.pastSocket, State.move, hp])
    · exact hnext (hp ▸ .uninitialized) ⟨rfl, rfl, rfl⟩ rfl rfl rfl
        (by simp [State.pastSocket, State.move, hp])
  · exact hnext (hp ▸ .setInit) ⟨rfl, rfl, rfl⟩ rfl rfl rfl
      (by simp [State.pastSocket, State.move, hp])
  · split
    · exact hnext (hp ▸ .bindFailed) ⟨rfl, rfl, rfl⟩ rfl rfl rfl
        (by simp [State.pastSocket, State.move, hp])
    · exact hnext (hp ▸ .bindOk) ⟨rfl, rfl, rfl⟩ rfl rfl rfl
        (by simp [State.pastSocket, State.move, hp])
  · exact hnext (hp ▸ .listen) ⟨rfl, rfl, rfl⟩ rfl rfl rfl
      (by simp [State.pastSocket, State.move, hp])
  · exact hnext (hp ▸ .returnError) ⟨rfl, rfl, rfl⟩ rfl rfl rfl
      (by simp [State.pastSocket, State.move, hp])
  · exact hnext (hp ▸ .assign) ⟨rfl, rfl, rfl⟩ rfl rfl rfl
      (by simp [State.pastSocket, State.move, hp])
  · split
    · exact hnext (hp ▸ .codeFailed) ⟨rfl, rfl, rfl⟩ rfl rfl rfl
        (by simp [State.pastSocket, State.move, hp])
    · refine hnext (hp ▸ .codeOk) ⟨rfl, rfl, rfl⟩ rfl rfl rfl fun _ => ?_
      simpa [State.pastSocket, hp] using ‹¬s.wsacode ≠ 0›
  · exact .report rfl (hp ▸ .failed) ⟨rfl, rfl, rfl⟩ rfl rfl rfl
  · exact hnext (hp ▸ .failed) ⟨rfl, rfl, rfl⟩ rfl rfl rfl
      (by simp [State.pastSocket, State.move, hp])
  · exact hnext (hp ▸ .setUp) ⟨rfl, rfl, rfl⟩ rfl rfl rfl
      (by simp [State.pastSocket, State.move, hp])
  · exact .report rfl (hp ▸ .running) ⟨rfl, rfl, rfl⟩ rfl rfl rfl
  · exact hnext (hp ▸ .accept) ⟨rfl, rfl, rfl⟩ rfl rfl rfl
      (by simp [State.pastSocket, State.move, hp])
  · split
    · exact hnext (hp ▸ .recvFailed) ⟨rfl, rfl, rfl⟩ rfl rfl rfl
        (by simp [State.pastSocket, State.move, hp])
    · exact hnext (hp ▸ .recvOk) ⟨rfl, rfl, rfl⟩ rfl rfl rfl
        (by simp [State.pastSocket, State.move, hp])
  · exact hnext (hp ▸ .shutDown) ⟨rfl, rfl, rfl⟩ rfl rfl rfl
      (by simp [State.pastSocket, State.move, hp])
  · exact .close (Or.inl ⟨hp, rfl⟩) ⟨rfl, rfl, rfl⟩ rfl rfl (closes_closesocket s)
  · split
    · exact hnext (hp ▸ .cleanup) ⟨rfl, rfl, rfl⟩ rfl rfl rfl
        (by simp [State.pastSocket, State.move, hp])
    · exact hnext (hp ▸ .noCleanup) ⟨rfl, rfl, rfl⟩ rfl rfl rfl
        (by simp [State.pastSocket, State.move, hp])
  · exact .close (Or.inr ⟨hp, rfl⟩) ⟨rfl, rfl, rfl⟩ rfl rfl (closes_wsaCleanup s)
  · exact hnext (hp ▸ .clearInit) ⟨rfl, rfl, rfl⟩ rfl rfl rfl
      (by simp [State.pastSocket, State.move, hp])
  · exact .report rfl (hp ▸ .stopped) ⟨rfl, rfl, rfl⟩ rfl rfl rfl
  · exact hnext (hp ▸ .returning) ⟨rfl, rfl, rfl⟩ rfl rfl rfl
      (by simp [State.pastSocket, State.move, hp])

theorem step_change {s t : State} {l : Label} (h : step s l = some t) : Change s l t := by
  cases l with
  | gui => exact guiStep_change h
  | server i => exact serverStep_change h
  | click =>
    simp only [step] at h
    split at h <;> cases h
    exact .click rfl ‹_› ⟨rfl, rfl, rfl, rfl, fun _ => id⟩ rfl rfl
  | readPort port =>
    simp only [step] at h
    split at h <;> cases h
    refine .gui ?_ ⟨rfl, rfl, rfl, rfl, fun _ => id⟩ rfl (.refl _)
    rw [‹s.gui = _›]
    split
    · exact .portError
    · exact .port
  | localIp ok =>
    simp only [step] at h
    split at h <;> cases h
    exact .gui (by rw [‹s.gui = _›]; exact .localIp) ⟨rfl, rfl, rfl, rfl, fun _ => id⟩ rfl (.refl _)
  | startup i ok =>
    simp only [step] at h
    split at h
    case h_2 => cases h
    case h_1 hp =>
      split at h <;> cases h
      · exact .next (hp ▸ .startupOk) ⟨rfl, rfl, rfl⟩ rfl rfl rfl
          (by simp [State.pastSocket, State.move, hp])
      · exact .next (hp ▸ .startupFailed) ⟨rfl, rfl, rfl⟩ rfl rfl rfl
          (by simp [State.pastSocket, State.move, hp])
  | socket i ok =>
    simp only [step] at h
    split at h
    case h_2 => cases h
    case h_1 hp =>
      split at h
      · split at h <;> cases h
        exact .socket hp ⟨rfl, rfl, rfl⟩ rfl rfl rfl
      · cases h
        exact .noSocket hp ⟨rfl, rfl, rfl⟩ rfl rfl rfl
  | bind i ok =>
    simp only [step] at h
    split at h
    case h_2 => cases h
    case h_1 hp =>
      split at h
      · split at h <;> cases h
        exact .next (hp ▸ .bind) ⟨rfl, rfl, rfl⟩ rfl rfl rfl
          (by simp [State.pastSocket, State.move, hp])
      · cases h
        exact .next (hp ▸ .bind) ⟨rfl, rfl, rfl⟩ rfl rfl rfl
          (by simp [State.pastSocket, State.move, hp])
  | lastError i code =>
    simp only [step] at h
    split at h
    case isFalse => cases h
    case isTrue hcode =>
      split at h <;> cases h
      · exact .next (‹s.server i = _› ▸ .getError) ⟨rfl, rfl, rfl⟩ rfl rfl rfl
          (by simp [State.pastSocket, State.move, Nat.ne_of_gt hcode])
      · refine .next (q := if code ≠ ERROR_IO_PENDING then .shutDown else .accept) ?_ ⟨rfl, rfl, rfl⟩
          rfl rfl rfl (by simp [State.pastSocket, ‹s.server i = _›])
        rw [‹s.server i = _›]
        split
        · exact .notPending
        · exact .pending
  | accept i ok =>
    simp only [step] at h
    split at h
    case h_2 => cases h
    case h_1 hp =>
      split at h
      · split at h <;> cases h
        exact .next (hp ▸ .accepted) ⟨rfl, rfl, rfl⟩ rfl rfl rfl
          (by simp [State.pastSocket, State.move, hp])
      · cases h
        exact .next (hp ▸ .acceptFailed) ⟨rfl, rfl, rfl⟩ rfl rfl rfl
          (by simp [State.pastSocket, State.move, hp])
  | recv i ok =>
    simp only [step] at h
    split at h <;> cases h
    exact .next (‹s.server i = _› ▸ .recv) ⟨rfl, rfl, rfl⟩ rfl rfl rfl
      (by simp [State.pastSocket, State.move, ‹s.server i = _›])
  | completionError i code =>
    simp only [step] at h
    split at h <;> cases h
    have hcode : code ≠ 0 := by omega
    refine .quiet ⟨rfl, rfl, rfl, rfl, fun j hj => ?_⟩ rfl rfl
    simp only [State.pastSocket] at hj ⊢
    split at hj <;> simp_all
  | completionExit i =>
    simp only [step] at h
    split at h <;> cases h
    exact .quiet ⟨rfl, rfl, rfl, rfl, fun _ => id⟩ rfl rfl

end Cexp.GuiServer
