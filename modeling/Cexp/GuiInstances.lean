import Cexp.GuiStep

/-! How many servers the button can start: `ToggleServer` decides by `state`, which a server
sets only once it has come up, and every server has the same `g_sSocket`. -/

namespace Cexp.GuiServer

open Transition

/-- The call of `startServerThred` has begun and not returned. -/
def ServerPc.active : ServerPc → Bool
  | .notStarted | .returned => false
  | _ => true

/-- The server has reported nothing yet. -/
def ServerPc.starting : ServerPc → Bool
  | .entered | .testInit | .startup | .setInit | .socket | .bind | .testBind | .listen | .getError
  | .returnError | .assign _ | .testCode | .reportFailed | .setUp | .reportRunning => true
  | _ => false

def ServerPc.beforeSocket : ServerPc → Bool
  | .notStarted | .entered | .testInit | .startup | .setInit | .socket => true
  | _ => false

def GuiPc.opening : GuiPc → Bool
  | .readPort | .localIp | .localIpCleanup | .createThread => true
  | _ => false

def GuiPc.cleaning : GuiPc → Bool
  | .cleanClose | .cleanReset => true
  | _ => false

/-- The button starts a server only when every earlier one has returned. -/
def stoppedFirst (s : State) : Label → Bool
  | .click => s.state ≠ 0 || decide (∀ i < s.servers, (s.server i).active = false)
  | _ => true

structure Exclusive (s : State) : Prop where
  fresh : ∀ i, s.servers ≤ i → s.server i = .notStarted
  unused : ∀ i, (s.server i).beforeSocket = true → s.socket i = .unused
  sole : ∀ i j, (s.server i).active = true → (s.server j).active = true → i = j
  opening : s.gui.opening = true → s.state = 0 ∧ ∀ i, (s.server i).active = false
  starting : ∀ i, (s.server i).starting = true → s.state = 0 ∧ s.gui.cleaning = false
  own : ∀ i, (s.server i).active = true → s.socket i = .opened → s.gsSocket = some i
  named : ∀ i, s.pastSocket i = true → s.gsSocket = some i ∨ s.gsSocket = none
  cleaned : s.gui = .cleanReset → ∀ i, (s.server i).active = true → s.socket i ≠ .opened

theorem active_of_pastSocket {s : State} {i : Nat} (h : s.pastSocket i = true) :
    (s.server i).active = true := by
  cases hp : s.server i <;> simp_all [State.pastSocket, ServerPc.active]

theorem ServerPc.active_of_starting {p : ServerPc} (h : p.starting = true) : p.active = true := by
  cases p <;> simp_all [starting, active]

theorem GuiPc.Next.spec {p q : GuiPc} (h : Next p q) : p.opening = true ∧ q.cleaning = false := by
  cases h <;> exact ⟨rfl, rfl⟩

theorem ServerPc.Next.spec {p q : ServerPc} (h : Next p q) : p.active = true ∧
    (q.starting = true → p.starting = true) ∧ (q.beforeSocket = true → p.beforeSocket = true) := by
  cases h <;> simp [active, starting, beforeSocket]

theorem ServerPc.Report.spec {w v : Nat} {p q : ServerPc} (h : Report w p q v) :
    p.active = true ∧ q.starting = false ∧ q.beforeSocket = false := by
  cases h <;> simp [active, starting, beforeSocket]

theorem ServerPc.Report.pastSocket {w v : Nat} {s t : State} {i : Nat} {q : ServerPc}
    (h : Report w (s.server i) q v) (hm : Moves s t i q) (ht : t.pastSocket i = true) :
    s.pastSocket i = true := by
  generalize hp : s.server i = p at h
  cases h <;> simp_all [State.pastSocket, hm.server]

theorem moved_cases {P : ServerPc → Prop} {s t : State} {i j : Nat} {q : ServerPc}
    (hm : t.server = Function.update s.server i q) (h : P (t.server j)) :
    (j = i ∧ P q) ∨ (j ≠ i ∧ P (s.server j)) := by
  rw [hm] at h
  by_cases hj : j = i
  · subst hj
    exact Or.inl ⟨rfl, by simpa using h⟩
  · exact Or.inr ⟨hj, by simpa [hj] using h⟩

theorem Moves.fresh {s t : State} {i j : Nat} {q : ServerPc} (hm : Moves s t i q)
    (ha : (s.server i).active = true) (hf : ∀ j, s.servers ≤ j → s.server j = .notStarted)
    (hj : t.servers ≤ j) : t.server j = .notStarted := by
  have hfj := hf j (hm.servers ▸ hj)
  have hne : j ≠ i := by
    rintro rfl
    rw [hfj] at ha
    cases ha
  rw [hm.server, Function.update_of_ne hne, hfj]

theorem Exclusive.guiMoves {s t : State} (h : Exclusive s) {q : GuiPc} (hm : GuiMoves s t q)
    (hg : t.gsSocket = s.gsSocket) (hs : Closes s.socket t.socket)
    (ho : q.opening = true → s.state = 0 ∧ ∀ i, (s.server i).active = false)
    (hc : q.cleaning = true → ∀ i, (s.server i).starting = false)
    (hr : q = .cleanReset → ∀ i, (s.server i).active = true → t.socket i ≠ .opened) :
    Exclusive t := by
  have hsv (i : Nat) : t.server i = s.server i := by rw [hm.server]
  refine ⟨fun i hi => ?_, fun i hi => ?_, fun i j hi hj => ?_, fun hq => ?_, fun i hi => ?_,
    fun i hi hso => ?_, fun i hi => ?_, fun hq i hi => ?_⟩
  · exact (hsv i).trans (h.fresh i (hm.servers ▸ hi))
  · exact hs.unused i (h.unused i (hsv i ▸ hi))
  · exact h.sole i j (hsv i ▸ hi) (hsv j ▸ hj)
  · rw [hm.gui] at hq
    rw [hm.state, hm.server]
    exact ho hq
  · rw [hsv] at hi
    refine ⟨hm.state.trans (h.starting i hi).1, ?_⟩
    rw [hm.gui]
    by_contra hcl
    have hst := hc (by simpa using hcl) i
    simp [hi] at hst
  · exact hg.trans (h.own i (hsv i ▸ hi) (hs.opened i hso))
  · rw [hg]
    exact h.named i (hm.pastSocket i hi)
  · exact hr (hm.gui ▸ hq) i (hsv i ▸ hi)

theorem Exclusive.moves {s t : State} (h : Exclusive s) {i : Nat} {q : ServerPc}
    (hm : Moves s t i q) (ha : (s.server i).active = true)
    (hst : q.starting = true → (s.server i).starting = true ∧ t.state = s.state)
    (hb : q.beforeSocket = true → t.socket i = .unused)
    (hkeep : ∀ j, j ≠ i → s.socket j = .unused → t.socket j = .unused)
    (hown : t.socket i = .opened → t.gsSocket = some i)
    (hn : t.pastSocket i = true → t.gsSocket = some i ∨ t.gsSocket = none)
    (hcl : t.gui = .cleanReset → t.socket i ≠ .opened) : Exclusive t := by
  have hother {j : Nat} (hj : (t.server j).active = true) : j = i := by
    rcases moved_cases (P := fun p => p.active = true) hm.server hj with ⟨hj, -⟩ | ⟨-, hj⟩
    · exact hj
    · exact h.sole j i hj ha
  refine ⟨fun j hj => hm.fresh ha h.fresh hj, fun j hj => ?_, fun j k hj hk => ?_, fun ho => ?_,
    fun j hj => ?_, fun j hj hso => ?_, fun j hj => ?_, fun hr j hj => ?_⟩
  · rcases moved_cases (P := fun p => p.beforeSocket = true) hm.server hj with ⟨rfl, hq⟩ | ⟨hne, hj⟩
    · exact hb hq
    · exact hkeep j hne (h.unused j hj)
  · exact (hother hj).trans (hother hk).symm
  · rw [hm.gui] at ho
    have hi := (h.opening ho).2 i
    simp [ha] at hi
  · obtain rfl := hother (ServerPc.active_of_starting hj)
    rw [hm.server, Function.update_self] at hj
    obtain ⟨hs, he⟩ := hst hj
    rw [he, hm.gui]
    exact h.starting j hs
  · obtain rfl := hother hj
    exact hown hso
  · obtain rfl := hother (active_of_pastSocket hj)
    exact hn hj
  · obtain rfl := hother hj
    exact hcl hr

theorem Exclusive.create {s t : State} (h : Exclusive s) (hi : s.gui = .createThread)
    (hsv : t.server = Function.update s.server s.servers .entered)
    (hn : t.servers = s.servers + 1) (hst : t.state = s.state) (hgui : t.gui = .idle)
    (hs : t.socket = s.socket) : Exclusive t := by
  obtain ⟨hzero, hnone⟩ := h.opening (by rw [hi]; rfl)
  have hnew : s.socket s.servers = .unused := by
    refine h.unused _ ?_
    rw [h.fresh _ (Nat.le_refl _)]
    rfl
  have hlast {j : Nat} (hj : (t.server j).active = true) : j = s.servers := by
    rcases moved_cases (P := fun p => p.active = true) hsv hj with ⟨hj, -⟩ | ⟨-, hj⟩
    · exact hj
    · simp [hnone j] at hj
  have hclosed {j : Nat} (hj : (t.server j).active = true) : t.socket j ≠ .opened := by
    rw [hlast hj, hs, hnew]
    simp
  refine ⟨fun j hj => ?_, fun j hj => ?_, fun j k hj hk => ?_, fun ho => ?_, fun j hj => ?_,
    fun j hj hso => absurd hso (hclosed hj), fun j hj => ?_, fun _ j hj => hclosed hj⟩
  · have hne : j ≠ s.servers := by omega
    rw [hsv, Function.update_of_ne hne]
    exact h.fresh j (by omega)
  · rw [hs]
    rcases moved_cases (P := fun p => p.beforeSocket = true) hsv hj with ⟨rfl, -⟩ | ⟨-, hj⟩
    · exact hnew
    · exact h.unused j hj
  · exact (hlast hj).trans (hlast hk).symm
  · rw [hgui] at ho
    cases ho
  · rw [hst, hgui]
    exact ⟨hzero, rfl⟩
  · obtain rfl := hlast (active_of_pastSocket hj)
    simp [State.pastSocket, hsv] at hj

theorem Exclusive.inactive {s : State} (h : Exclusive s) (hz : s.state = 0)
    (hok : stoppedFirst s .click = true) (i : Nat) : (s.server i).active = false := by
  rcases Nat.lt_or_ge i s.servers with hlt | hge
  · simp only [stoppedFirst, hz, ne_eq, not_true_eq_false, decide_false, Bool.false_or,
      decide_eq_true_eq] at hok
    exact hok i hlt
  · rw [h.fresh i hge]
    rfl

theorem Exclusive.change {s t : State} {l : Label} (h : Exclusive s) (hc : Change s l t)
    (hok : stoppedFirst s l = true) : Exclusive t := by
  cases hc with
  | quiet hm hg hs =>
    refine h.guiMoves hm hg (hs ▸ .refl _) h.opening (fun hcl i => ?_) (fun hr i hi => ?_)
    · by_contra hst
      have := (h.starting i (by simpa using hst)).2
      simp [hcl] at this
    · exact hs ▸ h.cleaned hr i hi
  | click hl hi hm hg hs =>
    subst hl
    by_cases hz : s.state = 0
    · rw [if_neg (not_not.mpr hz)] at hm
      exact h.guiMoves hm hg (hs ▸ .refl _) (fun _ => ⟨hz, h.inactive hz hok⟩)
        (fun hq => by cases hq) (fun hq => by cases hq)
    · rw [if_pos hz] at hm
      refine h.guiMoves hm hg (hs ▸ .refl _) (fun hq => by cases hq) (fun _ i => ?_)
        (fun hq => by cases hq)
      by_contra hst
      exact hz (h.starting i (by simpa using hst)).1
  | gui hn hm hg hs =>
    obtain ⟨ho, hcl⟩ := hn.spec
    refine h.guiMoves hm hg hs (fun _ => h.opening ho) (fun hq => by simp [hcl] at hq) fun hq => ?_
    rw [hq] at hcl
    cases hcl
  | create hi hsv hn hst hgui hg hs => exact h.create hi hsv hn hst hgui hs
  | cleanClose hi hm hg hs =>
    refine h.guiMoves hm hg (hs ▸ closes_closesocket s) (fun hq => by cases hq) (fun _ i => ?_)
      (fun _ i hi' hso => ?_)
    · by_contra hst
      have := (h.starting i (by simpa using hst)).2
      simp [hi, GuiPc.cleaning] at this
    · rw [hs] at hso
      have hopen := (closes_closesocket s).opened i hso
      simp [State.closesocket, h.own i hi' hopen, hopen] at hso
  | cleanReset hi hm hg hs =>
    have hm' : GuiMoves s { t with gsSocket := s.gsSocket } .idle :=
      ⟨hm.server, hm.servers, hm.state, hm.gui, hm.pastSocket⟩
    have ht := h.guiMoves hm' rfl (hs ▸ .refl _) (fun hq => by cases hq) (fun hq => by cases hq)
      (fun hq => by cases hq)
    refine ⟨ht.fresh, ht.unused, ht.sole, ht.opening, ht.starting, fun i ha hso => ?_,
      fun _ _ => Or.inr hg, ht.cleaned⟩
    exact absurd (hs ▸ hso) (h.cleaned hi i (hm.server ▸ ha))
  | @next i q hn hm hst hg hs hp =>
    obtain ⟨ha, hstart, hb⟩ := hn.spec
    exact h.moves hm ha (fun hq => ⟨hstart hq, hst⟩) (fun hq => hs ▸ h.unused i (hb hq))
      (fun j _ hj => hs ▸ hj) (fun ho => hg.trans (h.own i ha (hs ▸ ho)))
      (fun hi => hg ▸ h.named i (hp hi)) (fun hr ho => h.cleaned (hm.gui ▸ hr) i ha (hs ▸ ho))
  | @socket i hi hm hst hg hs =>
    have hstart : (s.server i).starting = true := by rw [hi]; rfl
    refine h.moves hm (by rw [hi]; rfl) (fun _ => ⟨hstart, hst⟩) (fun hq => by cases hq)
      (fun j hne hj => ?_) (fun _ => hg) (fun _ => Or.inl hg) (fun hr => ?_)
    · rw [hs, Function.update_of_ne hne]
      exact hj
    · have := (h.starting i hstart).2
      simp [← hm.gui, hr, GuiPc.cleaning] at this
  | @noSocket i hi hm hst hg hs =>
    have hunused : t.socket i = .unused := by
      rw [hs]
      exact h.unused i (by rw [hi]; rfl)
    exact h.moves hm (by rw [hi]; rfl) (fun _ => ⟨by rw [hi]; rfl, hst⟩) (fun hq => by cases hq)
      (fun j _ hj => hs ▸ hj) (fun ho => by simp [hunused] at ho) (fun _ => Or.inr hg)
      (fun _ => by simp [hunused])
  | @close i q hi hm hst hg hs =>
    have ha : (s.server i).active = true := by
      rcases hi with ⟨hi, -⟩ | ⟨hi, -⟩ <;> rw [hi] <;> rfl
    have hq : q.starting = false ∧ q.beforeSocket = false := by
      rcases hi with ⟨-, rfl⟩ | ⟨-, rfl⟩ <;> exact ⟨rfl, rfl⟩
    exact h.moves hm ha (fun hst => by simp [hq.1] at hst) (fun hb => by simp [hq.2] at hb)
      (fun j _ hj => hs.unused j hj) (fun ho => hg.trans (h.own i ha (hs.opened i ho)))
      (fun hp => by rcases hi with ⟨-, rfl⟩ | ⟨-, rfl⟩ <;> simp [State.pastSocket, hm.server] at hp)
      (fun hr ho => h.cleaned (hm.gui ▸ hr) i ha (hs.opened i ho))
  | @report i q v _ hr hm hst hg hs =>
    obtain ⟨ha, hstart, hb⟩ := hr.spec
    exact h.moves hm ha (fun hst => by simp [hstart] at hst) (fun hq => by simp [hb] at hq)
      (fun j _ hj => hs ▸ hj) (fun ho => hg.trans (h.own i ha (hs ▸ ho)))
      (fun hp => hg ▸ h.named i (hr.pastSocket hm hp))
      (fun hcl ho => h.cleaned (hm.gui ▸ hcl) i ha (hs ▸ ho))

def press : List Label := [.click, .readPort 8888, .localIp true, .gui, .gui]

def comeUp (i : Nat) : List Label :=
  [.server i, .server i, .startup i true, .server i, .socket i true, .bind i true, .server i,
    .server i, .server i, .server i, .server i, .server i, .server i]

/-- A server is started, stopped, and started again after its thread has ended. -/
def restart : List Label :=
  press ++ comeUp 0 ++ [.click, .gui, .gui, .accept 0 false] ++ List.replicate 7 (.server 0) ++
    press ++ comeUp 1

end Cexp.GuiServer
