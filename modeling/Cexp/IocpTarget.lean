import Cexp.IocpContexts

/-! The client that `socketWrite` sends to. The accept loop points `g_cSocket` at the latest
client, and whoever closes any client clears it without comparing. -/

namespace Cexp.IocpServer

open Transition

variable {K : Type}

/-- The `send` of `socketWrite`, with no client nothing. -/
def socketWrite (s : State K) (data : List Byte) : Option (Nat × List Byte) :=
  s.gcSocket.map fun c => (c, data)

/-- The client a thread has closed and whose closing goes on to `g_cSocket`. -/
def CompletionThread.closing (th : CompletionThread K) : Option Nat :=
  match th.pc with
  | .clearTarget | .exitClear => th.clientCtx
  | _ => none

/-- `g_cSocket` names an open connection, but for one in the middle of its closing. -/
def TargetOpen (s : State K) : Prop :=
  ∀ d, s.gcSocket = some d → (∀ k, (s.completion k).closing ≠ some d) →
    (∀ k, s.main ≠ some (k, .clearTarget)) → (s.client d).socket = .opened

variable [DecidableEq K]

/-- The step closes connection `d`, as far as `g_cSocket` is concerned. -/
def ClosesTarget (s : State K) (d : Nat) : Label K → Prop
  | .completion k => (s.completion k).closing = some d ∧ (s.client d).socket = .closed
  | _ => (s.client d).socket = .closed

variable [Fintype K]

structure KeepsTarget (s : State K) (l : Label K) : Prop where
  opened : ∀ t, step s l = some t → TargetOpen t
  reset : ∀ t d, step s l = some t → s.gcSocket = some d → t.gcSocket = none → ClosesTarget s d l
  sends : ∀ t d data, step s l = some t → socketWrite s data = some (d, data) →
    (t.client d).socket = .opened → (socketWrite t data).isSome = true

/-- `CompletionThread` clears `g_cSocket` only for the client it names, and no server shuts
Winsock down while it names one. -/
def clearsOwn (s : State K) : Label K → Bool
  | .completion k =>
    match (s.completion k).pc with
    | .clearTarget | .exitClear => s.gcSocket = none || s.gcSocket = (s.completion k).clientCtx
    | _ => true
  | .main =>
    match s.main with
    | some (_, .cleanup) =>
      !s.winsockInit || s.gcSocket.all fun d => decide (∃ k, (s.completion k).closing = some d)
    | _ => true
  | _ => true

structure Aimed (s : State K) : Prop where
  target : ∀ d, s.gcSocket = some d → (s.client d).socket = .opened ∨
    (∃ k, (s.completion k).closing = some d) ∨ ∃ k, s.main = some (k, .clearTarget)
  latest : ∀ k p c d, s.main = some (k, p) → p = .associate c ∨ p = .recv c ∨ p = .recvFailed c →
    s.gcSocket = some d → d = c
  clearing : ∀ k d, s.main = some (k, .clearTarget) → s.gcSocket = some d →
    (s.client d).socket = .closed
  accepted : ∀ k p c, s.main = some (k, p) → p.context = some c → p ≠ .accept c →
    (s.client c).socket = .opened
  closed : ∀ k c, (s.completion k).closing = some c → (s.client c).socket = .closed

omit [DecidableEq K] [Fintype K] in
theorem aimed_init : Aimed (init : State K) where
  target _ h := by cases h
  latest _ _ _ _ hm := by cases hm
  clearing _ _ hm := by cases hm
  accepted _ _ _ hm := by cases hm
  closed _ _ h := by cases h

/-- Who closes a client, and who opens one. -/
inductive SocketChange (s : State K) (l : Label K) (s' : State K) (c : Nat) : Prop where
  | same (h : (s'.client c).socket = (s.client c).socket)
  | accepted {k : K} (hm : s.main = some (k, .accept c)) (h : (s'.client c).socket = .opened)
  | thread {k : K} (hk : (s.completion k).clientCtx = some c)
    (hk' : (s'.completion k).closing = some c) (h : (s'.client c).socket = .closed)
  | main {k : K} (hm : s.main = some (k, .recvFailed c)) (hm' : s'.main = some (k, .clearTarget))
    (h : (s'.client c).socket = .closed)
  | cleanup {k : K} (hl : l = .main) (hm : s.main = some (k, .cleanup))
    (hw : s.winsockInit = true) (hm' : s'.main = some (k, .reportStopped))
    (hcp : s'.completion = s.completion)
    (h : (s.client c).socket = .closed → (s'.client c).socket = .closed)

theorem Step.socketChange {s s' : State K} {l : Label K} (h : Step s l s') (c : Nat) :
    SocketChange s l s' c := by
  cases h with
  | calloc | recvFirst | recvFirstFail | associate | freeClient | exitFree | recvAgain =>
    exact .same (field_update Client.socket rfl fun _ => rfl)
  | @accept k j d hm =>
    by_cases hd : c = d
    · subst hd
      exact .accepted hm (by simp [State.setClient])
    · exact .same (field_update Client.socket rfl fun he => absurd he hd)
  | @recvFailed k d hm =>
    by_cases hd : c = d
    · subst hd
      exact .main hm rfl (by simp [State.setClient])
    · exact .same (field_update Client.socket rfl fun he => absurd he hd)
  | @closeClient k d hp hc | @exitClose k d hp hc =>
    by_cases hd : c = d
    · subst hd
      refine .thread (k := k) hc ?_ ?_
      · simp [State.moveCompletion, State.setCompletion, State.closeClient, State.setClient,
          CompletionThread.closing, hc]
      · simp [State.moveCompletion, State.setCompletion, State.closeClient, State.setClient]
    · exact .same (field_update Client.socket rfl fun he => absurd he hd)
  | emptyTransfer | lastTransfer | exitFreeOverlapped =>
    refine .same ?_
    show ((s.freeOverlapped _).client c).socket = _
    rw [freeOverlapped_client]
    split <;> rfl
  | cleanup hm hw =>
    exact .cleanup rfl hm hw rfl rfl fun hc => by simp [State.wsaCleanup, State.goto, hc]
  | @arrive d | @peerClosed d | @fail d =>
    by_cases hd : c = d
    · subst hd
      exact .same (by simp [State.setClient, State.queuePacket, State.setPort])
    · exact .same (by simp [State.setClient, State.queuePacket, State.setPort, hd])
  | _ => exact .same rfl

/-- Who writes `g_cSocket`. -/
inductive GlobalChange (s : State K) (l : Label K) (s' : State K) : Prop where
  | same (hg : s'.gcSocket = s.gcSocket)
    (hcp : ∀ k c, (s.completion k).closing = some c → (s'.completion k).closing = some c)
    (hm : ∀ k p, s.main = some (k, p) → p = .clearTarget ∨ (∃ c, p = .setTarget c) →
      s'.main = some (k, p))
  | aim {k : K} {c : Nat} (hm : s.main = some (k, .setTarget c))
    (hm' : s'.main = some (k, .associate c)) (hg : s'.gcSocket = some c)
    (hcl : s'.client = s.client)
  | thread {k : K} (hl : l = .completion k) (hp : (s.completion k).pc = .clearTarget ∨
    (s.completion k).pc = .exitClear) (hg : s'.gcSocket = none)
  | main {k : K} (hl : l = .main) (hm : s.main = some (k, .clearTarget)) (hg : s'.gcSocket = none)

theorem Step.globalChange {s s' : State K} {l : Label K} (h : Step s l s') (hC : Calls s) :
    GlobalChange s l s' := by
  have hmain {k : K} {p : MainPc} (hm : s.main = some (k, p))
      (hp : ¬ (p = .clearTarget ∨ ∃ c, p = .setTarget c)) (j : K) (q : MainPc)
      (hj : s.main = some (j, q)) (hq : q = .clearTarget ∨ ∃ c, q = .setTarget c) :
      s'.main = some (j, q) := by
    obtain ⟨-, rfl⟩ := Prod.mk.inj (Option.some.inj (hm.symm.trans hj))
    exact absurd hq hp
  have hthread {k : K} {th : CompletionThread K} (hp : (s.completion k).pc ≠ .clearTarget)
      (hp' : (s.completion k).pc ≠ .exitClear) (j : K) (c : Nat)
      (hj : (s.completion j).closing = some c) :
      (Function.update s.completion k th j).closing = some c := by
    by_cases hjk : j = k
    · subst hjk
      cases hpc : (s.completion j).pc <;> simp_all [CompletionThread.closing]
    · simpa [hjk] using hj
  have hsame (k : K) (c : Nat) (hk : (s.completion k).closing = some c) :
      (s.completion k).closing = some c := hk
  cases h with
  | start hm => exact .same rfl hsame fun j q hj => by simp [hm] at hj
  | startupOk hm | startupFail hm | bindOk hm | bindFail hm | createQueue hm | createQueueFail hm
  | calloc hm | accept hm | acceptFail hm | recvFirst hm | recvFirstFail hm | waitCompletion hm
  | waitHandler hm | socket hm | listen hm | ready hm | readyFail hm | createPort hm
  | createHandler hm | report hm | associate hm | recvFailed hm | post hm | closeListener hm
  | closePort hm | cleanup hm | noCleanup hm | reportStopped hm =>
    exact .same rfl hsame (hmain hm (by simp))
  | @createCompletion k hm =>
    have hp := hC.fresh.completion k
      (by simp [State.phase, hC.fresh.started k _ hm, hm, MainPc.phase])
    exact .same rfl (hthread (by simp [hp]) (by simp [hp])) (hmain hm (by simp))
  | setTarget hm => exact .aim hm rfl rfl rfl
  | clearTarget hm => exact .main rfl hm rfl
  | clearClient hp => exact .thread rfl (Or.inl hp) rfl
  | exitClear hp => exact .thread rfl (Or.inr hp) rfl
  | getClosed hp | getFailed hp | getEmpty hp | getData hp | emptyTransfer hp | lastTransfer hp
  | closeClient hp | freeClient hp | copy hp | exitClose hp | exitNoClient hp | exitFree hp
  | exitFreeOverlapped hp | enqueueNull hp | enqueue hp | recvAgain hp | recvAgainFail hp =>
    exact .same rfl (hthread (by simp [hp]) (by simp [hp])) fun _ _ hj _ => hj
  | @queue q l x hl hx =>
    refine .same rfl (fun k c hk => ?_) fun _ _ hj _ => hj
    rcases hC.sync.resume_completion hl hx k with he | ⟨hp, he⟩
    · exact (congrArg CompletionThread.closing he).trans hk
    · simp [CompletionThread.closing, hp] at hk
  | _ => exact .same rfl hsame fun _ _ hj _ => hj

theorem Step.closing_cases {s s' : State K} {l : Label K} (h : Step s l s') (hC : Calls s) {k : K}
    {c : Nat} (hk : (s'.completion k).closing = some c) :
    (s.completion k).closing = some c ∨ (s'.client c).socket = .closed := by
  have hmove {j : K} {th : CompletionThread K} (hth : th.closing = none)
      (hu : (Function.update s.completion j th k).closing = some c) :
      (s.completion k).closing = some c := by
    rcases update_cases (P := fun th => th.closing = some c) hu with ⟨-, he⟩ | he
    · simp [hth] at he
    · exact he
  cases h with
  | createCompletion | getClosed | getFailed | getEmpty | getData | emptyTransfer | lastTransfer
  | clearClient | freeClient | copy | exitNoClient | exitClear | exitFree | exitFreeOverlapped
  | enqueueNull | recvAgain | recvAgainFail => exact Or.inl (hmove rfl hk)
  | enqueue =>
    refine Or.inl (hmove ?_ hk)
    split_ifs <;> rfl
  | @closeClient j d hp hc | @exitClose j d hp hc =>
    rcases update_cases (P := fun th => th.closing = some c) hk with ⟨rfl, he⟩ | he
    · obtain rfl : d = c := Option.some.inj (hc.symm.trans he)
      exact Or.inr (by simp [State.moveCompletion, State.setCompletion, State.closeClient,
        State.setClient])
    · exact Or.inl he
  | @queue q l x hl hx =>
    refine Or.inl ?_
    rcases hC.sync.resume_completion hl hx k with he | ⟨-, he⟩
    · exact (congrArg CompletionThread.closing he).symm.trans hk
    · exact absurd ((congrArg CompletionThread.closing he).symm.trans hk) (by
        simp [CompletionThread.closing])
  | _ => exact Or.inl hk

theorem Step.recvFailed_closed {s s' : State K} {l : Label K} (h : Step s l s') {k : K} {c : Nat}
    (hm : s.main = some (k, .recvFailed c)) (hm' : s'.main = some (k, .clearTarget)) :
    (s'.client c).socket = .closed := by
  cases h.mainMove with
  | same he => simp [he, hm] at hm'
  | start he => simp [hm] at he
  | done _ he => simp [he] at hm'
  | next hp hq _ hn =>
    obtain ⟨rfl, rfl⟩ := Prod.mk.inj (Option.some.inj (hm.symm.trans hp))
    cases hn
    cases h with
    | recvFailed hr =>
      obtain ⟨-, he⟩ := Prod.mk.inj (Option.some.inj (hm.symm.trans hr))
      obtain rfl := MainPc.recvFailed.inj he
      simp [State.setClient]
    | _ => simp_all

theorem Step.accept_opened {s s' : State K} {l : Label K} (h : Step s l s') {k : K} {c : Nat}
    {q : MainPc} (hm : s.main = some (k, .accept c)) (hm' : s'.main = some (k, q))
    (hq : q.context = some c) : q = .accept c ∨ (s'.client c).socket = .opened := by
  cases h.mainMove with
  | same he =>
    rw [he, hm] at hm'
    exact Or.inl (Prod.mk.inj (Option.some.inj hm')).2.symm
  | start he => simp [hm] at he
  | done _ he => simp [he] at hm'
  | next hp hj _ hn =>
    obtain ⟨rfl, rfl⟩ := Prod.mk.inj (Option.some.inj (hm.symm.trans hp))
    obtain ⟨-, rfl⟩ := Prod.mk.inj (Option.some.inj (hj.symm.trans hm'))
    cases hn with
    | acceptFail => cases hq
    | accept =>
      cases h with
      | accept hr =>
        obtain ⟨-, he⟩ := Prod.mk.inj (Option.some.inj (hm.symm.trans hr))
        obtain rfl := MainPc.accept.inj he
        exact Or.inr (by simp [State.setClient])

omit [DecidableEq K] [Fintype K] in
theorem CompletionThread.names_of_closing {th : CompletionThread K} {c : Nat}
    (h : th.closing = some c) : th.names c := by
  unfold CompletionThread.closing at h
  split at h
  · exact Or.inl h
  · exact Or.inl h
  · cases h

omit [DecidableEq K] [Fintype K] in
theorem SocketChange.closed {s s' : State K} {l : Label K} {c : Nat} (h : SocketChange s l s' c)
    (hI : ∀ k, s.main ≠ some (k, .accept c)) (hc : (s.client c).socket = .closed) :
    (s'.client c).socket = .closed := by
  cases h with
  | same he => exact he.trans hc
  | accepted hm => exact absurd hm (hI _)
  | thread _ _ h | main _ _ h => exact h
  | cleanup _ _ _ _ _ h => exact h hc

theorem Step.target {s s' : State K} {l : Label K} (h : Step s l s') (hC : Calls s)
    (hI : Aimed s) (hok : clearsOwn s l = true) {d : Nat} (hd : s'.gcSocket = some d) :
    (s'.client d).socket = .opened ∨ (∃ k, (s'.completion k).closing = some d) ∨
      ∃ k, s'.main = some (k, .clearTarget) := by
  cases h.globalChange hC with
  | same hg hcp hmain =>
    have hd := hg ▸ hd
    rcases hI.target d hd with ho | ⟨k, hk⟩ | ⟨k, hm⟩
    · cases h.socketChange d with
      | same he => exact Or.inl (he.trans ho)
      | accepted _ ho => exact Or.inl ho
      | @thread k _ hk => exact Or.inr (Or.inl ⟨k, hk⟩)
      | @main k _ hm => exact Or.inr (Or.inr ⟨k, hm⟩)
      | cleanup hl hm hw _ hcp =>
        subst hl
        obtain ⟨k, hk⟩ : ∃ k, (s.completion k).closing = some d := by
          simpa [clearsOwn, hm, hw, hd] using hok
        exact Or.inr (Or.inl ⟨k, hcp ▸ hk⟩)
    · exact Or.inr (Or.inl ⟨k, hcp k d hk⟩)
    · exact Or.inr (Or.inr ⟨k, hmain k _ hm (Or.inl rfl)⟩)
  | aim hm _ hg hcl =>
    obtain rfl := Option.some.inj (hg.symm.trans hd)
    rw [hcl]
    exact Or.inl (hI.accepted _ _ _ hm rfl (by simp))
  | thread _ _ hg => simp [hg] at hd
  | main _ _ hg => simp [hg] at hd

theorem Step.latest {s s' : State K} {l : Label K} (h : Step s l s') (hC : Calls s)
    (hI : Aimed s) {k : K} {q : MainPc} {c d : Nat} (hm : s'.main = some (k, q))
    (hq : q = .associate c ∨ q = .recv c ∨ q = .recvFailed c) (hd : s'.gcSocket = some d) :
    d = c := by
  cases h.globalChange hC with
  | same hg _ hmain =>
    have hd := hg ▸ hd
    cases h.mainMove with
    | same he => exact hI.latest k q c d (he ▸ hm) hq hd
    | start _ _ hj =>
      obtain ⟨rfl, rfl⟩ := Prod.mk.inj (Option.some.inj (hj.symm.trans hm))
      simp at hq
    | done _ hj => simp [hj] at hm
    | next hp hj _ hn =>
      obtain ⟨rfl, rfl⟩ := Prod.mk.inj (Option.some.inj (hj.symm.trans hm))
      rcases hq with rfl | rfl | rfl
      · cases hn
        have hstill := hmain _ _ hp (Or.inr ⟨c, rfl⟩)
        simp [hj] at hstill
      · cases hn
        exact hI.latest _ _ c d hp (Or.inl rfl) hd
      · cases hn
        exact hI.latest _ _ c d hp (Or.inr (Or.inl rfl)) hd
  | @aim j e _ hm' hg =>
    obtain ⟨-, rfl⟩ := Prod.mk.inj (Option.some.inj (hm'.symm.trans hm))
    have hc : e = c := by simpa using hq
    exact hc ▸ (Option.some.inj (hg.symm.trans hd)).symm
  | thread _ _ hg => simp [hg] at hd
  | main _ _ hg => simp [hg] at hd

theorem Step.clearing {s s' : State K} {l : Label K} (h : Step s l s') (hC : Calls s)
    (hI : Aimed s) {k : K} {d : Nat} (hm : s'.main = some (k, .clearTarget))
    (hd : s'.gcSocket = some d) : (s'.client d).socket = .closed := by
  cases h.globalChange hC with
  | same hg =>
    have hd := hg ▸ hd
    cases h.mainMove with
    | same he =>
      have hm := he ▸ hm
      exact (h.socketChange d).closed (by simp [hm]) (hI.clearing k d hm hd)
    | start _ _ hj => simp [hj] at hm
    | done _ hj => simp [hj] at hm
    | next hp hj _ hn =>
      obtain ⟨rfl, rfl⟩ := Prod.mk.inj (Option.some.inj (hj.symm.trans hm))
      cases hn with
      | @recvFailed c =>
        obtain rfl := hI.latest _ _ c d hp (Or.inr (Or.inr rfl)) hd
        exact h.recvFailed_closed hp hm
  | aim _ hm' => simp [hm'] at hm
  | thread _ _ hg => simp [hg] at hd
  | main _ _ hg => simp [hg] at hd

theorem Step.accepted {s s' : State K} {l : Label K} (h : Step s l s') (hX : Contexts s)
    (hI : Aimed s) {k : K} {q : MainPc} {c : Nat} (hm : s'.main = some (k, q))
    (hq : q.context = some c) (hne : q ≠ .accept c) : (s'.client c).socket = .opened := by
  obtain ⟨-, ⟨p, hp, hc⟩ | ⟨rfl, -⟩⟩ := h.context_cases hm hq
  · by_cases ha : p = .accept c
    · subst ha
      exact (h.accept_opened hp hm hq).resolve_left hne
    · have ho := hI.accepted k p c hp hc ha
      cases h.socketChange c with
      | same he => exact he.trans ho
      | accepted _ ho => exact ho
      | thread hk => exact absurd (Or.inl hk) ((hX.main k p c hp hc).2.unnamed _)
      | main _ hm' =>
        obtain ⟨rfl, rfl⟩ := Prod.mk.inj (Option.some.inj (hm'.symm.trans hm))
        cases hq
      | cleanup _ _ _ hm' =>
        obtain ⟨rfl, rfl⟩ := Prod.mk.inj (Option.some.inj (hm'.symm.trans hm))
        cases hq
  · cases h with
    | calloc =>
      obtain ⟨rfl, rfl⟩ := Prod.mk.inj (Option.some.inj hm)
      exact absurd rfl hne

theorem Step.aimed {s s' : State K} {l : Label K} (h : Step s l s') (hC : Calls s)
    (hX : Contexts s) (hI : Aimed s) (hok : clearsOwn s l = true) : Aimed s' where
  target _ := h.target hC hI hok
  latest _ _ _ _ := h.latest hC hI
  clearing _ _ := h.clearing hC hI
  accepted _ _ _ := h.accepted hX hI
  closed k c hk := by
    rcases h.closing_cases hC hk with hk | hc
    · refine (h.socketChange c).closed (fun j hm => ?_) (hI.closed k c hk)
      exact (hX.main j _ c hm rfl).2.unnamed k (CompletionThread.names_of_closing hk)
    · exact hc

omit [DecidableEq K] [Fintype K] in
theorem Aimed.open {s : State K} (hI : Aimed s) : TargetOpen s := by
  intro d hd hk hm
  rcases hI.target d hd with ho | ⟨k, hk'⟩ | ⟨k, hm'⟩
  · exact ho
  · exact absurd hk' (hk k)
  · exact absurd hm' (hm k)

omit [DecidableEq K] in
theorem Aimed.reset {s s' : State K} {l : Label K} (hI : Aimed s) (h : GlobalChange s l s')
    (hok : clearsOwn s l = true) {d : Nat} (hd : s.gcSocket = some d) (hg : s'.gcSocket = none) :
    ClosesTarget s d l := by
  cases h with
  | same he => simp [he, hd] at hg
  | aim _ _ he => simp [he] at hg
  | @thread k hl hp =>
    subst hl
    have hc : (s.completion k).closing = some d := by
      have hctx : some d = (s.completion k).clientCtx := by
        rcases hp with hp | hp <;> simpa [clearsOwn, hp, hd] using hok
      rcases hp with hp | hp <;> simp [CompletionThread.closing, hp, hctx]
    exact ⟨hc, hI.closed k d hc⟩
  | @main k hl hm =>
    subst hl
    exact hI.clearing k d hm hd

theorem Aimed.keeps {s s' : State K} {l : Label K} (hI : Aimed s) (hC : Calls s)
    (hX : Contexts s) (hok : clearsOwn s l = true) (hs : step s l = some s') :
    KeepsTarget s l := by
  have heq {t : State K} (ht : step s l = some t) : t = s' := Option.some.inj (ht.symm.trans hs)
  have h := step_cases hs
  have hg := h.globalChange hC
  refine ⟨fun t ht => ?_, fun t d ht hd hn => ?_, fun t d data ht hw ho => ?_⟩
  · rw [heq ht]
    exact (h.aimed hC hX hI hok).open
  · rw [heq ht] at hn
    exact hI.reset hg hok hd hn
  · rw [heq ht] at ho ⊢
    have hd : s.gcSocket = some d := by simpa [socketWrite] using hw
    have hnot (hm : ∀ k, s.main ≠ some (k, .accept d)) (hc : (s.client d).socket = .closed) :
        False := by
      have hcl := (h.socketChange d).closed hm hc
      simp [ho] at hcl
    by_contra hn
    have hn : s'.gcSocket = none := by simpa [socketWrite] using hn
    have hr := hI.reset hg hok hd hn
    cases hg with
    | same he => simp [he, hd] at hn
    | aim _ _ he => simp [he] at hn
    | thread hl =>
      subst hl
      exact hnot (fun j hm => (hX.main j _ d hm rfl).2.unnamed _
        (CompletionThread.names_of_closing hr.1)) hr.2
    | main hl hm =>
      subst hl
      exact hnot (by simp [hm]) hr

theorem KeepsTarget.clears {s s' : State K} {l : Label K} (h : KeepsTarget s l)
    (hs : step s l = some s') : clearsOwn s l = true := by
  cases l with
  | completion k =>
    by_cases hp : (s.completion k).pc = .clearTarget ∨ (s.completion k).pc = .exitClear
    · have hg : s'.gcSocket = none := by
        rcases hp with hp | hp <;> cases hc : (s.completion k).clientCtx <;>
          simp only [step, completionStep, hp, hc, Option.some.injEq, reduceCtorEq] at hs
        · exact hs ▸ rfl
        · exact hs ▸ rfl
      have hctx {d : Nat} (hd : s.gcSocket = some d) : some d = (s.completion k).clientCtx := by
        have hr := (h.reset s' d hs hd hg).1
        rcases hp with hp | hp <;> simpa [CompletionThread.closing, hp, eq_comm] using hr
      cases hd : s.gcSocket with
      | none => rcases hp with hp | hp <;> simp [clearsOwn, hp, hd]
      | some d => rcases hp with hp | hp <;> simp [clearsOwn, hp, hd, hctx hd]
    · cases hpc : (s.completion k).pc <;> simp_all [clearsOwn]
  | main =>
    by_contra hok
    obtain ⟨k, hm⟩ : ∃ k, s.main = some (k, .cleanup) := by
      cases hm : s.main with
      | none => simp [clearsOwn, hm] at hok
      | some m =>
        obtain ⟨k, p⟩ := m
        cases p <;> simp_all [clearsOwn]
    obtain ⟨hw, d, hd, hk⟩ : s.winsockInit = true ∧ ∃ d, s.gcSocket = some d ∧
        ∀ k, (s.completion k).closing ≠ some d := by
      cases hd : s.gcSocket <;> simp_all [clearsOwn]
    obtain rfl : s.wsaCleanup.goto k .reportStopped = s' := by
      simpa only [step, mainStep, hm, hw, if_true, Option.some.injEq] using hs
    have ho := h.opened _ hs d hd hk (by simp [State.goto])
    simp only [State.goto, State.wsaCleanup] at ho
    split at ho
    · cases ho
    · exact absurd ho ‹_›
  | _ => rfl

/-- Between the closings `g_cSocket` names an open connection, and only the closing of that one
clears it, exactly in the runs in which every clearing finds the client it is meant for. -/
theorem target_kept_iff {tr : List (Label K)} {s : State K} (h : exec step init tr = some s) :
    Meets step KeepsTarget init tr ↔ Meets step (fun s l => clearsOwn s l = true) init tr :=
  meets_iff_meets (I := fun s => Calls s ∧ Contexts s ∧ Aimed s)
    (fun _ _ _ hI hok hs => ⟨(step_cases hs).calls hI.1, (step_cases hs).contexts hI.1 hI.2.1,
      (step_cases hs).aimed hI.1 hI.2.1 hI.2.2 hok⟩)
    (fun _ _ _ hI hs => ⟨fun hk => hk.clears hs, fun hok => hI.2.2.keeps hI.1 hI.2.1 hok hs⟩)
    ⟨calls_init, contexts_init, aimed_init⟩ h

/-- The client's packet of length zero, up to the clearing of `g_cSocket`. -/
def hangUp (c : Nat) : List (Label Unit) :=
  [.peerClosed c, .getStatus (), .completion (), .completion ()]

/-- A second client comes when the first has gone. -/
def oneByOne : List (Label Unit) :=
  startRun ++ [.createQueue true, .main] ++ acceptClient 0 ++ hangUp 0 ++
    [.completion (), .completion ()] ++ acceptClient 1

theorem target_kept_iff_oneByOne : ∃ s, exec step init oneByOne = some s ∧
    s.gcSocket = some 1 ∧ Meets step KeepsTarget init oneByOne := by
  obtain ⟨s, hs, hp⟩ := exec_exists step init oneByOne (fun s => decide (s.gcSocket = some 1))
    (by decide)
  exact ⟨s, hs, of_decide_eq_true hp, (target_kept_iff hs).mpr (by decide)⟩

/-- The first of two clients goes while the second is the target. -/
def firstGoes : List (Label Unit) :=
  startRun ++ [.createQueue true, .main] ++ acceptClient 0 ++ acceptClient 1 ++ hangUp 0

theorem target_lost : ¬ ∀ (tr : List (Label Unit)) (s : State Unit) (l : Label Unit),
    exec step init tr = some s → KeepsTarget s l := by
  intro h
  obtain ⟨t, ht, hn⟩ := exec_exists step init (firstGoes ++ [.completion ()])
    (fun t => decide (t.gcSocket = none)) (by decide)
  obtain ⟨s, hs, hp⟩ := exec_exists step init firstGoes
    (fun s => decide (s.gcSocket = some 1 ∧ (s.client 1).socket = .opened)) (by decide)
  obtain ⟨u, hu, hl⟩ := exec_append.mp ht
  obtain rfl := Option.some.inj (hs.symm.trans hu)
  obtain ⟨v, hv, hl⟩ := exec_cons.mp hl
  obtain rfl := Option.some.inj hl
  obtain ⟨hd, ho⟩ := of_decide_eq_true hp
  have hc := ((h _ s (.completion ()) hs).reset v 1 hv hd (of_decide_eq_true hn)).2
  simp [ho] at hc

end Cexp.IocpServer
