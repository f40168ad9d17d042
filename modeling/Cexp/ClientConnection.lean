import Cexp.Client

/-! Which socket a `waitReceive` thread acts on: it reads `client_fd` anew before every call,
so it stays with its own connection only as long as no later one is created. -/

namespace Cexp.Client

open Transition

def ReceivePc.target : ReceivePc → Option Nat
  | .select fd | .recv fd | .clean (.close fd) => some fd
  | _ => none

/-- A receive thread that does no more than clear `gwinsock_init`. -/
def ReceivePc.finished : ReceivePc → Bool
  | .notStarted | .clearInit | .ended => true
  | _ => false

/-- Receive thread `t` does not touch the socket of a later connection, and does not call
`WSACleanup` under an established one. -/
structure OwnConnection (s : State) (t : Nat) : Prop where
  target : ∀ fd x, (s.receiver t).pc.target = some fd → s.socket fd = some x →
    x.connection ≤ (s.receiver t).connection
  cleanup : (s.receiver t).pc = .cleanup → ∀ fd x, s.socket fd = some x → x.established = true →
    x.connection ≤ (s.receiver t).connection

/-- `ReadySocket` creates a socket only when every receive thread has finished. -/
def receiversFinished (s : State) : Label → Bool
  | .socket (some _) => (List.range s.threads).all fun t => (s.receiver t).pc.finished
  | _ => true

structure Latest (s : State) : Prop where
  socket : ∀ fd x, s.socket fd = some x → x.connection ≤ s.connections
  started : ∀ t, s.threads ≤ t → (s.receiver t).pc.finished = true
  receiver : ∀ t, (s.receiver t).pc.finished = false → (s.receiver t).connection = s.connections

theorem latest_init : Latest init where
  socket _ _ hx := nomatch hx
  started _ _ := rfl
  receiver _ ht := nomatch ht

theorem Latest.ownConnection {s : State} (h : Latest s) (t : Nat) : OwnConnection s t := by
  have hold (hp : (s.receiver t).pc.finished = false) (fd : Nat) (x : Socket)
      (hx : s.socket fd = some x) : x.connection ≤ (s.receiver t).connection :=
    h.receiver t hp ▸ h.socket fd x hx
  refine ⟨fun fd x ht hx => hold ?_ fd x hx, fun hp fd x hx _ => hold ?_ fd x hx⟩
  · cases hp : (s.receiver t).pc <;> simp_all [ReceivePc.target, ReceivePc.finished]
  · rw [hp]
    rfl

theorem Latest.lt_threads {s : State} (h : Latest s) {t : Nat}
    (ht : (s.receiver t).pc.finished = false) : t < s.threads := by
  by_contra hlt
  simp [h.started t (by omega)] at ht

theorem Latest.quiet {s s' : State} (h : Latest s)
    (hs : ∀ fd x, s'.socket fd = some x → ∃ y, s.socket fd = some y ∧ x.connection = y.connection)
    (hc : s'.connections = s.connections) (ht : s'.threads = s.threads)
    (hr : s'.receiver = s.receiver) : Latest s' := by
  refine ⟨fun fd x hx => ?_, fun t => ht ▸ hr ▸ h.started t, fun t => hc ▸ hr ▸ h.receiver t⟩
  obtain ⟨y, hy, he⟩ := hs fd x hx
  exact he ▸ hc ▸ h.socket fd y hy

theorem Latest.setReceiver {s : State} (h : Latest s) {t : Nat} {th : Receiver}
    (ht : (s.receiver t).pc.finished = false ∨ th.pc.finished = true)
    (hc : th.connection = (s.receiver t).connection) : Latest (s.setReceiver t th) := by
  refine ⟨h.socket, fun u hu => ?_, fun u hu => ?_⟩
  all_goals by_cases hut : u = t
  · subst hut
    have hf := h.started u hu
    simpa [State.setReceiver] using ht.resolve_left (by simp [hf])
  · simpa [State.setReceiver, hut] using h.started u hu
  · subst hut
    have hth : th.pc.finished = false := by simpa [State.setReceiver] using hu
    simpa [State.setReceiver, hc] using h.receiver u (ht.resolve_right (by simp [hth]))
  · simpa [State.setReceiver, hut] using
      h.receiver u (by simpa [State.setReceiver, hut] using hu)

theorem Latest.runReceive {s : State} (h : Latest s) : Latest s.runReceive := by
  refine ⟨h.socket, fun u hu => ?_, fun u hu => ?_⟩
  · have hne : u ≠ s.threads := by
      have : s.threads + 1 ≤ u := hu
      omega
    simpa [State.runReceive, State.setReceiver, hne] using h.started u (by
      have : s.threads + 1 ≤ u := hu
      omega)
  · by_cases hut : u = s.threads
    · simp [State.runReceive, State.setReceiver, hut, newReceiver]
    · simpa [State.runReceive, State.setReceiver, hut] using
        h.receiver u (by simpa [State.runReceive, State.setReceiver, hut] using hu)

theorem closesocket_socket {s : State} {fd fd' : Nat} {x : Socket}
    (hx : (s.closesocket fd).socket fd' = some x) : s.socket fd' = some x := by
  by_cases hfd : fd' = fd
  · simp [State.closesocket, hfd] at hx
  · simpa [State.closesocket, hfd] using hx

theorem establish_socket {s : State} {fd fd' : Nat} {x : Socket}
    (hx : (s.establish fd).socket fd' = some x) :
    ∃ y, s.socket fd' = some y ∧ x.connection = y.connection := by
  by_cases hfd : fd' = fd
  · subst hfd
    simp only [State.establish, Function.update_self, Option.map_eq_some_iff] at hx
    obtain ⟨y, hy, rfl⟩ := hx
    exact ⟨y, hy, rfl⟩
  · exact ⟨x, by simpa [State.establish, hfd] using hx, rfl⟩

theorem wsaCleanup_socket {s : State} {fd : Nat} {x : Socket}
    (hx : s.wsaCleanup.socket fd = some x) : s.socket fd = some x := by
  unfold State.wsaCleanup at hx
  simp only at hx
  split at hx
  · cases hx
  · exact hx

theorem appendLineEnd_connection {th th' : Receiver} (h : appendLineEnd th = some th') :
    th'.connection = th.connection := by
  simp only [appendLineEnd, Option.bind_eq_bind, Option.bind_eq_some_iff] at h
  obtain ⟨_, _, _, _, h⟩ := h
  cases h
  rfl

theorem finish_connection {th th' : Receiver} {n : Option Nat} (h : finish th n = some th') :
    th'.connection = th.connection := by
  have hstore {u : Receiver} (hu : ((store u.buffer u.num 0).bind fun buffer =>
      some { u with pc := .callback, buffer := buffer }) = some th') :
      th'.connection = u.connection := by
    obtain ⟨_, _, he⟩ := Option.bind_eq_some_iff.mp hu
    exact Option.some.inj he ▸ rfl
  by_cases hn : n = some 0
  · simp only [finish, hn, if_true, Option.bind_eq_bind, Option.bind_eq_some_iff] at h
    obtain ⟨u, hu, h⟩ := h
    exact (hstore (Option.bind_eq_some_iff.mpr h)).trans (appendLineEnd_connection hu)
  · simp only [finish, hn, if_false, Option.bind_eq_bind, Option.bind_some] at h
    exact hstore h

theorem Latest.cleanStep {s : State} (h : Latest s) (p : CleanPc) :
    Latest (Client.cleanStep s p).1 ∧
      ∀ t < s.threads, (Client.cleanStep s p).1.receiver t = s.receiver t := by
  cases p with
  | clear | load => exact ⟨h.quiet (fun _ x hx => ⟨x, hx, rfl⟩) rfl rfl rfl, fun _ _ => rfl⟩
  | close fd =>
    exact ⟨h.quiet (fun _ x hx => ⟨x, closesocket_socket hx, rfl⟩) rfl rfl rfl, fun _ _ => rfl⟩
  | stateChanged p =>
    cases p with
    | store | test => exact ⟨h.quiet (fun _ x hx => ⟨x, hx, rfl⟩) rfl rfl rfl, fun _ _ => rfl⟩
    | runReceive =>
      exact ⟨h.runReceive, fun t ht => Function.update_of_ne (Nat.ne_of_lt ht) _ _⟩

theorem Latest.same {s s' : State} (h : Latest s) (hs : s'.socket = s.socket)
    (hc : s'.connections = s.connections) (ht : s'.threads = s.threads)
    (hr : s'.receiver = s.receiver) : Latest s' :=
  h.quiet (fun _ x hx => ⟨x, hs ▸ hx, rfl⟩) hc ht hr

theorem Latest.guiStep {s s' : State} (h : Latest s) (hs : guiStep s = some s') : Latest s' := by
  unfold Client.guiStep at hs
  split at hs <;> cases hs
  case h_5 p _ => exact (h.cleanStep (.stateChanged p)).1.same rfl rfl rfl rfl
  case h_6 p next _ => exact (h.cleanStep p).1.same rfl rfl rfl rfl
  all_goals exact h.same rfl rfl rfl rfl

theorem Latest.receiveStep {s s' : State} {t : Nat} (h : Latest s)
    (hs : receiveStep s t = some s') : Latest s' := by
  unfold Client.receiveStep at hs
  simp only at hs
  split at hs <;> cases hs
  case h_7 p hp =>
    have ht : (s.receiver t).pc.finished = false := by rw [hp]; rfl
    have hclean := h.cleanStep p
    have he := hclean.2 t (h.lt_threads ht)
    exact hclean.1.setReceiver (Or.inl (by rw [he]; exact ht)) (by rw [he])
  case h_9 hp =>
    have hw : Latest s.wsaCleanup :=
      h.quiet (fun _ x hx => ⟨x, wsaCleanup_socket hx, rfl⟩) rfl rfl rfl
    exact hw.setReceiver (Or.inr rfl) rfl
  case h_10 hp =>
    have hw : Latest { s with gwinsockInit := false } := h.same rfl rfl rfl rfl
    exact hw.setReceiver (Or.inr rfl) rfl
  all_goals exact h.setReceiver (Or.inl (by simp [*, ReceivePc.finished])) rfl

theorem Latest.newSocket {s s' : State} (h : Latest s) {fd : Nat} {x : Socket}
    (hf : ∀ t < s.threads, (s.receiver t).pc.finished = true)
    (hs : s'.socket = Function.update s.socket fd (some x)) (hx : x.connection = s'.connections)
    (hc : s'.connections = s.connections + 1) (ht : s'.threads = s.threads)
    (hr : s'.receiver = s.receiver) : Latest s' := by
  refine ⟨fun fd' y hy => ?_, fun t => ht ▸ hr ▸ h.started t, fun t hp => ?_⟩
  · rw [hs] at hy
    by_cases hfd : fd' = fd
    · obtain rfl : x = y := by simpa [hfd] using hy
      exact hx.le
    · have := h.socket fd' y (by simpa [hfd] using hy)
      omega
  · rw [hr] at hp
    rcases Nat.lt_or_ge t s.threads with hlt | hge
    · simp [hf t hlt] at hp
    · simp [h.started t hge] at hp

theorem Latest.step {s s' : State} {l : Label} (h : Latest s)
    (hok : receiversFinished s l = true) (hs : step s l = some s') : Latest s' := by
  cases l with
  | gui => exact h.guiStep hs
  | receive t => exact h.receiveStep hs
  | socket fd =>
    simp only [Client.step] at hs
    split at hs
    case h_1 =>
      obtain rfl := Option.some.inj hs
      exact h.same rfl rfl rfl rfl
    case h_2 fd _ =>
      split at hs <;> cases hs
      exact h.newSocket (by simpa [receiversFinished] using hok) rfl rfl rfl rfl rfl
    case h_3 => cases hs
  | connect code | selectWrite ready code =>
    simp only [Client.step] at hs
    split at hs
    case h_2 => cases hs
    case h_1 =>
      split at hs <;> cases hs
      · exact h.quiet (fun _ x hx => establish_socket hx) rfl rfl rfl
      · exact h.same rfl rfl rfl rfl
  | toggle | quit | compare | setNonBlock | setBlock =>
    simp only [Client.step] at hs
    split at hs <;> cases hs
    exact h.same rfl rfl rfl rfl
  | startup ok =>
    simp only [Client.step] at hs
    split at hs
    case h_2 => cases hs
    case h_1 => split at hs <;> cases hs <;> exact h.same rfl rfl rfl rfl
  | selected t result =>
    simp only [Client.step] at hs
    split at hs <;> cases hs
    exact h.setReceiver (Or.inl (by simp [*, ReceivePc.finished])) rfl
  | received t result =>
    simp only [Client.step] at hs
    split at hs
    case h_1 =>
      split at hs <;> cases hs
      exact h.setReceiver (Or.inl (by simp [*, ReceivePc.finished])) rfl
    case h_2 =>
      obtain rfl := Option.some.inj hs
      exact h.setReceiver (Or.inl (by simp [*, ReceivePc.finished])) rfl
    case h_3 => cases hs
  | available t n =>
    simp only [Client.step] at hs
    split at hs
    case h_2 => cases hs
    case h_1 hp =>
      obtain ⟨th, hth, rfl⟩ := Option.map_eq_some_iff.mp hs
      exact h.setReceiver (Or.inl (by rw [hp]; rfl)) (finish_connection hth)

/-- In every run in which `ReadySocket` creates a socket only after the receive threads have
finished, each receive thread acts on its own connection only. -/
theorem receiver_keeps_connection {tr : List Label} {s : State}
    (hm : Meets step (fun s l => receiversFinished s l = true) init tr)
    (h : exec step init tr = some s) (t : Nat) : OwnConnection s t :=
  (exec_invariant_of_meets (fun _ _ _ hI hok hs => hI.step hok hs) latest_init hm h).ownConnection t

def press : List Label := [.toggle, .compare false, .gui, .gui]

def startWinsock : List Label := [.startup true, .gui]

def hangUp : List Label := [.toggle, .gui, .gui, .gui, .gui, .gui]

def dial (fd : Nat) : List Label :=
  [.socket (some fd), .setNonBlock true, .connect (some WSAEWOULDBLOCK), .selectWrite true 0,
    .setBlock true, .gui, .gui, .gui, .gui]

def patientReconnect : List Label :=
  press ++ startWinsock ++ dial 1 ++ [.receive 0, .receive 0] ++ hangUp ++
    [.selected 0 (.failed WSAENOTSOCK)] ++ List.replicate 8 (.receive 0) ++
    press ++ startWinsock ++ dial 1 ++ [.receive 1]

theorem receiver_keeps_connection_patientReconnect :
    ∃ s, exec step init patientReconnect = some s ∧ (∀ t, OwnConnection s t) ∧
      (s.receiver 1).pc = .select 1 ∧ s.socket 1 = some ⟨2, true⟩ := by
  obtain ⟨s, hs, hp⟩ := exec_exists step init patientReconnect
    (fun s => decide ((s.receiver 1).pc = .select 1) && decide (s.socket 1 = some ⟨2, true⟩))
    (by decide)
  simp only [Bool.and_eq_true, decide_eq_true_eq] at hp
  exact ⟨s, hs, receiver_keeps_connection (by decide) hs, hp⟩

/-- The user connects again before the receive thread has noticed: it goes on to close the
socket of the second connection. -/
def hastyReconnect : List Label :=
  press ++ startWinsock ++ dial 1 ++ [.receive 0, .receive 0] ++ hangUp ++ press ++ dial 2 ++
    [.selected 0 (.failed WSAENOTSOCK), .receive 0, .receive 0]

theorem receiver_closes_next_connection : ¬ ∀ (tr : List Label) (s : State),
    exec step init tr = some s → ∀ t, OwnConnection s t := by
  intro h
  obtain ⟨s, hs, hp⟩ := exec_exists step init hastyReconnect
    (fun s => decide ((s.receiver 0).pc.target = some 2) && decide (s.socket 2 = some ⟨2, true⟩) &&
      decide ((s.receiver 0).connection = 1)) (by decide)
  simp only [Bool.and_eq_true, decide_eq_true_eq] at hp
  have hle := (h _ s hs 0).target 2 _ hp.1.1 hp.1.2
  simp [hp.2] at hle

end Cexp.Client
