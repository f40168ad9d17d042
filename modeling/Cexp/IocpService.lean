import Cexp.IocpStep

/-! When the two loops of the server end: `CompletionThread`'s before the shutdown packet only
by a failed completion or a failed `WSARecv`, the accept loop's before `mysocket_clean` only
by a failed `accept` or a failed first `WSARecv`. -/

namespace Cexp.IocpServer

open Transition

variable {K : Type}

def CompletionPc.left : CompletionPc K → Bool
  | .exitClose | .exitClear | .exitFree | .exitFreeOverlapped | .exited => true
  | _ => false

def MainPc.left : MainPc → Bool
  | .recvFailed _ | .clearTarget | .post | .waitCompletion | .waitHandler | .closeListener
  | .closePort | .cleanup | .reportStopped => true
  | _ => false

def MainPc.pastPost : MainPc → Bool
  | .waitCompletion | .waitHandler | .closeListener | .closePort | .cleanup | .reportStopped =>
    true
  | _ => false

/-- What keeps both loops in service: before the shutdown packet no failed completion is
dequeued and no posted receive fails again; before the listening socket is closed by
`mysocket_clean`, `accept` and a client's first receive do not fail. -/
def inService (s : State K) : Label K → Bool
  | .getStatus k => (s.port k).posted || (s.port k).packets.head?.all Packet.success
  | .recvAgain k false => (s.port k).posted
  | .accept false | .recvFirst false => s.main.all fun (k, _) => s.listener k = .cleaned
  | _ => true

structure Serving (s : State K) : Prop where
  completion : ∀ k, (s.completion k).pc.left = true → (s.port k).posted = true
  accept : ∀ k p, s.main = some (k, p) → p.left = true → s.listener k = .cleaned

/-- A packet without a key is the shutdown packet, and a port is closed after it is posted. -/
structure ShutdownOnly (s : State K) : Prop where
  packet : ∀ k, ∀ p ∈ (s.port k).packets, p.key = none → (s.port k).posted = true
  last : ∀ k, (s.completion k).pc = .emptyTransfer → (s.completion k).clientCtx = none →
    (s.port k).posted = true
  closed : ∀ k, (s.port k).closed = true → (s.port k).posted = true
  main : ∀ k p, s.main = some (k, p) → p.pastPost = true → (s.port k).posted = true

theorem serving_init : Serving (init : State K) where
  completion _ hk := by cases hk
  accept _ _ hm := by cases hm

theorem shutdownOnly_init : ShutdownOnly (init : State K) where
  packet _ _ hp := by cases hp
  last _ hp := by cases hp
  closed _ hk := by cases hk
  main _ _ hm := by cases hm

variable [DecidableEq K]

variable [Fintype K]

theorem Step.posted_mono {s s' : State K} {l : Label K} (h : Step s l s') {k : K}
    (hk : (s.port k).posted = true) : (s'.port k).posted = true := by
  have hport (j : K) (p : Port) (hp : j = k → p.posted = true) :
      (Function.update s.port j p k).posted = true := by
    by_cases hj : k = j
    · subst hj
      simpa using hp rfl
    · simpa [hj] using hk
  cases h with
  | post => exact hport _ _ fun _ => rfl
  | closePort | getFailed | getEmpty | getData | arrive | peerClosed | fail =>
    exact hport _ _ fun e => e ▸ hk
  | _ => exact hk

theorem Step.left_cases {s s' : State K} {l : Label K} (h : Step s l s')
    (hok : inService s l = true) (hI : ShutdownOnly s) {k : K}
    (hk : (s'.completion k).pc.left = true) :
    (s.completion k).pc.left = true ∨ (s.port k).posted = true := by
  have hmove {j : K} {th : CompletionThread K}
      (hu : (Function.update s.completion j th k).pc.left = true)
      (hth : th.pc.left = true → (s.completion j).pc.left = true ∨ (s.port j).posted = true) :
      (s.completion k).pc.left = true ∨ (s.port k).posted = true := by
    rcases update_cases (P := fun th => th.pc.left = true) hu with ⟨rfl, hth'⟩ | hk'
    · exact hth hth'
    · exact Or.inl hk'
  cases h with
  | createCompletion | getEmpty | getData | emptyTransfer | closeClient | clearClient | freeClient
  | copy | enqueueNull | recvAgain => exact hmove hk fun hl => by cases hl
  | enqueue => exact hmove hk fun hl => by split at hl <;> cases hl
  | getClosed hp hc => exact hmove hk fun _ => Or.inr (hI.closed _ hc)
  | getFailed hp hc hq hs =>
    refine hmove hk fun _ => Or.inr ?_
    simpa [inService, hq, hs] using hok
  | lastTransfer hp hc => exact hmove hk fun _ => Or.inr (hI.last _ hp hc)
  | exitClose hp | exitNoClient hp | exitClear hp | exitFree hp | exitFreeOverlapped hp =>
    exact hmove hk fun _ => Or.inl (by rw [hp]; rfl)
  | recvAgainFail => exact hmove hk fun _ => Or.inr (by simpa [inService] using hok)
  | queue =>
    rcases foldl_resumeCompletion s.completion _ k with hc | hc
    · exact Or.inl (hc ▸ hk)
    · have hl := congrArg (fun th => th.pc.left) hc
      exact absurd (hl.symm.trans hk) (by simp [CompletionPc.left])
  | _ => exact Or.inl hk

theorem Step.listener_cleaned {s s' : State K} {l : Label K} (h : Step s l s') {k : K}
    (hk : s.listener k = .cleaned) : s'.listener k = .cleaned ∨ s.main = some (k, .socket) := by
  have hclose (how : Listener) : (s.closeListener how).listener k = .cleaned := by
    simp [State.closeListener, hk]
  cases h with
  | @socket j hm =>
    by_cases hj : k = j
    · exact Or.inr (hj ▸ hm)
    · exact Or.inl (by simpa [State.goto, hj] using hk)
  | closeListener | cleanClose => exact Or.inl (hclose _)
  | cleanup => exact Or.inl (by simp [State.wsaCleanup, State.goto, hk])
  | _ => exact Or.inl hk

omit [DecidableEq K] [Fintype K] in
theorem MainPc.Next.left_cases {l : Label K} {p q : MainPc} (h : MainPc.Next l p q)
    (hq : q.left = true) : p.left = true ∨ l = .accept false ∨ l = .recvFirst false := by
  cases h <;> simp_all [MainPc.left]

theorem Step.accept_left {s s' : State K} {l : Label K} (h : Step s l s')
    (hok : inService s l = true)
    (hI : ∀ k p, s.main = some (k, p) → p.left = true → s.listener k = .cleaned)
    {k : K} {p : MainPc} (hm' : s'.main = some (k, p)) (hp : p.left = true) :
    s'.listener k = .cleaned := by
  have hkeep {q : MainPc} (hm : s.main = some (k, q)) (hq : q ≠ .socket)
      (hl : s.listener k = .cleaned) : s'.listener k = .cleaned := by
    refine (h.listener_cleaned hl).resolve_right fun hs => hq ?_
    exact (Prod.mk.inj (Option.some.inj (hm.symm.trans hs))).2
  have hsocket {q : MainPc} (hq : q.left = true) : q ≠ .socket := by
    rintro rfl
    cases hq
  cases h.mainMove with
  | same hm => exact hkeep (hm ▸ hm') (hsocket hp) (hI k p (hm ▸ hm') hp)
  | start hm hk hj =>
    obtain ⟨rfl, rfl⟩ := Prod.mk.inj (Option.some.inj (hj.symm.trans hm'))
    cases hp
  | done hm hj => simp [hj] at hm'
  | next hm hj hs hn =>
    obtain ⟨rfl, rfl⟩ := Prod.mk.inj (Option.some.inj (hj.symm.trans hm'))
    rcases hn.left_cases hp with hq | rfl | rfl
    · exact hkeep hm (hsocket hq) (hI _ _ hm hq)
    · cases hn with
      | acceptFail => exact hkeep hm (by simp) (by simpa [inService, hm] using hok)
    · cases hn with
      | recvFirstFail => exact hkeep hm (by simp) (by simpa [inService, hm] using hok)

theorem Step.packet_cases {s s' : State K} {l : Label K} (h : Step s l s') {k : K} {p : Packet}
    (hp : p ∈ (s'.port k).packets) :
    p ∈ (s.port k).packets ∨ p.key ≠ none ∨ (s'.port k).posted = true := by
  have hport {j : K} {x : Port} (hu : p ∈ (Function.update s.port j x k).packets)
      (hx : p ∈ x.packets → p ∈ (s.port j).packets ∨ p.key ≠ none ∨ x.posted = true) :
      p ∈ (s.port k).packets ∨ p.key ≠ none ∨ (Function.update s.port j x k).posted = true := by
    by_cases hj : k = j
    · subst hj
      simp only [Function.update_self] at hu ⊢
      exact hx hu
    · simp only [Function.update_of_ne hj] at hu
      exact Or.inl hu
  cases h with
  | post => exact hport hp fun _ => Or.inr (Or.inr rfl)
  | closePort => exact hport hp Or.inl
  | getFailed hq hc hl | getEmpty hq hc hl | getData hq hc hl =>
    exact hport hp fun hx => Or.inl (hl ▸ List.mem_cons_of_mem _ hx)
  | arrive | peerClosed | fail =>
    refine hport hp fun hx => ?_
    rcases List.mem_append.mp hx with hx | hx
    · exact Or.inl hx
    · rw [List.mem_singleton.mp hx]
      exact Or.inr (Or.inl (by simp))
  | _ => exact Or.inl hp

theorem Step.closed_cases {s s' : State K} {l : Label K} (h : Step s l s') {k : K}
    (hk : (s'.port k).closed = true) :
    (s.port k).closed = true ∨ s.main = some (k, .closePort) := by
  have hport {j : K} {x : Port} (hu : (Function.update s.port j x k).closed = true)
      (hx : x.closed = true → (s.port j).closed = true ∨ s.main = some (j, .closePort)) :
      (s.port k).closed = true ∨ s.main = some (k, .closePort) := by
    by_cases hj : k = j
    · subst hj
      exact hx (by simpa using hu)
    · exact Or.inl (by simpa [hj] using hu)
  cases h with
  | closePort hm => exact hport hk fun _ => Or.inr hm
  | post | getFailed | getEmpty | getData | arrive | peerClosed | fail => exact hport hk Or.inl
  | _ => exact Or.inl hk

theorem Step.last_cases {s s' : State K} {l : Label K} (h : Step s l s') {k : K}
    (hp : (s'.completion k).pc = .emptyTransfer) (hc : (s'.completion k).clientCtx = none) :
    ((s.completion k).pc = .emptyTransfer ∧ (s.completion k).clientCtx = none) ∨
      ∃ p ∈ (s.port k).packets, p.key = none := by
  have hmove {j : K} {th : CompletionThread K}
      (hu : (Function.update s.completion j th k).pc = .emptyTransfer)
      (hv : (Function.update s.completion j th k).clientCtx = none)
      (hth : th.pc = .emptyTransfer → th.clientCtx = none →
        ∃ p ∈ (s.port j).packets, p.key = none) :
      ((s.completion k).pc = .emptyTransfer ∧ (s.completion k).clientCtx = none) ∨
        ∃ p ∈ (s.port k).packets, p.key = none := by
    rcases update_cases (P := fun th => th.pc = .emptyTransfer ∧ th.clientCtx = none) ⟨hu, hv⟩
      with ⟨rfl, hth'⟩ | hk'
    · exact Or.inr (hth hth'.1 hth'.2)
    · exact Or.inl hk'
  cases h with
  | getEmpty _ _ hq =>
    exact hmove hp hc fun _ hk => ⟨_, hq ▸ List.mem_cons_self, hk⟩
  | createCompletion | getClosed | getFailed | emptyTransfer | lastTransfer | closeClient
  | clearClient | freeClient | copy | exitClose | exitNoClient | exitClear | exitFree
  | exitFreeOverlapped | enqueueNull | recvAgain | recvAgainFail =>
    exact hmove hp hc fun hl => by cases hl
  | getData =>
    exact hmove hp hc fun hl => by cases hl
  | enqueue => exact hmove hp hc fun hl => by split at hl <;> cases hl
  | queue =>
    rcases foldl_resumeCompletion s.completion _ k with he | he
    · exact Or.inl ⟨he ▸ hp, he ▸ hc⟩
    · have hl := congrArg CompletionThread.pc he
      cases hl.symm.trans hp
  | _ => exact Or.inl ⟨hp, hc⟩

theorem Step.pastPost_cases {s s' : State K} {l : Label K} (h : Step s l s') {k : K} {p : MainPc}
    (hm' : s'.main = some (k, p)) (hp : p.pastPost = true) :
    (s'.port k).posted = true ∨ ∃ q, s.main = some (k, q) ∧ q.pastPost = true := by
  have hstart {j : K} {q : MainPc} (he : some (j, q) = some (k, p)) (hq : q.pastPost = false) :
      (s'.port k).posted = true ∨ ∃ q, s.main = some (k, q) ∧ q.pastPost = true := by
    obtain ⟨rfl, rfl⟩ := Prod.mk.inj (Option.some.inj he)
    rw [hq] at hp
    cases hp
  have hkeep {j : K} {q r : MainPc} (hm : s.main = some (j, r)) (hr : r.pastPost = true)
      (he : some (j, q) = some (k, p)) :
      (s'.port k).posted = true ∨ ∃ q, s.main = some (k, q) ∧ q.pastPost = true := by
    obtain ⟨rfl, rfl⟩ := Prod.mk.inj (Option.some.inj he)
    exact Or.inr ⟨r, hm, hr⟩
  cases h with
  | start | startupOk | startupFail | bindOk | bindFail | createQueue | createQueueFail | calloc
  | accept | acceptFail | recvFirst | recvFirstFail | socket | listen | ready | createPort
  | createCompletion | createHandler | report | setTarget | associate | recvFailed
  | clearTarget => exact hstart hm' rfl
  | post =>
    obtain ⟨rfl, rfl⟩ := Prod.mk.inj (Option.some.inj hm')
    exact Or.inl (by simp [State.setPort])
  | waitCompletion hm | waitHandler hm | closeListener hm | closePort hm | cleanup hm
  | noCleanup hm => exact hkeep hm rfl hm'
  | readyFail | reportStopped => cases hm'
  | _ => exact Or.inr ⟨p, hm', hp⟩

theorem Step.shutdownOnly {s s' : State K} {l : Label K} (h : Step s l s')
    (hI : ShutdownOnly s) : ShutdownOnly s' := by
  have hmono {k : K} (hk : (s.port k).posted = true) := h.posted_mono hk
  refine ⟨fun k p hp hk => ?_, fun k hp hc => ?_, fun k hk => ?_, fun k p hm hp => ?_⟩
  · rcases h.packet_cases hp with hp | hne | hpost
    · exact hmono (hI.packet k p hp hk)
    · exact absurd hk hne
    · exact hpost
  · rcases h.last_cases hp hc with ⟨hp, hc⟩ | ⟨p, hp, hk⟩
    · exact hmono (hI.last k hp hc)
    · exact hmono (hI.packet k p hp hk)
  · rcases h.closed_cases hk with hk | hm
    · exact hmono (hI.closed k hk)
    · exact hmono (hI.main k .closePort hm rfl)
  · rcases h.pastPost_cases hm hp with hpost | ⟨q, hm, hq⟩
    · exact hpost
    · exact hmono (hI.main k q hm hq)

/-- In every run kept in service, `CompletionThread` leaves its loop only after the shutdown
packet is posted, and the accept loop ends only after `mysocket_clean` has closed its
listening socket. -/
theorem server_keeps_serving {tr : List (Label K)} {s : State K}
    (hm : Meets step (fun s l => inService s l = true) init tr)
    (h : exec step init tr = some s) : Serving s := by
  have hinv : Serving s ∧ ShutdownOnly s := by
    refine exec_invariant_of_meets (I := fun s => Serving s ∧ ShutdownOnly s) ?_ ?_ hm h
    · intro s l s' hI hok hs
      have hs := step_cases hs
      refine ⟨⟨fun k hk => ?_, fun k p hm' hp => ?_⟩, hs.shutdownOnly hI.2⟩
      · rcases hs.left_cases hok hI.2 hk with hk | hk
        · exact hs.posted_mono (hI.1.completion k hk)
        · exact hs.posted_mono hk
      · exact hs.accept_left hok hI.1.accept hm' hp
    · exact ⟨serving_init, shutdownOnly_init⟩
  exact hinv.1

def resetClient : List (Label Unit) :=
  startRun ++ [.createQueue true, .main] ++ acceptClient 0 ++ [.fail 0]

/-- A served run: the client sends a byte, `mysocket_clean` closes the listening socket, and
the run shuts down. -/
def servedRun : List (Label Unit) :=
  startRun ++ [.createQueue true, .main] ++ acceptClient 0 ++
    [.arrive 0 [1], .getStatus (), .completion (), .enqueue () (some 0), .cleanClose, .cleanReset,
      .calloc 1, .accept false, .main]

theorem server_keeps_serving_servedRun : ∃ s, exec step init servedRun = some s ∧ Serving s := by
  obtain ⟨s, hs, -⟩ := exec_exists step init servedRun (fun _ => true) (by decide)
  exact ⟨s, hs, server_keeps_serving (by decide) hs⟩

/-- A client's reset ends `CompletionThread`, with no shutdown packet posted. -/
theorem server_stops_on_reset : ¬ ∀ (tr : List (Label Unit)) (s : State Unit),
    exec step init tr = some s → Serving s := by
  intro h
  obtain ⟨s, hs, hp⟩ := exec_exists step init (resetClient ++ [.getStatus ()])
    (fun s => (s.completion ()).pc.left && !(s.port ()).posted) (by decide)
  rw [Bool.and_eq_true] at hp
  have hh := (h _ s hs).completion () hp.1
  simp [hh] at hp

end Cexp.IocpServer
