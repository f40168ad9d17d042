import Cexp.IocpCalls

/-! The `HandleReceivedThread` of a run and the global `gQueue`: the thread is created before
its run assigns `gQueue`, and reads it anew for every `dequeue`. -/

namespace Cexp.IocpServer

open Transition

variable {K : Type}

/-- The run has reported `stateChanged(1)` and not begun to shut down. -/
def MainPc.running : MainPc → Bool
  | .calloc | .accept _ | .setTarget _ | .associate _ | .recv _ | .recvFailed _ | .clearTarget
  | .post => true
  | _ => false

structure LiveConsumer (s : State K) (k : K) : Prop where
  created : s.handler k ≠ .notStarted
  alive : s.handler k ≠ .exited
  here : ∀ q, s.handler k = .inDequeue q → q = k
  next : s.gQueue = some k

/-- A running server has a live consumer, and no handler thread ever is in a `dequeue` on the
queue of another run. -/
structure Consumed (s : State K) : Prop where
  running : ∀ k p, s.main = some (k, p) → p.running = true → LiveConsumer s k
  own : ∀ k q, s.handler k = .inDequeue q → q = k

structure OnTime (s : State K) : Prop where
  alive : ∀ k, s.handler k ≠ .exited
  own : ∀ k q, s.handler k = .inDequeue q → q = k
  null : s.gQueue = none → ∀ k, s.handler k = .notStarted ∨ s.main = some (k, .createQueue)
  created : ∀ k p, s.main = some (k, p) → 2 ≤ p.phase → s.handler k ≠ .notStarted
  assigned : ∀ k p, s.main = some (k, p) → p.phase = 3 → s.gQueue = some k

theorem onTime_init : OnTime (init : State K) where
  alive _ := nofun
  own _ _ := nofun
  null _ _ := Or.inl rfl
  created _ _ := nofun
  assigned _ _ := nofun

variable [DecidableEq K]

/-- No handler thread reads `gQueue` before its own run has assigned it, nor after a later
run has; and `createQueue` has memory. -/
def handlerOnTime (s : State K) : Label K → Bool
  | .dequeue k => s.main ≠ some (k, .createQueue) && s.gQueue.all fun q => q = k
  | .createQueue ok => ok
  | _ => true

variable [Fintype K]

/-- What a step does to the handler thread of a run: nothing, its creation, or a move of its
own, which ends it only by NULL in `gQueue`. -/
inductive HandlerMove (s s' : State K) (l : Label K) (k : K) : Prop where
  | same (h : s'.handler k = s.handler k)
  | created (hm : s.main = some (k, .createHandler)) (hm' : s'.main = some (k, .createQueue))
    (h : s'.handler k = .dequeue)
  | moved (hs : s.handler k ≠ .notStarted) (hm : s'.main = s.main)
    (h : s'.handler k ≠ .notStarted)
    (hx : s'.handler k = .exited → l = .dequeue k ∧ s.gQueue = none)
    (hq : ∀ q, s'.handler k = .inDequeue q → l = .dequeue k ∧ s.gQueue = some q)

theorem Step.handlerMove {s s' : State K} {l : Label K} (h : Step s l s') (hC : Calls s)
    (k : K) : HandlerMove s s' l k := by
  have hother {j : K} {p : HandlerPc K} (hs : s'.handler = Function.update s.handler j p)
      (hj : k ≠ j) : HandlerMove s s' l k :=
    .same (by rw [hs, Function.update_of_ne hj])
  cases h with
  | @createHandler j hm =>
    by_cases hj : k = j
    · subst hj
      exact .created hm rfl (Function.update_self _ _ _)
    · exact hother rfl hj
  | @dequeueNull j hp hq =>
    by_cases hj : k = j
    · subst hj
      have hs : (s.setHandler k .exited).handler k = .exited := Function.update_self _ _ _
      refine .moved (by simp [hp]) rfl (by simp [hs]) (fun _ => ⟨rfl, hq⟩) fun q hh => ?_
      simp [hs] at hh
    · exact hother rfl hj
  | @dequeue j q x hp hq hx =>
    by_cases hj : k = j
    · subst hj
      have hs : ((s.setQueue q x).setHandler k (.inDequeue q)).handler k = .inDequeue q :=
        Function.update_self _ _ _
      refine .moved (by simp [hp]) rfl (by simp [hs]) (fun hh => by simp [hs] at hh) fun q' hh => ?_
      rw [hs] at hh
      exact ⟨rfl, hq.trans (congrArg some (HandlerPc.inDequeue.inj hh))⟩
    · exact hother rfl hj
  | @received j d hp =>
    by_cases hj : k = j
    · subst hj
      have hs : (s.setHandler k (.free d)).handler k = .free d := Function.update_self _ _ _
      exact .moved (by simp [hp]) rfl (by simp [hs]) (by simp [hs]) (by simp [hs])
    · exact hother rfl hj
  | @free j d hp =>
    by_cases hj : k = j
    · subst hj
      have hs : (s.setHandler k .dequeue).handler k = .dequeue := Function.update_self _ _ _
      exact .moved (by simp [hp]) rfl (by simp [hs]) (by simp [hs]) (by simp [hs])
    · exact hother rfl hj
  | @queue q l x hl hx =>
    by_cases hk : s.handler k = .inDequeue q
    · rcases hC.sync.resume_handler hl hx k with he | ⟨d, hs⟩
      · exact .same he
      · have hs : ((s.setQueue q x).resume (BlockingQueue.events (s.queue q) l)).handler k =
          .received d := hs
        exact .moved (by simp [hk]) rfl (by simp [hs]) (by simp [hs]) (by simp [hs])
    · exact .same ((hC.sync.resume_other hl hx k).2 hk)
  | _ => exact .same rfl

theorem Step.created_cases {s s' : State K} {l : Label K} (h : Step s l s') {k : K} {p : MainPc}
    (hm' : s'.main = some (k, p)) (hp : 2 ≤ p.phase) :
    (∃ q, s.main = some (k, q) ∧ 2 ≤ q.phase) ∨ s'.handler k = .dequeue := by
  have hkeep {j : K} {q r : MainPc} (hm : s.main = some (j, r)) (hr : 2 ≤ r.phase)
      (he : some (j, q) = some (k, p)) : ∃ q, s.main = some (k, q) ∧ 2 ≤ q.phase := by
    obtain ⟨rfl, rfl⟩ := Prod.mk.inj (Option.some.inj he)
    exact ⟨r, hm, hr⟩
  have hstart {j : K} {q : MainPc} (he : some (j, q) = some (k, p)) (hq : q.phase < 2) : False := by
    obtain ⟨rfl, rfl⟩ := Prod.mk.inj (Option.some.inj he)
    omega
  cases h with
  | start | startupOk | startupFail | bindOk | bindFail | socket | listen | ready | createPort
  | createCompletion => exact (hstart hm' (by simp [MainPc.phase])).elim
  | createHandler =>
    obtain ⟨rfl, rfl⟩ := Prod.mk.inj (Option.some.inj hm')
    exact Or.inr (Function.update_self _ _ _)
  | readyFail | reportStopped => cases hm'
  | createQueue hm | createQueueFail hm | calloc hm | accept hm | acceptFail hm | recvFirst hm
  | recvFirstFail hm | waitCompletion hm | waitHandler hm | report hm | setTarget hm
  | associate hm | recvFailed hm | clearTarget hm | post hm | closeListener hm | closePort hm
  | cleanup hm | noCleanup hm => exact Or.inl (hkeep hm (by simp [MainPc.phase]) hm')
  | _ => exact Or.inl ⟨p, hm', hp⟩

theorem Step.main_cases {s s' : State K} {l : Label K} (h : Step s l s')
    (hok : handlerOnTime s l = true) :
    (∃ k, s.main = some (k, .createQueue) ∧ s'.gQueue = some k ∧ s'.handler = s.handler) ∨
      (s'.gQueue = s.gQueue ∧ ∀ k, s.main = some (k, .createQueue) →
        s'.main = some (k, .createQueue)) := by
  cases h with
  | @createQueue k hm => exact Or.inl ⟨k, hm, rfl, rfl⟩
  | createQueueFail => cases hok
  | start hm | startupOk hm | startupFail hm | bindOk hm | bindFail hm | calloc hm | accept hm
  | acceptFail hm | recvFirst hm | recvFirstFail hm | waitCompletion hm | waitHandler hm
  | socket hm | listen hm | ready hm | readyFail hm | createPort hm | createCompletion hm
  | createHandler hm | report hm | setTarget hm | associate hm | recvFailed hm | clearTarget hm
  | post hm | closeListener hm | closePort hm | cleanup hm | noCleanup hm | reportStopped hm =>
    exact Or.inr ⟨rfl, fun k hk => by rw [hm] at hk; cases hk⟩
  | _ => exact Or.inr ⟨rfl, fun _ hk => hk⟩

omit [DecidableEq K] [Fintype K] in
theorem MainPc.Next.phase_cases {l : Label K} {p q : MainPc} (h : MainPc.Next l p q)
    (hq : q.phase = 3) : p.phase = 3 ∨ p = .createQueue := by
  cases h <;> simp_all [MainPc.phase]

theorem Step.assigned {s s' : State K} {l : Label K} (h : Step s l s')
    (hok : handlerOnTime s l = true) (hI : OnTime s) {k : K} {p : MainPc}
    (hm' : s'.main = some (k, p)) (hp : p.phase = 3) : s'.gQueue = some k := by
  have hcreate (hm : s.main = some (k, .createQueue)) : s'.gQueue = some k := by
    rcases h.main_cases hok with ⟨j, hj, hg, -⟩ | ⟨-, hstay⟩
    · obtain ⟨rfl, -⟩ := Prod.mk.inj (Option.some.inj (hj.symm.trans hm))
      exact hg
    · obtain ⟨-, rfl⟩ := Prod.mk.inj (Option.some.inj ((hstay k hm).symm.trans hm'))
      cases hp
  have hkeep {q : MainPc} (hm : s.main = some (k, q)) (hq : q.phase = 3) :
      s'.gQueue = some k := by
    rcases h.main_cases hok with ⟨j, hj, -⟩ | ⟨hg, -⟩
    · obtain ⟨-, rfl⟩ := Prod.mk.inj (Option.some.inj (hj.symm.trans hm))
      cases hq
    · exact hg.trans (hI.assigned k q hm hq)
  cases h.mainMove with
  | same hm => exact hkeep (hm ▸ hm') hp
  | start hm hk hj =>
    obtain ⟨rfl, rfl⟩ := Prod.mk.inj (Option.some.inj (hj.symm.trans hm'))
    cases hp
  | done hm hj => simp [hj] at hm'
  | next hm hj hs hn =>
    obtain ⟨rfl, rfl⟩ := Prod.mk.inj (Option.some.inj (hj.symm.trans hm'))
    rcases hn.phase_cases hp with hq | rfl
    · exact hkeep hm hq
    · exact hcreate hm

theorem Step.onTime {s s' : State K} {l : Label K} (h : Step s l s') (hC : Calls s)
    (hok : handlerOnTime s l = true) (hI : OnTime s) : OnTime s' := by
  refine ⟨fun k hx => ?_, fun k q hq => ?_, fun hn k => ?_, fun k p hm hp => ?_,
    fun k p hm hp => h.assigned hok hI hm hp⟩
  · cases h.handlerMove hC k with
    | same he => exact hI.alive k (he ▸ hx)
    | created _ _ he => simp [he] at hx
    | moved hs _ _ hx' _ =>
      obtain ⟨rfl, hn⟩ := hx' hx
      simp only [handlerOnTime, Bool.and_eq_true, decide_eq_true_eq] at hok
      rcases hI.null hn k with hh | hm
      · exact hs hh
      · exact hok.1 hm
  · cases h.handlerMove hC k with
    | same he => exact hI.own k q (he ▸ hq)
    | created _ _ he => simp [he] at hq
    | moved _ _ _ _ hq' =>
      obtain ⟨rfl, hg⟩ := hq' q hq
      simp only [handlerOnTime, Bool.and_eq_true] at hok
      simpa [hg, eq_comm] using hok.2
  · rcases h.main_cases hok with ⟨j, -, hg, -⟩ | ⟨hg, hm⟩
    · simp [hg] at hn
    · cases h.handlerMove hC k with
      | same he => exact (hI.null (hg ▸ hn) k).imp (he ▸ ·) (hm k)
      | created _ hm' _ => exact Or.inr hm'
      | moved hs _ _ _ _ => exact Or.inr (hm k ((hI.null (hg ▸ hn) k).resolve_left hs))
  · cases h.handlerMove hC k with
    | same he =>
      rcases h.created_cases hm hp with ⟨q, hq, hp⟩ | he'
      · exact he ▸ hI.created k q hq hp
      · simp [he']
    | created _ _ he => simp [he]
    | moved _ _ he _ _ => exact he

/-- In every run in which each handler thread reads `gQueue` on time, a running server has a
live consumer on its current queue. -/
theorem running_server_has_consumer {tr : List (Label K)} {s : State K}
    (hm : Meets step (fun s l => handlerOnTime s l = true) init tr)
    (h : exec step init tr = some s) : Consumed s := by
  have hinv : Calls s ∧ OnTime s := by
    refine exec_invariant_of_meets (I := fun s => Calls s ∧ OnTime s) ?_
      ⟨calls_init, onTime_init⟩ hm h
    intro s l s' hI hok hs
    exact ⟨(step_cases hs).calls hI.1, (step_cases hs).onTime hI.1 hok hI.2⟩
  refine ⟨fun k p hp hr => ?_, hinv.2.own⟩
  have hphase : p.phase = 3 := by cases p <;> simp_all [MainPc.running, MainPc.phase]
  exact ⟨hinv.2.created k p hp (by omega), hinv.2.alive k, hinv.2.own k,
    hinv.2.assigned k p hp hphase⟩

def lateHandler : List (Label Unit) :=
  startRun ++ [.createQueue true, .dequeue (), .main] ++ acceptClient 0

theorem running_server_has_consumer_lateHandler :
    ∃ s, exec step init lateHandler = some s ∧ Consumed s ∧ s.handler () = .inDequeue () := by
  obtain ⟨s, hs, hp⟩ := exec_exists step init lateHandler
    (fun s => s.handler () = .inDequeue ()) (by decide)
  exact ⟨s, hs, running_server_has_consumer (by decide) hs, of_decide_eq_true hp⟩

/-- The handler thread reads `gQueue` before it is assigned, and ends; the server runs on. -/
def earlyHandler : List (Label Unit) :=
  startRun ++ [.dequeue (), .createQueue true, .main]

theorem running_server_loses_consumer : ¬ ∀ (tr : List (Label Unit)) (s : State Unit),
    exec step init tr = some s → Consumed s := by
  intro h
  obtain ⟨s, hs, hp⟩ := exec_exists step init earlyHandler
    (fun s => decide (s.main = some ((), .calloc)) && decide (s.handler () = .exited))
    (by decide)
  simp only [Bool.and_eq_true, decide_eq_true_eq] at hp
  exact ((h _ s hs).running () .calloc hp.1 rfl).alive hp.2

end Cexp.IocpServer
