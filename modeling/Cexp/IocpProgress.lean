import Cexp.IocpDelivery
import Cexp.QueueNodes
import Cexp.QueueProgress

/-! What the two threads of a run make of all that has completed, when nothing else happens: within
a bounded number of steps they hand it over, and the handler thread sleeps on an empty queue. -/

namespace Cexp.IocpServer

open Transition BlockingQueue

variable {K : Type}

/-- The packets that `CompletionThread` copies data for have a key. -/
def Port.keyed (p : Port) : Prop :=
  ∀ m ∈ p.packets, m.success = true → m.transferred ≠ 0 → m.key.isSome = true

theorem Port.keyed.append {p p' : Port} {m : Packet} (h : p.keyed)
    (hp : p'.packets = p.packets ++ [m]) (hm : m.key.isSome = true ∨ m.transferred = 0) :
    p'.keyed := by
  intro n hn hs ht
  rw [hp] at hn
  rcases List.mem_append.mp hn with hn | hn
  · exact h n hn hs ht
  · obtain rfl := List.mem_singleton.mp hn
    exact hm.resolve_right ht

theorem Port.keyed.rest {p p' : Port} {m : Packet} {rest : List Packet} (h : p.keyed)
    (hq : p.packets = m :: rest) (hp : p'.packets = rest) : p'.keyed := by
  intro n hn
  apply h n
  rw [hq]
  exact List.mem_cons_of_mem _ (hp ▸ hn)

/-- From here on `clientCtx` is used without being looked at. -/
def CompletionPc.usesClient : CompletionPc K → Bool
  | .closeClient | .clearTarget | .freeClient | .copy _ | .enqueue _ _ | .inEnqueue _ | .recv
  | .exitClear | .exitFree => true
  | _ => false

def CompletionThread.keyed (th : CompletionThread K) : Prop :=
  th.pc.usesClient = true → th.clientCtx.isSome = true

structure Keyed (s : State K) (k : K) : Prop where
  port : (s.port k).keyed
  thread : (s.completion k).keyed

theorem keyed_init (k : K) : Keyed (init : State K) k where
  port _ hm := by cases hm
  thread h := by cases h

/-- The threads of a run are there once its queue is the one that `gQueue` names. -/
structure Begun (s : State K) (k : K) : Prop where
  alive : s.handler k ≠ .exited
  handler : (s.gQueue = some k ∨ ∃ p, s.main = some (k, p) ∧ 2 ≤ p.phase) →
    s.handler k ≠ .notStarted
  completion : (s.gQueue = some k ∨ ∃ p, s.main = some (k, p) ∧ 1 ≤ p.phase) →
    (s.completion k).pc ≠ .notStarted

theorem begun_init (k : K) : Begun (init : State K) k where
  alive := by simp [init]
  handler h := by simp [init] at h
  completion h := by simp [init] at h

/-- A bound on the steps that `CompletionThread` takes before it next waits for a packet or has
ended, but for those inside `enqueue`. -/
def CompletionPc.work : CompletionPc K → Nat
  | .notStarted | .exited => 0
  | .exitFreeOverlapped => 1
  | .exitFree => 2
  | .exitClear => 3
  | .exitClose => 4
  | .getStatus => 5
  | .freeClient | .inEnqueue _ | .recv => 6
  | .clearTarget => 7
  | .closeClient => 8
  | .emptyTransfer => 9
  | .enqueue _ _ => 16
  | .copy _ => 17

def HandlerPc.work : HandlerPc K → Nat
  | .notStarted | .inDequeue _ | .received _ | .exited => 0
  | .dequeue => 10
  | .free _ => 11

/-- How many blocks of run `k` are on their way. -/
def State.backlog (s : State K) (k : K) : Nat :=
  (s.handler k).holding.length + ((s.queue k).pc (.handler k)).taken.length +
    (s.queue k).size.toNat + ((s.queue k).pc (.completion k)).newNode.toList.length +
      (s.unqueued k).length

theorem length_pending {s : State K} {k : K} {as : List Addr} (hr : Rep (s.queue k) as)
    (ho : Own (s.queue k) as) : (s.pending k as).length = s.backlog k := by
  have hitems : (items (s.queue k) as).length = (s.queue k).size.toNat := by
    rw [items, hr.chain.length_contents, hr.size, Int.toNat_natCast]
  have hgiven : (((s.queue k).pc (.completion k)).given (s.queue k).mem).length =
      ((s.queue k).pc (.completion k)).newNode.toList.length := by
    cases hn : ((s.queue k).pc (.completion k)).newNode with
    | none => simp [Pc.given, hn]
    | some a =>
      obtain ⟨n, hm, -⟩ := ho.live _ a (Pc.owned_of_newNode hn)
      simp [Pc.given, hn, hm]
  simp only [State.pending, flow, List.length_append, hitems, hgiven, State.backlog]
  omega

variable [DecidableEq K]

/-- A step of one of the two threads of run `k`; nodes are allocated, and nobody wakes up unless
woken. -/
def Label.ofRun (k : K) : Label K → Bool
  | .getStatus j | .completion j | .recvAgain j _ | .dequeue j | .handler j => decide (j = k)
  | .enqueue j newNode => decide (j = k) && newNode.isSome
  | .queue q l => decide (q = k) && l.continues
  | _ => false

variable [Fintype K]

def State.work (s : State K) (k : K) : Nat :=
  12 * s.backlog k + 13 * (s.port k).packets.length + (s.completion k).pc.work +
    (s.handler k).work + stepsLeft (s.queue k)

/-- A queue in which only its own calls have been at work. -/
def OwnCalls (x : Queue K) : Prop :=
  ∃ tr, exec BlockingQueue.step (BlockingQueue.createQueue 0) tr = some x ∧
    ∀ l ∈ tr, l.ownQueue = true

theorem ownCalls_createQueue : OwnCalls (BlockingQueue.createQueue 0 : Queue K) :=
  ⟨[], rfl, by simp⟩

theorem OwnCalls.step {x y : Queue K} {l : BlockingQueue.Label (Thread K) Block} (h : OwnCalls x)
    (hl : l.ownQueue = true) (hy : BlockingQueue.step x l = some y) : OwnCalls y := by
  obtain ⟨tr, hx, hown⟩ := h
  refine ⟨tr ++ [l], exec_append.mpr ⟨x, hx, exec_cons.mpr ⟨y, hy, rfl⟩⟩, fun m hm => ?_⟩
  rcases List.mem_append.mp hm with hm | hm
  · exact hown m hm
  · obtain rfl := List.mem_singleton.mp hm
    exact hl

theorem OwnCalls.globals {x : Queue K} (h : OwnCalls x) (hd : x.destroyer = .notCalled) :
    { x with stop := false, glimitSize := BlockingQueue.limitOf 0 } = x := by
  obtain ⟨tr, hx, hown⟩ := h
  obtain ⟨as, -, -, hb⟩ := run_bounded hx hown hd
  rw [← hb.stop, ← hb.limit]

theorem OwnCalls.exists_fresh {x : Queue K} (h : OwnCalls x) (hd : x.destroyer = .notCalled) :
    ∃ a, x.mem a = none := by
  obtain ⟨tr, hx, -⟩ := h
  obtain ⟨as, -, -, hn⟩ := run_noLeak hx (by rw [entered, hd])
  exact hn.exists_fresh

theorem Step.ownCalls {s s' : State K} {l : Label K} (h : Step s l s') (hC : Calls s)
    (hQ : ∀ q, OwnCalls (s.queue q)) (q : K) : OwnCalls (s'.queue q) := by
  have hset {p : K} {x : Queue K} (hx : OwnCalls x) :
      OwnCalls (Function.update s.queue p x q) := by
    by_cases hq : q = p
    · subst hq
      simpa using hx
    · simpa [hq] using hQ q
  cases h with
  | @createQueue k hm =>
    by_cases hq : q = k
    · simpa [State.newQueue, State.goto, hq] using ownCalls_createQueue
    · have hsame := (hQ q).globals (hC.sync.notCalled q)
      simpa [State.newQueue, State.goto, hq, hsame] using hQ q
  | enqueue hp hq hx | dequeue hp hq hx => exact hset ((hQ _).step rfl hx)
  | @queue p l x hl hx =>
    refine hset ((hQ p).step ?_ hx)
    cases l <;> first | rfl | cases hl
  | _ => exact hQ q

theorem Calls.resumed {s : State K} (hC : Calls s) {q : K} {x : Queue K}
    {l : BlockingQueue.Label (Thread K) Block} (hl : l.insideCall = true)
    (hx : BlockingQueue.step (s.queue q) l = some x) (k : K) :
    ((s.setQueue q x).resume (BlockingQueue.events (s.queue q) l)).completion k =
        s.completion k ∨
      (s.completion k).pc = .inEnqueue q ∧
        ((s.setQueue q x).resume (BlockingQueue.events (s.queue q) l)).completion k =
          { s.completion k with pc := .recv } :=
  hC.sync.resume_completion hl hx k

theorem Step.keyed {s s' : State K} {l : Label K} {k : K} (h : Step s l s') (hC : Calls s)
    (hK : Keyed s k) : Keyed s' k := by
  have hthread {j : K} {th : CompletionThread K}
      (hcp : s'.completion = Function.update s.completion j th) (hth : j = k → th.keyed) :
      (s'.completion k).keyed := by
    rw [hcp]
    by_cases hj : k = j
    · subst hj
      simpa using hth rfl
    · simpa [hj] using hK.thread
  have hport {j : K} {p : Port} (hpt : s'.port = Function.update s.port j p)
      (hp : j = k → p.keyed) : (s'.port k).keyed := by
    rw [hpt]
    by_cases hj : k = j
    · subst hj
      simpa using hp rfl
    · simpa [hj] using hK.port
  have hsome {j : K} {th : CompletionThread K} (hp : (s.completion j).pc.usesClient = true)
      (hc : th.clientCtx = (s.completion j).clientCtx) (hj : j = k) : th.keyed := by
    subst hj
    intro _
    rw [hc]
    exact hK.thread hp
  have hheld {j : K} {c : Nat} {th : CompletionThread K}
      (hc : (s.completion j).clientCtx = some c)
      (hth : th.clientCtx = (s.completion j).clientCtx) : th.keyed := by
    intro _
    rw [hth, hc]
    rfl
  cases h with
  | post => exact ⟨hport rfl fun hj => (hj ▸ hK.port).append rfl (Or.inr rfl), hK.thread⟩
  | closePort => exact ⟨hport rfl fun hj => hj ▸ hK.port, hK.thread⟩
  | createCompletion | getClosed | lastTransfer | freeClient | exitNoClient | exitFree
  | exitFreeOverlapped | recvAgain | recvAgainFail =>
    exact ⟨hK.port, hthread rfl fun _ hu => by cases hu⟩
  | getFailed hp hc hq | getEmpty hp hc hq =>
    exact ⟨hport rfl fun hj => (hj ▸ hK.port).rest hq rfl, hthread rfl fun _ hu => by cases hu⟩
  | getData hp hc hq hs hn =>
    refine ⟨hport rfl fun hj => (hj ▸ hK.port).rest hq rfl, hthread rfl fun hj _ => ?_⟩
    subst hj
    exact hK.port _ (by rw [hq]; exact List.mem_cons_self) hs hn
  | emptyTransfer hp hc | closeClient hp hc | clearClient hp hc | copy hp hc | exitClose hp hc
  | exitClear hp hc =>
    exact ⟨hK.port, hthread rfl fun _ => hheld hc rfl⟩
  | enqueueNull hp | enqueue hp =>
    exact ⟨hK.port, hthread rfl (hsome (by rw [hp]; rfl) rfl)⟩
  | @queue q l x hl hx =>
    refine ⟨hK.port, ?_⟩
    rcases hC.resumed hl hx k with he | ⟨hp, he⟩
    · rw [he]
      exact hK.thread
    · rw [he]
      exact hsome (by rw [hp]; rfl) rfl rfl
  | arrive | peerClosed | fail =>
    exact ⟨hport rfl fun hj => (hj ▸ hK.port).append rfl (Or.inl rfl), hK.thread⟩
  | _ => exact ⟨hK.port, hK.thread⟩

/-- A run's completion thread is created before its queue, and stays created. -/
theorem Step.completion_created {s s' : State K} {l : Label K} {k : K} (h : Step s l s')
    (hC : Calls s) (hc : (s.completion k).pc ≠ .notStarted) :
    (s'.completion k).pc ≠ .notStarted := by
  have hmove {j : K} {th : CompletionThread K}
      (hcp : s'.completion = Function.update s.completion j th) (hth : th.pc ≠ .notStarted) :
      (s'.completion k).pc ≠ .notStarted := by
    rw [hcp]
    by_cases hj : k = j
    · subst hj
      simpa using hth
    · simpa [hj] using hc
  cases h with
  | createCompletion | getClosed | getFailed | getEmpty | getData | emptyTransfer | lastTransfer
  | closeClient | clearClient | freeClient | copy | exitClose | exitNoClient | exitClear | exitFree
  | exitFreeOverlapped | enqueueNull | recvAgain | recvAgainFail => exact hmove rfl (by simp)
  | enqueue =>
    refine hmove rfl ?_
    simp only
    split <;> simp
  | @queue q l x hl hx =>
    rcases hC.resumed hl hx k with he | ⟨-, he⟩
    · rwa [he]
    · simp [he]
  | _ => exact hc

theorem Step.main_created {s s' : State K} {l : Label K} (h : Step s l s') {k : K} {p : MainPc}
    (hm' : s'.main = some (k, p)) (hp : 1 ≤ p.phase) :
    (∃ q, s.main = some (k, q) ∧ 1 ≤ q.phase) ∨ (s'.completion k).pc = .getStatus := by
  have hkeep {j : K} {q r : MainPc} (hm : s.main = some (j, r)) (hr : 1 ≤ r.phase)
      (he : some (j, q) = some (k, p)) : ∃ q, s.main = some (k, q) ∧ 1 ≤ q.phase := by
    obtain ⟨rfl, rfl⟩ := Prod.mk.inj (Option.some.inj he)
    exact ⟨r, hm, hr⟩
  have hstart {j : K} {q : MainPc} (he : some (j, q) = some (k, p)) (hq : q.phase = 0) : False := by
    obtain ⟨rfl, rfl⟩ := Prod.mk.inj (Option.some.inj he)
    omega
  cases h with
  | start | startupOk | startupFail | bindOk | bindFail | socket | listen | ready
  | createPort => exact (hstart hm' rfl).elim
  | createCompletion =>
    obtain ⟨rfl, rfl⟩ := Prod.mk.inj (Option.some.inj hm')
    exact Or.inr (by simp [State.setCompletion])
  | readyFail | reportStopped => cases hm'
  | createHandler hm | createQueue hm | createQueueFail hm | calloc hm | accept hm | acceptFail hm
  | recvFirst hm | recvFirstFail hm | waitCompletion hm | waitHandler hm | report hm
  | setTarget hm | associate hm | recvFailed hm | clearTarget hm | post hm | closeListener hm
  | closePort hm | cleanup hm | noCleanup hm =>
    exact Or.inl (hkeep hm (by simp [MainPc.phase]) hm')
  | _ => exact Or.inl ⟨p, hm', hp⟩

theorem Step.gQueue_cases {s s' : State K} {l : Label K} (h : Step s l s') {k : K}
    (hq : s'.gQueue = some k) : s.gQueue = some k ∨ s.main = some (k, .createQueue) := by
  cases h with
  | createQueue hm =>
    obtain rfl := Option.some.inj hq
    exact Or.inr hm
  | createQueueFail => cases hq
  | _ => exact Or.inl hq

theorem Step.begun {s s' : State K} {l : Label K} {k : K} (h : Step s l s') (hC : Calls s)
    (hok : paired k s l = true) (hB : Begun s k) : Begun s' k := by
  have hcreated (hk : s'.gQueue = some k) :
      s.gQueue = some k ∨ ∃ p, s.main = some (k, p) ∧ 2 ≤ p.phase :=
    (h.gQueue_cases hk).imp_right fun hm => ⟨_, hm, le_rfl⟩
  have hhandler (hs : s.handler k ≠ .notStarted) : s'.handler k ≠ .notStarted := by
    cases h.handlerMove hC k with
    | same he => rwa [he]
    | created _ _ he => simp [he]
    | moved _ _ hs' => exact hs'
  refine ⟨?_, ?_, ?_⟩
  · intro hx
    cases h.handlerMove hC k with
    | same he => exact hB.alive (he ▸ hx)
    | created _ _ he => simp [he] at hx
    | moved _ _ _ hend =>
      obtain ⟨rfl, hnone⟩ := hend hx
      simp [paired, hnone] at hok
  · rintro (hk | ⟨p, hm, hp⟩)
    · exact hhandler (hB.handler (hcreated hk))
    · rcases h.created_cases hm hp with hbefore | hnow
      · exact hhandler (hB.handler (Or.inr hbefore))
      · simp [hnow]
  · rintro (hk | ⟨p, hm, hp⟩)
    · refine h.completion_created hC (hB.completion ((hcreated hk).imp_right ?_))
      rintro ⟨p, hm, hp⟩
      exact ⟨p, hm, Nat.le_of_succ_le hp⟩
    · rcases h.main_created hm hp with hbefore | hnow
      · exact h.completion_created hC (hB.completion (Or.inr hbefore))
      · simp [hnow]

omit [Fintype K] in
theorem paired_of_ofRun {s : State K} {l : Label K} {k : K} (hl : l.ofRun k = true)
    (hq : s.gQueue = some k) : paired k s l = true ∧ intact k s l = true := by
  cases l with
  | dequeue j =>
    obtain rfl := of_decide_eq_true hl
    simp [paired, intact, hasNode, noZero, hq]
  | enqueue j a =>
    obtain ⟨hj, ha⟩ := Bool.and_eq_true_iff.mp hl
    obtain rfl := of_decide_eq_true hj
    simp [paired, intact, hasNode, noZero, hq, ha]
  | getStatus | completion | recvAgain | handler | queue =>
    exact ⟨rfl, rfl⟩
  | _ => cases hl

theorem Step.backlog_eq {s s' : State K} {l : Label K} {k : K} {as : List Addr} (h : Step s l s')
    (hl : l.ofRun k = true) (hq : s.gQueue = some k) (hC : Calls s) (hO : Owned s)
    (hP : Paired s k) (hr : Rep (s.queue k) as) (ho : Own (s.queue k) as) :
    s.backlog k = (delivered k (events s l)).length + s'.backlog k := by
  obtain ⟨hok, hi⟩ := paired_of_ofRun hl hq
  obtain ⟨bs, hb⟩ := h.advances hC hO hP hok (Bool.and_eq_true_iff.mp hi).1 hr ho
  have hnone : arrived k (events s l) = [] := by
    apply arrived_eq_nil
    cases l <;> first | rfl | cases hl
  have horder := congrArg List.length hb.order
  rwa [hnone, List.append_nil, List.length_append, length_pending hr ho,
    length_pending hb.rep hb.own] at horder

theorem stepsLeft_enter {x y : Queue K} {t : Thread K} {c : Call} (ht : x.pc t = .outside)
    (hy : y.pc = Function.update x.pc t (.enter c)) : stepsLeft y = stepsLeft x + 9 := by
  have hupdate := ThreadCount.total_update Pc.left x.pc t (.enter c)
  rw [ht] at hupdate
  rw [stepsLeft, stepsLeft, hy]
  simpa [Pc.left] using hupdate

theorem Step.work_lt {s s' : State K} {l : Label K} {k : K} {as : List Addr} (h : Step s l s')
    (hl : l.ofRun k = true) (hq : s.gQueue = some k) (hC : Calls s) (hO : Owned s)
    (hP : Paired s k) (hr : Rep (s.queue k) as) (ho : Own (s.queue k) as) :
    s'.work k < s.work k := by
  have hback := h.backlog_eq hl hq hC hO hP hr ho
  have hmove {j : K} {th : CompletionThread K} (hj : decide (j = k) = true)
      (hcp : s'.completion = Function.update s.completion j th) (hpt : s'.port = s.port)
      (hh : s'.handler = s.handler) (hqu : s'.queue = s.queue)
      (hlt : th.pc.work < (s.completion j).pc.work) : s'.work k < s.work k := by
    obtain rfl := of_decide_eq_true hj
    rw [State.work, State.work, hcp, Function.update_self, hpt, hh, hqu]
    omega
  have hget {j : K} {p : Port} {m : Packet} {rest : List Packet} {th : CompletionThread K}
      (hj : decide (j = k) = true) (hp : (s.completion j).pc = .getStatus)
      (hpk : (s.port j).packets = m :: rest) (hrest : p.packets = rest)
      (hpt : s'.port = Function.update s.port j p)
      (hcp : s'.completion = Function.update s.completion j th)
      (hh : s'.handler = s.handler) (hqu : s'.queue = s.queue) (hle : th.pc.work ≤ 17) :
      s'.work k < s.work k := by
    obtain rfl := of_decide_eq_true hj
    rw [State.work, State.work, hcp, Function.update_self, hpt, Function.update_self, hrest, hpk,
      hp, hh, hqu, List.length_cons, CompletionPc.work]
    omega
  have hhandle {j : K} {pc : HandlerPc K} (hj : decide (j = k) = true)
      (hh : s'.handler = Function.update s.handler j pc) (hcp : s'.completion = s.completion)
      (hpt : s'.port = s.port) (hqu : s'.queue = s.queue)
      (hlt : pc.work < 12 * (delivered k (events s l)).length + (s.handler j).work) :
      s'.work k < s.work k := by
    obtain rfl := of_decide_eq_true hj
    rw [State.work, State.work, hcp, hh, Function.update_self, hpt, hqu]
    omega
  cases h with
  | getClosed hp | emptyTransfer hp | lastTransfer hp | closeClient hp | clearClient hp
  | freeClient hp | copy hp | exitClose hp | exitNoClient hp | exitClear hp | exitFree hp
  | exitFreeOverlapped hp | recvAgain hp | recvAgainFail hp =>
    exact hmove hl rfl rfl rfl rfl (by simp [hp, CompletionPc.work])
  | getFailed hp hc hpk | getEmpty hp hc hpk | getData hp hc hpk =>
    exact hget hl hp hpk rfl rfl rfl rfl rfl (by simp [CompletionPc.work])
  | enqueueNull hp hnone | dequeueNull hp hnone => simp [hnone] at hq
  | @enqueue j q d n newNode x hp hq' hx =>
    obtain ⟨hj, hnode⟩ := Bool.and_eq_true_iff.mp hl
    obtain rfl := of_decide_eq_true hj
    obtain rfl := Option.some.inj (hq'.symm.trans hq)
    obtain ⟨a, rfl⟩ := Option.isSome_iff_exists.mp hnode
    obtain ⟨hout, ⟨hnone, -⟩ | ⟨b, -, -, he⟩⟩ := enqueue_cases hx
    · cases hnone
    · have hpc : x.pc = Function.update (s.queue q).pc (.completion q) (.enter (.enqueue b)) := by
        rw [he]
        rfl
      have hsteps := stepsLeft_enter hout hpc
      have hin : (((s.setQueue q x).setCompletion q { s.completion q with
          pc := if some a = none then .recv else .inEnqueue q }).completion q).pc =
            .inEnqueue q := by simp [State.setCompletion]
      have hqu : ((s.setQueue q x).setCompletion q { s.completion q with
          pc := if some a = none then .recv else .inEnqueue q }).queue q = x :=
        Function.update_self _ _ _
      rw [State.work, State.work, hin, hqu, hp, hsteps]
      simp only [CompletionPc.work, State.setCompletion, State.setQueue] at hback ⊢
      omega
  | @dequeue j q x hp hq' hx =>
    obtain rfl := of_decide_eq_true hl
    obtain rfl := Option.some.inj (hq'.symm.trans hq)
    obtain ⟨hout, he⟩ := dequeue_cases hx
    have hpc : x.pc = Function.update (s.queue q).pc (.handler q) (.enter .dequeue) := by
      rw [he]
      rfl
    have hsteps := stepsLeft_enter hout hpc
    have hin : ((s.setQueue q x).setHandler q (.inDequeue q)).handler q = .inDequeue q :=
      Function.update_self _ _ _
    have hqu : ((s.setQueue q x).setHandler q (.inDequeue q)).queue q = x :=
      Function.update_self _ _ _
    rw [State.work, State.work, hin, hqu, hp, hsteps]
    simp only [HandlerPc.work, State.setHandler, State.setQueue] at hback ⊢
    omega
  | received hp =>
    obtain rfl := of_decide_eq_true hl
    exact hhandle hl rfl rfl rfl rfl (by simp [hp, HandlerPc.work, events, delivered])
  | free hp => exact hhandle hl rfl rfl rfl rfl (by simp [hp, HandlerPc.work])
  | @queue q m x hm hx =>
    obtain ⟨hj, hcont⟩ := Bool.and_eq_true_iff.mp hl
    obtain rfl := of_decide_eq_true hj
    have hsteps := (BlockingQueue.step_cases hx).stepsLeft_lt hcont
    have hcp :
        (((s.setQueue q x).resume (BlockingQueue.events (s.queue q) m)).completion q).pc.work =
          (s.completion q).pc.work := by
      rcases hC.resumed hm hx q with he | ⟨hp, he⟩
      · rw [he]
      · rw [he, hp]
        rfl
    have hh : (((s.setQueue q x).resume (BlockingQueue.events (s.queue q) m)).handler q).work ≤
        (s.handler q).work := by
      rcases hC.sync.resume_handler hm hx q with he | ⟨d, he⟩
      · exact (congrArg HandlerPc.work he).le
      · exact (congrArg HandlerPc.work he).le.trans (Nat.zero_le _)
    have hqu : ((s.setQueue q x).resume (BlockingQueue.events (s.queue q) m)).queue q = x :=
      Function.update_self _ _ _
    rw [State.work, State.work, hcp, hqu]
    simp only [State.resume, State.setQueue] at hback hh ⊢
    omega
  | _ => cases hl

omit [DecidableEq K] [Fintype K] in
theorem CompletionPc.work_le (p : CompletionPc K) : p.work ≤ 17 := by
  cases p <;> simp [CompletionPc.work]

omit [DecidableEq K] [Fintype K] in
theorem HandlerPc.work_le (p : HandlerPc K) : p.work ≤ 11 := by
  cases p <;> simp [HandlerPc.work]

theorem stepsLeft_paired {s : State K} {k : K} (hC : Calls s) (hP : Paired s k) :
    stepsLeft (s.queue k) = ((s.queue k).pc (.completion k)).left +
      ((s.queue k).pc (.handler k)).left := by
  refine Fintype.sum_eq_add _ _ (by simp) ?_
  rintro (j | j) ⟨hc, hh⟩
  · by_contra hleft
    have hout : (s.queue k).pc (.completion j) ≠ .outside :=
      fun he => by simp [he, Pc.left] at hleft
    have hin := (hC.sync.completion k j).mp hout
    exact hc (congrArg Thread.completion ((hP.completion j k hin).mp rfl))
  · by_contra hleft
    have hout : (s.queue k).pc (.handler j) ≠ .outside := fun he => by simp [he, Pc.left] at hleft
    have hin := (hC.sync.handler k j).mp hout
    exact hh (congrArg Thread.handler ((hP.handler j k hin).mp rfl))

theorem work_le {s : State K} {k : K} (hC : Calls s) (hP : Paired s k) :
    s.work k ≤ 12 * s.backlog k + 13 * (s.port k).packets.length + 28 := by
  have hcompletion : (s.completion k).pc.work + ((s.queue k).pc (.completion k)).left ≤ 17 := by
    by_cases hout : (s.queue k).pc (.completion k) = .outside
    · rw [hout]
      exact (s.completion k).pc.work_le
    · have hleft := ((s.queue k).pc (.completion k)).left_le
      have hbool := Bool.toNat_le ((s.queue k).pc (.completion k)).inCall
      rw [(hC.sync.completion k k).mp hout]
      simp only [CompletionPc.work]
      omega
  have hhandler : (s.handler k).work + ((s.queue k).pc (.handler k)).left ≤ 11 := by
    by_cases hout : (s.queue k).pc (.handler k) = .outside
    · rw [hout]
      exact (s.handler k).work_le
    · have hleft := ((s.queue k).pc (.handler k)).left_le
      have hbool := Bool.toNat_le ((s.queue k).pc (.handler k)).inCall
      rw [(hC.sync.handler k k).mp hout]
      simp only [HandlerPc.work]
      omega
  rw [State.work, stepsLeft_paired hC hP]
  omega

/-- What holds along a run in which the threads of run `k` share its queue. -/
structure Live (k : K) (es : List (Event K)) (s : State K) : Prop where
  calls : Calls s
  owned : Owned s
  stream : Stream k es s
  keyed : Keyed s k
  begun : Begun s k
  queue : ∀ q, OwnCalls (s.queue q)

theorem Live.step {k : K} {es : List (Event K)} {s s' : State K} {l : Label K}
    (hI : Live k es s) (h : Step s l s') (hok : paired k s l = true) (hi : intact k s l = true) :
    Live k (es ++ events s l) s' where
  calls := h.calls hI.calls
  owned := h.owned hI.calls hI.owned
  stream := hI.stream.step h hI.calls hI.owned hok hi
  keyed := h.keyed hI.calls hI.keyed
  begun := h.begun hI.calls hok hI.begun
  queue := h.ownCalls hI.calls hI.queue

theorem live_of_exec {k : K} {tr : List (Label K)} {s : State K}
    (hp : Meets step (fun s l => paired k s l = true) init tr)
    (hi : Meets step (fun s l => intact k s l = true) init tr)
    (h : exec step init tr = some s) : Live k (outputs step events init tr) s := by
  refine exec_history_of_meets events (h := []) (I := Live k) ?_ ?_ (hp.and hi) h
  · intro es s l s' hI hok hs
    exact hI.step (step_cases hs) hok.1 hok.2
  · exact ⟨calls_init, owned_init, stream_init k, keyed_init k, begun_init k,
      fun _ => ownCalls_createQueue⟩

omit [Fintype K] in
theorem Stream.calls_pending {k : K} {es : List (Event K)} {s : State K} (h : Stream k es s) :
    ∃ as, Rep (s.queue k) as ∧ Own (s.queue k) as ∧
      calls k es ++ (s.pending k as).map passOn = (chunks k es).map callOf := by
  obtain ⟨as, hr, ho, hes⟩ := h.order
  refine ⟨as, hr, ho, ?_⟩
  rw [h.passed, ← List.map_append, ← hes, arrived, List.map_map]
  exact List.map_congr_left fun chunk hc => passOn_append_zero (h.whole chunk hc)

/-- The handler thread of run `k` sleeps on its empty queue, the completion thread waits at its
port or has ended, and what has not been passed on is in packets it has left there. -/
structure HandedOver (k : K) (es : List (Event K)) (s : State K) : Prop where
  asleep : s.handler k = .inDequeue k ∧ (s.queue k).pc (.handler k) = .asleep .dequeue
  empty : (s.queue k).size = 0
  served : (s.completion k).pc = .exited ∨
    (s.completion k).pc = .getStatus ∧ (s.port k).packets = []
  passed : calls k es ++ ((s.port k).packets.filterMap (Packet.block s.buffer)).map passOn =
    (chunks k es).map callOf

/-- Neither thread of run `k` can take a step. -/
def Resting (k : K) (s : State K) : Prop := Stuck step (fun l => Label.ofRun k l = true) s

theorem Resting.not_isSome {k : K} {s : State K} (h : Resting k s) {l : Label K}
    (hl : l.ofRun k = true) (hsome : (step s l).isSome = true) : False := by
  rw [h l hl] at hsome
  cases hsome

theorem Live.settled {k : K} {es : List (Event K)} {s : State K} (h : Live k es s)
    (hs : Resting k s) : Settled 0 (s.queue k) := by
  obtain ⟨tr, htr, hown⟩ := h.queue k
  refine run_settled htr hown (h.calls.sync.notCalled k) fun l hl => ?_
  have hinside : l.insideCall = true := by cases l <;> first | rfl | cases hl
  have hstuck := hs (.queue k l) (by simp [Label.ofRun, hl])
  simpa [IocpServer.step, hinside] using hstuck

/-- The handler thread has nothing to do but to wait for an item. -/
theorem Live.handler_asleep {k : K} {es : List (Event K)} {s : State K} (h : Live k es s)
    (hq : s.gQueue = some k) (hs : Resting k s) :
    s.handler k = .inDequeue k ∧ (s.queue k).pc (.handler k) = .asleep .dequeue ∧
      (s.queue k).size = 0 := by
  have hsync := h.calls.sync
  have hin : s.handler k = .inDequeue k := by
    cases hp : s.handler k with
    | notStarted => exact absurd hp (h.begun.handler (Or.inl hq))
    | exited => exact absurd hp h.begun.alive
    | dequeue =>
      have hout : (s.queue k).pc (.handler k) = .outside := by
        by_contra hne
        rw [(hsync.handler k k).mp hne] at hp
        cases hp
      refine (hs.not_isSome (l := .dequeue k) (by simp [Label.ofRun]) ?_).elim
      simp [IocpServer.step, hp, hq, BlockingQueue.step, hout]
    | received d | free d =>
      exact (hs.not_isSome (l := .handler k) (by simp [Label.ofRun])
        (by simp [IocpServer.step, hp])).elim
    | inDequeue q =>
      have hqk := (h.stream.inStep.handler k q hp).mpr rfl
      rw [hqk]
  rcases h.settled hs (.handler k) with hout | ⟨c, hc, hnone⟩
  · exact absurd hout ((hsync.handler k k).mpr hin)
  · cases c with
    | dequeue => exact ⟨hin, hc, hnone⟩
    | enqueue a =>
      have hdeq := hsync.dequeues k k
      rw [hc] at hdeq
      cases hdeq

theorem Live.completion_rests {k : K} {es : List (Event K)} {s : State K} (h : Live k es s)
    (hq : s.gQueue = some k) (hs : Resting k s) :
    (s.queue k).pc (.completion k) = .outside ∧ ((s.completion k).pc = .exited ∨
      (s.completion k).pc = .getStatus ∧ (s.port k).packets = []) := by
  have hsync := h.calls.sync
  have hout : (s.queue k).pc (.completion k) = .outside := by
    rcases h.settled hs (.completion k) with hout | ⟨c, hc, hnone⟩
    · exact hout
    · have henq := hsync.enqueues k k (by simp [hc])
      cases c with
      | dequeue =>
        rw [hc] at henq
        cases henq
      | enqueue a =>
        -- The queue is empty, and so has room.
        rw [Call.sleepsOn, available, (h.handler_asleep hq hs).2.2] at hnone
        cases hnone
  refine ⟨hout, ?_⟩
  have hclient (hu : (s.completion k).pc.usesClient = true) :
      ∃ c, (s.completion k).clientCtx = some c :=
    Option.isSome_iff_exists.mp (h.keyed.thread hu)
  cases hp : (s.completion k).pc with
  | notStarted => exact absurd hp (h.begun.completion (Or.inl hq))
  | exited => exact Or.inl rfl
  | getStatus =>
    refine Or.inr ⟨rfl, ?_⟩
    by_contra hne
    obtain ⟨m, rest, hm⟩ := List.exists_cons_of_ne_nil hne
    refine hs.not_isSome (l := .getStatus k) (by simp [Label.ofRun]) ?_
    simp only [IocpServer.step, getStatus, hp, hm]
    split <;> rfl
  | inEnqueue q =>
    have hqk := (h.stream.inStep.completion k q hp).mpr rfl
    exact absurd hout ((hsync.completion k k).mpr (hqk ▸ hp))
  | enqueue d n =>
    obtain ⟨a, ha⟩ := (h.queue k).exists_fresh (hsync.notCalled k)
    refine (hs.not_isSome (l := .enqueue k (some a)) (by simp [Label.ofRun]) ?_).elim
    simp [IocpServer.step, hp, hq, BlockingQueue.step, hout, ha]
  | recv =>
    obtain ⟨c, hc⟩ := hclient (by rw [hp]; rfl)
    exact (hs.not_isSome (l := .recvAgain k false) (by simp [Label.ofRun])
      (by simp [IocpServer.step, hp, hc])).elim
  | closeClient | clearTarget | freeClient | copy | exitClear | exitFree =>
    obtain ⟨c, hc⟩ := hclient (by rw [hp]; rfl)
    refine (hs.not_isSome (l := .completion k) (by simp [Label.ofRun]) ?_).elim
    simp [IocpServer.step, completionStep, hp, hc]
  | emptyTransfer | exitClose | exitFreeOverlapped =>
    refine (hs.not_isSome (l := .completion k) (by simp [Label.ofRun]) ?_).elim
    cases hc : (s.completion k).clientCtx <;> simp [IocpServer.step, completionStep, hp, hc]

theorem Live.handedOver {k : K} {es : List (Event K)} {s : State K} (h : Live k es s)
    (hq : s.gQueue = some k) (hs : Resting k s) : HandedOver k es s := by
  obtain ⟨hin, hasleep, hsize⟩ := h.handler_asleep hq hs
  obtain ⟨hout, hserved⟩ := h.completion_rests hq hs
  obtain ⟨as, hr, -, hcalls⟩ := h.stream.calls_pending
  refine ⟨⟨hin, hasleep⟩, hsize, hserved, ?_⟩
  have hpending : s.pending k as = (s.port k).packets.filterMap (Packet.block s.buffer) := by
    obtain rfl : as = [] := by simpa [hsize, eq_comm] using hr.size
    have hcarried : (s.completion k).carried s.buffer = [] := by
      rcases hserved with hp | ⟨hp, -⟩ <;> simp [CompletionThread.carried, hp]
    simp [State.pending, State.unqueued, flow, items, LinkedChain.contents, hin, hasleep, hout,
      hcarried, HandlerPc.holding, Pc.taken, Pc.given, Pc.newNode]
  rw [← hpending]
  exact hcalls

theorem Step.gQueue_ofRun {s s' : State K} {l : Label K} {k : K} (h : Step s l s')
    (hl : l.ofRun k = true) : s'.gQueue = s.gQueue := by
  cases h <;> first | rfl | cases hl

/-- The steps of a run's threads from `s` on go on with the history `es`. -/
def Continued (k : K) (es : List (Event K)) (s : State K) : Prop :=
  Live k es s ∧ s.gQueue = some k

theorem Continued.step {k : K} {es : List (Event K)} {s s' : State K} {l : Label K}
    (h : Continued k es s) (hl : l.ofRun k = true) (hs : IocpServer.step s l = some s') :
    Continued k (es ++ events s l) s' ∧ s'.work k < s.work k := by
  have hstep := step_cases hs
  obtain ⟨hok, hi⟩ := paired_of_ofRun hl h.2
  obtain ⟨as, hr, ho, -⟩ := h.1.stream.order
  exact ⟨⟨h.1.step hstep hok hi, (hstep.gQueue_ofRun hl).trans h.2⟩,
    hstep.work_lt hl h.2 h.1.calls h.1.owned h.1.stream.inStep hr ho⟩

theorem Continued.exec {k : K} {es : List (Event K)} {s t : State K} {more : List (Label K)}
    (h : Continued k es s) (hm : ∀ l ∈ more, l.ofRun k = true)
    (he : Transition.exec IocpServer.step s more = some t) :
    Continued k (es ++ outputs IocpServer.step events s more) t := by
  refine exec_history_of_meets events (I := Continued k) ?_ h (meets_of_mem hm s) he
  intro es s l s' hI hl hs
  exact (hI.step hl hs).1

/-- In every run of the server, while `gQueue` names the queue of run `k`, the two threads of run
`k` left to themselves hand over all that has completed, whatever the interleaving: they take at
most twelve steps for each block not passed on, thirteen for each packet and 28 more, and then
the handler thread waits for more. -/
theorem run_hands_over {k : K} {tr : List (Label K)} {s : State K}
    (hp : Meets step (fun s l => paired k s l = true) init tr)
    (hi : Meets step (fun s l => intact k s l = true) init tr)
    (h : exec step init tr = some s) (hq : s.gQueue = some k) :
    let es := outputs step events init tr
    (∀ more t, (∀ l ∈ more, l.ofRun k = true) → exec step s more = some t →
      more.length ≤
        12 * ((chunks k es).length - (calls k es).length) + 13 * (s.port k).packets.length + 28 ∧
      (Resting k t → HandedOver k (es ++ outputs step events s more) t)) ∧
    ∃ more t, (∀ l ∈ more, l.ofRun k = true) ∧ exec step s more = some t ∧
      HandedOver k (es ++ outputs step events s more) t := by
  intro es
  have hlive : Continued k es s := ⟨live_of_exec hp hi h, hq⟩
  have hmeasure (u : State K) (l : Label K) (v : State K) (hu : ∃ es, Continued k es u)
      (hl : l.ofRun k = true) (hv : step u l = some v) :
      (∃ es, Continued k es v) ∧ v.work k < u.work k := by
    obtain ⟨fs, hfs⟩ := hu
    exact ⟨⟨_, (hfs.step hl hv).1⟩, (hfs.step hl hv).2⟩
  have hrest {more : List (Label K)} {t : State K} (hm : ∀ l ∈ more, l.ofRun k = true)
      (he : exec step s more = some t) (ht : Resting k t) :
      HandedOver k (es ++ outputs step events s more) t := by
    have hcont := hlive.exec hm he
    exact hcont.1.handedOver hcont.2 ht
  refine ⟨fun more t hm he => ⟨?_, hrest hm he⟩, ?_⟩
  · have hlen := (exec_length_le_of_invariant hmeasure ⟨es, hlive⟩ hm he).2
    have hwork := work_le hlive.1.calls hlive.1.stream.inStep
    obtain ⟨as, hr, ho, hcalls⟩ := hlive.1.stream.calls_pending
    have hback := congrArg List.length hcalls
    rw [List.length_append, List.length_map, List.length_map, length_pending hr ho] at hback
    omega
  · obtain ⟨more, t, hm, he, ht⟩ := exists_stuck_of_invariant hmeasure ⟨es, hlive⟩
    exact ⟨more, t, hm, he, hrest hm he ht⟩

/-- Two letters have come, and nobody has looked at the packet yet. -/
def lettersCome : List (Label Unit) :=
  startRun ++ [.createQueue true, .main] ++ acceptClient 0 ++ [.arrive 0 [72, 105]]

theorem run_hands_over_lettersCome :
    ∃ s, exec step init lettersCome = some s ∧ (s.port ()).packets.length = 1 ∧
      ∃ more t, (∀ l ∈ more, l.ofRun () = true) ∧ exec step s more = some t ∧
        HandedOver () (outputs step events init lettersCome ++ outputs step events s more) t := by
  obtain ⟨s, hs, hp⟩ := exec_exists step init lettersCome
    (fun s => decide ((s.port ()).packets.length = 1) && decide (s.gQueue = some ())) (by decide)
  simp only [Bool.and_eq_true, decide_eq_true_eq] at hp
  exact ⟨s, hs, hp.1, (run_hands_over (by decide) (by decide) hs hp.2).2⟩

end Cexp.IocpServer
