import Cexp.IocpHandler
import Cexp.IocpOwnership
import Cexp.QueueFlow

/-! The blocks of a run on their way from the kernel to the application: in the packets of the
port, in the completion thread, in the queue and in the handler thread. Every step keeps
their order, takes them at the end and gives them away at the front. -/

namespace Cexp.IocpServer

open Transition BlockingQueue

variable {K : Type}

/-- What `CompletionThread` copies for a packet. -/
def Packet.block (buffer : Nat → List Byte) (p : Packet) : Option Block :=
  if p.success = true ∧ p.transferred ≠ 0 then
    p.key.map fun c => (buffer c).take p.transferred ++ [0]
  else none

/-- The block a completion thread has dequeued and not yet passed to `enqueue`. -/
def CompletionThread.carried (buffer : Nat → List Byte) (th : CompletionThread K) : List Block :=
  match th.pc, th.clientCtx with
  | .copy n, some c => [(buffer c).take n ++ [0]]
  | .enqueue data _, _ => [data]
  | _, _ => []

def HandlerPc.holding : HandlerPc K → List Block
  | .received data => [data]
  | _ => []

def State.buffer (s : State K) (c : Nat) : List Byte := (s.client c).buffer

/-- The blocks of run `k` on their way to its queue. -/
def State.unqueued (s : State K) (k : K) : List Block :=
  (s.completion k).carried s.buffer ++ (s.port k).packets.filterMap (Packet.block s.buffer)

/-- The threads of run `k`, and no others, are in calls on the queue of run `k`. -/
structure Paired (s : State K) (k : K) : Prop where
  completion : ∀ j q, (s.completion j).pc = .inEnqueue q → (q = k ↔ j = k)
  handler : ∀ j q, s.handler j = .inDequeue q → (q = k ↔ j = k)

theorem Packet.block_of_empty {buffer : Nat → List Byte} {p : Packet}
    (h : p.success = true → p.transferred = 0) : p.block buffer = none :=
  if_neg fun hp => hp.2 (h hp.1)

theorem Packet.block_of_data {buffer : Nat → List Byte} {p : Packet} (hs : p.success = true)
    (hn : p.transferred ≠ 0) :
    p.block buffer = p.key.map fun c => (buffer c).take p.transferred ++ [0] := if_pos ⟨hs, hn⟩

theorem Packet.block_congr {buffer buffer' : Nat → List Byte} {p : Packet}
    (h : ∀ c, p.key = some c → buffer' c = buffer c) : p.block buffer' = p.block buffer := by
  cases hk : p.key with
  | none => simp [Packet.block, hk]
  | some c => simp [Packet.block, hk, h c hk]

theorem CompletionThread.carried_congr {buffer buffer' : Nat → List Byte}
    {th : CompletionThread K} (h : ∀ c, th.held = some c → buffer' c = buffer c) :
    th.carried buffer' = th.carried buffer := by
  unfold carried
  split
  case h_1 n c hp hc =>
    rw [h c]
    rw [th.held_of_data (by rw [hp]; rfl), hc]
  all_goals rfl

theorem flow_congr {x y : Queue K} {as : List Addr} (k : K) (hr : Rep x as) (ho : Own x as)
    (hpc : y.pc = x.pc) (hm : y.mem = x.mem) (hf : y.front = x.front) (hre : y.rear = x.rear)
    (hs : y.size = x.size) (hl : y.lock = x.lock) : Rep y as ∧ Own y as ∧
      flow y (.completion k) (.handler k) as = flow x (.completion k) (.handler k) as := by
  refine ⟨⟨hf ▸ hm ▸ hr.chain, hre.trans hr.rear, hs.trans hr.size⟩, ⟨?_, ?_, ?_, ?_, ?_⟩, ?_⟩
  · rw [hpc, hl]
    exact ho.holder
  · exact hl ▸ ho.not_destroyer
  · exact hpc ▸ ho.off_chain
  · rw [hpc, hm]
    exact ho.live
  · exact hpc ▸ ho.alone
  · rw [flow, flow, items, items, hpc, hm]

variable [DecidableEq K]

/-- All blocks of run `k` on their way, the first to arrive in front. -/
def State.pending (s : State K) (k : K) (as : List Addr) : List Block :=
  (s.handler k).holding ++ flow (s.queue k) (.completion k) (.handler k) as ++ s.unqueued k

def chunks (k : K) (es : List (Event K)) : List (List Byte) :=
  es.filterMap fun e => match e with
    | .completed j chunk => if j = k then some chunk else none
    | _ => none

def arrived (k : K) (es : List (Event K)) : List Block := (chunks k es).map (· ++ [0])

def delivered (k : K) (es : List (Event K)) : List Block :=
  es.filterMap fun e => match e with
    | .dataReceived j data _ => if j = k then some data else none
    | _ => none

/-- The two threads of run `k` use its queue, and the threads of other runs do not. -/
def paired (k : K) (s : State K) : Label K → Bool
  | .enqueue j _ | .dequeue j => decide (s.gQueue = some k) == decide (j = k)
  | _ => true

def hasNode (k : K) : Label K → Bool
  | .enqueue j newNode => j ≠ k || newNode.isSome
  | _ => true

def Label.arrives : Label K → Bool
  | .arrive _ _ => true
  | _ => false

def Label.handles : Label K → Bool
  | .handler _ => true
  | _ => false

theorem arrived_eq_nil {s : State K} {l : Label K} (hl : l.arrives = false) (k : K) :
    arrived k (events s l) = [] := by
  cases l with
  | arrive => cases hl
  | main | handler =>
    simp only [events]
    split <;> first | rfl | (split <;> rfl)
  | _ => rfl

theorem delivered_eq_nil {s : State K} {l : Label K} (hl : l.handles = false) (k : K) :
    delivered k (events s l) = [] := by
  cases l with
  | handler => cases hl
  | main | arrive =>
    simp only [events]
    split <;> first | rfl | (split <;> rfl)
  | _ => rfl

/-- The step takes the blocks on the way to the blocks on the way, keeping their order. -/
structure Advances (s : State K) (l : Label K) (s' : State K) (k : K) (as bs : List Addr) :
    Prop where
  rep : Rep (s'.queue k) bs
  own : Own (s'.queue k) bs
  order : s.pending k as ++ arrived k (events s l) =
    delivered k (events s l) ++ s'.pending k bs

theorem Paired.between {s : State K} {k : K} (h : Paired s k) (hC : Calls s) :
    Between (s.queue k) (.completion k) (.handler k) where
  producer t ht := by
    cases t with
    | completion j =>
      by_contra he
      have hout : (s.queue k).pc (.completion j) ≠ .outside := by
        intro ho
        simp [ho, Pc.enqueues, Pc.newNode] at he
      have hj := (h.completion j k ((hC.sync.completion k j).mp hout)).mp rfl
      exact ht (by rw [hj])
    | handler j => exact hC.sync.dequeues k j
  consumer t ht := by
    cases t with
    | completion j => exact or_iff_not_imp_left.mpr (hC.sync.enqueues k j)
    | handler j =>
      left
      by_contra hout
      have hj := (h.handler j k ((hC.sync.handler k j).mp hout)).mp rfl
      exact ht (by rw [hj])

theorem unqueued_move {s t : State K} {j k : K} {th : CompletionThread K} (hb : t.buffer = s.buffer)
    (hp : t.port = s.port) (hc : t.completion = Function.update s.completion j th)
    (hth : j = k → th.carried s.buffer = (s.completion j).carried s.buffer) :
    t.unqueued k = s.unqueued k := by
  rw [State.unqueued, State.unqueued, hb, hp, hc]
  by_cases hj : k = j
  · subst hj
    rw [Function.update_self, hth rfl]
  · rw [Function.update_of_ne hj]

theorem unqueued_port {s t : State K} {j : K} {pt : Port} (hb : t.buffer = s.buffer)
    (hc : t.completion = s.completion) (hp : t.port = Function.update s.port j pt)
    (hpt : pt.packets.filterMap (Packet.block s.buffer) =
      (s.port j).packets.filterMap (Packet.block s.buffer)) (k : K) :
    t.unqueued k = s.unqueued k := by
  rw [State.unqueued, State.unqueued, hb, hp, hc]
  by_cases hj : k = j
  · subst hj
    rw [Function.update_self, hpt]
  · rw [Function.update_of_ne hj]

/-- A chunk arrives: the kernel writes to the buffer of a client that nobody else holds. -/
theorem unqueued_arrive {s : State K} (hO : Owned s) {c : Nat} {j k : K} {chunk : List Byte}
    (hl : 0 < chunk.length) (hout : (s.client c).outstanding = true) :
    ((s.queuePacket c j ⟨chunk.length, some c, some c, true⟩).setClient c { s.client c with
      outstanding := false
      buffer := chunk ++ (s.client c).buffer.drop chunk.length }).unqueued k =
    s.unqueued k ++ if j = k then [chunk ++ [0]] else [] := by
  set t := (s.queuePacket c j ⟨chunk.length, some c, some c, true⟩).setClient c { s.client c with
      outstanding := false, buffer := chunk ++ (s.client c).buffer.drop chunk.length } with ht
  have hbuf (d : Nat) (hd : d ≠ c) : t.buffer d = s.buffer d := by
    simp [ht, State.buffer, State.setClient, State.queuePacket, State.setPort, hd]
  have hcarried : (t.completion k).carried t.buffer = (s.completion k).carried s.buffer := by
    refine CompletionThread.carried_congr fun d hd => hbuf d ?_
    rintro rfl
    cases hO.sole d .kernel (.thread k) hout hd
  have hold : (s.port k).packets.filterMap (Packet.block t.buffer) =
      (s.port k).packets.filterMap (Packet.block s.buffer) := by
    refine List.filterMap_congr fun p hp => Packet.block_congr fun d hd => hbuf d ?_
    rintro rfl
    cases hO.sole d .kernel (.port k) hout (List.mem_filterMap.mpr ⟨p, hp, hd⟩)
  have hblock : Packet.block t.buffer ⟨chunk.length, some c, some c, true⟩ =
      some (chunk ++ [0]) := by
    rw [Packet.block_of_data rfl hl.ne']
    simp [ht, State.buffer, State.setClient]
  rw [State.unqueued, State.unqueued, hcarried, List.append_assoc]
  congr 1
  by_cases hj : j = k
  · subst hj
    have hpt : (t.port j).packets =
        (s.port j).packets ++ [⟨chunk.length, some c, some c, true⟩] := by
      simp [ht, State.setClient, State.queuePacket, State.setPort]
    rw [hpt, List.filterMap_append, hold]
    simp [hblock]
  · have hpt : t.port k = s.port k := by
      simp [ht, State.setClient, State.queuePacket, State.setPort, Ne.symm hj]
    rw [hpt, hold]
    simp [hj]

theorem unqueued_get {s t : State K} {j : K} {p : Packet} {rest : List Packet} {pc : CompletionPc K}
    (hp : (s.completion j).pc = .getStatus) (hr : (s.port j).packets = p :: rest)
    (hb : t.buffer = s.buffer)
    (hpt : t.port = Function.update s.port j { s.port j with packets := rest })
    (hc : t.completion = Function.update s.completion j ⟨pc, p.key, p.overlapped⟩)
    (hblock : CompletionThread.carried s.buffer (⟨pc, p.key, p.overlapped⟩ : CompletionThread K) =
      (p.block s.buffer).toList) (k : K) : t.unqueued k = s.unqueued k := by
  rw [State.unqueued, State.unqueued, hb, hpt, hc]
  by_cases hj : k = j
  · subst hj
    have hnone : (s.completion k).carried s.buffer = [] := by simp [CompletionThread.carried, hp]
    rw [Function.update_self, Function.update_self, hblock, hnone, hr]
    cases hk : p.block s.buffer <;> simp [hk]
  · rw [Function.update_of_ne hj, Function.update_of_ne hj]

variable [Fintype K]

theorem Step.buffer {s s' : State K} {l : Label K} (h : Step s l s') :
    s'.buffer = s.buffer ∨ l.arrives = true := by
  have hset {c : Nat} {x : Client K} (hx : x.buffer = (s.client c).buffer) :
      (fun d => (Function.update s.client c x d).buffer) = s.buffer := by
    funext d
    by_cases hd : d = c
    · subst hd
      simpa [State.buffer] using hx
    · simp [State.buffer, hd]
  have hfree (ptr : Option Nat) : (s.freeOverlapped ptr).buffer = s.buffer := by
    cases ptr with
    | none => rfl
    | some c => exact hset rfl
  cases h with
  | arrive => exact Or.inr rfl
  | calloc | accept | recvFirst | recvFirstFail | associate | recvFailed | closeClient | freeClient
  | exitClose | exitFree | recvAgain | peerClosed | fail => exact Or.inl (hset rfl)
  | emptyTransfer | lastTransfer | exitFreeOverlapped => exact Or.inl (hfree _)
  | _ => exact Or.inl rfl

theorem InSync.holding_resume {cp : K → CompletionThread K} {hd : K → HandlerPc K}
    {qs : K → Queue K} (h : InSync cp hd qs) {q : K}
    {l : BlockingQueue.Label (Thread K) Block} {y : Queue K} (hl : l.insideCall = true)
    (hy : BlockingQueue.step (qs q) l = some y) (k : K) :
    ((BlockingQueue.events (qs q) l).foldl resumeHandler hd k).holding =
      (hd k).holding ++ returned (.handler k) (BlockingQueue.events (qs q) l) := by
  rcases (BlockingQueue.step_cases hy).inside_cases hl (h.unstopped q) with
    ⟨t, r, hev, hr⟩ | ⟨hev, -⟩
  · rw [hev]
    simp only [List.foldl_cons, List.foldl_nil]
    cases t with
    | completion j =>
      rcases hr.result with ⟨rfl, -⟩ | ⟨a, d, rfl, -⟩ <;> simp [resumeHandler, returned]
    | handler j =>
      obtain ⟨d, rfl⟩ := h.returns hr
      by_cases hj : k = j
      · subst hj
        have hin := (h.handler q k).mp hr.was
        simp [resumeHandler, returned, hin, HandlerPc.holding]
      · simp [resumeHandler, returned, hj, Ne.symm hj]
  · have hnone : returned (.handler k) (BlockingQueue.events (qs q) l) = [] := by
      refine List.filterMap_eq_nil_iff.mpr fun e he => ?_
      split
      case h_1 t d => exact absurd he (hev t _)
      case h_2 => rfl
    rw [(foldl_resume_of_no_ret hev cp hd).2, hnone, List.append_nil]

theorem InSync.carried_resume {cp : K → CompletionThread K} {hd : K → HandlerPc K}
    {qs : K → Queue K} (h : InSync cp hd qs) {q : K}
    {l : BlockingQueue.Label (Thread K) Block} {y : Queue K} (hl : l.insideCall = true)
    (hy : BlockingQueue.step (qs q) l = some y) (k : K) (buffer : Nat → List Byte) :
    ((BlockingQueue.events (qs q) l).foldl resumeCompletion cp k).carried buffer =
      (cp k).carried buffer := by
  rcases h.resume_completion hl hy k with he | ⟨hp, he⟩
  · rw [he]
  · rw [he]
    simp [CompletionThread.carried, hp]

theorem Step.advances {s s' : State K} {l : Label K} {k : K} {as : List Addr}
    (h : Step s l s') (hC : Calls s) (hO : Owned s) (hP : Paired s k)
    (hok : paired k s l = true) (hnode : hasNode k l = true) (hr : Rep (s.queue k) as)
    (ho : Own (s.queue k) as) : ∃ bs, Advances s l s' k as bs := by
  have hd := hC.sync.notCalled k
  have hpc : Thread.completion k ≠ .handler k := by simp
  have hbuf := h.buffer
  have hadvance {x : Queue K} {bs : List Addr} (hl : l.arrives = false)
      (he : delivered k (events s l) = []) (hq : s'.queue k = x) (hr' : Rep x bs) (ho' : Own x bs)
      (hu : s'.buffer = s.buffer → (s'.handler k).holding ++
        flow x (.completion k) (.handler k) bs ++ s'.unqueued k = s.pending k as) :
      ∃ bs, Advances s l s' k as bs := by
    have hb := hbuf.resolve_right (by simp [hl])
    refine ⟨bs, hq ▸ hr', hq ▸ ho', ?_⟩
    rw [arrived_eq_nil hl, he, List.append_nil, List.nil_append, ← hu hb, State.pending, hq]
  have hquiet (hl : l.arrives = false) (he : delivered k (events s l) = [])
      (hh : (s'.handler k).holding = (s.handler k).holding) (hq : s'.queue k = s.queue k)
      (hu : s'.buffer = s.buffer → s'.unqueued k = s.unqueued k) :
      ∃ bs, Advances s l s' k as bs :=
    hadvance hl he hq hr ho fun hb => by rw [State.pending, hh, hu hb]
  have hmove {j : K} {t : State K} {p : HandlerPc K}
      (ht : t.handler = Function.update s.handler j p)
      (hj : j = k → p.holding = (s.handler j).holding) :
      (t.handler k).holding = (s.handler k).holding := by
    rw [ht]
    by_cases hk : k = j
    · subst hk
      rw [Function.update_self, hj rfl]
    · rw [Function.update_of_ne hk]
  have hphase {j : K} {p : MainPc} (hm : s.main = some (j, p)) : s.phase j = p.phase := by
    simp [State.phase, hC.fresh.started j p hm, hm]
  cases h with
  | start | startupOk | startupFail | bindOk | bindFail | createQueueFail | calloc | accept
  | acceptFail | recvFirst | recvFirstFail | waitCompletion | waitHandler | socket | listen | ready
  | readyFail | createPort | report | setTarget | associate | recvFailed
  | clearTarget | closeListener | cleanup | noCleanup | reportStopped | cleanClose | cleanReset =>
    exact hquiet rfl (delivered_eq_nil rfl k) rfl rfl fun hb => by
      rw [State.unqueued, hb]; rfl
  | @createCompletion j hm =>
    have hc := hC.fresh.completion j (hphase hm)
    refine hquiet rfl (delivered_eq_nil rfl k) rfl rfl fun hb => unqueued_move hb rfl rfl ?_
    simp [CompletionThread.carried, hc]
  | @createHandler j hm =>
    have hh := hC.fresh.handler j (hphase hm).le
    exact hquiet rfl (delivered_eq_nil rfl k) (hmove rfl fun _ => by rw [hh]; rfl) rfl fun hb => by
      rw [State.unqueued, hb]; rfl
  | post =>
    refine hquiet rfl (delivered_eq_nil rfl k) rfl rfl fun hb => unqueued_port hb rfl rfl ?_ k
    simp [Packet.block]
  | closePort =>
    exact hquiet rfl (delivered_eq_nil rfl k) rfl rfl fun hb => unqueued_port hb rfl rfl rfl k
  | getFailed hp hc hq hs =>
    refine hquiet rfl (delivered_eq_nil rfl k) rfl rfl fun hb =>
      unqueued_get hp hq hb rfl rfl ?_ k
    rw [Packet.block_of_empty fun h => by simp [hs] at h]
    rfl
  | getEmpty hp hc hq hs hn =>
    refine hquiet rfl (delivered_eq_nil rfl k) rfl rfl fun hb =>
      unqueued_get hp hq hb rfl rfl ?_ k
    rw [Packet.block_of_empty fun _ => hn]
    rfl
  | @getData j p rest hp hc hq hs hn =>
    refine hquiet rfl (delivered_eq_nil rfl k) rfl rfl fun hb =>
      unqueued_get hp hq hb rfl rfl ?_ k
    rw [Packet.block_of_data hs hn]
    cases hk : p.key <;> rfl
  | getClosed hp | emptyTransfer hp | lastTransfer hp | closeClient hp | clearClient hp
  | freeClient hp | exitClose hp | exitNoClient hp | exitClear hp | exitFree hp
  | exitFreeOverlapped hp | recvAgain hp | recvAgainFail hp =>
    refine hquiet rfl (delivered_eq_nil rfl k) rfl rfl fun hb =>
      unqueued_move hb ?_ rfl fun _ => ?_
    · rfl
    · simp [CompletionThread.carried, hp]
  | copy hp hc =>
    refine hquiet rfl (delivered_eq_nil rfl k) rfl rfl fun hb =>
      unqueued_move hb rfl rfl fun _ => ?_
    simp [CompletionThread.carried, hp, hc, State.buffer]
  | enqueueNull hp hq =>
    refine hquiet rfl (delivered_eq_nil rfl k) rfl rfl fun hb =>
      unqueued_move hb rfl rfl fun hj => ?_
    simp [paired, hq, hj] at hok
  | dequeueNull hp =>
    refine hquiet rfl (delivered_eq_nil rfl k) (hmove rfl fun _ => by rw [hp]; rfl) rfl
      fun hb => by rw [State.unqueued, hb]; rfl
  | free hp =>
    refine hquiet rfl ?_ (hmove rfl fun _ => by rw [hp]; rfl) rfl
      fun hb => by rw [State.unqueued, hb]; rfl
    simp [events, hp, delivered]
  | peerClosed =>
    refine hquiet rfl (delivered_eq_nil rfl k) rfl rfl fun hb => unqueued_port hb rfl rfl ?_ k
    simp [Packet.block]
  | fail =>
    refine hquiet rfl (delivered_eq_nil rfl k) rfl rfl fun hb => unqueued_port hb rfl rfl ?_ k
    simp [Packet.block]
  | @enqueue j q data n newNode x hp hq hx =>
    by_cases hj : j = k
    · subst hj
      obtain rfl : q = j := by simpa [paired, hq] using hok
      obtain ⟨a, rfl⟩ := Option.isSome_iff_exists.mp (by simpa [hasNode] using hnode)
      obtain ⟨bs, hr', ho', hf⟩ := (BlockingQueue.step_cases hx).enqueue_flow hr ho hd hpc
      refine hadvance rfl (delivered_eq_nil rfl q) (Function.update_self _ _ _) hr' ho' fun hb => ?_
      rw [State.unqueued, hb, hf, State.pending, State.unqueued]
      simp [State.setCompletion, State.setQueue, CompletionThread.carried, hp]
    · have hqk : k ≠ q := by
        rintro rfl
        simp [paired, hq, hj] at hok
      exact hquiet rfl (delivered_eq_nil rfl k) rfl (Function.update_of_ne hqk _ _) fun hb =>
        unqueued_move hb rfl rfl fun he => absurd he hj
  | @dequeue j q x hp hq hx =>
    by_cases hj : j = k
    · subst hj
      obtain rfl : q = j := by simpa [paired, hq] using hok
      obtain ⟨bs, hr', ho', hf⟩ := (BlockingQueue.step_cases hx).dequeue_flow hr ho hd hpc
      refine hadvance rfl (delivered_eq_nil rfl q) (Function.update_self _ _ _) hr' ho' fun hb => ?_
      rw [State.unqueued, hb, hf, State.pending, State.unqueued]
      simp [State.setHandler, State.setQueue, HandlerPc.holding, hp]
    · have hqk : k ≠ q := by
        rintro rfl
        simp [paired, hq, hj] at hok
      exact hquiet rfl (delivered_eq_nil rfl k) (hmove rfl fun he => absurd he hj)
        (Function.update_of_ne hqk _ _) fun hb => by rw [State.unqueued, hb]; rfl
  | @received j data hp =>
    by_cases hj : j = k
    · subst hj
      have hb : (s.setHandler j (.free data)).buffer = s.buffer := rfl
      refine ⟨as, hr, ho, ?_⟩
      rw [arrived_eq_nil (l := .handler j) rfl, State.pending, State.pending, State.unqueued,
        State.unqueued, hb]
      simp [delivered, events, State.setHandler, HandlerPc.holding, hp]
    · refine hquiet rfl ?_ (hmove rfl fun he => absurd he hj) rfl
        fun hb => by rw [State.unqueued, hb]; rfl
      simp [events, hp, delivered, hj]
  | @queue q l x hl hx =>
    have hcarried := hC.sync.carried_resume hl hx k s.buffer
    have hu (hb : ((s.setQueue q x).resume
        (BlockingQueue.events (s.queue q) l)).buffer = s.buffer) :
        ((s.setQueue q x).resume (BlockingQueue.events (s.queue q) l)).unqueued k =
          s.unqueued k := by
      rw [State.unqueued, State.unqueued, hb]
      exact congrArg (· ++ _) hcarried
    by_cases hq : q = k
    · subst hq
      obtain ⟨bs, hr', ho', hf⟩ := (BlockingQueue.step_cases hx).keeps_flow hl hr ho
        (hC.sync.unstopped q) hd (hP.between hC) hpc
      have hheld := hC.sync.holding_resume hl hx q
      refine hadvance rfl (delivered_eq_nil rfl q) (Function.update_self _ _ _) hr' ho' fun hb => ?_
      rw [hu hb, State.pending, hf, ← List.append_assoc, ← hheld]
      rfl
    · have hin : s.handler k ≠ .inDequeue q := fun hk => hq ((hP.handler k q hk).mpr rfl)
      have hheld := (hC.sync.resume_other hl hx k).2 hin
      exact hquiet rfl (delivered_eq_nil rfl k) (congrArg HandlerPc.holding hheld)
        (Function.update_of_ne (Ne.symm hq) _ _) hu
  | @createQueue j hm =>
    by_cases hj : j = k
    · subst hj
      obtain ⟨-, hout, hsize⟩ := hC.fresh.queue j (hphase hm).le
      obtain rfl : as = [] := by
        have := hr.size
        simpa [hsize, eq_comm] using this
      refine hadvance rfl (delivered_eq_nil rfl j) (if_pos rfl) (rep_createQueue 0)
        (own_createQueue 0) fun hb => ?_
      rw [State.unqueued, hb, State.pending, State.unqueued]
      simp [flow, hout, items, LinkedChain.contents, BlockingQueue.createQueue, Pc.taken, Pc.given,
        Pc.newNode, State.goto, State.newQueue]
    · have hq : (s.newQueue j).queue k =
          { s.queue k with stop := false, glimitSize := BlockingQueue.limitOf 0 } :=
        if_neg (Ne.symm hj)
      obtain ⟨hr', ho', hf⟩ := flow_congr (y := (s.newQueue j).queue k) k hr ho (by rw [hq])
        (by rw [hq]) (by rw [hq]) (by rw [hq]) (by rw [hq]) (by rw [hq])
      refine hadvance (x := (s.newQueue j).queue k) rfl (delivered_eq_nil rfl k) rfl hr' ho'
        fun hb => ?_
      rw [State.unqueued, hb, hf]
      rfl
  | @arrive c j chunk hl hb hk hout =>
    refine ⟨as, hr, ho, ?_⟩
    have hu := unqueued_arrive hO hl hout (j := j) (k := k)
    rw [delivered_eq_nil rfl, List.nil_append, State.pending, State.pending, hu]
    by_cases hj : j = k <;>
      simp [events, hk, arrived, chunks, hj, State.setClient, State.queuePacket, State.setPort]

end Cexp.IocpServer
