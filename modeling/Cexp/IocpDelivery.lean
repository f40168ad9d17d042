import Cexp.IocpStream
import Cexp.Terminated

/-! The data a run receives and the data it passes on: the `dataReceived` calls follow the
completed chunks, as long as every node is allocated and no chunk has a zero byte. -/

namespace Cexp.IocpServer

open Transition BlockingQueue

variable {K : Type}

structure Drained (s : State K) (k : K) : Prop where
  port : ∀ p ∈ (s.port k).packets, p.success = true → p.transferred = 0
  copy : ∀ n, (s.completion k).pc ≠ .copy n
  enqueue : ∀ data n, (s.completion k).pc ≠ .enqueue data n
  newNode : ((s.queue k).pc (.completion k)).newNode = none
  size : (s.queue k).size = 0
  taken : ((s.queue k).pc (.handler k)).taken = []
  received : ∀ data, s.handler k ≠ .received data

theorem pending_of_drained {s : State K} {k : K} {as : List Addr} (h : Drained s k)
    (hr : Rep (s.queue k) as) : s.pending k as = [] := by
  obtain rfl : as = [] := by simpa [h.size, eq_comm] using hr.size
  have hhold : (s.handler k).holding = [] := by
    cases hp : s.handler k with
    | received d => exact absurd hp (h.received d)
    | _ => rfl
  have hport : (s.port k).packets.filterMap (Packet.block s.buffer) = [] :=
    List.filterMap_eq_nil_iff.mpr fun p hp => Packet.block_of_empty (h.port p hp)
  have hcarried : (s.completion k).carried s.buffer = [] := by
    unfold CompletionThread.carried
    split
    case h_1 n c hp _ => exact absurd hp (h.copy n)
    case h_2 data n hp => exact absurd hp (h.enqueue data n)
    case h_3 => rfl
  simp [State.pending, State.unqueued, hhold, hport, hcarried, flow, h.taken, Pc.given, h.newNode,
    items, LinkedChain.contents]

variable [DecidableEq K]

/-- The `dataReceived` calls of run `k`: the bytes they are given, and the number. -/
def calls (k : K) (es : List (Event K)) : List (List Byte × Nat) :=
  es.filterMap fun e => match e with
    | .dataReceived j data len => if j = k then some (data.take len, len) else none
    | _ => none

/-- The call a chunk ought to be passed on with. -/
def callOf (chunk : List Byte) : List Byte × Nat := (chunk, chunk.length)

/-- What the application has been given is what has completed, up to some point, and all of it
when nothing is on its way. -/
structure DeliveredInOrder (k : K) (es : List (Event K)) (s : State K) : Prop where
  order : calls k es <+: (chunks k es).map callOf
  drained : Drained s k → calls k es = (chunks k es).map callOf

def noZero (k : K) (s : State K) : Label K → Bool
  | .arrive c chunk => (s.client c).port ≠ some k || !chunk.contains 0
  | _ => true

def passOn (data : Block) : List Byte × Nat := (data.take (strlen data), strlen data)

theorem strlen_append_zero {chunk : List Byte} (h : 0 ∉ chunk) :
    strlen (chunk ++ [0]) = chunk.length := by
  rw [strlen, Terminated.takeWhile_append_of_notMem h]
  simp

theorem passOn_append_zero {chunk : List Byte} (h : 0 ∉ chunk) :
    passOn (chunk ++ [0]) = callOf chunk := by
  rw [passOn, callOf, strlen_append_zero h, List.take_left']
  rfl

def intact (k : K) (s : State K) (l : Label K) : Bool := hasNode k l && noZero k s l

theorem calls_events (s : State K) (l : Label K) (k : K) :
    calls k (events s l) = (delivered k (events s l)).map passOn := by
  cases l with
  | handler j =>
    cases hp : s.handler j with
    | received data =>
      by_cases hj : j = k
      · subst hj
        simp [events, hp, calls, delivered, passOn]
      · simp [events, hp, calls, delivered, hj]
    | _ => simp [events, hp, calls, delivered]
  | main | arrive =>
    simp only [events]
    split <;> first | rfl | (split <;> rfl)
  | _ => rfl

theorem noZero_chunks {s : State K} {l : Label K} {k : K} (h : noZero k s l = true) :
    ∀ chunk ∈ chunks k (events s l), 0 ∉ chunk := by
  cases l with
  | arrive c chunk =>
    intro chunk' hc
    cases hp : (s.client c).port with
    | none => simp [events, hp, chunks] at hc
    | some j =>
      by_cases hj : j = k
      · obtain rfl : chunk' = chunk := by simpa [events, hp, chunks, hj] using hc
        simpa [noZero, hp, hj] using h
      · simp [events, hp, chunks, hj] at hc
  | main | handler =>
    simp only [events]
    split <;> first | (intro _ hc; cases hc) | (split <;> (intro _ hc; cases hc))
  | _ =>
    intro _ hc
    cases hc

theorem chunks_append (k : K) (es fs : List (Event K)) :
    chunks k (es ++ fs) = chunks k es ++ chunks k fs := List.filterMap_append

structure Stream (k : K) (es : List (Event K)) (s : State K) : Prop where
  inStep : Paired s k
  order : ∃ as, Rep (s.queue k) as ∧ Own (s.queue k) as ∧
    arrived k es = delivered k es ++ s.pending k as
  passed : calls k es = (delivered k es).map passOn
  whole : ∀ chunk ∈ chunks k es, 0 ∉ chunk

theorem stream_init (k : K) : Stream k [] (init : State K) where
  inStep := ⟨fun _ _ => nofun, fun _ _ => nofun⟩
  order := ⟨[], rep_createQueue 0, own_createQueue 0, rfl⟩
  passed := rfl
  whole := by simp [chunks]

theorem Stream.deliveredInOrder {k : K} {es : List (Event K)} {s : State K} (h : Stream k es s) :
    DeliveredInOrder k es s := by
  obtain ⟨as, hr, ho, hes⟩ := h.order
  have hcalls : (chunks k es).map callOf = calls k es ++ (s.pending k as).map passOn := by
    rw [h.passed, ← List.map_append, ← hes, arrived, List.map_map]
    exact List.map_congr_left fun chunk hc => (passOn_append_zero (h.whole chunk hc)).symm
  refine ⟨⟨_, hcalls.symm⟩, fun hd => ?_⟩
  rw [hcalls, pending_of_drained hd hr, List.map_nil, List.append_nil]

variable [Fintype K]

theorem Step.inEnqueue_cases {s s' : State K} {l : Label K} (h : Step s l s') (hC : Calls s)
    {j q : K} (hp : (s'.completion j).pc = .inEnqueue q) :
    (s.completion j).pc = .inEnqueue q ∨ ∃ a, l = .enqueue j a ∧ s.gQueue = some q := by
  have hmove {i : K} {th : CompletionThread K}
      (hs : s'.completion = Function.update s.completion i th)
      (hth : ∀ q, th.pc ≠ .inEnqueue q) : (s.completion j).pc = .inEnqueue q := by
    rw [hs] at hp
    by_cases hj : j = i
    · subst hj
      exact absurd (by simpa using hp) (hth q)
    · simpa [hj] using hp
  cases h with
  | createCompletion | getClosed | getFailed | getEmpty | getData | emptyTransfer | lastTransfer
  | closeClient | clearClient | freeClient | copy | exitClose | exitNoClient | exitClear | exitFree
  | exitFreeOverlapped | enqueueNull | recvAgain | recvAgainFail =>
    exact Or.inl (hmove rfl nofun)
  | @enqueue i q' data n newNode x hpc hg =>
    by_cases hj : j = i
    · subst hj
      have hpc' : (if newNode = none then .recv else .inEnqueue q') =
          (.inEnqueue q : CompletionPc K) := by
        simpa [State.setCompletion] using hp
      split_ifs at hpc' with hn
      exact Or.inr ⟨newNode, rfl, hg.trans (congrArg some (CompletionPc.inEnqueue.inj hpc'))⟩
    · exact Or.inl (by simpa [State.setCompletion, State.setQueue, hj] using hp)
  | @queue q' l x hl hx =>
    rcases hC.sync.resume_completion hl hx j with he | ⟨-, he⟩
    · exact Or.inl (he ▸ hp)
    · have hp : ((BlockingQueue.events (s.queue q') l).foldl resumeCompletion s.completion j).pc =
        .inEnqueue q := hp
      rw [he] at hp
      cases hp
  | _ => exact Or.inl hp

theorem Step.keeps_paired {s s' : State K} {l : Label K} {k : K} (h : Step s l s') (hC : Calls s)
    (hok : paired k s l = true) (hP : Paired s k) : Paired s' k := by
  have hown {j q : K} (hg : s.gQueue = some q)
      (hl : l = .dequeue j ∨ ∃ a, l = .enqueue j a) : q = k ↔ j = k := by
    rcases hl with rfl | ⟨a, rfl⟩ <;> simpa [paired, hg] using hok
  refine ⟨fun j q hp => ?_, fun j q hp => ?_⟩
  · rcases h.inEnqueue_cases hC hp with hp | ⟨a, hl, hg⟩
    · exact hP.completion j q hp
    · exact hown hg (Or.inr ⟨a, hl⟩)
  · cases h.handlerMove hC j with
    | same he => exact hP.handler j q (he ▸ hp)
    | created _ _ he => simp [he] at hp
    | moved _ _ _ _ hq =>
      obtain ⟨hl, hg⟩ := hq q hp
      exact hown hg (Or.inl hl)

theorem Stream.step {s s' : State K} {l : Label K} {k : K} {es : List (Event K)}
    (hI : Stream k es s) (h : Step s l s') (hC : Calls s) (hO : Owned s)
    (hok : paired k s l = true) (hi : intact k s l = true) :
    Stream k (es ++ events s l) s' := by
  obtain ⟨hnode, hz⟩ := Bool.and_eq_true_iff.mp hi
  obtain ⟨as, hr, ho, hes⟩ := hI.order
  obtain ⟨bs, hb⟩ := h.advances hC hO hI.inStep hok hnode hr ho
  refine ⟨h.keeps_paired hC hok hI.inStep, ⟨bs, hb.rep, hb.own, ?_⟩, ?_, fun chunk hc => ?_⟩
  · calc arrived k (es ++ events s l)
      _ = arrived k es ++ arrived k (events s l) := by
        rw [arrived, chunks_append, List.map_append, arrived, arrived]
      _ = delivered k es ++ (s.pending k as ++ arrived k (events s l)) := by
        rw [hes, List.append_assoc]
      _ = delivered k es ++ (delivered k (events s l) ++ s'.pending k bs) := by rw [hb.order]
      _ = delivered k (es ++ events s l) ++ s'.pending k bs := by
        rw [delivered, delivered, delivered, List.filterMap_append, List.append_assoc]
  · rw [calls, delivered, List.filterMap_append, List.filterMap_append, List.map_append]
    exact congrArg₂ (· ++ ·) hI.passed (calls_events s l k)
  · rw [chunks_append] at hc
    exact (List.mem_append.mp hc).elim (hI.whole chunk) (noZero_chunks hz chunk)

/-- In every run in which the two threads of run `k` share its queue, every node is allocated
and no chunk has a zero byte, the data reaches the application unchanged. -/
theorem dataReceived_follows_completions {k : K} {tr : List (Label K)} {s : State K}
    (hp : Meets step (fun s l => paired k s l = true) init tr)
    (hi : Meets step (fun s l => intact k s l = true) init tr)
    (h : exec step init tr = some s) :
    DeliveredInOrder k (outputs step events init tr) s := by
  have hI : Calls s ∧ Owned s ∧ Stream k (outputs step events init tr) s := by
    refine exec_history_of_meets events (h := [])
      (I := fun es s => Calls s ∧ Owned s ∧ Stream k es s) ?_
      ⟨calls_init, owned_init, stream_init k⟩ (hp.and hi) h
    intro es s l s' ⟨hC, hO, hS⟩ hok hs
    have hs := step_cases hs
    exact ⟨hs.calls hC, hs.owned hC hO, hS.step hs hC hO hok.1 hok.2⟩
  exact hI.2.2.deliveredInOrder

def passQueue (t : Thread Unit) : List (Label Unit) :=
  [.enter t, .test t, .stopTest t, .body t, .wake t none].map (.queue ())

def deliver (chunk : List Byte) : List (Label Unit) :=
  startRun ++ [.createQueue true, .main] ++ acceptClient 0 ++
    [.arrive 0 chunk, .getStatus (), .completion (), .enqueue () (some 100)] ++
    passQueue (.completion ()) ++ [.recvAgain () true, .dequeue ()] ++
    passQueue (.handler ()) ++ [.queue () (.release (.handler ())), .handler ()]

theorem dataReceived_follows_completions_hi :
    ∃ s, exec step init (deliver [72, 105]) = some s ∧
      DeliveredInOrder () (outputs step events init (deliver [72, 105])) s ∧
      calls () (outputs step events init (deliver [72, 105])) = [([72, 105], 2)] := by
  obtain ⟨s, hs, -⟩ := exec_exists step init (deliver [72, 105]) (fun _ => true) (by decide)
  exact ⟨s, hs, dataReceived_follows_completions (by decide) (by decide) hs, by decide⟩

/-- A zero byte ends the data: the application is told of one byte where three came. -/
theorem dataReceived_stops_at_zero : ¬ ∀ (tr : List (Label Unit)) (s : State Unit),
    Meets step (fun s l => paired () s l = true) init tr → exec step init tr = some s →
      DeliveredInOrder () (outputs step events init tr) s := by
  intro h
  obtain ⟨s, hs, -⟩ := exec_exists step init (deliver [72, 0, 105]) (fun _ => true) (by decide)
  have hd := (h _ s (by decide) hs).order
  exact absurd hd (by decide)

end Cexp.IocpServer
