import Cexp.DecimalText
import Cexp.QueueContents

/-! The program `queue_test.c`: a producer hands numbered texts to two consumers through one
queue, each in a block of twelve bytes that the consumer frees. Its `main` waits for threads that
never end. -/

namespace Cexp.QueueTest

open BlockingQueue Transition

inductive Thread where
  | producer
  | consumer (i : Fin 2)
  deriving DecidableEq, Fintype

/-- Where a block of `calloc` is. -/
abbrev Block := Nat

/-- Where `tProducer` is, with `cc`; `none` is NULL. -/
inductive ProducerPc where
  | calloc
  | count (cc : Option Block)
  | val (cc : Option Block)
  | print (cc : Option Block)
  | enqueue (cc : Block)
  | inside
  deriving DecidableEq

/-- Where `tConsumer` is, with `cs`. -/
inductive ConsumerPc where
  | sleep
  | dequeue
  | inside
  | count (cs : Option Block)
  | free (cs : Option Block)
  deriving DecidableEq

structure Test where
  q : State Thread Block
  blocks : Block → Option (List Char)
  producerCount : BitVec 32
  consumerCount : BitVec 32
  producerVal : BitVec 32
  producer : ProducerPc
  consumer : Fin 2 → ConsumerPc

/-- `producer` and `consumer` are the steps of the loops outside the calls. -/
inductive Label where
  | calloc (cc : Option Block)
  | producer
  | enqueue (newNode : Option Addr)
  | consumer (i : Fin 2)
  | dequeue (i : Fin 2)
  | queue (l : BlockingQueue.Label Thread Block)

/-- `tids[0]`. -/
def tid : Int := 1

/-- What `sprintf` writes, without the terminator. -/
def text (id val : Int) : List Char :=
  ['p', 'r', 'o', 'd', 'u', 'c', 'e', 'r'] ++ DecimalText.ofInt id ++ '-' ::
    DecimalText.ofInt val

def Test.setConsumer (s : Test) (i : Fin 2) (p : ConsumerPc) : Test :=
  { s with consumer := Function.update s.consumer i p }

/-- A call returns to its caller. -/
def Test.ret (s : Test) : Event Thread Block → Test
  | .ret .producer _ => { s with producer := .calloc }
  | .ret (.consumer i) (.data d) => s.setConsumer i (.count (some d))
  | .ret (.consumer i) _ => s.setConsumer i (.count none)
  | _ => s

def start : Test where
  q := createQueue 2
  blocks := fun _ => none
  producerCount := 0
  consumerCount := 0
  producerVal := 0
  producer := .calloc
  consumer := fun _ => .sleep

/-- `none` also where `sprintf` writes through NULL or behind the block, and where what is written
or freed is not allocated. -/
def step (s : Test) : Label → Option Test
  | .calloc cc =>
    match s.producer, cc with
    | .calloc, none => some { s with producer := .count none }
    | .calloc, some b =>
      if (s.blocks b).isNone then
        some { s with blocks := Function.update s.blocks b (some []), producer := .count (some b) }
      else none
    | _, _ => none
  | .producer =>
    match s.producer with
    | .count cc => some { s with producerCount := s.producerCount + 1, producer := .val cc }
    | .val cc => some { s with producerVal := s.producerVal + 1, producer := .print cc }
    | .print (some b) =>
      let t := text tid s.producerVal.toInt
      if (s.blocks b).isSome ∧ t.length + 1 ≤ 12 then
        some { s with blocks := Function.update s.blocks b (some t), producer := .enqueue b }
      else none
    | _ => none
  | .enqueue newNode =>
    match s.producer with
    | .enqueue b => (BlockingQueue.step s.q (.enqueue .producer b 0 newNode)).map fun q =>
        { s with q := q, producer := if newNode.isSome then .inside else .calloc }
    | _ => none
  | .consumer i =>
    match s.consumer i with
    | .sleep => some (s.setConsumer i .dequeue)
    | .count cs => some { s.setConsumer i (.free cs) with consumerCount := s.consumerCount + 1 }
    | .free none => some (s.setConsumer i .sleep)
    | .free (some b) =>
      if (s.blocks b).isSome then
        some { s.setConsumer i .sleep with blocks := Function.update s.blocks b none }
      else none
    | _ => none
  | .dequeue i =>
    match s.consumer i with
    | .dequeue => (BlockingQueue.step s.q (.dequeue (.consumer i))).map fun q =>
        { s.setConsumer i .inside with q := q }
    | _ => none
  | .queue l =>
    if l.insideCall then
      (BlockingQueue.step s.q l).map fun q =>
        (BlockingQueue.events s.q l).foldl Test.ret { s with q := q }
    else none

def ProducerPc.hand : ProducerPc → List Block
  | .count cc | .val cc | .print cc => cc.toList
  | .enqueue cc => [cc]
  | _ => []

def ConsumerPc.hand : ConsumerPc → List Block
  | .count cs | .free cs => cs.toList
  | _ => []

def ProducerPc.printing : ProducerPc → Bool
  | .print _ => true
  | _ => false

/-- The block with a finished text. -/
def ProducerPc.printed : ProducerPc → List Block
  | .enqueue cc => [cc]
  | _ => []

def calloced : Label → List Block
  | .calloc cc => cc.toList
  | _ => []

def printed (s : Test) : Label → List Block
  | .producer =>
    match s.producer with
    | .print cc => cc.toList
    | _ => []
  | _ => []

/-- The block that a call of `enqueue` without memory for its node loses. -/
def lost (s : Test) : Label → List Block
  | .enqueue none => s.producer.hand
  | _ => []

/-- What a critical section takes off the queue. -/
def taken (s : Test) : Label → List Block
  | .queue l => AtomicFifo.pops (queueOps (BlockingQueue.events s.q l))
  | _ => []

def takenText (s : Test) (l : Label) : List (Option (List Char)) := (taken s l).map s.blocks

def freed (s : Test) : Label → List Block
  | .consumer i =>
    match s.consumer i with
    | .free cs => cs.toList
    | _ => []
  | _ => []

/-- The blocks on their way to a consumer, the first to be taken first. -/
def sent (s : Test) (as : List Addr) : List Block :=
  items s.q as ++ (s.q.pc .producer).given s.q.mem ++ s.producer.printed

/-- The blocks with everyone who has one: the producer, the queue, and the consumers. -/
def owned (s : Test) (as : List Addr) : Multiset Block :=
  (s.producer.hand : Multiset Block) + inQueue s.q as +
    ∑ i, ((s.consumer i).hand : Multiset Block)

/-- Which calls the threads are in: no call is ever stopped, and the producer is in `enqueue` and
the consumers are in `dequeue` when they are inside the queue. -/
structure Calls (s : Test) : Prop where
  unstopped : Unstopped s.q
  destroyer : s.q.destroyer = .notCalled
  producer : s.q.pc .producer = .outside ↔ s.producer ≠ .inside
  enqueues : s.producer = .inside → (s.q.pc .producer).enqueues = true
  consumer : ∀ i, s.q.pc (.consumer i) = .outside ↔ s.consumer i ≠ .inside
  dequeues : ∀ i, (s.q.pc (.consumer i)).enqueues = false

theorem Calls.entered {s : Test} (h : Calls s) : entered s.q = false := by
  simp [BlockingQueue.entered, h.destroyer]

/-- What one step can do. In a call the threads stay where they are, or it returns: to the
producer, or with a block to a consumer. -/
inductive Step (s : Test) : Label → Test → Prop where
  | noBlock (hp : s.producer = .calloc) : Step s (.calloc none) { s with producer := .count none }
  | calloc {b : Block} (hp : s.producer = .calloc) (hb : s.blocks b = none) :
    Step s (.calloc (some b))
      { s with blocks := Function.update s.blocks b (some []), producer := .count (some b) }
  | count {cc : Option Block} (hp : s.producer = .count cc) :
    Step s .producer { s with producerCount := s.producerCount + 1, producer := .val cc }
  | val {cc : Option Block} (hp : s.producer = .val cc) :
    Step s .producer { s with producerVal := s.producerVal + 1, producer := .print cc }
  | print {b : Block} (hp : s.producer = .print (some b)) (hb : (s.blocks b).isSome = true)
    (hl : (text tid s.producerVal.toInt).length + 1 ≤ 12) :
    Step s .producer { s with
      blocks := Function.update s.blocks b (some (text tid s.producerVal.toInt))
      producer := .enqueue b }
  | noMemory {b : Block} (hp : s.producer = .enqueue b) :
    Step s (.enqueue none) { s with producer := .calloc }
  | enqueue {b : Block} {a : Addr} {q : State Thread Block} (hp : s.producer = .enqueue b)
    (hq : BlockingQueue.Step s.q (.enqueue .producer b 0 (some a)) q) :
    Step s (.enqueue (some a)) { s with q := q, producer := .inside }
  | awake {i : Fin 2} (hi : s.consumer i = .sleep) :
    Step s (.consumer i) (s.setConsumer i .dequeue)
  | took {i : Fin 2} {cs : Option Block} (hi : s.consumer i = .count cs) :
    Step s (.consumer i)
      { s.setConsumer i (.free cs) with consumerCount := s.consumerCount + 1 }
  | freeNull {i : Fin 2} (hi : s.consumer i = .free none) :
    Step s (.consumer i) (s.setConsumer i .sleep)
  | free {i : Fin 2} {b : Block} (hi : s.consumer i = .free (some b))
    (hb : (s.blocks b).isSome = true) :
    Step s (.consumer i)
      { s.setConsumer i .sleep with blocks := Function.update s.blocks b none }
  | dequeue {i : Fin 2} {q : State Thread Block} (hi : s.consumer i = .dequeue)
    (hq : BlockingQueue.Step s.q (.dequeue (.consumer i)) q) :
    Step s (.dequeue i) { s.setConsumer i .inside with q := q }
  | enqueued {l : BlockingQueue.Label Thread Block} {q : State Thread Block}
    (hq : BlockingQueue.Step s.q l q) (hl : l.insideCall = true)
    (he : BlockingQueue.events s.q l = [.ret .producer .enqueued])
    (hr : Returns s.q q .producer .enqueued) :
    Step s (.queue l) { s with q := q, producer := .calloc }
  | dequeued {l : BlockingQueue.Label Thread Block} {q : State Thread Block} {i : Fin 2} {d : Block}
    (hq : BlockingQueue.Step s.q l q) (hl : l.insideCall = true)
    (he : BlockingQueue.events s.q l = [.ret (.consumer i) (.data d)])
    (hr : Returns s.q q (.consumer i) (.data d)) :
    Step s (.queue l) { s.setConsumer i (.count (some d)) with q := q }
  | inside {l : BlockingQueue.Label Thread Block} {q : State Thread Block}
    (hq : BlockingQueue.Step s.q l q) (hl : l.insideCall = true)
    (he : ∀ t r, Event.ret t r ∉ BlockingQueue.events s.q l)
    (hs : ∀ u, SameCall (s.q.pc u) (q.pc u)) : Step s (.queue l) { s with q := q }

theorem foldl_ret_of_forall {es : List (Event Thread Block)} (h : ∀ t r, Event.ret t r ∉ es)
    (s : Test) : es.foldl Test.ret s = s := by
  induction es with
  | nil => rfl
  | cons e es ih =>
    have hrest := ih fun t r hr => h t r (List.mem_cons_of_mem _ hr)
    cases e with
    | ret t r => exact absurd List.mem_cons_self (h t r)
    | _ => exact hrest

theorem step_queue_cases {s t : Test} {l : BlockingQueue.Label Thread Block} (hc : Calls s)
    (ht : step s (.queue l) = some t) : Step s (.queue l) t := by
  simp only [step, Option.ite_none_right_eq_some, Option.map_eq_some_iff] at ht
  obtain ⟨hl, q, hq, rfl⟩ := ht
  have hstep := BlockingQueue.step_cases hq
  rcases hstep.inside_cases hl hc.unstopped with ⟨t, r, he, hr⟩ | ⟨hno, hsame⟩
  · rw [he]
    cases t with
    | producer =>
      rcases hr.result with ⟨rfl, -⟩ | ⟨a, d, rfl, hp⟩
      · exact .enqueued hstep hl he hr
      · have hin : s.producer = .inside := by
          by_contra hout
          exact hr.was (hc.producer.mpr hout)
        have henq := hc.enqueues hin
        rw [hp] at henq
        cases henq
    | consumer i =>
      rcases hr.result with ⟨rfl, hp⟩ | ⟨a, d, rfl, hp⟩
      · have hdeq := hc.dequeues i
        rw [hp] at hdeq
        cases hdeq
      · exact .dequeued hstep hl he hr
  · rw [foldl_ret_of_forall hno]
    exact .inside hstep hl hno hsame

theorem step_cases {s t : Test} {l : Label} (hc : Calls s) (h : step s l = some t) :
    Step s l t := by
  cases l with
  | calloc cc =>
    simp only [step] at h
    split at h
    case h_1 hp =>
      cases h
      exact .noBlock hp
    case h_2 b hp =>
      obtain ⟨hb, h⟩ := Option.ite_none_right_eq_some.mp h
      cases h
      exact .calloc hp (Option.isNone_iff_eq_none.mp hb)
    case h_3 => cases h
  | producer =>
    simp only [step] at h
    split at h
    case h_1 cc hp =>
      cases h
      exact .count hp
    case h_2 cc hp =>
      cases h
      exact .val hp
    case h_3 b hp =>
      obtain ⟨⟨hb, hl⟩, h⟩ := Option.ite_none_right_eq_some.mp h
      cases h
      exact .print hp hb hl
    case h_4 => cases h
  | enqueue newNode =>
    simp only [step] at h
    split at h
    case h_1 b hp =>
      obtain ⟨q, hq, rfl⟩ := Option.map_eq_some_iff.mp h
      have hstep := BlockingQueue.step_cases hq
      cases newNode with
      | none =>
        cases hstep
        exact .noMemory hp
      | some a => exact .enqueue hp hstep
    case h_2 => cases h
  | consumer i =>
    simp only [step] at h
    split at h
    case h_1 hi =>
      cases h
      exact .awake hi
    case h_2 cs hi =>
      cases h
      exact .took hi
    case h_3 hi =>
      cases h
      exact .freeNull hi
    case h_4 b hi =>
      obtain ⟨hb, h⟩ := Option.ite_none_right_eq_some.mp h
      cases h
      exact .free hi hb
    case h_5 => cases h
  | dequeue i =>
    simp only [step] at h
    split at h
    case h_1 hi =>
      obtain ⟨q, hq, rfl⟩ := Option.map_eq_some_iff.mp h
      exact .dequeue hi (BlockingQueue.step_cases hq)
    case h_2 => cases h
  | queue l => exact step_queue_cases hc h

theorem Calls.of_outside {s t : Test} (hc : Calls s) (hq : t.q = s.q)
    (hp : t.producer = .inside ↔ s.producer = .inside)
    (hi : ∀ i, t.consumer i = .inside ↔ s.consumer i = .inside) : Calls t where
  unstopped := hq ▸ hc.unstopped
  destroyer := hq ▸ hc.destroyer
  producer := by
    rw [hq, hc.producer]
    exact (not_congr hp).symm
  enqueues h := by
    rw [hq]
    exact hc.enqueues (hp.mp h)
  consumer i := by
    rw [hq, hc.consumer i]
    exact (not_congr (hi i)).symm
  dequeues i := by
    rw [hq]
    exact hc.dequeues i

theorem Calls.setConsumer {s t : Test} {i : Fin 2} {p : ConsumerPc} (hc : Calls s)
    (hq : t.q = s.q) (hp : t.producer = s.producer)
    (ht : t.consumer = Function.update s.consumer i p) (hi : s.consumer i ≠ .inside)
    (hn : p ≠ .inside) : Calls t := by
  apply hc.of_outside hq (by rw [hp])
  intro j
  by_cases hj : j = i
  · subst hj
    simp [ht, hi, hn]
  · simp [ht, hj]

theorem Calls.step {s t : Test} {l : Label} (hc : Calls s) (h : Step s l t) : Calls t := by
  have hmoved {l : BlockingQueue.Label Thread Block} {q : State Thread Block}
      (hq : BlockingQueue.Step s.q l q) (hm : l.mover.isSome = true) :
      Unstopped q ∧ q.destroyer = .notCalled :=
    ⟨hq.unstopped hm hc.unstopped, (hq.destroyer_eq hm).trans hc.destroyer⟩
  cases h with
  | noBlock hp | calloc hp | count hp | val hp | print hp | noMemory hp =>
    exact hc.of_outside rfl (by simp [hp]) fun _ => Iff.rfl
  | awake hi | took hi | freeNull hi | free hi =>
    exact hc.setConsumer rfl rfl rfl (by simp [hi]) (by simp)
  | enqueue hp hq =>
    obtain ⟨hu, hd⟩ := hmoved hq rfl
    cases hq
    refine ⟨hu, hd, ?_, fun _ => ?_, fun i => ?_, fun i => ?_⟩
    · simp [State.move]
    · simp [State.move, Pc.enqueues, Pc.newNode]
    · simpa [State.move] using hc.consumer i
    · simpa [State.move] using hc.dequeues i
  | @dequeue i q hi hq =>
    obtain ⟨hu, hd⟩ := hmoved hq rfl
    cases hq
    refine ⟨hu, hd, ?_, fun hp => ?_, fun j => ?_, fun j => ?_⟩
    · simpa [State.move, Test.setConsumer] using hc.producer
    · simpa [State.move] using hc.enqueues hp
    · by_cases hj : j = i
      · subst hj
        simp [State.move, Test.setConsumer]
      · simpa [State.move, Test.setConsumer, hj] using hc.consumer j
    · by_cases hj : j = i
      · subst hj
        simp [State.move, Pc.enqueues, Pc.newNode]
      · simpa [State.move, hj] using hc.dequeues j
  | enqueued hq hl he hr =>
    obtain ⟨hu, hd⟩ := hmoved hq (Label.mover_of_insideCall hl)
    have hcons (i : Fin 2) := hr.other (.consumer i) (by simp)
    exact ⟨hu, hd, by simp [hr.now], by simp, fun i => (hcons i).1.trans (hc.consumer i),
      fun i => (hcons i).2.trans (hc.dequeues i)⟩
  | @dequeued l q i d hq hl he hr =>
    obtain ⟨hu, hd⟩ := hmoved hq (Label.mover_of_insideCall hl)
    have hprod := hr.other .producer (by simp)
    refine ⟨hu, hd, hprod.1.trans hc.producer, fun hp => hprod.2.trans (hc.enqueues hp),
      fun j => ?_, fun j => ?_⟩
    · by_cases hj : j = i
      · subst hj
        simp [Test.setConsumer, hr.now]
      · have hother := (hr.other (.consumer j) (by simpa using hj)).1.trans (hc.consumer j)
        simpa [Test.setConsumer, hj] using hother
    · by_cases hj : j = i
      · subst hj
        simp [hr.now, Pc.enqueues, Pc.newNode]
      · exact (hr.other (.consumer j) (by simpa using hj)).2.trans (hc.dequeues j)
  | inside hq hl he hs =>
    obtain ⟨hu, hd⟩ := hmoved hq (Label.mover_of_insideCall hl)
    exact ⟨hu, hd, (hs _).1.trans hc.producer, fun hp => (hs _).2.trans (hc.enqueues hp),
      fun i => (hs _).1.trans (hc.consumer i), fun i => (hs _).2.trans (hc.dequeues i)⟩

theorem calls_start : Calls start := by
  refine ⟨⟨rfl, fun t c => nofun⟩, rfl, ?_, nofun, fun i => ?_, fun i => rfl⟩
  · exact iff_of_true rfl nofun
  · exact iff_of_true rfl nofun

end Cexp.QueueTest
