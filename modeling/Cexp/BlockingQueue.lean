import Cexp.Transition
import Cexp.LinkedChain
import Cexp.AtomicFifo
import Cexp.ThreadCount

/-! The blocking queue of `blocking_queue.c` as a transition system: any number of
threads inside `enqueue` and `dequeue` on one queue, and one `destroyQueue` call.
Calls are split at every lock operation and at every read of `stop`. -/

namespace Cexp.BlockingQueue

abbrev Addr := Nat

structure QueueNode (D : Type) where
  data : D
  len : Int
  next : Option Addr

inductive Cond where
  | notEmpty
  | notFull
  deriving DecidableEq, Repr

/-- A call in progress, with the locals it holds up to its critical section. -/
inductive Call where
  | enqueue (newNode : Addr)
  | dequeue
  deriving DecidableEq, Repr

def Call.sleepsOn : Call → Cond
  | .enqueue _ => .notFull
  | .dequeue => .notEmpty

/-- Where a thread is. The flag `woken` says that the thread entered the lock by
waking up inside `SleepConditionVariableCS` and not by `EnterCriticalSection`. -/
inductive Pc (D : Type) where
  | outside
  | enter (c : Call)
  | test (c : Call) (woken : Bool)
  | sleep (c : Call)
  | asleep (c : Call)
  | reenter (c : Call)
  | stopTest (c : Call) (woken : Bool)
  | stopped (c : Call)
  | body (c : Call) (woken : Bool)
  | linked
  | unlinked (temp : Addr) (data : D)
  | release (temp : Addr) (data : D)
  deriving DecidableEq

inductive DestroyPc where
  | notCalled
  | enter
  | wakeNotEmpty
  | wakeNotFull
  | freeNodes
  | freeQueue
  | leave
  | delete
  | returned
  deriving DecidableEq, Repr

inductive Owner (T : Type) where
  | thread (t : T)
  | destroyer
  deriving DecidableEq

/-- The globals of the file, the queue object, the live nodes and the threads. -/
structure State (T D : Type) where
  glimitSize : Int
  stop : Bool
  front : Option Addr
  rear : Option Addr
  size : Int
  lock : Option (Owner T)
  mem : Addr → Option (QueueNode D)
  pc : T → Pc D
  destroyer : DestroyPc

def INT_MAX : Int := 2147483647

def limitOf (size : Int32) : Int :=
  if size ≤ 0 then INT_MAX else size.toInt

variable {T D : Type}

def createQueue (size : Int32) : State T D where
  glimitSize := limitOf size
  stop := false
  front := none
  rear := none
  size := 0
  lock := none
  mem := fun _ => none
  pc := fun _ => .outside
  destroyer := .notCalled

/-- The loop test of a call, without its `!stop` part. -/
def mustWait (s : State T D) : Call → Bool
  | .enqueue _ => decide (s.glimitSize ≤ s.size)
  | .dequeue => decide (s.size = 0)

def Pc.asleepOn (c : Cond) : Pc D → Bool
  | .asleep k => k.sleepsOn == c
  | _ => false

/-- The condition variable a thread that has left the lock still has to wake. -/
def Pc.owes : Pc D → Option Cond
  | .linked => some .notEmpty
  | .unlinked _ _ => some .notFull
  | _ => none

def Pc.afterWake : Pc D → Pc D
  | .unlinked temp data => .release temp data
  | _ => .outside

/-- The critical section of `enqueue`. Writing through a dead `rear` and
overflowing `size` are undefined: there is no next state. -/
def linkNode (s : State T D) (newNode : Addr) : Option (State T D) :=
  if s.size < INT_MAX then
    match s.rear with
    | none => some { s with front := some newNode, rear := some newNode, size := s.size + 1 }
    | some r => do
      let n ← s.mem r
      some { s with
        mem := Function.update s.mem r (some { n with next := some newNode })
        rear := some newNode
        size := s.size + 1 }
  else none

/-- The critical section of `dequeue`, undefined when `front` is NULL. -/
def unlinkFront (s : State T D) : Option (State T D × Addr × D) := do
  let temp ← s.front
  let n ← s.mem temp
  some ({ s with
    front := n.next
    rear := if n.next = none then none else s.rear
    size := s.size - 1 }, temp, n.data)

theorem linkNode_cases {s s' : State T D} {a : Addr} (h : linkNode s a = some s') :
    s.size < INT_MAX ∧
      ((s.rear = none ∧ s' = { s with front := some a, rear := some a, size := s.size + 1 }) ∨
      ∃ r n, s.rear = some r ∧ s.mem r = some n ∧ s' = { s with
        mem := Function.update s.mem r (some { n with next := some a })
        rear := some a, size := s.size + 1 }) := by
  unfold linkNode at h
  split at h
  case isFalse => cases h
  case isTrue hm =>
    refine ⟨hm, ?_⟩
    cases hr : s.rear with
    | none => exact Or.inl ⟨rfl, by simpa [hr] using h.symm⟩
    | some r =>
      simp only [hr, Option.bind_eq_bind, Option.bind_eq_some_iff] at h
      obtain ⟨n, hn, he⟩ := h
      exact Or.inr ⟨r, n, rfl, hn, (Option.some.inj he).symm⟩

theorem unlinkFront_cases {s s' : State T D} {a : Addr} {d : D}
    (h : unlinkFront s = some (s', a, d)) :
    ∃ n, s.front = some a ∧ s.mem a = some n ∧ d = n.data ∧ s' = { s with
      front := n.next, rear := if n.next = none then none else s.rear, size := s.size - 1 } := by
  simp only [unlinkFront, Option.bind_eq_bind, Option.bind_eq_some_iff, Option.some.injEq,
    Prod.mk.injEq] at h
  obtain ⟨b, hb, n, hn, rfl, rfl, rfl⟩ := h
  exact ⟨n, hb, hn, rfl, rfl⟩

def freeNode (mem : Addr → Option (QueueNode D)) : Option Addr → Addr → Option (QueueNode D)
  | none => mem
  | some a => Function.update mem a none

def wakeAll (c : Cond) : Pc D → Pc D
  | .asleep k => if k.sleepsOn = c then .reenter k else .asleep k
  | p => p

/-- One operation of `destroyQueue`. `junk` is what a read of the `next` field of a
node that is no longer live gives. -/
def destroyStep [DecidableEq T] (s : State T D) (junk : Option Addr) : Option (State T D) :=
  match s.destroyer with
  | .notCalled => some { s with stop := true, destroyer := .enter }
  | .enter =>
    if s.lock = none then some { s with lock := some .destroyer, destroyer := .wakeNotEmpty }
    else none
  | .wakeNotEmpty =>
    some { s with pc := fun t => wakeAll .notEmpty (s.pc t), destroyer := .wakeNotFull }
  | .wakeNotFull =>
    some { s with pc := fun t => wakeAll .notFull (s.pc t), destroyer := .freeNodes }
  | .freeNodes =>
    match s.front with
    | none => some { s with destroyer := .freeQueue }
    | some a =>
      let next := match s.mem a with
        | none => junk
        | some n => n.next
      some { s with front := next, mem := freeNode s.mem next }
  | .freeQueue => some { s with destroyer := .leave }
  | .leave => some { s with lock := none, destroyer := .delete }
  | .delete => some { s with destroyer := .returned }
  | .returned => none

/-- One step: a thread calls `enqueue` (with the result of its `malloc`) or `dequeue`,
goes on by one operation, or wakes up by itself; `destroyQueue` goes on; or
another queue's `createQueue` or `destroyQueue` writes one of the two globals. -/
inductive Label (T D : Type) where
  | enqueue (t : T) (data : D) (len : Int) (newNode : Option Addr)
  | dequeue (t : T)
  | enter (t : T)
  | test (t : T)
  | sleep (t : T)
  | spurious (t : T)
  | stopTest (t : T)
  | leaveStopped (t : T)
  | body (t : T)
  | wake (t : T) (woken : Option T)
  | release (t : T)
  | destroy (junk : Option Addr)
  | otherStop (stop : Bool)
  | otherLimit (size : Int32)

def Label.ownQueue : Label T D → Bool
  | .otherStop _ | .otherLimit _ => false
  | _ => true

def Label.insideCall : Label T D → Bool
  | .enter _ | .test _ | .sleep _ | .spurious _ | .stopTest _ | .leaveStopped _ | .body _
  | .wake _ _ | .release _ => true
  | _ => false

variable [DecidableEq T]

def State.move (s : State T D) (t : T) (p : Pc D) : State T D :=
  { s with pc := Function.update s.pc t p }

def step [Fintype T] (s : State T D) : Label T D → Option (State T D)
  | .enqueue t data len newNode =>
    match s.pc t, newNode with
    | .outside, none => some s
    | .outside, some a =>
      if (s.mem a).isNone then
        some { s.move t (.enter (.enqueue a)) with
          mem := Function.update s.mem a (some ⟨data, len, none⟩) }
      else none
    | _, _ => none
  | .dequeue t =>
    match s.pc t with
    | .outside => some (s.move t (.enter .dequeue))
    | _ => none
  | .enter t =>
    if s.lock = none then
      match s.pc t with
      | .enter c => some { s.move t (.test c false) with lock := some (.thread t) }
      | .reenter c => some { s.move t (.test c true) with lock := some (.thread t) }
      | _ => none
    else none
  | .test t =>
    match s.pc t with
    | .test c w => some (s.move t (if mustWait s c && !s.stop then .sleep c else .stopTest c w))
    | _ => none
  | .sleep t =>
    match s.pc t with
    | .sleep c => some { s.move t (.asleep c) with lock := none }
    | _ => none
  | .spurious t =>
    match s.pc t with
    | .asleep c => some (s.move t (.reenter c))
    | _ => none
  | .stopTest t =>
    match s.pc t with
    | .stopTest c w => some (s.move t (if s.stop then .stopped c else .body c w))
    | _ => none
  | .leaveStopped t =>
    match s.pc t with
    | .stopped (.enqueue a) =>
      some { s.move t .outside with mem := freeNode s.mem (some a), lock := none }
    | .stopped .dequeue => some { s.move t .outside with lock := none }
    | _ => none
  | .body t =>
    match s.pc t with
    | .body (.enqueue a) _ => (linkNode s a).map fun s' => { s'.move t .linked with lock := none }
    | .body .dequeue _ =>
      (unlinkFront s).map fun (s', temp, data) =>
        { s'.move t (.unlinked temp data) with lock := none }
    | _ => none
  | .wake t woken =>
    match (s.pc t).owes, woken with
    | some c, some u =>
      match s.pc u with
      | .asleep k =>
        if k.sleepsOn = c then some ((s.move u (.reenter k)).move t (s.pc t).afterWake) else none
      | _ => none
    | some c, none =>
      if ∀ u, (s.pc u).asleepOn c = false then some (s.move t (s.pc t).afterWake) else none
    | none, _ => none
  | .release t =>
    match s.pc t with
    | .release temp _ => some { s.move t .outside with mem := freeNode s.mem (some temp) }
    | _ => none
  | .destroy junk => destroyStep s junk
  | .otherStop b => some { s with stop := b }
  | .otherLimit size => some { s with glimitSize := limitOf size }

inductive Result (D : Type) where
  | enqueued
  | noMemory
  | stopped
  | data (d : D)

inductive Event (T D : Type) where
  | enqueue (t : T) (d : D)
  | dequeue (t : T)
  | link (t : T) (d : D)
  | unlink (t : T) (d : D)
  | ret (t : T) (r : Result D)

def Event.thread : Event T D → T
  | .enqueue t _ | .dequeue t | .link t _ | .unlink t _ | .ret t _ => t

/-- What a step shows to the outside: calls, critical sections that change the
chain, and returns. -/
def events (s : State T D) : Label T D → List (Event T D)
  | .enqueue t data _ none => [.enqueue t data, .ret t .noMemory]
  | .enqueue t data _ (some _) => [.enqueue t data]
  | .dequeue t => [.dequeue t]
  | .leaveStopped t => [.ret t .stopped]
  | .body t =>
    match s.pc t with
    | .body (.enqueue a) _ => (s.mem a).toList.map fun n => .link t n.data
    | .body .dequeue _ => (unlinkFront s).toList.map fun (_, _, d) => .unlink t d
    | _ => []
  | .wake t _ =>
    match s.pc t with
    | .linked => [.ret t .enqueued]
    | _ => []
  | .release t =>
    match s.pc t with
    | .release _ d => [.ret t (.data d)]
    | _ => []
  | _ => []

end Cexp.BlockingQueue
