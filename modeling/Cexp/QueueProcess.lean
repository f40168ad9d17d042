import Cexp.QueueCapacity

/-! Several queues of one process. Each queue has its own object, nodes and callers; `stop` and
`glimitSize` are globals of `blocking_queue.c`, which every `createQueue` and `destroyQueue`
writes and every call reads. -/

namespace Cexp.BlockingQueue

open Transition

variable {T D Q : Type}

/-- A queue object with its nodes and the calls on it, without the globals of the file. -/
structure Queue (T D : Type) where
  front : Option Addr
  rear : Option Addr
  size : Int
  lock : Option (Owner T)
  mem : Addr → Option (QueueNode D)
  pc : T → Pc D
  destroyer : DestroyPc

def Queue.state (q : Queue T D) (glimitSize : Int) (stop : Bool) : State T D :=
  ⟨glimitSize, stop, q.front, q.rear, q.size, q.lock, q.mem, q.pc, q.destroyer⟩

def State.queue (s : State T D) : Queue T D :=
  ⟨s.front, s.rear, s.size, s.lock, s.mem, s.pc, s.destroyer⟩

/-- How far `createQueue` has come: it clears `stop` and then writes `glimitSize`. -/
inductive Creation where
  | absent
  | clearStop (size : Int32)
  | setLimit (size : Int32)
  | created (size : Int32)
  deriving DecidableEq

def Creation.size : Creation → Int32
  | .absent => 0
  | .clearStop size | .setLimit size | .created size => size

structure Process (Q T D : Type) where
  glimitSize : Int
  stop : Bool
  creation : Q → Creation
  queue : Q → Queue T D

def start : Process Q T D where
  glimitSize := 0
  stop := false
  creation := fun _ => .absent
  queue := fun _ => (createQueue 0).queue

inductive ProcessLabel (Q T D : Type) where
  | malloc (q : Q) (size : Int32)
  | create (q : Q)
  | queue (q : Q) (l : Label T D)

/-- The state of queue `q` as its calls see it. -/
def Process.view (p : Process Q T D) (q : Q) : State T D :=
  (p.queue q).state p.glimitSize p.stop

/-- The same queue with the limit of its own `createQueue` and with `stop` set by its own
`destroyQueue`. -/
def Queue.own (q : Queue T D) (size : Int32) : State T D :=
  q.state (limitOf size) (decide (q.destroyer ≠ .notCalled))

variable [DecidableEq Q]

def Process.write (p : Process Q T D) (q : Q) (s : State T D) : Process Q T D :=
  { p with
    glimitSize := s.glimitSize
    stop := s.stop
    queue := Function.update p.queue q s.queue }

variable [DecidableEq T] [Fintype T]

def processStep (p : Process Q T D) : ProcessLabel Q T D → Option (Process Q T D)
  | .malloc q size =>
    match p.creation q with
    | .absent => some { p with
        creation := Function.update p.creation q (.clearStop size)
        queue := Function.update p.queue q (createQueue size).queue }
    | _ => none
  | .create q =>
    match p.creation q with
    | .clearStop size => some { p with
        stop := false
        creation := Function.update p.creation q (.setLimit size) }
    | .setLimit size => some { p with
        glimitSize := limitOf size
        creation := Function.update p.creation q (.created size) }
    | _ => none
  | .queue q l =>
    match p.creation q with
    | .created _ => if l.ownQueue then (step (p.view q) l).map (p.write q) else none
    | _ => none

omit [DecidableEq T] [Fintype T] in
/-- The tests of the globals in this step come out as they would with the queue's own. -/
def testsOwn (s w : State T D) : Label T D → Bool
  | .test t =>
    match s.pc t with
    | .test c _ => (mustWait s c && !s.stop) == (mustWait w c && !w.stop)
    | _ => true
  | .stopTest t =>
    match s.pc t with
    | .stopTest _ _ => s.stop == w.stop
    | _ => true
  | _ => true

omit [Fintype T] in
theorem destroyStep_own (q : Queue T D) (g : Int) (b : Bool) (size : Int32)
    (junk : Option Addr) : destroyStep (q.own size) junk =
      (destroyStep (q.state g b) junk).map fun s => s.queue.own size := by
  unfold destroyStep
  cases hd : q.destroyer <;> simp only [Queue.own, Queue.state, hd]
  case enter => by_cases hl : q.lock = none <;> simp [hl, State.queue]
  case freeNodes => cases q.front <;> simp [State.queue]
  all_goals simp [State.queue]

/-- A step of a queue whose globals answer as its own would is a step of the queue alone. -/
theorem step_own (q : Queue T D) (g : Int) (b : Bool) (size : Int32) (l : Label T D)
    (hl : l.ownQueue = true) (ht : testsOwn (q.state g b) (q.own size) l = true) :
    step (q.own size) l = (step (q.state g b) l).map fun s => s.queue.own size := by
  cases l with
  | destroy junk => exact destroyStep_own q g b size junk
  | otherStop | otherLimit => cases hl
  | enqueue t data len newNode =>
    simp only [step, Queue.own, Queue.state]
    cases q.pc t <;> cases newNode <;> try rfl
    case outside.some a => by_cases ha : (q.mem a).isNone = true <;> simp only [ha] <;> rfl
  | enter t =>
    simp only [step, Queue.own, Queue.state]
    by_cases hlock : q.lock = none
    · simp only [hlock]
      cases q.pc t <;> rfl
    · simp only [hlock]
      rfl
  | test t =>
    have hpc : (q.own size).pc = q.pc ∧ (q.state g b).pc = q.pc := ⟨rfl, rfl⟩
    simp only [step, testsOwn, hpc.1, hpc.2] at ht ⊢
    cases hp : q.pc t with
    | test c w =>
      simp only [hp, beq_iff_eq] at ht
      simp only [← ht]
      rfl
    | _ => rfl
  | stopTest t =>
    have hpc : (q.own size).pc = q.pc ∧ (q.state g b).pc = q.pc := ⟨rfl, rfl⟩
    simp only [step, testsOwn, hpc.1, hpc.2] at ht ⊢
    cases hp : q.pc t with
    | stopTest c w =>
      simp only [hp, beq_iff_eq] at ht
      simp only [← ht]
      rfl
    | _ => rfl
  | leaveStopped t =>
    simp only [step, Queue.own, Queue.state]
    cases hp : q.pc t with
    | stopped c => cases c <;> rfl
    | _ => rfl
  | body t =>
    simp only [step, Queue.own, Queue.state]
    cases hp : q.pc t with
    | body c w =>
      cases c with
      | enqueue a =>
        by_cases hm : q.size < INT_MAX <;> simp only [linkNode, hm]
        · cases q.rear with
          | none => rfl
          | some r => cases h : q.mem r <;> simp only [h] <;> rfl
        · rfl
      | dequeue =>
        simp only [unlinkFront]
        cases q.front with
        | none => rfl
        | some a =>
          simp only [Option.bind_eq_bind, Option.bind_some]
          cases q.mem a <;> rfl
    | _ => rfl
  | wake t woken =>
    simp only [step, Queue.own, Queue.state]
    cases (q.pc t).owes with
    | none => cases woken <;> rfl
    | some c =>
      cases woken with
      | none =>
        by_cases hu : ∀ u, (q.pc u).asleepOn c = false
        · simp only [hu, implies_true, if_true]
          rfl
        · simp only [hu, if_false]
          rfl
      | some u =>
        cases hp : q.pc u with
        | asleep k => by_cases hk : k.sleepsOn = c <;> simp only [hp, hk] <;> rfl
        | _ =>
          simp only [hp]
          rfl
  | dequeue t | sleep t | spurious t | release t =>
    simp only [step, Queue.own, Queue.state]
    cases q.pc t <;> rfl

end Cexp.BlockingQueue
