import Cexp.BlockingQueue

/-! What one step of the queue can do, guard and effect. Every invariant is proved by
cases on this relation and not on the step function. -/

namespace Cexp.BlockingQueue

variable {T D : Type} [DecidableEq T]

def State.leave (s : State T D) (t : T) (p : Pc D) : State T D :=
  { s.move t p with lock := none }

def State.acquire (s : State T D) (t : T) (p : Pc D) : State T D :=
  { s.move t p with lock := some (.thread t) }

inductive Step (s : State T D) : Label T D → State T D → Prop where
  | noMemory {t : T} {data : D} {len : Int} (ht : s.pc t = .outside) :
    Step s (.enqueue t data len none) s
  | malloc {t : T} {data : D} {len : Int} {a : Addr} (ht : s.pc t = .outside)
    (ha : s.mem a = none) :
    Step s (.enqueue t data len (some a)) { s.move t (.enter (.enqueue a)) with
      mem := Function.update s.mem a (some ⟨data, len, none⟩) }
  | dequeue {t : T} (ht : s.pc t = .outside) : Step s (.dequeue t) (s.move t (.enter .dequeue))
  | enter {t : T} {c : Call} (ht : s.pc t = .enter c) (hl : s.lock = none) :
    Step s (.enter t) (s.acquire t (.test c false))
  | reenter {t : T} {c : Call} (ht : s.pc t = .reenter c) (hl : s.lock = none) :
    Step s (.enter t) (s.acquire t (.test c true))
  | testWait {t : T} {c : Call} {w : Bool} (ht : s.pc t = .test c w)
    (hw : mustWait s c = true) (hs : s.stop = false) : Step s (.test t) (s.move t (.sleep c))
  | testPass {t : T} {c : Call} {w : Bool} (ht : s.pc t = .test c w)
    (hw : mustWait s c = false ∨ s.stop = true) : Step s (.test t) (s.move t (.stopTest c w))
  | sleep {t : T} {c : Call} (ht : s.pc t = .sleep c) :
    Step s (.sleep t) (s.leave t (.asleep c))
  | spurious {t : T} {c : Call} (ht : s.pc t = .asleep c) :
    Step s (.spurious t) (s.move t (.reenter c))
  | stopSet {t : T} {c : Call} {w : Bool} (ht : s.pc t = .stopTest c w) (hs : s.stop = true) :
    Step s (.stopTest t) (s.move t (.stopped c))
  | stopClear {t : T} {c : Call} {w : Bool} (ht : s.pc t = .stopTest c w)
    (hs : s.stop = false) : Step s (.stopTest t) (s.move t (.body c w))
  | dropNode {t : T} {a : Addr} (ht : s.pc t = .stopped (.enqueue a)) :
    Step s (.leaveStopped t) { s.leave t .outside with mem := freeNode s.mem (some a) }
  | leaveStopped {t : T} (ht : s.pc t = .stopped .dequeue) :
    Step s (.leaveStopped t) (s.leave t .outside)
  | linkFirst {t : T} {a : Addr} {w : Bool} (ht : s.pc t = .body (.enqueue a) w)
    (hr : s.rear = none) (hm : s.size < INT_MAX) :
    Step s (.body t) { s.leave t .linked with
      front := some a, rear := some a, size := s.size + 1 }
  | linkLast {t : T} {a r : Addr} {w : Bool} {n : QueueNode D}
    (ht : s.pc t = .body (.enqueue a) w) (hr : s.rear = some r) (hn : s.mem r = some n)
    (hm : s.size < INT_MAX) :
    Step s (.body t) { s.leave t .linked with
      mem := Function.update s.mem r (some { n with next := some a })
      rear := some a, size := s.size + 1 }
  | unlink {t : T} {a : Addr} {w : Bool} {n : QueueNode D} (ht : s.pc t = .body .dequeue w)
    (hf : s.front = some a) (hn : s.mem a = some n) :
    Step s (.body t) { s.leave t (.unlinked a n.data) with
      front := n.next, rear := if n.next = none then none else s.rear, size := s.size - 1 }
  | wakeOne {t u : T} {c : Cond} {k : Call} (ht : (s.pc t).owes = some c)
    (hu : s.pc u = .asleep k) (hk : k.sleepsOn = c) :
    Step s (.wake t (some u)) ((s.move u (.reenter k)).move t (s.pc t).afterWake)
  | wakeNone {t : T} {c : Cond} (ht : (s.pc t).owes = some c)
    (hu : ∀ u, (s.pc u).asleepOn c = false) :
    Step s (.wake t none) (s.move t (s.pc t).afterWake)
  | release {t : T} {a : Addr} {d : D} (ht : s.pc t = .release a d) :
    Step s (.release t) { s.move t .outside with mem := freeNode s.mem (some a) }
  | destroy {junk : Option Addr} {s' : State T D} (hd : destroyStep s junk = some s') :
    Step s (.destroy junk) s'
  | otherStop (b : Bool) : Step s (.otherStop b) { s with stop := b }
  | otherLimit (size : Int32) : Step s (.otherLimit size) { s with glimitSize := limitOf size }

variable [Fintype T]

theorem step_cases {s s' : State T D} {l : Label T D} (h : step s l = some s') : Step s l s' := by
  cases l with
  | enqueue t data len newNode =>
    cases hp : s.pc t <;> cases newNode <;> simp only [step, hp] at h
    case outside.none => obtain rfl := Option.some.inj h; exact .noMemory hp
    case outside.some a =>
      split at h
      case isTrue ha =>
        obtain rfl := Option.some.inj h
        exact .malloc hp (Option.isNone_iff_eq_none.mp ha)
      case isFalse => cases h
    all_goals cases h
  | dequeue t =>
    cases hp : s.pc t <;> simp only [step, hp] at h
    case outside => obtain rfl := Option.some.inj h; exact .dequeue hp
    all_goals cases h
  | enter t =>
    simp only [step] at h
    split at h
    case isFalse => cases h
    case isTrue hl =>
      cases hp : s.pc t <;> simp only [hp] at h
      case enter c => obtain rfl := Option.some.inj h; exact .enter hp hl
      case reenter c => obtain rfl := Option.some.inj h; exact .reenter hp hl
      all_goals cases h
  | test t =>
    cases hp : s.pc t <;> simp only [step, hp] at h
    case test c w =>
      cases hw : mustWait s c <;> cases hs : s.stop <;> simp [hw, hs] at h <;> subst h
      · exact .testPass hp (Or.inl hw)
      · exact .testPass hp (Or.inl hw)
      · exact .testWait hp hw hs
      · exact .testPass hp (Or.inr hs)
    all_goals cases h
  | sleep t =>
    cases hp : s.pc t <;> simp only [step, hp] at h
    case sleep c => obtain rfl := Option.some.inj h; exact .sleep hp
    all_goals cases h
  | spurious t =>
    cases hp : s.pc t <;> simp only [step, hp] at h
    case asleep c => obtain rfl := Option.some.inj h; exact .spurious hp
    all_goals cases h
  | stopTest t =>
    cases hp : s.pc t <;> simp only [step, hp] at h
    case stopTest c w =>
      cases hs : s.stop <;> simp [hs] at h <;> subst h
      · exact .stopClear hp hs
      · exact .stopSet hp hs
    all_goals cases h
  | leaveStopped t =>
    cases hp : s.pc t <;> simp only [step, hp] at h
    case stopped c =>
      cases c <;> obtain rfl := Option.some.inj h
      · exact .dropNode hp
      · exact .leaveStopped hp
    all_goals cases h
  | body t =>
    cases hp : s.pc t <;> simp only [step, hp] at h
    case body c w =>
      cases c with
      | enqueue a =>
        obtain ⟨u, hu, rfl⟩ := Option.map_eq_some_iff.mp h
        obtain ⟨hm, ⟨hr, rfl⟩ | ⟨r, n, hr, hn, rfl⟩⟩ := linkNode_cases hu
        · exact .linkFirst hp hr hm
        · exact .linkLast hp hr hn hm
      | dequeue =>
        obtain ⟨⟨u, a, d⟩, hu, rfl⟩ := Option.map_eq_some_iff.mp h
        obtain ⟨n, hf, hn, rfl, rfl⟩ := unlinkFront_cases hu
        exact .unlink hp hf hn
    all_goals cases h
  | wake t woken =>
    cases ho : (s.pc t).owes with
    | none => simp [step, ho] at h
    | some c =>
      cases woken with
      | none =>
        simp only [step, ho] at h
        split at h
        case isTrue hu => obtain rfl := Option.some.inj h; exact .wakeNone ho hu
        case isFalse => cases h
      | some u =>
        cases hp : s.pc u <;> simp only [step, ho, hp] at h
        case asleep k =>
          split at h
          case isTrue hk => obtain rfl := Option.some.inj h; exact .wakeOne ho hp hk
          case isFalse => cases h
        all_goals cases h
  | release t =>
    cases hp : s.pc t <;> simp only [step, hp] at h
    case release a d => obtain rfl := Option.some.inj h; exact .release hp
    all_goals cases h
  | destroy junk => exact .destroy h
  | otherStop b => obtain rfl := Option.some.inj h; exact .otherStop b
  | otherLimit size => obtain rfl := Option.some.inj h; exact .otherLimit size

end Cexp.BlockingQueue
