import Cexp.QueueWakeups
import Cexp.QueueSync
import Cexp.QueueCalls

/-! What becomes of the calls in progress when no new ones are made and no thread wakes up by
itself: together they take a bounded number of steps, and one that does not return sleeps on a
queue that is empty, or full. -/

namespace Cexp.BlockingQueue

open Transition ThreadCount

variable {T D : Type}

/-- A step of a call in progress that is not a spurious wake-up. -/
def Label.continues : Label T D → Bool
  | .spurious _ => false
  | l => l.insideCall

def Pc.inCall : Pc D → Bool
  | .outside => false
  | _ => true

/-- A bound on the steps a thread has left in its call. The wake of a sleeper is paid for by
the thread that gives it. -/
def Pc.left : Pc D → Nat
  | .outside => 0
  | .enter _ | .reenter _ => 9
  | .test _ _ => 8
  | .sleep _ | .stopTest _ _ => 7
  | .asleep _ | .body _ _ => 6
  | .unlinked _ _ => 5
  | .linked => 4
  | .stopped _ | .release _ _ => 1

theorem Pc.left_le (p : Pc D) : p.left ≤ 9 * p.inCall.toNat := by
  cases p <;> simp [Pc.left, Pc.inCall]

theorem Pc.left_afterWake {p : Pc D} {c : Cond} (h : p.owes = some c) :
    p.afterWake.left + 4 = p.left := by
  cases p <;> simp_all [Pc.owes, Pc.afterWake, Pc.left]

/-- Every thread has returned, or sleeps on a queue that has nothing for it. -/
def Settled (size : Int32) (s : State T D) : Prop :=
  ∀ t, s.pc t = .outside ∨ ∃ c, s.pc t = .asleep c ∧ available size s c.sleepsOn = 0

variable [Fintype T]

def stepsLeft (s : State T D) : Nat := total Pc.left s.pc

def callers (s : State T D) : Nat := count Pc.inCall s.pc

theorem stepsLeft_le (s : State T D) : stepsLeft s ≤ 9 * callers s :=
  total_le fun t => (s.pc t).left_le

variable [DecidableEq T]

theorem stepsLeft_move {s s' : State T D} {t : T} {p q : Pc D} (ht : s.pc t = p)
    (hpc : s'.pc = Function.update s.pc t q) (hlt : q.left < p.left) :
    stepsLeft s' < stepsLeft s := by
  have h := total_update Pc.left s.pc t q
  rw [ht] at h
  rw [stepsLeft, stepsLeft, hpc]
  omega

theorem Step.stepsLeft_lt {s s' : State T D} {l : Label T D} (h : Step s l s')
    (hl : l.continues = true) : stepsLeft s' < stepsLeft s := by
  cases h with
  | noMemory | malloc | dequeue | spurious | destroy | otherStop | otherLimit => cases hl
  | enter ht | reenter ht | testWait ht | testPass ht | sleep ht | stopSet ht | stopClear ht
  | dropNode ht | leaveStopped ht | linkFirst ht | linkLast ht | unlink ht | release ht =>
    exact stepsLeft_move ht rfl (by simp [Pc.left])
  | @wakeOne t u c k ht hu hk =>
    have htu : t ≠ u := by
      rintro rfl
      rw [hu] at ht
      cases ht
    have hw := total_update Pc.left s.pc u (.reenter k)
    have hw' := total_update Pc.left (s.move u (.reenter k)).pc t (s.pc t).afterWake
    have hleft := Pc.left_afterWake ht
    have hpc : (s.move u (.reenter k)).pc t = s.pc t := by simp [State.move, htu]
    rw [hu] at hw
    rw [hpc] at hw'
    simp only [stepsLeft, State.move, Pc.left] at *
    omega
  | @wakeNone t c ht hu =>
    have hleft := Pc.left_afterWake ht
    exact stepsLeft_move rfl rfl (by omega)

theorem stepsLeft_decreases (s : State T D) (l : Label T D) (s' : State T D)
    (hl : l.continues = true) (hs : step s l = some s') : stepsLeft s' < stepsLeft s :=
  (step_cases hs).stepsLeft_lt hl

/-- A thread that holds the lock can go on. -/
theorem exists_step_of_holds {s : State T D} {t : T} (ht : (s.pc t).holds = true)
    (hbody : ∀ c w, s.pc t = .body c w → (step s (.body t)).isSome = true) :
    ∃ l, l.continues = true ∧ (step s l).isSome = true := by
  cases hp : s.pc t with
  | test c w => exact ⟨.test t, rfl, by simp [step, hp]⟩
  | sleep c => exact ⟨.sleep t, rfl, by simp [step, hp]⟩
  | stopTest c w => exact ⟨.stopTest t, rfl, by simp [step, hp]⟩
  | stopped c => exact ⟨.leaveStopped t, rfl, by cases c <;> simp [step, hp]⟩
  | body c w => exact ⟨.body t, rfl, hbody c w hp⟩
  | _ => simp [hp, Pc.holds] at ht

/-- No call can go on. -/
def AtRest (s : State T D) : Prop := Stuck step (fun l => l.continues = true) s

theorem AtRest.isSome {s : State T D} (h : AtRest s) {l : Label T D} (hl : l.continues = true) :
    (step s l).isSome = false := by
  rw [h l hl]
  rfl

/-- At rest no thread holds the lock or owes a wake, and one that waits for the lock waits for
`destroyQueue`. -/
theorem AtRest.pc_cases {s : State T D} (h : AtRest s)
    (hlock : ∀ t, s.lock = some (.thread t) → (s.pc t).holds = true)
    (hbody : ∀ t c w, s.pc t = .body c w → (step s (.body t)).isSome = true) (t : T) :
    s.pc t = .outside ∨ (∃ c, s.pc t = .asleep c) ∨
      s.lock = some .destroyer ∧ ∃ c, s.pc t = .enter c ∨ s.pc t = .reenter c := by
  have hnot (l : Label T D) (hl : l.continues = true) (hsome : (step s l).isSome = true) :
      False := by
    rw [h.isSome hl] at hsome
    cases hsome
  have hholds (u : T) : (s.pc u).holds = false := by
    by_contra hu
    obtain ⟨l, hl, hsome⟩ := exists_step_of_holds (by simpa using hu) (hbody u)
    exact hnot l hl hsome
  have hfree : s.lock = none ∨ s.lock = some .destroyer := by
    cases hk : s.lock with
    | none => exact Or.inl rfl
    | some o =>
      cases o with
      | thread u =>
        have := hlock u hk
        rw [hholds u] at this
        cases this
      | destroyer => exact Or.inr rfl
  cases hp : s.pc t with
  | outside => exact Or.inl rfl
  | asleep c => exact Or.inr (Or.inl ⟨c, rfl⟩)
  | enter c | reenter c =>
    rcases hfree with hk | hk
    · exact (hnot (.enter t) rfl (by simp [step, hp, hk])).elim
    · exact Or.inr (Or.inr ⟨hk, c, by simp⟩)
  | linked | unlinked a d =>
    obtain ⟨u, s', hs⟩ := exists_wake (s := s) (t := t) (by rw [hp]; rfl)
    exact (hnot (.wake t u) rfl (by rw [hs]; rfl)).elim
  | release a d => exact (hnot (.release t) rfl (by simp [step, hp])).elim
  | _ =>
    have := hholds t
    rw [hp] at this
    cases this

/-- At rest the sleepers sleep for a reason: there is no wake left. -/
theorem AtRest.settled {size : Int32} {s : State T D} {as : List Addr} (h : AtRest s)
    (hr : Rep s as) (ho : Own s as) (hb : Bounded size s) (hn : NoLostWake size s) :
    Settled size s := by
  have hwf := wellFormed_of_bounded hr hb
  have hpc (t : T) : s.pc t = .outside ∨ ∃ c, s.pc t = .asleep c := by
    rcases h.pc_cases (fun u hu => (ho.holder u).mpr hu) hwf.defined t with hp | hp | ⟨hk, -⟩
    · exact Or.inl hp
    · exact Or.inr hp
    · exact absurd hk ho.not_destroyer
  intro t
  refine (hpc t).imp_right fun ⟨c, hc⟩ => ⟨c, hc, ?_⟩
  have hquiet (p : Pc D → Bool) (hout : p .outside = false) (hsleep : ∀ k, p (.asleep k) = false) :
      count p s.pc = 0 := by
    refine count_eq_zero_iff.mpr fun u => ?_
    rcases hpc u with hu | ⟨k, hu⟩
    · rw [hu, hout]
    · rw [hu, hsleep k]
  have hw : woken s c.sleepsOn = 0 := hquiet _ rfl fun _ => rfl
  have how : owed s c.sleepsOn = 0 := hquiet _ rfl fun _ => rfl
  have hpos : 0 < sleepers s c.sleepsOn :=
    count_pos_iff.mpr ⟨t, by simp [hc, Pc.asleepOn]⟩
  have hle := hn c.sleepsOn hpos
  have hcap := hwf.capacity
  rw [hw, how] at hle
  cases c <;> simp only [available, Call.sleepsOn] at hle ⊢ <;> omega

theorem run_settled {size : Int32} {tr : List (Label T D)} {s : State T D}
    (h : exec step (createQueue size) tr = some s) (hown : ∀ l ∈ tr, l.ownQueue = true)
    (hd : s.destroyer = .notCalled) (hs : AtRest s) : Settled size s := by
  obtain ⟨as, hr, ho, hb⟩ := run_bounded h hown hd
  exact hs.settled hr ho hb (run_noLostWake h hown hd)

omit [Fintype T] [DecidableEq T] in
theorem Label.ownQueue_of_continues {l : Label T D} (h : l.continues = true) :
    l.ownQueue = true ∧ l.mover.isSome = true := by
  cases l <;> first | exact ⟨rfl, rfl⟩ | cases h

theorem exec_continues {s t : State T D} {more : List (Label T D)}
    (hm : ∀ l ∈ more, l.continues = true) (he : exec step s more = some t) :
    t.destroyer = s.destroyer := by
  induction more generalizing s with
  | nil =>
    obtain rfl := Option.some.inj he
    rfl
  | cons l more ih =>
    obtain ⟨u, hu, ht⟩ := exec_cons.mp he
    obtain ⟨hl, hmore⟩ := List.forall_mem_cons.mp hm
    exact (ih hmore ht).trans ((step_cases hu).destroyer_eq (Label.ownQueue_of_continues hl).2)

/-- In every reachable state before `destroyQueue` the calls in progress, left to themselves, take
together at most nine steps for each of them, whatever the interleaving; and at rest every thread
has returned or is a consumer of an empty queue or a producer of a full one. -/
theorem queue_calls_settle {size : Int32} {tr : List (Label T D)} {s : State T D}
    (h : exec step (createQueue size) tr = some s) (hown : ∀ l ∈ tr, l.ownQueue = true)
    (hd : s.destroyer = .notCalled) :
    (∀ more t, (∀ l ∈ more, l.continues = true) → exec step s more = some t →
      more.length ≤ 9 * callers s ∧ (AtRest t → Settled size t)) ∧
    ∃ more t, (∀ l ∈ more, l.continues = true) ∧ exec step s more = some t ∧ Settled size t := by
  have hrest {more : List (Label T D)} {t : State T D} (hm : ∀ l ∈ more, l.continues = true)
      (he : exec step s more = some t) (ht : AtRest t) : Settled size t := by
    have hrun : exec step (createQueue size) (tr ++ more) = some t :=
      exec_append.mpr ⟨s, h, he⟩
    refine run_settled hrun ?_ ((exec_continues hm he).trans hd) ht
    intro l hl
    rcases List.mem_append.mp hl with hl | hl
    · exact hown l hl
    · exact (Label.ownQueue_of_continues (hm l hl)).1
  refine ⟨fun more t hm he => ⟨?_, hrest hm he⟩, ?_⟩
  · have hlen := exec_length_le stepsLeft_decreases hm he
    have := stepsLeft_le s
    omega
  · obtain ⟨more, t, hm, he, ht⟩ := exists_stuck
      (p := fun l : Label T D => l.continues = true) stepsLeft_decreases s
    exact ⟨more, t, hm, he, hrest hm he ht⟩

/-- The thief has taken the item, and the sleeping consumer is still to be woken for it. -/
theorem queue_calls_settle_stolen :
    ∃ s, exec step (createQueue 1) stolen = some s ∧ callers s = 3 ∧
      ∃ more t, (∀ l ∈ more, l.continues = true) ∧ exec step s more = some t ∧ Settled 1 t := by
  obtain ⟨s, hs, hp⟩ := exec_exists step (createQueue 1) stolen
    (fun s => decide (s.destroyer = .notCalled ∧ callers s = 3)) (by decide)
  have hp' := of_decide_eq_true hp
  exact ⟨s, hs, hp'.2, (queue_calls_settle hs (by decide) hp'.1).2⟩

end Cexp.BlockingQueue
