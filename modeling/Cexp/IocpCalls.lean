import Cexp.IocpStep
import Cexp.QueueCalls

/-! The threads of the server inside the queues: a thread is in a call on a queue exactly when
that queue says so, no call is ever stopped, and nothing touches a run's threads and
queue before the run creates them. -/

namespace Cexp.IocpServer

open Transition BlockingQueue

variable {K : Type}

structure InSync (cp : K → CompletionThread K) (hd : K → HandlerPc K) (qs : K → Queue K) :
    Prop where
  completion : ∀ q j, (qs q).pc (.completion j) ≠ .outside ↔ (cp j).pc = .inEnqueue q
  handler : ∀ q j, (qs q).pc (.handler j) ≠ .outside ↔ hd j = .inDequeue q
  enqueues : ∀ q j, (qs q).pc (.completion j) ≠ .outside →
    ((qs q).pc (.completion j)).enqueues = true
  dequeues : ∀ q j, ((qs q).pc (.handler j)).enqueues = false
  unstopped : ∀ q, Unstopped (qs q)
  notCalled : ∀ q, (qs q).destroyer = .notCalled

/-- How far a run has come with creating its threads and its queue. -/
def MainPc.phase : MainPc → Nat
  | .startup | .socket | .bind | .listen | .ready _ | .createPort | .createCompletion => 0
  | .createHandler => 1
  | .createQueue => 2
  | _ => 3

theorem InSync.returns {cp : K → CompletionThread K} {hd : K → HandlerPc K} {qs : K → Queue K}
    (h : InSync cp hd qs) {k q : K} {y : Queue K} {r : Result Block}
    (hr : Returns (qs q) y (.handler k) r) : ∃ d, r = .data d := by
  rcases hr.result with ⟨-, hpc⟩ | ⟨a, d, rfl, -⟩
  · have := h.dequeues q k
    simp [hpc, Pc.enqueues] at this
  · exact ⟨d, rfl⟩

variable [DecidableEq K]

def State.phase (s : State K) (k : K) : Nat :=
  if s.started k then
    match s.main with
    | some (j, p) => if j = k then p.phase else 3
    | none => 3
  else 0

structure Fresh (s : State K) : Prop where
  started : ∀ k p, s.main = some (k, p) → s.started k = true
  completion : ∀ k, s.phase k = 0 → (s.completion k).pc = .notStarted
  handler : ∀ k, s.phase k ≤ 1 → s.handler k = .notStarted
  queue : ∀ k, s.phase k ≤ 2 → s.gQueue ≠ some k ∧ (∀ t, (s.queue k).pc t = .outside) ∧
    (s.queue k).size = 0

structure Calls (s : State K) : Prop where
  fresh : Fresh s
  sync : InSync s.completion s.handler s.queue

theorem InSync.moveCompletion {cp : K → CompletionThread K} {hd : K → HandlerPc K}
    {qs : K → Queue K} (h : InSync cp hd qs) {k : K} {th : CompletionThread K}
    (hp : ∀ q, (cp k).pc ≠ .inEnqueue q) (hp' : ∀ q, th.pc ≠ .inEnqueue q) :
    InSync (Function.update cp k th) hd qs := by
  refine ⟨fun q j => ?_, h.handler, h.enqueues, h.dequeues, h.unstopped, h.notCalled⟩
  by_cases hj : j = k
  · subst hj
    rw [h.completion, Function.update_self]
    exact iff_of_false (hp q) (hp' q)
  · rw [Function.update_of_ne hj]
    exact h.completion q j

theorem InSync.moveHandler {cp : K → CompletionThread K} {hd : K → HandlerPc K}
    {qs : K → Queue K} (h : InSync cp hd qs) {k : K} {p : HandlerPc K}
    (hp : ∀ q, hd k ≠ .inDequeue q) (hp' : ∀ q, p ≠ .inDequeue q) :
    InSync cp (Function.update hd k p) qs := by
  refine ⟨h.completion, fun q j => ?_, h.enqueues, h.dequeues, h.unstopped, h.notCalled⟩
  by_cases hj : j = k
  · subst hj
    rw [h.handler, Function.update_self]
    exact iff_of_false (hp q) (hp' q)
  · rw [Function.update_of_ne hj]
    exact h.handler q j

theorem foldl_resume_of_no_ret {es : List (BlockingQueue.Event (Thread K) Block)}
    (h : ∀ t r, BlockingQueue.Event.ret t r ∉ es) (cp : K → CompletionThread K)
    (hd : K → HandlerPc K) :
    es.foldl resumeCompletion cp = cp ∧ es.foldl resumeHandler hd = hd := by
  induction es with
  | nil => exact ⟨rfl, rfl⟩
  | cons e es ih =>
    have hes := ih fun t r hm => h t r (List.mem_cons_of_mem _ hm)
    cases e with
    | ret t r => exact absurd List.mem_cons_self (h t r)
    | _ => exact hes

theorem InSync.newQueue {s : State K} (h : InSync s.completion s.handler s.queue) {k : K}
    (hk : ∀ t, (s.queue k).pc t = .outside) :
    InSync s.completion s.handler (s.newQueue k).queue := by
  have hpc (q : K) : ((s.newQueue k).queue q).pc = (s.queue q).pc := by
    by_cases hq : q = k
    · subst hq
      funext t
      simp [State.newQueue, BlockingQueue.createQueue, hk t]
    · simp [State.newQueue, hq]
  refine ⟨fun q j => ?_, fun q j => ?_, fun q j => ?_, fun q j => ?_, fun q => ⟨?_, fun t c => ?_⟩,
    fun q => ?_⟩
  · rw [hpc]
    exact h.completion q j
  · rw [hpc]
    exact h.handler q j
  · rw [hpc]
    exact h.enqueues q j
  · rw [hpc]
    exact h.dequeues q j
  · by_cases hq : q = k <;> simp [State.newQueue, hq, BlockingQueue.createQueue]
  · rw [hpc]
    exact (h.unstopped q).pc t c
  · by_cases hq : q = k
    · simp [State.newQueue, hq, BlockingQueue.createQueue]
    · simpa [State.newQueue, hq] using h.notCalled q

theorem fresh_init : Fresh (init : State K) where
  started _ _ hm := nomatch hm
  completion _ _ := rfl
  handler _ _ := rfl
  queue _ _ := ⟨nofun, fun _ => rfl, rfl⟩

omit [DecidableEq K] in
theorem inSync_init : InSync (init : State K).completion init.handler init.queue where
  completion _ _ := iff_of_false (fun h => h rfl) nofun
  handler _ _ := iff_of_false (fun h => h rfl) nofun
  enqueues _ _ h := absurd rfl h
  dequeues _ _ := rfl
  unstopped _ := ⟨rfl, nofun⟩
  notCalled _ := rfl

theorem calls_init : Calls (init : State K) := ⟨fresh_init, inSync_init⟩

variable [Fintype K]

theorem enqueue_cases {x y : Queue K} {t : Thread K} {d : Block} {n : Int} {a : Option Addr}
    (h : BlockingQueue.step x (.enqueue t d n a) = some y) :
    x.pc t = .outside ∧ ((a = none ∧ y = x) ∨ ∃ b, a = some b ∧ x.mem b = none ∧
      y = { x.move t (.enter (.enqueue b)) with
        mem := Function.update x.mem b (some ⟨d, n, none⟩) }) := by
  cases BlockingQueue.step_cases h with
  | noMemory ht => exact ⟨ht, Or.inl ⟨rfl, rfl⟩⟩
  | @malloc _ _ _ b ht hb => exact ⟨ht, Or.inr ⟨b, rfl, hb, rfl⟩⟩

theorem dequeue_cases {x y : Queue K} {t : Thread K}
    (h : BlockingQueue.step x (.dequeue t) = some y) :
    x.pc t = .outside ∧ y = x.move t (.enter .dequeue) := by
  cases BlockingQueue.step_cases h with
  | dequeue ht => exact ⟨ht, rfl⟩

/-- A step of one queue: it is enough to look at the threads that moved, and at the calls
the queue now says they are in. -/
theorem InSync.queueStep {cp cp' : K → CompletionThread K} {hd hd' : K → HandlerPc K}
    {qs : K → Queue K} (h : InSync cp hd qs) {q : K}
    {l : BlockingQueue.Label (Thread K) Block} {y : Queue K}
    (hy : BlockingQueue.step (qs q) l = some y) (hl : l.mover.isSome = true)
    (hcp : ∀ j, (y.pc (.completion j) ≠ .outside ↔ (cp' j).pc = .inEnqueue q) ∧
      ∀ q', q' ≠ q → ((cp' j).pc = .inEnqueue q' ↔ (cp j).pc = .inEnqueue q'))
    (hhd : ∀ j, (y.pc (.handler j) ≠ .outside ↔ hd' j = .inDequeue q) ∧
      ∀ q', q' ≠ q → (hd' j = .inDequeue q' ↔ hd j = .inDequeue q'))
    (he : ∀ j, y.pc (.completion j) ≠ .outside → (y.pc (.completion j)).enqueues = true)
    (hde : ∀ j, (y.pc (.handler j)).enqueues = false) :
    InSync cp' hd' (Function.update qs q y) := by
  have hs := BlockingQueue.step_cases hy
  refine ⟨fun q' j => ?_, fun q' j => ?_, fun q' j => ?_, fun q' j => ?_, fun q' => ?_,
    fun q' => ?_⟩
  all_goals
    by_cases hq : q' = q
    · subst hq
      rw [Function.update_self]
      first
      | exact (hcp j).1
      | exact (hhd j).1
      | exact he j
      | exact hde j
      | exact hs.unstopped hl (h.unstopped q')
      | exact (hs.destroyer_eq hl).trans (h.notCalled q')
    · rw [Function.update_of_ne hq]
      first
      | exact (h.completion q' j).trans ((hcp j).2 q' hq).symm
      | exact (h.handler q' j).trans ((hhd j).2 q' hq).symm
      | exact h.enqueues q' j
      | exact h.dequeues q' j
      | exact h.unstopped q'
      | exact h.notCalled q'

theorem InSync.enqueue {cp : K → CompletionThread K} {hd : K → HandlerPc K} {qs : K → Queue K}
    (h : InSync cp hd qs) {k q : K} {d : Block} {n : Nat} {a : Option Addr} {y : Queue K}
    (hp : (cp k).pc = .enqueue d n)
    (hy : BlockingQueue.step (qs q) (.enqueue (.completion k) d n a) = some y) :
    InSync (Function.update cp k { cp k with pc := if a = none then .recv else .inEnqueue q }) hd
      (Function.update qs q y) := by
  obtain ⟨hout, ⟨rfl, rfl⟩ | ⟨b, rfl, hb, rfl⟩⟩ := enqueue_cases hy
  · rw [Function.update_eq_self]
    exact h.moveCompletion (by simp [hp]) (by simp)
  · refine h.queueStep hy rfl (fun j => ?_) (fun j => ⟨h.handler q j, fun _ _ => Iff.rfl⟩)
      (fun j => ?_) (fun j => h.dequeues q j)
    · by_cases hj : j = k
      · subst hj
        simpa [State.move, hp] using fun q' hq => Ne.symm hq
      · simpa [State.move, hj] using h.completion q j
    · by_cases hj : j = k
      · simp [State.move, hj, Pc.enqueues, Pc.newNode]
      · simpa [State.move, hj] using h.enqueues q j

theorem InSync.dequeue {cp : K → CompletionThread K} {hd : K → HandlerPc K} {qs : K → Queue K}
    (h : InSync cp hd qs) {k q : K} {y : Queue K} (hp : hd k = .dequeue)
    (hy : BlockingQueue.step (qs q) (.dequeue (.handler k)) = some y) :
    InSync cp (Function.update hd k (.inDequeue q)) (Function.update qs q y) := by
  obtain ⟨hout, rfl⟩ := dequeue_cases hy
  refine h.queueStep hy rfl (fun j => ⟨h.completion q j, fun _ _ => Iff.rfl⟩) (fun j => ?_)
    (fun j => h.enqueues q j) (fun j => ?_)
  · by_cases hj : j = k
    · subst hj
      simpa [State.move, hp] using fun q' hq => Ne.symm hq
    · simpa [State.move, hj] using h.handler q j
  · by_cases hj : j = k
    · simp [State.move, hj, Pc.enqueues, Pc.newNode]
    · simpa [State.move, hj] using h.dequeues q j

theorem InSync.inside {cp : K → CompletionThread K} {hd : K → HandlerPc K} {qs : K → Queue K}
    (h : InSync cp hd qs) {q : K} {l : BlockingQueue.Label (Thread K) Block} {y : Queue K}
    (hl : l.insideCall = true) (hy : BlockingQueue.step (qs q) l = some y) :
    InSync ((BlockingQueue.events (qs q) l).foldl resumeCompletion cp)
      ((BlockingQueue.events (qs q) l).foldl resumeHandler hd) (Function.update qs q y) := by
  have hm := Label.mover_of_insideCall hl
  have hsame {t : Thread K} (ht : SameCall ((qs q).pc t) (y.pc t)) :
      (y.pc t ≠ .outside ↔ (qs q).pc t ≠ .outside) ∧
        (y.pc t).enqueues = ((qs q).pc t).enqueues := ⟨ht.1.not, ht.2⟩
  rcases (BlockingQueue.step_cases hy).inside_cases hl (h.unstopped q) with
    ⟨t, r, hev, hr⟩ | ⟨hev, hcall⟩
  · rw [hev]
    simp only [List.foldl_cons, List.foldl_nil]
    cases t with
    | completion k =>
      have hk := (h.completion q k).mp hr.was
      have hother (j : K) (hj : j ≠ k) := hsame (hr.other (.completion j) (by simpa using hj))
      have hhand (j : K) := hsame (hr.other (.handler j) (by simp))
      refine h.queueStep hy hm (fun j => ?_) (fun j => ?_) (fun j hj => ?_) (fun j => ?_)
      · by_cases hj : j = k
        · subst hj
          simpa [resumeCompletion, hr.now, hk] using fun q' hq => Ne.symm hq
        · simpa [resumeCompletion, hj, (hother j hj).1] using h.completion q j
      · exact ⟨(hhand j).1.trans (h.handler q j), fun _ _ => Iff.rfl⟩
      · by_cases hjk : j = k
        · exact absurd (hjk ▸ hr.now) hj
        · exact (hother j hjk).2.trans (h.enqueues q j ((hother j hjk).1.mp hj))
      · exact (hhand j).2.trans (h.dequeues q j)
    | handler k =>
      obtain ⟨d, rfl⟩ := h.returns hr
      have hk := (h.handler q k).mp hr.was
      have hother (j : K) (hj : j ≠ k) := hsame (hr.other (.handler j) (by simpa using hj))
      have hcomp (j : K) := hsame (hr.other (.completion j) (by simp))
      refine h.queueStep hy hm (fun j => ?_) (fun j => ?_) (fun j hj => ?_) (fun j => ?_)
      · exact ⟨(hcomp j).1.trans (h.completion q j), fun _ _ => Iff.rfl⟩
      · by_cases hj : j = k
        · subst hj
          simpa [resumeHandler, hr.now, hk] using fun q' hq => Ne.symm hq
        · simpa [resumeHandler, hj, (hother j hj).1] using h.handler q j
      · exact (hcomp j).2.trans (h.enqueues q j ((hcomp j).1.mp hj))
      · by_cases hj : j = k
        · rw [hj, hr.now]
          rfl
        · exact (hother j hj).2.trans (h.dequeues q j)
  · obtain ⟨hc, hh⟩ := foldl_resume_of_no_ret hev cp hd
    rw [hc, hh]
    exact h.queueStep hy hm
      (fun j => ⟨(hsame (hcall _)).1.trans (h.completion q j), fun _ _ => Iff.rfl⟩)
      (fun j => ⟨(hsame (hcall _)).1.trans (h.handler q j), fun _ _ => Iff.rfl⟩)
      (fun j hj => (hcall _).2.trans (h.enqueues q j ((hsame (hcall _)).1.mp hj)))
      (fun j => (hcall _).2.trans (h.dequeues q j))

theorem Step.started {s s' : State K} {l : Label K} (h : Step s l s') (hI : Fresh s) {k : K}
    {p : MainPc} (hm' : s'.main = some (k, p)) : s'.started k = true := by
  cases h.mainMove with
  | same hm hs => exact hs ▸ hI.started k p (hm ▸ hm')
  | @start j hm hk hj hs =>
    obtain ⟨rfl, rfl⟩ := Prod.mk.inj (Option.some.inj (hj.symm.trans hm'))
    simp [hs]
  | next hm hj hs hn =>
    obtain ⟨rfl, rfl⟩ := Prod.mk.inj (Option.some.inj (hj.symm.trans hm'))
    exact hs ▸ hI.started _ _ hm
  | done hm hj => simp [hj] at hm'

omit [DecidableEq K] [Fintype K] in
theorem MainPc.Next.phase_le {l : Label K} {p q : MainPc} (h : MainPc.Next l p q) :
    p.phase ≤ q.phase := by
  cases h <;> simp [MainPc.phase]

theorem Step.phase_mono {s s' : State K} {l : Label K} (h : Step s l s') (k : K) :
    s.phase k ≤ s'.phase k := by
  have hle (p : MainPc) : p.phase ≤ 3 := by cases p <;> simp [MainPc.phase]
  cases h.mainMove with
  | same hm hs => simp only [State.phase, hm, hs, le_refl]
  | @start j hm hk hj hs =>
    by_cases hkj : k = j
    · subst hkj
      simp [State.phase, hk]
    · simp [State.phase, hm, hj, hs, hkj, Ne.symm hkj]
  | next hm hj hs hn =>
    simp only [State.phase, hm, hj, hs]
    split_ifs <;> simp [hn.phase_le]
  | @done j p hm hj hs =>
    simp only [State.phase, hm, hj, hs]
    split_ifs <;> simp [hle]

theorem InSync.resume_other {cp : K → CompletionThread K} {hd : K → HandlerPc K}
    {qs : K → Queue K} (h : InSync cp hd qs) {q : K}
    {l : BlockingQueue.Label (Thread K) Block} {y : Queue K} (hl : l.insideCall = true)
    (hy : BlockingQueue.step (qs q) l = some y) (k : K) :
    ((cp k).pc ≠ .inEnqueue q →
        (BlockingQueue.events (qs q) l).foldl resumeCompletion cp k = cp k) ∧
      (hd k ≠ .inDequeue q → (BlockingQueue.events (qs q) l).foldl resumeHandler hd k = hd k) := by
  rcases (BlockingQueue.step_cases hy).inside_cases hl (h.unstopped q) with
    ⟨t, r, hev, hr⟩ | ⟨hev, -⟩
  · rw [hev]
    simp only [List.foldl_cons, List.foldl_nil]
    cases t with
    | completion j =>
      refine ⟨fun hk => Function.update_of_ne ?_ _ _, fun _ => rfl⟩
      rintro rfl
      exact hk ((h.completion q k).mp hr.was)
    | handler j =>
      obtain ⟨d, rfl⟩ := h.returns hr
      refine ⟨fun _ => rfl, fun hk => Function.update_of_ne ?_ _ _⟩
      rintro rfl
      exact hk ((h.handler q k).mp hr.was)
  · obtain ⟨hc, hh⟩ := foldl_resume_of_no_ret hev cp hd
    rw [hc, hh]
    exact ⟨fun _ => rfl, fun _ => rfl⟩

theorem InSync.resume_completion {cp : K → CompletionThread K} {hd : K → HandlerPc K}
    {qs : K → Queue K} (h : InSync cp hd qs) {q : K}
    {l : BlockingQueue.Label (Thread K) Block} {y : Queue K} (hl : l.insideCall = true)
    (hy : BlockingQueue.step (qs q) l = some y) (k : K) :
    (BlockingQueue.events (qs q) l).foldl resumeCompletion cp k = cp k ∨
      ((cp k).pc = .inEnqueue q ∧ (BlockingQueue.events (qs q) l).foldl resumeCompletion cp k =
        { cp k with pc := .recv }) := by
  by_cases hk : (cp k).pc = .inEnqueue q
  · exact (foldl_resumeCompletion cp _ k).imp id fun he => ⟨hk, he⟩
  · exact Or.inl ((h.resume_other hl hy k).1 hk)

theorem InSync.resume_handler {cp : K → CompletionThread K} {hd : K → HandlerPc K}
    {qs : K → Queue K} (h : InSync cp hd qs) {q : K}
    {l : BlockingQueue.Label (Thread K) Block} {y : Queue K} (hl : l.insideCall = true)
    (hy : BlockingQueue.step (qs q) l = some y) (k : K) :
    (BlockingQueue.events (qs q) l).foldl resumeHandler hd k = hd k ∨
      ∃ d, (BlockingQueue.events (qs q) l).foldl resumeHandler hd k = .received d := by
  rcases (BlockingQueue.step_cases hy).inside_cases hl (h.unstopped q) with
    ⟨t, r, hev, hr⟩ | ⟨hev, -⟩
  · rw [hev]
    simp only [List.foldl_cons, List.foldl_nil]
    cases t with
    | completion j => exact Or.inl rfl
    | handler j =>
      obtain ⟨d, rfl⟩ := h.returns hr
      by_cases hj : k = j
      · subst hj
        exact Or.inr ⟨d, Function.update_self _ _ _⟩
      · exact Or.inl (Function.update_of_ne hj _ _)
  · exact Or.inl (congrFun (foldl_resume_of_no_ret hev cp hd).2 k)

theorem not_inside {x y : Queue K} {l : BlockingQueue.Label (Thread K) Block}
    (hl : l.insideCall = true) (ho : ∀ t, x.pc t = .outside) :
    BlockingQueue.step x l ≠ some y := by
  intro hy
  obtain ⟨t, -, ht⟩ := (BlockingQueue.step_cases hy).mover_inside hl
  exact ht (ho t)

theorem Step.fresh_completion {s s' : State K} {l : Label K} (h : Step s l s') (hI : Fresh s)
    (hS : InSync s.completion s.handler s.queue) {k : K} (hk : s'.phase k = 0) :
    (s'.completion k).pc = .notStarted := by
  have hold := hI.completion k (Nat.le_zero.mp (hk ▸ h.phase_mono k))
  have hmove {j : K} {th : CompletionThread K} (hj : (s.completion j).pc ≠ .notStarted) :
      (Function.update s.completion j th k).pc = .notStarted := by
    rw [Function.update_of_ne]
    · exact hold
    · rintro rfl
      exact hj hold
  cases h with
  | @createCompletion j hm =>
    have hne : k ≠ j := by
      rintro rfl
      have hst := hI.started k _ hm
      simp [State.phase, State.goto, State.setCompletion, hst, MainPc.phase] at hk
    simpa [State.setCompletion, State.goto, hne] using hold
  | getClosed hp | getFailed hp | getEmpty hp | getData hp | emptyTransfer hp | lastTransfer hp
  | closeClient hp | clearClient hp | freeClient hp | copy hp | exitClose hp | exitNoClient hp
  | exitClear hp | exitFree hp | exitFreeOverlapped hp | enqueueNull hp | enqueue hp
  | recvAgain hp | recvAgainFail hp => exact hmove (by rw [hp]; simp)
  | @queue q l x hl hx =>
    have hr := (hS.resume_other hl hx k).1 (by rw [hold]; simp)
    exact (congrArg CompletionThread.pc hr).trans hold
  | _ => exact hold

theorem Step.fresh_handler {s s' : State K} {l : Label K} (h : Step s l s') (hI : Fresh s)
    (hS : InSync s.completion s.handler s.queue) {k : K} (hk : s'.phase k ≤ 1) :
    s'.handler k = .notStarted := by
  have hold := hI.handler k ((h.phase_mono k).trans hk)
  have hmove {j : K} {p : HandlerPc K} (hj : s.handler j ≠ .notStarted) :
      Function.update s.handler j p k = .notStarted := by
    rw [Function.update_of_ne]
    · exact hold
    · rintro rfl
      exact hj hold
  cases h with
  | @createHandler j hm =>
    have hne : k ≠ j := by
      rintro rfl
      have hst := hI.started k _ hm
      simp [State.phase, State.goto, State.setHandler, hst, MainPc.phase] at hk
    simpa [State.setHandler, State.goto, hne] using hold
  | dequeueNull hp | dequeue hp | received hp | free hp => exact hmove (by rw [hp]; simp)
  | @queue q l x hl hx =>
    exact ((hS.resume_other hl hx k).2 (by rw [hold]; simp)).trans hold
  | _ => exact hold

theorem Step.fresh_queue {s s' : State K} {l : Label K} (h : Step s l s') (hI : Fresh s) {k : K}
    (hk : s'.phase k ≤ 2) : s'.gQueue ≠ some k ∧ (∀ t, (s'.queue k).pc t = .outside) ∧
      (s'.queue k).size = 0 := by
  have hold := hI.queue k ((h.phase_mono k).trans hk)
  have hother {q : K} {y : Queue K} (hq : q ≠ k) : s.gQueue ≠ some k ∧
      (∀ t, (Function.update s.queue q y k).pc t = .outside) ∧
      (Function.update s.queue q y k).size = 0 := by
    rwa [Function.update_of_ne (Ne.symm hq)]
  have hcurrent {q : K} (hq : s.gQueue = some q) : q ≠ k := by
    rintro rfl
    exact hold.1 hq
  cases h with
  | @createQueue j hm =>
    have hne : k ≠ j := by
      rintro rfl
      have hst := hI.started k _ hm
      simp [State.phase, State.goto, State.newQueue, hst, MainPc.phase] at hk
    exact ⟨by simpa [State.goto, State.newQueue] using Ne.symm hne,
      by simpa [State.goto, State.newQueue, hne] using hold.2⟩
  | createQueueFail => exact ⟨by simp, hold.2⟩
  | enqueue hp hq | dequeue hp hq => exact hother (hcurrent hq)
  | @queue q l x hl hx =>
    refine hother ?_
    rintro rfl
    exact not_inside hl hold.2.1 hx
  | _ => exact hold

theorem Step.inSync {s s' : State K} {l : Label K} (h : Step s l s') (hI : Fresh s)
    (hS : InSync s.completion s.handler s.queue) :
    InSync s'.completion s'.handler s'.queue := by
  have hphase {k : K} {p : MainPc} (hm : s.main = some (k, p)) : s.phase k = p.phase := by
    simp [State.phase, hI.started k p hm, hm]
  cases h with
  | createCompletion hm =>
    have hc := hI.completion _ (hphase hm)
    exact hS.moveCompletion (by simp [hc]) (by simp)
  | createHandler hm =>
    have hh := hI.handler _ (hphase hm).le
    exact hS.moveHandler (by simp [hh]) (by simp)
  | createQueue hm => exact hS.newQueue (hI.queue _ (hphase hm).le).2.1
  | getClosed hp | getFailed hp | getEmpty hp | getData hp | emptyTransfer hp | lastTransfer hp
  | closeClient hp | clearClient hp | freeClient hp | copy hp | exitClose hp | exitNoClient hp
  | exitClear hp | exitFree hp | exitFreeOverlapped hp | enqueueNull hp | recvAgain hp
  | recvAgainFail hp => exact hS.moveCompletion (by simp [hp]) (by simp)
  | enqueue hp _ hx => exact hS.enqueue hp hx
  | dequeueNull hp | received hp | free hp => exact hS.moveHandler (by simp [hp]) (by simp)
  | dequeue hp _ hx => exact hS.dequeue hp hx
  | queue hl hx => exact hS.inside hl hx
  | _ => exact hS

/-- In every run the threads and the queues agree on the calls in progress. -/
theorem Step.calls {s s' : State K} {l : Label K} (h : Step s l s') (hI : Calls s) : Calls s' :=
  ⟨⟨fun _ _ => h.started hI.fresh, fun _ => h.fresh_completion hI.fresh hI.sync,
    fun _ => h.fresh_handler hI.fresh hI.sync, fun _ => h.fresh_queue hI.fresh⟩,
    h.inSync hI.fresh hI.sync⟩

end Cexp.IocpServer
