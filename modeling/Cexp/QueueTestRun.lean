import Cexp.QueueTest

/-! Every run of `queue_test.c` up to its tenth text: each block that is allocated is with one
thread, in the queue or lost, and the numbered texts come off the queue in order. The tenth does
not fit its block. -/

namespace Cexp.QueueTest

open BlockingQueue Transition AtomicFifo

theorem sum_hand_setConsumer (s : Test) (i : Fin 2) (p : ConsumerPc) :
    ∑ j, (((s.setConsumer i p).consumer j).hand : Multiset Block) + ((s.consumer i).hand : List _) =
      ∑ j, ((s.consumer j).hand : Multiset Block) + (p.hand : List Block) := by
  have hothers : ∀ j, j ≠ i → (((s.setConsumer i p).consumer j).hand : Multiset Block) =
      ((s.consumer j).hand : Multiset Block) := by
    intro j hj
    simp [Test.setConsumer, hj]
  have hframe := ThreadCount.sum_frame i hothers
  simpa [Test.setConsumer] using hframe

/-- Outside the calls a consumer's step moves only what it has in its hands. -/
theorem owned_setConsumer {s t : Test} (as : List Addr) {i : Fin 2} {p : ConsumerPc}
    (hp : t.producer = s.producer) (hq : inQueue t.q as = inQueue s.q as)
    (hc : t.consumer = (s.setConsumer i p).consumer) :
    owned t as + ((s.consumer i).hand : Multiset Block) = owned s as + (p.hand : List Block) := by
  rw [owned, owned, hp, hq, hc, add_assoc, sum_hand_setConsumer, ← add_assoc]

theorem queue_sent {q q' : State Thread Block} {l : BlockingQueue.Label Thread Block}
    {as bs : List Addr} (h : BlockingQueue.Step q l q') (hl : l.insideCall = true) (hr : Rep q as)
    (ho : Own q as) (he : entered q' = false) (hu : Unstopped q)
    (hc : ∀ i, (q.pc (.consumer i)).enqueues = false)
    (hb : Refines q (BlockingQueue.events q l) q' as bs) :
    pops (queueOps (BlockingQueue.events q l)) ++
      (items q' bs ++ (q'.pc .producer).given q'.mem) =
        items q as ++ (q.pc .producer).given q.mem := by
  have hacc := hb.accepts.pops_append
  rcases h.given_cases hl hr ho he hu with ⟨hp, hg⟩ | ⟨t, d, hp, henq, hg, hg', -⟩
  · rw [hp, List.append_nil] at hacc
    rw [← List.append_assoc, hacc, hg]
  · cases t with
    | producer => rw [hg', List.append_nil, hacc, hp, hg]
    | consumer i =>
      rw [hc i] at henq
      cases henq

/-- What a step does to the blocks that the threads and the queue have, and to those on their
way. -/
structure Moves (s : Test) (l : Label) (t : Test) (as bs : List Addr) : Prop where
  rep : Rep t.q bs
  own : Own t.q bs
  owned : owned t bs + ((lost s l : Multiset Block) + (freed s l : Multiset Block)) =
    owned s as + (calloced l : Multiset Block)
  sent : taken s l ++ sent t bs ++ lost s l = sent s as ++ printed s l

theorem Moves.of_queue_eq {s t : Test} {l : Label} {as : List Addr} (hr : Rep s.q as)
    (ho : Own s.q as) (hq : t.q = s.q) (ht : taken s l = [])
    (howned : QueueTest.owned t as + ((lost s l : Multiset Block) + (freed s l : Multiset Block)) =
      QueueTest.owned s as + (calloced l : Multiset Block))
    (hp : t.producer.printed ++ lost s l = s.producer.printed ++ printed s l) :
    Moves s l t as as where
  rep := hq ▸ hr
  own := hq ▸ ho
  owned := howned
  sent := by
    rw [ht, QueueTest.sent, QueueTest.sent, hq, List.nil_append, List.append_assoc, hp,
      ← List.append_assoc]

theorem Moves.consumer {s t : Test} {as : List Addr} {i : Fin 2} {p : ConsumerPc}
    (hr : Rep s.q as) (ho : Own s.q as) (hq : t.q = s.q) (hp : t.producer = s.producer)
    (hc : t.consumer = (s.setConsumer i p).consumer)
    (hf : (s.consumer i).hand = freed s (.consumer i) ++ p.hand) :
    Moves s (.consumer i) t as as := by
  refine .of_queue_eq hr ho hq rfl ?_ (by rw [hp]; rfl)
  have hset := owned_setConsumer as hp (by rw [hq]) hc
  rw [hf, ← Multiset.coe_add, ← add_assoc] at hset
  simpa [lost, calloced] using add_right_cancel hset

/-- A step inside a call hands out a block or moves it inside the queue. -/
theorem Moves.queue {s t : Test} {l : BlockingQueue.Label Thread Block} {as : List Addr}
    (hs : BlockingQueue.Step s.q l t.q) (hl : l.insideCall = true) (hc : Calls s) (hr : Rep s.q as)
    (ho : Own s.q as) (he : entered t.q = false) (hp : t.producer.hand = s.producer.hand)
    (hpp : t.producer.printed = s.producer.printed)
    (hcons : ∑ i, ((t.consumer i).hand : Multiset Block) =
      ∑ i, ((s.consumer i).hand : Multiset Block) + (handedOut s.q l : Multiset Block)) :
    ∃ bs, Moves s (.queue l) t as bs := by
  obtain ⟨bs, hb⟩ := hs.refines hr ho he
  have hin := hs.inQueue_eq hr ho he hb
  have hsent := queue_sent hs hl hr ho he hc.unstopped hc.dequeues hb
  have harr : arriving l = [] := by
    cases l <;> first | rfl | cases hl
  rw [dropped_of_unstopped hl hc.unstopped, harr, Multiset.coe_nil, add_zero, add_zero] at hin
  refine ⟨bs, hb.rep, hb.own, ?_, ?_⟩
  · rw [QueueTest.owned, QueueTest.owned, hp, hcons, ← hin]
    simp only [lost, freed, calloced, Multiset.coe_nil, add_zero]
    abel
  · rw [QueueTest.sent, QueueTest.sent, hpp, ← hsent]
    simp [taken, lost, printed]

theorem Moves.enqueue {s : Test} {b : Block} {a : Addr} {q : State Thread Block} {as : List Addr}
    (hp : s.producer = .enqueue b)
    (hs : BlockingQueue.Step s.q (.enqueue .producer b 0 (some a)) q) (hr : Rep s.q as)
    (ho : Own s.q as) (he : entered q = false) :
    ∃ bs, Moves s (.enqueue (some a)) { s with q := q, producer := .inside } as bs := by
  obtain ⟨bs, hb⟩ := hs.refines hr ho he
  have hin := hs.inQueue_eq hr ho he hb
  refine ⟨bs, hb.rep, hb.own, ?_, ?_⟩
  · simp only [handedOut, dropped, arriving, Multiset.coe_nil, add_zero] at hin
    simp only [QueueTest.owned, lost, freed, calloced, hp, ProducerPc.hand, hin,
      Multiset.coe_nil, add_zero, zero_add]
    abel
  · have hitems : items s.q as = items q bs := hb.accepts
    cases hs with
    | malloc ht ha =>
      rw [QueueTest.sent, QueueTest.sent, hitems]
      simp [taken, lost, printed, hp, ht, ProducerPc.printed, State.move, Pc.given, Pc.newNode]

theorem Moves.dequeue {s : Test} {i : Fin 2} {q : State Thread Block} {as : List Addr}
    (hi : s.consumer i = .dequeue) (hs : BlockingQueue.Step s.q (.dequeue (.consumer i)) q)
    (hr : Rep s.q as) (ho : Own s.q as) (he : entered q = false) :
    ∃ bs, Moves s (.dequeue i) { s.setConsumer i .inside with q := q } as bs := by
  obtain ⟨bs, hb⟩ := hs.refines hr ho he
  have hin := hs.inQueue_eq hr ho he hb
  have hgiven := (hs.frame_flow hr ho he (u := .producer) nofun).2
  have hitems : items s.q as = items q bs := hb.accepts
  refine ⟨bs, hb.rep, hb.own, ?_, ?_⟩
  · simp only [handedOut, dropped, arriving, Multiset.coe_nil, add_zero] at hin
    have hset : ∑ j, (((s.setConsumer i .inside).consumer j).hand : Multiset Block) =
        ∑ j, ((s.consumer j).hand : Multiset Block) := by
      simpa [hi, ConsumerPc.hand] using sum_hand_setConsumer s i .inside
    rw [QueueTest.owned, QueueTest.owned, hin, hset]
    rfl
  · simp [QueueTest.sent, taken, lost, printed, Test.setConsumer, ← hitems, hgiven]

theorem Calls.inside_of_returns {s : Test} {i : Fin 2} {q : State Thread Block}
    {r : Result Block} (hc : Calls s) (hr : Returns s.q q (.consumer i) r) :
    s.consumer i = .inside := by
  by_contra hout
  exact hr.was ((hc.consumer i).mpr hout)

theorem Calls.producer_inside {s : Test} {q : State Thread Block} {r : Result Block}
    (hc : Calls s) (hr : Returns s.q q .producer r) : s.producer = .inside := by
  by_contra hout
  exact hr.was (hc.producer.mpr hout)

theorem Step.moves {s t : Test} {l : Label} {as : List Addr} (h : Step s l t) (hc : Calls s)
    (hr : Rep s.q as) (ho : Own s.q as) : ∃ bs, Moves s l t as bs := by
  have he := (hc.step h).entered
  cases h with
  | noBlock hp | count hp | val hp | print hp hb hl =>
    refine ⟨as, .of_queue_eq hr ho rfl rfl ?_ ?_⟩ <;>
      simp [owned, lost, freed, calloced, printed, hp, ProducerPc.hand, ProducerPc.printed]
  | calloc hp hb =>
    refine ⟨as, .of_queue_eq hr ho rfl rfl ?_ ?_⟩
    · simp only [owned, lost, freed, calloced, hp, ProducerPc.hand, Option.toList]
      simp only [Multiset.coe_nil, add_zero, zero_add]
      abel
    · simp [lost, printed, hp, ProducerPc.printed]
  | noMemory hp =>
    refine ⟨as, .of_queue_eq hr ho rfl rfl ?_ ?_⟩
    · simp only [owned, lost, freed, calloced, hp, ProducerPc.hand]
      simp only [Multiset.coe_nil, add_zero, zero_add]
      abel
    · simp [lost, printed, hp, ProducerPc.printed, ProducerPc.hand]
  | awake hi | took hi | freeNull hi | free hi =>
    exact ⟨as, .consumer hr ho rfl rfl rfl (by simp [freed, hi, ConsumerPc.hand])⟩
  | enqueue hp hq => exact Moves.enqueue hp hq hr ho he
  | dequeue hi hq => exact Moves.dequeue hi hq hr ho he
  | enqueued hq hl hev hret =>
    have hin := hc.producer_inside hret
    apply Moves.queue hq hl hc hr ho he
    · rw [hin]
      rfl
    · rw [hin]
      rfl
    · simp [handedOut_eq, hev]
  | @dequeued l q i d hq hl hev hret =>
    apply Moves.queue hq hl hc hr ho he rfl rfl
    have hset := sum_hand_setConsumer s i (.count (some d))
    rw [hc.inside_of_returns hret] at hset
    simpa [handedOut_eq, hev, ConsumerPc.hand, Test.setConsumer] using hset
  | @inside l q hq hl hev hs =>
    apply Moves.queue hq hl hc hr ho he rfl rfl
    have hnone : handedOut s.q l = [] := by
      rw [handedOut_eq, List.filterMap_eq_nil_iff]
      intro e hmem
      cases e with
      | ret t r => exact absurd hmem (hev t r)
      | _ => rfl
    rw [hnone, Multiset.coe_nil, add_zero]

/-- Every block that is allocated is in one place, and no other is anywhere. -/
def Held (s : Test) (as : List Addr) (gone : List Block) : Prop :=
  ∀ b, (owned s as + (gone : Multiset Block)).count b = (s.blocks b).isSome.toNat

theorem Step.live {s t : Test} {l : Label} (h : Step s l t) (b : Block) :
    (t.blocks b).isSome.toNat + (freed s l).count b =
      (s.blocks b).isSome.toNat + (calloced l).count b := by
  cases h with
  | @calloc c hp hc =>
    by_cases hb : b = c
    · subst hb
      simp [freed, calloced, hc]
    · simp [freed, calloced, hb, Ne.symm hb]
  | @print c hp hc hl =>
    by_cases hb : b = c
    · subst hb
      simp [freed, calloced, hc]
    · simp [freed, calloced, hb]
  | @free i c hi hc =>
    by_cases hb : b = c
    · subst hb
      simp [freed, calloced, hi, hc]
    · simp [freed, calloced, hi, hb, Ne.symm hb]
  | awake hi | took hi | freeNull hi => simp [freed, calloced, hi, Test.setConsumer]
  | _ => simp [freed, calloced, Test.setConsumer]

theorem Held.step {s t : Test} {l : Label} {as bs : List Addr} {gone : List Block}
    (hh : Held s as gone) (h : Step s l t) (hm : Moves s l t as bs) :
    Held t bs (gone ++ lost s l) := by
  intro b
  have hbefore := hh b
  have hlive := h.live b
  have hmoved := congrArg (Multiset.count b) hm.owned
  simp only [Multiset.count_add, Multiset.coe_count, List.count_append] at hbefore hmoved ⊢
  omega

/-- What is on its way is with the producer or in the queue. -/
theorem sent_le (s : Test) (as : List Addr) :
    (sent s as : Multiset Block) ≤ inQueue s.q as + (s.producer.printed : Multiset Block) := by
  have hgiven : ((s.q.pc .producer).given s.q.mem : Multiset Block) ≤
      ∑ t, (s.q.pc t).held s.q.mem := by
    apply le_trans _ (Finset.single_le_sum (fun _ _ => Multiset.zero_le _)
      (Finset.mem_univ Thread.producer))
    rw [Pc.held, ← Multiset.coe_add]
    exact Multiset.le_add_left _ _
  rw [sent, ← Multiset.coe_add, ← Multiset.coe_add, inQueue]
  exact add_le_add_left (add_le_add_right hgiven _) _

theorem ProducerPc.count_printed_le (p : ProducerPc) (b : Block) :
    p.printed.count b ≤ p.hand.count b := by
  cases p <;> simp [ProducerPc.printed, ProducerPc.hand]

theorem Held.count_sent_le {s : Test} {as : List Addr} {gone : List Block} (hh : Held s as gone)
    (b : Block) (i : Fin 2) :
    (sent s as).count b + s.producer.hand.count b + (s.consumer i).hand.count b ≤
      (s.blocks b).isSome.toNat + s.producer.printed.count b := by
  have howned := hh b
  have hsent := Multiset.count_le_of_le b (sent_le s as)
  have hcons : (s.consumer i).hand.count b ≤
      (∑ j, ((s.consumer j).hand : Multiset Block)).count b := by
    rw [← Multiset.coe_count]
    apply Multiset.count_le_of_le
    exact Finset.single_le_sum (f := fun j => ((s.consumer j).hand : Multiset Block))
      (fun _ _ => Multiset.zero_le _) (Finset.mem_univ i)
  simp only [owned, Multiset.count_add, Multiset.coe_count] at howned hsent
  omega

/-- No step writes or frees a block that is on its way. -/
theorem Step.blocks_eq {s t : Test} {l : Label} {as : List Addr} {gone : List Block}
    (h : Step s l t) (hh : Held s as gone) {b : Block} (hb : b ∈ sent s as) :
    t.blocks b = s.blocks b := by
  have hpos := List.count_pos_iff.mpr hb
  have hprinted := s.producer.count_printed_le b
  cases h with
  | @calloc c hp hc =>
    apply Function.update_of_ne
    intro hbc
    have hle := hh.count_sent_le b 0
    rw [hbc, hc, ← hbc] at hle
    simp only [Option.isSome_none, Bool.toNat_false] at hle
    omega
  | @print c hp hc hl =>
    apply Function.update_of_ne
    intro hbc
    have hle := hh.count_sent_le b 0
    have hone := (s.blocks b).isSome.toNat_le
    simp only [hp, hbc, ProducerPc.hand, ProducerPc.printed, Option.toList,
      List.count_singleton_self, List.count_nil] at hle hpos hone
    omega
  | @free i c hi hc =>
    apply Function.update_of_ne
    intro hbc
    have hle := hh.count_sent_le b i
    have hone := (s.blocks b).isSome.toNat_le
    rw [hbc] at hprinted
    simp only [hi, hbc, ConsumerPc.hand, Option.toList, List.count_singleton_self] at hle hpos hone
    omega
  | _ => rfl

/-- Texts of the producer with increasing numbers up to `n`. -/
def Numbered (n : Nat) (ts : List (Option (List Char))) : Prop :=
  ∃ ks : List Nat, ks.Pairwise (· < ·) ∧ (∀ k ∈ ks, 1 ≤ k ∧ k ≤ n) ∧
    ts = ks.map fun k : Nat => some (text tid k)

theorem Numbered.mono {n m : Nat} {ts : List (Option (List Char))} (h : Numbered n ts)
    (hm : n ≤ m) : Numbered m ts := by
  obtain ⟨ks, hlt, hks, hts⟩ := h
  exact ⟨ks, hlt, fun k hk => ⟨(hks k hk).1, (hks k hk).2.trans hm⟩, hts⟩

theorem Numbered.left {n : Nat} {ts us : List (Option (List Char))} (h : Numbered n (ts ++ us)) :
    Numbered n ts := by
  obtain ⟨ks, hlt, hks, hts⟩ := h
  obtain ⟨js, is, rfl, hjs, -⟩ := List.map_eq_append_iff.mp hts.symm
  exact ⟨js, (List.pairwise_append.mp hlt).1, fun k hk => hks k (List.mem_append_left _ hk),
    hjs.symm⟩

theorem Numbered.snoc {n : Nat} {ts : List (Option (List Char))} (h : Numbered n ts) :
    Numbered (n + 1) (ts ++ [some (text tid (n + 1 : Nat))]) := by
  obtain ⟨ks, hlt, hks, rfl⟩ := h
  refine ⟨ks ++ [n + 1], ?_, fun k hk => ?_, by simp⟩
  · rw [List.pairwise_append]
    refine ⟨hlt, List.pairwise_singleton _ _, fun k hk j hj => ?_⟩
    obtain rfl := List.mem_singleton.mp hj
    exact Nat.lt_succ_of_le (hks k hk).2
  · rcases List.mem_append.mp hk with hk | hk
    · exact ⟨(hks k hk).1, (hks k hk).2.trans (Nat.le_succ n)⟩
    · obtain rfl := List.mem_singleton.mp hk
      exact ⟨Nat.succ_pos n, le_rfl⟩

/-- The number of the last text that was printed. -/
def Test.last (s : Test) : Nat := s.producerVal.toNat - s.producer.printing.toNat

/-- `producerVal` counts the texts. While the tenth is to be printed it is ten, and never more. -/
structure Counted (s : Test) : Prop where
  le : s.producerVal.toNat ≤ 9 + s.producer.printing.toNat
  printing : s.producer.printing.toNat ≤ s.producerVal.toNat

theorem fits_iff {n : Nat} (h : n ≤ 10) : (text tid n).length + 1 ≤ 12 ↔ n ≤ 9 := by
  interval_cases n <;> decide

theorem toInt_of_le {v : BitVec 32} (h : v.toNat ≤ 10) : v.toInt = v.toNat := by
  rw [BitVec.toInt_eq_toNat_cond, if_pos (by omega)]

theorem toNat_add_one {v : BitVec 32} (h : v.toNat ≤ 9) : (v + 1).toNat = v.toNat + 1 := by
  rw [BitVec.toNat_add]
  apply Nat.mod_eq_of_lt
  change v.toNat + 1 < 4294967296
  omega

theorem Step.counted {s t : Test} {l : Label} (h : Step s l t) (hc : Calls s)
    (hn : Counted s) : Counted t := by
  obtain ⟨hle, hone⟩ := hn
  cases h with
  | val hp =>
    rw [hp] at hle
    have hadd := toNat_add_one hle
    constructor
    · show (s.producerVal + 1).toNat ≤ 10
      rw [hadd]
      exact Nat.succ_le_succ hle
    · show 1 ≤ (s.producerVal + 1).toNat
      rw [hadd]
      exact Nat.succ_pos _
  | print hp hb hl =>
    rw [hp] at hle
    have hten : s.producerVal.toNat ≤ 10 := hle
    rw [toInt_of_le hten, fits_iff hten] at hl
    exact ⟨hl, Nat.zero_le _⟩
  | noBlock hp | calloc hp | count hp | noMemory hp | enqueue hp =>
    rw [hp] at hle
    exact ⟨hle, Nat.zero_le _⟩
  | enqueued hq hl hev hret =>
    rw [hc.producer_inside hret] at hle
    exact ⟨hle, Nat.zero_le _⟩
  | awake | took | freeNull | free | dequeue | dequeued | inside => exact ⟨hle, hone⟩

theorem Step.last_eq {s t : Test} {l : Label} (h : Step s l t) (hc : Calls s)
    (hn : Counted s) : t.last = s.last + (printed s l).length := by
  obtain ⟨hle, hone⟩ := hn
  cases h with
  | val hp =>
    rw [hp] at hle
    simp only [Test.last, printed, hp, toNat_add_one hle]
    rfl
  | print hp hb hl =>
    rw [hp] at hone
    simp only [Test.last, printed, hp]
    exact (Nat.sub_add_cancel hone).symm
  | noBlock hp | calloc hp | count hp | noMemory hp | enqueue hp =>
    simp only [Test.last, printed, hp]
    rfl
  | enqueued hq hl hev hret =>
    simp only [Test.last, printed, hc.producer_inside hret]
    rfl
  | awake | took | freeNull | free | dequeue | dequeued | inside => rfl

/-- What `print` adds to the texts on their way has the next number. -/
theorem Step.printed_text {s t : Test} {l : Label} (h : Step s l t) (hn : Counted s) :
    (printed s l).map t.blocks = [] ∧ (printed s l).length = 0 ∨
      (printed s l).map t.blocks = [some (text tid (s.last + 1 : Nat))] ∧
        (printed s l).length = 1 := by
  cases h with
  | print hp hb hl =>
    have hten := hn.le
    have hone := hn.printing
    rw [hp] at hten hone
    have hlast : s.last + 1 = s.producerVal.toNat := by
      rw [Test.last, hp]
      exact Nat.sub_add_cancel hone
    rw [hlast, toInt_of_le hten]
    right
    simp [printed, hp]
  | noBlock hp | calloc hp | count hp | val hp | noMemory hp | enqueue hp =>
    left
    simp [printed, hp]
  | _ => exact Or.inl ⟨rfl, rfl⟩

theorem Step.taken_blocks {s t : Test} {l : Label} (h : Step s l t) :
    (taken s l).map t.blocks = takenText s l := by
  cases h <;> rfl

/-- The invariant of the program: what has been taken, and what is still allocated. -/
structure Inv (texts : List (Option (List Char))) (gone : List Block) (s : Test)
    (as : List Addr) : Prop where
  calls : Calls s
  rep : Rep s.q as
  own : Own s.q as
  held : Held s as gone
  counted : Counted s
  numbered : Numbered s.last (texts ++ (sent s as).map s.blocks)

theorem Inv.step {texts : List (Option (List Char))} {gone : List Block} {s t : Test}
    {as : List Addr} {l : Label} (hI : Inv texts gone s as) (h : QueueTest.step s l = some t) :
    ∃ bs, Inv (texts ++ takenText s l) (gone ++ lost s l) t bs := by
  have hstep := step_cases hI.calls h
  obtain ⟨bs, hm⟩ := hstep.moves hI.calls hI.rep hI.own
  refine ⟨bs, hI.calls.step hstep, hm.rep, hm.own, hI.held.step hstep hm,
    hstep.counted hI.calls hI.counted, ?_⟩
  have hsame : (sent s as).map t.blocks = (sent s as).map s.blocks :=
    List.map_congr_left fun b hb => hstep.blocks_eq hI.held hb
  have hnext : Numbered t.last (texts ++ (sent s as ++ printed s l).map t.blocks) := by
    rw [List.map_append, hsame, ← List.append_assoc, hstep.last_eq hI.calls hI.counted]
    rcases hstep.printed_text hI.counted with ⟨htext, hlen⟩ | ⟨htext, hlen⟩
    · rw [htext, hlen, List.append_nil]
      exact hI.numbered
    · rw [htext, hlen]
      exact hI.numbered.snoc
  rw [← hm.sent, List.map_append, List.map_append, hstep.taken_blocks, ← List.append_assoc,
    ← List.append_assoc] at hnext
  exact hnext.left

theorem inv_start : Inv [] [] start [] where
  calls := calls_start
  rep := rep_createQueue 2
  own := own_createQueue 2
  held b := by
    have hnone : owned start [] = 0 := by
      rw [owned, start, inQueue_createQueue]
      rfl
    rw [hnone]
    rfl
  counted := ⟨Nat.zero_le _, Nat.zero_le _⟩
  numbered := ⟨[], .nil, fun _ hk => absurd hk List.not_mem_nil, rfl⟩

theorem Inv.of_exec {ls : List Label} {s : Test} (h : exec QueueTest.step start ls = some s) :
    ∃ as, Inv (outputs QueueTest.step takenText start ls) (outputs QueueTest.step lost start ls) s
      as := by
  refine exec_prefix_induction
    (P := fun ls s => ∃ as, Inv (outputs QueueTest.step takenText start ls)
      (outputs QueueTest.step lost start ls) s as) ⟨[], inv_start⟩ ?_ h
  intro ls s l t hrun ⟨as, hI⟩ hs
  obtain ⟨bs, hnext⟩ := hI.step hs
  have hone {ε : Type} (ev : Test → Label → List ε) :
      outputs QueueTest.step ev start (ls ++ [l]) =
        outputs QueueTest.step ev start ls ++ ev s l := by
    rw [outputs_append hrun, outputs_cons hs, outputs, List.append_nil]
  exact ⟨bs, by rwa [hone, hone]⟩

theorem Inv.print_iff {texts : List (Option (List Char))} {gone : List Block} {s : Test}
    {as : List Addr} (hI : Inv texts gone s as) {b : Block} (hp : s.producer = .print (some b)) :
    (QueueTest.step s .producer).isSome = true ↔ s.producerVal.toNat ≤ 9 := by
  have hten := hI.counted.le
  rw [hp] at hten
  have hlive : (s.blocks b).isSome = true := by
    have hle := hI.held.count_sent_le b 0
    by_contra hdead
    rw [Bool.not_eq_true] at hdead
    simp [hp, hdead, ProducerPc.hand, ProducerPc.printed] at hle
  simp only [QueueTest.step, hp, hlive, true_and, toInt_of_le hten]
  rw [← fits_iff hten]
  split <;> simp_all

theorem Inv.free_isSome {texts : List (Option (List Char))} {gone : List Block} {s : Test}
    {as : List Addr} (hI : Inv texts gone s as) {i : Fin 2} {cs : Option Block}
    (hi : s.consumer i = .free cs) : (QueueTest.step s (.consumer i)).isSome = true := by
  cases cs with
  | none => simp [QueueTest.step, hi]
  | some b =>
    have hle := hI.held.count_sent_le b i
    have hprinted := s.producer.count_printed_le b
    have hlive : (s.blocks b).isSome = true := by
      by_contra hdead
      rw [Bool.not_eq_true] at hdead
      simp only [hi, hdead, ConsumerPc.hand, Option.toList, List.count_singleton_self,
        Bool.toNat_false] at hle
      omega
    simp [QueueTest.step, hi, hlive]

/-- In every run of the program each block that is allocated is in exactly one place: with the
producer, in the queue, with a consumer, or lost by an `enqueue` without memory; so what a consumer
frees is allocated. The texts taken off the queue, and then those on their way, are `producer1-k`
for increasing `k` from 1 to 9. Printing the tenth is undefined, since it overruns its block: no
run goes on after that. -/
theorem test_texts_in_order {ls : List Label} {s : Test}
    (h : exec QueueTest.step start ls = some s) :
    ∃ as, Rep s.q as ∧ Own s.q as ∧
      (∀ b, (owned s as + (outputs QueueTest.step lost start ls : Multiset Block)).count b =
        (s.blocks b).isSome.toNat) ∧
      (∃ ks : List Nat, ks.Pairwise (· < ·) ∧ (∀ k ∈ ks, 1 ≤ k ∧ k ≤ 9) ∧
        outputs QueueTest.step takenText start ls ++ (sent s as).map s.blocks =
          ks.map fun k : Nat => some (text tid k)) ∧
      (∀ i cs, s.consumer i = .free cs → (QueueTest.step s (.consumer i)).isSome = true) ∧
      s.producerVal.toNat ≤ 10 ∧
      ∀ b, s.producer = .print (some b) →
        ((QueueTest.step s .producer).isSome = true ↔ s.producerVal.toNat ≤ 9) := by
  obtain ⟨as, hI⟩ := Inv.of_exec h
  have hlast : s.last ≤ 9 := Nat.sub_le_iff_le_add.mpr hI.counted.le
  have hten : s.producerVal.toNat ≤ 10 :=
    hI.counted.le.trans (Nat.add_le_add_left s.producer.printing.toNat_le 9)
  exact ⟨as, hI.rep, hI.own, hI.held, hI.numbered.mono hlast, fun _ _ => hI.free_isSome, hten,
    fun _ => hI.print_iff⟩

/-- The first text goes through the queue to the first consumer. -/
def firstText : List Label :=
  [.calloc (some 7), .producer, .producer, .producer, .enqueue (some 0),
    .queue (.enter .producer), .queue (.test .producer), .queue (.stopTest .producer),
    .queue (.body .producer), .queue (.wake .producer none), .consumer 0, .dequeue 0,
    .queue (.enter (.consumer 0)), .queue (.test (.consumer 0)), .queue (.stopTest (.consumer 0)),
    .queue (.body (.consumer 0)), .queue (.wake (.consumer 0) none),
    .queue (.release (.consumer 0)), .consumer 0]

theorem test_texts_in_order_first : ∃ s, exec QueueTest.step start firstText = some s ∧
    s.consumer 0 = .free (some 7) ∧ (QueueTest.step s (.consumer 0)).isSome = true := by
  obtain ⟨s, hs, hfree⟩ := exec_exists QueueTest.step start firstText
    (fun s => s.consumer 0 = .free (some 7)) (by decide)
  have hfree := of_decide_eq_true hfree
  obtain ⟨as, -, -, -, -, hsome, -⟩ := test_texts_in_order hs
  exact ⟨s, hs, hfree, hsome 0 _ hfree⟩

end Cexp.QueueTest
