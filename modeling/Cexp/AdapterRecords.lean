import Cexp.AdapterList

/-! What `list_devs` leaves in its buffer: every byte of the block is written once, following
`Next` gives back the adapters, and the budget of the second pass is spent with the last one. -/

namespace Cexp.AdapterList

open ByteOrder ByteRegions

theorem perm_of_interleaved {α : Type*} [DecidableEq α] (a n p d q f r x : List α) :
    (a ++ n ++ p ++ d ++ q ++ f ++ r ++ x).Perm (a ++ x ++ p ++ q ++ r ++ n ++ d ++ f) := by
  rw [List.perm_iff_count]
  intro v
  simp only [List.count_append]
  omega

/-- A record with its strings covers its bytes, each of them once. -/
theorem addresses_record (p next : Nat) (a : Adapter) :
    (addresses (recordWrites p a ++ store (p + 8) (leBytes 8 next))).Perm
      (List.range' p (packedSize a)) := by
  have hcover : List.range' p (packedSize a) =
      List.range' p 8 ++ List.range' (p + 8) 8 ++ List.range' (p + 16) 8 ++
        List.range' (p + 24) 8 ++ List.range' (p + 32) 8 ++
        List.range' (p + len) (narrowBytes a.adapterName).length ++
        List.range' (descriptionPos p a) (wideBytes a.description).length ++
        List.range' (friendlyPos p a) (wideBytes a.friendlyName).length := by
    simp only [descriptionPos, friendlyPos, packedSize, len]
    simp [List.range'_append_1, Nat.add_assoc]
  rw [hcover]
  simpa [recordWrites] using perm_of_interleaved (List.range' p 8) _ (List.range' (p + 16) 8) _
    (List.range' (p + 24) 8) _ (List.range' (p + 32) 8) (List.range' (p + 8) 8)

/-- Together they cover the whole block, each byte once. -/
theorem addresses_packed (p : Nat) (as : List Adapter) :
    (addresses (packed p as)).Perm (List.range' p (totalSize as)) := by
  induction as generalizing p with
  | nil => exact List.Perm.nil
  | cons a as ih =>
    rw [packed, addresses_append, totalSize_cons, ← List.range'_append_1]
    exact (addresses_record p _ a).append (ih (p + packedSize a))

theorem addresses_packed_nodup (p : Nat) (as : List Adapter) :
    (addresses (packed p as)).Nodup :=
  (addresses_packed p as).nodup_iff.mpr List.nodup_range'

/-- `Intf_Brief`, as read from memory. -/
structure IntfBrief where
  ifIdx : Nat
  next : Nat
  adapterName : Nat
  description : Nat
  friendlyName : Nat
  deriving DecidableEq, Repr

def loadRecord (m : Nat → Byte) (p : Nat) : IntfBrief where
  ifIdx := loadWord m p
  next := loadWord m (p + 8)
  adapterName := loadWord m (p + 16)
  description := loadWord m (p + 24)
  friendlyName := loadWord m (p + 32)

/-- The record has the adapter's index, and its pointers the adapter's strings. -/
structure Describes (m : Nat → Byte) (r : IntfBrief) (a : Adapter) : Prop where
  ifIdx : r.ifIdx = a.ifIndex.toNat
  adapterName : load m r.adapterName (narrowBytes a.adapterName).length = narrowBytes a.adapterName
  description : load m r.description (wideBytes a.description).length = wideBytes a.description
  friendlyName : load m r.friendlyName (wideBytes a.friendlyName).length =
    wideBytes a.friendlyName

/-- Following `Next` from `p` gives a record for each of the adapters, and then NULL. -/
def Lists (m : Nat → Byte) : Nat → List Adapter → Prop
  | p, [] => p = 0
  | p, a :: as => p ≠ 0 ∧ Describes m (loadRecord m p) a ∧ Lists m (loadRecord m p).next as

/-- Where these records are, and the strings they point to. -/
def regions (m : Nat → Byte) : Nat → List Adapter → List (Nat × Nat)
  | _, [] => []
  | p, a :: as =>
    (p, len) :: ((loadRecord m p).adapterName, (narrowBytes a.adapterName).length) ::
      ((loadRecord m p).description, (wideBytes a.description).length) ::
      ((loadRecord m p).friendlyName, (wideBytes a.friendlyName).length) ::
      regions m (loadRecord m p).next as

section

variable {m : Nat → Byte} {log : List (Nat × Byte)} {p next : Nat} {a : Adapter}

theorem loadRecord_eq (hn : (addresses log).Nodup)
    (hsub : recordWrites p a ++ store (p + 8) (leBytes 8 next) ⊆ log)
    (hlt : p + packedSize a ≤ 2 ^ 64) (hnext : next < 2 ^ 64) :
    loadRecord (memory m log) p =
      ⟨a.ifIndex.toNat, next, p + len, descriptionPos p a, friendlyPos p a⟩ := by
  simp only [recordWrites, List.append_subset] at hsub
  obtain ⟨⟨⟨⟨⟨⟨⟨hidx, -⟩, hname⟩, -⟩, hdesc⟩, -⟩, hfriendly⟩, hlink⟩ := hsub
  have hpos : friendlyPos p a < p + packedSize a := by
    simp only [friendlyPos, descriptionPos, packedSize, length_wideBytes]
    omega
  have hdescPos : descriptionPos p a ≤ friendlyPos p a := Nat.le_add_right _ _
  have hnamePos : p + len ≤ descriptionPos p a := Nat.le_add_right _ _
  have hif := a.ifIndex.isLt
  rw [loadRecord, loadWord_store hn hidx (by omega), loadWord_store hn hlink hnext,
    loadWord_store hn hname (by omega), loadWord_store hn hdesc (by omega),
    loadWord_store hn hfriendly (by omega)]

theorem describes_record (hn : (addresses log).Nodup) (hsub : recordWrites p a ⊆ log) :
    Describes (memory m log)
      ⟨a.ifIndex.toNat, next, p + len, descriptionPos p a, friendlyPos p a⟩ a := by
  simp only [recordWrites, List.append_subset] at hsub
  obtain ⟨⟨⟨⟨⟨⟨-, hname⟩, -⟩, hdesc⟩, -⟩, hfriendly⟩, -⟩ := hsub
  exact ⟨rfl, load_store hn hname, load_store hn hdesc, load_store hn hfriendly⟩

end

theorem next_lt {p : Nat} {a : Adapter} {as : List Adapter}
    (h : p + totalSize (a :: as) ≤ 2 ^ 64) :
    (if as.isEmpty then 0 else p + packedSize a) < 2 ^ 64 := by
  split
  case isTrue => decide
  case isFalse has =>
    have hpos : 0 < totalSize as := totalSize_pos (by simpa using has)
    rw [totalSize_cons] at h
    omega

/-- A packed block, with whatever else is written elsewhere, reads back as the adapters. -/
theorem lists_packed {m : Nat → Byte} {log : List (Nat × Byte)} {p : Nat} {as : List Adapter}
    (hn : (addresses log).Nodup) (hsub : packed p as ⊆ log) (hp : as = [] ↔ p = 0)
    (hlt : p + totalSize as ≤ 2 ^ 64) : Lists (memory m log) p as := by
  induction as generalizing p with
  | nil => exact hp.mp rfl
  | cons a as ih =>
    have hp0 : p ≠ 0 := fun h => by simpa using hp.mpr h
    rw [packed, List.append_subset] at hsub
    obtain ⟨hrec, hrest⟩ := hsub
    have hsize := len_lt_packedSize a
    have hnext := next_lt hlt
    rw [totalSize_cons] at hlt
    have hload := loadRecord_eq (m := m) hn hrec (by omega) hnext
    rw [Lists, hload]
    refine ⟨hp0, describes_record hn (List.append_subset.mp hrec).1, ?_⟩
    cases as with
    | nil => rfl
    | cons b bs => exact ih hrest (by simp; omega) (by simpa [Nat.add_assoc] using hlt)

/-- Record, name, description and friendly name of each adapter follow one another. -/
theorem backToBack_packed {m : Nat → Byte} {log : List (Nat × Byte)} {p : Nat}
    {as : List Adapter} (hn : (addresses log).Nodup) (hsub : packed p as ⊆ log)
    (hlt : p + totalSize as ≤ 2 ^ 64) : BackToBack p (regions (memory m log) p as) := by
  induction as generalizing p with
  | nil => trivial
  | cons a as ih =>
    rw [packed, List.append_subset] at hsub
    obtain ⟨hrec, hrest⟩ := hsub
    have hnext := next_lt hlt
    rw [totalSize_cons] at hlt
    have hload := loadRecord_eq (m := m) hn hrec (by omega) hnext
    rw [regions, hload]
    refine ⟨rfl, rfl, rfl, rfl, ?_⟩
    cases as with
    | nil => trivial
    | cons b bs =>
      have hend : p + len + (narrowBytes a.adapterName).length + (wideBytes a.description).length +
          (wideBytes a.friendlyName).length = p + packedSize a := by
        simp only [packedSize]
        omega
      simp only [hend]
      exact ih hrest (by omega)

theorem Block.end_le_totalSize {adapters : List Adapter}
    (block : Block (callocSize (firstPass adapters)))
    (hfit : totalSize (listed adapters) < 2 ^ 31) :
    block.base + totalSize (listed adapters) ≤ 2 ^ 64 := by
  have hend := block.end_le
  have hsize := callocSize_firstPass hfit
  omega

/-- The list that `list_devs` returns reads back as the adapters. -/
theorem lists_listDevs {adapters : List Adapter} (block : Block (callocSize (firstPass adapters)))
    (m : Nat → Byte) (hlisted : listed adapters ≠ [])
    (hfit : totalSize (listed adapters) < 2 ^ 31) :
    Lists (memory m (packed block.base (listed adapters))) block.base (listed adapters) := by
  have hpos := block.base_pos
  exact lists_packed (addresses_packed_nodup _ _) (List.Subset.refl _) (by simp [hlisted]; omega)
    (block.end_le_totalSize hfit)

/-- `list_devs` gives one record for each adapter it selects, in their order, with its index and
its three strings; no byte is written twice, and no two of the records and strings overlap. -/
theorem listDevs_copies (adapters : List Adapter) (block : Block (callocSize (firstPass adapters)))
    (m : Nat → Byte) (hne : ∃ a ∈ adapters, passes a = true)
    (hfit : totalSize (listed adapters) < 2 ^ 31) :
    ∃ r, listDevs block.base adapters = some r ∧
      Lists (memory m r.log) r.upDevs (listed adapters) ∧
      (addresses r.log).Nodup ∧
      (regions (memory m r.log) r.upDevs (listed adapters)).Pairwise Apart := by
  have hlisted : listed adapters ≠ [] := by
    obtain ⟨a, ha, hp⟩ := hne
    exact List.ne_nil_of_mem (List.mem_filter.mpr ⟨ha, hp⟩)
  obtain ⟨q, hq⟩ := listDevs_eq hlisted hfit block.base
  have hn := addresses_packed_nodup block.base (listed adapters)
  have hapart := backToBack_packed (m := m) hn (List.Subset.refl _) (block.end_le_totalSize hfit)
  exact ⟨_, hq, lists_listDevs block m hlisted hfit, hn, hapart.pairwise⟩

def loopback : Adapter where
  ifIndex := 1
  ifType := IF_TYPE_SOFTWARE_LOOPBACK
  operStatus := .up
  ipv4Enabled := true
  adapterName := ⟨[108, 111], by simp⟩
  description := ⟨[], by simp⟩
  friendlyName := ⟨[0x4e00, 76], by simp⟩

/-- A block at an address at which `calloc` may place one. -/
def blockAt (size : Nat) (h : size ≤ 2 ^ 31) : Block size where
  base := 0x10000
  base_pos := by decide
  base_lt := by decide
  end_le := by omega

theorem listDevs_copies_twice :
    ∃ r, listDevs 0x10000 [loopback, { loopback with operStatus := .down }, loopback] = some r ∧
      Lists (memory (fun _ => 0) r.log) r.upDevs [loopback, loopback] ∧
      (addresses r.log).Nodup ∧
      (regions (memory (fun _ => 0) r.log) r.upDevs [loopback, loopback]).Pairwise Apart :=
  listDevs_copies [loopback, { loopback with operStatus := .down }, loopback]
    (blockAt _ (by decide)) (fun _ => 0) ⟨loopback, by simp, by decide⟩ (by decide)

/-- The second pass uses up what the first has added up, every `my_copy` comes to the
terminator, the budget is never negative and 0 only after the last string of the last adapter,
and every byte is written inside the block. -/
structure BudgetExact (adapters : List Adapter) (block : Block (callocSize (firstPass adapters)))
    (r : Pass) : Prop where
  spent : r.bufsize = 0
  whole : ∀ c ∈ r.copies, c.copied = c.src
  calls : r.copies.length = 3 * (listed adapters).length
  nonneg : ∀ b ∈ r.budgets, 0 ≤ b
  rounds : r.budgets.length = 4 * (listed adapters).length
  zero : ∀ i (h : i < r.budgets.length), r.budgets[i] = 0 ↔ i + 1 = r.budgets.length
  inside : ∀ w ∈ r.log, block.base ≤ w.1 ∧ w.1 < block.base + callocSize (firstPass adapters)

theorem length_spending (b : Int) (as : List Adapter) :
    (spending b as).length = 4 * as.length := by
  induction as generalizing b with
  | nil => rfl
  | cons a as ih =>
    simp [spending, recordBudgets, ih]
    omega

/-- The budget is positive up to the last subtraction, which leaves 0. -/
theorem spending_totalSize {as : List Adapter} (h : as ≠ []) :
    ∃ bs, spending (totalSize as) as = bs ++ [0] ∧ ∀ b ∈ bs, 0 < b := by
  induction as with
  | nil => exact absurd rfl h
  | cons a as ih =>
    have hrest : (totalSize (a :: as) : Int) - packedSize a = totalSize as := by
      rw [totalSize_cons]
      omega
    have hwide : ((wideBytes a.friendlyName).length : Int) ≠ 0 := by simp; omega
    have hpos (b : Int) (hb : b ∈ (recordBudgets (totalSize (a :: as)) a).take 3) : 0 < b := by
      simp only [recordBudgets, List.take_succ_cons, List.take_zero, List.mem_cons,
        List.not_mem_nil, or_false, totalSize_cons, packedSize] at hb
      omega
    have hsplit : recordBudgets (totalSize (a :: as)) a =
        (recordBudgets (totalSize (a :: as)) a).take 3 ++ [(totalSize as : Int)] := by
      rw [← hrest]
      rfl
    rw [spending, hrest, hsplit]
    by_cases has : as = []
    · subst has
      exact ⟨_, by simp [spending, totalSize], hpos⟩
    · obtain ⟨bs, hbs, hall⟩ := ih has
      refine ⟨_, by rw [hbs, ← List.append_assoc], fun b hb => ?_⟩
      have htotal := totalSize_pos has
      simp only [List.mem_append, List.mem_singleton] at hb
      rcases hb with (hb | rfl) | hb
      · exact hpos b hb
      · omega
      · exact hall b hb

theorem zero_iff_last {bs : List Int} (h : ∀ b ∈ bs, 0 < b) (i : Nat)
    (hi : i < (bs ++ [0]).length) : (bs ++ [0])[i] = 0 ↔ i + 1 = (bs ++ [0]).length := by
  rw [List.length_append, List.length_singleton] at hi ⊢
  by_cases hlt : i < bs.length
  · have hpos := h bs[i] (List.getElem_mem hlt)
    rw [List.getElem_append_left hlt]
    omega
  · rw [List.getElem_append_right (by omega)]
    simp
    omega

theorem budgetExact_packed {adapters : List Adapter}
    (block : Block (callocSize (firstPass adapters))) (hne : listed adapters ≠ [])
    (hfit : totalSize (listed adapters) < 2 ^ 31) (q : Nat) :
    BudgetExact adapters block ⟨block.base, q, 0, packed block.base (listed adapters),
      spending (totalSize (listed adapters)) (listed adapters),
      (listed adapters).flatMap recordCopies⟩ := by
  obtain ⟨bs, hbs, hpos⟩ := spending_totalSize hne
  refine ⟨rfl, fun c hc => ?_, ?_, fun b hb => ?_, length_spending _ _, fun i hi => ?_,
    fun w hw => ?_⟩
  · obtain ⟨a, -, ha⟩ := List.mem_flatMap.mp hc
    simp only [recordCopies, List.mem_cons, List.not_mem_nil, or_false] at ha
    rcases ha with rfl | rfl | rfl <;> rfl
  · simp [recordCopies, List.length_flatMap, Nat.mul_comm]
  · rw [hbs, List.mem_append, List.mem_singleton] at hb
    rcases hb with hb | rfl
    · exact (hpos b hb).le
    · exact le_rfl
  · simp only [hbs] at hi ⊢
    exact zero_iff_last hpos i hi
  · have hmem := (addresses_packed block.base (listed adapters)).mem_iff.mp
      (List.mem_map_of_mem hw)
    have hsize := callocSize_firstPass hfit
    rw [List.mem_range'_1] at hmem
    omega

/-- The budget is exact, and every write inside the block, exactly if there is an adapter to
list: otherwise 0 is assigned to `Next` in a block of no bytes. -/
theorem budgetExact_iff (adapters : List Adapter)
    (block : Block (callocSize (firstPass adapters)))
    (hfit : totalSize (listed adapters) < 2 ^ 31) :
    (∃ r, listDevs block.base adapters = some r ∧ BudgetExact adapters block r) ↔
      ∃ a ∈ adapters, passes a = true := by
  constructor
  · rintro ⟨r, hr, hb⟩
    by_contra hno
    have hnone : listed adapters = [] := by
      refine List.filter_eq_nil_iff.mpr fun a ha hp => hno ⟨a, ha, hp⟩
    rw [listDevs_none hnone] at hr
    obtain rfl := Option.some.inj hr
    have hin := hb.inside (block.base + 8, 0) (by simp [leBytes, store])
    have hsize := callocSize_firstPass hfit
    rw [hnone] at hsize
    simp only [totalSize, List.map_nil, List.sum_nil] at hsize
    omega
  · rintro ⟨a, ha, hp⟩
    have hne : listed adapters ≠ [] := List.ne_nil_of_mem (List.mem_filter.mpr ⟨ha, hp⟩)
    obtain ⟨q, hq⟩ := listDevs_eq hne hfit block.base
    exact ⟨_, hq, budgetExact_packed block hne hfit q⟩

theorem budgetExact_iff_twice :
    ∃ r, listDevs 0x10000 [loopback, loopback] = some r ∧
      BudgetExact [loopback, loopback] (blockAt _ (by decide)) r :=
  (budgetExact_iff [loopback, loopback] (blockAt _ (by decide)) (by decide)).mpr
    ⟨loopback, by simp, by decide⟩

/-- Without any adapter the block has no bytes, and `curDev->Next = 0` writes eight behind it. -/
theorem write_outside_empty_block : ¬ ∀ (adapters : List Adapter)
    (block : Block (callocSize (firstPass adapters))), totalSize (listed adapters) < 2 ^ 31 →
      ∃ r, listDevs block.base adapters = some r ∧ BudgetExact adapters block r := by
  intro h
  obtain ⟨r, hr, hb⟩ := h [] (blockAt _ (by decide)) (by decide)
  rw [listDevs_none rfl] at hr
  obtain rfl := Option.some.inj hr
  have hin := (hb.inside (0x10000 + 8, 0) (by decide)).2
  exact absurd hin (by decide)

end Cexp.AdapterList
