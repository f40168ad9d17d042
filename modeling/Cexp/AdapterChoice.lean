import Cexp.AdapterRecords

/-! Which adapters `list_devs` gives a record, by their type, and `choose_dev`, which prints the
list, reads a number and copies the name of one of them. -/

namespace Cexp.AdapterList

open ByteOrder ByteRegions

def intendedType (ifType : BitVec 32) : Bool :=
  ifType = IF_TYPE_IEEE80211 || ifType = IF_TYPE_ETHERNET_CSMACD ||
    ifType = IF_TYPE_SOFTWARE_LOOPBACK

def intended (a : Adapter) : Bool :=
  intendedType a.ifType && a.operStatus = .up && a.ipv4Enabled

/-- The adapters given a record are the intended ones: theirs are the strings copied, and
following `Next` leads from one to the next. -/
structure ListsIntended (m : Nat → Byte) (adapters : List Adapter) (r : Pass) : Prop where
  copies : r.copies = (adapters.filter intended).flatMap recordCopies
  chain : adapters.filter intended ≠ [] →
    Lists (memory m r.log) r.upDevs (adapters.filter intended)

theorem passes_of_intended {a : Adapter} (h : intended a = true) : passes a = true := by
  simp only [intended, Bool.and_eq_true] at h
  obtain ⟨⟨htype, hup⟩, hipv4⟩ := h
  have hmask : a.ifType &&& typeMask ≠ 0 := by
    simp only [intendedType, Bool.or_eq_true, decide_eq_true_eq] at htype
    rcases htype with (ht | ht) | ht <;> rw [ht] <;> decide
  simp only [passes, hup, hipv4, Bool.and_true, decide_eq_true_eq]
  exact hmask

theorem length_copies (as : List Adapter) : (as.flatMap recordCopies).length = 3 * as.length := by
  simp [recordCopies, List.length_flatMap, Nat.mul_comm]

/-- The intended adapters are among those listed; as many only if they are the same. -/
theorem listed_eq_of_copies {adapters : List Adapter}
    (h : (listed adapters).flatMap recordCopies =
      (adapters.filter intended).flatMap recordCopies) :
    listed adapters = adapters.filter intended := by
  have hlen := congrArg List.length h
  rw [length_copies, length_copies] at hlen
  have hsub : (adapters.filter intended).Sublist (listed adapters) :=
    List.monotone_filter_right adapters fun _ => passes_of_intended
  exact (hsub.eq_of_length (by omega)).symm

/-- No adapter that is up and has IPv4 is of another type that shares a bit with the mask. -/
def typesTold (adapters : List Adapter) : Prop :=
  ∀ a ∈ adapters, a.operStatus = .up → a.ipv4Enabled = true → a.ifType &&& typeMask ≠ 0 →
    intendedType a.ifType = true

instance (adapters : List Adapter) : Decidable (typesTold adapters) :=
  inferInstanceAs (Decidable (∀ a ∈ adapters, a.operStatus = .up → a.ipv4Enabled = true →
    a.ifType &&& typeMask ≠ 0 → intendedType a.ifType = true))

theorem listed_eq_iff {adapters : List Adapter} :
    listed adapters = adapters.filter intended ↔ typesTold adapters := by
  constructor
  · intro h a ha hup hipv4 hmask
    have hmem : a ∈ listed adapters :=
      List.mem_filter.mpr ⟨ha, by simpa [passes, hup, hipv4] using hmask⟩
    rw [h] at hmem
    have hint := (List.mem_filter.mp hmem).2
    simp only [intended, Bool.and_eq_true] at hint
    exact hint.1.1
  · intro h
    refine List.filter_congr fun a ha => Bool.eq_iff_iff.mpr ⟨fun hp => ?_, passes_of_intended⟩
    simp only [passes, Bool.and_eq_true, decide_eq_true_eq] at hp
    obtain ⟨⟨hmask, hup⟩, hipv4⟩ := hp
    simp [intended, h a ha hup hipv4 hmask, hup, hipv4]

/-- Exactly the intended kinds of interface are listed exactly when no other interface that is
up with IPv4 has a type with a bit in common with theirs. -/
theorem listsIntended_iff (adapters : List Adapter)
    (block : Block (callocSize (firstPass adapters))) (m : Nat → Byte)
    (hfit : totalSize (listed adapters) < 2 ^ 31) :
    (∃ r, listDevs block.base adapters = some r ∧ ListsIntended m adapters r) ↔
      typesTold adapters := by
  rw [← listed_eq_iff]
  constructor
  · rintro ⟨r, hr, hi⟩
    refine listed_eq_of_copies ?_
    by_cases hl : listed adapters = []
    · rw [listDevs_none hl] at hr
      obtain rfl := Option.some.inj hr
      rw [hl]
      exact hi.copies
    · obtain ⟨q, hq⟩ := listDevs_eq hl hfit block.base
      obtain rfl := Option.some.inj (hq.symm.trans hr)
      exact hi.copies
  · intro h
    by_cases hl : listed adapters = []
    · refine ⟨_, listDevs_none hl block.base, ?_, fun hne => absurd (h.symm.trans hl) hne⟩
      rw [← h, hl]
      rfl
    · obtain ⟨q, hq⟩ := listDevs_eq hl hfit block.base
      refine ⟨_, hq, ?_, fun _ => ?_⟩
      · rw [← h]
      · rw [← h]
        exact lists_listDevs block m hl hfit

theorem listsIntended_iff_loopback :
    ∃ r, listDevs 0x10000 [loopback, { loopback with ifType := 32 }] = some r ∧
      ListsIntended (fun _ => 0) [loopback, { loopback with ifType := 32 }] r :=
  (listsIntended_iff [loopback, { loopback with ifType := 32 }] (blockAt _ (by decide))
    (fun _ => 0) (by decide)).mpr (by decide)

def ppp : Adapter := { loopback with ifType := 23 }

/-- 23 has bits in common with 71, 6 and 24: an adapter of this type is listed. -/
theorem ppp_listed : ¬ ∀ (adapters : List Adapter)
    (block : Block (callocSize (firstPass adapters))) (m : Nat → Byte),
    totalSize (listed adapters) < 2 ^ 31 →
      ∃ r, listDevs block.base adapters = some r ∧ ListsIntended m adapters r := by
  intro h
  have hlisted : listed [ppp] ≠ [] := by decide
  obtain ⟨r, hr, hi⟩ := h [ppp] (blockAt _ (by decide)) (fun _ => 0) (by decide)
  obtain ⟨q, hq⟩ := listDevs_eq hlisted (by decide) 0x10000
  obtain rfl := Option.some.inj (hq.symm.trans hr)
  exact absurd (listed_eq_of_copies hi.copies) hlisted

/-- The string at `p`, without its terminator; `none` where the fuel does not last. -/
def stringAt (m : Nat → Byte) : Nat → Nat → Option (List Byte)
  | 0, _ => none
  | fuel + 1, p => if m p = 0 then some [] else (stringAt m fuel (p + 1)).map (m p :: ·)

def wideStringAt (m : Nat → Byte) : Nat → Nat → Option (List (BitVec 16))
  | 0, _ => none
  | fuel + 1, p =>
    if le16 (m p) (m (p + 1)) = 0 then some []
    else (wideStringAt m fuel (p + 2)).map (le16 (m p) (m (p + 1)) :: ·)

/-- What `"%d %s %S %S\n"` prints for a record. -/
structure Line where
  number : Nat
  adapterName : List Byte
  description : List (BitVec 16)
  friendlyName : List (BitVec 16)
  deriving DecidableEq, Repr

/-- The first loop of `choose_dev`, with `i` records behind it. -/
def printDevs (m : Nat → Byte) : Nat → Nat → Nat → Option (List Line)
  | 0, _, _ => none
  | fuel + 1, cur, i =>
    if cur = 0 then some []
    else do
      let r := loadRecord m cur
      let name ← stringAt m fuel r.adapterName
      let description ← wideStringAt m fuel r.description
      let friendlyName ← wideStringAt m fuel r.friendlyName
      let lines ← printDevs m fuel r.next (i + 1)
      some (⟨i + 1, name, description, friendlyName⟩ :: lines)

/-- `cur = cur->Next`, `n` times. -/
def nthNext (m : Nat → Byte) : Nat → Nat → Nat
  | 0, cur => cur
  | n + 1, cur => nthNext m n (loadRecord m cur).next

/-- What `choose_dev` has printed, and the copy it hands out. -/
structure Choice where
  printed : List Line
  name : List Byte
  deriving DecidableEq, Repr

/-- `choose_dev`, once `list_devs` has returned `devs`. The second loop goes on for `i - 1`
records; `targetNum`, which is read from the user, is not looked at. -/
def chooseDev (m : Nat → Byte) (fuel devs : Nat) (_targetNum : Int) : Option Choice := do
  let printed ← printDevs m fuel devs 0
  let i := printed.length
  let cur := nthNext m (i - 1) devs
  let name ← stringAt m fuel (loadRecord m cur).adapterName
  some ⟨printed, load m (loadRecord m cur).adapterName (name.length + 1)⟩

/-- The copy is the name that was printed with the number. -/
def Honours (c : Choice) (targetNum : Nat) : Prop :=
  ∃ line ∈ c.printed, line.number = targetNum ∧ c.name = line.adapterName ++ [0]

section

variable {m : Nat → Byte}

theorem stringAt_eq {cs : List Byte} {p fuel : Nat} (h : load m p (cs.length + 1) = cs ++ [0])
    (hc : ∀ c ∈ cs, c ≠ 0) (hfuel : cs.length < fuel) : stringAt m fuel p = some cs := by
  induction cs generalizing p fuel with
  | nil =>
    obtain ⟨fuel, rfl⟩ := Nat.exists_eq_add_one.mpr (Nat.zero_lt_of_lt hfuel)
    have hz : m p = 0 := by simpa [load] using h
    rw [stringAt, if_pos hz]
  | cons c cs ih =>
    obtain ⟨fuel, rfl⟩ := Nat.exists_eq_add_one.mpr (Nat.zero_lt_of_lt hfuel)
    rw [List.length_cons, load, List.range'_succ, List.map_cons, List.cons_append] at h
    obtain ⟨hhead, htail⟩ := List.cons.inj h
    have hrest : stringAt m fuel (p + 1) = some cs :=
      ih htail (fun d hd => hc d (List.mem_cons_of_mem c hd)) (by simp at hfuel; omega)
    rw [stringAt, hhead, if_neg (hc c List.mem_cons_self), hrest]
    rfl

theorem wideStringAt_eq {cs : List (BitVec 16)} {p fuel : Nat}
    (h : load m p (2 * cs.length + 2) = (cs ++ [0]).flatMap bytes16)
    (hc : ∀ c ∈ cs, c ≠ 0) (hfuel : cs.length < fuel) : wideStringAt m fuel p = some cs := by
  induction cs generalizing p fuel with
  | nil =>
    obtain ⟨fuel, rfl⟩ := Nat.exists_eq_add_one.mpr (Nat.zero_lt_of_lt hfuel)
    obtain ⟨h0, h1⟩ : m p = 0 ∧ m (p + 1) = 0 := by
      simpa [load, List.range'_succ, bytes16] using h
    rw [wideStringAt, h0, h1, if_pos (by decide)]
  | cons c cs ih =>
    obtain ⟨fuel, rfl⟩ := Nat.exists_eq_add_one.mpr (Nat.zero_lt_of_lt hfuel)
    have hlen : 2 * (c :: cs).length + 2 = 2 * cs.length + 2 + 1 + 1 := by
      rw [List.length_cons]
      omega
    rw [hlen, load, List.range'_succ, List.range'_succ, List.map_cons, List.map_cons,
      List.cons_append, List.flatMap_cons] at h
    simp only [bytes16, List.cons_append, List.nil_append] at h
    obtain ⟨h0, h⟩ := List.cons.inj h
    obtain ⟨h1, htail⟩ := List.cons.inj h
    have hrest : wideStringAt m fuel (p + 2) = some cs :=
      ih htail (fun d hd => hc d (List.mem_cons_of_mem c hd)) (by simp at hfuel; omega)
    rw [wideStringAt, h0, h1, le16_bytes, if_neg (hc c List.mem_cons_self), hrest]
    rfl

theorem Describes.stringAt {r : IntfBrief} {a : Adapter} (h : Describes m r a) {n : Nat}
    (hfuel : packedSize a ≤ n) :
    AdapterList.stringAt m n r.adapterName = some a.adapterName.chars := by
  have hname := h.adapterName
  rw [packedSize_eq] at hfuel
  rw [length_narrowBytes] at hname
  exact stringAt_eq hname a.adapterName.nonzero (by omega)

theorem Describes.descriptionAt {r : IntfBrief} {a : Adapter} (h : Describes m r a) {n : Nat}
    (hfuel : packedSize a ≤ n) :
    wideStringAt m n r.description = some a.description.chars := by
  have hdesc := h.description
  rw [packedSize_eq] at hfuel
  rw [length_wideBytes] at hdesc
  exact wideStringAt_eq hdesc a.description.nonzero (by omega)

theorem Describes.friendlyNameAt {r : IntfBrief} {a : Adapter} (h : Describes m r a) {n : Nat}
    (hfuel : packedSize a ≤ n) :
    wideStringAt m n r.friendlyName = some a.friendlyName.chars := by
  have hfriendly := h.friendlyName
  rw [packedSize_eq] at hfuel
  rw [length_wideBytes] at hfriendly
  exact wideStringAt_eq hfriendly a.friendlyName.nonzero (by omega)

def lineOf (number : Nat) (a : Adapter) : Line :=
  ⟨number, a.adapterName.chars, a.description.chars, a.friendlyName.chars⟩

def linesOf (i : Nat) : List Adapter → List Line
  | [] => []
  | a :: as => lineOf (i + 1) a :: linesOf (i + 1) as

@[simp] theorem length_linesOf (i : Nat) (as : List Adapter) :
    (linesOf i as).length = as.length := by
  induction as generalizing i with
  | nil => rfl
  | cons a as ih => simp [linesOf, ih]

theorem printDevs_eq {devs fuel i : Nat} {as : List Adapter} (h : Lists m devs as)
    (hfuel : totalSize as < fuel) : printDevs m fuel devs i = some (linesOf i as) := by
  induction as generalizing devs fuel i with
  | nil =>
    obtain ⟨fuel, rfl⟩ := Nat.exists_eq_add_one.mpr (Nat.zero_lt_of_lt hfuel)
    have hz : devs = 0 := h
    rw [printDevs, if_pos hz]
    rfl
  | cons a as ih =>
    obtain ⟨hne, hd, hnext⟩ := h
    have hsize := len_lt_packedSize a
    rw [totalSize_cons] at hfuel
    obtain ⟨fuel, rfl⟩ := Nat.exists_eq_add_one.mpr (Nat.zero_lt_of_lt hfuel)
    have hrest : printDevs m fuel (loadRecord m devs).next (i + 1) = some (linesOf (i + 1) as) :=
      ih hnext (by omega)
    rw [printDevs, if_neg hne]
    simp only [hd.stringAt (n := fuel) (by omega), hd.descriptionAt (n := fuel) (by omega),
      hd.friendlyNameAt (n := fuel) (by omega), hrest, Option.bind_eq_bind, Option.bind_some]
    rfl

/-- Going on for all records but one leads to the last. -/
theorem describes_nthNext {devs : Nat} {a : Adapter} {as : List Adapter}
    (h : Lists m devs (as ++ [a])) : Describes m (loadRecord m (nthNext m as.length devs)) a := by
  induction as generalizing devs with
  | nil => exact h.2.1
  | cons b as ih => exact ih h.2.2

theorem chooseDev_eq {devs fuel : Nat} {as : List Adapter} {a : Adapter}
    (h : Lists m devs (as ++ [a])) (hfuel : totalSize (as ++ [a]) < fuel) (targetNum : Int) :
    chooseDev m fuel devs targetNum =
      some ⟨linesOf 0 (as ++ [a]), narrowBytes a.adapterName⟩ := by
  have hlast := describes_nthNext h
  have hsize : packedSize a ≤ totalSize (as ++ [a]) := by simp [totalSize]
  have hname := hlast.adapterName
  rw [length_narrowBytes] at hname
  simp only [chooseDev, printDevs_eq h hfuel, Option.bind_eq_bind, Option.bind_some,
    length_linesOf, List.length_append, List.length_singleton, Nat.add_sub_cancel,
    hlast.stringAt (n := fuel) (by omega), hname]

theorem getElem?_linesOf (i n : Nat) (as : List Adapter) :
    (linesOf i as)[n]? = (as[n]?).map (lineOf (i + n + 1)) := by
  induction as generalizing i n with
  | nil => rfl
  | cons a as ih =>
    cases n with
    | zero => rfl
    | succ n =>
      rw [linesOf, List.getElem?_cons_succ, List.getElem?_cons_succ, ih, Nat.add_right_comm i 1 n,
        Nat.add_assoc i n 1]

/-- The number on a line is the place of its adapter, counted from 1. -/
theorem honours_iff {as : List Adapter} {name : List Byte} {n : Nat} (hn : 1 ≤ n) :
    Honours ⟨linesOf 0 as, name⟩ n ↔ ∃ a, as[n - 1]? = some a ∧ name = narrowBytes a.adapterName := by
  constructor
  · rintro ⟨line, hline, hnum, hname⟩
    obtain ⟨k, hk⟩ := List.mem_iff_getElem?.mp hline
    rw [getElem?_linesOf, Option.map_eq_some_iff] at hk
    obtain ⟨a, ha, rfl⟩ := hk
    obtain rfl : 0 + k + 1 = n := hnum
    exact ⟨a, by simpa using ha, hname⟩
  · rintro ⟨a, ha, hname⟩
    refine ⟨lineOf n a, List.mem_iff_getElem?.mpr ⟨n - 1, ?_⟩, rfl, hname⟩
    rw [getElem?_linesOf, ha, Option.map_some, Nat.zero_add, Nat.sub_add_cancel hn]

end

theorem narrowBytes_inj {s t : CString 8} : narrowBytes s = narrowBytes t ↔ s.chars = t.chars :=
  List.append_left_inj [0]

/-- Whatever the number, the copy is the last name. -/
theorem chooseDev_listDevs {adapters : List Adapter}
    (block : Block (callocSize (firstPass adapters))) (m : Nat → Byte)
    (hlisted : listed adapters ≠ []) (hfit : totalSize (listed adapters) < 2 ^ 31) :
    ∃ r, listDevs block.base adapters = some r ∧
      ∀ fuel, totalSize (listed adapters) < fuel → ∀ targetNum,
        chooseDev (memory m r.log) fuel r.upDevs targetNum = some ⟨linesOf 0 (listed adapters),
          narrowBytes ((listed adapters).getLast hlisted).adapterName⟩ := by
  obtain ⟨q, hq⟩ := listDevs_eq hlisted hfit block.base
  have hlists := lists_listDevs block m hlisted hfit
  have hsplit := (List.dropLast_append_getLast hlisted).symm
  generalize (listed adapters).getLast hlisted = a at hsplit ⊢
  rw [hsplit] at hq hlists ⊢
  exact ⟨_, hq, fun fuel hfuel targetNum => chooseDev_eq hlists hfuel targetNum⟩

/-- The choice is honoured exactly when the adapter of that number has the name of the last. -/
theorem choice_honoured_iff (adapters : List Adapter)
    (block : Block (callocSize (firstPass adapters))) (m : Nat → Byte)
    (hfit : totalSize (listed adapters) < 2 ^ 31) {n : Nat} (hn : 1 ≤ n)
    (hle : n ≤ (listed adapters).length) :
    (∃ r c, listDevs block.base adapters = some r ∧
      (∀ fuel, totalSize (listed adapters) < fuel →
        chooseDev (memory m r.log) fuel r.upDevs n = some c) ∧ Honours c n) ↔
      (listed adapters)[n - 1]?.map (·.adapterName.chars) =
        (listed adapters).getLast?.map (·.adapterName.chars) := by
  have hlisted : listed adapters ≠ [] := by
    rintro hl
    simp only [hl, List.length_nil] at hle
    omega
  obtain ⟨r, hr, hchoose⟩ := chooseDev_listDevs block m hlisted hfit
  obtain ⟨b, hb⟩ : ∃ b, (listed adapters)[n - 1]? = some b :=
    ⟨_, List.getElem?_eq_getElem (by omega)⟩
  rw [hb, List.getLast?_eq_some_getLast hlisted]
  simp only [Option.map_some, Option.some.injEq]
  constructor
  · rintro ⟨r', c, hr', hc, hh⟩
    obtain rfl := Option.some.inj (hr.symm.trans hr')
    have hfuel := Nat.lt_succ_self (totalSize (listed adapters))
    obtain rfl := Option.some.inj ((hchoose _ hfuel n).symm.trans (hc _ hfuel))
    obtain ⟨b', hb', hname⟩ := (honours_iff hn).mp hh
    obtain rfl := Option.some.inj (hb.symm.trans hb')
    exact (narrowBytes_inj.mp hname).symm
  · intro hname
    exact ⟨r, _, hr, fun fuel hfuel => hchoose fuel hfuel n,
      (honours_iff hn).mpr ⟨b, hb, (narrowBytes_inj.mpr hname).symm⟩⟩

def wireless : Adapter :=
  { loopback with ifType := IF_TYPE_IEEE80211, adapterName := ⟨[119], by simp⟩ }

theorem choice_honoured_iff_second : ∃ r c, listDevs 0x10000 [loopback, wireless] = some r ∧
    (∀ fuel, totalSize (listed [loopback, wireless]) < fuel →
      chooseDev (memory (fun _ => 0) r.log) fuel r.upDevs 2 = some c) ∧ Honours c 2 :=
  (choice_honoured_iff [loopback, wireless] (blockAt _ (by decide)) (fun _ => 0) (by decide)
    (by decide) (by decide)).mpr (by decide)

/-- Of two adapters the first is chosen; the name copied is that of the second. -/
theorem last_chosen : ¬ ∀ (adapters : List Adapter)
    (block : Block (callocSize (firstPass adapters))) (m : Nat → Byte),
    totalSize (listed adapters) < 2 ^ 31 → ∀ n : Nat, 1 ≤ n → n ≤ (listed adapters).length →
      ∃ r c, listDevs block.base adapters = some r ∧
        (∀ fuel, totalSize (listed adapters) < fuel →
          chooseDev (memory m r.log) fuel r.upDevs n = some c) ∧ Honours c n := by
  intro h
  have hlisted : listed [loopback, wireless] ≠ [] := by decide
  obtain ⟨r, c, hr, hc, hh⟩ := h [loopback, wireless] (blockAt _ (by decide)) (fun _ => 0)
    (by decide) 1 (by decide) (by decide)
  obtain ⟨r', hr', hchoose⟩ := chooseDev_listDevs (blockAt _ (by decide)) (fun _ => 0) hlisted
    (by decide)
  obtain rfl := Option.some.inj (hr'.symm.trans hr)
  have hfuel := Nat.lt_succ_self (totalSize (listed [loopback, wireless]))
  obtain rfl := Option.some.inj ((hchoose _ hfuel 1).symm.trans (hc _ hfuel))
  obtain ⟨a, ha, hname⟩ := (honours_iff (by decide)).mp hh
  obtain rfl := Option.some.inj ha
  have hname : narrowBytes wireless.adapterName = narrowBytes loopback.adapterName := hname
  exact absurd hname (by decide)

end Cexp.AdapterList
