import Cexp.ByteOrder
import Cexp.ByteRegions

/-! `list_devs` of `nets.c`: the adapters it selects, the size its first pass adds up, and the
second pass, which packs records and strings into one buffer. Every byte the second pass writes
is on record, with the budget after each subtraction and what each `my_copy` has copied. -/

namespace Cexp.AdapterList

open ByteOrder ByteRegions

abbrev Byte := BitVec 8

/-- A string of `w`-bit characters, without its terminator. -/
structure CString (w : Nat) where
  chars : List (BitVec w)
  nonzero : ∀ c ∈ chars, c ≠ 0

def narrowBytes (s : CString 8) : List Byte := s.chars ++ [0]

def wideBytes (s : CString 16) : List Byte := (s.chars ++ [0]).flatMap bytes16

inductive IfOperStatus where
  | up
  | down
  | testing
  | unknown
  | dormant
  | notPresent
  | lowerLayerDown
  deriving DecidableEq, Repr

/-- What `list_devs` reads of an `IP_ADAPTER_ADDRESSES`. -/
structure Adapter where
  ifIndex : BitVec 32
  ifType : BitVec 32
  operStatus : IfOperStatus
  ipv4Enabled : Bool
  adapterName : CString 8
  description : CString 16
  friendlyName : CString 16

def IF_TYPE_ETHERNET_CSMACD : BitVec 32 := 6

def IF_TYPE_SOFTWARE_LOOPBACK : BitVec 32 := 24

def IF_TYPE_IEEE80211 : BitVec 32 := 71

def typeMask : BitVec 32 :=
  IF_TYPE_IEEE80211 ||| IF_TYPE_ETHERNET_CSMACD ||| IF_TYPE_SOFTWARE_LOOPBACK

def passes (a : Adapter) : Bool :=
  (a.ifType &&& typeMask) ≠ 0 && a.operStatus = .up && a.ipv4Enabled

/-- `sizeof(Intf_Brief)`: `IfIdx` at 0, `Next` at 8, then the three string pointers. -/
def len : Nat := 40

/-- One round of the first pass; the sum is a `size_t`, which `bufsize` takes as an `int`. -/
def addSize (bufsize : Int) (a : Adapter) : Int :=
  if passes a then
    (bufsize + (a.adapterName.chars.length + a.description.chars.length * 2 +
      a.friendlyName.chars.length * 2 + len + 5 : Nat)).bmod (2 ^ 32)
  else bufsize

def firstPass (adapters : List Adapter) : Int := adapters.foldl addSize 0

/-- The argument of `calloc`, an `int` taken as a `size_t`. -/
def callocSize (bufsize : Int) : Nat := (bufsize % 2 ^ 64).toNat

/-- A block that `calloc` returns when it succeeds. -/
structure Block (size : Nat) where
  base : Nat
  base_pos : 0 < base
  base_lt : base < 2 ^ 64
  end_le : base + size ≤ 2 ^ 64

/-- The narrow loop of `my_copy`: what it copies of `src` with room for `max` bytes, `none`
where it reads on behind `src`. -/
def copyNarrow : List Byte → Nat → Option (List Byte)
  | _, 0 => some []
  | [], _ + 1 => none
  | b :: src, max + 1 => if b = 0 then some [b] else (copyNarrow src max).map (b :: ·)

/-- The wide loop, two bytes at a time. -/
def copyWide : List Byte → Nat → Option (List Byte)
  | _, 0 => some []
  | b :: c :: src, max + 1 =>
    if b = 0 ∧ c = 0 then some [b, c] else (copyWide src (max - 1)).map ([b, c] ++ ·)
  | _, _ + 1 => none

def myCopy (src : List Byte) (max : Int) (isW : Bool) : Option (List Byte × Int) := do
  let copied ← if isW then copyWide src max.toNat else copyNarrow src max.toNat
  some (copied, max - copied.length)

/-- A call of `my_copy`, and what it has copied. -/
structure Copy where
  src : List Byte
  copied : List Byte
  deriving DecidableEq, Repr

/-- The locals of the second pass, with what it has done so far. -/
structure Pass where
  upDevs : Nat
  curDev : Nat
  bufsize : Int
  log : List (Nat × Byte)
  budgets : List Int
  copies : List Copy
  deriving DecidableEq, Repr

/-- An assignment to a member of `*curDev`. -/
def Pass.assign (s : Pass) (offset value : Nat) : Pass :=
  { s with log := s.log ++ store (s.curDev + offset) (leBytes 8 value) }

/-- One `my_copy` to `copyPos`, with the assignment of `copyPos` to the record. -/
def Pass.copyString (s : Pass) (copyPos : Nat) (src : List Byte) (isW : Bool) (offset : Nat) :
    Option (Pass × Nat) := do
  let (copied, rem) ← myCopy src s.bufsize isW
  let s : Pass := { s with
    bufsize := rem
    log := s.log ++ store copyPos copied
    budgets := s.budgets ++ [rem]
    copies := s.copies ++ [⟨src, copied⟩] }
  some (s.assign offset copyPos, copyPos + copied.length)

def copyAdapter (s : Pass) (a : Adapter) : Option (Pass × Nat) := do
  let s := s.assign 0 a.ifIndex.toNat
  let s : Pass := { s with
    bufsize := s.bufsize - len
    budgets := s.budgets ++ [s.bufsize - len] }
  let (s, copyPos) ← s.copyString (s.curDev + len) (narrowBytes a.adapterName) false 16
  let (s, copyPos) ← s.copyString copyPos (wideBytes a.description) true 24
  s.copyString copyPos (wideBytes a.friendlyName) true 32

def secondPass (s : Pass) : List Adapter → Option Pass
  | [] => some s
  | a :: as =>
    if passes a then do
      let (s, copyPos) ← copyAdapter s a
      if s.bufsize = 0 then some s
      else secondPass { s.assign 8 copyPos with curDev := copyPos } as
    else secondPass s as

/-- `list_devs`, with the address `calloc` returned; the result is `upDevs`. -/
def listDevs (base : Nat) (adapters : List Adapter) : Option Pass := do
  let s ← secondPass ⟨base, base, firstPass adapters, [], [], []⟩ adapters
  some (s.assign 8 0)

/-- What a record takes up with its strings. -/
def packedSize (a : Adapter) : Nat :=
  len + (narrowBytes a.adapterName).length + (wideBytes a.description).length +
    (wideBytes a.friendlyName).length

def totalSize (as : List Adapter) : Nat := (as.map packedSize).sum

/-- The adapters that `list_devs` lists. -/
def listed (adapters : List Adapter) : List Adapter := adapters.filter passes

@[simp] theorem length_narrowBytes (s : CString 8) :
    (narrowBytes s).length = s.chars.length + 1 := by
  simp [narrowBytes]

theorem length_flatMap_bytes16 (ws : List (BitVec 16)) :
    (ws.flatMap bytes16).length = 2 * ws.length := by
  induction ws with
  | nil => rfl
  | cons w ws ih =>
    rw [List.flatMap_cons, List.length_append, ih, List.length_cons]
    simp [bytes16]
    omega

@[simp] theorem length_wideBytes (s : CString 16) :
    (wideBytes s).length = 2 * s.chars.length + 2 := by
  rw [wideBytes, length_flatMap_bytes16]
  simp
  omega

theorem packedSize_eq (a : Adapter) : packedSize a = a.adapterName.chars.length +
    a.description.chars.length * 2 + a.friendlyName.chars.length * 2 + len + 5 := by
  simp only [packedSize, length_narrowBytes, length_wideBytes]
  omega

theorem len_lt_packedSize (a : Adapter) : len < packedSize a := by
  rw [packedSize_eq]
  omega

theorem totalSize_cons (a : Adapter) (as : List Adapter) :
    totalSize (a :: as) = packedSize a + totalSize as := rfl

theorem totalSize_pos {as : List Adapter} (h : as ≠ []) : 0 < totalSize as := by
  cases as with
  | nil => exact absurd rfl h
  | cons a as =>
    have := len_lt_packedSize a
    rw [totalSize_cons]
    omega

theorem firstPass_from {adapters : List Adapter} {n : Nat}
    (h : n + totalSize (listed adapters) < 2 ^ 31) :
    adapters.foldl addSize (n : Int) = (n + totalSize (listed adapters) : Nat) := by
  induction adapters generalizing n with
  | nil => simp [listed, totalSize]
  | cons a as ih =>
    rw [List.foldl_cons]
    cases hp : passes a with
    | false =>
      have hl : listed (a :: as) = listed as := List.filter_cons_of_neg (by simp [hp])
      rw [hl] at h ⊢
      rw [addSize, if_neg (by simp [hp])]
      exact ih h
    | true =>
      have hl : listed (a :: as) = a :: listed as := List.filter_cons_of_pos hp
      rw [hl, totalSize_cons] at h ⊢
      have hmod : ((n : Int) + (packedSize a : Nat)).bmod (2 ^ 32) = (n + packedSize a : Nat) := by
        rw [Int.bmod_eq_of_le] <;> push_cast <;> omega
      rw [addSize, if_pos hp, ← packedSize_eq, hmod, ih (by omega), Nat.add_assoc]

theorem firstPass_eq {adapters : List Adapter} (h : totalSize (listed adapters) < 2 ^ 31) :
    firstPass adapters = totalSize (listed adapters) := by
  have hfrom := firstPass_from (n := 0) (by simpa using h)
  simpa [firstPass] using hfrom

theorem callocSize_firstPass {adapters : List Adapter}
    (h : totalSize (listed adapters) < 2 ^ 31) :
    callocSize (firstPass adapters) = totalSize (listed adapters) := by
  rw [firstPass_eq h, callocSize]
  omega

theorem copyNarrow_eq {cs : List Byte} (hc : ∀ c ∈ cs, c ≠ 0) {max : Nat}
    (h : (cs ++ [0]).length ≤ max) : copyNarrow (cs ++ [0]) max = some (cs ++ [0]) := by
  induction cs generalizing max with
  | nil =>
    obtain ⟨max, rfl⟩ : ∃ k, max = k + 1 := ⟨max - 1, by simp at h; omega⟩
    simp [copyNarrow]
  | cons c cs ih =>
    obtain ⟨max, rfl⟩ : ∃ k, max = k + 1 := ⟨max - 1, by simp at h; omega⟩
    have hrest : copyNarrow (cs ++ [0]) max = some (cs ++ [0]) :=
      ih (fun d hd => hc d (by simp [hd])) (by simp at h ⊢; omega)
    rw [List.cons_append, copyNarrow, if_neg (hc c (by simp)), hrest]
    rfl

theorem bytes16_eq_zero {w : BitVec 16} :
    w.setWidth 8 = 0 ∧ (w >>> 8).setWidth 8 = (0 : BitVec 8) ↔ w = 0 := by
  constructor
  · rintro ⟨h0, h1⟩
    have e0 := congrArg BitVec.toNat h0
    have e1 := congrArg BitVec.toNat h1
    have hlt := w.isLt
    simp only [BitVec.toNat_setWidth, BitVec.toNat_ushiftRight, Nat.shiftRight_eq_div_pow,
      BitVec.ofNat_eq_ofNat, BitVec.toNat_ofNat] at e0 e1
    exact BitVec.eq_of_toNat_eq (by simp; omega)
  · rintro rfl
    exact ⟨rfl, rfl⟩

theorem copyWide_eq {cs : List (BitVec 16)} (hc : ∀ c ∈ cs, c ≠ 0) {max : Nat}
    (h : ((cs ++ [0]).flatMap bytes16).length ≤ max) :
    copyWide ((cs ++ [0]).flatMap bytes16) max = some ((cs ++ [0]).flatMap bytes16) := by
  induction cs generalizing max with
  | nil =>
    obtain ⟨max, rfl⟩ : ∃ k, max = k + 1 := ⟨max - 1, by simp [bytes16] at h; omega⟩
    simp [copyWide, bytes16]
  | cons c cs ih =>
    rw [List.cons_append, List.flatMap_cons, List.length_append] at h
    have hlen : (bytes16 c).length = 2 := rfl
    obtain ⟨max, rfl⟩ : ∃ k, max = k + 1 := ⟨max - 1, by omega⟩
    have hrest : copyWide ((cs ++ [0]).flatMap bytes16) (max - 1) =
        some ((cs ++ [0]).flatMap bytes16) := ih (fun d hd => hc d (by simp [hd])) (by omega)
    have hne : ¬(c.setWidth 8 = 0 ∧ (c >>> 8).setWidth 8 = (0 : BitVec 8)) :=
      fun hz => hc c (by simp) (bytes16_eq_zero.mp hz)
    rw [List.cons_append, List.flatMap_cons]
    simp only [bytes16, List.cons_append, List.nil_append] at hrest ⊢
    rw [copyWide, if_neg hne, hrest]
    rfl

theorem myCopy_narrow (s : CString 8) {b : Int} (h : ((narrowBytes s).length : Int) ≤ b) :
    myCopy (narrowBytes s) b false = some (narrowBytes s, b - (narrowBytes s).length) := by
  have hle : (narrowBytes s).length ≤ b.toNat := by omega
  have hcopy := copyNarrow_eq s.nonzero hle
  simp only [myCopy, Bool.false_eq_true, if_false, narrowBytes, hcopy, Option.bind_eq_bind,
    Option.bind_some]

theorem myCopy_wide (s : CString 16) {b : Int} (h : ((wideBytes s).length : Int) ≤ b) :
    myCopy (wideBytes s) b true = some (wideBytes s, b - (wideBytes s).length) := by
  have hle : (wideBytes s).length ≤ b.toNat := by omega
  have hcopy := copyWide_eq s.nonzero hle
  simp only [myCopy, if_true, wideBytes, hcopy, Option.bind_eq_bind, Option.bind_some]

def descriptionPos (p : Nat) (a : Adapter) : Nat := p + len + (narrowBytes a.adapterName).length

def friendlyPos (p : Nat) (a : Adapter) : Nat :=
  descriptionPos p a + (wideBytes a.description).length

/-- What is written for an adapter whose record is at `p`, but for `Next`. -/
def recordWrites (p : Nat) (a : Adapter) : List (Nat × Byte) :=
  store p (leBytes 8 a.ifIndex.toNat) ++
    store (p + len) (narrowBytes a.adapterName) ++ store (p + 16) (leBytes 8 (p + len)) ++
    store (descriptionPos p a) (wideBytes a.description) ++
    store (p + 24) (leBytes 8 (descriptionPos p a)) ++
    store (friendlyPos p a) (wideBytes a.friendlyName) ++
    store (p + 32) (leBytes 8 (friendlyPos p a))

def recordBudgets (b : Int) (a : Adapter) : List Int :=
  [b - len, b - len - (narrowBytes a.adapterName).length,
    b - len - (narrowBytes a.adapterName).length - (wideBytes a.description).length,
    b - packedSize a]

def recordCopies (a : Adapter) : List Copy :=
  [⟨narrowBytes a.adapterName, narrowBytes a.adapterName⟩,
    ⟨wideBytes a.description, wideBytes a.description⟩,
    ⟨wideBytes a.friendlyName, wideBytes a.friendlyName⟩]

/-- All that is written for the adapters `as`, with the first record at `p`. -/
def packed (p : Nat) : List Adapter → List (Nat × Byte)
  | [] => []
  | a :: as =>
    recordWrites p a ++ store (p + 8) (leBytes 8 (if as.isEmpty then 0 else p + packedSize a)) ++
      packed (p + packedSize a) as

/-- The budgets, from `b` on. -/
def spending (b : Int) : List Adapter → List Int
  | [] => []
  | a :: as => recordBudgets b a ++ spending (b - packedSize a) as

theorem copyString_eq {s : Pass} {src : List Byte} {isW : Bool} {b : Int}
    (h : myCopy src s.bufsize isW = some (src, b)) (pos offset : Nat) :
    s.copyString pos src isW offset = some ({ s with
      bufsize := b
      log := s.log ++ store pos src ++ store (s.curDev + offset) (leBytes 8 pos)
      budgets := s.budgets ++ [b]
      copies := s.copies ++ [⟨src, src⟩] }, pos + src.length) := by
  simp [Pass.copyString, h, Pass.assign]

theorem copyAdapter_eq {s : Pass} {a : Adapter} (h : (packedSize a : Int) ≤ s.bufsize) :
    copyAdapter s a = some ({ s with
      bufsize := s.bufsize - packedSize a
      log := s.log ++ recordWrites s.curDev a
      budgets := s.budgets ++ recordBudgets s.bufsize a
      copies := s.copies ++ recordCopies a }, s.curDev + packedSize a) := by
  simp only [packedSize] at h
  have hname := myCopy_narrow a.adapterName (b := s.bufsize - len) (by omega)
  have hdesc := myCopy_wide a.description
    (b := s.bufsize - len - (narrowBytes a.adapterName).length) (by omega)
  have hfriendly := myCopy_wide a.friendlyName
    (b := s.bufsize - len - (narrowBytes a.adapterName).length -
      (wideBytes a.description).length) (by omega)
  simp only [copyAdapter, Pass.assign, Option.bind_eq_bind]
  rw [copyString_eq hname, Option.bind_some, copyString_eq hdesc, Option.bind_some,
    copyString_eq hfriendly]
  simp [recordWrites, recordBudgets, recordCopies, descriptionPos, friendlyPos, packedSize]
  omega

/-- With a budget that is what the adapters need, the second pass uses it up with the last of
them, and the loop ends there. -/
theorem secondPass_eq {s : Pass} {adapters : List Adapter} (hne : listed adapters ≠ [])
    (h : s.bufsize = totalSize (listed adapters)) : ∃ q, (secondPass s adapters).map
      (fun t => t.assign 8 0) = some ⟨s.upDevs, q, 0, s.log ++ packed s.curDev (listed adapters),
        s.budgets ++ spending s.bufsize (listed adapters),
        s.copies ++ (listed adapters).flatMap recordCopies⟩ := by
  induction adapters generalizing s with
  | nil => exact absurd rfl hne
  | cons a as ih =>
    cases hp : passes a with
    | false =>
      have hl : listed (a :: as) = listed as := List.filter_cons_of_neg (by simp [hp])
      rw [hl] at h hne ⊢
      rw [secondPass, if_neg (by simp [hp])]
      exact ih hne h
    | true =>
      have hl : listed (a :: as) = a :: listed as := List.filter_cons_of_pos hp
      rw [hl, totalSize_cons] at h
      rw [hl, secondPass, if_pos hp, copyAdapter_eq (by omega)]
      simp only [Option.bind_eq_bind, Option.bind_some]
      by_cases has : listed as = []
      · have hz : s.bufsize - packedSize a = 0 := by simp [has, totalSize] at h; omega
        refine ⟨s.curDev, ?_⟩
        rw [if_pos hz, has, hz]
        simp [Pass.assign, packed, spending]
      · have hpos := totalSize_pos has
        rw [if_neg (by omega)]
        obtain ⟨q, hq⟩ := ih has (s := { Pass.assign { s with
          bufsize := s.bufsize - packedSize a
          log := s.log ++ recordWrites s.curDev a
          budgets := s.budgets ++ recordBudgets s.bufsize a
          copies := s.copies ++ recordCopies a } 8 (s.curDev + packedSize a) with
          curDev := s.curDev + packedSize a }) (by simp only [Pass.assign]; omega)
        refine ⟨q, hq.trans ?_⟩
        simp [Pass.assign, packed, spending, has]

theorem listDevs_eq {adapters : List Adapter} (hne : listed adapters ≠ [])
    (h : totalSize (listed adapters) < 2 ^ 31) (base : Nat) : ∃ q, listDevs base adapters =
      some ⟨base, q, 0, packed base (listed adapters),
        spending (totalSize (listed adapters)) (listed adapters),
        (listed adapters).flatMap recordCopies⟩ := by
  have hfirst := firstPass_eq h
  obtain ⟨q, hq⟩ := secondPass_eq (s := ⟨base, base, firstPass adapters, [], [], []⟩) hne hfirst
  refine ⟨q, ?_⟩
  rw [← hfirst]
  simpa [listDevs, Option.map_eq_bind] using hq

/-- With no adapter to list, all that is done is the assignment of 0 to `Next`. -/
theorem listDevs_none {adapters : List Adapter} (h : listed adapters = []) (base : Nat) :
    listDevs base adapters =
      some ⟨base, base, 0, store (base + 8) (leBytes 8 0), [], []⟩ := by
  have hno : ∀ a ∈ adapters, passes a = false := by simpa [listed] using h
  have hsecond (s : Pass) : secondPass s adapters = some s := by
    clear h
    induction adapters with
    | nil => rfl
    | cons a as ih =>
      rw [secondPass, if_neg (by simp [hno a])]
      exact ih fun b hb => hno b (List.mem_cons_of_mem a hb)
  have hzero : totalSize (listed adapters) = 0 := by rw [h]; rfl
  have hfirst : firstPass adapters = 0 := by
    rw [firstPass_eq (by omega), hzero]
    rfl
  simp [listDevs, hsecond, hfirst, Pass.assign]

end Cexp.AdapterList
