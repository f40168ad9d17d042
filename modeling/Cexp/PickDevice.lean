import Cexp.AdapterList

/-! `pick_dev` of `npcap_utils.c`: it numbers the devices it displays, reads a number, and finds
the device again through the marks it has left in `ri`. The number is read as four bytes into a
variable of one, so that the other three overwrite what lies behind it on the stack. -/

namespace Cexp.PickDevice

open AdapterList (CString narrowBytes)

abbrev Byte := BitVec 8

/-- A `pcap_if_t`: `address` is the `sin_addr` of its first address. -/
structure Device where
  flags : BitVec 32
  description : Option (CString 8)
  address : Option (BitVec 32)
  name : CString 8

def PCAP_IF_LOOPBACK : BitVec 32 := 1

def displayed (d : Device) : Bool :=
  d.flags &&& PCAP_IF_LOOPBACK ≠ 0 || d.flags &&& 0x28 = 8

/-- What is printed for a device; the number is a `u_char`. -/
structure Line where
  number : Byte
  description : Option (CString 8)
  address : Option (BitVec 32)
  name : CString 8

def lineOf (number : Byte) (d : Device) : Line := ⟨number, d.description, d.address, d.name⟩

/-- The locals of the first loop, and what it has printed. -/
structure Listing where
  i : Nat
  count : Byte
  ri : List Byte
  printed : List Line

/-- The first loop; `none` where `i` overflows or `ri[i]` is not in `ri`. -/
def listDevices (s : Listing) : List Device → Option Listing
  | [] => some s
  | d :: ds =>
    if 2 ^ 31 ≤ s.i + 1 then none
    else if !displayed d then listDevices { s with i := s.i + 1 } ds
    else if s.ri.length ≤ s.i + 1 then none
    else
      listDevices
        { i := s.i + 1
          count := s.count + 1
          ri := s.ri.set (s.i + 1) 1
          printed := s.printed ++ [lineOf (s.count + 1) d] } ds

/-- The second loop, which turns `targetNum` into the place of the device: the first argument
counts down to `j > i`. `none` where `ri[j]` is not in `ri`. -/
def findTarget (ri : List Byte) (targetNum : Byte) : Nat → Nat → Nat → Option Byte
  | 0, _, _ => some targetNum
  | rest + 1, j, k => do
    let r ← ri[j]?
    let k := if r = 1 then k + 1 else k
    if k = targetNum.toNat then some (BitVec.ofNat 8 j) else findTarget ri targetNum rest (j + 1) k

/-- What `scanf("%d")` stores for the integer typed: this integer, if it is an `int`. -/
structure Scanf where
  stored : Int → BitVec 32
  stored_int : ∀ n, -2 ^ 31 ≤ n → n < 2 ^ 31 → stored n = BitVec.ofInt 32 n

/-- What a byte behind `targetNum` belongs to: a variable that is read after `scanf`, where
`pointer` is a byte of `alldevs` or `name` and `saved` one of what `return` needs, with the value
they have; or what is not read. -/
inductive Local where
  | count
  | ri (j : Fin 32)
  | i (k : Fin 4)
  | pointer (value : Byte)
  | saved (value : Byte)
  | unread
  deriving DecidableEq

/-- The three bytes behind `targetNum`, as the compiler has placed the locals. -/
structure Frame where
  first : Local
  second : Local
  third : Local

def Frame.locals (f : Frame) : List Local := [f.first, f.second, f.third]

/-- The last three of the four bytes that are stored, with what they are stored in. -/
def Frame.writes (f : Frame) (num : BitVec 32) : List (Local × Byte) :=
  [(f.first, (num >>> 8).setWidth 8), (f.second, (num >>> 16).setWidth 8),
    (f.third, (num >>> 24).setWidth 8)]

/-- `i` with its byte `k` replaced. It is then only compared with `j`, which is positive, so that
a negative value may be 0. -/
def setByte (i : Nat) (k : Fin 4) (b : Byte) : Nat :=
  let cleared := BitVec.ofNat 32 i &&& ~~~((0xff : BitVec 32) <<< (8 * k.val))
  (cleared ||| b.setWidth 32 <<< (8 * k.val)).toInt.toNat

def Listing.write (s : Listing) : Local × Byte → Listing
  | (.count, b) => { s with count := b }
  | (.ri j, b) => { s with ri := s.ri.set j b }
  | (.i k, b) => { s with i := setByte s.i k b }
  | _ => s

def Listing.overwrite (s : Listing) (f : Frame) (num : BitVec 32) : Listing :=
  (f.writes num).foldl Listing.write s

/-- What `return` needs is as it was. -/
def Frame.returns (f : Frame) (num : BitVec 32) : Bool :=
  (f.writes num).all fun
    | (.saved value, b) => b == value
    | _ => true

/-- `alldevs` and `name` are as they were. -/
def Frame.follows (f : Frame) (num : BitVec 32) : Bool :=
  (f.writes num).all fun
    | (.pointer value, b) => b == value
    | _ => true

structure Picked where
  printed : List Line
  name : Option (List Byte)

/-- `pick_dev`, once `pcap_findalldevs` has returned the list. `none` where an access is not in
`ri` or in the list, or an address is used that has been changed. -/
def pickDev (scan : Scanf) (f : Frame) (devices : List Device) (typed : Int) :
    Option Picked := do
  let s ← listDevices ⟨0, 0, List.replicate 32 0, []⟩ devices
  if s.count = 0 then some ⟨s.printed, none⟩
  else
    let num := scan.stored typed
    let targetNum := num.setWidth 8
    let s := s.overwrite f num
    if f.returns num = false then none
    else if targetNum < 1 ∨ s.count < targetNum then some ⟨s.printed, none⟩
    else if f.follows num = false then none
    else do
      let targetNum ← findTarget s.ri targetNum s.i 1 0
      let d ← (devices.drop (targetNum.toNat - 1)).head?
      some ⟨s.printed, some (narrowBytes d.name)⟩

/-- A number that was printed picks the device it was printed with, any other none. -/
structure Picks (p : Picked) (typed : Int) : Prop where
  told : 1 ≤ typed → typed ≤ p.printed.length →
    ∃ line ∈ p.printed, (line.number.toNat : Int) = typed ∧ p.name = some (narrowBytes line.name)
  refused : ¬(1 ≤ typed ∧ typed ≤ p.printed.length) → p.name = none

/-- Every device displayed is among the first 31. -/
def fits (devices : List Device) : Prop :=
  devices.length < 2 ^ 31 ∧ ∀ n d, devices[n]? = some d → displayed d = true → n < 31

/-- Something in `ri[j]` is overwritten. -/
def Frame.hits (f : Frame) (j : Nat) : Bool :=
  f.locals.any fun
    | .ri i => i.val == j
    | _ => false

/-- What is left of `i` when zeros are written. -/
def Frame.bound (f : Frame) (i : Nat) : Nat :=
  f.locals.foldl (fun i l => match l with
    | .i k => setByte i k 0
    | _ => i) i

def Frame.countAfter (f : Frame) (num : BitVec 32) (count : Byte) : Byte :=
  (f.writes num).foldl (fun c w => if w.1 = .count then w.2 else c) count

/-- The range check, made once the number is stored, finds it to be none of `count`. -/
def Frame.refuses (f : Frame) (num : BitVec 32) (count : Byte) : Prop :=
  num.setWidth 8 = (0 : Byte) ∨ f.countAfter num count < num.setWidth 8

instance (f : Frame) (num : BitVec 32) (count : Byte) : Decidable (f.refuses num count) :=
  inferInstanceAs (Decidable (_ ∨ _))

/-- The places of the displayed devices whose mark is not overwritten with a zero. -/
def kept (f : Frame) (devices : List Device) : List Nat :=
  (List.range' 1 (f.bound devices.length)).filter fun j =>
    (devices[j - 1]?).any displayed && !f.hits j

/-- The device in the place `num` among those kept, and in the whole list where too few are. -/
def found (f : Frame) (devices : List Device) (num : Nat) : Option Device :=
  match (kept f devices)[num - 1]? with
  | some j => devices[j - 1]?
  | none => if f.bound devices.length ≤ 31 then devices[num - 1]? else none

def nameOf (d : Option Device) : Option (List Byte) := d.map fun d => narrowBytes d.name

/-- The number is that of a device displayed, `count`, `alldevs` and `name` are left, and the
device's name is still found; or it is that of none, and is refused. -/
def numberTold (scan : Scanf) (f : Frame) (devices : List Device) (typed : Int) : Prop :=
  if 1 ≤ typed ∧ typed ≤ (devices.filter displayed).length then
    .count ∉ f.locals ∧ f.follows (scan.stored typed) = true ∧
      nameOf (found f devices typed.toNat) =
        nameOf (devices.filter displayed)[typed.toNat - 1]?
  else
    f.refuses (scan.stored typed) (BitVec.ofNat 8 (devices.filter displayed).length)

/-- `ri[j]` once the devices `pre` have been looked at. -/
def mark (pre : List Device) (j : Nat) : Byte :=
  if 1 ≤ j ∧ (pre[j - 1]?).any displayed then 1 else 0

def marks (pre : List Device) : List Byte := (List.range 32).map (mark pre)

def linesOf (pre : List Device) : List Line :=
  (pre.filter displayed).mapIdx fun k d => lineOf (BitVec.ofNat 8 (k + 1)) d

def listing (pre : List Device) : Listing :=
  ⟨pre.length, BitVec.ofNat 8 (pre.filter displayed).length, marks pre, linesOf pre⟩

theorem listing_nil : listing [] = ⟨0, 0, List.replicate 32 0, []⟩ := by
  have hzero : marks [] = List.replicate 32 0 := by decide
  rw [listing, hzero]
  rfl

theorem mark_concat (pre : List Device) (d : Device) (j : Nat) :
    mark (pre ++ [d]) j =
      if j = pre.length + 1 then if displayed d then 1 else 0 else mark pre j := by
  cases j with
  | zero => simp [mark]
  | succ j =>
    rcases lt_trichotomy j pre.length with h | h | h
    · simp [mark, List.getElem?_append_left h, h.ne]
    · simp [mark, h]
    · have hpre : pre[j]? = none := List.getElem?_eq_none h.le
      have happ : (pre ++ [d])[j]? = none := List.getElem?_eq_none (by simp; omega)
      simp [mark, hpre, happ, h.ne']

theorem marks_concat_of_displayed {pre : List Device} {d : Device} (hd : displayed d = true) :
    marks (pre ++ [d]) = (marks pre).set (pre.length + 1) 1 := by
  refine List.ext_getElem (by simp [marks]) fun j hj _ => ?_
  simp only [marks, List.getElem_map, List.getElem_range, List.getElem_set, mark_concat, hd,
    if_true]
  simp only [eq_comm]

theorem marks_concat_of_not {pre : List Device} {d : Device} (hd : displayed d = false) :
    marks (pre ++ [d]) = marks pre := by
  refine List.map_congr_left fun j _ => ?_
  rw [mark_concat]
  split
  case isTrue hj => simp [hd, hj, mark]
  case isFalse => rfl

theorem listDevices_cons (pre : List Device) (d : Device) (ds : List Device) :
    listDevices (listing pre) (d :: ds) =
      if 2 ^ 31 ≤ pre.length + 1 ∨ displayed d = true ∧ 31 ≤ pre.length then none
      else listDevices (listing (pre ++ [d])) ds := by
  have hi : (listing pre).i = pre.length := rfl
  have hri : (listing pre).ri.length = 32 := by simp [listing, marks]
  rw [listDevices, hi, hri]
  by_cases hlen : 2 ^ 31 ≤ pre.length + 1
  · simp only [hlen, if_true, true_or]
  cases hd : displayed d with
  | false => simp [listing, marks_concat_of_not hd, linesOf, hd]
  | true =>
    by_cases hplace : 31 ≤ pre.length
    · simp [hplace]
    · simp [hplace, listing, marks_concat_of_displayed hd, linesOf, hd, BitVec.ofNat_add]

theorem listDevices_eq {pre ds : List Device} (h : fits (pre ++ ds)) :
    listDevices (listing pre) ds = some (listing (pre ++ ds)) := by
  induction ds generalizing pre with
  | nil => rw [List.append_nil, listDevices]
  | cons d ds ih =>
    have hinside : ¬(2 ^ 31 ≤ pre.length + 1 ∨ displayed d = true ∧ 31 ≤ pre.length) := by
      have hlen := h.1
      rw [List.length_append, List.length_cons] at hlen
      rintro (hi | ⟨hd, hplace⟩)
      · omega
      · have hlt := h.2 pre.length d (by simp) hd
        omega
    rw [listDevices_cons, if_neg hinside, ih (by simpa using h)]
    simp

/-- A device that is displayed behind the first 31 is marked outside `ri`. -/
theorem fits_of_listDevices {pre ds : List Device} {s : Listing} (hpre : fits pre)
    (h : listDevices (listing pre) ds = some s) : fits (pre ++ ds) := by
  induction ds generalizing pre with
  | nil => rwa [List.append_nil]
  | cons d ds ih =>
    rw [listDevices_cons] at h
    split at h
    case isTrue => cases h
    case isFalse hinside =>
      obtain ⟨hi, hd⟩ := not_or.mp hinside
      have hfits : fits (pre ++ [d]) := by
        refine ⟨by rw [List.length_append, List.length_singleton]; omega, fun n e he hde => ?_⟩
        rcases lt_or_ge n pre.length with hn | hn
        · rw [List.getElem?_append_left hn] at he
          exact hpre.2 n e he hde
        · rw [List.getElem?_append_right hn, List.getElem?_singleton] at he
          split at he
          case isTrue =>
            obtain rfl := Option.some.inj he
            have hlt : ¬ 31 ≤ pre.length := fun hge => hd ⟨hde, hge⟩
            omega
          case isFalse => cases he
      simpa using ih hfits h

theorem length_filter_le {devices : List Device} (h : fits devices) :
    (devices.filter displayed).length ≤ 31 := by
  have hdrop : (devices.drop 31).filter displayed = [] := by
    refine List.filter_eq_nil_iff.mpr fun d hd hdd => ?_
    obtain ⟨n, hn⟩ := List.mem_iff_getElem?.mp hd
    rw [List.getElem?_drop] at hn
    have hlt := h.2 (31 + n) d hn hdd
    omega
  rw [← List.take_append_drop 31 devices, List.filter_append, hdrop, List.append_nil]
  exact (List.length_filter_le _ _).trans (List.length_take_le 31 devices)

/-- The second loop, from `j` with `k` marks behind it, over `ri` with the marks `keep`: it stops at
the mark with the number, if there is one. -/
theorem findTarget_eq {ri : List Byte} {keep : Nat → Bool} {targetNum : Byte}
    (hri : ∀ j, 1 ≤ j → ri[j]? = if j < 32 then some (if keep j then 1 else 0) else none)
    (hkeep : ∀ j, 1 ≤ j → keep j = true → j < 32) (rest : Nat) {j k : Nat} (h1 : 1 ≤ j)
    (hj : j ≤ 32) (hk : k < targetNum.toNat) :
    findTarget ri targetNum rest j k =
      match ((List.range' j rest).filter keep)[targetNum.toNat - k - 1]? with
      | some n => some (BitVec.ofNat 8 n)
      | none => if j + rest ≤ 32 then some targetNum else none := by
  induction rest generalizing j k with
  | zero => simp [findTarget, hj]
  | succ rest ih =>
    rw [findTarget, hri j h1, List.range'_succ]
    by_cases hlt : j < 32
    · have hidx : targetNum.toNat - k - 1 = targetNum.toNat - (k + 1) := by omega
      have hend : j + (rest + 1) ≤ 32 ↔ j + 1 + rest ≤ 32 := by omega
      rw [if_pos hlt]
      cases hkj : keep j with
      | true =>
        by_cases hlast : k + 1 = targetNum.toNat
        · have hzero : targetNum.toNat - k - 1 = 0 := by omega
          simp [hkj, hlast, hzero]
        · have hnext : targetNum.toNat - k - 1 = targetNum.toNat - (k + 1) - 1 + 1 := by omega
          have hrest := ih (by omega : 1 ≤ j + 1) (by omega) (by omega : k + 1 < targetNum.toNat)
          simp only [hkj, hlast, hnext, hend, hrest, List.filter_cons_of_pos,
            List.getElem?_cons_succ, Option.bind_eq_bind, Option.bind_some, if_true, if_false]
      | false =>
        have hrest := ih (by omega : 1 ≤ j + 1) (by omega) hk
        have hne : k ≠ targetNum.toNat := hk.ne
        simp [hkj, hne, hend, hrest]
    · -- the next read is behind `ri`
      have hnone : (j :: List.range' (j + 1) rest).filter keep = [] := by
        refine List.filter_eq_nil_iff.mpr fun n hn hkn => ?_
        have hge : j ≤ n := by
          rcases List.mem_cons.mp hn with rfl | hn
          · exact le_rfl
          · exact (Nat.le_succ j).trans (List.mem_range'_1.mp hn).1
        have hlt := hkeep n (h1.trans hge) hkn
        omega
      have hend : ¬ j + (rest + 1) ≤ 32 := by omega
      simp [hlt, hnone, hend]

section

variable (f : Frame) (ws : List (Local × Byte)) (s : Listing)

theorem printed_foldl_write : (ws.foldl Listing.write s).printed = s.printed := by
  induction ws generalizing s with
  | nil => rfl
  | cons w ws ih =>
    rw [List.foldl_cons, ih]
    obtain ⟨l, b⟩ := w
    cases l <;> rfl

theorem count_foldl_write : (ws.foldl Listing.write s).count =
    ws.foldl (fun c w => if w.1 = .count then w.2 else c) s.count := by
  induction ws generalizing s with
  | nil => rfl
  | cons w ws ih =>
    rw [List.foldl_cons, List.foldl_cons, ih]
    obtain ⟨l, b⟩ := w
    cases l <;> rfl

theorem writes_of_lt {num : BitVec 32} (h : num.toNat < 256) :
    f.writes num = f.locals.map (·, 0) := by
  have hbyte (n : Nat) (hn : 8 ≤ n) : (num >>> n).setWidth 8 = (0 : Byte) := by
    have hle : 2 ^ 8 ≤ 2 ^ n := Nat.pow_le_pow_right (by decide) hn
    have hzero : num.toNat >>> n = 0 := by
      rw [Nat.shiftRight_eq_div_pow]
      exact Nat.div_eq_of_lt (by omega)
    refine BitVec.eq_of_toNat_eq ?_
    rw [BitVec.toNat_setWidth, BitVec.toNat_ushiftRight, hzero]
    rfl
  simp [Frame.writes, Frame.locals, hbyte]

theorem i_foldl_write (ls : List Local) : ((ls.map (·, 0)).foldl Listing.write s).i =
    ls.foldl (fun i l => match l with
      | .i k => setByte i k 0
      | _ => i) s.i := by
  induction ls generalizing s with
  | nil => rfl
  | cons l ls ih =>
    rw [List.map_cons, List.foldl_cons, List.foldl_cons, ih]
    cases l <;> rfl

theorem ri_foldl_write (ls : List Local) (j : Nat) :
    ((ls.map (·, 0)).foldl Listing.write s).ri[j]? =
      if ls.any (fun | .ri i => i.val == j | _ => false) then s.ri[j]?.map fun _ => 0
      else s.ri[j]? := by
  induction ls generalizing s with
  | nil => rfl
  | cons l ls ih =>
    rw [List.map_cons, List.foldl_cons, ih, List.any_cons]
    cases l with
    | ri i =>
      simp only [Listing.write, List.getElem?_set]
      by_cases hij : i.val = j
      · subst hij
        by_cases hlen : i.val < s.ri.length <;> simp [hlen]
      · simp [hij]
    | _ => rfl

end

theorem length_linesOf (devices : List Device) :
    (linesOf devices).length = (devices.filter displayed).length :=
  List.length_mapIdx

section

variable {scan : Scanf} {f : Frame} {devices : List Device} {typed : Int}

theorem fits_of_pickDev {p : Picked} (h : pickDev scan f devices typed = some p) :
    fits devices := by
  rw [pickDev, ← listing_nil, Option.bind_eq_bind, Option.bind_eq_some_iff] at h
  obtain ⟨s, hs, -⟩ := h
  have hnil : fits [] := ⟨by simp, by simp⟩
  exact fits_of_listDevices hnil hs

theorem listDevices_start (hfits : fits devices) :
    listDevices ⟨0, 0, List.replicate 32 0, []⟩ devices = some (listing devices) := by
  rw [← listing_nil, listDevices_eq (by rwa [List.nil_append]), List.nil_append]

theorem toNat_count (hfits : fits devices) :
    (listing devices).count.toNat = (devices.filter displayed).length := by
  have hle := length_filter_le hfits
  simp only [listing, BitVec.toNat_ofNat]
  omega

theorem pickDev_nil (hfits : fits devices) (hnil : devices.filter displayed = []) :
    pickDev scan f devices typed = some ⟨[], none⟩ := by
  have hcount : (listing devices).count = 0 := by simp [listing, hnil]
  have hprinted : (listing devices).printed = [] := by simp [listing, linesOf, hnil]
  rw [pickDev, listDevices_start hfits, Option.bind_eq_bind, Option.bind_some, if_pos hcount,
    hprinted]

theorem pickDev_eq (hfits : fits devices) (hne : devices.filter displayed ≠ []) :
    pickDev scan f devices typed =
      if f.returns (scan.stored typed) = false then none
      else if f.refuses (scan.stored typed) (listing devices).count then
        some ⟨linesOf devices, none⟩
      else if f.follows (scan.stored typed) = false then none
      else
        let s := (listing devices).overwrite f (scan.stored typed)
        (findTarget s.ri ((scan.stored typed).setWidth 8) s.i 1 0).bind fun targetNum =>
          devices[targetNum.toNat - 1]?.map fun d =>
            ⟨linesOf devices, some (narrowBytes d.name)⟩ := by
  have hcount : (listing devices).count ≠ 0 := by
    intro hz
    have hlen := toNat_count hfits
    rw [hz] at hlen
    exact hne (List.length_eq_zero_iff.mp hlen.symm)
  have hzero (b : Byte) : b < 1 ↔ b = 0 := by
    rw [BitVec.lt_def, ← BitVec.toNat_inj]
    simp
  rw [pickDev, listDevices_start hfits, Option.bind_eq_bind, Option.bind_some, if_neg hcount]
  simp only [Listing.overwrite, hzero, count_foldl_write, printed_foldl_write, List.head?_drop,
    Option.bind_eq_bind, Option.map_eq_bind]
  rfl

/-- The number on a line is the place of its device among those displayed, counted from 1. -/
theorem mem_linesOf {line : Line} (hfits : fits devices) :
    line ∈ linesOf devices ↔
      ∃ n d, (devices.filter displayed)[n]? = some d ∧ line.number.toNat = n + 1 ∧
        line = lineOf line.number d := by
  have hle := length_filter_le hfits
  rw [List.mem_iff_getElem?]
  constructor
  · rintro ⟨n, hn⟩
    rw [linesOf, List.getElem?_mapIdx, Option.map_eq_some_iff] at hn
    obtain ⟨d, hd, rfl⟩ := hn
    have hlt := (List.getElem?_eq_some_iff.mp hd).1
    refine ⟨n, d, hd, ?_, rfl⟩
    simp only [lineOf, BitVec.toNat_ofNat]
    omega
  · rintro ⟨n, d, hd, hnum, hline⟩
    refine ⟨n, ?_⟩
    rw [linesOf, List.getElem?_mapIdx, hd, Option.map_some, ← hnum, BitVec.ofNat_toNat,
      BitVec.setWidth_eq, ← hline]

theorem told_iff (hfits : fits devices) (h1 : 1 ≤ typed) {name : Option (List Byte)} {d : Device}
    (hd : (devices.filter displayed)[typed.toNat - 1]? = some d) :
    (∃ line ∈ linesOf devices, (line.number.toNat : Int) = typed ∧
      name = some (narrowBytes line.name)) ↔ name = some (narrowBytes d.name) := by
  have hlt := (List.getElem?_eq_some_iff.mp hd).1
  have hle := length_filter_le hfits
  constructor
  · rintro ⟨line, hline, hnum, rfl⟩
    obtain ⟨n, e, he, hn, hof⟩ := (mem_linesOf hfits).mp hline
    have hplace : typed.toNat - 1 = n := by omega
    rw [hplace, he] at hd
    obtain rfl := Option.some.inj hd
    rw [hof]
    rfl
  · rintro rfl
    have hnum : (BitVec.ofNat 8 typed.toNat).toNat = typed.toNat := by
      rw [BitVec.toNat_ofNat]
      omega
    refine ⟨lineOf (BitVec.ofNat 8 typed.toNat) d, (mem_linesOf hfits).mpr
      ⟨typed.toNat - 1, d, hd, ?_, rfl⟩, ?_, rfl⟩
    · rw [lineOf, hnum]
      omega
    · rw [lineOf, hnum]
      omega

theorem countAfter_zeros {num : BitVec 32} (h : num.toNat < 256) (c : Byte) :
    f.countAfter num c = if .count ∈ f.locals then 0 else c := by
  rw [Frame.countAfter, writes_of_lt f h]
  generalize f.locals = ls
  induction ls generalizing c with
  | nil => rfl
  | cons l ls ih =>
    rw [List.map_cons, List.foldl_cons, ih]
    by_cases hl : l = .count
    · simp [hl]
    · simp [hl, eq_comm]

theorem marks_left (f : Frame) (devices : List Device) {j : Nat} (hj : 1 ≤ j) :
    ((f.locals.map (·, 0)).foldl Listing.write (listing devices)).ri[j]? =
      if j < 32 then
        some (if (devices[j - 1]?).any displayed && !f.hits j then 1 else 0)
      else none := by
  rw [ri_foldl_write]
  have hmark : (listing devices).ri[j]? = if j < 32 then some (mark devices j) else none := by
    simp only [listing, marks, List.getElem?_map]
    by_cases hlt : j < 32
    · simp [hlt]
    · simp [hlt]
  rw [hmark, mark]
  change (if f.hits j then _ else _) = _
  by_cases hlt : j < 32 <;> cases f.hits j <;> simp [hlt, hj]

theorem toNat_stored (h : 0 ≤ typed) (hlt : typed < 256) :
    (scan.stored typed).toNat = typed.toNat := by
  rw [scan.stored_int typed (by omega) (by omega), BitVec.toNat_ofInt]
  omega

theorem toNat_low (num : BitVec 32) (h : num.toNat < 256) :
    (num.setWidth 8 : Byte).toNat = num.toNat := by
  rw [BitVec.toNat_setWidth]
  omega

/-- A number that was printed passes the range check, where the count is left. -/
theorem refuses_iff (f : Frame) (num : BitVec 32) (hfits : fits devices) (h1 : 1 ≤ num.toNat)
    (hle : num.toNat ≤ (devices.filter displayed).length) :
    f.refuses num (listing devices).count ↔ .count ∈ f.locals := by
  have h31 := length_filter_le hfits
  have hlow := toNat_low num (by omega)
  rw [Frame.refuses, countAfter_zeros (by omega), ← BitVec.toNat_inj, BitVec.lt_def, hlow]
  by_cases hc : .count ∈ f.locals
  · simp [hc]
    omega
  · rw [if_neg hc, toNat_count hfits]
    simp [hc]
    omega

theorem filter_ne_nil (h1 : 1 ≤ typed) (hle : typed ≤ (devices.filter displayed).length) :
    devices.filter displayed ≠ [] := by
  intro hnil
  rw [hnil, List.length_nil] at hle
  omega

theorem pickDev_found (hfits : fits devices) (h1 : 1 ≤ typed)
    (hle : typed ≤ (devices.filter displayed).length) (hr : f.returns (scan.stored typed) = true)
    (hc : .count ∉ f.locals) (hp : f.follows (scan.stored typed) = true) :
    pickDev scan f devices typed = (found f devices typed.toNat).map fun d =>
      ⟨linesOf devices, some (narrowBytes d.name)⟩ := by
  have h31 := length_filter_le hfits
  have hne := filter_ne_nil h1 hle
  have hnum : (scan.stored typed).toNat = typed.toNat := toNat_stored (by omega) (by omega)
  have hlow := toNat_low (scan.stored typed) (by omega)
  have hin := (refuses_iff f (scan.stored typed) hfits (by omega) (by omega)).not.mpr hc
  have hkeep (j : Nat) (hj : 1 ≤ j)
      (hk : ((devices[j - 1]?).any displayed && !f.hits j) = true) : j < 32 := by
    obtain ⟨d, hd, hdd⟩ := (Option.any_eq_true _ _).mp (Bool.and_eq_true_iff.mp hk).1
    have hlt := hfits.2 _ d hd hdd
    omega
  have hbound : ((f.locals.map (·, 0)).foldl Listing.write (listing devices)).i =
      f.bound devices.length := i_foldl_write _ _
  have hpos : 0 < ((scan.stored typed).setWidth 8 : Byte).toNat := by
    rw [hlow]
    omega
  have hloop := findTarget_eq (fun _ hj => marks_left f devices hj) hkeep
    (f.bound devices.length) (le_refl 1) (by decide) hpos
  have hend : 1 + f.bound devices.length ≤ 32 ↔ f.bound devices.length ≤ 31 := by omega
  rw [pickDev_eq hfits hne, if_neg (by simp [hr]), if_neg hin, if_neg (by simp [hp]),
    Listing.overwrite, writes_of_lt f (by omega)]
  simp only [hbound, hloop, hlow, hnum, Nat.sub_zero, hend]
  rw [found, kept]
  cases hplace : ((List.range' 1 (f.bound devices.length)).filter fun j =>
      (devices[j - 1]?).any displayed && !f.hits j)[typed.toNat - 1]? with
  | some n =>
    obtain ⟨hmem, hk⟩ := List.mem_filter.mp (List.mem_of_getElem? hplace)
    have hlt := hkeep n (List.mem_range'_1.mp hmem).1 hk
    have hn : (BitVec.ofNat 8 n).toNat = n := by
      rw [BitVec.toNat_ofNat]
      omega
    simp [hn]
  | none =>
    by_cases hb : f.bound devices.length ≤ 31
    · simp [hb, hlow, hnum]
    · simp [hb]

/-- A name is copied unless the range check refuses the number. -/
theorem name_of_pickDev (hfits : fits devices) (hne : devices.filter displayed ≠ []) {p : Picked}
    (h : pickDev scan f devices typed = some p) : f.returns (scan.stored typed) = true ∧
      p.printed = linesOf devices ∧
      (p.name = none ↔ f.refuses (scan.stored typed) (listing devices).count) := by
  rw [pickDev_eq hfits hne] at h
  obtain ⟨hr, h⟩ := Option.ite_none_left_eq_some.mp h
  refine ⟨eq_true_of_ne_false hr, ?_⟩
  split at h
  case isTrue hout =>
    obtain rfl := Option.some.inj h
    simpa using hout
  case isFalse hin =>
    obtain ⟨-, h⟩ := Option.ite_none_left_eq_some.mp h
    obtain ⟨targetNum, -, h⟩ := Option.bind_eq_some_iff.mp h
    obtain ⟨d, -, rfl⟩ := Option.map_eq_some_iff.mp h
    simpa using hin

/-- A number that was printed is told where `count`, `alldevs` and `name` are left, and the name of
its device is found. -/
theorem told_printed (hfits : fits devices) (h1 : 1 ≤ typed)
    (hle : typed ≤ (devices.filter displayed).length)
    (hr : f.returns (scan.stored typed) = true) :
    (∃ p, pickDev scan f devices typed = some p ∧ Picks p typed) ↔
      .count ∉ f.locals ∧ f.follows (scan.stored typed) = true ∧
        nameOf (found f devices typed.toNat) =
          nameOf (devices.filter displayed)[typed.toNat - 1]? := by
  have h31 := length_filter_le hfits
  have hlive : ¬ f.returns (scan.stored typed) = false := by simp [hr]
  obtain ⟨d, hd⟩ : ∃ d, (devices.filter displayed)[typed.toNat - 1]? = some d :=
    ⟨_, List.getElem?_eq_getElem (by omega)⟩
  have hne := filter_ne_nil h1 hle
  have htold {p : Picked} (hlines : p.printed = linesOf devices) :
      Picks p typed ↔ p.name = some (narrowBytes d.name) := by
    rw [← told_iff hfits h1 hd, ← hlines]
    have hin : typed ≤ p.printed.length := by rwa [hlines, length_linesOf]
    exact ⟨fun h => h.told h1 hin, fun h => ⟨fun _ _ => h, fun hout => absurd ⟨h1, hin⟩ hout⟩⟩
  have hnum : (scan.stored typed).toNat = typed.toNat := toNat_stored (by omega) (by omega)
  have hrefuses := refuses_iff f (scan.stored typed) hfits (by omega) (by omega)
  rw [hd]
  by_cases hc : .count ∈ f.locals
  · have hrun : pickDev scan f devices typed = some ⟨linesOf devices, none⟩ := by
      rw [pickDev_eq hfits hne, if_neg hlive, if_pos (hrefuses.mpr hc)]
    simp [hrun, htold, hc]
  · cases hp : f.follows (scan.stored typed) with
    | false =>
      have hrun : pickDev scan f devices typed = none := by
        rw [pickDev_eq hfits hne, if_neg hlive, if_neg (hrefuses.not.mpr hc), if_pos hp]
      simp [hrun]
    | true =>
      rw [pickDev_found hfits h1 hle hr hc hp]
      cases hfound : found f devices typed.toNat <;> simp [hc, htold, nameOf]

theorem told_unprinted (hfits : fits devices) (hne : devices.filter displayed ≠ [])
    (hout : ¬(1 ≤ typed ∧ typed ≤ (devices.filter displayed).length))
    (hr : f.returns (scan.stored typed) = true) :
    (∃ p, pickDev scan f devices typed = some p ∧ Picks p typed) ↔
      f.refuses (scan.stored typed) (listing devices).count := by
  have hlen := length_linesOf devices
  constructor
  · rintro ⟨p, hrun, hpicks⟩
    obtain ⟨-, hlines, hname⟩ := name_of_pickDev hfits hne hrun
    exact hname.mp (hpicks.refused (by rwa [hlines, hlen]))
  · intro hrefused
    have hlive : ¬ f.returns (scan.stored typed) = false := by simp [hr]
    have hrun : pickDev scan f devices typed = some ⟨linesOf devices, none⟩ := by
      rw [pickDev_eq hfits hne, if_neg hlive, if_pos hrefused]
    exact ⟨_, hrun, fun h1 h2 => absurd ⟨h1, by rwa [← hlen]⟩ hout, fun _ => rfl⟩

end

/-- The number typed picks the device that was printed with it, without an access out of bounds,
exactly when the devices displayed are among the first 31 and, if there are any, `return` is left
what it needs and the number is told. -/
theorem picks_iff (scan : Scanf) (f : Frame) (devices : List Device) (typed : Int) :
    (∃ p, pickDev scan f devices typed = some p ∧ Picks p typed) ↔
      fits devices ∧ (devices.filter displayed = [] ∨
        f.returns (scan.stored typed) = true ∧ numberTold scan f devices typed) := by
  by_cases hfits : fits devices
  case neg =>
    exact ⟨fun ⟨_, hp, _⟩ => absurd (fits_of_pickDev hp) hfits, fun h => absurd h.1 hfits⟩
  rw [and_iff_right hfits]
  by_cases hnil : devices.filter displayed = []
  · refine ⟨fun _ => Or.inl hnil, fun _ => ⟨_, pickDev_nil hfits hnil, fun h1 h2 => ?_,
      fun _ => rfl⟩⟩
    have hzero : typed ≤ 0 := h2
    omega
  rw [or_iff_right hnil, numberTold]
  by_cases hr : f.returns (scan.stored typed) = true
  case neg =>
    exact ⟨fun ⟨_, hrun, _⟩ => absurd (name_of_pickDev hfits hnil hrun).1 hr,
      fun h => absurd h.1 hr⟩
  rw [and_iff_right hr]
  split
  case isTrue hprinted => exact told_printed hfits hprinted.1 hprinted.2 hr
  case isFalse hout => exact told_unprinted hfits hnil hout hr

/-- A `scanf` that keeps the low 32 bits of any integer. -/
def wrapping : Scanf := ⟨fun n => BitVec.ofInt 32 n, fun _ _ _ => rfl⟩

def loopback : Device := ⟨PCAP_IF_LOOPBACK, none, none, ⟨[78, 80, 70], by simp⟩⟩

def silent : Device := ⟨0, none, none, ⟨[78, 80, 71], by simp⟩⟩

def wired : Device := ⟨8, none, none, ⟨[78, 80, 72], by simp⟩⟩

/-- With `ri` behind `targetNum`, the number of the first device picks the last: the zeros behind
the 1 take its mark away. -/
example : (pickDev wrapping ⟨.ri 0, .ri 1, .ri 2⟩ [loopback, silent, wired] 1).map Picked.name =
    some (some (narrowBytes wired.name)) := by decide

/-- Wherever the locals are: the number 16843009, four times the byte 1, was not printed, but leaves
1 in `targetNum`, in `count` and in the mark of the only device. -/
theorem unprinted_number_picks : ¬ ∃ (scan : Scanf) (f : Frame),
    ∀ (devices : List Device) (typed : Int),
      ∃ p, pickDev scan f devices typed = some p ∧ Picks p typed := by
  rintro ⟨scan, f, h⟩
  obtain ⟨p, hp, hpicks⟩ := h [loopback] 16843009
  have hfits : fits [loopback] := fits_of_pickDev hp
  have hstored : scan.stored 16843009 = 0x01010101 :=
    scan.stored_int 16843009 (by decide) (by decide)
  have hshown : [loopback].filter displayed = [loopback] := rfl
  obtain ⟨-, hlines, hname⟩ := name_of_pickDev hfits (by simp [hshown]) hp
  have hnone : p.name = none := by
    refine hpicks.refused fun hin => absurd hin.2 ?_
    rw [hlines, length_linesOf, hshown]
    decide
  have hrefused := hname.mp hnone
  have hcount : f.countAfter 0x01010101 1 = 1 := by simp [Frame.countAfter, Frame.writes]
  rw [hstored] at hrefused
  rcases hrefused with hzero | hlt
  · exact absurd hzero (by decide)
  · have hone : (listing [loopback]).count = 1 := by decide
    rw [hone, hcount] at hlt
    exact absurd hlt (by decide)

end Cexp.PickDevice
