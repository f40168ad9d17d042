import Cexp.ByteOrder

/-! ARP packets that resolve IPv4 addresses to those of Ethernet, in their frames. -/

namespace ArpPacket

open ByteOrder

abbrev Byte := BitVec 8

structure Packet where
  dest : Vector Byte 6
  src : Vector Byte 6
  hardwareType : BitVec 16
  opcode : BitVec 16
  senderMac : Vector Byte 6
  senderIp : Vector Byte 4
  targetMac : Vector Byte 6
  targetIp : Vector Byte 4
  deriving DecidableEq, Repr

/-- Most significant byte first. -/
def wire16 (w : BitVec 16) : List Byte := [(w >>> 8).setWidth 8, w.setWidth 8]

def encode (p : Packet) : List Byte :=
  p.dest.toList ++ p.src.toList ++ wire16 0x0806 ++ wire16 p.hardwareType ++ wire16 0x0800 ++
    wire16 0x0604 ++ wire16 p.opcode ++ p.senderMac.toList ++ p.senderIp.toList ++
    p.targetMac.toList ++ p.targetIp.toList

def field (l : List Byte) (off n : Nat) : Vector Byte n := Vector.ofFn fun i => l.getD (off + i) 0

def field16 (l : List Byte) (off : Nat) : BitVec 16 :=
  le16 (l.getD (off + 1) 0) (l.getD off 0)

/-- The types are checked, and the sizes of the addresses; what follows is padding. -/
def parse (l : List Byte) : Option Packet :=
  if 42 ≤ l.length ∧ field16 l 12 = 0x0806 ∧ field16 l 16 = 0x0800 ∧ field16 l 18 = 0x0604 then
    some {
      dest := field l 0 6
      src := field l 6 6
      hardwareType := field16 l 14
      opcode := field16 l 20
      senderMac := field l 22 6
      senderIp := field l 28 4
      targetMac := field l 32 6
      targetIp := field l 38 4 }
  else none

theorem getD_append_right (a b : List Byte) {n : Nat} (i : Nat) (ha : a.length = n) :
    (a ++ b).getD (i + n) 0 = b.getD i 0 := by
  rw [List.getD_eq_getElem?_getD, List.getD_eq_getElem?_getD,
    List.getElem?_append_right (by omega), ha, Nat.add_sub_cancel]

theorem field_skip {a : List Byte} {n : Nat} (ha : a.length = n) (b : List Byte) (off k : Nat) :
    field (a ++ b) (off + n) k = field b off k := by
  apply Vector.ext
  intro i hi
  simp only [field, Vector.getElem_ofFn, Nat.add_right_comm off n]
  exact getD_append_right a b _ ha

theorem field16_skip {a : List Byte} {n : Nat} (ha : a.length = n) (b : List Byte) (off : Nat) :
    field16 (a ++ b) (off + n) = field16 b off := by
  rw [field16, Nat.add_right_comm, getD_append_right a b _ ha, getD_append_right a b _ ha, field16]

theorem field_head {n : Nat} (v : Vector Byte n) (b : List Byte) :
    field (v.toList ++ b) 0 n = v := by
  apply Vector.ext
  intro i hi
  simp [field, List.getD_eq_getElem?_getD, List.getElem?_append_left]

theorem field16_head (w : BitVec 16) (b : List Byte) : field16 (wire16 w ++ b) 0 = w :=
  le16_bytes w

theorem length_encode (p : Packet) : (encode p).length = 42 := by
  simp [encode, wire16]

/-- What is encoded is read back, however the frame is padded. -/
theorem parse_encode (p : Packet) (padding : List Byte) :
    parse (encode p ++ padding) = some p := by
  have hlong : 42 ≤ (encode p ++ padding).length := by
    rw [List.length_append, length_encode]
    omega
  have h6 (v : Vector Byte 6) : v.toList.length = 6 := Vector.length_toList
  have h4 (v : Vector Byte 4) : v.toList.length = 4 := Vector.length_toList
  have h2 (w : BitVec 16) : (wire16 w).length = 2 := rfl
  simp only [encode, List.append_assoc] at hlong ⊢
  rw [parse, if_pos]
  · simp only [field_skip (h6 _), field_skip (h4 _), field_skip (h2 _), field16_skip (h6 _),
      field16_skip (h2 _), field_head, field16_head]
  · refine ⟨hlong, ?_, ?_, ?_⟩
    all_goals simp only [field16_skip (h6 _), field16_skip (h2 _), field16_head]

end ArpPacket
