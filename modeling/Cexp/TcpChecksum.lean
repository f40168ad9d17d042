import Cexp.OnesComplement
import Cexp.TcpPacket

/-! What a receiver of a datagram sums up before it believes it: the IP header, and the TCP
segment behind its pseudo-header. -/

namespace TcpPacket

open OnesComplement

/-- Both addresses, the protocol and the length of the segment. -/
def pseudoHeader (l : List Byte) (len : Nat) : List Byte :=
  (l.drop 12).take 8 ++ [0, l.getD 9 0] ++ [BitVec.ofNat 8 (len / 256), BitVec.ofNat 8 len]

/-- The words of the IP header, and those of the pseudo-header and the segment, sum to all ones. -/
structure Verified (l : List Byte) (ip : IpHeader) (seg : List Byte) : Prop where
  header : sumBE (l.take (4 * ip.ihl)) = 0xFFFF
  segment : sumBE (pseudoHeader l seg.length ++ seg) = 0xFFFF

def verifies (l : List Byte) : Bool :=
  match parseIp l with
  | none => false
  | some (ip, seg, _) =>
    sumBE (l.take (4 * ip.ihl)) == 0xFFFF && sumBE (pseudoHeader l seg.length ++ seg) == 0xFFFF

theorem verifies_iff {l : List Byte} : verifies l = true ↔
    ∃ ip seg trailer, parseIp l = some (ip, seg, trailer) ∧ Verified l ip seg := by
  unfold verifies
  cases hp : parseIp l with
  | none => simp
  | some r =>
    obtain ⟨ip, seg, trailer⟩ := r
    rw [Bool.and_eq_true, beq_iff_eq, beq_iff_eq]
    constructor
    · rintro ⟨hh, hs⟩
      exact ⟨ip, seg, trailer, rfl, hh, hs⟩
    · rintro ⟨ip', seg', trailer', he, hv⟩
      simp only [Option.some.injEq, Prod.mk.injEq] at he
      obtain ⟨rfl, rfl, rfl⟩ := he
      exact ⟨hv.header, hv.segment⟩

theorem pseudoHeader_set {l : List Byte} {i : Nat} (hi : 20 ≤ i) (b : Byte) (len : Nat) :
    pseudoHeader (l.set i b) len = pseudoHeader l len := by
  have h9 : (l.set i b).getD 9 0 = l.getD 9 0 := by
    rw [List.getD_eq_getElem?_getD, List.getElem?_set_ne (by omega), ← List.getD_eq_getElem?_getD]
  have h12 : ((l.set i b).drop 12).take 8 = (l.drop 12).take 8 := by
    rw [List.drop_set, if_neg (by omega), List.take_set_of_le (by omega)]
  rw [pseudoHeader, h9, h12, pseudoHeader]

theorem be16_set {l : List Byte} {i j : Nat} (hi : j + 2 ≤ i) (b : Byte) :
    be16 (l.set i b) j = be16 l j := by
  have hother {n : Nat} (hn : n < i) : (l.set i b).getD n 0 = l.getD n 0 := by
    rw [List.getD_eq_getElem?_getD, List.getElem?_set_ne (by omega), ← List.getD_eq_getElem?_getD]
  rw [be16, hother (by omega), hother (by omega), be16]

/-- A datagram that verifies does no longer with any one of its bytes changed, as long as its
header is taken to be as long. -/
theorem verifies_set {l seg trailer : List Byte} {ip : IpHeader}
    (hp : parseIp l = some (ip, seg, trailer)) (hv : Verified l ip seg) {i : Nat} (b : Byte)
    (hi : i < ip.totalLength) (hb : l[i]? ≠ some b) (h0 : i = 0 → b.toNat % 16 = ip.ihl) :
    verifies (l.set i b) = false := by
  obtain ⟨hihl5, hihl, htotal, hseg, -⟩ := parseIp_eq_some hp
  obtain ⟨hihl0, htotal0⟩ := parseIp_lengths hp
  have hil : i < l.length := by omega
  have hne : l[i] ≠ b := fun he => hb (by rw [List.getElem?_eq_getElem hil, he])
  rw [Bool.eq_false_iff]
  intro hset
  obtain ⟨ip', seg', trailer', hp', hv'⟩ := verifies_iff.mp hset
  obtain ⟨-, -, -, hseg', -⟩ := parseIp_eq_some hp'
  obtain ⟨hihl', htotal'⟩ := parseIp_lengths hp'
  have hsame : ip'.ihl = ip.ihl := by
    rw [hihl']
    by_cases hz : i = 0
    · subst hz
      rw [← h0 rfl, List.getD_eq_getElem?_getD, List.getElem?_set_self hil, Option.getD_some]
    · rw [hihl0, List.getD_eq_getElem?_getD, List.getElem?_set_ne hz,
        ← List.getD_eq_getElem?_getD]
  by_cases hhead : i < 4 * ip.ihl
  · -- The byte is one of the header.
    have hlen : i < (l.take (4 * ip.ihl)).length := by
      rw [List.length_take]
      omega
    have hne' : (l.take (4 * ip.ihl))[i] ≠ b := by rwa [List.getElem_take]
    apply sumBE_set_ne hlen hne'
    rw [← List.take_set, hv.header, ← hsame]
    exact hv'.header
  · -- The byte is one of the segment, which has the same length and the same pseudo-header.
    have hsame' : ip'.totalLength = ip.totalLength := by
      rw [htotal', be16_set (by omega), htotal0]
    have hsegs : seg' = seg.set (i - 4 * ip.ihl) b := by
      rw [hseg', hseg, hsame, hsame', List.take_set, List.drop_set, if_neg hhead]
    have hlen : seg.length = ip.totalLength - 4 * ip.ihl := by
      rw [hseg, List.length_drop, List.length_take]
      omega
    have hj : i - 4 * ip.ihl < seg.length := by omega
    have hat : seg[i - 4 * ip.ihl] ≠ b := by
      simp only [hseg, List.getElem_drop, List.getElem_take, Nat.add_sub_cancel' (not_lt.mp hhead)]
      exact hne
    apply sumBE_append_set_ne hj hat
    rw [hv.segment, ← hsegs, ← pseudoHeader_set (by omega : 20 ≤ i) b]
    have hsum := hv'.segment
    rwa [hsegs, List.length_set, ← hsegs] at hsum

end TcpPacket
