import Cexp.FrameReply
import Cexp.TcpChecksum
import Cexp.Transition

/-! `cb_pcap_data_received` of `Main_net.c`: every captured frame goes out again with the link
addresses of another station, in a block that is never freed. -/

namespace Cexp.MainNet

open Transition ProFrame

def PRO_ARP : BitVec 32 := 0x0806

def PRO_IPV4 : BitVec 32 := 0x0800

inductive FrameType where
  | unknown
  | loopback
  | ipv4
  | arp
  deriving DecidableEq, Repr

/-- What is captured of a frame, and the length it had on the wire. -/
structure Captured where
  bytes : List Byte
  len : BitVec 32

/-- The blocks that `malloc` has returned, by size, the frame for replies, and what has been
passed to `send_data`. -/
structure State where
  blocks : List Nat
  gtcpFrame : TcpFrame
  sent : List (List Byte)

/-- `none` where it reads behind what is captured. -/
def frameType (bytes : List Byte) : Option FrameType :=
  if bytes.length < 4 then none
  else if isLoopback bytes then some .loopback
  else if bytes.length < 14 then none
  else
    let ethType := (byteAt bytes 12).setWidth 32 <<< 8 ||| (byteAt bytes 13).setWidth 32
    some (if ethType = PRO_ARP then .arp else if ethType = PRO_IPV4 then .ipv4 else .unknown)

def fmac : List Byte := [0xEA, 0x92, 0xA4, 0xFA, 0x43, 0x7C]

def smac : List Byte := [0xC0, 0xB6, 0xF9, 0x89, 0xEC, 0xE8]

/-- The condition of the first branch, `1`. -/
def forwarding : Bool := true

/-- The copy with its first twelve bytes written over. -/
def forwarded (bytes : List Byte) : List Byte := memcpy (memcpy bytes 0 fmac) 6 smac

def State.forward (s : State) (bytes : List Byte) : Option State :=
  if bytes.length < 12 then none
  else some { s with
    blocks := s.blocks ++ [bytes.length], sent := s.sent ++ [forwarded bytes] }

def replyPayload : Payload := ⟨[0x78, 0x77, 0x68], by decide⟩

def State.reply (s : State) (h : Captured) : Option State :=
  if h.bytes.length < linkLen h.bytes + 32 then none
  else
    let gtcpFrame := tcpRepFrame s.gtcpFrame h.bytes h.len replyPayload
    some { s with gtcpFrame := gtcpFrame, sent := s.sent ++ [packet gtcpFrame h.bytes 3] }

def cbPcapDataReceived (s : State) (h : Captured) : Option State := do
  let frameType ← frameType h.bytes
  if forwarding then s.forward h.bytes
  else
    match frameType with
    | .loopback | .ipv4 => s.reply h
    | _ => some s

/-- The bytes that are read and written over are captured. -/
def Captured.long (h : Captured) : Bool :=
  if isLoopback h.bytes then 12 ≤ h.bytes.length else 14 ≤ h.bytes.length

theorem Captured.length_of_long {h : Captured} (hl : h.long = true) : 12 ≤ h.bytes.length := by
  unfold Captured.long at hl
  split at hl
  case isTrue => exact of_decide_eq_true hl
  case isFalse => exact le_trans (by decide) (of_decide_eq_true hl)

theorem forwarded_eq {bytes : List Byte} (h : 12 ≤ bytes.length) :
    forwarded bytes = fmac ++ smac ++ bytes.drop 12 := by
  have hfirst : memcpy bytes 0 fmac = fmac ++ bytes.drop 6 := by simp [memcpy, fmac]
  have hdrop : bytes.drop 12 = (bytes.drop 6).drop 6 := by rw [List.drop_drop]
  have hsplit : fmac ++ bytes.drop 6 = fmac ++ (bytes.drop 6).take 6 ++ bytes.drop 12 := by
    rw [hdrop, List.append_assoc, List.take_append_drop]
  rw [forwarded, hfirst, hsplit]
  exact memcpy_append 6 rfl (by simp [smac]; omega)

theorem cbPcapDataReceived_eq_some {s t : State} {h : Captured} :
    cbPcapDataReceived s h = some t ↔ h.long = true ∧ t = { s with
      blocks := s.blocks ++ [h.bytes.length], sent := s.sent ++ [forwarded h.bytes] } := by
  simp only [cbPcapDataReceived, frameType, forwarding, State.forward, Captured.long]
  by_cases hl : isLoopback h.bytes = true
  · simp only [hl, if_true]
    by_cases hshort : h.bytes.length < 12
    · have hlong : ¬ 12 ≤ h.bytes.length := not_le.mpr hshort
      by_cases h4 : h.bytes.length < 4 <;> simp [h4, hshort, hlong]
    · have h4 : ¬ h.bytes.length < 4 := by omega
      have hlong : 12 ≤ h.bytes.length := not_lt.mp hshort
      simp [h4, hshort, hlong, eq_comm]
  · simp only [hl]
    by_cases hshort : h.bytes.length < 14
    · have hlong : ¬ 14 ≤ h.bytes.length := not_le.mpr hshort
      by_cases h4 : h.bytes.length < 4 <;> simp [h4, hshort, hlong]
    · have h4 : ¬ h.bytes.length < 4 := by omega
      have h12 : ¬ h.bytes.length < 12 := by omega
      have hlong : 14 ≤ h.bytes.length := not_lt.mp hshort
      simp [h4, h12, hshort, hlong, eq_comm]

/-- The packet in a forwarded frame is the one received, between other stations. -/
def readdressed (p : TcpPacket.Packet) : TcpPacket.Packet :=
  match p.link with
  | .ethernet _ _ etherType => { p with link := .ethernet fmac smac etherType }
  | .loopback _ => p

theorem drop_forwarded {bytes : List Byte} {n : Nat} (h : 12 ≤ bytes.length) (hn : 12 ≤ n) :
    (forwarded bytes).drop n = bytes.drop n := by
  obtain ⟨m, rfl⟩ := Nat.exists_eq_add_of_le hn
  rw [forwarded_eq h, ← List.drop_drop, List.drop_left' (i := 12) rfl, List.drop_drop]

theorem parse_forwarded {bytes : List Byte} (h : 12 ≤ bytes.length) {p : TcpPacket.Packet}
    (hp : TcpPacket.parse .ethernet bytes = some p) :
    TcpPacket.parse .ethernet (forwarded bytes) = some (readdressed p) := by
  obtain ⟨l, seg, hlink, hip, htcp⟩ := TcpPacket.parse_eq_some hp
  obtain ⟨h14, hp', rfl⟩ := TcpPacket.parseLink_ethernet hlink
  have hlen : (forwarded bytes).length = bytes.length := by
    rw [forwarded_eq h, List.length_append, List.length_drop]
    simp [fmac, smac]
    omega
  have hlink' : TcpPacket.parseLink .ethernet (forwarded bytes) =
      some (.ethernet fmac smac (TcpPacket.be16 bytes 12), bytes.drop 14) := by
    have htype : TcpPacket.be16 (forwarded bytes) 12 = TcpPacket.be16 bytes 12 := by
      have hd := congrArg (TcpPacket.be16 · 0) (drop_forwarded h (le_refl 12))
      simpa only [TcpPacket.be16_drop, Nat.add_zero] using hd
    have hdest : (forwarded bytes).take 6 = fmac := by rw [forwarded_eq h]; rfl
    have hsrc : ((forwarded bytes).drop 6).take 6 = smac := by rw [forwarded_eq h]; rfl
    simp only [TcpPacket.parseLink]
    rw [if_pos (hlen ▸ h14), htype, hdest, hsrc, drop_forwarded h (by decide : 12 ≤ 14)]
  rw [TcpPacket.parse_of hlink' hip htcp, readdressed, hp']

/-- The header of a loopback frame is written over, with the first eight bytes of its datagram:
the length there is too small for any. -/
theorem parse_forwarded_loopback {bytes : List Byte} (h : 12 ≤ bytes.length) :
    TcpPacket.parse .loopback (forwarded bytes) = none := by
  rw [forwarded_eq h]
  simp [TcpPacket.parse, TcpPacket.parseLink, TcpPacket.parseIp, fmac]

theorem exec_callback {s t : State} {hs : List Captured} :
    exec cbPcapDataReceived s hs = some t ↔ (∀ h ∈ hs, h.long = true) ∧ t = { s with
      blocks := s.blocks ++ hs.map (fun h => h.bytes.length)
      sent := s.sent ++ hs.map (fun h => forwarded h.bytes) } := by
  induction hs generalizing s with
  | nil =>
    simp only [exec_nil, Option.some.injEq, List.map_nil, List.append_nil, List.not_mem_nil,
      false_implies, implies_true, true_and]
    exact eq_comm
  | cons h hs ih =>
    simp only [exec_cons, cbPcapDataReceived_eq_some, ih, List.forall_mem_cons, List.map_cons]
    constructor
    · rintro ⟨u, ⟨hl, rfl⟩, hls, rfl⟩
      exact ⟨⟨hl, hls⟩, by simp⟩
    · rintro ⟨⟨hl, hls⟩, rfl⟩
      exact ⟨_, ⟨hl, rfl⟩, hls, by simp⟩

/-- The callback copes with a run of frames exactly if of each enough is captured, and then it
has passed on every one: the packets are those received, with the checksums they had, between
other stations; no packet of a loopback frame survives; nothing is answered, and as many blocks
are lost as frames were received. -/
theorem captured_frames_forwarded (s : State) (hs : List Captured) :
    ((exec cbPcapDataReceived s hs).isSome = true ↔ ∀ h ∈ hs, h.long = true) ∧
      ∀ t, exec cbPcapDataReceived s hs = some t →
        t.sent = s.sent ++ hs.map (fun h => forwarded h.bytes) ∧
        t.blocks = s.blocks ++ hs.map (fun h => h.bytes.length) ∧ t.gtcpFrame = s.gtcpFrame ∧
        ∀ h ∈ hs, (∀ p, TcpPacket.parse .ethernet h.bytes = some p →
            TcpPacket.parse .ethernet (forwarded h.bytes) = some (readdressed p) ∧
              TcpPacket.verifies ((forwarded h.bytes).drop 14) =
                TcpPacket.verifies (h.bytes.drop 14)) ∧
          TcpPacket.parse .loopback (forwarded h.bytes) = none := by
  refine ⟨?_, fun t ht => ?_⟩
  · rw [Option.isSome_iff_exists]
    constructor
    · rintro ⟨t, ht⟩
      exact (exec_callback.mp ht).1
    · intro hl
      exact ⟨_, exec_callback.mpr ⟨hl, rfl⟩⟩
  · obtain ⟨hl, rfl⟩ := exec_callback.mp ht
    refine ⟨rfl, rfl, rfl, fun h hh => ?_⟩
    have h12 : 12 ≤ h.bytes.length := Captured.length_of_long (hl h hh)
    refine ⟨fun p hp => ⟨parse_forwarded h12 hp, ?_⟩, parse_forwarded_loopback h12⟩
    rw [drop_forwarded h12 (by decide)]

theorem captured_frames_forwarded_plain :
    TcpPacket.parse .ethernet (forwarded (nopFrame 5)) = some (readdressed (nopPacket 5)) := by
  have hone : exec cbPcapDataReceived ⟨[], zeroFrame, []⟩ [⟨nopFrame 5, 54⟩] =
      some ⟨[54], zeroFrame, [forwarded (nopFrame 5)]⟩ := rfl
  have h := (captured_frames_forwarded ⟨[], zeroFrame, []⟩ [⟨nopFrame 5, 54⟩]).2 _ hone
  exact ((h.2.2.2 _ (List.mem_singleton.mpr rfl)).1 (nopPacket 5) (by decide)).1

end Cexp.MainNet
