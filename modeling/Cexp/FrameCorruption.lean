import Cexp.FrameReply
import Cexp.TcpChecksum

/-! The replies as a receiver verifies them: every reply passes, and none does with one of its
bytes changed on the way. -/

namespace Cexp.ProFrame

open ByteOrder OnesComplement

theorem pseudoHeader_datagram (h : IpHdr) (seg : List Byte) (len : Nat) :
    TcpPacket.pseudoHeader (h.layout ++ seg) len = TcpPacket.pseudoHeader h.layout len := rfl

/-- The datagram of the reply, behind its link header. -/
def datagram (hf : TcpFrame) (bytes : List Byte) (blen : BitVec 32) (payload : Payload) :
    List Byte :=
  (packet (tcpRepFrame hf bytes blen payload) bytes payload.data.length).drop (linkKind bytes).size

theorem datagram_eq (hf : TcpFrame) (bytes : List Byte) (blen : BitVec 32) (payload : Payload) :
    datagram hf bytes blen payload = (tcpRepFrame hf bytes blen payload).ipHeader.layout ++
      ((tcpRepFrame hf bytes blen payload).tcpHeader.layout ++ payload.data) := by
  rw [datagram, packet_eq, List.drop_left' (length_replyLinkBytes bytes)]

/-- What a receiver takes the datagram apart into. -/
theorem parseIp_datagram (hf : TcpFrame) (bytes : List Byte) (blen : BitVec 32)
    (payload : Payload) : ∃ ip, ip.ihl = 5 ∧ ip.totalLength = 40 + payload.data.length ∧
      TcpPacket.parseIp (datagram hf bytes blen payload) =
        some (ip, (tcpRepFrame hf bytes blen payload).tcpHeader.layout ++ payload.data, []) := by
  have hlen : ((tcpRepFrame hf bytes blen payload).tcpHeader.layout ++ payload.data).length =
      20 + payload.data.length := by
    rw [List.length_append, TcpHdr.length_layout]
  have hip := parseIp_fillIpHeader (replyIp hf.ipHeader (bytes.drop (linkLen bytes))) payload.fits
    (tcpRepFrame hf bytes blen payload).ipHeader.hdrChksum hlen
  rw [datagram_eq]
  exact ⟨_, rfl, rfl, hip⟩

theorem verified_datagram (hf : TcpFrame) (bytes : List Byte) (blen : BitVec 32)
    (payload : Payload) {ip : TcpPacket.IpHeader} (hihl : ip.ihl = 5) :
    TcpPacket.Verified (datagram hf bytes blen payload) ip
      ((tcpRepFrame hf bytes blen payload).tcpHeader.layout ++ payload.data) where
  header := by
    rw [datagram_eq, hihl, List.take_left' (IpHdr.length_layout _)]
    exact ip_checksum_valid _ _
  segment := by
    rw [datagram_eq, pseudoHeader_datagram, List.length_append, TcpHdr.length_layout,
      ← List.append_assoc]
    exact tcp_checksum_valid _ rfl payload.fits

/-- A receiver accepts every reply, and refuses it with any one byte of the datagram changed,
but for a change of the header length, which moves the segment. -/
theorem reply_corruption_detected (hf : TcpFrame) (received : Received) (blen : BitVec 32)
    (payload : Payload) :
    TcpPacket.verifies (datagram hf received.bytes blen payload) = true ∧
      ∀ (i : Nat) (b : Byte), i < 40 + payload.data.length →
        (datagram hf received.bytes blen payload)[i]? ≠ some b → (i = 0 → b.toNat % 16 = 5) →
          TcpPacket.verifies ((datagram hf received.bytes blen payload).set i b) = false := by
  obtain ⟨ip, hihl, htotal, hp⟩ := parseIp_datagram hf received.bytes blen payload
  have hv := verified_datagram hf received.bytes blen payload hihl
  refine ⟨TcpPacket.verifies_iff.mpr ⟨_, _, _, hp, hv⟩, fun i b hi hb h0 => ?_⟩
  exact TcpPacket.verifies_set hp hv b (htotal ▸ hi) hb (hihl ▸ h0)

/-- The `a` of a reply arrives as `b`. -/
theorem reply_corruption_detected_payload :
    TcpPacket.verifies ((datagram zeroFrame (nopFrame 5) 54 ⟨[0x61], by decide⟩).set 40 0x62) =
      false := by
  have hb : (datagram zeroFrame (nopFrame 5) 54 ⟨[0x61], by decide⟩)[40]? ≠ some 0x62 := by
    rw [datagram_eq]
    exact fun h => absurd (Option.some.inj h) (by decide)
  exact (reply_corruption_detected zeroFrame ⟨nopFrame 5, by decide⟩ 54 ⟨[0x61], by decide⟩).2 40
    0x62 (by decide) hb (by decide)

end Cexp.ProFrame
