import Cexp.FrameCorruption
import Cexp.PacketForwarding

/-! Frames that are answered over and over with `tcp_rep_frame`, each reply being the next frame
received, as on a loopback device that captures what is sent on it. Packets answer packets in a
model of their own, and the frames are read as these packets. -/

namespace Cexp.ProFrame

open ByteOrder TcpPacket
open MainNet (replyPayload)

/-- `frame` and the replies that follow it, the shared `gtcpFrame` being what it was left as. -/
def exchange (gtcpFrame : TcpFrame) (frame : List Byte) : List Payload → List (List Byte)
  | [] => [frame]
  | payload :: payloads =>
    let gtcpFrame := tcpRepFrame gtcpFrame frame (BitVec.ofNat 32 frame.length) payload
    frame :: exchange gtcpFrame (packet gtcpFrame frame payload.data.length) payloads

def back : LinkHeader → LinkHeader
  | .loopback family => .loopback family
  | .ethernet dest src etherType => .ethernet src dest etherType

/-- What `blen - 44` counts besides the data. -/
def excess : LinkHeader → Nat
  | .loopback _ => 0
  | .ethernet _ _ _ => 10

/-- The numbers in the byte order in which `tcp_rep_frame` counts. -/
def counted (n : BitVec 32) : BitVec 32 := byteSwap n

/-- The packet that answers `p`. -/
def answer (p : Packet) (data : List Byte) : Packet where
  link := back p.link
  ip := ⟨4, 5, 40 + data.length, true, false, 0, 6, p.ip.destination, p.ip.source⟩
  tcp := ⟨p.tcp.dstPort, p.tcp.srcPort, p.tcp.ack,
    counted (counted p.tcp.seq + BitVec.ofNat 32 (p.data.length + excess p.link)), 5, 0x18⟩
  data := data
  trailer := []

def conversation (p : Packet) : List (List Byte) → List Packet
  | [] => [p]
  | data :: rest => p :: conversation (answer p data) rest

/-- Neither the frame nor a reply to it is taken for a loopback frame, unless it is one. -/
def Steady (frame : List Byte) : Prop :=
  isLoopback frame = true ∨ isLoopback frame = false ∧ isLoopback (frame.drop 6) = false

/-- Both headers of twenty bytes, and nothing behind the datagram. -/
structure Plain (p : Packet) : Prop where
  ihl : p.ip.ihl = 5
  dataOffset : p.tcp.dataOffset = 5
  trailer : p.trailer = []

@[simp] theorem counted_counted (n : BitVec 32) : counted (counted n) = n := byteSwap_byteSwap n

@[simp] theorem back_back (link : LinkHeader) : back (back link) = link := by
  cases link <;> rfl

@[simp] theorem excess_back (link : LinkHeader) : excess (back link) = excess link := by
  cases link <;> rfl

theorem plain_answer (p : Packet) (data : List Byte) : Plain (answer p data) := ⟨rfl, rfl, rfl⟩

/-- The link header of a frame that is read as what it is. -/
theorem parseLink_frame {frame l : List Byte} {link : LinkHeader}
    (h : parseLink (linkKind frame) frame = some (link, l)) :
    l = frame.drop (linkLen frame) ∧ back link = replyLinkHeader frame ∧
      linkLen frame = 4 + excess link ∧ linkLen frame ≤ frame.length := by
  by_cases hl : isLoopback frame = true
  · have hkind : linkKind frame = .loopback := if_pos hl
    rw [hkind] at h
    match frame, h with
    | b0 :: b1 :: b2 :: b3 :: rest, h =>
      obtain ⟨rfl, rfl⟩ := Prod.mk.inj (Option.some.inj h)
      have htwo : le32 b0 b1 b2 b3 = 2 := by simpa [isLoopback, byteAt] using hl
      refine ⟨?_, ?_, ?_, ?_⟩
      · rw [linkLen, if_pos hl]
        rfl
      · rw [replyLinkHeader, if_pos hl, htwo]
        rfl
      · rw [linkLen, if_pos hl]
        rfl
      · rw [linkLen, if_pos hl]
        simp
  · have hkind : linkKind frame = .ethernet := if_neg hl
    rw [hkind] at h
    obtain ⟨hlen, rfl, rfl⟩ := parseLink_ethernet h
    refine ⟨?_, ?_, ?_, ?_⟩
    · rw [linkLen, if_neg hl]
    · rw [replyLinkHeader, if_neg hl, macAt_eq (by omega), macAt_eq (by omega)]
      rfl
    · rw [linkLen, if_neg hl]
      rfl
    · rw [linkLen, if_neg hl]
      exact hlen

theorem parseTcp_data {l data : List Byte} {tcp : TcpHeader} (h : parseTcp l = some (tcp, data)) :
    4 * tcp.dataOffset ≤ l.length ∧ data = l.drop (4 * tcp.dataOffset) := by
  simp only [parseTcp] at h
  split at h
  case isFalse => cases h
  case isTrue hl =>
    obtain ⟨rfl, rfl⟩ := Prod.mk.inj (Option.some.inj h)
    exact ⟨hl.2, rfl⟩

theorem parseIp_trailer {l seg trailer : List Byte} {ip : IpHeader}
    (h : parseIp l = some (ip, seg, trailer)) : trailer = l.drop ip.totalLength := by
  simp only [parseIp] at h
  split at h
  case isFalse => cases h
  case isTrue =>
    simp only [Option.some.injEq, Prod.mk.injEq] at h
    obtain ⟨rfl, -, rfl⟩ := h
    rfl

/-- Where the fields of a plain packet stand in its frame, and how long that is. -/
theorem parse_plain {frame : List Byte} {p : Packet} (hp : parse (linkKind frame) frame = some p)
    (hplain : Plain p) :
    back p.link = replyLinkHeader frame ∧
      p.ip.source = be32 frame (linkLen frame + 12) ∧
      p.ip.destination = be32 frame (linkLen frame + 16) ∧
      p.tcp.srcPort = be16 frame (linkLen frame + 20) ∧
      p.tcp.dstPort = be16 frame (linkLen frame + 22) ∧
      p.tcp.seq = be32 frame (linkLen frame + 24) ∧
      p.tcp.ack = be32 frame (linkLen frame + 28) ∧
      frame.length = p.data.length + excess p.link + 44 := by
  obtain ⟨l, seg, hlink, hip, htcp⟩ := parse_eq_some hp
  obtain ⟨rfl, hback, hsize, hlen⟩ := parseLink_frame hlink
  obtain ⟨-, -, hfit, hseg, -, hsrc, hdst⟩ := parseIp_eq_some hip
  obtain ⟨h20, hsport, hdport, hseq, hack⟩ := parseTcp_eq_some htcp
  obtain ⟨-, hdata⟩ := parseTcp_data htcp
  have htrailer := parseIp_trailer hip
  rw [hplain.trailer, eq_comm, List.drop_eq_nil_iff] at htrailer
  rw [hplain.ihl, List.take_of_length_le htrailer, List.drop_drop] at hseg
  rw [hplain.dataOffset] at hdata
  refine ⟨hback, ?_, ?_, ?_, ?_, ?_, ?_, ?_⟩
  · rw [hsrc, be32_drop]
  · rw [hdst, be32_drop]
  · rw [hsport, hseg, be16_drop]
  · rw [hdport, hseg, be16_drop]
  · rw [hseq, hseg, be32_drop]
  · rw [hack, hseg, be32_drop]
  · have hsegLen := congrArg List.length hseg
    have hdataLen := congrArg List.length hdata
    simp only [List.length_drop] at hsegLen hdataLen
    omega

/-- The reply to a plain frame is read as the answer to its packet. -/
theorem replyPacket_eq_answer {frame : List Byte} {p : Packet}
    (hp : parse (linkKind frame) frame = some p) (hplain : Plain p) (data : List Byte) :
    replyPacket frame (BitVec.ofNat 32 frame.length) data = answer p data := by
  obtain ⟨hback, hsrc, hdst, hsport, hdport, hseq, hack, hlen⟩ := parse_plain hp hplain
  have hcount (n : BitVec 32) : n + BitVec.ofNat 32 frame.length - 44 =
      n + BitVec.ofNat 32 (p.data.length + excess p.link) := by
    rw [hlen, BitVec.ofNat_add, ← add_assoc]
    exact add_sub_cancel_right _ _
  rw [replyPacket, answer, hback, hsrc, hdst, hsport, hdport, hseq, hack, hcount]
  rfl

/-- The reply is steady, and on the same kind of link. -/
theorem steady_packet (hf : TcpFrame) {frame : List Byte} (hs : Steady frame) (blen : BitVec 32)
    (payload : Payload) :
    let reply := packet (tcpRepFrame hf frame blen payload) frame payload.data.length
    Steady reply ∧ linkKind reply = linkKind frame := by
  intro reply
  have hreply : reply = replyLinkBytes frame ++ _ := packet_eq hf frame blen payload
  rcases hs with hl | ⟨hl, hsrc⟩
  · rw [replyLinkBytes, if_pos hl] at hreply
    have hloop : isLoopback reply = true := by
      rw [hreply]
      exact hl
    exact ⟨Or.inl hloop, by rw [linkKind, if_pos hloop, linkKind, if_pos hl]⟩
  · have hno : ¬ isLoopback frame = true := by simp [hl]
    rw [replyLinkBytes, if_neg hno] at hreply
    have hdest : isLoopback reply = isLoopback (frame.drop 6) := by
      rw [hreply]
      simp only [isLoopback, byteAt_drop]
      rfl
    have hback : isLoopback (reply.drop 6) = isLoopback frame := by
      rw [hreply]
      rfl
    rw [hsrc] at hdest
    rw [hl] at hback
    refine ⟨Or.inr ⟨hdest, hback⟩, ?_⟩
    rw [linkKind, if_neg (by simp [hdest]), linkKind, if_neg hno]

/-- The frames of an exchange are read as the packets of a conversation. -/
theorem exchange_refines (hf : TcpFrame) {frame : List Byte} {p : Packet}
    (hp : parse (linkKind frame) frame = some p) (hplain : Plain p) (hs : Steady frame)
    (payloads : List Payload) :
    (exchange hf frame payloads).map (parse (linkKind frame)) =
      (conversation p (payloads.map Payload.data)).map some := by
  induction payloads generalizing hf frame p with
  | nil => simp [exchange, conversation, hp]
  | cons payload payloads ih =>
    obtain ⟨hsteady, hkind⟩ :=
      steady_packet hf hs (BitVec.ofNat 32 frame.length) payload
    have hparse := parse_packet hf frame (BitVec.ofNat 32 frame.length) payload
    rw [replyPacket_eq_answer hp hplain, ← hkind] at hparse
    have hrest := ih (tcpRepFrame hf frame (BitVec.ofNat 32 frame.length) payload) hparse
      (plain_answer p payload.data) hsteady
    rw [hkind] at hrest
    simp only [exchange, conversation, List.map_cons, hp, hrest]

/-- Both checksums of every reply are right. -/
theorem exchange_verifies (hf : TcpFrame) {frame : List Byte} (hs : Steady frame)
    (payloads : List Payload) : ∀ reply ∈ (exchange hf frame payloads).tail,
      verifies (reply.drop (linkKind frame).size) = true := by
  induction payloads generalizing hf frame with
  | nil =>
    intro reply hr
    cases hr
  | cons payload payloads ih =>
    intro reply hr
    obtain ⟨hsteady, hkind⟩ :=
      steady_packet hf hs (BitVec.ofNat 32 frame.length) payload
    have hrest := ih (tcpRepFrame hf frame (BitVec.ofNat 32 frame.length) payload) hsteady
    rw [hkind] at hrest
    have hfirst : verifies ((packet (tcpRepFrame hf frame (BitVec.ofNat 32 frame.length) payload)
        frame payload.data.length).drop (linkKind frame).size) = true := by
      obtain ⟨ip, hihl, -, hip⟩ := parseIp_datagram hf frame (BitVec.ofNat 32 frame.length) payload
      exact verifies_iff.mpr ⟨_, _, _, hip, verified_datagram hf frame _ payload hihl⟩
    simp only [exchange, List.tail_cons] at hr
    cases payloads with
    | nil =>
      obtain rfl := List.mem_singleton.mp hr
      exact hfirst
    | cons next payloads =>
      rcases List.mem_cons.mp hr with rfl | hr
      · exact hfirst
      · exact hrest reply hr

/-- `b` goes the way of `a`, with the numbers of its sender further on by `n`. -/
structure Continues (a b : Packet) (n : Nat) : Prop where
  link : b.link = a.link
  source : b.ip.source = a.ip.source
  destination : b.ip.destination = a.ip.destination
  srcPort : b.tcp.srcPort = a.tcp.srcPort
  dstPort : b.tcp.dstPort = a.tcp.dstPort
  seq : counted b.tcp.seq = counted a.tcp.seq + BitVec.ofNat 32 n

theorem Continues.refl (a : Packet) : Continues a a 0 :=
  ⟨rfl, rfl, rfl, rfl, rfl, (add_zero _).symm⟩

theorem Continues.trans {a b c : Packet} {m n : Nat} (hab : Continues a b m)
    (hbc : Continues b c n) : Continues a c (m + n) where
  link := hbc.link.trans hab.link
  source := hbc.source.trans hab.source
  destination := hbc.destination.trans hab.destination
  srcPort := hbc.srcPort.trans hab.srcPort
  dstPort := hbc.dstPort.trans hab.dstPort
  seq := by rw [hbc.seq, hab.seq, BitVec.ofNat_add, add_assoc]

/-- An answer to an answer. -/
theorem continues_answer_answer (p : Packet) (d e : List Byte) :
    Continues p (answer (answer p d) e) (p.data.length + excess p.link) where
  link := back_back p.link
  source := rfl
  destination := rfl
  srcPort := rfl
  dstPort := rfl
  seq := counted_counted _

theorem conversation_next {p a b : Packet} {ds : List (List Byte)} {i : Nat}
    (ha : (conversation p ds)[i]? = some a) (hb : (conversation p ds)[i + 1]? = some b) :
    ∃ d, ds[i]? = some d ∧ b = answer a d := by
  induction ds generalizing p i with
  | nil => simp [conversation] at hb
  | cons d ds ih =>
    cases i with
    | zero =>
      obtain rfl : p = a := by simpa [conversation] using ha
      refine ⟨d, rfl, ?_⟩
      cases ds <;> simpa [conversation, eq_comm] using hb
    | succ i =>
      simp only [conversation, List.getElem?_cons_succ] at ha hb
      exact ih ha hb

theorem excess_of_mem {p q : Packet} {ds : List (List Byte)} (h : q ∈ conversation p ds) :
    excess q.link = excess p.link := by
  induction ds generalizing p with
  | nil =>
    obtain rfl := List.mem_singleton.mp h
    rfl
  | cons d ds ih =>
    rcases List.mem_cons.mp h with rfl | h
    · rfl
    · exact (ih h).trans (excess_back p.link)

/-- The data that the `k`th packet of a conversation carries, as it is counted. -/
def sentAt (p : Packet) (ds : List (List Byte)) (k : Nat) : Nat :=
  ((conversation p ds)[k]?.elim 0 fun q => q.data.length) + excess p.link

theorem conversation_continues {p a b : Packet} {ds : List (List Byte)} {i j : Nat}
    (ha : (conversation p ds)[i]? = some a) (hb : (conversation p ds)[i + 2 * j]? = some b) :
    Continues a b (∑ k ∈ Finset.range j, sentAt p ds (i + 2 * k)) := by
  induction j generalizing b with
  | zero =>
    obtain rfl := Option.some.inj (ha.symm.trans hb)
    exact Continues.refl a
  | succ j ih =>
    have hlt := (List.getElem?_eq_some_iff.mp hb).1
    obtain ⟨c, hc⟩ : ∃ c, (conversation p ds)[i + 2 * j]? = some c :=
      ⟨_, List.getElem?_eq_getElem (by omega)⟩
    obtain ⟨r, hr⟩ : ∃ r, (conversation p ds)[i + 2 * j + 1]? = some r :=
      ⟨_, List.getElem?_eq_getElem (by omega)⟩
    obtain ⟨d, -, rfl⟩ := conversation_next hc hr
    obtain ⟨e, -, rfl⟩ := conversation_next hr hb
    have hsent : sentAt p ds (i + 2 * j) = c.data.length + excess c.link := by
      rw [sentAt, hc, excess_of_mem (List.mem_of_getElem? hc)]
      rfl
    rw [Finset.sum_range_succ, hsent]
    exact (ih hc).trans (continues_answer_answer c d e)

/-- Answered over and over, a plain frame starts an exchange in which both sides stay in step.
Every reply has right checksums and is read as the answer to the frame before it, with the data
given for it and that frame's acknowledgment number for its own number. Every second frame goes the
same way, and its number, in the byte order in which `tcp_rep_frame` counts, is further on by all
the data sent that way since, and on Ethernet by ten more for each frame. -/
theorem replies_stay_in_step (hf : TcpFrame) {frame : List Byte} {p : Packet}
    (hp : parse (linkKind frame) frame = some p) (hplain : Plain p) (hs : Steady frame)
    (payloads : List Payload) :
    let ds := payloads.map Payload.data
    (exchange hf frame payloads).map (parse (linkKind frame)) = (conversation p ds).map some ∧
      (∀ reply ∈ (exchange hf frame payloads).tail,
        verifies (reply.drop (linkKind frame).size) = true) ∧
      (∀ i a b, (conversation p ds)[i]? = some a → (conversation p ds)[i + 1]? = some b →
        ds[i]? = some b.data ∧ b.tcp.seq = a.tcp.ack) ∧
      ∀ i j a b, (conversation p ds)[i]? = some a → (conversation p ds)[i + 2 * j]? = some b →
        Continues a b (∑ k ∈ Finset.range j, sentAt p ds (i + 2 * k)) := by
  intro ds
  refine ⟨exchange_refines hf hp hplain hs payloads, exchange_verifies hf hs payloads,
    fun i a b ha hb => ?_, fun i j a b ha hb => conversation_continues ha hb⟩
  obtain ⟨d, hd, rfl⟩ := conversation_next ha hb
  exact ⟨hd, rfl⟩

theorem replies_stay_in_step_plain :
    ∃ b, (conversation (nopPacket 5) [replyPayload.data, replyPayload.data])[2]? = some b ∧
      Continues (nopPacket 5) b 10 := by
  have hp : parse (linkKind (nopFrame 5)) (nopFrame 5) = some (nopPacket 5) := by decide
  obtain ⟨-, -, -, hevery⟩ := replies_stay_in_step zeroFrame hp ⟨rfl, rfl, rfl⟩
    (Or.inr ⟨by decide, by decide⟩) [replyPayload, replyPayload]
  exact ⟨_, rfl, hevery 0 1 _ _ rfl rfl⟩

end Cexp.ProFrame
