import Cexp.FrameAck
import Cexp.TcpPacket

/-! The reply as it is handed to `send_data`: what a receiver reads in it, to whom it is
addressed, and what it takes from earlier replies. -/

namespace Cexp.ProFrame

open ByteOrder

def linkKind (bytes : List Byte) : TcpPacket.LinkKind :=
  if isLoopback bytes then .loopback else .ethernet

/-- What `cb_pcap_data_received` sends of `gtcpFrame`: from `eheader` on, or from its tenth byte. -/
def packet (gtcpFrame : TcpFrame) (bytes : List Byte) (plen : Nat) : List Byte :=
  if isLoopback bytes then slice (2 + 10) (44 + plen) gtcpFrame.layout
  else slice 2 (54 + plen) gtcpFrame.layout

def macAt (bytes : List Byte) (i : Nat) : List Byte :=
  [byteAt bytes i, byteAt bytes (i + 1), byteAt bytes (i + 2), byteAt bytes (i + 3),
    byteAt bytes (i + 4), byteAt bytes (i + 5)]

/-- The link header of the reply on the wire. -/
def replyLinkBytes (bytes : List Byte) : List Byte :=
  if isLoopback bytes then [byteAt bytes 0, byteAt bytes 1, byteAt bytes 2, byteAt bytes 3]
  else macAt bytes 6 ++ macAt bytes 0 ++ [byteAt bytes 12, byteAt bytes 13]

theorem length_replyLinkBytes (bytes : List Byte) :
    (replyLinkBytes bytes).length = (linkKind bytes).size := by
  unfold replyLinkBytes linkKind
  split <;> rfl

theorem toList_mac (bytes : List Byte) (i : Nat) :
    (Vector.ofFn fun j : Fin 6 => byteAt bytes (i + j)).toList = macAt bytes i := by
  simp [Vector.toList_ofFn, List.ofFn_succ, macAt]

theorem toList_mac_zero (bytes : List Byte) :
    (Vector.ofFn fun j : Fin 6 => byteAt bytes j).toList = macAt bytes 0 := by
  simpa using toList_mac bytes 0

theorem packet_eq (hf : TcpFrame) (bytes : List Byte) (blen : BitVec 32) (payload : Payload) :
    packet (tcpRepFrame hf bytes blen payload) bytes payload.data.length =
      replyLinkBytes bytes ++ ((tcpRepFrame hf bytes blen payload).ipHeader.layout ++
        ((tcpRepFrame hf bytes blen payload).tcpHeader.layout ++ payload.data)) := by
  have he : (tcpRepFrame hf bytes blen payload).eheader = replyLink hf.eheader bytes := rfl
  have hp : (tcpRepFrame hf bytes blen payload).payload.toList =
      payload.data ++ hf.payload.toList.drop payload.data.length := payload.toList_copyTo _
  generalize tcpRepFrame hf bytes blen payload = g at he hp ⊢
  have hlayout : g.layout = bytes16 g.padding ++ g.eheader.layout ++ (g.ipHeader.layout ++
      (g.tcpHeader.layout ++ payload.data)) ++ hf.payload.toList.drop payload.data.length := by
    simp only [TcpFrame.layout, TcpFrame.headers, hp, List.append_assoc]
  unfold packet replyLinkBytes
  by_cases hl : isLoopback bytes = true
  · rw [if_pos hl, if_pos hl, hlayout, he, replyLink, if_pos hl, EthernetHdr.layout_copyLoopback]
    have hcut := slice_append (2 + 10) (44 + payload.data.length)
      (a := bytes16 g.padding ++ hf.eheader.layout.take 10)
      (b := [byteAt bytes 0, byteAt bytes 1, byteAt bytes 2, byteAt bytes 3] ++
        (g.ipHeader.layout ++ (g.tcpHeader.layout ++ payload.data)))
      (c := hf.payload.toList.drop payload.data.length) (by simp) (by simp; omega)
    rw [← hcut]
    congr 1
    simp [memcpy]
  · rw [if_neg hl, if_neg hl, hlayout, he, replyLink, if_neg hl]
    have hcut := slice_append 2 (54 + payload.data.length) (a := bytes16 g.padding)
      (b := (replyLink hf.eheader bytes).layout ++
        (g.ipHeader.layout ++ (g.tcpHeader.layout ++ payload.data)))
      (c := hf.payload.toList.drop payload.data.length) (by simp) (by simp; omega)
    rw [replyLink, if_neg hl] at hcut
    simpa [EthernetHdr.layout, bytes16_le16, toList_mac, toList_mac_zero] using hcut

theorem be16_htons (w : BitVec 16) : le16 ((htons w >>> 8).setWidth 8) ((htons w).setWidth 8) = w := by
  have h := bytes16_le16 ((w >>> 8).setWidth 8) (w.setWidth 8)
  simp only [bytes16, List.cons.injEq, and_true] at h
  rw [htons, h.1, h.2]
  exact le16_bytes w

def replyLinkHeader (bytes : List Byte) : TcpPacket.LinkHeader :=
  if isLoopback bytes then .loopback 2
  else .ethernet (macAt bytes 6) (macAt bytes 0) (TcpPacket.be16 bytes 12)

theorem parseLink_reply (bytes rest : List Byte) :
    TcpPacket.parseLink (linkKind bytes) (replyLinkBytes bytes ++ rest) =
      some (replyLinkHeader bytes, rest) := by
  unfold linkKind replyLinkBytes replyLinkHeader
  by_cases hl : isLoopback bytes = true
  · have htwo : le32 (byteAt bytes 0) (byteAt bytes 1) (byteAt bytes 2) (byteAt bytes 3) = 2 := by
      simpa [isLoopback] using hl
    simp [hl, TcpPacket.parseLink, htwo]
  · simp [hl, TcpPacket.parseLink, TcpPacket.be16, macAt, byteAt]

theorem parseIp_fillIpHeader (h : IpHdr) {n : Nat} (hn : n ≤ 4096) (c : BitVec 16)
    {seg : List Byte} (hs : seg.length = 20 + n) :
    TcpPacket.parseIp ({ fillIpHeader h n with hdrChksum := c }.layout ++ seg) =
      some (⟨4, 5, 40 + n, true, false, 0, 6, byteSwap h.srcIp, byteSwap h.dstIp⟩, seg, []) := by
  have hlayout := IpHdr.length_layout { fillIpHeader h n with hdrChksum := c }
  generalize hl : { fillIpHeader h n with hdrChksum := c }.layout ++ seg = l
  have hlen : l.length = 40 + n := by
    rw [← hl, List.length_append, hlayout, hs]
    omega
  have hfirst : l.getD 0 0 = 0x45 := by rw [← hl]; rfl
  have htotal : (TcpPacket.be16 l 2).toNat = 40 + n := by
    have hb : TcpPacket.be16 l 2 = BitVec.ofNat 16 (20 + 20 + n) := by
      rw [← hl]
      exact be16_htons _
    rw [hb, BitVec.toNat_ofNat]
    omega
  have hflags : l.getD 6 0 = 0x40 := by rw [← hl]; rfl
  have hoffset : TcpPacket.be16 l 6 =
      le16 (((2 <<< 5 : BitVec 16) >>> 8).setWidth 8) ((2 <<< 5 : BitVec 16).setWidth 8) := by
    rw [← hl]
    rfl
  have hproto : l.getD 9 0 = 6 := by rw [← hl]; rfl
  have hsrc : TcpPacket.be32 l 12 = byteSwap h.srcIp := by rw [← hl]; rfl
  have hdst : TcpPacket.be32 l 16 = byteSwap h.dstIp := by rw [← hl]; rfl
  have hseg : l.drop 20 = seg := by rw [← hl, List.drop_left' hlayout]
  have hall : l.take (40 + n) = l := List.take_of_length_le (by omega)
  have hnone : l.drop (40 + n) = [] := List.drop_of_length_le (by omega)
  simp only [TcpPacket.parseIp, hfirst, htotal, hflags, hoffset, hproto, hsrc, hdst, hall, hnone]
  have hguard : 5 ≤ (0x45 : Byte).toNat % 16 ∧ 4 * ((0x45 : Byte).toNat % 16) ≤ 40 + n ∧
      40 + n ≤ l.length := ⟨by decide, by simp; omega, by omega⟩
  have hzero : (le16 (((2 <<< 5 : BitVec 16) >>> 8).setWidth 8)
      ((2 <<< 5 : BitVec 16).setWidth 8)).toNat % 8192 = 0 := by decide
  rw [if_pos hguard, hzero]
  simp [hseg]

theorem parseTcp_fillTcpHeader (h : TcpHdr) (c : BitVec 16) (data : List Byte) :
    TcpPacket.parseTcp ({ fillTcpHeader h with flags := 0x18, chksum := c }.layout ++ data) =
      some (⟨TcpPacket.be16 (bytes16 h.srcPort) 0, TcpPacket.be16 (bytes16 h.dstPort) 0,
        byteSwap h.seq, byteSwap h.ack, 5, 0x18⟩, data) := by
  have hlayout := TcpHdr.length_layout { fillTcpHeader h with flags := 0x18, chksum := c }
  generalize hl : { fillTcpHeader h with flags := 0x18, chksum := c }.layout ++ data = l
  have hoffset : l.getD 12 0 = 0x50 := by rw [← hl]; rfl
  have hflags : l.getD 13 0 = 0x18 := by rw [← hl]; rfl
  have hsrc : TcpPacket.be16 l 0 = TcpPacket.be16 (bytes16 h.srcPort) 0 := by rw [← hl]; rfl
  have hdst : TcpPacket.be16 l 2 = TcpPacket.be16 (bytes16 h.dstPort) 0 := by rw [← hl]; rfl
  have hseq : TcpPacket.be32 l 4 = byteSwap h.seq := by rw [← hl]; rfl
  have hack : TcpPacket.be32 l 8 = byteSwap h.ack := by rw [← hl]; rfl
  have hdata : l.drop 20 = data := by rw [← hl, List.drop_left' hlayout]
  have hlen : 20 ≤ l.length := by
    rw [← hl, List.length_append, hlayout]
    omega
  simp only [TcpPacket.parseTcp, hoffset, hflags, hsrc, hdst, hseq, hack]
  rw [if_pos ⟨by decide, by simpa using hlen⟩]
  simp [hdata]

/-- What a receiver of the reply reads. -/
def replyPacket (bytes : List Byte) (blen : BitVec 32) (payload : List Byte) : TcpPacket.Packet where
  link := replyLinkHeader bytes
  ip := ⟨4, 5, 40 + payload.length, true, false, 0, 6, TcpPacket.be32 bytes (linkLen bytes + 16),
    TcpPacket.be32 bytes (linkLen bytes + 12)⟩
  tcp := ⟨TcpPacket.be16 bytes (linkLen bytes + 22), TcpPacket.be16 bytes (linkLen bytes + 20),
    TcpPacket.be32 bytes (linkLen bytes + 28),
    byteSwap (byteSwap (TcpPacket.be32 bytes (linkLen bytes + 24)) + blen - 44), 5, 0x18⟩
  data := payload
  trailer := []

theorem byteAt_drop (bytes : List Byte) (n i : Nat) :
    byteAt (bytes.drop n) i = byteAt bytes (n + i) := by
  simp [byteAt]

theorem parse_packet (hf : TcpFrame) (bytes : List Byte) (blen : BitVec 32) (payload : Payload) :
    TcpPacket.parse (linkKind bytes)
      (packet (tcpRepFrame hf bytes blen payload) bytes payload.data.length) =
        some (replyPacket bytes blen payload.data) := by
  rw [packet_eq]
  have hlen (h : TcpHdr) : (h.layout ++ payload.data).length = 20 + payload.data.length := by
    rw [List.length_append, TcpHdr.length_layout]
  have hip := parseIp_fillIpHeader (replyIp hf.ipHeader (bytes.drop (linkLen bytes))) payload.fits
    (tcpRepFrame hf bytes blen payload).ipHeader.hdrChksum
    (hlen (tcpRepFrame hf bytes blen payload).tcpHeader)
  have htcp := parseTcp_fillTcpHeader
    (replyTcp hf.tcpHeader ((bytes.drop (linkLen bytes)).drop 20) blen)
    (tcpRepFrame hf bytes blen payload).tcpHeader.chksum payload.data
  refine (TcpPacket.parse_of (parseLink_reply bytes _) hip htcp).trans ?_
  simp only [replyPacket, replyIp, replyTcp, byteSwap_le32, bytes16_le16, byteAt_drop,
    TcpPacket.be16, TcpPacket.be32, Nat.add_assoc, Nat.reduceAdd]
  rfl

/-- A reply to `bytes` that carries `payload` in a plain segment, and nothing after it. -/
structure CarriesReply (bytes payload : List Byte) (p : TcpPacket.Packet) : Prop where
  link : match p.link with
    | .loopback family => isLoopback bytes = true ∧ family = 2
    | .ethernet _ _ etherType => isLoopback bytes = false ∧ etherType = TcpPacket.be16 bytes 12
  version : p.ip.version = 4
  ihl : p.ip.ihl = 5
  protocol : p.ip.protocol = 6
  dontFragment : p.ip.dontFragment = true
  unfragmented : p.ip.moreFragments = false ∧ p.ip.fragmentOffset = 0
  dataOffset : p.tcp.dataOffset = 5
  flags : p.tcp.flags = 0x18
  data : p.data = payload
  trailer : p.trailer = []

theorem carriesReply_replyPacket (bytes : List Byte) (blen : BitVec 32) (payload : List Byte) :
    CarriesReply bytes payload (replyPacket bytes blen payload) where
  link := by
    simp only [replyPacket, replyLinkHeader]
    split
    case h_1 he =>
      split at he
      case isTrue hl => exact ⟨hl, (TcpPacket.LinkHeader.loopback.inj he).symm⟩
      case isFalse => cases he
    case h_2 he =>
      split at he
      case isTrue => cases he
      case isFalse hl =>
        exact ⟨by simpa using hl, (TcpPacket.LinkHeader.ethernet.inj he).2.2.symm⟩
  version := rfl
  ihl := rfl
  protocol := rfl
  dontFragment := rfl
  unfragmented := ⟨rfl, rfl⟩
  dataOffset := rfl
  flags := rfl
  data := rfl
  trailer := rfl

theorem length_packet (hf : TcpFrame) (bytes : List Byte) (blen : BitVec 32) (payload : Payload) :
    (packet (tcpRepFrame hf bytes blen payload) bytes payload.data.length).length =
      (linkKind bytes).size + 40 + payload.data.length := by
  rw [packet_eq]
  simp only [List.length_append, length_replyLinkBytes, IpHdr.length_layout, TcpHdr.length_layout]
  omega

/-- What is sent decodes to the payload, for every frame received on either link. -/
theorem reply_decodes (hf : TcpFrame) (received : Received) (blen : BitVec 32)
    (payload : Payload) :
    let sent := packet (tcpRepFrame hf received.bytes blen payload) received.bytes
      payload.data.length
    sent.length = (if isLoopback received.bytes then 44 else 54) + payload.data.length ∧
      ∃ p, TcpPacket.parse (linkKind received.bytes) sent = some p ∧
        CarriesReply received.bytes payload.data p ∧
        p.ip.totalLength = sent.length - (linkKind received.bytes).size := by
  intro sent
  have hlen : sent.length = (linkKind received.bytes).size + 40 + payload.data.length :=
    length_packet hf received.bytes blen payload
  refine ⟨?_, replyPacket received.bytes blen payload.data,
    parse_packet hf received.bytes blen payload, carriesReply_replyPacket _ _ _, ?_⟩
  · rw [hlen]
    unfold linkKind
    split <;> rfl
  · rw [hlen]
    simp only [replyPacket]
    omega

/-- A `tcp_rep_frame` call on the shared frame. -/
structure Call where
  received : Received
  blen : BitVec 32
  payload : Payload

def Call.reply (c : Call) (gtcpFrame : TcpFrame) : TcpFrame :=
  tcpRepFrame gtcpFrame c.received.bytes c.blen c.payload

def afterCalls (gtcpFrame : TcpFrame) (calls : List Call) : TcpFrame :=
  calls.foldl (fun hf c => c.reply hf) gtcpFrame

/-- The frame as the program starts. -/
def zeroFrame : TcpFrame :=
  ⟨0, ⟨.replicate 6 0, .replicate 6 0, 0⟩, ⟨0, 0, 0, 0, 0, 0, 0, 0, 0, 0⟩,
    ⟨0, 0, 0, 0, 0, 0, 0, 0, 0⟩, .replicate 4096 0⟩

theorem fillIpHeader_replyIp (h h' : IpHdr) (bytes : List Byte) (n : Nat) :
    fillIpHeader (replyIp h bytes) n = fillIpHeader (replyIp h' bytes) n := rfl

theorem fillTcpHeader_replyTcp (h h' : TcpHdr) (bytes : List Byte) (blen : BitVec 32) :
    fillTcpHeader (replyTcp h bytes blen) = fillTcpHeader (replyTcp h' bytes blen) := rfl

/-- Both headers are written anew in every field. -/
theorem tcpRepFrame_headers (hf hf' : TcpFrame) (bytes : List Byte) (blen : BitVec 32)
    (payload : Payload) :
    (tcpRepFrame hf bytes blen payload).ipHeader = (tcpRepFrame hf' bytes blen payload).ipHeader ∧
      (tcpRepFrame hf bytes blen payload).tcpHeader =
        (tcpRepFrame hf' bytes blen payload).tcpHeader := by
  simp only [tcpRepFrame, TcpFrame.copyPayload, fillIpHeader_replyIp hf.ipHeader hf'.ipHeader,
    fillTcpHeader_replyTcp hf.tcpHeader hf'.tcpHeader, and_self]

theorem packet_independent (hf hf' : TcpFrame) (bytes : List Byte) (blen : BitVec 32)
    (payload : Payload) :
    packet (tcpRepFrame hf bytes blen payload) bytes payload.data.length =
      packet (tcpRepFrame hf' bytes blen payload) bytes payload.data.length := by
  obtain ⟨hip, htcp⟩ := tcpRepFrame_headers hf hf' bytes blen payload
  rw [packet_eq, packet_eq, hip, htcp]

/-- The bytes sent for a frame are the same after any two histories of the shared frame. -/
theorem reply_independent_of_history (earlier earlier' : List Call) (next : Call) :
    packet (next.reply (afterCalls zeroFrame earlier)) next.received.bytes
        next.payload.data.length =
      packet (next.reply (afterCalls zeroFrame earlier')) next.received.bytes
        next.payload.data.length :=
  packet_independent _ _ _ _ _

/-- A packet that goes back to the sender of `p`, on the same link. -/
structure AnswersTo (p q : TcpPacket.Packet) : Prop where
  link : ∃ dest src etherType, p.link = .ethernet dest src etherType ∧
    q.link = .ethernet src dest etherType
  source : q.ip.source = p.ip.destination
  destination : q.ip.destination = p.ip.source
  srcPort : q.tcp.srcPort = p.tcp.dstPort
  dstPort : q.tcp.dstPort = p.tcp.srcPort
  seq : q.tcp.seq = p.tcp.ack

/-- What follows twenty bytes of IP header says the same as the TCP header, in the ports and the
acknowledgment number. -/
def tcpAfterTwenty (bytes : List Byte) (ihl : Nat) : Prop :=
  TcpPacket.be16 bytes 34 = TcpPacket.be16 bytes (14 + 4 * ihl) ∧
    TcpPacket.be16 bytes 36 = TcpPacket.be16 bytes (14 + 4 * ihl + 2) ∧
      TcpPacket.be32 bytes 42 = TcpPacket.be32 bytes (14 + 4 * ihl + 8)

theorem macAt_eq {bytes : List Byte} {i : Nat} (h : i + 6 ≤ bytes.length) :
    macAt bytes i = (bytes.drop i).take 6 := by
  apply List.ext_getElem
  · simp [macAt]
    omega
  · intro j hj hj'
    have hj6 : j < 6 := by simpa [macAt] using hj
    have hget (k : Nat) (hk : k < 6) : byteAt bytes (i + k) = bytes[i + k] := by
      simp [byteAt, show i + k < bytes.length by omega]
    rw [List.getElem_take, List.getElem_drop, ← hget j hj6]
    obtain rfl | rfl | rfl | rfl | rfl | rfl : j = 0 ∨ j = 1 ∨ j = 2 ∨ j = 3 ∨ j = 4 ∨ j = 5 := by
      omega
    all_goals rfl

theorem parse_ethernet {bytes : List Byte} {p : TcpPacket.Packet}
    (hp : TcpPacket.parse .ethernet bytes = some p) :
    p.link = .ethernet (macAt bytes 0) (macAt bytes 6) (TcpPacket.be16 bytes 12) ∧
      p.ip.source = TcpPacket.be32 bytes 26 ∧ p.ip.destination = TcpPacket.be32 bytes 30 ∧
      p.tcp.srcPort = TcpPacket.be16 bytes (14 + 4 * p.ip.ihl) ∧
      p.tcp.dstPort = TcpPacket.be16 bytes (14 + 4 * p.ip.ihl + 2) ∧
      p.tcp.ack = TcpPacket.be32 bytes (14 + 4 * p.ip.ihl + 8) := by
  obtain ⟨l, seg, hl, hip, htcp⟩ := TcpPacket.parse_eq_some hp
  obtain ⟨hlen, hlink, rfl⟩ := TcpPacket.parseLink_ethernet hl
  obtain ⟨-, -, -, hseg, -, hsrc, hdst⟩ := TcpPacket.parseIp_eq_some hip
  obtain ⟨h20, hsport, hdport, -, hack⟩ := TcpPacket.parseTcp_eq_some htcp
  have hcut : 4 * p.ip.ihl + 20 ≤ p.ip.totalLength := by
    rw [hseg, List.length_drop, List.length_take] at h20
    omega
  refine ⟨?_, ?_, ?_, ?_, ?_, ?_⟩
  · rw [hlink, macAt_eq (by omega), macAt_eq (by omega)]
    rfl
  · rw [hsrc, TcpPacket.be32_drop]
  · rw [hdst, TcpPacket.be32_drop]
  · rw [hsport, hseg, TcpPacket.be16_drop, TcpPacket.be16_take (by omega), TcpPacket.be16_drop]
    rfl
  · rw [hdport, hseg, TcpPacket.be16_drop, TcpPacket.be16_take (by omega), TcpPacket.be16_drop,
      Nat.add_assoc]
  · rw [hack, hseg, TcpPacket.be32_drop, TcpPacket.be32_take (by omega), TcpPacket.be32_drop,
      Nat.add_assoc]

/-- A reply with a loopback header, read as an Ethernet frame, has the time to live and the
protocol for its type. -/
theorem not_tcpOverIpv4_of_loopback {hf : TcpFrame} {bytes : List Byte} {blen : BitVec 32}
    {payload : Payload} (hl : isLoopback bytes = true) {q : TcpPacket.Packet}
    (hq : TcpPacket.parse .ethernet
      (packet (tcpRepFrame hf bytes blen payload) bytes payload.data.length) = some q) :
    ¬ q.tcpOverIpv4 := by
  rintro ⟨-, -, htype⟩
  rw [(parse_ethernet hq).1, packet_eq, replyLinkBytes, if_pos hl] at htype
  have hbytes : TcpPacket.be16 ([byteAt bytes 0, byteAt bytes 1, byteAt bytes 2, byteAt bytes 3] ++
      ((tcpRepFrame hf bytes blen payload).ipHeader.layout ++
        ((tcpRepFrame hf bytes blen payload).tcpHeader.layout ++ payload.data))) 12 =
      le16 6 0x32 := rfl
  have hne : le16 6 0x32 ≠ 0x0800 := by decide
  exact hne (hbytes.symm.trans htype)

/-- The reply is addressed back to the sender exactly if the frame is not taken for a loopback
one and the TCP header is where `tcp_rep_frame` reads it, or might as well be. -/
theorem reply_addressed_back_iff (hf : TcpFrame) {bytes : List Byte} {p : TcpPacket.Packet}
    (hp : TcpPacket.parse .ethernet bytes = some p) (hv : p.tcpOverIpv4) (blen : BitVec 32)
    (payload : Payload) :
    (∃ q, TcpPacket.parse .ethernet
        (packet (tcpRepFrame hf bytes blen payload) bytes payload.data.length) = some q ∧
        q.tcpOverIpv4 ∧ AnswersTo p q) ↔
      isLoopback bytes = false ∧ tcpAfterTwenty bytes p.ip.ihl := by
  obtain ⟨hlink, hsrc, hdst, hsport, hdport, hack⟩ := parse_ethernet hp
  have htype : TcpPacket.be16 bytes 12 = 0x0800 := by
    have h := hv.2.2
    rwa [hlink] at h
  cases hl : isLoopback bytes with
  | true =>
    refine iff_of_false ?_ fun h => by cases h.1
    rintro ⟨q, hq, hqv, -⟩
    exact not_tcpOverIpv4_of_loopback hl hq hqv
  | false =>
    have hkind : linkKind bytes = .ethernet := by simp [linkKind, hl]
    have hlen : linkLen bytes = 14 := by simp [linkLen, hl]
    have hparse := parse_packet hf bytes blen payload
    rw [hkind] at hparse
    have hreply : (replyPacket bytes blen payload.data).link =
        .ethernet (macAt bytes 6) (macAt bytes 0) (TcpPacket.be16 bytes 12) := by
      simp [replyPacket, replyLinkHeader, hl]
    constructor
    · rintro ⟨q, hq, -, ha⟩
      obtain rfl := Option.some.inj (hparse.symm.trans hq)
      have hs := ha.srcPort
      have hd := ha.dstPort
      have hseq := ha.seq
      simp only [replyPacket, hlen] at hs hd hseq
      exact ⟨rfl, hd.trans hsport, hs.trans hdport, hseq.trans hack⟩
    · rintro ⟨-, hs, hd, hseq⟩
      refine ⟨_, hparse, ⟨rfl, rfl, ?_⟩, ⟨_, _, _, hlink, hreply⟩, ?_, ?_, ?_, ?_, ?_⟩
      · rw [hreply]
        exact htype
      all_goals simp only [replyPacket, hlen]
      · exact hdst.symm
      · exact hsrc.symm
      · exact hd.trans hdport.symm
      · exact hs.trans hsport.symm
      · exact hseq.trans hack.symm

/-- An Ethernet frame with an IP header of `ihl` words, the last ones NOP options. -/
def nopFrame (ihl : Nat) : List Byte :=
  [0, 0x11, 0x22, 0x33, 0x44, 0x55, 0, 0x66, 0x77, 0x88, 0x99, 0xaa, 0x08, 0x00] ++
    [BitVec.ofNat 8 (64 + ihl), 0, 0, BitVec.ofNat 8 (4 * ihl + 20), 0, 1, 0, 0, 64, 6, 0, 0,
      192, 168, 0, 2, 192, 168, 0, 100] ++ List.replicate (4 * ihl - 20) 1 ++
    [0x1f, 0x90, 0x23, 0x28, 0, 0, 0, 1, 0, 0, 0, 7, 0x50, 0x18, 0xff, 0, 0, 0, 0, 0]

def nopPacket (ihl : Nat) : TcpPacket.Packet where
  link := .ethernet [0, 0x11, 0x22, 0x33, 0x44, 0x55] [0, 0x66, 0x77, 0x88, 0x99, 0xaa] 0x0800
  ip := ⟨4, ihl, 4 * ihl + 20, false, false, 0, 6, 0xc0a80002, 0xc0a80064⟩
  tcp := ⟨0x1f90, 0x2328, 1, 7, 5, 0x18⟩
  data := []
  trailer := []

theorem reply_addressed_back_iff_plain :
    ∃ q, TcpPacket.parse .ethernet (packet (tcpRepFrame zeroFrame (nopFrame 5) 54 ⟨[0x61], by decide⟩)
      (nopFrame 5) 1) = some q ∧ q.tcpOverIpv4 ∧ AnswersTo (nopPacket 5) q :=
  (reply_addressed_back_iff zeroFrame (by decide) ⟨rfl, rfl, rfl⟩ 54 ⟨[0x61], by decide⟩).mpr
    ⟨by decide, rfl, rfl, rfl⟩

/-- With options in the IP header the reply goes to port 257. -/
theorem reply_misaddressed : ¬ ∀ (hf : TcpFrame) (bytes : List Byte) (p : TcpPacket.Packet),
    TcpPacket.parse .ethernet bytes = some p → p.tcpOverIpv4 →
      ∀ (blen : BitVec 32) (payload : Payload), ∃ q, TcpPacket.parse .ethernet
        (packet (tcpRepFrame hf bytes blen payload) bytes payload.data.length) = some q ∧
          q.tcpOverIpv4 ∧ AnswersTo p q := by
  intro h
  obtain ⟨q, hq, -, ha⟩ := h zeroFrame (nopFrame 6) (nopPacket 6) (by decide) ⟨rfl, rfl, rfl⟩ 58
    ⟨[0x61], by decide⟩
  have hparse := parse_packet zeroFrame (nopFrame 6) 58 ⟨[0x61], by decide⟩
  rw [show linkKind (nopFrame 6) = .ethernet by decide] at hparse
  obtain rfl := Option.some.inj (hparse.symm.trans hq)
  exact absurd ha.dstPort (by decide)

end Cexp.ProFrame
