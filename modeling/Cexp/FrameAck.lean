import Cexp.FrameChecksum

/-! The acknowledgment number of the reply frame, for a TCP segment received on either
link: `tcp_rep_frame` adds `blen - 44` to the little-endian reading of the sequence number. -/

namespace Cexp.ProFrame

open ByteOrder

inductive Link where
  | loopback
  | ethernet (destMac srcMac : Vector Byte 6)

def Link.header : Link → List Byte
  | .loopback => [2, 0, 0, 0]
  | .ethernet destMac srcMac => destMac.toList ++ srcMac.toList ++ [0x08, 0x00]

/-- A received IPv4 and TCP frame, both headers of 20 bytes. -/
structure Segment where
  link : Link
  ip : Vector Byte 20
  tcp : Vector Byte 20
  data : List Byte
  version : ip[0] = 0x45
  total : 256 * ip[2].toNat + ip[3].toNat = 40 + data.length
  protocol : ip[9] = 6
  dataOffset : tcp[12] >>> 4 = 5

def Segment.frame (g : Segment) : List Byte :=
  g.link.header ++ g.ip.toList ++ g.tcp.toList ++ g.data

def Segment.blen (g : Segment) : BitVec 32 := BitVec.ofNat 32 g.frame.length

def Segment.seqNumber (g : Segment) : BitVec 32 := le32 g.tcp[7] g.tcp[6] g.tcp[5] g.tcp[4]

def ackNumber (tcp : List Byte) : BitVec 32 :=
  le32 (byteAt tcp 11) (byteAt tcp 10) (byteAt tcp 9) (byteAt tcp 8)

/-- The destination address whose first four bytes `tcp_rep_frame` takes for a loopback link. -/
def Link.readAsLoopback (destMac : Vector Byte 6) : Prop :=
  destMac[0] = 2 ∧ destMac[1] = 0 ∧ destMac[2] = 0 ∧ destMac[3] = 0

/-- When the reply acknowledges exactly the data received. On a frame that is misread as
loopback, the four bytes taken for the sequence number are those at offset 28. -/
def Segment.AckExact (g : Segment) : Prop :=
  let n := g.data.length
  match g.link with
  | .loopback =>
    n = 0 ∨ n = 1 ∧ g.seqNumber = 0xffffffff ∨
      n = 257 ∧ g.tcp[5] = 0xff ∧ g.tcp[6] = 0xff ∧ g.tcp[4] ≠ 0xff ∧ g.tcp[7] ≠ 0xff
  | .ethernet destMac _ =>
    Link.readAsLoopback destMac ∧ le32 g.ip[14] g.ip[15] g.ip[16] g.ip[17] =
      byteSwap (g.seqNumber + BitVec.ofNat 32 n) - BitVec.ofNat 32 (n + 10)

theorem ackNumber_layout (h : TcpHdr) : ackNumber h.layout = byteSwap h.ack := by
  simp [ackNumber, byteAt, TcpHdr.layout, bytes16, bytes32, byteSwap]

theorem ackNumber_tcpRepFrame (hf : TcpFrame) (bytes : List Byte) (blen : BitVec 32)
    (p : Payload) : ackNumber (slice 36 20 (tcpRepFrame hf bytes blen p).layout) =
      byteSwap (le32 (byteAt bytes (linkLen bytes + 24)) (byteAt bytes (linkLen bytes + 25))
        (byteAt bytes (linkLen bytes + 26)) (byteAt bytes (linkLen bytes + 27)) +
          (blen - 44)) := by
  rw [TcpFrame.slice_tcp, ackNumber_layout, ← add_sub_assoc]
  simp only [tcpRepFrame, TcpFrame.copyPayload, fillTcpHeader, replyTcp, byteAt,
    List.getD_eq_getElem?_getD, List.getElem?_drop, Nat.reduceAdd]

theorem byteAt_append_right {a b : List Byte} {n i : Nat} (ha : a.length = n) :
    byteAt (a ++ b) (n + i) = byteAt b i := by
  simp [byteAt, List.getElem?_append_right, ha]

theorem byteAt_append_left {a b : List Byte} {i : Nat} (ha : i < a.length) :
    byteAt (a ++ b) i = byteAt a i := by
  simp [byteAt, List.getElem?_append_left ha]

theorem byteAt_toList (v : Vector Byte 20) {i : Nat} (hi : i < 20) :
    byteAt v.toList i = v[i] := by
  simp [byteAt, hi]

theorem Segment.byteAt_tcp (g : Segment) {i : Nat} (hi : i < 20) :
    byteAt g.frame (g.link.header.length + 20 + i) = g.tcp[i] := by
  rw [frame, List.append_assoc, byteAt_append_right (by simp),
    byteAt_append_left (by simpa using hi), byteAt_toList g.tcp hi]

theorem Segment.byteAt_ip (g : Segment) {i : Nat} (hi : i < 20) :
    byteAt g.frame (g.link.header.length + i) = g.ip[i] := by
  rw [frame, List.append_assoc, List.append_assoc, byteAt_append_right rfl,
    byteAt_append_left (by simpa using hi), byteAt_toList g.ip hi]

theorem Segment.length_frame (g : Segment) :
    g.frame.length = g.link.header.length + 40 + g.data.length := by
  simp only [frame, List.length_append, Vector.length_toList]

theorem Segment.length_data_le (g : Segment) : g.data.length ≤ 65495 := by
  have := g.total
  omega

theorem isLoopback_iff (bytes : List Byte) : isLoopback bytes = true ↔
    byteAt bytes 0 = 2 ∧ byteAt bytes 1 = 0 ∧ byteAt bytes 2 = 0 ∧ byteAt bytes 3 = 0 := by
  have htwo : (2 : BitVec 32) = le32 2 0 0 0 := by decide
  rw [isLoopback, beq_iff_eq, htwo, le32_inj]

theorem ackNumber_of_linkLen (hf : TcpFrame) {g : Segment} (p : Payload)
    (hg : linkLen g.frame = g.link.header.length) :
    ackNumber (slice 36 20 (tcpRepFrame hf g.frame g.blen p).layout) =
      byteSwap (le32 g.tcp[4] g.tcp[5] g.tcp[6] g.tcp[7] + (g.blen - 44)) := by
  rw [ackNumber_tcpRepFrame, hg]
  have h4 := g.byteAt_tcp (i := 4) (by omega)
  have h5 := g.byteAt_tcp (i := 5) (by omega)
  have h6 := g.byteAt_tcp (i := 6) (by omega)
  have h7 := g.byteAt_tcp (i := 7) (by omega)
  simp only [Nat.add_assoc, Nat.reduceAdd] at h4 h5 h6 h7
  rw [h4, h5, h6, h7]

theorem Segment.blen_sub {g : Segment} {k : Nat}
    (hk : g.link.header.length + g.data.length = k + 4) :
    g.blen - 44 = BitVec.ofNat 32 k := by
  have hlen : g.frame.length = k + 44 := by
    rw [g.length_frame]
    omega
  rw [blen, hlen, BitVec.ofNat_add]
  exact add_sub_cancel_right _ _

theorem Segment.isLoopback_loopback {g : Segment} (hg : g.link = .loopback) :
    isLoopback g.frame = true := by
  rw [isLoopback_iff, frame, hg]
  simp [Link.header, byteAt]

theorem Segment.isLoopback_ethernet {g : Segment} {destMac srcMac : Vector Byte 6}
    (hg : g.link = .ethernet destMac srcMac) :
    isLoopback g.frame = true ↔ Link.readAsLoopback destMac := by
  have hb (i : Nat) (hi : i < 6) : byteAt g.frame i = destMac[i] := by
    simp only [frame, hg, Link.header, List.append_assoc]
    rw [byteAt_append_left (by simpa using hi)]
    simp [byteAt, hi]
  rw [isLoopback_iff, hb 0 (by omega), hb 1 (by omega), hb 2 (by omega), hb 3 (by omega),
    Link.readAsLoopback]

theorem loopback_ack_iff {b0 b1 b2 b3 : Byte} {n : Nat} (hn : n < 65536) :
    byteSwap (le32 b0 b1 b2 b3 + BitVec.ofNat 32 n) = le32 b3 b2 b1 b0 + BitVec.ofNat 32 n ↔
      n = 0 ∨ n = 1 ∧ le32 b3 b2 b1 b0 = 0xffffffff ∨
        n = 257 ∧ b1 = 0xff ∧ b2 = 0xff ∧ b0 ≠ 0xff ∧ b3 ≠ 0xff := by
  have h0 := b0.isLt
  have h1 := b1.isLt
  have h2 := b2.isLt
  have h3 := b3.isLt
  have hff (b : Byte) : b = 0xff ↔ b.toNat = 255 := BitVec.toNat_inj.symm
  have hall : (0xffffffff : BitVec 32) = le32 0xff 0xff 0xff 0xff := by decide
  rw [byteSwap_add_eq_iff hn hn rfl rfl rfl rfl rfl rfl, hall, le32_inj]
  simp only [ne_eq, hff]
  obtain ⟨n0, n1, hn0, hn1, rfl⟩ : ∃ n0 n1, n0 < 256 ∧ n1 < 256 ∧ n = n0 + 256 * n1 :=
    ⟨n % 256, n / 256, by omega, by omega, by omega⟩
  have hm : (n0 + 256 * n1) % 256 = n0 := by omega
  have hd : (n0 + 256 * n1) / 256 = n1 := by omega
  rw [hm, hd]
  constructor
  · rintro ⟨hlow, he1, he2, hhigh⟩
    have hle : n0 ≤ 1 := by omega
    generalize hc0 : (b0.toNat + n0) / 256 = c0 at he1 he2 hhigh
    generalize hd0 : (b3.toNat + n0) / 256 = d0 at he1 he2 hlow
    obtain rfl | rfl : n0 = 0 ∨ n0 = 1 := by omega
    · obtain ⟨rfl, rfl⟩ : c0 = 0 ∧ d0 = 0 := by omega
      omega
    · -- a carry leaves every byte
      have hcarry : (b2.toNat + (n1 + d0)) / 256 = 1 := by omega
      have hcarry' : (b1.toNat + (n1 + c0)) / 256 = 1 := by omega
      rw [hcarry] at hlow he1
      rw [hcarry'] at he2 hhigh
      have hb1 : b1.toNat = 255 := by omega
      have hb2 : b2.toNat = 255 := by omega
      omega
  · rintro (h | ⟨h, hh⟩ | ⟨h, hh⟩)
    · obtain ⟨rfl, rfl⟩ : n0 = 0 ∧ n1 = 0 := by omega
      omega
    · obtain ⟨rfl, rfl⟩ : n0 = 1 ∧ n1 = 0 := by omega
      omega
    · obtain ⟨rfl, rfl⟩ : n0 = 1 ∧ n1 = 1 := by omega
      omega

theorem ethernet_ack_ne {b0 b1 b2 b3 : Byte} {n : Nat} (hn : n + 10 < 65536) :
    byteSwap (le32 b0 b1 b2 b3 + BitVec.ofNat 32 (n + 10)) ≠
      le32 b3 b2 b1 b0 + BitVec.ofNat 32 n := by
  have h0 := b0.isLt
  have h1 := b1.isLt
  have h2 := b2.isLt
  have h3 := b3.isLt
  rw [ne_eq, byteSwap_add_eq_iff hn (by omega) rfl rfl rfl rfl rfl rfl]
  rintro ⟨hlow, -, -, hhigh⟩
  generalize hc1 : (b1.toNat + ((n + 10) / 256 + (b0.toNat + (n + 10) % 256) / 256)) / 256 = c1
    at hhigh
  generalize hd1 : (b2.toNat + (n / 256 + (b3.toNat + n % 256) / 256)) / 256 = d1 at hlow
  have hc : c1 ≤ 1 := by omega
  have hd : d1 ≤ 1 := by omega
  clear hc1 hd1
  omega

/-- The reply acknowledges the received number plus the payload's length exactly when
`AckExact` says so. -/
theorem tcpRepFrame_ack_iff (hf : TcpFrame) (g : Segment) (payload : Payload) :
    ackNumber (slice 36 20 (tcpRepFrame hf g.frame g.blen payload).layout) =
      g.seqNumber + BitVec.ofNat 32 g.data.length ↔ g.AckExact := by
  have hn := g.length_data_le
  cases hg : g.link with
  | loopback =>
    have hl : linkLen g.frame = g.link.header.length := by
      rw [linkLen, g.isLoopback_loopback hg, hg]
      rfl
    have hb : g.blen - 44 = BitVec.ofNat 32 g.data.length :=
      g.blen_sub (by rw [hg]; exact Nat.add_comm _ _)
    rw [ackNumber_of_linkLen hf payload hl, hb, Segment.seqNumber, loopback_ack_iff (by omega)]
    simp only [Segment.AckExact, hg, Segment.seqNumber]
  | ethernet destMac srcMac =>
    have hb : g.blen - 44 = BitVec.ofNat 32 (g.data.length + 10) := by
      apply g.blen_sub
      simp only [hg, Link.header, List.length_append, Vector.length_toList, List.length_cons,
        List.length_nil]
      omega
    simp only [Segment.AckExact, hg]
    by_cases hmac : Link.readAsLoopback destMac
    · have hl : linkLen g.frame = 4 := by
        rw [linkLen, (g.isLoopback_ethernet hg).mpr hmac]
        rfl
      have hh : g.link.header.length = 14 := by simp [hg, Link.header]
      have h14 := g.byteAt_ip (i := 14) (by omega)
      have h15 := g.byteAt_ip (i := 15) (by omega)
      have h16 := g.byteAt_ip (i := 16) (by omega)
      have h17 := g.byteAt_ip (i := 17) (by omega)
      rw [hh] at h14 h15 h16 h17
      rw [ackNumber_tcpRepFrame, hl, hb, h14, h15, h16, h17, byteSwap_eq_iff, eq_sub_iff_add_eq]
      exact (and_iff_right hmac).symm
    · have hl : linkLen g.frame = g.link.header.length := by
        have hf := (g.isLoopback_ethernet hg).not.mpr hmac
        rw [linkLen, if_neg hf, hg]
        simp [Link.header]
      rw [ackNumber_of_linkLen hf payload hl, hb, Segment.seqNumber]
      exact iff_of_false (ethernet_ack_ne (by omega)) fun h => hmac h.1

def oneByteSegment : Segment where
  link := .loopback
  ip := #v[0x45, 0, 0, 41, 0, 1, 0, 0, 64, 6, 0, 0, 127, 0, 0, 1, 127, 0, 0, 1]
  tcp := #v[0x1f, 0x90, 0x23, 0x28, 0, 0, 0, 0, 0, 0, 0, 0, 0x50, 0x18, 0xff, 0, 0, 0, 0, 0]
  data := [0x61]
  version := rfl
  total := rfl
  protocol := rfl
  dataOffset := rfl

/-- The reply to it acknowledges `2 ^ 24`. -/
theorem tcpRepFrame_ack_swapped :
    ¬ ∀ (hf : TcpFrame) (g : Segment) (payload : Payload),
      ackNumber (slice 36 20 (tcpRepFrame hf g.frame g.blen payload).layout) =
        g.seqNumber + BitVec.ofNat 32 g.data.length := by
  intro h
  have hh := h ⟨0, ⟨.replicate 6 0, .replicate 6 0, 0⟩, ⟨0, 0, 0, 0, 0, 0, 0, 0, 0, 0⟩,
    ⟨0, 0, 0, 0, 0, 0, 0, 0, 0⟩, .replicate 4096 0⟩ oneByteSegment ⟨[0x61], by decide⟩
  rw [ackNumber_tcpRepFrame] at hh
  exact absurd hh (by decide)

end Cexp.ProFrame
