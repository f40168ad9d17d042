import Cexp.FrameCorruption

/-! The program `example.c`: one TCP segment with the SYN flag and some data, in a datagram it
builds itself. The check buffer is an array of 16-bit numbers, filled as if it were one of
bytes. -/

namespace Cexp.SynProbe

open ByteOrder OnesComplement
open ProFrame (Byte IpHdr TcpHdr htons memcpy calChecksum)

def MAX_BUFF_LEN : Nat := 65500

/-- The same loop and the same two folds as those of `cal_checksum`. -/
def checksum (buffer : List Byte) (size : Nat) : BitVec 16 := calChecksum buffer size

/-- The array is as long as the string with its terminator. -/
def tcpSendData : List Byte :=
  ['T', 'h', 'i', 's', ' ', 'i', 's', ' ', 'm', 'y', ' ', 'h', 'o', 'm', 'e', 'w', 'o', 'r', 'k',
    ' ', 'o', 'f', ' ', 'n', 'e', 't', 'w', 'o', 'r', 't', ',', 'I', ' ', 'a', 'm', ' ', 'h', 'a',
    'p', 'p', 'y', '!'].map (fun c => BitVec.ofNat 8 c.toNat) ++ [0]

structure PsdHeader where
  saddr : BitVec 32
  daddr : BitVec 32
  mbz : Byte
  ptcl : Byte
  tcpl : BitVec 16

def PsdHeader.layout (h : PsdHeader) : List Byte :=
  bytes32 h.saddr ++ bytes32 h.daddr ++ [h.mbz, h.ptcl] ++ bytes16 h.tcpl

/-- What `inet_addr` and `atoi` make of the arguments. -/
structure Args where
  sourceIp : BitVec 32
  sourcePort : BitVec 32
  destIp : BitVec 32
  destPort : BitVec 32

def Args.ipHeader (a : Args) : IpHdr where
  verIhl := 4 <<< 4 ||| 5
  serviceType := 0
  totalLength := htons (BitVec.ofNat 16 (20 + 20 + tcpSendData.length))
  identification := 0
  flagsFragmentOffset := 0
  time2live := 128
  protocol := 6
  hdrChksum := 0
  srcIp := a.sourceIp
  dstIp := a.destIp

def Args.psdHeader (a : Args) : PsdHeader where
  saddr := a.ipHeader.srcIp
  daddr := a.ipHeader.dstIp
  mbz := 0
  ptcl := a.ipHeader.protocol
  tcpl := htons (BitVec.ofNat 16 (20 + tcpSendData.length))

def Args.tcpHeader (a : Args) : TcpHdr where
  srcPort := htons (a.sourcePort.setWidth 16)
  dstPort := htons (a.destPort.setWidth 16)
  seq := 0
  ack := 0
  dOffsetRsrvd := 5 <<< 4
  flags := 2
  window := htons 8192
  chksum := 0
  urgentPointer := 0

def zeros : List Byte := List.replicate MAX_BUFF_LEN 0

/-- `check_Buff` for the IP header. -/
def Args.ipCheckBuff (a : Args) : List Byte := memcpy zeros 0 a.ipHeader.layout

/-- `check_Buff` for the segment: the places of the TCP header and of the data are counted in
elements of the array, of two bytes each. -/
def Args.tcpCheckBuff (a : Args) : List Byte :=
  memcpy (memcpy (memcpy zeros 0 a.psdHeader.layout) (2 * 12) a.tcpHeader.layout) (2 * (12 + 20))
    tcpSendData

/-- The datagram that is sent. -/
def Args.sendtoBuff (a : Args) : List Byte :=
  let ipHeader := { a.ipHeader with hdrChksum := checksum a.ipCheckBuff 20 }
  let tcpHeader := { a.tcpHeader with
    chksum := checksum a.tcpCheckBuff (12 + 20 + tcpSendData.length) }
  let buff := memcpy (memcpy (memcpy zeros 0 ipHeader.layout) 20 tcpHeader.layout) (20 + 20)
    tcpSendData
  buff.take (20 + 20 + tcpSendData.length)

theorem length_tcpSendData : tcpSendData.length = 43 := rfl

theorem length_psdHeader (h : PsdHeader) : h.layout.length = 12 := rfl

/-- A write among the zeros behind what has been written. -/
theorem memcpy_zeros (a b : List Byte) (gap rest : Nat) :
    memcpy (a ++ List.replicate (gap + b.length + rest) 0) (a.length + gap) b =
      a ++ List.replicate gap 0 ++ b ++ List.replicate rest 0 := by
  have hsplit : a ++ List.replicate (gap + b.length + rest) 0 =
      a ++ List.replicate gap 0 ++ List.replicate b.length 0 ++ List.replicate rest (0 : Byte) := by
    rw [List.replicate_add, List.replicate_add]
    simp only [List.append_assoc]
  rw [hsplit]
  exact ProFrame.memcpy_append _ (by simp) (by simp)

theorem wordsBE_replicate_zero (n : Nat) : (wordsBE (List.replicate n 0)).sum = 0 := by
  induction n using Nat.twoStepInduction with
  | zero => rfl
  | one => rfl
  | more n ih _ =>
    rw [List.replicate_succ, List.replicate_succ, wordsBE, List.sum_cons, ih]
    rfl

/-- Three writes one behind the other, with what lies between them and behind them. -/
theorem memcpy_three {a b c : List Byte} {n i j g k r : Nat} (hi : i = a.length + g)
    (hj : j = i + b.length + k) (hn : n = j + c.length + r) :
    memcpy (memcpy (memcpy (List.replicate n 0) 0 a) i b) j c =
      a ++ List.replicate g 0 ++ b ++ List.replicate k 0 ++ c ++ List.replicate r 0 := by
  have hn' : n = a.length + (g + b.length + (k + c.length + r)) := by omega
  have ha := memcpy_zeros [] a 0 (g + b.length + (k + c.length + r))
  simp only [List.length_nil, List.nil_append, List.replicate_zero, Nat.zero_add] at ha
  rw [hn', ha, hj, hi, memcpy_zeros]
  have hc := memcpy_zeros (a ++ List.replicate g 0 ++ b) c k r
  rwa [List.length_append, List.length_append, List.length_replicate] at hc

theorem tcpCheckBuff_eq (a : Args) : a.tcpCheckBuff = a.psdHeader.layout ++ List.replicate 12 0 ++
    a.tcpHeader.layout ++ List.replicate 20 0 ++ tcpSendData ++ List.replicate 65393 0 :=
  memcpy_three rfl rfl rfl

/-- The headers that are sent. -/
def Args.ipSent (a : Args) : IpHdr := { a.ipHeader with hdrChksum := checksum a.ipCheckBuff 20 }

def Args.tcpSent (a : Args) : TcpHdr := { a.tcpHeader with chksum := checksum a.tcpCheckBuff 75 }

theorem sendtoBuff_eq (a : Args) :
    a.sendtoBuff = a.ipSent.layout ++ (a.tcpSent.layout ++ tcpSendData) := by
  have hbuff : memcpy (memcpy (memcpy zeros 0 a.ipSent.layout) 20 a.tcpSent.layout) 40 tcpSendData =
      a.ipSent.layout ++ (a.tcpSent.layout ++ tcpSendData) ++ List.replicate 65417 0 := by
    rw [← List.append_assoc]
    have h := memcpy_three (a := a.ipSent.layout) (b := a.tcpSent.layout) (c := tcpSendData)
      (i := 20) (j := 40) (n := 65500) (g := 0) (k := 0) (r := 65417) rfl rfl rfl
    rwa [List.replicate_zero, List.append_nil, List.append_nil] at h
  have hdef : a.sendtoBuff = (memcpy (memcpy (memcpy zeros 0 a.ipSent.layout) 20
      a.tcpSent.layout) 40 tcpSendData).take 83 := rfl
  rw [hdef, hbuff]
  exact List.take_left' rfl

/-- What the sum for the segment takes in: of the data, eleven bytes. -/
theorem take_tcpCheckBuff (a : Args) : a.tcpCheckBuff.take 75 =
    a.psdHeader.layout ++ (List.replicate 12 0 ++ (a.tcpHeader.layout ++ (List.replicate 20 0 ++
      tcpSendData.take 11))) := by
  have hsplit : a.tcpCheckBuff = a.psdHeader.layout ++ (List.replicate 12 0 ++
      (a.tcpHeader.layout ++ (List.replicate 20 0 ++ tcpSendData.take 11))) ++
        (tcpSendData.drop 11 ++ List.replicate 65393 0) := by
    have hdata := List.take_append_drop 11 tcpSendData
    rw [tcpCheckBuff_eq]
    conv_lhs => rw [← hdata]
    simp only [List.append_assoc]
  rw [hsplit]
  exact List.take_left' rfl

theorem toNat_htons_checksum (buffer : List Byte) {size : Nat} (h : size ≤ 131074) :
    (htons (checksum buffer size)).toNat = 65535 - sumBE (buffer.take size) := by
  rw [checksum, ProFrame.toNat_htons, ProFrame.calChecksum_eq buffer h,
    swapBytes_complement (folded_le _), sumBE_eq_swapBytes, sum16_eq wordsLE_lt]

/-- The IP header verifies. -/
theorem ipSent_valid (a : Args) : sumBE a.ipSent.layout = 0xFFFF := by
  have hbuff : a.ipCheckBuff.take 20 = a.ipHeader.layout := List.take_left' rfl
  have hsum := IpHdr.sum_withChksum a.ipHeader (htons (checksum a.ipCheckBuff 20))
  rw [ProFrame.htons_htons, toNat_htons_checksum _ (by decide), hbuff] at hsum
  rw [sumBE_eq, Args.ipSent, hsum, sumBE_eq]
  exact folded_add_complement _

/-- What is left out of the sum for the segment. -/
theorem wordsBE_tcpSendData : ∃ d, d % 65535 ≠ 0 ∧
    (wordsBE tcpSendData).sum = (wordsBE (tcpSendData.take 11)).sum + d :=
  ⟨(wordsBE tcpSendData).sum - (wordsBE (tcpSendData.take 11)).sum, by decide, by decide⟩

theorem sum_tcpCheckBuff (a : Args) : (wordsBE (a.tcpCheckBuff.take 75)).sum =
    (wordsBE a.psdHeader.layout).sum +
      ((wordsBE a.tcpHeader.layout).sum + (wordsBE (tcpSendData.take 11)).sum) := by
  have hpsd : a.psdHeader.layout.length % 2 = 0 := by rw [length_psdHeader]
  have htcp : a.tcpHeader.layout.length % 2 = 0 := by rw [TcpHdr.length_layout]
  rw [take_tcpCheckBuff, wordsBE_append hpsd, wordsBE_append (by rw [List.length_replicate]),
    wordsBE_append htcp, wordsBE_append (by rw [List.length_replicate])]
  simp only [List.sum_append, wordsBE_replicate_zero, Nat.zero_add]

theorem sum_tcpSent (a : Args) : (wordsBE a.tcpSent.layout).sum =
    (wordsBE a.tcpHeader.layout).sum + (65535 - sumBE (a.tcpCheckBuff.take 75)) := by
  have hsum := TcpHdr.sum_withChksum a.tcpHeader (htons (checksum a.tcpCheckBuff 75))
  rwa [ProFrame.htons_htons, toNat_htons_checksum _ (by decide)] at hsum

theorem segment_invalid (a : Args) :
    sumBE (a.psdHeader.layout ++ (a.tcpSent.layout ++ tcpSendData)) ≠ 0xFFFF := by
  obtain ⟨d, hd, hdata⟩ := wordsBE_tcpSendData
  have hpsd : a.psdHeader.layout.length % 2 = 0 := by rw [length_psdHeader]
  have hsent : a.tcpSent.layout.length % 2 = 0 := by rw [TcpHdr.length_layout]
  have hpart := sum_tcpCheckBuff a
  have hsum := sum_tcpSent a
  rw [sumBE_eq, hpart] at hsum
  rw [sumBE_eq, wordsBE_append hpsd, wordsBE_append hsent, List.sum_append, List.sum_append, hsum,
    hdata]
  generalize (wordsBE a.psdHeader.layout).sum = p
  generalize (wordsBE a.tcpHeader.layout).sum = t
  generalize (wordsBE (tcpSendData.take 11)).sum = e
  have horder : p + (t + (65535 - folded (p + (t + e))) + (e + d)) =
      p + (t + e) + d + (65535 - folded (p + (t + e))) := by omega
  rw [horder]
  exact fun h => hd ((folded_add_complement_iff _ _).mp h)

theorem parseIp_ipHeader (a : Args) (c : BitVec 16) {seg : List Byte} (hs : seg.length = 63) :
    TcpPacket.parseIp ({ a.ipHeader with hdrChksum := c }.layout ++ seg) =
      some (⟨4, 5, 83, false, false, 0, 6, byteSwap a.sourceIp, byteSwap a.destIp⟩, seg, []) := by
  have hlayout := IpHdr.length_layout { a.ipHeader with hdrChksum := c }
  generalize hl : { a.ipHeader with hdrChksum := c }.layout ++ seg = l
  have hlen : l.length = 83 := by rw [← hl, List.length_append, hlayout, hs]
  have hfirst : l.getD 0 0 = 0x45 := by rw [← hl]; rfl
  have htotal : TcpPacket.be16 l 2 = 83 := by
    rw [← hl]
    exact ProFrame.be16_htons _
  have hflags : l.getD 6 0 = 0 := by rw [← hl]; rfl
  have hoffset : TcpPacket.be16 l 6 = 0 := by
    have hzero : TcpPacket.be16 (bytes16 0) 0 = 0 := by decide
    rw [← hl, ← hzero]
    rfl
  have hproto : l.getD 9 0 = 6 := by rw [← hl]; rfl
  have hsrc : TcpPacket.be32 l 12 = byteSwap a.sourceIp := by rw [← hl]; rfl
  have hdst : TcpPacket.be32 l 16 = byteSwap a.destIp := by rw [← hl]; rfl
  have hseg : l.drop 20 = seg := by rw [← hl, List.drop_left' hlayout]
  have hall : l.take 83 = l := List.take_of_length_le hlen.le
  have hnone : l.drop 83 = [] := List.drop_of_length_le hlen.le
  simp only [TcpPacket.parseIp, hfirst, htotal, hflags, hoffset, hproto, hsrc, hdst]
  have hguard : 5 ≤ (0x45 : Byte).toNat % 16 ∧
      4 * ((0x45 : Byte).toNat % 16) ≤ (83 : BitVec 16).toNat ∧
      (83 : BitVec 16).toNat ≤ l.length := ⟨by decide, by decide, hlen.ge⟩
  rw [if_pos hguard]
  simp [hseg, hall, hnone]

theorem parseTcp_tcpHeader (a : Args) (c : BitVec 16) (data : List Byte) :
    TcpPacket.parseTcp ({ a.tcpHeader with chksum := c }.layout ++ data) =
      some (⟨a.sourcePort.setWidth 16, a.destPort.setWidth 16, 0, 0, 5, 2⟩, data) := by
  have hlayout := TcpHdr.length_layout { a.tcpHeader with chksum := c }
  generalize hl : { a.tcpHeader with chksum := c }.layout ++ data = l
  have hoffset : l.getD 12 0 = 0x50 := by rw [← hl]; rfl
  have hflags : l.getD 13 0 = 2 := by rw [← hl]; rfl
  have hsrc : TcpPacket.be16 l 0 = a.sourcePort.setWidth 16 := by
    rw [← hl]
    exact ProFrame.be16_htons _
  have hdst : TcpPacket.be16 l 2 = a.destPort.setWidth 16 := by
    rw [← hl]
    exact ProFrame.be16_htons _
  have hzero : byteSwap 0 = 0 := by decide
  have hseq : TcpPacket.be32 l 4 = 0 := by rw [← hl, ← hzero]; rfl
  have hack : TcpPacket.be32 l 8 = 0 := by rw [← hl, ← hzero]; rfl
  have hdata : l.drop 20 = data := by rw [← hl, List.drop_left' hlayout]
  have hlen : 20 ≤ l.length := by
    rw [← hl, List.length_append, hlayout]
    omega
  simp only [TcpPacket.parseTcp, hoffset, hflags, hsrc, hdst, hseq, hack]
  have hguard : 5 ≤ (0x50 : Byte).toNat / 16 ∧ 4 * ((0x50 : Byte).toNat / 16) ≤ l.length :=
    ⟨by decide, hlen⟩
  rw [if_pos hguard]
  simp [hdata]

theorem pseudoHeader_sendtoBuff (a : Args) :
    TcpPacket.pseudoHeader a.sendtoBuff 63 = a.psdHeader.layout := by
  have htcpl : [BitVec.ofNat 8 (63 / 256), BitVec.ofNat 8 63] =
      bytes16 (htons (BitVec.ofNat 16 (20 + tcpSendData.length))) := by decide
  rw [sendtoBuff_eq, ProFrame.pseudoHeader_datagram, ProFrame.pseudoHeader_layout, htcpl]
  rfl

/-- For any four arguments, what is sent is a segment with the SYN flag between the addresses and
ports given, in a datagram whose header verifies; and no receiver takes the segment, since its
checksum leaves out all but eleven bytes of the data. -/
theorem probe_never_accepted (a : Args) : ∃ ip tcp seg,
    TcpPacket.parseIp a.sendtoBuff = some (ip, seg, []) ∧
      TcpPacket.parseTcp seg = some (tcp, tcpSendData) ∧
      ip = ⟨4, 5, 83, false, false, 0, 6, byteSwap a.sourceIp, byteSwap a.destIp⟩ ∧
      tcp = ⟨a.sourcePort.setWidth 16, a.destPort.setWidth 16, 0, 0, 5, 2⟩ ∧
      sumBE (a.sendtoBuff.take 20) = 0xFFFF ∧
      TcpPacket.verifies a.sendtoBuff = false := by
  have hlen : (a.tcpSent.layout ++ tcpSendData).length = 63 := by
    rw [List.length_append, TcpHdr.length_layout, length_tcpSendData]
  have hip := parseIp_ipHeader a (checksum a.ipCheckBuff 20) hlen
  rw [← Args.ipSent, ← sendtoBuff_eq] at hip
  have htcp := parseTcp_tcpHeader a (checksum a.tcpCheckBuff 75) tcpSendData
  refine ⟨_, _, _, hip, htcp, rfl, rfl, ?_, ?_⟩
  · rw [sendtoBuff_eq, List.take_left' (IpHdr.length_layout _)]
    exact ipSent_valid a
  · rw [Bool.eq_false_iff]
    intro hv
    obtain ⟨ip, seg, trailer, hp, hv⟩ := TcpPacket.verifies_iff.mp hv
    simp only [hip, Option.some.injEq, Prod.mk.injEq] at hp
    obtain ⟨rfl, rfl, rfl⟩ := hp
    apply segment_invalid a
    rw [← pseudoHeader_sendtoBuff, ← hlen]
    exact hv.segment

end Cexp.SynProbe
