import Cexp.ProFrame
import Cexp.TcpChecksum

/-! The checksums of the reply frame: `cal_checksum` is the complement of the one's-complement
sum, and each check buffer is the frame's own bytes, with the checksum zero, pairs exchanged. -/

namespace Cexp.ProFrame

open ByteOrder OnesComplement
open TcpPacket (pseudoHeader)

theorem toNat_sumWords (sum : BitVec 32) (l : List Byte) :
    (sumWords sum l).toNat = (sum.toNat + (wordsLE l).sum) % 4294967296 := by
  induction l using wordsLE.induct generalizing sum with
  | case1 a b l ih =>
    have hw : ((le16 a b).setWidth 32).toNat = a.toNat + 256 * b.toNat := by
      rw [BitVec.toNat_setWidth, toNat_le16]
      omega
    rw [sumWords, ih, BitVec.toNat_add, hw, wordsLE, List.sum_cons]
    omega
  | case2 a =>
    have hw : (a.setWidth 32).toNat = a.toNat := by
      rw [BitVec.toNat_setWidth]
      omega
    rw [sumWords, BitVec.toNat_add, hw]
    simp [wordsLE]
  | case3 =>
    have := sum.isLt
    simp only [sumWords, wordsLE, List.sum_nil]
    omega

theorem toNat_complement_folded (sum : BitVec 32) :
    ((~~~((sum >>> 16) + (sum &&& 0xffff) + (((sum >>> 16) + (sum &&& 0xffff)) >>> 16))).setWidth
      16).toNat = 65535 - folded sum.toNat := by
  have hlt := sum.isLt
  have hmask : (sum &&& 0xffff).toNat = sum.toNat % 65536 := by
    rw [BitVec.toNat_and]
    exact Nat.and_two_pow_sub_one_eq_mod _ 16
  have hfold : ((sum >>> 16) + (sum &&& 0xffff)).toNat = sum.toNat / 65536 + sum.toNat % 65536 := by
    rw [BitVec.toNat_add, hmask, BitVec.toNat_ushiftRight, Nat.shiftRight_eq_div_pow]
    omega
  generalize (sum >>> 16) + (sum &&& 0xffff) = s1 at hfold ⊢
  have htwice := fold_twice hlt
  rw [← hfold] at htwice
  have hle : s1.toNat ≤ 131070 := by omega
  have hadd : (s1 + s1 >>> 16).toNat = s1.toNat + s1.toNat / 65536 := by
    rw [BitVec.toNat_add, BitVec.toNat_ushiftRight, Nat.shiftRight_eq_div_pow]
    omega
  rw [BitVec.toNat_setWidth, BitVec.toNat_not, hadd]
  omega

theorem toNat_calChecksum (ptr : List Byte) (nbytes : Nat) : (calChecksum ptr nbytes).toNat =
    65535 - folded ((wordsLE (ptr.take nbytes)).sum % 4294967296) := by
  have h := toNat_complement_folded (sumWords 0 (ptr.take nbytes))
  have hz : (0 : BitVec 32).toNat = 0 := rfl
  rw [toNat_sumWords, hz, Nat.zero_add] at h
  exact h

theorem calChecksum_eq (ptr : List Byte) {nbytes : Nat} (h : nbytes ≤ 131074) :
    (calChecksum ptr nbytes).toNat = 65535 - folded (wordsLE (ptr.take nbytes)).sum := by
  have hle := wordsLE_sum_le (ptr.take nbytes)
  have hlen := List.length_take_le nbytes ptr
  rw [toNat_calChecksum, Nat.mod_eq_of_lt (by omega)]

/-- The accumulator is the exact total of the words read so far. -/
theorem toNat_sumWords_of_le {l : List Byte} (h : l.length ≤ 131074) :
    (sumWords 0 l).toNat = (wordsLE l).sum := by
  have hle := wordsLE_sum_le l
  have hz : (0 : BitVec 32).toNat = 0 := rfl
  rw [toNat_sumWords, hz, Nat.zero_add, Nat.mod_eq_of_lt (by omega)]

/-- `cal_checksum` is the complement of the one's-complement sum of the buffer's words: its
accumulator never wraps, and two folds leave the sum with its carries. -/
theorem calChecksum_onesComplement (buf : List Byte) (h : buf.length ≤ 131074) :
    (calChecksum buf buf.length).toNat = 0xFFFF - sum16 (wordsLE buf) ∧
      (∀ read, read <+: buf → (sumWords 0 read).toNat = (wordsLE read).sum) ∧
      let once := (sumWords 0 buf).toNat / 65536 + (sumWords 0 buf).toNat % 65536
      (once + once / 65536) % 65536 = sum16 (wordsLE buf) := by
  have hsum : sum16 (wordsLE buf) = folded (wordsLE buf).sum := sum16_eq wordsLE_lt
  refine ⟨?_, fun read hr => ?_, ?_⟩
  · rw [calChecksum_eq buf h, List.take_length, hsum]
  · exact toNat_sumWords_of_le (hr.length_le.trans h)
  · have htwice := fold_twice (sumWords 0 buf).isLt
    rwa [toNat_sumWords_of_le h, ← hsum, ← toNat_sumWords_of_le h] at htwice

theorem calChecksum_onesComplement_odd :
    (calChecksum [0xFF, 0xFF, 0x02] 3).toNat = 0xFFFD ∧
      (calChecksum [0xFF, 0xFF, 0x02] 3).toNat = 0xFFFF - sum16 (wordsLE [0xFF, 0xFF, 0x02]) :=
  ⟨by decide, (calChecksum_onesComplement [0xFF, 0xFF, 0x02] (by decide)).1⟩

theorem low_byte (w : BitVec 16) : (w &&& 0xff).setWidth 8 = w.setWidth 8 := by
  apply BitVec.eq_of_toNat_eq
  rw [BitVec.toNat_setWidth, BitVec.toNat_setWidth, BitVec.toNat_and]
  have := Nat.and_two_pow_sub_one_eq_mod w.toNat 8
  simp only [Nat.reducePow, Nat.reduceSub] at this
  simp [this]

theorem ofNat_low_byte (n : Nat) : BitVec.ofNat 8 (n &&& 0xff) = BitVec.ofNat 8 n := by
  apply BitVec.eq_of_toNat_eq
  rw [BitVec.toNat_ofNat, BitVec.toNat_ofNat, Nat.and_two_pow_sub_one_eq_mod n 8]
  omega

theorem wordsBE_htons (w : BitVec 16) : wordsBE (bytes16 (htons w)) = [w.toNat] := by
  have := w.isLt
  rw [htons, bytes16_le16]
  simp only [wordsBE, BitVec.toNat_setWidth, BitVec.toNat_ushiftRight,
    Nat.shiftRight_eq_div_pow]
  congr 1
  omega

theorem fillPayload_eq (p : List Byte) : fillPayload p = swapPairs (padEven p) := by
  by_cases h : p.length % 2 = 0
  · simp [fillPayload, padEven, h]
  · obtain ⟨q, a, rfl⟩ : ∃ q a, p = q ++ [a] := by
      have hne : p ≠ [] := by
        rintro rfl
        simp at h
      exact ⟨p.dropLast, p.getLast hne, (List.dropLast_append_getLast hne).symm⟩
    have hq : q.length % 2 = 0 := by
      simp only [List.length_append, List.length_singleton] at h
      omega
    have heven : q.length >>> 1 <<< 1 = q.length := by
      rw [Nat.shiftLeft_eq, Nat.shiftRight_eq_div_pow]
      omega
    have hlast : byteAt (q ++ [a]) q.length = a := by simp [byteAt]
    have hodd : ¬ (q.length + 1) % 2 = 0 := by omega
    have hpad : padEven (q ++ [a]) = q ++ [a, 0] := by
      rw [padEven, if_neg (by simpa using hodd), List.append_assoc]
      rfl
    rw [hpad, swapPairs_append hq]
    simp [fillPayload, hodd, heven, hlast, swapPairs]

theorem pseudoHeader_layout (h : IpHdr) (len : Nat) : pseudoHeader h.layout len =
    bytes32 h.srcIp ++ bytes32 h.dstIp ++ [0, h.protocol] ++
      [BitVec.ofNat 8 (len / 256), BitVec.ofNat 8 len] := rfl

@[simp] theorem length_pseudoHeader (h : IpHdr) (len : Nat) :
    (pseudoHeader h.layout len).length = 12 := rfl

theorem fillIpCheckbuf_eq (h : IpHdr) :
    fillIpCheckbuf h = swapPairs { h with hdrChksum := 0 }.layout := by
  simp only [fillIpCheckbuf, low_byte]
  simp [IpHdr.layout, bytes16, bytes32, swapPairs, convertByteOrder]

theorem fillTcpCheckBuffer_eq {ip : IpHdr} {tcp : TcpHdr} (hu : tcp.urgentPointer = 0)
    (p : List Byte) : fillTcpCheckBuffer ip tcp p =
      swapPairs (pseudoHeader ip.layout (20 + p.length) ++ { tcp with chksum := 0 }.layout ++
        padEven p) := by
  have heven : (pseudoHeader ip.layout (20 + p.length) ++
      { tcp with chksum := 0 }.layout).length % 2 = 0 := by
    rw [List.length_append, length_pseudoHeader, TcpHdr.length_layout]
  rw [swapPairs_append heven, fillTcpCheckBuffer, fillPayload_eq, Nat.add_comm 20]
  simp only [low_byte, ofNat_low_byte, Nat.shiftRight_eq_div_pow, pseudoHeader_layout,
    TcpHdr.layout, hu]
  simp [bytes16, bytes32, swapPairs, convertByteOrder]

theorem IpHdr.sum_withChksum (h : IpHdr) (c : BitVec 16) :
    (wordsBE { h with hdrChksum := htons c }.layout).sum =
      (wordsBE { h with hdrChksum := 0 }.layout).sum + c.toNat := by
  have hz : wordsBE (bytes16 0) = [0] := by simp [bytes16, wordsBE]
  have hsplit (w : BitVec 16) : (wordsBE { h with hdrChksum := w }.layout).sum =
      (wordsBE ([h.verIhl, h.serviceType] ++ bytes16 h.totalLength ++ bytes16 h.identification ++
        bytes16 h.flagsFragmentOffset ++ [h.time2live, h.protocol])).sum +
        ((wordsBE (bytes16 w)).sum + (wordsBE (bytes32 h.srcIp ++ bytes32 h.dstIp)).sum) := by
    rw [← List.sum_append, ← wordsBE_append (by simp), ← List.sum_append,
      ← wordsBE_append (by simp)]
    simp only [IpHdr.layout, List.append_assoc]
  rw [hsplit, hsplit, wordsBE_htons, hz, List.sum_singleton, List.sum_singleton]
  omega

theorem TcpHdr.sum_withChksum (h : TcpHdr) (c : BitVec 16) :
    (wordsBE { h with chksum := htons c }.layout).sum =
      (wordsBE { h with chksum := 0 }.layout).sum + c.toNat := by
  have hz : wordsBE (bytes16 0) = [0] := by simp [bytes16, wordsBE]
  have hsplit (w : BitVec 16) : (wordsBE { h with chksum := w }.layout).sum =
      (wordsBE (bytes16 h.srcPort ++ bytes16 h.dstPort ++ bytes32 h.seq ++ bytes32 h.ack ++
        [h.dOffsetRsrvd, h.flags] ++ bytes16 h.window)).sum +
        ((wordsBE (bytes16 w)).sum + (wordsBE (bytes16 h.urgentPointer)).sum) := by
    rw [← List.sum_append, ← wordsBE_append (by simp), ← List.sum_append,
      ← wordsBE_append (by simp)]
    simp only [TcpHdr.layout, List.append_assoc]
  rw [hsplit, hsplit, wordsBE_htons, hz, List.sum_singleton, List.sum_singleton]
  omega

theorem ip_checksum_valid (h : IpHdr) (rest : List Byte) :
    sumBE { h with hdrChksum := htons (calChecksum (fillIpCheckbuf h ++ rest) 20) }.layout =
      0xFFFF := by
  have htake : (fillIpCheckbuf h ++ rest).take 20 = fillIpCheckbuf h :=
    List.take_left' (by simp [fillIpCheckbuf, convertByteOrder])
  have hc := calChecksum_eq (fillIpCheckbuf h ++ rest) (show 20 ≤ 131074 by omega)
  rw [htake, fillIpCheckbuf_eq h, wordsLE_swapPairs (by simp)] at hc
  rw [sumBE_eq, h.sum_withChksum, fillIpCheckbuf_eq h, hc, folded_add_complement]

theorem tcp_checksum_valid (ip : IpHdr) {tcp : TcpHdr} (hu : tcp.urgentPointer = 0)
    {p : List Byte} (hp : p.length ≤ 4096) :
    sumBE (pseudoHeader ip.layout (20 + p.length) ++ { tcp with
      chksum := htons (calChecksum (fillTcpCheckBuffer ip tcp p)
        (32 + (p.length + 1) >>> 1 <<< 1)) }.layout ++ p) = 0xFFFF := by
  have hpad := padEven_length p
  have hround := length_padEven p
  have hle : (p.length + 1) >>> 1 <<< 1 ≤ 4096 := by
    rw [Nat.shiftLeft_eq, Nat.shiftRight_eq_div_pow]
    omega
  have htake : (fillTcpCheckBuffer ip tcp p).take (32 + (p.length + 1) >>> 1 <<< 1) =
      fillTcpCheckBuffer ip tcp p := by
    apply List.take_of_length_le
    simp only [fillTcpCheckBuffer_eq hu, length_swapPairs, List.length_append, length_pseudoHeader,
      TcpHdr.length_layout, hround]
    exact le_rfl
  have hsum (c : BitVec 16) {l : List Byte} (hl : wordsBE l = wordsBE p) :
      (wordsBE (pseudoHeader ip.layout (20 + p.length) ++
        { tcp with chksum := c }.layout ++ l)).sum =
        (wordsBE (pseudoHeader ip.layout (20 + p.length))).sum +
          (wordsBE { tcp with chksum := c }.layout).sum + (wordsBE p).sum := by
    rw [wordsBE_append (by simp), wordsBE_append (by simp), List.sum_append, List.sum_append, hl]
  have heven : (pseudoHeader ip.layout (20 + p.length) ++ { tcp with chksum := 0 }.layout ++
      padEven p).length % 2 = 0 := by
    simp only [List.length_append, length_pseudoHeader, TcpHdr.length_layout]
    omega
  have hc := calChecksum_eq (fillTcpCheckBuffer ip tcp p)
    (show 32 + (p.length + 1) >>> 1 <<< 1 ≤ 131074 by omega)
  rw [htake, fillTcpCheckBuffer_eq hu, wordsLE_swapPairs heven, hsum 0 (wordsBE_padEven p),
    ← fillTcpCheckBuffer_eq hu] at hc
  have hadd (a b c d : Nat) : a + (b + d) + c = a + b + c + d := by omega
  rw [sumBE_eq, hsum _ rfl, tcp.sum_withChksum, hc, hadd, folded_add_complement]

/-- Both checksums of every reply are valid: the words of the IP header, and those of the
pseudo-header, the TCP header and the payload, sum to all ones. -/
theorem tcpRepFrame_checksums (hf : TcpFrame) (received : Received) (blen : BitVec 32)
    (payload : Payload) :
    let frame := (tcpRepFrame hf received.bytes blen payload).layout
    let payloadLen := payload.data.length
    sumBE (slice 16 20 frame) = 0xFFFF ∧
      slice 56 payloadLen frame = payload.data ∧
      sumBE (pseudoHeader (slice 16 20 frame) (20 + payloadLen) ++ slice 36 20 frame ++
        slice 56 payloadLen frame) = 0xFFFF := by
  intro frame payloadLen
  have hdata : slice 56 payloadLen frame = payload.data := by
    rw [TcpFrame.slice_payload, tcpRepFrame, TcpFrame.copyPayload, Payload.toList_copyTo,
      List.take_left' rfl]
  rw [hdata, TcpFrame.slice_ip, TcpFrame.slice_tcp]
  refine ⟨?_, rfl, ?_⟩
  · exact ip_checksum_valid _ _
  · exact tcp_checksum_valid _ rfl payload.fits

theorem toNat_htons (w : BitVec 16) : (htons w).toNat = swapBytes w.toNat := by
  have hlt := w.isLt
  rw [htons, toNat_le16, BitVec.toNat_setWidth, BitVec.toNat_setWidth, BitVec.toNat_ushiftRight,
    Nat.shiftRight_eq_div_pow, swapBytes]
  omega

theorem calChecksum_swap {buf : List Byte} (heven : buf.length % 2 = 0)
    (h : buf.length ≤ 131074) :
    calChecksum (swapPairs buf) buf.length = htons (calChecksum buf buf.length) := by
  have hle : sum16 (wordsLE buf) ≤ 65535 := by
    rw [sum16_eq wordsLE_lt]
    exact folded_le _
  have hswapped := (calChecksum_onesComplement (swapPairs buf) (by rwa [length_swapPairs])).1
  rw [length_swapPairs, sum16_swapPairs heven] at hswapped
  apply BitVec.eq_of_toNat_eq
  rw [hswapped, toNat_htons, (calChecksum_onesComplement buf h).1]
  exact (swapBytes_complement hle).symm

theorem htons_htons (w : BitVec 16) : htons (htons w) = w := by
  have hlt := w.isLt
  apply BitVec.eq_of_toNat_eq
  rw [toNat_htons, toNat_htons]
  unfold swapBytes
  omega

theorem calChecksum_append {l : List Byte} {n : Nat} (h : l.length = n) (rest : List Byte) :
    calChecksum (l ++ rest) n = calChecksum l n := by
  rw [calChecksum, calChecksum, List.take_left' h, List.take_of_length_le h.le]

theorem calChecksum_padEven {l : List Byte} (h : (padEven l).length ≤ 131074) :
    calChecksum (padEven l) (padEven l).length = calChecksum l l.length := by
  have hle : l.length ≤ (padEven l).length := by
    unfold padEven
    split
    · exact le_rfl
    · simp
  apply BitVec.eq_of_toNat_eq
  rw [(calChecksum_onesComplement _ h).1, (calChecksum_onesComplement l (hle.trans h)).1,
    wordsLE_padEven]

theorem htons_ipChecksum (h : IpHdr) (rest : List Byte) :
    htons (calChecksum (fillIpCheckbuf h ++ rest) 20) =
      calChecksum { h with hdrChksum := 0 }.layout 20 := by
  rw [calChecksum_append (by simp [fillIpCheckbuf, convertByteOrder]), fillIpCheckbuf_eq,
    ← IpHdr.length_layout { h with hdrChksum := 0 }, calChecksum_swap (by simp) (by simp),
    htons_htons]

theorem htons_tcpChecksum (ip : IpHdr) {tcp : TcpHdr} (hu : tcp.urgentPointer = 0)
    {p : List Byte} (hp : p.length ≤ 4096) :
    htons (calChecksum (fillTcpCheckBuffer ip tcp p) (32 + (p.length + 1) >>> 1 <<< 1)) =
      calChecksum (pseudoHeader ip.layout (20 + p.length) ++ { tcp with chksum := 0 }.layout ++ p)
        (32 + p.length) := by
  have hround : (padEven p).length = (p.length + 1) >>> 1 <<< 1 := length_padEven p
  have hlen : (pseudoHeader ip.layout (20 + p.length) ++
      { tcp with chksum := 0 }.layout).length = 32 := by
    rw [List.length_append, length_pseudoHeader, TcpHdr.length_layout]
  have hpad : padEven (pseudoHeader ip.layout (20 + p.length) ++ { tcp with chksum := 0 }.layout ++
      p) = pseudoHeader ip.layout (20 + p.length) ++ { tcp with chksum := 0 }.layout ++
        padEven p := padEven_append (by rw [hlen]) p
  have hle : (p.length + 1) >>> 1 <<< 1 ≤ 4097 := by
    rw [Nat.shiftLeft_eq, Nat.shiftRight_eq_div_pow]
    omega
  have heven := padEven_length (pseudoHeader ip.layout (20 + p.length) ++
    { tcp with chksum := 0 }.layout ++ p)
  have hwhole : (padEven (pseudoHeader ip.layout (20 + p.length) ++
      { tcp with chksum := 0 }.layout ++ p)).length = 32 + (p.length + 1) >>> 1 <<< 1 := by
    rw [hpad, List.length_append, hlen, hround]
  rw [fillTcpCheckBuffer_eq hu, ← hpad, ← hwhole, calChecksum_swap heven (by omega), htons_htons,
    calChecksum_padEven (by omega), List.length_append, hlen]

/-- `cal_checksum` commutes with the exchange of the bytes of every word; so the swapped check
buffers, with `htons`, give the frame the checksums of its own bytes. -/
theorem calChecksum_swapPairs :
    (∀ buf : List Byte, buf.length % 2 = 0 → buf.length ≤ 131074 →
      calChecksum (swapPairs buf) buf.length = htons (calChecksum buf buf.length)) ∧
    ∀ (hf : TcpFrame) (received : Received) (blen : BitVec 32) (payload : Payload),
      let frame := tcpRepFrame hf received.bytes blen payload
      let payloadLen := payload.data.length
      frame.ipHeader.hdrChksum = calChecksum { frame.ipHeader with hdrChksum := 0 }.layout 20 ∧
        frame.tcpHeader.chksum =
          calChecksum (pseudoHeader frame.ipHeader.layout (20 + payloadLen) ++
            { frame.tcpHeader with chksum := 0 }.layout ++ payload.data) (32 + payloadLen) := by
  refine ⟨fun buf heven h => calChecksum_swap heven h, fun hf received blen payload => ⟨?_, ?_⟩⟩
  · exact htons_ipChecksum _ _
  · exact htons_tcpChecksum _ rfl payload.fits

theorem calChecksum_swapPairs_carry :
    calChecksum [0x01, 0xFF, 0x00, 0x02] 4 = htons (calChecksum [0xFF, 0x01, 0x02, 0x00] 4) :=
  calChecksum_swapPairs.1 [0xFF, 0x01, 0x02, 0x00] (by decide) (by decide)

end Cexp.ProFrame
