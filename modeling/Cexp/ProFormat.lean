import Cexp.ByteOrder

/-! The structures of `pro_format.h` with their natural layout on a little-endian host with
4-byte `long`, and the two copies of `tcp_rep_frame` that address the frame by a
literal byte offset. -/

namespace Cexp.ProFrame

open ByteOrder

abbrev Byte := BitVec 8

structure EthernetHdr where
  destMac : Vector Byte 6
  srcMac : Vector Byte 6
  proType : BitVec 16

structure IpHdr where
  verIhl : Byte
  serviceType : Byte
  totalLength : BitVec 16
  identification : BitVec 16
  flagsFragmentOffset : BitVec 16
  time2live : Byte
  protocol : Byte
  hdrChksum : BitVec 16
  srcIp : BitVec 32
  dstIp : BitVec 32

structure TcpHdr where
  srcPort : BitVec 16
  dstPort : BitVec 16
  seq : BitVec 32
  ack : BitVec 32
  dOffsetRsrvd : Byte
  flags : Byte
  window : BitVec 16
  chksum : BitVec 16
  urgentPointer : BitVec 16

structure TcpFrame where
  padding : BitVec 16
  eheader : EthernetHdr
  ipHeader : IpHdr
  tcpHeader : TcpHdr
  payload : Vector Byte 4096

def EthernetHdr.layout (h : EthernetHdr) : List Byte :=
  h.destMac.toList ++ h.srcMac.toList ++ bytes16 h.proType

def IpHdr.layout (h : IpHdr) : List Byte :=
  [h.verIhl, h.serviceType] ++ bytes16 h.totalLength ++ bytes16 h.identification ++
    bytes16 h.flagsFragmentOffset ++ [h.time2live, h.protocol] ++ bytes16 h.hdrChksum ++
    bytes32 h.srcIp ++ bytes32 h.dstIp

def TcpHdr.layout (h : TcpHdr) : List Byte :=
  bytes16 h.srcPort ++ bytes16 h.dstPort ++ bytes32 h.seq ++ bytes32 h.ack ++
    [h.dOffsetRsrvd, h.flags] ++ bytes16 h.window ++ bytes16 h.chksum ++
    bytes16 h.urgentPointer

def TcpFrame.headers (f : TcpFrame) : List Byte :=
  bytes16 f.padding ++ f.eheader.layout ++ f.ipHeader.layout ++ f.tcpHeader.layout

/-- The 4152 bytes of a frame; `padding` puts the IP header on a multiple of four. -/
def TcpFrame.layout (f : TcpFrame) : List Byte := f.headers ++ f.payload.toList

@[simp] theorem length_bytes16 (w : BitVec 16) : (bytes16 w).length = 2 := rfl

@[simp] theorem length_bytes32 (w : BitVec 32) : (bytes32 w).length = 4 := rfl

@[simp] theorem EthernetHdr.length_layout (h : EthernetHdr) : h.layout.length = 14 := by
  simp [EthernetHdr.layout]

@[simp] theorem IpHdr.length_layout (h : IpHdr) : h.layout.length = 20 := rfl

@[simp] theorem TcpHdr.length_layout (h : TcpHdr) : h.layout.length = 20 := rfl

@[simp] theorem TcpFrame.length_headers (f : TcpFrame) : f.headers.length = 56 := by
  simp [TcpFrame.headers]

def slice (off len : Nat) (l : List Byte) : List Byte := (l.drop off).take len

theorem slice_append (off len : Nat) {a b c : List Byte} (ha : a.length = off)
    (hb : b.length = len) : slice off len (a ++ b ++ c) = b := by
  rw [slice, List.append_assoc, List.drop_left' ha, List.take_left' hb]

theorem TcpFrame.slice_ip (f : TcpFrame) : slice 16 20 f.layout = f.ipHeader.layout := by
  have h := slice_append 16 20 (a := bytes16 f.padding ++ f.eheader.layout) (b := f.ipHeader.layout)
    (c := f.tcpHeader.layout ++ f.payload.toList) (by simp) (by simp)
  simpa only [TcpFrame.layout, TcpFrame.headers, List.append_assoc] using h

theorem TcpFrame.slice_tcp (f : TcpFrame) : slice 36 20 f.layout = f.tcpHeader.layout := by
  have h := slice_append 36 20 (a := bytes16 f.padding ++ f.eheader.layout ++ f.ipHeader.layout)
    (b := f.tcpHeader.layout) (c := f.payload.toList) (by simp) (by simp)
  simpa only [TcpFrame.layout, TcpFrame.headers, List.append_assoc] using h

theorem TcpFrame.slice_payload (f : TcpFrame) (n : Nat) :
    slice 56 n f.layout = f.payload.toList.take n := by
  rw [slice, TcpFrame.layout, List.drop_left' f.length_headers]

def memcpy (mem : List Byte) (off : Nat) (src : List Byte) : List Byte :=
  mem.take off ++ src ++ mem.drop (off + src.length)

theorem memcpy_append (off : Nat) {a b c d : List Byte} (ha : a.length = off)
    (hb : b.length = d.length) : memcpy (a ++ b ++ c) off d = a ++ d ++ c := by
  have hd : (a ++ b).length = off + d.length := by simp [ha, hb]
  rw [memcpy, List.drop_left' hd, List.append_assoc a b c, List.take_left' ha]

/-- `memcpy((char*)&hf->eheader + 10, bytes, 4)`: over the end of the source address
and the type. -/
def EthernetHdr.copyLoopback (h : EthernetHdr) (b0 b1 b2 b3 : Byte) : EthernetHdr :=
  { h with srcMac := (h.srcMac.set 4 b0).set 5 b1, proType := le16 b2 b3 }

theorem EthernetHdr.layout_copyLoopback (h : EthernetHdr) (b0 b1 b2 b3 : Byte) :
    (h.copyLoopback b0 b1 b2 b3).layout = memcpy h.layout 10 [b0, b1, b2, b3] := by
  have hset : ((h.srcMac.set 4 b0).set 5 b1).toList = h.srcMac.toList.take 4 ++ [b0, b1] := by
    apply List.ext_getElem
    · simp
    · intro i hi hi'
      simp only [Vector.getElem_toList, List.getElem_append, List.getElem_take,
        List.length_take, Vector.length_toList, Vector.getElem_set]
      simp only [Vector.length_toList] at hi
      by_cases h5 : i = 5
      · simp [h5]
      · by_cases h4 : i = 4
        · simp [h4]
        · have hlt : i < 4 := by omega
          simp [hlt, Ne.symm h4, Ne.symm h5]
  have hm := memcpy_append 10 (a := h.destMac.toList ++ h.srcMac.toList.take 4)
    (b := h.srcMac.toList.drop 4 ++ bytes16 h.proType) (d := [b0, b1, b2, b3]) (c := [])
    (by simp) (by simp)
  have hl : h.layout = h.destMac.toList ++ h.srcMac.toList.take 4 ++
      (h.srcMac.toList.drop 4 ++ bytes16 h.proType) ++ [] := by
    simp only [EthernetHdr.layout, List.append_nil, List.append_assoc]
    rw [← List.append_assoc (List.take 4 _) (List.drop 4 _), List.take_append_drop]
  rw [hl, hm]
  simp [EthernetHdr.layout, EthernetHdr.copyLoopback, hset, bytes16_le16]

/-- What is sent after the headers: at most the size of the payload field. -/
structure Payload where
  data : List Byte
  fits : data.length ≤ 4096

def Payload.copyTo (p : Payload) (v : Vector Byte 4096) : Vector Byte 4096 :=
  Vector.ofFn fun i => p.data.getD i v[i]

theorem Payload.toList_copyTo (p : Payload) (v : Vector Byte 4096) :
    (p.copyTo v).toList = p.data ++ v.toList.drop p.data.length := by
  have hp := p.fits
  apply List.ext_getElem
  · simp
    omega
  · intro i hi hi'
    simp only [Payload.copyTo, Vector.getElem_toList, Vector.getElem_ofFn,
      List.getElem_append, List.getElem_drop]
    split_ifs
    case pos h => simp [h]
    case neg h =>
      have he : p.data.length + (i - p.data.length) = i := by omega
      simp [h, he]

/-- `memcpy((char*)hf + 56, payload, payloadLen)`. -/
def TcpFrame.copyPayload (f : TcpFrame) (p : Payload) : TcpFrame :=
  { f with payload := p.copyTo f.payload }

end Cexp.ProFrame
