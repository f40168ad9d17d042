import Cexp.ByteOrder

/-! TCP segments in IPv4 datagrams behind a link header, read from their bytes on the wire:
an Ethernet header, or the four-byte address family of a loopback device. -/

namespace TcpPacket

open ByteOrder

abbrev Byte := BitVec 8

inductive LinkKind where
  | loopback
  | ethernet
  deriving DecidableEq, Repr

def LinkKind.size : LinkKind → Nat
  | .loopback => 4
  | .ethernet => 14

/-- The family is in the byte order of the host, the type in that of the wire. -/
inductive LinkHeader where
  | loopback (family : BitVec 32)
  | ethernet (dest src : List Byte) (etherType : BitVec 16)
  deriving DecidableEq, Repr

structure IpHeader where
  version : Nat
  ihl : Nat
  totalLength : Nat
  dontFragment : Bool
  moreFragments : Bool
  fragmentOffset : Nat
  protocol : Byte
  source : BitVec 32
  destination : BitVec 32
  deriving DecidableEq, Repr

structure TcpHeader where
  srcPort : BitVec 16
  dstPort : BitVec 16
  seq : BitVec 32
  ack : BitVec 32
  dataOffset : Nat
  flags : Byte
  deriving DecidableEq, Repr

/-- A packet: its headers, what the segment carries, and what follows the datagram. -/
structure Packet where
  link : LinkHeader
  ip : IpHeader
  tcp : TcpHeader
  data : List Byte
  trailer : List Byte
  deriving DecidableEq, Repr

def be16 (l : List Byte) (i : Nat) : BitVec 16 := le16 (l.getD (i + 1) 0) (l.getD i 0)

def be32 (l : List Byte) (i : Nat) : BitVec 32 :=
  le32 (l.getD (i + 3) 0) (l.getD (i + 2) 0) (l.getD (i + 1) 0) (l.getD i 0)

def parseLink : LinkKind → List Byte → Option (LinkHeader × List Byte)
  | .loopback, b0 :: b1 :: b2 :: b3 :: l => some (.loopback (le32 b0 b1 b2 b3), l)
  | .loopback, _ => none
  | .ethernet, l =>
    if 14 ≤ l.length then
      some (.ethernet (l.take 6) ((l.drop 6).take 6) (be16 l 12), l.drop 14)
    else none

/-- The datagram's header, its payload and what follows it. -/
def parseIp (l : List Byte) : Option (IpHeader × List Byte × List Byte) :=
  let ihl := (l.getD 0 0).toNat % 16
  let totalLength := (be16 l 2).toNat
  if 5 ≤ ihl ∧ 4 * ihl ≤ totalLength ∧ totalLength ≤ l.length then
    some (⟨(l.getD 0 0).toNat / 16, ihl, totalLength, (l.getD 6 0).getLsbD 6,
      (l.getD 6 0).getLsbD 5, (be16 l 6).toNat % 8192, l.getD 9 0, be32 l 12, be32 l 16⟩,
      (l.take totalLength).drop (4 * ihl), l.drop totalLength)
  else none

def parseTcp (l : List Byte) : Option (TcpHeader × List Byte) :=
  let dataOffset := (l.getD 12 0).toNat / 16
  if 5 ≤ dataOffset ∧ 4 * dataOffset ≤ l.length then
    some (⟨be16 l 0, be16 l 2, be32 l 4, be32 l 8, dataOffset, l.getD 13 0⟩,
      l.drop (4 * dataOffset))
  else none

def parse (kind : LinkKind) (l : List Byte) : Option Packet := do
  let (link, l) ← parseLink kind l
  let (ip, l, trailer) ← parseIp l
  let (tcp, data) ← parseTcp l
  some ⟨link, ip, tcp, data, trailer⟩

/-- TCP over IPv4, and on Ethernet said to be so. -/
def Packet.tcpOverIpv4 (p : Packet) : Prop :=
  p.ip.version = 4 ∧ p.ip.protocol = 6 ∧
    match p.link with
    | .loopback _ => True
    | .ethernet _ _ etherType => etherType = 0x0800

theorem be16_drop (l : List Byte) (n i : Nat) : be16 (l.drop n) i = be16 l (n + i) := by
  simp [be16, List.getD_eq_getElem?_getD, List.getElem?_drop, Nat.add_assoc]

theorem be32_drop (l : List Byte) (n i : Nat) : be32 (l.drop n) i = be32 l (n + i) := by
  simp [be32, List.getD_eq_getElem?_getD, List.getElem?_drop, Nat.add_assoc]

theorem be16_take {l : List Byte} {n i : Nat} (h : i + 2 ≤ n) : be16 (l.take n) i = be16 l i := by
  simp [be16, List.getD_eq_getElem?_getD, show i < n by omega,
    show i + 1 < n by omega]

theorem be32_take {l : List Byte} {n i : Nat} (h : i + 4 ≤ n) : be32 (l.take n) i = be32 l i := by
  simp [be32, List.getD_eq_getElem?_getD, show i < n by omega,
    show i + 1 < n by omega, show i + 2 < n by omega, show i + 3 < n by omega]

theorem parse_eq_some {kind : LinkKind} {l : List Byte} {p : Packet} (h : parse kind l = some p) :
    ∃ l' seg, parseLink kind l = some (p.link, l') ∧ parseIp l' = some (p.ip, seg, p.trailer) ∧
      parseTcp seg = some (p.tcp, p.data) := by
  simp only [parse, Option.bind_eq_bind, Option.bind_eq_some_iff] at h
  obtain ⟨⟨link, l'⟩, hlink, ⟨ip, seg, trailer⟩, hip, ⟨tcp, data⟩, htcp, he⟩ := h
  obtain rfl := Option.some.inj he
  exact ⟨l', seg, hlink, hip, htcp⟩

theorem parse_of {kind : LinkKind} {l l' seg data trailer : List Byte} {link : LinkHeader}
    {ip : IpHeader} {tcp : TcpHeader} (hlink : parseLink kind l = some (link, l'))
    (hip : parseIp l' = some (ip, seg, trailer)) (htcp : parseTcp seg = some (tcp, data)) :
    parse kind l = some ⟨link, ip, tcp, data, trailer⟩ := by
  simp [parse, hlink, hip, htcp]

theorem parseLink_ethernet {l l' : List Byte} {link : LinkHeader}
    (h : parseLink .ethernet l = some (link, l')) : 14 ≤ l.length ∧
      link = .ethernet (l.take 6) ((l.drop 6).take 6) (be16 l 12) ∧ l' = l.drop 14 := by
  simp only [parseLink] at h
  split at h
  case isFalse => cases h
  case isTrue hl =>
    simp only [Option.some.injEq, Prod.mk.injEq] at h
    exact ⟨hl, h.1.symm, h.2.symm⟩

/-- A datagram is as long as its header says, and the header says where it ends. -/
theorem parseIp_eq_some {l seg trailer : List Byte} {ip : IpHeader}
    (h : parseIp l = some (ip, seg, trailer)) :
    5 ≤ ip.ihl ∧ 4 * ip.ihl ≤ ip.totalLength ∧ ip.totalLength ≤ l.length ∧
      seg = (l.take ip.totalLength).drop (4 * ip.ihl) ∧ ip.protocol = l.getD 9 0 ∧
        ip.source = be32 l 12 ∧ ip.destination = be32 l 16 := by
  simp only [parseIp] at h
  split at h
  case isFalse => cases h
  case isTrue hl =>
    simp only [Option.some.injEq, Prod.mk.injEq] at h
    obtain ⟨rfl, rfl, -⟩ := h
    exact ⟨hl.1, hl.2.1, hl.2.2, rfl, rfl, rfl, rfl⟩

theorem parseIp_lengths {l seg trailer : List Byte} {ip : IpHeader}
    (h : parseIp l = some (ip, seg, trailer)) :
    ip.ihl = (l.getD 0 0).toNat % 16 ∧ ip.totalLength = (be16 l 2).toNat := by
  simp only [parseIp] at h
  split at h
  case isFalse => cases h
  case isTrue =>
    simp only [Option.some.injEq, Prod.mk.injEq] at h
    obtain ⟨rfl, -⟩ := h
    exact ⟨rfl, rfl⟩

theorem parseTcp_eq_some {l data : List Byte} {tcp : TcpHeader}
    (h : parseTcp l = some (tcp, data)) : 20 ≤ l.length ∧ tcp.srcPort = be16 l 0 ∧
      tcp.dstPort = be16 l 2 ∧ tcp.seq = be32 l 4 ∧ tcp.ack = be32 l 8 := by
  simp only [parseTcp] at h
  split at h
  case isFalse => cases h
  case isTrue hl =>
    simp only [Option.some.injEq, Prod.mk.injEq] at h
    obtain ⟨rfl, -⟩ := h
    exact ⟨by omega, rfl, rfl, rfl, rfl⟩

end TcpPacket
