import Cexp.AdapterList
import Cexp.ArpPacket
import Cexp.Interleaving
import Cexp.PacketForwarding

/-! `main` of `Main_net.c`: it sends ARP replies for the address of another station, fifty at a
time, while the receiving thread passes on what it captures. -/

namespace Cexp.MainNet

open ByteOrder Interleaving ProFrame Transition

abbrev Mac := Vector Byte 6

def ARP_REP : BitVec 16 := 2

structure ArpHdr where
  hardwareType : BitVec 16
  proType : BitVec 16
  hardwareSize : Byte
  protocolSize : Byte
  opcode : BitVec 16
  senderMac : Mac
  senderIp : Vector Byte 4
  targetMac : Mac
  targetIp : Vector Byte 4

structure ArpFrame where
  eheader : EthernetHdr
  arpHeader : ArpHdr

def ArpHdr.layout (h : ArpHdr) : List Byte :=
  bytes16 h.hardwareType ++ bytes16 h.proType ++ [h.hardwareSize, h.protocolSize] ++
    bytes16 h.opcode ++ h.senderMac.toList ++ h.senderIp.toList ++ h.targetMac.toList ++
    h.targetIp.toList

def ArpFrame.layout (f : ArpFrame) : List Byte := f.eheader.layout ++ f.arpHeader.layout

/-- An `IP_ADAPTER_ADDRESSES` with the address that `get_adapter_mac` reads. -/
structure NetAdapter extends AdapterList.Adapter where
  physicalAddress : Vector Byte 8

/-- What `GetAdaptersAddresses` answers to the call for the size, whether `malloc` succeeds, and
what the second call fills in unless it fails. -/
structure Answers where
  overflow : Bool
  allocated : Bool
  second : Option (List NetAdapter)

/-- The list at `pAddr`; `none` where that is a block that nothing has been written to. -/
def findAllAdapters (a : Answers) : Option (List NetAdapter) :=
  if !a.overflow then some []
  else if !a.allocated then some []
  else a.second

/-- The address in `mac`, and the result. -/
def getAdapterMac (friendlyName : List (BitVec 16)) (mac : Mac) (a : Answers) :
    Option (Mac × Byte) := do
  let pAddr ← findAllAdapters a
  match pAddr.find? (fun c => c.friendlyName.chars = friendlyName) with
  | some c => some (Vector.ofFn fun i => c.physicalAddress[i], 6)
  | none => some (mac, 0)

/-- The local `frame` of `send_arp`. -/
def arpFrame (senderMac : Mac) (targetIp : Vector Byte 4) (targetMac : Mac)
    (senderIp : Vector Byte 4) (opcode : BitVec 16) : ArpFrame where
  eheader := ⟨targetMac, senderMac, htons (PRO_ARP.setWidth 16)⟩
  arpHeader := {
    hardwareType := htons 0x0001
    proType := htons (PRO_IPV4.setWidth 16)
    hardwareSize := 0x06
    protocolSize := 0x04
    opcode := htons opcode
    senderMac := senderMac
    senderIp := senderIp
    targetMac := if opcode = ARP_REP then targetMac else Vector.replicate 6 0
    targetIp := targetIp }

def sendTimes (opcode : BitVec 16) : Nat := if opcode = ARP_REP then 50 else 1

def dupeIp : Vector Byte 4 := #v[192, 168, 0, 100]

def routeIp : Vector Byte 4 := #v[192, 168, 0, 1]

def routeMac : Mac := #v[0x00, 0x4b, 0xf3, 0xa3, 0x07, 0x88]

/-- `L"WLAN"`. -/
def wlan : List (BitVec 16) := [0x57, 0x4c, 0x41, 0x4e]

/-- What `arp_sponsor` has `send_arp` send when the address of the adapter is `senderMac`. -/
def sponsorFrame (senderMac : Mac) : ArpFrame :=
  arpFrame senderMac routeIp routeMac dupeIp ARP_REP

inductive Handle where
  | null
  | opened
  | closed
  deriving DecidableEq, Repr

inductive Sender where
  | sponsor
  | callback
  deriving DecidableEq, Repr

/-- Where `main` is: before a call of `arp_sponsor`, the second one or not; in the loop of
`send_arp`; in `WaitForSingleObject`; before and after `pcap_close`. -/
inductive MainPc where
  | calling (again : Bool)
  | sending (again : Bool) (frame : List Byte) (sendTimes i : Nat)
  | waiting
  | closing
  | closed
  | ended
  deriving DecidableEq, Repr

inductive Receiver where
  | started
  | looping
  | finished
  deriving DecidableEq, Repr

/-- `sends` has the calls of `send_data`, with the handle each was made on. -/
structure Net where
  pHandle : Handle
  mainPc : MainPc
  receiver : Receiver
  callback : State
  sends : List (Sender × Handle × List Byte)
  sleeps : Nat

/-- `sponsor` has what is found of the adapters, and what is on the stack where `send_arp` has
its `senderMac`; `listen`, whether the filter could be installed. -/
inductive Label where
  | sponsor (found : Answers) (senderMac : Mac)
  | send
  | waited
  | close
  | exit
  | listen (ok : Bool)
  | capture (h : Captured)
  | loopEnds

/-- After `dev_listen`, with the receiving thread created. -/
def start (gtcpFrame : TcpFrame) (listening : Bool) : Net where
  pHandle := if listening then .opened else .null
  mainPc := .calling false
  receiver := .started
  callback := ⟨[], gtcpFrame, []⟩
  sends := []
  sleeps := 0

def Net.sendOnce (s : Net) (again : Bool) (frame : List Byte) (times i : Nat) : Net :=
  let s : Net := { s with sends := s.sends ++ [(.sponsor, s.pHandle, frame)] }
  if i + 1 = times then { s with mainPc := if again then .closing else .waiting }
  else { s with mainPc := .sending again frame times (i + 1), sleeps := s.sleeps + 1 }

def Net.received (s : Net) (callback : State) : Net :=
  { s with
    callback := callback
    sends := s.sends ++
      (callback.sent.drop s.callback.sent.length).map fun data => (.callback, s.pHandle, data) }

/-- `none` also where the device is used without a handle, and when the process has ended. -/
def step (s : Net) : Label → Option Net
  | .sponsor found senderMac =>
    match s.mainPc with
    | .calling again => do
      let (senderMac, _) ← getAdapterMac wlan senderMac found
      some { s with
        mainPc := .sending again (sponsorFrame senderMac).layout (sendTimes ARP_REP) 0 }
    | _ => none
  | .send =>
    match s.mainPc with
    | .sending again frame times i => some (s.sendOnce again frame times i)
    | _ => none
  | .waited => if s.mainPc = .waiting then some { s with mainPc := .calling true } else none
  | .close =>
    if s.mainPc = .closing ∧ s.pHandle = .opened then
      some { s with mainPc := .closed, pHandle := .closed }
    else none
  | .exit => if s.mainPc = .closed then some { s with mainPc := .ended } else none
  | .listen ok =>
    if s.mainPc ≠ .ended ∧ s.receiver = .started ∧ s.pHandle = .opened then
      some { s with receiver := if ok then .looping else .finished }
    else none
  | .capture h =>
    if s.mainPc ≠ .ended ∧ s.receiver = .looping then
      (cbPcapDataReceived s.callback h).map s.received
    else none
  | .loopEnds =>
    if s.mainPc ≠ .ended ∧ s.receiver = .looping then some { s with receiver := .finished }
    else none

/-- What the calls of `arp_sponsor` have found for the address of the adapter. -/
def macs (ls : List Label) : List Mac :=
  ls.filterMap fun
    | .sponsor found senderMac => (getAdapterMac wlan senderMac found).map Prod.fst
    | _ => none

def captured (ls : List Label) : List Captured :=
  ls.filterMap fun
    | .capture h => some h
    | _ => none

/-- What is captured once `pcap_close` has been called. -/
def lateCaptures : List Label → List Captured
  | [] => []
  | .close :: ls => captured ls
  | _ :: ls => lateCaptures ls

def Net.sentBy (s : Net) (k : Sender) : List (List Byte) := (part k s.sends).map Prod.snd

/-- Fifty frames for each call. -/
def rounds (ms : List Mac) : List (List Byte) :=
  ms.flatMap fun m => List.replicate 50 (sponsorFrame m).layout

def sponsorPacket (senderMac : Mac) : ArpPacket.Packet where
  dest := routeMac
  src := senderMac
  hardwareType := 1
  opcode := ARP_REP
  senderMac := senderMac
  senderIp := dupeIp
  targetMac := routeMac
  targetIp := routeIp

theorem bytes16_htons (w : BitVec 16) : bytes16 (htons w) = ArpPacket.wire16 w := by
  rw [htons, bytes16_le16, ArpPacket.wire16]

/-- Whatever its arguments, the frame of `send_arp` is the packet they describe. -/
theorem layout_arpFrame (senderMac : Mac) (targetIp : Vector Byte 4) (targetMac : Mac)
    (senderIp : Vector Byte 4) (opcode : BitVec 16) :
    (arpFrame senderMac targetIp targetMac senderIp opcode).layout = ArpPacket.encode
      { dest := targetMac, src := senderMac, hardwareType := 1, opcode := opcode
        senderMac := senderMac, senderIp := senderIp, targetIp := targetIp
        targetMac := if opcode = ARP_REP then targetMac else Vector.replicate 6 0 } := by
  simp only [arpFrame, ArpFrame.layout, ArpHdr.layout, EthernetHdr.layout, bytes16_htons,
    ArpPacket.encode, List.append_assoc]
  rfl

theorem parse_sponsorFrame (m : Mac) (padding : List Byte) :
    ArpPacket.parse ((sponsorFrame m).layout ++ padding) = some (sponsorPacket m) := by
  rw [sponsorFrame, layout_arpFrame, ArpPacket.parse_encode]
  rfl

theorem captured_append (ls ms : List Label) : captured (ls ++ ms) = captured ls ++ captured ms :=
  List.filterMap_append

theorem macs_append (ls ms : List Label) : macs (ls ++ ms) = macs ls ++ macs ms :=
  List.filterMap_append

theorem sentBy_snoc {s t : Net} {j : Sender} {h : Handle} {data : List Byte}
    (ht : t.sends = s.sends ++ [(j, h, data)]) (k : Sender) :
    t.sentBy k = s.sentBy k ++ if j = k then [data] else [] := by
  rw [Net.sentBy, ht, part_append, part_singleton, List.map_append, Net.sentBy]
  split <;> rfl

@[simp] theorem sends_sendOnce (s : Net) (again : Bool) (frame : List Byte) (times i : Nat) :
    (s.sendOnce again frame times i).sends = s.sends ++ [(.sponsor, s.pHandle, frame)] := by
  rw [Net.sendOnce]
  split <;> rfl

@[simp] theorem pHandle_sendOnce (s : Net) (again : Bool) (frame : List Byte) (times i : Nat) :
    (s.sendOnce again frame times i).pHandle = s.pHandle := by
  rw [Net.sendOnce]
  split <;> rfl

theorem received_eq {s : Net} {h : Captured} {c : State}
    (hc : cbPcapDataReceived s.callback h = some c) : s.received c = { s with
      callback := c, sends := s.sends ++ [(.callback, s.pHandle, forwarded h.bytes)] } := by
  obtain ⟨-, rfl⟩ := cbPcapDataReceived_eq_some.mp hc
  simp [Net.received]

/-- What one step does. -/
inductive Steps (s : Net) : Label → Net → Prop where
  | sponsor {again : Bool} {found : Answers} {m : Mac} {r : Mac × Byte}
    (hpc : s.mainPc = .calling again) (hr : getAdapterMac wlan m found = some r) :
    Steps s (.sponsor found m) { s with
      mainPc := .sending again (sponsorFrame r.1).layout (sendTimes ARP_REP) 0 }
  | send {again : Bool} {frame : List Byte} {times i : Nat}
    (hpc : s.mainPc = .sending again frame times i) : Steps s .send (s.sendOnce again frame times i)
  | waited (hpc : s.mainPc = .waiting) : Steps s .waited { s with mainPc := .calling true }
  | close (hpc : s.mainPc = .closing) (hopen : s.pHandle = .opened) :
    Steps s .close { s with mainPc := .closed, pHandle := .closed }
  | exit (hpc : s.mainPc = .closed) : Steps s .exit { s with mainPc := .ended }
  | listen (ok : Bool) (hopen : s.pHandle = .opened) :
    Steps s (.listen ok) { s with receiver := if ok then .looping else .finished }
  | capture {h : Captured} {c : State} (hloop : s.receiver = .looping)
    (hc : cbPcapDataReceived s.callback h = some c) :
    Steps s (.capture h) { s with
      callback := c, sends := s.sends ++ [(.callback, s.pHandle, forwarded h.bytes)] }
  | loopEnds : Steps s .loopEnds { s with receiver := .finished }

theorem steps_of_step {s t : Net} {l : Label} (ht : step s l = some t) : Steps s l t := by
  cases l with
  | sponsor found m =>
    simp only [step] at ht
    split at ht
    case h_1 again hpc =>
      obtain ⟨r, hr, ht⟩ := Option.bind_eq_some_iff.mp ht
      obtain rfl := Option.some.inj ht
      exact .sponsor hpc hr
    case h_2 => cases ht
  | send =>
    simp only [step] at ht
    split at ht
    case h_1 again frame times i hpc =>
      obtain rfl := Option.some.inj ht
      exact .send hpc
    case h_2 => cases ht
  | capture h =>
    simp only [step, Option.ite_none_right_eq_some, Option.map_eq_some_iff] at ht
    obtain ⟨⟨-, hloop⟩, c, hc, rfl⟩ := ht
    rw [received_eq hc]
    exact .capture hloop hc
  | waited =>
    simp only [step, Option.ite_none_right_eq_some, Option.some.injEq] at ht
    obtain ⟨hpc, rfl⟩ := ht
    exact .waited hpc
  | close =>
    simp only [step, Option.ite_none_right_eq_some, Option.some.injEq] at ht
    obtain ⟨hpc, rfl⟩ := ht
    exact .close hpc.1 hpc.2
  | exit =>
    simp only [step, Option.ite_none_right_eq_some, Option.some.injEq] at ht
    obtain ⟨hpc, rfl⟩ := ht
    exact .exit hpc
  | listen ok =>
    simp only [step, Option.ite_none_right_eq_some, Option.some.injEq] at ht
    obtain ⟨hpc, rfl⟩ := ht
    exact .listen ok hpc.2.2
  | loopEnds =>
    simp only [step, Option.ite_none_right_eq_some, Option.some.injEq] at ht
    obtain ⟨-, rfl⟩ := ht
    exact .loopEnds

/-- Where `main` is, what `arp_sponsor` has found, what it has sent, and how often it slept. -/
inductive Progress : MainPc → List Mac → List (List Byte) → Nat → Prop where
  | start : Progress (.calling false) [] [] 0
  | first (m : Mac) {i : Nat} (hi : i < 50) :
    Progress (.sending false (sponsorFrame m).layout 50 i) [m]
      (List.replicate i (sponsorFrame m).layout) i
  | between (m : Mac) {pc : MainPc} (hpc : pc = .waiting ∨ pc = .calling true) :
    Progress pc [m] (rounds [m]) 49
  | second (m m' : Mac) {i : Nat} (hi : i < 50) :
    Progress (.sending true (sponsorFrame m').layout 50 i) [m, m']
      (rounds [m] ++ List.replicate i (sponsorFrame m').layout) (49 + i)
  | done (m m' : Mac) {pc : MainPc} (hpc : pc = .closing ∨ pc = .closed ∨ pc = .ended) :
    Progress pc [m, m'] (rounds [m, m']) 98

theorem macs_sponsor (found : Answers) (m : Mac) {r : Mac × Byte}
    (hr : getAdapterMac wlan m found = some r) : macs [.sponsor found m] = [r.1] := by
  simp [macs, hr]

theorem rounds_cons (m : Mac) (ms : List Mac) : rounds (m :: ms) =
    List.replicate 50 (sponsorFrame m).layout ++ rounds ms := by
  rw [rounds, List.flatMap_cons, rounds]

theorem rounds_singleton (m : Mac) :
    rounds [m] = List.replicate 50 (sponsorFrame m).layout := by
  rw [rounds_cons, rounds, List.flatMap_nil, List.append_nil]

/-- A call of `arp_sponsor` begins. -/
theorem Progress.call {again : Bool} {ms : List Mac} {sent : List (List Byte)} {n : Nat}
    (h : Progress (.calling again) ms sent n) (m : Mac) :
    Progress (.sending again (sponsorFrame m).layout (sendTimes ARP_REP) 0) (ms ++ [m]) sent n := by
  cases h with
  | start => exact .first m (by decide)
  | between m' hpc =>
    obtain rfl : again = true := by simpa using hpc
    have hs := Progress.second m' m (i := 0) (by decide)
    rwa [List.replicate_zero, List.append_nil] at hs
  | done _ _ hpc => simp at hpc

theorem Progress.sendOnce {s : Net} {again : Bool} {frame : List Byte} {times i : Nat}
    {ms : List Mac} (h : Progress s.mainPc ms (s.sentBy .sponsor) s.sleeps)
    (hs : s.mainPc = .sending again frame times i) :
    Progress (s.sendOnce again frame times i).mainPc ms
      ((s.sendOnce again frame times i).sentBy .sponsor)
      (s.sendOnce again frame times i).sleeps := by
  rw [sentBy_snoc (sends_sendOnce s again frame times i), if_pos rfl]
  rw [hs] at h
  generalize s.sentBy .sponsor = sent at h
  generalize hn : s.sleeps = n at h
  cases h with
  | first m hi =>
    rw [← List.replicate_succ', Net.sendOnce]
    split
    case isTrue hlast =>
      have hp : Progress .waiting [m] _ _ := .between m (Or.inl rfl)
      rw [rounds_singleton] at hp
      rw [hlast]
      show Progress .waiting [m] _ s.sleeps
      rwa [hn, Nat.succ.inj hlast]
    case isFalse hmore =>
      show Progress (.sending false (sponsorFrame m).layout 50 (i + 1)) [m] _ (s.sleeps + 1)
      rw [hn]
      exact .first m (by omega)
  | between m hpc => simp at hpc
  | second m m' hi =>
    rw [List.append_assoc, ← List.replicate_succ', Net.sendOnce]
    split
    case isTrue hlast =>
      have hp : Progress .closing [m, m'] _ _ := .done m m' (Or.inl rfl)
      rw [rounds_cons, rounds_singleton, ← rounds_singleton m] at hp
      rw [hlast]
      show Progress .closing [m, m'] _ s.sleeps
      rwa [hn, Nat.succ.inj hlast]
    case isFalse hmore =>
      show Progress (.sending true (sponsorFrame m').layout 50 (i + 1)) [m, m'] _ (s.sleeps + 1)
      rw [hn]
      exact .second m m' (by omega)
  | done _ _ hpc => simp at hpc

theorem Progress.waited {ms : List Mac} {sent : List (List Byte)} {n : Nat}
    (h : Progress .waiting ms sent n) : Progress (.calling true) ms sent n := by
  cases h with
  | between m => exact .between m (Or.inr rfl)
  | done _ _ hpc => simp at hpc

theorem Progress.closed {pc pc' : MainPc} {ms : List Mac} {sent : List (List Byte)} {n : Nat}
    (h : Progress pc ms sent n) (hpc : pc = .closing ∨ pc = .closed ∨ pc = .ended)
    (hpc' : pc' = .closing ∨ pc' = .closed ∨ pc' = .ended) : Progress pc' ms sent n := by
  cases h with
  | start => simp at hpc
  | first => simp at hpc
  | between m hb => rcases hb with rfl | rfl <;> simp at hpc
  | second => simp at hpc
  | done m m' => exact .done m m' hpc'

theorem Progress.step {s t : Net} {ms : List Mac} {l : Label}
    (h : Progress s.mainPc ms (s.sentBy .sponsor) s.sleeps) (ht : MainNet.step s l = some t) :
    Progress t.mainPc (ms ++ macs [l]) (t.sentBy .sponsor) t.sleeps := by
  have hsame (hl : macs [l] = []) (h : Progress t.mainPc ms (t.sentBy .sponsor) t.sleeps) :
      Progress t.mainPc (ms ++ macs [l]) (t.sentBy .sponsor) t.sleeps := by
    rwa [hl, List.append_nil]
  cases steps_of_step ht with
  | @sponsor again found m r hpc hr =>
    rw [macs_sponsor found m hr]
    rw [hpc] at h
    exact h.call r.1
  | send hpc => exact hsame rfl (h.sendOnce hpc)
  | waited hpc =>
    rw [hpc] at h
    exact hsame rfl h.waited
  | close hpc =>
    rw [hpc] at h
    exact hsame rfl (h.closed (Or.inl rfl) (Or.inr (Or.inl rfl)))
  | exit hpc =>
    rw [hpc] at h
    exact hsame rfl (h.closed (Or.inr (Or.inl rfl)) (Or.inr (Or.inr rfl)))
  | capture hloop hc =>
    apply hsame rfl
    rw [sentBy_snoc rfl, if_neg nofun, List.append_nil]
    exact h
  | listen ok hopen => exact hsame rfl h
  | loopEnds => exact hsame rfl h

/-- Once it is closed, the handle stays so, and `main` is at its end. -/
structure Closing (ls : List Label) (s : Net) : Prop where
  handle : s.pHandle = .closed ↔ .close ∈ ls
  main : .close ∈ ls → s.mainPc = .closed ∨ s.mainPc = .ended

theorem Closing.step {ls : List Label} {s t : Net} {l : Label} (h : Closing ls s)
    (ht : MainNet.step s l = some t) : Closing (ls ++ [l]) t := by
  have hkeep (hl : Label.close ≠ l) (hp : t.pHandle = s.pHandle)
      (hm : Label.close ∈ ls → t.mainPc = .closed ∨ t.mainPc = .ended) :
      Closing (ls ++ [l]) t := by
    have hmem : Label.close ∈ ls ++ [l] ↔ .close ∈ ls := by simp [hl]
    exact ⟨by rw [hp, hmem, h.handle], by rwa [hmem]⟩
  cases steps_of_step ht with
  | sponsor hpc => exact hkeep nofun rfl fun hc => by simpa [hpc] using h.main hc
  | send hpc => exact hkeep nofun (pHandle_sendOnce ..) fun hc => by simpa [hpc] using h.main hc
  | waited hpc => exact hkeep nofun rfl fun hc => by simpa [hpc] using h.main hc
  | close hpc => exact ⟨by simp, fun _ => Or.inl rfl⟩
  | exit hpc => exact hkeep nofun rfl fun _ => Or.inr rfl
  | capture => exact hkeep nofun rfl h.main
  | listen => exact hkeep nofun rfl h.main
  | loopEnds => exact hkeep nofun rfl h.main

theorem lateCaptures_append {ls : List Label} (h : Label.close ∈ ls) (ms : List Label) :
    lateCaptures (ls ++ ms) = lateCaptures ls ++ captured ms := by
  induction ls with
  | nil => cases h
  | cons l ls ih =>
    cases l with
    | close => exact captured_append ls ms
    | _ => exact ih (by simpa using h)

theorem lateCaptures_snoc {ls : List Label} (h : Label.close ∉ ls) (l : Label) :
    lateCaptures (ls ++ [l]) = lateCaptures ls := by
  induction ls with
  | nil => cases l <;> rfl
  | cons m ls ih =>
    cases m with
    | close => exact absurd List.mem_cons_self h
    | _ => exact ih fun hm => h (List.mem_cons_of_mem _ hm)

/-- What the callback has sent, and what was sent on the closed handle. -/
structure Passing (ls : List Label) (s : Net) : Prop where
  sent : s.sentBy .callback = (captured ls).map fun h => forwarded h.bytes
  late : s.sends.filter (fun x => x.2.1 = .closed) =
    (lateCaptures ls).map fun h => (.callback, .closed, forwarded h.bytes)

theorem Passing.step {ls : List Label} {s t : Net} {l : Label} (h : Passing ls s)
    (hc : Closing ls s) (ht : MainNet.step s l = some t) : Passing (ls ++ [l]) t := by
  have hsame (hl : captured [l] = []) (hsent : t.sentBy .callback = s.sentBy .callback)
      (hlate : t.sends.filter (fun x => x.2.1 = .closed) =
        s.sends.filter (fun x => x.2.1 = .closed)) : Passing (ls ++ [l]) t := by
    constructor
    · rw [captured_append, hl, List.append_nil, hsent, h.sent]
    · rw [hlate, h.late]
      by_cases hm : Label.close ∈ ls
      · rw [lateCaptures_append hm, hl, List.append_nil]
      · rw [lateCaptures_snoc hm]
  cases steps_of_step ht with
  | @send again frame times i hpc =>
    have hopen : s.pHandle ≠ .closed := fun hp => by
      simpa [hpc] using hc.main (hc.handle.mp hp)
    refine hsame rfl ?_ ?_
    · rw [sentBy_snoc (sends_sendOnce ..), if_neg nofun, List.append_nil]
    · simp [hopen]
  | @capture c u hloop hu =>
    constructor
    · rw [sentBy_snoc rfl, if_pos rfl, captured_append, List.map_append, h.sent]
      rfl
    · rw [List.filter_append, h.late]
      by_cases hm : Label.close ∈ ls
      · rw [lateCaptures_append hm, List.map_append, hc.handle.mpr hm]
        rfl
      · have hopen : s.pHandle ≠ .closed := fun hp => hm (hc.handle.mp hp)
        simp [lateCaptures_snoc hm, hopen]
  | sponsor => exact hsame rfl rfl rfl
  | waited => exact hsame rfl rfl rfl
  | close => exact hsame rfl rfl rfl
  | exit => exact hsame rfl rfl rfl
  | listen => exact hsame rfl rfl rfl
  | loopEnds => exact hsame rfl rfl rfl

/-- Without a device the receiving thread never gets to its loop, nor `main` to its end. -/
structure Unopened (ls : List Label) (s : Net) : Prop where
  handle : s.pHandle = .null
  receiver : s.receiver ≠ .looping
  main : s.mainPc ≠ .closed ∧ s.mainPc ≠ .ended
  captured : captured ls = []
  sends : ∀ x ∈ s.sends, x.2.1 = .null

theorem mainPc_sendOnce (s : Net) (again : Bool) (frame : List Byte) (times i : Nat) :
    (s.sendOnce again frame times i).mainPc ≠ .closed ∧
      (s.sendOnce again frame times i).mainPc ≠ .ended := by
  rw [Net.sendOnce]
  split
  · cases again <;> exact ⟨nofun, nofun⟩
  · exact ⟨nofun, nofun⟩

theorem Unopened.step {ls : List Label} {s t : Net} {l : Label} (h : Unopened ls s)
    (ht : MainNet.step s l = some t) : Unopened (ls ++ [l]) t := by
  have hcap (hl : MainNet.captured [l] = []) : MainNet.captured (ls ++ [l]) = [] := by
    rw [captured_append, h.captured, hl, List.append_nil]
  cases steps_of_step ht with
  | sponsor hpc => exact ⟨h.handle, h.receiver, ⟨nofun, nofun⟩, hcap rfl, h.sends⟩
  | @send again frame times i hpc =>
    refine ⟨(pHandle_sendOnce ..).trans h.handle, ?_, mainPc_sendOnce .., hcap rfl, ?_⟩
    · rw [Net.sendOnce]
      split <;> exact h.receiver
    · intro x hx
      rw [sends_sendOnce, List.mem_append, List.mem_singleton] at hx
      rcases hx with hx | rfl
      · exact h.sends x hx
      · exact h.handle
  | waited => exact ⟨h.handle, h.receiver, ⟨nofun, nofun⟩, hcap rfl, h.sends⟩
  | close hpc hopen => exact absurd (h.handle.symm.trans hopen) nofun
  | exit hpc => exact absurd hpc h.main.1
  | listen ok hopen => exact absurd (h.handle.symm.trans hopen) nofun
  | capture hloop => exact absurd hloop h.receiver
  | loopEnds => exact ⟨h.handle, nofun, h.main, hcap rfl, h.sends⟩

theorem replicate_le_prefixOf {i n : Nat} (h : i ≤ n) (x : List Byte) :
    List.replicate i x <+: List.replicate n x := by
  refine ⟨List.replicate (n - i) x, ?_⟩
  rw [← List.replicate_add, Nat.add_sub_cancel' h]

theorem Progress.prefix_rounds {pc : MainPc} {ms : List Mac} {sent : List (List Byte)} {n : Nat}
    (h : Progress pc ms sent n) : ms.length ≤ 2 ∧ sent <+: rounds ms := by
  cases h with
  | start => exact ⟨by simp, List.prefix_rfl⟩
  | first m hi =>
    refine ⟨by simp, ?_⟩
    rw [rounds_singleton]
    exact replicate_le_prefixOf hi.le _
  | between m => exact ⟨by simp, List.prefix_rfl⟩
  | second m m' hi =>
    refine ⟨by simp, ?_⟩
    rw [rounds_cons m [m'], rounds_singleton, rounds_singleton]
    exact (List.prefix_append_right_inj _).mpr (replicate_le_prefixOf hi.le _)
  | done m m' => exact ⟨by simp, List.prefix_rfl⟩

theorem Progress.of_ended {ms : List Mac} {sent : List (List Byte)} {n : Nat}
    (h : Progress .ended ms sent n) : ms.length = 2 ∧ sent = rounds ms ∧ n = 98 := by
  cases h with
  | between _ hpc => simp at hpc
  | done m m' => exact ⟨rfl, rfl, rfl⟩

/-- In every run of the program, what went out is the frames it captured, in their order and
between other stations, merged with the sponsor's: fifty for each of at most two calls, every one
the same ARP reply that gives the address of the other station to the adapter found then, and all
hundred by the time `main` ends. What is captured after `pcap_close` is sent on the closed
handle, and without a device nothing is captured and `main` does not get to its end. -/
theorem sends_interleaved {gtcpFrame : TcpFrame} {listening : Bool} {ls : List Label} {s : Net}
    (h : exec step (start gtcpFrame listening) ls = some s) :
    (s.sentBy .callback = (captured ls).map fun h => forwarded h.bytes) ∧
      (macs ls).length ≤ 2 ∧ s.sentBy .sponsor <+: rounds (macs ls) ∧
      (s.mainPc = .ended →
        (macs ls).length = 2 ∧ s.sentBy .sponsor = rounds (macs ls) ∧ s.sleeps = 98) ∧
      (∀ frame ∈ s.sentBy .sponsor, ∃ m ∈ macs ls, ∀ padding,
        ArpPacket.parse (frame ++ padding) = some (sponsorPacket m)) ∧
      (s.sends.filter (fun x => x.2.1 = .closed) =
        (lateCaptures ls).map fun h => (.callback, .closed, forwarded h.bytes)) ∧
      (listening = false →
        (∀ x ∈ s.sends, x.2.1 = .null) ∧ captured ls = [] ∧ s.mainPc ≠ .ended) := by
  have hinv : Progress s.mainPc (macs ls) (s.sentBy .sponsor) s.sleeps ∧ Closing ls s ∧
      Passing ls s ∧ (listening = false → Unopened ls s) := by
    refine exec_prefix_induction (P := fun ls s => Progress s.mainPc (macs ls)
      (s.sentBy .sponsor) s.sleeps ∧ Closing ls s ∧ Passing ls s ∧
        (listening = false → Unopened ls s)) ?_ ?_ h
    · refine ⟨.start, ⟨by cases listening <;> simp [start], nofun⟩, ⟨rfl, rfl⟩, ?_⟩
      rintro rfl
      exact ⟨rfl, nofun, ⟨nofun, nofun⟩, rfl, nofun⟩
    · rintro ls s l t - ⟨hp, hc, hs, hu⟩ ht
      rw [macs_append]
      exact ⟨hp.step ht, hc.step ht, hs.step hc ht, fun hl => (hu hl).step ht⟩
  obtain ⟨hp, -, hs, hu⟩ := hinv
  obtain ⟨hlen, hpre⟩ := hp.prefix_rounds
  refine ⟨hs.sent, hlen, hpre, fun hended => ?_, fun frame hframe => ?_, hs.late, fun hl => ?_⟩
  · rw [hended] at hp
    exact hp.of_ended
  · obtain ⟨m, hm, hrep⟩ := List.mem_flatMap.mp (hpre.subset hframe)
    obtain rfl := List.eq_of_mem_replicate hrep
    exact ⟨m, hm, parse_sponsorFrame m⟩
  · exact ⟨(hu hl).sends, (hu hl).captured, (hu hl).main.2⟩

/-- The table of a host whose only adapter is the one looked for. -/
def wlanOnly : Answers where
  overflow := true
  allocated := true
  second := some [{
    ifIndex := 1
    ifType := AdapterList.IF_TYPE_IEEE80211
    operStatus := .up
    ipv4Enabled := true
    adapterName := ⟨[], nofun⟩
    description := ⟨[], nofun⟩
    friendlyName := ⟨wlan, by simp [wlan]⟩
    physicalAddress := #v[0xC0, 0xB6, 0xF9, 0x89, 0xEC, 0xE8, 0, 0] }]

theorem sends_interleaved_two : ∃ s : Net, s.sentBy .callback = [forwarded (nopFrame 5)] ∧
    s.sentBy .sponsor <+: rounds [#v[0xC0, 0xB6, 0xF9, 0x89, 0xEC, 0xE8]] ∧
    (s.sentBy .sponsor).length = 2 := by
  obtain ⟨s, hs, hp⟩ := exec_exists step (start zeroFrame true)
    [.sponsor wlanOnly routeMac, .send, .listen true, .capture ⟨nopFrame 5, 54⟩, .send]
    (fun s => (s.sentBy .sponsor).length = 2) rfl
  obtain ⟨hsent, -, hpre, -⟩ := sends_interleaved hs
  exact ⟨s, hsent, hpre, of_decide_eq_true hp⟩

end Cexp.MainNet
