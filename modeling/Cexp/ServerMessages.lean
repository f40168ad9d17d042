import Cexp.ReceiveBuffer
import Cexp.ReceiveWindow
import Cexp.SendText

/-! The way back to a client: `SendMessageToClient` of `gui_server.c`, the connection,
`waitReceive` of `myclient.c`, and `OnReceived` of `gui_client.c` with its window. The server ends
each message with a NUL, and the window is given what is received up to the first one. -/

namespace Cexp.ServerMessages

open Transition
open AdapterList (CString)
open Client (BUF_SIZE Receiver newReceiver finish)
open ReceiveBuffer (readInto message)
open ReceiveWindow (Placed cstring inserted inserted_append waiting waiting_step)
open SendText (sentBytes)

abbrev Byte := BitVec 8

/-- `inFlight` has been sent and not received. -/
structure State where
  inFlight : List Byte
  receiver : Receiver
  window : ReceiveWindow.State

def init : State where
  inFlight := []
  receiver := newReceiver 1
  window := ReceiveWindow.init

/-- `receive` is a pass of the loop in `waitReceive` up to its call of `DisplayMessage`: `recv`
returns `n` bytes, and `ioctlsocket` stores `bytesAvailable`, if it succeeds. -/
inductive Label where
  | send (e : SendText.Env) (box : CString 8)
  | receive (n : Nat) (bytesAvailable : Option Nat)
  | window (l : ReceiveWindow.Label)

/-- `none` also where the terminator falls outside the buffer. -/
def step (s : State) : Label → Option State
  | .send e box =>
    (SendText.sendMessageToClient e box).map fun o =>
      { s with inFlight := s.inFlight ++ sentBytes o }
  | .receive n bytesAvailable =>
    if 0 < n ∧ n ≤ BUF_SIZE - 2 ∧ n + bytesAvailable.getD 0 ≤ s.inFlight.length then do
      let th ← finish (readInto s.receiver (s.inFlight.take n)) bytesAvailable
      let w ← ReceiveWindow.step .mutex s.window (.call th.buffer th.num)
      some ⟨s.inFlight.drop n, th, w⟩
    else none
  | .window l =>
    if l.isCall then none
    else (ReceiveWindow.step .mutex s.window l).map fun w => { s with window := w }

/-- A send with the text that was in the box, and a chunk with what was still available. -/
inductive Event where
  | sent (text bytes : List Byte)
  | received (chunk : List Byte × Option Nat)
  | window (e : ReceiveWindow.Event)

def events (s : State) : Label → List Event
  | .send e box =>
    match SendText.sendMessageToClient e box with
    | some o => [.sent box.chars (sentBytes o)]
    | none => []
  | .receive n bytesAvailable => [.received (s.inFlight.take n, bytesAvailable)]
  | .window l => (ReceiveWindow.events s.window l).map .window

def sends (h : List Event) : List (List Byte × List Byte) :=
  h.filterMap fun
    | .sent text bytes => some (text, bytes)
    | _ => none

def received (h : List Event) : List (List Byte × Option Nat) :=
  h.filterMap fun
    | .received chunk => some chunk
    | _ => none

def windowEvents (h : List Event) : List ReceiveWindow.Event :=
  h.filterMap fun
    | .window e => some e
    | _ => none

/-- What a chunk adds to the window: all before its first NUL, and a line end only where it has
none and nothing was waiting behind it. -/
def visible (chunk : List Byte × Option Nat) : List Byte :=
  cstring chunk.1 ++ if chunk.2 = some 0 ∧ 0 ∉ chunk.1 then [13, 10] else []

theorem sends_append (h h' : List Event) : sends (h ++ h') = sends h ++ sends h' :=
  List.filterMap_append

theorem received_append (h h' : List Event) : received (h ++ h') = received h ++ received h' :=
  List.filterMap_append

theorem windowEvents_append (h h' : List Event) :
    windowEvents (h ++ h') = windowEvents h ++ windowEvents h' :=
  List.filterMap_append

theorem cstring_message (chunk : List Byte × Option Nat) :
    cstring (message chunk) = visible chunk := by
  obtain ⟨bytes, available⟩ := chunk
  show cstring (bytes ++ if available = some 0 then [13, 10] else []) = cstring bytes ++ _
  by_cases hzero : 0 ∈ bytes
  · rw [if_neg fun h : available = some 0 ∧ 0 ∉ bytes => h.2 hzero, List.append_nil]
    exact Terminated.takeWhile_append_of_mem hzero _
  · rw [cstring, Terminated.takeWhile_append_of_notMem hzero, ReceiveWindow.cstring_of_noZero hzero]
    by_cases hnone : available = some 0
    · rw [if_pos hnone, if_pos ⟨hnone, hzero⟩]
      rfl
    · rw [if_neg hnone, if_neg fun h => hnone h.1]
      rfl

/-- The last byte of the text is replaced by the terminator. -/
theorem sentBytes_prefix {e : SendText.Env} {box : CString 8} {o : SendText.Outcome}
    (ho : SendText.sendMessageToClient e box = some o) :
    sentBytes o <+: box.chars.dropLast ++ [0] := by
  by_cases hlong : SendText.maxLen - 1 < box.chars.length
  · rw [SendText.sendMessageToClient, if_pos hlong] at ho
    obtain rfl := Option.some.inj ho
    exact List.nil_prefix
  · cases hn : box.chars.length with
    | zero =>
      rw [SendText.sendMessageToClient_nil e (List.length_eq_zero_iff.mp hn)] at ho
      obtain rfl := Option.some.inj ho
      simp [sentBytes]
    | succ n =>
      have hpassed := SendText.sendMessageToClient_succ e hn (by omega)
      rw [ho, Option.bind_some] at hpassed
      rw [sentBytes, hpassed, List.dropLast_eq_take, hn]
      exact List.take_prefix _ _

theorem cstring_delivered {call : ReceiveBuffer.DataReceived} {chunk : List Byte × Option Nat}
    (h : ReceiveBuffer.Delivers call chunk) : cstring call.data = visible chunk := by
  obtain ⟨hlt, hzero⟩ := List.getElem?_eq_some_iff.mp h.terminated
  have hdata : call.data = message chunk ++ 0 :: call.data.drop (call.len + 1) := by
    rw [← h.bytes, ← hzero, List.cons_getElem_drop_succ, List.take_append_drop]
  rw [hdata, cstring, Terminated.takeWhile_append_cons]
  exact cstring_message chunk

/-- What has been sent, received, shown and is on its way. -/
structure Linked (h : List Event) (s : State) : Prop where
  sent : ∀ p ∈ sends h, p.2 <+: p.1.dropLast ++ [0]
  flight : ((received h).map Prod.fst).flatten ++ s.inFlight = ((sends h).map Prod.snd).flatten
  size : s.receiver.buffer.length = BUF_SIZE
  shown : inserted (windowEvents h) ++ waiting s.window = (received h).map visible
  placed : Placed (windowEvents h) s.window

theorem Linked.send {h : List Event} {s : State} (hI : Linked h s) {e : SendText.Env}
    {box : CString 8} {o : SendText.Outcome} (ho : SendText.sendMessageToClient e box = some o) :
    Linked (h ++ [.sent box.chars (sentBytes o)])
      { s with inFlight := s.inFlight ++ sentBytes o } where
  sent p hp := by
    rw [sends_append] at hp
    rcases List.mem_append.mp hp with hp | hp
    · exact hI.sent p hp
    · obtain rfl := List.mem_singleton.mp hp
      exact sentBytes_prefix ho
  flight := by
    have hflight := hI.flight
    rw [sends_append, received_append, List.map_append, List.map_append, List.flatten_append,
      List.flatten_append, ← hflight]
    simp [sends, received]
  size := hI.size
  shown := by simpa [windowEvents, received] using hI.shown
  placed := by simpa [windowEvents] using hI.placed

theorem Linked.receive {h : List Event} {s : State} (hI : Linked h s) {n : Nat}
    {available : Option Nat} {th : Receiver} {w : ReceiveWindow.State} (hn : n ≤ BUF_SIZE - 2)
    (hth : finish (readInto s.receiver (s.inFlight.take n)) available = some th)
    (hw : ReceiveWindow.step .mutex s.window (.call th.buffer th.num) = some w) :
    Linked (h ++ [.received (s.inFlight.take n, available)]) ⟨s.inFlight.drop n, th, w⟩ := by
  have hle : (s.inFlight.take n).length ≤ BUF_SIZE - 2 := (List.length_take_le _ _).trans hn
  have hd : ReceiveBuffer.Delivers _ (s.inFlight.take n, available) :=
    ReceiveBuffer.delivers_finish hI.size hle hth
  have hvisible := cstring_delivered hd
  have hlen : (cstring th.buffer).length ≤ th.num := by
    have hmsg : th.num = (message (s.inFlight.take n, available)).length := hd.len
    rw [hvisible, ← cstring_message, hmsg]
    exact (List.takeWhile_sublist _).length_le
  have hplaced := hI.placed.call hlen hw
  obtain ⟨hout, hw⟩ := Option.ite_none_right_eq_some.mp hw
  obtain rfl := Option.some.inj hw
  refine ⟨?_, ?_, hd.size, ?_, ?_⟩
  · simpa [sends] using hI.sent
  · have hflight := hI.flight
    rw [received_append, sends_append, List.map_append, List.flatten_append, List.append_assoc]
    simpa [received, sends] using hflight
  · have hshown := hI.shown
    have hwait : waiting s.window = [] := by simp [waiting, hout]
    rw [hwait, List.append_nil] at hshown
    rw [windowEvents_append, received_append, inserted_append, List.map_append, hshown]
    simp [windowEvents, received, inserted, waiting, hvisible]
  · simpa [windowEvents] using hplaced

theorem Linked.windowStep {h : List Event} {s : State} (hI : Linked h s)
    {l : ReceiveWindow.Label} {w : ReceiveWindow.State} (hl : l.isCall = false)
    (hw : ReceiveWindow.step .mutex s.window l = some w) :
    Linked (h ++ (ReceiveWindow.events s.window l).map .window) { s with window := w } := by
  have hev : windowEvents ((ReceiveWindow.events s.window l).map .window) =
      ReceiveWindow.events s.window l := by simp [windowEvents, List.filterMap_map]
  have hrec : received ((ReceiveWindow.events s.window l).map .window) = [] := by
    simp [received, List.filterMap_map]
  have hsend : sends ((ReceiveWindow.events s.window l).map .window) = [] := by
    simp [sends, List.filterMap_map]
  refine ⟨?_, ?_, hI.size, ?_, ?_⟩
  · rw [sends_append, hsend, List.append_nil]
    exact hI.sent
  · rw [received_append, sends_append, hrec, hsend, List.append_nil, List.append_nil]
    exact hI.flight
  · rw [windowEvents_append, hev, inserted_append, List.append_assoc, waiting_step hl hw, hI.shown,
      received_append, hrec, List.append_nil]
  · rw [windowEvents_append, hev]
    exact hI.placed.step (ReceiveWindow.Label.counts_of_isCall hl) hw

theorem Linked.step {h : List Event} {s t : State} {l : Label} (hI : Linked h s)
    (hs : ServerMessages.step s l = some t) : Linked (h ++ events s l) t := by
  cases l with
  | send e box =>
    obtain ⟨o, ho, rfl⟩ := Option.map_eq_some_iff.mp hs
    simpa only [events, ho] using hI.send ho
  | receive n available =>
    obtain ⟨⟨-, hn, -⟩, hs⟩ := Option.ite_none_right_eq_some.mp hs
    obtain ⟨th, hth, hs⟩ := Option.bind_eq_some_iff.mp hs
    obtain ⟨w, hw, hs⟩ := Option.bind_eq_some_iff.mp hs
    obtain rfl := Option.some.inj hs
    exact hI.receive hn hth hw
  | window l =>
    obtain ⟨hl, hs⟩ := Option.ite_none_left_eq_some.mp hs
    obtain ⟨w, hw, rfl⟩ := Option.map_eq_some_iff.mp hs
    exact hI.windowStep (Bool.eq_false_iff.mpr hl) hw

/-- The letters of the messages: all that was sent but the NULs. -/
def letters (bytes : List Byte) : List Byte := bytes.filter (· ≠ 0)

def twoLetters : CString 8 := ⟨[97, 98], by simp⟩

end Cexp.ServerMessages
