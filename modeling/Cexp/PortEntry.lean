import Cexp.DecimalText
import Cexp.ReceiveWindow
import Cexp.SendText

/-! The port typed into the two windows: `GetText` into the small buffers on the stack, `atoi`,
the check of `ToggleServer`, and `ToggleConnection` with `ReadySocket` of `myclient.c`, which
checks nothing. -/

namespace Cexp.PortEntry

open AdapterList (CString)
open ReceiveWindow (cstring)
open SendText (getWindowText)

abbrev Byte := BitVec 8

/-- Into a buffer of `size` zero bytes; `none` where the text does not fit. -/
def getText (box : CString 8) (size : Nat) : Option (List Byte) :=
  getWindowText box (List.replicate size 0) (box.chars.length + 1)

def toChars (bytes : List Byte) : List Char := bytes.map fun b => Char.ofNat b.toNat

def atoi (buf : List Byte) : Int := DecimalText.atoi (toChars (cstring buf))

inductive Toggle where
  | portError
  | start (port : Int)
  deriving DecidableEq

/-- `ToggleServer` of a server that is stopped. -/
def toggleServer (portBox : CString 8) : Option Toggle := do
  let portStr ← getText portBox 6
  let port := atoi portStr
  some (if port ≤ 0 ∨ 65535 < port then .portError else .start port)

/-- The port in `sin_port`: what `htons` takes of it. -/
def sinPort (port : Int) : BitVec 16 := BitVec.ofInt 16 port

def PORT : Int := 8888

/-- What `connect` is called with. -/
structure Target where
  serverIp : List Byte
  port : BitVec 16
  deriving DecidableEq

/-- `ToggleConnection` of a client that is not connected, up to `connect`. -/
def toggleConnection (ipBox portBox : CString 8) : Option Target := do
  let serverIp ← getText ipBox 16
  let portStr ← getText portBox 6
  let port := atoi portStr
  some ⟨cstring serverIp, sinPort (if port = 0 then PORT else port)⟩

theorem getText_of_lt {box : CString 8} {size : Nat} (h : box.chars.length < size) :
    ∃ buf, getText box size = some buf ∧ cstring buf = box.chars := by
  have hroom : box.chars.length < (List.replicate size (0 : Byte)).length := by
    rwa [List.length_replicate]
  obtain ⟨rest, hrest⟩ := SendText.getWindowText_succ box hroom
  rw [List.take_length] at hrest
  refine ⟨_, hrest, ?_⟩
  rw [cstring, Terminated.takeWhile_append_cons]
  exact Terminated.takeWhile_eq_self_iff.mpr fun hz => box.nonzero 0 hz rfl

theorem getText_of_le {box : CString 8} {size : Nat} (h : size ≤ box.chars.length) :
    getText box size = none := by
  rw [getText, getWindowText, if_neg (Nat.succ_ne_zero _), if_neg]
  simp only [Nat.add_sub_cancel, List.take_length, List.length_append, List.length_singleton,
    List.length_replicate, not_le]
  exact Nat.lt_succ_of_le h

/-- What a box says, where it fits. -/
def portOf (box : CString 8) : Int := DecimalText.atoi (toChars box.chars)

theorem toggleServer_eq (portBox : CString 8) : toggleServer portBox =
    if portBox.chars.length ≤ 5 then
      some (if portOf portBox ≤ 0 ∨ 65535 < portOf portBox then .portError
        else .start (portOf portBox))
    else none := by
  split
  case isTrue h =>
    obtain ⟨buf, hbuf, htext⟩ := getText_of_lt (Nat.lt_succ_of_le h : _ < 6)
    rw [toggleServer, hbuf, Option.bind_eq_bind, Option.bind_some, atoi, htext, portOf]
  case isFalse h =>
    rw [toggleServer, getText_of_le (Nat.not_le.mp h)]
    rfl

theorem toggleConnection_eq (ipBox portBox : CString 8) : toggleConnection ipBox portBox =
    if ipBox.chars.length ≤ 15 ∧ portBox.chars.length ≤ 5 then
      some ⟨ipBox.chars, sinPort (if portOf portBox = 0 then PORT else portOf portBox)⟩
    else none := by
  by_cases hip : ipBox.chars.length ≤ 15
  · obtain ⟨ip, hipBuf, hipText⟩ := getText_of_lt (Nat.lt_succ_of_le hip : _ < 16)
    rw [toggleConnection, hipBuf, Option.bind_eq_bind, Option.bind_some, hipText]
    by_cases hport : portBox.chars.length ≤ 5
    · obtain ⟨buf, hbuf, htext⟩ := getText_of_lt (Nat.lt_succ_of_le hport : _ < 6)
      rw [hbuf, Option.bind_some, atoi, htext, if_pos ⟨hip, hport⟩, portOf]
    · rw [getText_of_le (Nat.not_le.mp hport), if_neg fun h => hport h.2]
      rfl
  · rw [toggleConnection, getText_of_le (Nat.not_le.mp hip), if_neg fun h => hip h.1]
    rfl

theorem toNat_sinPort {port : Int} (h : 0 ≤ port) (h' : port ≤ 65535) :
    ((sinPort port).toNat : Int) = port := by
  rw [sinPort, BitVec.toNat_ofInt]
  omega

theorem portOf_decimal {portBox : CString 8} {n : Int} (h : 1 ≤ n) (h' : n ≤ 65535)
    (hbox : toChars portBox.chars = DecimalText.ofInt n) :
    portOf portBox = n ∧ portBox.chars.length ≤ 5 := by
  constructor
  · rw [portOf, hbox, DecimalText.atoi_ofInt (by omega) (by omega)]
  · have hlen := congrArg List.length hbox
    rw [toChars, List.length_map, DecimalText.ofInt, if_neg (by omega)] at hlen
    rw [hlen]
    exact (Nat.length_toDigits_le_iff (by decide) (by decide)).mpr (by omega)

/-- Typed into both windows a text means the same port, whenever the server takes it: then it is
the port that the server listens on and the client connects to. It takes the decimal text of every
port from 1 on. A text that it refuses still sends the client to a port: to 8888 where there is no
number, or a zero, and else to the number modulo 65536. Texts of more than five bytes, and
addresses of more than fifteen, run over their buffers. -/
theorem port_entry_agrees (ipBox portBox : CString 8) :
    ((toggleServer portBox).isSome = true ↔ portBox.chars.length ≤ 5) ∧
      ((toggleConnection ipBox portBox).isSome = true ↔
        ipBox.chars.length ≤ 15 ∧ portBox.chars.length ≤ 5) ∧
      (∀ port, toggleServer portBox = some (.start port) →
        1 ≤ port ∧ ((sinPort port).toNat : Int) = port ∧
          ∀ t, toggleConnection ipBox portBox = some t →
            t = ⟨ipBox.chars, sinPort port⟩) ∧
      (∀ n, 1 ≤ n → n ≤ 65535 → toChars portBox.chars = DecimalText.ofInt n →
        toggleServer portBox = some (.start n)) ∧
      ∀ t, toggleServer portBox = some .portError → toggleConnection ipBox portBox = some t →
        t.port = if portOf portBox = 0 then 8888 else BitVec.ofInt 16 (portOf portBox) := by
  refine ⟨?_, ?_, fun port hport => ?_, fun n h h' hbox => ?_, fun t _ ht => ?_⟩
  · rw [toggleServer_eq]
    split <;> simp_all
  · rw [toggleConnection_eq]
    split <;> simp_all
  · rw [toggleServer_eq] at hport
    obtain ⟨hlen, hport⟩ := Option.ite_none_right_eq_some.mp hport
    obtain hport := Option.some.inj hport
    split at hport
    case isTrue => cases hport
    case isFalse hrange =>
      obtain rfl := Toggle.start.inj hport
      refine ⟨by omega, toNat_sinPort (by omega) (by omega), fun t ht => ?_⟩
      rw [toggleConnection_eq] at ht
      obtain ⟨-, ht⟩ := Option.ite_none_right_eq_some.mp ht
      rw [if_neg (by omega)] at ht
      exact (Option.some.inj ht).symm
  · obtain ⟨hport, hlen⟩ := portOf_decimal h h' hbox
    rw [toggleServer_eq, if_pos hlen, hport, if_neg (by omega)]
  · rw [toggleConnection_eq] at ht
    obtain ⟨-, ht⟩ := Option.ite_none_right_eq_some.mp ht
    obtain rfl := Option.some.inj ht
    show sinPort (if portOf portBox = 0 then PORT else portOf portBox) = _
    split
    · rfl
    · rfl

end Cexp.PortEntry
