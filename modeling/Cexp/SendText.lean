import Cexp.AdapterList

/-! The two send boxes: `SendMessageToServer` of `gui_client.c`, without `SHOW_SEND`, and
`SendMessageToClient` of `gui_server.c`. -/

namespace Cexp.SendText

open AdapterList (CString)

abbrev Byte := BitVec 8

def SEND_BUF_SIZE : Nat := 1024

def maxLen : Nat := 512

def SOCKET_ERROR : Int := -1

/-- `GetWindowText(h, buf, n)`: at most `n - 1` bytes and a terminator; `none` where they do not
fit into the buffer. -/
def getWindowText (text : CString 8) (buf : List Byte) (n : Nat) : Option (List Byte) :=
  if n = 0 then some buf
  else
    let copied := text.chars.take (n - 1) ++ [0]
    if copied.length ≤ buf.length then some (copied ++ buf.drop copied.length) else none

def firstBytes (buf : List Byte) (len : Nat) : Option (List Byte) :=
  if len ≤ buf.length then some (buf.take len) else none

/-- What a call finds: the send buffer of the client, the one that the server's function has on
its stack, the client the server sends to, and what `send` returns. -/
structure Env where
  sendBuf : Vector Byte SEND_BUF_SIZE
  data : Vector Byte maxLen
  gcSocket : Option Nat
  send : List Byte → Int

/-- What a call leaves: the bytes passed to `socketWrite`, if it was called, the result of `send`,
if it was, the text in the box, and the value returned, if there is one. -/
structure Outcome where
  passed : Option (List Byte)
  sent : Option Int
  box : List Byte
  returned : Option Int
  deriving DecidableEq, Repr

/-- The value is the client's `socketWrite`. `memset` clears the buffer behind it. -/
def sendMessageToServer (e : Env) (box : CString 8) : Option Outcome :=
  let len := box.chars.length
  if SEND_BUF_SIZE - 1 < len then some ⟨none, none, box.chars, some 0⟩
  else do
    let sendBuf ← getWindowText box e.sendBuf.toList (len + 1)
    let passed ← firstBytes sendBuf len
    let rst := e.send passed
    some ⟨some passed, some rst, if 0 < rst then [] else box.chars, some rst⟩

/-- The server's `socketWrite` sends only to a client that is there; else it returns no value. -/
def sendMessageToClient (e : Env) (box : CString 8) : Option Outcome :=
  let len := box.chars.length
  if maxLen - 1 < len then some ⟨none, none, box.chars, some 0⟩
  else do
    let data ← getWindowText box e.data.toList len
    let passed ← firstBytes data len
    let rst := e.gcSocket.map fun _ => e.send passed
    some ⟨some passed, rst, [], rst⟩

/-- What `send` has taken. -/
def sentBytes (o : Outcome) : List Byte := (o.passed.getD []).take (o.sent.getD 0).toNat

inductive Direction where
  | toServer
  | toClient
  deriving DecidableEq, Repr

def limit : Direction → Nat
  | .toServer => SEND_BUF_SIZE - 1
  | .toClient => maxLen - 1

def sendMessage (e : Env) (box : CString 8) : Direction → Option Outcome
  | .toServer => sendMessageToServer e box
  | .toClient => sendMessageToClient e box

/-- The text is sent as it was typed, unless it is too long, and stays in the box until it is. -/
structure SendsText (limit : Nat) (text : List Byte) (o : Outcome) : Prop where
  tooLong : limit < text.length → o.passed = none ∧ o.sent = none ∧ o.box = text
  exact : text.length ≤ limit → o.passed = some text
  kept : o.box = text ∨ o.box = [] ∧ ∃ rst, o.sent = some rst ∧ rst ≠ SOCKET_ERROR

theorem sendsText_tooLong {limit : Nat} {text : List Byte} (h : limit < text.length)
    (code : Option Int) : SendsText limit text ⟨none, none, text, code⟩ where
  tooLong _ := ⟨rfl, rfl, rfl⟩
  exact hle := absurd h (not_lt.mpr hle)
  kept := Or.inl rfl

theorem getWindowText_succ (text : CString 8) {buf : List Byte} {n : Nat}
    (hlen : n < buf.length) :
    ∃ rest, getWindowText text buf (n + 1) = some (text.chars.take n ++ 0 :: rest) := by
  have hfit : (text.chars.take n ++ [0]).length ≤ buf.length := by
    rw [List.length_append, List.length_take, List.length_singleton]
    omega
  refine ⟨buf.drop (text.chars.take n ++ [0]).length, ?_⟩
  rw [getWindowText, if_neg (Nat.succ_ne_zero n)]
  simp only [Nat.add_sub_cancel, if_pos hfit, List.append_assoc, List.singleton_append]

theorem firstBytes_append {xs ys : List Byte} {n : Nat} (h : n = xs.length) :
    firstBytes (xs ++ ys) n = some xs := by
  rw [firstBytes, if_pos (by simp [h]), h, List.take_left]

theorem sendMessageToServer_eq (e : Env) {box : CString 8}
    (h : ¬ SEND_BUF_SIZE - 1 < box.chars.length) :
    sendMessageToServer e box =
      some ⟨some box.chars, some (e.send box.chars),
        if 0 < e.send box.chars then [] else box.chars, some (e.send box.chars)⟩ := by
  have hroom : box.chars.length < e.sendBuf.toList.length := by
    rw [Vector.length_toList]
    simp only [SEND_BUF_SIZE] at h ⊢
    omega
  obtain ⟨rest, hget⟩ := getWindowText_succ box hroom
  rw [List.take_length] at hget
  rw [sendMessageToServer, if_neg h, hget, Option.bind_eq_bind, Option.bind_some,
    firstBytes_append rfl, Option.bind_some]

theorem sendMessageToServer_sends (e : Env) (box : CString 8) :
    ∃ o, sendMessageToServer e box = some o ∧ SendsText (limit .toServer) box.chars o := by
  by_cases hlong : SEND_BUF_SIZE - 1 < box.chars.length
  · exact ⟨_, if_pos hlong, sendsText_tooLong hlong _⟩
  · refine ⟨_, sendMessageToServer_eq e hlong, fun h => absurd h hlong, fun _ => rfl, ?_⟩
    by_cases hrst : 0 < e.send box.chars
    · refine Or.inr ⟨if_pos hrst, _, rfl, ?_⟩
      rw [SOCKET_ERROR]
      omega
    · exact Or.inl (if_neg hrst)

/-- The count given to `GetWindowText` leaves no room for the last byte. -/
theorem sendMessageToClient_succ (e : Env) {box : CString 8} {n : Nat}
    (hn : box.chars.length = n + 1) (hle : n + 1 ≤ maxLen - 1) :
    (sendMessageToClient e box).bind (·.passed) = some (box.chars.take n ++ [0]) := by
  have hlong : ¬ maxLen - 1 < box.chars.length := by omega
  have hroom : n < e.data.toList.length := by
    rw [Vector.length_toList]
    omega
  obtain ⟨rest, hget⟩ := getWindowText_succ box hroom
  have hfirst : firstBytes (box.chars.take n ++ 0 :: rest) (n + 1) =
      some (box.chars.take n ++ [0]) := by
    rw [← List.singleton_append, ← List.append_assoc]
    exact firstBytes_append (by simp [hn])
  rw [sendMessageToClient, if_neg hlong, hn, hget, Option.bind_eq_bind, Option.bind_some, hfirst]
  rfl

/-- A text of at least one byte is not what is passed: the terminator is not a byte of it. -/
theorem sendMessageToClient_not_exact (e : Env) {box : CString 8} {o : Outcome}
    (hne : box.chars ≠ []) (hle : box.chars.length ≤ maxLen - 1)
    (ho : sendMessageToClient e box = some o) : o.passed ≠ some box.chars := by
  intro hexact
  obtain ⟨n, hn⟩ : ∃ n, box.chars.length = n + 1 :=
    Nat.exists_eq_succ_of_ne_zero fun hz => hne (List.length_eq_zero_iff.mp hz)
  have hpassed := sendMessageToClient_succ e hn (by omega)
  rw [ho, Option.bind_some, hexact] at hpassed
  have htext := Option.some.inj hpassed
  exact box.nonzero 0 (htext ▸ List.mem_append_right _ (List.mem_singleton_self 0)) rfl

theorem sendMessageToClient_nil (e : Env) {box : CString 8} (hn : box.chars = []) :
    sendMessageToClient e box =
      some ⟨some [], e.gcSocket.map fun _ => e.send [], [], e.gcSocket.map fun _ => e.send []⟩ := by
  simp [sendMessageToClient, hn, getWindowText, firstBytes]

/-- The client sends what was typed and keeps it until it is sent; the server does exactly for
the empty text and for those that are too long. -/
theorem sendsText_iff (d : Direction) (e : Env) (box : CString 8) :
    (∃ o, sendMessage e box d = some o ∧ SendsText (limit d) box.chars o) ↔
      d = .toServer ∨ box.chars = [] ∨ maxLen - 1 < box.chars.length := by
  cases d with
  | toServer => exact iff_of_true (sendMessageToServer_sends e box) (Or.inl rfl)
  | toClient =>
    have hdir : ¬ Direction.toClient = .toServer := nofun
    simp only [hdir, false_or, sendMessage, limit]
    constructor
    · rintro ⟨o, ho, hs⟩
      by_contra hnot
      obtain ⟨hne, hle⟩ := not_or.mp hnot
      exact sendMessageToClient_not_exact e hne (not_lt.mp hle) ho (hs.exact (not_lt.mp hle))
    · rintro (hn | hlong)
      · refine ⟨_, sendMessageToClient_nil e hn, ?_⟩
        rw [hn]
        exact ⟨fun h => absurd h (Nat.not_lt_zero _), fun _ => rfl, Or.inl rfl⟩
      · exact ⟨_, if_pos hlong, sendsText_tooLong hlong _⟩

def letter : CString 8 := ⟨[97], by simp⟩

def freshEnv : Env :=
  ⟨Vector.replicate _ 0, Vector.replicate _ 0, some 1, fun bytes => bytes.length⟩

/-- The server passes a NUL for the one letter typed. -/
theorem letter_not_sent : ¬ ∀ (d : Direction) (e : Env) (box : CString 8),
    ∃ o, sendMessage e box d = some o ∧ SendsText (limit d) box.chars o := by
  intro h
  obtain ⟨o, ho, hs⟩ := h .toClient freshEnv letter
  have hle : letter.chars.length ≤ maxLen - 1 := by simp [letter, maxLen]
  exact sendMessageToClient_not_exact freshEnv (by decide) hle ho (hs.exact hle)

end Cexp.SendText
