import Cexp.Client

/-! The buffer of `waitReceive` in `myclient.c`: each pass of its loop reads into the 128 bytes,
may append a line end, terminates what it has and hands it to `dataReceived`. -/

namespace Cexp.ReceiveBuffer

open Client (Byte BUF_SIZE SelectResult RecvResult Receiver newReceiver store appendLineEnd finish)

/-- One pass of the loop: what `select` and `recv` return, the `FD_ISSET` after `recv`, and what
`ioctlsocket` stores, if it succeeds. `recv` is asked for at most `BUF_SIZE - 2` bytes. -/
structure Pass where
  select : SelectResult
  recv : RecvResult
  isSet : Bool
  bytesAvailable : Option Nat
  bounded : ∀ bytes, recv = .data bytes → 1 ≤ bytes.length ∧ bytes.length ≤ BUF_SIZE - 2

/-- The arguments of `dataReceived`: what `buffer` points to, and `len`. -/
structure DataReceived where
  data : List Byte
  len : Nat
  deriving DecidableEq, Repr

def readInto (th : Receiver) (bytes : List Byte) : Receiver :=
  { th with buffer := bytes ++ th.buffer.drop bytes.length, num := bytes.length }

/-- The calls of `dataReceived` in these passes, if there is such a callback; `none` once a write
falls outside the buffer. -/
def waitReceive (hasCallback : Bool) (th : Receiver) : List Pass → Option (List DataReceived)
  | [] => some []
  | p :: ps =>
    match p.select, p.recv with
    | .ready, .data bytes =>
      if p.isSet then do
        let th ← finish (readInto th bytes) p.bytesAvailable
        let calls ← waitReceive hasCallback th ps
        some (if hasCallback then ⟨th.buffer, th.num⟩ :: calls else calls)
      else some []
    | _, _ => some []

/-- The bytes of a pass that comes to the callback, with what is still available after them. -/
def Pass.chunk (p : Pass) : Option (List Byte × Option Nat) :=
  match p.select, p.recv with
  | .ready, .data bytes => if p.isSet then some (bytes, p.bytesAvailable) else none
  | _, _ => none

/-- Those before the first pass that leaves the loop. -/
def processed : List Pass → List (List Byte × Option Nat)
  | [] => []
  | p :: ps =>
    match p.chunk with
    | some chunk => chunk :: processed ps
    | none => []

/-- What `dataReceived` is to get for these bytes. -/
def message (chunk : List Byte × Option Nat) : List Byte :=
  chunk.1 ++ if chunk.2 = some 0 then [13, 10] else []

/-- The call hands over the message, terminated inside the buffer. -/
structure Delivers (call : DataReceived) (chunk : List Byte × Option Nat) : Prop where
  size : call.data.length = BUF_SIZE
  len : call.len = (message chunk).length
  bytes : call.data.take call.len = message chunk
  terminated : call.data[call.len]? = some 0

/-- The read is a full one and leaves nothing behind it. -/
def fills (chunk : List Byte × Option Nat) : Prop :=
  chunk.1.length = BUF_SIZE - 2 ∧ chunk.2 = some 0

instance (chunk : List Byte × Option Nat) : Decidable (fills chunk) :=
  inferInstanceAs (Decidable (_ ∧ _))

theorem length_message (chunk : List Byte × Option Nat) :
    (message chunk).length = chunk.1.length + if chunk.2 = some 0 then 2 else 0 := by
  rw [message, List.length_append]
  split <;> rfl

/-- Outside the full last read, the message and its terminator fit. -/
theorem length_message_lt {chunk : List Byte × Option Nat}
    (hle : chunk.1.length ≤ BUF_SIZE - 2) : (message chunk).length < BUF_SIZE ↔ ¬ fills chunk := by
  rw [length_message, fills]
  simp only [BUF_SIZE] at hle ⊢
  split
  case isTrue h => simp only [h, and_true]; omega
  case isFalse h => simp only [h, and_false, not_false_eq_true, iff_true]; omega

/-- A write just behind `xs` needs a byte there. -/
theorem store_append (xs ys : List Byte) (b : Byte) :
    store (xs ++ ys) xs.length b = if ys = [] then none else some (xs ++ b :: ys.tail) := by
  cases ys with
  | nil => simp [store]
  | cons y ys => simp [store]

theorem appendLineEnd_append {th : Receiver} {xs ys : List Byte} {y z : Byte}
    (hb : th.buffer = xs ++ y :: z :: ys) (hn : th.num = xs.length) :
    appendLineEnd th =
      some { th with buffer := (xs ++ [13, 10]) ++ ys, num := (xs ++ [13, 10]).length } := by
  have hfirst : store th.buffer th.num 13 = some ((xs ++ [13]) ++ z :: ys) := by
    rw [hb, hn, store_append]
    simp
  have hsecond : store ((xs ++ [13]) ++ z :: ys) (th.num + 1) 10 =
      some ((xs ++ [13, 10]) ++ ys) := by
    have hlen : th.num + 1 = (xs ++ [13]).length := by simp [hn]
    rw [hlen, store_append]
    simp
  rw [appendLineEnd, hfirst, Option.bind_eq_bind, Option.bind_some, hsecond, hn]
  simp

def restOf (buffer : List Byte) (chunk : List Byte × Option Nat) : List Byte :=
  buffer.drop (message chunk).length

theorem restOf_eq_nil_iff {buffer : List Byte} {chunk : List Byte × Option Nat}
    (hsize : buffer.length = BUF_SIZE) (hle : chunk.1.length ≤ BUF_SIZE - 2) :
    restOf buffer chunk = [] ↔ fills chunk := by
  rw [restOf, List.drop_eq_nil_iff, hsize, ← not_lt, length_message_lt hle, not_not]

/-- The line end always has room: two bytes are kept free for it. -/
theorem lineEnd_readInto {th : Receiver} {chunk : List Byte × Option Nat}
    (hsize : th.buffer.length = BUF_SIZE) (hle : chunk.1.length ≤ BUF_SIZE - 2) :
    (if chunk.2 = some 0 then appendLineEnd (readInto th chunk.1)
      else some (readInto th chunk.1)) =
      some { th with
        buffer := message chunk ++ restOf th.buffer chunk
        num := (message chunk).length } := by
  obtain ⟨bytes, available⟩ := chunk
  by_cases ha : available = some 0
  · obtain ⟨y, z, ys, hys⟩ : ∃ y z ys, th.buffer.drop bytes.length = y :: z :: ys := by
      have hlen : 2 ≤ (th.buffer.drop bytes.length).length := by
        rw [List.length_drop, hsize]
        simp only [BUF_SIZE] at hle ⊢
        omega
      match h : th.buffer.drop bytes.length with
      | [] => simp [h] at hlen
      | [_] => simp [h] at hlen
      | y :: z :: ys => exact ⟨y, z, ys, rfl⟩
    have hrest : restOf th.buffer (bytes, available) = ys := by
      have hdrop := congrArg (List.drop 2) hys
      simpa [restOf, message, ha, List.drop_drop] using hdrop
    have hbuffer : (readInto th bytes).buffer = bytes ++ y :: z :: ys := by rw [readInto, hys]
    have hline := appendLineEnd_append hbuffer rfl
    rw [if_pos ha, hline, hrest]
    simp [readInto, message, ha]
  · rw [if_neg ha]
    simp [readInto, message, restOf, ha]

theorem finish_eq_bind (th : Receiver) (bytesAvailable : Option Nat) :
    finish th bytesAvailable =
      (if bytesAvailable = some 0 then appendLineEnd th else some th).bind fun th =>
        (store th.buffer th.num 0).bind fun buffer =>
          some { th with pc := .callback, buffer := buffer } := by
  rw [finish]
  split <;> rfl

/-- Only the terminator can fall outside the buffer. -/
theorem finish_eq {th : Receiver} {chunk : List Byte × Option Nat}
    (hsize : th.buffer.length = BUF_SIZE) (hle : chunk.1.length ≤ BUF_SIZE - 2) :
    finish (readInto th chunk.1) chunk.2 =
      if fills chunk then none
      else some { th with
        pc := .callback
        buffer := message chunk ++ 0 :: (restOf th.buffer chunk).tail
        num := (message chunk).length } := by
  rw [finish_eq_bind, lineEnd_readInto hsize hle, Option.bind_some,
    store_append, if_congr (restOf_eq_nil_iff hsize hle) rfl rfl]
  split <;> rfl

theorem delivers_finish {th th' : Receiver} {chunk : List Byte × Option Nat}
    (hsize : th.buffer.length = BUF_SIZE) (hle : chunk.1.length ≤ BUF_SIZE - 2)
    (h : finish (readInto th chunk.1) chunk.2 = some th') :
    Delivers ⟨th'.buffer, th'.num⟩ chunk := by
  rw [finish_eq hsize hle] at h
  split at h
  case isTrue => cases h
  case isFalse hf =>
    obtain rfl := Option.some.inj h
    have hlt := (length_message_lt hle).mpr hf
    refine ⟨?_, rfl, ?_, ?_⟩
    · simp only [List.length_append, List.length_cons, List.length_tail, restOf, List.length_drop,
        hsize]
      omega
    · exact List.take_left
    · simp

theorem Pass.chunk_length {p : Pass} {chunk : List Byte × Option Nat} (h : p.chunk = some chunk) :
    chunk.1.length ≤ BUF_SIZE - 2 := by
  rw [Pass.chunk] at h
  split at h
  case h_1 bytes _ hrecv =>
    split at h
    case isTrue =>
      obtain rfl := Option.some.inj h
      exact (p.bounded bytes hrecv).2
    case isFalse => cases h
  case h_2 => cases h

theorem waitReceive_cons (hasCallback : Bool) (th : Receiver) (p : Pass) (ps : List Pass) :
    waitReceive hasCallback th (p :: ps) =
      match p.chunk with
      | some chunk => (finish (readInto th chunk.1) chunk.2).bind fun th =>
          (waitReceive hasCallback th ps).bind fun calls =>
            some (if hasCallback then ⟨th.buffer, th.num⟩ :: calls else calls)
      | none => some [] := by
  cases hsel : p.select <;> cases hrecv : p.recv <;> cases hset : p.isSet <;>
    simp [waitReceive, Pass.chunk, hsel, hrecv, hset]

/-- Every write falls inside the buffer, and the calls get the messages of the run in order. -/
def Delivered (hasCallback : Bool) (th : Receiver) (ps : List Pass) : Prop :=
  ∃ calls, waitReceive hasCallback th ps = some calls ∧
    List.Forall₂ Delivers calls (if hasCallback then processed ps else [])

theorem delivered_iff_of_size {hasCallback : Bool} {th : Receiver} {ps : List Pass}
    (hsize : th.buffer.length = BUF_SIZE) :
    Delivered hasCallback th ps ↔ ∀ chunk ∈ processed ps, ¬ fills chunk := by
  induction ps generalizing th with
  | nil => simp [Delivered, waitReceive, processed]
  | cons p ps ih =>
    cases hp : p.chunk with
    | none => simp [Delivered, waitReceive_cons, processed, hp]
    | some chunk =>
      have hle := Pass.chunk_length hp
      by_cases hf : fills chunk
      · have hnone : finish (readInto th chunk.1) chunk.2 = none := by
          rw [finish_eq hsize hle, if_pos hf]
        simp [Delivered, waitReceive_cons, processed, hp, hnone, hf]
      · obtain ⟨th', hth'⟩ : ∃ th', finish (readInto th chunk.1) chunk.2 = some th' :=
          ⟨_, by rw [finish_eq hsize hle, if_neg hf]⟩
        have hd := delivers_finish hsize hle hth'
        have hrest : (∀ c ∈ processed (p :: ps), ¬ fills c) ↔ ∀ c ∈ processed ps, ¬ fills c := by
          simp [processed, hp, hf]
        rw [hrest, ← ih hd.size]
        cases hasCallback <;>
          simp [Delivered, waitReceive_cons, processed, hp, hth', Option.bind_eq_some_iff, hd]

/-- The bytes of a run are handed over exactly and in bounds exactly when none of its reads is a
full one that leaves nothing behind. -/
theorem delivered_iff (hasCallback : Bool) (connection : Nat) (ps : List Pass) :
    Delivered hasCallback (newReceiver connection) ps ↔
      ∀ chunk ∈ processed ps, ¬ fills chunk :=
  delivered_iff_of_size (by simp [newReceiver])

/-- One read of 126 bytes, behind which no byte is waiting. -/
def fullRead : Pass :=
  ⟨.ready, .data (List.replicate 126 65), true, some 0, by
    rintro bytes ⟨⟩
    simp [BUF_SIZE]⟩

/-- The terminator of a full last read is written to `buffer[128]`. -/
theorem full_read_overruns :
    ¬ ∀ (hasCallback : Bool) (connection : Nat) (ps : List Pass),
      Delivered hasCallback (newReceiver connection) ps := by
  intro h
  obtain ⟨calls, hcalls, -⟩ := h true 1 [fullRead]
  have hnone : waitReceive true (newReceiver 1) [fullRead] = none := by decide +kernel
  cases hnone.symm.trans hcalls

end Cexp.ReceiveBuffer
