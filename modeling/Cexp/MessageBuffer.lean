import Cexp.Terminated

/-! `serverAccpetThread` of `sslserver.cpp`: one buffer for the messages of all connections, one
after the other. -/

namespace Cexp.MessageBuffer

open Terminated

abbrev Byte := BitVec 8

def BUF_SIZE : Nat := 256

structure Message where
  bytes : List Byte
  nonempty : 0 < bytes.length
  fits : bytes.length ≤ BUF_SIZE

/-- `SSL_read`: a message, or a result that is not positive, with nothing stored. -/
inductive ReadResult where
  | message (m : Message)
  | failed (ret : Int)

def ReadResult.bytes : ReadResult → List Byte
  | .message m => m.bytes
  | .failed _ => []

/-- One pass of the loop: it comes to `SSL_read`, or one of the calls before it fails. -/
inductive Iteration where
  | acceptFailed
  | noBio
  | noSsl
  | handshakeFailed
  | connection (r : ReadResult)

/-- The result of `SSL_read` is not looked at. -/
def sslRead (buf : List Byte) (r : ReadResult) : List Byte :=
  match r with
  | .message m => m.bytes ++ buf.drop m.bytes.length
  | .failed _ => buf

/-- What `%s` prints; `none` where it reads on behind the buffer. -/
def printed (buf : List Byte) : Option (List Byte) :=
  if 0 ∈ buf then some (buf.takeWhile (· ≠ 0)) else none

/-- The texts that the loop prints, for one connection after the other, until `printf` reads
behind the buffer. -/
def serve (buf : List Byte) : List Iteration → List (List Byte)
  | [] => []
  | .connection r :: its =>
    match printed (sslRead buf r) with
    | some text => text :: serve (sslRead buf r) its
    | none => []
  | _ :: its => serve buf its

def serverAccpetThread (its : List Iteration) : List (List Byte) :=
  serve (List.replicate BUF_SIZE 0) its

/-- The results of `SSL_read`, for one connection after the other. -/
def reads : List Iteration → List ReadResult
  | [] => []
  | .connection r :: its => r :: reads its
  | _ :: its => reads its

/-- The buffer after `k` connections. -/
def bufferAfter (its : List Iteration) (k : Nat) : List Byte :=
  ((reads its).take k).foldl sslRead (List.replicate BUF_SIZE 0)

/-- The bytes read up to their first NUL or their end. -/
def text (r : ReadResult) : List Byte := r.bytes.takeWhile (· ≠ 0)

/-- What is read ends with a NUL, its own or one that is behind it in the buffer. -/
def terminated (buf : List Byte) (r : ReadResult) : Prop :=
  0 ∈ r.bytes ∨ buf[r.bytes.length]? = some 0

/-- The `printf` of every earlier connection stays in the buffer, and the read for connection `k`
is terminated. -/
def terminatedAt (its : List Iteration) (k : Nat) (r : ReadResult) : Prop :=
  (∀ j < k, 0 ∈ bufferAfter its (j + 1)) ∧ terminated (bufferAfter its k) r

instance (buf : List Byte) (r : ReadResult) : Decidable (terminated buf r) :=
  inferInstanceAs (Decidable (_ ∨ _))

instance (its : List Iteration) (k : Nat) (r : ReadResult) : Decidable (terminatedAt its k r) :=
  inferInstanceAs (Decidable (_ ∧ _))

theorem sslRead_eq (buf : List Byte) (r : ReadResult) :
    sslRead buf r = r.bytes ++ buf.drop r.bytes.length := by
  cases r <;> rfl

/-- The text printed is that of the bytes read exactly when they are terminated. -/
theorem printed_sslRead_iff (buf : List Byte) (r : ReadResult) :
    printed (sslRead buf r) = some (text r) ↔ terminated buf r := by
  rw [sslRead_eq, printed, text, terminated]
  by_cases hz : 0 ∈ r.bytes
  · rw [if_pos (List.mem_append_left _ hz), takeWhile_append_of_mem hz]
    exact iff_of_true rfl (Or.inl hz)
  · have hbehind : (buf.drop r.bytes.length)[0]? = buf[r.bytes.length]? := by
      rw [List.getElem?_drop, Nat.add_zero]
    rw [takeWhile_append_of_notMem hz, takeWhile_eq_self_iff.mpr hz, or_iff_right hz, ← hbehind]
    by_cases hrest : 0 ∈ buf.drop r.bytes.length
    · rw [if_pos (List.mem_append_right _ hrest), ← takeWhile_eq_nil_iff hrest, Option.some.injEq,
        List.append_right_eq_self]
    · rw [if_neg fun h => (List.mem_append.mp h).elim hz hrest]
      exact iff_of_false nofun fun h => hrest (List.mem_of_getElem? h)

/-- The passes that do not come to `SSL_read` print nothing and leave the buffer alone. -/
theorem serve_eq_reads (buf : List Byte) (its : List Iteration) :
    serve buf its = serve buf ((reads its).map .connection) := by
  induction its generalizing buf with
  | nil => rfl
  | cons it its ih =>
    cases it with
    | connection r =>
      rw [reads, List.map_cons, serve, serve]
      split
      · rw [ih]
      · rfl
    | _ => exact ih buf

/-- The text for connection `k` is what the buffer holds behind its read, if every earlier one
has been printed from the buffer alone. -/
theorem getElem?_serve (buf : List Byte) (rs : List ReadResult) (k : Nat) (r : ReadResult)
    (hr : rs[k]? = some r) (t : List Byte) :
    (serve buf (rs.map .connection))[k]? = some t ↔
      (∀ j < k, 0 ∈ (rs.take (j + 1)).foldl sslRead buf) ∧
        printed (sslRead ((rs.take k).foldl sslRead buf) r) = some t := by
  induction rs generalizing buf k with
  | nil => cases hr
  | cons q rs ih =>
    rw [List.map_cons, serve]
    by_cases hq : 0 ∈ sslRead buf q
    · rw [printed, if_pos hq]
      cases k with
      | zero =>
        obtain rfl := Option.some.inj hr
        rw [List.take_zero, List.foldl_nil, printed, if_pos hq]
        exact ⟨fun h => ⟨nofun, h⟩, fun h => h.2⟩
      | succ k =>
        have hstep := ih (sslRead buf q) k hr
        simp only [List.getElem?_cons_succ, hstep, List.take_succ_cons, List.foldl_cons]
        refine and_congr_left fun _ => ⟨fun h j hj => ?_, fun h j hj => h (j + 1) (by omega)⟩
        cases j with
        | zero => simpa using hq
        | succ j => exact h j (by omega)
    · rw [printed, if_neg hq]
      refine iff_of_false nofun ?_
      rintro ⟨hbefore, hlast⟩
      cases k with
      | zero =>
        obtain rfl := Option.some.inj hr
        rw [List.take_zero, List.foldl_nil, printed, if_neg hq] at hlast
        cases hlast
      | succ k => exact hq (by simpa using hbefore 0 (Nat.succ_pos k))

theorem getElem?_serverAccpetThread {its : List Iteration} {k : Nat} {r : ReadResult}
    (hr : (reads its)[k]? = some r) :
    (serverAccpetThread its)[k]? = some (text r) ↔ terminatedAt its k r := by
  rw [serverAccpetThread, serve_eq_reads, getElem?_serve _ _ k r hr, printed_sslRead_iff]
  rfl

/-- Two runs that agree on what is read for connection `k` print the same for it, namely the bytes
read, exactly when in both of them the read is terminated, and no earlier `printf` has left the
buffer. -/
theorem same_text_iff {its its' : List Iteration} {k : Nat} {r : ReadResult}
    (hr : (reads its)[k]? = some r) (hr' : (reads its')[k]? = some r) :
    ((serverAccpetThread its)[k]? = (serverAccpetThread its')[k]? ∧
      (serverAccpetThread its)[k]? = some (text r)) ↔
      terminatedAt its k r ∧ terminatedAt its' k r := by
  rw [← getElem?_serverAccpetThread hr, ← getElem?_serverAccpetThread hr']
  constructor
  · rintro ⟨hsame, hown⟩
    exact ⟨hown, hsame ▸ hown⟩
  · rintro ⟨hown, hown'⟩
    exact ⟨hown.trans hown'.symm, hown⟩

def word : ReadResult := .message ⟨[98, 99], by simp, by simp [BUF_SIZE]⟩

def letter : ReadResult := .message ⟨[97], by simp, by simp [BUF_SIZE]⟩

theorem same_text_iff_wordAfter :
    (serverAccpetThread [.connection letter, .connection word])[1]? =
      (serverAccpetThread [.connection word, .acceptFailed, .connection word])[1]? ∧
    (serverAccpetThread [.connection letter, .connection word])[1]? = some (text word) :=
  (same_text_iff (r := word) rfl rfl).mpr (by decide +kernel)

/-- A letter is printed with the rest of the word before it. -/
theorem earlier_word_shown :
    ¬ ∀ (its its' : List Iteration) (k : Nat) (r : ReadResult),
      (reads its)[k]? = some r → (reads its')[k]? = some r →
        (serverAccpetThread its)[k]? = (serverAccpetThread its')[k]? ∧
          (serverAccpetThread its)[k]? = some (text r) := by
  intro h
  obtain ⟨-, hown⟩ := h [.connection word, .connection letter]
    [.connection letter, .connection letter] 1 letter rfl rfl
  exact absurd hown (by decide +kernel)

end Cexp.MessageBuffer
