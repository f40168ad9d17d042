import Cexp.Transition

/-! TLS records and an OpenSSL session that reads them from a memory BIO. The session keeps a
partly read record and the unread plaintext of the current one; what is still in the BIO is
lost when another BIO takes its place. The protection of the records is a parameter. -/

namespace TlsSession

abbrev Byte := BitVec 8

/-- A record on the wire: its length is two bytes of a header of five. -/
structure Record where
  contentType : Byte
  version : Byte × Byte
  body : List Byte
  short : body.length < 2 ^ 16

def Record.wire (r : Record) : List Byte :=
  [r.contentType, r.version.1, r.version.2, BitVec.ofNat 8 (r.body.length / 256),
    BitVec.ofNat 8 r.body.length] ++ r.body

def recordLength : List Byte → Option Nat
  | _ :: _ :: _ :: hi :: lo :: _ => some (5 + 256 * hi.toNat + lo.toNat)
  | _ => none

/-- The first record of the bytes, and the bytes after it. -/
def splitRecord (bytes : List Byte) : Option (List Byte × List Byte) :=
  match recordLength bytes with
  | none => none
  | some n => if n ≤ bytes.length then some (bytes.take n, bytes.drop n) else none

theorem splitRecord_wire (r : Record) (rest : List Byte) :
    splitRecord (r.wire ++ rest) = some (r.wire, rest) := by
  have hshort := r.short
  have hlen : r.wire.length = 5 + r.body.length := by simp [Record.wire]; omega
  have hn : recordLength (r.wire ++ rest) = some r.wire.length := by
    simp only [Record.wire, recordLength, List.cons_append, List.nil_append, Option.some.injEq,
      BitVec.toNat_ofNat, List.length_cons]
    omega
  have hle : r.wire.length ≤ (r.wire ++ rest).length := by simp
  simp only [splitRecord, hn, if_pos hle, List.take_left, List.drop_left]

/-- The body of the first record, if the bytes hold a whole one. -/
def firstBody (bytes : List Byte) : Option (List Byte) :=
  (splitRecord bytes).map fun p => p.1.drop 5

theorem firstBody_wire (r : Record) (rest : List Byte) :
    firstBody (r.wire ++ rest) = some r.body := by
  rw [firstBody, splitRecord_wire]
  simp [Record.wire]

theorem length_of_firstBody {bytes : List Byte} {r : Record} (h : firstBody bytes = some r.body) :
    r.wire.length ≤ bytes.length := by
  obtain ⟨⟨record, rest⟩, hs, hb⟩ := Option.map_eq_some_iff.mp h
  simp only [splitRecord] at hs
  split at hs
  case h_1 => cases hs
  case h_2 n hn =>
    split at hs
    case isFalse => cases hs
    case isTrue hle =>
      obtain ⟨rfl, rfl⟩ := Prod.mk.inj (Option.some.inj hs)
      have hlen : (bytes.take n).length - 5 = r.body.length := by rw [← hb, List.length_drop]
      have h5 : 5 ≤ n := by
        unfold recordLength at hn
        split at hn <;> cases hn
        omega
      rw [List.length_take, Nat.min_eq_left hle] at hlen
      simp only [Record.wire, List.length_append, List.length_cons, List.length_nil]
      omega

/-- `bio` is none as long as the session reads from its socket. -/
structure Session where
  bio : Option (List Byte)
  record : List Byte
  plain : List Byte
  seq : Nat
  deriving DecidableEq

def Session.new : Session := ⟨none, [], [], 0⟩

/-- `SSL_set_bio` with an empty memory BIO. -/
def Session.setBio (x : Session) : Session := { x with bio := some [] }

def Session.bioWrite (x : Session) (data : List Byte) : Session :=
  { x with bio := x.bio.map (· ++ data) }

/-- The bytes that wait to be decrypted. -/
def Session.unread (x : Session) : List Byte := x.record ++ x.bio.getD []

/-- `SSL_read` of at most `size` bytes, none for a return of -1; `decrypt n` is what the
protection layer makes of the body of record `n`. -/
def Session.read (decrypt : Nat → List Byte → Option (List Byte)) (x : Session) (size : Nat) :
    Session × Option (List Byte) :=
  if x.plain ≠ [] then ({ x with plain := x.plain.drop size }, some (x.plain.take size))
  else
    match splitRecord x.unread with
    | none => ({ x with bio := x.bio.map fun _ => [], record := x.unread }, none)
    | some (record, rest) =>
      match decrypt x.seq (record.drop 5) with
      | none => ({ x with bio := x.bio.map fun _ => rest, record := [] }, none)
      | some plain =>
        (⟨x.bio.map fun _ => rest, [], plain.drop size, x.seq + 1⟩, some (plain.take size))

/-- The session is between two records. -/
def Session.aligned (x : Session) : Prop := x.record = [] ∧ x.plain = []

/-- A session between two records that gets bytes in a new BIO reads the first record of them,
if they hold one and it is accepted. -/
theorem Session.read_failed {decrypt : Nat → List Byte → Option (List Byte)} {x : Session}
    (h : x.aligned) {bytes : List Byte} (size : Nat)
    (hn : (firstBody bytes).bind (decrypt x.seq) = none) :
    ((x.setBio.bioWrite bytes).read decrypt size).2 = none := by
  have hu : (x.setBio.bioWrite bytes).unread = bytes := by
    simp [Session.unread, Session.setBio, Session.bioWrite, h.1]
  have hp : (x.setBio.bioWrite bytes).plain = [] := h.2
  have hseq : (x.setBio.bioWrite bytes).seq = x.seq := rfl
  simp only [Session.read, hu, hp, hseq, ne_eq, not_true_eq_false, if_false]
  cases hs : splitRecord bytes with
  | none => rfl
  | some p =>
    have hd : decrypt x.seq (p.1.drop 5) = none := by simpa [firstBody, hs] using hn
    simp only [hd]

theorem Session.read_record {decrypt : Nat → List Byte → Option (List Byte)} {x : Session}
    (h : x.aligned) {bytes plain : List Byte} (size : Nat)
    (hp : (firstBody bytes).bind (decrypt x.seq) = some plain) :
    ∃ rest, (x.setBio.bioWrite bytes).read decrypt size =
      (⟨some rest, [], plain.drop size, x.seq + 1⟩, some (plain.take size)) := by
  obtain ⟨body, hb, hd⟩ := Option.bind_eq_some_iff.mp hp
  obtain ⟨⟨record, rest⟩, hs, rfl⟩ := Option.map_eq_some_iff.mp hb
  refine ⟨rest, ?_⟩
  simp [Session.read, Session.unread, Session.setBio, Session.bioWrite, h.1, h.2, hs, hd]

/-- A record and what the peer has put into it. -/
structure Sent where
  record : Record
  plain : List Byte

def stream (sent : List Sent) : List Byte := (sent.map fun r => r.record.wire).flatten

def plaintexts (sent : List Sent) : List Byte := (sent.map Sent.plain).flatten

/-- The plaintexts of the records that lie within the first `n` bytes of the stream. -/
def completed : List Sent → Nat → List Byte
  | [], _ => []
  | r :: rs, n =>
    if r.record.wire.length ≤ n then r.plain ++ completed rs (n - r.record.wire.length) else []

@[simp] theorem completed_zero (sent : List Sent) : completed sent 0 = [] := by
  cases sent with
  | nil => rfl
  | cons r rs => simp [completed, Record.wire]

theorem stream_cons (r : Sent) (rs : List Sent) : stream (r :: rs) = r.record.wire ++ stream rs :=
  rfl

theorem completed_of_le {sent : List Sent} {k n : Nat} (h : (stream (sent.take k)).length ≤ n) :
    completed sent n =
      plaintexts (sent.take k) ++ completed (sent.drop k) (n - (stream (sent.take k)).length) := by
  induction sent generalizing k n with
  | nil => simp [completed, plaintexts]
  | cons r rs ih =>
    cases k with
    | zero => simp [stream, plaintexts]
    | succ k =>
      rw [List.take_succ_cons, stream_cons, List.length_append] at h
      have hle : r.record.wire.length ≤ n := by omega
      have hk : (stream (rs.take k)).length ≤ n - r.record.wire.length := by omega
      rw [completed, if_pos hle, ih hk]
      simp [stream_cons, plaintexts, Nat.sub_sub]

/-- The protection gives the plaintext of every record of the stream in its turn, and accepts
nothing else. -/
def Authentic (sent : List Sent) (decrypt : Nat → List Byte → Option (List Byte)) : Prop :=
  ∀ i body plain, decrypt i body = some plain ↔
    ∃ r, sent[i]? = some r ∧ r.record.body = body ∧ r.plain = plain

/-- The protection that knows the bodies of the records. -/
def protect (sent : List Sent) (i : Nat) (body : List Byte) : Option (List Byte) :=
  (sent[i]?.filter fun r => r.record.body = body).map Sent.plain

theorem authentic_protect (sent : List Sent) : Authentic sent (protect sent) := by
  intro i body plain
  simp only [protect, Option.map_eq_some_iff, Option.filter_eq_some_iff, decide_eq_true_eq,
    and_assoc]

end TlsSession
