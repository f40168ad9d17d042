import Cexp.IocpSslServer
import Cexp.Terminated

/-! What `CompletionThread` prints of a TLS stream that arrives in completions of any size:
it reads once for every completion, and the next one replaces the BIO. -/

namespace Cexp.IocpSslServer

open Transition TlsSession Terminated

/-- One connection, with the number of bytes that have been received on it. -/
structure Connection where
  session : Session
  display : Display
  bytes : Nat

def connected : Connection := ⟨Session.new, init.display, 0⟩

variable (decrypt : Nat → List Byte → Option (List Byte))

def receive (x : Connection) (edata : List Byte) : Option Connection :=
  let y := received decrypt (x.session, x.display) edata
  some ⟨y.1, y.2, x.bytes + edata.length⟩

/-- The thread has printed every record that is complete, and has written `ddata` within its
bounds. -/
structure Printed (sent : List Sent) (x : Connection) : Prop where
  output : x.display.output = completed sent x.bytes
  inside : x.display.outside = false

/-- The completion begins with the record that is next to be read, whole; its plaintext fits
into `ddata` with the zero behind it and holds none itself; and no other record comes to an
end that has a plaintext. -/
def wholeRecord (sent : List Sent) (x : Connection) (edata : List Byte) : Bool :=
  sent[x.session.seq]?.any fun r =>
    firstBody edata = some r.record.body && r.plain.length < DDATA_SIZE && !r.plain.contains 0 &&
      completed sent (x.bytes + edata.length) = plaintexts (sent.take (x.session.seq + 1))

variable {decrypt}

theorem print_none (x : Display) : (x.print none).outside = true := by
  simp [Display.print]

theorem print_full {x : Display} (hx : x.ddata.length = DDATA_SIZE) {d : List Byte}
    (hd : d.length = DDATA_SIZE) : (x.print (some d)).outside = true := by
  simp [Display.print, hx, hd]

theorem print_some {x : Display} (hx : x.ddata.length = DDATA_SIZE) {d : List Byte}
    (hd : d.length < DDATA_SIZE) :
    x.print (some d) = ⟨d ++ 0 :: x.ddata.drop (d.length + 1), x.outside,
      x.output ++ d.takeWhile (· ≠ 0)⟩ := by
  obtain ⟨b, rest, hr⟩ : ∃ b rest, x.ddata.drop d.length = b :: rest := by
    cases hr : x.ddata.drop d.length with
    | nil =>
      have := List.drop_eq_nil_iff.mp hr
      omega
    | cons b rest => exact ⟨b, rest, rfl⟩
  have hrest : x.ddata.drop (d.length + 1) = rest := by
    rw [← List.drop_drop, hr]
    rfl
  have hin : (0 : Int) ≤ d.length ∧ (d.length : Int) < (d ++ b :: rest).length := by
    simp only [List.length_append, List.length_cons]
    omega
  simp only [Display.print, Option.getD_some, hr, hrest, hin, and_self, if_true, Int.toNat_natCast,
    List.set_append_right _ _ (Nat.le_refl _), Nat.sub_self, List.set_cons_zero,
    takeWhile_append_cons, decide_true, Bool.not_true, Bool.or_false]

/-- As long as all has been well, every completion has been the next record. -/
structure InStep (sent : List Sent) (x : Connection) : Prop where
  aligned : x.session.aligned
  ddata : x.display.ddata.length = DDATA_SIZE
  inside : x.display.outside = false
  bytes : (stream (sent.take x.session.seq)).length ≤ x.bytes
  complete : completed sent x.bytes = plaintexts (sent.take x.session.seq)
  output : x.display.output = plaintexts (sent.take x.session.seq)

theorem inStep_connected (sent : List Sent) : InStep sent connected where
  aligned := ⟨rfl, rfl⟩
  ddata := by simp [connected, init]
  inside := rfl
  bytes := by simp [connected, Session.new, stream]
  complete := by simp [connected, Session.new, plaintexts]
  output := by simp [connected, Session.new, init, plaintexts]

theorem InStep.printed {sent : List Sent} {x : Connection} (h : InStep sent x) :
    Printed sent x := ⟨h.output.trans h.complete.symm, h.inside⟩

theorem take_succ_of_get {sent : List Sent} {i : Nat} {r : Sent} (h : sent[i]? = some r) :
    sent.take (i + 1) = sent.take i ++ [r] := by
  rw [List.take_add_one, h]
  rfl

theorem plaintexts_append (a b : List Sent) :
    plaintexts (a ++ b) = plaintexts a ++ plaintexts b := by
  simp [plaintexts]

theorem InStep.read {sent : List Sent} {x y : Connection} {edata : List Byte} {r : Sent}
    (h : InStep sent x) (hd : Authentic sent decrypt) (hr : sent[x.session.seq]? = some r)
    (hb : firstBody edata = some r.record.body) (hp : r.plain.length < DDATA_SIZE)
    (hy : receive decrypt x edata = some y) :
    y.session.aligned ∧ y.session.seq = x.session.seq + 1 ∧ y.bytes = x.bytes + edata.length ∧
      y.display.ddata.length = DDATA_SIZE ∧ y.display.outside = false ∧
      y.display.output = plaintexts (sent.take x.session.seq) ++ r.plain.takeWhile (· ≠ 0) ∧
      (stream (sent.take (x.session.seq + 1))).length ≤ y.bytes := by
  have hdec : (firstBody edata).bind (decrypt x.session.seq) = some r.plain := by
    rw [hb]
    exact (hd _ _ _).mpr ⟨r, hr, rfl, rfl⟩
  obtain ⟨rest, hread⟩ := Session.read_record h.aligned DDATA_SIZE hdec
  rw [List.take_of_length_le hp.le, List.drop_eq_nil_of_le hp.le] at hread
  have hrec : received decrypt (x.session, x.display) edata =
      (⟨some rest, [], [], x.session.seq + 1⟩,
        ⟨r.plain ++ 0 :: x.display.ddata.drop (r.plain.length + 1), x.display.outside,
          x.display.output ++ r.plain.takeWhile (· ≠ 0)⟩) := by
    simp only [received, hread, print_some h.ddata hp]
  simp only [IocpSslServer.receive, hrec, Option.some.injEq] at hy
  subst hy
  refine ⟨⟨rfl, rfl⟩, rfl, rfl, ?_, h.inside, by rw [h.output], ?_⟩
  · have := h.ddata
    simp only [List.length_append, List.length_cons, List.length_drop]
    omega
  · have hlen := length_of_firstBody hb
    have := h.bytes
    rw [take_succ_of_get hr]
    simp only [stream, List.map_append, List.map_cons, List.map_nil, List.flatten_append,
      List.flatten_cons, List.flatten_nil, List.append_nil, List.length_append] at this ⊢
    omega

theorem wholeRecord_iff {sent : List Sent} {x : Connection} {edata : List Byte} :
    wholeRecord sent x edata = true ↔ ∃ r, sent[x.session.seq]? = some r ∧
      firstBody edata = some r.record.body ∧ r.plain.length < DDATA_SIZE ∧ 0 ∉ r.plain ∧
      completed sent (x.bytes + edata.length) = plaintexts (sent.take (x.session.seq + 1)) := by
  simp only [wholeRecord, Option.any_eq_true, Bool.and_eq_true, decide_eq_true_eq,
    Bool.not_eq_true', List.contains_eq_mem, decide_eq_false_iff_not, and_assoc]

theorem InStep.receive {sent : List Sent} {x y : Connection} {edata : List Byte}
    (h : InStep sent x) (hd : Authentic sent decrypt) (hok : wholeRecord sent x edata = true)
    (hy : receive decrypt x edata = some y) : InStep sent y := by
  obtain ⟨r, hr, hb, hp, h0, hc⟩ := wholeRecord_iff.mp hok
  obtain ⟨ha, hseq, hbytes, hlen, ho, hout, hle⟩ := h.read hd hr hb hp hy
  rw [takeWhile_eq_self_iff.mpr h0] at hout
  refine ⟨ha, hlen, ho, ?_, ?_, ?_⟩
  · rw [hseq]
    exact hle
  · rw [hbytes, hseq]
    exact hc
  · rw [hout, hseq, take_succ_of_get hr, plaintexts_append]
    simp [plaintexts]

/-- When the completions so far have been records and nothing else, the next one may be the
record that follows and bytes of the one after it. -/
theorem wholeRecord_of_wire {sent : List Sent} {x : Connection} {r : Sent} {rest : List Byte}
    (hb : x.bytes = (stream (sent.take x.session.seq)).length) (hr : sent[x.session.seq]? = some r)
    (hp : r.plain.length < DDATA_SIZE) (h0 : 0 ∉ r.plain)
    (hrest : completed (sent.drop (x.session.seq + 1)) rest.length = []) :
    wholeRecord sent x (r.record.wire ++ rest) = true := by
  have hlen : x.bytes + (r.record.wire ++ rest).length =
      (stream (sent.take (x.session.seq + 1))).length + rest.length := by
    rw [hb, take_succ_of_get hr]
    simp [stream, Nat.add_assoc]
  refine wholeRecord_iff.mpr ⟨r, hr, firstBody_wire _ _, hp, h0, ?_⟩
  rw [hlen, completed_of_le (Nat.le_add_right _ _), Nat.add_sub_cancel_left, hrest, List.append_nil]

theorem InStep.wholeRecord {sent : List Sent} {x y : Connection} {edata : List Byte}
    (h : InStep sent x) (hd : Authentic sent decrypt)
    (hy : IocpSslServer.receive decrypt x edata = some y) (hp : Printed sent y) :
    IocpSslServer.wholeRecord sent x edata = true := by
  have hfail (hn : (firstBody edata).bind (decrypt x.session.seq) = none) : False := by
    have hread := Session.read_failed h.aligned DDATA_SIZE hn
    obtain rfl := Option.some.inj hy
    have hin := hp.inside
    simp only [received, hread, print_none] at hin
    cases hin
  cases hdec : (firstBody edata).bind (decrypt x.session.seq) with
  | none => exact (hfail hdec).elim
  | some plain =>
    obtain ⟨body, hb, hplain⟩ := Option.bind_eq_some_iff.mp hdec
    obtain ⟨r, hr, rfl, rfl⟩ := (hd _ _ _).mp hplain
    have hlt : r.plain.length < DDATA_SIZE := by
      by_contra hge
      obtain ⟨rest, hread⟩ := Session.read_record h.aligned DDATA_SIZE hdec
      have hfull : (r.plain.take DDATA_SIZE).length = DDATA_SIZE := by
        rw [List.length_take]
        omega
      obtain rfl := Option.some.inj hy
      have hin := hp.inside
      simp only [received, hread, print_full h.ddata hfull] at hin
      cases hin
    obtain ⟨-, -, hbytes, -, -, hout, hle⟩ := h.read hd hr hb hlt hy
    -- What is printed is no longer than the plaintext, and what is complete no shorter.
    have hcomp := completed_of_le hle
    have htake : plaintexts (sent.take (x.session.seq + 1)) =
        plaintexts (sent.take x.session.seq) ++ r.plain := by
      rw [take_succ_of_get hr, plaintexts_append]
      simp [plaintexts]
    have hsame := hout.symm.trans (hp.output.trans hcomp)
    rw [htake, List.append_assoc, List.append_cancel_left_eq] at hsame
    have hshort := (List.takeWhile_prefix (· ≠ 0) (l := r.plain)).length_le
    rw [hsame, List.length_append] at hshort
    generalize completed (sent.drop (x.session.seq + 1)) _ = more at hsame hshort hcomp
    obtain rfl : more = [] := List.length_eq_zero_iff.mp (by omega)
    rw [List.append_nil] at hsame hcomp
    exact wholeRecord_iff.mpr ⟨r, hr, hb, hlt, takeWhile_eq_self_iff.mp hsame, hbytes ▸ hcomp⟩

/-- What the connection keeps as long as every completion is the next record. -/
theorem inStep_of_meets {sent : List Sent} (hd : Authentic sent decrypt)
    {chunks : List (List Byte)} {x : Connection}
    (hm : Meets (receive decrypt) (fun x edata => wholeRecord sent x edata = true) connected chunks)
    (h : exec (receive decrypt) connected chunks = some x) : InStep sent x :=
  exec_invariant_of_meets (fun _ _ _ hI hok hy => hI.receive hd hok hy) (inStep_connected sent) hm h

theorem exec_bytes {chunks : List (List Byte)} {x y : Connection}
    (h : exec (receive decrypt) x chunks = some y) :
    y.bytes = x.bytes + chunks.flatten.length := by
  induction chunks generalizing x with
  | nil =>
    obtain rfl := Option.some.inj h
    simp
  | cons edata chunks ih =>
    obtain ⟨z, hz, hy⟩ := exec_cons.mp h
    obtain rfl := Option.some.inj hz
    rw [ih hy, List.flatten_cons, List.length_append, Nat.add_assoc]

/-- The thread prints every record as it is completed, and writes `ddata` within its bounds,
exactly if every completion is the next record and its plaintext short and free of zeros. -/
theorem printed_iff_whole_records {sent : List Sent} (hd : Authentic sent decrypt)
    {chunks : List (List Byte)} {x : Connection}
    (h : exec (receive decrypt) connected chunks = some x) :
    Always (receive decrypt) (Printed sent) connected chunks ↔
      Meets (receive decrypt) (fun x edata => wholeRecord sent x edata = true) connected chunks :=
  always_iff_meets (I := InStep sent) (fun _ _ _ hI hok hy => hI.receive hd hok hy)
    (fun _ hI => hI.printed) (fun _ _ _ hI hy hp => hI.wholeRecord hd hy hp)
    (inStep_connected sent) h

/-- A record of one byte, sent without protection. -/
def letter (b : Byte) : Sent := ⟨⟨23, (3, 3), [b], Nat.one_lt_two_pow (by decide)⟩, [b]⟩

def letters : List Sent := [letter 65, letter 66, letter 67]

/-- Two records, the second with the first bytes of the third behind it. -/
def twoLetters : List (List Byte) := [[23, 3, 3, 0, 1, 65], [23, 3, 3, 0, 1, 66, 23, 3]]

theorem printed_iff_whole_records_letters :
    ∃ x, exec (receive (protect letters)) connected twoLetters = some x ∧
      Always (receive (protect letters)) (Printed letters) connected twoLetters ∧
      x.display.output = [65, 66] := by
  obtain ⟨x, hx, hp⟩ := exec_exists (receive (protect letters)) connected twoLetters
    (fun x => decide (x.display.output = [65, 66])) (by decide +kernel)
  exact ⟨x, hx, (printed_iff_whole_records (authentic_protect _) hx).mpr (by decide +kernel),
    of_decide_eq_true hp⟩

/-- A record that comes in two completions: `SSL_read` returns -1 after the first one. -/
theorem fragment_written_outside :
    ¬ ∀ (sent : List Sent) (decrypt : Nat → List Byte → Option (List Byte))
      (chunks : List (List Byte)) (x : Connection), Authentic sent decrypt →
      chunks.flatten = stream sent →
      (∀ edata ∈ chunks, 0 < edata.length ∧ edata.length ≤ IocpServer.BUF_SIZE) →
      exec (receive decrypt) connected chunks = some x → Printed sent x := by
  intro h
  obtain ⟨x, hx, hp⟩ := exec_exists (receive (protect [letter 65])) connected
    [[23, 3, 3], [0, 1, 65]] (fun x => x.display.outside) (by decide +kernel)
  have hh := h [letter 65] _ _ x (authentic_protect _) (by decide) (by decide) hx
  simp [hh.inside] at hp

end Cexp.IocpSslServer
