import Cexp.SelectTable

/-! What `SSLServerThread` has released of the connections it accepted: the socket and the
SSL object of every connection that is no longer in the table. -/

namespace Cexp.SelectServer

open Transition

/-- `closesocket` has been called once on the connection, and `SSL_free` once on its SSL
object if it ever had one. -/
def Released (s : State) (n : Nat) : Prop :=
  s.closed n = 1 ∧ (s.created n = true → s.freed n = 1)

/-- Every accepted connection is in the table or released; no table outlives the function. -/
def ReleasedOnce (s : State) : Prop := ∀ n < s.accepted, s.inTable n ∨ Released s n

instance (s : State) (n : Nat) : Decidable (s.inTable n) :=
  inferInstanceAs (Decidable (∃ i, s.clients i ≠ 0 ∧ s.socket (s.clients i) = some n))

instance (s : State) (n : Nat) : Decidable (Released s n) :=
  inferInstanceAs (Decidable (s.closed n = 1 ∧ (s.created n = true → s.freed n = 1)))

instance (s : State) : Decidable (ReleasedOnce s) :=
  inferInstanceAs (Decidable (∀ n < s.accepted, s.inTable n ∨ Released s n))

/-- A read fails for an established connection by `SSL_ERROR_WANT_READ` only, and `accept`
fails only with nobody in the table. -/
def releasing (s : State) : Label → Bool
  | .accept none _ => decide (∀ i, s.clients i = 0)
  | .read numRead se =>
    match s.pc with
    | .readWrite i => s.rwConns i = 0 || 0 < numRead || se = .wantRead
    | _ => true
  | _ => true

/-- The SSL objects of the closed connections are freed. -/
def Freed (s : State) : Prop :=
  ∀ n < s.accepted, s.closed n = 1 → s.created n = true → s.freed n = 1

theorem Inv.closed_of_inTable {s : State} (h : Inv s) {n : Nat} (hn : s.inTable n) :
    s.closed n = 0 := by
  obtain ⟨i, hi, hs⟩ := hn
  obtain ⟨m, hm⟩ := h.entry i hi
  obtain rfl : m = n := Option.some.inj (hm.socket.symm.trans hs)
  exact hm.closed

theorem Inv.releasedOnce_iff {s : State} (h : Inv s) : ReleasedOnce s ↔ Freed s := by
  constructor
  · intro hr n hn hc
    rcases hr n hn with ht | hr
    · rw [h.closed_of_inTable ht] at hc
      cases hc
    · exact hr.2
  · intro hf n hn
    exact (h.done n hn).imp_right fun hc => ⟨hc, hf n hn hc⟩

theorem Freed.newConnection {s t : State} (h : Inv s) (hf : Freed s) {client sconn : Nat}
    (ht : (s.openSocket client).newConnection client sconn s.accepted = some t) : Freed t := by
  have hfresh := h.fresh s.accepted (Nat.le_refl _)
  have hold {n : Nat} (hn : n < s.accepted + 1) : n = s.accepted ∨ n < s.accepted := by omega
  unfold State.newConnection at ht
  split at ht
  case isTrue =>
    obtain rfl := Option.some.inj ht
    rw [closesocket_eq (n := s.accepted) (by simp [State.openSocket])]
    intro n hn hc hcr
    rcases hold hn with rfl | hn
    · have hcr : s.created s.accepted = true := hcr
      simp [hfresh.2.2] at hcr
    · have hne : n ≠ s.accepted := Nat.ne_of_lt hn
      exact hf n hn (by simpa [State.openSocket, hne] using hc) hcr
  case isFalse =>
    split at ht
    case h_1 =>
      obtain rfl := Option.some.inj ht
      intro n hn hc hcr
      rcases hold hn with rfl | hn
      · have hc : s.closed s.accepted = 1 := hc
        simp [hfresh.1] at hc
      · exact hf n hn hc hcr
    case h_2 =>
      split at ht
      case isTrue =>
        obtain rfl := Option.some.inj ht
        intro n hn hc hcr
        rcases hold hn with rfl | hn
        · have hc : s.closed s.accepted = 1 := hc
          simp [hfresh.1] at hc
        · have hne : n ≠ s.accepted := Nat.ne_of_lt hn
          exact hf n hn hc (by simpa [State.sslNew, State.openSocket, hne] using hcr)
      case isFalse => cases ht

theorem Freed.handshake {s : State} (h : Inv s) (hf : Freed s) (i : Slot) (ret : Int)
    (err : SslError) : Freed (s.handshake i ret err) := by
  unfold State.handshake
  split_ifs with hc
  · exact hf
  · exact hf
  · obtain ⟨n, hn⟩ := h.entry i fun he => hc (h.empty i he).1
    rw [handshakeFailed_eq hn hc]
    intro m hm hcl hcr
    by_cases hmn : m = n
    · subst hmn
      exact Function.update_self _ _ _
    · have hold := hf m hm (by simpa [hmn] using hcl) hcr
      simpa [hmn] using hold
  · exact hf

theorem Inv.not_freed_of_readFailed {s : State} (h : Inv s) {i : Slot} (hr : s.rwConns i ≠ 0) :
    ¬ Freed (s.readFailed i) := by
  intro hf
  obtain ⟨n, hn⟩ := h.entry i fun he => hr (h.empty i he).2
  rw [readFailed_eq hn] at hf
  have h1 : s.freed n = 1 := hf n hn.accepted (Function.update_self _ _ _) hn.created
  rw [hn.freed] at h1
  cases h1

theorem Freed.readWrite {s : State} (hf : Freed s) {i : Slot} {numRead : Int} {se : SslError}
    (hp : s.pc = .readWrite i) (hok : releasing s (.read numRead se) = true) :
    Freed (s.readWrite i numRead se) := by
  unfold State.readWrite
  split_ifs with hr hn hw
  · exact hf
  · exact hf
  · simp only [releasing, hp, hr, hw, decide_false, Bool.false_or, Bool.or_false,
      decide_eq_true_eq] at hok
    omega
  · exact hf

theorem ReleasedOnce.returned {s : State} (h : ReleasedOnce s) (hc : ∀ i, s.clients i = 0) :
    ReleasedOnce { s.goto .returned with socket := fun _ => none } := by
  intro n hn
  refine Or.inr ((h n hn).resolve_left ?_)
  rintro ⟨i, hi, -⟩
  exact hi (hc i)

structure Sound (s : State) : Prop where
  inv : s.pc ≠ .returned → Inv s
  released : ReleasedOnce s

theorem Sound.step {s t : State} {l : Label} (h : Sound s) (hok : releasing s l = true)
    (hs : step s l = some t) : Sound t := by
  have hI := h.inv (step_not_returned hs)
  have hf := hI.releasedOnce_iff.mp h.released
  have hinv : t.pc ≠ .returned → Inv t := fun ht => hI.step hs ht
  have hsound (hp : t.pc ≠ .returned) (hft : Freed t) : Sound t :=
    ⟨hinv, (hinv hp).releasedOnce_iff.mpr hft⟩
  have hnext (i : Slot) : Pc.afterHandshake i ≠ .returned ∧ Pc.afterRead i ≠ .returned := by
    unfold Pc.afterHandshake Pc.afterRead
    split_ifs <;> simp
  cases l with
  | select listening =>
    simp only [SelectServer.step] at hs
    split at hs <;> cases hs
    exact hsound (by cases listening <;> simp [State.goto]) hf
  | accept client sconn =>
    simp only [SelectServer.step] at hs
    split at hs
    case h_1 =>
      obtain rfl := Option.some.inj hs
      exact ⟨hinv, h.released.returned (by simpa [releasing] using hok)⟩
    case h_2 =>
      split at hs
      case isTrue =>
        obtain ⟨u, hu, rfl⟩ := Option.map_eq_some_iff.mp hs
        have hfu : Freed u := hf.newConnection hI hu
        exact hsound (by simp [State.goto]) hfu
      case isFalse => cases hs
    case h_3 => cases hs
  | handshake ret err =>
    simp only [SelectServer.step] at hs
    split at hs <;> cases hs
    exact hsound (hnext _).1 (hf.handshake hI _ ret err)
  | read numRead se =>
    simp only [SelectServer.step] at hs
    split at hs <;> cases hs
    case h_1 i hp => exact hsound (hnext _).2 (hf.readWrite hp hok)

/-- A step that is not `releasing` leaves a connection unreleased behind. -/
theorem Sound.releasing {s t : State} {l : Label} (h : Sound s)
    (hs : SelectServer.step s l = some t)
    (ht : ReleasedOnce t) : releasing s l = true := by
  have hI := h.inv (step_not_returned hs)
  cases l with
  | select | handshake => rfl
  | accept client sconn =>
    cases client with
    | some client => rfl
    | none =>
      simp only [SelectServer.step] at hs
      split at hs
      case h_2 he => cases he
      case h_3 => cases hs
      case h_1 =>
        obtain rfl := Option.some.inj hs
        refine decide_eq_true fun i => ?_
        by_contra hi
        obtain ⟨n, hn⟩ := hI.entry i hi
        rcases ht n hn.accepted with ⟨j, -, hj⟩ | hr
        · cases hj
        · have h1 : s.closed n = 1 := hr.1
          rw [hn.closed] at h1
          cases h1
  | read numRead se =>
    simp only [SelectServer.step] at hs
    split at hs
    case h_2 => cases hs
    case h_1 i hp =>
      obtain rfl := Option.some.inj hs
      by_contra hok
      simp only [SelectServer.releasing, hp, Bool.or_eq_true, decide_eq_true_eq, not_or] at hok
      obtain ⟨⟨hr, hn⟩, hw⟩ := hok
      have he : s.readWrite i numRead se = s.readFailed i := by
        simp only [State.readWrite, hr, hw, if_false, if_pos (Int.not_lt.mp hn)]
      rw [he] at ht
      exact hI.not_freed_of_readFailed hr
        (((hI.readFailed hr).goto _).releasedOnce_iff.mp ht)

/-- Every connection that leaves the table, and at the end every connection, has been
released exactly once, if and only if no established connection's read fails and `accept`
fails only when the table is empty. -/
theorem connections_released_iff {tr : List Label} {s : State}
    (h : exec step init tr = some s) : Always step ReleasedOnce init tr ↔
      Meets step (fun s l => releasing s l = true) init tr :=
  always_iff_meets (I := Sound) (fun _ _ _ hI hok hs => hI.step hok hs) (fun _ hI => hI.released)
    (fun _ _ _ hI hs ht => hI.releasing hs ht)
    ⟨fun _ => inv_init, fun _ hn => absurd hn (Nat.not_lt_zero _)⟩ h

/-- A handshake fails, and then `accept` with nobody connected. -/
def failedHandshake : List Label :=
  [.select true, .accept (some 4) 100, .handshake (-1) (.other 1), .handshake 0 .wantRead,
    .read 0 .wantRead, .read 0 .wantRead, .select true, .accept none 0]

theorem connections_released_iff_failedHandshake :
    (exec step init failedHandshake).isSome = true ∧
      Always step ReleasedOnce init failedHandshake := by
  obtain ⟨s, hs, -⟩ := exec_exists step init failedHandshake (fun _ => true) (by decide)
  exact ⟨by simp [hs], (connections_released_iff hs).mpr (by decide)⟩

/-- A client connects, says something and hangs up. -/
def hangUp : List Label :=
  [.select true, .accept (some 4) 100, .handshake 1 .wantRead, .handshake 0 .wantRead,
    .read 5 .wantRead, .read 0 .wantRead, .select false, .handshake 0 .wantRead,
    .handshake 0 .wantRead, .read 0 (.other 6)]

/-- Its SSL object is never freed. -/
theorem session_leaks_on_hangUp : ¬ ∀ (tr : List Label) (s : State),
    exec step init tr = some s → Always step ReleasedOnce init tr := by
  intro h
  obtain ⟨s, hs, hp⟩ := exec_exists step init hangUp (fun s => !decide (ReleasedOnce s)) (by decide)
  have hlast := (h _ s hs).last hs
  simp [hlast] at hp

end Cexp.SelectServer
