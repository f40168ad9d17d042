import Cexp.SelectServer

/-! The connection table of `SSLServerThread`: its three arrays and the counter agree at
the start of every iteration, and every accepted socket is in the table or closed once. -/

namespace Cexp.SelectServer

open Transition ThreadCount

/-- The SSL object of a slot, in whichever array it is. -/
def State.sconn (s : State) (i : Slot) : Nat := if s.hConns i = 0 then s.rwConns i else s.hConns i

def State.inTable (s : State) (n : Nat) : Prop :=
  ∃ i, s.clients i ≠ 0 ∧ s.socket (s.clients i) = some n

def State.occupied (s : State) : Nat := ThreadCount.count (· != 0) s.clients

structure Table (s : State) : Prop where
  count_eq : s.count = s.occupied
  range : 0 ≤ s.count ∧ s.count ≤ MAX_CONNS
  occupied : ∀ i, s.clients i ≠ 0 ↔
    (s.hConns i ≠ 0 ∧ s.rwConns i = 0) ∨ (s.hConns i = 0 ∧ s.rwConns i ≠ 0)
  empty : ∀ i, s.clients i = 0 → s.hConns i = 0 ∧ s.rwConns i = 0
  distinct : ∀ i j, s.clients i ≠ 0 → s.clients i = s.clients j → i = j
  opened : ∀ i, s.clients i ≠ 0 → (s.socket (s.clients i)).isSome = true
  closed : ∀ n < s.accepted, ¬ s.inTable n → s.closed n = 1
  free : s.count < MAX_CONNS → ∃ i, s.firstFree = some i

/-- Slot `i` holds connection `n`, none of whose resources has been released. -/
structure Entry (s : State) (i : Slot) (n : Nat) : Prop where
  accepted : n < s.accepted
  socket : s.socket (s.clients i) = some n
  session : s.session (s.sconn i) = some n
  created : s.created n = true
  closed : s.closed n = 0
  freed : s.freed n = 0

structure Inv (s : State) : Prop where
  count : s.count = s.occupied
  empty : ∀ i, s.clients i = 0 → s.hConns i = 0 ∧ s.rwConns i = 0
  stage : ∀ i, s.clients i ≠ 0 → (s.hConns i = 0 ↔ s.rwConns i ≠ 0)
  entry : ∀ i, s.clients i ≠ 0 → ∃ n, Entry s i n
  owner : ∀ fd n, s.socket fd = some n → ∃ i, s.clients i = fd ∧ s.clients i ≠ 0
  sole : ∀ i j n, s.clients i ≠ 0 → s.socket (s.clients i) = some n →
    s.clients j ≠ 0 → s.socket (s.clients j) = some n → i = j
  done : ∀ n < s.accepted, s.inTable n ∨ s.closed n = 1
  fresh : ∀ n, s.accepted ≤ n → s.closed n = 0 ∧ s.freed n = 0 ∧ s.created n = false

theorem inv_init : Inv init where
  count := by
    have h : init.occupied = 0 := count_eq_zero_iff.mpr fun _ => rfl
    rw [h]
    rfl
  empty _ _ := ⟨rfl, rfl⟩
  stage _ h := absurd rfl h
  entry _ h := absurd rfl h
  owner _ _ h := by cases h
  sole _ _ _ h := absurd rfl h
  done _ h := by cases h
  fresh _ _ := ⟨rfl, rfl, rfl⟩

theorem Inv.not_queued {s : State} (h : Inv s) {n : Nat} (hn : s.accepted ≤ n) (fd : Nat) :
    s.socket fd ≠ some n := by
  intro hs
  obtain ⟨i, rfl, hi⟩ := h.owner fd n hs
  obtain ⟨m, hm⟩ := h.entry i hi
  obtain rfl : m = n := Option.some.inj (hm.socket.symm.trans hs)
  exact absurd hm.accepted (Nat.not_lt.mpr hn)

theorem Inv.goto {s : State} (h : Inv s) (pc : Pc) : Inv (s.goto pc) where
  count := h.count
  empty := h.empty
  stage := h.stage
  entry i hi := by
    obtain ⟨n, hn⟩ := h.entry i hi
    exact ⟨n, hn.accepted, hn.socket, hn.session, hn.created, hn.closed, hn.freed⟩
  owner := h.owner
  sole := h.sole
  done := h.done
  fresh := h.fresh

theorem occupied_clear {s s' : State} {i : Slot} (hi : s.clients i ≠ 0)
    (hc : s'.clients = Function.update s.clients i 0) : s'.occupied + 1 = s.occupied := by
  have h := count_update (p := fun c => c != 0) s.clients i 0
  have hb : (s.clients i != 0) = true := bne_iff_ne.mpr hi
  rwa [← hc, hb] at h

theorem occupied_fill {s t : State} {i : Slot} {client : Nat} (hi : s.clients i = 0)
    (hne : client ≠ 0) (hc : t.clients = Function.update s.clients i client) :
    t.occupied = s.occupied + 1 := by
  have h := count_update (p := fun c => c != 0) s.clients i client
  have hb : (client != 0) = true := bne_iff_ne.mpr hne
  rwa [← hc, hi, hb] at h

theorem firstFree_eq {s : State} {i : Slot} (h : s.firstFree = some i) : s.clients i = 0 := by
  simpa using List.find?_some h

theorem Inv.free {s : State} (h : Inv s) (hc : s.count < MAX_CONNS) :
    ∃ i, s.firstFree = some i := by
  cases hf : s.firstFree with
  | some i => exact ⟨i, rfl⟩
  | none =>
    have hall : ∀ i, s.clients i ≠ 0 := by
      simpa [State.firstFree] using List.find?_eq_none.mp hf
    have hcount : s.occupied = MAX_CONNS := by
      simp [State.occupied, ThreadCount.count, hall]
    have := h.count
    omega

theorem Inv.count_le {s : State} (h : Inv s) : s.count ≤ MAX_CONNS := by
  have hle : s.occupied ≤ MAX_CONNS := by
    simpa [State.occupied, ThreadCount.count] using
      Finset.card_filter_le Finset.univ fun i => (s.clients i != 0) = true
  have := h.count
  omega

theorem Inv.table {s : State} (h : Inv s) : Table s where
  count_eq := h.count
  range := ⟨by have := h.count; omega, h.count_le⟩
  occupied i := by
    constructor
    · intro hi
      by_cases hh : s.hConns i = 0
      · exact Or.inr ⟨hh, (h.stage i hi).mp hh⟩
      · exact Or.inl ⟨hh, by simpa [hh] using (h.stage i hi).not⟩
    · intro hi hc
      have he := h.empty i hc
      simp [he] at hi
  empty := h.empty
  distinct i j hi hij := by
    obtain ⟨n, hn⟩ := h.entry i hi
    exact h.sole i j n hi hn.socket (hij ▸ hi) (hij ▸ hn.socket)
  opened i hi := by
    obtain ⟨n, hn⟩ := h.entry i hi
    rw [hn.socket]
    rfl
  closed n hn ht := (h.done n hn).resolve_left ht
  free := h.free

theorem sconn_congr {s s' : State} {j : Slot} (hh : s'.hConns j = s.hConns j)
    (hr : s'.rwConns j = s.rwConns j) : s'.sconn j = s.sconn j := by
  rw [State.sconn, State.sconn, hh, hr]

theorem Inv.vacate {s s' : State} (h : Inv s) {i : Slot} {n : Nat} (hi : s.clients i ≠ 0)
    (hn : Entry s i n) (hclients : s'.clients = Function.update s.clients i 0)
    (hempty : s'.hConns i = 0 ∧ s'.rwConns i = 0)
    (hkeep : ∀ j, j ≠ i → s'.hConns j = s.hConns j ∧ s'.rwConns j = s.rwConns j)
    (hsocket : s'.socket = Function.update s.socket (s.clients i) none)
    (hclosed : s'.closed = Function.update s.closed n 1)
    (hsession : ∀ p m, m ≠ n → s.session p = some m → s'.session p = some m)
    (hfreed : ∀ m, m ≠ n → s'.freed m = s.freed m) (hcreated : s'.created = s.created)
    (haccepted : s'.accepted = s.accepted) (hcount : s'.count = s.count - 1) : Inv s' := by
  have hother {j : Slot} (hj : s'.clients j ≠ 0) :
      j ≠ i ∧ s'.clients j = s.clients j ∧ s.clients j ≠ 0 := by
    have hne : j ≠ i := by
      rintro rfl
      simp [hclients] at hj
    have he : s'.clients j = s.clients j := by rw [hclients, Function.update_of_ne hne]
    exact ⟨hne, he, he ▸ hj⟩
  have hfd {j : Slot} (hj : s.clients j ≠ 0) (hne : j ≠ i) : s.clients j ≠ s.clients i :=
    fun he => hne (h.table.distinct j i hj he)
  have hback {fd m : Nat} (hm : s'.socket fd = some m) :
      fd ≠ s.clients i ∧ s.socket fd = some m := by
    have hne : fd ≠ s.clients i := by
      rintro rfl
      simp [hsocket] at hm
    exact ⟨hne, by rwa [hsocket, Function.update_of_ne hne] at hm⟩
  refine ⟨?_, fun j hj => ?_, fun j hj => ?_, fun j hj => ?_, fun fd m hm => ?_,
    fun j k m hj hjm hk hkm => ?_, fun m hm => ?_, fun m hm => ?_⟩
  · have hocc := occupied_clear hi hclients
    have := h.count
    omega
  · by_cases hne : j = i
    · exact hne ▸ hempty
    · have he : s'.clients j = s.clients j := by rw [hclients, Function.update_of_ne hne]
      rw [(hkeep j hne).1, (hkeep j hne).2]
      exact h.empty j (he ▸ hj)
  · obtain ⟨hne, -, hj⟩ := hother hj
    rw [(hkeep j hne).1, (hkeep j hne).2]
    exact h.stage j hj
  · obtain ⟨hne, he, hj⟩ := hother hj
    obtain ⟨m, hm⟩ := h.entry j hj
    have hmn : m ≠ n := by
      rintro rfl
      exact hne (h.sole j i m hj hm.socket hi hn.socket)
    refine ⟨m, haccepted ▸ hm.accepted, ?_, ?_, hcreated ▸ hm.created, ?_, ?_⟩
    · rw [he, hsocket, Function.update_of_ne (hfd hj hne)]
      exact hm.socket
    · rw [sconn_congr (hkeep j hne).1 (hkeep j hne).2]
      exact hsession _ m hmn hm.session
    · rw [hclosed, Function.update_of_ne hmn]
      exact hm.closed
    · rw [hfreed m hmn]
      exact hm.freed
  · obtain ⟨hne, hm⟩ := hback hm
    obtain ⟨j, rfl, hj⟩ := h.owner fd m hm
    have hji : j ≠ i := fun he => hne (he ▸ rfl)
    have he : s'.clients j = s.clients j := by rw [hclients, Function.update_of_ne hji]
    exact ⟨j, he, he ▸ hj⟩
  · obtain ⟨-, hej, hj⟩ := hother hj
    obtain ⟨-, hek, hk⟩ := hother hk
    rw [hej] at hjm
    rw [hek] at hkm
    exact h.sole j k m hj (hback hjm).2 hk (hback hkm).2
  · rw [haccepted] at hm
    by_cases hmn : m = n
    · subst hmn
      exact Or.inr (by simp [hclosed])
    · rw [hclosed, Function.update_of_ne hmn]
      refine (h.done m hm).imp_left fun ⟨j, hj, hjm⟩ => ⟨j, ?_⟩
      have hji : j ≠ i := by
        rintro rfl
        exact hmn (Option.some.inj (hjm.symm.trans hn.socket))
      rw [hclients, Function.update_of_ne hji, hsocket, Function.update_of_ne (hfd hj hji)]
      exact ⟨hj, hjm⟩
  · rw [haccepted] at hm
    have hmn : m ≠ n := by
      rintro rfl
      exact absurd hn.accepted (Nat.not_lt.mpr hm)
    rw [hclosed, Function.update_of_ne hmn, hfreed m hmn, hcreated]
    exact h.fresh m hm

theorem closesocket_eq {s : State} {fd n : Nat} (h : s.socket fd = some n) :
    s.closesocket fd = { s with
      socket := Function.update s.socket fd none
      closed := Function.update s.closed n (s.closed n + 1) } := by
  simp only [State.closesocket, h]

theorem readFailed_eq {s : State} {i : Slot} {n : Nat} (h : Entry s i n) :
    s.readFailed i = { s with
      socket := Function.update s.socket (s.clients i) none
      closed := Function.update s.closed n 1
      clients := Function.update s.clients i 0
      rwConns := Function.update s.rwConns i 0
      count := s.count - 1 } := by
  simp only [State.readFailed, closesocket_eq h.socket, h.closed, Nat.zero_add]

theorem handshakeFailed_eq {s : State} {i : Slot} {n : Nat} (h : Entry s i n)
    (hc : s.hConns i ≠ 0) : s.handshakeFailed i = { s with
      session := Function.update s.session (s.hConns i) none
      freed := Function.update s.freed n 1
      socket := Function.update s.socket (s.clients i) none
      closed := Function.update s.closed n 1
      hConns := Function.update s.hConns i 0
      clients := Function.update s.clients i 0
      count := s.count - 1 } := by
  have hsconn : s.session (s.hConns i) = some n := by simpa [State.sconn, hc] using h.session
  simp only [State.handshakeFailed, State.sslFree, hsconn, State.closesocket, h.socket, h.closed,
    h.freed, Nat.zero_add]

theorem Inv.readFailed {s : State} (h : Inv s) {i : Slot} (hr : s.rwConns i ≠ 0) :
    Inv (s.readFailed i) := by
  have hi : s.clients i ≠ 0 := fun hc => hr (h.empty i hc).2
  obtain ⟨n, hn⟩ := h.entry i hi
  have hh : s.hConns i = 0 := (h.stage i hi).mpr hr
  rw [readFailed_eq hn]
  refine h.vacate hi hn rfl ⟨hh, Function.update_self _ _ _⟩ (fun j hj => ⟨rfl, ?_⟩) rfl rfl
    (fun _ _ _ hp => hp) (fun _ _ => rfl) rfl rfl rfl
  exact Function.update_of_ne hj _ _

theorem Inv.handshakeFailed {s : State} (h : Inv s) {i : Slot} (hc : s.hConns i ≠ 0) :
    Inv (s.handshakeFailed i) := by
  have hi : s.clients i ≠ 0 := fun he => hc (h.empty i he).1
  obtain ⟨n, hn⟩ := h.entry i hi
  have hr : s.rwConns i = 0 := by simpa [hc] using (h.stage i hi).not
  have hsconn : s.session (s.hConns i) = some n := by simpa [State.sconn, hc] using hn.session
  rw [handshakeFailed_eq hn hc]
  refine h.vacate hi hn rfl ⟨Function.update_self _ _ _, hr⟩ (fun j hj => ⟨?_, rfl⟩) rfl rfl
    (fun p m hm hp => ?_) (fun m hm => Function.update_of_ne hm _ _) rfl rfl rfl
  · exact Function.update_of_ne hj _ _
  · have hne : p ≠ s.hConns i := by
      rintro rfl
      exact hm (Option.some.inj (hp.symm.trans hsconn))
    simpa [hne] using hp

theorem Inv.established {s : State} (h : Inv s) {i : Slot} (hc : s.hConns i ≠ 0) :
    Inv { s with
      hConns := Function.update s.hConns i 0
      rwConns := Function.update s.rwConns i (s.hConns i) } := by
  have hi : s.clients i ≠ 0 := fun he => hc (h.empty i he).1
  refine ⟨h.count, fun j hj => ?_, fun j hj => ?_, fun j hj => ?_, h.owner, h.sole, h.done,
    h.fresh⟩
  · have hne : j ≠ i := by
      rintro rfl
      exact hi hj
    simpa [hne] using h.empty j hj
  · by_cases hne : j = i
    · subst hne
      simp [hc]
    · simpa [hne] using h.stage j hj
  · obtain ⟨n, hn⟩ := h.entry j hj
    refine ⟨n, hn.accepted, hn.socket, ?_, hn.created, hn.closed, hn.freed⟩
    have hs := hn.session
    by_cases hne : j = i
    · subst hne
      simpa [State.sconn, hc] using hs
    · simpa [State.sconn, hne] using hs

theorem Inv.refused {s : State} (h : Inv s) {client : Nat} (hs : s.socket client = none) :
    Inv ((s.openSocket client).closesocket client) := by
  have hclose : (s.openSocket client).closesocket client = { s with
      accepted := s.accepted + 1
      closed := Function.update s.closed s.accepted 1 } := by
    have hf := (h.fresh s.accepted (Nat.le_refl _)).1
    have hself : Function.update s.socket client none = s.socket := by
      rw [← hs, Function.update_eq_self]
    rw [closesocket_eq (n := s.accepted) (by simp [State.openSocket])]
    simp [State.openSocket, hf, hself]
  rw [hclose]
  refine ⟨h.count, h.empty, h.stage, fun i hi => ?_, h.owner, h.sole, fun n hn => ?_,
    fun n hn => ?_⟩
  · obtain ⟨n, hn⟩ := h.entry i hi
    refine ⟨n, Nat.lt_succ_of_lt hn.accepted, hn.socket, hn.session, hn.created, ?_, hn.freed⟩
    have hne : n ≠ s.accepted := Nat.ne_of_lt hn.accepted
    simpa [hne] using hn.closed
  · rcases Nat.lt_succ_iff_lt_or_eq.mp hn with hn | rfl
    · have hne : n ≠ s.accepted := Nat.ne_of_lt hn
      simpa [hne, State.inTable] using h.done n hn
    · exact Or.inr (Function.update_self _ _ _)
  · have hn : s.accepted + 1 ≤ n := hn
    have hne : n ≠ s.accepted := by omega
    simpa [hne] using h.fresh n (by omega)

theorem Inv.entered {s : State} (h : Inv s) {i : Slot} {client sconn : Nat}
    (hi : s.clients i = 0) (hc : client ≠ 0) (hs : s.socket client = none) (hp : sconn ≠ 0)
    (hsession : s.session sconn = none) :
    Inv { (s.openSocket client).sslNew sconn s.accepted with
      count := s.count + 1
      clients := Function.update s.clients i client
      hConns := Function.update s.hConns i sconn } := by
  have hf := h.fresh s.accepted (Nat.le_refl _)
  have hfd {j : Slot} (hj : s.clients j ≠ 0) : s.clients j ≠ client := by
    obtain ⟨n, hn⟩ := h.entry j hj
    intro he
    simpa [he, hs] using hn.socket
  have hsock {fd n : Nat} (hn : s.socket fd = some n) :
      Function.update s.socket client (some s.accepted) fd = some n := by
    have hne : fd ≠ client := by
      rintro rfl
      simp [hs] at hn
    simpa [hne] using hn
  have hslot {j : Slot} (hne : j ≠ i) {P : Nat → Prop}
      (hj : P (Function.update s.clients i client j)) : P (s.clients j) := by
    rwa [Function.update_of_ne hne] at hj
  have hnumber {j : Slot} {n : Nat} (hne : j ≠ i) (hj : Function.update s.clients i client j ≠ 0)
      (hn : Function.update s.socket client (some s.accepted)
        (Function.update s.clients i client j) = some n) :
      s.clients j ≠ 0 ∧ s.socket (s.clients j) = some n ∧ n ≠ s.accepted := by
    have hj := hslot (P := (· ≠ 0)) hne hj
    rw [Function.update_of_ne hne, Function.update_of_ne (hfd hj)] at hn
    refine ⟨hj, hn, ?_⟩
    rintro rfl
    exact h.not_queued (Nat.le_refl _) _ hn
  refine ⟨?_, fun j hj => ?_, fun j hj => ?_, fun j hj => ?_, fun fd n hn => ?_,
    fun j k n hj hjn hk hkn => ?_, fun n hn => ?_, fun n hn => ?_⟩
  · have hocc := occupied_fill (s := s) (t := { (s.openSocket client).sslNew sconn s.accepted with
      count := s.count + 1
      clients := Function.update s.clients i client
      hConns := Function.update s.hConns i sconn }) hi hc rfl
    have := h.count
    simp only [hocc]
    omega
  · have hne : j ≠ i := by
      rintro rfl
      simp [hc] at hj
    have he := h.empty j (hslot (P := (· = 0)) hne hj)
    simpa [hne, State.sslNew, State.openSocket] using he
  · by_cases hne : j = i
    · subst hne
      have he := h.empty j hi
      simpa [State.sslNew, State.openSocket, hp] using he.2
    · have hst := h.stage j (hslot (P := (· ≠ 0)) hne hj)
      simpa [hne, State.sslNew, State.openSocket] using hst
  · by_cases hne : j = i
    · subst hne
      refine ⟨s.accepted, Nat.lt_succ_self _, ?_, ?_, Function.update_self _ _ _, hf.1, hf.2.1⟩
      · simp [State.sslNew, State.openSocket]
      · simp [State.sslNew, State.openSocket, State.sconn, hp]
    · have hj := hslot (P := (· ≠ 0)) hne hj
      obtain ⟨n, hn⟩ := h.entry j hj
      have hnn : n ≠ s.accepted := Nat.ne_of_lt hn.accepted
      refine ⟨n, Nat.lt_succ_of_lt hn.accepted, ?_, ?_, ?_, hn.closed, hn.freed⟩
      · simpa [State.sslNew, State.openSocket, hne] using hsock hn.socket
      · have hsc : State.sconn { (s.openSocket client).sslNew sconn s.accepted with
            count := s.count + 1
            clients := Function.update s.clients i client
            hConns := Function.update s.hConns i sconn } j = s.sconn j :=
          sconn_congr (Function.update_of_ne hne _ _) rfl
        have hsne : s.sconn j ≠ sconn := by
          intro he
          simpa [he, hsession] using hn.session
        rw [hsc]
        simpa [State.sslNew, State.openSocket, hsne] using hn.session
      · simpa [State.sslNew, State.openSocket, hnn] using hn.created
  · by_cases hfdc : fd = client
    · exact ⟨i, by simp [hfdc], by simp [hc]⟩
    · have hn : s.socket fd = some n := by
        simpa [State.sslNew, State.openSocket, hfdc] using hn
      obtain ⟨j, rfl, hj⟩ := h.owner fd n hn
      have hne : j ≠ i := by
        rintro rfl
        exact hj hi
      exact ⟨j, by simp [hne], by simpa [hne] using hj⟩
  · have hself {m : Nat} (hm : Function.update s.socket client (some s.accepted)
        (Function.update s.clients i client i) = some m) : s.accepted = m := by
      simpa using hm
    by_cases hji : j = i <;> by_cases hki : k = i
    · exact hji.trans hki.symm
    · subst hji
      exact absurd (hself hjn).symm (hnumber hki hk hkn).2.2
    · subst hki
      exact absurd (hself hkn).symm (hnumber hji hj hjn).2.2
    · obtain ⟨hj, hjn, -⟩ := hnumber hji hj hjn
      obtain ⟨hk, hkn, -⟩ := hnumber hki hk hkn
      exact h.sole j k n hj hjn hk hkn
  · rcases Nat.lt_succ_iff_lt_or_eq.mp hn with hn | rfl
    · refine (h.done n hn).imp_left fun ⟨j, hj, hjn⟩ => ⟨j, ?_⟩
      have hne : j ≠ i := by
        rintro rfl
        exact hj hi
      simpa [State.sslNew, State.openSocket, hne, hj] using hsock hjn
    · exact Or.inl ⟨i, by simp [hc], by simp [State.sslNew, State.openSocket]⟩
  · have hn : s.accepted + 1 ≤ n := hn
    have hne : n ≠ s.accepted := by omega
    simpa [State.sslNew, State.openSocket, hne] using h.fresh n (by omega)

theorem Inv.newConnection {s t : State} (h : Inv s) {client sconn : Nat} (hc : client ≠ 0)
    (hs : s.socket client = none)
    (ht : (s.openSocket client).newConnection client sconn s.accepted = some t) : Inv t := by
  unfold State.newConnection at ht
  split at ht
  case isTrue =>
    obtain rfl := Option.some.inj ht
    exact h.refused hs
  case isFalse hcount =>
    have hlt : s.count < MAX_CONNS := lt_of_le_of_ne h.count_le hcount
    obtain ⟨i, hi⟩ := h.free hlt
    have hf : (s.openSocket client).firstFree = some i := hi
    simp only [hf] at ht
    split at ht
    case isTrue hp =>
      obtain rfl := Option.some.inj ht
      exact h.entered (firstFree_eq hi) hc hs hp.1 hp.2
    case isFalse => cases ht

theorem Inv.handshake {s : State} (h : Inv s) (i : Slot) (ret : Int) (err : SslError) :
    Inv (s.handshake i ret err) := by
  unfold State.handshake
  split_ifs with hc
  · exact h
  · exact h
  · exact h.handshakeFailed hc
  · exact h.established hc

theorem Inv.readWrite {s : State} (h : Inv s) (i : Slot) (numRead : Int) (se : SslError) :
    Inv (s.readWrite i numRead se) := by
  unfold State.readWrite
  split_ifs with hr
  · exact h
  · exact h
  · exact h.readFailed hr
  · exact h

theorem Inv.step {s t : State} {l : Label} (h : Inv s) (hs : step s l = some t)
    (ht : t.pc ≠ .returned) : Inv t := by
  cases l with
  | select listening =>
    simp only [SelectServer.step] at hs
    split at hs <;> cases hs
    exact h.goto _
  | accept client sconn =>
    simp only [SelectServer.step] at hs
    split at hs
    case h_1 =>
      obtain rfl := Option.some.inj hs
      exact absurd rfl ht
    case h_2 client _ _ =>
      split at hs
      case isTrue hc =>
        obtain ⟨u, hu, rfl⟩ := Option.map_eq_some_iff.mp hs
        exact (h.newConnection hc.1 hc.2 hu).goto _
      case isFalse => cases hs
    case h_3 => cases hs
  | handshake ret err =>
    simp only [SelectServer.step] at hs
    split at hs <;> cases hs
    exact (h.handshake _ ret err).goto _
  | read numRead se =>
    simp only [SelectServer.step] at hs
    split at hs <;> cases hs
    exact (h.readWrite _ numRead se).goto _

theorem step_not_returned {s t : State} {l : Label} (hs : step s l = some t) :
    s.pc ≠ .returned := by
  intro hp
  cases l <;> simp [SelectServer.step, hp] at hs

/-- At the start of every iteration the three arrays and the counter agree, the occupied
slots hold distinct open sockets, and what is not in the table has been closed once. -/
theorem connections_table {tr : List Label} {s : State} (h : exec step init tr = some s)
    (hp : s.pc = .select) : Table s := by
  have hinv : s.pc ≠ .returned → Inv s := by
    refine exec_invariant_of_meets (I := fun s => s.pc ≠ .returned → Inv s) ?_
      (fun _ => inv_init) (meets_true init tr) h
    exact fun s l t hI _ hs ht => (hI (step_not_returned hs)).step hs ht
  exact (hinv (by simp [hp])).table

/-- One client completes its handshake and the handshake of the next one fails; then a read
of the first one fails. -/
def twoClients : List Label :=
  [.select true, .accept (some 4) 100, .handshake 1 .wantRead, .handshake 0 .wantRead,
    .read (-1) .wantRead, .read 0 .wantRead, .select true, .accept (some 5) 101,
    .handshake 0 .wantRead, .handshake (-1) (.other 1), .read 10 .wantRead, .read 0 .wantRead,
    .select false, .handshake 0 .wantRead, .handshake 0 .wantRead, .read 0 (.other 6),
    .read 0 .wantRead]

theorem connections_table_twoClients : ∃ s, exec step init twoClients = some s ∧ Table s ∧
    s.count = 0 ∧ s.closed 0 = 1 ∧ s.closed 1 = 1 := by
  obtain ⟨s, hs, hp⟩ := exec_exists step init twoClients
    (fun s => decide (s.pc = .select) &&
      (decide (s.count = 0) && (decide (s.closed 0 = 1) && decide (s.closed 1 = 1))))
    (by decide)
  simp only [Bool.and_eq_true, decide_eq_true_eq] at hp
  exact ⟨s, hs, connections_table hs hp.1, hp.2⟩

end Cexp.SelectServer
