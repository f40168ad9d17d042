import Cexp.SslFragments
import Cexp.SslSessions

/-! The server with one client. What `CompletionThread` has made of the completions of its
stream is what a `Connection` makes of them, one after another. -/

namespace Cexp.IocpSslServer

open Transition TlsSession

/-- The client for which the accept loop has a context and no receive yet. -/
def MainPc.opening : MainPc → Option Nat
  | .accept c | .sslNew c | .sslSetFd c | .sslAccept c | .associate c | .recv c => some c
  | _ => none

def MainPc.accepted : MainPc → Option Nat
  | .sslNew c | .sslSetFd c | .sslAccept c | .associate c | .recv c => some c
  | _ => none

/-- The thread has bytes of a client, or is to post its receive again. -/
def CompletionPc.serving : CompletionPc → Bool
  | .copy _ | .setBio _ | .bioWrite _ _ | .sslRead | .recv => true
  | _ => false

/-- How many can hand the buffer of client `c` on: nobody has it yet, the accept loop, the
kernel, the port, or the thread. -/
def State.holders (s : State) (c : Nat) : Nat :=
  ((s.client c).ctx == .unused).toNat + (s.main.opening == some c).toNat +
    (s.client c).outstanding.toNat + s.packets.countP (fun p => p.key == some c) +
    s.pc.serving.toNat

/-- The completed bytes of client `c` that have not been read. -/
def State.pending (s : State) (c : Nat) : List (List Byte) :=
  (match s.pc with
    | .copy n => [(s.client c).buffer.take n]
    | .setBio edata | .bioWrite _ edata => [edata]
    | .sslRead => [(s.client c).session.bio.getD []]
    | _ => []) ++
  (s.packets.filter fun p => p.success && p.transferred != 0).map fun p =>
    (s.client c).buffer.take p.transferred

/-- The session of client `c` is `x`, or on its way from `x` to its next `SSL_read`. -/
def State.follows (s : State) (c : Nat) (x : Session) : Prop :=
  match s.pc with
  | .bioWrite _ _ => (s.client c).session = x.setBio
  | .sslRead => ∃ edata, (s.client c).session = x.setBio.bioWrite edata
  | _ => (s.client c).session = x

/-- Nobody but client `c` is accepted. -/
def onlyClient (c : Nat) (s : State) : Label → Bool
  | .accept true => s.main = .accept c
  | _ => true

def completions (c : Nat) (_ : State) : Label → List (List Byte)
  | .arrive d chunk => if d = c then [chunk] else []
  | _ => []

/-- Client `c` has the server to itself. -/
structure Lone (c : Nat) (s : State) : Prop where
  holders : s.holders c ≤ 1
  outstanding : ∀ d, (s.client d).outstanding = true → d = c
  packet : ∀ p ∈ s.packets, p.key = some c ∨ p.transferred = 0
  serving : s.pc.serving = true → s.clientCtx = some c
  memBio : ∀ d edata, s.pc = .bioWrite d edata → d = c
  accepted : ∀ d, s.main.accepted = some d → d = c
  ssl : ∀ d, s.ssl = some d → d = c

theorem lone_init (c : Nat) : Lone c init where
  holders := by simp [State.holders, init, MainPc.opening, CompletionPc.serving]
  outstanding _ h := by cases h
  packet _ h := by cases h
  serving h := by cases h
  memBio _ _ h := by cases h
  accepted _ h := by cases h
  ssl _ h := by cases h

/-- No context becomes unused, and no receive is posted or completed. -/
structure KeepsReceives (f g : Nat → Client) : Prop where
  ctx : ∀ d, (g d).ctx = .unused → (f d).ctx = .unused
  outstanding : ∀ d, (g d).outstanding = (f d).outstanding

theorem KeepsReceives.refl (f : Nat → Client) : KeepsReceives f f := ⟨fun _ => id, fun _ => rfl⟩

theorem keepsReceives_update {f : Nat → Client} {d : Nat} {x : Client}
    (hx : x.ctx = .unused → (f d).ctx = .unused) (ho : x.outstanding = (f d).outstanding) :
    KeepsReceives f (Function.update f d x) := by
  refine ⟨fun e => ?_, fun e => ?_⟩ <;> by_cases he : e = d
  · subst he
    simpa using hx
  · simp [he]
  · subst he
    simpa using ho
  · simp [he]

theorem keepsReceives_freeOverlapped (s : State) :
    KeepsReceives s.client s.freeOverlapped.client := by
  unfold State.freeOverlapped
  split
  · exact .refl _
  · exact keepsReceives_update id rfl

theorem Lone.main {c : Nat} {s t : State} (h : Lone c s) (hpc : t.pc = s.pc)
    (hcc : t.clientCtx = s.clientCtx) (hk : KeepsReceives s.client t.client)
    (hq : t.packets = s.packets ∨ t.packets = s.packets ++ [⟨0, none, none, true⟩])
    (hop : t.main.opening = some c → s.main.opening = some c)
    (ha : ∀ d, t.main.accepted = some d → s.main.accepted = some d ∨ d = c)
    (hs : ∀ d, t.ssl = some d → s.ssl = some d ∨ d = c) : Lone c t where
  holders := by
    have hcount : t.packets.countP (fun p => p.key == some c) =
        s.packets.countP (fun p => p.key == some c) := by
      rcases hq with hq | hq <;> simp [hq]
    have hctx : ((t.client c).ctx == .unused).toNat ≤ ((s.client c).ctx == .unused).toNat :=
      Bool.toNat_le_toNat fun hu => beq_iff_eq.mpr (hk.ctx c (eq_of_beq hu))
    have hopen : (t.main.opening == some c).toNat ≤ (s.main.opening == some c).toNat :=
      Bool.toNat_le_toNat fun ho => beq_iff_eq.mpr (hop (eq_of_beq ho))
    have := h.holders
    simp only [State.holders, hcount, hpc, hk.outstanding] at this ⊢
    omega
  outstanding d hd := h.outstanding d (hk.outstanding d ▸ hd)
  packet p hm := by
    rcases hq with hq | hq
    · exact h.packet p (hq ▸ hm)
    · rw [hq, List.mem_append, List.mem_singleton] at hm
      rcases hm with hm | rfl
      · exact h.packet p hm
      · exact Or.inr rfl
  serving hv := by
    rw [hpc] at hv
    rw [hcc]
    exact h.serving hv
  memBio d edata hd := h.memBio d edata (hpc ▸ hd)
  accepted d hd := (ha d hd).elim (h.accepted d) id
  ssl d hd := (hs d hd).elim (h.ssl d) id

theorem Lone.stay {c : Nat} {s t : State} (h : Lone c s) (hpc : t.pc = s.pc)
    (hcc : t.clientCtx = s.clientCtx) (hk : KeepsReceives s.client t.client)
    (hq : t.packets = s.packets) (hop : t.main.opening = s.main.opening)
    (ha : t.main.accepted = s.main.accepted) (hs : t.ssl = s.ssl) : Lone c t :=
  h.main hpc hcc hk (Or.inl hq) (fun ho => hop ▸ ho) (fun _ hd => Or.inl (ha ▸ hd))
    fun _ hd => Or.inl (hs ▸ hd)

theorem Lone.leave {c : Nat} {s t : State} (h : Lone c s) (hpc : t.pc = s.pc)
    (hcc : t.clientCtx = s.clientCtx) (hk : KeepsReceives s.client t.client)
    (hq : t.packets = s.packets ∨ t.packets = s.packets ++ [⟨0, none, none, true⟩])
    (hop : t.main.opening = none) (ha : t.main.accepted = none) (hs : t.ssl = s.ssl) : Lone c t :=
  h.main hpc hcc hk hq (fun ho => by simp [hop] at ho) (fun _ hd => by simp [ha] at hd)
    fun _ hd => Or.inl (hs ▸ hd)

theorem Lone.mainStep {c : Nat} {s t : State} (h : Lone c s) (hs : mainStep s = some t) :
    Lone c t := by
  unfold IocpSslServer.mainStep at hs
  split at hs
  case h_8 => cases hs
  case h_1 d hm =>
    obtain rfl := Option.some.inj hs
    have hd := h.accepted d (by rw [hm]; rfl)
    exact h.main rfl rfl (keepsReceives_update id rfl) (Or.inl rfl)
      (by rw [hm]; exact id) (fun k hk => Or.inl (by rw [hm]; exact hk))
      fun k hk => Or.inr ((Option.some.inj hk).symm.trans hd)
  case h_2 d hm =>
    obtain ⟨e, he, rfl⟩ := Option.map_eq_some_iff.mp hs
    exact h.stay rfl rfl (keepsReceives_update id rfl) rfl (by rw [hm]; rfl) (by rw [hm]; rfl) rfl
  case h_3 d hm =>
    obtain rfl := Option.some.inj hs
    exact h.stay rfl rfl (.refl _) rfl (by rw [hm]; rfl) (by rw [hm]; rfl) rfl
  case h_4 d hm =>
    obtain rfl := Option.some.inj hs
    exact h.stay rfl rfl (keepsReceives_update id rfl) rfl (by rw [hm]; rfl) (by rw [hm]; rfl) rfl
  case h_5 d hm =>
    obtain rfl := Option.some.inj hs
    exact h.leave rfl rfl (keepsReceives_update id rfl) (Or.inl rfl) rfl rfl rfl
  case h_6 hm =>
    obtain rfl := Option.some.inj hs
    exact h.leave rfl rfl (.refl _) (Or.inr rfl) rfl rfl rfl
  case h_7 hm =>
    obtain rfl := Option.some.inj hs
    exact h.leave rfl rfl (.refl _) (Or.inl rfl) rfl rfl rfl

theorem Lone.thread {c : Nat} {s t : State} (h : Lone c s) (hm : t.main = s.main)
    (hs : t.ssl = s.ssl) (hk : KeepsReceives s.client t.client)
    (hq : t.packets.countP (fun p => p.key == some c) + t.pc.serving.toNat ≤
      s.packets.countP (fun p => p.key == some c) + s.pc.serving.toNat)
    (hp : ∀ p ∈ t.packets, p ∈ s.packets) (hv : t.pc.serving = true → t.clientCtx = some c)
    (hb : ∀ d edata, t.pc = .bioWrite d edata → d = c) : Lone c t where
  holders := by
    have hctx : ((t.client c).ctx == .unused).toNat ≤ ((s.client c).ctx == .unused).toNat :=
      Bool.toNat_le_toNat fun hu => beq_iff_eq.mpr (hk.ctx c (eq_of_beq hu))
    have := h.holders
    simp only [State.holders, hm, hk.outstanding] at this ⊢
    omega
  outstanding d hd := h.outstanding d (hk.outstanding d ▸ hd)
  packet p hm := h.packet p (hp p hm)
  serving := hv
  memBio := hb
  accepted d hd := h.accepted d (hm ▸ hd)
  ssl d hd := h.ssl d (hs ▸ hd)

theorem Lone.getStatus {c : Nat} {s t : State} (h : Lone c s) (hs : getStatus s = some t) :
    Lone c t := by
  unfold IocpSslServer.getStatus at hs
  split at hs
  case h_2 => cases hs
  case h_1 hpc =>
    split at hs
    case isTrue =>
      obtain rfl := Option.some.inj hs
      exact h.thread rfl rfl (.refl _) (by simp [CompletionPc.serving]) (fun _ => id)
        (fun hv => by cases hv) fun _ _ hb => by cases hb
    case isFalse =>
      split at hs
      case h_1 => cases hs
      case h_2 p rest hq =>
        obtain rfl := Option.some.inj hs
        have hkey : p.transferred = 0 ∨ p.key = some c := (h.packet p (by simp [hq])).symm
        generalize hn : (if p.success = false then CompletionPc.exitClose
          else if p.transferred = 0 then .emptyTransfer else .copy p.transferred) = pc
        have hserving : pc.serving = true → p.key = some c := by
          intro hv
          refine hkey.resolve_left fun h0 => ?_
          cases hsc : p.success <;> simp [← hn, hsc, h0, CompletionPc.serving] at hv
        refine h.thread rfl rfl (.refl _) ?_ (fun q hm => ?_) hserving fun d edata hb => ?_
        · have hle := Bool.toNat_le pc.serving
          by_cases hc : p.key = some c
          · simpa [hq, hpc, hc, CompletionPc.serving] using hle
          · simp [hq, hpc, hc, Bool.eq_false_iff.mpr fun hv => hc (hserving hv)]
        · simp only [hq]
          exact List.mem_cons_of_mem _ hm
        · have hb : pc = .bioWrite d edata := hb
          rw [hb] at hn
          split at hn
          · cases hn
          · split at hn <;> cases hn

theorem freeOverlapped_main (s : State) : s.freeOverlapped.main = s.main := by
  unfold State.freeOverlapped
  split <;> rfl

theorem Lone.completionStep {c : Nat} {s t : State} (h : Lone c s)
    (hs : completionStep s = some t) : Lone c t := by
  obtain ⟨hpackets, hssl⟩ := freeOverlapped_same s
  have hfree {pc : CompletionPc} (hp : pc.serving = false) :
      Lone c { s.freeOverlapped with pc := pc } := by
    refine h.thread (freeOverlapped_main s) hssl (keepsReceives_freeOverlapped s) ?_
      (fun p hm => hpackets ▸ hm) (fun hv => ?_) fun d edata hb => ?_
    · simp [hpackets, hp]
    · simp [hp] at hv
    · have hb : pc = .bioWrite d edata := hb
      simp [hb, CompletionPc.serving] at hp
  have hmove {pc : CompletionPc} {cl : Nat → Client} {ctx : Option Nat}
      (hcl : KeepsReceives s.client cl) (hp : pc.serving = false) :
      Lone c { s with client := cl, pc := pc, clientCtx := ctx } := by
    refine h.thread rfl rfl hcl ?_ (fun _ => id) (fun hv => ?_) fun d edata hb => ?_
    · simp [hp]
    · simp [hp] at hv
    · have hb : pc = .bioWrite d edata := hb
      simp [hb, CompletionPc.serving] at hp
  have hserve {pc : CompletionPc} {cl : Nat → Client} (hcl : KeepsReceives s.client cl)
      (hp : s.pc.serving = true) (hb : ∀ d edata, pc = .bioWrite d edata → d = c) :
      Lone c { s with client := cl, pc := pc } := by
    refine h.thread rfl rfl hcl ?_ (fun _ => id) (fun _ => h.serving hp) hb
    have := Bool.toNat_le pc.serving
    simp only [hp, Bool.toNat_true]
    omega
  unfold IocpSslServer.completionStep at hs
  split at hs
  case h_12 => cases hs
  case h_6 edata d hp hc =>
    obtain ⟨e, he, rfl⟩ := Option.map_eq_some_iff.mp hs
    refine hserve (keepsReceives_update id rfl) (by rw [hp]; rfl) fun k _ hk => ?_
    cases hk
    exact h.ssl e he
  case h_5 n d hp hc =>
    obtain rfl := Option.some.inj hs
    exact hserve (.refl _) (by rw [hp]; rfl) fun _ _ hk => by cases hk
  case h_7 d edata k hp hc =>
    obtain rfl := Option.some.inj hs
    exact hserve (keepsReceives_update id rfl) (by rw [hp]; rfl) fun _ _ hk => by cases hk
  case h_1 | h_2 | h_11 =>
    obtain rfl := Option.some.inj hs
    exact hfree rfl
  case h_3 | h_8 =>
    obtain rfl := Option.some.inj hs
    exact hmove (keepsReceives_update id rfl) rfl
  case h_4 | h_10 =>
    obtain rfl := Option.some.inj hs
    exact hmove (keepsReceives_update (fun hx => by cases hx) rfl) rfl
  case h_9 =>
    obtain rfl := Option.some.inj hs
    exact hmove (.refl _) rfl

theorem Lone.handOn {c : Nat} {s t : State} (h : Lone c s) (hh : t.holders c ≤ 1)
    (ho : ∀ d, d ≠ c → (t.client d).outstanding = (s.client d).outstanding)
    (hp : ∀ p ∈ t.packets, p ∈ s.packets ∨ p.key = some c)
    (hpc : t.pc = s.pc ∨ t.pc = .getStatus) (hcc : t.clientCtx = s.clientCtx) (hs : t.ssl = s.ssl)
    (ha : ∀ d, t.main.accepted = some d → s.main.accepted = some d) : Lone c t where
  holders := hh
  outstanding d hd := by
    by_contra hc
    exact hc (h.outstanding d (ho d hc ▸ hd))
  packet p hm := (hp p hm).elim (h.packet p) Or.inl
  serving hv := by
    rcases hpc with hpc | hpc
    · rw [hpc] at hv
      exact hcc.trans (h.serving hv)
    · rw [hpc] at hv
      cases hv
  memBio d edata hd := by
    rcases hpc with hpc | hpc
    · exact h.memBio d edata (hpc ▸ hd)
    · simp [hpc] at hd
  accepted d hd := h.accepted d (ha d hd)
  ssl d hd := h.ssl d (hs ▸ hd)

theorem Lone.complete {c d : Nat} {s t : State} {p : IocpServer.Packet} (h : Lone c s)
    (hk : p.key = some d) (hs : s.complete d p = some t) : d = c ∧ Lone c t ∧
      (s.client c).outstanding = true ∧
      t = { s.setClient c { s.client c with outstanding := false } with
        packets := s.packets ++ [p] } := by
  unfold State.complete at hs
  split at hs
  case isFalse => cases hs
  case isTrue ho =>
    obtain rfl := Option.some.inj hs
    obtain rfl := h.outstanding d ho.2
    refine ⟨rfl, ?_, ho.2, rfl⟩
    refine h.handOn ?_ (fun e he => ?_) (fun q hq => ?_) (Or.inl rfl) rfl rfl fun _ => id
    · have := h.holders
      simp only [State.holders, ho.2, State.setClient, Function.update_self, List.countP_append,
        List.countP_singleton, hk, beq_self_eq_true, if_true, Bool.toNat_true,
        Bool.toNat_false] at this ⊢
      omega
    · simp [State.setClient, he]
    · rw [List.mem_append, List.mem_singleton] at hq
      rcases hq with hq | rfl
      · exact Or.inl hq
      · exact Or.inr hk

variable {decrypt : Nat → Nat → List Byte → Option (List Byte)}

theorem Lone.step {c : Nat} {s t : State} {l : Label} (h : Lone c s)
    (hok : onlyClient c s l = true) (hs : step decrypt s l = some t) : Lone c t := by
  cases l with
  | main => exact h.mainStep hs
  | getStatus => exact h.getStatus hs
  | completion => exact h.completionStep hs
  | calloc d =>
    simp only [IocpSslServer.step] at hs
    split at hs
    case h_2 => cases hs
    case h_1 hm =>
      split at hs
      case isFalse => cases hs
      case isTrue hu =>
        obtain rfl := Option.some.inj hs
        refine h.handOn ?_ (fun e he => ?_) (fun _ => Or.inl) (Or.inl rfl) rfl rfl fun e he => ?_
        · have := h.holders
          by_cases hd : d = c
          · subst hd
            have hlive : (IocpServer.Heap.live == .unused) = false := rfl
            simpa [State.holders, State.setClient, MainPc.opening, hm, hu, hlive] using this
          · have hd' : c ≠ d := Ne.symm hd
            have hne : (d == c) = false := beq_false_of_ne hd
            simpa [State.holders, State.setClient, MainPc.opening, hm, hd', hne] using this
        · by_cases hd : e = d
          · subst hd
            simp [State.setClient]
          · simp [State.setClient, hd]
        · cases he
  | accept ok =>
    simp only [IocpSslServer.step] at hs
    split at hs
    case h_2 => cases hs
    case h_1 d hm =>
      cases ok with
      | true =>
        obtain rfl : d = c := by simpa [onlyClient, hm] using hok
        obtain rfl := Option.some.inj hs
        exact h.main rfl rfl (keepsReceives_update id rfl) (Or.inl rfl) (by rw [hm]; exact id)
          (fun e he => Or.inr (Option.some.inj he).symm) fun _ => Or.inl
      | false =>
        obtain rfl := Option.some.inj hs
        exact h.leave rfl rfl (.refl _) (Or.inl rfl) rfl rfl rfl
  | recvFirst ok =>
    simp only [IocpSslServer.step] at hs
    split at hs
    case h_2 => cases hs
    case h_1 d hm =>
      obtain rfl := h.accepted d (by rw [hm]; rfl)
      cases ok with
      | true =>
        obtain rfl := Option.some.inj hs
        refine h.handOn ?_ (fun e he => ?_) (fun _ => Or.inl) (Or.inl rfl) rfl rfl fun e he => ?_
        · have := h.holders
          simp only [State.holders, State.setClient, Function.update_self, hm, MainPc.opening,
            beq_self_eq_true, Bool.toNat_true, Option.none_beq_some, Bool.toNat_false] at this ⊢
          omega
        · simp [State.setClient, he]
        · cases he
      | false =>
        obtain rfl := Option.some.inj hs
        exact h.leave rfl rfl (keepsReceives_update id rfl) (Or.inl rfl) rfl rfl rfl
  | waitCompletion =>
    simp only [IocpSslServer.step] at hs
    split at hs <;> cases hs
    exact h.leave rfl rfl (.refl _) (Or.inl rfl) rfl rfl rfl
  | sslRead direct =>
    simp only [IocpSslServer.step] at hs
    split at hs
    case h_2 => cases hs
    case h_1 d hp hd =>
      split at hs <;> cases hs
      · exact h.thread rfl rfl (.refl _) (by simp [hp, CompletionPc.serving]) (fun _ => id)
          (fun _ => h.serving (by rw [hp]; rfl)) fun _ _ hb => by cases hb
      · exact h.thread rfl rfl (keepsReceives_update id rfl)
          (by simp [hp, CompletionPc.serving, State.setSession, State.setClient])
          (fun _ => id) (fun _ => h.serving (by rw [hp]; rfl)) fun _ _ hb => by cases hb
  | recvAgain ok =>
    simp only [IocpSslServer.step] at hs
    split at hs
    case h_2 => cases hs
    case h_1 d hp hd =>
      obtain rfl := Option.some.inj (hd.symm.trans (h.serving (by rw [hp]; rfl)))
      split at hs
      · split at hs <;> cases hs
        refine h.handOn ?_ (fun e he => ?_) (fun _ => Or.inl) (Or.inr rfl) rfl rfl fun _ => id
        · have := h.holders
          simp only [State.holders, State.setClient, Function.update_self, hp, CompletionPc.serving,
            Bool.toNat_true, Bool.toNat_false] at this ⊢
          omega
        · simp [State.setClient, he]
      · cases hs
        exact h.thread rfl rfl (.refl _) (by simp [CompletionPc.serving]) (fun _ => id)
          (fun hv => by cases hv) fun _ _ hb => by cases hb
  | arrive d chunk =>
    simp only [IocpSslServer.step] at hs
    split at hs
    case isFalse => cases hs
    case isTrue =>
      obtain ⟨u, hu, rfl⟩ := Option.map_eq_some_iff.mp hs
      obtain ⟨rfl, hl, -⟩ := h.complete rfl hu
      exact hl.stay rfl rfl (keepsReceives_update id rfl) rfl rfl rfl rfl
  | peerClosed d | fail d => exact (h.complete rfl hs).2.1

/-- The client has not been served yet. -/
def State.fresh (s : State) (c : Nat) : Prop :=
  (s.client c).ctx = .unused ∨ s.main.opening = some c

structure Follows (decrypt : Nat → Nat → List Byte → Option (List Byte)) (c : Nat)
    (h : List (List Byte)) (s : State) : Prop where
  fresh : s.fresh c → h = [] ∧ (s.client c).session = Session.new
  run : ∃ done x, h = done ++ s.pending c ∧
    exec (receive (decrypt c)) connected done = some x ∧ x.display = s.display ∧
    s.follows c x.session

theorem follows_init (c : Nat) : Follows decrypt c [] init where
  fresh _ := ⟨rfl, rfl⟩
  run := ⟨[], connected, rfl, rfl, rfl, rfl⟩

theorem pending_of_idle {s : State} {c : Nat} (h : s.pc.hasBytes = false) :
    s.pending c = (s.packets.filter fun p => p.success && p.transferred != 0).map fun p =>
      (s.client c).buffer.take p.transferred := by
  unfold State.pending
  cases hp : s.pc <;> simp_all [CompletionPc.hasBytes]

theorem follows_of_idle {s : State} {c : Nat} {x : Session} (h : s.pc.hasBytes = false) :
    s.follows c x ↔ (s.client c).session = x := by
  unfold State.follows
  cases hp : s.pc <;> simp_all [CompletionPc.hasBytes]

structure KeepsBytes (f g : Nat → Client) (c : Nat) : Prop where
  buffer : (g c).buffer = (f c).buffer
  session : (g c).session = (f c).session

theorem KeepsBytes.refl (f : Nat → Client) (c : Nat) : KeepsBytes f f c := ⟨rfl, rfl⟩

theorem keepsBytes_update {f : Nat → Client} {c d : Nat} {x : Client}
    (hb : x.buffer = (f d).buffer) (hs : x.session = (f d).session) :
    KeepsBytes f (Function.update f d x) c := by
  by_cases hc : c = d
  · subst hc
    exact ⟨by simpa using hb, by simpa using hs⟩
  · exact ⟨by simp [hc], by simp [hc]⟩

theorem keepsBytes_freeOverlapped (s : State) (c : Nat) :
    KeepsBytes s.client s.freeOverlapped.client c := by
  unfold State.freeOverlapped
  split
  · exact .refl _ _
  · exact keepsBytes_update rfl rfl

theorem Follows.frame {c : Nat} {h : List (List Byte)} {s t : State} (hf : Follows decrypt c h s)
    (hpc : t.pc = s.pc ∨ s.pc.hasBytes = false ∧ t.pc.hasBytes = false)
    (hk : KeepsBytes s.client t.client c)
    (hq : t.packets.filter (fun p => p.success && p.transferred != 0) =
      s.packets.filter fun p => p.success && p.transferred != 0)
    (hd : t.display = s.display) (hfr : t.fresh c → s.fresh c) : Follows decrypt c h t := by
  refine ⟨fun ht => ?_, ?_⟩
  · rw [hk.session]
    exact hf.fresh (hfr ht)
  · obtain ⟨done, x, hh, hx, hdx, hfx⟩ := hf.run
    refine ⟨done, x, ?_, hx, hdx.trans hd.symm, ?_⟩
    · rcases hpc with hpc | ⟨hs, ht⟩
      · simpa only [State.pending, hpc, hk.buffer, hk.session, hq] using hh
      · rw [pending_of_idle hs] at hh
        rw [pending_of_idle ht, hq, hk.buffer]
        exact hh
    · rcases hpc with hpc | ⟨hs, ht⟩
      · simpa only [State.follows, hpc, hk.session] using hfx
      · rw [follows_of_idle hs] at hfx
        rw [follows_of_idle ht, hk.session]
        exact hfx

theorem Lone.idle_of_fresh {c : Nat} {s : State} (h : Lone c s) (hf : s.fresh c) :
    s.pc.serving = false ∧ (s.client c).outstanding = false := by
  have hh := h.holders
  have h1 : 1 ≤ ((s.client c).ctx == .unused).toNat + (s.main.opening == some c).toNat := by
    rcases hf with hf | hf <;> simp [hf]
  simp only [State.holders] at hh
  exact ⟨Bool.toNat_eq_zero.mp (by omega), Bool.toNat_eq_zero.mp (by omega)⟩

theorem CompletionPc.hasBytes_of_idle {p : CompletionPc} (h : p.serving = false) :
    p.hasBytes = false := by
  cases p <;> simp_all [serving, hasBytes]

theorem ctx_update {f : Nat → Client} {c d : Nat} {x : Client} (hx : x.ctx = (f d).ctx)
    (h : (Function.update f d x c).ctx = .unused) : (f c).ctx = .unused := by
  by_cases hc : c = d
  · subst hc
    simpa [hx] using h
  · simpa [hc] using h

theorem fresh_of {c : Nat} {s t : State} (hk : KeepsReceives s.client t.client)
    (hop : t.main.opening = some c → s.main.opening = some c) (h : t.fresh c) : s.fresh c :=
  h.imp (hk.ctx c) hop

theorem Follows.mainStep {c : Nat} {h : List (List Byte)} {s t : State}
    (hf : Follows decrypt c h s) (hl : Lone c s) (hs : mainStep s = some t) :
    Follows decrypt c h t := by
  unfold IocpSslServer.mainStep at hs
  split at hs
  case h_8 => cases hs
  case h_1 d hm =>
    obtain rfl := Option.some.inj hs
    obtain rfl := hl.accepted d (by rw [hm]; rfl)
    have hfr : s.fresh d := Or.inr (by rw [hm]; rfl)
    exact hf.frame (Or.inl rfl) (keepsBytes_update rfl (hf.fresh hfr).2.symm) rfl rfl
      fun _ => hfr
  case h_2 d hm =>
    obtain ⟨e, he, rfl⟩ := Option.map_eq_some_iff.mp hs
    obtain rfl := hl.accepted d (by rw [hm]; rfl)
    obtain rfl := hl.ssl e he
    have hfr : s.fresh e := Or.inr (by rw [hm]; rfl)
    have hnew := (hf.fresh hfr).2
    exact hf.frame (Or.inl rfl) (keepsBytes_update rfl (by simp [hnew, Session.new])) rfl rfl
      fun _ => hfr
  case h_3 d hm =>
    obtain rfl := Option.some.inj hs
    exact hf.frame (Or.inl rfl) (.refl _ _) rfl rfl (fresh_of (.refl _) (by rw [hm]; exact id))
  case h_4 d hm =>
    obtain rfl := Option.some.inj hs
    exact hf.frame (Or.inl rfl) (keepsBytes_update rfl rfl) rfl rfl
      (fresh_of (keepsReceives_update id rfl) (by rw [hm]; exact id))
  case h_5 d hm =>
    obtain rfl := Option.some.inj hs
    exact hf.frame (Or.inl rfl) (keepsBytes_update rfl rfl) rfl rfl
      (fresh_of (keepsReceives_update id rfl) fun he => by cases he)
  case h_6 hm =>
    obtain rfl := Option.some.inj hs
    exact hf.frame (Or.inl rfl) (.refl _ _) (by simp) rfl (fresh_of (.refl _) fun he => by cases he)
  case h_7 hm =>
    obtain rfl := Option.some.inj hs
    exact hf.frame (Or.inl rfl) (.refl _ _) rfl rfl (fresh_of (.refl _) fun he => by cases he)

theorem Follows.getStatus {c : Nat} {h : List (List Byte)} {s t : State}
    (hf : Follows decrypt c h s) (hs : getStatus s = some t) : Follows decrypt c h t := by
  unfold IocpSslServer.getStatus at hs
  split at hs
  case h_2 => cases hs
  case h_1 hpc =>
    have hidle : s.pc.hasBytes = false := by rw [hpc]; rfl
    split at hs
    case isTrue =>
      obtain rfl := Option.some.inj hs
      exact hf.frame (Or.inr ⟨hidle, rfl⟩) (.refl _ _) rfl rfl id
    case isFalse =>
      split at hs
      case h_1 => cases hs
      case h_2 p rest hq =>
        obtain rfl := Option.some.inj hs
        by_cases hp : p.success = true ∧ p.transferred ≠ 0
        · -- The packet's bytes are the thread's from now on.
          obtain ⟨done, x, hh, hx, hdx, hfx⟩ := hf.run
          refine ⟨hf.fresh, done, x, ?_, hx, hdx, ?_⟩
          · rw [pending_of_idle hidle, hq] at hh
            simpa [State.pending, hp] using hh
          · rw [follows_of_idle hidle] at hfx
            simpa [State.follows, hp] using hfx
        · refine hf.frame (Or.inr ⟨hidle, ?_⟩) (.refl _ _) ?_ rfl id
          · simp only
            split
            · rfl
            · rw [if_pos (by simp_all)]
              rfl
          · simp only [hq]
            rw [List.filter_cons_of_neg (by simpa using hp)]

theorem Follows.completionStep {c : Nat} {h : List (List Byte)} {s t : State}
    (hf : Follows decrypt c h s) (hl : Lone c s) (hs : completionStep s = some t) :
    Follows decrypt c h t := by
  have hfree {pc : CompletionPc} (hi : s.pc.hasBytes = false) (hp : pc.hasBytes = false) :
      Follows decrypt c h { s.freeOverlapped with pc := pc } := by
    have hsame : s.freeOverlapped.packets = s.packets ∧ s.freeOverlapped.display = s.display := by
      unfold State.freeOverlapped
      split <;> exact ⟨rfl, rfl⟩
    refine hf.frame (Or.inr ⟨hi, hp⟩) (keepsBytes_freeOverlapped s c) (by rw [hsame.1]) hsame.2 ?_
    exact fresh_of (keepsReceives_freeOverlapped s) fun he => freeOverlapped_main s ▸ he
  have hmove {pc : CompletionPc} {cl : Nat → Client} {ctx : Option Nat}
      (hi : s.pc.hasBytes = false) (hp : pc.hasBytes = false) (hk : KeepsBytes s.client cl c)
      (hr : KeepsReceives s.client cl) :
      Follows decrypt c h { s with client := cl, pc := pc, clientCtx := ctx } :=
    hf.frame (Or.inr ⟨hi, hp⟩) hk rfl rfl (fresh_of hr id)
  obtain ⟨done, x, hh, hx, hdx, hfx⟩ := hf.run
  have hnot (hv : s.pc.serving = true) {t : State} (hc : t.fresh c → s.fresh c) : ¬ t.fresh c :=
    fun ht => by simp [(hl.idle_of_fresh (hc ht)).1] at hv
  unfold IocpSslServer.completionStep at hs
  split at hs
  case h_12 => cases hs
  case h_1 hp hc | h_2 hp hc =>
    obtain rfl := Option.some.inj hs
    exact hfree (by rw [hp]; rfl) rfl
  case h_11 hp =>
    obtain rfl := Option.some.inj hs
    exact hfree (by rw [hp]; rfl) rfl
  case h_3 d hp hc | h_8 d hp hc =>
    obtain rfl := Option.some.inj hs
    exact hmove (by rw [hp]; rfl) rfl (keepsBytes_update rfl rfl) (keepsReceives_update id rfl)
  case h_4 d hp hc | h_10 d hp hc =>
    obtain rfl := Option.some.inj hs
    exact hmove (by rw [hp]; rfl) rfl (keepsBytes_update rfl rfl)
      (keepsReceives_update (fun he => by cases he) rfl)
  case h_9 hp hc =>
    obtain rfl := Option.some.inj hs
    exact hmove (by rw [hp]; rfl) rfl (.refl _ _) (.refl _)
  case h_5 n d hp hc =>
    obtain rfl := Option.some.inj hs
    have hv : s.pc.serving = true := by rw [hp]; rfl
    obtain rfl := Option.some.inj (hc.symm.trans (hl.serving hv))
    refine ⟨fun ht => absurd ht (hnot hv (fresh_of (.refl _) id)), done, x, ?_, hx, hdx, ?_⟩
    · simpa only [State.pending, hp] using hh
    · simpa only [State.follows, hp] using hfx
  case h_6 edata k hp hc =>
    obtain ⟨d, hd, rfl⟩ := Option.map_eq_some_iff.mp hs
    have hv : s.pc.serving = true := by rw [hp]; rfl
    obtain rfl := hl.ssl d hd
    refine ⟨fun ht => absurd ht (hnot hv (fresh_of (keepsReceives_update id rfl) id)), done, x, ?_,
      hx, hdx, ?_⟩
    · simpa [State.pending, hp, State.setSession, State.setClient] using hh
    · simp only [State.follows, hp] at hfx
      simp [State.follows, State.setSession, State.setClient, hfx]
  case h_7 d edata k hp hc =>
    obtain rfl := Option.some.inj hs
    have hv : s.pc.serving = true := by rw [hp]; rfl
    obtain rfl := hl.memBio d edata hp
    simp only [State.follows, hp] at hfx
    refine ⟨fun ht => absurd ht (hnot hv (fresh_of (keepsReceives_update id rfl) id)), done, x, ?_,
      hx, hdx, ?_⟩
    · simpa [State.pending, hp, State.setSession, State.setClient, hfx, Session.setBio,
        Session.bioWrite] using hh
    · exact ⟨edata, by simp [State.setSession, State.setClient, hfx]⟩

/-- The one step that takes bytes: the connection receives them. -/
theorem Follows.sslRead {c : Nat} {h : List (List Byte)} {s t : State} {direct : Option (List Byte)}
    (hf : Follows decrypt c h s) (hl : Lone c s) (hs : step decrypt s (.sslRead direct) = some t) :
    Follows decrypt c h t := by
  obtain ⟨done, x, hh, hx, hdx, hfx⟩ := hf.run
  simp only [IocpSslServer.step] at hs
  split at hs
  case h_2 => cases hs
  case h_1 d hp hd =>
    obtain rfl := hl.ssl d hd
    simp only [State.follows, hp] at hfx
    obtain ⟨edata, hse⟩ := hfx
    have hbio : (s.client d).session.bio = some edata := by
      simp [hse, Session.setBio, Session.bioWrite]
    rw [if_neg (by simp [hbio])] at hs
    obtain rfl := Option.some.inj hs
    have hv : s.pc.serving = true := by rw [hp]; rfl
    refine ⟨fun ht => ?_, done ++ [edata],
      ⟨(received (decrypt d) (x.session, x.display) edata).1,
        (received (decrypt d) (x.session, x.display) edata).2, x.bytes + edata.length⟩,
      ?_, ?_, ?_, ?_⟩
    · have hfr : s.fresh d := fresh_of (by exact keepsReceives_update id rfl) (by exact id) ht
      simp [(hl.idle_of_fresh hfr).1] at hv
    · simpa [State.pending, hp, hbio, State.setSession, State.setClient] using hh
    · exact exec_append.mpr ⟨x, hx, rfl⟩
    · simp [received, ← hse, hdx]
    · simp [State.follows, received, ← hse, State.setSession, State.setClient]

/-- Nothing of the client is queued or read while its receive is outstanding. -/
theorem Lone.pending_of_outstanding {c : Nat} {s : State} (h : Lone c s)
    (ho : (s.client c).outstanding = true) : s.pc.hasBytes = false ∧ ¬ s.fresh c ∧
      s.packets.filter (fun p => p.success && p.transferred != 0) = [] := by
  have hh := h.holders
  simp only [State.holders, ho, Bool.toNat_true] at hh
  have hserving : s.pc.serving = false := Bool.toNat_eq_zero.mp (by omega)
  refine ⟨CompletionPc.hasBytes_of_idle hserving, fun hf => ?_, ?_⟩
  · simp [(h.idle_of_fresh hf).2] at ho
  · have hcount : s.packets.countP (fun p => p.key == some c) = 0 := by omega
    refine List.filter_eq_nil_iff.mpr fun p hm hp => ?_
    have hkey := (h.packet p hm).resolve_right (by simp_all)
    exact List.countP_eq_zero.mp hcount p hm (beq_iff_eq.mpr hkey)

/-- A receive of the client completes: its bytes are the only ones that have not been read. -/
theorem Follows.arrive {c : Nat} {h : List (List Byte)} {s t : State} {chunk : List Byte}
    (hf : Follows decrypt c h s) (hl : Lone c s) (hn : chunk.length ≠ 0)
    (hs : s.complete c ⟨chunk.length, some c, some c, true⟩ = some t) :
    Follows decrypt c (h ++ [chunk]) (t.setClient c { t.client c with
      buffer := chunk ++ (s.client c).buffer.drop chunk.length }) := by
  obtain ⟨-, -, ho, rfl⟩ := hl.complete rfl hs
  obtain ⟨hi, hnf, hq⟩ := hl.pending_of_outstanding ho
  obtain ⟨done, x, hh, hx, hdx, hfx⟩ := hf.run
  have hhi : h = done := by simpa [pending_of_idle hi, hq] using hh
  subst hhi
  refine ⟨fun hfr => ?_, h, x, ?_, hx, hdx, ?_⟩
  · refine absurd (hfr.imp (fun hu => ?_) id) hnf
    simpa [State.setClient] using hu
  · rw [pending_of_idle (by exact hi)]
    simp [State.setClient, List.filter_append, hq, hn]
  · rw [follows_of_idle hi] at hfx
    rw [follows_of_idle (by exact hi)]
    simpa [State.setClient] using hfx

theorem Follows.noBytes {c : Nat} {h : List (List Byte)} {s t : State} {p : IocpServer.Packet}
    (hf : Follows decrypt c h s) (hl : Lone c s) (hk : p.key = some c) (hn : p.transferred = 0)
    (hs : s.complete c p = some t) : Follows decrypt c h t := by
  obtain ⟨-, -, ho, rfl⟩ := hl.complete hk hs
  exact hf.frame (Or.inl rfl) (keepsBytes_update rfl rfl) (by simp [hn]) rfl
    (Or.imp (ctx_update rfl) id)

theorem Follows.step {c : Nat} {h : List (List Byte)} {s t : State} {l : Label}
    (hf : Follows decrypt c h s) (hl : Lone c s) (hs : step decrypt s l = some t) :
    Follows decrypt c (h ++ completions c s l) t := by
  have hnil {l : Label} (hc : completions c s l = []) (ht : Follows decrypt c h t) :
      Follows decrypt c (h ++ completions c s l) t := by
    rw [hc, List.append_nil]
    exact ht
  cases l with
  | main => exact hnil rfl (hf.mainStep hl hs)
  | getStatus => exact hnil rfl (hf.getStatus hs)
  | completion => exact hnil rfl (hf.completionStep hl hs)
  | sslRead direct => exact hnil rfl (hf.sslRead hl hs)
  | arrive d chunk =>
    simp only [IocpSslServer.step] at hs
    split at hs
    case isFalse => cases hs
    case isTrue hlen =>
      obtain ⟨u, hu, rfl⟩ := Option.map_eq_some_iff.mp hs
      obtain ⟨rfl, -⟩ := hl.complete rfl hu
      simpa [completions] using hf.arrive hl (by omega) hu
  | peerClosed d | fail d =>
    obtain ⟨rfl, -⟩ := hl.complete rfl hs
    exact hnil rfl (hf.noBytes hl rfl rfl hs)
  | calloc d =>
    refine hnil rfl ?_
    simp only [IocpSslServer.step] at hs
    split at hs
    case h_2 => cases hs
    case h_1 hm =>
      split at hs
      case isFalse => cases hs
      case isTrue hu =>
        obtain rfl := Option.some.inj hs
        refine hf.frame (Or.inl rfl) (keepsBytes_update rfl rfl) rfl rfl fun hfr => ?_
        by_cases hd : d = c
        · subst hd
          exact Or.inl hu
        · rcases hfr with hfr | hfr
          · exact Or.inl (by simpa [State.setClient, Ne.symm hd] using hfr)
          · exact absurd (Option.some.inj hfr) hd
  | accept ok =>
    refine hnil rfl ?_
    simp only [IocpSslServer.step] at hs
    split at hs
    case h_2 => cases hs
    case h_1 d hm =>
      cases ok with
      | true =>
        obtain rfl := Option.some.inj hs
        exact hf.frame (Or.inl rfl) (keepsBytes_update rfl rfl) rfl rfl
          (fresh_of (keepsReceives_update id rfl) (by rw [hm]; exact id))
      | false =>
        obtain rfl := Option.some.inj hs
        exact hf.frame (Or.inl rfl) (.refl _ _) rfl rfl (fresh_of (.refl _) fun he => by cases he)
  | recvFirst ok =>
    refine hnil rfl ?_
    simp only [IocpSslServer.step] at hs
    split at hs
    case h_2 => cases hs
    case h_1 d hm =>
      split at hs <;> cases hs
      · exact hf.frame (Or.inl rfl) (keepsBytes_update rfl rfl) rfl rfl
          (Or.imp (ctx_update rfl) fun he => by cases he)
      · exact hf.frame (Or.inl rfl) (keepsBytes_update rfl rfl) rfl rfl
          (Or.imp (ctx_update rfl) fun he => by cases he)
  | waitCompletion =>
    refine hnil rfl ?_
    simp only [IocpSslServer.step] at hs
    split at hs <;> cases hs
    exact hf.frame (Or.inl rfl) (.refl _ _) rfl rfl (fresh_of (.refl _) fun he => by cases he)
  | recvAgain ok =>
    refine hnil rfl ?_
    simp only [IocpSslServer.step] at hs
    split at hs
    case h_2 => cases hs
    case h_1 d hp hd =>
      have hi : s.pc.hasBytes = false := by rw [hp]; rfl
      split at hs
      · split at hs <;> cases hs
        exact hf.frame (Or.inr ⟨hi, rfl⟩) (keepsBytes_update rfl rfl) rfl rfl
          (Or.imp (ctx_update rfl) id)
      · cases hs
        exact hf.frame (Or.inr ⟨hi, rfl⟩) (.refl _ _) rfl rfl id

/-- In a run with client `c` alone, all but the bytes that the thread has not read yet have
gone through the connection, completion by completion. -/
theorem exec_follows {c : Nat} {tr : List Label} {s : State}
    (hm : Meets (step decrypt) (fun s l => onlyClient c s l = true) init tr)
    (h : exec (step decrypt) init tr = some s) :
    Follows decrypt c (outputs (step decrypt) (completions c) init tr) s := by
  have hI : Lone c s ∧ Follows decrypt c ([] ++ outputs (step decrypt) (completions c) init tr) s :=
    exec_history_of_meets (completions c) (I := fun h s => Lone c s ∧ Follows decrypt c h s)
      (fun _ _ _ _ hI hok hs => ⟨hI.1.step hok hs, hI.2.step hI.1 hs⟩)
      ⟨lone_init c, follows_init c⟩ hm h
  exact hI.2

/-- What the server has printed of the stream of its only client, as long as every completion is
the next record of it. -/
theorem server_prints {c : Nat} {tr : List Label} {s : State} {sent : List Sent}
    (hd : Authentic sent (decrypt c))
    (hm : Meets (step decrypt) (fun s l => onlyClient c s l = true) init tr)
    (h : exec (step decrypt) init tr = some s)
    (hw : Meets (receive (decrypt c)) (fun x edata => wholeRecord sent x edata = true) connected
      (outputs (step decrypt) (completions c) init tr)) :
    ∃ done, outputs (step decrypt) (completions c) init tr = done ++ s.pending c ∧
      s.display.output = completed sent done.flatten.length ∧ s.display.outside = false := by
  obtain ⟨done, x, hh, hx, hdx, -⟩ := (exec_follows hm h).run
  rw [hh] at hw
  have hp := (inStep_of_meets hd hw.left hx).printed
  have hbytes : x.bytes = done.flatten.length := by simpa [connected] using exec_bytes hx
  exact ⟨done, hh, hdx ▸ hbytes ▸ hp.output, hdx ▸ hp.inside⟩

end Cexp.IocpSslServer
