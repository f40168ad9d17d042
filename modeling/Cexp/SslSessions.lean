import Cexp.IocpSslServer

/-! Which session `CompletionThread` feeds: it reaches it through the global `ssl`, which the
accept loop overwrites for every client. -/

namespace Cexp.IocpSslServer

open Transition TlsSession

/-- The thread has bytes of a client that are not decrypted yet. -/
def CompletionPc.hasBytes : CompletionPc → Bool
  | .copy _ | .setBio _ | .bioWrite _ _ | .sslRead => true
  | _ => false

/-- The bytes of a client go into a BIO of its own session and are read from that session. -/
structure OwnSession (s : State) : Prop where
  setBio : ∀ edata, s.pc = .setBio edata → s.ssl = s.clientCtx
  bioWrite : ∀ memBio edata, s.pc = .bioWrite memBio edata → s.clientCtx = some memBio
  sslRead : s.pc = .sslRead → s.ssl = s.clientCtx

/-- Bytes complete only for the client accepted last, and `SSL_new` is called for the next
one only when they are all decrypted. -/
def lastClientOnly (s : State) : Label → Bool
  | .arrive c _ => s.ssl = some c
  | .main =>
    match s.main with
    | .sslNew _ => s.packets.all (fun p => p.transferred = 0) && !s.pc.hasBytes
    | _ => true
  | _ => true

structure LastClient (s : State) : Prop where
  packet : ∀ p ∈ s.packets, p.transferred ≠ 0 → p.key = s.ssl
  bytes : s.pc.hasBytes = true → s.clientCtx = s.ssl
  memBio : ∀ d edata, s.pc = .bioWrite d edata → s.ssl = some d

theorem lastClient_init : LastClient init where
  packet _ hp := by cases hp
  bytes h := by cases h
  memBio _ _ h := by cases h

theorem LastClient.ownSession {s : State} (h : LastClient s) : OwnSession s where
  setBio _ hp := (h.bytes (by rw [hp]; rfl)).symm
  bioWrite d _ hp := (h.bytes (by rw [hp]; rfl)).trans (h.memBio d _ hp)
  sslRead hp := (h.bytes (by rw [hp]; rfl)).symm

theorem LastClient.same {s t : State} (h : LastClient s) (hp : t.packets = s.packets)
    (hs : t.ssl = s.ssl) (hpc : t.pc = s.pc) (hc : t.clientCtx = s.clientCtx) : LastClient t := by
  refine ⟨?_, ?_, ?_⟩
  · rw [hp, hs]
    exact h.packet
  · rw [hpc, hc, hs]
    exact h.bytes
  · rw [hpc, hs]
    exact h.memBio

theorem LastClient.queue {s t : State} (h : LastClient s) {p : IocpServer.Packet}
    (hp : t.packets = s.packets ++ [p]) (hk : p.transferred ≠ 0 → p.key = s.ssl)
    (hs : t.ssl = s.ssl) (hpc : t.pc = s.pc) (hc : t.clientCtx = s.clientCtx) :
    LastClient t := by
  refine ⟨fun q hq hn => ?_, ?_, ?_⟩
  · rw [hp] at hq
    rw [hs]
    rcases List.mem_append.mp hq with hq | hq
    · exact h.packet q hq hn
    · obtain rfl := List.mem_singleton.mp hq
      exact hk hn
  · rw [hpc, hc, hs]
    exact h.bytes
  · rw [hpc, hs]
    exact h.memBio

theorem LastClient.move {s t : State} (h : LastClient s)
    (hp : ∀ p ∈ t.packets, p ∈ s.packets) (hs : t.ssl = s.ssl) (hpc : t.pc.hasBytes = false) :
    LastClient t := by
  refine ⟨fun q hq hn => hs ▸ h.packet q (hp q hq) hn, fun hb => ?_, fun d edata hb => ?_⟩
  · simp [hpc] at hb
  · simp [hb, CompletionPc.hasBytes] at hpc

theorem LastClient.keepBytes {s t : State} (h : LastClient s) (hb : s.pc.hasBytes = true)
    (hp : t.packets = s.packets) (hs : t.ssl = s.ssl) (hc : t.clientCtx = s.clientCtx)
    (hm : ∀ d edata, t.pc = .bioWrite d edata → s.ssl = some d) : LastClient t := by
  refine ⟨?_, fun _ => ?_, fun d edata hd => hs ▸ hm d edata hd⟩
  · rw [hp, hs]
    exact h.packet
  · rw [hc, hs]
    exact h.bytes hb

theorem LastClient.mainStep {s t : State} (h : LastClient s) (hok : lastClientOnly s .main = true)
    (hs : mainStep s = some t) : LastClient t := by
  unfold IocpSslServer.mainStep at hs
  split at hs
  case h_1 c hm =>
    obtain rfl := Option.some.inj hs
    simp only [lastClientOnly, hm, Bool.and_eq_true, List.all_eq_true, decide_eq_true_eq,
      Bool.not_eq_true'] at hok
    refine ⟨fun p hp hn => absurd (hok.1 p hp) hn, fun hb => ?_, fun d edata hb => ?_⟩
    · exact absurd (hok.2.symm.trans hb) (by simp)
    · have hb : s.pc = .bioWrite d edata := hb
      simp [hb, CompletionPc.hasBytes] at hok
  case h_2 =>
    obtain ⟨d, -, rfl⟩ := Option.map_eq_some_iff.mp hs
    exact h.same rfl rfl rfl rfl
  case h_6 =>
    obtain rfl := Option.some.inj hs
    exact h.queue rfl (fun hn => absurd rfl hn) rfl rfl rfl
  case h_8 => cases hs
  all_goals
    obtain rfl := Option.some.inj hs
    exact h.same rfl rfl rfl rfl

theorem LastClient.getStatus {s t : State} (h : LastClient s) (hs : getStatus s = some t) :
    LastClient t := by
  unfold IocpSslServer.getStatus at hs
  split at hs
  case h_2 => cases hs
  case h_1 =>
    split at hs
    case isTrue =>
      obtain rfl := Option.some.inj hs
      exact h.move (fun _ hp => hp) rfl rfl
    case isFalse =>
      split at hs
      case h_1 => cases hs
      case h_2 p rest hq =>
        obtain rfl := Option.some.inj hs
        have hrest (q : IocpServer.Packet) (hq' : q ∈ rest) : q ∈ s.packets :=
          hq ▸ List.mem_cons_of_mem p hq'
        refine ⟨fun q hq' hn => h.packet q (hrest q hq') hn, fun hb => ?_, fun d edata hb => ?_⟩
        · refine h.packet p (hq ▸ List.mem_cons_self) fun hn => ?_
          cases hsc : p.success <;> simp [hsc, hn, CompletionPc.hasBytes] at hb
        · simp only at hb
          split at hb
          · cases hb
          · split at hb <;> cases hb

theorem freeOverlapped_same (s : State) : s.freeOverlapped.packets = s.packets ∧
    s.freeOverlapped.ssl = s.ssl := by
  unfold State.freeOverlapped
  split <;> exact ⟨rfl, rfl⟩

theorem LastClient.completionStep {s t : State} (h : LastClient s)
    (hs : completionStep s = some t) : LastClient t := by
  have hfree := freeOverlapped_same s
  have hmem (p : IocpServer.Packet) (hp : p ∈ s.freeOverlapped.packets) : p ∈ s.packets :=
    hfree.1 ▸ hp
  unfold IocpSslServer.completionStep at hs
  split at hs
  case h_1 | h_2 | h_11 =>
    obtain rfl := Option.some.inj hs
    exact h.move hmem hfree.2 rfl
  case h_5 n c hp hc =>
    obtain rfl := Option.some.inj hs
    exact h.keepBytes (by rw [hp]; rfl) rfl rfl rfl fun d edata hd => by cases hd
  case h_6 edata c hp hc =>
    obtain ⟨d, hd, rfl⟩ := Option.map_eq_some_iff.mp hs
    refine h.keepBytes (by rw [hp]; rfl) rfl rfl rfl fun d' edata' hd' => ?_
    cases hd'
    exact hd
  case h_7 d edata c hp hc =>
    obtain rfl := Option.some.inj hs
    exact h.keepBytes (by rw [hp]; rfl) rfl rfl rfl fun d edata hd => by cases hd
  case h_12 => cases hs
  all_goals
    obtain rfl := Option.some.inj hs
    exact h.move (fun _ hp => hp) rfl rfl

theorem complete_cases {s t : State} {c : Nat} {p : IocpServer.Packet}
    (h : s.complete c p = some t) :
    t.packets = s.packets ++ [p] ∧ t.ssl = s.ssl ∧ t.pc = s.pc ∧ t.clientCtx = s.clientCtx := by
  unfold State.complete at h
  split at h <;> cases h
  exact ⟨rfl, rfl, rfl, rfl⟩

theorem LastClient.step {decrypt : Nat → Nat → List Byte → Option (List Byte)} {s t : State}
    {l : Label} (h : LastClient s) (hok : lastClientOnly s l = true)
    (hs : step decrypt s l = some t) : LastClient t := by
  cases l with
  | main => exact h.mainStep hok hs
  | getStatus => exact h.getStatus hs
  | completion => exact h.completionStep hs
  | calloc c =>
    simp only [IocpSslServer.step] at hs
    split at hs
    case h_2 => cases hs
    case h_1 =>
      split at hs <;> cases hs
      exact h.same rfl rfl rfl rfl
  | accept ok | recvFirst ok =>
    simp only [IocpSslServer.step] at hs
    split at hs
    case h_2 => cases hs
    case h_1 => split at hs <;> cases hs <;> exact h.same rfl rfl rfl rfl
  | waitCompletion =>
    simp only [IocpSslServer.step] at hs
    split at hs <;> cases hs
    exact h.same rfl rfl rfl rfl
  | sslRead direct =>
    simp only [IocpSslServer.step] at hs
    split at hs
    case h_2 => cases hs
    case h_1 => split at hs <;> cases hs <;> exact h.move (fun _ hp => hp) rfl rfl
  | recvAgain ok =>
    simp only [IocpSslServer.step] at hs
    split at hs
    case h_2 => cases hs
    case h_1 =>
      split at hs
      · split at hs <;> cases hs
        exact h.move (fun _ hp => hp) rfl rfl
      · cases hs
        exact h.move (fun _ hp => hp) rfl rfl
  | arrive c chunk =>
    simp only [IocpSslServer.step] at hs
    split at hs
    case isFalse => cases hs
    case isTrue =>
      obtain ⟨u, hu, rfl⟩ := Option.map_eq_some_iff.mp hs
      obtain ⟨hp, hssl, hpc, hc⟩ := complete_cases hu
      exact h.queue hp (fun _ => (by simpa [lastClientOnly] using hok : s.ssl = some c).symm) hssl
        hpc hc
  | peerClosed c | fail c =>
    obtain ⟨hp, hssl, hpc, hc⟩ := complete_cases hs
    exact h.queue hp (fun hn => absurd rfl hn) hssl hpc hc

/-- In every run in which bytes complete only for the client accepted last, and none are left
over when the next session is created, every session is fed the bytes of its own client. -/
theorem session_fed_own_bytes {decrypt : Nat → Nat → List Byte → Option (List Byte)}
    {tr : List Label} {s : State}
    (hm : Meets (step decrypt) (fun s l => lastClientOnly s l = true) init tr)
    (h : exec (step decrypt) init tr = some s) : OwnSession s :=
  (exec_invariant_of_meets (fun _ _ _ hI hok hs => hI.step hok hs) lastClient_init hm h).ownSession

def acceptClient (c : Nat) : List Label :=
  [.calloc c, .accept true, .main, .main, .main, .main, .recvFirst true]

/-- The protection that leaves every body as it is. -/
def plainText (_ _ : Nat) (body : List Byte) : Option (List Byte) := some body

def oneAfterAnother : List Label :=
  acceptClient 0 ++ [.arrive 0 [23, 3, 3, 0, 1, 65], .getStatus, .completion, .completion,
    .completion, .sslRead none, .recvAgain true] ++ acceptClient 1 ++
    [.arrive 1 [23, 3, 3, 0, 1, 66], .getStatus, .completion]

theorem session_fed_own_bytes_oneAfterAnother :
    ∃ s, exec (step plainText) init oneAfterAnother = some s ∧ OwnSession s ∧
      s.display.output = [65] ∧ s.ssl = some 1 := by
  obtain ⟨s, hs, hp⟩ := exec_exists (step plainText) init oneAfterAnother
    (fun s => decide (s.display.output = [65]) && decide (s.ssl = some 1)) (by decide +kernel)
  simp only [Bool.and_eq_true, decide_eq_true_eq] at hp
  exact ⟨s, hs, session_fed_own_bytes (by decide) hs, hp⟩

/-- The first client sends its bytes after the second one has connected. -/
def bothConnected : List Label :=
  acceptClient 0 ++ acceptClient 1 ++ [.arrive 0 [23, 3, 3, 0, 1, 65], .getStatus, .completion]

theorem session_fed_other_bytes : ¬ ∀ (tr : List Label) (s : State),
    exec (step plainText) init tr = some s → OwnSession s := by
  intro h
  obtain ⟨s, hs, hp⟩ := exec_exists (step plainText) init bothConnected
    (fun s => decide (s.pc = .setBio [23, 3, 3, 0, 1, 65]) && decide (s.ssl = some 1) &&
      decide (s.clientCtx = some 0)) (by decide)
  simp only [Bool.and_eq_true, decide_eq_true_eq] at hp
  have hh := (h _ s hs).setBio _ hp.1.1
  simp [hp] at hh

end Cexp.IocpSslServer
