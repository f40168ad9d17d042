import Cexp.IocpContexts
import Cexp.IocpDelivery
import Cexp.IocpService

/-! The single owner of a connection's receive context through the whole of `CompletionThread`,
its exits included, and what is left of it when the port is closed under a thread that still
has the context of its last packet in its key variable. -/

namespace Cexp.IocpServer

open Transition

variable {K : Type}

/-- The thread is to free the `HANDLE_CONTEXT` or to post it again. -/
def CompletionPc.ownsCtx : CompletionPc K → Bool
  | .copy _ | .enqueue _ _ | .inEnqueue _ | .recv | .emptyTransfer | .closeClient | .clearTarget
  | .freeClient | .exitClose | .exitClear | .exitFree => true
  | _ => false

/-- The thread is to free the `OVERLAPPED` or to post it again. -/
def CompletionPc.ownsOverlapped : CompletionPc K → Bool
  | .copy _ | .enqueue _ _ | .inEnqueue _ | .recv | .emptyTransfer | .exitClose | .exitClear
  | .exitFree | .exitFreeOverlapped => true
  | _ => false

/-- Both pointers are still those of the last packet. -/
def CompletionPc.paired : CompletionPc K → Bool
  | .copy _ | .enqueue _ _ | .inEnqueue _ | .recv | .emptyTransfer => true
  | _ => false

/-- The ownership of the contexts known to thread `k` and to its port. -/
structure SoleAt (s : State K) (k : K) : Prop where
  pair : (s.completion k).pc.paired = true →
    (s.completion k).overlappedPtr = (s.completion k).clientCtx
  stale : ∀ c, (s.completion k).pc = .getStatus → (s.completion k).clientCtx = some c →
    (s.client c).outstanding = true ∨ c ∈ (s.port k).keys
  awaited : ∀ c, (s.client c).outstanding = true ∧ (s.client c).port = some k ∨
      c ∈ (s.port k).keys → (s.completion k).pc.left = false →
    (s.client c).ctx = .live ∧ (s.client c).overlapped = .live
  ctx : ∀ c, (s.completion k).clientCtx = some c → (s.completion k).pc.ownsCtx = true →
    (s.client c).ctx = .live ∧ (s.client c).outstanding = false ∧
      ((s.completion k).pc.left = false → c ∉ (s.port k).keys)
  overlapped : ∀ c, (s.completion k).overlappedPtr = some c →
      (s.completion k).pc.ownsOverlapped = true →
    (s.client c).overlapped = .live ∧ (s.client c).outstanding = false ∧
      ((s.completion k).pc.left = false → c ∉ (s.port k).keys)

theorem soleAt_init (k : K) : SoleAt (init : State K) k where
  pair h := by cases h
  stale _ h := by cases h
  awaited _ h := by rcases h with ⟨h, -⟩ | h <;> cases h
  ctx _ h := by cases h
  overlapped _ h := by cases h

/-- Nothing that thread `k` or its port knows has changed, and new receives have live contexts. -/
theorem SoleAt.frame {s s' : State K} {k : K} (h : SoleAt s k)
    (hcp : s'.completion k = s.completion k) (hk : (s'.port k).keys = (s.port k).keys)
    (hcl : ∀ c, (s.completion k).names c ∨ c ∈ (s.port k).keys →
      SameContext (s.client c) (s'.client c))
    (haw : ∀ c, (s'.client c).outstanding = true → (s'.client c).port = some k →
      SameContext (s.client c) (s'.client c) ∨
        (s'.client c).ctx = .live ∧ (s'.client c).overlapped = .live) : SoleAt s' k := by
  refine ⟨fun hp => ?_, fun c hp hc => ?_, fun c ha hl => ?_, fun c hc ho => ?_, fun c hc ho => ?_⟩
  · rw [hcp] at hp ⊢
    exact h.pair hp
  · rw [hcp] at hp hc
    rw [hk, (hcl c (Or.inl (Or.inl hc))).outstanding]
    exact h.stale c hp hc
  · rw [hcp] at hl
    rw [hk] at ha
    rcases ha with ⟨ho, hp⟩ | hm
    · rcases haw c ho hp with hs | hlive
      · rw [hs.ctx, hs.overlapped]
        exact h.awaited c (Or.inl ⟨hs.outstanding ▸ ho, hs.port ▸ hp⟩) hl
      · exact hlive
    · have hs := hcl c (Or.inr hm)
      rw [hs.ctx, hs.overlapped]
      exact h.awaited c (Or.inr hm) hl
  · rw [hcp] at hc ho ⊢
    have hs := hcl c (Or.inl (Or.inl hc))
    rw [hs.ctx, hs.outstanding, hk]
    exact h.ctx c hc ho
  · rw [hcp] at hc ho ⊢
    have hs := hcl c (Or.inl (Or.inr hc))
    rw [hs.overlapped, hs.outstanding, hk]
    exact h.overlapped c hc ho

theorem SoleAt.same {s s' : State K} {k : K} (h : SoleAt s k)
    (hcp : s'.completion k = s.completion k) (hk : (s'.port k).keys = (s.port k).keys)
    (hcl : ∀ c, SameContext (s.client c) (s'.client c)) : SoleAt s' k :=
  h.frame hcp hk (fun c _ => hcl c) fun c _ _ => Or.inl (hcl c)

theorem SoleAt.move {s s' : State K} {k : K} {pc : CompletionPc K} (h : SoleAt s k)
    (hcp : s'.completion k = { s.completion k with pc := pc })
    (hk : (s'.port k).keys = (s.port k).keys) (hcl : ∀ c, SameContext (s.client c) (s'.client c))
    (hp : pc.paired = true → (s.completion k).pc.paired = true) (hg : pc ≠ .getStatus)
    (hx : pc.ownsCtx = true → (s.completion k).pc.ownsCtx = true)
    (ho : pc.ownsOverlapped = true → (s.completion k).pc.ownsOverlapped = true)
    (hl : (s.completion k).pc.left = true → pc.left = true) : SoleAt s' k := by
  have hleft (hn : pc.left = false) : (s.completion k).pc.left = false := by
    by_contra hc
    simp [hl (by simpa using hc)] at hn
  refine ⟨fun hp' => ?_, fun c hg' => ?_, fun c ha hn => ?_, fun c hc hx' => ?_,
    fun c hc ho' => ?_⟩
  · rw [hcp] at hp' ⊢
    exact h.pair (hp hp')
  · rw [hcp] at hg'
    exact absurd hg' hg
  · rw [hcp] at hn
    rw [hk, (hcl c).outstanding, (hcl c).port] at ha
    rw [(hcl c).ctx, (hcl c).overlapped]
    exact h.awaited c ha (hleft hn)
  · rw [hcp] at hc hx' ⊢
    rw [(hcl c).ctx, (hcl c).outstanding, hk]
    obtain ⟨hlive, hout, hq⟩ := h.ctx c hc (hx hx')
    exact ⟨hlive, hout, fun hn => hq (hleft hn)⟩
  · rw [hcp] at hc ho' ⊢
    rw [(hcl c).overlapped, (hcl c).outstanding, hk]
    obtain ⟨hlive, hout, hq⟩ := h.overlapped c hc (ho ho')
    exact ⟨hlive, hout, fun hn => hq (hleft hn)⟩

theorem CompletionPc.Next.owns {ptr : Option Nat} {p q : CompletionPc K} (h : Next ptr p q) :
    (q.paired = true → p.paired = true) ∧ q ≠ .getStatus ∧
      (q.ownsCtx = true → p.ownsCtx = true) ∧ (q.ownsOverlapped = true → p.ownsOverlapped = true) ∧
      (p.left = true → q.left = true) := by
  cases h <;> simp [paired, ownsCtx, ownsOverlapped, left]

theorem SoleAt.closed {s s' : State K} {k : K} (h : SoleAt s k)
    (hp : (s.completion k).pc = .getStatus)
    (hok : ∀ c, (s.completion k).clientCtx = some c → (s.client c).outstanding = false)
    (hcp : s'.completion k = ⟨.exitClose, (s.completion k).clientCtx, none⟩)
    (hcl : s'.client = s.client) : SoleAt s' k := by
  refine ⟨fun hp' => ?_, fun c hg => ?_, fun c _ hl => ?_, fun c hc _ => ?_, fun c hc => ?_⟩
  · simp [hcp, CompletionPc.paired] at hp'
  · simp [hcp] at hg
  · simp [hcp, CompletionPc.left] at hl
  · rw [hcp] at hc ⊢
    rw [hcl]
    have hq := (h.stale c hp hc).resolve_left (by simp [hok c hc])
    exact ⟨(h.awaited c (Or.inr hq) (by rw [hp]; rfl)).1, hok c hc, fun hl => by cases hl⟩
  · simp [hcp] at hc

theorem SoleAt.packet {s s' : State K} {k : K} {p : Packet} {rest : List Packet}
    {pc : CompletionPc K} (h : SoleAt s k) (hO : Owned s) (hX : Contexts s)
    (hp : (s.completion k).pc = .getStatus) (hr : (s.port k).packets = p :: rest)
    (hpc : pc = .exitClose ∨ pc = .emptyTransfer ∨ pc = .copy p.transferred)
    (hcp : s'.completion k = ⟨pc, p.key, p.overlapped⟩)
    (hk : (s'.port k).packets = rest) (hcl : s'.client = s.client) : SoleAt s' k := by
  have hkey : p.overlapped = p.key := hX.packet k p (by simp [hr])
  have hsub {c : Nat} (hc : c ∈ (s'.port k).keys) : c ∈ (s.port k).keys := by
    simp only [Port.keys, hk] at hc
    simp only [Port.keys, hr]
    exact ((List.sublist_cons_self p rest).filterMap _).subset hc
  have hlive {c : Nat} (hc : p.key = some c) : (s.client c).ctx = .live ∧
      (s.client c).overlapped = .live ∧ (s.client c).outstanding = false ∧
        c ∉ (s'.port k).keys := by
    have hkeys : (s.port k).keys = c :: (s'.port k).keys := by simp [Port.keys, hr, hk, hc]
    have hmem : c ∈ (s.port k).keys := by simp [hkeys]
    obtain ⟨hx, ho⟩ := h.awaited c (Or.inr hmem) (by rw [hp]; rfl)
    refine ⟨hx, ho, ?_, (List.nodup_cons.mp (hkeys ▸ hO.nodup k)).1⟩
    by_contra hout
    have hso := hO.sole c .kernel (.port k) (by simpa [Holds] using hout) hmem
    cases hso
  refine ⟨fun _ => ?_, fun c hg => ?_, fun c ha _ => ?_, fun c hc _ => ?_, fun c hc _ => ?_⟩
  · rw [hcp]
    exact hkey
  · rcases hpc with rfl | rfl | rfl <;> simp [hcp] at hg
  · rw [hcl] at ha ⊢
    exact h.awaited c (ha.imp_right hsub) (by rw [hp]; rfl)
  · rw [hcp] at hc
    rw [hcl]
    obtain ⟨hx, -, ho, hn⟩ := hlive hc
    exact ⟨hx, ho, fun _ => hn⟩
  · rw [hcp] at hc
    rw [hcl]
    obtain ⟨-, hx, ho, hn⟩ := hlive (hkey ▸ hc)
    exact ⟨hx, ho, fun _ => hn⟩

theorem SoleAt.freeOverlapped {s s' : State K} {k : K} {pc : CompletionPc K} (h : SoleAt s k)
    (hp : (s.completion k).pc = .emptyTransfer ∧
        pc = (if (s.completion k).clientCtx = none then .exitClose else .closeClient) ∨
      (s.completion k).pc = .exitFreeOverlapped ∧ pc = .exited)
    (hcp : s'.completion k = { s.completion k with pc := pc }) (hk : s'.port = s.port)
    (hcl : s'.client = (s.freeOverlapped (s.completion k).overlappedPtr).client) :
    SoleAt s' k := by
  have hsame (c : Nat) : (s'.client c).ctx = (s.client c).ctx ∧
      (s'.client c).outstanding = (s.client c).outstanding ∧
        (s'.client c).port = (s.client c).port := by
    rw [hcl, freeOverlapped_client]
    split <;> exact ⟨rfl, rfl, rfl⟩
  rcases hp with ⟨hp, rfl⟩ | ⟨hp, rfl⟩
  · have hpair := h.pair (by rw [hp]; rfl)
    refine ⟨fun hp' => ?_, fun c hg => ?_, fun c ha _ => ?_, fun c hc _ => ?_, fun c hc ho => ?_⟩
    · rw [hcp] at hp'
      split_ifs at hp' <;> cases hp'
    · rw [hcp] at hg
      split_ifs at hg
    · rw [(hsame c).2.1, (hsame c).2.2, hk] at ha
      have hlive := h.awaited c ha (by rw [hp]; rfl)
      refine ⟨(hsame c).1.trans hlive.1, ?_⟩
      rw [hcl, freeOverlapped_client, if_neg]
      · exact hlive.2
      · intro hc
        obtain ⟨-, ho, hq⟩ := h.overlapped c hc (by rw [hp]; rfl)
        rcases ha with ⟨hout, -⟩ | hm
        · simp [ho] at hout
        · exact hq (by rw [hp]; rfl) hm
    · rw [hcp] at hc
      rw [(hsame c).1, (hsame c).2.1, hk]
      obtain ⟨hx, ho, hq⟩ := h.ctx c hc (by rw [hp]; rfl)
      exact ⟨hx, ho, fun _ => hq (by rw [hp]; rfl)⟩
    · rw [hcp] at hc ho
      have hctx : (s.completion k).clientCtx = some c := hpair.symm.trans hc
      simp [hctx, CompletionPc.ownsOverlapped] at ho
  · refine ⟨fun hp' => ?_, fun c hg => ?_, fun c _ hl => ?_, fun c _ ho => ?_, fun c _ ho => ?_⟩
    · simp [hcp, CompletionPc.paired] at hp'
    · simp [hcp] at hg
    · simp [hcp, CompletionPc.left] at hl
    · simp [hcp, CompletionPc.ownsCtx] at ho
    · simp [hcp, CompletionPc.ownsOverlapped] at ho

theorem SoleAt.freeCtx {s s' : State K} {k : K} {c : Nat} {th : CompletionThread K}
    (h : SoleAt s k) (hc : (s.completion k).clientCtx = some c)
    (hp : (s.completion k).pc = .freeClient ∧
        th = { s.completion k with pc := .getStatus, clientCtx := none } ∨
      (s.completion k).pc = .exitFree ∧ th = { s.completion k with pc := .exitFreeOverlapped })
    (hcp : s'.completion k = th) (hk : s'.port = s.port)
    (hcl : s'.client = Function.update s.client c { s.client c with ctx := .freed }) :
    SoleAt s' k := by
  have hsame (d : Nat) : (s'.client d).overlapped = (s.client d).overlapped ∧
      (s'.client d).outstanding = (s.client d).outstanding ∧
        (s'.client d).port = (s.client d).port := by
    by_cases hd : d = c
    · subst hd
      simp [hcl]
    · simp [hcl, hd]
  rcases hp with ⟨hp, rfl⟩ | ⟨hp, rfl⟩
  · refine ⟨fun hp' => ?_, fun d _ hd => ?_, fun d ha _ => ?_, fun d hd => ?_, fun d _ ho => ?_⟩
    · simp [hcp, CompletionPc.paired] at hp'
    · simp [hcp] at hd
    · rw [(hsame d).2.1, (hsame d).2.2, hk] at ha
      have hlive := h.awaited d ha (by rw [hp]; rfl)
      have hne : d ≠ c := by
        rintro rfl
        obtain ⟨-, ho, hq⟩ := h.ctx d hc (by rw [hp]; rfl)
        rcases ha with ⟨hout, -⟩ | hm
        · simp [ho] at hout
        · exact hq (by rw [hp]; rfl) hm
      rw [hcl, Function.update_of_ne hne]
      exact hlive
    · simp [hcp] at hd
    · simp [hcp, CompletionPc.ownsOverlapped] at ho
  · refine ⟨fun hp' => ?_, fun d hg => ?_, fun d _ hl => ?_, fun d _ ho => ?_, fun d hd _ => ?_⟩
    · simp [hcp, CompletionPc.paired] at hp'
    · simp [hcp] at hg
    · simp [hcp, CompletionPc.left] at hl
    · simp [hcp, CompletionPc.ownsCtx] at ho
    · rw [hcp] at hd ⊢
      rw [(hsame d).1, (hsame d).2.1]
      obtain ⟨hx, ho, -⟩ := h.overlapped d hd (by rw [hp]; rfl)
      exact ⟨hx, ho, fun hl => by cases hl⟩

theorem SoleAt.post {s s' : State K} {k : K} {c : Nat} (h : SoleAt s k)
    (hp : (s.completion k).pc = .recv) (hc : (s.completion k).clientCtx = some c)
    (hcp : s'.completion k = { s.completion k with pc := .getStatus }) (hk : s'.port = s.port)
    (hcl : s'.client = Function.update s.client c { s.client c with outstanding := true }) :
    SoleAt s' k := by
  have hlive : (s.client c).ctx = .live ∧ (s.client c).overlapped = .live := by
    have hptr := (h.pair (by rw [hp]; rfl)).trans hc
    exact ⟨(h.ctx c hc (by rw [hp]; rfl)).1, (h.overlapped c hptr (by rw [hp]; rfl)).1⟩
  refine ⟨fun hp' => ?_, fun d _ hd => ?_, fun d ha _ => ?_, fun d _ ho => ?_, fun d _ ho => ?_⟩
  · simp [hcp, CompletionPc.paired] at hp'
  · rw [hcp] at hd
    obtain rfl : c = d := Option.some.inj (hc.symm.trans hd)
    exact Or.inl (by simp [hcl])
  · by_cases hd : d = c
    · subst hd
      simpa [hcl] using hlive
    · rw [hcl, hk, Function.update_of_ne hd] at ha
      rw [hcl, Function.update_of_ne hd]
      exact h.awaited d ha (by rw [hp]; rfl)
  · simp [hcp, CompletionPc.ownsCtx] at ho
  · simp [hcp, CompletionPc.ownsOverlapped] at ho

theorem SoleAt.complete {s s' : State K} {k : K} {c : Nat} {p : Packet} {buffer : List Byte}
    (h : SoleAt s k) (hk : (s.client c).port = some k) (ho : (s.client c).outstanding = true)
    (hp : p.key = some c) (hcp : s'.completion k = s.completion k)
    (hpk : (s'.port k).packets = (s.port k).packets ++ [p])
    (hcl : s'.client = Function.update s.client c { s.client c with
      outstanding := false, buffer := buffer }) : SoleAt s' k := by
  have hkeys : (s'.port k).keys = (s.port k).keys ++ [c] := by simp [Port.keys, hpk, hp]
  have hlive (d : Nat) : (s'.client d).ctx = (s.client d).ctx ∧
      (s'.client d).overlapped = (s.client d).overlapped := by
    by_cases hd : d = c
    · subst hd
      simp [hcl]
    · simp [hcl, hd]
  have hother {d : Nat} (hd : (s.client d).outstanding = false) : d ≠ c := by
    rintro rfl
    simp [ho] at hd
  refine ⟨fun hp' => ?_, fun d hg hd => ?_, fun d ha hl => ?_, fun d hd hx => ?_,
    fun d hd hx => ?_⟩
  · rw [hcp] at hp' ⊢
    exact h.pair hp'
  · rw [hcp] at hg hd
    rw [hkeys]
    by_cases he : d = c
    · exact Or.inr (by simp [he])
    · rcases h.stale d hg hd with hout | hm
      · exact Or.inl (by simpa [hcl, he] using hout)
      · exact Or.inr (List.mem_append_left _ hm)
  · rw [hcp] at hl
    rw [(hlive d).1, (hlive d).2]
    by_cases he : d = c
    · exact h.awaited d (Or.inl (he ▸ ⟨ho, hk⟩)) hl
    · rw [hcl, hkeys, Function.update_of_ne he] at ha
      exact h.awaited d (by simpa [he] using ha) hl
  · rw [hcp] at hd hx ⊢
    obtain ⟨hx, hout, hq⟩ := h.ctx d hd hx
    have hne := hother hout
    rw [(hlive d).1, hkeys]
    exact ⟨hx, by simpa [hcl, hne] using hout, fun hl => by simpa [hne] using hq hl⟩
  · rw [hcp] at hd hx ⊢
    obtain ⟨hx, hout, hq⟩ := h.overlapped d hd hx
    have hne := hother hout
    rw [(hlive d).2, hkeys]
    exact ⟨hx, by simpa [hcl, hne] using hout, fun hl => by simpa [hne] using hq hl⟩

theorem SoleAt.other {s s' : State K} {j k : K} (h : SoleAt s j) (hX : Contexts s)
    (hcp : s'.completion j = s.completion j) (hk : (s'.port j).keys = (s.port j).keys)
    (hj : j ≠ k) (hpt : ∀ c, (s'.client c).port = (s.client c).port)
    (hcl : ∀ c, (s.client c).port ≠ some k → s'.client c = s.client c) : SoleAt s' j := by
  have hsame {c : Nat} (hp : (s.client c).port = some j) :
      SameContext (s.client c) (s'.client c) := by
    rw [hcl c (by simp [hp, hj])]
    exact .refl _
  refine h.frame hcp hk (fun c hc => hsame ?_) fun c _ hp => Or.inl (hsame (hpt c ▸ hp))
  exact hc.elim (hX.named j c) (hX.queued j c)

theorem SoleAt.otherClient {s s' : State K} {j k : K} {c : Nat} {x : Client K} (h : SoleAt s j)
    (hX : Contexts s) (hcp : s'.completion j = s.completion j)
    (hk : (s'.port j).keys = (s.port j).keys) (hj : j ≠ k) (hc : (s.client c).port = some k)
    (hcl : s'.client = Function.update s.client c x) (hx : x.port = (s.client c).port) :
    SoleAt s' j := by
  refine h.other hX hcp hk hj (fun d => ?_) fun d hd => ?_
  · by_cases he : d = c
    · subst he
      simpa [hcl] using hx
    · simp [hcl, he]
  · have hne : d ≠ c := by
      rintro rfl
      exact hd hc
    simp [hcl, hne]

theorem SoleAt.unseen {s s' : State K} {k : K} {c : Nat} {x : Client K} (h : SoleAt s k)
    (hu : Unseen s c) (hcp : s'.completion = s.completion) (hk : s'.port = s.port)
    (hcl : s'.client = Function.update s.client c x)
    (hx : x.outstanding = true → x.ctx = .live ∧ x.overlapped = .live) : SoleAt s' k := by
  have hsame {d : Nat} (hd : d ≠ c) : SameContext (s.client d) (s'.client d) := by
    rw [hcl, Function.update_of_ne hd]
    exact .refl _
  refine h.frame (congrFun hcp k) (by rw [hk]) (fun d hd => hsame ?_) fun d ho _ => ?_
  · rintro rfl
    rcases hd with hd | hd
    · exact hu.unnamed k hd
    · exact hu.unqueued k hd
  · by_cases hd : d = c
    · subst hd
      rw [hcl, Function.update_self] at ho ⊢
      exact Or.inr (hx ho)
    · exact Or.inl (hsame hd)

variable [DecidableEq K]

/-- A thread does not find its port closed while its key variable names a client whose receive
is outstanding again. -/
def keyIdle (s : State K) : Label K → Bool
  | .getStatus k =>
    !(s.port k).closed || (s.completion k).clientCtx.all fun c => !(s.client c).outstanding
  | _ => true

theorem ContextChange.sole {s s' : State K} {l : Label K} (h : ContextChange s l s')
    (hC : Calls s) (hX : Contexts s) (hO : Owned s) (hI : ∀ k, SoleAt s k)
    (hok : keyIdle s l = true) (j : K) : SoleAt s' j := by
  have hidle {c : Nat} (hu : Unseen s c) : (s.client c).outstanding = true → False := by
    simp [hu.idle]
  cases h with
  | quiet hcp hpk hcl => exact (hI j).same (congrFun hcp j) (hpk.keys j) hcl
  | returned hcp hpk hcl =>
    rcases hcp j with he | ⟨hp, he⟩
    · exact (hI j).same he (by rw [hpk]) fun c => hcl ▸ .refl _
    · exact (hI j).move he (by rw [hpk]) (fun c => hcl ▸ .refl _)
        (by simp [hp, CompletionPc.paired]) (by simp) (by simp [hp, CompletionPc.ownsCtx])
        (by simp [hp, CompletionPc.ownsOverlapped])
        (by simp [hp, CompletionPc.left])
  | @calloc k c hl hm hc hcp hpk hcl =>
    have hu := (hX.unused c hc).2
    exact (hI j).unseen hu hcp hpk hcl fun ho => (hidle hu ho).elim
  | @associate k c hm hcp hpk hcl =>
    have hu := (hX.main k _ c hm rfl).2
    exact (hI j).unseen hu hcp hpk hcl fun ho => (hidle hu ho).elim
  | @recvFirst k c ok hl hm hcp hpk hcl =>
    obtain ⟨hx, hu⟩ := hX.main k _ c hm rfl
    exact (hI j).unseen hu hcp hpk hcl fun _ => ⟨hx, rfl⟩
  | @recvFailed k c hl hm hcp hpk hcl =>
    have hu := (hX.main k _ c hm rfl).2
    exact (hI j).unseen hu hcp hpk hcl fun ho => (hidle hu ho).elim
  | @created k hm hcp hpk hcl =>
    by_cases hj : j = k
    · subst hj
      have hp := hC.fresh.completion j
        (by simp [State.phase, hC.fresh.started j _ hm, hm, MainPc.phase])
      have hcp : s'.completion j = ⟨.getStatus, none, none⟩ := by simp [hcp]
      refine ⟨fun hp => ?_, fun c _ hc => ?_, fun c ha _ => ?_, fun c hc => ?_, fun c hc => ?_⟩
      · simp [hcp, CompletionPc.paired] at hp
      · simp [hcp] at hc
      · rw [hcl, hpk] at ha
        rw [hcl]
        exact (hI j).awaited c ha (by rw [hp]; rfl)
      · simp [hcp] at hc
      · simp [hcp] at hc
    · exact (hI j).same (by simp [hcp, hj]) (by rw [hpk]) fun c => hcl ▸ .refl _
  | @closed k hl hp hc hcp hpk hcl =>
    by_cases hj : j = k
    · subst hj
      subst hl
      refine (hI j).closed hp (fun c hctx => ?_) (by simp [hcp]) hcl
      simpa [keyIdle, hc, hctx] using hok
    · exact (hI j).same (by simp [hcp, hj]) (by rw [hpk]) fun c => hcl ▸ .refl _
  | @packet k p rest pc hp hr hpc hcp hpk hcl =>
    by_cases hj : j = k
    · subst hj
      exact (hI j).packet hO hX hp hr hpc (by simp [hcp]) (by simp [hpk]) hcl
    · exact (hI j).same (by simp [hcp, hj]) (by simp [hpk, hj]) fun c => hcl ▸ .refl _
  | @next k pc hn hcp hpk hcl =>
    by_cases hj : j = k
    · subst hj
      obtain ⟨hp, hg, hx, ho, hl⟩ := hn.owns
      exact (hI j).move (by simp [hcp]) (by rw [hpk]) hcl hp hg hx ho hl
    · exact (hI j).same (by simp [hcp, hj]) (by rw [hpk]) hcl
  | @freeOverlapped k pc hl hp hcp hpk hcl =>
    by_cases hj : j = k
    · subst hj
      exact (hI j).freeOverlapped hp (by simp [hcp]) hpk hcl
    · refine (hI j).other hX (by simp [hcp, hj]) (by rw [hpk]) hj (fun c => ?_) fun c hc => ?_
      · rw [hcl, freeOverlapped_client]
        split <;> rfl
      · rw [hcl, freeOverlapped_client, if_neg]
        exact fun hptr => hc (hX.named k c (Or.inr hptr))
  | @freeCtx k d th hl hc hp hcp hpk hcl =>
    by_cases hj : j = k
    · subst hj
      exact (hI j).freeCtx hc hp (by simp [hcp]) hpk hcl
    · exact (hI j).otherClient hX (by simp [hcp, hj]) (by rw [hpk]) hj (hX.named k d (Or.inl hc))
        hcl rfl
  | @post k d hp hc hcp hpk hcl =>
    by_cases hj : j = k
    · subst hj
      exact (hI j).post hp hc (by simp [hcp]) hpk hcl
    · exact (hI j).otherClient hX (by simp [hcp, hj]) (by rw [hpk]) hj (hX.named k d (Or.inl hc))
        hcl rfl
  | @complete k d p buffer hk ho hp hcp hpk hcl =>
    by_cases hj : j = k
    · subst hj
      exact (hI j).complete hk ho hp.1 (congrFun hcp j) (by simp [hpk]) hcl
    · exact (hI j).otherClient hX (congrFun hcp j) (by simp [hpk, hj]) hj hk hcl rfl

/-- What a run keeps whose steps all meet `keyIdle`. -/
structure Receives (s : State K) : Prop where
  calls : Calls s
  contexts : Contexts s
  owned : Owned s
  sole : ∀ k, SoleAt s k

theorem receives_init : Receives (init : State K) :=
  ⟨calls_init, contexts_init, owned_init, soleAt_init⟩

theorem Receives.freesCtx {s : State K} {l : Label K} {c : Nat} (hI : Receives s)
    (hf : IocpServer.freesCtx s l = some c) :
    (s.client c).ctx = .live ∧ (s.client c).outstanding = false := by
  unfold IocpServer.freesCtx at hf
  split at hf
  case h_2 => cases hf
  case h_1 k =>
    have hown (ho : (s.completion k).pc.ownsCtx = true) (hc : (s.completion k).clientCtx = some c) :
        (s.client c).ctx = .live ∧ (s.client c).outstanding = false :=
      have hx := (hI.sole k).ctx c hc ho
      ⟨hx.1, hx.2.1⟩
    split at hf
    · exact hown (by simp only [*, CompletionPc.ownsCtx]) hf
    · exact hown (by simp only [*, CompletionPc.ownsCtx]) hf
    · cases hf

theorem Receives.freesOverlapped {s : State K} {l : Label K} {c : Nat} (hI : Receives s)
    (hf : IocpServer.freesOverlapped s l = some c) :
    (s.client c).overlapped = .live ∧ (s.client c).outstanding = false := by
  unfold IocpServer.freesOverlapped at hf
  split at hf
  case h_1 k =>
    have hown (ho : (s.completion k).pc.ownsOverlapped = true)
        (hc : (s.completion k).overlappedPtr = some c) :
        (s.client c).overlapped = .live ∧ (s.client c).outstanding = false :=
      have hx := (hI.sole k).overlapped c hc ho
      ⟨hx.1, hx.2.1⟩
    split at hf
    · exact hown (by simp only [*, CompletionPc.ownsOverlapped]) hf
    · exact hown (by simp only [*, CompletionPc.ownsOverlapped]) hf
    · cases hf
  case h_2 =>
    split at hf
    case h_1 k d hm =>
      obtain rfl := Option.some.inj hf
      exact ⟨hI.contexts.failed k d hm, (hI.contexts.main k _ d hm rfl).2.idle⟩
    case h_2 => cases hf
  case h_3 => cases hf

/-- The context that a step of `CompletionThread` reads. -/
def readsCtx (s : State K) : Label K → Option Nat
  | .completion k =>
    match (s.completion k).pc with
    | .closeClient | .copy _ | .exitClose => (s.completion k).clientCtx
    | _ => none
  | .recvAgain k _ => (s.completion k).clientCtx
  | _ => none

/-- The client whose receive a step posts. -/
def postsReceive (s : State K) : Label K → Option Nat
  | .recvFirst true => s.mainClient
  | .recvAgain k true => (s.completion k).clientCtx
  | _ => none

variable [Fintype K]

/-- The receives of a client that are outstanding or queued on a port. -/
def State.receives (s : State K) (c : Nat) : Nat :=
  (if (s.client c).outstanding then 1 else 0) + ∑ k, (s.port k).keys.count c

/-- At most one receive on every context, whatever the next step, and no context or `OVERLAPPED`
is freed under one, freed again or read after it was freed. -/
structure SingleOwner (s : State K) : Prop where
  receives : ∀ c, s.receives c ≤ 1
  posts : ∀ l t c, step s l = some t → postsReceive s l = some c → s.receives c = 0
  freesCtx : ∀ l t c, step s l = some t → freesCtx s l = some c →
    (s.client c).ctx = .live ∧ (s.client c).outstanding = false
  freesOverlapped : ∀ l t c, step s l = some t → freesOverlapped s l = some c →
    (s.client c).overlapped = .live ∧ (s.client c).outstanding = false
  reads : ∀ l t c, step s l = some t → readsCtx s l = some c → (s.client c).ctx = .live

omit [DecidableEq K] in
theorem receives_eq_zero {s : State K} {c : Nat} (ho : (s.client c).outstanding = false)
    (hq : ∀ k, c ∉ (s.port k).keys) : s.receives c = 0 := by
  simp [State.receives, ho, List.count_eq_zero.mpr (hq _)]

omit [DecidableEq K] in
theorem Owned.receives_le {s : State K} (hO : Owned s) (c : Nat) : s.receives c ≤ 1 := by
  by_cases hq : ∃ k, c ∈ (s.port k).keys
  · obtain ⟨k, hk⟩ := hq
    have ho : (s.client c).outstanding = false := by
      by_contra ho
      have hso := hO.sole c .kernel (.port k) (by simpa [Holds] using ho) hk
      cases hso
    have hother (j : K) (hj : j ≠ k) : (s.port j).keys.count c = 0 := by
      refine List.count_eq_zero.mpr fun hm => hj ?_
      exact Holder.port.inj (hO.sole c (.port j) (.port k) hm hk)
    have hsum : ∑ j, (s.port j).keys.count c = (s.port k).keys.count c :=
      Finset.sum_eq_single k (fun j _ => hother j) fun hk => absurd (Finset.mem_univ k) hk
    have hone := List.nodup_iff_count_le_one.mp (hO.nodup k) c
    simp only [State.receives, ho, hsum]
    simpa using hone
  · have hnone (k : K) : (s.port k).keys.count c = 0 :=
      List.count_eq_zero.mpr fun hk => hq ⟨k, hk⟩
    simp only [State.receives, hnone, Finset.sum_const_zero]
    split <;> simp

theorem Receives.step {s t : State K} {l : Label K} (hI : Receives s) (hok : keyIdle s l = true)
    (h : IocpServer.step s l = some t) : Receives t :=
  have hs := step_cases h
  ⟨hs.calls hI.calls, hs.contexts hI.calls hI.contexts, hs.owned hI.calls hI.owned,
    (hs.contextChange hI.calls).sole hI.calls hI.contexts hI.owned hI.sole hok⟩

theorem Receives.posts {s t : State K} {l : Label K} {c : Nat} (hI : Receives s)
    (h : Step s l t) (hp : postsReceive s l = some c) : s.receives c = 0 := by
  cases h with
  | @recvFirst k d hm =>
    have hc : d = c := by simpa [postsReceive, State.mainClient, hm, MainPc.client] using hp
    subst hc
    have hu := (hI.contexts.main k _ d hm rfl).2
    exact receives_eq_zero hu.idle hu.unqueued
  | @recvAgain k d hpc hc =>
    obtain rfl : d = c := Option.some.inj (hc.symm.trans hp)
    obtain ⟨-, ho, hq⟩ := (hI.sole k).ctx d hc (by rw [hpc]; rfl)
    refine receives_eq_zero ho fun j hj => ?_
    have hport := hI.contexts.queued j d hj
    rw [hI.contexts.named k d (Or.inl hc)] at hport
    obtain rfl := Option.some.inj hport
    exact hq (by rw [hpc]; rfl) hj
  | _ => simp [postsReceive] at hp

theorem Receives.reads {s t : State K} {l : Label K} {c : Nat} (hI : Receives s)
    (h : IocpServer.step s l = some t) (hr : readsCtx s l = some c) :
    (s.client c).ctx = .live := by
  unfold readsCtx at hr
  split at hr
  case h_1 k =>
    split at hr
    · exact ((hI.sole k).ctx c hr (by simp only [*, CompletionPc.ownsCtx])).1
    · exact ((hI.sole k).ctx c hr (by simp only [*, CompletionPc.ownsCtx])).1
    · exact ((hI.sole k).ctx c hr (by simp only [*, CompletionPc.ownsCtx])).1
    · cases hr
  case h_2 k ok =>
    have hpc : (s.completion k).pc = .recv := by
      cases step_cases h <;> assumption
    exact ((hI.sole k).ctx c hr (by rw [hpc]; rfl)).1
  case h_3 => cases hr

theorem Receives.singleOwner {s : State K} (hI : Receives s) : SingleOwner s where
  receives := hI.owned.receives_le
  posts _ _ _ h := hI.posts (step_cases h)
  freesCtx _ _ _ _ := hI.freesCtx
  freesOverlapped _ _ _ _ := hI.freesOverlapped
  reads _ _ _ := hI.reads

/-- Nothing is freed twice, and what has been freed stays so. -/
def FreedOnce (h : List Nat) (heap : Nat → Heap) : Prop :=
  ∀ c, h.count c = 0 ∨ h.count c = 1 ∧ heap c = .freed

theorem FreedOnce.next {h : List Nat} {heap heap' : Nat → Heap} (hh : FreedOnce h heap)
    {freed : Option Nat} (hlive : ∀ c, freed = some c → heap c = .live)
    (hfreed : ∀ c, freed = some c → heap' c = .freed)
    (hstay : ∀ c, heap c = .freed → heap' c = .freed) : FreedOnce (h ++ freed.toList) heap' := by
  intro c
  rw [List.count_append]
  cases freed with
  | none => simpa using (hh c).imp_right fun hc => ⟨hc.1, hstay c hc.2⟩
  | some d =>
    by_cases hd : d = c
    · subst hd
      have hzero : h.count d = 0 := (hh d).resolve_right fun hc => by simp [hlive d rfl] at hc
      exact Or.inr ⟨by simp [hzero], hfreed d rfl⟩
    · have hnot : [d].count c = 0 := List.count_eq_zero.mpr (by simpa using Ne.symm hd)
      simpa [hnot] using (hh c).imp_right fun hc => ⟨hc.1, hstay c hc.2⟩

theorem Receives.ctx_freed {s t : State K} {l : Label K} {c : Nat} (hI : Receives s)
    (h : IocpServer.step s l = some t) :
    (IocpServer.freesCtx s l = some c → (t.client c).ctx = .freed) ∧
      ((s.client c).ctx = .freed → (t.client c).ctx = .freed) := by
  constructor
  · intro hf
    unfold IocpServer.freesCtx at hf
    split at hf
    case h_2 => cases hf
    case h_1 k =>
      split at hf
      case h_3 => cases hf
      all_goals
        rename_i hp
        simp only [IocpServer.step, completionStep, hp, hf, Option.some.injEq] at h
        subst h
        simp [State.freeCtx, State.setClient, State.setCompletion]
  · intro hc
    rcases ((step_cases h).contextChange hI.calls).ctx_cases c with he | ⟨-, he, -⟩ | ⟨-, he⟩
    · exact he.trans hc
    · simp [hc] at he
    · exact he

theorem Receives.overlapped_freed {s t : State K} {l : Label K} {c : Nat} (hI : Receives s)
    (h : IocpServer.step s l = some t) :
    (IocpServer.freesOverlapped s l = some c → (t.client c).overlapped = .freed) ∧
      ((s.client c).overlapped = .freed → (t.client c).overlapped = .freed) := by
  constructor
  · intro hf
    unfold IocpServer.freesOverlapped at hf
    split at hf
    case h_1 k =>
      split at hf
      case h_1 hp =>
        cases hc : (s.completion k).clientCtx with
        | _ =>
          simp only [IocpServer.step, completionStep, hp, hc, hf, Option.some.injEq] at h
          subst h
          simp [State.freeOverlapped, State.setCompletion]
      case h_2 hp =>
        simp only [IocpServer.step, completionStep, hp, hf, Option.some.injEq] at h
        subst h
        simp [State.freeOverlapped, State.setCompletion]
      case h_3 => cases hf
    case h_2 =>
      split at hf
      case h_1 k d hm =>
        obtain rfl := Option.some.inj hf
        simp only [IocpServer.step, mainStep, hm, Option.some.injEq] at h
        subst h
        simp [State.setClient]
      case h_2 => cases hf
    case h_3 => cases hf
  · intro hc
    rcases ((step_cases h).contextChange hI.calls).overlapped_cases c with
      he | ⟨⟨k, hm⟩, -, -⟩ | ⟨-, he⟩
    · exact he.trans hc
    · have hu := hI.contexts.first k _ c hm rfl
      simp [hc] at hu
    · exact he

/-- The contexts and the `OVERLAPPED`s that a run frees. -/
def freed (frees : State K → Label K → Option Nat) (tr : List (Label K)) : List Nat :=
  outputs step (fun s l => (frees s l).toList) init tr

theorem freedOnce_of_meets (heap : Client K → Heap) {frees : State K → Label K → Option Nat}
    (hlive : ∀ s l c, Receives s → frees s l = some c → heap (s.client c) = .live)
    (hfreed : ∀ s l t c, Receives s → step s l = some t →
      (frees s l = some c → heap (t.client c) = .freed) ∧
        (heap (s.client c) = .freed → heap (t.client c) = .freed))
    {tr : List (Label K)} {s : State K} (hm : Meets step (fun s l => keyIdle s l = true) init tr)
    (h : exec step init tr = some s) (c : Nat) : (freed frees tr).count c ≤ 1 := by
  have hI : Receives s ∧ FreedOnce ([] ++ freed frees tr) fun c => heap (s.client c) := by
    refine exec_history_of_meets _ (I := fun h s => Receives s ∧ FreedOnce h fun c =>
      heap (s.client c)) (fun h s l t hI hok hs => ?_) ⟨receives_init, fun c => Or.inl rfl⟩ hm h
    exact ⟨hI.1.step hok hs, hI.2.next (fun c => hlive s l c hI.1)
      (fun c => (hfreed s l t c hI.1 hs).1) fun c => (hfreed s l t c hI.1 hs).2⟩
  rcases hI.2 c with hc | ⟨hc, -⟩ <;> simp_all

/-- As long as no thread finds its port closed under an outstanding receive of the client in its
key variable, every context and every `OVERLAPPED` has a single owner. -/
theorem receives_single_owner {tr : List (Label K)} {s : State K}
    (hm : Meets step (fun s l => keyIdle s l = true) init tr) (h : exec step init tr = some s) :
    SingleOwner s ∧ ∀ c, (freed freesCtx tr).count c ≤ 1 ∧
      (freed freesOverlapped tr).count c ≤ 1 := by
  have hI : Receives s := exec_invariant_of_meets (I := Receives) (fun s l t hI => hI.step)
    receives_init hm h
  refine ⟨hI.singleOwner, fun c => ⟨?_, ?_⟩⟩
  · exact freedOnce_of_meets Client.ctx (fun s l c hI hf => (hI.freesCtx hf).1)
      (fun s l t c hI => hI.ctx_freed) hm h c
  · exact freedOnce_of_meets Client.overlapped
      (fun s l c hI hf => (hI.freesOverlapped hf).1) (fun s l t c hI => hI.overlapped_freed) hm h c

/-- A client sends data, its receive is posted again, and the window is stopped. -/
def stopReceiving : List (Label Unit) :=
  startRun ++ [.createQueue true, .main] ++ acceptClient 0 ++
    [.arrive 0 [72], .getStatus (), .completion (), .enqueue () (some 0)] ++
    passQueue (.completion ()) ++ [.recvAgain () true, .cleanClose, .cleanReset, .calloc 1,
      .accept false, .main]

/-- The thread takes the shutdown packet before the port is closed. -/
def shutDown : List (Label Unit) :=
  stopReceiving ++ [.getStatus (), .completion (), .completion (), .completion (),
    .waitCompletion false, .waitHandler true, .main, .main]

theorem receives_single_owner_shutDown : ∃ s, exec step init shutDown = some s ∧
    (s.port ()).closed = true ∧ SingleOwner s ∧ ∀ c, (freed freesCtx shutDown).count c ≤ 1 ∧
      (freed freesOverlapped shutDown).count c ≤ 1 := by
  obtain ⟨s, hs, hp⟩ := exec_exists step init shutDown (fun s => (s.port ()).closed) (by decide)
  exact ⟨s, hs, hp, receives_single_owner (by decide) hs⟩

/-- Both waits time out, and the port is closed before the thread takes the shutdown packet: it
finds the client of its last packet in its key variable. -/
def closedUnderReceive : List (Label Unit) :=
  stopReceiving ++ [.waitCompletion true, .waitHandler true, .main, .main, .getStatus (),
    .completion (), .completion ()]

theorem context_freed_under_receive : ¬ ∀ (tr : List (Label Unit)) (s : State Unit),
    exec step init tr = some s → SingleOwner s := by
  intro h
  obtain ⟨s, hs, hp⟩ := exec_exists step init closedUnderReceive
    (fun s => decide (freesCtx s (.completion ()) = some 0) && (s.client 0).outstanding &&
      (step s (.completion ())).isSome) (by decide)
  simp only [Bool.and_eq_true, decide_eq_true_eq] at hp
  obtain ⟨t, ht⟩ := Option.isSome_iff_exists.mp hp.2
  have ho := ((h _ s hs).freesCtx _ t 0 ht hp.1.1).2
  simp [hp.1.2] at ho

end Cexp.IocpServer
