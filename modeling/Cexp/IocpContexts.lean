import Cexp.IocpOwnership

/-! Which threads, ports and receives know the context of a client, and what one step can do to
it. Until its first receive is posted only the accept loop knows it. -/

namespace Cexp.IocpServer

open Transition

variable {K : Type}

/-- The context that the accept loop has allocated and not handed on. -/
def MainPc.context : MainPc → Option Nat
  | .accept c | .setTarget c | .associate c | .recv c | .recvFailed c => some c
  | _ => none

def CompletionThread.names (th : CompletionThread K) (c : Nat) : Prop :=
  th.clientCtx = some c ∨ th.overlappedPtr = some c

/-- No receive of `c` is outstanding or queued, and no thread has a pointer to it. -/
structure Unseen (s : State K) (c : Nat) : Prop where
  idle : (s.client c).outstanding = false
  unqueued : ∀ k, c ∉ (s.port k).keys
  unnamed : ∀ k, ¬ (s.completion k).names c

structure Contexts (s : State K) : Prop where
  packet : ∀ k, ∀ p ∈ (s.port k).packets, p.overlapped = p.key
  queued : ∀ k c, c ∈ (s.port k).keys → (s.client c).port = some k
  named : ∀ k c, (s.completion k).names c → (s.client c).port = some k
  unused : ∀ c, (s.client c).ctx = .unused → (s.client c).overlapped = .unused ∧ Unseen s c
  main : ∀ k p c, s.main = some (k, p) → p.context = some c →
    (s.client c).ctx = .live ∧ Unseen s c
  first : ∀ k p c, s.main = some (k, p) → p.client = some c → (s.client c).overlapped = .unused
  failed : ∀ k c, s.main = some (k, .recvFailed c) → (s.client c).overlapped = .live

theorem contexts_init : Contexts (init : State K) where
  packet _ _ hp := by cases hp
  queued _ _ hc := by cases hc
  named _ _ hn := by rcases hn with hn | hn <;> cases hn
  unused c _ := by
    refine ⟨rfl, rfl, fun k hk => ?_, fun k hn => ?_⟩
    · cases hk
    · rcases hn with hn | hn <;> cases hn
  main _ _ _ hm := by cases hm
  first _ _ _ hm := by cases hm
  failed _ _ hm := by cases hm

/-- The same client but for its socket and its buffer. -/
structure SameContext (x y : Client K) : Prop where
  ctx : y.ctx = x.ctx
  overlapped : y.overlapped = x.overlapped
  port : y.port = x.port
  outstanding : y.outstanding = x.outstanding

theorem SameContext.refl (x : Client K) : SameContext x x := ⟨rfl, rfl, rfl, rfl⟩

/-- The ports hold the same packets, apart from shutdown packets. -/
structure SamePackets (f g : K → Port) : Prop where
  keys : ∀ k, (g k).keys = (f k).keys
  packets : ∀ k, ∀ p ∈ (g k).packets, p ∈ (f k).packets ∨ p.overlapped = p.key

theorem SamePackets.refl (f : K → Port) : SamePackets f f := ⟨fun _ => rfl, fun _ _ => Or.inl⟩

/-- The order of the operations of `CompletionThread` that leave its two pointers alone. -/
inductive CompletionPc.Next (clientCtx : Option Nat) : CompletionPc K → CompletionPc K → Prop where
  | closeClient {c : Nat} (hc : clientCtx = some c) : Next clientCtx .closeClient .clearTarget
  | clearTarget : Next clientCtx .clearTarget .freeClient
  | copy {n : Nat} {data : Block} : Next clientCtx (.copy n) (.enqueue data n)
  | enqueue {n : Nat} {data : Block} {q : K} : Next clientCtx (.enqueue data n) (.inEnqueue q)
  | noNode {n : Nat} {data : Block} : Next clientCtx (.enqueue data n) .recv
  | recvFailed : Next clientCtx .recv .exitClose
  | exitClose {c : Nat} (hc : clientCtx = some c) : Next clientCtx .exitClose .exitClear
  | exitNoClient (hc : clientCtx = none) : Next clientCtx .exitClose .exitFreeOverlapped
  | exitClear : Next clientCtx .exitClear .exitFree

variable [DecidableEq K]

/-- What a step does to the contexts, the packets and the pointers of the threads. -/
inductive ContextChange (s : State K) (l : Label K) (s' : State K) : Prop where
  | quiet (hcp : s'.completion = s.completion) (hpk : SamePackets s.port s'.port)
    (hcl : ∀ c, SameContext (s.client c) (s'.client c))
  | returned {q : K} (hcp : ∀ k, s'.completion k = s.completion k ∨
      (s.completion k).pc = .inEnqueue q ∧ s'.completion k = { s.completion k with pc := .recv })
    (hpk : s'.port = s.port) (hcl : s'.client = s.client)
  | calloc {k : K} {c : Nat} (hl : l = .calloc c) (hm : s.main = some (k, .calloc))
    (hc : (s.client c).ctx = .unused) (hcp : s'.completion = s.completion)
    (hpk : s'.port = s.port)
    (hcl : s'.client = Function.update s.client c { s.client c with ctx := .live })
  | associate {k : K} {c : Nat} (hm : s.main = some (k, .associate c))
    (hcp : s'.completion = s.completion) (hpk : s'.port = s.port)
    (hcl : s'.client = Function.update s.client c { s.client c with port := some k })
  | recvFirst {k : K} {c : Nat} {ok : Bool} (hl : l = .recvFirst ok)
    (hm : s.main = some (k, .recv c))
    (hcp : s'.completion = s.completion) (hpk : s'.port = s.port)
    (hcl : s'.client = Function.update s.client c { s.client c with
      overlapped := .live, outstanding := ok || (s.client c).outstanding })
  | recvFailed {k : K} {c : Nat} (hl : l = .main) (hm : s.main = some (k, .recvFailed c))
    (hcp : s'.completion = s.completion) (hpk : s'.port = s.port)
    (hcl : s'.client = Function.update s.client c { s.client c with
      overlapped := .freed, socket := .closed })
  | created {k : K} (hm : s.main = some (k, .createCompletion))
    (hcp : s'.completion = Function.update s.completion k ⟨.getStatus, none, none⟩)
    (hpk : s'.port = s.port) (hcl : s'.client = s.client)
  | closed {k : K} (hl : l = .getStatus k) (hp : (s.completion k).pc = .getStatus)
    (hc : (s.port k).closed = true)
    (hcp : s'.completion = Function.update s.completion k
      ⟨.exitClose, (s.completion k).clientCtx, none⟩)
    (hpk : s'.port = s.port) (hcl : s'.client = s.client)
  | packet {k : K} {p : Packet} {rest : List Packet} {pc : CompletionPc K}
    (hp : (s.completion k).pc = .getStatus) (hr : (s.port k).packets = p :: rest)
    (hpc : pc = .exitClose ∨ pc = .emptyTransfer ∨ pc = .copy p.transferred)
    (hcp : s'.completion = Function.update s.completion k ⟨pc, p.key, p.overlapped⟩)
    (hpk : s'.port = Function.update s.port k { s.port k with packets := rest })
    (hcl : s'.client = s.client)
  | next {k : K} {pc : CompletionPc K}
    (hn : CompletionPc.Next (s.completion k).clientCtx (s.completion k).pc pc)
    (hcp : s'.completion = Function.update s.completion k { s.completion k with pc := pc })
    (hpk : s'.port = s.port) (hcl : ∀ c, SameContext (s.client c) (s'.client c))
  | freeOverlapped {k : K} {pc : CompletionPc K} (hl : l = .completion k)
    (hp : (s.completion k).pc = .emptyTransfer ∧
        pc = (if (s.completion k).clientCtx = none then .exitClose else .closeClient) ∨
      (s.completion k).pc = .exitFreeOverlapped ∧ pc = .exited)
    (hcp : s'.completion = Function.update s.completion k { s.completion k with pc := pc })
    (hpk : s'.port = s.port)
    (hcl : s'.client = (s.freeOverlapped (s.completion k).overlappedPtr).client)
  | freeCtx {k : K} {c : Nat} {th : CompletionThread K} (hl : l = .completion k)
    (hc : (s.completion k).clientCtx = some c)
    (hp : (s.completion k).pc = .freeClient ∧
        th = { s.completion k with pc := .getStatus, clientCtx := none } ∨
      (s.completion k).pc = .exitFree ∧ th = { s.completion k with pc := .exitFreeOverlapped })
    (hcp : s'.completion = Function.update s.completion k th) (hpk : s'.port = s.port)
    (hcl : s'.client = Function.update s.client c { s.client c with ctx := .freed })
  | post {k : K} {c : Nat} (hp : (s.completion k).pc = .recv)
    (hc : (s.completion k).clientCtx = some c)
    (hcp : s'.completion = Function.update s.completion k { s.completion k with pc := .getStatus })
    (hpk : s'.port = s.port)
    (hcl : s'.client = Function.update s.client c { s.client c with outstanding := true })
  | complete {k : K} {c : Nat} {p : Packet} {b : List Byte}
    (hk : (s.client c).port = some k) (ho : (s.client c).outstanding = true)
    (hp : p.key = some c ∧ p.overlapped = some c) (hcp : s'.completion = s.completion)
    (hpk : s'.port = Function.update s.port k
      { s.port k with packets := (s.port k).packets ++ [p] })
    (hcl : s'.client = Function.update s.client c { s.client c with
      outstanding := false, buffer := b })

omit [DecidableEq K] in
theorem sameContext_update {cl : Nat → Client K} {c : Nat} {x : Client K}
    (h : SameContext (cl c) x) (d : Nat) : SameContext (cl d) (Function.update cl c x d) := by
  by_cases hd : d = c
  · subst hd
    simpa using h
  · rw [Function.update_of_ne hd]
    exact .refl _

omit [DecidableEq K] in
theorem field_update {α : Type} (p : Client K → α) {f g : Nat → Client K} {c d : Nat}
    {x : Client K} (hg : g = Function.update f d x) (hx : c = d → p x = p (f d)) :
    p (g c) = p (f c) := by
  by_cases hc : c = d
  · subst hc
    simpa [hg] using hx rfl
  · simp [hg, hc]

variable [Fintype K]

theorem Step.contextChange {s s' : State K} {l : Label K} (h : Step s l s') (hC : Calls s) :
    ContextChange s l s' := by
  have hsame (c : Nat) : SameContext (s.client c) (s.client c) := .refl _
  cases h with
  | calloc hm hc => exact .calloc rfl hm hc rfl rfl rfl
  | accept => exact .quiet rfl (.refl _) (sameContext_update ⟨rfl, rfl, rfl, rfl⟩)
  | recvFirst hm => exact .recvFirst rfl hm rfl rfl (by simp [State.setClient, State.goto])
  | recvFirstFail hm => exact .recvFirst rfl hm rfl rfl (by simp [State.setClient, State.goto])
  | associate hm => exact .associate hm rfl rfl rfl
  | recvFailed hm => exact .recvFailed rfl hm rfl rfl rfl
  | createCompletion hm => exact .created hm rfl rfl rfl
  | cleanup => exact .quiet rfl (.refl _) fun c => ⟨rfl, rfl, rfl, rfl⟩
  | @post k hm =>
    refine .quiet rfl ⟨fun j => ?_, fun j p hp => ?_⟩ hsame
    · by_cases hj : j = k
      · subst hj
        simp [State.setPort, Port.keys]
      · simp [State.setPort, State.goto, hj]
    · by_cases hj : j = k
      · subst hj
        simp only [State.setPort, Function.update_self, List.mem_append, List.mem_singleton] at hp
        rcases hp with hp | rfl
        · exact Or.inl hp
        · exact Or.inr rfl
      · exact Or.inl (by simpa [State.setPort, State.goto, hj] using hp)
  | @closePort k hm =>
    refine .quiet rfl ⟨fun j => ?_, fun j p hp => Or.inl ?_⟩ hsame
    · by_cases hj : j = k
      · subst hj
        simp [State.setPort, Port.keys]
      · simp [State.setPort, State.goto, hj]
    · by_cases hj : j = k
      · subst hj
        simpa [State.setPort] using hp
      · simpa [State.setPort, State.goto, hj] using hp
  | getClosed hp hc => exact .closed rfl hp hc rfl rfl rfl
  | getFailed hp hc hr => exact .packet hp hr (Or.inl rfl) rfl rfl rfl
  | getEmpty hp hc hr => exact .packet hp hr (Or.inr (Or.inl rfl)) rfl rfl rfl
  | getData hp hc hr => exact .packet hp hr (Or.inr (Or.inr rfl)) rfl rfl rfl
  | emptyTransfer hp hc => exact .freeOverlapped rfl (Or.inl ⟨hp, by simp [hc]⟩) rfl rfl rfl
  | lastTransfer hp hc => exact .freeOverlapped rfl (Or.inl ⟨hp, by simp [hc]⟩) rfl rfl rfl
  | exitFreeOverlapped hp => exact .freeOverlapped rfl (Or.inr ⟨hp, rfl⟩) rfl rfl rfl
  | closeClient hp hc =>
    exact .next (by rw [hp]; exact .closeClient hc) rfl rfl
      (sameContext_update ⟨rfl, rfl, rfl, rfl⟩)
  | clearClient hp => exact .next (by rw [hp]; exact .clearTarget) rfl rfl hsame
  | freeClient hp hc => exact .freeCtx rfl hc (Or.inl ⟨hp, rfl⟩) rfl rfl rfl
  | copy hp => exact .next (by rw [hp]; exact .copy) rfl rfl hsame
  | exitClose hp hc =>
    exact .next (by rw [hp]; exact .exitClose hc) rfl rfl (sameContext_update ⟨rfl, rfl, rfl, rfl⟩)
  | exitNoClient hp hc => exact .next (by rw [hp]; exact .exitNoClient hc) rfl rfl hsame
  | exitClear hp => exact .next (by rw [hp]; exact .exitClear) rfl rfl hsame
  | exitFree hp hc => exact .freeCtx rfl hc (Or.inr ⟨hp, rfl⟩) rfl rfl rfl
  | enqueueNull hp => exact .next (by rw [hp]; exact .noNode) rfl rfl hsame
  | @enqueue k q data n newNode x hp =>
    refine .next ?_ rfl rfl hsame
    rw [hp]
    split
    · exact .noNode
    · exact .enqueue
  | recvAgain hp hc => exact .post hp hc rfl rfl rfl
  | recvAgainFail hp => exact .next (by rw [hp]; exact .recvFailed) rfl rfl hsame
  | @queue q l x hl hx => exact .returned (hC.sync.resume_completion hl hx) rfl rfl
  | @arrive c k chunk hl hb hk ho =>
    exact .complete (p := ⟨chunk.length, some c, some c, true⟩)
      (b := chunk ++ (s.client c).buffer.drop chunk.length) hk ho ⟨rfl, rfl⟩ rfl rfl
      (by simp [State.setClient, State.queuePacket, State.setPort])
  | @peerClosed c k hk ho =>
    exact .complete (p := ⟨0, some c, some c, true⟩) (b := (s.client c).buffer) hk ho
      ⟨rfl, rfl⟩ rfl rfl rfl
  | @fail c k hk ho =>
    exact .complete (p := ⟨0, some c, some c, false⟩) (b := (s.client c).buffer) hk ho
      ⟨rfl, rfl⟩ rfl rfl rfl
  | _ => exact .quiet rfl (.refl _) hsame

omit [Fintype K]

theorem names_update {cp : K → CompletionThread K} {k j : K} {th : CompletionThread K} {c : Nat}
    (h : (Function.update cp k th j).names c) : (j = k ∧ th.names c) ∨ (cp j).names c :=
  update_cases (P := fun th => th.names c) h

theorem ContextChange.names_cases {s s' : State K} {l : Label K} (h : ContextChange s l s')
    (hI : ∀ k, ∀ p ∈ (s.port k).packets, p.overlapped = p.key) {k : K} {c : Nat}
    (hn : (s'.completion k).names c) : (s.completion k).names c ∨ c ∈ (s.port k).keys := by
  have hmove {j : K} {th : CompletionThread K}
      (hcp : s'.completion = Function.update s.completion j th)
      (hth : th.names c → (s.completion j).names c ∨ c ∈ (s.port j).keys) :
      (s.completion k).names c ∨ c ∈ (s.port k).keys := by
    rcases names_update (hcp ▸ hn) with ⟨rfl, hn'⟩ | hn'
    · exact hth hn'
    · exact Or.inl hn'
  cases h with
  | quiet hcp | calloc _ _ _ hcp | associate _ hcp | recvFirst _ _ hcp | recvFailed _ _ hcp
  | complete _ _ _ hcp => exact Or.inl (hcp ▸ hn)
  | returned hcp =>
    rcases hcp k with he | ⟨-, he⟩
    · exact Or.inl (he ▸ hn)
    · rw [he] at hn
      exact Or.inl hn
  | created _ hcp => exact hmove hcp fun hn' => by rcases hn' with hn' | hn' <;> cases hn'
  | closed _ _ _ hcp =>
    refine hmove hcp fun hn' => Or.inl (Or.inl ?_)
    rcases hn' with hn' | hn'
    · exact hn'
    · cases hn'
  | @packet j p rest pc hp hr _ hcp =>
    have hmem : p ∈ (s.port j).packets := by rw [hr]; exact List.mem_cons_self
    refine hmove hcp fun hn' => Or.inr (List.mem_filterMap.mpr ⟨p, hmem, ?_⟩)
    rcases hn' with hn' | hn'
    · exact hn'
    · exact (hI j p hmem).symm.trans hn'
  | next _ hcp | freeOverlapped _ _ hcp | post _ _ hcp => exact hmove hcp Or.inl
  | freeCtx _ _ hp hcp =>
    refine hmove hcp fun hn' => Or.inl ?_
    rcases hp with ⟨-, rfl⟩ | ⟨-, rfl⟩
    · rcases hn' with hn' | hn'
      · cases hn'
      · exact Or.inr hn'
    · exact hn'

theorem ContextChange.keys_cases {s s' : State K} {l : Label K} (h : ContextChange s l s')
    {k : K} {c : Nat} (hc : c ∈ (s'.port k).keys) : c ∈ (s.port k).keys ∨
      (s.client c).outstanding = true ∧ (s.client c).port = some k := by
  cases h with
  | quiet _ hpk => exact Or.inl (hpk.keys k ▸ hc)
  | returned _ hpk | calloc _ _ _ _ hpk | associate _ _ hpk | recvFirst _ _ _ hpk
  | recvFailed _ _ _ hpk | created _ _ hpk | closed _ _ _ _ hpk | next _ _ hpk
  | freeOverlapped _ _ _ hpk | freeCtx _ _ _ _ hpk | post _ _ _ hpk => exact Or.inl (hpk ▸ hc)
  | packet _ hr _ _ hpk =>
    exact Or.inl (keys_update (fun _ hm => (keys_sublist hr).subset hm) k c (hpk ▸ hc))
  | @complete j d p buffer hk ho hp _ hpk =>
    rw [hpk] at hc
    by_cases hj : k = j
    · subst hj
      simp only [Port.keys, Function.update_self, List.filterMap_append, List.mem_append] at hc
      rcases hc with hc | hc
      · exact Or.inl hc
      · have hd : c = d := by simpa [hp.1, eq_comm] using hc
        exact Or.inr (hd ▸ ⟨ho, hk⟩)
    · exact Or.inl (by simpa [hj] using hc)

theorem ContextChange.outstanding_cases {s s' : State K} {l : Label K}
    (h : ContextChange s l s') {c : Nat} (hc : (s'.client c).outstanding = true) :
    (s.client c).outstanding = true ∨ (l = .recvFirst true ∧ ∃ k, s.main = some (k, .recv c)) ∨
      ∃ k, (s.completion k).names c := by
  cases h with
  | quiet _ _ hcl | next _ _ _ hcl => exact Or.inl ((hcl c).outstanding ▸ hc)
  | returned _ _ hcl | created _ _ _ hcl | closed _ _ _ _ _ hcl | packet _ _ _ _ _ hcl =>
    exact Or.inl (hcl ▸ hc)
  | calloc _ _ _ _ _ hcl | associate _ _ _ hcl | recvFailed _ _ _ _ hcl | freeCtx _ _ _ _ _ hcl
  | complete _ _ _ _ _ hcl =>
    rw [hcl] at hc
    exact Or.inl (outstanding_update hc (by simp))
  | freeOverlapped _ _ _ _ hcl => exact Or.inl ((ClientQuiet.freeOverlapped s _ c).1 (hcl ▸ hc))
  | @recvFirst k d ok hl hm _ _ hcl =>
    by_cases hd : c = d
    · subst hd
      cases ok with
      | true => exact Or.inr (Or.inl ⟨hl, k, hm⟩)
      | false =>
        rw [hcl] at hc
        exact Or.inl (outstanding_update hc (by simp))
    · rw [hcl, Function.update_of_ne hd] at hc
      exact Or.inl hc
  | @post k d _ hn _ _ hcl =>
    by_cases hd : c = d
    · subst hd
      exact Or.inr (Or.inr ⟨k, Or.inl hn⟩)
    · rw [hcl, Function.update_of_ne hd] at hc
      exact Or.inl hc

/-- The `OVERLAPPED` that a step frees. -/
def freesOverlapped (s : State K) : Label K → Option Nat
  | .completion k =>
    match (s.completion k).pc with
    | .emptyTransfer | .exitFreeOverlapped => (s.completion k).overlappedPtr
    | _ => none
  | .main =>
    match s.main with
    | some (_, .recvFailed c) => some c
    | _ => none
  | _ => none

/-- The `HANDLE_CONTEXT` that a step frees. -/
def freesCtx (s : State K) : Label K → Option Nat
  | .completion k =>
    match (s.completion k).pc with
    | .freeClient | .exitFree => (s.completion k).clientCtx
    | _ => none
  | _ => none

omit [DecidableEq K] in
theorem freeOverlapped_client (s : State K) (ptr : Option Nat) (c : Nat) :
    (s.freeOverlapped ptr).client c =
      if ptr = some c then { s.client c with overlapped := .freed } else s.client c := by
  cases ptr with
  | none => simp [State.freeOverlapped]
  | some d =>
    by_cases hd : c = d
    · subst hd
      simp [State.freeOverlapped]
    · simp [State.freeOverlapped, hd, Ne.symm hd]

theorem ContextChange.ctx_cases {s s' : State K} {l : Label K} (h : ContextChange s l s')
    (c : Nat) : (s'.client c).ctx = (s.client c).ctx ∨
      (l = .calloc c ∧ (s.client c).ctx = .unused ∧ (s'.client c).ctx = .live) ∨
      (freesCtx s l = some c ∧ (s'.client c).ctx = .freed) := by
  cases h with
  | quiet _ _ hcl | next _ _ _ hcl => exact Or.inl (hcl c).ctx
  | returned _ _ hcl | created _ _ _ hcl | closed _ _ _ _ _ hcl | packet _ _ _ _ _ hcl =>
    exact Or.inl (by rw [hcl])
  | associate _ _ _ hcl | recvFailed _ _ _ _ hcl | recvFirst _ _ _ _ hcl | post _ _ _ _ hcl
  | complete _ _ _ _ _ hcl => exact Or.inl (field_update Client.ctx hcl fun _ => rfl)
  | freeOverlapped _ _ _ _ hcl =>
    refine Or.inl ?_
    rw [hcl, freeOverlapped_client]
    split <;> rfl
  | @calloc k d hl hm hc _ _ hcl =>
    by_cases hd : c = d
    · subst hd
      exact Or.inr (Or.inl ⟨hl, hc, by simp [hcl]⟩)
    · exact Or.inl (by simp [hcl, hd])
  | @freeCtx k d th hl hc hp _ _ hcl =>
    by_cases hd : c = d
    · subst hd
      refine Or.inr (Or.inr ⟨?_, by simp [hcl]⟩)
      rcases hp with ⟨hp, -⟩ | ⟨hp, -⟩ <;> simp [hl, freesCtx, hp, hc]
    · exact Or.inl (by simp [hcl, hd])

theorem ContextChange.overlapped_cases {s s' : State K} {l : Label K} (h : ContextChange s l s')
    (c : Nat) : (s'.client c).overlapped = (s.client c).overlapped ∨
      ((∃ k, s.main = some (k, .recv c)) ∧ (∃ ok, l = .recvFirst ok) ∧
        (s'.client c).overlapped = .live) ∨
      (freesOverlapped s l = some c ∧ (s'.client c).overlapped = .freed) := by
  cases h with
  | quiet _ _ hcl | next _ _ _ hcl => exact Or.inl (hcl c).overlapped
  | returned _ _ hcl | created _ _ _ hcl | closed _ _ _ _ _ hcl | packet _ _ _ _ _ hcl =>
    exact Or.inl (by rw [hcl])
  | calloc _ _ _ _ _ hcl | associate _ _ _ hcl | post _ _ _ _ hcl | complete _ _ _ _ _ hcl
  | freeCtx _ _ _ _ _ hcl => exact Or.inl (field_update Client.overlapped hcl fun _ => rfl)
  | @recvFailed k d hl hm _ _ hcl =>
    by_cases hd : c = d
    · subst hd
      exact Or.inr (Or.inr ⟨by simp [hl, freesOverlapped, hm], by simp [hcl]⟩)
    · exact Or.inl (by simp [hcl, hd])
  | @recvFirst k d ok hl hm _ _ hcl =>
    by_cases hd : c = d
    · subst hd
      exact Or.inr (Or.inl ⟨⟨k, hm⟩, ⟨ok, hl⟩, by simp [hcl]⟩)
    · exact Or.inl (by simp [hcl, hd])
  | @freeOverlapped k pc hl hp _ _ hcl =>
    rw [hcl, freeOverlapped_client]
    split
    · refine Or.inr (Or.inr ⟨?_, rfl⟩)
      rcases hp with ⟨hp, -⟩ | ⟨hp, -⟩ <;> simpa [hl, freesOverlapped, hp]
    · exact Or.inl rfl

theorem ContextChange.port_cases {s s' : State K} {l : Label K} (h : ContextChange s l s')
    (c : Nat) : (s'.client c).port = (s.client c).port ∨
      ∃ k, s.main = some (k, .associate c) ∧ (s'.client c).port = some k := by
  cases h with
  | quiet _ _ hcl | next _ _ _ hcl => exact Or.inl (hcl c).port
  | returned _ _ hcl | created _ _ _ hcl | closed _ _ _ _ _ hcl | packet _ _ _ _ _ hcl =>
    exact Or.inl (by rw [hcl])
  | calloc _ _ _ _ _ hcl | recvFirst _ _ _ _ hcl | recvFailed _ _ _ _ hcl | post _ _ _ _ hcl
  | complete _ _ _ _ _ hcl | freeCtx _ _ _ _ _ hcl =>
    exact Or.inl (field_update Client.port hcl fun _ => rfl)
  | freeOverlapped _ _ _ _ hcl =>
    refine Or.inl ?_
    rw [hcl, freeOverlapped_client]
    split <;> rfl
  | @associate k d hm _ _ hcl =>
    by_cases hd : c = d
    · subst hd
      exact Or.inr ⟨k, hm, by simp [hcl]⟩
    · exact Or.inl (by simp [hcl, hd])

theorem ContextChange.packet_cases {s s' : State K} {l : Label K} (h : ContextChange s l s')
    (hI : ∀ k, ∀ p ∈ (s.port k).packets, p.overlapped = p.key) (k : K) :
    ∀ p ∈ (s'.port k).packets, p.overlapped = p.key := by
  intro p hp
  cases h with
  | quiet _ hpk => exact (hpk.packets k p hp).elim (hI k p) id
  | returned _ hpk | calloc _ _ _ _ hpk | associate _ _ hpk | recvFirst _ _ _ hpk
  | recvFailed _ _ _ hpk | created _ _ hpk | closed _ _ _ _ hpk | next _ _ hpk
  | freeOverlapped _ _ _ hpk | freeCtx _ _ _ _ hpk | post _ _ _ hpk => exact hI k p (hpk ▸ hp)
  | @packet j q rest pc _ hr _ _ hpk =>
    by_cases hj : k = j
    · subst hj
      refine hI k p ?_
      rw [hr]
      exact List.mem_cons_of_mem _ (by simpa [hpk] using hp)
    · exact hI k p (by simpa [hpk, hj] using hp)
  | @complete j d q buffer _ _ hq _ hpk =>
    by_cases hj : k = j
    · subst hj
      rw [hpk, Function.update_self, List.mem_append, List.mem_singleton] at hp
      rcases hp with hp | rfl
      · exact hI k p hp
      · exact hq.2.trans hq.1.symm
    · exact hI k p (by simpa [hpk, hj] using hp)

theorem Unseen.next {s s' : State K} {l : Label K} {c : Nat} (hu : Unseen s c) (hI : Contexts s)
    (h : ContextChange s l s') (hr : l = .recvFirst true → ∀ k, s.main ≠ some (k, .recv c)) :
    Unseen s' c := by
  refine ⟨?_, fun k hk => ?_, fun k hk => ?_⟩
  · by_contra ho
    rcases h.outstanding_cases (by simpa using ho) with ho | ⟨hl, k, hm⟩ | ⟨k, hn⟩
    · simp [hu.idle] at ho
    · exact hr hl k hm
    · exact hu.unnamed k hn
  · rcases h.keys_cases hk with hk | ⟨ho, -⟩
    · exact hu.unqueued k hk
    · simp [hu.idle] at ho
  · rcases h.names_cases hI.packet hk with hk | hk
    · exact hu.unnamed k hk
    · exact hu.unqueued k hk

omit [DecidableEq K] in
theorem MainPc.Next.context_cases {l : Label K} {p q : MainPc} (h : MainPc.Next l p q) {c : Nat}
    (hq : q.context = some c) : p.context = some c ∨ l = .calloc c := by
  cases h <;> simp_all [MainPc.context]

omit [DecidableEq K] in
theorem MainPc.Next.client_cases {l : Label K} {p q : MainPc} (h : MainPc.Next l p q) {c : Nat}
    (hq : q.client = some c) : p.client = some c ∨ l = .calloc c := by
  cases h <;> simp_all [MainPc.client]

theorem MainPc.context_of_client {p : MainPc} {c : Nat} (h : p.client = some c) :
    p.context = some c := by
  cases p <;> simp_all [MainPc.client, MainPc.context]

omit [DecidableEq K] in
theorem freesCtx_names {s : State K} {l : Label K} {c : Nat} (h : freesCtx s l = some c) :
    ∃ k, (s.completion k).names c := by
  unfold freesCtx at h
  split at h
  case h_2 => cases h
  case h_1 k =>
    split at h
    · exact ⟨k, Or.inl h⟩
    · exact ⟨k, Or.inl h⟩
    · cases h

omit [DecidableEq K] in
theorem freesOverlapped_names {s : State K} {l : Label K} {c : Nat}
    (h : freesOverlapped s l = some c) :
    (∃ k, (s.completion k).names c) ∨ (l = .main ∧ ∃ k, s.main = some (k, .recvFailed c)) := by
  unfold freesOverlapped at h
  split at h
  case h_1 k =>
    split at h
    · exact Or.inl ⟨k, Or.inr h⟩
    · exact Or.inl ⟨k, Or.inr h⟩
    · cases h
  case h_2 =>
    split at h
    · obtain rfl := Option.some.inj h
      exact Or.inr ⟨rfl, _, ‹s.main = _›⟩
    · cases h
  case h_3 => cases h

theorem Contexts.port_kept {s s' : State K} {l : Label K} (hI : Contexts s)
    (h : ContextChange s l s') {k : K} {c : Nat} (hp : (s.client c).port = some k)
    (hu : ¬ Unseen s c) : (s'.client c).port = some k := by
  rcases h.port_cases c with he | ⟨j, hm, -⟩
  · exact he.trans hp
  · exact absurd (hI.main j _ c hm rfl).2 hu

theorem Unseen.overlapped_unused {s s' : State K} {l : Label K} {c : Nat} (hu : Unseen s c)
    (h : ContextChange s l s') (ho : (s.client c).overlapped = .unused)
    (hr : ∀ ok, l = .recvFirst ok → ∀ k, s.main ≠ some (k, .recv c))
    (hf : ∀ k, s.main ≠ some (k, .recvFailed c)) : (s'.client c).overlapped = .unused := by
  rcases h.overlapped_cases c with he | ⟨⟨k, hm⟩, ⟨ok, hl⟩, -⟩ | ⟨hl, -⟩
  · exact he.trans ho
  · exact absurd hm (hr ok hl k)
  · rcases freesOverlapped_names hl with ⟨k, hn⟩ | ⟨-, k, hm⟩
    · exact absurd hn (hu.unnamed k)
    · exact absurd hm (hf k)

theorem Unseen.live {s s' : State K} {l : Label K} {c : Nat} (hu : Unseen s c)
    (h : ContextChange s l s') (hx : (s.client c).ctx = .live) : (s'.client c).ctx = .live := by
  rcases h.ctx_cases c with he | ⟨-, he, -⟩ | ⟨hf, -⟩
  · exact he.trans hx
  · simp [hx] at he
  · obtain ⟨j, hn⟩ := freesCtx_names hf
    exact absurd hn (hu.unnamed j)

variable [Fintype K]

/-- What the main thread has after the step it had before, or it has just got it by `calloc`. -/
theorem Step.main_before {s s' : State K} {l : Label K} (h : Step s l s') {P : MainPc → Prop}
    {c : Nat} (h0 : ¬ P .startup) (hn : ∀ p q, MainPc.Next l p q → P q → P p ∨ l = .calloc c)
    {k : K} {q : MainPc} (hm' : s'.main = some (k, q)) (hq : P q) :
    (∃ p, s.main = some (k, p) ∧ P p) ∨ (l = .calloc c ∧ (s.client c).ctx = .unused) := by
  cases h.mainMove with
  | same hm => exact Or.inl ⟨q, hm ▸ hm', hq⟩
  | start _ _ hj =>
    obtain ⟨rfl, rfl⟩ := Prod.mk.inj (Option.some.inj (hj.symm.trans hm'))
    exact absurd hq h0
  | done _ hj => simp [hj] at hm'
  | next hm hj _ hpq =>
    obtain ⟨rfl, rfl⟩ := Prod.mk.inj (Option.some.inj (hj.symm.trans hm'))
    rcases hn _ _ hpq hq with hp | rfl
    · exact Or.inl ⟨_, hm, hp⟩
    · cases h with
      | calloc _ hc => exact Or.inr ⟨rfl, hc⟩

theorem Step.context_cases {s s' : State K} {l : Label K} (h : Step s l s') {k : K} {q : MainPc}
    {c : Nat} (hm' : s'.main = some (k, q)) (hq : q.context = some c) :
    l ≠ .recvFirst true ∧ ((∃ p, s.main = some (k, p) ∧ p.context = some c) ∨
      (l = .calloc c ∧ (s.client c).ctx = .unused)) := by
  refine ⟨?_, h.main_before (P := fun p => p.context = some c) (fun h0 => by cases h0)
    (fun _ _ hn => hn.context_cases) hm' hq⟩
  rintro rfl
  cases h
  obtain ⟨rfl, rfl⟩ := Prod.mk.inj (Option.some.inj hm')
  cases hq

theorem Step.client_cases {s s' : State K} {l : Label K} (h : Step s l s') {k : K} {q : MainPc}
    {c : Nat} (hm' : s'.main = some (k, q)) (hq : q.client = some c) :
    (∀ ok, l ≠ .recvFirst ok) ∧ ((∃ p, s.main = some (k, p) ∧ p.client = some c) ∨
      (l = .calloc c ∧ (s.client c).ctx = .unused)) := by
  refine ⟨?_, h.main_before (P := fun p => p.client = some c) (fun h0 => by cases h0)
    (fun _ _ hn => hn.client_cases) hm' hq⟩
  rintro ok rfl
  cases h <;> obtain ⟨rfl, rfl⟩ := Prod.mk.inj (Option.some.inj hm') <;> cases hq

theorem Step.main_moves {s s' : State K} (h : Step s .main s') : s'.main ≠ s.main := by
  cases h <;> simp_all [State.goto, State.setCompletion, State.setHandler, State.setClient,
    State.setPort, State.closeListener]

theorem Step.failed {s s' : State K} {l : Label K} (h : Step s l s') (hC : Calls s)
    (hI : Contexts s) {k : K} {c : Nat} (hm' : s'.main = some (k, .recvFailed c)) :
    (s'.client c).overlapped = .live := by
  cases h.mainMove with
  | same he =>
    have hm := he ▸ hm'
    have hu := (hI.main k _ c hm rfl).2
    rcases (h.contextChange hC).overlapped_cases c with ho | ⟨-, -, ho⟩ | ⟨hf, -⟩
    · exact ho.trans (hI.failed k c hm)
    · exact ho
    · rcases freesOverlapped_names hf with ⟨j, hn⟩ | ⟨rfl, -⟩
      · exact absurd hn (hu.unnamed j)
      · exact absurd he h.main_moves
  | start _ _ hj => simp [hj] at hm'
  | done _ hj => simp [hj] at hm'
  | next _ hj _ hn =>
    obtain ⟨rfl, rfl⟩ := Prod.mk.inj (Option.some.inj (hj.symm.trans hm'))
    cases hn
    cases h with
    | recvFirstFail =>
      obtain ⟨-, he⟩ := Prod.mk.inj (Option.some.inj hm')
      obtain rfl := MainPc.recvFailed.inj he
      simp [State.setClient]

theorem Step.contexts {s s' : State K} {l : Label K} (h : Step s l s') (hC : Calls s)
    (hI : Contexts s) : Contexts s' := by
  have hc := h.contextChange hC
  have hlive {k : K} {p : MainPc} {c : Nat} (hm : s.main = some (k, p))
      (hp : p.context = some c) : (s.client c).ctx ≠ .unused := by
    simp [(hI.main k p c hm hp).1]
  refine ⟨hc.packet_cases hI.packet, fun k c hk => ?_, fun k c hn => ?_, fun c hu => ?_,
    fun k q c hm hq => ?_, fun k q c hm hq => ?_, fun k c hm => h.failed hC hI hm⟩
  · rcases hc.keys_cases hk with hk | ⟨ho, hp⟩
    · exact hI.port_kept hc (hI.queued k c hk) fun hu => hu.unqueued k hk
    · exact hI.port_kept hc hp fun hu => by simp [hu.idle] at ho
  · rcases hc.names_cases hI.packet hn with hn | hk
    · exact hI.port_kept hc (hI.named k c hn) fun hu => hu.unnamed k hn
    · exact hI.port_kept hc (hI.queued k c hk) fun hu => hu.unqueued k hk
  · rcases hc.ctx_cases c with he | ⟨-, -, he⟩ | ⟨-, he⟩
    · have hold := he.symm.trans hu
      obtain ⟨ho, hs⟩ := hI.unused c hold
      exact ⟨hs.overlapped_unused hc ho (fun _ _ k hm => hlive hm rfl hold)
        fun k hm => hlive hm rfl hold, hs.next hI hc fun _ k hm => hlive hm rfl hold⟩
    · simp [he] at hu
    · simp [he] at hu
  · obtain ⟨hl, ⟨p, hm, hp⟩ | ⟨rfl, hold⟩⟩ := h.context_cases hm hq
    · obtain ⟨hx, hs⟩ := hI.main k p c hm hp
      exact ⟨hs.live hc hx, hs.next hI hc fun hl' => absurd hl' hl⟩
    · refine ⟨?_, (hI.unused c hold).2.next hI hc fun _ k hm => hlive hm rfl hold⟩
      cases h with
      | calloc => simp [State.setClient]
  · obtain ⟨hl, ⟨p, hm, hp⟩ | ⟨rfl, hold⟩⟩ := h.client_cases hm hq
    · have hs := (hI.main k p c hm (MainPc.context_of_client hp)).2
      refine hs.overlapped_unused hc (hI.first k p c hm hp) (fun ok hl' => absurd hl' (hl ok)) ?_
      intro j hj
      obtain ⟨-, rfl⟩ := Prod.mk.inj (Option.some.inj (hm.symm.trans hj))
      cases hp
    · obtain ⟨ho, hs⟩ := hI.unused c hold
      exact hs.overlapped_unused hc ho (fun _ _ j hj => hlive hj rfl hold)
        fun j hj => hlive hj rfl hold

end Cexp.IocpServer
