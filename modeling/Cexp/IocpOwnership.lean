import Cexp.IocpCalls

/-! Who holds the receive context of a client: the accept loop before its first receive, the
kernel while a receive is outstanding, a port while its packet is queued, or a completion
thread until it posts the receive again. Never two of them. -/

namespace Cexp.IocpServer

open Transition

variable {K : Type}

inductive Holder (K : Type) where
  | main
  | kernel
  | port (k : K)
  | thread (k : K)
  deriving DecidableEq

def MainPc.client : MainPc → Option Nat
  | .accept c | .setTarget c | .associate c | .recv c => some c
  | _ => none

def State.mainClient (s : State K) : Option Nat := s.main.bind fun m => m.2.client

def CompletionPc.hasData : CompletionPc K → Bool
  | .copy _ | .enqueue _ _ | .inEnqueue _ | .recv => true
  | _ => false

def CompletionThread.held (th : CompletionThread K) : Option Nat :=
  if th.pc.hasData then th.clientCtx else none

theorem CompletionThread.held_of_data (th : CompletionThread K) (h : th.pc.hasData = true) :
    th.held = th.clientCtx := if_pos h

def Port.keys (p : Port) : List Nat := p.packets.filterMap Packet.key

def Holds (s : State K) (c : Nat) : Holder K → Prop
  | .main => s.mainClient = some c
  | .kernel => (s.client c).outstanding = true
  | .port k => c ∈ (s.port k).keys
  | .thread k => (s.completion k).held = some c

/-- Every client has at most one holder, and is queued at most once. -/
structure Owned (s : State K) : Prop where
  sole : ∀ c o o', Holds s c o → Holds s c o' → o = o'
  nodup : ∀ k, (s.port k).keys.Nodup
  fresh : ∀ c, (s.client c).ctx = .unused → ∀ o, ¬ Holds s c o

theorem not_holds_init (c : Nat) (o : Holder K) : ¬ Holds (init : State K) c o := by
  cases o <;> simp [Holds, init, State.mainClient, Port.keys, CompletionThread.held,
    CompletionPc.hasData]

theorem owned_init : Owned (init : State K) where
  sole c o _ ho := absurd ho (not_holds_init c o)
  nodup _ := List.nodup_nil
  fresh c _ o := not_holds_init c o

theorem Owned.handOver {s s' : State K} (h : Owned s) {c : Nat} {p o : Holder K}
    (hp : Holds s c p) (hnot : ¬ Holds s' c p)
    (hsub : ∀ o' d, Holds s' d o' → Holds s d o' ∨ (d = c ∧ o' = o))
    (hn : ∀ k, (s'.port k).keys.Nodup)
    (hc : ∀ d, (s'.client d).ctx = .unused → (s.client d).ctx = .unused) : Owned s' := by
  have hold {d : Nat} {o' : Holder K} (hd : d = c) (ho : Holds s d o') (ho' : Holds s' d o') :
      False := by
    subst hd
    exact hnot (h.sole d o' p ho hp ▸ ho')
  refine ⟨fun d o₁ o₂ h₁ h₂ => ?_, hn, fun d hu o' ho => ?_⟩
  · rcases hsub o₁ d h₁ with g₁ | ⟨rfl, rfl⟩ <;> rcases hsub o₂ d h₂ with g₂ | ⟨hd, rfl⟩
    · exact h.sole d o₁ o₂ g₁ g₂
    · exact (hold hd g₁ h₁).elim
    · exact (hold rfl g₂ h₂).elim
    · rfl
  · rcases hsub o' d ho with g | ⟨rfl, rfl⟩
    · exact h.fresh d (hc d hu) o' g
    · exact h.fresh d (hc d hu) p hp

theorem outstanding_update {cl : Nat → Client K} {c d : Nat} {x : Client K}
    (hd : (Function.update cl c x d).outstanding = true)
    (hx : x.outstanding = true → (cl c).outstanding = true) : (cl d).outstanding = true := by
  by_cases he : d = c
  · subst he
    exact hx (by simpa using hd)
  · simpa [he] using hd

theorem ctx_update {cl : Nat → Client K} {c d : Nat} {x : Client K}
    (hd : (Function.update cl c x d).ctx = .unused)
    (hx : x.ctx = .unused → (cl c).ctx = .unused) : (cl d).ctx = .unused := by
  by_cases he : d = c
  · subst he
    exact hx (by simpa using hd)
  · simpa [he] using hd

/-- A client keeps or loses its outstanding receive and stays allocated. -/
def ClientQuiet (cl cl' : Nat → Client K) : Prop :=
  ∀ c, ((cl' c).outstanding = true → (cl c).outstanding = true) ∧
    ((cl' c).ctx = .unused → (cl c).ctx = .unused)

theorem ClientQuiet.refl (cl : Nat → Client K) : ClientQuiet cl cl := fun _ => ⟨id, id⟩

theorem ClientQuiet.update {cl : Nat → Client K} {c : Nat} {x : Client K}
    (ho : x.outstanding = true → (cl c).outstanding = true)
    (hx : x.ctx = .unused → (cl c).ctx = .unused) : ClientQuiet cl (Function.update cl c x) :=
  fun _ => ⟨fun hd => outstanding_update hd ho, fun hd => ctx_update hd hx⟩

theorem Owned.shrink {s s' : State K} (h : Owned s)
    (hm : ∀ c, s'.mainClient = some c → s.mainClient = some c)
    (hcl : ClientQuiet s.client s'.client)
    (hp : ∀ k c, c ∈ (s'.port k).keys → c ∈ (s.port k).keys)
    (hn : ∀ k, (s'.port k).keys.Nodup)
    (ht : ∀ k c, (s'.completion k).held = some c → (s.completion k).held = some c) :
    Owned s' := by
  have hsub (o : Holder K) (c : Nat) (ho : Holds s' c o) : Holds s c o := by
    cases o with
    | main => exact hm c ho
    | kernel => exact (hcl c).1 ho
    | port k => exact hp k c ho
    | thread k => exact ht k c ho
  exact ⟨fun c o o' ho ho' => h.sole c o o' (hsub o c ho) (hsub o' c ho'), hn,
    fun c hu o ho => h.fresh c ((hcl c).2 hu) o (hsub o c ho)⟩

theorem mainClient_of_move {s s' : State K} {k : K} {p q : MainPc}
    (hm : s.main = some (k, p)) (hm' : s'.main = some (k, q) ∨ s'.main = none)
    (hq : q.client = none ∨ q.client = p.client) (c : Nat) (hc : s'.mainClient = some c) :
    s.mainClient = some c := by
  rcases hm' with hm' | hm'
  · have hc : q.client = some c := by simpa [State.mainClient, hm'] using hc
    rcases hq with hq | hq
    · simp [hq] at hc
    · simpa [State.mainClient, hm, ← hq] using hc
  · simp [State.mainClient, hm'] at hc

theorem ClientQuiet.freeOverlapped (s : State K) (ptr : Option Nat) :
    ClientQuiet s.client (s.freeOverlapped ptr).client := by
  cases ptr with
  | none => exact .refl _
  | some c => exact .update id id

variable [DecidableEq K]

theorem held_update {cp : K → CompletionThread K} {k : K} {th : CompletionThread K}
    (hth : th.held = none ∨ th.held = (cp k).held) (j : K) (c : Nat)
    (hc : (Function.update cp k th j).held = some c) : (cp j).held = some c := by
  by_cases he : j = k
  · subst he
    rw [Function.update_self] at hc
    rcases hth with hth | hth
    · simp [hth] at hc
    · exact hth.symm.trans hc
  · simpa [he] using hc

theorem keys_update {pt : K → Port} {k : K} {p : Port}
    (hp : ∀ c, c ∈ p.keys → c ∈ (pt k).keys) (j : K) (c : Nat)
    (hc : c ∈ (Function.update pt k p j).keys) : c ∈ (pt j).keys := by
  by_cases he : j = k
  · subst he
    exact hp c (by simpa using hc)
  · simpa [he] using hc

theorem keys_sublist {pt : Port} {p : Packet} {rest : List Packet} (h : pt.packets = p :: rest) :
    (Port.keys { pt with packets := rest }).Sublist pt.keys := by
  rw [Port.keys, Port.keys, h]
  exact (List.sublist_cons_self p rest).filterMap _

theorem nodup_update {pt : K → Port} {k : K} {p : Port} (h : ∀ j, (pt j).keys.Nodup)
    (hp : p.keys.Nodup) (j : K) : (Function.update pt k p j).keys.Nodup := by
  by_cases he : j = k
  · subst he
    simpa using hp
  · simpa [he] using h j

theorem Owned.completed {s s' : State K} (h : Owned s) {c : Nat} {k : K} {p : Packet}
    (ho : (s.client c).outstanding = true) (hm : s'.main = s.main)
    (hother : ∀ d, d ≠ c → s'.client d = s.client d)
    (hc : (s'.client c).outstanding = false ∧ (s'.client c).ctx = (s.client c).ctx)
    (hpt : s'.port = Function.update s.port k
      { s.port k with
        packets := (s.port k).packets ++ [⟨p.transferred, some c, some c, p.success⟩] })
    (hcp : s'.completion = s.completion) : Owned s' := by
  have hkeys (j : K) : (s'.port j).keys = if j = k then (s.port k).keys ++ [c]
      else (s.port j).keys := by
    by_cases hj : j = k
    · subst hj
      simp [hpt, Port.keys]
    · simp [hpt, hj]
  have hfree (j : K) : c ∉ (s.port j).keys := fun hm => by
    cases h.sole c .kernel (.port j) ho hm
  refine h.handOver (c := c) (p := .kernel) (o := .port k) ho ?_ (fun o d hd => ?_) (fun j => ?_)
    fun d hd => ?_
  · simp [Holds, hc.1]
  · cases o with
    | main => exact Or.inl (by simpa [Holds, State.mainClient, hm] using hd)
    | kernel =>
      by_cases he : d = c
      · subst he
        simp [Holds, hc.1] at hd
      · exact Or.inl (by simpa [Holds, hother d he] using hd)
    | port j =>
      have hd : d ∈ (s'.port j).keys := hd
      rw [hkeys] at hd
      split_ifs at hd with hj
      · subst hj
        rcases List.mem_append.mp hd with hd | hd
        · exact Or.inl hd
        · exact Or.inr ⟨List.mem_singleton.mp hd, rfl⟩
      · exact Or.inl hd
    | thread j => exact Or.inl (by simpa [Holds, hcp] using hd)
  · rw [hkeys]
    split_ifs
    · exact List.nodup_append.mpr ⟨h.nodup k, List.nodup_singleton c, fun a ha b hb he =>
        hfree k (by rw [← List.mem_singleton.mp hb, ← he]; exact ha)⟩
    · exact h.nodup j
  · by_cases he : d = c
    · subst he
      exact hc.2 ▸ hd
    · exact hother d he ▸ hd

variable [Fintype K]

theorem Step.owned {s s' : State K} {l : Label K} (hs : Step s l s') (hC : Calls s)
    (h : Owned s) : Owned s' := by
  have hid (k : K) (c : Nat) : c ∈ (s.port k).keys → c ∈ (s.port k).keys := id
  have hold (k : K) (c : Nat) : (s.completion k).held = some c →
      (s.completion k).held = some c := id
  have hmain (c : Nat) : s.mainClient = some c → s.mainClient = some c := id
  have hq := ClientQuiet.refl s.client
  cases hs with
  | start hm => exact h.shrink (fun c hc => by cases hc) hq hid h.nodup hold
  | startupOk hm | startupFail hm | bindOk hm | bindFail hm | createQueue hm | createQueueFail hm
  | acceptFail hm | waitCompletion hm | waitHandler hm | socket hm | listen hm | ready hm
  | createPort hm | createHandler hm | report hm | clearTarget hm | closeListener hm
  | noCleanup hm =>
    exact h.shrink (mainClient_of_move hm (Or.inl rfl) (Or.inl rfl)) hq hid h.nodup hold
  | cleanup hm =>
    exact h.shrink (mainClient_of_move hm (Or.inl rfl) (Or.inl rfl)) (fun _ => ⟨id, id⟩) hid
      h.nodup hold
  | setTarget hm =>
    exact h.shrink (mainClient_of_move hm (Or.inl rfl) (Or.inr rfl)) hq hid h.nodup hold
  | accept hm | associate hm =>
    exact h.shrink (mainClient_of_move hm (Or.inl rfl) (Or.inr rfl)) (.update id id) hid h.nodup
      hold
  | recvFirstFail hm | recvFailed hm =>
    exact h.shrink (mainClient_of_move hm (Or.inl rfl) (Or.inl rfl)) (.update id id) hid h.nodup
      hold
  | readyFail hm | reportStopped hm =>
    exact h.shrink (mainClient_of_move hm (Or.inr rfl) (Or.inr rfl)) hq hid h.nodup hold
  | @post k hm =>
    have hk : Port.keys { s.port k with
        packets := (s.port k).packets ++ [⟨0, none, none, true⟩], posted := true } =
        (s.port k).keys := by simp [Port.keys]
    exact h.shrink (mainClient_of_move hm (Or.inl rfl) (Or.inl rfl)) hq
      (keys_update fun _ hc => hk ▸ hc) (nodup_update h.nodup (hk ▸ h.nodup k)) hold
  | closePort hm =>
    exact h.shrink (mainClient_of_move hm (Or.inl rfl) (Or.inl rfl)) hq
      (keys_update fun _ hc => hc) (nodup_update h.nodup (h.nodup _)) hold
  | createCompletion hm =>
    exact h.shrink (mainClient_of_move hm (Or.inl rfl) (Or.inl rfl)) hq hid h.nodup
      (held_update (Or.inl rfl))
  | @calloc k c hm hc =>
    have hnew {o : Holder K} {d : Nat} (ho : Holds ((s.goto k (.accept c)).setClient c
        { s.client c with ctx := .live }) d o) : Holds s d o ∨ (d = c ∧ o = .main) := by
      cases o with
      | main => exact Or.inr ⟨(Option.some.inj ho).symm, rfl⟩
      | kernel => exact Or.inl (outstanding_update ho id)
      | _ => exact Or.inl ho
    refine ⟨fun d o o' ho ho' => ?_, h.nodup, fun d hd o ho => ?_⟩
    · have hfree (o : Holder K) := h.fresh c hc o
      rcases hnew ho with g | ⟨rfl, rfl⟩ <;> rcases hnew ho' with g' | ⟨hd, rfl⟩
      · exact h.sole d o o' g g'
      · exact absurd (hd ▸ g) (hfree o)
      · exact absurd g' (hfree o')
      · rfl
    · have hne : d ≠ c := by
        rintro rfl
        simp [State.setClient] at hd
      rcases hnew ho with g | ⟨hd', -⟩
      · exact h.fresh d (by simpa [State.setClient, State.goto, hne] using hd) o g
      · exact hne hd'
  | @recvFirst k c hm =>
    refine h.handOver (c := c) (p := .main) (o := .kernel) ?_ ?_ (fun o d ho => ?_) h.nodup
      fun d hd => ctx_update hd id
    · simp [Holds, State.mainClient, hm, MainPc.client]
    · simp [Holds, State.mainClient, State.setClient, State.goto, MainPc.client]
    · cases o with
      | main => cases ho
      | kernel =>
        by_cases hd : d = c
        · exact Or.inr ⟨hd, rfl⟩
        · exact Or.inl (by simpa [Holds, State.setClient, State.goto, hd] using ho)
      | _ => exact Or.inl ho
  | getClosed | exitNoClient | recvAgainFail | clearClient | exitClear =>
    exact h.shrink hmain hq hid h.nodup (held_update (Or.inl rfl))
  | closeClient | exitClose =>
    exact h.shrink hmain (.update id id) hid h.nodup (held_update (Or.inl rfl))
  | freeClient | exitFree =>
    exact h.shrink hmain (.update id (by simp)) hid h.nodup (held_update (Or.inl rfl))
  | emptyTransfer | lastTransfer | exitFreeOverlapped =>
    exact h.shrink hmain (.freeOverlapped s _) hid h.nodup (held_update (Or.inl rfl))
  | copy hp | enqueueNull hp =>
    exact h.shrink hmain hq hid h.nodup
      (held_update (Or.inr (by simp [CompletionThread.held, CompletionPc.hasData, hp])))
  | @enqueue k q data n newNode x hp =>
    have hth : CompletionThread.held { s.completion k with
        pc := if newNode = none then .recv else .inEnqueue q } = (s.completion k).held := by
      split_ifs <;> simp [CompletionThread.held, CompletionPc.hasData, hp]
    exact h.shrink hmain hq hid h.nodup (held_update (Or.inr hth))
  | @getFailed k p rest hp hc hr | @getEmpty k p rest hp hc hr =>
    have hk := keys_sublist hr
    exact h.shrink hmain hq (keys_update fun _ hc => hk.subset hc)
      (nodup_update h.nodup ((h.nodup k).sublist hk)) (held_update (Or.inl rfl))
  | @getData k p rest hp hc hr =>
    have hk := keys_sublist hr
    cases hkey : p.key with
    | none =>
      exact h.shrink hmain hq (keys_update fun _ hc => hk.subset hc)
        (nodup_update h.nodup ((h.nodup k).sublist hk)) (held_update (Or.inl rfl))
    | some c =>
      have hkeys : (s.port k).keys = c :: rest.filterMap Packet.key := by
        simp [Port.keys, hr, hkey]
      have hnd := List.nodup_cons.mp (hkeys ▸ h.nodup k)
      refine h.handOver (c := c) (p := .port k) (o := .thread k) ?_ ?_ (fun o d ho => ?_)
        (nodup_update h.nodup ((h.nodup k).sublist hk)) fun _ hd => hd
      · simp [Holds, hkeys]
      · simpa [Holds, State.setPort, State.setCompletion, Port.keys] using hnd.1
      · cases o with
        | port j => exact Or.inl (keys_update (fun _ hc => hk.subset hc) j d ho)
        | thread j =>
          by_cases hj : j = k
          · subst hj
            have hd : some c = some d := by
              simpa [Holds, State.setPort, State.setCompletion, CompletionThread.held,
                CompletionPc.hasData] using ho
            exact Or.inr ⟨(Option.some.inj hd).symm, rfl⟩
          · exact Or.inl (by simpa [Holds, State.setPort, State.setCompletion, hj] using ho)
        | _ => exact Or.inl ho
  | @recvAgain k c hp hc ho =>
    have hheld := (s.completion k).held_of_data (by rw [hp]; rfl)
    refine h.handOver (c := c) (p := .thread k) (o := .kernel) (hheld.trans hc) ?_
      (fun o d ho => ?_) h.nodup fun d hd => ctx_update hd id
    · simp [Holds, State.setCompletion, CompletionThread.held, CompletionPc.hasData]
    · cases o with
      | kernel =>
        by_cases hd : d = c
        · exact Or.inr ⟨hd, rfl⟩
        · exact Or.inl (by simpa [Holds, State.setClient, State.setCompletion, hd] using ho)
      | thread j => exact Or.inl (held_update (Or.inl rfl) j d ho)
      | _ => exact Or.inl ho
  | @queue q l x hl hx =>
    refine h.shrink hmain hq hid h.nodup fun k c hk => ?_
    rcases hC.sync.resume_completion hl hx k with he | ⟨hp, he⟩
    · exact he ▸ hk
    · have hheld := (s.completion k).held_of_data (by rw [hp]; rfl)
      have hk' : ({ s.completion k with pc := .recv } : CompletionThread K).held = some c := by
        rw [← he]
        exact hk
      exact hheld.trans hk'
  | @arrive c k chunk hl hb hk ho =>
    exact h.completed (p := ⟨chunk.length, none, none, true⟩) ho rfl
      (fun d hd => by simp [State.setClient, State.queuePacket, State.setPort, hd])
      (by simp [State.setClient]) rfl rfl
  | @peerClosed c k hk ho =>
    exact h.completed (p := ⟨0, none, none, true⟩) ho rfl
      (fun d hd => by simp [State.setClient, State.queuePacket, State.setPort, hd])
      (by simp [State.setClient, State.queuePacket, State.setPort]) rfl rfl
  | @fail c k hk ho =>
    exact h.completed (p := ⟨0, none, none, false⟩) ho rfl
      (fun d hd => by simp [State.setClient, State.queuePacket, State.setPort, hd])
      (by simp [State.setClient, State.queuePacket, State.setPort]) rfl rfl
  | cleanClose | cleanReset | dequeueNull | dequeue | received | free =>
    exact h.shrink hmain hq hid h.nodup hold

end Cexp.IocpServer
