import Cexp.IocpDelivery
import Cexp.IocpContexts
import Cexp.Interleaving
import Cexp.ReceiveWindow
import Cexp.SendText

/-! The clients' send boxes, the server and its window together: `SendMessageToServer` of
`gui_client.c`, the connections, the threads of `myIocpServer.c`, and `OnReceived` of
`gui_server.c` with the window that `DisplayMessage` writes to. -/

namespace Cexp.Conversation

open Transition Interleaving
open AdapterList (CString)
open IocpServer (Calls Owned Contexts Stream Drained chunks calls callOf strlen)
open ReceiveWindow (cstring inserted inserted_append waiting waiting_step)
open SendText (sentBytes)

abbrev Byte := BitVec 8

/-- `inFlight c` is what has been sent over the connection whose context is `c` and has not been
received; `caller` is the run whose handler thread made the last `DisplayMessage` call. -/
structure State (K : Type) where
  server : IocpServer.State K
  window : ReceiveWindow.State
  caller : Option K
  inFlight : Nat → List Byte

variable {K : Type}

def init : State K where
  server := IocpServer.init
  window := ReceiveWindow.init
  caller := none
  inFlight := fun _ => []

/-- `handler` is the thread of a run that calls `OnReceived` and frees the data; `server` and
`window` are the steps of the two in which they do not meet. -/
inductive Label (K : Type) where
  | send (c : Nat) (e : SendText.Env) (box : CString 8)
  | arrive (c n : Nat)
  | handler (k : K)
  | server (l : IocpServer.Label K)
  | window (l : ReceiveWindow.Label)

inductive Event (K : Type) where
  | sent (c : Nat) (bytes : List Byte)
  | arrived (k : K) (c : Nat) (chunk : List Byte)
  | received (k : K) (text : List Byte)
  | window (e : ReceiveWindow.Event)

def events (s : State K) : Label K → List (Event K)
  | .send c e box =>
    match SendText.sendMessageToServer e box with
    | some o => [.sent c (sentBytes o)]
    | none => []
  | .arrive c n =>
    match (s.server.client c).port with
    | some k => [.arrived k c ((s.inFlight c).take n)]
    | none => []
  | .handler k =>
    match s.server.handler k with
    | .received data => [.received k (cstring data)]
    | _ => []
  | .server _ => []
  | .window l => (ReceiveWindow.events s.window l).map .window

def sends (h : List (Event K)) : List (Nat × List Byte) :=
  h.filterMap fun
    | .sent c bytes => some (c, bytes)
    | _ => none

def arrivals (h : List (Event K)) : List (K × Nat × List Byte) :=
  h.filterMap fun
    | .arrived k c chunk => some (k, c, chunk)
    | _ => none

def received (h : List (Event K)) : List (K × List Byte) :=
  h.filterMap fun
    | .received k text => some (k, text)
    | _ => none

def windowEvents (h : List (Event K)) : List ReceiveWindow.Event :=
  h.filterMap fun
    | .window e => some e
    | _ => none

theorem sends_append (h h' : List (Event K)) : sends (h ++ h') = sends h ++ sends h' :=
  List.filterMap_append

theorem arrivals_append (h h' : List (Event K)) :
    arrivals (h ++ h') = arrivals h ++ arrivals h' :=
  List.filterMap_append

theorem received_append (h h' : List (Event K)) :
    received (h ++ h') = received h ++ received h' :=
  List.filterMap_append

theorem windowEvents_append (h h' : List (Event K)) :
    windowEvents (h ++ h') = windowEvents h ++ windowEvents h' :=
  List.filterMap_append

/-- The context has been handed on by the accept loop, which allocates it once. -/
def Handed (x : IocpServer.State K) (c : Nat) : Prop :=
  (x.client c).ctx ≠ .unused ∧ ∀ j p, x.main = some (j, p) → p.context ≠ some c

theorem Handed.of_outstanding {x : IocpServer.State K} (hX : Contexts x) {c : Nat}
    (ho : (x.client c).outstanding = true) : Handed x c := by
  have hseen : ¬ IocpServer.Unseen x c := fun hu => by
    rw [hu.idle] at ho
    cases ho
  exact ⟨fun hc => hseen (hX.unused c hc).2, fun j p hm hp => hseen (hX.main j p c hm hp).2⟩

variable [DecidableEq K]

/-- Each run has passed on what its connections have brought, in its order and cut as it was. -/
def Streams (as : List (K × Nat × List Byte)) (rs : List (K × List Byte))
    (x : IocpServer.State K) : Prop :=
  ∀ k, ∃ es, Stream k es x ∧ chunks k es = (part k as).map Prod.snd ∧
    calls k es = (part k rs).map callOf

/-- What holds of the server, the events of the whole being `h`. -/
structure Serves (h : List (Event K)) (x : IocpServer.State K) : Prop where
  calls : Calls x
  owned : Owned x
  contexts : Contexts x
  streams : Streams (arrivals h) (received h) x
  arrived : ∀ a ∈ arrivals h, (x.client a.2.1).port = some a.1 ∧ Handed x a.2.1

theorem Serves.of_eq {h h' : List (Event K)} {x : IocpServer.State K} (hI : Serves h x)
    (ha : arrivals h' = arrivals h) (hr : received h' = received h) : Serves h' x where
  calls := hI.calls
  owned := hI.owned
  contexts := hI.contexts
  streams := by
    rw [ha, hr]
    exact hI.streams
  arrived := by
    rw [ha]
    exact hI.arrived

structure Linked (h : List (Event K)) (s : State K) : Prop where
  serves : Serves h s.server
  placed : ReceiveWindow.Placed (windowEvents h) s.window
  shown : inserted (windowEvents h) ++ waiting s.window = (received h).map Prod.snd
  flight : ∀ c, (part c ((arrivals h).map Prod.snd)).flatten ++ s.inFlight c =
    (part c (sends h)).flatten
  whole : ∀ c, 0 ∉ s.inFlight c

variable [Fintype K]

def step (s : State K) : Label K → Option (State K)
  | .send c e box =>
    (SendText.sendMessageToServer e box).map fun o =>
      { s with inFlight := Function.update s.inFlight c (s.inFlight c ++ sentBytes o) }
  | .arrive c n =>
    (IocpServer.step s.server (.arrive c ((s.inFlight c).take n))).map fun x =>
      { s with server := x, inFlight := Function.update s.inFlight c ((s.inFlight c).drop n) }
  | .handler k =>
    match s.server.handler k with
    | .received data => do
      let w ← ReceiveWindow.step .criticalSection s.window (.call (cstring data) (strlen data))
      let x ← IocpServer.step s.server (.handler k)
      some { s with server := x, window := w, caller := some k }
    | _ =>
      -- The thread goes on when its call has returned.
      if s.caller = some k ∧ s.window.display ≠ .outside then none
      else (IocpServer.step s.server (.handler k)).map fun x => { s with server := x }
  | .server l =>
    if l.arrives || l.handles then none
    else (IocpServer.step s.server l).map fun x => { s with server := x }
  | .window l =>
    if l.isCall then none
    else (ReceiveWindow.step .criticalSection s.window l).map fun w => { s with window := w }

/-- Every node is allocated, and the threads of a run use the run's queue. -/
def sound (s : State K) : Label K → Bool
  | .server l => decide (∀ k, IocpServer.paired k s.server l = true ∧ IocpServer.hasNode k l = true)
  | _ => true

theorem Handed.step {x y : IocpServer.State K} {l : IocpServer.Label K} {c : Nat}
    (h : Handed x c) (hC : Calls x) (hs : IocpServer.Step x l y) : Handed y c := by
  obtain ⟨hctx, hmain⟩ := h
  refine ⟨?_, fun j q hq hc => ?_⟩
  · rcases (hs.contextChange hC).ctx_cases c with he | ⟨-, -, he⟩ | ⟨-, he⟩ <;> rw [he]
    · exact hctx
    · nofun
    · nofun
  · rcases (hs.context_cases hq hc).2 with ⟨p, hp, hpc⟩ | ⟨-, hunused⟩
    · exact hmain j p hp hpc
    · exact hctx hunused

theorem Handed.port {x y : IocpServer.State K} {l : IocpServer.Label K} {c : Nat}
    (h : Handed x c) (hC : Calls x) (hs : IocpServer.Step x l y) :
    (y.client c).port = (x.client c).port := by
  rcases (hs.contextChange hC).port_cases c with he | ⟨k, hm, -⟩
  · exact he
  · exact absurd rfl (h.2 k _ hm)

theorem Streams.step {as as' : List (K × Nat × List Byte)} {rs rs' : List (K × List Byte)}
    {x y : IocpServer.State K} {l : IocpServer.Label K} (h : Streams as rs x) (hC : Calls x)
    (hO : Owned x) (hs : IocpServer.Step x l y)
    (hok : ∀ k, IocpServer.paired k x l = true ∧ IocpServer.intact k x l = true)
    (has : ∀ k, chunks k (IocpServer.events x l) = (part k as').map Prod.snd)
    (hrs : ∀ k, calls k (IocpServer.events x l) = (part k rs').map callOf) :
    Streams (as ++ as') (rs ++ rs') y := by
  intro k
  obtain ⟨es, hes, hchunks, hcalls⟩ := h k
  refine ⟨es ++ IocpServer.events x l, hes.step hs hC hO (hok k).1 (hok k).2, ?_, ?_⟩
  · rw [IocpServer.chunks_append, hchunks, has, part_append, List.map_append]
  · rw [part_append, List.map_append, ← hcalls, ← hrs]
    exact List.filterMap_append

theorem Serves.step {h es : List (Event K)} {x y : IocpServer.State K} {l : IocpServer.Label K}
    (hI : Serves h x) (hs : IocpServer.Step x l y)
    (hok : ∀ k, IocpServer.paired k x l = true ∧ IocpServer.intact k x l = true)
    (has : ∀ k, chunks k (IocpServer.events x l) = (part k (arrivals es)).map Prod.snd)
    (hrs : ∀ k, IocpServer.calls k (IocpServer.events x l) = (part k (received es)).map callOf)
    (hnew : ∀ a ∈ arrivals es,
      (x.client a.2.1).port = some a.1 ∧ (x.client a.2.1).outstanding = true) :
    Serves (h ++ es) y where
  calls := hs.calls hI.calls
  owned := hs.owned hI.calls hI.owned
  contexts := hs.contexts hI.calls hI.contexts
  streams := by
    rw [arrivals_append, received_append]
    exact hI.streams.step hI.calls hI.owned hs hok has hrs
  arrived a ha := by
    have hx : (x.client a.2.1).port = some a.1 ∧ Handed x a.2.1 := by
      rw [arrivals_append] at ha
      rcases List.mem_append.mp ha with ha | ha
      · exact hI.arrived a ha
      · exact ⟨(hnew a ha).1, Handed.of_outstanding hI.contexts (hnew a ha).2⟩
    exact ⟨(hx.2.port hI.calls hs).trans hx.1, hx.2.step hI.calls hs⟩

theorem zero_notMem_sentBytes {e : SendText.Env} {box : CString 8} {o : SendText.Outcome}
    (ho : SendText.sendMessageToServer e box = some o) : 0 ∉ sentBytes o := by
  by_cases hlong : SendText.SEND_BUF_SIZE - 1 < box.chars.length
  · rw [SendText.sendMessageToServer, if_pos hlong] at ho
    obtain rfl := Option.some.inj ho
    simp [sentBytes]
  · rw [SendText.sendMessageToServer_eq e hlong] at ho
    obtain rfl := Option.some.inj ho
    exact fun hz => box.nonzero 0 (List.mem_of_mem_take hz) rfl

omit [Fintype K] in
theorem Linked.send {h : List (Event K)} {s : State K} (hI : Linked h s) {c : Nat}
    {e : SendText.Env} {box : CString 8} {o : SendText.Outcome}
    (ho : SendText.sendMessageToServer e box = some o) :
    Linked (h ++ [.sent c (sentBytes o)])
      { s with inFlight := Function.update s.inFlight c (s.inFlight c ++ sentBytes o) } where
  serves := hI.serves.of_eq (by simp [arrivals]) (by simp [received])
  placed := by simpa [windowEvents] using hI.placed
  shown := by simpa [windowEvents, received] using hI.shown
  flight d := by
    have hd := hI.flight d
    rw [sends_append, part_append, List.flatten_append, ← hd]
    by_cases hdc : d = c
    · subst d
      simp [arrivals, sends, part]
    · simp [arrivals, sends, part, hdc, Ne.symm hdc]
  whole d := by
    by_cases hdc : d = c
    · subst d
      simpa using ⟨hI.whole c, zero_notMem_sentBytes ho⟩
    · simpa [hdc] using hI.whole d

theorem Linked.arrive {h : List (Event K)} {s : State K} (hI : Linked h s) {c n : Nat} {k : K}
    {x : IocpServer.State K} (hk : (s.server.client c).port = some k)
    (hx : IocpServer.Step s.server (.arrive c ((s.inFlight c).take n)) x) :
    Linked (h ++ [.arrived k c ((s.inFlight c).take n)])
      { s with
        server := x, inFlight := Function.update s.inFlight c ((s.inFlight c).drop n) } := by
  have hzero : 0 ∉ (s.inFlight c).take n := fun hz => hI.whole c (List.mem_of_mem_take hz)
  have hout : (s.server.client c).outstanding = true := by
    cases hx
    assumption
  have hev : IocpServer.events s.server (.arrive c ((s.inFlight c).take n)) =
      [.completed k ((s.inFlight c).take n)] := by simp [IocpServer.events, hk]
  refine ⟨hI.serves.step hx (fun j => ⟨rfl, ?_⟩) (fun j => ?_) (fun j => ?_) ?_, ?_, ?_,
    fun d => ?_, fun d => ?_⟩
  · simpa [IocpServer.intact, IocpServer.hasNode, IocpServer.noZero] using Or.inr hzero
  · rw [hev]
    by_cases hj : k = j <;> simp [chunks, arrivals, part, hj]
  · rw [hev]
    rfl
  · simp [arrivals, hk, hout]
  · simpa [windowEvents] using hI.placed
  · simpa [windowEvents, received] using hI.shown
  · have hd := hI.flight d
    rw [arrivals_append, List.map_append, part_append, List.flatten_append]
    by_cases hdc : d = c
    · subst d
      simpa [arrivals, sends, part] using hd
    · simpa [arrivals, sends, part, hdc, Ne.symm hdc] using hd
  · by_cases hdc : d = c
    · subst d
      simpa using fun hz => hI.whole c (List.mem_of_mem_drop hz)
    · simpa [hdc] using hI.whole d

/-- `OnReceived` is called: the message is on its way to the window. -/
theorem Linked.onReceived {h : List (Event K)} {s : State K} (hI : Linked h s) {k : K}
    {data : IocpServer.Block} {x : IocpServer.State K} {w : ReceiveWindow.State}
    (hd : s.server.handler k = .received data)
    (hx : IocpServer.Step s.server (.handler k) x)
    (hw : ReceiveWindow.step .criticalSection s.window (.call (cstring data) (strlen data)) =
      some w) :
    Linked (h ++ [.received k (cstring data)])
      { s with server := x, window := w, caller := some k } := by
  have hev : IocpServer.events s.server (.handler k) =
      [.dataReceived k data (strlen data)] := by simp [IocpServer.events, hd]
  have hcall : (data.take (strlen data), strlen data) = callOf (cstring data) :=
    congrArg (·, strlen data) (List.prefix_iff_eq_take.mp (List.takeWhile_prefix _)).symm
  have hout : s.window.display = .outside ∧
      w = { s.window with display := .enter, msg := cstring data, len := strlen data } := by
    simp only [ReceiveWindow.step] at hw
    split at hw
    case isTrue ho => exact ⟨ho, (Option.some.inj hw).symm⟩
    case isFalse => cases hw
  obtain ⟨hout, rfl⟩ := hout
  have hwait : waiting s.window = [] := by simp [waiting, hout]
  have hzero : 0 ∉ cstring data := fun hz => by simpa using List.mem_takeWhile_imp hz
  refine ⟨hI.serves.step hx (fun j => ⟨rfl, rfl⟩) (fun j => ?_) (fun j => ?_) (by simp [arrivals]),
    ?_, ?_, fun c => ?_, hI.whole⟩
  · rw [hev]
    rfl
  · rw [hev]
    by_cases hj : k = j <;> simp [IocpServer.calls, received, part, hj, hcall]
  · have hlen : (cstring (cstring data)).length ≤ strlen data := by
      rw [ReceiveWindow.cstring_of_noZero hzero, strlen, cstring]
    simpa [windowEvents] using hI.placed.call hlen hw
  · have hs := hI.shown
    rw [hwait, List.append_nil] at hs
    rw [windowEvents_append, inserted_append, hs, received_append, List.map_append]
    simp [windowEvents, inserted, waiting, received, ReceiveWindow.cstring_of_noZero hzero]
  · simpa [arrivals, sends] using hI.flight c

theorem Linked.server {h : List (Event K)} {s : State K} (hI : Linked h s)
    {l : IocpServer.Label K} {x : IocpServer.State K} (hx : IocpServer.Step s.server l x)
    (hev : ∀ k, chunks k (IocpServer.events s.server l) = [] ∧
      calls k (IocpServer.events s.server l) = [])
    (hok : ∀ k, IocpServer.paired k s.server l = true ∧
      IocpServer.intact k s.server l = true) : Linked h { s with server := x } where
  serves := by
    have hs : Serves (h ++ []) x := hI.serves.step hx hok (fun k => (hev k).1)
      (fun k => (hev k).2) (by simp [arrivals])
    rwa [List.append_nil] at hs
  placed := hI.placed
  shown := hI.shown
  flight := hI.flight
  whole := hI.whole

omit [Fintype K] in
theorem Linked.windowStep {h : List (Event K)} {s : State K} (hI : Linked h s)
    {l : ReceiveWindow.Label} {w : ReceiveWindow.State} (hl : l.isCall = false)
    (hw : ReceiveWindow.step .criticalSection s.window l = some w) :
    Linked (h ++ (ReceiveWindow.events s.window l).map .window) { s with window := w } := by
  have hev : windowEvents ((ReceiveWindow.events s.window l).map (.window (K := K))) =
      ReceiveWindow.events s.window l := by
    simp [windowEvents, List.filterMap_map]
  have hnew : arrivals ((ReceiveWindow.events s.window l).map (.window (K := K))) = [] ∧
      received ((ReceiveWindow.events s.window l).map (.window (K := K))) = [] ∧
      sends ((ReceiveWindow.events s.window l).map (.window (K := K))) = [] := by
    simp [arrivals, received, sends, List.filterMap_map]
  obtain ⟨harr, hrec, hsend⟩ := hnew
  refine ⟨hI.serves.of_eq ?_ ?_, ?_, ?_, fun c => ?_, hI.whole⟩
  · rw [arrivals_append, harr, List.append_nil]
  · rw [received_append, hrec, List.append_nil]
  · rw [windowEvents_append, hev]
    exact hI.placed.step (ReceiveWindow.Label.counts_of_isCall hl) hw
  · rw [windowEvents_append, hev, inserted_append, List.append_assoc,
      waiting_step hl hw, hI.shown, received_append, hrec, List.append_nil]
  · rw [arrivals_append, sends_append, harr, hsend, List.append_nil, List.append_nil]
    exact hI.flight c

theorem Linked.step {h : List (Event K)} {s t : State K} {l : Label K} (hI : Linked h s)
    (hok : sound s l = true) (hs : step s l = some t) : Linked (h ++ events s l) t := by
  cases l with
  | send c e box =>
    obtain ⟨o, ho, rfl⟩ := Option.map_eq_some_iff.mp hs
    simpa only [events, ho] using hI.send ho
  | arrive c n =>
    obtain ⟨x, hx, rfl⟩ := Option.map_eq_some_iff.mp hs
    have hx := IocpServer.step_cases hx
    cases hx with
    | arrive hlen hbuf hk hout =>
      simpa only [events, hk] using hI.arrive hk (.arrive hlen hbuf hk hout)
  | handler k =>
    cases hd : s.server.handler k with
    | received data =>
      simp only [Conversation.step, hd] at hs
      obtain ⟨w, hw, hs⟩ := Option.bind_eq_some_iff.mp hs
      obtain ⟨x, hx, hs⟩ := Option.bind_eq_some_iff.mp hs
      obtain rfl := Option.some.inj hs
      simpa only [events, hd] using hI.onReceived hd (IocpServer.step_cases hx) hw
    | _ =>
      simp only [Conversation.step, hd] at hs
      split at hs
      case isTrue => cases hs
      case isFalse =>
        obtain ⟨x, hx, rfl⟩ := Option.map_eq_some_iff.mp hs
        have hev : IocpServer.events s.server (.handler k) = [] := by
          simp [IocpServer.events, hd]
        simpa only [events, hd, List.append_nil] using
          hI.server (IocpServer.step_cases hx) (by simp [hev, chunks, calls]) fun _ => ⟨rfl, rfl⟩
  | server l =>
    simp only [Conversation.step] at hs
    split at hs
    case isTrue => cases hs
    case isFalse hl =>
      obtain ⟨x, hx, rfl⟩ := Option.map_eq_some_iff.mp hs
      obtain ⟨harr, hhan⟩ : l.arrives = false ∧ l.handles = false := by simpa using hl
      have hok : ∀ k, IocpServer.paired k s.server l = true ∧ IocpServer.hasNode k l = true := by
        simpa [sound] using hok
      have hev (k : K) : chunks k (IocpServer.events s.server l) = [] ∧
          calls k (IocpServer.events s.server l) = [] :=
        ⟨List.map_eq_nil_iff.mp (IocpServer.arrived_eq_nil harr k), by
          rw [IocpServer.calls_events, IocpServer.delivered_eq_nil hhan, List.map_nil]⟩
      have hwhole (k : K) : IocpServer.noZero k s.server l = true := by
        cases l <;> first | rfl | cases harr
      have hlinked := hI.server (IocpServer.step_cases hx) hev fun k =>
        ⟨(hok k).1, by rw [IocpServer.intact, (hok k).2, hwhole k, Bool.and_true]⟩
      simpa only [events, List.append_nil] using hlinked
  | window l =>
    simp only [Conversation.step] at hs
    split at hs
    case isTrue => cases hs
    case isFalse hl =>
      obtain ⟨w, hw, rfl⟩ := Option.map_eq_some_iff.mp hs
      exact hI.windowStep (Bool.eq_false_iff.mpr hl) hw

/-- Nothing is on its way any more. -/
structure Quiet (s : State K) : Prop where
  inFlight : ∀ c, s.inFlight c = []
  drained : ∀ k, Drained s.server k
  window : waiting s.window = []

/-- The server accepts a client, and what it receives goes to the handler thread. -/
def accepting : List (IocpServer.Label Unit) :=
  IocpServer.startRun ++ [.createQueue true, .main] ++ IocpServer.acceptClient 0

end Cexp.Conversation
