import Cexp.IocpServer

/-! What one step of the server can do, guard and effect. Every invariant is proved by
cases on this relation and not on the step function. -/

namespace Cexp.IocpServer

variable {K : Type} [DecidableEq K]

def State.moveCompletion (s : State K) (k : K) (pc : CompletionPc K) : State K :=
  s.setCompletion k { s.completion k with pc := pc }

/-- `createQueue(0)` for run `k`: the other queues see the two globals written. -/
def State.newQueue (s : State K) (k : K) : State K :=
  { s with
    gQueue := some k
    queue := fun q => if q = k then BlockingQueue.createQueue 0
      else { s.queue q with stop := false, glimitSize := BlockingQueue.limitOf 0 } }

theorem update_cases {P : CompletionThread K → Prop} {cp : K → CompletionThread K} {k j : K}
    {th : CompletionThread K} (h : P (Function.update cp k th j)) :
    (j = k ∧ P th) ∨ P (cp j) := by
  by_cases hj : j = k
  · subst hj
    exact Or.inl ⟨rfl, by simpa using h⟩
  · exact Or.inr (by simpa [hj] using h)

inductive Step [Fintype K] (s : State K) : Label K → State K → Prop where
  | start {k : K} (hm : s.main = none) (hk : s.started k = false) :
    Step s (.start k)
      { s.goto k .startup with started := Function.update s.started k true }
  | startupOk {k : K} (hm : s.main = some (k, .startup)) :
    Step s (.startup none) { s.goto k .socket with winsockInit := true }
  | startupFail {k : K} {e : Int} (hm : s.main = some (k, .startup))
    (hw : s.winsockInit = false) :
    Step s (.startup (some e)) (s.goto k (.ready e))
  | bindOk {k : K} (hm : s.main = some (k, .bind)) : Step s (.bind none) (s.goto k .listen)
  | bindFail {k : K} {e : Int} (hm : s.main = some (k, .bind)) :
    Step s (.bind (some e)) (s.goto k (.ready e))
  | createQueue {k : K} (hm : s.main = some (k, .createQueue)) :
    Step s (.createQueue true) ((s.newQueue k).goto k .report)
  | createQueueFail {k : K} (hm : s.main = some (k, .createQueue)) :
    Step s (.createQueue false) { s.goto k .report with gQueue := none }
  | calloc {k : K} {c : Nat} (hm : s.main = some (k, .calloc))
    (hc : (s.client c).ctx = .unused) :
    Step s (.calloc c)
      ((s.goto k (.accept c)).setClient c { s.client c with ctx := .live })
  | accept {k j : K} {c : Nat} (hm : s.main = some (k, .accept c))
    (hs : s.gsSocket = some j) (hj : s.listener j = .opened) :
    Step s (.accept true)
      ((s.goto k (.setTarget c)).setClient c { s.client c with socket := .opened })
  | acceptFail {k : K} {c : Nat} (hm : s.main = some (k, .accept c)) :
    Step s (.accept false) (s.goto k .post)
  | recvFirst {k : K} {c : Nat} (hm : s.main = some (k, .recv c)) :
    Step s (.recvFirst true) ((s.goto k .calloc).setClient c
      { s.client c with overlapped := .live, outstanding := true })
  | recvFirstFail {k : K} {c : Nat} (hm : s.main = some (k, .recv c)) :
    Step s (.recvFirst false)
      ((s.goto k (.recvFailed c)).setClient c { s.client c with overlapped := .live })
  | waitCompletion {k : K} {timedOut : Bool} (hm : s.main = some (k, .waitCompletion))
    (hw : timedOut = true ∨ (s.completion k).pc = .exited) :
    Step s (.waitCompletion timedOut) (s.goto k .waitHandler)
  | waitHandler {k : K} {timedOut : Bool} (hm : s.main = some (k, .waitHandler))
    (hw : timedOut = true ∨ s.handler k = .exited) :
    Step s (.waitHandler timedOut) (s.goto k .closeListener)
  | socket {k : K} (hm : s.main = some (k, .socket)) :
    Step s .main { s.goto k .bind with
      gsSocket := some k, listener := Function.update s.listener k .opened }
  | listen {k : K} (hm : s.main = some (k, .listen)) : Step s .main (s.goto k (.ready 0))
  | ready {k : K} (hm : s.main = some (k, .ready 0)) : Step s .main (s.goto k .createPort)
  | readyFail {k : K} {e : Int} (hm : s.main = some (k, .ready e)) (he : e ≠ 0) :
    Step s .main { s with main := none }
  | createPort {k : K} (hm : s.main = some (k, .createPort)) :
    Step s .main (s.goto k .createCompletion)
  | createCompletion {k : K} (hm : s.main = some (k, .createCompletion)) :
    Step s .main ((s.goto k .createHandler).setCompletion k ⟨.getStatus, none, none⟩)
  | createHandler {k : K} (hm : s.main = some (k, .createHandler)) :
    Step s .main ((s.goto k .createQueue).setHandler k .dequeue)
  | report {k : K} (hm : s.main = some (k, .report)) : Step s .main (s.goto k .calloc)
  | setTarget {k : K} {c : Nat} (hm : s.main = some (k, .setTarget c)) :
    Step s .main { s.goto k (.associate c) with gcSocket := some c }
  | associate {k : K} {c : Nat} (hm : s.main = some (k, .associate c)) :
    Step s .main ((s.goto k (.recv c)).setClient c { s.client c with port := some k })
  | recvFailed {k : K} {c : Nat} (hm : s.main = some (k, .recvFailed c)) :
    Step s .main ((s.goto k .clearTarget).setClient c
      { s.client c with overlapped := .freed, socket := .closed })
  | clearTarget {k : K} (hm : s.main = some (k, .clearTarget)) :
    Step s .main { s.goto k .post with gcSocket := none }
  | post {k : K} (hm : s.main = some (k, .post)) :
    Step s .main ((s.goto k .waitCompletion).setPort k { s.port k with
      packets := (s.port k).packets ++ [⟨0, none, none, true⟩], posted := true })
  | closeListener {k : K} (hm : s.main = some (k, .closeListener)) :
    Step s .main ((s.goto k .closePort).closeListener .closed)
  | closePort {k : K} (hm : s.main = some (k, .closePort)) :
    Step s .main ((s.goto k .cleanup).setPort k { s.port k with closed := true })
  | cleanup {k : K} (hm : s.main = some (k, .cleanup)) (hw : s.winsockInit = true) :
    Step s .main (s.wsaCleanup.goto k .reportStopped)
  | noCleanup {k : K} (hm : s.main = some (k, .cleanup)) (hw : s.winsockInit = false) :
    Step s .main (s.goto k .reportStopped)
  | reportStopped {k : K} (hm : s.main = some (k, .reportStopped)) :
    Step s .main { s with main := none }
  | getClosed {k : K} (hp : (s.completion k).pc = .getStatus) (hc : (s.port k).closed = true) :
    Step s (.getStatus k) (s.setCompletion k ⟨.exitClose, (s.completion k).clientCtx, none⟩)
  | getFailed {k : K} {p : Packet} {rest : List Packet}
    (hp : (s.completion k).pc = .getStatus) (hc : (s.port k).closed = false)
    (hq : (s.port k).packets = p :: rest) (hs : p.success = false) :
    Step s (.getStatus k) ((s.setPort k { s.port k with packets := rest }).setCompletion k
      ⟨.exitClose, p.key, p.overlapped⟩)
  | getEmpty {k : K} {p : Packet} {rest : List Packet}
    (hp : (s.completion k).pc = .getStatus) (hc : (s.port k).closed = false)
    (hq : (s.port k).packets = p :: rest) (hs : p.success = true) (hn : p.transferred = 0) :
    Step s (.getStatus k) ((s.setPort k { s.port k with packets := rest }).setCompletion k
      ⟨.emptyTransfer, p.key, p.overlapped⟩)
  | getData {k : K} {p : Packet} {rest : List Packet}
    (hp : (s.completion k).pc = .getStatus) (hc : (s.port k).closed = false)
    (hq : (s.port k).packets = p :: rest) (hs : p.success = true) (hn : p.transferred ≠ 0) :
    Step s (.getStatus k) ((s.setPort k { s.port k with packets := rest }).setCompletion k
      ⟨.copy p.transferred, p.key, p.overlapped⟩)
  | emptyTransfer {k : K} {c : Nat} (hp : (s.completion k).pc = .emptyTransfer)
    (hc : (s.completion k).clientCtx = some c) :
    Step s (.completion k)
      ((s.freeOverlapped (s.completion k).overlappedPtr).moveCompletion k .closeClient)
  | lastTransfer {k : K} (hp : (s.completion k).pc = .emptyTransfer)
    (hc : (s.completion k).clientCtx = none) :
    Step s (.completion k)
      ((s.freeOverlapped (s.completion k).overlappedPtr).moveCompletion k .exitClose)
  | closeClient {k : K} {c : Nat} (hp : (s.completion k).pc = .closeClient)
    (hc : (s.completion k).clientCtx = some c) :
    Step s (.completion k) ((s.closeClient c).moveCompletion k .clearTarget)
  | clearClient {k : K} {c : Nat} (hp : (s.completion k).pc = .clearTarget)
    (hc : (s.completion k).clientCtx = some c) :
    Step s (.completion k) ({ s with gcSocket := none }.moveCompletion k .freeClient)
  | freeClient {k : K} {c : Nat} (hp : (s.completion k).pc = .freeClient)
    (hc : (s.completion k).clientCtx = some c) :
    Step s (.completion k) ((s.freeCtx c).setCompletion k
      { s.completion k with pc := .getStatus, clientCtx := none })
  | copy {k : K} {c n : Nat} (hp : (s.completion k).pc = .copy n)
    (hc : (s.completion k).clientCtx = some c) :
    Step s (.completion k)
      (s.moveCompletion k (.enqueue ((s.client c).buffer.take n ++ [0]) n))
  | exitClose {k : K} {c : Nat} (hp : (s.completion k).pc = .exitClose)
    (hc : (s.completion k).clientCtx = some c) :
    Step s (.completion k) ((s.closeClient c).moveCompletion k .exitClear)
  | exitNoClient {k : K} (hp : (s.completion k).pc = .exitClose)
    (hc : (s.completion k).clientCtx = none) :
    Step s (.completion k) (s.moveCompletion k .exitFreeOverlapped)
  | exitClear {k : K} {c : Nat} (hp : (s.completion k).pc = .exitClear)
    (hc : (s.completion k).clientCtx = some c) :
    Step s (.completion k) ({ s with gcSocket := none }.moveCompletion k .exitFree)
  | exitFree {k : K} {c : Nat} (hp : (s.completion k).pc = .exitFree)
    (hc : (s.completion k).clientCtx = some c) :
    Step s (.completion k) ((s.freeCtx c).moveCompletion k .exitFreeOverlapped)
  | exitFreeOverlapped {k : K} (hp : (s.completion k).pc = .exitFreeOverlapped) :
    Step s (.completion k)
      ((s.freeOverlapped (s.completion k).overlappedPtr).moveCompletion k .exited)
  | enqueueNull {k : K} {data : Block} {n : Nat} {newNode : Option BlockingQueue.Addr}
    (hp : (s.completion k).pc = .enqueue data n) (hq : s.gQueue = none) :
    Step s (.enqueue k newNode) (s.moveCompletion k .recv)
  | enqueue {k q : K} {data : Block} {n : Nat} {newNode : Option BlockingQueue.Addr}
    {x : Queue K} (hp : (s.completion k).pc = .enqueue data n) (hq : s.gQueue = some q)
    (hx : BlockingQueue.step (s.queue q) (.enqueue (.completion k) data n newNode) = some x) :
    Step s (.enqueue k newNode) ((s.setQueue q x).setCompletion k { s.completion k with
      pc := if newNode = none then .recv else .inEnqueue q })
  | recvAgain {k : K} {c : Nat} (hp : (s.completion k).pc = .recv)
    (hc : (s.completion k).clientCtx = some c) (ho : (s.client c).socket = .opened) :
    Step s (.recvAgain k true) ((s.setClient c { s.client c with outstanding := true
      }).setCompletion k { s.completion k with pc := .getStatus })
  | recvAgainFail {k : K} {c : Nat} (hp : (s.completion k).pc = .recv)
    (hc : (s.completion k).clientCtx = some c) :
    Step s (.recvAgain k false) (s.moveCompletion k .exitClose)
  | dequeueNull {k : K} (hp : s.handler k = .dequeue) (hq : s.gQueue = none) :
    Step s (.dequeue k) (s.setHandler k .exited)
  | dequeue {k q : K} {x : Queue K} (hp : s.handler k = .dequeue) (hq : s.gQueue = some q)
    (hx : BlockingQueue.step (s.queue q) (.dequeue (.handler k)) = some x) :
    Step s (.dequeue k) ((s.setQueue q x).setHandler k (.inDequeue q))
  | received {k : K} {data : Block} (hp : s.handler k = .received data) :
    Step s (.handler k) (s.setHandler k (.free data))
  | free {k : K} {data : Block} (hp : s.handler k = .free data) :
    Step s (.handler k) (s.setHandler k .dequeue)
  | queue {q : K} {l : BlockingQueue.Label (Thread K) Block} {x : Queue K}
    (hl : l.insideCall = true) (hx : BlockingQueue.step (s.queue q) l = some x) :
    Step s (.queue q l) ((s.setQueue q x).resume (BlockingQueue.events (s.queue q) l))
  | cleanClose (hc : s.cleaning = false) :
    Step s .cleanClose { s.closeListener .cleaned with cleaning := true }
  | cleanReset (hc : s.cleaning = true) :
    Step s .cleanReset { s with gsSocket := none, cleaning := false }
  | arrive {c : Nat} {k : K} {chunk : List Byte} (hl : 0 < chunk.length)
    (hb : chunk.length ≤ BUF_SIZE) (hk : (s.client c).port = some k)
    (ho : (s.client c).outstanding = true) :
    Step s (.arrive c chunk) ((s.queuePacket c k ⟨chunk.length, some c, some c, true⟩).setClient c
      { s.client c with
        outstanding := false
        buffer := chunk ++ (s.client c).buffer.drop chunk.length })
  | peerClosed {c : Nat} {k : K} (hk : (s.client c).port = some k)
    (ho : (s.client c).outstanding = true) :
    Step s (.peerClosed c) (s.queuePacket c k ⟨0, some c, some c, true⟩)
  | fail {c : Nat} {k : K} (hk : (s.client c).port = some k)
    (ho : (s.client c).outstanding = true) :
    Step s (.fail c) (s.queuePacket c k ⟨0, some c, some c, false⟩)

theorem complete_cases {s s' : State K} {c : Nat} {p : Packet} (h : s.complete c p = some s') :
    ∃ k, (s.client c).port = some k ∧ (s.client c).outstanding = true ∧
      s' = s.queuePacket c k p := by
  unfold State.complete at h
  split at h
  case h_1 => cases h
  case h_2 k hk =>
    split at h
    case isTrue ho => exact ⟨k, hk, ho, (Option.some.inj h).symm⟩
    case isFalse => cases h

theorem foldl_resumeCompletion (threads : K → CompletionThread K)
    (es : List (BlockingQueue.Event (Thread K) Block)) (k : K) :
    es.foldl resumeCompletion threads k = threads k ∨
      es.foldl resumeCompletion threads k = { threads k with pc := .recv } := by
  induction es generalizing threads with
  | nil => exact Or.inl rfl
  | cons e es ih =>
    have hone : resumeCompletion threads e k = threads k ∨
        resumeCompletion threads e k = { threads k with pc := .recv } := by
      unfold resumeCompletion
      split
      case h_1 j r =>
        by_cases hj : k = j
        · subst hj
          simp
        · simp [hj]
      case h_2 => exact Or.inl rfl
    rcases hone with h | h <;> rcases ih (resumeCompletion threads e) with h' | h' <;>
      simp_all

variable [Fintype K]

theorem mainStep_cases {s s' : State K} (h : mainStep s = some s') : Step s .main s' := by
  unfold mainStep at h
  split at h
  case h_3 k code hm =>
    split at h
    case isTrue he =>
      obtain rfl := Option.some.inj h
      exact .ready (he ▸ hm)
    case isFalse he =>
      obtain rfl := Option.some.inj h
      exact .readyFail hm he
  case h_15 k hm =>
    obtain rfl := Option.some.inj h
    cases hw : s.winsockInit
    · exact .noCleanup hm hw
    · exact .cleanup hm hw
  all_goals cases h
  · exact .socket ‹_›
  · exact .listen ‹_›
  · exact .createPort ‹_›
  · exact .createCompletion ‹_›
  · exact .createHandler ‹_›
  · exact .report ‹_›
  · exact .setTarget ‹_›
  · exact .associate ‹_›
  · exact .recvFailed ‹_›
  · exact .clearTarget ‹_›
  · exact .post ‹_›
  · exact .closeListener ‹_›
  · exact .closePort ‹_›
  · exact .reportStopped ‹_›

theorem getStatus_cases {s s' : State K} {k : K} (h : getStatus s k = some s') :
    Step s (.getStatus k) s' := by
  unfold getStatus at h
  split at h
  case h_2 => cases h
  case h_1 hp =>
    split at h
    case isTrue hc =>
      obtain rfl := Option.some.inj h
      exact .getClosed hp hc
    case isFalse hc =>
      have hc := Bool.not_eq_true _ ▸ hc
      split at h
      case h_1 => cases h
      case h_2 p rest hq =>
        obtain rfl := Option.some.inj h
        cases hs : p.success
        · exact .getFailed hp hc hq hs
        · by_cases hn : p.transferred = 0
          · simpa [hn] using Step.getEmpty hp hc hq hs hn
          · simpa [hn] using Step.getData hp hc hq hs hn

theorem completionStep_cases {s s' : State K} {k : K} (h : completionStep s k = some s') :
    Step s (.completion k) s' := by
  unfold completionStep at h
  simp only at h
  split at h
  all_goals cases h
  · exact .emptyTransfer ‹_› ‹_›
  · exact .lastTransfer ‹_› ‹_›
  · exact .closeClient ‹_› ‹_›
  · exact .clearClient ‹_› ‹_›
  · exact .freeClient ‹_› ‹_›
  · exact .copy ‹_› ‹_›
  · exact .exitClose ‹_› ‹_›
  · exact .exitNoClient ‹_› ‹_›
  · exact .exitClear ‹_› ‹_›
  · exact .exitFree ‹_› ‹_›
  · exact .exitFreeOverlapped ‹_›

theorem step_cases {s s' : State K} {l : Label K} (h : step s l = some s') : Step s l s' := by
  cases l with
  | start k =>
    simp only [step] at h
    split at h
    case isTrue hm => obtain rfl := Option.some.inj h; exact .start hm.1 hm.2
    case isFalse => cases h
  | startup code =>
    simp only [step] at h
    split at h
    case h_1 hm => obtain rfl := Option.some.inj h; exact .startupOk hm
    case h_2 hm =>
      split at h
      case isTrue => cases h
      case isFalse hw =>
        obtain rfl := Option.some.inj h
        exact .startupFail hm (Bool.not_eq_true _ ▸ hw)
    case h_3 => cases h
  | bind code =>
    simp only [step] at h
    split at h
    case h_1 hm => obtain rfl := Option.some.inj h; exact .bindOk hm
    case h_2 hm => obtain rfl := Option.some.inj h; exact .bindFail hm
    case h_3 => cases h
  | createQueue ok =>
    simp only [step] at h
    split at h
    case h_1 hm =>
      cases ok <;> obtain rfl := Option.some.inj h
      · exact .createQueueFail hm
      · exact .createQueue hm
    case h_2 => cases h
  | calloc c =>
    simp only [step] at h
    split at h
    case h_1 hm =>
      split at h
      case isTrue hc => obtain rfl := Option.some.inj h; exact .calloc hm hc
      case isFalse => cases h
    case h_2 => cases h
  | accept ok =>
    simp only [step] at h
    split at h
    case h_1 hm =>
      cases ok
      · obtain rfl := Option.some.inj h
        exact .acceptFail hm
      · simp only [if_true] at h
        split at h
        case isTrue hs =>
          obtain rfl := Option.some.inj h
          obtain ⟨j, hj, ho⟩ := (Option.any_eq_true _ _).mp hs
          exact .accept hm hj (of_decide_eq_true ho)
        case isFalse => cases h
    case h_2 => cases h
  | recvFirst ok =>
    simp only [step] at h
    split at h
    case h_1 hm =>
      cases ok <;> obtain rfl := Option.some.inj h
      · exact .recvFirstFail hm
      · exact .recvFirst hm
    case h_2 => cases h
  | waitCompletion timedOut =>
    simp only [step] at h
    split at h
    case h_1 hm =>
      split at h
      case isTrue hw => obtain rfl := Option.some.inj h; exact .waitCompletion hm hw
      case isFalse => cases h
    case h_2 => cases h
  | waitHandler timedOut =>
    simp only [step] at h
    split at h
    case h_1 hm =>
      split at h
      case isTrue hw => obtain rfl := Option.some.inj h; exact .waitHandler hm hw
      case isFalse => cases h
    case h_2 => cases h
  | main => exact mainStep_cases h
  | getStatus k => exact getStatus_cases h
  | enqueue k newNode =>
    simp only [step] at h
    split at h
    case h_1 hp hq => obtain rfl := Option.some.inj h; exact .enqueueNull hp hq
    case h_2 hp hq =>
      obtain ⟨x, hx, rfl⟩ := Option.map_eq_some_iff.mp h
      exact .enqueue hp hq hx
    case h_3 => cases h
  | recvAgain k ok =>
    simp only [step] at h
    split at h
    case h_1 hp hc =>
      cases ok
      · obtain rfl := Option.some.inj h
        exact .recvAgainFail hp hc
      · simp only [if_true] at h
        split at h
        case isTrue ho => obtain rfl := Option.some.inj h; exact .recvAgain hp hc ho
        case isFalse => cases h
    case h_2 => cases h
  | completion k => exact completionStep_cases h
  | dequeue k =>
    simp only [step] at h
    split at h
    case h_1 hp hq => obtain rfl := Option.some.inj h; exact .dequeueNull hp hq
    case h_2 hp hq =>
      obtain ⟨x, hx, rfl⟩ := Option.map_eq_some_iff.mp h
      exact .dequeue hp hq hx
    case h_3 => cases h
  | handler k =>
    simp only [step] at h
    split at h
    case h_1 hp => obtain rfl := Option.some.inj h; exact .received hp
    case h_2 hp => obtain rfl := Option.some.inj h; exact .free hp
    case h_3 => cases h
  | queue q l =>
    simp only [step] at h
    split at h
    case isTrue hl =>
      obtain ⟨x, hx, rfl⟩ := Option.map_eq_some_iff.mp h
      exact .queue hl hx
    case isFalse => cases h
  | cleanClose =>
    simp only [step] at h
    split at h
    · cases h
    · obtain rfl := Option.some.inj h
      exact .cleanClose (by simpa using ‹¬ s.cleaning = true›)
  | cleanReset =>
    simp only [step] at h
    split at h
    · obtain rfl := Option.some.inj h
      exact .cleanReset ‹_›
    · cases h
  | arrive c chunk =>
    simp only [step] at h
    split at h
    case isTrue hl =>
      obtain ⟨x, hx, rfl⟩ := Option.map_eq_some_iff.mp h
      obtain ⟨k, hk, ho, rfl⟩ := complete_cases hx
      simpa [State.queuePacket, State.setClient, State.setPort] using Step.arrive hl.1 hl.2 hk ho
    case isFalse => cases h
  | peerClosed c =>
    obtain ⟨k, hk, ho, rfl⟩ := complete_cases h
    exact .peerClosed hk ho
  | fail c =>
    obtain ⟨k, hk, ho, rfl⟩ := complete_cases h
    exact .fail hk ho

/-- The order of the operations of `startIocpServer` and `ReadySocket`. -/
inductive MainPc.Next : Label K → MainPc → MainPc → Prop where
  | startupOk : Next (.startup none) .startup .socket
  | startupFail {e : Int} : Next (.startup (some e)) .startup (.ready e)
  | socket : Next .main .socket .bind
  | bindOk : Next (.bind none) .bind .listen
  | bindFail {e : Int} : Next (.bind (some e)) .bind (.ready e)
  | listen : Next .main .listen (.ready 0)
  | ready : Next .main (.ready 0) .createPort
  | createPort : Next .main .createPort .createCompletion
  | createCompletion : Next .main .createCompletion .createHandler
  | createHandler : Next .main .createHandler .createQueue
  | createQueue {ok : Bool} : Next (.createQueue ok) .createQueue .report
  | report : Next .main .report .calloc
  | calloc {c : Nat} : Next (.calloc c) .calloc (.accept c)
  | accept {c : Nat} : Next (.accept true) (.accept c) (.setTarget c)
  | acceptFail {c : Nat} : Next (.accept false) (.accept c) .post
  | setTarget {c : Nat} : Next .main (.setTarget c) (.associate c)
  | associate {c : Nat} : Next .main (.associate c) (.recv c)
  | recvFirst {c : Nat} : Next (.recvFirst true) (.recv c) .calloc
  | recvFirstFail {c : Nat} : Next (.recvFirst false) (.recv c) (.recvFailed c)
  | recvFailed {c : Nat} : Next .main (.recvFailed c) .clearTarget
  | clearTarget : Next .main .clearTarget .post
  | post : Next .main .post .waitCompletion
  | waitCompletion {timedOut : Bool} :
    Next (.waitCompletion timedOut) .waitCompletion .waitHandler
  | waitHandler {timedOut : Bool} : Next (.waitHandler timedOut) .waitHandler .closeListener
  | closeListener : Next .main .closeListener .closePort
  | closePort : Next .main .closePort .cleanup
  | cleanup : Next .main .cleanup .reportStopped

/-- What a step does to the main thread. -/
inductive MainMove (s : State K) (l : Label K) (s' : State K) : Prop where
  | same (hm : s'.main = s.main) (hs : s'.started = s.started)
  | start {k : K} (hm : s.main = none) (hk : s.started k = false)
    (hm' : s'.main = some (k, .startup)) (hs : s'.started = Function.update s.started k true)
  | next {k : K} {p q : MainPc} (hm : s.main = some (k, p)) (hm' : s'.main = some (k, q))
    (hs : s'.started = s.started) (hn : MainPc.Next l p q)
  | done {k : K} {p : MainPc} (hm : s.main = some (k, p)) (hm' : s'.main = none)
    (hs : s'.started = s.started)

theorem Step.mainMove {s s' : State K} {l : Label K} (h : Step s l s') : MainMove s l s' := by
  cases h with
  | start hm hk => exact .start hm hk rfl rfl
  | startupOk hm => exact .next hm rfl rfl .startupOk
  | startupFail hm => exact .next hm rfl rfl .startupFail
  | socket hm => exact .next hm rfl rfl .socket
  | bindOk hm => exact .next hm rfl rfl .bindOk
  | bindFail hm => exact .next hm rfl rfl .bindFail
  | listen hm => exact .next hm rfl rfl .listen
  | ready hm => exact .next hm rfl rfl .ready
  | readyFail hm | reportStopped hm => exact .done hm rfl rfl
  | createPort hm => exact .next hm rfl rfl .createPort
  | createCompletion hm => exact .next hm rfl rfl .createCompletion
  | createHandler hm => exact .next hm rfl rfl .createHandler
  | createQueue hm | createQueueFail hm => exact .next hm rfl rfl .createQueue
  | report hm => exact .next hm rfl rfl .report
  | calloc hm => exact .next hm rfl rfl .calloc
  | accept hm => exact .next hm rfl rfl .accept
  | acceptFail hm => exact .next hm rfl rfl .acceptFail
  | setTarget hm => exact .next hm rfl rfl .setTarget
  | associate hm => exact .next hm rfl rfl .associate
  | recvFirst hm => exact .next hm rfl rfl .recvFirst
  | recvFirstFail hm => exact .next hm rfl rfl .recvFirstFail
  | recvFailed hm => exact .next hm rfl rfl .recvFailed
  | clearTarget hm => exact .next hm rfl rfl .clearTarget
  | post hm => exact .next hm rfl rfl .post
  | waitCompletion hm => exact .next hm rfl rfl .waitCompletion
  | waitHandler hm => exact .next hm rfl rfl .waitHandler
  | closeListener hm => exact .next hm rfl rfl .closeListener
  | closePort hm => exact .next hm rfl rfl .closePort
  | cleanup hm | noCleanup hm => exact .next hm rfl rfl .cleanup
  | _ => exact .same rfl rfl

end Cexp.IocpServer
