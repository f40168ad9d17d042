import Cexp.BlockingQueue

/-! The server of `myIocpServer.c`: runs of `startIocpServer` one after another on a main
thread, the `CompletionThread` and `HandleReceivedThread` of every run, `mysocket_clean`
on the GUI thread, and the kernel's side of the completion ports. Runs are named by `K`;
both callbacks are set, and the unchecked `calloc`, `malloc` and handle creations succeed. -/

namespace Cexp.IocpServer

abbrev Byte := BitVec 8

def BUF_SIZE : Nat := 512

/-- A block from `malloc(transferredNum + 1)`. -/
abbrev Block := List Byte

inductive Thread (K : Type) where
  | completion (run : K)
  | handler (run : K)
  deriving DecidableEq, Fintype

abbrev Queue (K : Type) := BlockingQueue.State (Thread K) Block

inductive Heap where
  | unused
  | live
  | freed
  deriving DecidableEq, Repr

inductive Sock where
  | unused
  | opened
  | closed
  deriving DecidableEq, Repr

/-- A listening socket: closed by `mysocket_clean`, or by the end of its run. -/
inductive Listener where
  | unused
  | opened
  | cleaned
  | closed
  deriving DecidableEq, Repr

/-- What one pass of the accept loop allocates: the `HANDLE_CONTEXT` with its buffer, the
client socket and the `OVERLAPPED`; and whether a receive is outstanding in the kernel. -/
structure Client (K : Type) where
  ctx : Heap
  socket : Sock
  overlapped : Heap
  port : Option K
  buffer : List Byte
  outstanding : Bool

structure Packet where
  transferred : Nat
  key : Option Nat
  overlapped : Option Nat
  success : Bool
  deriving DecidableEq

structure Port where
  packets : List Packet
  posted : Bool
  closed : Bool

inductive MainPc where
  | startup
  | socket
  | bind
  | listen
  | ready (code : Int)
  | createPort
  | createCompletion
  | createHandler
  | createQueue
  | report
  | calloc
  | accept (c : Nat)
  | setTarget (c : Nat)
  | associate (c : Nat)
  | recv (c : Nat)
  | recvFailed (c : Nat)
  | clearTarget
  | post
  | waitCompletion
  | waitHandler
  | closeListener
  | closePort
  | cleanup
  | reportStopped
  deriving DecidableEq, Repr

inductive CompletionPc (K : Type) where
  | notStarted
  | getStatus
  | emptyTransfer
  | closeClient
  | clearTarget
  | freeClient
  | copy (transferredNum : Nat)
  | enqueue (data : Block) (transferredNum : Nat)
  | inEnqueue (q : K)
  | recv
  | exitClose
  | exitClear
  | exitFree
  | exitFreeOverlapped
  | exited
  deriving DecidableEq

structure CompletionThread (K : Type) where
  pc : CompletionPc K
  clientCtx : Option Nat
  overlappedPtr : Option Nat
  deriving DecidableEq

inductive HandlerPc (K : Type) where
  | notStarted
  | dequeue
  | inDequeue (q : K)
  | received (data : Block)
  | free (data : Block)
  | exited
  deriving DecidableEq

/-- The globals of the file, the objects in the heap and the kernel, and the threads. -/
structure State (K : Type) where
  winsockInit : Bool
  gQueue : Option K
  gsSocket : Option K
  gcSocket : Option Nat
  started : K → Bool
  main : Option (K × MainPc)
  completion : K → CompletionThread K
  handler : K → HandlerPc K
  cleaning : Bool
  listener : K → Listener
  client : Nat → Client K
  port : K → Port
  queue : K → Queue K

variable {K : Type}

def init : State K where
  winsockInit := false
  gQueue := none
  gsSocket := none
  gcSocket := none
  started := fun _ => false
  main := none
  completion := fun _ => ⟨.notStarted, none, none⟩
  handler := fun _ => .notStarted
  cleaning := false
  listener := fun _ => .unused
  client := fun _ => ⟨.unused, .unused, .unused, none, List.replicate BUF_SIZE 0, false⟩
  port := fun _ => ⟨[], false, false⟩
  queue := fun _ => BlockingQueue.createQueue 0

/-- One step. The labels of the main thread carry the results of the calls it makes;
`main`, `completion` and `handler` are the operations that leave no choice. -/
inductive Label (K : Type) where
  | start (k : K)
  | startup (code : Option Int)
  | bind (code : Option Int)
  | createQueue (ok : Bool)
  | calloc (c : Nat)
  | accept (ok : Bool)
  | recvFirst (ok : Bool)
  | waitCompletion (timedOut : Bool)
  | waitHandler (timedOut : Bool)
  | main
  | getStatus (k : K)
  | enqueue (k : K) (newNode : Option BlockingQueue.Addr)
  | recvAgain (k : K) (ok : Bool)
  | completion (k : K)
  | dequeue (k : K)
  | handler (k : K)
  | queue (q : K) (l : BlockingQueue.Label (Thread K) Block)
  | cleanClose
  | cleanReset
  | arrive (c : Nat) (chunk : List Byte)
  | peerClosed (c : Nat)
  | fail (c : Nat)

def strlen (data : Block) : Nat := (data.takeWhile (· ≠ 0)).length

variable [DecidableEq K]

def State.goto (s : State K) (k : K) (p : MainPc) : State K := { s with main := some (k, p) }

def State.setCompletion (s : State K) (k : K) (th : CompletionThread K) : State K :=
  { s with completion := Function.update s.completion k th }

def State.setHandler (s : State K) (k : K) (p : HandlerPc K) : State K :=
  { s with handler := Function.update s.handler k p }

def State.setClient (s : State K) (c : Nat) (x : Client K) : State K :=
  { s with client := Function.update s.client c x }

def State.setPort (s : State K) (k : K) (p : Port) : State K :=
  { s with port := Function.update s.port k p }

def State.setQueue (s : State K) (k : K) (q : Queue K) : State K :=
  { s with queue := Function.update s.queue k q }

def State.closeListener (s : State K) (how : Listener) : State K :=
  { s with listener := fun k =>
      if s.gsSocket = some k ∧ s.listener k = .opened then how else s.listener k }

def State.closeClient (s : State K) (c : Nat) : State K :=
  s.setClient c { s.client c with socket := .closed }

def State.freeCtx (s : State K) (c : Nat) : State K :=
  s.setClient c { s.client c with ctx := .freed }

def State.freeOverlapped (s : State K) (ptr : Option Nat) : State K :=
  { s with client := match ptr with
      | none => s.client
      | some c => Function.update s.client c { s.client c with overlapped := .freed } }

/-- `WSACleanup` closes the sockets that are still open. -/
def State.wsaCleanup (s : State K) : State K :=
  { s with
    winsockInit := false
    listener := fun k => if s.listener k = .opened then .closed else s.listener k
    client := fun c => { s.client c with
      socket := if (s.client c).socket = .opened then .closed else (s.client c).socket } }

/-- The outstanding receive of a client ends in a packet on port `k`. -/
def State.queuePacket (s : State K) (c : Nat) (k : K) (p : Packet) : State K :=
  (s.setClient c { s.client c with outstanding := false }).setPort k
    { s.port k with packets := (s.port k).packets ++ [p] }

def State.complete (s : State K) (c : Nat) (p : Packet) : Option (State K) :=
  match (s.client c).port with
  | none => none
  | some k => if (s.client c).outstanding then some (s.queuePacket c k p) else none

def mainStep (s : State K) : Option (State K) :=
  match s.main with
  | some (k, .socket) =>
    some { s.goto k .bind with
      gsSocket := some k, listener := Function.update s.listener k .opened }
  | some (k, .listen) => some (s.goto k (.ready 0))
  | some (k, .ready code) =>
    if code = 0 then some (s.goto k .createPort) else some { s with main := none }
  | some (k, .createPort) => some (s.goto k .createCompletion)
  | some (k, .createCompletion) =>
    some ((s.goto k .createHandler).setCompletion k ⟨.getStatus, none, none⟩)
  | some (k, .createHandler) => some ((s.goto k .createQueue).setHandler k .dequeue)
  | some (k, .report) => some (s.goto k .calloc)
  | some (k, .setTarget c) => some { s.goto k (.associate c) with gcSocket := some c }
  | some (k, .associate c) =>
    some ((s.goto k (.recv c)).setClient c { s.client c with port := some k })
  | some (k, .recvFailed c) =>
    some ((s.goto k .clearTarget).setClient c
      { s.client c with overlapped := .freed, socket := .closed })
  | some (k, .clearTarget) => some { s.goto k .post with gcSocket := none }
  | some (k, .post) =>
    some ((s.goto k .waitCompletion).setPort k { s.port k with
      packets := (s.port k).packets ++ [⟨0, none, none, true⟩], posted := true })
  | some (k, .closeListener) => some ((s.goto k .closePort).closeListener .closed)
  | some (k, .closePort) =>
    some ((s.goto k .cleanup).setPort k { s.port k with closed := true })
  | some (k, .cleanup) =>
    some ((if s.winsockInit then s.wsaCleanup else s).goto k .reportStopped)
  | some (_, .reportStopped) => some { s with main := none }
  | _ => none

/-- `GetQueuedCompletionStatus`: on a closed port it fails without a packet, leaving the
key variable as it was. -/
def getStatus (s : State K) (k : K) : Option (State K) :=
  match (s.completion k).pc with
  | .getStatus =>
    if (s.port k).closed then
      some (s.setCompletion k ⟨.exitClose, (s.completion k).clientCtx, none⟩)
    else
      match (s.port k).packets with
      | [] => none
      | p :: rest =>
        let pc := if p.success = false then .exitClose
          else if p.transferred = 0 then .emptyTransfer else .copy p.transferred
        some ((s.setPort k { s.port k with packets := rest }).setCompletion k
          ⟨pc, p.key, p.overlapped⟩)
  | _ => none

def completionStep (s : State K) (k : K) : Option (State K) :=
  let th := s.completion k
  let goto (s : State K) (pc : CompletionPc K) := s.setCompletion k { th with pc := pc }
  match th.pc, th.clientCtx with
  | .emptyTransfer, some _ => some (goto (s.freeOverlapped th.overlappedPtr) .closeClient)
  | .emptyTransfer, none => some (goto (s.freeOverlapped th.overlappedPtr) .exitClose)
  | .closeClient, some c => some (goto (s.closeClient c) .clearTarget)
  | .clearTarget, some _ => some (goto { s with gcSocket := none } .freeClient)
  | .freeClient, some c =>
    some ((s.freeCtx c).setCompletion k { th with pc := .getStatus, clientCtx := none })
  | .copy n, some c => some (goto s (.enqueue ((s.client c).buffer.take n ++ [0]) n))
  | .exitClose, some c => some (goto (s.closeClient c) .exitClear)
  | .exitClose, none => some (goto s .exitFreeOverlapped)
  | .exitClear, some _ => some (goto { s with gcSocket := none } .exitFree)
  | .exitFree, some c => some (goto (s.freeCtx c) .exitFreeOverlapped)
  | .exitFreeOverlapped, _ => some (goto (s.freeOverlapped th.overlappedPtr) .exited)
  | _, _ => none

def resumeCompletion (threads : K → CompletionThread K) :
    BlockingQueue.Event (Thread K) Block → K → CompletionThread K
  | .ret (.completion k) _ => Function.update threads k { threads k with pc := .recv }
  | _ => threads

def resumeHandler (threads : K → HandlerPc K) :
    BlockingQueue.Event (Thread K) Block → K → HandlerPc K
  | .ret (.handler k) (.data d) => Function.update threads k (.received d)
  | .ret (.handler k) _ => Function.update threads k .exited
  | _ => threads

/-- The threads whose calls on a queue return go on. -/
def State.resume (s : State K) (es : List (BlockingQueue.Event (Thread K) Block)) : State K :=
  { s with
    completion := es.foldl resumeCompletion s.completion
    handler := es.foldl resumeHandler s.handler }

variable [Fintype K]

def step (s : State K) : Label K → Option (State K)
  | .start k =>
    if s.main = none ∧ s.started k = false then
      some { s.goto k .startup with started := Function.update s.started k true }
    else none
  | .startup code =>
    match s.main, code with
    | some (k, .startup), none => some { s.goto k .socket with winsockInit := true }
    | some (k, .startup), some e =>
      if s.winsockInit then none else some (s.goto k (.ready e))
    | _, _ => none
  | .bind code =>
    match s.main, code with
    | some (k, .bind), none => some (s.goto k .listen)
    | some (k, .bind), some e => some (s.goto k (.ready e))
    | _, _ => none
  | .createQueue ok =>
    match s.main with
    | some (k, .createQueue) =>
      if ok then
        some { s.goto k .report with
          gQueue := some k
          queue := fun q => if q = k then BlockingQueue.createQueue 0
            else { s.queue q with stop := false, glimitSize := BlockingQueue.limitOf 0 } }
      else some { s.goto k .report with gQueue := none }
    | _ => none
  | .calloc c =>
    match s.main with
    | some (k, .calloc) =>
      if (s.client c).ctx = .unused then
        some ((s.goto k (.accept c)).setClient c { s.client c with ctx := .live })
      else none
    | _ => none
  | .accept ok =>
    match s.main with
    | some (k, .accept c) =>
      if ok then
        if s.gsSocket.any fun j => s.listener j = .opened then
          some ((s.goto k (.setTarget c)).setClient c { s.client c with socket := .opened })
        else none
      else some (s.goto k .post)
    | _ => none
  | .recvFirst ok =>
    match s.main with
    | some (k, .recv c) =>
      if ok then
        some ((s.goto k .calloc).setClient c
          { s.client c with overlapped := .live, outstanding := true })
      else
        some ((s.goto k (.recvFailed c)).setClient c { s.client c with overlapped := .live })
    | _ => none
  | .waitCompletion timedOut =>
    match s.main with
    | some (k, .waitCompletion) =>
      if timedOut ∨ (s.completion k).pc = .exited then some (s.goto k .waitHandler) else none
    | _ => none
  | .waitHandler timedOut =>
    match s.main with
    | some (k, .waitHandler) =>
      if timedOut ∨ s.handler k = .exited then some (s.goto k .closeListener) else none
    | _ => none
  | .main => mainStep s
  | .getStatus k => getStatus s k
  | .enqueue k newNode =>
    match (s.completion k).pc, s.gQueue with
    | .enqueue _ _, none => some (s.setCompletion k { s.completion k with pc := .recv })
    | .enqueue data n, some q =>
      (BlockingQueue.step (s.queue q) (.enqueue (.completion k) data n newNode)).map fun x =>
        (s.setQueue q x).setCompletion k { s.completion k with
          pc := if newNode = none then .recv else .inEnqueue q }
    | _, _ => none
  | .recvAgain k ok =>
    match (s.completion k).pc, (s.completion k).clientCtx with
    | .recv, some c =>
      if ok then
        if (s.client c).socket = .opened then
          some ((s.setClient c { s.client c with outstanding := true }).setCompletion k
            { s.completion k with pc := .getStatus })
        else none
      else some (s.setCompletion k { s.completion k with pc := .exitClose })
    | _, _ => none
  | .completion k => completionStep s k
  | .dequeue k =>
    match s.handler k, s.gQueue with
    | .dequeue, none => some (s.setHandler k .exited)
    | .dequeue, some q =>
      (BlockingQueue.step (s.queue q) (.dequeue (.handler k))).map fun x =>
        (s.setQueue q x).setHandler k (.inDequeue q)
    | _, _ => none
  | .handler k =>
    match s.handler k with
    | .received data => some (s.setHandler k (.free data))
    | .free _ => some (s.setHandler k .dequeue)
    | _ => none
  | .queue q l =>
    if l.insideCall then
      (BlockingQueue.step (s.queue q) l).map fun x =>
        (s.setQueue q x).resume (BlockingQueue.events (s.queue q) l)
    else none
  | .cleanClose =>
    if s.cleaning then none else some { s.closeListener .cleaned with cleaning := true }
  | .cleanReset => if s.cleaning then some { s with gsSocket := none, cleaning := false } else none
  | .arrive c chunk =>
    if 0 < chunk.length ∧ chunk.length ≤ BUF_SIZE then
      (s.complete c ⟨chunk.length, some c, some c, true⟩).map fun s' =>
        s'.setClient c { s'.client c with
          buffer := chunk ++ (s.client c).buffer.drop chunk.length }
    else none
  | .peerClosed c => s.complete c ⟨0, some c, some c, true⟩
  | .fail c => s.complete c ⟨0, some c, some c, false⟩

inductive Event (K : Type) where
  | stateChanged (state : Int)
  | completed (k : K) (chunk : List Byte)
  | dataReceived (k : K) (data : Block) (len : Nat)

/-- What a step shows: the callbacks, and the chunks of data that complete. -/
def events (s : State K) : Label K → List (Event K)
  | .main =>
    match s.main with
    | some (_, .ready code) => if code = 0 then [] else [.stateChanged (code + 1)]
    | some (_, .report) => [.stateChanged 1]
    | some (_, .reportStopped) => [.stateChanged 0]
    | _ => []
  | .handler k =>
    match s.handler k with
    | .received data => [.dataReceived k data (strlen data)]
    | _ => []
  | .arrive c chunk =>
    match (s.client c).port with
    | some k => [.completed k chunk]
    | none => []
  | _ => []

def startRun : List (Label Unit) :=
  [.start (), .startup none, .main, .bind none, .main, .main, .main, .main, .main]

def acceptClient (c : Nat) : List (Label Unit) :=
  [.calloc c, .accept true, .main, .main, .recvFirst true]

end Cexp.IocpServer
