import NormFS.Crypto
import NormFS.Instance
import NormFS.Mem.Calls
import NormFS.Reader.Fsm

/-! The server behind its connections. Every part of a request is handled by a task of its own. The tasks
share the queues, and each sends its responses into the channel of the connection its request came from.
A step is one critical section, one send or one receive of one task, so the tasks may interleave in any
way. What a read finds is left open: it delivers some entries and returns with some result. -/
namespace NormFS.Server

structure SetupRequest where
  version : BitVec 64
  deriving DecidableEq

structure PingRequest where
  sequence : BitVec 64
  clientTimestampNs : BitVec 64
  deriving DecidableEq

structure WriteRequest where
  writeId : BitVec 64
  queueId : List Char
  packets : List Bytes
  deriving DecidableEq

structure Offset where
  id : Option (List UInt8)
  type : BitVec 32
  deriving DecidableEq

structure ReadRequest where
  readId : BitVec 64
  queueId : List Char
  step : BitVec 64
  offset : Option Offset
  limit : BitVec 64
  deriving DecidableEq

structure ClientRequest where
  setup : Option SetupRequest
  ping : Option PingRequest
  write : Option WriteRequest
  read : Option ReadRequest
  deriving DecidableEq

structure SetupResponse where
  version : BitVec 64
  instanceIdBytes : List UInt8
  instanceId : List Char
  deriving DecidableEq

structure PingResponse where
  localStampNs : BitVec 64
  monotonicStampNs : BitVec 64
  request : Option PingRequest
  deriving DecidableEq

inductive WriteResult where
  | wrDone
  | wrServerError
  deriving DecidableEq

structure WriteResponse where
  writeId : BitVec 64
  result : WriteResult
  ids : List (List UInt8)
  deriving DecidableEq

inductive ReadResult where
  | rrStart
  | rrEntry
  | rrEnd
  | rrQueueNotFound
  | rrNotFound
  | rrServerError
  deriving DecidableEq

structure ReadResponse where
  readId : BitVec 64
  result : ReadResult
  id : Option (List UInt8)
  data : List UInt8
  dataSource : DataSource
  deriving DecidableEq

structure ServerResponse where
  setup : Option SetupResponse
  ping : Option PingResponse
  write : Option WriteResponse
  read : Option ReadResponse
  deriving DecidableEq

def SetupResponse.toServer (response : SetupResponse) : ServerResponse := ⟨some response, none, none, none⟩
def PingResponse.toServer (response : PingResponse) : ServerResponse := ⟨none, some response, none, none⟩
def WriteResponse.toServer (response : WriteResponse) : ServerResponse := ⟨none, none, some response, none⟩
def ReadResponse.toServer (response : ReadResponse) : ServerResponse := ⟨none, none, none, some response⟩

def WriteRequest.answer (w : WriteRequest) (result : WriteResult) (ids : List UintN) : ServerResponse :=
  WriteResponse.toServer ⟨w.writeId, result, ids.map UintN.writeValueToBuffer⟩

namespace ReadRequest

def answer (r : ReadRequest) (result : ReadResult) : ServerResponse :=
  ReadResponse.toServer ⟨r.readId, result, none, [], .none⟩

def answerEntry (r : ReadRequest) (entry : ReadEntry) : ServerResponse :=
  ReadResponse.toServer ⟨r.readId, .rrEntry, some entry.id.writeValueToBuffer, entry.data.data, entry.source⟩

/-- An offset without an id, or with an empty one, is zero. -/
def offsetId (r : ReadRequest) : Except UintNError UintN :=
  match r.offset.bind Offset.id with
  | none => .ok .zero
  | some raw => if raw.isEmpty then .ok .zero else UintN.readValueFromSlice raw raw.length

/-- An unknown code is an absolute offset. -/
def position (r : ReadRequest) (offsetId : UintN) : ReadPosition :=
  if r.offset.map Offset.type = some 1 then .shiftFromTail offsetId else .absolute offsetId

def stride (r : ReadRequest) : Nat := if r.step = 0 then 1 else r.step.toNat

end ReadRequest

def finalResult : Outcome ReaderError Bool → Option ReadResult
  | .ok subscribed => if subscribed then none else some .rrEnd
  | .err .queueNotFound => some .rrQueueNotFound
  | .err .notFound => some .rrNotFound
  | .err .clientDisconnected => none
  | .err _ => some .rrServerError
  | .panic => some .rrServerError

inductive Job where
  | setup (request : SetupRequest)
  | ping (request : PingRequest)
  | write (request : WriteRequest)
  | read (request : ReadRequest)
  deriving DecidableEq

/-- The tasks that `handle_request` spawns. -/
def ClientRequest.jobs (request : ClientRequest) : List Job :=
  request.setup.toList.map .setup ++ request.ping.toList.map .ping ++ request.write.toList.map .write ++
    request.read.toList.map .read

/- `ensuring` waits for the call that starts the queue, `handing` is about to ask the writer, `relaying` has
taken an entry out of the channel of the read, `responding` is about to send its last response. -/
inductive Phase where
  | spawned
  | ensuring (call : Nat)
  | numbering
  | handing (request : NormFS.WriteRequest) (ids : List UintN)
  | starting (position : ReadPosition)
  | streaming
  | relaying (entry : ReadEntry)
  | responding (response : ServerResponse)
  | finished
  | panicked
  deriving DecidableEq

def Phase.listens : Phase → Bool
  | .streaming | .relaying _ => true
  | _ => false

def responseChannelBuffer : Nat := 10

def readChannelBuffer : Nat := 2048

/-- A read that was spawned: all that it has sent, and how much of it was received. `sending` says that the
read or its subscription still holds the channel. -/
structure Delivery where
  position : ReadPosition
  limit : Nat
  step : Nat
  produced : List ReadEntry
  taken : Nat
  sending : Bool
  result : Option (Outcome ReaderError Bool)
  deriving DecidableEq

namespace Delivery

/-- An entry into the channel, while there is room. -/
def produce (d : Delivery) (entry : ReadEntry) : Option Delivery :=
  if d.sending && decide (d.produced.length - d.taken < readChannelBuffer) then
    some { d with produced := d.produced ++ [entry] }
  else none

/-- A subscription keeps the channel, any other result gives it back. -/
def finish (d : Delivery) (result : Outcome ReaderError Bool) : Option Delivery :=
  match d.result with
  | none => some { d with result := some result, sending := d.sending && decide (result = .ok true) }
  | some _ => none

end Delivery

/-- `call` is the call that started its queue, `sent` what the channel of the connection has accepted. -/
structure Task where
  conn : Nat
  job : Job
  phase : Phase
  call : Option Nat
  delivery : Option Delivery
  sent : List ServerResponse
  deriving DecidableEq

/-- Each response goes with the task it came from. `closed` says that the write loop has ended, and that
nothing of what is queued will be written. -/
structure Connection where
  queued : List (Nat × ServerResponse)
  written : List (Nat × ServerResponse)
  closed : Bool
  deriving DecidableEq

structure Batch where
  queue : QueueId
  task : Nat
  request : NormFS.WriteRequest
  deriving DecidableEq

def requestsOf (batches : List Batch) (queue : QueueId) : List NormFS.WriteRequest :=
  (batches.filter (fun batch => batch.queue = queue)).map Batch.request

def entriesOf (batches : List Batch) (queue : QueueId) : List Entry :=
  (requestsOf batches queue).flatMap NormFS.WriteRequest.entries

structure Settings where
  instanceIdHex : List Char
  instanceIdBytes : List UInt8
  maxMemoryUsage : Nat

def SetupRequest.answer (r : SetupRequest) (settings : Settings) : ServerResponse :=
  SetupResponse.toServer ⟨r.version, settings.instanceIdBytes, settings.instanceIdHex⟩

def PingRequest.answer (r : PingRequest) (localStampNs monotonicStampNs : BitVec 64) : ServerResponse :=
  PingResponse.toServer ⟨localStampNs, monotonicStampNs, some r⟩

/-- The queues. `appended` records what memory has numbered, `handed` what the writers have accepted. -/
structure Ledger where
  startup : Startup
  appended : List Batch
  handed : List Batch

structure State extends Ledger where
  tasks : List Task
  connections : List Connection

inductive Event where
  | connect
  | request (conn : Nat) (request : ClientRequest)
  | start (event : StartEvent)
  | advance (task : Nat)
  | clock (task : Nat) (localStampNs monotonicStampNs : BitVec 64)
  | produce (task : Nat) (entry : ReadEntry)
  | dropSender (task : Nat)
  | finish (task : Nat) (result : Outcome ReaderError Bool)
  | memory (queue : QueueId) (call : MemCall)
  | closeWriter (queue : QueueId)
  | transmit (conn : Nat)
  | hangUp (conn : Nat)

end Server

/-- One packet is not a batch. -/
def MemStore.number (store : MemStore) (queue : QueueId) :
    List Bytes → Outcome Unit (MemStore × WriteRequest × List UintN)
  | [data] => do
    let (store, id) ← store.enqueue queue data
    pure (store, .enqueue id data, [id])
  | packets => do
    let (store, ids) ← store.enqueueBatch queue packets
    pure (store, .enqueueBatch (ids.zip packets), ids)

/-- A call that gives no numbers. -/
def MemQueue.call (q : MemQueue) : MemCall → Option MemQueue
  | .update (.enqueue _) | .update (.enqueueBatch _) => none
  | call => ((⟨q, [], [], []⟩ : MemRun).step call).map MemRun.queue

def Startup.outcome (s : Startup) (call : Nat) : Option (Outcome Unit Unit) :=
  s.tasks[call]?.bind (fun task => task.phase.result)

def Startup.putQueue (s : Startup) (queue : QueueId) (q : MemQueue) : Startup :=
  { s with fs := { s.fs with mem := s.fs.mem.put queue q } }

def Startup.putWriter (s : Startup) (queue : QueueId) (writer : WalWriter) : Startup :=
  { s with fs := { s.fs with writers := Function.update s.fs.writers queue (some writer) } }

/-- The steps of the calls that start queues, without the enqueues. -/
def StartEvent.starts : StartEvent → Bool
  | .enqueue _ _ | .enqueueBatch _ _ => false
  | _ => true

namespace Server.State

/-- The entries of a queue, in the order in which memory has numbered them. -/
def log (s : State) (queue : QueueId) : List Entry := entriesOf s.appended queue

def setTask (s : State) (i : Nat) (task : Task) : State := { s with tasks := s.tasks.set i task }

def setFs (s : State) (fs : Instance) : State := { s with startup := { s.startup with fs := fs } }

def setConnection (s : State) (c : Nat) (connection : Connection) : State :=
  { s with connections := s.connections.set c connection }

/-- `send_response` waits while the channel is full and fails when the write loop is gone. -/
def sendResponse (s : State) (i : Nat) (task : Task) (response : ServerResponse) (sent : Phase)
    (delivery : Option Delivery) : Option State := do
  let connection ← s.connections[task.conn]?
  if connection.closed then some (s.setTask i { task with phase := .finished })
  else if connection.queued.length < responseChannelBuffer then
    let after := { task with phase := sent, delivery := delivery, sent := task.sent ++ [response] }
    some ((s.setTask i after).setConnection task.conn
      { connection with queued := connection.queued ++ [(i, response)] })
  else none

def ensureQueueExists (s : State) (i : Nat) (task : Task) (queue : QueueId) (readonly : Bool) : Option State := do
  let startup ← s.startup.step (.call queue readonly)
  let call := s.startup.tasks.length
  some { s.setTask i { task with phase := .ensuring call, call := some call } with startup := startup }

/-- A step of the read behind a task, or of its subscription, while the task listens. -/
def deliver (s : State) (i : Nat) (change : Delivery → Option Delivery) : Option State := do
  let task ← s.tasks[i]?
  let delivery ← task.delivery
  if task.phase.listens then
    let after ← change delivery
    some (s.setTask i { task with delivery := some after })
  else none

section Handlers

variable (settings : Settings)

def new : State := ⟨⟨.new settings.maxMemoryUsage, [], []⟩, [], []⟩

def resolve (queueId : List Char) : QueueId := QueueIdResolver.resolve ⟨settings.instanceIdHex⟩ queueId

def handleSetup (s : State) (i : Nat) (task : Task) (r : SetupRequest) : Option State :=
  match task.phase with
  | .spawned => some (s.setTask i { task with phase := .responding (r.answer settings) })
  | .responding response => s.sendResponse i task response .finished task.delivery
  | _ => none

/-- The stamps of a ping are taken when its task first runs, which is `clock`. -/
def handlePing (s : State) (i : Nat) (task : Task) : Option State :=
  match task.phase with
  | .responding response => s.sendResponse i task response .finished task.delivery
  | _ => none

def handleWrite (s : State) (i : Nat) (task : Task) (w : WriteRequest) : Option State :=
  let queue := resolve settings w.queueId
  match task.phase with
  | .spawned =>
    if w.packets.isEmpty then some (s.setTask i { task with phase := .responding (w.answer .wrDone []) })
    else s.ensureQueueExists i task queue false
  | .ensuring call =>
    match s.startup.outcome call with
    | some (.ok _) => some (s.setTask i { task with phase := .numbering })
    | some (.err _) =>
      some (s.setTask i { task with phase := .responding (w.answer .wrServerError []) })
    | some .panic => some (s.setTask i { task with phase := .panicked })
    | none => none
  | .numbering =>
    match s.startup.fs.mem.number queue w.packets with
    | .ok (mem, request, ids) =>
      some { (s.setTask i { task with phase := .handing request ids }).setFs { s.startup.fs with mem := mem } with
        appended := s.appended ++ [⟨queue, i, request⟩] }
    | _ => some (s.setTask i { task with phase := .panicked })
  | .handing request ids =>
    match s.startup.fs.send queue request with
    | (fs, .ok _) =>
      some { (s.setTask i { task with phase := .responding (w.answer .wrDone ids) }).setFs fs with
        handed := s.handed ++ [⟨queue, i, request⟩] }
    | (fs, .error _) =>
      some ((s.setTask i { task with phase := .responding (w.answer .wrServerError []) }).setFs fs)
  | .responding response => s.sendResponse i task response .finished task.delivery
  | _ => none

def handleRead (s : State) (i : Nat) (task : Task) (r : ReadRequest) : Option State :=
  match task.phase with
  | .spawned => s.ensureQueueExists i task (resolve settings r.queueId) true
  | .ensuring call =>
    match s.startup.outcome call with
    | some (.ok _) =>
      match r.offsetId with
      | .ok offsetId => some (s.setTask i { task with phase := .starting (r.position offsetId) })
      | .error _ => some (s.setTask i { task with phase := .responding (r.answer .rrNotFound) })
    | some (.err _) =>
      some (s.setTask i { task with phase := .responding (r.answer .rrServerError) })
    | some .panic => some (s.setTask i { task with phase := .panicked })
    | none => none
  | .starting position =>
    s.sendResponse i task (r.answer .rrStart) .streaming
      (some ⟨position, r.limit.toNat, r.stride, [], 0, true, none⟩)
  | .streaming => do
    let delivery ← task.delivery
    match delivery.produced[delivery.taken]? with
    | some entry => some (s.setTask i { task with
        phase := .relaying entry
        delivery := some { delivery with taken := delivery.taken + 1 } })
    | none =>
      -- the loop over the channel ends when nobody can send any more, then the task of the read is awaited
      if delivery.sending then none
      else match delivery.result.map finalResult with
        | none => none
        | some (some result) => some (s.setTask i { task with phase := .responding (r.answer result) })
        | some none => some (s.setTask i { task with phase := .finished })
  | .relaying entry => s.sendResponse i task (r.answerEntry entry) .streaming task.delivery
  | .responding response => s.sendResponse i task response .finished task.delivery
  | _ => none

def advance (s : State) (i : Nat) : Option State := do
  let task ← s.tasks[i]?
  match task.job with
  | .setup r => s.handleSetup settings i task r
  | .ping _ => s.handlePing i task
  | .write w => s.handleWrite settings i task w
  | .read r => s.handleRead settings i task r

def clock (s : State) (i : Nat) (localStampNs monotonicStampNs : BitVec 64) : Option State := do
  let task ← s.tasks[i]?
  match task.job, task.phase with
  | .ping r, .spawned => some (s.setTask i { task with
      phase := .responding (r.answer localStampNs monotonicStampNs) })
  | _, _ => none

/-- Only a read of the queue subscribes to it, with its own step. -/
def permits (s : State) (queue : QueueId) : MemCall → Bool
  | .subscribe subscriber => s.tasks.any (fun task => match task.job, task.delivery with
      | .read r, some delivery => decide (resolve settings r.queueId = queue) && delivery.step == subscriber.step
      | _, _ => false)
  | _ => true

def memory (s : State) (queue : QueueId) (call : MemCall) : Option State := do
  let q ← s.startup.fs.mem.queues queue
  if s.permits settings queue call then
    let after ← q.call call
    some { s with startup := s.startup.putQueue queue after }
  else none

def step (s : State) : Event → Option State
  | .connect => some { s with connections := s.connections ++ [⟨[], [], false⟩] }
  | .request conn request =>
    if conn < s.connections.length then
      some { s with tasks := s.tasks ++ request.jobs.map (fun job => ⟨conn, job, .spawned, none, none, []⟩) }
    else none
  | .start event =>
    if event.starts then do
      let startup ← s.startup.step event
      some { s with startup := startup }
    else none
  | .advance i => s.advance settings i
  | .clock i localStampNs monotonicStampNs => s.clock i localStampNs monotonicStampNs
  | .produce i entry => s.deliver i (fun delivery => delivery.produce entry)
  | .dropSender i => s.deliver i (fun delivery => some { delivery with sending := false })
  | .finish i result => s.deliver i (fun delivery => delivery.finish result)
  | .memory queue call => s.memory settings queue call
  | .closeWriter queue => do
    let writer ← s.startup.fs.writers queue
    some { s with startup := s.startup.putWriter queue { writer with listening := false } }
  | .transmit conn => do
    let connection ← s.connections[conn]?
    match connection.queued with
    | [] => none
    | response :: rest =>
      if connection.closed then none
      else some (s.setConnection conn { connection with queued := rest, written := connection.written ++ [response] })
  | .hangUp conn => do
    let connection ← s.connections[conn]?
    some (s.setConnection conn { connection with closed := true })

end Handlers

end Server.State

end NormFS
