import Mathlib.Logic.Function.Basic
import NormFS.Lib.Guards
import NormFS.Lib.Runs
import NormFS.Mem.Queue
import NormFS.Recovery
import NormFS.Wal.Writer

/-! An instance: the queues in memory, the writers of their WALs and the locks under which queues are
started. Any number of tasks start queues at the same time, for reading or for writing. -/
namespace NormFS

structure MemStore where
  queues : QueueId → Option MemQueue
  size : Nat
  maxMemoryUsage : Nat

structure WalWriter where
  start : QueueStart
  requests : List WriteRequest
  listening : Bool
  deriving DecidableEq

/-- The lock of a queue is named by the number of locks before it; none is ever taken away. -/
structure Instance where
  mem : MemStore
  writers : QueueId → Option WalWriter
  locks : QueueId → Option Nat
  lockCount : Nat

def Instance.new (maxMemoryUsage : Nat) : Instance :=
  ⟨⟨fun _ => none, 0, maxMemoryUsage⟩, fun _ => none, fun _ => none, 0⟩

namespace MemStore

def put (store : MemStore) (queue : QueueId) (q : MemQueue) : MemStore :=
  { store with queues := Function.update store.queues queue (some q) }

def startQueue (store : MemStore) (queue : QueueId) (lastId : Option UintN) : MemStore :=
  if (store.queues queue).isSome then store
  else
    let queueMaxMemory := store.maxMemoryUsage / max store.size 1
    { store with
      queues := Function.update store.queues queue (some (.new lastId queueMaxMemory))
      size := store.size + 1 }

/- A queue that was not started is a panic. -/
def enqueue (store : MemStore) (queue : QueueId) (data : Bytes) : Outcome Unit (MemStore × UintN) :=
  match store.queues queue with
  | none => .panic
  | some q => do
    let (q, id) ← q.enqueue data
    pure (store.put queue q, id)

def enqueueBatch (store : MemStore) (queue : QueueId) (entries : List Bytes) :
    Outcome Unit (MemStore × List UintN) :=
  match store.queues queue with
  | none => .panic
  | some q => do
    let (q, ids) ← q.enqueueBatch entries
    pure (store.put queue q, ids)

end MemStore

namespace Instance

def hasQueue (s : Instance) (queue : QueueId) : Bool := (s.mem.queues queue).isSome

def hasWriter (s : Instance) (queue : QueueId) : Bool := (s.writers queue).isSome

def listens (s : Instance) (queue : QueueId) : Bool := (s.writers queue).any WalWriter.listening

/- The source has one method for each kind of request. -/
def send (s : Instance) (queue : QueueId) (request : WriteRequest) : Instance × Except WalError Unit :=
  match s.writers queue with
  | none => (s, .error .writerNotFound)
  | some writer =>
    if writer.listening then
      let written := { writer with requests := writer.requests ++ [request] }
      ({ s with writers := Function.update s.writers queue (some written) }, .ok ())
    else (s, .error .sendError)

def enqueue (s : Instance) (queue : QueueId) (data : Bytes) :
    Outcome Unit (Instance × Except WalError UintN) := do
  let (mem, entryId) ← s.mem.enqueue queue data
  let (s, sent) := { s with mem := mem }.send queue (.enqueue entryId data)
  pure (s, sent.map (fun _ => entryId))

def enqueueBatch (s : Instance) (queue : QueueId) (data : List Bytes) :
    Outcome Unit (Instance × Except WalError (List UintN)) :=
  if data.isEmpty then .ok (s, .ok [])
  else do
    let (mem, entryIds) ← s.mem.enqueueBatch queue data
    let (s, sent) := { s with mem := mem }.send queue (.enqueueBatch (entryIds.zip data))
    pure (s, sent.map (fun _ => entryIds))

def startWriter (s : Instance) (queue : QueueId) (start : QueueStart) : Instance :=
  { s with writers := Function.update s.writers queue (some ⟨start, [], true⟩) }

def startMem (s : Instance) (queue : QueueId) (lastId : Option UintN) : Instance :=
  { s with mem := s.mem.startQueue queue lastId }

/-- Memory is changed first, and the writer asked then. -/
theorem enqueue_ok {s next : Instance} {queue : QueueId} {data : Bytes} {result : Except WalError UintN}
    (done : s.enqueue queue data = .ok (next, result)) : ∃ q q' id, s.mem.queues queue = some q ∧
      q.enqueue data = .ok (q', id) ∧
      next = ({ s with mem := s.mem.put queue q' }.send queue (.enqueue id data)).1 ∧
      result = ({ s with mem := s.mem.put queue q' }.send queue (.enqueue id data)).2.map (fun _ => id) := by
  unfold enqueue at done
  obtain ⟨⟨mem, entryId⟩, appended, rest⟩ := Outcome.bind_eq_ok.mp done
  unfold MemStore.enqueue at appended
  split at appended
  · cases appended
  · rename_i q known
    obtain ⟨⟨q', id⟩, added, made⟩ := Outcome.bind_eq_ok.mp appended
    cases made
    have both := Outcome.ok.inj rest
    exact ⟨q, q', entryId, known, added, (congrArg Prod.fst both).symm, (congrArg Prod.snd both).symm⟩

theorem enqueueBatch_ok {s next : Instance} {queue : QueueId} {data : List Bytes}
    {result : Except WalError (List UintN)} (some : data.isEmpty = false)
    (done : s.enqueueBatch queue data = .ok (next, result)) : ∃ q q' ids, s.mem.queues queue = Option.some q ∧
      q.enqueueBatch data = .ok (q', ids) ∧
      next = ({ s with mem := s.mem.put queue q' }.send queue (.enqueueBatch (ids.zip data))).1 ∧
      result = ({ s with mem := s.mem.put queue q' }.send queue (.enqueueBatch (ids.zip data))).2.map
        (fun _ => ids) := by
  unfold enqueueBatch at done
  rw [some] at done
  obtain ⟨⟨mem, entryIds⟩, appended, rest⟩ := Outcome.bind_eq_ok.mp done
  unfold MemStore.enqueueBatch at appended
  split at appended
  · cases appended
  · rename_i q known
    obtain ⟨⟨q', ids⟩, added, made⟩ := Outcome.bind_eq_ok.mp appended
    cases made
    have both := Outcome.ok.inj rest
    exact ⟨q, q', entryIds, known, added, (congrArg Prod.fst both).symm, (congrArg Prod.snd both).symm⟩

/-- The lock of a queue, a new one where there is none. -/
def lockFor (s : Instance) (queue : QueueId) : Instance × Nat :=
  match s.locks queue with
  | some lock => (s, lock)
  | none =>
    ({ s with locks := Function.update s.locks queue (some s.lockCount), lockCount := s.lockCount + 1 },
      s.lockCount)

theorem send_view (s : Instance) (queue : QueueId) (request : WriteRequest) :
    (s.send queue request).1.locks = s.locks ∧ (s.send queue request).1.lockCount = s.lockCount ∧
      (s.send queue request).1.mem = s.mem ∧ (s.send queue request).1.hasWriter = s.hasWriter := by
  unfold send
  split
  · exact ⟨rfl, rfl, rfl, rfl⟩
  · rename_i writer known
    split
    · refine ⟨rfl, rfl, rfl, ?_⟩
      funext q
      unfold hasWriter
      by_cases same : q = queue
      · subst same
        simp [known]
      · simp [same]
    · exact ⟨rfl, rfl, rfl, rfl⟩

theorem hasWriter_startWriter (s : Instance) (queue other : QueueId) (start : QueueStart) :
    (s.startWriter queue start).hasWriter other = (decide (other = queue) || s.hasWriter other) := by
  unfold hasWriter startWriter
  by_cases same : other = queue
  · subst same
    simp
  · simp [same]

theorem hasQueue_startMem (s : Instance) (queue other : QueueId) (lastId : Option UintN) :
    (s.startMem queue lastId).hasQueue other = (decide (other = queue) || s.hasQueue other) := by
  unfold hasQueue startMem MemStore.startQueue
  by_cases same : other = queue
  · subst same
    split
    · rename_i there
      simp [there]
    · simp
  · split
    · simp [same]
    · simp [same]

end Instance

/- Where a call of `ensure_queue_exists_for_read` or `…_for_write` is. From `checkMem` on it holds the
lock of its queue. -/
inductive StartPhase where
  | lookup
  | insert
  | acquire (lock : Nat)
  | checkMem (lock : Nat)
  | checkWriter (lock : Nat) (queueExists : Bool)
  | recover (lock : Nat)
  | openFile (lock : Nat) (start : QueueStart)
  | insertWriter (lock : Nat) (start : QueueStart)
  | startMem (lock : Nat) (start : QueueStart)
  | monitor (lock : Nat)
  | done (ok : Bool)
  | panicked
  deriving DecidableEq

structure StartTask where
  queue : QueueId
  readonly : Bool
  phase : StartPhase
  deriving DecidableEq

/-- What `ensure_queue_exists` has returned. -/
def StartPhase.result : StartPhase → Option (Outcome Unit Unit)
  | done ok => some (if ok then .ok () else .err ())
  | panicked => some .panic
  | _ => none

/-- The lock a task has found, and the lock it holds. -/
def StartPhase.found : StartPhase → Option Nat
  | acquire lock | checkMem lock | checkWriter lock _ | recover lock | openFile lock _ | insertWriter lock _
  | startMem lock _ | monitor lock => some lock
  | _ => none

def StartTask.guard (task : StartTask) : Option Nat :=
  match task.phase with
  | .acquire _ => none
  | phase => phase.found

/-- `started` records every writer that was started. -/
structure Startup where
  fs : Instance
  tasks : List StartTask
  started : List QueueId

/- The outside decides which task moves, how its recovery ends, and whether a file can be opened or the
monitor started. A panic in the recovery is one of the task, whose lock is then free again. -/
inductive StartEvent where
  | call (queue : QueueId) (readonly : Bool)
  | step (task : Nat)
  | recovered (task : Nat) (result : Outcome RecoveryError QueueStart)
  | opened (task : Nat) (ok : Bool)
  | monitored (task : Nat) (ok : Bool)
  | enqueue (queue : QueueId) (data : Bytes)
  | enqueueBatch (queue : QueueId) (data : List Bytes)

namespace Startup

def goto (s : Startup) (i : Nat) (task : StartTask) (phase : StartPhase) : Startup :=
  { s with tasks := s.tasks.set i { task with phase := phase } }

/- The steps that depend on nothing outside. -/
def stepTask (s : Startup) (i : Nat) (task : StartTask) : Option Startup :=
  match task.phase with
  | .lookup =>
    match s.fs.locks task.queue with
    | some lock => some (s.goto i task (.acquire lock))
    | none => some (s.goto i task .insert)
  | .insert =>
    let (fs, lock) := s.fs.lockFor task.queue
    some ({ s with fs := fs }.goto i task (.acquire lock))
  | .acquire lock =>
    if Guards.Free StartTask.guard s.tasks lock then some (s.goto i task (.checkMem lock)) else none
  | .checkMem lock =>
    let queueExists := s.fs.hasQueue task.queue
    if task.readonly then some (s.goto i task (if queueExists then .done true else .recover lock))
    else some (s.goto i task (.checkWriter lock queueExists))
  | .checkWriter lock queueExists =>
    if queueExists && s.fs.hasWriter task.queue then some (s.goto i task (.done true))
    else some (s.goto i task (.recover lock))
  | .insertWriter lock start =>
    some ({ s with
      fs := s.fs.startWriter task.queue start
      started := s.started ++ [task.queue] }.goto i task (.startMem lock start))
  | .startMem lock start =>
    some ({ s with fs := s.fs.startMem task.queue start.lastEntryId }.goto i task (.monitor lock))
  | _ => none

def step (s : Startup) : StartEvent → Option Startup
  | .call queue readonly => some { s with tasks := s.tasks ++ [⟨queue, readonly, .lookup⟩] }
  | .step i => s.tasks[i]?.bind (s.stepTask i)
  | .recovered i result => s.tasks[i]?.bind (fun task => match task.phase, result with
      | .recover lock, .ok start =>
        some (s.goto i task (if task.readonly then .startMem lock start else .openFile lock start))
      | .recover _, .err _ => some (s.goto i task (.done false))
      | .recover _, .panic => some (s.goto i task .panicked)
      | _, _ => none)
  | .opened i ok => s.tasks[i]?.bind (fun task => match task.phase with
      | .openFile lock start => some (s.goto i task (if ok then .insertWriter lock start else .done false))
      | _ => none)
  | .monitored i ok => s.tasks[i]?.bind (fun task => match task.phase with
      | .monitor _ => some (s.goto i task (.done ok))
      | _ => none)
  | .enqueue queue data => match s.fs.enqueue queue data with
      | .ok (fs, _) => some { s with fs := fs }
      | _ => none
  | .enqueueBatch queue data => match s.fs.enqueueBatch queue data with
      | .ok (fs, _) => some { s with fs := fs }
      | _ => none

def new (maxMemoryUsage : Nat) : Startup := ⟨.new maxMemoryUsage, [], []⟩

end Startup

namespace Sample

def queue : QueueId := ⟨['/', 'q']⟩

end Sample

end NormFS
