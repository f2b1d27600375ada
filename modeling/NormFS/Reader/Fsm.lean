import NormFS.Lookup
import NormFS.Mem.Queue

/-! The reader of a queue: a state machine over memory, the store, the WAL and the bucket. The
states are those of the source; the channel goes along in them, so that the final states still
show what was delivered. -/
namespace NormFS

inductive ReaderError where
  | clientDisconnected
  | queueNotFound
  | notFound
  | store (error : StoreError)
  | wal (error : WalError)
  | cloud (error : CloudError)
  | io
  deriving DecidableEq, Repr

structure Env where
  xxh64 : Hash
  config : StoreConfig

/-- What one read sees of the system. A queue that was not started has no memory. -/
structure World where
  disk : Disk
  ranges : RangeCache
  mem : Option MemQueue
  cloud : Option Cloud

inductive ReadPosition where
  | absolute (offset : UintN)
  | shiftFromTail (offset : UintN)
  deriving DecidableEq, Repr

structure ReadContext where
  fileId : UintN
  nextId : UintN
  step : Nat
  lastId : Option UintN
  sender : Sender
  deriving DecidableEq

namespace ReadContext

def withFileId (ctx : ReadContext) (fileId : UintN) : ReadContext := { ctx with fileId := fileId }
end ReadContext

abbrev PrefetchResult := Outcome ReaderError (Option (Bytes × DataSource))

/- The task that reads the next file ahead. It may run at any time before it is waited for. -/
inductive Prefetch where
  | pending (fileId : UintN)
  | done (result : PrefetchResult)

inductive ReaderState where
  | lookupPositive (offset : UintN) (limit : Nat) (sender : Sender)
  | lookupNegative (offset : UintN) (limit : Nat) (sender : Sender)
  | lookupFile (startId : UintN) (endId : Option UintN) (step : Nat) (sender : Sender)
  | readFile (ctx : ReadContext)
  | readStore (ctx : ReadContext)
  | readWal (ctx : ReadContext)
  | readS3 (ctx : ReadContext)
  | extractWalBytes (ctx : ReadContext) (storeBytes : Bytes) (dataSource : DataSource)
  | parseWalBytes (ctx : ReadContext) (walBytes : Bytes) (dataSource : DataSource)
  | readNextFile (currentFile : UintN) (ctx : ReadContext) (prefetchHandle : Option Prefetch)
  | subscribed (sender : Sender)
  | completed (sender : Sender)
  | failed (error : ReaderError) (sender : Sender)

def ReaderState.isTerminal : ReaderState → Bool
  | subscribed _ | completed _ | failed _ _ => true
  | _ => false

def ReaderState.sender : ReaderState → Sender
  | lookupPositive _ _ sender | lookupNegative _ _ sender | lookupFile _ _ _ sender => sender
  | readFile ctx | readStore ctx | readWal ctx | readS3 ctx => ctx.sender
  | extractWalBytes ctx _ _ | parseWalBytes ctx _ _ | readNextFile _ ctx _ => ctx.sender
  | subscribed sender | completed sender | failed _ sender => sender

/- One transition: a state, an error that `?` passes on, a panic, or a handler that never returns. -/
inductive Move where
  | next (world : World) (state : ReaderState)
  | error (error : ReaderError)
  | panic
  | hang

namespace Move

def completedSender : Move → Option Sender
  | next _ (.completed sender) => some sender
  | _ => none

def subscribedSender : Move → Option Sender
  | next _ (.subscribed sender) => some sender
  | _ => none

variable {move : Move}

theorem completedSender_eq_some {sender : Sender} (ends : move.completedSender = some sender) :
    ∃ world, move = next world (.completed sender) := by
  unfold completedSender at ends
  split at ends
  · cases ends
    exact ⟨_, rfl⟩
  · cases ends

theorem subscribedSender_eq_some {sender : Sender} (ends : move.subscribedSender = some sender) :
    ∃ world, move = next world (.subscribed sender) := by
  unfold subscribedSender at ends
  split at ends
  · cases ends
    exact ⟨_, rfl⟩
  · cases ends

end Move

section Fsm

variable (env : Env)

def prefetchNextFile (world : World) (fileId : UintN) : PrefetchResult :=
  match PersistStore.getStoreBytes world.disk fileId with
  | some storeBytes =>
    match extractWalBytes env.config fileId storeBytes false with
    | .ok walBytes => .ok (some (walBytes, .diskStore))
    | .err _ => .ok none
    | .panic => .panic
  | none =>
    match WalStore.getWalBytes world.disk fileId with
    | some walBytes => .ok (some (walBytes, .diskWal))
    | none =>
      match world.cloud with
      | none => .ok none
      | some s3 =>
        match s3.getStoreBytes fileId with
        | .ok (some storeBytes) =>
          match extractWalBytes env.config fileId storeBytes true with
          | .ok walBytes => .ok (some (walBytes, .cloud))
          | .err _ => .ok none
          | .panic => .panic
        | .ok none => .ok none
        | .error e => .err (.cloud e)

def Prefetch.await (world : World) : Prefetch → PrefetchResult
  | pending fileId => prefetchNextFile env world fileId
  | done result => result

def boundOf (startId : UintN) (limit step : Nat) : Option UintN :=
  if 0 < limit then some (startId.add (.ofU64 (BitVec.ofNat 64 ((limit - 1) * step)))) else none

/- Memory is asked first, for the rest of the read or for a subscription. `otherwise` is where the
read goes on when memory does not answer. -/
def fromMemory (world : World) (nextId : UintN) (lastId : Option UintN) (step : Nat) (sender : Sender)
    (otherwise : Sender → ReaderState) : Move :=
  match world.mem with
  | none => .next world (otherwise sender)
  | some queue =>
    match lastId with
    | some endId =>
      match queue.readFull nextId endId step sender with
      | none => .hang
      | some (result, sender) =>
        .next world (if result.success then .completed sender else otherwise sender)
    | none =>
      match queue.followFull nextId nextId step sender with
      | none => .hang
      | some (result, sender, queue) =>
        .next { world with mem := some queue }
          (if result.success && result.subscriptionId.isSome then .subscribed sender else otherwise sender)

def handleLookupPositive (world : World) (offset : UintN) (limit step : Nat) (sender : Sender) : Move :=
  if sender.isClosed then .next world (.failed .clientDisconnected sender)
  else
    let endId := boundOf offset limit step
    fromMemory world offset endId step sender (.lookupFile offset endId step)

def handleLookupNegative (world : World) (offset : UintN) (limit step : Nat) (sender : Sender) : Move :=
  if sender.isClosed then .next world (.failed .clientDisconnected sender)
  else match world.mem with
    | none => .error .queueNotFound
    | some queue =>
      if 0 < limit then
        match queue.readFullNegative offset step limit sender with
        | none => .hang
        | some (result, sender) =>
          if result.success then .next world (.completed sender)
          else match result.startId with
            | none => .error .queueNotFound
            | some startId => .next world (.lookupFile startId (boundOf startId limit step) step sender)
      else
        match queue.followFullNegative offset step sender with
        | none => .hang
        | some (result, sender, queue) =>
          let world := { world with mem := some queue }
          if result.success && result.subscriptionId.isSome then .next world (.subscribed sender)
          else match result.startId with
            | none => .error .queueNotFound
            | some startId => .next world (.lookupFile startId none step sender)

def handleLookupFile (world : World) (startId : UintN) (endId : Option UintN) (step : Nat)
    (sender : Sender) : Move :=
  if sender.isClosed then .next world (.failed .clientDisconnected sender)
  else match findFileWithS3 env.config world.disk world.cloud startId world.ranges with
    | .ok (.file fileId, ranges) =>
      .next { world with ranges := ranges } (.readFile ⟨fileId, startId, step, endId, sender⟩)
    | .ok (.nothing, ranges) => .next { world with ranges := ranges } (.failed .queueNotFound sender)
    | .ok (.endless, _) => .hang
    | .err _ => .next world (.failed .notFound sender)
    | .panic => .panic

def handleReadFile (world : World) (ctx : ReadContext) : Move :=
  .next world (if ctx.sender.isClosed then .failed .clientDisconnected ctx.sender else .readStore ctx)

def handleReadStore (world : World) (ctx : ReadContext) : Move :=
  .next world (if ctx.sender.isClosed then .failed .clientDisconnected ctx.sender
    else match PersistStore.getStoreBytes world.disk ctx.fileId with
      | some storeBytes => .extractWalBytes ctx storeBytes .diskStore
      | none => .readWal ctx)

def handleReadWal (world : World) (ctx : ReadContext) : Move :=
  .next world (if ctx.sender.isClosed then .failed .clientDisconnected ctx.sender
    else match WalStore.getWalBytes world.disk ctx.fileId with
      | some walBytes => .parseWalBytes ctx walBytes .diskWal
      | none =>
        if world.cloud.isSome then .readS3 ctx else .readNextFile ctx.fileId ctx none)

def handleReadS3 (world : World) (ctx : ReadContext) : Move :=
  .next world (if ctx.sender.isClosed then .failed .clientDisconnected ctx.sender
    else match world.cloud with
      | none => .failed .notFound ctx.sender
      | some s3 =>
        match s3.getStoreBytes ctx.fileId with
        | .ok (some storeBytes) => .extractWalBytes ctx storeBytes .cloud
        | .ok none => .readNextFile ctx.fileId ctx none
        | .error .noFilesFound => .readNextFile ctx.fileId ctx none
        | .error e => .failed (.cloud e) ctx.sender)

def handleExtractWalBytes (world : World) (ctx : ReadContext) (storeBytes : Bytes)
    (dataSource : DataSource) : Move :=
  if ctx.sender.isClosed then .next world (.failed .clientDisconnected ctx.sender)
  else match extractWalBytes env.config ctx.fileId storeBytes (dataSource == .cloud) with
    | .ok walBytes => .next world (.parseWalBytes ctx walBytes dataSource)
    | .err _ => .next world (.readNextFile ctx.fileId ctx none)
    | .panic => .panic

/- A sequential read that is not at its last entry reads the next file ahead. -/
def prefetchFor (ctx : ReadContext) : Option Prefetch :=
  if ctx.step = 1 ∧ ctx.lastId.all (fun lastId => decide (ctx.nextId < lastId)) then
    some (.pending ctx.fileId.increment)
  else none

def handleParseWalBytes (world : World) (ctx : ReadContext) (walBytes : Bytes)
    (dataSource : DataSource) : Move :=
  if ctx.sender.isClosed then .next world (.failed .clientDisconnected ctx.sender)
  else
    let prefetchHandle := prefetchFor ctx
    match readWalBytesRange env.xxh64 walBytes ⟨ctx.nextId, ctx.lastId, ctx.step, dataSource⟩ ctx.sender with
    | (sender, .ok .complete) => .next world (.completed sender)
    | (sender, .ok (.partialRead lastReadId _)) =>
      let newNextId := match lastReadId with
        | some lastRead => lastRead.add (.ofU64 (BitVec.ofNat 64 ctx.step))
        | none => ctx.nextId
      .next world (.readNextFile ctx.fileId { ctx with nextId := newNextId, sender := sender } prefetchHandle)
    | (sender, .ok .channelClosed) => .next world (.failed .clientDisconnected sender)
    | (sender, .err _) =>
      .next world (.readNextFile ctx.fileId { ctx with sender := sender } prefetchHandle)
    | (_, .panic) => .panic

/-- Where the read goes between two files when memory does not answer. -/
def intoNextFile (world : World) (currentFile : UintN) (ctx : ReadContext)
    (prefetchHandle : Option Prefetch) (sender : Sender) : ReaderState :=
  let ctx := { ctx with sender := sender }
  let nextFileId := currentFile.increment
  match prefetchHandle with
  | some handle =>
    match handle.await env world with
    | .ok (some (walBytes, source)) => .parseWalBytes (ctx.withFileId nextFileId) walBytes source
    | .ok none => .readNextFile nextFileId ctx none
    | .err e => .failed e sender
    | .panic => .failed .io sender
  | none => .readFile (ctx.withFileId nextFileId)

def handleReadNextFile (world : World) (currentFile : UintN) (ctx : ReadContext)
    (prefetchHandle : Option Prefetch) : Move :=
  if ctx.sender.isClosed then .next world (.failed .clientDisconnected ctx.sender)
  else if (world.mem.bind MemQueue.getLastId).any (fun queueLastId => decide (queueLastId < ctx.nextId)) then
    .next world (.completed ctx.sender)
  else
    fromMemory world ctx.nextId ctx.lastId ctx.step ctx.sender
      (intoNextFile env world currentFile ctx prefetchHandle)

def transition (step : Nat) (world : World) : ReaderState → Move
  | .lookupPositive offset limit sender => handleLookupPositive world offset limit step sender
  | .lookupNegative offset limit sender => handleLookupNegative world offset limit step sender
  | .lookupFile startId endId step sender => handleLookupFile env world startId endId step sender
  | .readFile ctx => handleReadFile world ctx
  | .readStore ctx => handleReadStore world ctx
  | .readWal ctx => handleReadWal world ctx
  | .readS3 ctx => handleReadS3 world ctx
  | .extractWalBytes ctx storeBytes dataSource => handleExtractWalBytes env world ctx storeBytes dataSource
  | .parseWalBytes ctx walBytes dataSource => handleParseWalBytes env world ctx walBytes dataSource
  | .readNextFile currentFile ctx prefetchHandle =>
    handleReadNextFile env world currentFile ctx prefetchHandle
  | .subscribed sender => .next world (.subscribed sender)
  | .completed sender => .next world (.completed sender)
  | .failed e sender => .next world (.failed e sender)

/- The loop of `read` over some transition, cut off after a number of them. -/
def runWith (move : World → ReaderState → Move) : Nat → World → ReaderState → Move
  | 0, world, state => .next world state
  | n + 1, world, state =>
    if state.isTerminal then .next world state
    else match move world state with
      | .next world state => runWith move n world state
      | other => other

def run (step : Nat) : Nat → World → ReaderState → Move := runWith (transition env step)

theorem run_succ (step n : Nat) (world : World) (state : ReaderState) :
    run env step (n + 1) world state =
      if state.isTerminal then .next world state
      else match transition env step world state with
        | .next world state => run env step n world state
        | other => other := rfl

def initialState (position : ReadPosition) (limit : Nat) (sender : Sender) : ReaderState :=
  match position with
  | .absolute offset => .lookupPositive offset limit sender
  | .shiftFromTail offset => .lookupNegative offset limit sender

def read (position : ReadPosition) (limit step : Nat) (world : World) (sender : Sender) (fuel : Nat) : Move :=
  if sender.isClosed then .error .clientDisconnected
  else run env step fuel world (initialState position limit sender)

end Fsm

end NormFS
