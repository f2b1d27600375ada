import NormFS.Types
import NormFS.UintN.Value

/-! The entries of one queue in memory, and its subscribers. An operation that the source runs in
several critical sections is cut into the same pieces here: a follower takes a snapshot, sends it
and then registers; a producer appends and then notifies. -/
namespace NormFS

structure Subscriber where
  fromId : UintN
  step : Nat
  lastSentId : Option UintN
  target : Sender
  deriving DecidableEq

structure MemQueue where
  entries : List Entry
  lastId : Option UintN
  firstId : Option UintN
  lastAckedId : Option UintN
  memoryUsage : Nat
  maxMemoryUsage : Nat
  subscribers : List (Nat × Subscriber)
  nextSubscriberId : Nat
  deriving DecidableEq

structure MemReadResult where
  success : Bool
  startId : Option UintN
  subscriptionId : Option Nat
  deriving DecidableEq, Repr

def MemReadResult.fail : MemReadResult := ⟨false, none, none⟩

def Sender.sendEntry (target : Sender) (entry : Entry) : Option Sender :=
  target.send ⟨entry.1, entry.2, .memory⟩

/-- Sends until the receiver is gone; the flag says whether all were sent. -/
def Sender.sendAll (target : Sender) : List Entry → Sender × Bool
  | [] => (target, true)
  | entry :: entries =>
    match target.sendEntry entry with
    | some target => target.sendAll entries
    | none => (target, false)

/- The loop `while current_id < id`. With a step of zero it does not end, which is `none`; any
other step ends it after at most as many rounds as the numbers are apart. -/
def catchUp (step : Nat) (endId : Option UintN) : Nat → UintN → UintN → Option UintN
  | 0, current, id => if current < id then none else some current
  | fuel + 1, current, id =>
    if current < id then
      let next := current.stepBy step
      if endId.any (fun last => decide (last < next)) then some next
      else catchUp step endId fuel next id
    else some current

/- The loop that all four readers run over the entries from the first wanted one on. A bounded read
stops after `endId`, a bounded read from the tail when no room is left. -/
def collect (step : Nat) (endId : Option UintN) :
    Option Nat → UintN → List Entry → Option (List Entry)
  | _, _, [] => some []
  | room, current, (id, data) :: rest =>
    if endId.any (fun last => decide (last < id)) || room == some 0 then some []
    else do
      let current ← catchUp step endId (id.toNat - current.toNat) current id
      if current == id then
        let later ← collect step endId (room.map (· - 1)) (current.stepBy step) rest
        pure ((id, data) :: later)
      else collect step endId room current rest

namespace MemQueue

def new (lastId : Option UintN) (maxMemoryUsage : Nat) : MemQueue :=
  ⟨[], lastId, none, none, 0, maxMemoryUsage, [], 0⟩

def nextId (q : MemQueue) : UintN :=
  match q.lastId with
  | some id => id.increment
  | none => .zero

/- Entries up to the last acknowledged one go when memory is short. -/
def cleanupUnlocked (q : MemQueue) : MemQueue :=
  if q.memoryUsage ≤ q.maxMemoryUsage then q
  else match q.lastAckedId with
    | none => q
    | some lastAckedId =>
      let removed := q.entries.takeWhile (fun e => decide (e.1 ≤ lastAckedId))
      if removed.isEmpty then q
      else
        let entries := q.entries.drop removed.length
        { q with
          entries := entries
          memoryUsage := q.memoryUsage - (removed.map (fun e => e.2.length)).sum
          firstId := entries.head?.map Prod.fst }

theorem cleanupUnlocked_eq (q : MemQueue) : ∃ entries memoryUsage firstId,
    q.cleanupUnlocked = { q with entries := entries, memoryUsage := memoryUsage, firstId := firstId } := by
  unfold cleanupUnlocked
  split
  · exact ⟨q.entries, q.memoryUsage, q.firstId, rfl⟩
  · split
    · exact ⟨q.entries, q.memoryUsage, q.firstId, rfl⟩
    · dsimp only
      split
      · exact ⟨q.entries, q.memoryUsage, q.firstId, rfl⟩
      · exact ⟨_, _, _, rfl⟩

@[simp] theorem lastId_cleanupUnlocked (q : MemQueue) : q.cleanupUnlocked.lastId = q.lastId := by
  obtain ⟨entries, memoryUsage, firstId, same⟩ := cleanupUnlocked_eq q
  rw [same]

@[simp] theorem subscribers_cleanupUnlocked (q : MemQueue) : q.cleanupUnlocked.subscribers = q.subscribers := by
  obtain ⟨entries, memoryUsage, firstId, same⟩ := cleanupUnlocked_eq q
  rw [same]

@[simp] theorem nextSubscriberId_cleanupUnlocked (q : MemQueue) :
    q.cleanupUnlocked.nextSubscriberId = q.nextSubscriberId := by
  obtain ⟨entries, memoryUsage, firstId, same⟩ := cleanupUnlocked_eq q
  rw [same]

/- Appending under the lock. The subscribers are looked at before the lock is released; the
notification that follows is the returned list, `none` when nobody was there. -/
def append (q : MemQueue) (data : Bytes) : MemQueue × UintN × Option (List Entry) :=
  let id := q.nextId
  let notification := if q.subscribers.isEmpty then none else some [(id, data)]
  (cleanupUnlocked { q with
      firstId := q.firstId.or (some id)
      lastId := some id
      entries := q.entries ++ [(id, data)]
      memoryUsage := q.memoryUsage + data.length }, id, notification)

def numbered (first : UintN) : List Bytes → List Entry
  | [] => []
  | data :: rest => (first, data) :: numbered first.increment rest

def appendBatch (q : MemQueue) (batch : List Bytes) : MemQueue × List UintN × Option (List Entry) :=
  if batch.isEmpty then (q, [], none)
  else
    let added := numbered q.nextId batch
    let notification := if q.subscribers.isEmpty then none else some added
    (cleanupUnlocked { q with
        firstId := q.firstId.or (some q.nextId)
        lastId := added.getLast?.map Prod.fst
        entries := q.entries ++ added
        memoryUsage := q.memoryUsage + (batch.map Bytes.length).sum }, added.map Prod.fst, notification)

def getLastId (q : MemQueue) : Option UintN := q.lastId

def ack (q : MemQueue) (id : UintN) : MemQueue :=
  cleanupUnlocked (if q.lastAckedId.all (fun last => decide (last < id)) then
    { q with lastAckedId := some id } else q)

def since (q : MemQueue) (startId : UintN) : List Entry :=
  q.entries.dropWhile (fun e => decide (e.1 < startId))

def readFull (q : MemQueue) (startId endId : UintN) (step : Nat) (target : Sender) :
    Option (MemReadResult × Sender) :=
  match q.lastId with
  | none => some (⟨true, none, none⟩, target)
  | some memLastId =>
    if memLastId < startId then some (⟨true, none, none⟩, target)
    else match q.firstId with
      | none => some (.fail, target)
      | some memStartId =>
        if startId < memStartId then some (.fail, target)
        else do
          let entriesToSend ← collect step (some endId) none startId (q.since startId)
          pure (⟨true, none, none⟩, (target.sendAll entriesToSend).1)

/-- `last_id - offset`, or zero when there are not that many. -/
def tailStart (lastId offset : UintN) : UintN :=
  if lastId < offset then .zero
  else match lastId.sub offset with
    | .ok startId => startId
    | _ => .zero

def readFullNegative (q : MemQueue) (offset : UintN) (step limit : Nat) (target : Sender) :
    Option (MemReadResult × Sender) :=
  match q.lastId with
  | none => some (⟨true, some .zero, none⟩, target)
  | some lastId =>
    let startId := tailStart lastId offset
    match q.firstId with
    | none => some (⟨false, some startId, none⟩, target)
    | some memStartId =>
      if startId < memStartId then some (⟨false, some startId, none⟩, target)
      else do
        let entriesToSend ← collect step none (if 0 < limit then some limit else none) startId
          (q.since startId)
        if entriesToSend.isEmpty then pure (⟨false, some startId, none⟩, target)
        else
          let (target, sent) := target.sendAll entriesToSend
          pure (⟨sent, some startId, none⟩, target)

def register (q : MemQueue) (subscriber : Subscriber) : MemQueue × Nat :=
  ({ q with
    subscribers := q.subscribers ++ [(q.nextSubscriberId, subscriber)]
    nextSubscriberId := q.nextSubscriberId + 1 }, q.nextSubscriberId)

def unsubscribe (q : MemQueue) (subscriberId : Nat) : MemQueue :=
  { q with subscribers := q.subscribers.filter (fun s => s.1 != subscriberId) }

/- The first section of a follower: `none` inside when memory starts after the wanted entry. -/
def followSnapshot (q : MemQueue) (startId : UintN) (step : Nat) : Option (Option (List Entry)) :=
  match q.firstId with
  | none => some (some [])
  | some memStartId =>
    if startId < memStartId then some none
    else (collect step none none startId (q.since startId)).map some

def followFull (q : MemQueue) (fromId startId : UintN) (step : Nat) (target : Sender) :
    Option (MemReadResult × Sender × MemQueue) := do
  match ← q.followSnapshot startId step with
  | none => pure (.fail, target, q)
  | some entriesToSend =>
    let (target, sent) := target.sendAll entriesToSend
    if sent then
      let (q, subscriptionId) := q.register ⟨fromId, step, entriesToSend.getLast?.map Prod.fst, target⟩
      pure (⟨true, none, some subscriptionId⟩, target, q)
    else pure (.fail, target, q)

def followFullNegative (q : MemQueue) (offset : UintN) (step : Nat) (target : Sender) :
    Option (MemReadResult × Sender × MemQueue) :=
  if offset == .zero then
    let fromId := match q.lastId with
      | some last => last.add (.ofU64 1)
      | none => .zero
    let (q, subscriptionId) := q.register ⟨fromId, step, q.lastId, target⟩
    some (⟨true, some fromId, some subscriptionId⟩, target, q)
  else match q.lastId with
    | none => some (⟨true, some .zero, none⟩, target, q)
    | some lastId =>
      let startId := tailStart lastId offset
      match q.firstId with
      | none => some (⟨false, some startId, none⟩, target, q)
      | some memStartId =>
        if startId < memStartId then some (⟨false, some startId, none⟩, target, q)
        else do
          let entriesToSend ← collect step none none startId (q.since startId)
          let (target, sent) := target.sendAll entriesToSend
          if sent then
            let (q, subscriptionId) :=
              q.register ⟨startId, step, entriesToSend.getLast?.map Prod.fst, target⟩
            pure (⟨true, some startId, some subscriptionId⟩, target, q)
          else pure (⟨false, some startId, none⟩, target, q)

end MemQueue

/- The callback of a subscription. It reports `false` at the first entry it cannot hand over. -/
def Subscriber.call (s : Subscriber) : List Entry → Outcome Unit (Subscriber × Bool)
  | [] => .ok (s, true)
  | (id, data) :: rest =>
    if s.lastSentId.any (fun last => decide (id ≤ last)) then s.call rest
    else do
      if ← id.inStep s.fromId s.step then
        match s.target.sendEntry (id, data) with
        | some target => Subscriber.call { s with target := target } rest
        | none => pure (s, false)
      else s.call rest

namespace MemQueue

/- Every callback is called under the lock; those that failed are removed after its release. -/
def callSubscribers (entries : List Entry) :
    List (Nat × Subscriber) → Outcome Unit (List (Nat × Subscriber) × List Nat)
  | [] => .ok ([], [])
  | (id, s) :: rest => do
    let (s, kept) ← s.call entries
    let (rest, toRemove) ← callSubscribers entries rest
    pure ((id, s) :: rest, if kept then toRemove else id :: toRemove)

def notifySubscribers (q : MemQueue) (entries : List Entry) : Outcome Unit MemQueue := do
  let (subscribers, toRemove) ← callSubscribers entries q.subscribers
  pure (toRemove.foldl unsubscribe { q with subscribers := subscribers })

def enqueue (q : MemQueue) (data : Bytes) : Outcome Unit (MemQueue × UintN) := do
  let (q, id, notification) := q.append data
  match notification with
  | some entries => pure (← q.notifySubscribers entries, id)
  | none => pure (q, id)

def enqueueBatch (q : MemQueue) (batch : List Bytes) : Outcome Unit (MemQueue × List UintN) := do
  let (q, ids, notification) := q.appendBatch batch
  match notification with
  | some entries => pure (← q.notifySubscribers entries, ids)
  | none => pure (q, ids)

end MemQueue

end NormFS
