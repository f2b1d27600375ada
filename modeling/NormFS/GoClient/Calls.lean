import NormFS.GoClient.UintN
import NormFS.Lib.Outcome

/-! What the calls of the Go client make of the responses they receive. A `none` in place of a response
is the marker of a lost connection. -/
namespace NormFS.GoClient

def messageChanBuffer : Nat := 1024

inductive WriteResult where
  | wrDone
  | wrServerError
  | other (code : Nat)
  deriving DecidableEq, Repr

structure WriteResponse where
  writeId : BitVec 64
  result : WriteResult
  ids : List (List UInt8)
  deriving DecidableEq, Repr

inductive ReadResult where
  | rrStart
  | rrEntry
  | rrEnd
  | rrQueueNotFound
  | rrNotFound
  | rrServerError
  | other (code : Nat)
  deriving DecidableEq, Repr

inductive DataSource where
  | dsNone
  | dsCloud
  | dsDiskStore
  | dsDiskWal
  | dsMemory
  | other (code : Nat)
  deriving DecidableEq, Repr

structure ReadResponse where
  readId : BitVec 64
  result : ReadResult
  id : List UInt8
  data : List UInt8
  dataSource : DataSource
  deriving DecidableEq, Repr

structure ServerResponse where
  write : Option WriteResponse
  read : Option ReadResponse
  deriving DecidableEq, Repr

inductive ClientError where
  | bufferFull
  | connectionClosed
  | invalidResponse
  | serverSide
  | queueNotFound
  | readStreamClosed
  | entryNotFound
  | unexpectedWrite (code : Nat)
  | unexpectedInitial (result : ReadResult)
  | unexpectedDuringStream (result : ReadResult)
  | entryId
  deriving DecidableEq, Repr

structure StreamEntry where
  id : UintN
  data : List UInt8
  dataSource : DataSource
  deriving DecidableEq, Repr

/-- The getters of a missing answer give zero values. -/
def ServerResponse.getWrite (response : ServerResponse) : WriteResponse :=
  response.write.getD ⟨0, .wrDone, []⟩

/- Without ids, or with one it cannot read, the call panics. -/
def enqueueResult : Option ServerResponse → Outcome ClientError (List (Option UintN))
  | none => .err .connectionClosed
  | some response =>
    match response.getWrite.result with
    | .wrDone =>
      match response.getWrite.ids with
      | [] => .panic
      | raw :: _ =>
        match UintN.fromLEBytes raw with
        | .ok assigned => .ok [some assigned]
        | .error _ => .panic
    | .wrServerError => .err .serverSide
    | .other code => .err (.unexpectedWrite code)

/-- One place for each packet; an id more than there are packets panics. -/
def assignIds : Nat → List (List UInt8) → Outcome ClientError (List (Option UintN))
  | packets, [] => .ok (List.replicate packets none)
  | 0, _ :: _ => .panic
  | packets + 1, raw :: rest =>
    match UintN.fromLEBytes raw with
    | .ok assigned => assignIds packets rest >>= fun others => pure (some assigned :: others)
    | .error _ => .panic

def enqueuePackResult (packets : Nat) : Option ServerResponse → Outcome ClientError (List (Option UintN))
  | none => .err .connectionClosed
  | some response =>
    match response.getWrite.result with
    | .wrDone => assignIds packets response.getWrite.ids
    | .wrServerError => .err .serverSide
    | .other code => .err (.unexpectedWrite code)

/-- The first response to a read: `none` when the stream has started. -/
def initialError : Option ServerResponse → Option ClientError
  | none => some .readStreamClosed
  | some response =>
    match response.read with
    | none => some .invalidResponse
    | some read =>
      match read.result with
      | .rrStart => none
      | .rrQueueNotFound => some .queueNotFound
      | .rrNotFound => some .entryNotFound
      | .rrServerError => some .serverSide
      | result => some (.unexpectedInitial result)

inductive Streamed where
  | entry (entry : StreamEntry)
  | ended (finalError : Option ClientError)
  deriving DecidableEq, Repr

def streamed : Option ServerResponse → Streamed
  | none => .ended (some .readStreamClosed)
  | some response =>
    match response.read with
    | none => .ended (some .invalidResponse)
    | some read =>
      match read.result with
      | .rrEntry =>
        match UintN.fromLEBytes read.id with
        | .ok idx => .entry ⟨idx, read.data, read.dataSource⟩
        | .error _ => .ended (some .entryId)
      | .rrEnd => .ended none
      | .rrQueueNotFound => .ended (some .queueNotFound)
      | .rrNotFound => .ended (some .entryNotFound)
      | .rrServerError => .ended (some .serverSide)
      | result => .ended (some (.unexpectedDuringStream result))

inductive Kind where
  | write
  | read
  deriving DecidableEq, Repr

def Kind.buffer : Kind → Nat
  | .write => 1
  | .read => messageChanBuffer

inductive Call where
  | enqueue
  | enqueuePack (packets : Nat)
  | read
  deriving DecidableEq, Repr

def Call.kind : Call → Kind
  | .enqueue | .enqueuePack _ => .write
  | .read => .read

inductive Result where
  | wrote (outcome : Outcome ClientError (List (Option UintN)))
  | read (finalError : Option ClientError)
  deriving DecidableEq, Repr

def Call.bufferFull : Call → Result
  | .enqueue | .enqueuePack _ => .wrote (.err .bufferFull)
  | .read => .read (some .bufferFull)

/- `registering`: the channel is made. `requesting`: it is in the map. `waiting`: the request is on its
way. A read goes on to `streaming`, and is `handing` over each entry. `leaving`: the cleanup is about to
delete the channel from the map; `closing`: it is about to close it. -/
inductive Phase where
  | registering
  | requesting
  | waiting
  | streaming
  | handing (entry : StreamEntry)
  | leaving (result : Result)
  | closing (result : Result)
  | done (result : Result)
  deriving DecidableEq, Repr

namespace Phase

/-- The owner has seen what ends its call. -/
def ended : Phase → Bool
  | leaving _ | closing _ | done _ => true
  | _ => false

def started : Phase → Bool
  | streaming | handing _ => true
  | _ => false

def listens : Phase → Bool
  | waiting | streaming => true
  | _ => false

/-- From the registration to the cleanup. -/
def listed : Phase → Bool
  | registering | closing _ | done _ => false
  | _ => true

def isDone : Phase → Bool
  | done _ => true
  | _ => false

theorem not_done_of_listed {phase : Phase} (listed : phase.listed = true) : phase.isDone = false := by
  cases phase with
  | done result => cases listed
  | _ => rfl

end Phase

def Call.received (call : Call) (started : Bool) (item : Option ServerResponse) : Phase :=
  match call with
  | .enqueue => .leaving (.wrote (enqueueResult item))
  | .enqueuePack packets => .leaving (.wrote (enqueuePackResult packets item))
  | .read =>
    if started then
      match streamed item with
      | .entry entry => .handing entry
      | .ended finalError => .leaving (.read finalError)
    else
      match initialError item with
      | none => .streaming
      | some error => .leaving (.read (some error))

/-- Taken from the channel one by one, the items end the call: one of them is the marker or a final
response. -/
def Call.ends (call : Call) : Bool → List (Option ServerResponse) → Bool
  | _, [] => false
  | started, item :: rest => (call.received started item).ended || call.ends true rest

variable {call : Call} {started : Bool} {item : Option ServerResponse} {items : List (Option ServerResponse)}

theorem received_cases : (∃ result, call.received started item = .leaving result) ∨
    (call.received started item).started = true ∧ (call.received started item).listed = true := by
  unfold Call.received
  cases call with
  | enqueue => exact .inl ⟨_, rfl⟩
  | enqueuePack packets => exact .inl ⟨_, rfl⟩
  | read =>
    dsimp only
    split
    · split
      · exact .inr ⟨rfl, rfl⟩
      · exact .inl ⟨_, rfl⟩
    · split
      · exact .inr ⟨rfl, rfl⟩
      · exact .inl ⟨_, rfl⟩

theorem received_listed : (call.received started item).listed = true := by
  rcases @received_cases call started item with ⟨result, leaves⟩ | ⟨-, listed⟩
  · rw [leaves]
    rfl
  · exact listed

theorem received_marker : (call.received started none).ended = true := by
  cases call with
  | enqueue => rfl
  | enqueuePack packets => rfl
  | read => cases started <;> rfl

theorem received_write (write : call.kind = .write) : (call.received started item).ended = true := by
  cases call with
  | enqueue => rfl
  | enqueuePack packets => rfl
  | read => cases write

theorem ends_append (more : List (Option ServerResponse)) (ends : call.ends started items = true) :
    call.ends started (items ++ more) = true := by
  induction items generalizing started with
  | nil => cases ends
  | cons item rest ih =>
    rw [Call.ends, Bool.or_eq_true] at ends
    rw [List.cons_append, Call.ends, Bool.or_eq_true]
    exact ends.imp_right ih

theorem ends_marker : call.ends started (items ++ [none]) = true := by
  induction items generalizing started with
  | nil =>
    rw [List.nil_append, Call.ends, received_marker]
    rfl
  | cons item rest ih =>
    rw [List.cons_append, Call.ends, ih]
    exact Bool.or_true _

theorem ends_write (write : call.kind = .write) (some' : items ≠ []) : call.ends started items = true := by
  cases items with
  | nil => exact absurd rfl some'
  | cons item rest =>
    rw [Call.ends, received_write write]
    rfl

end NormFS.GoClient
