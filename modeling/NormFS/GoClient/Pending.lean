import NormFS.GoClient.Calls
import NormFS.Lib.Channel
import NormFS.Lib.Runs

/-! The Go client between its calls, the goroutine that dispatches the responses, and the goroutines
that fail all pending calls when the connection breaks. A step is one map operation under its mutex,
one send, one receive or one close. -/
namespace NormFS.GoClient

/-- A call with the channel it waits on. `failed` records that its channel was taken out of the map by
`failPendingWrites` or `failPendingReads`. -/
structure Request where
  call : Call
  id : BitVec 64
  channel : Channel (Option ServerResponse)
  phase : Phase
  failed : Bool

/- What an owner does on its own. Whether the client has room for the request, and when the reader of
the stream takes an entry, is up to others. -/
inductive Move where
  | request (buffered : Bool)
  | receive
  | hand
  | close
  deriving DecidableEq, Repr

namespace Request

def register (r : Request) : Option Request :=
  match r.phase with
  | .registering => some { r with phase := .requesting }
  | _ => none

def request (r : Request) (buffered : Bool) : Option Request :=
  match r.phase with
  | .requesting => some { r with phase := if buffered then .waiting else .leaving r.call.bufferFull }
  | _ => none

/-- A closed channel without items gives a `nil` response. -/
def receive (r : Request) : Option Request :=
  if r.phase.listens then
    match r.channel.receive with
    | .item item after => some { r with channel := after, phase := r.call.received r.phase.started item }
    | .drained => some { r with phase := r.call.received r.phase.started none }
    | .blocked => none
  else none

def hand (r : Request) : Option Request :=
  match r.phase with
  | .handing _ => some { r with phase := .streaming }
  | _ => none

def delete (r : Request) : Option Request :=
  match r.phase with
  | .leaving result => some { r with phase := .closing result }
  | _ => none

def close (r : Request) : Option Request :=
  match r.phase with
  | .closing result => some { r with phase := .done result, channel := r.channel.close }
  | _ => none

def move (r : Request) : Move → Option Request
  | .request buffered => r.request buffered
  | .receive => r.receive
  | .hand => r.hand
  | .close => r.close

end Request

/- `failing` lists what the goroutine that holds the mutex to fail all calls still has to signal. -/
structure Pending where
  entries : List (BitVec 64 × Nat)
  failing : Option (List (BitVec 64 × Nat))

namespace Pending

def delete (p : Pending) (id : BitVec 64) : Pending :=
  { p with entries := p.entries.filter (fun entry => entry.1 != id) }

def insert (p : Pending) (id : BitVec 64) (owner : Nat) : Pending :=
  { p with entries := (id, owner) :: (p.delete id).entries }

def owners (p : Pending) : List Nat := p.entries.map Prod.snd

end Pending

/- `lookingUp`: about to look the channel up. `sending`: the mutex is released again and the response
not yet sent. -/
inductive Dispatcher where
  | idle
  | lookingUp (kind : Kind) (response : ServerResponse)
  | sending (kind : Kind) (owner : Nat) (response : ServerResponse)

namespace Dispatcher

def forRead (response : ServerResponse) : Dispatcher :=
  if response.read.isSome then lookingUp .read response else idle

def forResponse (response : ServerResponse) : Dispatcher :=
  if response.write.isSome then lookingUp .write response else forRead response

/-- The answer to a read is dispatched after the answer to a write. -/
def after (kind : Kind) (response : ServerResponse) : Dispatcher :=
  match kind with
  | .write => forRead response
  | .read => idle

def target : Dispatcher → Option Nat
  | sending _ owner _ => some owner
  | _ => none

end Dispatcher

def ServerResponse.idFor (response : ServerResponse) : Kind → Option (BitVec 64)
  | .write => response.write.map WriteResponse.writeId
  | .read => response.read.map ReadResponse.readId

/- `lost` counts the goroutines between `failPendingWrites` and `failPendingReads`. -/
structure Client where
  requests : List Request
  nextID : Kind → BitVec 64
  pending : Kind → Pending
  dispatcher : Dispatcher
  lost : Nat
  sentOnClosed : Bool

inductive Event where
  | call (call : Call)
  | register (owner : Nat)
  | move (owner : Nat) (move : Move)
  | delete (owner : Nat)
  | respond (response : ServerResponse)
  | lookup
  | send
  | fail (kind : Kind)
  | signal (kind : Kind) (index : Nat)
  | clear (kind : Kind)

namespace Client

def init : Client := ⟨[], fun _ => 0, fun _ => ⟨[], none⟩, .idle, 0, false⟩

def setRequest (s : Client) (owner : Nat) (r : Request) : Client :=
  { s with requests := s.requests.set owner r }

def setPending (s : Client) (kind : Kind) (p : Pending) : Client :=
  { s with pending := Function.update s.pending kind p }

/-- `nextWriteID.Add(1)` or `nextReadID.Add(1)`, and a new channel. -/
def begin (s : Client) (call : Call) : Client :=
  { s with
    requests := s.requests ++ [⟨call, s.nextID call.kind + 1, .make call.kind.buffer, .registering, false⟩]
    nextID := Function.update s.nextID call.kind (s.nextID call.kind + 1) }

/-- Map operations wait while the calls are being failed. -/
def register (s : Client) (owner : Nat) : Option Client := do
  let r ← s.requests[owner]?
  let after ← r.register
  if (s.pending r.call.kind).failing.isSome then none
  else some ((s.setPending r.call.kind ((s.pending r.call.kind).insert r.id owner)).setRequest owner after)

def move (s : Client) (owner : Nat) (move : Move) : Option Client := do
  let r ← s.requests[owner]?
  let after ← r.move move
  some (s.setRequest owner after)

def delete (s : Client) (owner : Nat) : Option Client := do
  let r ← s.requests[owner]?
  let after ← r.delete
  if (s.pending r.call.kind).failing.isSome then none
  else some ((s.setPending r.call.kind ((s.pending r.call.kind).delete r.id)).setRequest owner after)

def respond (s : Client) (response : ServerResponse) : Option Client :=
  match s.dispatcher with
  | .idle => some { s with dispatcher := .forResponse response }
  | _ => none

def lookup (s : Client) : Option Client :=
  match s.dispatcher with
  | .lookingUp kind response =>
    if (s.pending kind).failing.isSome then none
    else match (response.idFor kind).bind (fun id => (s.pending kind).entries.lookup id) with
      | some owner => some { s with dispatcher := .sending kind owner response }
      | none => some { s with dispatcher := .after kind response }
  | _ => none

/-- An answer to a write that finds no room is dropped, an answer to a read waits. -/
def send (s : Client) : Option Client :=
  match s.dispatcher with
  | .sending kind owner response => do
    let r ← s.requests[owner]?
    match r.channel.send (some response) with
    | .sent channel =>
      some { s.setRequest owner { r with channel } with dispatcher := .after kind response }
    | .full =>
      match kind with
      | .write => some { s with dispatcher := .after kind response }
      | .read => none
    | .panic => some { s with sentOnClosed := true }
  | _ => none

/-- The reads are failed after the writes. -/
def fail (s : Client) (kind : Kind) : Option Client :=
  if (s.pending kind).failing.isSome then none
  else
    let started := s.setPending kind { s.pending kind with failing := some (s.pending kind).entries }
    match kind with
    | .write => some started
    | .read => if s.lost = 0 then none else some { started with lost := s.lost - 1 }

/-- The marker is dropped when the channel is full. -/
def signal (s : Client) (kind : Kind) (index : Nat) : Option Client := do
  let rest ← (s.pending kind).failing
  let entry ← rest[index]?
  let r ← s.requests[entry.2]?
  let next := s.setPending kind { s.pending kind with failing := some (rest.eraseIdx index) }
  match r.channel.send none with
  | .sent channel => some (next.setRequest entry.2 { r with channel })
  | .full => some next
  | .panic => some { s with sentOnClosed := true }

def clear (s : Client) (kind : Kind) : Option Client :=
  match (s.pending kind).failing with
  | some [] => some
      { s.setPending kind ⟨[], none⟩ with
        requests := s.requests.mapIdx (fun owner r =>
          if owner ∈ (s.pending kind).owners then { r with failed := true } else r)
        lost := match kind with
          | .write => s.lost + 1
          | .read => s.lost }
  | _ => none

/-- A send on a closed channel is the last step. -/
def step (s : Client) (event : Event) : Option Client :=
  if s.sentOnClosed then none
  else match event with
    | .call call => some (s.begin call)
    | .register owner => s.register owner
    | .move owner move => s.move owner move
    | .delete owner => s.delete owner
    | .respond response => s.respond response
    | .lookup => s.lookup
    | .send => s.send
    | .fail kind => s.fail kind
    | .signal kind index => s.signal kind index
    | .clear kind => s.clear kind

end Client

/-! What the steps keep, whatever the order. -/

namespace Request

/-- Its owner has seen what ends the call, or finds it in the channel. -/
def answered (r : Request) : Bool := r.phase.ended || r.call.ends r.phase.started r.channel.items

/-- Every change of a request: its number stays, its channel is closed by its owner only, and what
ends it is not lost. -/
structure Onward (r after : Request) : Prop where
  call : after.call = r.call
  id : after.id = r.id
  failed : after.failed = r.failed
  capacity : after.channel.capacity = r.channel.capacity
  opened : (r.phase.isDone = false → r.channel.closed = false) →
    after.phase.isDone = false → after.channel.closed = false
  answered : r.answered = true → after.answered = true

variable {r after : Request}

theorem answered_of_ended (ended : r.phase.ended = true) : r.answered = true := by
  rw [answered, ended]
  rfl

theorem Onward.sent {item : Option ServerResponse} {channel : Channel (Option ServerResponse)}
    (sent : r.channel.send item = .sent channel) : r.Onward { r with channel } := by
  obtain ⟨items, opened, capacity⟩ := Channel.send_eq_sent sent
  refine ⟨rfl, rfl, rfl, capacity, fun _ _ => opened, ?_⟩
  intro answered
  rw [Request.answered, Bool.or_eq_true] at answered ⊢
  refine answered.imp_right (fun ends => ?_)
  rw [items]
  exact ends_append _ ends

theorem register_eq_some (moved : r.register = some after) :
    r.phase = .registering ∧ after = { r with phase := .requesting } := by
  unfold register at moved
  split at moved
  · rename_i phase
    cases moved
    exact ⟨phase, rfl⟩
  · cases moved

theorem Onward.registered (phase : r.phase = .registering) : r.Onward { r with phase := .requesting } := by
  refine ⟨rfl, rfl, rfl, rfl, fun opened _ => opened (by rw [phase]; rfl), ?_⟩
  intro answered
  rw [Request.answered, phase] at answered
  exact answered

theorem request_onward {buffered : Bool} (moved : r.request buffered = some after) :
    r.Onward after ∧ after.phase.listed = true := by
  unfold request at moved
  split at moved
  · rename_i phase
    cases moved
    have opened : r.phase.isDone = false := by rw [phase]; rfl
    cases buffered with
    | true =>
      refine ⟨⟨rfl, rfl, rfl, rfl, fun open' _ => open' opened, ?_⟩, rfl⟩
      intro answered
      rw [Request.answered, phase] at answered
      exact answered
    | false => exact ⟨⟨rfl, rfl, rfl, rfl, fun open' _ => open' opened, fun _ => rfl⟩, rfl⟩
  · cases moved

theorem receive_onward (moved : r.receive = some after) : r.Onward after ∧ after.phase.listed = true := by
  unfold receive at moved
  split at moved
  · rename_i listens
    have phase : r.phase.isDone = false ∧ r.phase.ended = false := by
      cases here : r.phase with
      | waiting | streaming => exact ⟨rfl, rfl⟩
      | _ =>
        rw [here] at listens
        cases listens
    split at moved
    · rename_i item rest received
      obtain ⟨items, closed, capacity⟩ := Channel.receive_eq_item received
      cases moved
      refine ⟨⟨rfl, rfl, rfl, capacity, fun opened _ => closed.trans (opened phase.1), ?_⟩, received_listed⟩
      intro answered
      rw [Request.answered, phase.2, Bool.false_or, items, Call.ends, Bool.or_eq_true] at answered
      rcases answered with ends | later
      · exact answered_of_ended ends
      · rcases @received_cases r.call r.phase.started item with ⟨result, leaves⟩ | ⟨started, -⟩
        · exact answered_of_ended (by rw [leaves]; rfl)
        · rw [Request.answered, Bool.or_eq_true]
          right
          rw [started]
          exact later
    · rename_i received
      obtain ⟨-, closed⟩ := Channel.receive_eq_drained received
      cases moved
      refine ⟨⟨rfl, rfl, rfl, rfl, fun opened _ => opened phase.1, ?_⟩, received_listed⟩
      exact fun _ => answered_of_ended received_marker
    · cases moved
  · cases moved

theorem hand_onward (moved : r.hand = some after) : r.Onward after ∧ after.phase.listed = true := by
  unfold hand at moved
  split at moved
  · rename_i entry phase
    cases moved
    refine ⟨⟨rfl, rfl, rfl, rfl, fun opened _ => opened (by rw [phase]; rfl), ?_⟩, rfl⟩
    intro answered
    rw [Request.answered, phase] at answered
    exact answered
  · cases moved

theorem delete_onward (moved : r.delete = some after) : r.Onward after ∧ after.phase.isDone = false := by
  unfold delete at moved
  split at moved
  · rename_i result phase
    cases moved
    exact ⟨⟨rfl, rfl, rfl, rfl, fun opened _ => opened (by rw [phase]; rfl), fun _ => rfl⟩, rfl⟩
  · cases moved

theorem close_onward (moved : r.close = some after) :
    r.Onward after ∧ r.phase.listed = false ∧ after.channel.closed = true := by
  unfold close at moved
  split at moved
  · rename_i result phase
    cases moved
    refine ⟨⟨rfl, rfl, rfl, rfl, fun _ notDone => (by cases notDone), fun _ => rfl⟩, by rw [phase]; rfl, rfl⟩
  · cases moved

/-- A move of the owner keeps the call in the map where it is, and only the last one closes. -/
theorem move_onward {move : Move} (moved : r.move move = some after) :
    r.Onward after ∧ (r.phase.listed = true → after.phase.listed = true) ∧
      (move = .close ∨ after.phase.isDone = false) := by
  cases move with
  | request buffered =>
    obtain ⟨onward, listed⟩ := request_onward moved
    exact ⟨onward, fun _ => listed, .inr (Phase.not_done_of_listed listed)⟩
  | receive =>
    obtain ⟨onward, listed⟩ := receive_onward moved
    exact ⟨onward, fun _ => listed, .inr (Phase.not_done_of_listed listed)⟩
  | hand =>
    obtain ⟨onward, listed⟩ := hand_onward moved
    exact ⟨onward, fun _ => listed, .inr (Phase.not_done_of_listed listed)⟩
  | close =>
    obtain ⟨onward, unlisted, -⟩ := close_onward moved
    refine ⟨onward, fun listed => ?_, .inl rfl⟩
    rw [unlisted] at listed
    cases listed

end Request

/- What a step does. The dispatcher takes its targets from a map, and a send that ends the program is
one of the dispatcher or of a goroutine that fails the calls. -/
inductive Effect (s : Client) : Event → Client → Prop where
  | begun (call : Call) : Effect s (.call call) (s.begin call)
  | registered {owner : Nat} {r : Request} (found : s.requests[owner]? = some r)
      (phase : r.phase = .registering) (free : (s.pending r.call.kind).failing = none) :
      Effect s (.register owner) ((s.setPending r.call.kind
        ((s.pending r.call.kind).insert r.id owner)).setRequest owner { r with phase := .requesting })
  | moved {owner : Nat} {r after : Request} {move : Move} (found : s.requests[owner]? = some r)
      (moved : r.move move = some after) : Effect s (.move owner move) (s.setRequest owner after)
  | deleted {owner : Nat} {r after : Request} (found : s.requests[owner]? = some r)
      (moved : r.delete = some after) (free : (s.pending r.call.kind).failing = none) :
      Effect s (.delete owner) ((s.setPending r.call.kind
        ((s.pending r.call.kind).delete r.id)).setRequest owner after)
  | dispatching {event : Event} (dispatcher : Dispatcher)
      (known : ∀ owner, dispatcher.target = some owner → ∃ kind id, (id, owner) ∈ (s.pending kind).entries) :
      Effect s event { s with dispatcher }
  | sent {owner : Nat} {r : Request} {item : Option ServerResponse} {channel : Channel (Option ServerResponse)}
      (dispatcher : Dispatcher) (found : s.requests[owner]? = some r)
      (sent : r.channel.send item = .sent channel) (idle : dispatcher.target = none) :
      Effect s .send { s.setRequest owner { r with channel } with dispatcher }
  | failing (kind : Kind) (lost : Nat) (free : (s.pending kind).failing = none) :
      Effect s (.fail kind)
        { s.setPending kind { s.pending kind with failing := some (s.pending kind).entries } with lost }
  | signalled {kind : Kind} {index owner : Nat} {id : BitVec 64} {rest : List (BitVec 64 × Nat)} {r : Request}
      {channel : Channel (Option ServerResponse)} (loop : (s.pending kind).failing = some rest)
      (entry : rest[index]? = some (id, owner)) (found : s.requests[owner]? = some r)
      (sent : r.channel.send none = .sent channel) :
      Effect s (.signal kind index)
        ((s.setPending kind { s.pending kind with failing := some (rest.eraseIdx index) }).setRequest owner
          { r with channel })
  | dropped {kind : Kind} {index owner : Nat} {id : BitVec 64} {rest : List (BitVec 64 × Nat)} {r : Request}
      (loop : (s.pending kind).failing = some rest) (entry : rest[index]? = some (id, owner))
      (found : s.requests[owner]? = some r) (full : r.channel.send none = .full) :
      Effect s (.signal kind index)
        (s.setPending kind { s.pending kind with failing := some (rest.eraseIdx index) })
  | cleared (kind : Kind) (lost : Nat) (loop : (s.pending kind).failing = some []) :
      Effect s (.clear kind)
        { s.setPending kind ⟨[], none⟩ with
          requests := s.requests.mapIdx (fun owner r =>
            if owner ∈ (s.pending kind).owners then { r with failed := true } else r)
          lost }
  | panicked {event : Event} {owner : Nat} {r : Request} (found : s.requests[owner]? = some r)
      (closed : r.channel.closed = true)
      (sender : s.dispatcher.target = some owner ∨ ∃ kind, ∃ rest ∈ (s.pending kind).failing,
        ∃ id, (id, owner) ∈ rest) :
      Effect s event { s with sentOnClosed := true }

namespace Client

variable {s next : Client}

variable {owner : Nat} {event : Event} {kind : Kind} {r : Request}

theorem register_effect (moved : s.register owner = some next) : Effect s (.register owner) next := by
  simp only [register, Option.bind_eq_bind, Option.bind_eq_some_iff] at moved
  obtain ⟨r, found, after, registered, goes⟩ := moved
  obtain ⟨phase, rfl⟩ := Request.register_eq_some registered
  split at goes
  · cases goes
  · rename_i free
    cases goes
    exact .registered found phase (by simpa using free)

theorem delete_effect (moved : s.delete owner = some next) : Effect s (.delete owner) next := by
  simp only [delete, Option.bind_eq_bind, Option.bind_eq_some_iff] at moved
  obtain ⟨r, found, after, deleted, goes⟩ := moved
  split at goes
  · cases goes
  · rename_i free
    cases goes
    exact .deleted found deleted (by simpa using free)

theorem target_forRead (response : ServerResponse) : (Dispatcher.forRead response).target = none := by
  unfold Dispatcher.forRead
  split <;> rfl

theorem target_forResponse (response : ServerResponse) : (Dispatcher.forResponse response).target = none := by
  unfold Dispatcher.forResponse
  split
  · rfl
  · exact target_forRead response

theorem target_after (kind : Kind) (response : ServerResponse) : (Dispatcher.after kind response).target = none := by
  cases kind with
  | write => exact target_forRead response
  | read => rfl

theorem dispatching_idle {dispatcher : Dispatcher} (idle : dispatcher.target = none) :
    Effect s event { s with dispatcher } := by
  refine .dispatching dispatcher ?_
  intro owner target
  rw [idle] at target
  cases target

theorem lookup_effect (moved : s.lookup = some next) : Effect s .lookup next := by
  unfold lookup at moved
  split at moved
  · split at moved
    · cases moved
    · split at moved
      · rename_i kind response _ _ _ owner found
        cases moved
        refine .dispatching _ ?_
        rintro _ ⟨⟩
        obtain ⟨id, -, listed⟩ := Option.bind_eq_some_iff.mp found
        obtain ⟨before, later, split, -⟩ := List.lookup_eq_some_iff.mp listed
        exact ⟨kind, id, by simp [split]⟩
      · cases moved
        exact dispatching_idle (target_after _ _)
  · cases moved

theorem send_effect (moved : s.send = some next) : Effect s .send next := by
  unfold send at moved
  split at moved
  · rename_i kind owner response sending
    obtain ⟨r, found, goes⟩ := Option.bind_eq_some_iff.mp moved
    split at goes
    · rename_i channel sent
      cases goes
      exact .sent _ found sent (target_after _ _)
    · split at goes
      · cases goes
        exact dispatching_idle (target_after _ _)
      · cases goes
    · rename_i panics
      cases goes
      refine .panicked found (Channel.send_eq_panic.mp panics) (.inl ?_)
      rw [sending]
      rfl
  · cases moved

theorem fail_effect (moved : s.fail kind = some next) : Effect s (.fail kind) next := by
  unfold fail at moved
  split at moved
  · cases moved
  · rename_i free
    have none' : (s.pending kind).failing = none := by simpa using free
    cases kind with
    | write =>
      cases moved
      exact .failing .write s.lost none'
    | read =>
      dsimp only at moved
      split at moved
      · cases moved
      · cases moved
        exact .failing .read _ none'

theorem signal_effect {index : Nat} (moved : s.signal kind index = some next) :
    Effect s (.signal kind index) next := by
  simp only [signal, Option.bind_eq_bind, Option.bind_eq_some_iff] at moved
  obtain ⟨rest, loop, ⟨id, owner⟩, entry, r, found, goes⟩ := moved
  split at goes
  · rename_i channel sent
    cases goes
    exact .signalled loop entry found sent
  · rename_i full
    cases goes
    exact .dropped loop entry found full
  · rename_i panics
    cases goes
    exact .panicked found (Channel.send_eq_panic.mp panics)
      (.inr ⟨kind, rest, loop, id, List.mem_of_getElem? entry⟩)

theorem clear_effect (moved : s.clear kind = some next) : Effect s (.clear kind) next := by
  unfold clear at moved
  split at moved
  · rename_i loop
    cases moved
    exact .cleared kind _ loop
  · cases moved

theorem step_effect (moved : s.step event = some next) : Effect s event next := by
  unfold step at moved
  split at moved
  · cases moved
  · cases event with
    | call call =>
      cases moved
      exact .begun call
    | register owner => exact register_effect moved
    | move owner move =>
      simp only [Client.move, Option.bind_eq_bind, Option.bind_eq_some_iff] at moved
      obtain ⟨r, found, after, moved, goes⟩ := moved
      cases goes
      exact .moved found moved
    | delete owner => exact delete_effect moved
    | respond response =>
      simp only [respond] at moved
      split at moved
      · cases moved
        exact dispatching_idle (target_forResponse _)
      · cases moved
    | lookup => exact lookup_effect moved
    | send => exact send_effect moved
    | fail kind => exact fail_effect moved
    | signal kind index => exact signal_effect moved
    | clear kind => exact clear_effect moved

/-- The maps hold calls that have registered and are not yet cleaned up, and channels are closed by
their owners at the end. -/
structure Orderly (s : Client) : Prop where
  listed : ∀ kind, ∀ entry ∈ (s.pending kind).entries, ∃ r, s.requests[entry.2]? = some r ∧
    r.call.kind = kind ∧ r.id = entry.1 ∧ r.phase.listed = true
  loop : ∀ kind, ∀ rest ∈ (s.pending kind).failing, ∀ entry ∈ rest, entry ∈ (s.pending kind).entries
  opened : ∀ r ∈ s.requests, r.phase.isDone = false → r.channel.closed = false
  capacity : ∀ r ∈ s.requests, r.channel.capacity = r.call.kind.buffer
  target : ∀ owner, s.dispatcher.target = some owner → owner < s.requests.length

theorem setRequest_self {after : Request} (found : s.requests[owner]? = some r) :
    (s.setRequest owner after).requests[owner]? = some after := by
  have inside : owner < s.requests.length := (List.getElem?_eq_some_iff.mp found).1
  simp [setRequest, inside]

theorem Orderly.setRequest (orderly : s.Orderly) {after : Request}
    (found : s.requests[owner]? = some r) (onward : r.Onward after)
    (listed : ∀ kind, ∀ entry ∈ (s.pending kind).entries, entry.2 = owner → after.phase.listed = true) :
    (s.setRequest owner after).Orderly where
  listed := by
    intro kind entry member
    obtain ⟨r', found', isKind, isId, isListed⟩ := orderly.listed kind entry member
    by_cases same : entry.2 = owner
    · rw [same, found, Option.some.injEq] at found'
      subst found'
      refine ⟨after, ?_, by rw [onward.call]; exact isKind, by rw [onward.id]; exact isId,
        listed kind entry member same⟩
      rw [same]
      exact setRequest_self found
    · refine ⟨r', ?_, isKind, isId, isListed⟩
      simpa [Client.setRequest, Ne.symm same] using found'
  loop := orderly.loop
  opened := by
    intro r' member
    rcases List.mem_or_eq_of_mem_set member with old | rfl
    · exact orderly.opened r' old
    · exact onward.opened (orderly.opened r (List.mem_of_getElem? found))
  capacity := by
    intro r' member
    rcases List.mem_or_eq_of_mem_set member with old | rfl
    · exact orderly.capacity r' old
    · rw [onward.capacity, onward.call]
      exact orderly.capacity r (List.mem_of_getElem? found)
  target := by
    intro other isTarget
    rw [Client.setRequest, List.length_set]
    exact orderly.target other isTarget

theorem pending_setPending (kind other : Kind) (p : Pending) :
    (s.setPending kind p).pending other = if other = kind then p else s.pending other := by
  exact Function.update_apply _ _ _ _

theorem Orderly.setPending (orderly : s.Orderly) {p : Pending}
    (listed : ∀ entry ∈ p.entries, entry ∈ (s.pending kind).entries ∨ ∃ r, s.requests[entry.2]? = some r ∧
      r.call.kind = kind ∧ r.id = entry.1 ∧ r.phase.listed = true)
    (loop : ∀ rest ∈ p.failing, ∀ entry ∈ rest, entry ∈ p.entries) : (s.setPending kind p).Orderly where
  listed := by
    intro other entry member
    rw [pending_setPending] at member
    split at member
    · rename_i same
      subst same
      rcases listed entry member with old | new
      · exact orderly.listed other entry old
      · exact new
    · exact orderly.listed other entry member
  loop := by
    intro other
    rw [pending_setPending]
    split
    · exact loop
    · exact orderly.loop other
  opened := orderly.opened
  capacity := orderly.capacity
  target := orderly.target

/-- Nothing of another call is in the map under the number of one. -/
theorem Orderly.not_owner (orderly : s.Orderly) (found : s.requests[owner]? = some r) {entry : BitVec 64 × Nat} (member : entry ∈ (s.pending kind).entries) (same : entry.2 = owner) :
    r.call.kind = kind ∧ r.id = entry.1 ∧ r.phase.listed = true := by
  obtain ⟨r', found', facts⟩ := orderly.listed kind entry member
  rw [same, found, Option.some.injEq] at found'
  subst found'
  exact facts

theorem Orderly.begin (orderly : s.Orderly) (call : Call) : (s.begin call).Orderly where
  listed := by
    intro kind entry member
    obtain ⟨r, found, facts⟩ := orderly.listed kind entry member
    have inside : entry.2 < s.requests.length := (List.getElem?_eq_some_iff.mp found).1
    exact ⟨r, by rw [Client.begin, List.getElem?_append_left inside]; exact found, facts⟩
  loop := orderly.loop
  opened := by
    intro r member
    rcases List.mem_append.mp member with old | new
    · exact orderly.opened r old
    · obtain rfl := List.mem_singleton.mp new
      exact fun _ => rfl
  capacity := by
    intro r member
    rcases List.mem_append.mp member with old | new
    · exact orderly.capacity r old
    · obtain rfl := List.mem_singleton.mp new
      rfl
  target := by
    intro owner isTarget
    have inside := orderly.target owner isTarget
    rw [Client.begin, List.length_append]
    omega

theorem Orderly.clear (orderly : s.Orderly) (kind : Kind) (lost : Nat) :
    Orderly { s.setPending kind ⟨[], none⟩ with
      requests := s.requests.mapIdx (fun owner r =>
        if owner ∈ (s.pending kind).owners then { r with failed := true } else r)
      lost } where
  listed := by
    intro other entry member
    change entry ∈ ((s.setPending kind ⟨[], none⟩).pending other).entries at member
    rw [pending_setPending] at member
    split at member
    · cases member
    · obtain ⟨r, found, facts⟩ := orderly.listed other entry member
      refine ⟨if entry.2 ∈ (s.pending kind).owners then { r with failed := true } else r, ?_, ?_⟩
      · rw [List.getElem?_mapIdx, found]
        rfl
      · split
        · exact facts
        · exact facts
  loop := by
    intro other rest member
    change rest ∈ ((s.setPending kind ⟨[], none⟩).pending other).failing at member
    change ∀ entry ∈ rest, entry ∈ ((s.setPending kind ⟨[], none⟩).pending other).entries
    rw [pending_setPending] at member ⊢
    split at member
    · cases member
    · rename_i different
      rw [if_neg different]
      exact orderly.loop other rest member
  opened := by
    intro r member
    obtain ⟨owner, inside, rfl⟩ := List.mem_mapIdx.mp member
    have opened := orderly.opened _ (List.getElem_mem inside)
    split
    · exact opened
    · exact opened
  capacity := by
    intro r member
    obtain ⟨owner, inside, rfl⟩ := List.mem_mapIdx.mp member
    have capacity := orderly.capacity _ (List.getElem_mem inside)
    split
    · exact capacity
    · exact capacity
  target := by
    intro owner isTarget
    rw [List.length_mapIdx]
    exact orderly.target owner isTarget

theorem Orderly.step (orderly : s.Orderly) (effect : Effect s event next) : next.Orderly := by
  cases effect with
  | begun call => exact orderly.begin call
  | @registered owner r found phase free =>
    have kept := orderly.setRequest found (.registered phase) (fun _ _ _ _ => rfl)
    refine kept.setPending ?_ ?_
    · intro entry member
      rcases List.mem_cons.mp member with rfl | old
      · exact .inr ⟨{ r with phase := .requesting }, setRequest_self found, rfl, rfl, rfl⟩
      · exact .inl (List.mem_of_mem_filter old)
    · intro rest member
      rw [Pending.insert, free] at member
      cases member
  | @moved owner r after move found moved =>
    obtain ⟨onward, listed, -⟩ := Request.move_onward moved
    refine orderly.setRequest found onward ?_
    intro kind entry member same
    exact listed (orderly.not_owner found member same).2.2
  | @deleted owner r after found moved free =>
    have kept : (s.setPending r.call.kind ((s.pending r.call.kind).delete r.id)).Orderly := by
      refine orderly.setPending ?_ ?_
      · intro entry member
        exact .inl (List.mem_of_mem_filter member)
      · intro rest member
        rw [Pending.delete, free] at member
        cases member
    refine kept.setRequest found (Request.delete_onward moved).1 ?_
    -- its own entry has just been deleted
    intro kind entry member same
    obtain ⟨isKind, isId, -⟩ := kept.not_owner found member same
    rw [← isKind, pending_setPending, if_pos rfl] at member
    have other := (List.mem_filter.mp member).2
    simp [isId] at other
  | dispatching dispatcher known =>
    refine ⟨orderly.listed, orderly.loop, orderly.opened, orderly.capacity, ?_⟩
    intro owner isTarget
    obtain ⟨kind, id, member⟩ := known owner isTarget
    obtain ⟨r, found, -⟩ := orderly.listed kind _ member
    exact (List.getElem?_eq_some_iff.mp found).1
  | @sent owner r item channel dispatcher found sent idle =>
    have kept := orderly.setRequest found (.sent sent)
      (fun kind entry member same => (orderly.not_owner found member same).2.2)
    refine ⟨kept.listed, kept.loop, kept.opened, kept.capacity, ?_⟩
    intro owner isTarget
    rw [idle] at isTarget
    cases isTarget
  | failing kind lost free =>
    have kept : (s.setPending kind
        { s.pending kind with failing := some (s.pending kind).entries }).Orderly := by
      refine orderly.setPending (fun entry member => .inl member) ?_
      rintro rest ⟨⟩ entry member
      exact member
    exact ⟨kept.listed, kept.loop, kept.opened, kept.capacity, kept.target⟩
  | @signalled kind index owner id rest r channel loop entry found sent =>
    have kept : (s.setPending kind
        { s.pending kind with failing := some (rest.eraseIdx index) }).Orderly := by
      refine orderly.setPending (fun entry member => .inl member) ?_
      rintro _ ⟨⟩ entry member
      exact orderly.loop kind rest loop entry (List.mem_of_mem_eraseIdx member)
    exact kept.setRequest found (.sent sent)
      (fun kind entry member same => (kept.not_owner found member same).2.2)
  | @dropped kind index owner id rest r loop entry found full =>
    refine orderly.setPending (fun entry member => .inl member) ?_
    rintro _ ⟨⟩ entry member
    exact orderly.loop kind rest loop entry (List.mem_of_mem_eraseIdx member)
  | cleared kind lost loop => exact orderly.clear kind lost
  | panicked found closed sender => exact ⟨orderly.listed, orderly.loop, orderly.opened, orderly.capacity, orderly.target⟩

theorem orderly_init : init.Orderly where
  listed := by rintro kind entry ⟨⟩
  loop := by rintro kind rest ⟨⟩
  opened := by rintro r ⟨⟩
  capacity := by rintro r ⟨⟩
  target := by rintro owner ⟨⟩

end Client

end NormFS.GoClient
