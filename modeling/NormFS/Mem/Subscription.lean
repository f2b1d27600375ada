import Mathlib.Data.List.TakeWhile
import NormFS.Lib.Runs
import NormFS.Mem.Reads

/-! Producers, a follower and receivers of one queue in memory, step by step. A producer appends
under the lock of the queue and notifies after it has released it; callbacks that failed are removed
after the lock of the subscribers is released too. A follower takes its snapshot, sends it and only
then registers. -/
namespace NormFS

inductive FollowRequest where
  | fromId (startId : UintN) (step : Nat) (target : Sender)
  | fromTail (offset : UintN) (step : Nat) (target : Sender)
  deriving DecidableEq

/- The first section of a follower: the entries to send and the subscription to register after
them. It is `none` inside when the follow ends without a subscription. -/
def MemQueue.followStart (q : MemQueue) : FollowRequest → Option (Option (List Entry × Subscriber))
  | .fromId startId step target => do
    match ← q.followSnapshot startId step with
    | none => pure none
    | some entries => pure (some (entries, ⟨startId, step, entries.getLast?.map Prod.fst, target⟩))
  | .fromTail offset step target =>
    if offset == .zero then
      let fromId := match q.lastId with
        | some last => last.add (.ofU64 1)
        | none => .zero
      some (some ([], ⟨fromId, step, q.lastId, target⟩))
    else match q.lastId with
      | none => some none
      | some lastId =>
        let startId := tailStart lastId offset
        match q.firstId with
        | none => some none
        | some memStartId =>
          if startId < memStartId then some none
          else do
            let entries ← collect step none none startId (q.since startId)
            pure (some (entries, ⟨startId, step, entries.getLast?.map Prod.fst, target⟩))

def FollowRequest.target : FollowRequest → Sender
  | fromId _ _ target | fromTail _ _ target => target

def MemQueue.follow (q : MemQueue) : FollowRequest → Option (MemReadResult × Sender × MemQueue)
  | .fromId startId step target => q.followFull startId startId step target
  | .fromTail offset step target => q.followFullNegative offset step target

/-- A follower is this section, the sending of the entries, and the registration when all were sent. -/
theorem MemQueue.follow_eq (q : MemQueue) (request : FollowRequest) :
    (q.follow request).map (fun answer => (answer.1.subscriptionId, answer.2)) =
      (q.followStart request).map (fun found => match found with
        | none => (none, request.target, q)
        | some (entries, subscriber) =>
          let (target, sent) := subscriber.target.sendAll entries
          if sent then
            let (after, subscription) := q.register { subscriber with target := target }
            (some subscription, target, after)
          else (none, target, q)) := by
  cases request with
  | fromId startId step target =>
    simp only [follow, followFull, followStart, Option.bind_eq_bind, Option.pure_def]
    rcases q.followSnapshot startId step with _ | _ | entries
    · rfl
    · rfl
    · cases sends : target.sendAll entries with
      | mk out sent => cases sent <;> simp [sends, MemReadResult.fail]
  | fromTail offset step target =>
    simp only [follow, followFullNegative, followStart, Option.bind_eq_bind, Option.pure_def]
    split
    · rfl
    · cases q.lastId with
      | none => rfl
      | some lastId =>
        cases q.firstId with
        | none => rfl
        | some memStartId =>
          dsimp only
          split
          · rfl
          · cases collect step none none (tailStart lastId offset) (q.since (tailStart lastId offset)) with
            | none => rfl
            | some entries =>
              cases sends : target.sendAll entries with
              | mk out sent => cases sent <;> simp [sends]

inductive Follower where
  | starting (request : FollowRequest)
  | sending (entries : List Entry) (subscriber : Subscriber)
  | ended (subscription : Option Nat)
  deriving DecidableEq

/-- A producer after its append: about to call the subscribers, or to remove those that failed. -/
inductive Producer where
  | notifying (entries : List Entry)
  | removing (failed : List Nat)
  deriving DecidableEq

/-- `log` records the entries in memory at the start and all appended since, `seen` how many of them
there were at the snapshot, `removed` the subscriptions that are no longer registered. The producers
stand in the order of their appends. -/
structure Feed where
  queue : MemQueue
  producers : List Producer
  follower : Follower
  log : List Entry
  seen : Nat
  removed : List (Nat × Subscriber)
  deriving DecidableEq

inductive FeedEvent where
  | enqueue (data : Bytes)
  | enqueueBatch (batch : List Bytes)
  | produce (producer : Nat)
  | follow
  | receive (subscriber : Nat)
  deriving DecidableEq

namespace Feed

def start (queue : MemQueue) (request : FollowRequest) : Feed :=
  ⟨queue, [], .starting request, queue.entries, 0, []⟩

/-- The producer whose append wants the subscribers called. -/
def notifies : Option (List Entry) → List Producer
  | some entries => [.notifying entries]
  | none => []

def enqueue (s : Feed) (data : Bytes) : Feed :=
  let (queue, id, notification) := s.queue.append data
  { s with
    queue := queue
    producers := s.producers ++ notifies notification
    log := s.log ++ [(id, data)] }

def enqueueBatch (s : Feed) (batch : List Bytes) : Feed :=
  let (queue, _, notification) := s.queue.appendBatch batch
  { s with
    queue := queue
    producers := s.producers ++ notifies notification
    log := s.log ++ MemQueue.numbered s.queue.nextId batch }

/-- The producer goes on to remove what failed, or is done. -/
def goesOn (producers : List Producer) (i : Nat) : List Nat → List Producer
  | [] => producers.eraseIdx i
  | failed => producers.set i (.removing failed)

def produce (s : Feed) (i : Nat) : Option Feed :=
  match s.producers[i]? with
  | none => none
  | some (.notifying entries) =>
    match MemQueue.callSubscribers entries s.queue.subscribers with
    | .ok (subscribers, toRemove) => some { s with
        queue := { s.queue with subscribers := subscribers }
        producers := goesOn s.producers i toRemove }
    | _ => none
  | some (.removing []) => none
  | some (.removing (id :: rest)) => some { s with
      queue := s.queue.unsubscribe id
      producers := goesOn s.producers i rest
      removed := s.removed ++ s.queue.subscribers.filter (fun other => other.1 == id) }

def follow (s : Feed) : Option Feed :=
  match s.follower with
  | .starting request =>
    match s.queue.followStart request with
    | none => none
    | some none => some { s with follower := .ended none }
    | some (some (entries, subscriber)) => some { s with
        follower := .sending entries subscriber
        seen := s.log.length }
  | .sending (entry :: rest) subscriber =>
    match subscriber.target.sendEntry entry with
    | some target => some { s with follower := .sending rest { subscriber with target := target } }
    | none => some { s with follower := .ended none }
  | .sending [] subscriber =>
    let (queue, id) := s.queue.register subscriber
    some { s with queue := queue, follower := .ended (some id) }
  | .ended _ => none

/- A channel of `capacity` entries: `room` is what is free, and the receiver frees one place. -/
def receive (s : Feed) (capacity id : Nat) : Feed :=
  { s with queue := { s.queue with
      subscribers := s.queue.subscribers.map (fun other =>
        if other.1 = id ∧ other.2.target.room.any (· < capacity) then
          (other.1, { other.2 with target := { other.2.target with room := other.2.target.room.map (· + 1) } })
        else other) } }

def step (capacity : Nat) (s : Feed) : FeedEvent → Option Feed
  | .enqueue data => some (s.enqueue data)
  | .enqueueBatch batch => some (s.enqueueBatch batch)
  | .produce i => s.produce i
  | .follow => s.follow
  | .receive id => some (s.receive capacity id)

end Feed

section Receiving

variable (s : Feed) (capacity id : Nat)

theorem Feed.keys_receive : (s.receive capacity id).queue.subscribers.map Prod.fst =
    s.queue.subscribers.map Prod.fst := by
  change (s.queue.subscribers.map _).map Prod.fst = _
  rw [List.map_map]
  congr 1
  funext other
  simp only [Function.comp_apply]
  split <;> rfl

theorem Feed.mem_receive {key : Nat} {sub : Subscriber}
    (among : (key, sub) ∈ (s.receive capacity id).queue.subscribers) : ∃ room,
      (key, { sub with target := { sub.target with room := room } }) ∈ s.queue.subscribers := by
  obtain ⟨⟨key', before⟩, member, made⟩ := List.mem_map.mp among
  split at made
  · cases made
    exact ⟨before.target.room, member⟩
  · cases made
    exact ⟨sub.target.room, member⟩

theorem Feed.receive_mem {key : Nat} {sub : Subscriber} (among : (key, sub) ∈ s.queue.subscribers) :
    ∃ after, (key, after) ∈ (s.receive capacity id).queue.subscribers := by
  have there : key ∈ (s.receive capacity id).queue.subscribers.map Prod.fst := by
    rw [keys_receive]
    exact List.mem_map_of_mem among
  obtain ⟨⟨key', after⟩, member, rfl⟩ := List.mem_map.mp there
  exact ⟨after, member⟩

end Receiving

structure MemQueue.Keyed (q : MemQueue) : Prop where
  keys : (q.subscribers.map Prod.fst).Nodup
  fresh : ∀ id ∈ q.subscribers.map Prod.fst, id < q.nextSubscriberId

namespace MemQueue.Keyed

variable {q after : MemQueue}

theorem fewer (keyed : q.Keyed) (within : (after.subscribers.map Prod.fst).Sublist (q.subscribers.map Prod.fst))
    (same : after.nextSubscriberId = q.nextSubscriberId) : after.Keyed where
  keys := keyed.keys.sublist within
  fresh := by
    intro id member
    rw [same]
    exact keyed.fresh id (within.subset member)

theorem register (keyed : q.Keyed) (subscriber : Subscriber) : (q.register subscriber).1.Keyed where
  keys := by
    change ((q.subscribers ++ [_]).map Prod.fst).Nodup
    rw [List.map_append, List.nodup_append]
    refine ⟨keyed.keys, by simp, ?_⟩
    intro id member other last
    obtain rfl := List.mem_singleton.mp last
    exact Nat.ne_of_lt (keyed.fresh id member)
  fresh := by
    intro id member
    change id ∈ (q.subscribers ++ [_]).map Prod.fst at member
    rw [List.map_append] at member
    rcases List.mem_append.mp member with earlier | last
    · exact (keyed.fresh id earlier).trans (Nat.lt_succ_self _)
    · obtain rfl := List.mem_singleton.mp last
      exact Nat.lt_succ_self _

end MemQueue.Keyed

section Appending

variable {q : MemQueue}

/-- A queue that grows begins with what it held, or else with the first new entry. -/
theorem head_grown (first : q.firstId = q.entries.head?.map Prod.fst) (data : Bytes)
    (batch : List Bytes) : q.firstId.or (some q.nextId) =
      (q.entries ++ MemQueue.numbered q.nextId (data :: batch)).head?.map Prod.fst := by
  rw [first, List.head?_append]
  cases q.entries.head? <;> rfl

theorem drop_takeWhile {α : Type} (p : α → Bool) (l : List α) :
    l.drop (l.takeWhile p).length = l.dropWhile p := by
  induction l with
  | nil => rfl
  | cons a l ih =>
    cases keep : p a with
    | true => simpa [keep] using ih
    | false => simp [keep]

structure Cleaned (q after : MemQueue) : Prop where
  entries : after.entries <:+ q.entries
  firstId : after.firstId = after.entries.head?.map Prod.fst
  lastId : after.lastId = q.lastId
  lastAckedId : after.lastAckedId = q.lastAckedId
  subscribers : after.subscribers = q.subscribers
  nextSubscriberId : after.nextSubscriberId = q.nextSubscriberId
  keeps : ∀ e ∈ q.entries, (∀ acked ∈ q.lastAckedId, acked.toNat < e.1.toNat) → e ∈ after.entries

theorem cleaned_self (first : q.firstId = q.entries.head?.map Prod.fst) : Cleaned q q :=
  ⟨List.suffix_refl _, first, rfl, rfl, rfl, rfl, fun _ member _ => member⟩

theorem cleanup_cleaned (first : q.firstId = q.entries.head?.map Prod.fst) :
    Cleaned q q.cleanupUnlocked := by
  unfold MemQueue.cleanupUnlocked
  split
  · exact cleaned_self first
  · split
    · exact cleaned_self first
    · rename_i lastAckedId acked
      dsimp only
      split
      · exact cleaned_self first
      · rw [drop_takeWhile]
        refine ⟨List.dropWhile_suffix _, rfl, rfl, rfl, rfl, rfl, ?_⟩
        intro e member later
        have above := later lastAckedId acked
        rw [← List.takeWhile_append_dropWhile (p := fun e => decide (e.1 ≤ lastAckedId)) (l := q.entries)]
          at member
        rcases List.mem_append.mp member with gone | kept
        · have below := List.mem_takeWhile_imp gone
          rw [decide_eq_true_iff, UintN.le_iff] at below
          omega
        · exact kept

theorem numbered_numbered (first : UintN) (batch : List Bytes) :
    Numbered first.toNat (MemQueue.numbered first batch) := by
  induction batch generalizing first with
  | nil => rfl
  | cons data batch ih =>
    apply numbered_cons.mpr
    refine ⟨rfl, ?_⟩
    have later := ih first.increment
    rwa [UintN.toNat_increment] at later

theorem length_numbered (first : UintN) (batch : List Bytes) :
    (MemQueue.numbered first batch).length = batch.length := by
  induction batch generalizing first with
  | nil => rfl
  | cons data batch ih => exact congrArg (· + 1) (ih first.increment)

theorem Feed.enqueue_eq (s : Feed) (data : Bytes) : s.enqueue data = s.enqueueBatch [data] := by
  simp [Feed.enqueue, Feed.enqueueBatch, MemQueue.append, MemQueue.appendBatch, MemQueue.numbered]

end Appending

section Calling

/-- The step test of a subscription. With a step of one it lets every entry pass, also those before
the first wanted one. -/
def passes (start step n : Nat) : Bool := decide (step = 1 ∨ (start ≤ n ∧ step ∣ n - start))

theorem inStep_passes (id fromId : UintN) {step : Nat} (steps : 0 < step) (word : step < 2 ^ 64) :
    (id.inStep fromId step : Outcome Unit Bool) = .ok (passes fromId.toNat step id.toNat) := by
  by_cases ordered : fromId.toNat ≤ id.toNat
  · rw [UintN.inStep_ok id fromId step steps word ordered]
    by_cases single : step = 1
    · subst single
      simp [passes]
    · simp [passes, single, ordered]
  · by_cases single : step = 1
    · simp [UintN.inStep, passes, single]
    · have before : id < fromId := (UintN.lt_iff _ _).mpr (by omega)
      simp [UintN.inStep, passes, single, before, ordered]

def Subscriber.takes (sub : Subscriber) (e : Entry) : Bool :=
  !(sub.lastSentId.any (fun last => decide (e.1 ≤ last))) && passes sub.fromId.toNat sub.step e.1.toNat

theorem call_staying {sub : Subscriber} (steps : 0 < sub.step) (word : sub.step < 2 ^ 64)
    {delivered : List ReadEntry} (target : sub.target = .staying delivered) (entries : List Entry) :
    sub.call entries = .ok ({ sub with
      target := .staying (delivered ++ (entries.filter sub.takes).map memoryEntry) }, true) := by
  induction entries generalizing sub delivered with
  | nil => simp [Subscriber.call, ← target]
  | cons e entries ih =>
    obtain ⟨id, data⟩ := e
    unfold Subscriber.call
    by_cases old : sub.lastSentId.any (fun last => decide (id ≤ last)) = true
    · have skipped : sub.takes (id, data) = false := by simp [Subscriber.takes, old]
      simp [old, skipped, ih steps word target]
    · simp only [old, Bool.false_eq_true, if_false]
      rw [inStep_passes id sub.fromId steps word, Outcome.ok_bind]
      cases wants : passes sub.fromId.toNat sub.step id.toNat with
      | false =>
        have skipped : sub.takes (id, data) = false := by simp [Subscriber.takes, wants]
        simp [skipped, ih steps word target]
      | true =>
        have taken : sub.takes (id, data) = true := by simp [Subscriber.takes, old, wants]
        have again := @ih { sub with target := .staying (delivered ++ [memoryEntry (id, data)]) }
          steps word (delivered ++ [memoryEntry (id, data)]) rfl
        have same : Subscriber.takes
            { sub with target := .staying (delivered ++ [memoryEntry (id, data)]) } = sub.takes := rfl
        rw [same] at again
        simp only [Sender.sendEntry, target, Sender.send_staying, if_true]
        rw [show ReadEntry.mk id data .memory = memoryEntry (id, data) from rfl, again]
        simp [taken]

/-- Calling the subscribers calls each of them, and names those that failed. -/
theorem callSubscribers_mem {entries : List Entry} {subs after : List (Nat × Subscriber)}
    {failed : List Nat} (called : MemQueue.callSubscribers entries subs = .ok (after, failed)) :
    after.map Prod.fst = subs.map Prod.fst ∧
    (∀ id sub, (id, sub) ∈ subs → ∃ sub' kept, sub.call entries = .ok (sub', kept) ∧
      (id, sub') ∈ after ∧ (kept = false → id ∈ failed)) ∧
    (∀ id ∈ failed, ∃ sub sub', (id, sub) ∈ subs ∧ sub.call entries = .ok (sub', false)) := by
  induction subs generalizing after failed with
  | nil =>
    cases called
    exact ⟨rfl, by simp, by simp⟩
  | cons first subs ih =>
    obtain ⟨id, sub⟩ := first
    rw [MemQueue.callSubscribers] at called
    obtain ⟨⟨sub', kept⟩, one, called⟩ := Outcome.bind_eq_ok.mp called
    obtain ⟨⟨later, failedLater⟩, rest, called⟩ := Outcome.bind_eq_ok.mp called
    cases called
    obtain ⟨keys, each, named⟩ := ih rest
    refine ⟨by simp [keys], ?_, ?_⟩
    · intro other otherSub member
      rcases List.mem_cons.mp member with here | there
      · cases here
        refine ⟨sub', kept, one, List.mem_cons_self, ?_⟩
        rintro rfl
        simp
      · obtain ⟨after', kept', called', among, fails⟩ := each other otherSub there
        refine ⟨after', kept', called', List.mem_cons_of_mem _ among, ?_⟩
        intro lost
        have inLater := fails lost
        cases kept with
        | true => simpa using inLater
        | false => simp [inLater]
    · intro other member
      have split : (other = id ∧ kept = false) ∨ other ∈ failedLater := by
        cases kept with
        | true => exact .inr (by simpa using member)
        | false => simpa using member
      rcases split with ⟨rfl, rfl⟩ | there
      · exact ⟨sub, sub', List.mem_cons_self, one⟩
      · obtain ⟨otherSub, after', among, called'⟩ := named other there
        exact ⟨otherSub, after', List.mem_cons_of_mem _ among, called'⟩

end Calling

namespace Feed

/-- The queue and the record of what went through it. Numbers are consecutive, memory holds the
newest entries, and no two subscriptions share a number. -/
structure Logged (lo : Nat) (s : Feed) : Prop where
  numbered : Numbered lo s.log
  memory : s.queue.entries <:+ s.log
  firstId : s.queue.firstId = s.queue.entries.head?.map Prod.fst
  next : s.queue.nextId.toNat = lo + s.log.length
  acked : ∀ a ∈ s.queue.lastAckedId, a.toNat < lo + s.log.length
  kept : s.log ≠ [] → s.queue.entries ≠ []
  keys : (s.queue.subscribers.map Prod.fst).Nodup
  fresh : ∀ id ∈ s.queue.subscribers.map Prod.fst, id < s.queue.nextSubscriberId

namespace Logged

variable {lo : Nat} {s : Feed}

theorem initial {q : MemQueue} {count : Nat} {payload : Nat → Bytes} (holds : q.Holds lo count payload)
    (acked : ∀ a ∈ q.lastAckedId, a.toNat < count) (keys : (q.subscribers.map Prod.fst).Nodup)
    (fresh : ∀ id ∈ q.subscribers.map Prod.fst, id < q.nextSubscriberId) (request : FollowRequest) :
    Logged lo (start q request) where
  numbered := holds.numbered
  memory := List.suffix_refl _
  firstId := holds.firstId
  next := by
    change q.nextId.toNat = lo + q.entries.length
    rw [holds.upTo, MemQueue.nextId]
    rcases Nat.eq_zero_or_pos count with rfl | inhabited
    · rw [holds.lastId_none]
      rfl
    · obtain ⟨last, lastId, value⟩ := holds.lastId_some inhabited
      rw [lastId]
      change last.increment.toNat = count
      rw [UintN.toNat_increment, value]
      omega
  acked := by
    intro a member
    change a.toNat < lo + q.entries.length
    rw [holds.upTo]
    exact acked a member
  kept := fun inhabited => inhabited
  keys := keys
  fresh := fresh

section

variable (logged : Logged lo s)

include logged

/-- An append under the lock: the new entries are numbered on, and are still in memory after the
cleanup. -/
theorem enqueueBatch (batch : List Bytes) : Logged lo (s.enqueueBatch batch) := by
  unfold Feed.enqueueBatch MemQueue.appendBatch
  cases batch with
  | nil => simpa [MemQueue.numbered, notifies] using logged
  | cons data batch =>
    simp only [List.isEmpty_cons, Bool.false_eq_true, if_false]
    generalize grown : MemQueue.numbered s.queue.nextId (data :: batch) = added
    have numbered : Numbered (lo + s.log.length) added := by
      rw [← logged.next, ← grown]
      exact numbered_numbered _ _
    have filled : added ≠ [] := by
      rw [← grown]
      exact List.cons_ne_nil _ _
    obtain ⟨last, lastOf, lastValue⟩ := numbered.getLast filled
    have head : (s.queue.firstId.or (some s.queue.nextId)) =
        (s.queue.entries ++ added).head?.map Prod.fst := grown ▸ head_grown logged.firstId data batch
    have cleaned := cleanup_cleaned (q := { s.queue with
      firstId := s.queue.firstId.or (some s.queue.nextId)
      lastId := added.getLast?.map Prod.fst
      entries := s.queue.entries ++ added
      memoryUsage := s.queue.memoryUsage + ((data :: batch).map Bytes.length).sum }) head
    generalize MemQueue.cleanupUnlocked _ = after at cleaned ⊢
    constructor
    · exact numbered_append.mpr ⟨logged.numbered, numbered⟩
    · obtain ⟨gone, split⟩ := logged.memory
      exact cleaned.entries.trans ⟨gone, by rw [← List.append_assoc, split]⟩
    · exact cleaned.firstId
    · rw [MemQueue.nextId, cleaned.lastId, lastOf, List.length_append]
      change last.1.increment.toNat = _
      rw [UintN.toNat_increment]
      omega
    · intro a member
      have below := logged.acked a (cleaned.lastAckedId ▸ member)
      rw [List.length_append]
      omega
    · intro _ empty
      have among : last ∈ s.queue.entries ++ added :=
        List.mem_append_right _ (List.mem_of_getLast? lastOf)
      have stays := cleaned.keeps last among (fun a member => by
        have below := logged.acked a member
        have above := (numbered.mem (List.mem_of_getLast? lastOf)).1
        omega)
      rw [empty] at stays
      cases stays
    · rw [cleaned.subscribers]
      exact logged.keys
    · rw [cleaned.subscribers, cleaned.nextSubscriberId]
      exact logged.fresh

theorem withSubscribers {subs : List (Nat × Subscriber)}
    (keys : (subs.map Prod.fst).Sublist (s.queue.subscribers.map Prod.fst)) (producers : List Producer)
    (follower : Follower) (seen : Nat) (removed : List (Nat × Subscriber)) :
    Logged lo ⟨{ s.queue with subscribers := subs }, producers, follower, s.log, seen, removed⟩ :=
  ⟨logged.numbered, logged.memory, logged.firstId, logged.next, logged.acked, logged.kept,
    logged.keys.sublist keys, fun id member => logged.fresh id (keys.subset member)⟩

theorem keyed : s.queue.Keyed := ⟨logged.keys, logged.fresh⟩

theorem register (subscriber : Subscriber) (follower : Follower) :
    Logged lo { s with queue := (s.queue.register subscriber).1, follower := follower } where
  numbered := logged.numbered
  memory := logged.memory
  firstId := logged.firstId
  next := logged.next
  acked := logged.acked
  kept := logged.kept
  keys := (logged.keyed.register subscriber).keys
  fresh := (logged.keyed.register subscriber).fresh

theorem receive (capacity id : Nat) : Logged lo (s.receive capacity id) := by
  apply logged.withSubscribers
  change ((s.receive capacity id).queue.subscribers.map Prod.fst).Sublist _
  rw [keys_receive]

end

end Logged

end Feed

end NormFS
