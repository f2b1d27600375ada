import NormFS.Mem.Handover

/-! What a subscription hands over while several producers append. Each of them appends under the
lock and calls the subscribers later, so the calls may come in another order than the numbers, and a
subscription that failed may be called again before it is removed. -/
namespace NormFS

open Runs

namespace Producer

def isNotifying : Producer → Bool
  | .notifying _ => true
  | .removing _ => false

def announces : Producer → List Entry
  | .notifying entries => entries
  | .removing _ => []

/-- The producer is about to remove the subscription. -/
def removes (mine : Nat) : Producer → Bool
  | .notifying _ => false
  | .removing failed => failed.contains mine

end Producer

namespace Feed

/-- The calls come in the order of the appends, and none comes between the failure of the subscription
and its removal. -/
def inTurn (mine : Nat) (s : Feed) : FeedEvent → Bool
  | .produce i =>
    match s.producers[i]? with
    | some (.notifying _) =>
      (s.producers.take i).all (fun producer => !producer.isNotifying) &&
        s.producers.all (fun producer => !producer.removes mine)
    | _ => true
  | _ => true

end Feed

def Subscriber.ids (sub : Subscriber) : List Nat := sub.target.delivered.map (fun entry => entry.id.toNat)

/-- The first number behind the entries that were sent before the registration. -/
def Subscriber.behind (sub : Subscriber) : Nat :=
  match sub.lastSentId with
  | some last => last.toNat + 1
  | none => 0

theorem Subscriber.any_lastSentId (sub : Subscriber) (id : UintN) :
    sub.lastSentId.any (fun last => decide (id ≤ last)) = decide (id.toNat < sub.behind) := by
  unfold Subscriber.behind
  cases sub.lastSentId with
  | none => rfl
  | some last =>
    rw [Option.any_some, Bool.eq_iff_iff, decide_eq_true_iff, decide_eq_true_iff, UintN.le_iff]
    exact Nat.lt_succ_iff.symm

/-- Handed over goes what follows the entries sent before, up to the first entry that does not fit. -/
theorem Subscriber.call_numbered {sub after : Subscriber} {entries : List Entry} {first : Nat} {kept : Bool}
    (single : sub.step = 1) (numbered : Numbered first entries) (called : sub.call entries = .ok (after, kept)) :
    after.step = sub.step ∧ after.lastSentId = sub.lastSentId ∧
      ∃ n, after.ids = sub.ids ++ List.range' (max first sub.behind) n ∧
        (kept = true → n = first + entries.length - max first sub.behind) := by
  induction entries generalizing sub first with
  | nil =>
    cases called
    exact ⟨rfl, rfl, 0, by simp, fun _ => by simp⟩
  | cons e entries ih =>
    obtain ⟨id, data⟩ := e
    obtain ⟨number, rest⟩ := numbered_cons.mp numbered
    dsimp only at number
    unfold Subscriber.call at called
    rw [sub.any_lastSentId, number] at called
    by_cases old : first < sub.behind
    · rw [if_pos (by simpa using old)] at called
      obtain ⟨step, last, n, ids, all⟩ := ih single rest called
      have same : max (first + 1) sub.behind = max first sub.behind := by omega
      rw [same] at ids all
      refine ⟨step, last, n, ids, ?_⟩
      intro done
      rw [all done, List.length_cons]
      omega
    · have passes : (id.inStep sub.fromId sub.step : Outcome Unit Bool) = .ok true := by
        rw [inStep_passes id sub.fromId (by omega) (by omega), single]
        rfl
      rw [if_neg (by simpa using old), passes, Outcome.ok_bind, if_pos rfl] at called
      have start : max first sub.behind = first := by omega
      split at called
      · rename_i target sent
        have delivered : target.delivered = sub.target.delivered ++ [memoryEntry (id, data)] := by
          unfold Sender.sendEntry Sender.send at sent
          split at sent <;> cases sent <;> rfl
        obtain ⟨step, last, n, ids, all⟩ := @ih { sub with target := target } _ single rest called
        have behind : Subscriber.behind { sub with target := target } = sub.behind := rfl
        have later : max (first + 1) sub.behind = first + 1 := by omega
        rw [behind, later] at ids all
        refine ⟨step, last, n + 1, ?_, ?_⟩
        · rw [ids, start, List.range'_succ, Subscriber.ids, delivered]
          simp [Subscriber.ids, memoryEntry, number]
        · intro done
          rw [all done, start, List.length_cons]
          omega
      · cases called
        exact ⟨rfl, rfl, 0, by simp, fun done => by cases done⟩

namespace Feed

section Producers

variable {producers : List Producer} {producer : Producer} {i mine : Nat}

theorem pending_eq (s : Feed) : s.pending = s.producers.flatMap Producer.announces := rfl

theorem goesOn_split (here : producers[i]? = some producer) (failed : List Nat) : ∃ rest,
    producers = producers.take i ++ producer :: rest ∧
    goesOn producers i failed = producers.take i ++ (goesOn [producer] 0 failed ++ rest) := by
  obtain ⟨inside, at'⟩ := List.getElem?_eq_some_iff.mp here
  have whole : producers = producers.take i ++ producer :: producers.drop (i + 1) := by
    rw [← at', ← List.drop_eq_getElem_cons inside, List.take_append_drop]
  refine ⟨producers.drop (i + 1), whole, ?_⟩
  cases failed with
  | nil => exact List.eraseIdx_eq_take_drop_succ _ _
  | cons id failed =>
    change producers.set i _ = _
    rw [List.set_eq_take_append_cons_drop, if_pos inside]
    rfl

theorem announces_goesOn (producer : Producer) (failed : List Nat) :
    (goesOn [producer] 0 failed).flatMap Producer.announces = [] := by
  cases failed <;> rfl

theorem any_removes_goesOn (producer : Producer) (failed : List Nat) :
    (goesOn [producer] 0 failed).any (Producer.removes mine) = failed.contains mine := by
  cases failed with
  | nil => rfl
  | cons id failed => exact Bool.or_false _

/-- The first call takes the first entries to announce. -/
theorem announces_called {entries : List Entry} (here : producers[i]? = some (.notifying entries))
    (first : ∀ producer ∈ producers.take i, producer.isNotifying = false) (failed : List Nat) :
    producers.flatMap Producer.announces = entries ++ (goesOn producers i failed).flatMap Producer.announces := by
  obtain ⟨rest, whole, after⟩ := goesOn_split here failed
  have before : (producers.take i).flatMap Producer.announces = [] := by
    rw [List.flatMap_eq_nil_iff]
    intro other member
    have silent := first other member
    cases other with
    | notifying entries => cases silent
    | removing failed => rfl
  rw [after, List.flatMap_append, before, List.flatMap_append, announces_goesOn]
  rw [whole, List.flatMap_append, before, List.flatMap_cons]
  rfl

theorem announces_removed {failed given : List Nat} (here : producers[i]? = some (.removing given)) :
    (goesOn producers i failed).flatMap Producer.announces = producers.flatMap Producer.announces := by
  obtain ⟨rest, whole, after⟩ := goesOn_split here failed
  rw [after, List.flatMap_append, List.flatMap_append, announces_goesOn]
  conv_rhs => rw [whole, List.flatMap_append, List.flatMap_cons]
  rfl

theorem any_removes_called {entries : List Entry} (here : producers[i]? = some (.notifying entries))
    (failed : List Nat) : (goesOn producers i failed).any (Producer.removes mine) =
      (failed.contains mine || producers.any (Producer.removes mine)) := by
  obtain ⟨rest, whole, after⟩ := goesOn_split here failed
  rw [after, List.any_append, List.any_append, any_removes_goesOn]
  conv_rhs => rw [whole, List.any_append, List.any_cons]
  simp only [Producer.removes, Bool.false_or]
  exact Bool.or_left_comm _ _ _

theorem any_removes_removed {failed : List Nat} {id : Nat} (here : producers[i]? = some (.removing (id :: failed)))
    (other : id ≠ mine) : (goesOn producers i failed).any (Producer.removes mine) =
      producers.any (Producer.removes mine) := by
  obtain ⟨rest, whole, after⟩ := goesOn_split here failed
  have apart : (mine == id) = false := by simpa using other.symm
  rw [after, List.any_append, List.any_append, any_removes_goesOn]
  conv_rhs => rw [whole, List.any_append, List.any_cons]
  simp only [Producer.removes, List.contains_cons, apart, Bool.false_or]

end Producers

structure Streams (given : Subscriber) (first n : Nat) (sub : Subscriber) : Prop where
  single : sub.step = 1
  behind : sub.behind = given.behind
  ids : sub.ids = given.ids ++ List.range' first n

structure Awaits (s : Feed) (next first n : Nat) : Prop where
  reached : ∃ from', next ≤ from' ∧ Numbered from' s.pending ∧
    from' + s.pending.length = s.queue.nextId.toNat ∧ n = from' - first

/-- One subscription among others, and the producers. `given` is the subscription at the start, when
`next` was the next number. -/
structure Streaming (mine : Nat) (given : Subscriber) (next : Nat) (s : Feed) : Prop where
  keys : (s.queue.subscribers.map Prod.fst).Nodup
  fresh : ∀ id ∈ s.queue.subscribers.map Prod.fst, id < s.queue.nextSubscriberId
  known : mine < s.queue.nextSubscriberId
  served : ∀ sub, (mine, sub) ∈ s.queue.subscribers → ∃ n, Streams given (max next given.behind) n sub ∧
    (s.producers.any (Producer.removes mine) = false → s.Awaits next (max next given.behind) n)
  gone : ∀ sub, (mine, sub) ∈ s.removed → ∃ n, Streams given (max next given.behind) n sub
  somewhere : ∃ sub, (mine, sub) ∈ s.queue.subscribers ++ s.removed

namespace Streaming

variable {mine next : Nat} {given : Subscriber} {s : Feed}

theorem initial {q : MemQueue} {request : FollowRequest} (keys : (q.subscribers.map Prod.fst).Nodup)
    (fresh : ∀ id ∈ q.subscribers.map Prod.fst, id < q.nextSubscriberId)
    (registered : (mine, given) ∈ q.subscribers) (single : given.step = 1) :
    Streaming mine given q.nextId.toNat (start q request) where
  keys := keys
  fresh := fresh
  known := fresh mine (List.mem_map_of_mem registered)
  served := by
    intro sub among
    obtain rfl : sub = given := by
      have same := List.inj_on_of_nodup_map keys among registered rfl
      exact congrArg Prod.snd same
    refine ⟨0, ⟨single, rfl, by simp⟩, fun _ => ⟨q.nextId.toNat, le_refl _, rfl, rfl, ?_⟩⟩
    omega
  gone := by
    intro sub removed
    cases removed
  somewhere := ⟨given, List.mem_append_left _ registered⟩

theorem enqueueBatch (streaming : Streaming mine given next s) (batch : List Bytes) :
    Streaming mine given next (s.enqueueBatch batch) := by
  cases batch with
  | nil => simpa [Feed.enqueueBatch, MemQueue.appendBatch, MemQueue.numbered, notifies] using streaming
  | cons data batch =>
    have appends := s.appends (List.cons_ne_nil data batch)
    have numbered := numbered_numbered s.queue.nextId (data :: batch)
    have length := length_numbered s.queue.nextId (data :: batch)
    have filled : MemQueue.numbered s.queue.nextId (data :: batch) ≠ [] := List.cons_ne_nil _ _
    obtain ⟨last, lastOf, lastValue⟩ := numbered.getLast filled
    have nextId : (s.enqueueBatch (data :: batch)).queue.nextId.toNat =
        s.queue.nextId.toNat + (MemQueue.numbered s.queue.nextId (data :: batch)).length := by
      have lastId : (s.enqueueBatch (data :: batch)).queue.lastId = some last.1 := by
        simp [Feed.enqueueBatch, MemQueue.appendBatch, lastOf]
      rw [MemQueue.nextId, lastId]
      change last.1.increment.toNat = _
      rw [UintN.toNat_increment, lastValue]
    constructor
    · rw [appends.subscribers]
      exact streaming.keys
    · rw [appends.subscribers, appends.nextSubscriberId]
      exact streaming.fresh
    · rw [appends.nextSubscriberId]
      exact streaming.known
    · intro sub among
      rw [appends.subscribers] at among
      obtain ⟨n, streams, awaits⟩ := streaming.served sub among
      refine ⟨n, streams, ?_⟩
      have somebody : s.queue.subscribers.isEmpty = false := by
        cases subs : s.queue.subscribers with
        | nil => rw [subs] at among; cases among
        | cons => rfl
      have producers := appends.producers
      rw [somebody, if_neg Bool.false_ne_true] at producers
      intro none
      rw [producers, List.any_append, Bool.or_eq_false_iff] at none
      obtain ⟨from', le, pending, upTo, count⟩ := awaits none.1
      have grown : (s.enqueueBatch (data :: batch)).pending =
          s.pending ++ MemQueue.numbered s.queue.nextId (data :: batch) := by
        rw [pending_eq, producers, List.flatMap_append, ← pending_eq]
        exact congrArg _ (List.flatMap_singleton _ _)
      refine ⟨from', le, ?_, ?_, count⟩
      · rw [grown]
        refine numbered_append.mpr ⟨pending, ?_⟩
        rw [upTo]
        exact numbered
      · rw [grown, nextId, List.length_append, ← upTo]
        omega
    · exact streaming.gone
    · rw [appends.subscribers]
      exact streaming.somewhere

theorem notify (streaming : Streaming mine given next s) {i : Nat} {entries : List Entry}
    (here : s.producers[i]? = some (.notifying entries)) (met : s.inTurn mine (.produce i) = true)
    {subscribers : List (Nat × Subscriber)} {failed : List Nat}
    (called : MemQueue.callSubscribers entries s.queue.subscribers = .ok (subscribers, failed)) :
    Streaming mine given next { s with
      queue := { s.queue with subscribers := subscribers }
      producers := goesOn s.producers i failed } := by
  obtain ⟨keys, each, named⟩ := callSubscribers_mem called
  simp only [inTurn, here, Bool.and_eq_true, List.all_eq_true, Bool.not_eq_true'] at met
  obtain ⟨first, unfailed⟩ := met
  have idle : s.producers.any (Producer.removes mine) = false := by
    rw [List.any_eq_false]
    intro producer member
    simp [unfailed producer member]
  constructor
  · rw [keys]
    exact streaming.keys
  · rw [keys]
    exact streaming.fresh
  · exact streaming.known
  · intro after among
    have key : mine ∈ s.queue.subscribers.map Prod.fst := by
      rw [← keys]
      exact List.mem_map_of_mem among
    obtain ⟨⟨mine', sub⟩, registered, rfl⟩ := List.mem_map.mp key
    obtain ⟨sub', kept, one, amongAfter, fails⟩ := each _ _ registered
    obtain rfl : after = sub' := by
      have nodup : (subscribers.map Prod.fst).Nodup := by
        rw [keys]
        exact streaming.keys
      exact congrArg Prod.snd (List.inj_on_of_nodup_map nodup among amongAfter rfl)
    obtain ⟨n, streams, awaits⟩ := streaming.served sub registered
    obtain ⟨from', le, pending, upTo, count⟩ := awaits idle
    have split := announces_called here first failed
    rw [← pending_eq] at split
    rw [split] at pending upTo
    obtain ⟨called, later⟩ := numbered_append.mp pending
    obtain ⟨step, last, k, ids, all⟩ := Subscriber.call_numbered streams.single called one
    have behind : max from' sub.behind = max next given.behind + n := by
      rw [streams.behind]
      omega
    refine ⟨n + k, ⟨step.trans streams.single, ?_, ?_⟩, ?_⟩
    · rw [Subscriber.behind, last]
      exact streams.behind
    · rw [ids, streams.ids, behind, List.append_assoc, List.range'_append_1]
    · intro none
      rw [any_removes_called here, idle, Bool.or_false] at none
      have done : kept = true := by
        by_contra lost
        have member := fails (by simpa using lost)
        rw [← List.contains_iff_mem, none] at member
        cases member
      have total := all done
      rw [List.length_append] at upTo
      refine ⟨from' + entries.length, by omega, later, ?_, by omega⟩
      exact (Nat.add_assoc _ _ _).trans upTo
  · exact streaming.gone
  · obtain ⟨sub, among⟩ := streaming.somewhere
    rcases List.mem_append.mp among with registered | removed
    · obtain ⟨after, kept, -, amongAfter, -⟩ := each _ _ registered
      exact ⟨after, List.mem_append_left _ amongAfter⟩
    · exact ⟨sub, List.mem_append_right _ removed⟩

theorem remove (streaming : Streaming mine given next s) {i id : Nat} {rest : List Nat}
    (here : s.producers[i]? = some (.removing (id :: rest))) :
    Streaming mine given next { s with
      queue := s.queue.unsubscribe id
      producers := goesOn s.producers i rest
      removed := s.removed ++ s.queue.subscribers.filter (fun other => other.1 == id) } where
  keys := streaming.keys.sublist (List.filter_sublist.map Prod.fst)
  fresh := fun other member => streaming.fresh other ((List.filter_sublist.map Prod.fst).subset member)
  known := streaming.known
  served := by
    intro sub among
    obtain ⟨registered, other⟩ := List.mem_filter.mp among
    have apart : id ≠ mine := by
      rintro rfl
      simp at other
    obtain ⟨n, streams, awaits⟩ := streaming.served sub registered
    refine ⟨n, streams, ?_⟩
    intro none
    rw [any_removes_removed here apart] at none
    obtain ⟨from', le, pending, upTo, count⟩ := awaits none
    have same : Feed.pending { s with
        queue := s.queue.unsubscribe id
        producers := goesOn s.producers i rest
        removed := s.removed ++ s.queue.subscribers.filter (fun other => other.1 == id) } = s.pending := by
      rw [pending_eq, pending_eq]
      exact announces_removed here
    exact ⟨from', le, by rw [same]; exact pending, by rw [same]; exact upTo, count⟩
  gone := by
    intro sub removed
    rcases List.mem_append.mp removed with earlier | now
    · exact streaming.gone sub earlier
    · obtain ⟨n, streams, -⟩ := streaming.served sub (List.mem_of_mem_filter now)
      exact ⟨n, streams⟩
  somewhere := by
    obtain ⟨sub, among⟩ := streaming.somewhere
    refine ⟨sub, ?_⟩
    rcases List.mem_append.mp among with registered | removed
    · by_cases same : mine = id
      · refine List.mem_append_right _ (List.mem_append_right _ (List.mem_filter.mpr ⟨registered, ?_⟩))
        simpa using same
      · exact List.mem_append_left _ (List.mem_filter.mpr ⟨registered, by simpa using same⟩)
    · exact List.mem_append_right _ (List.mem_append_left _ removed)

variable {after : Feed}

section

variable (streaming : Streaming mine given next s)

include streaming

theorem produce {i : Nat} (met : s.inTurn mine (.produce i) = true) (moved : s.produce i = some after) : Streaming mine given next after := by
  unfold Feed.produce at moved
  split at moved
  · cases moved
  · rename_i here
    split at moved
    · rename_i called
      cases moved
      exact streaming.notify here met called
    · cases moved
  · cases moved
  · rename_i here
    cases moved
    exact streaming.remove here

theorem elsewhere (follower : Follower) (seen : Nat) :
    Streaming mine given next { s with follower := follower, seen := seen } :=
  ⟨streaming.keys, streaming.fresh, streaming.known,
    fun sub among => (streaming.served sub among).imp (fun _ served =>
      ⟨served.1, fun none => ⟨(served.2 none).reached⟩⟩), streaming.gone, streaming.somewhere⟩

theorem keyed : s.queue.Keyed := ⟨streaming.keys, streaming.fresh⟩

theorem register (subscriber : Subscriber) (follower : Follower) :
    Streaming mine given next { s with queue := (s.queue.register subscriber).1, follower := follower } where
  keys := (streaming.keyed.register subscriber).keys
  fresh := (streaming.keyed.register subscriber).fresh
  known := streaming.known.trans (Nat.lt_succ_self _)
  served := by
    intro sub among
    rcases List.mem_append.mp among with earlier | last
    · obtain ⟨n, streams, awaits⟩ := streaming.served sub earlier
      exact ⟨n, streams, fun none => ⟨(awaits none).reached⟩⟩
    · cases List.mem_singleton.mp last
      exact absurd streaming.known (Nat.lt_irrefl _)
  gone := streaming.gone
  somewhere := by
    obtain ⟨sub, among⟩ := streaming.somewhere
    refine ⟨sub, ?_⟩
    rcases List.mem_append.mp among with registered | removed
    · exact List.mem_append_left _ (List.mem_append_left _ registered)
    · exact List.mem_append_right _ removed

theorem follow (moved : s.follow = some after) :
    Streaming mine given next after := by
  unfold Feed.follow at moved
  split at moved
  · split at moved <;> cases moved
    · exact streaming.elsewhere _ _
    · exact streaming.elsewhere _ _
  · split at moved <;> cases moved
    · exact streaming.elsewhere _ _
    · exact streaming.elsewhere _ _
  · cases moved
    exact streaming.register _ _
  · cases moved

theorem receive (capacity id : Nat) :
    Streaming mine given next (s.receive capacity id) where
  keys := by
    rw [keys_receive]
    exact streaming.keys
  fresh := by
    rw [keys_receive]
    exact streaming.fresh
  known := streaming.known
  served := by
    intro sub among
    obtain ⟨room, before⟩ := mem_receive s capacity id among
    obtain ⟨n, streams, awaits⟩ := streaming.served _ before
    exact ⟨n, ⟨streams.single, streams.behind, streams.ids⟩, fun none => ⟨(awaits none).reached⟩⟩
  gone := streaming.gone
  somewhere := by
    obtain ⟨sub, among⟩ := streaming.somewhere
    rcases List.mem_append.mp among with registered | removed
    · obtain ⟨after, there⟩ := receive_mem s capacity id registered
      exact ⟨after, List.mem_append_left _ there⟩
    · exact ⟨sub, List.mem_append_right _ removed⟩

theorem step {capacity : Nat} {event : FeedEvent}
    (met : s.inTurn mine event = true) (moved : s.step capacity event = some after) :
    Streaming mine given next after := by
  cases event with
  | enqueue data =>
    cases moved
    rw [enqueue_eq]
    exact streaming.enqueueBatch [data]
  | enqueueBatch batch =>
    cases moved
    exact streaming.enqueueBatch batch
  | produce i => exact streaming.produce met moved
  | follow => exact streaming.follow moved
  | receive id =>
    cases moved
    exact streaming.receive capacity id

end

end Streaming

/- A subscription for every entry hands over consecutive numbers, from the first one that it was not
sent before, as long as the producers call in the order of their appends and a failed subscription is
removed before the next call. -/
theorem stream_without_holes (capacity : Nat) {mine : Nat} {given : Subscriber} {q : MemQueue}
    {request : FollowRequest} (keys : (q.subscribers.map Prod.fst).Nodup)
    (fresh : ∀ id ∈ q.subscribers.map Prod.fst, id < q.nextSubscriberId)
    (registered : (mine, given) ∈ q.subscribers) (single : given.step = 1)
    {events : List FeedEvent} {final : Feed}
    (inTurn : Along (step capacity) (inTurn mine · ·) (start q request) events)
    (ran : Runs.run (step capacity) (start q request) events = some final) :
    (∃ sub, (mine, sub) ∈ final.queue.subscribers ++ final.removed) ∧
    ∀ sub, (mine, sub) ∈ final.queue.subscribers ++ final.removed → ∃ n,
      sub.ids = given.ids ++ List.range' (max q.nextId.toNat given.behind) n := by
  have streaming := Runs.run_invariant (Streaming mine given q.nextId.toNat)
    (fun _ _ _ streaming met moved => streaming.step met moved)
    (.initial keys fresh registered single) inTurn ran
  refine ⟨streaming.somewhere, ?_⟩
  intro sub among
  rcases List.mem_append.mp among with registered | removed
  · obtain ⟨n, streams, -⟩ := streaming.served sub registered
    exact ⟨n, streams.ids⟩
  · obtain ⟨n, streams⟩ := streaming.gone sub removed
    exact ⟨n, streams.ids⟩

/-- One subscription for every entry, over a channel with room for `n` entries. -/
def subscribed (n : Nat) : MemQueue := ((MemQueue.new none 100).register ⟨.zero, 1, none, ⟨[], some n⟩⟩).1

theorem stream_without_holes_two_producers : ∃ final sub n,
    Runs.run (step 2) (start (subscribed 2) fromFirst)
      [.enqueue (payloadOf 1), .enqueue (payloadOf 2), .produce 0, .produce 0] = some final ∧
    (0, sub) ∈ final.queue.subscribers ++ final.removed ∧ sub.ids = List.range' 0 n := by
  have ends : (Runs.run (step 2) (start (subscribed 2) fromFirst)
      [.enqueue (payloadOf 1), .enqueue (payloadOf 2), .produce 0, .produce 0]).isSome = true := by
    decide +kernel
  obtain ⟨final, ran⟩ := Option.isSome_iff_exists.mp ends
  obtain ⟨⟨sub, among⟩, consecutive⟩ := stream_without_holes 2 (q := subscribed 2) (by decide) (by decide)
    List.mem_cons_self rfl (by decide +kernel) ran
  obtain ⟨n, ids⟩ := consecutive sub among
  exact ⟨final, sub, n, ran, among, ids⟩

/- The second of two producers calls first. And: the channel is full at the second entry; before the
subscription is removed the receiver takes an entry, and the third entry goes through. -/
theorem stream_reordered_or_torn :
    (∃ final sub, Runs.run (step 2) (start (subscribed 2) fromFirst)
        [.enqueue (payloadOf 1), .enqueue (payloadOf 2), .produce 1, .produce 0] = some final ∧
      final.queue.subscribers = [(0, sub)] ∧ sub.ids = [1, 0]) ∧
    (∃ final sub, Runs.run (step 1) (start (subscribed 1) fromFirst)
        [.enqueue (payloadOf 1), .produce 0, .enqueue (payloadOf 2), .produce 0, .receive 0,
          .enqueue (payloadOf 3), .produce 1] = some final ∧
      final.queue.subscribers = [(0, sub)] ∧ sub.ids = [0, 2]) := by
  have one (capacity : Nat) (s : Feed) (events : List FeedEvent) (ids : List Nat)
      (ends : (Runs.run (step capacity) s events).any (fun final =>
        final.lone.any (fun sub => decide (sub.ids = ids))) = true) :
      ∃ final sub, Runs.run (step capacity) s events = some final ∧
        final.queue.subscribers = [(0, sub)] ∧ sub.ids = ids := by
    obtain ⟨final, ran, subs⟩ := (Option.any_eq_true _ _).mp ends
    obtain ⟨sub, only, received⟩ := (Option.any_eq_true _ _).mp subs
    exact ⟨final, sub, ran, lone_eq_some only, of_decide_eq_true received⟩
  exact ⟨one _ _ _ _ (by decide +kernel), one _ _ _ _ (by decide +kernel)⟩

end Feed
end NormFS
