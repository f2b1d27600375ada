import NormFS.Mem.Subscription

/-! Any number of calls of one queue in memory. Its five fields say the same thing in five ways, and
every call keeps them in step; a batch is the same as its elements one after the other. -/
namespace NormFS

open Runs

namespace MemQueue

def push (q : MemQueue) (added : List Entry) : MemQueue :=
  { q with
    firstId := q.firstId.or (added.head?.map Prod.fst)
    lastId := (added.getLast?.map Prod.fst).or q.lastId
    entries := q.entries ++ added
    memoryUsage := q.memoryUsage + (added.map (fun e => e.2.length)).sum }

theorem push_nil (q : MemQueue) : q.push [] = q := by
  simp [push]

theorem push_push (q : MemQueue) (one other : List Entry) :
    (q.push one).push other = q.push (one ++ other) := by
  have first : ((q.firstId.or (one.head?.map Prod.fst)).or (other.head?.map Prod.fst)) =
      q.firstId.or ((one ++ other).head?.map Prod.fst) := by
    rw [Option.or_assoc, List.head?_append]
    cases one.head? <;> rfl
  have last : ((other.getLast?.map Prod.fst).or ((one.getLast?.map Prod.fst).or q.lastId)) =
      ((one ++ other).getLast?.map Prod.fst).or q.lastId := by
    rw [← Option.or_assoc, List.getLast?_append]
    cases other.getLast? <;> rfl
  simp only [push, first, last, List.append_assoc, List.map_append, List.sum_append, Nat.add_assoc]

theorem sum_numbered (first : UintN) (batch : List Bytes) :
    ((numbered first batch).map (fun e => e.2.length)).sum = (batch.map Bytes.length).sum := by
  induction batch generalizing first with
  | nil => rfl
  | cons data batch ih => simp only [numbered, List.map_cons, List.sum_cons, ih]

theorem append_eq (q : MemQueue) (data : Bytes) : q.append data =
    ((q.push (numbered q.nextId [data])).cleanupUnlocked, q.nextId,
      if q.subscribers.isEmpty then none else some (numbered q.nextId [data])) := rfl

theorem appendBatch_eq (q : MemQueue) {batch : List Bytes} (filled : batch ≠ []) : q.appendBatch batch =
    ((q.push (numbered q.nextId batch)).cleanupUnlocked, (numbered q.nextId batch).map Prod.fst,
      if q.subscribers.isEmpty then none else some (numbered q.nextId batch)) := by
  obtain ⟨data, rest, rfl⟩ := List.exists_cons_of_ne_nil filled
  have last : ((numbered q.nextId (data :: rest)).getLast?.map Prod.fst).or q.lastId =
      (numbered q.nextId (data :: rest)).getLast?.map Prod.fst := by
    rw [numbered, List.getLast?_cons]
    rfl
  simp only [appendBatch, List.isEmpty_cons, Bool.false_eq_true, if_false, push, last, sum_numbered]
  rfl

def freed (q : MemQueue) : Nat :=
  match q.lastAckedId with
  | none => 0
  | some lastAckedId => ((q.entries.takeWhile (fun e => decide (e.1 ≤ lastAckedId))).map (fun e => e.2.length)).sum

structure Represents (q : MemQueue) : Prop where
  contiguous : ∃ lo, Numbered lo q.entries
  lastId : q.entries ≠ [] → q.lastId = q.entries.getLast?.map Prod.fst
  firstId : q.firstId = q.entries.head?.map Prod.fst
  memoryUsage : q.memoryUsage = (q.entries.map (fun e => e.2.length)).sum

/-- The queue without the acknowledged entries at its front. -/
def trim (q : MemQueue) : MemQueue :=
  match q.lastAckedId with
  | none => q
  | some acked =>
    let entries := q.entries.dropWhile (fun e => decide (e.1 ≤ acked))
    { q with
      entries := entries
      memoryUsage := (entries.map (fun e => e.2.length)).sum
      firstId := entries.head?.map Prod.fst }

theorem sum_split (q : MemQueue) (acked : UintN) : (q.entries.map (fun e => e.2.length)).sum =
    ((q.entries.takeWhile (fun e => decide (e.1 ≤ acked))).map (fun e => e.2.length)).sum +
      ((q.entries.dropWhile (fun e => decide (e.1 ≤ acked))).map (fun e => e.2.length)).sum := by
  rw [← List.sum_append, ← List.map_append, List.takeWhile_append_dropWhile]

variable {q : MemQueue}

/-- A cleanup takes all it may when memory is short, and nothing otherwise. -/
theorem cleanup_eq (represents : q.Represents) :
    q.cleanupUnlocked = if q.memoryUsage ≤ q.maxMemoryUsage then q else q.trim := by
  unfold cleanupUnlocked
  split
  · rfl
  · unfold trim
    cases found : q.lastAckedId with
    | none => rfl
    | some acked =>
      dsimp only
      have total := sum_split q acked
      rw [← represents.memoryUsage] at total
      split
      · rename_i nothing
        rw [List.isEmpty_iff] at nothing
        have whole : q.entries.dropWhile (fun e => decide (e.1 ≤ acked)) = q.entries := by
          conv_rhs => rw [← List.takeWhile_append_dropWhile (p := fun e : Entry => decide (e.1 ≤ acked))
            (l := q.entries), nothing, List.nil_append]
        rw [whole, ← represents.memoryUsage, ← represents.firstId, ← found]
      · rw [drop_takeWhile, total, Nat.add_sub_cancel_left]

theorem cleanup_cases (represents : q.Represents) : q.cleanupUnlocked = q ∨
    ∃ acked, q.lastAckedId = some acked ∧ q.cleanupUnlocked =
      { q with
        entries := q.entries.dropWhile (fun e => decide (e.1 ≤ acked))
        memoryUsage := ((q.entries.dropWhile (fun e => decide (e.1 ≤ acked))).map (fun e => e.2.length)).sum
        firstId := (q.entries.dropWhile (fun e => decide (e.1 ≤ acked))).head?.map Prod.fst } := by
  rw [cleanup_eq represents]
  split
  · exact .inl rfl
  · unfold trim
    cases found : q.lastAckedId with
    | none => exact .inl rfl
    | some acked => exact .inr ⟨acked, rfl, rfl⟩

theorem freed_le (represents : q.Represents) : q.freed ≤ q.memoryUsage := by
  unfold freed
  split
  · exact Nat.zero_le _
  · rename_i acked _
    rw [represents.memoryUsage, sum_split q acked]
    exact Nat.le_add_right _ _

namespace Represents

variable {q : MemQueue}

theorem new (lastId : Option UintN) (maxMemoryUsage : Nat) : (MemQueue.new lastId maxMemoryUsage).Represents :=
  ⟨⟨0, rfl⟩, fun filled => absurd rfl filled, rfl, rfl⟩

theorem trim (represents : q.Represents) : q.trim.Represents := by
  unfold MemQueue.trim
  split
  · exact represents
  · rename_i acked _
    obtain ⟨lo, numbered⟩ := represents.contiguous
    obtain ⟨gone, split⟩ := List.dropWhile_suffix (fun e : Entry => decide (e.1 ≤ acked)) (l := q.entries)
    refine ⟨?_, ?_, rfl, rfl⟩
    · rw [← split] at numbered
      exact ⟨_, (numbered_append.mp numbered).2⟩
    · intro filled
      have before : q.entries ≠ [] := by
        intro empty
        rw [empty] at filled
        exact filled rfl
      have last := represents.lastId before
      rw [← split, List.getLast?_append_of_ne_nil _ filled] at last
      exact last

theorem cleanupUnlocked (represents : q.Represents) : q.cleanupUnlocked.Represents := by
  rw [cleanup_eq represents]
  split
  · exact represents
  · exact represents.trim

theorem number_last (represents : q.Represents) (filled : q.entries ≠ []) {lo : Nat} (numbered : Numbered lo q.entries) :
    q.nextId.toNat = lo + q.entries.length := by
  obtain ⟨last, lastOf, value⟩ := numbered.getLast filled
  rw [nextId, represents.lastId filled, lastOf]
  change last.1.increment.toNat = _
  rw [UintN.toNat_increment, value]

theorem push (represents : q.Represents) {added : List Entry} (numbered : Numbered q.nextId.toNat added)
    (filled : added ≠ []) : (q.push added).Represents where
  contiguous := by
    by_cases empty : q.entries = []
    · refine ⟨q.nextId.toNat, ?_⟩
      change Numbered _ (q.entries ++ added)
      rwa [empty, List.nil_append]
    · obtain ⟨lo, before⟩ := represents.contiguous
      refine ⟨lo, numbered_append.mpr ⟨before, ?_⟩⟩
      rwa [← represents.number_last empty before]
  lastId := by
    intro _
    obtain ⟨last, lastOf, -⟩ := numbered.getLast filled
    change (added.getLast?.map Prod.fst).or q.lastId = (q.entries ++ added).getLast?.map Prod.fst
    rw [List.getLast?_append, lastOf]
    rfl
  firstId := by
    change q.firstId.or (added.head?.map Prod.fst) = (q.entries ++ added).head?.map Prod.fst
    rw [represents.firstId, List.head?_append]
    cases q.entries.head? <;> rfl
  memoryUsage := by
    change q.memoryUsage + _ = ((q.entries ++ added).map _).sum
    rw [represents.memoryUsage, List.map_append, List.sum_append]

end Represents

/-- The acknowledgement is noted, before any cleanup. -/
def mark (q : MemQueue) (id : UintN) : MemQueue :=
  if q.lastAckedId.all (fun last => decide (last < id)) then { q with lastAckedId := some id } else q

theorem ack_eq (q : MemQueue) (id : UintN) : q.ack id = (q.mark id).cleanupUnlocked := rfl

theorem mark_eq (q : MemQueue) (id : UintN) : q.mark id = { q with lastAckedId := (q.mark id).lastAckedId } := by
  unfold mark
  split <;> rfl

theorem Represents.mark (represents : q.Represents) (id : UintN) : (q.mark id).Represents := by
  rw [mark_eq]
  exact ⟨represents.contiguous, represents.lastId, represents.firstId, represents.memoryUsage⟩

section Notifying

variable {q after : MemQueue} {entries : List Entry}

theorem foldl_unsubscribe (q : MemQueue) (ids : List Nat) :
    ids.foldl unsubscribe q = { q with subscribers := q.subscribers.filter (fun s => !ids.contains s.1) } := by
  induction ids generalizing q with
  | nil => simp
  | cons id ids ih =>
    rw [List.foldl_cons, ih]
    simp only [unsubscribe, List.filter_filter]
    congr 2
    funext s
    simp only [List.contains_cons, Bool.not_or, bne]
    exact Bool.and_comm _ _

theorem notifySubscribers_ok (told : q.notifySubscribers entries = .ok after) :
    ∃ subscribers, after = { q with subscribers := subscribers } := by
  obtain ⟨⟨subscribers, failed⟩, -, done⟩ := Outcome.bind_eq_ok.mp told
  cases done
  rw [foldl_unsubscribe]
  exact ⟨_, rfl⟩

/-- The subscribers are called after an append when there were any. -/
def announce (q : MemQueue) : Option (List Entry) → Outcome Unit MemQueue
  | some entries => q.notifySubscribers entries
  | none => .ok q

theorem announce_ok {notification : Option (List Entry)} (told : q.announce notification = .ok after) :
    ∃ subscribers, after = { q with subscribers := subscribers } := by
  cases notification with
  | none =>
    cases told
    exact ⟨q.subscribers, rfl⟩
  | some entries => exact notifySubscribers_ok told

theorem enqueue_announce (q : MemQueue) (data : Bytes) : q.enqueue data =
    (do pure (← (q.append data).1.announce (q.append data).2.2, (q.append data).2.1)) := by
  unfold enqueue
  simp only []
  cases (q.append data).2.2 <;> rfl

theorem enqueueBatch_announce (q : MemQueue) (batch : List Bytes) : q.enqueueBatch batch =
    (do pure (← (q.appendBatch batch).1.announce (q.appendBatch batch).2.2, (q.appendBatch batch).2.1)) := by
  unfold enqueueBatch
  simp only []
  cases (q.appendBatch batch).2.2 <;> rfl

end Notifying

end MemQueue

/-- The calls that change what the queue holds. -/
inductive Update where
  | enqueue (data : Bytes)
  | enqueueBatch (batch : List Bytes)
  | ack (id : UintN)
  deriving DecidableEq

/- Besides, others subscribe and unsubscribe, and receivers take entries or go away. -/
inductive MemCall where
  | update (update : Update)
  | subscribe (subscriber : Subscriber)
  | unsubscribe (subscriberId : Nat)
  | receive (subscriberId : Nat) (room : Option Nat)
  deriving DecidableEq

namespace Update

/-- The queue when its cleanup starts. -/
def uncleaned (q : MemQueue) : Update → MemQueue
  | enqueue data => q.push (MemQueue.numbered q.nextId [data])
  | enqueueBatch batch => q.push (MemQueue.numbered q.nextId batch)
  | ack id => q.mark id

/-- What the caller of an update gets. -/
def apply (q : MemQueue) : Update → Outcome Unit (MemQueue × List UintN)
  | enqueue data => do
    let (q, id) ← q.enqueue data
    pure (q, [id])
  | enqueueBatch batch => q.enqueueBatch batch
  | ack id => .ok (q.ack id, [])

def payloads : Update → List Bytes
  | enqueue data => [data]
  | enqueueBatch batch => batch
  | ack _ => []

def acks : Update → List UintN
  | ack id => [id]
  | _ => []

end Update

structure MemRun where
  queue : MemQueue
  returned : List UintN
  pushed : List Entry
  acked : List UintN

namespace MemRun

def start (lastId : Option UintN) (maxMemoryUsage : Nat) : MemRun :=
  ⟨.new lastId maxMemoryUsage, [], [], []⟩

def update (s : MemRun) (u : Update) : Option MemRun :=
  match u.apply s.queue with
  | .ok (queue, ids) =>
    some ⟨queue, s.returned ++ ids, s.pushed ++ ids.zip u.payloads, s.acked ++ u.acks⟩
  | _ => none

/- `receive` leaves the receiver of a subscription with another room. -/
def step (s : MemRun) : MemCall → Option MemRun
  | .update u => s.update u
  | .subscribe subscriber => some { s with queue := (s.queue.register subscriber).1 }
  | .unsubscribe subscriberId => some { s with queue := s.queue.unsubscribe subscriberId }
  | .receive subscriberId room => some { s with queue := { s.queue with
      subscribers := s.queue.subscribers.map (fun other => if other.1 = subscriberId then
        (other.1, { other.2 with target := { other.2.target with room := room } }) else other) } }

end MemRun
structure Update.Effect (q : MemQueue) (u : Update) (after : MemQueue) (ids : List UintN) : Prop where
  ids : ids = (MemQueue.numbered q.nextId u.payloads).map Prod.fst
  represents : after.Represents
  entries : ∃ gone, gone ++ after.entries = q.entries ++ MemQueue.numbered q.nextId u.payloads ∧
    ∀ e ∈ gone, ∃ acked ∈ after.lastAckedId, e.1 ≤ acked
  lastId : after.lastId = ((MemQueue.numbered q.nextId u.payloads).getLast?.map Prod.fst).or q.lastId
  lastAckedId : after.lastAckedId = (u.uncleaned q).lastAckedId

namespace Update

variable {q after : MemQueue} {ids : List UintN} {u : Update}

theorem represents_uncleaned (represents : q.Represents) (u : Update) : (u.uncleaned q).Represents := by
  have pushed (batch : List Bytes) : (q.push (MemQueue.numbered q.nextId batch)).Represents := by
    cases batch with
    | nil =>
      change (q.push []).Represents
      rwa [MemQueue.push_nil]
    | cons data batch => exact represents.push (numbered_numbered _ _) (List.cons_ne_nil _ _)
  cases u with
  | enqueue data => exact pushed [data]
  | enqueueBatch batch => exact pushed batch
  | ack id => exact represents.mark id

theorem entries_uncleaned (q : MemQueue) (u : Update) :
    (u.uncleaned q).entries = q.entries ++ MemQueue.numbered q.nextId u.payloads ∧
    (u.uncleaned q).lastId = ((MemQueue.numbered q.nextId u.payloads).getLast?.map Prod.fst).or q.lastId := by
  cases u with
  | enqueue data => exact ⟨rfl, rfl⟩
  | enqueueBatch batch => exact ⟨rfl, rfl⟩
  | ack id =>
    change (q.mark id).entries = q.entries ++ [] ∧ (q.mark id).lastId = q.lastId
    rw [MemQueue.mark_eq, List.append_nil]
    exact ⟨rfl, rfl⟩

theorem effect_uncleaned (represents : q.Represents) (u : Update) (subscribers : List (Nat × Subscriber)) :
    Effect q u { u.uncleaned q with subscribers := subscribers }
      ((MemQueue.numbered q.nextId u.payloads).map Prod.fst) where
  ids := rfl
  represents := by
    have kept := represents_uncleaned represents u
    exact ⟨kept.contiguous, kept.lastId, kept.firstId, kept.memoryUsage⟩
  entries := by
    refine ⟨[], (entries_uncleaned q u).1, ?_⟩
    intro e member
    cases member
  lastId := (entries_uncleaned q u).2
  lastAckedId := rfl

theorem effect_cleaned (represents : q.Represents) (u : Update) (subscribers : List (Nat × Subscriber)) :
    Effect q u { (u.uncleaned q).cleanupUnlocked with subscribers := subscribers }
      ((MemQueue.numbered q.nextId u.payloads).map Prod.fst) := by
  have whole := represents_uncleaned represents u
  have kept := whole.cleanupUnlocked
  rcases MemQueue.cleanup_cases whole with same | ⟨acked, found, cleaned⟩
  · rw [same]
    exact effect_uncleaned represents u subscribers
  · obtain ⟨entries, lastId⟩ := entries_uncleaned q u
    refine ⟨rfl, ⟨kept.contiguous, kept.lastId, kept.firstId, kept.memoryUsage⟩, ?_, ?_, ?_⟩
    · refine ⟨(u.uncleaned q).entries.takeWhile (fun e => decide (e.1 ≤ acked)), ?_, ?_⟩
      · rw [cleaned, ← entries]
        exact List.takeWhile_append_dropWhile
      · intro e member
        have below := List.mem_takeWhile_imp member
        refine ⟨acked, ?_, of_decide_eq_true below⟩
        rw [cleaned]
        exact found
    · rw [cleaned]
      exact lastId
    · rw [cleaned]

theorem effect_of_apply (represents : q.Represents) (done : u.apply q = .ok (after, ids)) :
    Effect q u after ids := by
  cases u with
  | enqueue data =>
    obtain ⟨⟨queue, id⟩, called, same⟩ := Outcome.bind_eq_ok.mp done
    cases same
    rw [MemQueue.enqueue_announce, MemQueue.append_eq] at called
    obtain ⟨told, announced, same⟩ := Outcome.bind_eq_ok.mp called
    cases same
    obtain ⟨subscribers, rfl⟩ := MemQueue.announce_ok announced
    exact effect_cleaned represents (.enqueue data) subscribers
  | enqueueBatch batch =>
    change q.enqueueBatch batch = _ at done
    rw [MemQueue.enqueueBatch_announce] at done
    obtain ⟨told, announced, same⟩ := Outcome.bind_eq_ok.mp done
    cases same
    by_cases empty : batch = []
    · subst empty
      cases announced
      have unchanged := effect_uncleaned represents (.enqueueBatch []) q.subscribers
      have same : uncleaned q (.enqueueBatch []) = q := q.push_nil
      rw [same] at unchanged
      exact unchanged
    · rw [MemQueue.appendBatch_eq q empty] at announced ⊢
      obtain ⟨subscribers, rfl⟩ := MemQueue.announce_ok announced
      exact effect_cleaned represents (.enqueueBatch batch) subscribers
  | ack id =>
    cases done
    exact effect_cleaned represents (.ack id) (q.ack id).subscribers

end Update
def numberAfter : Option UintN → Nat
  | none => 0
  | some id => id.toNat + 1

theorem MemQueue.toNat_nextId (q : MemQueue) : q.nextId.toNat = numberAfter q.lastId := by
  unfold nextId numberAfter
  cases q.lastId with
  | none => rfl
  | some last => exact UintN.toNat_increment last

theorem mark_le (q : MemQueue) (id : UintN) :
    (∃ last ∈ (q.mark id).lastAckedId, id ≤ last) ∧
    (∀ acked ∈ q.lastAckedId, ∃ last ∈ (q.mark id).lastAckedId, acked ≤ last) ∧
    ∀ last ∈ (q.mark id).lastAckedId, last = id ∨ last ∈ q.lastAckedId := by
  unfold MemQueue.mark
  split
  · rename_i greater
    refine ⟨⟨id, rfl, (UintN.le_iff _ _).mpr (le_refl _)⟩, ?_, ?_⟩
    · intro acked found
      rw [Option.mem_def] at found
      rw [found, Option.all_some, decide_eq_true_iff, UintN.lt_iff] at greater
      exact ⟨id, rfl, (UintN.le_iff _ _).mpr greater.le⟩
    · rintro last ⟨⟩
      exact .inl rfl
  · rename_i notGreater
    refine ⟨?_, fun acked found => ⟨acked, found, (UintN.le_iff _ _).mpr (le_refl _)⟩, fun last found => .inr found⟩
    cases found : q.lastAckedId with
    | none => simp [found] at notGreater
    | some last =>
      rw [found, Option.all_some, decide_eq_true_iff, UintN.lt_iff] at notGreater
      exact ⟨last, rfl, (UintN.le_iff _ _).mpr (by omega)⟩

structure MemRun.Consistent (lastId : Option UintN) (s : MemRun) : Prop where
  represents : s.queue.Represents
  returned : s.returned.map UintN.toNat = List.range' (numberAfter lastId) s.returned.length
  lastId : s.queue.lastId = s.returned.getLast?.or lastId
  pushed : s.pushed.map Prod.fst = s.returned
  within : s.queue.entries <:+ s.pushed
  removed : ∀ e ∈ s.pushed, e ∈ s.queue.entries ∨ ∃ last ∈ s.queue.lastAckedId, e.1 ≤ last
  acked : ∀ id ∈ s.acked, ∃ last ∈ s.queue.lastAckedId, id ≤ last
  ackedOne : ∀ last ∈ s.queue.lastAckedId, last ∈ s.acked

namespace MemRun.Consistent

variable {lastId : Option UintN} {s after : MemRun}

theorem start (lastId : Option UintN) (maxMemoryUsage : Nat) :
    Consistent lastId (MemRun.start lastId maxMemoryUsage) where
  represents := .new lastId maxMemoryUsage
  returned := rfl
  lastId := rfl
  pushed := rfl
  within := List.suffix_refl _
  removed := by
    intro e member
    cases member
  acked := by
    intro id member
    cases member
  ackedOne := by
    intro last found
    cases found

theorem next (consistent : Consistent lastId s) :
    s.queue.nextId.toNat = numberAfter lastId + s.returned.length := by
  rw [MemQueue.toNat_nextId, consistent.lastId]
  cases found : s.returned.getLast? with
  | none =>
    rw [List.getLast?_eq_none_iff] at found
    rw [found]
    rfl
  | some last =>
    obtain ⟨front, split⟩ := List.getLast?_eq_some_iff.mp found
    have numbers := consistent.returned
    rw [split, List.map_append, List.length_append, List.length_singleton, List.range'_concat] at numbers
    have value := (List.append_inj' numbers rfl).2
    rw [List.map_singleton, List.singleton_inj, Nat.one_mul] at value
    rw [split, List.length_append, List.length_singleton]
    change last.toNat + 1 = _
    omega

theorem acked_grows (q : MemQueue) (u : Update) {last : UintN} (found : last ∈ q.lastAckedId) :
    ∃ later ∈ (u.uncleaned q).lastAckedId, last ≤ later := by
  cases u with
  | enqueue data => exact ⟨last, found, (UintN.le_iff _ _).mpr (le_refl _)⟩
  | enqueueBatch batch => exact ⟨last, found, (UintN.le_iff _ _).mpr (le_refl _)⟩
  | ack id => exact (mark_le q id).2.1 last found

theorem zip_numbered (first : UintN) (batch : List Bytes) :
    ((MemQueue.numbered first batch).map Prod.fst).zip batch = MemQueue.numbered first batch := by
  induction batch generalizing first with
  | nil => rfl
  | cons data batch ih =>
    simp only [MemQueue.numbered, List.map_cons, List.zip_cons_cons, ih]

theorem update (consistent : Consistent lastId s) {u : Update} (done : s.update u = some after) :
    Consistent lastId after := by
  unfold MemRun.update at done
  split at done
  · rename_i queue ids called
    cases done
    have effect := Update.effect_of_apply consistent.represents called
    have added := zip_numbered s.queue.nextId u.payloads
    rw [← effect.ids] at added
    have numbers := numbered_numbered s.queue.nextId u.payloads
    obtain ⟨gone, split, below⟩ := effect.entries
    obtain ⟨before, pushed⟩ := consistent.within
    constructor
    · exact effect.represents
    · have values : ids.map UintN.toNat = List.range' s.queue.nextId.toNat ids.length := by
        rw [effect.ids, List.map_map, List.length_map]
        exact numbers
      rw [List.map_append, values, consistent.returned, consistent.next, List.range'_append_1,
        List.length_append]
    · rw [effect.lastId, consistent.lastId, ← List.getLast?_map, ← effect.ids, List.getLast?_append,
        Option.or_assoc]
    · rw [added, List.map_append, consistent.pushed, effect.ids]
    · rw [added]
      exact ⟨before ++ gone, by rw [List.append_assoc, split, ← List.append_assoc, pushed]⟩
    · have present : ∀ e ∈ s.queue.entries ++ MemQueue.numbered s.queue.nextId u.payloads,
          e ∈ queue.entries ∨ ∃ last ∈ queue.lastAckedId, e.1 ≤ last := by
        intro e member
        rw [← split] at member
        rcases List.mem_append.mp member with left | stays
        · exact .inr (below e left)
        · exact .inl stays
      intro e member
      rw [added] at member
      rcases List.mem_append.mp member with earlier | now
      · rcases consistent.removed e earlier with there | ⟨last, found, le⟩
        · exact present e (List.mem_append_left _ there)
        · obtain ⟨later, marked, grows⟩ := acked_grows s.queue u found
          rw [← effect.lastAckedId] at marked
          rw [UintN.le_iff] at le grows
          exact .inr ⟨later, marked, (UintN.le_iff _ _).mpr (le.trans grows)⟩
      · exact present e (List.mem_append_right _ now)
    · intro id member
      rw [effect.lastAckedId]
      rcases List.mem_append.mp member with earlier | now
      · obtain ⟨last, found, le⟩ := consistent.acked id earlier
        obtain ⟨later, marked, grows⟩ := acked_grows s.queue u found
        rw [UintN.le_iff] at le grows
        exact ⟨later, marked, (UintN.le_iff _ _).mpr (le.trans grows)⟩
      · cases u with
        | enqueue data => cases now
        | enqueueBatch batch => cases now
        | ack given =>
          obtain rfl := List.mem_singleton.mp now
          exact (mark_le s.queue id).1
    · intro last found
      rw [effect.lastAckedId] at found
      cases u with
      | enqueue data => exact List.mem_append_left _ (consistent.ackedOne last found)
      | enqueueBatch batch => exact List.mem_append_left _ (consistent.ackedOne last found)
      | ack given =>
        rcases (mark_le s.queue given).2.2 last found with rfl | before
        · exact List.mem_append_right _ (List.mem_singleton.mpr rfl)
        · exact List.mem_append_left _ (consistent.ackedOne last before)
  · cases done

/-- Whoever listens does not matter to what the queue holds. -/
theorem listeners (consistent : Consistent lastId s) (subscribers : List (Nat × Subscriber)) (nextSubscriberId : Nat) :
    Consistent lastId { s with queue := { s.queue with
      subscribers := subscribers, nextSubscriberId := nextSubscriberId } } :=
  ⟨⟨consistent.represents.contiguous, consistent.represents.lastId, consistent.represents.firstId,
    consistent.represents.memoryUsage⟩, consistent.returned, consistent.lastId, consistent.pushed,
    consistent.within, consistent.removed, consistent.acked, consistent.ackedOne⟩

theorem step (consistent : Consistent lastId s) {call : MemCall} (done : s.step call = some after) :
    Consistent lastId after := by
  cases call with
  | update u => exact consistent.update done
  | subscribe subscriber =>
    cases done
    exact consistent.listeners _ _
  | unsubscribe id =>
    cases done
    exact consistent.listeners _ _
  | receive id room =>
    cases done
    exact consistent.listeners _ _

theorem run (maxMemoryUsage : Nat) {calls : List MemCall} {final : MemRun}
    (ran : Runs.run MemRun.step (.start lastId maxMemoryUsage) calls = some final) : Consistent lastId final :=
  Runs.run_keeps (Consistent lastId) (fun _ _ _ kept done => kept.step done) (.start lastId maxMemoryUsage) ran

end MemRun.Consistent
theorem Update.apply_alone {q : MemQueue} (alone : q.subscribers = []) (u : Update) :
    ∃ after ids, u.apply q = .ok (after, ids) ∧ after.subscribers = [] := by
  have silent : q.subscribers.isEmpty = true := by rw [alone]; rfl
  cases u with
  | enqueue data =>
    refine ⟨(q.push (MemQueue.numbered q.nextId [data])).cleanupUnlocked, [q.nextId], ?_, ?_⟩
    · rw [apply, MemQueue.enqueue_announce, MemQueue.append_eq, if_pos silent]
      rfl
    · rw [MemQueue.subscribers_cleanupUnlocked]
      exact alone
  | enqueueBatch batch =>
    rw [apply, MemQueue.enqueueBatch_announce]
    by_cases empty : batch = []
    · subst empty
      exact ⟨q, [], rfl, alone⟩
    · rw [MemQueue.appendBatch_eq q empty, if_pos silent]
      refine ⟨_, _, rfl, ?_⟩
      rw [MemQueue.subscribers_cleanupUnlocked]
      exact alone
  | ack id =>
    refine ⟨_, _, rfl, ?_⟩
    rw [MemQueue.ack_eq, MemQueue.subscribers_cleanupUnlocked, MemQueue.mark_eq]
    exact alone

theorem MemRun.updates_alone {s : MemRun} (alone : s.queue.subscribers = []) (updates : List Update) :
    ∃ final, Runs.run step s (updates.map .update) = some final := by
  induction updates generalizing s with
  | nil => exact ⟨s, rfl⟩
  | cons u rest ih =>
    obtain ⟨queue, ids, called, silent⟩ := u.apply_alone alone
    obtain ⟨final, ran⟩ := @ih ⟨queue, s.returned ++ ids, s.pushed ++ ids.zip u.payloads, s.acked ++ u.acks⟩ silent
    refine ⟨final, run_cons.mpr ⟨_, ?_, ran⟩⟩
    change s.update u = _
    rw [update, called]

/- Whatever a queue was started with and however it was called, its fields agree: the identifiers are
consecutive, the entries are the last of those that were pushed and only acknowledged ones are gone. No
subtraction of a cleanup goes below zero. -/
theorem queue_fields_agree (lastId : Option UintN) (maxMemoryUsage : Nat) (updates : List Update) :
    ∃ final, Runs.run MemRun.step (.start lastId maxMemoryUsage) (updates.map .update) = some final ∧
      final.Consistent lastId ∧
      ∀ u : Update, (u.uncleaned final.queue).freed ≤ (u.uncleaned final.queue).memoryUsage := by
  obtain ⟨final, ran⟩ := MemRun.updates_alone (s := .start lastId maxMemoryUsage) rfl updates
  have consistent := MemRun.Consistent.run maxMemoryUsage ran
  exact ⟨final, ran, consistent,
    fun u => MemQueue.freed_le (Update.represents_uncleaned consistent.represents u)⟩

end NormFS
