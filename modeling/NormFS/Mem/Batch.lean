import Mathlib.Data.List.DropRight
import NormFS.Mem.Calls

/-! A batch against its elements one by one. The batch is cleaned up once and announced once; the
elements are cleaned up and announced each. As long as no new entry is acknowledged before it is there,
both leave the same queue and the same subscriptions. -/
namespace NormFS

open Runs

namespace MemQueue

def Unacked (q : MemQueue) (entries : List Entry) : Prop :=
  ∀ acked ∈ q.lastAckedId, ∀ e ∈ entries, acked.toNat < e.1.toNat

section Trimming

variable {q : MemQueue} {added : List Entry}

theorem dropWhile_unacked {acked : UintN} (later : ∀ e ∈ added, acked.toNat < e.1.toNat) (entries : List Entry) :
    (entries ++ added).dropWhile (fun e => decide (e.1 ≤ acked)) =
      entries.dropWhile (fun e => decide (e.1 ≤ acked)) ++ added := by
  induction entries with
  | nil =>
    cases added with
    | nil => rfl
    | cons e added =>
      have above : ¬ e.1 ≤ acked := by
        rw [UintN.le_iff]
        have := later e List.mem_cons_self
        omega
      simp [above]
  | cons e entries ih =>
    rw [List.cons_append, List.dropWhile_cons, List.dropWhile_cons, ih]
    split <;> rfl

/-- What is not acknowledged yet can be added before or after the others are taken. -/
theorem trim_push (unacked : q.Unacked added) : (q.push added).trim = q.trim.push added := by
  unfold trim
  cases found : q.lastAckedId with
  | none =>
    have same : (q.push added).lastAckedId = none := found
    rw [same]
  | some acked =>
    have same : (q.push added).lastAckedId = some acked := found
    rw [same]
    have entries := dropWhile_unacked (unacked acked found) q.entries
    have first : ((q.entries.dropWhile (fun e => decide (e.1 ≤ acked)) ++ added).head?.map Prod.fst) =
        ((q.entries.dropWhile (fun e => decide (e.1 ≤ acked))).head?.map Prod.fst).or
          (added.head?.map Prod.fst) := by
      rw [List.head?_append]
      cases (q.entries.dropWhile (fun e => decide (e.1 ≤ acked))).head? <;> rfl
    simp only [push, entries, first, List.map_append, List.sum_append]

theorem trim_trim (q : MemQueue) : q.trim.trim = q.trim := by
  unfold trim
  cases found : q.lastAckedId with
  | none => simp [found]
  | some acked => simp only [List.dropWhile_idempotent]

theorem lastAckedId_trim (q : MemQueue) : q.trim.lastAckedId = q.lastAckedId := by
  unfold trim
  cases found : q.lastAckedId with
  | none => exact found
  | some acked => rfl

/-- Cleaning up between two pushes makes no difference at the end. -/
theorem cleanup_push_push {one other : List Entry} (unacked : q.Unacked (one ++ other))
    (first : (q.push one).Represents) (both : (q.push (one ++ other)).Represents) :
    ((q.push one).cleanupUnlocked.push other).cleanupUnlocked = (q.push (one ++ other)).cleanupUnlocked := by
  have unackedOne : q.Unacked one := fun acked found e member =>
    unacked acked found e (List.mem_append_left _ member)
  have unackedTrim : q.trim.Unacked (one ++ other) := by
    intro acked found
    rw [lastAckedId_trim] at found
    exact unacked acked found
  have used : (q.push (one ++ other)).memoryUsage =
      (q.push one).memoryUsage + (other.map (fun e => e.2.length)).sum := by
    rw [← push_push]
    rfl
  rw [cleanup_eq first, cleanup_eq both]
  split
  · rw [push_push, cleanup_eq both]
  · -- what goes now would have gone at the end, and nothing more goes then
    rename_i short
    have shorter : ¬ (q.push (one ++ other)).memoryUsage ≤ (q.push (one ++ other)).maxMemoryUsage := by
      change ¬ (q.push (one ++ other)).memoryUsage ≤ (q.push one).maxMemoryUsage
      omega
    have trimmed := both.trim
    rw [if_neg shorter, trim_push unackedOne, push_push]
    rw [trim_push unacked] at trimmed ⊢
    rw [cleanup_eq trimmed]
    split
    · rfl
    · rw [trim_push unackedTrim, trim_trim]

end Trimming

end MemQueue

section Calling

theorem inStep_errorless (id fromId : UintN) (step : Nat) :
    (id.inStep fromId step : Outcome Unit Bool).Errorless := by
  have rem (a b : UintN) : (a.rem b : Outcome Unit UintN).Errorless := by
    intro e
    unfold UintN.rem
    split
    · rintro ⟨⟩
    · split <;> rintro ⟨⟩
  unfold UintN.inStep
  split
  · exact Outcome.errorless_ok _
  · split
    · exact Outcome.errorless_ok _
    · exact (rem _ _).bind (fun r => Outcome.errorless_ok _)

theorem Subscriber.call_errorless (sub : Subscriber) (entries : List Entry) : (sub.call entries).Errorless := by
  induction entries generalizing sub with
  | nil => exact Outcome.errorless_ok _
  | cons first entries ih =>
    unfold Subscriber.call
    split
    · exact ih sub
    · apply (inStep_errorless _ _ _).bind
      intro wants
      split
      · split
        · exact ih _
        · exact Outcome.errorless_ok _
      · exact ih sub

theorem Subscriber.call_append (sub : Subscriber) (one other : List Entry) :
    sub.call (one ++ other) = (sub.call one >>= fun result =>
      if result.2 then result.1.call other else .ok (result.1, false)) := by
  induction one generalizing sub with
  | nil => rfl
  | cons first one ih =>
    obtain ⟨id, data⟩ := first
    simp only [List.cons_append, Subscriber.call]
    split
    · exact ih sub
    · cases (id.inStep sub.fromId sub.step : Outcome Unit Bool) with
      | err e => rfl
      | panic => rfl
      | ok wants =>
        simp only [Outcome.ok_bind]
        split
        · split
          · exact ih _
          · rfl
        · exact ih sub

end Calling

namespace MemQueue

/-- The subscriptions that are left when all have been called. -/
def served (entries : List Entry) : List (Nat × Subscriber) → Outcome Unit (List (Nat × Subscriber))
  | [] => .ok []
  | (id, sub) :: rest => do
    let (sub, kept) ← sub.call entries
    let rest ← served entries rest
    pure (if kept then (id, sub) :: rest else rest)

theorem served_errorless (entries : List Entry) (subs : List (Nat × Subscriber)) :
    (served entries subs).Errorless := by
  induction subs with
  | nil => exact Outcome.errorless_ok _
  | cons first subs ih =>
    apply (first.2.call_errorless entries).bind
    intro result
    apply ih.bind
    intro rest
    exact Outcome.errorless_ok _

theorem served_nil (subs : List (Nat × Subscriber)) : served [] subs = .ok subs := by
  induction subs with
  | nil => rfl
  | cons first subs ih =>
    rw [served, ih]
    rfl

theorem served_append (one other : List Entry) (subs : List (Nat × Subscriber)) :
    served (one ++ other) subs = (served one subs >>= served other) := by
  induction subs with
  | nil => rfl
  | cons first subs ih =>
    obtain ⟨id, sub⟩ := first
    rw [served, served, ih, sub.call_append]
    cases called : sub.call one with
    | err e => rfl
    | panic => rfl
    | ok result =>
      obtain ⟨sub', kept⟩ := result
      simp only [Outcome.ok_bind]
      cases later : served one subs with
      | err e => exact absurd later (served_errorless one subs e)
      | panic =>
        cases kept with
        | false => rfl
        | true =>
          simp only [if_true, Outcome.panic_bind]
          cases again : sub'.call other with
          | err e => exact absurd again (sub'.call_errorless other e)
          | panic => rfl
          | ok result => rfl
      | ok rest =>
        cases kept with
        | false =>
          simp only [Bool.false_eq_true, if_false, Outcome.pure_eq_ok, Outcome.ok_bind]
          cases served other rest <;> rfl
        | true => rfl

variable {subs : List (Nat × Subscriber)} {q : MemQueue}

theorem mem_keys_served {entries : List Entry} {after : List (Nat × Subscriber)}
    (called : served entries subs = .ok after) : (after.map Prod.fst).Sublist (subs.map Prod.fst) := by
  induction subs generalizing after with
  | nil =>
    cases called
    exact List.Sublist.refl _
  | cons first subs ih =>
    obtain ⟨⟨sub', kept⟩, -, rest⟩ := Outcome.bind_eq_ok.mp called
    obtain ⟨later, served', same⟩ := Outcome.bind_eq_ok.mp rest
    cases same
    have within := ih served'
    split
    · exact within.cons_cons first.1
    · exact within.cons first.1

/-- Failed subscriptions are removed by their numbers, which are all different. -/
theorem filter_called (entries : List Entry) (keys : (subs.map Prod.fst).Nodup) :
    (callSubscribers entries subs >>= fun result =>
      .ok (result.1.filter (fun other => !result.2.contains other.1))) = served entries subs := by
  induction subs with
  | nil => rfl
  | cons first subs ih =>
    obtain ⟨id, sub⟩ := first
    obtain ⟨fresh, keys⟩ := List.nodup_cons.mp keys
    have rest := ih keys
    rw [callSubscribers, served, ← rest]
    cases sub.call entries with
    | err e => rfl
    | panic => rfl
    | ok result =>
      obtain ⟨after, kept⟩ := result
      cases called : callSubscribers entries subs with
      | err e => rfl
      | panic => rfl
      | ok later =>
        obtain ⟨later, failed⟩ := later
        obtain ⟨same, -, named⟩ := callSubscribers_mem called
        have unnamed : failed.contains id = false := by
          rw [Bool.eq_false_iff]
          intro member
          obtain ⟨other, -, among, -⟩ := named id (List.contains_iff_mem.mp member)
          exact fresh (List.mem_map.mpr ⟨_, among, rfl⟩)
        simp only [Outcome.ok_bind, Outcome.pure_eq_ok]
        cases kept with
        | true =>
          rw [if_pos rfl, if_pos rfl, List.filter_cons_of_pos (by simpa using unnamed)]
        | false =>
          have others : later.filter (fun other => !(id :: failed).contains other.1) =
              later.filter (fun other => !failed.contains other.1) := by
            apply List.filter_congr
            intro other member
            have apart : (other.1 == id) = false := by
              rw [beq_eq_false_iff_ne]
              rintro rfl
              rw [← same] at fresh
              exact fresh (List.mem_map.mpr ⟨_, member, rfl⟩)
            rw [List.contains_cons, apart, Bool.false_or]
          rw [if_neg Bool.false_ne_true, if_neg Bool.false_ne_true, List.filter_cons_of_neg (by simp), others]

theorem announce_eq (keys : (subs.map Prod.fst).Nodup)
    (here : q.subscribers = subs) (entries : List Entry) :
    q.announce (if subs.isEmpty then none else some entries) =
      (served entries subs >>= fun subs => .ok { q with subscribers := subs }) := by
  subst here
  cases nobody : q.subscribers.isEmpty with
  | true =>
    have alone := List.isEmpty_iff.mp nobody
    have same : { q with subscribers := [] } = q := by rw [← alone]
    rw [if_pos rfl, alone]
    exact congrArg Outcome.ok same.symm
  | false =>
    rw [if_neg Bool.false_ne_true, ← filter_called entries keys]
    change q.notifySubscribers entries = _
    unfold notifySubscribers
    cases callSubscribers entries q.subscribers with
    | err e => rfl
    | panic => rfl
    | ok result =>
      simp only [Outcome.ok_bind, Outcome.pure_eq_ok]
      rw [foldl_unsubscribe]

theorem cleanup_listeners (q : MemQueue) (subs : List (Nat × Subscriber)) :
    { q with subscribers := subs }.cleanupUnlocked = { q.cleanupUnlocked with subscribers := subs } := by
  obtain ⟨entries, lastId, firstId, lastAckedId, memoryUsage, maxMemoryUsage, subscribers, next⟩ := q
  unfold cleanupUnlocked
  dsimp only
  split
  · rfl
  · cases lastAckedId with
    | none => rfl
    | some acked =>
      dsimp only
      split <;> rfl

theorem enqueueBatch_eq (keys : (q.subscribers.map Prod.fst).Nodup) {batch : List Bytes}
    (filled : batch ≠ []) : q.enqueueBatch batch =
      (served (numbered q.nextId batch) q.subscribers >>= fun subs =>
        .ok ({ (q.push (numbered q.nextId batch)).cleanupUnlocked with subscribers := subs },
          (numbered q.nextId batch).map Prod.fst)) := by
  have here := subscribers_cleanupUnlocked (q.push (numbered q.nextId batch))
  rw [enqueueBatch_announce, appendBatch_eq q filled]
  simp only []
  rw [announce_eq keys here]
  cases served (numbered q.nextId batch) q.subscribers <;> rfl

theorem enqueue_eq (keys : (q.subscribers.map Prod.fst).Nodup) (data : Bytes) :
    q.enqueue data = (served (numbered q.nextId [data]) q.subscribers >>= fun subs =>
      .ok ({ (q.push (numbered q.nextId [data])).cleanupUnlocked with subscribers := subs }, q.nextId)) := by
  have here := subscribers_cleanupUnlocked (q.push (numbered q.nextId [data]))
  rw [enqueue_announce, append_eq]
  simp only []
  rw [announce_eq keys here]
  cases served (numbered q.nextId [data]) q.subscribers <;> rfl

structure Ready (q : MemQueue) : Prop where
  represents : q.Represents
  keys : (q.subscribers.map Prod.fst).Nodup
  acked : ∀ acked ∈ q.lastAckedId, acked.toNat < q.nextId.toNat

theorem enqueueBatch_cons (ready : q.Ready) (data : Bytes) (batch : List Bytes) :
    q.enqueueBatch (data :: batch) = (q.enqueue data >>= fun one =>
      one.1.enqueueBatch batch >>= fun others => .ok (others.1, one.2 :: others.2)) := by
  have numbers := numbered_numbered q.nextId (data :: batch)
  have first := ready.represents.push (numbered_numbered q.nextId [data]) (List.cons_ne_nil _ _)
  have both := ready.represents.push numbers (List.cons_ne_nil _ _)
  have unacked : q.Unacked (numbered q.nextId (data :: batch)) := by
    intro acked found e member
    exact (ready.acked acked found).trans_le (numbers.mem member).1
  have split : numbered q.nextId (data :: batch) =
      numbered q.nextId [data] ++ numbered q.nextId.increment batch := rfl
  rw [enqueueBatch_eq ready.keys (List.cons_ne_nil _ _), enqueue_eq ready.keys, split, served_append]
  rw [split] at both unacked
  cases called : served (numbered q.nextId [data]) q.subscribers with
  | err e => rfl
  | panic => rfl
  | ok subs =>
    simp only [Outcome.ok_bind]
    cases batch with
    | nil =>
      rw [numbered, served_nil, List.append_nil]
      rfl
    | cons next batch =>
      have keys := ready.keys.sublist (mem_keys_served called)
      have nextId : MemQueue.nextId { (q.push (numbered q.nextId [data])).cleanupUnlocked with
          subscribers := subs } = q.nextId.increment := by
        unfold MemQueue.nextId
        simp only [lastId_cleanupUnlocked]
        rfl
      have queue : (MemQueue.push { (q.push (numbered q.nextId [data])).cleanupUnlocked with
          subscribers := subs } (numbered q.nextId.increment (next :: batch))).cleanupUnlocked =
          { (q.push (numbered q.nextId [data] ++ numbered q.nextId.increment (next :: batch))).cleanupUnlocked with
            subscribers := subs } := by
        rw [← cleanup_push_push unacked first both]
        exact cleanup_listeners ((q.push (numbered q.nextId [data])).cleanupUnlocked.push _) subs
      rw [enqueueBatch_eq keys (List.cons_ne_nil _ _), nextId, queue]
      cases served (numbered q.nextId.increment (next :: batch)) subs <;> rfl

def enqueueEach (q : MemQueue) : List Bytes → Outcome Unit (MemQueue × List UintN)
  | [] => .ok (q, [])
  | data :: rest => do
    let (q, id) ← q.enqueue data
    let (q, ids) ← q.enqueueEach rest
    pure (q, id :: ids)

theorem Ready.enqueue {after : MemQueue} (ready : q.Ready) {data : Bytes} {id : UintN}
    (done : q.enqueue data = .ok (after, id)) : after.Ready := by
  have effect := Update.effect_of_apply (u := .enqueue data) ready.represents (by
    change (q.enqueue data >>= _) = _
    rw [done]
    rfl)
  rw [enqueue_eq ready.keys] at done
  obtain ⟨subs, called, same⟩ := Outcome.bind_eq_ok.mp done
  refine ⟨effect.represents, ?_, ?_⟩
  · cases same
    exact ready.keys.sublist (mem_keys_served called)
  · intro acked found
    rw [effect.lastAckedId] at found
    have before := ready.acked acked found
    rw [toNat_nextId, effect.lastId]
    change acked.toNat < q.nextId.toNat + 1
    omega

theorem enqueueBatch_eq_each (ready : q.Ready) (batch : List Bytes) :
    q.enqueueBatch batch = q.enqueueEach batch := by
  induction batch generalizing q with
  | nil => rfl
  | cons data batch ih =>
    rw [enqueueBatch_cons ready, enqueueEach]
    cases done : q.enqueue data with
    | err e => rfl
    | panic => rfl
    | ok one =>
      have later := ih (ready.enqueue done)
      simp only [Outcome.ok_bind, later]
      rfl

end MemQueue

namespace MemQueue.Keyed

variable {q after : MemQueue}

theorem apply (keyed : q.Keyed) {u : Update} {ids : List UintN} (done : u.apply q = .ok (after, ids)) :
    after.Keyed := by
  cases u with
  | enqueue data =>
    obtain ⟨one, called, same⟩ := Outcome.bind_eq_ok.mp done
    rw [enqueue_eq keyed.keys] at called
    obtain ⟨subs, served, made⟩ := Outcome.bind_eq_ok.mp called
    cases made
    cases same
    exact keyed.fewer (mem_keys_served served) (nextSubscriberId_cleanupUnlocked _)
  | enqueueBatch batch =>
    change q.enqueueBatch batch = _ at done
    by_cases empty : batch = []
    · subst empty
      cases done
      exact keyed
    · rw [enqueueBatch_eq keyed.keys empty] at done
      obtain ⟨subs, served, made⟩ := Outcome.bind_eq_ok.mp done
      cases made
      exact keyed.fewer (mem_keys_served served) (nextSubscriberId_cleanupUnlocked _)
  | ack id =>
    cases done
    apply keyed.fewer
    · rw [ack_eq, subscribers_cleanupUnlocked, mark_eq]
    · rw [ack_eq, nextSubscriberId_cleanupUnlocked, mark_eq]

theorem step {s next : MemRun} (keyed : s.queue.Keyed) {call : MemCall} (done : s.step call = some next) :
    next.queue.Keyed := by
  cases call with
  | update u =>
    change s.update u = _ at done
    unfold MemRun.update at done
    split at done
    · rename_i called
      cases done
      exact keyed.apply called
    · cases done
  | subscribe subscriber =>
    cases done
    exact keyed.register subscriber
  | unsubscribe id =>
    cases done
    exact keyed.fewer (List.filter_sublist.map Prod.fst) rfl
  | receive id room =>
    cases done
    apply keyed.fewer
    · change (List.map _ (s.queue.subscribers.map _)).Sublist _
      have same (other : Nat × Subscriber) : (if other.1 = id then
          (other.1, { other.2 with target := { other.2.target with room := room } }) else other).1 = other.1 := by
        split <;> rfl
      simp only [List.map_map, Function.comp_def, same]
      exact List.Sublist.refl _
    · rfl

end MemQueue.Keyed

/- In every state a queue can get to, with nothing acknowledged that was not enqueued, a batch and its
elements one by one leave the same queue, return the same identifiers and hand the same entries to the
same subscriptions. -/
theorem batch_eq_singles {lastId : Option UintN} {maxMemoryUsage : Nat} {calls : List MemCall} {s : MemRun}
    (reached : Runs.run MemRun.step (.start lastId maxMemoryUsage) calls = some s)
    (acked : ∀ acked ∈ s.queue.lastAckedId, ∃ last ∈ s.queue.lastId, acked ≤ last) (batch : List Bytes) :
    s.queue.enqueueBatch batch = s.queue.enqueueEach batch := by
  have consistent := MemRun.Consistent.run maxMemoryUsage reached
  have keyed : s.queue.Keyed := Runs.run_keeps (fun s => s.queue.Keyed) (fun _ _ _ keyed done => keyed.step done)
    ⟨List.nodup_nil, by rintro id ⟨⟩⟩ reached
  refine MemQueue.enqueueBatch_eq_each ⟨consistent.represents, keyed.keys, ?_⟩ batch
  intro id found
  obtain ⟨last, known, le⟩ := acked id found
  rw [UintN.le_iff] at le
  rw [Option.mem_def] at known
  rw [MemQueue.toNat_nextId, known]
  change id.toNat < last.toNat + 1
  omega

theorem length_payloadByte (b : UInt8) : [b].length < 2 ^ 63 := by
  rw [List.length_singleton]
  decide

def payloadByte (b : UInt8) : Bytes := ⟨[b], length_payloadByte b⟩

theorem batch_eq_singles_short_of_memory : ∃ s, Runs.run MemRun.step (.start none 2)
    [.subscribe ⟨.zero, 1, none, .staying []⟩, .update (.enqueueBatch [payloadByte 1, payloadByte 2]),
      .update (.ack .zero)] = some s ∧
    s.queue.enqueueBatch [payloadByte 3, payloadByte 4] =
      s.queue.enqueueEach [payloadByte 3, payloadByte 4] := by
  have ran : (Runs.run MemRun.step (.start none 2)
      [.subscribe ⟨.zero, 1, none, .staying []⟩, .update (.enqueueBatch [payloadByte 1, payloadByte 2]),
        .update (.ack .zero)]).any (fun s => s.queue.lastAckedId.all (fun acked =>
          s.queue.lastId.any (fun last => decide (acked ≤ last)))) = true := by decide +kernel
  obtain ⟨s, reached, acked⟩ := (Option.any_eq_true _ _).mp ran
  refine ⟨s, reached, batch_eq_singles reached ?_ _⟩
  intro id found
  rw [Option.mem_def] at found
  rw [found, Option.all_some] at acked
  obtain ⟨last, known, le⟩ := (Option.any_eq_true _ _).mp acked
  exact ⟨last, known, of_decide_eq_true le⟩

end NormFS
