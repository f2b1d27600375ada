import NormFS.Instance
import NormFS.Mem.Subscription

/-! What a failed enqueue leaves behind. Memory numbers the entry, keeps it and tells the subscribers
before the writer is asked, and nothing takes that back. -/
namespace NormFS

open Runs

namespace MemQueue

variable {q q' : MemQueue}

theorem lastId_notifySubscribers {entries : List Entry}
    (done : q.notifySubscribers entries = .ok q') : q'.lastId = q.lastId := by
  obtain ⟨⟨subscribers, toRemove⟩, -, made⟩ := Outcome.bind_eq_ok.mp done
  cases made
  have kept : ∀ (failed : List Nat) (q : MemQueue), (failed.foldl unsubscribe q).lastId = q.lastId := by
    intro failed
    induction failed with
    | nil => intro q; rfl
    | cons id rest ih => intro q; exact ih _
  exact kept toRemove _

theorem lastId_enqueue {data : Bytes} {id : UintN} (done : q.enqueue data = .ok (q', id)) :
    q'.lastId = some q.nextId := by
  have appended : (q.append data).1.lastId = some q.nextId := by simp [append]
  unfold enqueue at done
  split at done
  rename_i q₁ id₁ notification split
  rw [split] at appended
  split at done
  · obtain ⟨q₂, notified, made⟩ := Outcome.bind_eq_ok.mp done
    cases made
    rw [lastId_notifySubscribers notified]
    exact appended
  · cases done
    exact appended

theorem lastId_enqueueBatch {batch : List Bytes} {ids : List UintN} (some : batch.isEmpty = false)
    (done : q.enqueueBatch batch = .ok (q', ids)) :
    q'.lastId = (numbered q.nextId batch).getLast?.map Prod.fst := by
  have appended : (q.appendBatch batch).1.lastId = (numbered q.nextId batch).getLast?.map Prod.fst := by
    simp [appendBatch, some]
  unfold enqueueBatch at done
  split at done
  rename_i q₁ id₁ notification split
  rw [split] at appended
  split at done
  · obtain ⟨q₂, notified, made⟩ := Outcome.bind_eq_ok.mp done
    cases made
    rw [lastId_notifySubscribers notified]
    exact appended
  · cases done
    exact appended

theorem lastId_ne_of_new {id : UintN} (last : q'.lastId = some id)
    (new : q.nextId.toNat ≤ id.toNat) : q'.lastId ≠ q.lastId := by
  rw [last]
  intro same
  have next : q.nextId = id.increment := by rw [nextId, ← same]
  rw [next, UintN.toNat_increment] at new
  omega

end MemQueue

/-- The queue in memory is as it was, and nobody was told anything. -/
def Instance.Untouched (s next : Instance) (queue : QueueId) : Prop :=
  ∃ q q', s.mem.queues queue = some q ∧ next.mem.queues queue = some q' ∧
    q'.entries = q.entries ∧ q'.firstId = q.firstId ∧ q'.lastId = q.lastId ∧ q'.memoryUsage = q.memoryUsage ∧
    q'.subscribers = q.subscribers

namespace Instance

theorem send_ok_iff (s : Instance) (queue : QueueId) (request : WriteRequest) :
    (∃ e, (s.send queue request).2 = .error e) ↔ s.listens queue = false := by
  unfold send listens
  cases s.writers queue with
  | none => simp
  | some writer => cases heard : writer.listening <;> simp [heard]

section

variable {q q' : MemQueue} {queue : QueueId} {s next : Instance} (known : s.mem.queues queue = some q)

include known

/-- Once memory has moved on, a refused request leaves it there. -/
theorem touched {request : WriteRequest} (changed : q'.lastId ≠ q.lastId)
    (sent : next = ({ s with mem := s.mem.put queue q' }.send queue request).1) : ¬ s.Untouched next queue := by
  rintro ⟨old, new, before, after, -, -, same, -, -⟩
  have memory := (send_view { s with mem := s.mem.put queue q' } queue request).2.2.1
  rw [sent, memory] at after
  cases known.symm.trans before
  have put : (s.mem.put queue q').queues queue = some q' := by simp [MemStore.put]
  cases put.symm.trans after
  exact changed same

/- A call that returns leaves no trace in case of an error exactly if it cannot end in an error. -/
theorem traceless_iff {request : WriteRequest} {α : Type}
    {answer : α} {result : Except WalError α}
    (changed : q'.lastId ≠ q.lastId)
    (sent : next = ({ s with mem := s.mem.put queue q' }.send queue request).1)
    (told : result = ({ s with mem := s.mem.put queue q' }.send queue request).2.map (fun _ => answer)) :
    (∀ e, result = .error e → s.Untouched next queue) ↔ s.listens queue = true := by
  have refused := send_ok_iff { s with mem := s.mem.put queue q' } queue request
  constructor
  · intro traceless
    by_contra deaf
    obtain ⟨e, failed⟩ := refused.mpr (Bool.eq_false_iff.mpr deaf)
    rw [failed] at told
    exact touched known changed sent (traceless e told)
  · intro heard e failed
    cases outcome : ({ s with mem := s.mem.put queue q' }.send queue request).2 with
    | ok =>
      rw [outcome, failed] at told
      cases told
    | error e' =>
      have deaf := refused.mp ⟨e', outcome⟩
      cases deaf.symm.trans heard

end

end Instance

/- An enqueue of a started queue leaves a trace when it fails, and it fails when the queue has no writer
that takes requests. -/
theorem failed_enqueue_traceless_iff (s : Instance) (queue : QueueId) :
    (∀ data next result, s.enqueue queue data = .ok (next, result) →
      ((∀ e, result = .error e → s.Untouched next queue) ↔ s.listens queue = true)) ∧
    ∀ data next result, s.enqueueBatch queue data = .ok (next, result) →
      ((∀ e, result = .error e → s.Untouched next queue) ↔ s.listens queue = true ∨ data = []) := by
  refine ⟨?_, ?_⟩
  · intro data next result done
    obtain ⟨q, q', id, known, added, sent, told⟩ := Instance.enqueue_ok done
    exact Instance.traceless_iff known
      (MemQueue.lastId_ne_of_new (MemQueue.lastId_enqueue added) (Nat.le_refl _)) sent told
  · intro data next result done
    cases empty : data.isEmpty with
    | true =>
      rw [Instance.enqueueBatch, if_pos empty] at done
      cases done
      rw [List.isEmpty_iff] at empty
      constructor
      · intro _
        exact .inr empty
      · rintro _ e ⟨⟩
    | false =>
      obtain ⟨q, q', ids, known, added, sent, told⟩ := Instance.enqueueBatch_ok empty done
      have nonempty : data ≠ [] := by
        rintro rfl
        cases empty
      have some : MemQueue.numbered q.nextId data ≠ [] := by
        rw [← List.length_pos_iff, length_numbered]
        exact List.length_pos_iff.mpr nonempty
      obtain ⟨e, last, value⟩ := (numbered_numbered q.nextId data).getLast some
      have lastId := MemQueue.lastId_enqueueBatch empty added
      rw [last] at lastId
      have length := List.length_pos_iff.mpr some
      have changed : q'.lastId ≠ q.lastId := MemQueue.lastId_ne_of_new lastId (by omega)
      rw [Instance.traceless_iff known changed sent told]
      exact (or_iff_left nonempty).symm

namespace Sample

/- The queue is started for a read request, without a writer. -/
def startedForRead : List StartEvent :=
  [.call queue true, .step 0, .step 0, .step 0, .step 0, .recovered 0 (.ok .fresh), .step 0, .monitored 0 true]

/- Then an enqueue fails, the queue is started for writing and another enqueue succeeds. -/
def failedThenWritten : List StartEvent :=
  startedForRead ++ [.enqueue queue .empty, .call queue false, .step 1, .step 1, .step 1, .step 1,
    .recovered 1 (.ok .fresh), .opened 1 true, .step 1, .step 1, .monitored 1 true, .enqueue queue .empty]

def startedForWrite : List StartEvent :=
  [.call queue false, .step 0, .step 0, .step 0, .step 0, .step 0, .recovered 0 (.ok .fresh), .opened 0 true,
    .step 0, .step 0, .monitored 0 true]

end Sample

/- The failed enqueue has taken number 0; the next one gets number 1, which the writer keeps back for
good, since number 0 never comes. -/
theorem failed_enqueue_stalls_writer :
    (∃ s next, Runs.run Startup.step (Startup.new 100) Sample.startedForRead = some s ∧
      s.fs.enqueue Sample.queue .empty = .ok (next, .error .writerNotFound) ∧
      (s.fs.mem.queues Sample.queue).map MemQueue.lastId = some none ∧
      (next.mem.queues Sample.queue).map MemQueue.lastId = some (some .zero)) ∧
    ∃ s writer, Runs.run Startup.step (Startup.new 100) Sample.failedThenWritten = some s ∧
      s.fs.writers Sample.queue = some writer ∧
      ((WriterState.new writer.start.fileId writer.start.header 1000 writer.start.lastEntryId).serve (fun _ => 0)
        .insertion writer.requests).1.buffer.pending = [(.one, .empty)] := by
  have first : (Runs.run Startup.step (Startup.new 100) Sample.startedForRead).any (fun s =>
      (s.fs.enqueue Sample.queue .empty).any (fun answer => decide (answer.2 = .error .writerNotFound ∧
        (s.fs.mem.queues Sample.queue).map MemQueue.lastId = some none ∧
        (answer.1.mem.queues Sample.queue).map MemQueue.lastId = some (some .zero)))) = true := by
    decide +kernel
  have second : (Runs.run Startup.step (Startup.new 100) Sample.failedThenWritten).any (fun s =>
      (s.fs.writers Sample.queue).any (fun writer =>
        decide (((WriterState.new writer.start.fileId writer.start.header 1000 writer.start.lastEntryId).serve
          (fun _ => 0) .insertion writer.requests).1.buffer.pending = [(.one, .empty)]))) = true := by
    decide +kernel
  refine ⟨?_, ?_⟩
  · obtain ⟨s, ran, facts⟩ := (Option.any_eq_true _ _).mp first
    obtain ⟨⟨next, result⟩, failed, facts⟩ := Outcome.any_eq_true.mp facts
    obtain ⟨rfl, before, after⟩ := of_decide_eq_true facts
    exact ⟨s, next, ran, failed, before, after⟩
  · obtain ⟨s, ran, facts⟩ := (Option.any_eq_true _ _).mp second
    obtain ⟨writer, known, waits⟩ := (Option.any_eq_true _ _).mp facts
    exact ⟨s, writer, ran, known, of_decide_eq_true waits⟩

/-- With a writer in place the condition holds, and the call succeeds. -/
theorem failed_enqueue_traceless_started : ∃ s next result,
    Runs.run Startup.step (Startup.new 100) Sample.startedForWrite = some s ∧
    s.fs.enqueue Sample.queue .empty = .ok (next, result) ∧ s.fs.listens Sample.queue = true ∧
    ∀ e, result = .error e → s.fs.Untouched next Sample.queue := by
  have evaluated : (Runs.run Startup.step (Startup.new 100) Sample.startedForWrite).any (fun s =>
      s.fs.listens Sample.queue && (s.fs.enqueue Sample.queue .empty).any (fun _ => true)) = true := by
    decide +kernel
  obtain ⟨s, ran, facts⟩ := (Option.any_eq_true _ _).mp evaluated
  obtain ⟨heard, returned⟩ := Bool.and_eq_true_iff.mp facts
  obtain ⟨⟨next, result⟩, done, -⟩ := Outcome.any_eq_true.mp returned
  exact ⟨s, next, result, ran, done, heard,
    ((failed_enqueue_traceless_iff s.fs Sample.queue).1 _ _ _ done).mpr heard⟩

end NormFS
