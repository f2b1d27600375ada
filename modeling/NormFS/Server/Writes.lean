import Mathlib.Data.List.Flatten
import NormFS.Server.Tasks

/-! The writes of a server. Whatever the interleaving of its tasks, no write makes another one fail, every
write that comes to its end has sent one response, and a response that says it is done names the numbers
under which its packets stand in the log of the queue and have been given to the writer. -/
namespace NormFS

open Runs

namespace Server

variable {batches : List Batch} {e : Entry} {queue : QueueId} {s : State}

theorem mem_entriesOf {batch : Batch} (member : batch ∈ batches)
    (inside : e ∈ batch.request.entries) : e ∈ entriesOf batches batch.queue := by
  refine List.mem_flatMap.mpr ⟨batch.request, List.mem_map_of_mem ?_, inside⟩
  exact List.mem_filter.mpr ⟨member, decide_eq_true rfl⟩

theorem infix_entriesOf {batch : Batch} (member : batch ∈ batches) :
    batch.request.entries <:+: entriesOf batches batch.queue := by
  obtain ⟨before, after, rfl⟩ := List.append_of_mem member
  rw [entriesOf_append, show batch :: after = [batch] ++ after from rfl, entriesOf_append]
  refine ⟨entriesOf before batch.queue, entriesOf after batch.queue, ?_⟩
  rw [List.append_assoc]
  congr 2
  rw [entriesOf, requestsOf_single, List.flatMap_singleton]

theorem numbers_apart {one other : List Batch} {first : Nat}
    (numbered : Numbered first (entriesOf (one ++ other) queue)) {e' : Entry} (before : e ∈ entriesOf one queue)
    (after : e' ∈ entriesOf other queue) : e.1.toNat < e'.1.toNat := by
  rw [entriesOf_append] at numbered
  obtain ⟨low, high⟩ := numbered_append.mp numbered
  have below := low.mem before
  have above := high.mem after
  omega

theorem numbers_differ {first : Nat}
    (numbered : Numbered first (entriesOf batches queue)) {one other : Batch} (here : one ∈ batches)
    (there : other ∈ batches) (differ : one ≠ other) (mine : one.queue = queue) (its : other.queue = queue)
    {e' : Entry} (inside : e ∈ one.request.entries) (inside' : e' ∈ other.request.entries) :
    e.1.toNat ≠ e'.1.toNat := by
  obtain ⟨before, after, rfl⟩ := List.append_of_mem here
  rw [show before ++ one :: after = (before ++ [one]) ++ after by simp] at numbered
  rcases List.mem_append.mp there with early | late
  · -- the other batch is among the earlier ones
    rw [List.append_assoc] at numbered
    have lower := numbers_apart numbered (its ▸ mem_entriesOf early inside')
      (mine ▸ mem_entriesOf (List.mem_append_left _ (List.mem_singleton.mpr rfl)) inside)
    omega
  · rcases List.mem_cons.mp late with same | behind
    · exact absurd same.symm differ
    · have lower := numbers_apart numbered
        (mine ▸ mem_entriesOf (List.mem_append_right _ (List.mem_singleton.mpr rfl)) inside)
        (its ▸ mem_entriesOf behind inside')
      omega

theorem entriesOf_subperm {handed appended : List Batch} (once : (handed.map Batch.task).Nodup)
    (among : handed ⊆ appended) (queue : QueueId) :
    (entriesOf handed queue).Subperm (entriesOf appended queue) := by
  obtain ⟨kept, permuted, sublist⟩ := List.subperm_of_subset (List.Nodup.of_map _ once) among
  refine ⟨entriesOf kept queue, ?_, ?_⟩
  · exact ((permuted.filter _).map _).flatMap_right _
  · exact ((sublist.filter _).map _).flatMap _

theorem Sound.numbered {settings : Settings} (sound : Sound settings s) (queue : QueueId) :
    ∃ first, Numbered first (s.log queue) := by
  have remembered := sound.recorded.memory queue
  cases found : s.startup.fs.mem.queues queue with
  | none =>
    rw [found] at remembered
    exact ⟨0, (congrArg (Numbered 0) remembered).mpr rfl⟩
  | some q =>
    rw [found] at remembered
    obtain ⟨-, lastId, returned, acked, consistent⟩ := remembered
    have numbers := consistent.returned
    rw [← consistent.pushed, List.map_map, List.length_map] at numbers
    exact ⟨_, numbers⟩

/-- The client of the task has been told these numbers for its packets. -/
def State.Told (settings : Settings) (s : State) (i : Nat) (queue : QueueId) (ids : List (List UInt8)) : Prop :=
  ∃ task w, s.tasks[i]? = some task ∧ task.job = .write w ∧ State.resolve settings w.queueId = queue ∧
    WriteResponse.toServer ⟨w.writeId, .wrDone, ids⟩ ∈ task.sent

theorem Sound.told {settings : Settings} (sound : Sound settings s) {i : Nat}
    {ids : List (List UInt8)} (told : s.Told settings i queue ids) {raw : List UInt8} (member : raw ∈ ids) :
    ∃ request e, (⟨queue, i, request⟩ : Batch) ∈ s.appended ∧ e ∈ request.entries ∧
      LittleEndian.decode raw = e.1.toNat := by
  obtain ⟨task, w, found, job, rfl, sent⟩ := told
  obtain ⟨conn, _, phase, call, delivery, responses⟩ := task
  cases job
  cases sound.stages i _ found with
  | finished answered =>
    cases List.mem_singleton.mp sent
    generalize response : WriteResponse.toServer ⟨w.writeId, .wrDone, ids⟩ = answer at answered
    cases answered with
    | nothing =>
      cases response
      exact absurd member List.not_mem_nil
    | @done _ request appended =>
      cases response
      rw [List.map_map] at member
      obtain ⟨e, inside, rfl⟩ := List.mem_map.mp member
      exact ⟨request, e, appended, inside, UintN.decode_writeValueToBuffer e.1⟩
    | failed => cases response
  | _ => exact absurd sent List.not_mem_nil

/- A client is told that its write is done only when the queue's log holds the packets, side by side and in
the order of the request, under the numbers in the answer, and the queue's writer has been handed them. What
the writer has got is never more than the log. -/
theorem writes_answered_in_log (settings : Settings) (events : List Event) (s : State)
    (ran : Runs.run (State.step settings) (.new settings) events = some s) :
    (∀ queue, (∃ first, Numbered first (s.log queue)) ∧ ∀ writer, s.startup.fs.writers queue = some writer →
      (writer.requests.flatMap NormFS.WriteRequest.entries).Subperm (s.log queue)) ∧
    ∀ (i : Nat) (task : Task) (w : WriteRequest), s.tasks[i]? = some task → task.job = .write w →
      (task.phase = .panicked → task.sent = [] ∧
        s.Ended task.call (State.resolve settings w.queueId) .panic) ∧
      task.sent.length ≤ 1 ∧
      (task.phase = .finished → task.sent = [] → s.Closed task.conn) ∧
      ∀ response ∈ task.sent,
        (response = w.answer .wrServerError [] ∧ s.Refuses task.call (State.resolve settings w.queueId)) ∨
        (response = w.answer .wrDone [] ∧ w.packets = []) ∨
        ∃ writer request, s.startup.fs.writers (State.resolve settings w.queueId) = some writer ∧
          request ∈ writer.requests ∧ request.entries <:+: s.log (State.resolve settings w.queueId) ∧
          request.entries.map Prod.snd = w.packets ∧
          response = w.answer .wrDone (request.entries.map Prod.fst) := by
  have sound := Sound.run ran
  refine ⟨fun queue => ⟨sound.numbered queue, fun writer found => ?_⟩, ?_⟩
  · have requests := sound.recorded.requests queue
    rw [found] at requests
    have handed := entriesOf_subperm sound.once.handed sound.once.among queue
    rw [entriesOf, requests] at handed
    exact handed
  intro i task w found job
  obtain ⟨conn, _, phase, call, delivery, responses⟩ := task
  cases job
  cases sound.stages i _ found with
  | finished answered =>
    refine ⟨by rintro ⟨⟩, Nat.le_refl 1, fun _ silent => absurd silent (List.cons_ne_nil _ _),
      fun response sent => ?_⟩
    cases List.mem_singleton.mp sent
    cases answered with
    | nothing empty => exact .inr (.inl ⟨rfl, empty⟩)
    | failed _ refuses => exact .inl ⟨rfl, refuses⟩
    | @done _ request appended handed packets =>
      refine .inr (.inr ?_)
      -- somebody has been handed the batch, so the queue has a writer
      have listed : request ∈ requestsOf s.handed (State.resolve settings w.queueId) :=
        List.mem_map.mpr ⟨_, List.mem_filter.mpr ⟨handed, decide_eq_true rfl⟩, rfl⟩
      rw [sound.recorded.requests] at listed
      cases writer : s.startup.fs.writers (State.resolve settings w.queueId) with
      | none =>
        rw [writer] at listed
        exact absurd listed List.not_mem_nil
      | some wal =>
        rw [writer] at listed
        exact ⟨wal, request, rfl, listed, infix_entriesOf appended, packets, rfl⟩
  | panicked needs ended =>
    cases needs
    exact ⟨fun _ => ⟨rfl, ended⟩, Nat.zero_le 1, by rintro ⟨⟩, fun _ sent => absurd sent List.not_mem_nil⟩
  | cut closed => exact ⟨by rintro ⟨⟩, Nat.zero_le 1, fun _ _ => closed, fun _ sent => absurd sent List.not_mem_nil⟩
  | _ => exact ⟨by rintro ⟨⟩, Nat.zero_le 1, by rintro ⟨⟩, fun _ sent => absurd sent List.not_mem_nil⟩

namespace Sample

def settings : Settings := ⟨['a'], [170], 1000⟩

def pair : WriteRequest := ⟨7, ['q'], [⟨[1], by decide⟩, ⟨[2, 3], by decide⟩]⟩

def single : WriteRequest := ⟨7, ['q'], [⟨[4], by decide⟩]⟩

def firstWrite : List Event :=
  [.connect, .request 0 ⟨none, none, some pair, none⟩, .advance 0, .start (.step 0), .start (.step 0),
    .start (.step 0), .start (.step 0), .start (.step 0), .start (.recovered 0 (.ok .fresh)),
    .start (.opened 0 true), .start (.step 0), .start (.step 0), .start (.monitored 0 true),
    .advance 0, .advance 0, .advance 0, .advance 0]

/-- The second one comes through another connection and finds the queue. -/
def secondWrite : List Event :=
  [.connect, .request 1 ⟨none, none, some single, none⟩, .advance 1, .start (.step 1), .start (.step 1),
    .start (.step 1), .start (.step 1), .advance 1, .advance 1, .advance 1, .advance 1]

end Sample

theorem writes_answered_in_log_pair : ∃ s task,
    Runs.run (State.step Sample.settings) (.new Sample.settings) Sample.firstWrite = some s ∧
    s.tasks[0]? = some task ∧ task.job = .write Sample.pair ∧
    task.sent = [Sample.pair.answer .wrDone [.u8 0, .u8 1]] ∧
    ∃ writer request, s.startup.fs.writers (State.resolve Sample.settings ['q']) = some writer ∧
      request ∈ writer.requests ∧ request.entries.map Prod.snd = Sample.pair.packets := by
  have evaluated : (Runs.run (State.step Sample.settings) (.new Sample.settings) Sample.firstWrite).any
      (fun s => s.tasks[0]?.any (fun task => decide (task.job = .write Sample.pair ∧
        task.sent = [Sample.pair.answer .wrDone [.u8 0, .u8 1]]))) = true := by
    decide +kernel
  obtain ⟨s, ran, facts⟩ := (Option.any_eq_true _ _).mp evaluated
  obtain ⟨task, found, facts⟩ := (Option.any_eq_true _ _).mp facts
  obtain ⟨job, sent⟩ := of_decide_eq_true facts
  refine ⟨s, task, ran, found, job, sent, ?_⟩
  obtain ⟨-, -, -, answered⟩ := (writes_answered_in_log Sample.settings _ s ran).2 0 task Sample.pair found job
  rcases answered _ (by rw [sent]; exact List.mem_singleton.mpr rfl) with ⟨failed, -⟩ | ⟨-, empty⟩ | done
  · exact absurd failed (by decide)
  · exact absurd empty (by decide)
  · obtain ⟨writer, request, writes, member, -, packets, -⟩ := done
    exact ⟨writer, request, writes, member, packets⟩

theorem Change.appended {settings : Settings} {next : State} (change : Change settings s next) :
    s.appended <+: next.appended := by
  cases change with
  | number => exact List.prefix_append _ _
  | _ => exact List.prefix_refl _

/- No two writes are told the same number. A write that comes in after another one to its queue has been
answered gets the larger numbers, whatever connection either came from. -/
theorem answered_writes_in_order (settings : Settings) (before after : List Event) (s final : State)
    (ran : Runs.run (State.step settings) (.new settings) before = some s)
    (went : Runs.run (State.step settings) s after = some final) (i j : Nat) (queue : QueueId)
    (ids ids' : List (List UInt8)) (its : final.Told settings j queue ids') :
    (i ≠ j → final.Told settings i queue ids →
      ∀ raw ∈ ids, ∀ raw' ∈ ids', LittleEndian.decode raw ≠ LittleEndian.decode raw') ∧
    (s.Told settings i queue ids → s.tasks.length ≤ j →
      ∀ raw ∈ ids, ∀ raw' ∈ ids', LittleEndian.decode raw < LittleEndian.decode raw') := by
  have sound := Sound.run ran
  have ended : Sound settings final :=
    run_keeps (Sound settings) (fun _ _ _ sound moved => sound.step moved) sound went
  obtain ⟨first, numbered⟩ := ended.numbered queue
  constructor
  · intro differ mine raw member raw' member'
    obtain ⟨request, e, here, inside, value⟩ := ended.told mine member
    obtain ⟨request', e', there, inside', value'⟩ := ended.told its member'
    rw [value, value']
    exact numbers_differ numbered here there (fun same => differ (congrArg Batch.task same)) rfl rfl inside inside'
  · intro mine late raw member raw' member'
    obtain ⟨request, e, here, inside, value⟩ := sound.told mine member
    obtain ⟨request', e', there, inside', value'⟩ := ended.told its member'
    -- the record was extended by the batch of the later task
    have extended : s.appended <+: final.appended :=
      run_keeps (fun t => s.appended <+: t.appended)
        (fun _ _ _ kept moved => kept.trans (Change.of_step moved).appended) (List.prefix_refl _) went
    obtain ⟨rest, whole⟩ := extended
    rw [State.log, ← whole] at numbered
    rw [← whole] at there
    rw [value, value']
    refine numbers_apart numbered (mem_entriesOf here inside) ?_
    rcases List.mem_append.mp there with early | new
    · have known := sound.known _ early
      dsimp only at known
      omega
    · exact mem_entriesOf new inside'

theorem answered_writes_in_order_two : ∃ s final,
    Runs.run (State.step Sample.settings) (.new Sample.settings) Sample.firstWrite = some s ∧
    Runs.run (State.step Sample.settings) s Sample.secondWrite = some final ∧
    s.Told Sample.settings 0 (State.resolve Sample.settings ['q']) [[0], [1]] ∧
    final.Told Sample.settings 1 (State.resolve Sample.settings ['q']) [[2]] ∧
    ∀ raw ∈ [[0], [1]], ∀ raw' ∈ [[2]], LittleEndian.decode raw < LittleEndian.decode raw' := by
  have evaluated : (Runs.run (State.step Sample.settings) (.new Sample.settings) Sample.firstWrite).any (fun s =>
      (Runs.run (State.step Sample.settings) s Sample.secondWrite).any (fun final =>
        s.tasks[0]?.any (fun one => final.tasks[1]?.any (fun other => decide (s.tasks.length = 1 ∧
          one.job = .write Sample.pair ∧ one.sent = [WriteResponse.toServer ⟨7, .wrDone, [[0], [1]]⟩] ∧
          other.job = .write Sample.single ∧ other.sent = [WriteResponse.toServer ⟨7, .wrDone, [[2]]⟩]))))) = true := by
    decide +kernel
  obtain ⟨s, ran, facts⟩ := (Option.any_eq_true _ _).mp evaluated
  obtain ⟨final, went, facts⟩ := (Option.any_eq_true _ _).mp facts
  obtain ⟨one, here, facts⟩ := (Option.any_eq_true _ _).mp facts
  obtain ⟨other, there, facts⟩ := (Option.any_eq_true _ _).mp facts
  obtain ⟨size, job, sent, job', sent'⟩ := of_decide_eq_true facts
  have mine : s.Told Sample.settings 0 (State.resolve Sample.settings ['q']) [[0], [1]] :=
    ⟨one, Sample.pair, here, job, rfl, by rw [sent]; exact List.mem_singleton.mpr rfl⟩
  have its : final.Told Sample.settings 1 (State.resolve Sample.settings ['q']) [[2]] :=
    ⟨other, Sample.single, there, job', rfl, by rw [sent']; exact List.mem_singleton.mpr rfl⟩
  exact ⟨s, final, ran, went, mine, its,
    (answered_writes_in_order Sample.settings _ _ s final ran went 0 1 _ _ _ its).2 mine (Nat.le_of_eq size)⟩

end Server

end NormFS
