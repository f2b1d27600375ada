import NormFS.Server.Changes

/-! The tasks of a server between two steps. Each task is at a stage that says what it has sent and what
stands behind it; a step of one task leaves the stages of the others as they are. -/
namespace NormFS

open Runs

namespace Server

theorem requestsOf_append (some more : List Batch) (queue : QueueId) :
    requestsOf (some ++ more) queue = requestsOf some queue ++ requestsOf more queue := by
  simp only [requestsOf, List.filter_append, List.map_append]

theorem entriesOf_append (some more : List Batch) (queue : QueueId) :
    entriesOf (some ++ more) queue = entriesOf some queue ++ entriesOf more queue := by
  simp only [entriesOf, requestsOf_append, List.flatMap_append]

theorem requestsOf_single (batch : Batch) : requestsOf [batch] batch.queue = [batch.request] := by
  simp [requestsOf]

theorem requestsOf_other {batch : Batch} {queue : QueueId} (other : queue ≠ batch.queue) :
    requestsOf [batch] queue = [] := by
  simp [requestsOf, Ne.symm other]

/-- A queue in memory, and what was put into it. -/
def Remembered : Option MemQueue → List Entry → Prop
  | none, entries => entries = []
  | some q, entries => q.Strides ∧ ∃ lastId returned acked, MemRun.Consistent lastId ⟨q, returned, entries, acked⟩

structure Recorded (l : Ledger) : Prop where
  sound : l.startup.Sound
  ready : l.startup.Ready
  memory : ∀ queue, Remembered (l.startup.fs.mem.queues queue) (entriesOf l.appended queue)
  requests : ∀ queue, requestsOf l.handed queue = (l.startup.fs.writers queue).elim [] WalWriter.requests

namespace Recorded

variable {startup : Startup} {appended handed : List Batch}

theorem start (recorded : Recorded ⟨startup, appended, handed⟩) {event : StartEvent} (starts : event.starts = true)
    {next : Startup} (moved : startup.step event = some next) :
    Recorded ⟨next, appended, handed⟩ ∧ startup.Later next := by
  have goes := Startup.Goes.of_step recorded.ready recorded.sound starts moved
  refine ⟨⟨recorded.sound.step moved, goes.ready recorded.ready, fun queue => ?_, fun queue => ?_⟩, goes.later⟩
  · have before := recorded.memory queue
    rcases goes.grows.queues queue with same | ⟨absent, lastId, size, new⟩
    · exact same ▸ before
    · rw [absent] at before
      rw [new, before]
      exact ⟨fun _ member => absurd member List.not_mem_nil, lastId, [], [], .start lastId size⟩
  · refine (recorded.requests queue).trans ?_
    rcases goes.grows.writers queue with same | ⟨absent, start, new⟩
    · rw [same]
    · rw [absent, new]
      rfl

theorem refit (recorded : Recorded ⟨startup, appended, handed⟩) {fs : Instance} {appended' handed' : List Batch}
    (locks : fs.locks = startup.fs.locks ∧ fs.lockCount = startup.fs.lockCount)
    (hasQueue : fs.hasQueue = startup.fs.hasQueue) (hasWriter : fs.hasWriter = startup.fs.hasWriter)
    (memory : ∀ queue, Remembered (fs.mem.queues queue) (entriesOf appended' queue))
    (requests : ∀ queue, requestsOf handed' queue = (fs.writers queue).elim [] WalWriter.requests)
    (deaf : ∀ queue writer, startup.fs.writers queue = some writer → writer.listening = false →
      ∃ after, fs.writers queue = some after ∧ after.listening = false) :
    Recorded ⟨{ startup with fs := fs }, appended', handed'⟩ ∧ startup.Later { startup with fs := fs } := by
  refine ⟨⟨recorded.sound.sameView locks hasQueue hasWriter, fun task member => ?_, memory, requests⟩,
    ⟨(Startup.Later.refl startup).tasks, fun _ there => hasQueue ▸ there, fun _ there => hasWriter ▸ there, deaf⟩⟩
  have made := recorded.ready task member
  exact ⟨fun opened writes => hasWriter ▸ made.writer opened writes, fun held => hasQueue ▸ made.queue held⟩

variable {queue : QueueId}

section

variable (recorded : Recorded ⟨startup, appended, handed⟩)

include recorded

theorem putQueue {q after : MemQueue}
    (found : startup.fs.mem.queues queue = some q) (more : List Batch)
    (others : ∀ other, other ≠ queue → entriesOf more other = [])
    (kept : Remembered (some after) (entriesOf appended queue ++ entriesOf more queue)) :
    Recorded ⟨startup.putQueue queue after, appended ++ more, handed⟩ ∧
      startup.Later (startup.putQueue queue after) := by
  refine recorded.refit ⟨rfl, rfl⟩ (funext (MemStore.put_view found after)) rfl (fun other => ?_) recorded.requests
    (Startup.Later.refl startup).deaf
  rw [entriesOf_append]
  by_cases same : other = queue
  · subst same
    rw [show (startup.fs.mem.put other after).queues other = some after from Function.update_self ..]
    exact kept
  · rw [show (startup.fs.mem.put queue after).queues other = startup.fs.mem.queues other from
      Function.update_of_ne same .., others other same, List.append_nil]
    exact recorded.memory other

theorem putWriter {writer : WalWriter}
    (found : startup.fs.writers queue = some writer) (after : WalWriter) (more : List Batch)
    (others : ∀ other, other ≠ queue → requestsOf more other = [])
    (requests : after.requests = writer.requests ++ requestsOf more queue)
    (deaf : writer.listening = false → after.listening = false) :
    Recorded ⟨startup.putWriter queue after, appended, handed ++ more⟩ ∧
      startup.Later (startup.putWriter queue after) := by
  have here : Function.update startup.fs.writers queue (some after) queue = some after := Function.update_self ..
  have there : ∀ other, other ≠ queue →
      Function.update startup.fs.writers queue (some after) other = startup.fs.writers other :=
    fun other different => Function.update_of_ne different ..
  refine recorded.refit ⟨rfl, rfl⟩ rfl (funext fun other => ?_) recorded.memory (fun other => ?_)
    (fun other writer' known silent => ?_)
  · by_cases same : other = queue
    · rw [same]
      exact (congrArg Option.isSome here).trans (congrArg Option.isSome found).symm
    · exact congrArg Option.isSome (there other same)
  · change requestsOf (handed ++ more) other =
      (Function.update startup.fs.writers queue (some after) other).elim [] WalWriter.requests
    rw [requestsOf_append, recorded.requests other]
    by_cases same : other = queue
    · rw [same, here, found]
      exact requests.symm
    · rw [there other same, others other same, List.append_nil]
  · by_cases same : other = queue
    · subst same
      cases found.symm.trans known
      exact ⟨after, here, deaf silent⟩
    · exact ⟨writer', (there other same).trans known, silent⟩

theorem number
    (there : startup.fs.hasQueue queue = true) {packets : List Bytes} (filled : packets ≠ []) (i : Nat) :
    ∃ mem request ids, startup.fs.mem.number queue packets = .ok (mem, request, ids) ∧
      request.entries.map Prod.snd = packets ∧ request.entries.map Prod.fst = ids ∧
      Recorded ⟨{ startup with fs := { startup.fs with mem := mem } }, appended ++ [⟨queue, i, request⟩], handed⟩ ∧
      startup.Later { startup with fs := { startup.fs with mem := mem } } := by
  obtain ⟨q, found⟩ := Option.isSome_iff_exists.mp there
  have before := recorded.memory queue
  rw [found] at before
  obtain ⟨strides, lastId, returned, acked, consistent⟩ := before
  obtain ⟨u, after, ids, request, numbered, applied, payloads, acks, entries, strides'⟩ :=
    MemStore.number_eq found strides filled
  have count : ids.length = packets.length := by
    rw [(Update.effect_of_apply consistent.represents applied).ids, List.length_map, length_numbered, payloads]
  have single : entriesOf [⟨queue, i, request⟩] queue = ids.zip u.payloads := by
    rw [entriesOf, requestsOf_single ⟨queue, i, request⟩, List.flatMap_singleton, entries, payloads]
  obtain ⟨kept, later⟩ := recorded.putQueue found [⟨queue, i, request⟩]
    (fun other different => by rw [entriesOf, requestsOf_other different]; rfl)
    ⟨strides', lastId, returned ++ ids, acked ++ u.acks, single ▸ consistent.update (by rw [MemRun.update, applied])⟩
  refine ⟨_, request, ids, numbered, ?_, ?_, kept, later⟩
  · rw [entries, List.map_snd_zip (by omega)]
  · rw [entries, List.map_fst_zip (by omega)]

end

theorem hand (recorded : Recorded ⟨startup, appended, handed⟩) {queue : QueueId} {request : NormFS.WriteRequest}
    {fs : Instance} (accepted : startup.fs.send queue request = (fs, .ok ())) (i : Nat) :
    Recorded ⟨{ startup with fs := fs }, appended, handed ++ [⟨queue, i, request⟩]⟩ ∧
      startup.Later { startup with fs := fs } := by
  obtain ⟨writer, found, rfl⟩ := Instance.send_ok accepted
  refine recorded.putWriter found _ [⟨queue, i, request⟩] (fun other different => requestsOf_other different) ?_ id
  rw [requestsOf_single ⟨queue, i, request⟩]

end Recorded

def Ledger.Fresh (l : Ledger) (i : Nat) : Prop := ∀ batch ∈ l.appended, batch.task ≠ i

/-- The call was for the queue, and this is how it has ended. -/
def Ledger.Ended (l : Ledger) (call : Option Nat) (queue : QueueId) (result : Outcome Unit Unit) : Prop :=
  ∃ (number : Nat) (task : StartTask), call = some number ∧ l.startup.tasks[number]? = some task ∧
    task.queue = queue ∧ task.phase.result = some result

/-- The call could not start the queue, or the queue's writer takes nothing any more. -/
def Ledger.Refuses (l : Ledger) (call : Option Nat) (queue : QueueId) : Prop :=
  l.Ended call queue (.err ()) ∨
    ∃ writer, l.startup.fs.writers queue = some writer ∧ writer.listening = false

structure Adds (i : Nat) (before after : List Batch) : Prop where
  old : before ⊆ after
  new : ∀ batch ∈ after, batch ∈ before ∨ batch.task = i

theorem Adds.nothing {i : Nat} {batches : List Batch} : Adds i batches batches :=
  ⟨fun _ old => old, fun _ old => .inl old⟩

theorem Adds.concat (before : List Batch) (batch : Batch) : Adds batch.task before (before ++ [batch]) where
  old := List.subset_append_left _ _
  new := fun _ member =>
    (List.mem_append.mp member).imp_right (fun last => congrArg Batch.task (List.mem_singleton.mp last))

structure Ledger.Later (l next : Ledger) (i : Nat) : Prop where
  startup : l.startup.Later next.startup
  appended : Adds i l.appended next.appended
  handed : Adds i l.handed next.handed

structure Delivery.For (d : Delivery) (r : ReadRequest) : Prop where
  position : ∃ offsetId, r.offsetId = .ok offsetId ∧ d.position = r.position offsetId
  limit : d.limit = r.limit.toNat
  step : d.step = r.stride
  within : d.taken ≤ d.produced.length

def ReadRequest.stream (r : ReadRequest) (entries : List ReadEntry) : List ServerResponse :=
  r.answer .rrStart :: entries.map r.answerEntry

/-- All that a client is to get of a read that was started. -/
def ReadRequest.transcript (r : ReadRequest) (d : Delivery) : List ServerResponse :=
  r.stream d.produced ++ (d.result.bind finalResult).toList.map r.answer

section Stages

variable (settings : Settings) (l : Ledger) (closed : Prop) (i : Nat) (call : Option Nat)

/-- The only response of a task, with what stands behind it. -/
inductive Answered : Job → ServerResponse → Prop where
  | setup {r : SetupRequest} : Answered (.setup r) (r.answer settings)
  | ping {r : PingRequest} (localStampNs monotonicStampNs : BitVec 64) :
      Answered (.ping r) (r.answer localStampNs monotonicStampNs)
  | nothing {w : WriteRequest} (empty : w.packets = []) : Answered (.write w) (w.answer .wrDone [])
  | done {w : WriteRequest} {request : NormFS.WriteRequest}
      (appended : ⟨State.resolve settings w.queueId, i, request⟩ ∈ l.appended)
      (handed : ⟨State.resolve settings w.queueId, i, request⟩ ∈ l.handed)
      (packets : request.entries.map Prod.snd = w.packets) :
      Answered (.write w) (w.answer .wrDone (request.entries.map Prod.fst))
  | failed {w : WriteRequest} (unhanded : ∀ batch ∈ l.handed, batch.task ≠ i)
      (refuses : l.Refuses call (State.resolve settings w.queueId)) :
      Answered (.write w) (w.answer .wrServerError [])
  | unparsed {r : ReadRequest} {error : UintNError} (unparsed : r.offsetId = .error error) :
      Answered (.read r) (r.answer .rrNotFound)
  | unstarted {r : ReadRequest} (ended : l.Ended call (State.resolve settings r.queueId) (.err ())) :
      Answered (.read r) (r.answer .rrServerError)

/-- How far a task is, with the channel of its read and what it has sent. -/
inductive Stage : Job → Phase → Option Delivery → List ServerResponse → Prop where
  | spawned {job : Job} (fresh : l.Fresh i) : Stage job .spawned none []
  | ensuring {job : Job} {number : Nat} {queue : QueueId} {readonly : Bool} {phase : StartPhase}
      (fresh : l.Fresh i) (needs : Needs settings job queue readonly) (mine : call = some number)
      (called : l.startup.tasks[number]? = some ⟨queue, readonly, phase⟩) :
      Stage job (.ensuring number) none []
  | panicked {job : Job} {queue : QueueId} {readonly : Bool} (needs : Needs settings job queue readonly)
      (ended : l.Ended call queue .panic) : Stage job .panicked none []
  | numbering {w : WriteRequest} (fresh : l.Fresh i) (filled : w.packets ≠ [])
      (queue : l.startup.fs.hasQueue (State.resolve settings w.queueId) = true)
      (writer : l.startup.fs.hasWriter (State.resolve settings w.queueId) = true) : Stage (.write w) .numbering none []
  | handing {w : WriteRequest} {request : NormFS.WriteRequest} (unhanded : ∀ batch ∈ l.handed, batch.task ≠ i)
      (appended : ⟨State.resolve settings w.queueId, i, request⟩ ∈ l.appended)
      (packets : request.entries.map Prod.snd = w.packets)
      (writer : l.startup.fs.hasWriter (State.resolve settings w.queueId) = true) :
      Stage (.write w) (.handing request (request.entries.map Prod.fst)) none []
  | starting {r : ReadRequest} {offsetId : UintN} (parsed : r.offsetId = .ok offsetId) :
      Stage (.read r) (.starting (r.position offsetId)) none []
  | streaming {r : ReadRequest} {d : Delivery} (asked : d.For r) :
      Stage (.read r) .streaming (some d) (r.stream (d.produced.take d.taken))
  | relaying {r : ReadRequest} {d : Delivery} {entry : ReadEntry} {before : List ReadEntry} (asked : d.For r)
      (taken : d.produced.take d.taken = before ++ [entry]) :
      Stage (.read r) (.relaying entry) (some d) (r.stream before)
  | responding {job : Job} {response : ServerResponse} (answered : Answered settings l i call job response) :
      Stage job (.responding response) none []
  | ending {r : ReadRequest} {d : Delivery} {outcome : Outcome ReaderError Bool} {result : ReadResult}
      (asked : d.For r) (dropped : d.sending = false) (returned : d.result = some outcome)
      (final : finalResult outcome = some result) :
      Stage (.read r) (.responding (r.answer result)) (some d) (r.stream d.produced)
  | finished {job : Job} {response : ServerResponse} (answered : Answered settings l i call job response) :
      Stage job .finished none [response]
  | ended {r : ReadRequest} {d : Delivery} {outcome : Outcome ReaderError Bool} (asked : d.For r)
      (dropped : d.sending = false) (returned : d.result = some outcome) :
      Stage (.read r) .finished (some d) (r.transcript d)
  | cut {job : Job} (gone : closed) : Stage job .finished none []
  | cutShort {r : ReadRequest} {d : Delivery} (gone : closed) (asked : d.For r) (k : Nat) :
      Stage (.read r) .finished (some d) (r.stream (d.produced.take k))

end Stages

section Later

variable {settings : Settings} {l next : Ledger} {closed later' : Prop} {i j : Nat}
  {call : Option Nat} {job : Job}

theorem Ledger.Ended.later {queue : QueueId} {result : Outcome Unit Unit}
    (ended : l.Ended call queue result) (later : l.Later next i) : next.Ended call queue result := by
  obtain ⟨number, task, mine, found, same, done⟩ := ended
  obtain ⟨phase, moved, kept⟩ := later.startup.tasks number task found
  exact ⟨number, _, mine, moved, same, kept result done⟩

theorem Ledger.Refuses.later {queue : QueueId} (refuses : l.Refuses call queue)
    (later : l.Later next i) : next.Refuses call queue := by
  rcases refuses with ended | ⟨writer, found, deaf⟩
  · exact .inl (ended.later later)
  · exact .inr (later.startup.deaf queue writer found deaf)

theorem unadded {before after : List Batch} (mine : ∀ batch ∈ before, batch.task ≠ j) (adds : Adds i before after)
    (other : j ≠ i) : ∀ batch ∈ after, batch.task ≠ j := by
  intro batch member same
  rcases adds.new batch member with old | new
  · exact mine batch old same
  · exact other (same.symm.trans new)

theorem Answered.later {response : ServerResponse} (answered : Answered settings l j call job response)
    (later : l.Later next i) (other : j ≠ i) : Answered settings next j call job response := by
  cases answered with
  | setup => exact .setup
  | ping localStampNs monotonicStampNs => exact .ping localStampNs monotonicStampNs
  | nothing empty => exact .nothing empty
  | done appended handed packets =>
    exact .done (later.appended.old appended) (later.handed.old handed) packets
  | failed unhanded refuses => exact .failed (unadded unhanded later.handed other) (refuses.later later)
  | unparsed unparsed => exact .unparsed unparsed
  | unstarted ended => exact .unstarted (ended.later later)

theorem Stage.later {phase : Phase} {delivery : Option Delivery} {sent : List ServerResponse}
    (stage : Stage settings l closed j call job phase delivery sent) (later : l.Later next i)
    (other : j ≠ i) (kept : closed → later') :
    Stage settings next later' j call job phase delivery sent := by
  cases stage with
  | spawned fresh => exact .spawned (unadded fresh later.appended other)
  | ensuring fresh needs mine called =>
    obtain ⟨phase, moved, -⟩ := later.startup.tasks _ _ called
    exact .ensuring (unadded fresh later.appended other) needs mine moved
  | panicked needs ended => exact .panicked needs (ended.later later)
  | numbering fresh filled queue writer =>
    exact .numbering (unadded fresh later.appended other) filled (later.startup.queues _ queue)
      (later.startup.writers _ writer)
  | handing unhanded appended packets writer =>
    exact .handing (unadded unhanded later.handed other) (later.appended.old appended) packets
      (later.startup.writers _ writer)
  | starting parsed => exact .starting parsed
  | streaming asked => exact .streaming asked
  | relaying asked taken => exact .relaying asked taken
  | responding answered => exact .responding (answered.later later other)
  | ending asked dropped returned final => exact .ending asked dropped returned final
  | finished answered => exact .finished (answered.later later other)
  | ended asked dropped returned => exact .ended asked dropped returned
  | cut gone => exact .cut (kept gone)
  | cutShort gone asked k => exact .cutShort (kept gone) asked k

end Later

variable {d : Delivery}

theorem Delivery.For.grow {after : Delivery} {r : ReadRequest} (asked : d.For r) (grows : d.Grows after) :
    after.For r where
  position := grows.position ▸ asked.position
  limit := grows.limit.trans asked.limit
  step := grows.step.trans asked.step
  within := grows.taken ▸ asked.within.trans grows.produced.length_le

theorem transcript_of_final {outcome : Outcome ReaderError Bool} (r : ReadRequest)
    (returned : d.result = some outcome) :
    r.transcript d = r.stream d.produced ++ (finalResult outcome).toList.map r.answer := by
  rw [ReadRequest.transcript, returned, Option.bind_some]

theorem take_drained (drained : d.produced[d.taken]? = none) : d.produced.take d.taken = d.produced :=
  List.take_of_length_le (List.getElem?_eq_none_iff.mp drained)

namespace Stage

variable {settings : Settings} {l : Ledger} {closed : Prop} {i : Nat} {call : Option Nat} {job : Job}
  {phase phase' : Phase} {delivery delivery' : Option Delivery} {sent : List ServerResponse} {response : ServerResponse}

variable {d : Delivery}

theorem asked {r : ReadRequest}
    (stage : Stage settings l closed i call (.read r) phase (some d) sent) : d.For r := by
  cases stage with
  | streaming asked | relaying asked | ending asked | ended asked | cutShort gone asked => exact asked

theorem send (stage : Stage settings l closed i call job phase delivery sent)
    (sends : Send job phase delivery response phase' delivery') :
    Stage settings l closed i call job phase' delivery' (sent ++ [response]) := by
  cases sends with
  | last =>
    cases stage with
    | responding answered => exact .finished answered
    | @ending r d outcome result asked dropped returned final =>
      have whole : r.stream d.produced ++ [r.answer result] = r.transcript d := by
        rw [transcript_of_final r returned, final]
        rfl
      rw [whole]
      exact .ended asked dropped returned
  | start =>
    cases stage with
    | starting parsed => exact .streaming ⟨⟨_, parsed, rfl⟩, rfl, rfl, Nat.le_refl 0⟩
  | @entry r entry =>
    cases stage with
    | relaying asked taken =>
      have more : Stage settings l closed i call (.read r) .streaming (some _) _ := .streaming asked
      rw [taken, ReadRequest.stream, List.map_append] at more
      exact more

theorem take {r : ReadRequest} {entry : ReadEntry}
    (stage : Stage settings l closed i call (.read r) .streaming (some d) sent)
    (next : d.produced[d.taken]? = some entry) :
    Stage settings l closed i call (.read r) (.relaying entry) (some { d with taken := d.taken + 1 }) sent := by
  cases stage with
  | streaming asked =>
    obtain ⟨inside, here⟩ := List.getElem?_eq_some_iff.mp next
    refine .relaying ⟨asked.position, asked.limit, asked.step, inside⟩ ?_
    rw [← here]
    exact (List.take_concat_get' _ _ inside).symm

section Drained

variable {r : ReadRequest} {d : Delivery} {outcome : Outcome ReaderError Bool}
  (stage : Stage settings l closed i call (.read r) .streaming (some d) sent)
  (drained : d.produced[d.taken]? = none) (dropped : d.sending = false) (returned : d.result = some outcome)

include stage drained dropped returned

theorem done {result : ReadResult} (final : finalResult outcome = some result) :
    Stage settings l closed i call (.read r) (.responding (r.answer result)) (some d) sent := by
  cases stage with
  | streaming asked =>
    rw [take_drained drained]
    exact .ending asked dropped returned final

theorem leave (silent : finalResult outcome = none) :
    Stage settings l closed i call (.read r) .finished (some d) sent := by
  cases stage with
  | streaming asked =>
    have whole : r.transcript d = r.stream d.produced := by
      rw [transcript_of_final r returned, silent, Option.toList_none, List.map_nil, List.append_nil]
    rw [take_drained drained, ← whole]
    exact .ended asked dropped returned

end Drained

theorem deliver {after : Delivery} (stage : Stage settings l closed i call job phase (some d) sent)
    (listens : phase.listens = true) (grows : d.Grows after) :
    Stage settings l closed i call job phase (some after) sent := by
  -- what was taken is a first part, which later entries do not change
  have same : d.taken ≤ d.produced.length → after.produced.take after.taken = d.produced.take d.taken := by
    intro within
    obtain ⟨more, whole⟩ := grows.produced
    rw [grows.taken, ← whole, List.take_append_of_le_length within]
  cases stage with
  | streaming asked =>
    rw [← same asked.within]
    exact .streaming (asked.grow grows)
  | relaying asked taken => exact .relaying (asked.grow grows) ((same asked.within).trans taken)
  | _ => cases listens

/-- A send that finds the connection closed ends the task. -/
theorem giveUp (gone : closed) (stage : Stage settings l closed i call job phase delivery sent)
    (sends : Send job phase delivery response phase' delivery') :
    Stage settings l closed i call job .finished delivery sent := by
  cases sends with
  | last =>
    cases stage with
    | responding => exact .cut gone
    | @ending r d outcome result asked =>
      have whole : Stage settings l closed i call (.read r) .finished (some d) _ :=
        .cutShort gone asked d.produced.length
      rw [List.take_length] at whole
      exact whole
  | start =>
    cases stage
    exact .cut gone
  | @entry r =>
    cases stage with
    | @relaying _ d entry before asked taken =>
      have part : d.produced.take (min before.length d.taken) = before := by
        rw [← List.take_take, taken, List.take_left]
      have kept : Stage settings l closed i call (.read r) .finished (some d) _ :=
        .cutShort gone asked (min before.length d.taken)
      rw [part] at kept
      exact kept

end Stage

def State.Closed (s : State) (conn : Nat) : Prop :=
  ∃ connection, s.connections[conn]? = some connection ∧ connection.closed = true

structure Once (memory writers : List Batch) : Prop where
  appended : (memory.map Batch.task).Nodup
  handed : (writers.map Batch.task).Nodup
  among : writers ⊆ memory

structure Sound (settings : Settings) (s : State) : Prop where
  recorded : Recorded s.toLedger
  once : Once s.appended s.handed
  known : ∀ batch ∈ s.appended, batch.task < s.tasks.length
  stages : ∀ (i : Nat) (task : Task), s.tasks[i]? = some task →
    Stage settings s.toLedger (s.Closed task.conn) i task.call task.job task.phase task.delivery task.sent

theorem nodup_concat {batches : List Batch} {batch : Batch} (once : (batches.map Batch.task).Nodup)
    (fresh : ∀ other ∈ batches, other.task ≠ batch.task) : ((batches ++ [batch]).map Batch.task).Nodup := by
  rw [List.map_append, List.nodup_append']
  refine ⟨once, List.nodup_singleton _, ?_⟩
  intro number member single
  obtain rfl := List.mem_singleton.mp single
  obtain ⟨other, among, same⟩ := List.mem_map.mp member
  exact fresh other among same

theorem stride_pos (r : ReadRequest) : 0 < r.stride ∧ r.stride < 2 ^ 64 := by
  unfold ReadRequest.stride
  split
  · decide
  · rename_i nonzero
    refine ⟨Nat.pos_of_ne_zero (fun zero => nonzero (BitVec.eq_of_toNat_eq zero)), r.step.isLt⟩

namespace Sound

variable {settings : Settings} {s next : State} {i : Nat} {task after : Task}

theorem new (settings : Settings) : Sound settings (.new settings) where
  recorded := ⟨Startup.sound_new settings.maxMemoryUsage, fun _ member => absurd member List.not_mem_nil,
    fun _ => rfl, fun _ => rfl⟩
  once := ⟨List.nodup_nil, List.nodup_nil, List.nil_subset _⟩
  known := fun _ member => absurd member List.not_mem_nil
  stages := fun _ _ found => absurd found (by rw [State.new, List.getElem?_nil]; nofun)

theorem still (sound : Sound settings s) {startup : Startup} (connections : List Connection)
    (recorded : Recorded ⟨startup, s.appended, s.handed⟩) (later : s.startup.Later startup)
    (closed : ∀ conn, s.Closed conn → State.Closed ⟨⟨startup, s.appended, s.handed⟩, s.tasks, connections⟩ conn) :
    Sound settings ⟨⟨startup, s.appended, s.handed⟩, s.tasks, connections⟩ where
  recorded := recorded
  once := sound.once
  known := sound.known
  stages := fun j task found => (sound.stages j task found).later ⟨later, .nothing, .nothing⟩
    (Nat.ne_of_lt (Nat.lt_succ_self j)) (closed task.conn)

theorem move (sound : Sound settings s) (found : s.tasks[i]? = some task) {l : Ledger} {connections : List Connection}
    (recorded : Recorded l) (later : s.toLedger.Later l i) (once : Once l.appended l.handed)
    (closed : ∀ conn, s.Closed conn → State.Closed ⟨l, s.tasks.set i after, connections⟩ conn)
    (stage : Stage settings l (State.Closed ⟨l, s.tasks.set i after, connections⟩ after.conn) i after.call
      after.job after.phase after.delivery after.sent) :
    Sound settings ⟨l, s.tasks.set i after, connections⟩ where
  recorded := recorded
  once := once
  known := by
    intro batch member
    rw [List.length_set]
    rcases later.appended.new batch member with old | new
    · exact sound.known batch old
    · exact new ▸ (List.getElem?_eq_some_iff.mp found).1
  stages := by
    intro j other there
    rcases Guards.getElem?_set_cases found there with ⟨rfl, rfl⟩ | ⟨different, old⟩
    · exact stage
    · exact (sound.stages j other old).later later different (closed other.conn)

theorem turn (sound : Sound settings s) (found : s.tasks[i]? = some task) {connections : List Connection}
    (closed : ∀ conn, s.Closed conn → State.Closed ⟨s.toLedger, s.tasks.set i after, connections⟩ conn)
    (stage : Stage settings s.toLedger (s.Closed after.conn) i after.call after.job after.phase
      after.delivery after.sent) :
    Sound settings ⟨s.toLedger, s.tasks.set i after, connections⟩ :=
  sound.move found sound.recorded ⟨.refl _, .nothing, .nothing⟩ sound.once closed
    (stage.later ⟨.refl _, .nothing, .nothing⟩ (Nat.ne_of_lt (Nat.lt_succ_self i)) (closed after.conn))

theorem closed_set {conn : Nat} {connection changed : Connection} (l : Ledger) (tasks : List Task)
    (there : s.connections[conn]? = some connection) (kept : connection.closed = true → changed.closed = true)
    (other : Nat) (closed : s.Closed other) : State.Closed ⟨l, tasks, s.connections.set conn changed⟩ other := by
  obtain ⟨found, at_other, ended⟩ := closed
  by_cases same : conn = other
  · subst same
    cases there.symm.trans at_other
    exact ⟨changed, Guards.getElem?_set_self there, kept ended⟩
  · exact ⟨found, (List.getElem?_set_ne same).trans at_other, ended⟩

theorem unhanded (sound : Sound settings s) (fresh : s.Fresh i) : ∀ batch ∈ s.handed, batch.task ≠ i :=
  fun batch member => fresh batch (sound.once.among member)

variable {queue : QueueId}

theorem ended {number : Nat} {readonly : Bool} {phase : StartPhase}
    {call : Option Nat} {result : Outcome Unit Unit} (mine : call = some number)
    (called : s.startup.tasks[number]? = some ⟨queue, readonly, phase⟩)
    (returned : s.startup.outcome number = some result) : s.Ended call queue result := by
  rw [Startup.outcome, called] at returned
  exact ⟨number, _, mine, called, rfl, returned⟩

theorem turnStage (sound : Sound settings s) {closed : Prop} {call : Option Nat} {job : Job}
    {phase phase' : Phase} {delivery delivery' : Option Delivery} {sent : List ServerResponse}
    (stage : Stage settings s.toLedger closed i call job phase delivery sent)
    (moves : Turn settings s job phase delivery phase' delivery') :
    Stage settings s.toLedger closed i call job phase' delivery' sent := by
  cases moves with
  | setup =>
    cases stage
    exact .responding .setup
  | ping localStampNs monotonicStampNs =>
    cases stage
    exact .responding (.ping localStampNs monotonicStampNs)
  | empty nothing =>
    cases stage
    exact .responding (.nothing nothing)
  | ensured returned =>
    cases stage with
    | ensuring fresh needs mine called =>
      obtain ⟨other, same, there, writer⟩ := sound.recorded.ready.outcome returned
      cases called.symm.trans same
      cases needs with
      | write filled => exact .numbering fresh filled there (writer rfl)
  | failed returned =>
    cases stage with
    | ensuring fresh needs mine called =>
      cases needs
      exact .responding (.failed (sound.unhanded fresh) (.inl (ended mine called returned)))
  | unwound returned =>
    cases stage with
    | ensuring fresh needs mine called => exact .panicked needs (ended mine called returned)
  | panic stuck =>
    cases stage with
    | numbering fresh filled queue writer =>
      obtain ⟨mem, request, ids, numbered, -⟩ := sound.recorded.number queue filled i
      exact absurd numbered (stuck _)
  | refused refused =>
    cases stage with
    | handing unhanded appended packets writer =>
      exact .responding (.failed unhanded (.inr ((Instance.send_error refused).2 writer)))
  | ready parsed =>
    cases stage
    exact .starting parsed
  | unparsed unparsed =>
    cases stage
    exact .responding (.unparsed unparsed)
  | unready returned =>
    cases stage with
    | ensuring fresh needs mine called =>
      cases needs
      exact .responding (.unstarted (ended mine called returned))
  | take next => exact stage.take next
  | done drained dropped returned final => exact stage.done drained dropped returned final
  | leave drained dropped returned silent => exact stage.leave drained dropped returned silent
  | deliver listens grows => exact stage.deliver listens grows

theorem request (sound : Sound settings s) (conn : Nat) (jobs : List Job) :
    Sound settings { s with
      tasks := s.tasks ++ jobs.map (fun job => ⟨conn, job, .spawned, none, none, []⟩) } where
  recorded := sound.recorded
  once := sound.once
  known := fun batch member => by
    rw [List.length_append]
    exact Nat.lt_add_right _ (sound.known batch member)
  stages := by
    intro j task found
    rcases Guards.getElem?_append_cases found with old | ⟨absent, new⟩
    · exact sound.stages j task old
    · obtain ⟨job, -, rfl⟩ := List.mem_map.mp new
      -- the numbers of the new tasks have not been used
      refine .spawned ?_
      rintro batch member rfl
      exact absurd (sound.known batch member) (Nat.not_lt.mpr (List.getElem?_eq_none_iff.mp absent))

theorem call (sound : Sound settings s) (found : s.tasks[i]? = some task) (phase : task.phase = .spawned) {readonly : Bool} (needs : Needs settings task.job queue readonly) {startup : Startup}
    (moved : s.startup.step (.call queue readonly) = some startup) :
    Sound settings { s.setTask i { task with
        phase := .ensuring s.startup.tasks.length
        call := some s.startup.tasks.length } with startup := startup } := by
  obtain ⟨recorded, later⟩ := sound.recorded.start rfl moved
  cases moved
  refine sound.move found recorded ⟨later, .nothing, .nothing⟩ sound.once (fun _ closed => closed) ?_
  obtain ⟨conn, job, _, call, delivery, sent⟩ := task
  cases phase
  cases sound.stages i _ found with
  | spawned fresh => exact .ensuring fresh needs rfl List.getElem?_concat_length

theorem number (sound : Sound settings s) (found : s.tasks[i]? = some task) {w : WriteRequest}
    (job : task.job = .write w) (phase : task.phase = .numbering) {mem : MemStore} {request : NormFS.WriteRequest}
    {ids : List UintN}
    (numbered : s.startup.fs.mem.number (State.resolve settings w.queueId) w.packets = .ok (mem, request, ids)) :
    Sound settings { (s.setTask i { task with phase := .handing request ids }).setFs
      { s.startup.fs with mem := mem } with
      appended := s.appended ++ [⟨State.resolve settings w.queueId, i, request⟩] } := by
  obtain ⟨conn, _, _, call, delivery, sent⟩ := task
  cases job
  cases phase
  cases sound.stages i _ found with
  | numbering fresh filled queue writer =>
    obtain ⟨mem', request', ids', same, packets, rfl, recorded, later⟩ := sound.recorded.number queue filled i
    cases numbered.symm.trans same
    refine sound.move found recorded ⟨later, .concat s.appended ⟨_, i, request⟩, .nothing⟩
      ⟨nodup_concat sound.once.appended fresh, sound.once.handed,
        fun _ member => List.mem_append_left _ (sound.once.among member)⟩ (fun _ closed => closed) ?_
    exact .handing (sound.unhanded fresh) (List.mem_append_right _ (List.mem_singleton.mpr rfl)) packets
      (later.writers _ writer)

theorem hand (sound : Sound settings s) (found : s.tasks[i]? = some task) {w : WriteRequest}
    (job : task.job = .write w) {request : NormFS.WriteRequest} {ids : List UintN}
    (phase : task.phase = .handing request ids) {fs : Instance}
    (accepted : s.startup.fs.send (State.resolve settings w.queueId) request = (fs, .ok ())) :
    Sound settings { (s.setTask i { task with phase := .responding (w.answer .wrDone ids) }).setFs fs with
      handed := s.handed ++ [⟨State.resolve settings w.queueId, i, request⟩] } := by
  obtain ⟨recorded, later⟩ := sound.recorded.hand accepted i
  obtain ⟨conn, _, _, call, delivery, sent⟩ := task
  cases job
  cases phase
  cases sound.stages i _ found with
  | handing unhanded appended packets writer =>
    refine sound.move found recorded ⟨later, .nothing, .concat s.handed ⟨_, i, request⟩⟩ ⟨sound.once.appended,
      nodup_concat sound.once.handed unhanded, fun batch member => ?_⟩ (fun _ closed => closed) ?_
    · rcases List.mem_append.mp member with old | new
      · exact sound.once.among old
      · exact List.mem_singleton.mp new ▸ appended
    · exact .responding (.done appended (List.mem_append_right _ (List.mem_singleton.mpr rfl)) packets)

theorem memory (sound : Sound settings s) {call : MemCall} {q after : MemQueue}
    (found : s.startup.fs.mem.queues queue = some q) (permitted : s.permits settings queue call = true)
    (called : q.call call = some after) :
    Sound settings { s with startup := s.startup.putQueue queue after } := by
  have before := sound.recorded.memory queue
  rw [found] at before
  obtain ⟨strides, lastId, returned, acked, consistent⟩ := before
  have subscribes : ∀ sub, call = .subscribe sub → 0 < sub.step ∧ sub.step < 2 ^ 64 := by
    rintro subscriber rfl
    obtain ⟨task, member, reads⟩ := List.any_eq_true.mp permitted
    obtain ⟨i, there⟩ := List.mem_iff_getElem?.mp member
    split at reads
    · rename_i r delivery job listens
      obtain ⟨-, same⟩ := Bool.and_eq_true_iff.mp reads
      have stage := sound.stages i task there
      rw [job, listens] at stage
      rw [← beq_iff_eq.mp same, stage.asked.step]
      exact stride_pos r
    · cases reads
  obtain ⟨acked', stepped, kept⟩ :=
    MemQueue.call_run called returned (entriesOf s.appended queue) acked strides subscribes
  obtain ⟨recorded, later⟩ := sound.recorded.putQueue found [] (fun _ _ => rfl)
    ⟨kept, lastId, returned, acked', by
      rw [show entriesOf [] queue = [] from rfl, List.append_nil]
      exact consistent.step stepped⟩
  rw [List.append_nil] at recorded
  exact sound.still s.connections recorded later (fun _ closed => closed)

theorem step (sound : Sound settings s) {event : Event} (moved : s.step settings event = some next) :
    Sound settings next := by
  cases Change.of_step moved with
  | connect =>
    refine sound.still _ sound.recorded (.refl _) ?_
    rintro conn ⟨connection, found, closed⟩
    exact ⟨connection, (List.getElem?_append_left (List.getElem?_eq_some_iff.mp found).1).trans found, closed⟩
  | request jobs known => exact sound.request _ jobs
  | transmit there queued => exact sound.still _ sound.recorded (.refl _) (closed_set _ _ there id)
  | hangUp there => exact sound.still _ sound.recorded (.refl _) (closed_set _ _ there (fun _ => rfl))
  | start starts stepped =>
    obtain ⟨recorded, later⟩ := sound.recorded.start starts stepped
    exact sound.still s.connections recorded later (fun _ closed => closed)
  | memory found permitted called => exact sound.memory found permitted called
  | @closeWriter queue writer found =>
    obtain ⟨recorded, later⟩ := sound.recorded.putWriter found { writer with listening := false } []
      (fun _ _ => rfl) (List.append_nil _).symm (fun _ => rfl)
    rw [List.append_nil] at recorded
    exact sound.still s.connections recorded later (fun _ closed => closed)
  | turn found moves =>
    have stage := sound.stages _ _ found
    exact sound.turn found (fun _ closed => closed) (sound.turnStage stage moves)
  | call found phase needs called => exact sound.call found phase needs called
  | number found job phase numbered => exact sound.number found job phase numbered
  | hand found job phase accepted => exact sound.hand found job phase accepted
  | giveUp found sends there closed =>
    exact sound.turn found (fun _ closed => closed) ((sound.stages _ _ found).giveUp ⟨_, there, closed⟩ sends)
  | send found sends there =>
    exact sound.turn found (closed_set _ _ there id) ((sound.stages _ _ found).send sends)

theorem run {events : List Event} (ran : Runs.run (State.step settings) (.new settings) events = some s) :
    Sound settings s :=
  run_keeps (Sound settings) (fun _ _ _ sound moved => sound.step moved) (.new settings) ran

end Sound

end Server

end NormFS
