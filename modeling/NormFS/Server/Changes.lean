import NormFS.Server.Queues

/-! What one step of a server does, said once: to the queues, to the task that takes it and to the
connections. -/
namespace NormFS.Server

structure Delivery.Grows (d after : Delivery) : Prop where
  position : after.position = d.position
  limit : after.limit = d.limit
  step : after.step = d.step
  taken : after.taken = d.taken
  produced : d.produced <+: after.produced

namespace Delivery

variable {d after : Delivery}

theorem Grows.of_produce {entry : ReadEntry} (moved : d.produce entry = some after) : d.Grows after := by
  unfold produce at moved
  split at moved
  · cases moved
    exact ⟨rfl, rfl, rfl, rfl, List.prefix_append _ _⟩
  · cases moved

theorem Grows.of_finish {result : Outcome ReaderError Bool} (moved : d.finish result = some after) :
    d.Grows after := by
  unfold finish at moved
  split at moved
  · cases moved
    exact ⟨rfl, rfl, rfl, rfl, List.prefix_refl _⟩
  · cases moved

end Delivery

section Changes

variable (settings : Settings) (s : State)

/-- A step of a task that changes neither the queues nor the connections: its phase and its channel before
and after. -/
inductive Turn : Job → Phase → Option Delivery → Phase → Option Delivery → Prop where
  | setup {r : SetupRequest} {d : Option Delivery} :
      Turn (.setup r) .spawned d (.responding (r.answer settings)) d
  | ping {r : PingRequest} {d : Option Delivery} (localStampNs monotonicStampNs : BitVec 64) :
      Turn (.ping r) .spawned d (.responding (r.answer localStampNs monotonicStampNs)) d
  | empty {w : WriteRequest} {d : Option Delivery} (nothing : w.packets = []) :
      Turn (.write w) .spawned d (.responding (w.answer .wrDone [])) d
  | ensured {w : WriteRequest} {d : Option Delivery} {call : Nat}
      (returned : s.startup.outcome call = some (.ok ())) :
      Turn (.write w) (.ensuring call) d .numbering d
  | failed {w : WriteRequest} {d : Option Delivery} {call : Nat}
      (returned : s.startup.outcome call = some (.err ())) :
      Turn (.write w) (.ensuring call) d (.responding (w.answer .wrServerError [])) d
  | unwound {job : Job} {d : Option Delivery} {call : Nat}
      (returned : s.startup.outcome call = some .panic) : Turn job (.ensuring call) d .panicked d
  | panic {w : WriteRequest} {d : Option Delivery}
      (stuck : ∀ ok, s.startup.fs.mem.number (State.resolve settings w.queueId) w.packets ≠ .ok ok) :
      Turn (.write w) .numbering d .panicked d
  | refused {w : WriteRequest} {d : Option Delivery} {request : NormFS.WriteRequest} {ids : List UintN}
      {error : WalError}
      (refused : s.startup.fs.send (State.resolve settings w.queueId) request = (s.startup.fs, .error error)) :
      Turn (.write w) (.handing request ids) d (.responding (w.answer .wrServerError [])) d
  | ready {r : ReadRequest} {d : Option Delivery} {call : Nat} {offsetId : UintN} (parsed : r.offsetId = .ok offsetId) :
      Turn (.read r) (.ensuring call) d (.starting (r.position offsetId)) d
  | unparsed {r : ReadRequest} {d : Option Delivery} {call : Nat} {error : UintNError}
      (unparsed : r.offsetId = .error error) :
      Turn (.read r) (.ensuring call) d (.responding (r.answer .rrNotFound)) d
  | unready {r : ReadRequest} {d : Option Delivery} {call : Nat}
      (returned : s.startup.outcome call = some (.err ())) :
      Turn (.read r) (.ensuring call) d (.responding (r.answer .rrServerError)) d
  | take {r : ReadRequest} {d : Delivery} {entry : ReadEntry} (next : d.produced[d.taken]? = some entry) :
      Turn (.read r) .streaming (some d) (.relaying entry) (some { d with taken := d.taken + 1 })
  | done {r : ReadRequest} {d : Delivery} {outcome : Outcome ReaderError Bool} {result : ReadResult}
      (drained : d.produced[d.taken]? = none) (dropped : d.sending = false) (returned : d.result = some outcome)
      (final : finalResult outcome = some result) :
      Turn (.read r) .streaming (some d) (.responding (r.answer result)) (some d)
  | leave {r : ReadRequest} {d : Delivery} {outcome : Outcome ReaderError Bool}
      (drained : d.produced[d.taken]? = none) (dropped : d.sending = false) (returned : d.result = some outcome)
      (silent : finalResult outcome = none) : Turn (.read r) .streaming (some d) .finished (some d)
  | deliver {job : Job} {phase : Phase} {d after : Delivery} (listens : phase.listens = true) (grows : d.Grows after) :
      Turn job phase (some d) phase (some after)

/-- A send: the phase and the channel before it, the response, the phase and the channel after it. -/
inductive Send : Job → Phase → Option Delivery → ServerResponse → Phase → Option Delivery → Prop where
  | last {job : Job} {response : ServerResponse} {d : Option Delivery} :
      Send job (.responding response) d response .finished d
  | start {r : ReadRequest} {position : ReadPosition} {d : Option Delivery} :
      Send (.read r) (.starting position) d (r.answer .rrStart) .streaming
        (some ⟨position, r.limit.toNat, r.stride, [], 0, true, none⟩)
  | entry {r : ReadRequest} {entry : ReadEntry} {d : Option Delivery} :
      Send (.read r) (.relaying entry) d (r.answerEntry entry) .streaming d

/-- The queue a task needs, and whether it is only to be read. -/
inductive Needs : Job → QueueId → Bool → Prop where
  | write {w : WriteRequest} (filled : w.packets ≠ []) : Needs (.write w) (State.resolve settings w.queueId) false
  | read {r : ReadRequest} : Needs (.read r) (State.resolve settings r.queueId) true

inductive Change : State → Prop where
  | connect : Change { s with connections := s.connections ++ [⟨[], [], false⟩] }
  | request {conn : Nat} (jobs : List Job) (known : conn < s.connections.length) :
      Change { s with tasks := s.tasks ++ jobs.map (fun job => ⟨conn, job, .spawned, none, none, []⟩) }
  | transmit {conn : Nat} {connection : Connection} {response : Nat × ServerResponse}
      {rest : List (Nat × ServerResponse)} (there : s.connections[conn]? = some connection)
      (queued : connection.queued = response :: rest) : Change (s.setConnection conn
        { connection with queued := rest, written := connection.written ++ [response] })
  | hangUp {conn : Nat} {connection : Connection} (there : s.connections[conn]? = some connection) :
      Change (s.setConnection conn { connection with closed := true })
  | start {event : StartEvent} {startup : Startup} (starts : event.starts = true)
      (moved : s.startup.step event = some startup) : Change { s with startup := startup }
  | memory {queue : QueueId} {call : MemCall} {q after : MemQueue}
      (found : s.startup.fs.mem.queues queue = some q) (permitted : s.permits settings queue call = true)
      (called : q.call call = some after) : Change { s with startup := s.startup.putQueue queue after }
  | closeWriter {queue : QueueId} {writer : WalWriter} (found : s.startup.fs.writers queue = some writer) :
      Change { s with startup := s.startup.putWriter queue { writer with listening := false } }
  | turn {i : Nat} {task : Task} {phase : Phase} {delivery : Option Delivery} (found : s.tasks[i]? = some task)
      (moves : Turn settings s task.job task.phase task.delivery phase delivery) :
      Change (s.setTask i { task with phase := phase, delivery := delivery })
  | call {i : Nat} {task : Task} {queue : QueueId} {readonly : Bool} {startup : Startup}
      (found : s.tasks[i]? = some task) (phase : task.phase = .spawned) (needs : Needs settings task.job queue readonly)
      (moved : s.startup.step (.call queue readonly) = some startup) :
      Change { s.setTask i { task with
          phase := .ensuring s.startup.tasks.length
          call := some s.startup.tasks.length } with startup := startup }
  | number {i : Nat} {task : Task} {w : WriteRequest} {mem : MemStore} {request : NormFS.WriteRequest}
      {ids : List UintN} (found : s.tasks[i]? = some task) (job : task.job = .write w) (phase : task.phase = .numbering)
      (numbered : s.startup.fs.mem.number (State.resolve settings w.queueId) w.packets = .ok (mem, request, ids)) :
      Change { (s.setTask i { task with phase := .handing request ids }).setFs { s.startup.fs with mem := mem } with
        appended := s.appended ++ [⟨State.resolve settings w.queueId, i, request⟩] }
  | hand {i : Nat} {task : Task} {w : WriteRequest} {fs : Instance} {request : NormFS.WriteRequest}
      {ids : List UintN} (found : s.tasks[i]? = some task) (job : task.job = .write w)
      (phase : task.phase = .handing request ids)
      (accepted : s.startup.fs.send (State.resolve settings w.queueId) request = (fs, .ok ())) :
      Change { (s.setTask i { task with phase := .responding (w.answer .wrDone ids) }).setFs fs with
        handed := s.handed ++ [⟨State.resolve settings w.queueId, i, request⟩] }
  | giveUp {i : Nat} {task : Task} {connection : Connection} {response : ServerResponse} {phase : Phase}
      {delivery : Option Delivery} (found : s.tasks[i]? = some task)
      (sends : Send task.job task.phase task.delivery response phase delivery)
      (there : s.connections[task.conn]? = some connection) (closed : connection.closed = true) :
      Change (s.setTask i { task with phase := .finished })
  | send {i : Nat} {task : Task} {connection : Connection} {response : ServerResponse} {phase : Phase}
      {delivery : Option Delivery} (found : s.tasks[i]? = some task)
      (sends : Send task.job task.phase task.delivery response phase delivery)
      (there : s.connections[task.conn]? = some connection) :
      Change ((s.setTask i { task with
          phase := phase, delivery := delivery, sent := task.sent ++ [response] }).setConnection
        task.conn { connection with queued := connection.queued ++ [(i, response)] })

end Changes

namespace Change

variable {settings : Settings} {s next : State} {i : Nat} {task : Task}

section

variable (found : s.tasks[i]? = some task)

include found

theorem sendResponse {response : ServerResponse} {phase : Phase}
    {delivery : Option Delivery} (sends : Send task.job task.phase task.delivery response phase delivery)
    (moved : s.sendResponse i task response phase delivery = some next) : Change settings s next := by
  unfold State.sendResponse at moved
  obtain ⟨connection, there, rest⟩ := Option.bind_eq_some_iff.mp moved
  split at rest
  · rename_i closed
    cases rest
    exact .giveUp found sends there closed
  · split at rest
    · cases rest
      exact .send found sends there
    · cases rest

theorem ensureQueueExists {queue : QueueId} {readonly : Bool}
    (phase : task.phase = .spawned) (needs : Needs settings task.job queue readonly)
    (moved : s.ensureQueueExists i task queue readonly = some next) : Change settings s next := by
  unfold State.ensureQueueExists at moved
  obtain ⟨startup, called, rest⟩ := Option.bind_eq_some_iff.mp moved
  cases rest
  exact .call found phase needs called

theorem last {response : ServerResponse} (phase : task.phase = .responding response)
    (moved : s.sendResponse i task response .finished task.delivery = some next) : Change settings s next :=
  sendResponse found (phase ▸ .last) moved

theorem handleWrite {w : WriteRequest} (job : task.job = .write w)
    (moved : s.handleWrite settings i task w = some next) : Change settings s next := by
  unfold State.handleWrite at moved
  dsimp only at moved
  split at moved
  · rename_i phase
    split at moved
    · rename_i empty
      cases moved
      exact .turn found (by rw [job, phase]; exact .empty (List.isEmpty_iff.mp empty))
    · rename_i filled
      refine ensureQueueExists found phase ?_ moved
      rw [job]
      exact .write (fun empty => filled (List.isEmpty_iff.mpr empty))
  · rename_i call phase
    split at moved
    · rename_i returned
      cases moved
      exact .turn found (by rw [job, phase]; exact .ensured returned)
    · rename_i returned
      cases moved
      exact .turn found (by rw [job, phase]; exact .failed returned)
    · rename_i returned
      cases moved
      exact .turn found (by rw [phase]; exact .unwound returned)
    · cases moved
  · rename_i phase
    split at moved
    · rename_i mem request ids numbered
      cases moved
      exact .number found job phase numbered
    · rename_i stuck
      cases moved
      exact .turn found (by rw [job, phase]; exact .panic (fun ok => stuck ok.1 ok.2.1 ok.2.2))
  · rename_i request ids phase
    split at moved
    · rename_i fs accepted
      cases moved
      exact .hand found job phase accepted
    · rename_i fs error refused
      cases moved
      obtain ⟨rfl, -⟩ := Instance.send_error refused
      exact .turn found (by rw [job, phase]; exact .refused refused)
  · rename_i response phase
    exact last found phase moved
  · cases moved

theorem handleRead {r : ReadRequest} (job : task.job = .read r)
    (moved : s.handleRead settings i task r = some next) : Change settings s next := by
  unfold State.handleRead at moved
  split at moved
  · rename_i phase
    exact ensureQueueExists found phase (by rw [job]; exact .read) moved
  · rename_i call phase
    split at moved
    · split at moved
      · rename_i offsetId parsed
        cases moved
        exact .turn found (by rw [job, phase]; exact .ready parsed)
      · rename_i error unparsed
        cases moved
        exact .turn found (by rw [job, phase]; exact .unparsed unparsed)
    · rename_i returned
      cases moved
      exact .turn found (by rw [job, phase]; exact .unready returned)
    · rename_i returned
      cases moved
      exact .turn found (by rw [phase]; exact .unwound returned)
    · cases moved
  · rename_i position phase
    exact sendResponse found (by rw [job, phase]; exact .start) moved
  · rename_i phase
    obtain ⟨d, listening, rest⟩ := Option.bind_eq_some_iff.mp moved
    split at rest
    · rename_i entry next
      cases rest
      exact .turn found (by rw [job, phase, listening]; exact .take next)
    · rename_i drained
      split at rest
      · cases rest
      · rename_i sending
        have dropped := Bool.eq_false_iff.mpr sending
        split at rest
        · cases rest
        · rename_i result final
          obtain ⟨outcome, returned, final⟩ := Option.map_eq_some_iff.mp final
          cases rest
          exact .turn found (by rw [job, phase, listening]; exact .done drained dropped returned final)
        · rename_i final
          obtain ⟨outcome, returned, silent⟩ := Option.map_eq_some_iff.mp final
          cases rest
          exact .turn found (by rw [job, phase, listening]; exact .leave drained dropped returned silent)
  · rename_i entry phase
    exact sendResponse found (by rw [job, phase]; exact .entry) moved
  · rename_i response phase
    exact last found phase moved
  · cases moved

end

theorem deliver {change : Delivery → Option Delivery} (grows : ∀ d after, change d = some after → d.Grows after)
    (moved : s.deliver i change = some next) : Change settings s next := by
  obtain ⟨task, found, rest⟩ := Option.bind_eq_some_iff.mp moved
  obtain ⟨d, listening, rest⟩ := Option.bind_eq_some_iff.mp rest
  split at rest
  · rename_i listens
    obtain ⟨after, grown, rest⟩ := Option.bind_eq_some_iff.mp rest
    cases rest
    exact .turn found (by rw [listening]; exact .deliver listens (grows d after grown))
  · cases rest

theorem advance (moved : s.advance settings i = some next) : Change settings s next := by
  obtain ⟨task, found, rest⟩ := Option.bind_eq_some_iff.mp moved
  split at rest
  · rename_i r job
    unfold State.handleSetup at rest
    split at rest
    · rename_i phase
      cases rest
      exact .turn found (by rw [job, phase]; exact .setup)
    · rename_i response phase
      exact last found phase rest
    · cases rest
  · unfold State.handlePing at rest
    split at rest
    · rename_i response phase
      exact last found phase rest
    · cases rest
  · rename_i w job
    exact handleWrite found job rest
  · rename_i r job
    exact handleRead found job rest

theorem of_step {event : Event} (moved : s.step settings event = some next) : Change settings s next := by
  cases event with
  | connect =>
    cases moved
    exact .connect
  | request conn request =>
    simp only [State.step] at moved
    split at moved
    · rename_i known
      cases moved
      exact .request request.jobs known
    · cases moved
  | start event =>
    simp only [State.step] at moved
    split at moved
    · rename_i starts
      obtain ⟨startup, stepped, rest⟩ := Option.bind_eq_some_iff.mp moved
      cases rest
      exact .start starts stepped
    · cases moved
  | advance i => exact advance moved
  | clock i localStampNs monotonicStampNs =>
    obtain ⟨task, found, rest⟩ := Option.bind_eq_some_iff.mp moved
    split at rest
    · rename_i r job phase
      cases rest
      exact .turn found (by rw [job, phase]; exact .ping _ _)
    · cases rest
  | produce i entry => exact deliver (fun _ _ grown => .of_produce grown) moved
  | dropSender i =>
    refine deliver (fun _ _ grown => ?_) moved
    cases grown
    exact ⟨rfl, rfl, rfl, rfl, List.prefix_refl _⟩
  | finish i result => exact deliver (fun _ _ grown => .of_finish grown) moved
  | memory queue call =>
    obtain ⟨q, found, rest⟩ := Option.bind_eq_some_iff.mp moved
    split at rest
    · rename_i permitted
      obtain ⟨after, called, rest⟩ := Option.bind_eq_some_iff.mp rest
      cases rest
      exact .memory found permitted called
    · cases rest
  | closeWriter queue =>
    obtain ⟨writer, found, rest⟩ := Option.bind_eq_some_iff.mp moved
    cases rest
    exact .closeWriter found
  | transmit conn =>
    obtain ⟨connection, there, rest⟩ := Option.bind_eq_some_iff.mp moved
    split at rest
    · cases rest
    · rename_i response more queued
      split at rest
      · cases rest
      · cases rest
        exact .transmit there queued
  | hangUp conn =>
    obtain ⟨connection, there, rest⟩ := Option.bind_eq_some_iff.mp moved
    cases rest
    exact .hangUp there

end Change

end NormFS.Server
