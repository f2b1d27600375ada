import NormFS.Instance.Writers
import NormFS.Server.Processor

/-! What the tasks of a server rely on in the queues they share. A call that has returned leaves its queue in
memory, and for writing with a writer; no step of the calls that start queues touches a queue that is there;
and memory numbers what it is given as long as every subscription has a step. -/
namespace NormFS

open Runs

/-- Every subscription has a step, of the size of a machine word. -/
def MemQueue.Strides (q : MemQueue) : Prop := ∀ sub ∈ q.subscribers, 0 < sub.2.step ∧ sub.2.step < 2 ^ 64

theorem Subscriber.call_strides {sub : Subscriber} (steps : 0 < sub.step) (word : sub.step < 2 ^ 64)
    (entries : List Entry) : ∃ after kept, sub.call entries = .ok (after, kept) ∧ after.step = sub.step := by
  induction entries generalizing sub with
  | nil => exact ⟨sub, true, rfl, rfl⟩
  | cons e entries ih =>
    obtain ⟨id, data⟩ := e
    unfold Subscriber.call
    split
    · exact ih steps word
    · rw [inStep_passes id sub.fromId steps word, Outcome.ok_bind]
      split
      · split
        · rename_i target sent
          exact @ih { sub with target := target } steps word
        · exact ⟨sub, false, rfl, rfl⟩
      · exact ih steps word

namespace MemQueue

theorem callSubscribers_strides (entries : List Entry) {subs : List (Nat × Subscriber)}
    (strides : ∀ sub ∈ subs, 0 < sub.2.step ∧ sub.2.step < 2 ^ 64) :
    ∃ after failed, callSubscribers entries subs = .ok (after, failed) ∧
      ∀ sub ∈ after, 0 < sub.2.step ∧ sub.2.step < 2 ^ 64 := by
  induction subs with
  | nil => exact ⟨[], [], rfl, fun _ member => absurd member List.not_mem_nil⟩
  | cons first subs ih =>
    obtain ⟨id, sub⟩ := first
    have bound := strides (id, sub) List.mem_cons_self
    obtain ⟨after, kept, called, same⟩ := Subscriber.call_strides bound.1 bound.2 entries
    obtain ⟨later, failed, rest, others⟩ := ih (fun other member => strides other (List.mem_cons_of_mem _ member))
    refine ⟨(id, after) :: later, if kept then failed else id :: failed, ?_, ?_⟩
    · rw [callSubscribers, called, Outcome.ok_bind, rest]
      rfl
    · intro other member
      rcases List.mem_cons.mp member with rfl | there
      · rw [same]
        exact bound
      · exact others other there

theorem announce_strides {q : MemQueue} (strides : q.Strides) (notification : Option (List Entry)) :
    ∃ after, q.announce notification = .ok after ∧ after.Strides := by
  cases notification with
  | none => exact ⟨q, rfl, strides⟩
  | some entries =>
    obtain ⟨subs, failed, called, others⟩ := callSubscribers_strides entries strides
    refine ⟨failed.foldl unsubscribe { q with subscribers := subs }, ?_, ?_⟩
    · rw [announce, notifySubscribers, called]
      rfl
    · rw [foldl_unsubscribe]
      intro sub member
      exact others sub (List.mem_of_mem_filter member)

end MemQueue

theorem Update.apply_strides {q : MemQueue} (strides : q.Strides) (u : Update) :
    ∃ after ids, u.apply q = .ok (after, ids) ∧ after.Strides := by
  have kept : ∀ other : MemQueue, other.subscribers = q.subscribers → other.Strides :=
    fun other same sub member => strides sub (same ▸ member)
  cases u with
  | enqueue data =>
    obtain ⟨after, announced, strides'⟩ := MemQueue.announce_strides (kept (q.append data).1 (by
      rw [MemQueue.append_eq, MemQueue.subscribers_cleanupUnlocked]
      rfl)) (q.append data).2.2
    exact ⟨after, [(q.append data).2.1], by rw [apply, MemQueue.enqueue_announce, announced]; rfl, strides'⟩
  | enqueueBatch batch =>
    have same : (q.appendBatch batch).1.subscribers = q.subscribers := by
      by_cases empty : batch = []
      · subst empty
        rfl
      · rw [MemQueue.appendBatch_eq q empty, MemQueue.subscribers_cleanupUnlocked]
        rfl
    obtain ⟨after, announced, strides'⟩ := MemQueue.announce_strides (kept _ same) (q.appendBatch batch).2.2
    exact ⟨after, _, by rw [apply, MemQueue.enqueueBatch_announce, announced]; rfl, strides'⟩
  | ack id =>
    refine ⟨q.ack id, [], rfl, kept _ ?_⟩
    rw [MemQueue.ack_eq, MemQueue.subscribers_cleanupUnlocked, MemQueue.mark_eq]

/-- A call that gives no numbers pushes nothing, and only a new subscription brings a new step. -/
theorem MemQueue.call_run {q after : MemQueue} {call : MemCall} (called : q.call call = some after)
    (returned : List UintN) (pushed : List Entry) (acked : List UintN) (strides : q.Strides)
    (new : ∀ sub, call = .subscribe sub → 0 < sub.step ∧ sub.step < 2 ^ 64) :
    ∃ acked', MemRun.step ⟨q, returned, pushed, acked⟩ call = some ⟨after, returned, pushed, acked'⟩ ∧
      after.Strides := by
  cases call with
  | update u =>
    cases u with
    | enqueue data => cases called
    | enqueueBatch batch => cases called
    | ack id =>
      obtain ⟨other, ids, applied, kept⟩ := Update.apply_strides strides (.ack id)
      cases applied
      cases called
      refine ⟨acked ++ [id], ?_, kept⟩
      simp only [MemRun.step, MemRun.update, Update.apply, Update.payloads, Update.acks, List.append_nil,
        List.zip_nil_right]
  | subscribe subscriber =>
    cases called
    refine ⟨acked, rfl, fun sub member => ?_⟩
    rcases List.mem_append.mp member with old | fresh
    · exact strides sub old
    · obtain rfl := List.mem_singleton.mp fresh
      exact new subscriber rfl
  | unsubscribe id =>
    cases called
    exact ⟨acked, rfl, fun sub member => strides sub (List.mem_of_mem_filter member)⟩
  | receive id room =>
    cases called
    refine ⟨acked, rfl, fun sub member => ?_⟩
    obtain ⟨old, among, rfl⟩ := List.mem_map.mp member
    split <;> exact strides old among

namespace MemStore

/-- The write of some packets is an update of their queue, and its request lists them with their numbers. -/
theorem number_eq {store : MemStore} {queue : QueueId} {q : MemQueue} (known : store.queues queue = some q)
    (strides : q.Strides) {packets : List Bytes} (filled : packets ≠ []) :
    ∃ (u : Update) (after : MemQueue) (ids : List UintN) (request : WriteRequest),
      store.number queue packets = .ok (store.put queue after, request, ids) ∧
      u.apply q = .ok (after, ids) ∧ u.payloads = packets ∧ u.acks = [] ∧ request.entries = ids.zip packets ∧
      after.Strides := by
  have single : ∀ data, ∃ after id, q.enqueue data = .ok (after, id) ∧ after.Strides := by
    intro data
    obtain ⟨after, ids, applied, kept⟩ := Update.apply_strides strides (.enqueue data)
    obtain ⟨⟨after', id⟩, called, same⟩ := Outcome.bind_eq_ok.mp applied
    cases same
    exact ⟨after, id, called, kept⟩
  unfold number
  split
  · rename_i data
    obtain ⟨after, id, called, kept⟩ := single data
    refine ⟨.enqueue data, after, [id], .enqueue id data, ?_, ?_, rfl, rfl, rfl, kept⟩
    · simp only [enqueue, known, called, Outcome.ok_bind, Outcome.pure_eq_ok]
    · simp only [Update.apply, called, Outcome.ok_bind, Outcome.pure_eq_ok]
  · obtain ⟨after, ids, applied, kept⟩ := Update.apply_strides strides (.enqueueBatch packets)
    refine ⟨.enqueueBatch packets, after, ids, .enqueueBatch (ids.zip packets), ?_, applied, rfl, rfl, rfl, kept⟩
    change q.enqueueBatch packets = _ at applied
    simp only [enqueueBatch, known, applied, Outcome.ok_bind, Outcome.pure_eq_ok]

end MemStore

namespace Instance

theorem send_error {fs after : Instance} {queue : QueueId} {request : WriteRequest} {error : WalError}
    (refused : fs.send queue request = (after, .error error)) : after = fs ∧
      (fs.hasWriter queue = true → ∃ writer, fs.writers queue = some writer ∧ writer.listening = false) := by
  unfold send at refused
  cases found : fs.writers queue with
  | none =>
    rw [found] at refused
    cases refused
    refine ⟨rfl, fun there => ?_⟩
    rw [hasWriter, found] at there
    cases there
  | some writer =>
    rw [found] at refused
    dsimp only at refused
    split at refused
    · cases refused
    · rename_i deaf
      cases refused
      exact ⟨rfl, fun _ => ⟨writer, rfl, Bool.eq_false_iff.mpr deaf⟩⟩

theorem send_ok {fs after : Instance} {queue : QueueId} {request : WriteRequest}
    (accepted : fs.send queue request = (after, .ok ())) :
    ∃ writer, fs.writers queue = some writer ∧ after = { fs with
      writers := Function.update fs.writers queue
        (some { writer with requests := writer.requests ++ [request] }) } := by
  unfold send at accepted
  cases found : fs.writers queue with
  | none =>
    rw [found] at accepted
    cases accepted
  | some writer =>
    rw [found] at accepted
    dsimp only at accepted
    split at accepted <;> cases accepted
    exact ⟨writer, rfl, rfl⟩

end Instance

structure Instance.Grows (fs after : Instance) : Prop where
  queues : ∀ q, after.mem.queues q = fs.mem.queues q ∨
    fs.mem.queues q = none ∧ ∃ lastId size, after.mem.queues q = some (.new lastId size)
  writers : ∀ q, after.writers q = fs.writers q ∨
    fs.writers q = none ∧ ∃ start, after.writers q = some ⟨start, [], true⟩

namespace Instance

variable {fs after : Instance} {q : QueueId}

theorem Grows.refl : fs.Grows fs := ⟨fun _ => .inl rfl, fun _ => .inl rfl⟩

theorem Grows.hasQueue (grows : fs.Grows after) (there : fs.hasQueue q = true) : after.hasQueue q = true := by
  unfold Instance.hasQueue at there ⊢
  rcases grows.queues q with same | ⟨absent, -⟩
  · rwa [same]
  · rw [absent] at there
    cases there

theorem Grows.hasWriter (grows : fs.Grows after) (there : fs.hasWriter q = true) : after.hasWriter q = true := by
  unfold Instance.hasWriter at there ⊢
  rcases grows.writers q with same | ⟨absent, -⟩
  · rwa [same]
  · rw [absent] at there
    cases there

theorem grows_startWriter (absent : fs.writers q = none) (start : QueueStart) : fs.Grows (fs.startWriter q start) := by
  refine ⟨fun _ => .inl rfl, fun other => ?_⟩
  by_cases same : other = q
  · subst same
    exact .inr ⟨absent, start, Function.update_self ..⟩
  · exact .inl (Function.update_of_ne same ..)

theorem grows_startMem (fs : Instance) (q : QueueId) (lastId : Option UintN) : fs.Grows (fs.startMem q lastId) := by
  refine ⟨fun other => ?_, fun _ => .inl rfl⟩
  unfold Instance.startMem MemStore.startQueue
  dsimp only
  split
  · exact .inl rfl
  · rename_i absent
    by_cases same : other = q
    · subst same
      exact .inr ⟨Option.not_isSome_iff_eq_none.mp absent, _, _, Function.update_self ..⟩
    · exact .inl (Function.update_of_ne same ..)

end Instance

/-- The phases in which the queue has its writer, when the call is for writing. -/
def StartPhase.opened : StartPhase → Bool
  | startMem _ _ | monitor _ | done true => true
  | _ => false

def StartPhase.inMemory : StartPhase → Bool
  | monitor _ | done true => true
  | _ => false

structure StartTask.Made (fs : Instance) (task : StartTask) : Prop where
  writer : task.phase.opened = true → task.readonly = false → fs.hasWriter task.queue = true
  queue : task.phase.inMemory = true → fs.hasQueue task.queue = true

theorem StartTask.made_early {fs : Instance} {task : StartTask} (notOpened : task.phase.opened = false)
    (notHeld : task.phase.inMemory = false) : task.Made fs :=
  ⟨fun opened => absurd (notOpened.symm.trans opened) (by decide),
    fun held => absurd (notHeld.symm.trans held) (by decide)⟩

namespace Startup

def Ready (s : Startup) : Prop := ∀ task ∈ s.tasks, task.Made s.fs

/-- A step of the calls that start queues: a new call, or one that goes on and has made what its phase says. -/
inductive Goes (s : Startup) : Startup → Prop where
  | call (queue : QueueId) (readonly : Bool) : Goes s { s with tasks := s.tasks ++ [⟨queue, readonly, .lookup⟩] }
  | turn {i : Nat} {task : StartTask} {fs : Instance} {phase : StartPhase} (started : List QueueId)
      (here : s.tasks[i]? = some task) (running : task.phase.result = none) (grows : s.fs.Grows fs)
      (made : StartTask.Made fs { task with phase := phase }) :
      Goes s ⟨fs, s.tasks.set i { task with phase := phase }, started⟩

structure Later (s next : Startup) : Prop where
  tasks : ∀ (i : Nat) (task : StartTask), s.tasks[i]? = some task →
    ∃ phase, next.tasks[i]? = some { task with phase := phase } ∧
      ∀ result, task.phase.result = some result → phase.result = some result
  queues : ∀ queue, s.fs.hasQueue queue = true → next.fs.hasQueue queue = true
  writers : ∀ queue, s.fs.hasWriter queue = true → next.fs.hasWriter queue = true
  deaf : ∀ queue writer, s.fs.writers queue = some writer → writer.listening = false →
    ∃ after, next.fs.writers queue = some after ∧ after.listening = false

theorem Later.refl (s : Startup) : s.Later s :=
  ⟨fun _ task found => ⟨task.phase, found, fun _ done => done⟩, fun _ there => there, fun _ there => there,
    fun _ writer found deaf => ⟨writer, found, deaf⟩⟩

variable {s next : Startup} {i : Nat} {task : StartTask}

theorem Goes.grows (goes : s.Goes next) : s.fs.Grows next.fs := by
  cases goes with
  | call => exact .refl
  | turn _ _ _ grows => exact grows

theorem Goes.later (goes : s.Goes next) : s.Later next where
  tasks := by
    intro j other found
    cases goes with
    | call queue readonly =>
      exact ⟨other.phase, (List.getElem?_append_left (List.getElem?_eq_some_iff.mp found).1).trans found,
        fun _ done => done⟩
    | @turn i task _ phase _ here running =>
      by_cases same : i = j
      · subst same
        cases here.symm.trans found
        exact ⟨phase, Guards.getElem?_set_self here, fun _ done => absurd (running.symm.trans done) nofun⟩
      · exact ⟨other.phase, (List.getElem?_set_ne same).trans found, fun _ done => done⟩
  queues := fun _ there => goes.grows.hasQueue there
  writers := fun _ there => goes.grows.hasWriter there
  deaf := by
    intro queue writer found deaf
    rcases goes.grows.writers queue with same | ⟨absent, -⟩
    · exact ⟨writer, same.trans found, deaf⟩
    · cases absent.symm.trans found

theorem Goes.ready (goes : s.Goes next) (ready : s.Ready) : next.Ready := by
  intro other member
  have grows := goes.grows
  have kept : other ∈ s.tasks → other.Made next.fs := fun old =>
    ⟨fun opened writes => grows.hasWriter ((ready other old).writer opened writes),
      fun held => grows.hasQueue ((ready other old).queue held)⟩
  cases goes with
  | call =>
    rcases List.mem_append.mp member with old | new
    · exact kept old
    · obtain rfl := List.mem_singleton.mp new
      exact StartTask.made_early rfl rfl
  | turn _ _ _ _ made =>
    rcases List.mem_or_eq_of_mem_set member with old | rfl
    · exact kept old
    · exact made

theorem Goes.of_stepTask (ready : s.Ready) (sound : s.Sound) (here : s.tasks[i]? = some task)
    (moved : s.stepTask i task = some next) : s.Goes next := by
  have running : task.phase.result = none := by
    unfold Startup.stepTask at moved
    cases phase : task.phase with
    | done | panicked =>
      rw [phase] at moved
      cases moved
    | _ => rfl
  have before := ready task (List.mem_of_getElem? here)
  have known := sound.checked task (List.mem_of_getElem? here)
  unfold Startup.stepTask at moved
  cases phase : task.phase with
  | lookup =>
    simp only [phase] at moved
    split at moved <;> cases moved <;> exact .turn _ here running .refl (StartTask.made_early rfl rfl)
  | insert =>
    simp only [phase] at moved
    cases moved
    obtain ⟨-, -, -, mem, writers⟩ := sound.locks.lockFor task.queue
    exact .turn _ here running ⟨fun q => .inl (by rw [mem]), fun q => .inl (by rw [writers])⟩
      (StartTask.made_early rfl rfl)
  | acquire lock =>
    simp only [phase] at moved
    split at moved <;> cases moved
    exact .turn _ here running .refl (StartTask.made_early rfl rfl)
  | checkMem lock =>
    simp only [phase] at moved
    split at moved
    · rename_i readonly
      cases moved
      refine .turn _ here running .refl ?_
      split
      · rename_i there
        exact ⟨fun _ writes => absurd (readonly.symm.trans writes) (by decide), fun _ => there⟩
      · exact StartTask.made_early rfl rfl
    · cases moved
      exact .turn _ here running .refl (StartTask.made_early rfl rfl)
  | checkWriter lock queueExists =>
    simp only [phase] at moved
    rw [phase] at known
    split at moved <;> cases moved
    · rename_i both
      obtain ⟨there, writes⟩ := Bool.and_eq_true_iff.mp both
      exact .turn _ here running .refl ⟨fun _ _ => writes, fun _ => known.symm.trans there⟩
    · exact .turn _ here running .refl (StartTask.made_early rfl rfl)
  | insertWriter lock start =>
    simp only [phase] at moved
    cases moved
    rw [phase] at known
    have absent := Option.isNone_iff_eq_none.mp (Option.isSome_eq_false_iff.mp known)
    refine .turn _ here running (Instance.grows_startWriter absent start) ⟨fun _ _ => ?_, nofun⟩
    rw [Instance.hasWriter_startWriter, decide_eq_true rfl, Bool.true_or]
  | startMem lock start =>
    simp only [phase] at moved
    cases moved
    have grows := s.fs.grows_startMem task.queue start.lastEntryId
    refine .turn _ here running grows ⟨fun _ writes => ?_, fun _ => ?_⟩
    · exact grows.hasWriter (before.writer (by rw [phase]; rfl) writes)
    · rw [Instance.hasQueue_startMem, decide_eq_true rfl, Bool.true_or]
  | recover | openFile | monitor | done | panicked =>
    simp only [phase] at moved
    cases moved

theorem Goes.of_step (ready : s.Ready) (sound : s.Sound) {event : StartEvent} (starts : event.starts = true)
    (moved : s.step event = some next) : s.Goes next := by
  cases event with
  | call queue readonly =>
    cases moved
    exact .call queue readonly
  | step i =>
    obtain ⟨task, here, taken⟩ := Option.bind_eq_some_iff.mp moved
    exact .of_stepTask ready sound here taken
  | recovered i start =>
    obtain ⟨task, here, taken⟩ := Option.bind_eq_some_iff.mp moved
    split at taken
    · rename_i lock start' phase
      cases taken
      refine .turn _ here (by rw [phase]; rfl) .refl ?_
      split
      · rename_i readonly
        exact ⟨fun _ writes => absurd (readonly.symm.trans writes) (by decide), nofun⟩
      · exact StartTask.made_early rfl rfl
    · rename_i lock _ phase
      cases taken
      exact .turn _ here (by rw [phase]; rfl) .refl (StartTask.made_early rfl rfl)
    · rename_i lock phase
      cases taken
      exact .turn _ here (by rw [phase]; rfl) .refl (StartTask.made_early rfl rfl)
    · cases taken
  | opened i ok =>
    obtain ⟨task, here, taken⟩ := Option.bind_eq_some_iff.mp moved
    split at taken
    · rename_i lock start phase
      cases taken
      refine .turn _ here (by rw [phase]; rfl) .refl ?_
      cases ok <;> exact StartTask.made_early rfl rfl
    · cases taken
  | monitored i ok =>
    obtain ⟨task, here, taken⟩ := Option.bind_eq_some_iff.mp moved
    split at taken
    · rename_i lock phase
      cases taken
      have before := ready task (List.mem_of_getElem? here)
      refine .turn _ here (by rw [phase]; rfl) .refl ?_
      cases ok with
      | true => exact ⟨fun _ => before.writer (by rw [phase]; rfl), fun _ => before.queue (by rw [phase]; rfl)⟩
      | false => exact StartTask.made_early rfl rfl
    · cases taken
  | enqueue queue data => cases starts
  | enqueueBatch queue data => cases starts

theorem Ready.outcome (ready : s.Ready) {call : Nat} (returned : s.outcome call = some (.ok ())) :
    ∃ task, s.tasks[call]? = some task ∧ s.fs.hasQueue task.queue = true ∧
      (task.readonly = false → s.fs.hasWriter task.queue = true) := by
  obtain ⟨task, found, result⟩ := Option.bind_eq_some_iff.mp returned
  have done : task.phase = .done true := by
    unfold StartPhase.result at result
    split at result
    · rename_i ok phase
      cases ok with
      | true => exact phase
      | false => cases result
    · cases result
    · cases result
  have made := ready task (List.mem_of_getElem? found)
  exact ⟨task, found, made.queue (by rw [done]; rfl), made.writer (by rw [done]; rfl)⟩

end Startup

end NormFS
