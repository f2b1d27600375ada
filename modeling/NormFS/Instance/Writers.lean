import NormFS.Instance

/-! At most one writer for each queue, however the calls that start queues interleave. All calls for a
queue find the same lock, so at most one of them is between its checks and its end; and whoever has
started a writer has put the queue into memory before it gives the lock back. -/
namespace NormFS

open Runs

/-- What a task relies on after its checks. -/
def StartPhase.Knows (hasQueue hasWriter : Bool) : StartPhase → Prop
  | checkWriter _ queueExists => queueExists = hasQueue
  | recover _ | openFile _ _ | insertWriter _ _ => hasWriter = false
  | _ => True

def StartPhase.startsMem : StartPhase → Bool
  | startMem _ _ => true
  | _ => false

structure Instance.LocksApart (fs : Instance) : Prop where
  named : ∀ q l, fs.locks q = some l → l < fs.lockCount
  apart : ∀ q q' l, fs.locks q = some l → fs.locks q' = some l → q = q'

structure Startup.Sound (s : Startup) : Prop where
  locks : s.fs.LocksApart
  found : ∀ task ∈ s.tasks, ∀ l, task.phase.found = some l → s.fs.locks task.queue = some l
  exclusive : Guards.Exclusive StartTask.guard s.tasks
  checked : ∀ task ∈ s.tasks, task.phase.Knows (s.fs.hasQueue task.queue) (s.fs.hasWriter task.queue)
  paired : ∀ q, s.fs.hasWriter q = true → s.fs.hasQueue q = true ∨
    ∃ task ∈ s.tasks, task.queue = q ∧ task.phase.startsMem = true
  recorded : ∀ q, q ∈ s.started ↔ s.fs.hasWriter q = true
  once : s.started.Nodup

theorem Startup.sound_new (maxMemoryUsage : Nat) : (Startup.new maxMemoryUsage).Sound where
  locks := ⟨by rintro _ _ ⟨⟩, by rintro _ _ _ ⟨⟩⟩
  found := by rintro _ ⟨⟩
  exclusive := Guards.exclusive_nil
  checked := by rintro _ ⟨⟩
  paired := by rintro _ ⟨⟩
  recorded := by
    intro q
    simp [Startup.new, Instance.new, Instance.hasWriter]
  once := List.nodup_nil

variable {task : StartTask} {s next : Startup} {i lock : Nat} {fs : Instance} {phase : StartPhase}

theorem StartTask.found_of_guard {l : Nat} (holds : task.guard = some l) :
    task.phase.found = some l := by
  unfold StartTask.guard at holds
  split at holds
  · cases holds
  · exact holds

theorem StartTask.knows_of_unguarded (none : task.guard = none) (hasQueue hasWriter : Bool) :
    task.phase.Knows hasQueue hasWriter := by
  unfold StartTask.guard at none
  cases here : task.phase <;> rw [here] at none <;> trivial

theorem StartTask.guard_of_startsMem (starts : task.phase.startsMem = true) :
    task.guard.isSome = true := by
  unfold StartTask.guard
  cases here : task.phase <;> rw [here] at starts <;> first | rfl | cases starts

theorem Startup.Sound.alone (sound : s.Sound) {j : Nat} {t u : StartTask}
    (first : s.tasks[i]? = some t) (second : s.tasks[j]? = some u) (same : t.queue = u.queue)
    (holds : t.guard.isSome = true) (holds' : u.guard.isSome = true) : i = j := by
  obtain ⟨l, mine⟩ := Option.isSome_iff_exists.mp holds
  obtain ⟨l', other⟩ := Option.isSome_iff_exists.mp holds'
  have lock := sound.found t (List.mem_of_getElem? first) l (StartTask.found_of_guard mine)
  have lock' := sound.found u (List.mem_of_getElem? second) l' (StartTask.found_of_guard other)
  rw [same] at lock
  cases lock.symm.trans lock'
  exact sound.exclusive i j t u l first second mine other

structure Startup.Moves (s : Startup) (i : Nat) (task : StartTask) (fs : Instance) (started : List QueueId)
    (phase : StartPhase) : Prop where
  locks : fs.LocksApart
  keeps : ∀ q l, s.fs.locks q = some l → fs.locks q = some l
  found : ∀ l, phase.found = some l → fs.locks task.queue = some l
  guard : ∀ l, (⟨task.queue, task.readonly, phase⟩ : StartTask).guard = some l →
    task.guard = some l ∨ Guards.Free StartTask.guard s.tasks l
  view : ∀ q, q = task.queue → task.guard.isSome = true ∨
    (fs.hasQueue q = s.fs.hasQueue q ∧ fs.hasWriter q = s.fs.hasWriter q)
  others : ∀ q, q ≠ task.queue → fs.hasQueue q = s.fs.hasQueue q ∧ fs.hasWriter q = s.fs.hasWriter q
  knows : phase.Knows (fs.hasQueue task.queue) (fs.hasWriter task.queue)
  paired : fs.hasWriter task.queue = true → fs.hasQueue task.queue = true ∨ phase.startsMem = true ∨
    (fs.hasQueue task.queue = s.fs.hasQueue task.queue ∧ fs.hasWriter task.queue = s.fs.hasWriter task.queue ∧
      task.phase.startsMem = false)
  recorded : ∀ q, q ∈ started ↔ fs.hasWriter q = true
  once : started.Nodup

theorem Startup.Sound.move (sound : s.Sound)
    (here : s.tasks[i]? = some task) {started : List QueueId}
    (moves : s.Moves i task fs started phase) :
    Startup.Sound ⟨fs, s.tasks.set i { task with phase := phase }, started⟩ where
  locks := moves.locks
  found := by
    intro u there l has
    rcases Guards.mem_set_cases there with rfl | ⟨j, other, at_j⟩
    · exact moves.found l has
    · exact moves.keeps _ _ (sound.found u (List.mem_of_getElem? at_j) l has)
  exclusive := sound.exclusive.set here moves.guard
  checked := by
    intro u there
    rcases Guards.mem_set_cases there with rfl | ⟨j, other, at_j⟩
    · exact moves.knows
    · have known := sound.checked u (List.mem_of_getElem? at_j)
      by_cases same : u.queue = task.queue
      · rcases moves.view u.queue same with holds | ⟨queueSame, writerSame⟩
        · -- the other task is not past its checks: the moved one holds the lock
          cases free : u.guard with
          | none => exact StartTask.knows_of_unguarded free _ _
          | some l =>
            exact absurd (sound.alone at_j here same (by rw [free]; rfl) holds) other
        · rw [queueSame, writerSame]
          exact known
      · obtain ⟨queueSame, writerSame⟩ := moves.others u.queue same
        rw [queueSame, writerSame]
        exact known
  paired := by
    intro q writes
    have moved : ({ task with phase := phase } : StartTask) ∈ s.tasks.set i { task with phase := phase } :=
      List.mem_set (List.getElem?_eq_some_iff.mp here).1 _
    have carried : fs.hasQueue q = s.fs.hasQueue q → fs.hasWriter q = s.fs.hasWriter q →
        (q = task.queue → task.phase.startsMem = false) →
        fs.hasQueue q = true ∨ ∃ u ∈ s.tasks.set i { task with phase := phase }, u.queue = q ∧
          u.phase.startsMem = true := by
      intro queueSame writerSame notMine
      rw [writerSame] at writes
      rcases sound.paired q writes with there | ⟨u, member, ofQ, starts⟩
      · exact .inl (queueSame.trans there)
      · obtain ⟨j, at_j⟩ := List.mem_iff_getElem?.mp member
        by_cases same : j = i
        · subst same
          cases here.symm.trans at_j
          rw [notMine ofQ.symm] at starts
          cases starts
        · exact .inr ⟨u, Guards.mem_set_of_ne same at_j, ofQ, starts⟩
    by_cases mine : q = task.queue
    · subst mine
      rcases moves.paired writes with there | starts | ⟨queueSame, writerSame, notMine⟩
      · exact .inl there
      · exact .inr ⟨_, moved, rfl, starts⟩
      · exact carried queueSame writerSame (fun _ => notMine)
    · obtain ⟨queueSame, writerSame⟩ := moves.others q mine
      exact carried queueSame writerSame (fun same => absurd same mine)
  recorded := moves.recorded
  once := moves.once

theorem Startup.Sound.goto (sound : s.Sound)
    (here : s.tasks[i]? = some task)
    (found : ∀ l, phase.found = some l → s.fs.locks task.queue = some l)
    (guard : ∀ l, (⟨task.queue, task.readonly, phase⟩ : StartTask).guard = some l →
      task.guard = some l ∨ Guards.Free StartTask.guard s.tasks l)
    (knows : phase.Knows (s.fs.hasQueue task.queue) (s.fs.hasWriter task.queue))
    (notMine : task.phase.startsMem = false) : (s.goto i task phase).Sound :=
  sound.move here
    { locks := sound.locks
      keeps := fun _ _ same => same
      found := found
      guard := guard
      view := fun _ _ => .inr ⟨rfl, rfl⟩
      others := fun _ _ => ⟨rfl, rfl⟩
      knows := knows
      paired := fun _ => .inr (.inr ⟨rfl, rfl, notMine⟩)
      recorded := sound.recorded
      once := sound.once }

/-- Under the lock, a queue that is not in memory has no writer. -/
theorem Startup.Sound.noWriter (sound : s.Sound)
    (here : s.tasks[i]? = some task) (holds : task.guard.isSome = true) (notMine : task.phase.startsMem = false)
    (absent : s.fs.hasQueue task.queue = false) : s.fs.hasWriter task.queue = false := by
  rw [Bool.eq_false_iff]
  intro writes
  rcases sound.paired task.queue writes with there | ⟨u, member, same, starts⟩
  · rw [absent] at there
    cases there
  · obtain ⟨j, at_j⟩ := List.mem_iff_getElem?.mp member
    obtain rfl := sound.alone at_j here same (StartTask.guard_of_startsMem starts) holds
    cases here.symm.trans at_j
    rw [notMine] at starts
    cases starts

theorem Instance.LocksApart.lockFor (apart : fs.LocksApart) (queue : QueueId) :
    (fs.lockFor queue).1.LocksApart ∧ (fs.lockFor queue).1.locks queue = some (fs.lockFor queue).2 ∧
      (∀ q l, fs.locks q = some l → (fs.lockFor queue).1.locks q = some l) ∧
      (fs.lockFor queue).1.mem = fs.mem ∧ (fs.lockFor queue).1.writers = fs.writers := by
  unfold Instance.lockFor
  cases known : fs.locks queue with
  | some lock => exact ⟨apart, known, fun _ _ same => same, rfl, rfl⟩
  | none =>
    dsimp only
    have old : ∀ q l, q ≠ queue → Function.update fs.locks queue (some fs.lockCount) q = some l →
        fs.locks q = some l := by
      intro q l other new
      rwa [Function.update_of_ne other] at new
    refine ⟨⟨?_, ?_⟩, Function.update_self .., ?_, rfl, rfl⟩
    · intro q l (new : Function.update fs.locks queue (some fs.lockCount) q = some l)
      by_cases same : q = queue
      · subst same
        rw [Function.update_self] at new
        cases new
        exact Nat.lt_succ_self _
      · exact Nat.lt_succ_of_lt (apart.named q l (old q l same new))
    · intro q q' l (new : Function.update fs.locks queue (some fs.lockCount) q = some l)
        (new' : Function.update fs.locks queue (some fs.lockCount) q' = some l)
      by_cases same : q = queue
      · subst same
        by_cases same' : q' = q
        · exact same'.symm
        · rw [Function.update_self] at new
          cases new
          exact absurd (apart.named q' _ (old q' _ same' new')) (Nat.lt_irrefl _)
      · by_cases same' : q' = queue
        · subst same'
          rw [Function.update_self] at new'
          cases new'
          exact absurd (apart.named q _ (old q _ same new)) (Nat.lt_irrefl _)
        · exact apart.apart q q' l (old q l same new) (old q' l same' new')
    · intro q l there
      by_cases same : q = queue
      · subst same
        cases known.symm.trans there
      · rw [Function.update_of_ne same]
        exact there

section

variable (sound : s.Sound)

include sound

section

variable (here : s.tasks[i]? = some task)

include here

theorem Startup.Sound.insertWriter
    {start : QueueStart} (phase : task.phase = .insertWriter lock start) :
    ({ s with
      fs := s.fs.startWriter task.queue start
      started := s.started ++ [task.queue] }.goto i task (.startMem lock start)).Sound := by
  have holds : task.guard = some lock := by rw [StartTask.guard, phase]; rfl
  have none : s.fs.hasWriter task.queue = false := by
    have known := sound.checked task (List.mem_of_getElem? here)
    rw [phase] at known
    exact known
  refine sound.move here
    { locks := ⟨sound.locks.named, sound.locks.apart⟩
      keeps := fun _ _ same => same
      found := ?_
      guard := ?_
      view := fun _ _ => .inl (by rw [holds]; rfl)
      others := ?_
      knows := trivial
      paired := fun _ => .inr (.inl rfl)
      recorded := ?_
      once := ?_ }
  · rintro l ⟨⟩
    exact sound.found task (List.mem_of_getElem? here) lock (StartTask.found_of_guard holds)
  · rintro l ⟨⟩
    exact .inl holds
  · intro q other
    refine ⟨rfl, ?_⟩
    rw [Instance.hasWriter_startWriter, decide_eq_false other, Bool.false_or]
  · intro q
    rw [List.mem_append, List.mem_singleton, Instance.hasWriter_startWriter, sound.recorded, Bool.or_eq_true,
      decide_eq_true_iff]
    exact or_comm
  · have fresh : task.queue ∉ s.started := by
      rw [sound.recorded, none]
      simp
    exact List.nodup_append'.mpr ⟨sound.once, List.nodup_singleton _, by simpa using fresh⟩

theorem Startup.Sound.startMem
    {start : QueueStart} (phase : task.phase = .startMem lock start) :
    ({ s with fs := s.fs.startMem task.queue start.lastEntryId }.goto i task (.monitor lock)).Sound := by
  have holds : task.guard = some lock := by rw [StartTask.guard, phase]; rfl
  refine sound.move here
    { locks := ⟨sound.locks.named, sound.locks.apart⟩
      keeps := fun _ _ same => same
      found := ?_
      guard := ?_
      view := fun _ _ => .inl (by rw [holds]; rfl)
      others := ?_
      knows := trivial
      paired := ?_
      recorded := sound.recorded
      once := sound.once }
  · rintro l ⟨⟩
    exact sound.found task (List.mem_of_getElem? here) lock (StartTask.found_of_guard holds)
  · rintro l ⟨⟩
    exact .inl holds
  · intro q other
    refine ⟨?_, rfl⟩
    rw [Instance.hasQueue_startMem, decide_eq_false other, Bool.false_or]
  · intro _
    left
    rw [Instance.hasQueue_startMem, decide_eq_true rfl, Bool.true_or]

theorem Startup.Sound.advance (holds : task.guard = some lock)
    (kept : ∀ l, phase.found = some l → l = lock)
    (knows : phase.Knows (s.fs.hasQueue task.queue) (s.fs.hasWriter task.queue))
    (notMine : task.phase.startsMem = false) : (s.goto i task phase).Sound := by
  refine sound.goto here ?_ ?_ knows notMine
  · intro l has
    obtain rfl := kept l has
    exact sound.found task (List.mem_of_getElem? here) l (StartTask.found_of_guard holds)
  · intro l has
    obtain rfl := kept l (StartTask.found_of_guard has)
    exact .inl holds

/-- The lock of the queue is there, whoever has put it in. -/
theorem Startup.Sound.insertLock (phase : task.phase = .insert) :
    ({ s with fs := (s.fs.lockFor task.queue).1 }.goto i task (.acquire (s.fs.lockFor task.queue).2)).Sound := by
  obtain ⟨apart, mine, keeps, mem, writers⟩ := sound.locks.lockFor task.queue
  have queues : ∀ q, (s.fs.lockFor task.queue).1.hasQueue q = s.fs.hasQueue q := by
    intro q
    rw [Instance.hasQueue, mem, Instance.hasQueue]
  have writes : ∀ q, (s.fs.lockFor task.queue).1.hasWriter q = s.fs.hasWriter q := by
    intro q
    rw [Instance.hasWriter, writers, Instance.hasWriter]
  refine sound.move here
    { locks := apart
      keeps := keeps
      found := ?_
      guard := by rintro l ⟨⟩
      view := fun q _ => .inr ⟨queues q, writes q⟩
      others := fun q _ => ⟨queues q, writes q⟩
      knows := trivial
      paired := fun _ => .inr (.inr ⟨queues _, writes _, by rw [phase]; rfl⟩)
      recorded := fun q => by rw [writes]; exact sound.recorded q
      once := sound.once }
  rintro l ⟨⟩
  exact mine

theorem Startup.Sound.checkMem (phase : task.phase = .checkMem lock) :
    (s.goto i task (if s.fs.hasQueue task.queue then .done true else .recover lock)).Sound ∧
      (s.goto i task (.checkWriter lock (s.fs.hasQueue task.queue))).Sound := by
  have holds : task.guard = some lock := by rw [StartTask.guard, phase]; rfl
  have notMine : task.phase.startsMem = false := by rw [phase]; rfl
  refine ⟨?_, sound.advance here holds (by rintro l ⟨⟩; rfl) rfl notMine⟩
  cases there : s.fs.hasQueue task.queue with
  | true => exact sound.advance here holds (by rintro l ⟨⟩) trivial notMine
  | false =>
    refine sound.advance here holds (by rintro l ⟨⟩; rfl) ?_ notMine
    exact sound.noWriter here (by rw [holds]; rfl) notMine there

theorem Startup.Sound.checkWriter
    {queueExists : Bool} (phase : task.phase = .checkWriter lock queueExists) :
    (s.goto i task (.done true)).Sound ∧
      ((queueExists && s.fs.hasWriter task.queue) ≠ true → (s.goto i task (.recover lock)).Sound) := by
  have holds : task.guard = some lock := by rw [StartTask.guard, phase]; rfl
  have notMine : task.phase.startsMem = false := by rw [phase]; rfl
  have known := sound.checked task (List.mem_of_getElem? here)
  rw [phase] at known
  refine ⟨sound.advance here holds (by rintro l ⟨⟩) trivial notMine, ?_⟩
  intro notBoth
  refine sound.advance here holds (by rintro l ⟨⟩; rfl) ?_ notMine
  cases there : queueExists with
  | true =>
    rw [there, Bool.true_and] at notBoth
    exact Bool.eq_false_iff.mpr notBoth
  | false => exact sound.noWriter here (by rw [holds]; rfl) notMine (known.symm.trans there)

theorem Startup.Sound.stepTask (moved : s.stepTask i task = some next) : next.Sound := by
  unfold Startup.stepTask at moved
  cases phase : task.phase with
  | lookup =>
    simp only [phase] at moved
    split at moved
    · rename_i lock known
      cases moved
      refine sound.goto here ?_ (by rintro l ⟨⟩) trivial (by rw [phase]; rfl)
      rintro l ⟨⟩
      exact known
    · cases moved
      exact sound.goto here (by rintro l ⟨⟩) (by rintro l ⟨⟩) trivial (by rw [phase]; rfl)
  | insert =>
    simp only [phase] at moved
    cases moved
    exact sound.insertLock here phase
  | acquire lock =>
    simp only [phase] at moved
    split at moved
    · rename_i free
      cases moved
      refine sound.goto here ?_ ?_ trivial (by rw [phase]; rfl)
      · rintro l ⟨⟩
        exact sound.found task (List.mem_of_getElem? here) lock (by rw [phase]; rfl)
      · rintro l ⟨⟩
        exact .inr free
    · cases moved
  | checkMem lock =>
    simp only [phase] at moved
    split at moved
    · cases moved
      exact (sound.checkMem here phase).1
    · cases moved
      exact (sound.checkMem here phase).2
  | checkWriter lock queueExists =>
    simp only [phase] at moved
    split at moved
    · cases moved
      exact (sound.checkWriter here phase).1
    · rename_i notBoth
      cases moved
      exact (sound.checkWriter here phase).2 notBoth
  | insertWriter lock start =>
    simp only [phase] at moved
    cases moved
    exact sound.insertWriter here phase
  | startMem lock start =>
    simp only [phase] at moved
    cases moved
    exact sound.startMem here phase
  | recover | openFile | monitor | done | panicked =>
    simp only [phase] at moved
    cases moved

end

/-- A step that leaves all tasks where they are, and both tables with the same queues. -/
theorem Startup.Sound.sameView
    (locks : fs.locks = s.fs.locks ∧ fs.lockCount = s.fs.lockCount) (queues : fs.hasQueue = s.fs.hasQueue)
    (writers : fs.hasWriter = s.fs.hasWriter) : Startup.Sound { s with fs := fs } where
  locks := ⟨by rw [locks.1, locks.2]; exact sound.locks.named, by rw [locks.1]; exact sound.locks.apart⟩
  found := by
    rw [locks.1]
    exact sound.found
  exclusive := sound.exclusive
  checked := by
    rw [queues, writers]
    exact sound.checked
  paired := by
    rw [queues, writers]
    exact sound.paired
  recorded := by
    rw [writers]
    exact sound.recorded
  once := sound.once

end

theorem MemStore.put_view {store : MemStore} {queue : QueueId} {old : MemQueue} (known : store.queues queue = some old)
    (q : MemQueue) (other : QueueId) : ((store.put queue q).queues other).isSome = (store.queues other).isSome := by
  unfold MemStore.put
  by_cases same : other = queue
  · subst same
    simp [known]
  · simp [same]

theorem Instance.put_send_view {s : Instance} {queue : QueueId} {old : MemQueue}
    (known : s.mem.queues queue = some old) (q : MemQueue) (request : WriteRequest) {next : Instance}
    (sent : next = ({ s with mem := s.mem.put queue q }.send queue request).1) :
    (next.locks = s.locks ∧ next.lockCount = s.lockCount) ∧ next.hasQueue = s.hasQueue ∧
      next.hasWriter = s.hasWriter := by
  obtain ⟨locks, count, memory, writers⟩ := Instance.send_view { s with mem := s.mem.put queue q } queue request
  rw [sent]
  refine ⟨⟨locks, count⟩, ?_, writers⟩
  funext other
  rw [Instance.hasQueue, memory]
  exact MemStore.put_view known q other

theorem Startup.Sound.call (sound : s.Sound) (queue : QueueId) (readonly : Bool) :
    Startup.Sound { s with tasks := s.tasks ++ [⟨queue, readonly, .lookup⟩] } where
  locks := sound.locks
  found := by
    intro task there l has
    rcases List.mem_append.mp there with old | new
    · exact sound.found task old l has
    · obtain rfl := List.mem_singleton.mp new
      cases has
  exclusive := sound.exclusive.append rfl
  checked := by
    intro task there
    rcases List.mem_append.mp there with old | new
    · exact sound.checked task old
    · obtain rfl := List.mem_singleton.mp new
      trivial
  paired := by
    intro q writes
    rcases sound.paired q writes with there | ⟨task, member, rest⟩
    · exact .inl there
    · exact .inr ⟨task, List.mem_append_left _ member, rest⟩
  recorded := sound.recorded
  once := sound.once

theorem Startup.Sound.recovered (sound : s.Sound)
    {start : Outcome RecoveryError QueueStart} (moved : s.step (.recovered i start) = some next) :
    next.Sound := by
  obtain ⟨task, here, taken⟩ := Option.bind_eq_some_iff.mp moved
  have known := sound.checked task (List.mem_of_getElem? here)
  split at taken
  · rename_i lock start' phase
    cases taken
    have holds : task.guard = some lock := by rw [StartTask.guard, phase]; rfl
    have notMine : task.phase.startsMem = false := by rw [phase]; rfl
    rw [phase] at known
    cases task.readonly with
    | true => exact sound.advance here holds (by rintro l ⟨⟩; rfl) trivial notMine
    | false => exact sound.advance here holds (by rintro l ⟨⟩; rfl) known notMine
  · rename_i lock _ phase
    cases taken
    exact sound.advance here (by rw [StartTask.guard, phase]; rfl) (by rintro l ⟨⟩) trivial (by rw [phase]; rfl)
  · rename_i lock phase
    cases taken
    exact sound.advance here (by rw [StartTask.guard, phase]; rfl) (by rintro l ⟨⟩) trivial (by rw [phase]; rfl)
  · cases taken

theorem Startup.Sound.opened (sound : s.Sound) {ok : Bool}
    (moved : s.step (.opened i ok) = some next) : next.Sound := by
  obtain ⟨task, here, taken⟩ := Option.bind_eq_some_iff.mp moved
  have known := sound.checked task (List.mem_of_getElem? here)
  split at taken
  · rename_i lock start phase
    cases taken
    have holds : task.guard = some lock := by rw [StartTask.guard, phase]; rfl
    have notMine : task.phase.startsMem = false := by rw [phase]; rfl
    rw [phase] at known
    cases ok with
    | true => exact sound.advance here holds (by rintro l ⟨⟩; rfl) known notMine
    | false => exact sound.advance here holds (by rintro l ⟨⟩) trivial notMine
  · cases taken

theorem Startup.Sound.enqueueBatch (sound : s.Sound) {queue : QueueId}
    {data : List Bytes} (moved : s.step (.enqueueBatch queue data) = some next) : next.Sound := by
  simp only [Startup.step] at moved
  split at moved
  · rename_i fs result done
    cases moved
    cases empty : data.isEmpty with
    | true =>
      rw [Instance.enqueueBatch, if_pos empty] at done
      cases done
      exact sound
    | false =>
      obtain ⟨q, q', ids, known, -, sent, -⟩ := Instance.enqueueBatch_ok empty done
      obtain ⟨locks, queues, writers⟩ := Instance.put_send_view known q' _ sent
      exact sound.sameView locks queues writers
  · cases moved

theorem Startup.Sound.step {event : StartEvent} (sound : s.Sound)
    (moved : s.step event = some next) : next.Sound := by
  cases event with
  | call queue readonly =>
    cases moved
    exact sound.call queue readonly
  | step i =>
    obtain ⟨task, here, taken⟩ := Option.bind_eq_some_iff.mp moved
    exact sound.stepTask here taken
  | recovered i start => exact sound.recovered moved
  | opened i ok => exact sound.opened moved
  | monitored i ok =>
    obtain ⟨task, here, taken⟩ := Option.bind_eq_some_iff.mp moved
    split at taken
    · rename_i lock phase
      cases taken
      exact sound.advance here (by rw [StartTask.guard, phase]; rfl) (by rintro l ⟨⟩) trivial (by rw [phase]; rfl)
    · cases taken
  | enqueue queue data =>
    simp only [Startup.step] at moved
    split at moved
    · rename_i fs result done
      cases moved
      obtain ⟨q, q', id, known, -, sent, -⟩ := Instance.enqueue_ok done
      obtain ⟨locks, queues, writers⟩ := Instance.put_send_view known q' _ sent
      exact sound.sameView locks queues writers
    · cases moved
  | enqueueBatch queue data => exact sound.enqueueBatch moved

/- Every writer of a queue that is ever started is the first one; and whenever a task is about to open a
file, which cuts it off, its queue has no writer and no other task is about to install one. -/
theorem one_writer_per_queue (maxMemoryUsage : Nat) {events : List StartEvent} {final : Startup}
    (ran : Runs.run Startup.step (Startup.new maxMemoryUsage) events = some final) :
    (∀ queue, final.started.count queue ≤ 1) ∧
    ∀ (i : Nat) (task : StartTask) (lock : Nat) (start : QueueStart), final.tasks[i]? = some task →
      task.phase = .openFile lock start → final.fs.writers task.queue = none ∧
      ∀ (j : Nat) (other : StartTask) (lock' : Nat) (start' : QueueStart), final.tasks[j]? = some other →
        other.queue = task.queue → other.phase ≠ .insertWriter lock' start' := by
  have sound := run_keeps Startup.Sound (fun _ _ _ sound moved => sound.step moved)
    (Startup.sound_new maxMemoryUsage) ran
  refine ⟨fun queue => List.nodup_iff_count_le_one.mp sound.once queue, ?_⟩
  intro i task lock start here phase
  have holds : task.guard = some lock := by rw [StartTask.guard, phase]; rfl
  refine ⟨?_, ?_⟩
  · have known := sound.checked task (List.mem_of_getElem? here)
    rw [phase] at known
    exact Option.not_isSome_iff_eq_none.mp (Bool.eq_false_iff.mp known)
  · intro j other lock' start' there same installing
    have holds' : other.guard = some lock' := by rw [StartTask.guard, installing]; rfl
    obtain rfl := sound.alone there here same (by rw [holds']; rfl) (by rw [holds]; rfl)
    cases here.symm.trans there
    cases phase.symm.trans installing

namespace Sample

/- A reader and two writers call at once; the file cannot be opened the first time. -/
def calls : List StartEvent :=
  [.call queue true, .call queue false, .call queue false, .step 0, .step 1, .step 2, .step 1, .step 0, .step 2,
    .step 1, .step 1, .step 1, .recovered 1 (.ok .fresh), .opened 1 false,
    .step 2, .step 2, .step 2, .recovered 2 (.ok .fresh), .opened 2 true, .step 2, .step 2, .monitored 2 false,
    .step 0, .step 0]

end Sample

theorem one_writer_per_queue_three_calls : ∃ final,
    Runs.run Startup.step (Startup.new 100) Sample.calls = some final ∧
    final.started = [Sample.queue] ∧ final.started.count Sample.queue ≤ 1 := by
  have evaluated : (Runs.run Startup.step (Startup.new 100) Sample.calls).any
      (fun final => decide (final.started = [Sample.queue])) = true := by
    decide +kernel
  obtain ⟨final, ran, facts⟩ := (Option.any_eq_true _ _).mp evaluated
  exact ⟨final, ran, of_decide_eq_true facts, (one_writer_per_queue 100 ran).1 Sample.queue⟩

end NormFS
