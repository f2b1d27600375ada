import NormFS.Wal.Durability

/-! What one step of the task that owns a WAL does to its files and to what it has taken in. -/
namespace NormFS

open OrderedBuffer Runs

def WalEvent.submits : WalEvent → List Entry
  | .request asked => asked.entries
  | _ => []

namespace WalTask

variable {xxh64 : Hash} {sort : UnstableSort} {settings : AckFileWriterSettings}
  {s next : WalTask} {event : WalEvent}

def taken (s : WalTask) : List Entry := s.received ++ s.batch

/-- What a step does to the files once the closed ones are settled: the current one grows, or is closed
as it is and a new one opened. -/
inductive Turns (s next : WalTask) : Prop where
  | stays (closed : next.closed = s.closed) (fileId : next.current.fileId = s.current.fileId)
    (header : next.current.header = s.current.header)
    (content : s.current.writer.content <+: next.current.writer.content)
  | rotates (entry : Entry) (ready : entry ∈ s.ready)
    (closed : next.closed = s.closed ++ [s.current])
    (fileId : next.current.fileId = s.current.fileId.increment)
    (header : next.current.header =
      { s.current.header.resize entry.1 entry.2.length with numEntriesBefore := entry.1 })

theorem hand_files (entry : Entry) (rest : List Entry) :
    (s.hand xxh64 entry rest).closed = s.closed ∧
      (s.hand xxh64 entry rest).current.fileId = s.current.fileId ∧
      (s.hand xxh64 entry rest).current.header = s.current.header ∧
      (s.hand xxh64 entry rest).current.writer.content = s.current.writer.content := by
  unfold WalTask.hand
  split <;> exact ⟨rfl, rfl, rfl, rfl⟩

theorem grows_taskStep {fsync : Bool} {writer after : AckFileWriter} {event : TaskEvent}
    (stepped : writer.taskStep fsync event = some after) : writer.content <+: after.content := by
  cases AckFileWriter.moves_of_taskStep stepped with
  | takeOver _ _ _ taken =>
    obtain ⟨-, -, same, -⟩ := DeferredFile.takeOver_spec taken
    rw [AckFileWriter.content, AckFileWriter.content, same]
  | writeFailed _ reported =>
    obtain ⟨-, -, -, same⟩ := DeferredFile.report_spec reported
    rw [AckFileWriter.content, AckFileWriter.content, same]
  | disk carried => exact DeferredFile.carry_grows carried
  | _ => exact List.prefix_rfl

theorem turns_of_step (settled : ∀ file ∈ s.closed, file.writer.file.isSettled = true)
    (moved : s.step xxh64 sort settings event = some next) : Turns s next := by
  cases event with
  | request request =>
    simp only [WalTask.step] at moved
    split at moved <;> cases moved
    exact .stays rfl rfl rfl List.prefix_rfl
  | close =>
    simp only [WalTask.step] at moved
    split at moved <;> cases moved
    exact .stays rfl rfl rfl List.prefix_rfl
  | work =>
    cases works_of_work moved with
    | wait => exact .stays rfl rfl rfl List.prefix_rfl
    | @rotate entry rest ready =>
      obtain ⟨closed, fileId, header, -⟩ := @hand_files xxh64 (s.rotate entry) entry rest
      exact .rotates entry (by rw [ready]; exact List.mem_cons_self) closed fileId header
    | @hand entry rest =>
      obtain ⟨closed, fileId, header, content⟩ := @hand_files xxh64 s entry rest
      exact .stays closed fileId header (by rw [content])
    | accept => exact .stays rfl rfl rfl List.prefix_rfl
  | task event =>
    obtain ⟨writer, stepped, rfl⟩ := Option.map_eq_some_iff.mp moved
    exact .stays rfl rfl rfl (grows_taskStep stepped)
  | late index event =>
    obtain ⟨file, writer, late, rfl⟩ := late_of_step moved
    exact absurd ((settled file late.mem).symm.trans late.unsettled) (by decide)

section Taken

variable {announced : Prop} {first firstFile : Nat} {entries : List Entry}

theorem taken_hand {entry : Entry} (rest : List Entry)
    (fits : s.current.header.canHoldEntry entry.1 entry.2.length = true) :
    (s.hand xxh64 entry rest).taken = s.taken := by
  unfold WalTask.hand
  rw [encodeEntry_ok xxh64 fits]
  rfl

theorem Sound.taken_step (sound : Sound xxh64 settings announced first firstFile s entries)
    (moved : s.step xxh64 sort settings event = some next) : next.taken = s.taken ++ event.submits := by
  cases event with
  | request request =>
    simp only [WalTask.step] at moved
    split at moved <;> cases moved
    rename_i idle
    simp only [WalTask.idle, Bool.and_eq_true, List.isEmpty_iff] at idle
    rw [taken, taken, idle.1.2, List.append_nil]
    rfl
  | close =>
    simp only [WalTask.step] at moved
    split at moved <;> cases moved
    exact (List.append_nil _).symm
  | work =>
    change next.taken = s.taken ++ []
    rw [List.append_nil]
    cases works_of_work moved with
    | wait => rfl
    | @rotate entry rest ready full ended => exact taken_hand rest (sound.move ready full ended).fits
    | @hand entry rest ready room => exact taken_hand rest (sound.stay ready room).fits
    | accept ready batch =>
      rw [taken, taken, batch, List.append_assoc]
      rfl
  | task event =>
    obtain ⟨writer, -, rfl⟩ := Option.map_eq_some_iff.mp moved
    exact (List.append_nil _).symm
  | late index event =>
    obtain ⟨file, writer, -, rfl⟩ := late_of_step moved
    exact (List.append_nil _).symm

end Taken

end WalTask

end NormFS
