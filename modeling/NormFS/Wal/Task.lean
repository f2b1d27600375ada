import NormFS.Wal.Retries
import NormFS.Wal.Layout

/-! The task that owns a WAL over the writers of its files. `WriterState` hands its entries to ideal
files; here a file is what its writer has put on disk, the task waits for the old writer to end when
it rotates, and the writer's own task runs at any time in between. -/
namespace NormFS

open OrderedBuffer

structure OwnedFile where
  fileId : UintN
  header : WalHeader
  writer : AckFileWriter
  deriving DecidableEq

/-- `batch` is what is left of the request in hand, `ready` what the ordering buffer has released
for it. `received` and `accepted` record what has arrived and what has been released so far. -/
structure WalTask where
  current : OwnedFile
  closed : List OwnedFile
  hasWritten : Bool
  buffer : OrderedBuffer
  batch : List Entry
  ready : List Entry
  stopping : Bool
  received : List Entry
  accepted : List Entry
  deriving DecidableEq

/-- `work` is the next step of the task itself, `task` one of the task of the current file. A closed
file may still get the piece that was handed over to it last. -/
inductive WalEvent where
  | request (request : WriteRequest)
  | close
  | work
  | task (event : TaskEvent)
  | late (index : Nat) (event : DiskEvent)
  deriving DecidableEq

def OwnedFile.new (fileId : UintN) (header : WalHeader) : OwnedFile :=
  ⟨fileId, header, .new header.writeToBytes⟩

/-- The ideal file: the calls made on the writer. -/
def OwnedFile.image (file : OwnedFile) : FileImage := ⟨file.fileId, file.header, file.writer.writes⟩

namespace WalTask

def new (fileId : UintN) (header : WalHeader) (lastEntryId : Option UintN) : WalTask :=
  ⟨.new fileId header, [], false, .new lastEntryId, [], [], false, [], []⟩

def files (self : WalTask) : List OwnedFile := self.closed ++ [self.current]

/-- The acknowledgements sent so far, by all writers. -/
def sent (self : WalTask) : List UintN := self.files.flatMap (fun file => file.writer.sent)

def withWriter (self : WalTask) (writer : AckFileWriter) : WalTask :=
  { self with current := { self.current with writer := writer } }

def mustRotate (self : WalTask) (settings : AckFileWriterSettings) (entry : Entry) : Bool :=
  (self.hasWritten && !self.current.writer.canAdd settings entry.2.length) ||
    !self.current.header.canHoldEntry entry.1 entry.2.length

/-- The part of `rotate` after the old writer has ended. -/
def rotate (self : WalTask) (entry : Entry) : WalTask :=
  { self with
    closed := self.closed ++ [self.current]
    current := .new self.current.fileId.increment
      { self.current.header.resize entry.1 entry.2.length with numEntriesBefore := entry.1 }
    hasWritten := false }

section Steps

variable (xxh64 : Hash) (sort : UnstableSort) (settings : AckFileWriterSettings)

/- An encoder error drops the rest of the request. -/
def hand (self : WalTask) (entry : Entry) (rest : List Entry) : WalTask :=
  match encodeEntry xxh64 self.current.header entry.1 entry.2 with
  | .error _ => { self with ready := [], batch := [] }
  | .ok bytes =>
    { self.withWriter (self.current.writer.write entry.1 bytes) with hasWritten := true, ready := rest }

/- In the middle of a rotation the task only waits for the writer to end. -/
def work (self : WalTask) : Option WalTask :=
  match self.ready with
  | entry :: rest =>
    if self.mustRotate settings entry then
      if self.current.writer.task = .ended then some ((self.rotate entry).hand xxh64 entry rest)
      else if self.current.writer.shutdown then none
      else some (self.withWriter self.current.writer.close)
    else some (self.hand xxh64 entry rest)
  | [] =>
    match self.batch with
    | [] => none
    | entry :: rest =>
      let (ready, buffer) := self.buffer.accept sort entry
      some { self with
        buffer := buffer
        batch := rest
        ready := ready
        received := self.received ++ [entry]
        accepted := self.accepted ++ ready }

/-- Between two requests, with the channel still open. -/
def idle (self : WalTask) : Bool := self.ready.isEmpty && self.batch.isEmpty && !self.stopping

def late (self : WalTask) (index : Nat) (event : DiskEvent) : Option WalTask :=
  match self.closed[index]? with
  | some file => (file.writer.taskStep settings.fsync (.disk event)).map fun writer =>
      { self with closed := self.closed.set index { file with writer := writer } }
  | none => none

def step (self : WalTask) : WalEvent → Option WalTask
  | .request request => if self.idle then some { self with batch := request.entries } else none
  | .close =>
    if self.idle then some { self.withWriter self.current.writer.close with stopping := true } else none
  | .work => self.work xxh64 sort settings
  | .task event => (self.current.writer.taskStep settings.fsync event).map self.withWriter
  | .late index event => self.late settings index event

end Steps

def image (self : WalTask) (settings : AckFileWriterSettings) : WriterState :=
  ⟨self.current.fileId, self.current.header, settings.maxFileSize, self.current.writer.writes,
    self.closed.map OwnedFile.image, self.hasWritten, self.buffer⟩

section Refinement

variable {xxh64 : Hash} {settings : AckFileWriterSettings} {s : WalTask}

def Sized (s : WalTask) : Prop :=
  s.current.writer.currentSize = s.current.image.bytes.length

theorem mustRotate_image (sized : s.Sized) (entry : Entry) :
    s.mustRotate settings entry = (s.image settings).mustRotate entry.1 entry.2.length := by
  unfold WalTask.mustRotate WriterState.mustRotate WriterState.canAdd AckFileWriter.canAdd
  rw [sized]
  rfl

theorem image_rotate (entry : Entry) :
    (s.rotate entry).image settings = (s.image settings).rotate entry.1 entry.2.length := by
  simp only [image, rotate, WriterState.rotate, List.map_append]
  rfl

theorem image_withWriter {writer : AckFileWriter} (same : writer.writes = s.current.writer.writes) :
    (s.withWriter writer).image settings = s.image settings := by
  simp only [image, withWriter, same]

theorem image_hand {entry : Entry} {rest : List Entry}
    (fits : s.current.header.canHoldEntry entry.1 entry.2.length = true) :
    (s.hand xxh64 entry rest).image settings = { s.image settings with
      writes := s.current.writer.writes ++ [(entry.1, entryBytes xxh64 s.current.header entry.1 entry.2)]
      hasWritten := true } := by
  unfold hand
  rw [encodeEntry_ok xxh64 fits]
  rfl

/-- Handing an entry over, after a rotation if one is due, is the step of the ideal writer. -/
theorem image_writeEntry (sized : s.Sized) (entry : Entry) (rest : List Entry) :
    ((if s.mustRotate settings entry then s.rotate entry else s).hand xxh64 entry rest).image settings =
      ((s.image settings).writeEntry xxh64 entry).1 := by
  unfold WriterState.writeEntry
  rw [← mustRotate_image sized]
  by_cases full : s.mustRotate settings entry = true
  · have fits : (s.rotate entry).current.header.canHoldEntry entry.1 entry.2.length = true :=
      s.current.header.resize_canHoldEntry entry.1 entry.2.length
    have encoded := encodeEntry_ok xxh64 fits
    rw [if_pos full, if_pos full, image_hand fits, image_rotate]
    change encodeEntry xxh64 ((s.image settings).rotate entry.1 entry.2.length).header _ _ = _ at encoded
    dsimp only
    rw [encoded]
    rfl
  · have fits : s.current.header.canHoldEntry entry.1 entry.2.length = true := by
      simp only [WalTask.mustRotate, Bool.or_eq_true, Bool.not_eq_true', not_or, Bool.not_eq_false] at full
      exact full.2
    have encoded := encodeEntry_ok xxh64 fits
    rw [if_neg full, if_neg full, image_hand fits]
    change encodeEntry xxh64 (s.image settings).header _ _ = _ at encoded
    dsimp only
    rw [encoded]
    rfl

end Refinement

/-- What the task itself can do, each move with its guard. -/
inductive Works (xxh64 : Hash) (sort : UnstableSort)
    (settings : AckFileWriterSettings) (s : WalTask) : WalTask → Prop where
  | wait {entry : Entry} {rest : List Entry} (ready : s.ready = entry :: rest)
    (full : s.mustRotate settings entry = true) :
    Works xxh64 sort settings s (s.withWriter s.current.writer.close)
  | rotate {entry : Entry} {rest : List Entry} (ready : s.ready = entry :: rest)
    (full : s.mustRotate settings entry = true) (ended : s.current.writer.task = .ended) :
    Works xxh64 sort settings s ((s.rotate entry).hand xxh64 entry rest)
  | hand {entry : Entry} {rest : List Entry} (ready : s.ready = entry :: rest)
    (room : s.mustRotate settings entry = false) :
    Works xxh64 sort settings s (s.hand xxh64 entry rest)
  | accept {entry : Entry} {rest : List Entry} (ready : s.ready = [])
    (batch : s.batch = entry :: rest) :
    Works xxh64 sort settings s { s with
      buffer := (s.buffer.accept sort entry).2
      batch := rest
      ready := (s.buffer.accept sort entry).1
      received := s.received ++ [entry]
      accepted := s.accepted ++ (s.buffer.accept sort entry).1 }

structure Late (fsync : Bool) (s : WalTask) (index : Nat) (event : DiskEvent) (file : OwnedFile)
    (writer : AckFileWriter) : Prop where
  found : s.closed[index]? = some file
  moved : AckFileWriter.Moves fsync file.writer (.disk event) writer

theorem late_of_step {settings : AckFileWriterSettings} {s next : WalTask} {index : Nat}
    {event : DiskEvent} (moved : s.late settings index event = some next) :
    ∃ file writer, Late settings.fsync s index event file writer ∧
      next = { s with closed := s.closed.set index { file with writer := writer } } := by
  unfold late at moved
  split at moved
  · rename_i file found
    obtain ⟨writer, stepped, rfl⟩ := Option.map_eq_some_iff.mp moved
    exact ⟨file, writer, ⟨found, AckFileWriter.moves_of_taskStep stepped⟩, rfl⟩
  · cases moved

theorem forall_mem_set {α : Type} {P : α → Prop} {l : List α} {x : α} (all : ∀ y ∈ l, P y) (new : P x)
    (index : Nat) : ∀ y ∈ l.set index x, P y := by
  intro y member
  rcases List.mem_or_eq_of_mem_set member with earlier | rfl
  · exact all y earlier
  · exact new

namespace Late

variable {fsync : Bool} {s : WalTask} {index : Nat} {event : DiskEvent} {file : OwnedFile}
  {writer : AckFileWriter}

section

variable (late : Late fsync s index event file writer)

include late

theorem mem : file ∈ s.closed :=
  List.mem_of_getElem? late.found

theorem content :
    file.writer.content <+: writer.content := by
  cases late.moved with
  | disk carried => exact DeferredFile.carry_grows carried

theorem unsettled :
    file.writer.file.isSettled = false := by
  cases late.moved with
  | disk carried => exact DeferredFile.unsettled_of_carry carried

theorem map {α : Type} (view : OwnedFile → α)
    (same : view { file with writer := writer } = view file) :
    (s.closed.set index { file with writer := writer }).map view = s.closed.map view := by
  rw [List.map_set, same]
  apply List.ext_getElem?
  intro i
  rw [List.getElem?_set]
  split
  · rename_i here
    subst here
    split
    · rw [List.getElem?_map, late.found]
      rfl
    · rename_i beyond
      rw [List.getElem?_eq_none (Nat.le_of_not_lt beyond)]
  · rfl

end

end Late

theorem works_of_work {xxh64 : Hash} {sort : UnstableSort}
    {settings : AckFileWriterSettings} {s next : WalTask} (moved : s.work xxh64 sort settings = some next) :
    Works xxh64 sort settings s next := by
  unfold work at moved
  split at moved
  · rename_i ready
    split at moved
    · rename_i full
      split at moved
      · cases moved
        exact .rotate ready full ‹_›
      · split at moved <;> cases moved
        exact .wait ready full
    · cases moved
      exact .hand ready (Bool.eq_false_iff.mpr ‹_›)
  · split at moved <;> cases moved
    exact .accept ‹_› ‹_›

end WalTask

end NormFS
