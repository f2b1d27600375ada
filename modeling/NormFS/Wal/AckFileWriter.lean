import NormFS.Lib.DeferredFile
import NormFS.Lib.Runs
import NormFS.Types
import NormFS.UintN.Value

/-! The writer of one WAL file. Its owner puts entries into a buffer; a task of its own takes the
whole buffer as one block, writes it, syncs it and acknowledges its last entry. A failed write or
sync is tried again with the whole block. The file carries its writes out in the background, so
`write_all` returns when the last piece of the block is taken over. -/
namespace NormFS

structure AckFileWriterSettings where
  maxFileSize : Nat
  fsync : Bool
  deriving DecidableEq

structure Block where
  data : List UInt8
  acks : List UintN
  deriving DecidableEq

/-- Where the writer task is. `closing` marks the flush that a shutdown asked for, `handed` counts
the bytes that the present call of `write_all` has handed over to the file. -/
inductive WriterTask where
  | waiting
  | writing (block : Block) (closing : Bool) (attempt handed : Nat)
  | syncing (block : Block) (closing : Bool) (attempt : Nat)
  | returning (block : Block) (closing : Bool)
  | ended
  deriving DecidableEq

/-- The file, the state shared between the owner and the task, and the task. `writes` and `sent`
record the calls of `write` and the acknowledgements sent so far. -/
structure AckFileWriter where
  file : DeferredFile UInt8
  buffer : List UInt8
  acks : List UintN
  currentSize : Nat
  shutdown : Bool
  task : WriterTask
  writes : List (UintN × List UInt8)
  sent : List UintN
  deriving DecidableEq

/-- What happens to the task and its file: the select wakes up, a piece of the block is taken over, a
call returns, a block that could not be written goes back to the buffer, or the disk goes on. -/
inductive TaskEvent where
  | flush
  | takeOver (count : Nat)
  | writeFailed
  | writeDone
  | syncFailed
  | syncDone
  | giveBack
  | disk (event : DiskEvent)
  deriving DecidableEq

inductive WriterEvent where
  | write (entryId : UintN) (entry : List UInt8)
  | close
  | task (event : TaskEvent)
  deriving DecidableEq

namespace AckFileWriter

def maxRetries : Nat := 1000

/- `write_all` has handed the header over, but it need not be in the file yet. -/
def new (header : List UInt8) : AckFileWriter :=
  ⟨⟨[], .writing header⟩, [], [], header.length, false, .waiting, [], []⟩

/-- The bytes in the file at this moment. -/
abbrev content (self : AckFileWriter) : List UInt8 := self.file.content

def canAdd (self : AckFileWriter) (settings : AckFileWriterSettings) (size : Nat) : Bool :=
  self.currentSize + size ≤ settings.maxFileSize

def write (self : AckFileWriter) (entryId : UintN) (entry : List UInt8) : AckFileWriter :=
  { self with
    buffer := self.buffer ++ entry
    acks := self.acks ++ [entryId]
    currentSize := self.currentSize + entry.length
    writes := self.writes ++ [(entryId, entry)] }

/-- The message to the task. The owner then waits until the task has ended. -/
def close (self : AckFileWriter) : AckFileWriter := { self with shutdown := true }

/-- After a flush the task goes back to its select, or leaves the loop. -/
def afterFlush (closing : Bool) : WriterTask := if closing then .ended else .waiting

/-- Only the last acknowledgement of a block is sent. -/
def takeBlock (self : AckFileWriter) : Block := ⟨self.buffer, self.acks.getLast?.toList⟩

def afterFailure (block : Block) (closing : Bool) (attempt : Nat) : WriterTask :=
  if attempt + 1 < maxRetries then .writing block closing (attempt + 1) 0
  else .returning block closing

def acknowledge (self : AckFileWriter) (block : Block) (closing : Bool) : AckFileWriter :=
  { self with sent := self.sent ++ block.acks, task := afterFlush closing }

/- The select is biased: once a shutdown was sent, the next flush is the closing one. A write fails
with the error of the piece before it, and a sync only waits for the disk before it syncs. -/
def taskStep (fsync : Bool) (self : AckFileWriter) : TaskEvent → Option AckFileWriter
  | .flush =>
    match self.task with
    | .waiting =>
      if self.buffer = [] then some { self with task := afterFlush self.shutdown }
      else some { self with
        buffer := []
        acks := []
        task := .writing self.takeBlock self.shutdown 0 0 }
    | _ => none
  | .takeOver count =>
    match self.task with
    | .writing block closing attempt handed =>
      if 0 < count ∧ handed + count ≤ block.data.length then
        (self.file.takeOver ((block.data.drop handed).take count)).map fun file =>
          { self with file := file, task := .writing block closing attempt (handed + count) }
      else none
    | _ => none
  | .writeFailed =>
    match self.task with
    | .writing block closing attempt handed =>
      if handed < block.data.length then
        self.file.report.map fun file =>
          { self with file := file, task := afterFailure block closing attempt }
      else none
    | _ => none
  | .writeDone =>
    match self.task with
    | .writing block closing attempt handed =>
      if handed = block.data.length then
        if fsync then some { self with task := .syncing block closing attempt }
        else some (self.acknowledge block closing)
      else none
    | _ => none
  | .syncFailed =>
    match self.task with
    | .syncing block closing attempt =>
      if self.file.isSettled then some { self with task := afterFailure block closing attempt }
      else none
    | _ => none
  | .syncDone =>
    match self.task with
    | .syncing block closing _ =>
      if self.file.isSettled then some (self.acknowledge block closing) else none
    | _ => none
  | .giveBack =>
    match self.task with
    | .returning block closing => some { self with
        buffer := block.data ++ self.buffer
        acks := block.acks ++ self.acks
        task := afterFlush closing }
    | _ => none
  | .disk event => (self.file.carry event).map fun file => { self with file := file }

def step (settings : AckFileWriterSettings) (self : AckFileWriter) : WriterEvent → Option AckFileWriter
  | .write entryId entry => some (self.write entryId entry)
  | .close => some self.close
  | .task event => self.taskStep settings.fsync event

/-- What the task and the disk can do, each move with its guard. -/
inductive Moves (fsync : Bool) (s : AckFileWriter) : TaskEvent → AckFileWriter → Prop where
  | idle (waiting : s.task = .waiting) (empty : s.buffer = []) :
    Moves fsync s .flush { s with task := afterFlush s.shutdown }
  | take (waiting : s.task = .waiting) (filled : s.buffer ≠ []) :
    Moves fsync s .flush { s with
      buffer := [], acks := [], task := .writing s.takeBlock s.shutdown 0 0 }
  | takeOver {block : Block} {closing : Bool} {attempt handed count : Nat} {file : DeferredFile UInt8}
    (writing : s.task = .writing block closing attempt handed)
    (some' : 0 < count) (within : handed + count ≤ block.data.length)
    (taken : s.file.takeOver ((block.data.drop handed).take count) = some file) :
    Moves fsync s (.takeOver count) { s with
      file := file, task := .writing block closing attempt (handed + count) }
  | writeFailed {block : Block} {closing : Bool} {attempt handed : Nat} {file : DeferredFile UInt8}
    (writing : s.task = .writing block closing attempt handed)
    (reported : s.file.report = some file) :
    Moves fsync s .writeFailed { s with file := file, task := afterFailure block closing attempt }
  | sync {block : Block} {closing : Bool} {attempt : Nat} (syncs : fsync = true)
    (writing : s.task = .writing block closing attempt block.data.length) :
    Moves fsync s .writeDone { s with task := .syncing block closing attempt }
  | writeDone {block : Block} {closing : Bool} {attempt : Nat} (unsynced : fsync = false)
    (writing : s.task = .writing block closing attempt block.data.length) :
    Moves fsync s .writeDone (s.acknowledge block closing)
  | syncFailed {block : Block} {closing : Bool} {attempt : Nat}
    (syncing : s.task = .syncing block closing attempt) (settled : s.file.isSettled = true) :
    Moves fsync s .syncFailed { s with task := afterFailure block closing attempt }
  | syncDone {block : Block} {closing : Bool} {attempt : Nat}
    (syncing : s.task = .syncing block closing attempt) (settled : s.file.isSettled = true) :
    Moves fsync s .syncDone (s.acknowledge block closing)
  | giveBack {block : Block} {closing : Bool} (returning : s.task = .returning block closing) :
    Moves fsync s .giveBack { s with
      buffer := block.data ++ s.buffer, acks := block.acks ++ s.acks, task := afterFlush closing }
  | disk {event : DiskEvent} {file : DeferredFile UInt8} (carried : s.file.carry event = some file) :
    Moves fsync s (.disk event) { s with file := file }

theorem moves_of_taskStep {fsync : Bool} {s next : AckFileWriter} {event : TaskEvent}
    (moved : s.taskStep fsync event = some next) : Moves fsync s event next := by
  cases event with
  | flush =>
    simp only [taskStep] at moved
    split at moved
    · split at moved <;> cases moved
      · exact .idle ‹_› ‹_›
      · exact .take ‹_› ‹_›
    · cases moved
  | takeOver count =>
    simp only [taskStep] at moved
    split at moved
    · split at moved
      · rename_i writing within
        obtain ⟨file, taken, rfl⟩ := Option.map_eq_some_iff.mp moved
        exact .takeOver writing within.1 within.2 taken
      · cases moved
    · cases moved
  | writeFailed =>
    simp only [taskStep] at moved
    split at moved
    · split at moved
      · obtain ⟨file, reported, rfl⟩ := Option.map_eq_some_iff.mp moved
        exact .writeFailed ‹_› reported
      · cases moved
    · cases moved
  | writeDone =>
    simp only [taskStep] at moved
    split at moved
    · split at moved
      · rename_i task whole
        subst whole
        split at moved <;> cases moved
        · exact .sync ‹_› task
        · exact .writeDone (Bool.eq_false_iff.mpr ‹_›) task
      · cases moved
    · cases moved
  | syncFailed =>
    simp only [taskStep] at moved
    split at moved
    · split at moved <;> cases moved
      exact .syncFailed ‹_› ‹_›
    · cases moved
  | syncDone =>
    simp only [taskStep] at moved
    split at moved
    · split at moved <;> cases moved
      exact .syncDone ‹_› ‹_›
    · cases moved
  | giveBack =>
    simp only [taskStep] at moved
    split at moved <;> cases moved
    exact .giveBack ‹_›
  | disk event =>
    obtain ⟨file, carried, rfl⟩ := Option.map_eq_some_iff.mp moved
    exact .disk carried

end AckFileWriter

end NormFS
