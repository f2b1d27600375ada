import NormFS.Wal.CrashPrefix
import NormFS.Wal.OrderedBuffer

/-! The task that owns a WAL. It puts requests in order, starts a new file when the current one is
full or its header is too narrow for an entry, and hands encoded entries to the file writer. Here
the file writer is ideal: a file is its header and the calls made on its writer. -/
namespace NormFS

open LittleEndian Framing OrderedBuffer

inductive WriteRequest where
  | enqueue (entryId : UintN) (data : Bytes)
  | enqueueBatch (entries : List Entry)
  deriving DecidableEq

structure FileImage where
  fileId : UintN
  header : WalHeader
  writes : List (UintN × List UInt8)
  deriving DecidableEq

def FileImage.bytes (f : FileImage) : List UInt8 :=
  f.header.writeToBytes ++ f.writes.flatMap Prod.snd

structure WriterState where
  fileId : UintN
  header : WalHeader
  maxFileSize : Nat
  writes : List (UintN × List UInt8)
  completed : List FileImage
  hasWritten : Bool
  buffer : OrderedBuffer
  deriving DecidableEq

namespace WriterState

def new (fileId : UintN) (header : WalHeader) (maxFileSize : Nat) (lastEntryId : Option UintN) :
    WriterState :=
  ⟨fileId, header, maxFileSize, [], [], false, .new lastEntryId⟩

def current (self : WriterState) : FileImage := ⟨self.fileId, self.header, self.writes⟩

def files (self : WriterState) : List FileImage := self.completed ++ [self.current]

def canAdd (self : WriterState) (size : Nat) : Bool :=
  self.current.bytes.length + size ≤ self.maxFileSize

def rotate (self : WriterState) (nextEntryId : UintN) (nextDataSize : Nat) : WriterState :=
  { self with
    completed := self.completed ++ [self.current]
    fileId := self.fileId.increment
    header := { self.header.resize nextEntryId nextDataSize with numEntriesBefore := nextEntryId }
    writes := []
    hasWritten := false }

def mustRotate (self : WriterState) (entryId : UintN) (dataSize : Nat) : Bool :=
  (self.hasWritten && !self.canAdd dataSize) || !self.header.canHoldEntry entryId dataSize

section Writing

variable (xxh64 : Hash) (sort : UnstableSort)

/- The body of the loop over the entries that are ready. An encoder error leaves the loop after
a rotation has already happened. -/
def writeEntry (self : WriterState) (entry : Entry) : WriterState × Except WalError Unit :=
  let rotated :=
    if self.mustRotate entry.1 entry.2.length then self.rotate entry.1 entry.2.length else self
  match encodeEntry xxh64 rotated.header entry.1 entry.2 with
  | .error e => (rotated, .error (.walHeaderError (.uintN e)))
  | .ok bytes => ({ rotated with writes := rotated.writes ++ [(entry.1, bytes)], hasWritten := true }, .ok ())

def writeEntries (self : WriterState) :
    List Entry → WriterState × Except WalError Unit
  | [] => (self, .ok ())
  | entry :: rest =>
    match self.writeEntry xxh64 entry with
    | (next, .error e) => (next, .error e)
    | (next, .ok ()) => next.writeEntries rest

def write (self : WriterState) (entryId : UintN) (data : Bytes) :
    WriterState × Except WalError Unit :=
  let (ready, buffer) := self.buffer.accept sort (entryId, data)
  { self with buffer := buffer }.writeEntries xxh64 ready

def writeBatch (self : WriterState) : List Entry → WriterState × Except WalError Unit
  | [] => (self, .ok ())
  | (entryId, data) :: rest =>
    match self.write xxh64 sort entryId data with
    | (next, .error e) => (next, .error e)
    | (next, .ok ()) => next.writeBatch rest

def handle (self : WriterState) : WriteRequest → WriterState × Except WalError Unit
  | .enqueue entryId data => self.write xxh64 sort entryId data
  | .enqueueBatch entries => self.writeBatch xxh64 sort entries

/-- The loop of the task over its channel, with the errors it logs. -/
def serve (self : WriterState) : List WriteRequest → WriterState × List WalError
  | [] => (self, [])
  | request :: rest =>
    match self.handle xxh64 sort request with
    | (next, .error e) => ((next.serve rest).1, e :: (next.serve rest).2)
    | (next, .ok ()) => next.serve rest

end Writing

end WriterState

def WriteRequest.entries : WriteRequest → List Entry
  | .enqueue entryId data => [(entryId, data)]
  | .enqueueBatch entries => entries

end NormFS
