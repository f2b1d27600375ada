import NormFS.Store.Ranges

/-! The files of one queue and the questions the WAL store and the persistent store ask about
them. A path that is not listed does not exist. -/
namespace NormFS

structure Disk where
  wal : List (Path × Bytes)
  store : List (Path × Bytes)

namespace Disk

def walFile (disk : Disk) (fileId : UintN) : Option Bytes :=
  disk.wal.lookup (fileId.toFilePath walExtension)

def storeFile (disk : Disk) (fileId : UintN) : Option Bytes :=
  disk.store.lookup (fileId.toFilePath storeExtension)

/- The same, by the value of the number. -/
def walAt (disk : Disk) (n : Nat) : Option Bytes := disk.walFile (.ofUbig n)
def storeAt (disk : Disk) (n : Nat) : Option Bytes := disk.storeFile (.ofUbig n)

def Has (disk : Disk) (f : Nat) : Prop := disk.walAt f ≠ none ∨ disk.storeAt f ≠ none

instance (disk : Disk) (f : Nat) : Decidable (disk.Has f) :=
  inferInstanceAs (Decidable (disk.walAt f ≠ none ∨ disk.storeAt f ≠ none))

theorem walFile_eq (disk : Disk) (fileId : UintN) : disk.walFile fileId = disk.walAt fileId.toNat := by
  unfold walAt walFile
  rw [toFilePath_congr (b := .ofUbig fileId.toNat) (by simp)]

theorem storeFile_eq (disk : Disk) (fileId : UintN) :
    disk.storeFile fileId = disk.storeAt fileId.toNat := by
  unfold storeAt storeFile
  rw [toFilePath_congr (b := .ofUbig fileId.toNat) (by simp)]

end Disk

def noneIfNoFiles : Except PathError UintN → Except PathError (Option UintN)
  | .ok id => .ok (some id)
  | .error .noFilesFound => .ok none
  | .error e => .error e

namespace WalStore

variable (disk : Disk)

def findLastFileId : Except PathError UintN := findMaxId (disk.wal.map Prod.fst) walExtension

def getFirstFileId : Except PathError (Option UintN) :=
  noneIfNoFiles (findMinId (disk.wal.map Prod.fst) walExtension)

def getLastFileId : Except PathError (Option UintN) :=
  noneIfNoFiles (findMaxId (disk.wal.map Prod.fst) walExtension)

def getFileEnd (xxh64 : Hash) (fileId : UintN) : Outcome WalError (Option UintN) :=
  match getWalRange xxh64 ((disk.walFile fileId).map Bytes.data) fileId with
  | .ok (_, entries) => .ok (entries.map Prod.snd)
  | .err (.walEmpty _) => .ok none
  | .err .walNotFound => .ok none
  | .err e => .err e
  | .panic => .panic

def getEntriesBefore (fileId : UintN) : Outcome WalError UintN := do
  let header ← readWalHeader ((disk.walFile fileId).map Bytes.data) fileId
  pure header.numEntriesBefore

def getFileHeader (fileId : UintN) : Outcome WalError (Option WalHeader) :=
  match readWalHeader ((disk.walFile fileId).map Bytes.data) fileId with
  | .ok header => .ok (some header)
  | .err .walNotFound => .ok none
  | .err e => .err e
  | .panic => .panic

def getWalBytes (fileId : UintN) : Option Bytes := disk.walFile fileId

end WalStore

namespace PersistStore

variable (config : StoreConfig) (disk : Disk)

def findLastFileId : Except PathError UintN := findMaxId (disk.store.map Prod.fst) storeExtension

def getFirstFileId : Except PathError (Option UintN) :=
  noneIfNoFiles (findMinId (disk.store.map Prod.fst) storeExtension)

def getLastFileId : Except PathError (Option UintN) :=
  noneIfNoFiles (findMaxId (disk.store.map Prod.fst) storeExtension)

def getFileRange (fileId : UintN) (ranges : RangeCache) :
    Outcome StoreError (Option EntryRange × RangeCache) :=
  (getRange config (disk.storeFile fileId) fileId ranges).mapErr .range

def getFileEnd (fileId : UintN) (ranges : RangeCache) :
    Outcome StoreError (Option UintN × RangeCache) := do
  let (range, ranges) ← getFileRange config disk fileId ranges
  pure (range.map Prod.snd, ranges)

/- A file of less than ten bytes is not looked into, and every error becomes `none`. -/
def getFileHeader (fileId : UintN) : Outcome StoreError (Option WalHeader) :=
  match disk.storeFile fileId with
  | none => .ok none
  | some storeFileBytes =>
    if storeFileBytes.length < 10 then .ok none
    else match extractWalHeader config fileId storeFileBytes with
      | .ok walHeader => .ok (some walHeader)
      | .err _ => .ok none
      | .panic => .panic

def getStoreBytes (fileId : UintN) : Option Bytes := disk.storeFile fileId

end PersistStore

end NormFS
