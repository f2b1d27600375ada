import NormFS.Disk
import NormFS.Lib.Memo

/-! Which file holds an entry. The first and the last file of both stores bound the search; the
files between are bisected by the first entry of each. Where a file is missing the search falls
back to the cloud, or without one to the nearest file before. -/
namespace NormFS

inductive CloudError where
  | noFilesFound
  | other
  deriving DecidableEq, Repr

structure Cloud where
  findMinId : Except CloudError (Option UintN)
  getFileRange : UintN → Except CloudError (Option EntryRange)
  getStoreBytes : UintN → Except CloudError (Option Bytes)

inductive LookupError where
  | store (error : StoreError)
  | wal (error : WalError)
  deriving DecidableEq, Repr

/- `endless` is a search that repeats the same probe for ever. -/
inductive Located where
  | file (fileId : UintN)
  | nothing
  | endless
  deriving DecidableEq, Repr

abbrev LookupM := Memo RangeCache LookupError

structure Probe where
  fileId : UintN
  start : UintN
  stop : Option UintN

/- An answer of the WAL that may say that there is nothing. -/
inductive WalProbe where
  | start (id : UintN)
  | notFound
  | empty

/- The bounds of the search: two files, the last entry of the left one where it is known, and the
first entry of the right one. -/
structure Bounds where
  leftFileId : UintN
  rightFileId : UintN
  leftEnd : Option UintN
  rightStart : UintN

inductive Round where
  | found (fileId : UintN)
  | narrowed (bounds : Bounds)

def raise {σ α : Type} (e : LookupError) : Memo σ LookupError α := fun _ => .err e

/- The three probes of the bisection; the last one is missing without a bucket. Their answers may
depend on a state, so that a probe may answer differently every time it is made. -/
structure Prober (σ : Type) where
  storeRange : UintN → Memo σ LookupError (Option EntryRange)
  walStart : UintN → Memo σ LookupError WalProbe
  cloudRange : Option (UintN → Memo σ LookupError (Except CloudError (Option EntryRange)))

namespace Prober

variable {σ : Type} (p : Prober σ)

/- The number of the file bounds the walk, so the first case is never reached. -/
def findValidFileBackward (minFileId : UintN) : Nat → UintN → Memo σ LookupError (Option Probe)
  | 0, _ => pure none
  | fuel + 1, searchId => do
    match ← p.storeRange searchId with
    | some (start, stop) => pure (some ⟨searchId, start, some stop⟩)
    | none =>
      match ← p.walStart searchId with
      | .start start => pure (some ⟨searchId, start, none⟩)
      | _ =>
        if searchId ≤ minFileId then pure none
        else match searchId.decrement with
          | .ok previous => findValidFileBackward minFileId fuel previous
          | .error _ => raise (.wal .walNotFound)

/-- The middle file is missing or empty: the nearest file before it becomes the right one. -/
def searchBackward (b : Bounds) (midFileId : UintN) : Memo σ LookupError Round := do
  match ← p.findValidFileBackward b.leftFileId.increment (midFileId.toNat + 1) midFileId with
  | some valid => pure (.narrowed ⟨b.leftFileId, valid.fileId, valid.stop, valid.start⟩)
  | none => pure (.found b.leftFileId)

/-- The start of the file after the middle one, `none` when the bucket cannot tell. -/
def nextStart (nextMid : UintN) : Memo σ LookupError (Option UintN) := do
  match ← p.storeRange nextMid with
  | some (start, _) => pure (some start)
  | none =>
    match ← p.walStart nextMid with
    | .start start => pure (some start)
    | .notFound =>
      match p.cloudRange with
      | some getFileRange =>
        match ← getFileRange nextMid with
        | .ok (some (start, _)) => pure (some start)
        | .ok none => raise (.store .fileNotFound)
        | .error _ => pure none
      | none => raise (.wal .walNotFound)
    | .empty => raise (.store .fileNotFound)

def halve (targetId : UintN) (b : Bounds) (midFileId midStart : UintN) (midEnd : Option UintN) :
    Memo σ LookupError Round := do
  if targetId < midStart then
    pure (.narrowed { b with rightFileId := midFileId, rightStart := midStart })
  else match midEnd with
    | some stop =>
      if targetId ≤ stop then pure (.found midFileId)
      else pure (.narrowed { b with leftFileId := midFileId, leftEnd := some stop })
    | none =>
      let nextMid := midFileId.increment
      if nextMid ≤ b.rightFileId then
        match ← p.nextStart nextMid with
        | some start =>
          if targetId < start then pure (.found midFileId)
          else pure (.narrowed { b with leftFileId := midFileId, leftEnd := none })
        | none => pure (.found midFileId)
      else pure (.found midFileId)

/- One round of the loop. A bucket that fails leaves the bounds as they are. -/
def searchRound (targetId : UintN) (b : Bounds) : Memo σ LookupError Round := do
  if b.leftFileId == b.rightFileId then pure (.found b.leftFileId)
  else if b.leftFileId.increment == b.rightFileId then
    match b.leftEnd with
    | some leftEnd => pure (.found (if targetId ≤ leftEnd then b.leftFileId else b.rightFileId))
    | none => pure (.found (if targetId < b.rightStart then b.leftFileId else b.rightFileId))
  else
    let midFileId := b.leftFileId.middle b.rightFileId
    match ← p.storeRange midFileId with
    | some (start, stop) => p.halve targetId b midFileId start (some stop)
    | none =>
      match ← p.walStart midFileId with
      | .start start => p.halve targetId b midFileId start none
      | .notFound =>
        match p.cloudRange with
        | some getFileRange =>
          match ← getFileRange midFileId with
          | .ok (some (start, stop)) => p.halve targetId b midFileId start (some stop)
          | .ok none => raise (.store .fileNotFound)
          | .error _ => pure (.narrowed b)
        | none => p.searchBackward b midFileId
      | .empty => p.searchBackward b midFileId

end Prober

section Lookup

variable (config : StoreConfig) (disk : Disk) (cloud : Option Cloud)

def storeRange (fileId : UintN) : LookupM (Option EntryRange) :=
  fun ranges => (PersistStore.getFileRange config disk fileId ranges).mapErr .store

def walStart (fileId : UintN) : LookupM WalProbe :=
  match WalStore.getEntriesBefore disk fileId with
  | .ok start => pure (.start start)
  | .err .walNotFound => pure .notFound
  | .err (.walEmpty _) => pure .empty
  | .err e => raise (.wal e)
  | .panic => fun _ => .panic

/-- The two stores of the disk, and a bucket that always says the same. -/
def Prober.ofDisk : Prober RangeCache where
  storeRange := NormFS.storeRange config disk
  walStart := NormFS.walStart disk
  cloudRange := cloud.map (fun s3 fileId => pure (s3.getFileRange fileId))

/- Every round but one with a failing bucket brings the two files closer, so their distance bounds
the rounds; a failing bucket is asked again and again. Files in the wrong order come closer too,
until they are neighbours; from then on the search repeats itself. -/
def binarySearch (targetId : UintN) : Nat → Bounds → LookupM Located
  | 0, _ => pure .endless
  | fuel + 1, b => do
    match ← (Prober.ofDisk config disk cloud).searchRound targetId b with
    | .found fileId => pure (.file fileId)
    | .narrowed b => binarySearch targetId fuel b

def pickOf (choose : UintN → UintN → UintN) : List (Option UintN) → Option UintN
  | [] => none
  | none :: rest => pickOf choose rest
  | some a :: rest =>
    match pickOf choose rest with
    | some b => some (choose a b)
    | none => some a

def leastOf : List (Option UintN) → Option UintN := pickOf (fun a b => if b < a then b else a)
def greatestOf : List (Option UintN) → Option UintN := pickOf (fun a b => if b < a then a else b)

def firstProbe (firstFileId : UintN) (storeStartRange : Option EntryRange) :
    LookupM (Option Probe) := do
  match storeStartRange with
  | some (start, stop) => pure (some ⟨firstFileId, start, some stop⟩)
  | none =>
    match ← walStart disk firstFileId with
    | .start start => pure (some ⟨firstFileId, start, none⟩)
    | .notFound =>
      match cloud with
      | some s3 =>
        match s3.getFileRange firstFileId with
        | .ok (some (start, stop)) => pure (some ⟨firstFileId, start, some stop⟩)
        | _ => pure none
      | none => raise (.wal .walNotFound)
    | .empty => pure none

def searchBetween (targetId : UintN) (first last : Probe) : LookupM Located :=
  if last.start < targetId then pure (.file last.fileId)
  else if last.stop.any (fun stop => decide (stop < targetId)) then pure .nothing
  else
    let distance :=
      (last.fileId.toNat - first.fileId.toNat) + (first.fileId.toNat - last.fileId.toNat)
    binarySearch config disk cloud targetId (distance + 1)
      ⟨first.fileId, last.fileId, first.stop, last.start⟩

def searchAfter (targetId : UintN) (first : Probe) (lastFileId : UintN) : LookupM Located := do
  match ← (Prober.ofDisk config disk cloud).findValidFileBackward first.fileId
      (lastFileId.toNat + 1) lastFileId with
  | none => pure .nothing
  | some last => searchBetween config disk cloud targetId first last

def searchFiles (targetId firstFileId lastFileId : UintN) : LookupM Located := do
  let storeStartRange ← storeRange config disk firstFileId
  let _ ← storeRange config disk lastFileId
  match ← firstProbe disk cloud firstFileId storeStartRange with
  | none => pure .nothing
  | some first =>
    if targetId < first.start || first.stop.any (fun stop => decide (targetId ≤ stop)) then
      pure (.file firstFileId)
    else searchAfter config disk cloud targetId first lastFileId

/-- The first file of the stores and the bucket, and the last one of the stores. -/
def fileBounds : Except LookupError (Option (UintN × UintN)) := do
  let storeFirstId ← (PersistStore.getFirstFileId disk).mapError (fun e => .store (.path e))
  let storeLastId ← (PersistStore.getLastFileId disk).mapError (fun e => .store (.path e))
  let walFirstId ← (WalStore.getFirstFileId disk).mapError (fun _ => .wal .pathError)
  let walLastId ← (WalStore.getLastFileId disk).mapError (fun _ => .wal .pathError)
  let s3FirstId := cloud.bind (fun s3 => match s3.findMinId with
    | .ok id => id
    | .error _ => none)
  pure (match leastOf [storeFirstId, walFirstId, s3FirstId], greatestOf [storeLastId, walLastId] with
    | some firstFileId, some lastFileId => some (firstFileId, lastFileId)
    | _, _ => none)

def findFileWithS3 (targetId : UintN) : LookupM Located := do
  match ← Memo.ofOutcome (Outcome.ofExcept (fileBounds disk cloud)) with
  | none => pure .nothing
  | some (firstFileId, lastFileId) => searchFiles config disk cloud targetId firstFileId lastFileId

end Lookup

end NormFS
