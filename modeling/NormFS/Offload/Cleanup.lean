import Mathlib.Algebra.BigOperators.Group.Finset.Piecewise
import Mathlib.Algebra.Order.BigOperators.Group.Finset
import NormFS.Lib.Iterate
import NormFS.Lookup.GapFree
import NormFS.Offload

/-! One call of the disk monitor among files that nobody else touches. The loop deletes one copy of
each file, from the oldest on, and knows nothing of the file that is being written. What is left when
all older files have lost one copy decides whether it gets there. -/
namespace NormFS

structure DiskMonitorConfig where
  maxSize : Nat
  /-- `wal_settings.max_file_size`. -/
  maxFileSize : Nat

def Disk.fileCount (disk : Disk) : Nat := disk.wal.length + disk.store.length

inductive DiskMonitorError where
  | invalidInput (text : String)

/-- A product beyond the machine word is a panic. -/
def DiskMonitorConfig.validate (config : DiskMonitorConfig) : Outcome DiskMonitorError Unit :=
  let minSize := config.maxFileSize * 3
  let maxSize := config.maxSize
  if 2 ^ 64 ≤ minSize then .panic
  else if maxSize < minSize then
    .err (.invalidInput s!"Queue max_size ({maxSize}) must be at least 3x WAL file size ({minSize})")
  else .ok ()

structure Removal where
  fileId : Nat
  directory : Directory
  size : Nat

structure Cleaner where
  config : DiskMonitorConfig
  /-- The offloader, if there is one, with the highest number it has confirmed. -/
  offloader : Option (Option UintN)
  /-- Whether `metadata` and `remove_file` succeed. -/
  succeeds : Directory → UintN → Bool

structure Sweep where
  disk : Disk
  sizeToFree : Nat
  currentId : UintN
  removals : List Removal

namespace Cleaner

variable (monitor : Cleaner)

def mayDelete (currentId : UintN) : Bool :=
  canDelete monitor.offloader.isSome monitor.offloader.join currentId

def deleteFile (s : Sweep) (directory : Directory) (file : Bytes) : Sweep :=
  if monitor.succeeds directory s.currentId then
    { s with
      disk := s.disk.delete s.currentId directory
      sizeToFree := s.sizeToFree - file.data.length
      removals := s.removals ++ [⟨s.currentId.toNat, directory, file.data.length⟩] }
  else s

/-- The store file if there is one, otherwise the WAL file. -/
def deleteCopy (s : Sweep) : Sweep :=
  match s.disk.storeFile s.currentId, s.disk.walFile s.currentId with
  | some file, _ => monitor.deleteFile s .store file
  | none, some file => monitor.deleteFile s .wal file
  | none, none => s

/-- One pass of the loop, `none` when it is left. -/
def pass (s : Sweep) : Option Sweep :=
  if s.sizeToFree = 0 then none
  else if (s.disk.storeFile s.currentId).isNone && (s.disk.walFile s.currentId).isNone then none
  else if monitor.mayDelete s.currentId then
    some { monitor.deleteCopy s with currentId := s.currentId.increment }
  else none

/-- The files are deleted one by one, so there are at most as many passes. -/
def cleanupOldestFiles (disk : Disk) (currentSize : Nat) : Disk × List Removal :=
  let sizeToFree := currentSize - monitor.config.maxSize
  if sizeToFree = 0 then (disk, [])
  else match disk.minFileId with
    | none => (disk, [])
    | some currentId =>
      let final := Iterate.finish monitor.pass disk.fileCount ⟨disk, sizeToFree, currentId, []⟩
      (final.disk, final.removals)

end Cleaner

namespace Disk

variable (disk : Disk)

def walSize (m : Nat) : Nat := ((disk.walAt m).map (fun file => file.data.length)).getD 0
def storeSize (m : Nat) : Nat := ((disk.storeAt m).map (fun file => file.data.length)).getD 0

def Doubled (m : Nat) : Prop := disk.walAt m ≠ none ∧ disk.storeAt m ≠ none

instance (m : Nat) : Decidable (disk.Doubled m) := inferInstanceAs (Decidable (_ ∧ _))

def copyAt (m : Nat) : Removal :=
  if (disk.storeAt m).isSome then ⟨m, .store, disk.storeSize m⟩ else ⟨m, .wal, disk.walSize m⟩

def spareSize (m : Nat) : Nat := if (disk.storeAt m).isSome then disk.walSize m else 0

def freed (b k : Nat) : Nat := ∑ i ∈ Finset.range k, (disk.copyAt (b + i)).size

/-- What is left of the files `a`, …, `a + older` when all but the last one have lost a copy. -/
def leftover (a older : Nat) : Nat :=
  ∑ i ∈ Finset.range older, disk.spareSize (a + i) + (disk.walSize (a + older) + disk.storeSize (a + older))

end Disk

/-- The files `a`, …, `a + older` and no others, the last one being written to. Each has a store file, a
WAL file or both. -/
structure Managed (config : DiskMonitorConfig) (disk : Disk) (a older : Nat) : Prop where
  walOnly : ∀ path ∈ disk.wal.map Prod.fst,
    ∃ i < older + 1, path = (UintN.ofUbig (a + i)).toFilePath walExtension
  storeOnly : ∀ path ∈ disk.store.map Prod.fst,
    ∃ i < older + 1, path = (UintN.ofUbig (a + i)).toFilePath storeExtension
  walOnce : (disk.wal.map Prod.fst).Nodup
  storeOnce : (disk.store.map Prod.fst).Nodup
  consecutive : ∀ i, i < older + 1 → disk.Has (a + i)
  active : disk.walAt (a + older) ≠ none
  sized : ∀ file ∈ disk.wal ++ disk.store, file.2.data.length ≤ config.maxFileSize
  accepted : config.validate = .ok ()

structure CleansUp (a active excess : Nat) (removals : List Removal) : Prop where
  spares : ∀ removal ∈ removals, removal.fileId ≠ active
  ordered : ∀ before removal after, removals = before ++ removal :: after → ∀ m, a ≤ m → m < removal.fileId →
    ∃ earlier ∈ before, earlier.fileId = m
  stops : ∀ before removal after, removals = before ++ removal :: after → (before.map Removal.size).sum < excess

/-- No offloader, and every system call succeeds. -/
def localCleaner (config : DiskMonitorConfig) : Cleaner := ⟨config, none, fun _ _ => true⟩

namespace Disk

variable {disk : Disk}

theorem copyAt_fileId (m : Nat) : (disk.copyAt m).fileId = m := by
  unfold copyAt
  split <;> rfl

theorem copyAt_size_add_spareSize (m : Nat) :
    (disk.copyAt m).size + disk.spareSize m = disk.walSize m + disk.storeSize m := by
  unfold copyAt spareSize storeSize
  split
  · exact Nat.add_comm _ _
  · rename_i missing
    have none' : disk.storeAt m = none := by simpa using missing
    simp [none']

theorem spareSize_le (m : Nat) : disk.spareSize m ≤ disk.walSize m := by
  unfold spareSize
  split
  · exact le_rfl
  · exact Nat.zero_le _

theorem doubled_of_spareSize {m : Nat} (left : disk.spareSize m ≠ 0) : disk.Doubled m := by
  unfold spareSize at left
  split at left
  · rename_i stored
    refine ⟨?_, Option.isSome_iff_ne_none.mp stored⟩
    intro missing
    simp [walSize, missing] at left
  · exact absurd rfl left

theorem copyAt_congr {other : Disk} {m : Nat} (wal : other.walAt m = disk.walAt m)
    (store : other.storeAt m = disk.storeAt m) : other.copyAt m = disk.copyAt m := by
  unfold copyAt storeSize walSize
  rw [wal, store]

theorem freed_succ (b k : Nat) : disk.freed b (k + 1) = disk.freed b k + (disk.copyAt (b + k)).size :=
  Finset.sum_range_succ ..

theorem freed_mono (b : Nat) {j k : Nat} (le : j ≤ k) : disk.freed b j ≤ disk.freed b k :=
  Finset.sum_le_sum_of_subset (Finset.range_mono le)

theorem walAt_delete_ne {directory : Directory} {id g : Nat} (apart : g ≠ id) :
    (disk.delete (.ofUbig id) directory).walAt g = disk.walAt g := by
  cases directory with
  | wal => rw [delete, walAt_deleteWal, UintN.toNat_ofUbig, if_neg apart]
  | store => rfl

theorem storeAt_delete_ne {directory : Directory} {id g : Nat} (apart : g ≠ id) :
    (disk.delete (.ofUbig id) directory).storeAt g = disk.storeAt g := by
  cases directory with
  | wal => rfl
  | store => rw [delete, storeAt_deleteStore, UintN.toNat_ofUbig, if_neg apart]

theorem fileCount_delete_copyAt {m : Nat} (has : disk.Has m) :
    (disk.delete (.ofUbig m) (disk.copyAt m).directory).fileCount < disk.fileCount := by
  have shrinks {l : List (Path × Bytes)} {path : Path} (found : l.lookup path ≠ none) :
      (l.filter (fun file => file.1 != path)).length < l.length := by
    obtain ⟨file, found⟩ := Option.ne_none_iff_exists'.mp found
    exact List.length_filter_lt_length_iff_exists.mpr ⟨_, mem_of_lookup found, by simp⟩
  unfold copyAt
  split
  · rename_i stored
    exact Nat.add_lt_add_left (shrinks (Option.isSome_iff_ne_none.mp stored)) _
  · rename_i missing
    have inWal := has.resolve_right (by simpa using missing)
    exact Nat.add_lt_add_right (shrinks inWal) _

end Disk

section Run

variable {config : DiskMonitorConfig} {disk : Disk} {b excess : Nat}

variable {s : Sweep}

theorem deleteCopy_eq {m : Nat} (current : s.currentId = .ofUbig m) (has : s.disk.Has m) :
    (localCleaner config).deleteCopy s =
      { s with
        disk := s.disk.delete (.ofUbig m) (s.disk.copyAt m).directory
        sizeToFree := s.sizeToFree - (s.disk.copyAt m).size
        removals := s.removals ++ [s.disk.copyAt m] } := by
  have store : s.disk.storeFile s.currentId = s.disk.storeAt m := by rw [current]; rfl
  have wal : s.disk.walFile s.currentId = s.disk.walAt m := by rw [current]; rfl
  unfold Cleaner.deleteCopy Disk.copyAt Disk.storeSize Disk.walSize
  rw [store, wal]
  cases stored : s.disk.storeAt m with
  | some file => simp [Cleaner.deleteFile, localCleaner, current]
  | none =>
    obtain ⟨file, written⟩ := Option.ne_none_iff_exists'.mp (has.resolve_right (by simp [stored]))
    simp [written, Cleaner.deleteFile, localCleaner, current]

theorem pass_eq {m : Nat} (current : s.currentId = .ofUbig m) :
    (localCleaner config).pass s =
      if s.sizeToFree = 0 ∨ ¬ s.disk.Has m then none
      else some ⟨s.disk.delete (.ofUbig m) (s.disk.copyAt m).directory, s.sizeToFree - (s.disk.copyAt m).size,
        .ofUbig (m + 1), s.removals ++ [s.disk.copyAt m]⟩ := by
  have gone : ((s.disk.storeFile s.currentId).isNone && (s.disk.walFile s.currentId).isNone) = true ↔
      ¬ s.disk.Has m := by
    rw [current, Bool.and_eq_true, Option.isNone_iff_eq_none, Option.isNone_iff_eq_none, Disk.not_has_iff]
    exact and_comm
  unfold Cleaner.pass
  by_cases done : s.sizeToFree = 0
  · simp [done]
  · by_cases has : s.disk.Has m
    · have there := mt gone.mp (not_not.mpr has)
      have allowed : (localCleaner config).mayDelete s.currentId = true := rfl
      rw [if_neg done, if_neg there, if_pos allowed, deleteCopy_eq current has, current, increment_ofUbig]
      simp [done, has]
    · rw [if_neg done, if_pos (gone.mpr has), if_pos (.inr has)]

structure Swept (disk : Disk) (b excess k : Nat) (s : Sweep) : Prop where
  current : s.currentId = .ofUbig (b + k)
  removals : s.removals = (List.range k).map (fun i => disk.copyAt (b + i))
  left : s.sizeToFree = excess - disk.freed b k
  wal : ∀ g, b + k ≤ g → s.disk.walAt g = disk.walAt g
  store : ∀ g, b + k ≤ g → s.disk.storeAt g = disk.storeAt g
  pending : ∀ j < k, disk.freed b j < excess

theorem swept_start : Swept disk b excess 0 ⟨disk, excess, .ofUbig b, []⟩ where
  current := rfl
  removals := rfl
  left := by simp [Disk.freed]
  wal _ _ := rfl
  store _ _ := rfl
  pending _ below := absurd below (Nat.not_lt_zero _)

theorem Swept.has_iff {k : Nat} (swept : Swept disk b excess k s) : s.disk.Has (b + k) ↔ disk.Has (b + k) := by
  rw [Disk.Has, Disk.Has, swept.wal _ le_rfl, swept.store _ le_rfl]

theorem Swept.pass {k : Nat} {t : Sweep} (swept : Swept disk b excess k s)
    (moved : (localCleaner config).pass s = some t) : Swept disk b excess (k + 1) t := by
  rw [pass_eq swept.current] at moved
  split at moved
  · cases moved
  · rename_i goes
    cases moved
    have unfinished : s.sizeToFree ≠ 0 := fun done => goes (.inl done)
    have copy : s.disk.copyAt (b + k) = disk.copyAt (b + k) :=
      Disk.copyAt_congr (swept.wal _ le_rfl) (swept.store _ le_rfl)
    constructor
    · rfl
    · simp only [swept.removals, copy, List.range_succ, List.map_append, List.map_cons, List.map_nil]
    · simp only [swept.left, copy, Disk.freed_succ]
      omega
    · intro g above
      exact (Disk.walAt_delete_ne (by omega)).trans (swept.wal g (by omega))
    · intro g above
      exact (Disk.storeAt_delete_ne (by omega)).trans (swept.store g (by omega))
    · intro j below
      rcases Nat.lt_succ_iff_lt_or_eq.mp below with earlier | rfl
      · exact swept.pending j earlier
      · have left := swept.left
        omega

/-- The loop ends, after so many deletions that the excess is gone or no file follows. -/
theorem cleanup_swept (config : DiskMonitorConfig) (disk : Disk) (b excess : Nat) :
    ∃ k, Swept disk b excess k
        (Iterate.finish (localCleaner config).pass disk.fileCount ⟨disk, excess, .ofUbig b, []⟩) ∧
      (excess ≤ disk.freed b k ∨ ¬ disk.Has (b + k)) := by
  have keeps (s t : Sweep) (swept : ∃ k, Swept disk b excess k s) (moved : (localCleaner config).pass s = some t) :
      ∃ k, Swept disk b excess k t := by
    obtain ⟨k, swept⟩ := swept
    exact ⟨k + 1, swept.pass moved⟩
  have lowers (s t : Sweep) (swept : ∃ k, Swept disk b excess k s) (moved : (localCleaner config).pass s = some t) :
      (∃ k, Swept disk b excess k t) ∧ t.disk.fileCount < s.disk.fileCount := by
    refine ⟨keeps s t swept moved, ?_⟩
    obtain ⟨k, swept⟩ := swept
    rw [pass_eq swept.current] at moved
    split at moved
    · cases moved
    · rename_i goes
      cases moved
      exact Disk.fileCount_delete_copyAt (not_not.mp (fun gone => goes (.inr gone)))
  obtain ⟨k, swept⟩ := Iterate.finish_invariant keeps ⟨0, swept_start⟩ disk.fileCount
  have stopped := Iterate.finish_stopped lowers ⟨0, swept_start⟩ (le_refl disk.fileCount)
  refine ⟨k, swept, ?_⟩
  rw [pass_eq swept.current] at stopped
  split at stopped
  · rename_i ended
    rcases ended with done | gone
    · left
      have left := swept.left
      omega
    · exact .inr (mt swept.has_iff.mpr gone)
  · cases stopped

theorem sum_copies (disk : Disk) (b k : Nat) :
    (((List.range k).map (fun i => disk.copyAt (b + i))).map Removal.size).sum = disk.freed b k := by
  induction k with
  | zero => rfl
  | succ k ih =>
    rw [List.range_succ, List.map_append, List.map_append, List.sum_append, ih, Disk.freed_succ]
    simp

end Run

theorem map_range_eq_append {α : Type} {f : Nat → α} {k : Nat} {before after : List α} {x : α}
    (split : (List.range k).map f = before ++ x :: after) :
    before.length < k ∧ x = f before.length ∧ before = (List.range before.length).map f := by
  have lengths := congrArg List.length split
  rw [List.length_map, List.length_range, List.length_append, List.length_cons] at lengths
  have below : before.length < k := by omega
  refine ⟨below, ?_, ?_⟩
  · have there := congrArg (fun l => l[before.length]?) split
    simpa [below] using there.symm
  · have firsts := congrArg (List.take before.length) split
    rw [List.take_left, ← List.map_take, List.take_range, Nat.min_eq_left below.le] at firsts
    exact firsts.symm

theorem sum_lengths_eq {path : Nat → Path} (apart : ∀ i j, path i = path j → i = j) {count : Nat}
    {files : List (Path × Bytes)} (only : ∀ p ∈ files.map Prod.fst, ∃ i < count, p = path i)
    (once : (files.map Prod.fst).Nodup) :
    (files.map (fun file => file.2.data.length)).sum =
      ∑ i ∈ Finset.range count, ((files.lookup (path i)).map (fun file => file.data.length)).getD 0 := by
  induction files with
  | nil => simp
  | cons file rest ih =>
    obtain ⟨p, bytes⟩ := file
    rw [List.map_cons, List.nodup_cons] at once
    obtain ⟨j, listed, rfl⟩ := only p List.mem_cons_self
    have missing : rest.lookup (path j) = none := by
      rw [List.lookup_eq_none_iff]
      intro other member
      rw [bne_iff_ne]
      rintro same
      exact once.1 (List.mem_map.mpr ⟨other, member, same.symm⟩)
    have term (i : Nat) : (((((path j, bytes) :: rest).lookup (path i)).map (fun file => file.data.length)).getD 0) =
        (if j = i then bytes.data.length else 0) + ((rest.lookup (path i)).map (fun file => file.data.length)).getD 0 := by
      rw [List.lookup_cons]
      by_cases here : j = i
      · subst here
        simp [missing]
      · have other : (path i == path j) = false := by simpa using fun same => here (apart _ _ same).symm
        simp [other, here]
    rw [List.map_cons, List.sum_cons, ih (fun p member => only p (List.mem_cons_of_mem _ member)) once.2,
      Finset.sum_congr rfl (fun i _ => term i), Finset.sum_add_distrib, Finset.sum_ite_eq, if_pos (Finset.mem_range.mpr listed)]

section Managed

variable {config : DiskMonitorConfig} {disk : Disk} {a older : Nat}

/-- What all passes before the last file can free, and what they leave. -/
theorem Managed.queueSize_eq (managed : Managed config disk a older) :
    disk.queueSize = disk.freed a older + disk.leftover a older := by
  have apart (extension : Name) (i j : Nat)
      (same : (UintN.ofUbig (a + i)).toFilePath extension = (UintN.ofUbig (a + j)).toFilePath extension) : i = j := by
    have values := toFilePath_inj same
    rw [UintN.toNat_ofUbig, UintN.toNat_ofUbig] at values
    omega
  have wal := sum_lengths_eq (apart _) managed.walOnly managed.walOnce
  have store := sum_lengths_eq (apart _) managed.storeOnly managed.storeOnce
  calc disk.queueSize
      = ∑ i ∈ Finset.range (older + 1), (disk.walSize (a + i) + disk.storeSize (a + i)) := by
        rw [Disk.queueSize, List.map_append, List.sum_append, wal, store, ← Finset.sum_add_distrib]
        rfl
    _ = ∑ i ∈ Finset.range older, ((disk.copyAt (a + i)).size + disk.spareSize (a + i)) +
          (disk.walSize (a + older) + disk.storeSize (a + older)) := by
        rw [Finset.sum_range_succ]
        simp only [Disk.copyAt_size_add_spareSize]
    _ = disk.freed a older + disk.leftover a older := by
        rw [Finset.sum_add_distrib, Disk.leftover, Disk.freed, Nat.add_assoc]

theorem toOption_of_noneIfNoFiles {found : Except PathError UintN} {answer : Option UintN}
    (known : noneIfNoFiles found = .ok answer) : found.toOption = answer := by
  rcases found with (_ | _) | id <;> cases known <;> rfl

/-- The loop starts at one of the files, and at the oldest one where a search finds it. -/
theorem Managed.minFileId_eq (managed : Managed config disk a older) :
    ∃ first ≤ older, disk.minFileId = some (.ofUbig (a + first)) ∧ (first = 0 ↔ FirstFound disk a) := by
  obtain ⟨inStore, storeIs, storeIn, storeAny⟩ :=
    listing_ends (show IsExtension storeExtension by decide) managed.storeOnly Search.min_sound
  obtain ⟨inWal, walIs, walIn, walAny⟩ :=
    listing_ends (show IsExtension walExtension by decide) managed.walOnly Search.min_sound
  obtain ⟨file, written⟩ := Option.ne_none_iff_exists'.mp managed.active
  have nonempty : disk.wal.map Prod.fst ≠ [] := List.ne_nil_of_mem (mem_keys_of_lookup written)
  obtain ⟨first, listed, least, isFirst⟩ := least_listed storeIn walIn (.inr (walAny nonempty))
  refine ⟨first, by omega, ?_, ?_⟩
  · rw [← least, Disk.minFileId, findMinId, findMinId, toOption_of_noneIfNoFiles storeIs,
      toOption_of_noneIfNoFiles walIs]
    cases inStore <;> cases inWal <;> rfl
  · have atZero := isFirst 0
    simp only [Nat.le_zero, exists_eq_left, Nat.add_zero] at atZero
    rw [atZero, FirstFound, ← noneIfNoFiles_some, ← noneIfNoFiles_some, findMinId, findMinId, storeIs, walIs,
      Except.ok.injEq, Except.ok.injEq]
    exact or_comm

theorem Managed.has_iff (managed : Managed config disk a older) {m : Nat} (above : a ≤ m) :
    disk.Has m ↔ m ≤ a + older := by
  constructor
  · intro has
    have within := has.within managed.walOnly managed.storeOnly
    omega
  · intro below
    have has := managed.consecutive (m - a) (by omega)
    rwa [Nat.add_sub_cancel' above] at has

/-- One copy of each of the files `b`, …, `b + k - 1`, where every one of them was still needed, is a proper
cleanup when it starts with the first file and ends before the last one. -/
theorem cleansUp_copies_iff {b k excess active : Nat} (above : a ≤ b) (below : b ≤ active) (some' : 0 < k)
    (pending : ∀ j < k, disk.freed b j < excess) :
    CleansUp a active excess ((List.range k).map (fun i => disk.copyAt (b + i))) ↔ b = a ∧ b + k ≤ active := by
  constructor
  · intro cleans
    constructor
    · -- the first deletion has nothing before it
      obtain ⟨k, rfl⟩ := Nat.exists_eq_add_one_of_ne_zero some'.ne'
      by_contra later
      have firstOne := cleans.ordered [] (disk.copyAt b) _ (by rw [List.range_succ_eq_map]; rfl) a le_rfl
        (by rw [Disk.copyAt_fileId]; omega)
      simp at firstOne
    · by_contra reached
      refine cleans.spares (disk.copyAt active) (List.mem_map.mpr ⟨active - b, ?_, ?_⟩) (Disk.copyAt_fileId _)
      · exact List.mem_range.mpr (by omega)
      · rw [Nat.add_sub_cancel' below]
  · rintro ⟨rfl, ends⟩
    constructor
    · intro removal member
      obtain ⟨i, listed, rfl⟩ := List.mem_map.mp member
      have := List.mem_range.mp listed
      rw [Disk.copyAt_fileId]
      omega
    · intro before removal after split m from_ under
      obtain ⟨listed, rfl, firsts⟩ := map_range_eq_append split
      rw [Disk.copyAt_fileId] at under
      refine ⟨disk.copyAt m, ?_, Disk.copyAt_fileId m⟩
      rw [firsts]
      exact List.mem_map.mpr ⟨m - b, List.mem_range.mpr (by omega), by rw [Nat.add_sub_cancel' from_]⟩
    · intro before removal after split
      obtain ⟨listed, -, firsts⟩ := map_range_eq_append split
      rw [firsts, sum_copies]
      exact pending _ listed

theorem Managed.removals_eq (managed : Managed config disk a older) {currentSize : Nat}
    (exceeds : config.maxSize < currentSize) :
    ∃ first ≤ older, (first = 0 ↔ FirstFound disk a) ∧ ∃ k,
      ((localCleaner config).cleanupOldestFiles disk currentSize).2 =
        (List.range k).map (fun i => disk.copyAt (a + first + i)) ∧
      (∀ j < k, disk.freed (a + first) j < currentSize - config.maxSize) ∧
      (currentSize - config.maxSize ≤ disk.freed (a + first) k ∨ older < first + k) := by
  obtain ⟨first, listed, starts, isFirst⟩ := managed.minFileId_eq
  obtain ⟨k, swept, ends⟩ := cleanup_swept config disk (a + first) (currentSize - config.maxSize)
  refine ⟨first, listed, isFirst, k, ?_, swept.pending, ends.imp_right ?_⟩
  · rw [← swept.removals, Cleaner.cleanupOldestFiles, starts]
    exact congrArg Prod.snd (if_neg (Nat.sub_ne_zero_of_lt exceeds))
  · intro gone
    have := mt (managed.has_iff (by omega)).mpr gone
    omega

theorem validate_ok (accepted : config.validate = .ok ()) : config.maxFileSize * 3 ≤ config.maxSize := by
  unfold DiskMonitorConfig.validate at accepted
  dsimp only at accepted
  split at accepted
  · cases accepted
  · split at accepted
    · cases accepted
    · omega

section

variable (managed : Managed config disk a older)

include managed

theorem Managed.walSize_le (m : Nat) : disk.walSize m ≤ config.maxFileSize := by
  unfold Disk.walSize
  cases found : disk.walAt m with
  | none => exact Nat.zero_le _
  | some file => exact managed.sized _ (List.mem_append_left _ (mem_of_lookup found))

theorem Managed.leftover_le (unstored : disk.storeAt (a + older) = none)
    (few : ((Finset.range older).filter (fun i => disk.Doubled (a + i))).card ≤ 2) :
    disk.leftover a older ≤ config.maxSize := by
  have spare : ∑ i ∈ Finset.range older, disk.spareSize (a + i) ≤ 2 * config.maxFileSize := by
    have onlyDoubled : ∀ i ∈ Finset.range older, disk.spareSize (a + i) ≠ 0 → disk.Doubled (a + i) := by
      intro i _ left
      exact Disk.doubled_of_spareSize left
    rw [← Finset.sum_filter_of_ne onlyDoubled]
    calc ∑ i ∈ (Finset.range older).filter (fun i => disk.Doubled (a + i)), disk.spareSize (a + i)
        ≤ ((Finset.range older).filter (fun i => disk.Doubled (a + i))).card • config.maxFileSize :=
          Finset.sum_le_card_nsmul _ _ _ (fun i _ => (Disk.spareSize_le _).trans (managed.walSize_le _))
      _ ≤ 2 * config.maxFileSize := Nat.mul_le_mul_right _ few
  have active := managed.walSize_le (a + older)
  have stored : disk.storeSize (a + older) = 0 := by simp [Disk.storeSize, unstored]
  have accepted := validate_ok managed.accepted
  unfold Disk.leftover
  omega

/- For any size the caller passes: the oldest file has to be found, and one copy of each older file has to
make up for the excess. -/
theorem Managed.cleansUp_iff (currentSize : Nat) :
    CleansUp a (a + older) (currentSize - config.maxSize) ((localCleaner config).cleanupOldestFiles disk currentSize).2 ↔
      currentSize ≤ config.maxSize ∨
        FirstFound disk a ∧ currentSize - config.maxSize ≤ disk.freed a older := by
  rcases Nat.lt_or_ge config.maxSize currentSize with exceeds | within
  · obtain ⟨first, listed, isFirst, k, removals, pending, ends⟩ := managed.removals_eq exceeds
    have some' : 0 < k := by
      rcases Nat.eq_zero_or_pos k with rfl | some'
      · simp only [Disk.freed, Finset.range_zero, Finset.sum_empty] at ends
        omega
      · exact some'
    rw [removals, cleansUp_copies_iff (by omega) (by omega) some' pending, ← isFirst,
      or_iff_right (Nat.not_le.mpr exceeds), Nat.add_eq_left]
    refine and_congr_right ?_
    rintro rfl
    rw [Nat.add_zero] at pending ends ⊢
    constructor
    · intro spared
      have reached := ends.resolve_right (by omega)
      exact reached.trans (Disk.freed_mono a (by omega))
    · intro enough
      by_contra further
      have short := pending older (by omega)
      omega
  · have nothing : currentSize - config.maxSize = 0 := Nat.sub_eq_zero_of_le within
    have removals : ((localCleaner config).cleanupOldestFiles disk currentSize).2 = [] :=
      congrArg Prod.snd (if_pos nothing)
    refine iff_of_true ?_ (.inl within)
    rw [removals]
    constructor
    · intro removal member
      cases member
    · intro before removal after split
      simp at split
    · intro before removal after split
      simp at split

theorem Managed.cleansUp (small : a < 4096)
    (unstored : disk.storeAt (a + older) = none)
    (few : ((Finset.range older).filter (fun i => disk.Doubled (a + i))).card ≤ 2) :
    CleansUp a (a + older) (disk.queueSize - config.maxSize)
      ((localCleaner config).cleanupOldestFiles disk disk.queueSize).2 := by
  refine (managed.cleansUp_iff _).mpr (.inr ⟨?_, ?_⟩)
  · exact firstFound_of_small managed.walOnly managed.storeOnly (managed.consecutive 0 (by omega)) small
  · have size := managed.queueSize_eq
    have room := managed.leftover_le unstored few
    omega

end

end Managed

/- The active file is spared and the order kept exactly when nothing is to be freed, or a search finds the
oldest file and the second copies of the older files leave room for the last one. -/
theorem active_file_spared_iff {config : DiskMonitorConfig} {disk : Disk} {a older : Nat}
    (managed : Managed config disk a older) :
    CleansUp a (a + older) (disk.queueSize - config.maxSize)
        ((localCleaner config).cleanupOldestFiles disk disk.queueSize).2 ↔
      disk.queueSize ≤ config.maxSize ∨ FirstFound disk a ∧ disk.leftover a older ≤ config.maxSize := by
  rw [managed.cleansUp_iff]
  have size := managed.queueSize_eq
  have enough : disk.queueSize - config.maxSize ≤ disk.freed a older ↔ disk.leftover a older ≤ config.maxSize := by
    omega
  rw [enough]

namespace Sample

/-- Limits as small as they may be: files of one byte, three bytes for the queue. -/
def smallQueue : DiskMonitorConfig := ⟨3, 1⟩

/-- WAL files 1 to 4, of which the first `k` are in the store as well. -/
def partlyStored (k : Nat) : Disk :=
  ⟨[1, 2, 3, 4].map (fun id => ((UintN.ofUbig id).toFilePath walExtension, oneByte)),
    ([1, 2, 3].take k).map (fun id => ((UintN.ofUbig id).toFilePath storeExtension, oneByte))⟩

theorem managed_partlyStored (k : Fin 4) : Managed smallQueue (partlyStored k) 1 3 where
  walOnly := by revert k; decide +kernel
  storeOnly := by revert k; decide +kernel
  walOnce := by revert k; decide +kernel
  storeOnce := by revert k; decide +kernel
  consecutive := by revert k; decide +kernel
  active := by revert k; decide +kernel
  sized := by revert k; decide +kernel
  accepted := rfl

end Sample

theorem active_file_spared_twoStored :
    Managed Sample.smallQueue (Sample.partlyStored 2) 1 3 ∧
    CleansUp 1 4 3 ((localCleaner Sample.smallQueue).cleanupOldestFiles (Sample.partlyStored 2) 6).2 := by
  have managed := Sample.managed_partlyStored 2
  exact ⟨managed, (active_file_spared_iff managed).mpr (by decide +kernel)⟩

/- Three older files in both directories: the copies in the store do not make up for the excess of four bytes,
and the file being written goes while the WAL files of the stored ones stay. -/
theorem active_file_removed :
    Managed Sample.smallQueue (Sample.partlyStored 3) 1 3 ∧ (Sample.partlyStored 3).queueSize = 7 ∧
    (((localCleaner Sample.smallQueue).cleanupOldestFiles (Sample.partlyStored 3) 7).2.map Removal.fileId = [1, 2, 3, 4]) ∧
    ((localCleaner Sample.smallQueue).cleanupOldestFiles (Sample.partlyStored 3) 7).1.walAt 4 = none ∧
    (∀ m ∈ [1, 2, 3], ((localCleaner Sample.smallQueue).cleanupOldestFiles (Sample.partlyStored 3) 7).1.walAt m ≠ none) ∧
    ¬ CleansUp 1 4 4 ((localCleaner Sample.smallQueue).cleanupOldestFiles (Sample.partlyStored 3) 7).2 := by
  have ids : ((localCleaner Sample.smallQueue).cleanupOldestFiles (Sample.partlyStored 3) 7).2.map Removal.fileId =
      [1, 2, 3, 4] := by decide +kernel
  refine ⟨Sample.managed_partlyStored 3, by decide +kernel, ids, by decide +kernel, by decide +kernel, ?_⟩
  intro cleans
  have last : 4 ∈ ((localCleaner Sample.smallQueue).cleanupOldestFiles (Sample.partlyStored 3) 7).2.map Removal.fileId := by
    rw [ids]
    decide
  obtain ⟨removal, member, isLast⟩ := List.mem_map.mp last
  exact cleans.spares removal member isLast

end NormFS
