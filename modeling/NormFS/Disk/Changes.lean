import NormFS.Disk

/-! Files that are written and deleted, and which ones are there afterwards. -/
namespace NormFS

theorem lookup_filter_bne {α β : Type} [BEq α] [LawfulBEq α] (l : List (α × β)) (key other : α) :
    (l.filter (fun item => item.1 != key)).lookup other = if other == key then none else l.lookup other := by
  induction l with
  | nil => simp
  | cons item rest ih =>
    obtain ⟨k, value⟩ := item
    by_cases here : k = key
    · subst here
      rw [List.filter_cons_of_neg (by simp), ih, List.lookup_cons]
      cases other == k <;> rfl
    · rw [List.filter_cons_of_pos (by simpa using here), List.lookup_cons, List.lookup_cons, ih]
      by_cases same : other = k
      · simp [same, here]
      · have apart : (other == k) = false := by simp [same]
        rw [apart]

namespace Disk

def putStore (disk : Disk) (fileId : UintN) (file : Bytes) : Disk :=
  { disk with store := (fileId.toFilePath storeExtension, file) :: disk.store }

def deleteWal (disk : Disk) (fileId : UintN) : Disk :=
  { disk with wal := disk.wal.filter (fun file => file.1 != fileId.toFilePath walExtension) }

def putWal (disk : Disk) (fileId : UintN) (file : Bytes) : Disk :=
  { disk with wal := (fileId.toFilePath walExtension, file) :: (disk.deleteWal fileId).wal }

def deleteStore (disk : Disk) (fileId : UintN) : Disk :=
  { disk with store := disk.store.filter (fun file => file.1 != fileId.toFilePath storeExtension) }

@[simp] theorem storeFile_putStore (disk : Disk) (fileId : UintN) (file : Bytes) :
    (disk.putStore fileId file).storeFile fileId = some file := by
  simp [storeFile, putStore]

@[simp] theorem walFile_putStore (disk : Disk) (fileId other : UintN) (file : Bytes) :
    (disk.putStore fileId file).walFile other = disk.walFile other := rfl

@[simp] theorem walFile_deleteWal (disk : Disk) (fileId : UintN) :
    (disk.deleteWal fileId).walFile fileId = none := by
  rw [walFile, List.lookup_eq_none_iff]
  intro file kept
  rw [bne_comm]
  exact (List.mem_filter.mp kept).2

@[simp] theorem storeFile_deleteWal (disk : Disk) (fileId other : UintN) :
    (disk.deleteWal fileId).storeFile other = disk.storeFile other := rfl

theorem walAt_deleteWal (disk : Disk) (fileId : UintN) (g : Nat) :
    (disk.deleteWal fileId).walAt g = if g = fileId.toNat then none else disk.walAt g := by
  have key : fileId.toFilePath walExtension = (UintN.ofUbig fileId.toNat).toFilePath walExtension :=
    toFilePath_congr (by simp) _
  rw [walAt, walFile, deleteWal, key, lookup_filter_bne, toFilePath_beq]
  simp [walAt, walFile]

theorem storeAt_deleteStore (disk : Disk) (fileId : UintN) (g : Nat) :
    (disk.deleteStore fileId).storeAt g = if g = fileId.toNat then none else disk.storeAt g := by
  have key : fileId.toFilePath storeExtension = (UintN.ofUbig fileId.toNat).toFilePath storeExtension :=
    toFilePath_congr (by simp) _
  rw [storeAt, storeFile, deleteStore, key, lookup_filter_bne, toFilePath_beq]
  simp [storeAt, storeFile]

theorem walAt_putWal (disk : Disk) (fileId : UintN) (file : Bytes) (g : Nat) :
    (disk.putWal fileId file).walAt g = if g = fileId.toNat then some file else disk.walAt g := by
  have key : fileId.toFilePath walExtension = (UintN.ofUbig fileId.toNat).toFilePath walExtension :=
    toFilePath_congr (by simp) _
  have others : (disk.deleteWal fileId).wal.lookup ((UintN.ofUbig g).toFilePath walExtension) =
      (disk.deleteWal fileId).walAt g := rfl
  rw [walAt, walFile, putWal, List.lookup_cons, key, toFilePath_beq, others, walAt_deleteWal]
  by_cases same : g = fileId.toNat
  · simp [same]
  · simp [same]

theorem storeAt_putStore (disk : Disk) (fileId : UintN) (file : Bytes) (g : Nat) :
    (disk.putStore fileId file).storeAt g = if g = fileId.toNat then some file else disk.storeAt g := by
  have key : fileId.toFilePath storeExtension = (UintN.ofUbig fileId.toNat).toFilePath storeExtension :=
    toFilePath_congr (by simp) _
  rw [storeAt, storeFile, putStore, List.lookup_cons, key, toFilePath_beq]
  by_cases same : g = fileId.toNat
  · simp [same]
  · simp [same, storeAt, storeFile]

variable {disk : Disk} {fileId : UintN} {file : Bytes} {g : Nat}

theorem Has.of_deleteWal (has : (disk.deleteWal fileId).Has g) : disk.Has g := by
  rcases has with wal | store
  · rw [walAt_deleteWal] at wal
    split at wal
    · exact absurd rfl wal
    · exact .inl wal
  · exact .inr store

theorem Has.of_deleteStore (has : (disk.deleteStore fileId).Has g) : disk.Has g := by
  rcases has with wal | store
  · exact .inl wal
  · rw [storeAt_deleteStore] at store
    split at store
    · exact absurd rfl store
    · exact .inr store

theorem Has.of_putWal (has : (disk.putWal fileId file).Has g) : g = fileId.toNat ∨ disk.Has g := by
  rcases has with wal | store
  · rw [walAt_putWal] at wal
    split at wal
    · rename_i same
      exact .inl same
    · exact .inr (.inl wal)
  · exact .inr (.inr store)

theorem Has.of_putStore (has : (disk.putStore fileId file).Has g) : g = fileId.toNat ∨ disk.Has g := by
  rcases has with wal | store
  · exact .inr (.inl wal)
  · rw [storeAt_putStore] at store
    split at store
    · rename_i same
      exact .inl same
    · exact .inr (.inr store)

theorem has_of_walFile (there : (disk.walFile fileId).isSome = true) : disk.Has fileId.toNat := by
  left
  rw [← walFile_eq]
  intro absent
  rw [absent] at there
  cases there

theorem has_of_storeFile (there : (disk.storeFile fileId).isSome = true) : disk.Has fileId.toNat := by
  right
  rw [← storeFile_eq]
  intro absent
  rw [absent] at there
  cases there

end Disk
end NormFS
