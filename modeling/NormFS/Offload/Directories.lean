import NormFS.Cloud.Keys

/-! The directories of a queue. The writers join the trimmed path of the queue to the root; the disk
monitor and the offloader join the whole path, and an absolute path takes the place of the root. -/
namespace NormFS

open UnixPath

def walFolder : Name := ['w', 'a', 'l']
def storeFolder : Name := ['s', 't', 'o', 'r', 'e']

namespace QueueId

def toFsPath (self : QueueId) (base : Text) : Text := push base (trimStart self.path)
def toStoreDir (self : QueueId) (base : Text) : Text := push (self.toFsPath base) storeFolder
def toWalDir (self : QueueId) (base : Text) : Text := push (self.toFsPath base) walFolder

def toStorePath (self : QueueId) (base : Text) (fileId : UintN) : Text :=
  fileId.toFilePathIn (self.toStoreDir base) storeExtension

end QueueId

structure QueueMonitor where
  queueId : Text
  rootPath : Text

namespace QueueMonitor

def walPath (self : QueueMonitor) : Text := push (push self.rootPath self.queueId) walFolder
def storePath (self : QueueMonitor) : Text := push (push self.rootPath self.queueId) storeFolder

def offloadPath (self : QueueMonitor) : Text := push (push self.rootPath self.queueId) storeFolder

end QueueMonitor

def DiskMonitor.addQueue (rootPath : Text) (queueId : QueueId) : QueueMonitor := ⟨queueId.path, rootPath⟩

def SamePath (a b : Text) : Prop := components a = components b

instance (a b : Text) : Decidable (SamePath a b) := inferInstanceAs (Decidable (_ = _))

/-- The two ways to a folder of a queue meet where the root is the root of the file system. -/
theorem folder_samePath_iff (root : Text) {path folder : Text} (absolute : isAbsolute path = true)
    (relative : isAbsolute folder = false) :
    SamePath (push (push root path) folder) (push (push root (trimStart path)) folder) ↔
      components root = [.rootDir] := by
  have nonempty : path ≠ [] := by
    rintro rfl
    cases absolute
  have trimmed := isAbsolute_trimStart path
  unfold SamePath
  rw [push_absolute root absolute, components_push nonempty relative, components_absolute absolute]
  by_cases empty : root = []
  · -- the writers stay below the working directory, the monitor does not
    subst empty
    have stays : isAbsolute (push (trimStart path) folder) = false := isAbsolute_push trimmed relative
    rw [push_nil_left]
    constructor
    · intro same
      exact absurd (congrArg List.head? same).symm (components_head_relative stays)
    · intro root
      cases root
  · have joined : push root (trimStart path) ≠ [] := by
      rw [push_relative _ trimmed]
      simp [empty]
    rw [components_push joined relative, components_push empty trimmed, ← List.singleton_append,
      List.append_assoc, List.append_assoc, List.append_cancel_right_eq]
    exact eq_comm

/- The monitor measures and cleans, and the offloader uploads from, the directories of the writers exactly
when the root is "/". -/
theorem monitored_directories_iff (root : Text) (resolver : QueueIdResolver) (path : List Char) :
    (SamePath (DiskMonitor.addQueue root (resolver.resolve path)).walPath ((resolver.resolve path).toWalDir root) ∧
      SamePath (DiskMonitor.addQueue root (resolver.resolve path)).storePath ((resolver.resolve path).toStoreDir root) ∧
      SamePath (DiskMonitor.addQueue root (resolver.resolve path)).offloadPath
        ((resolver.resolve path).toStoreDir root)) ↔
    components root = [.rootDir] := by
  have absolute := resolve_isAbsolute resolver path
  have wal := folder_samePath_iff root absolute (show isAbsolute walFolder = false from rfl)
  have store := folder_samePath_iff root absolute (show isAbsolute storeFolder = false from rfl)
  constructor
  · rintro ⟨same, -, -⟩
    exact wal.mp same
  · intro isRoot
    exact ⟨wal.mpr isRoot, store.mpr isRoot, store.mpr isRoot⟩

/- With the root "/data" the queue "q" of instance "i" is written below "/data/i/q", and "/i/q" is watched. -/
theorem wrong_directories_watched :
    (DiskMonitor.addQueue "/data".toList ((QueueIdResolver.mk ['i']).resolve ['q'])).walPath = "/i/q/wal".toList ∧
    ((QueueIdResolver.mk ['i']).resolve ['q']).toWalDir "/data".toList = "/data/i/q/wal".toList ∧
    ¬ SamePath (DiskMonitor.addQueue "/data".toList ((QueueIdResolver.mk ['i']).resolve ['q'])).walPath
      (((QueueIdResolver.mk ['i']).resolve ['q']).toWalDir "/data".toList) ∧
    ¬ SamePath (DiskMonitor.addQueue "/data".toList ((QueueIdResolver.mk ['i']).resolve ['q'])).storePath
      (((QueueIdResolver.mk ['i']).resolve ['q']).toStoreDir "/data".toList) := by
  decide +kernel

end NormFS
