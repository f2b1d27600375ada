import NormFS.Lib.Runs
import NormFS.Store.Worker

/-! The offloader of one queue and the disk monitor that frees its space. The offloader confirms one
file after the other, in the order in which their numbers reach it, and remembers the highest
number. The monitor deletes the oldest files up to that number. Completions, answers of the bucket
and steps of the monitor interleave freely. -/
namespace NormFS

inductive OffloadError where
  | localFile
  | remote

inductive OffloaderPhase where
  | waiting
  | checking (fileId : UintN)
  | uploading (fileId : UintN)

def OffloaderPhase.file : OffloaderPhase → Option UintN
  | .waiting => none
  | .checking fileId | .uploading fileId => some fileId

inductive Directory where
  | wal
  | store

inductive CleanupPhase where
  | looking
  | choosing
  | removing (directory : Directory)

structure Cleanup where
  sizeToFree : Nat
  latestOffloadedId : Option UintN
  currentId : UintN
  phase : CleanupPhase

structure Offload where
  disk : Disk
  /-- The number of the next WAL file. -/
  nextFile : Nat
  queue : List UintN
  worker : OffloaderPhase
  latestOffloadedId : Option UintN
  cleanup : Option Cleanup
  /-- What the bucket has confirmed: `is_file_offloaded` was true or `upload_file` succeeded. -/
  confirmed : List Nat
  /-- What the monitor has deleted. -/
  removed : List Nat

inductive OffloadEvent where
  | writeWal (fileId : UintN) (file : Bytes)
  | store (fileId : UintN) (file : Bytes)
  | deleteWal (fileId : UintN)
  | enqueueFile (fileId : UintN)
  | receive
  | checked (answer : Except OffloadError Bool)
  | uploaded (answer : Except OffloadError Unit)
  | checkAndCleanup
  | look
  | choose
  | remove (ok : Bool)

namespace Disk

def queueSize (disk : Disk) : Nat := ((disk.wal ++ disk.store).map (fun file => file.2.data.length)).sum

def delete (disk : Disk) (fileId : UintN) : Directory → Disk
  | .wal => disk.deleteWal fileId
  | .store => disk.deleteStore fileId

def fileIn (disk : Disk) (fileId : UintN) : Directory → Option Bytes
  | .wal => disk.walFile fileId
  | .store => disk.storeFile fileId

/-- The first file in either directory. A search that fails counts as no file. -/
def minFileId (disk : Disk) : Option UintN :=
  match (findMinId (disk.store.map Prod.fst) storeExtension).toOption,
      (findMinId (disk.wal.map Prod.fst) walExtension).toOption with
  | some sid, some wid => some (if wid < sid then wid else sid)
  | some sid, none => some sid
  | none, some wid => some wid
  | none, none => none

end Disk

def noteOffloaded (latest : Option UintN) (fileId : UintN) : UintN :=
  match latest with
  | none => fileId
  | some current => if current < fileId then fileId else current

/-- Without a confirmed file only a queue without offloader is cleaned. -/
def canDelete (offloader : Bool) (latestOffloadedId : Option UintN) (currentId : UintN) : Bool :=
  match latestOffloadedId with
  | some latestOffloaded => decide (currentId ≤ latestOffloaded)
  | none => !offloader

namespace Offload

def confirm (s : Offload) (fileId : UintN) : Offload :=
  { s with
    worker := .waiting
    latestOffloadedId := some (noteOffloaded s.latestOffloadedId fileId)
    confirmed := fileId.toNat :: s.confirmed }

/-- A step of `offload_worker`. -/
def checkStep (s : Offload) (fileId : UintN) : Except OffloadError Bool → Option Offload
  | .ok offloaded =>
    -- the size of the local file is compared, so it is there
    if (s.disk.storeFile fileId).isNone then none
    else if offloaded then some (s.confirm fileId)
    else some { s with worker := .uploading fileId }
  | .error .localFile => some { s with worker := .waiting }
  | .error .remote => some { s with worker := .checking fileId }

def uploadStep (s : Offload) (fileId : UintN) : Except OffloadError Unit → Offload
  | .ok () => s.confirm fileId
  | .error .localFile => { s with worker := .waiting }
  | .error .remote => { s with worker := .checking fileId }

/-- `check_and_cleanup` and the head of `cleanup_oldest_files`. -/
def startCleanup (maxSize : Nat) (s : Offload) : Offload :=
  if s.disk.queueSize ≤ maxSize then s
  else match s.disk.minFileId with
    | none => s
    | some currentId =>
      { s with cleanup := some ⟨s.disk.queueSize - maxSize, s.latestOffloadedId, currentId, .looking⟩ }

/-- The loop condition and the two reasons to leave the loop. -/
def look (s : Offload) (cleanup : Cleanup) : Offload :=
  if cleanup.sizeToFree = 0 then { s with cleanup := none }
  else if (s.disk.storeFile cleanup.currentId).isNone && (s.disk.walFile cleanup.currentId).isNone then
    { s with cleanup := none }
  else if canDelete true cleanup.latestOffloadedId cleanup.currentId then
    { s with cleanup := some { cleanup with phase := .choosing } }
  else { s with cleanup := none }

def nextId (cleanup : Cleanup) : Cleanup :=
  { cleanup with currentId := cleanup.currentId.increment, phase := .looking }

def choose (s : Offload) (cleanup : Cleanup) : Offload :=
  let chosen :=
    if (s.disk.storeFile cleanup.currentId).isSome then { cleanup with phase := .removing .store }
    else if (s.disk.walFile cleanup.currentId).isSome then { cleanup with phase := .removing .wal }
    else nextId cleanup
  { s with cleanup := some chosen }

/-- The deletion itself. A file that is gone by now and a failed deletion are logged only. -/
def remove (s : Offload) (cleanup : Cleanup) (directory : Directory) (ok : Bool) : Offload :=
  match s.disk.fileIn cleanup.currentId directory, ok with
  | some file, true =>
    { s with
      disk := s.disk.delete cleanup.currentId directory
      cleanup := some (nextId { cleanup with sizeToFree := cleanup.sizeToFree - file.data.length })
      removed := cleanup.currentId.toNat :: s.removed }
  | _, _ => { s with cleanup := some (nextId cleanup) }

def step (maxSize : Nat) (s : Offload) : OffloadEvent → Option Offload
  | .writeWal fileId file =>
    if fileId.toNat = s.nextFile then
      some { s with disk := s.disk.putWal fileId file, nextFile := s.nextFile + 1 }
    else if (s.disk.walFile fileId).isSome then some { s with disk := s.disk.putWal fileId file }
    else none
  | .store fileId file =>
    if (s.disk.walFile fileId).isSome then
      some { s with disk := (s.disk.deleteStore fileId).putStore fileId file }
    else none
  | .deleteWal fileId => some { s with disk := s.disk.deleteWal fileId }
  | .enqueueFile fileId =>
    if fileId.toNat < s.nextFile then some { s with queue := s.queue ++ [fileId] } else none
  | .receive =>
    match s.worker, s.queue with
    | .waiting, fileId :: rest => some { s with worker := .checking fileId, queue := rest }
    | _, _ => none
  | .checked answer =>
    match s.worker with
    | .checking fileId => s.checkStep fileId answer
    | _ => none
  | .uploaded answer =>
    match s.worker with
    | .uploading fileId => some (s.uploadStep fileId answer)
    | _ => none
  | .checkAndCleanup =>
    match s.cleanup with
    | none => some (s.startCleanup maxSize)
    | some _ => none
  | .look =>
    match s.cleanup with
    | some ⟨sizeToFree, latest, currentId, .looking⟩ => some (s.look ⟨sizeToFree, latest, currentId, .looking⟩)
    | _ => none
  | .choose =>
    match s.cleanup with
    | some ⟨sizeToFree, latest, currentId, .choosing⟩ => some (s.choose ⟨sizeToFree, latest, currentId, .choosing⟩)
    | _ => none
  | .remove ok =>
    match s.cleanup with
    | some ⟨sizeToFree, latest, currentId, .removing directory⟩ =>
      some (s.remove ⟨sizeToFree, latest, currentId, .removing directory⟩ directory ok)
    | _ => none

/-- The offloader and the monitor as they start, over any files. -/
def start (disk : Disk) (nextFile : Nat) : Offload :=
  ⟨disk, nextFile, [], .waiting, none, none, [], []⟩

/-- Every local file before this one is confirmed. -/
def Next (s : Offload) (fileId : UintN) : Prop :=
  ∀ g < fileId.toNat, s.disk.Has g → g ∈ s.confirmed

instance (s : Offload) (fileId : UintN) : Decidable (s.Next fileId) :=
  inferInstanceAs (Decidable (∀ g < fileId.toNat, s.disk.Has g → g ∈ s.confirmed))

/-- The bucket confirms the local files from the oldest on. -/
def InOrder (s : Offload) (event : OffloadEvent) : Prop :=
  match s.worker, event with
  | .checking fileId, .checked (.ok true) => s.Next fileId
  | .uploading fileId, .uploaded (.ok ()) => s.Next fileId
  | _, _ => True

instance (s : Offload) (event : OffloadEvent) : Decidable (s.InOrder event) := by
  unfold InOrder
  split <;> infer_instance

end Offload

namespace Disk

variable {disk : Disk} {fileId : UintN} {g : Nat}

theorem Has.of_delete {directory : Directory} (has : (disk.delete fileId directory).Has g) : disk.Has g := by
  cases directory with
  | wal => exact has.of_deleteWal
  | store => exact has.of_deleteStore

end Disk

theorem noteOffloaded_cases (latest : Option UintN) (fileId : UintN) :
    noteOffloaded latest fileId = fileId ∨ latest = some (noteOffloaded latest fileId) := by
  unfold noteOffloaded
  cases latest with
  | none => exact .inl rfl
  | some current =>
    dsimp only
    split
    · exact .inl rfl
    · exact .inr rfl

theorem le_noteOffloaded {latest : Option UintN} {l : UintN} (known : latest = some l) (fileId : UintN) :
    l.toNat ≤ (noteOffloaded latest fileId).toNat := by
  subst known
  unfold noteOffloaded
  dsimp only
  split
  · rename_i higher
    exact ((UintN.lt_iff _ _).mp higher).le
  · exact le_refl _

namespace Offload

structure Ordered (s : Offload) : Prop where
  born : ∀ g, s.disk.Has g → g < s.nextFile
  queued : ∀ fileId ∈ s.queue, fileId.toNat < s.nextFile
  working : ∀ fileId, s.worker.file = some fileId → fileId.toNat < s.nextFile
  latest : ∀ l, s.latestOffloadedId = some l → l.toNat < s.nextFile
  covered : ∀ l, s.latestOffloadedId = some l → ∀ g ≤ l.toNat, s.disk.Has g → g ∈ s.confirmed
  snapshot : ∀ cleanup, s.cleanup = some cleanup → ∀ l, cleanup.latestOffloadedId = some l →
    ∃ now, s.latestOffloadedId = some now ∧ l.toNat ≤ now.toNat
  allowed : ∀ cleanup, s.cleanup = some cleanup → cleanup.phase ≠ .looking →
    cleanup.currentId.toNat ∈ s.confirmed
  removed : ∀ g ∈ s.removed, g ∈ s.confirmed

namespace Ordered

variable {s : Offload}

variable {disk : Disk} {fileId : UintN} {cleanup : Cleanup} {maxSize : Nat} {next : Offload}

theorem start {nextFile : Nat} (born : ∀ g, disk.Has g → g < nextFile) :
    (Offload.start disk nextFile).Ordered where
  born := born
  queued := by intro fileId queued; cases queued
  working := by intro fileId working; cases working
  latest := by intro l known; cases known
  covered := by intro l known; cases known
  snapshot := by intro cleanup running; cases running
  allowed := by intro cleanup running; cases running
  removed := by intro g removed; cases removed

section

variable (ordered : s.Ordered)

include ordered

theorem sameFiles (files : ∀ g, disk.Has g → s.disk.Has g) :
    Ordered { s with disk := disk } where
  born g has := ordered.born g (files g has)
  queued := ordered.queued
  working := ordered.working
  latest := ordered.latest
  covered l known g below has := ordered.covered l known g below (files g has)
  snapshot := ordered.snapshot
  allowed := ordered.allowed
  removed := ordered.removed

/- A new file has a higher number than any confirmed one. -/
theorem newFile (files : ∀ g, disk.Has g → g = s.nextFile ∨ s.disk.Has g) :
    Ordered { s with disk := disk, nextFile := s.nextFile + 1 } where
  born g has := by
    rcases files g has with rfl | older
    · exact Nat.lt_succ_self _
    · exact (ordered.born g older).trans (Nat.lt_succ_self _)
  queued fileId queued := (ordered.queued fileId queued).trans (Nat.lt_succ_self _)
  working fileId working := (ordered.working fileId working).trans (Nat.lt_succ_self _)
  latest l known := (ordered.latest l known).trans (Nat.lt_succ_self _)
  covered l known g below has := by
    rcases files g has with rfl | older
    · have bound := ordered.latest l known
      omega
    · exact ordered.covered l known g below older
  snapshot := ordered.snapshot
  allowed := ordered.allowed
  removed := ordered.removed

theorem atWork {worker : OffloaderPhase} {queue : List UintN}
    (working : ∀ fileId, worker.file = some fileId → fileId.toNat < s.nextFile)
    (queued : ∀ fileId ∈ queue, fileId.toNat < s.nextFile) :
    Ordered { s with worker := worker, queue := queue } :=
  { ordered with working := working, queued := queued }

theorem confirm (known : fileId.toNat < s.nextFile)
    (next : s.Next fileId) : (s.confirm fileId).Ordered where
  born := ordered.born
  queued := ordered.queued
  working := by intro other working; cases working
  latest := by
    intro l latest
    cases latest
    rcases noteOffloaded_cases s.latestOffloadedId fileId with new | old
    · rw [new]
      exact known
    · exact ordered.latest _ old
  covered := by
    intro l latest g below has
    cases latest
    rcases noteOffloaded_cases s.latestOffloadedId fileId with new | old
    · rw [new] at below
      rcases below.eq_or_lt with rfl | earlier
      · exact List.mem_cons_self
      · exact List.mem_cons_of_mem _ (next g earlier has)
    · exact List.mem_cons_of_mem _ (ordered.covered _ old g below has)
  snapshot := by
    intro cleanup running l taken
    obtain ⟨now, latest, le⟩ := ordered.snapshot cleanup running l taken
    exact ⟨_, rfl, le.trans (le_noteOffloaded latest fileId)⟩
  allowed cleanup running chosen := List.mem_cons_of_mem _ (ordered.allowed cleanup running chosen)
  removed g removed := List.mem_cons_of_mem _ (ordered.removed g removed)

theorem checkStep (known : fileId.toNat < s.nextFile)
    {answer : Except OffloadError Bool} (next : answer = .ok true → s.Next fileId) {after : Offload}
    (moved : s.checkStep fileId answer = some after) : after.Ordered := by
  have here (worker : OffloaderPhase) (working : ∀ other, worker.file = some other → other = fileId) :
      Ordered { s with worker := worker } := by
    refine ordered.atWork ?_ ordered.queued
    intro other same
    rw [working other same]
    exact known
  unfold Offload.checkStep at moved
  split at moved
  · rename_i offloaded
    split at moved
    · cases moved
    · split at moved
      · rename_i confirmed
        cases moved
        exact ordered.confirm known (next (by rw [confirmed]))
      · cases moved
        exact here _ (by intro other same; cases same; rfl)
  · cases moved
    exact here _ (by intro other same; cases same)
  · cases moved
    exact here _ (by intro other same; cases same; rfl)

theorem uploadStep (known : fileId.toNat < s.nextFile)
    {answer : Except OffloadError Unit} (next : answer = .ok () → s.Next fileId) :
    (s.uploadStep fileId answer).Ordered := by
  unfold Offload.uploadStep
  split
  · exact ordered.confirm known (next rfl)
  · exact ordered.atWork (by intro other same; cases same) ordered.queued
  · refine ordered.atWork ?_ ordered.queued
    intro other same
    cases same
    exact known

theorem cleaning
    (snapshot : ∀ l, cleanup.latestOffloadedId = some l → ∃ now, s.latestOffloadedId = some now ∧ l.toNat ≤ now.toNat)
    (allowed : cleanup.phase ≠ .looking → cleanup.currentId.toNat ∈ s.confirmed) :
    Ordered { s with cleanup := some cleanup } :=
  { ordered with
    snapshot := by
      intro other running
      cases running
      exact snapshot
    allowed := by
      intro other running
      cases running
      exact allowed }

theorem stopCleaning : Ordered { s with cleanup := none } :=
  { ordered with
    snapshot := by intro other running; cases running
    allowed := by intro other running; cases running }

theorem nextId
    (snapshot : ∀ l, cleanup.latestOffloadedId = some l → ∃ now, s.latestOffloadedId = some now ∧ l.toNat ≤ now.toNat) :
    Ordered { s with cleanup := some (nextId cleanup) } :=
  ordered.cleaning snapshot (fun other => absurd rfl other)

theorem startCleanup (maxSize : Nat) : (s.startCleanup maxSize).Ordered := by
  unfold Offload.startCleanup
  split
  · exact ordered
  · split
    · exact ordered
    · apply ordered.cleaning
      · intro l known
        exact ⟨l, known, le_refl _⟩
      · intro other
        exact absurd rfl other

/- The file is there and its number is not above the highest confirmed one. -/
theorem look (running : s.cleanup = some cleanup) :
    (s.look cleanup).Ordered := by
  unfold Offload.look
  split
  · exact ordered.stopCleaning
  · split
    · exact ordered.stopCleaning
    · rename_i there
      split
      · rename_i below
        refine ordered.cleaning ?_ (fun _ => ?_)
        · exact ordered.snapshot cleanup running
        have has : s.disk.Has cleanup.currentId.toNat := by
          cases stored : s.disk.storeFile cleanup.currentId with
          | some file => exact Disk.has_of_storeFile (by rw [stored]; rfl)
          | none =>
            apply Disk.has_of_walFile
            simpa [stored, Option.isSome_iff_ne_none] using there
        unfold canDelete at below
        split at below
        · rename_i l taken
          obtain ⟨now, latest, le⟩ := ordered.snapshot cleanup running l taken
          have under := (UintN.le_iff _ _).mp (of_decide_eq_true below)
          exact ordered.covered now latest _ (under.trans le) has
        · cases below
      · exact ordered.stopCleaning

theorem choose (running : s.cleanup = some cleanup)
    (chosen : cleanup.phase ≠ .looking) : (s.choose cleanup).Ordered := by
  have snapshot := ordered.snapshot cleanup running
  have allowed := ordered.allowed cleanup running chosen
  unfold Offload.choose
  dsimp only
  split
  · exact ordered.cleaning snapshot (fun _ => allowed)
  · split
    · exact ordered.cleaning snapshot (fun _ => allowed)
    · exact ordered.nextId snapshot

theorem remove (running : s.cleanup = some cleanup)
    (chosen : cleanup.phase ≠ .looking) (directory : Directory) (ok : Bool) :
    (s.remove cleanup directory ok).Ordered := by
  have snapshot := ordered.snapshot cleanup running
  unfold Offload.remove
  split
  · have less : Ordered { s with
        disk := s.disk.delete cleanup.currentId directory
        removed := cleanup.currentId.toNat :: s.removed } :=
      { ordered.sameFiles (fun g has => has.of_delete) with
        removed := by
          intro g removed
          rcases List.mem_cons.mp removed with rfl | earlier
          · exact ordered.allowed cleanup running chosen
          · exact ordered.removed g earlier }
    exact less.nextId snapshot
  · exact ordered.nextId snapshot

theorem writeWal {file : Bytes}
    (moved : s.step maxSize (.writeWal fileId file) = some next) : next.Ordered := by
  simp only [Offload.step] at moved
  split at moved
  · rename_i new
    cases moved
    apply ordered.newFile
    intro g has
    rw [← new]
    exact has.of_putWal
  · split at moved
    · rename_i there
      cases moved
      apply ordered.sameFiles
      intro g has
      rcases has.of_putWal with rfl | older
      · exact Disk.has_of_walFile there
      · exact older
    · cases moved

theorem store {file : Bytes}
    (moved : s.step maxSize (.store fileId file) = some next) : next.Ordered := by
  simp only [Offload.step] at moved
  split at moved
  · rename_i there
    cases moved
    apply ordered.sameFiles
    intro g has
    rcases has.of_putStore with rfl | older
    · exact Disk.has_of_walFile there
    · exact older.of_deleteStore
  · cases moved

theorem enqueueFile
    (moved : s.step maxSize (.enqueueFile fileId) = some next) : next.Ordered := by
  simp only [Offload.step] at moved
  split at moved
  · rename_i known
    cases moved
    apply ordered.atWork ordered.working
    intro other queued
    rcases List.mem_append.mp queued with earlier | last
    · exact ordered.queued other earlier
    · rw [List.mem_singleton.mp last]
      exact known
  · cases moved

theorem receive
    (moved : s.step maxSize .receive = some next) : next.Ordered := by
  simp only [Offload.step] at moved
  split at moved
  · rename_i fileId rest idle waiting
    cases moved
    have queued := ordered.queued
    rw [waiting] at queued
    apply ordered.atWork
    · intro other same
      cases same
      exact queued fileId List.mem_cons_self
    · intro other later
      exact queued other (List.mem_cons_of_mem _ later)
  · cases moved

theorem step {event : OffloadEvent} (met : s.InOrder event) (moved : s.step maxSize event = some next) : next.Ordered := by
  cases event with
  | writeWal fileId file => exact ordered.writeWal moved
  | store fileId file => exact ordered.store moved
  | deleteWal fileId =>
    cases moved
    exact ordered.sameFiles (fun g has => has.of_deleteWal)
  | enqueueFile fileId => exact ordered.enqueueFile moved
  | receive => exact ordered.receive moved
  | checked answer =>
    simp only [Offload.step] at moved
    split at moved
    · rename_i fileId busy
      refine ordered.checkStep (ordered.working fileId (by rw [busy]; rfl)) ?_ moved
      rintro rfl
      simpa only [InOrder, busy] using met
    · cases moved
  | uploaded answer =>
    simp only [Offload.step] at moved
    split at moved
    · rename_i fileId busy
      cases moved
      refine ordered.uploadStep (ordered.working fileId (by rw [busy]; rfl)) ?_
      rintro rfl
      simpa only [InOrder, busy] using met
    · cases moved
  | checkAndCleanup =>
    simp only [Offload.step] at moved
    split at moved
    · cases moved
      exact ordered.startCleanup maxSize
    · cases moved
  | look =>
    simp only [Offload.step] at moved
    split at moved
    · rename_i running
      cases moved
      exact ordered.look running
    · cases moved
  | choose =>
    simp only [Offload.step] at moved
    split at moved
    · rename_i running
      cases moved
      exact ordered.choose running (by simp)
    · cases moved
  | remove ok =>
    simp only [Offload.step] at moved
    split at moved
    · rename_i running
      cases moved
      exact ordered.remove running (by simp) _ ok
    · cases moved

end

end Ordered
end Offload

/- Nothing is deleted before it is in the bucket, as long as the bucket confirms the local files from
the oldest on. -/
theorem removed_only_confirmed {disk : Disk} {nextFile : Nat} (born : ∀ g, disk.Has g → g < nextFile)
    {maxSize : Nat} {events : List OffloadEvent} {final : Offload}
    (inOrder : Runs.Along (Offload.step maxSize) Offload.InOrder (Offload.start disk nextFile) events)
    (ran : Runs.run (Offload.step maxSize) (Offload.start disk nextFile) events = some final) :
    ∀ g ∈ final.removed, g ∈ final.confirmed :=
  (Runs.run_invariant Offload.Ordered (fun _ _ _ ordered met moved => ordered.step met moved)
    (.start born) inOrder ran).removed

namespace Sample

def oneByte : Bytes := ⟨[0], by decide⟩

def twoFiles : Disk := ((Disk.mk [] []).putWal (.u8 1) oneByte).putWal (.u8 2) oneByte

theorem twoFiles_born (g : Nat) (has : twoFiles.Has g) : g < 3 := by
  rcases has.of_putWal with rfl | has
  · decide
  · rcases has.of_putWal with rfl | has
    · decide
    · rcases has with wal | store
      · exact absurd rfl wal
      · exact absurd rfl store

/-- A file is stored, offered to the offloader and uploaded, then the monitor deletes the first file. -/
def uploadAndCleanup (fileId : UintN) : List OffloadEvent :=
  [.store fileId oneByte, .enqueueFile fileId, .deleteWal fileId, .receive, .checked (.ok false),
    .uploaded (.ok ()), .checkAndCleanup, .look, .choose, .remove true]

end Sample

/- The oldest file goes through and is deleted afterwards. -/
theorem removed_only_confirmed_first : ∃ final,
    Runs.run (Offload.step 1) (Offload.start Sample.twoFiles 3) (Sample.uploadAndCleanup (.u8 1)) = some final ∧
    final.removed = [1] ∧ ∀ g ∈ final.removed, g ∈ final.confirmed := by
  have ends : (Runs.run (Offload.step 1) (Offload.start Sample.twoFiles 3) (Sample.uploadAndCleanup (.u8 1))).any
      (fun final => final.removed == [1]) = true := by decide +kernel
  obtain ⟨final, ran, removed⟩ := (Option.any_eq_true _ _).mp ends
  have inOrder : Runs.Along (Offload.step 1) Offload.InOrder (Offload.start Sample.twoFiles 3)
      (Sample.uploadAndCleanup (.u8 1)) := by decide +kernel
  exact ⟨final, ran, eq_of_beq removed, removed_only_confirmed Sample.twoFiles_born inOrder ran⟩

/- The second file is stored and uploaded before the first. Its number is now the highest one, and the
monitor deletes the only copy of the first file. -/
theorem unconfirmed_file_removed : ∃ final,
    Runs.run (Offload.step 1) (Offload.start Sample.twoFiles 3) (Sample.uploadAndCleanup (.u8 2)) = some final ∧
    1 ∈ final.removed ∧ 1 ∉ final.confirmed ∧ ¬ final.disk.Has 1 := by
  have ends : (Runs.run (Offload.step 1) (Offload.start Sample.twoFiles 3) (Sample.uploadAndCleanup (.u8 2))).any
      (fun final => decide (1 ∈ final.removed ∧ 1 ∉ final.confirmed ∧ ¬ final.disk.Has 1)) = true := by
    decide +kernel
  obtain ⟨final, ran, lost⟩ := (Option.any_eq_true _ _).mp ends
  exact ⟨final, ran, of_decide_eq_true lost⟩

end NormFS
