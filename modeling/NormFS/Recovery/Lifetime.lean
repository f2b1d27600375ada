import NormFS.Recovery.Session

/-! A queue over any number of sessions. A session recovers, writes its files and has closed ones moved to
the store. It ends at any moment, in order or by a crash: of the current file any beginning stays that has all
that was synced. The closed files were synced when their writers ended, the files of the store before they
were renamed. -/
namespace NormFS

open OrderedBuffer Runs

/-- `synced` counts the bytes of the current file that are synced, `acked` the entries up to the last one
that any session has acknowledged. `submitted` is what all sessions were asked to write. -/
structure Site where
  disk : Disk
  ranges : RangeCache
  running : Option WalTask
  workers : List (WalFile × WorkerState)
  synced : Nat
  acked : Nat
  submitted : List Entry

inductive SiteEvent where
  | start
  | wal (event : WalEvent)
  | assign (walFile : WalFile)
  | worker (index : Nat) (event : WorkerEvent)
  | stop (keep : Nat)

namespace Site

def empty : Site := ⟨⟨[], []⟩, [], none, [], 0, 0, []⟩

/-- The task has moved, and the current file is on disk as its writer left it. -/
def put (s : Site) (task : WalTask) (synced : Nat) : Option Site :=
  if room : task.current.writer.content.length < 2 ^ 63 then
    some { s with
      disk := s.disk.putWal task.current.fileId ⟨task.current.writer.content, room⟩
      running := some task
      synced := synced
      acked := task.sent.foldl (fun acked id => max acked (id.toNat + 1)) s.acked }
  else none

section Steps

variable (xxh64 : Hash) (sort : UnstableSort) (settings : AckFileWriterSettings)
  (sealer : Sealer) (config : StoreConfig)

def start (s : Site) : Option Site :=
  if s.running.isSome then none
  else match continueQueue xxh64 config s.disk [] with
    | .ok (start, ranges) =>
      { s with ranges := ranges, workers := [] }.put (.new start.fileId start.header start.lastEntryId) 0
    | _ => none

def write (s : Site) (event : WalEvent) : Option Site := do
  let task ← s.running
  let next ← task.step xxh64 sort settings event
  { s with submitted := s.submitted ++ event.submits }.put next (task.syncedAfter next s.synced event)

/- A file before the current one is given to a worker, be it new or left from an earlier session. -/
def assign (s : Site) (walFile : WalFile) : Option Site := do
  let task ← s.running
  if walFile.fileId = .ofUbig walFile.fileId.toNat ∧ 1 ≤ walFile.fileId.toNat ∧
      walFile.fileId.toNat < task.current.fileId.toNat then
    some { s with workers := s.workers ++ [(walFile, .started)] }
  else none

def migrate (s : Site) (index : Nat) (event : WorkerEvent) : Option Site := do
  let (walFile, worker) ← s.workers[index]?
  let moved ← Migration.step sealer walFile xxh64 ⟨s.disk, s.ranges, worker⟩ event
  some { s with
    disk := moved.disk
    ranges := moved.ranges
    workers := s.workers.set index (walFile, moved.worker) }

def stop (s : Site) (keep : Nat) : Option Site := do
  let task ← s.running
  let file ← s.disk.walFile task.current.fileId
  if s.synced ≤ keep then
    some { s with
      disk := s.disk.putWal task.current.fileId (file.slice 0 keep)
      running := none
      workers := [] }
  else none

def step (s : Site) : SiteEvent → Option Site
  | .start => s.start xxh64 config
  | .wal event => s.write xxh64 sort settings event
  | .assign walFile => s.assign walFile
  | .worker index event => s.migrate xxh64 sealer index event
  | .stop keep => s.stop keep

/-- Writes fail cleanly and no sync hides that one did, the closing flush of a rotation does not give up,
no file is closed without an entry, and the numbers of entries and files stay in their ranges. -/
def fair (s : Site) : SiteEvent → Bool
  | .start => (getLatestFile s.disk).elim 0 UintN.toNat + 1 < 2 ^ 24
  | .wal event => s.running.all (fun task =>
      task.losesNothing settings event && task.writesTidily settings event &&
      event.submits.all (fun e => e.1.toNat < 2 ^ 64) && task.current.fileId.toNat + 1 < 2 ^ 24)
  | .worker index event => s.workers[index]?.all (fun worker => worker.2.tells event)
  | _ => true

def log (s : Site) : List (Nat × Bytes) := s.disk.log xxh64 config

end Steps

end Site

theorem WorkerState.Sound.mono {xxh64 : Hash} {sealer : Sealer} {config : StoreConfig}
    {walFile : WalFile} {wal : Bytes} {disk disk' : Disk} {worker : WorkerState}
    (sound : worker.Sound xxh64 sealer config walFile wal disk)
    (more : ∀ fileId, (disk.storeFile fileId).isSome → (disk'.storeFile fileId).isSome) :
    worker.Sound xxh64 sealer config walFile wal disk' := by
  cases worker with
  | renamed => exact more _ sound
  | recorded => exact more _ sound
  | _ => exact sound

section Moving

variable {xxh64 : Hash} {sealer : Sealer} {config : StoreConfig} {contents : List Bytes}
  {walFile : WalFile} {m next : Migration} {event : WorkerEvent} {i : Nat} {bytes : Bytes}

theorem Migration.safe_iff (named : walFile.fileId = .ofUbig (i + 1)) : m.Safe xxh64 sealer config walFile bytes ↔
    Shelved xxh64 config m.disk (i + 1) bytes ∧ m.worker.Sound xxh64 sealer config walFile bytes m.disk := by
  constructor
  · rintro ⟨inWal, inStore, somewhere, sound⟩
    rw [named, Option.isSome_iff_ne_none, Option.isSome_iff_ne_none] at somewhere
    rw [named] at inWal inStore
    exact ⟨⟨inWal, inStore, somewhere⟩, sound⟩
  · rintro ⟨⟨inWal, inStore, somewhere⟩, sound⟩
    refine ⟨?_, ?_, ?_, sound⟩ <;> rw [named]
    · exact inWal
    · exact inStore
    · rw [Option.isSome_iff_ne_none, Option.isSome_iff_ne_none]
      exact somewhere

/-- A worker moves its file and leaves the others alone. -/
theorem Shelf.migrate (shelf : Shelf xxh64 config m.disk contents) (inverse : sealer.Inverse config.codec)
    (placed : contents[i]? = some bytes) (before : i + 1 < contents.length)
    (named : walFile.fileId = .ofUbig (i + 1)) (sound : m.worker.Sound xxh64 sealer config walFile bytes m.disk)
    (told : m.worker.tells event = true) (moved : m.step sealer walFile xxh64 event = some next) :
    Shelf xxh64 config next.disk contents ∧ next.worker.Sound xxh64 sealer config walFile bytes next.disk ∧
      ∀ fileId, (m.disk.storeFile fileId).isSome → (next.disk.storeFile fileId).isSome := by
  obtain ⟨here, worker⟩ := (Migration.safe_iff named).mp
    (((Migration.safe_iff named).mpr ⟨shelf.kept i bytes placed, sound⟩).step inverse told moved)
  have number : walFile.fileId.toNat = i + 1 := by rw [named, UintN.toNat_ofUbig]
  have others : ∀ j, j ≠ i → next.disk.walAt (j + 1) = m.disk.walAt (j + 1) ∧
      next.disk.storeAt (j + 1) = m.disk.storeAt (j + 1) := by
    intro j other
    have apart : ¬ j + 1 = walFile.fileId.toNat := by omega
    rcases disk_migration moved with same | ⟨file, written⟩ | ⟨-, -, deleted⟩
    · rw [same]
      exact ⟨rfl, rfl⟩
    · rw [written]
      exact ⟨rfl, by rw [Disk.storeAt_putStore, if_neg apart]⟩
    · rw [deleted]
      exact ⟨by rw [Disk.walAt_deleteWal, if_neg apart], rfl⟩
  refine ⟨⟨?_, ?_, ?_⟩, worker, ?_⟩
  · intro path member
    rcases disk_migration moved with same | ⟨file, written⟩ | ⟨-, -, deleted⟩
    · exact shelf.walFiles path (same ▸ member)
    · rw [written] at member
      exact shelf.walFiles path member
    · rw [deleted] at member
      obtain ⟨item, among, rfl⟩ := List.mem_map.mp member
      exact shelf.walFiles _ (List.mem_map_of_mem (List.mem_filter.mp among).1)
  · intro path member
    rcases disk_migration moved with same | ⟨file, written⟩ | ⟨-, -, deleted⟩
    · exact shelf.storeFiles path (same ▸ member)
    · rw [written] at member
      rcases List.mem_cons.mp member with rfl | earlier
      · exact ⟨i + 1, by omega, before, by rw [named]⟩
      · exact shelf.storeFiles path earlier
    · rw [deleted] at member
      exact shelf.storeFiles path member
  · intro j content found
    by_cases same : j = i
    · subst same
      cases placed.symm.trans found
      exact here
    · obtain ⟨wal, store⟩ := others j same
      have kept := shelf.kept j content found
      refine ⟨?_, ?_, ?_⟩
      · rw [wal]
        exact kept.wal
      · rw [store]
        exact kept.store
      · rw [Disk.Has, wal, store]
        exact kept.somewhere
  · intro fileId there
    rcases disk_migration moved with same | ⟨file, written⟩ | ⟨-, -, deleted⟩
    · rwa [same]
    · rw [written, Disk.storeFile_eq, Disk.storeAt_putStore]
      split
      · rfl
      · rwa [Disk.storeFile_eq] at there
    · rwa [deleted]

end Moving

section Invariant

variable (xxh64 : Hash) (settings : AckFileWriterSettings) (sealer : Sealer) (config : StoreConfig)

structure Resting (s : Site) (pages : List Page) : Prop where
  idle : s.running = none
  alone : s.workers = []
  journal : Journal xxh64 config s.disk pages
  few : pages.length < 2 ^ 24
  acked : s.acked ≤ (pages.flatMap Page.whole).length
  asked : ∀ e ∈ pages.flatMap Page.whole, e ∈ s.submitted

structure Active (s : Site) (t : WalTask) (older : List Page) (closed : List Bytes) (last : Bytes) : Prop where
  runs : s.running = some t
  session : Session xxh64 settings older t s.synced
  completed : closed.map Bytes.data = t.closed.map (fun file => file.writer.content)
  current : last.data = t.current.writer.content
  shelf : Shelf xxh64 config s.disk (older.map Page.bytes ++ closed ++ [last])
  few : (older.map Page.bytes ++ closed ++ [last]).length < 2 ^ 24
  workers : ∀ w ∈ s.workers, ∃ i bytes, (older.map Page.bytes ++ closed)[i]? = some bytes ∧
    w.1.fileId = .ofUbig (i + 1) ∧ w.2.Sound xxh64 sealer config w.1 bytes s.disk
  acked : s.acked ≤ ((older.map Page.bytes ++ closed).flatMap (decodeAll xxh64)).length +
    (decodeAll xxh64 (last.slice 0 s.synced)).length
  asked : ∀ e ∈ older.flatMap Page.whole ++ t.taken, e ∈ s.submitted

def Lasting (s : Site) : Prop :=
  (∃ pages, Resting xxh64 config s pages) ∨
    ∃ t older closed last, Active xxh64 settings sealer config s t older closed last

end Invariant

section Lasting

variable {xxh64 : Hash} {sort : UnstableSort} {settings : AckFileWriterSettings} {sealer : Sealer}
  {config : StoreConfig} {s next : Site} {t : WalTask} {older pages : List Page} {closed : List Bytes} {last : Bytes}

theorem Resting.log_eq (resting : Resting xxh64 config s pages) :
    s.log xxh64 config = (pages.flatMap Page.whole).map valueOf :=
  resting.journal.log_eq resting.few

theorem Resting.count (resting : Resting xxh64 config s pages) :
    (getLatestFile s.disk).elim 0 UintN.toNat = pages.length := by
  rw [resting.journal.shelf.count (by rw [List.length_map]; exact resting.few), List.length_map]

namespace Active

theorem log_eq (active : Active xxh64 settings sealer config s t older closed last) :
    s.log xxh64 config =
      (older.map Page.bytes ++ closed).flatMap (decodeAll xxh64) ++ decodeAll xxh64 last := by
  rw [Site.log, active.shelf.log_eq active.few, List.flatMap_append, List.flatMap_singleton]

theorem fileId (active : Active xxh64 settings sealer config s t older closed last) :
    t.current.fileId.toNat = (older.map Page.bytes ++ closed).length + 1 := by
  obtain ⟨entries, sound⟩ := active.session.sound
  obtain ⟨layout, opened, writes, -⟩ := sound.wrote
  have number := writes.fileId_current
  have lengths := congrArg List.length active.completed
  rw [List.length_map, List.length_map] at lengths
  change t.current.fileId.toNat = older.length + 1 + (t.closed.map OwnedFile.image).length at number
  rw [List.length_map] at number
  rw [List.length_append, List.length_map, number]
  omega

end Active

theorem decodeAll_pages (chained : Serial xxh64 pages) :
    (pages.map Page.bytes).flatMap (decodeAll xxh64) = (pages.flatMap Page.whole).map valueOf := by
  rw [List.flatMap_map, List.map_flatMap]
  refine List.flatMap_congr ?_
  intro page member
  exact (chained.sound page member).decodeAll_eq

section

variable (active : Active xxh64 settings sealer config s t older closed last)

include active

theorem Active.paged :
    ∃ pages opened, Paged xxh64 older t pages opened ∧
      (older ++ pages).map Page.bytes = older.map Page.bytes ++ closed ∧ last.data <+: t.current.image.bytes := by
  obtain ⟨pages, opened, same, paged⟩ := active.session.paged active.completed
  exact ⟨pages, opened, paged, by rw [List.map_append, same], active.current ▸ paged.within⟩

theorem Active.submitted
    {opened : List Entry} (paged : Paged xxh64 older t pages opened) (bytes : Bytes) :
    ∀ e ∈ (older ++ pages ++ [(⟨⟨t.current.header, opened⟩, bytes⟩ : Page)]).flatMap Page.whole,
      e ∈ s.submitted := by
  intro e member
  apply active.asked
  rw [List.flatMap_append, List.flatMap_append, List.flatMap_singleton, List.append_assoc] at member
  rcases List.mem_append.mp member with early | late
  · exact List.mem_append_left _ early
  · refine List.mem_append_right _ (active.session.accepted_taken e (paged.accepted e ?_))
    rcases List.mem_append.mp late with inClosed | inLast
    · exact List.mem_append_left _ inClosed
    · exact List.mem_append_right _ (List.mem_of_mem_take inLast)

theorem Active.entries :
    ∃ entries : List Entry, s.log xxh64 config = entries.map valueOf ∧
      entries.map (fun e => e.1.toNat) = List.range entries.length ∧ ∀ e ∈ entries, e ∈ s.submitted := by
  obtain ⟨pages, opened, paged, same, within⟩ := active.paged
  have chained := paged.chain within
  refine ⟨_, ?_, chained.ids, ?_⟩
  · rw [active.log_eq, ← same, ← decodeAll_pages chained]
    simp only [List.map_append, List.flatMap_append, List.map_cons, List.map_nil, List.flatMap_singleton]
  · exact active.submitted paged last

end

theorem Lasting.entries (lasting : Lasting xxh64 settings sealer config s) :
    ∃ entries : List Entry, s.log xxh64 config = entries.map valueOf ∧
      entries.map (fun e => e.1.toNat) = List.range entries.length ∧ ∀ e ∈ entries, e ∈ s.submitted := by
  rcases lasting with ⟨pages, resting⟩ | ⟨t, older, closed, last, active⟩
  · exact ⟨_, resting.log_eq, resting.journal.chained.ids, resting.asked⟩
  · exact active.entries

theorem Bytes.slice_within (bytes : Bytes) (n : Nat) : (bytes.slice 0 n).data <+: bytes.data :=
  List.take_prefix _ _

theorem Lasting.acked (lasting : Lasting xxh64 settings sealer config s) :
    s.acked ≤ (s.log xxh64 config).length := by
  rcases lasting with ⟨pages, resting⟩ | ⟨t, older, closed, last, active⟩
  · rw [resting.log_eq, List.length_map]
    exact resting.acked
  · obtain ⟨pages, opened, paged, same, within⟩ := active.paged
    have shorter := (paged.decodeAll_mono (last.slice_within s.synced) within).length_le
    rw [active.log_eq, List.length_append]
    exact active.acked.trans (Nat.add_le_add_left shorter _)

structure Site.Keeps (xxh64 : Hash) (config : StoreConfig) (s next : Site) : Prop where
  acked : s.acked ≤ next.acked
  log : (s.log xxh64 config).take s.acked <+: next.log xxh64 config

theorem foldl_acked_le {ids : List UintN} {acked bound : Nat} (old : acked ≤ bound)
    (new : ∀ id ∈ ids, id.toNat < bound) : ids.foldl (fun acked id => max acked (id.toNat + 1)) acked ≤ bound := by
  induction ids generalizing acked with
  | nil => exact old
  | cons id ids ih =>
    exact ih (Nat.max_le.mpr ⟨old, new id List.mem_cons_self⟩) (fun other among => new other (List.mem_cons_of_mem _ among))

theorem le_foldl_acked (ids : List UintN) (acked : Nat) :
    acked ≤ ids.foldl (fun acked id => max acked (id.toNat + 1)) acked := by
  induction ids generalizing acked with
  | nil => exact Nat.le_refl _
  | cons id ids ih => exact (Nat.le_max_left _ _).trans (ih _)

theorem Site.put_eq {task : WalTask} {synced : Nat} (moved : s.put task synced = some next) :
    ∃ bytes : Bytes, bytes.data = task.current.writer.content ∧ next = { s with
      disk := s.disk.putWal task.current.fileId bytes
      running := some task
      synced := synced
      acked := task.sent.foldl (fun acked id => max acked (id.toNat + 1)) s.acked } := by
  unfold Site.put at moved
  split at moved <;> cases moved
  exact ⟨_, rfl, rfl⟩

theorem resumed_append (pages : List Page) : ∃ after, pages = resumed pages ++ after ∧ after.length ≤ 1 := by
  rcases List.eq_nil_or_concat pages with rfl | ⟨init, page, rfl⟩
  · exact ⟨[], rfl, Nat.zero_le _⟩
  · rw [List.concat_eq_append, resumed]
    split
    · exact ⟨[page], by rw [List.dropLast_concat], Nat.le_refl _⟩
    · exact ⟨[], (List.append_nil _).symm, Nat.zero_le _⟩

theorem Resting.starts (settings : AckFileWriterSettings) (sealer : Sealer)
    (resting : Resting xxh64 config s pages) (room : pages.length + 1 < 2 ^ 24) :
    ∃ next start, s.start xxh64 config = some next ∧ Resumes pages start ∧
      next.running = some (.new start.fileId start.header start.lastEntryId) ∧ next.acked = s.acked ∧
      next.log xxh64 config = s.log xxh64 config ∧
      ∃ t older closed last, Active xxh64 settings sealer config next t older closed last := by
  obtain ⟨start, ranges, recovered, resumes⟩ := resting.journal.resumes resting.few
  obtain ⟨after, split, few⟩ := resumed_append pages
  have session : Session xxh64 settings _ _ 0 := .resume resting.journal.chained resumes
  have shelf := resting.journal.shelf
  rw [split, List.map_append] at shelf
  have whole := resting.journal.chained.resumed.2.2
  have found : ((resumed pages).map Page.bytes ++ []).flatMap (decodeAll xxh64) = s.log xxh64 config := by
    rw [List.append_nil, decodeAll_pages session.chained, resting.log_eq, whole]
  let next : Site := { s with
    disk := s.disk.putWal start.fileId .empty
    ranges := ranges
    workers := []
    running := some (.new start.fileId start.header start.lastEntryId)
    synced := 0 }
  have started : s.start xxh64 config = some next := by
    rw [Site.start, resting.idle, recovered]
    rfl
  have active : Active xxh64 settings sealer config next _ (resumed pages) [] .empty := {
    runs := rfl
    session := session
    completed := rfl
    current := rfl
    shelf := by
      rw [List.append_nil]
      exact shelf.putWal (by rwa [List.length_map]) (by rw [List.length_map]; exact resumes.file) .empty
    few := by
      have lengths := congrArg List.length split
      simp only [List.length_append, List.length_map, List.length_nil, List.length_singleton] at lengths ⊢
      omega
    workers := fun w member => absurd member List.not_mem_nil
    acked := by
      rw [found, resting.log_eq, List.length_map]
      exact Nat.le_add_right_of_le resting.acked
    asked := by
      rw [whole]
      intro e member
      exact resting.asked e (by simpa [WalTask.taken, WalTask.new] using member) }
  refine ⟨next, start, started, resumes, rfl, rfl, ?_, _, _, _, _, active⟩
  rw [active.log_eq, found]
  exact List.append_nil _

theorem synced_stays {next : WalTask} {synced : Nat} (event : WalEvent) (tidy : t.Tidy synced)
    (closed : next.closed = t.closed) (content : t.current.writer.content <+: next.current.writer.content) :
    synced ≤ t.syncedAfter next synced event := by
  obtain ⟨flushed, block, rest, filed⟩ := tidy.current
  have longer := filed.within.trans content.length_le
  cases event with
  | task event => cases event <;> first | exact Nat.le_refl _ | exact longer
  | work =>
    rw [WalTask.syncedAfter, closed, if_pos rfl]
  | _ => exact Nat.le_refl _

theorem slice_begins {bytes longer : Bytes} {m n : Nat} (begins : bytes.data <+: longer.data) (le : m ≤ n) :
    (bytes.slice 0 m).data <+: (longer.slice 0 n).data := by
  change (bytes.data.drop 0).take m <+: (longer.data.drop 0).take n
  obtain ⟨rest, same⟩ := begins
  rw [List.drop_zero, List.drop_zero, ← same, List.take_append]
  exact (List.take_prefix_take_left le).trans (List.prefix_append _ _)

namespace Active

section

variable (active : Active xxh64 settings sealer config s t older closed last)

include active

theorem goOn {task : WalTask} {synced : Nat} {event : WalEvent} {closed' : List Bytes} {last' : Bytes}
    (session : Session xxh64 settings older task synced)
    (moved : t.step xxh64 sort settings event = some task)
    (completed : closed'.map Bytes.data = task.closed.map (fun file => file.writer.content))
    (current : last'.data = task.current.writer.content)
    (shelf : Shelf xxh64 config (s.disk.putWal task.current.fileId last') (older.map Page.bytes ++ closed' ++ [last']))
    (few : (older.map Page.bytes ++ closed' ++ [last']).length < 2 ^ 24) (longer : closed <+: closed')
    (old : s.acked ≤ ((older.map Page.bytes ++ closed').flatMap (decodeAll xxh64)).length +
      (decodeAll xxh64 (last'.slice 0 synced)).length) :
    Active xxh64 settings sealer config { s with
      disk := s.disk.putWal task.current.fileId last'
      running := some task
      synced := synced
      acked := task.sent.foldl (fun acked id => max acked (id.toNat + 1)) s.acked
      submitted := s.submitted ++ event.submits } task older closed' last' where
  runs := rfl
  session := session
  completed := completed
  current := current
  shelf := shelf
  few := few
  workers := by
    intro w member
    obtain ⟨i, bytes, placed, named, sound⟩ := active.workers w member
    obtain ⟨more, rfl⟩ := longer
    refine ⟨i, bytes, ?_, named, sound.mono (fun _ there => there)⟩
    rw [← List.append_assoc, List.getElem?_append_left (List.getElem?_eq_some_iff.mp placed).1]
    exact placed
  acked := by
    apply foldl_acked_le old
    intro id sent
    obtain ⟨pages, opened, same, paged⟩ := session.paged completed
    have bound := paged.acked session.tidy current sent
    rwa [← List.length_map valueOf, ← decodeAll_pages paged.chained, List.map_append, same] at bound
  asked := by
    intro e member
    rcases List.mem_append.mp member with early | late
    · exact List.mem_append_left _ (active.asked e (List.mem_append_left _ early))
    · obtain ⟨entries, sound⟩ := active.session.sound
      rw [sound.taken_step moved] at late
      rcases List.mem_append.mp late with before | asked
      · exact List.mem_append_left _ (active.asked e (List.mem_append_right _ before))
      · exact List.mem_append_right _ asked

theorem write (syncs : settings.fsync = true)
    {event : WalEvent} (fair : s.fair settings (.wal event) = true)
    (moved : s.write xxh64 sort settings event = some next) :
    (∃ task closed' last', Active xxh64 settings sealer config next task older closed' last') ∧
      s.acked ≤ next.acked ∧ s.log xxh64 config <+: next.log xxh64 config := by
  simp only [Site.write, active.runs, Option.bind_eq_bind, Option.bind_some] at moved
  obtain ⟨task, stepped, put⟩ := Option.bind_eq_some_iff.mp moved
  obtain ⟨last', current, rfl⟩ := Site.put_eq put
  simp only [Site.fair, active.runs, Option.all_some, Bool.and_eq_true, List.all_eq_true, decide_eq_true_eq] at fair
  obtain ⟨⟨⟨closes, tidily⟩, small⟩, room⟩ := fair
  have session := active.session.step syncs closes tidily small stepped
  have fileId := active.fileId
  have few := active.few
  simp only [List.length_append, List.length_singleton] at fileId few
  cases WalTask.turns_of_step active.session.tidy.settled stepped with
  | stays sameClosed sameId sameHeader content =>
    have completed : closed.map Bytes.data = task.closed.map (fun file => file.writer.content) := by
      rw [sameClosed, active.completed]
    have begins : last.data <+: last'.data := by
      rw [active.current, current]
      exact content
    obtain ⟨pages, opened, same, paged⟩ := session.paged completed
    have inFile : last'.data <+: task.current.image.bytes := current ▸ paged.within
    have synced := synced_stays event active.session.tidy sameClosed content
    have more := paged.decodeAll_mono (slice_begins begins synced) ((List.take_prefix _ _).trans inFile)
    have next := active.goOn session stepped completed current
      (active.shelf.putWal (Nat.le_refl _) (by rw [sameId, fileId, List.length_append]) last')
      (by simpa only [List.length_append, List.length_singleton] using few) List.prefix_rfl
      (active.acked.trans (Nat.add_le_add_left more.length_le _))
    refine ⟨⟨_, _, _, next⟩, le_foldl_acked _ _, ?_⟩
    rw [active.log_eq, next.log_eq, List.prefix_append_right_inj]
    exact paged.decodeAll_mono begins inFile
  | rotates entry ready newClosed newId newHeader =>
    have completed : (closed ++ [last]).map Bytes.data = task.closed.map (fun file => file.writer.content) := by
      rw [newClosed, List.map_append, List.map_append, active.completed, List.map_singleton, List.map_singleton,
        active.current]
    have shelf := active.shelf
    rw [List.append_assoc, ← List.append_nil (_ ++ (closed ++ [last]))] at shelf
    obtain ⟨pages, opened, paged, -, within⟩ := active.paged
    have less := (paged.decodeAll_mono (last.slice_within s.synced) within).length_le
    have whole : (older.map Page.bytes ++ (closed ++ [last])).flatMap (decodeAll xxh64) =
        (older.map Page.bytes ++ closed).flatMap (decodeAll xxh64) ++ decodeAll xxh64 last := by
      rw [← List.append_assoc, List.flatMap_append, List.flatMap_singleton]
    have next := active.goOn session stepped completed current
      (shelf.putWal (Nat.zero_le _) (by
        rw [newId, UintN.toNat_increment, fileId]
        simp only [List.length_append, List.length_singleton]
        omega) last')
      (by
        simp only [List.length_append, List.length_singleton]
        omega)
      (List.prefix_append _ _) (by
        rw [whole, List.length_append]
        have old := active.acked
        omega)
    refine ⟨⟨_, _, _, next⟩, le_foldl_acked _ _, ?_⟩
    rw [active.log_eq, next.log_eq, whole]
    exact List.prefix_append _ _

theorem assign {walFile : WalFile}
    (moved : s.assign walFile = some next) :
    Active xxh64 settings sealer config next t older closed last ∧ next.acked = s.acked ∧ next.disk = s.disk := by
  simp only [Site.assign, active.runs, Option.bind_eq_bind, Option.bind_some] at moved
  split at moved <;> cases moved
  rename_i allowed
  obtain ⟨named, low, high⟩ := allowed
  refine ⟨⟨rfl, active.session, active.completed, active.current, active.shelf, active.few, ?_, active.acked,
    active.asked⟩, rfl, rfl⟩
  intro w member
  rcases List.mem_append.mp member with earlier | new
  · exact active.workers w earlier
  · obtain rfl := List.mem_singleton.mp new
    rw [active.fileId] at high
    refine ⟨walFile.fileId.toNat - 1, _, List.getElem?_eq_getElem (by omega), ?_, trivial⟩
    rw [Nat.sub_add_cancel low]
    exact named

theorem migrate
    (inverse : sealer.Inverse config.codec) {index : Nat} {event : WorkerEvent}
    (fair : s.fair settings (.worker index event) = true) (moved : s.migrate xxh64 sealer index event = some next) :
    Active xxh64 settings sealer config next t older closed last ∧ next.acked = s.acked := by
  simp only [Site.migrate, Option.bind_eq_bind] at moved
  obtain ⟨⟨walFile, worker⟩, found, moved⟩ := Option.bind_eq_some_iff.mp moved
  obtain ⟨migration, stepped, done⟩ := Option.bind_eq_some_iff.mp moved
  cases done
  obtain ⟨i, bytes, placed, named, sound⟩ := active.workers _ (List.mem_of_getElem? found)
  have inside := (List.getElem?_eq_some_iff.mp placed).1
  have inShelf : (older.map Page.bytes ++ closed ++ [last])[i]? = some bytes := by
    rw [List.getElem?_append_left inside]
    exact placed
  have told : worker.tells event = true := by simpa [Site.fair, found] using fair
  obtain ⟨shelf, kept, more⟩ := active.shelf.migrate inverse inShelf
    (by rw [List.length_append, List.length_singleton]; omega) named sound told stepped
  refine ⟨⟨active.runs, active.session, active.completed, active.current, shelf, active.few, ?_, active.acked,
    active.asked⟩, rfl⟩
  intro w member
  rcases List.mem_or_eq_of_mem_set member with other | rfl
  · obtain ⟨j, content, there, name, soundOther⟩ := active.workers w other
    exact ⟨j, content, there, name, soundOther.mono more⟩
  · exact ⟨i, bytes, placed, named, kept⟩

theorem stop {keep : Nat}
    (moved : s.stop keep = some next) :
    (∃ pages, Resting xxh64 config next pages) ∧ next.acked = s.acked ∧
      next.log xxh64 config <+: s.log xxh64 config := by
  have number := active.fileId
  have there : s.disk.walFile t.current.fileId = some last := by
    rw [Disk.walFile_eq, number]
    exact active.shelf.walAt_last
  simp only [Site.stop, active.runs, there, Option.bind_eq_bind, Option.bind_some] at moved
  split at moved <;> cases moved
  rename_i kept
  obtain ⟨pages, opened, paged, same, within⟩ := active.paged
  have begins := (last.slice_within keep).trans within
  have chained := paged.chain begins
  have shelf := active.shelf.putWal (Nat.le_refl _) number (last.slice 0 keep)
  rw [← same] at shelf
  have few := active.few
  have resting : Resting xxh64 config { s with
      disk := s.disk.putWal t.current.fileId (last.slice 0 keep), running := none, workers := [] }
      (older ++ pages ++ [⟨⟨t.current.header, opened⟩, last.slice 0 keep⟩]) := {
    idle := rfl
    alone := rfl
    journal := ⟨by rw [List.map_append]; exact shelf, chained⟩
    few := by
      rw [← same] at few
      simpa using few
    acked := by
      have more := (paged.decodeAll_mono (slice_begins (List.prefix_refl last.data) kept) begins).length_le
      have old := active.acked
      rw [← List.length_map valueOf, ← decodeAll_pages chained, List.map_append, same, List.flatMap_append,
        List.length_append, List.map_singleton, List.flatMap_singleton]
      exact old.trans (Nat.add_le_add_left more _)
    asked := active.submitted paged _ }
  refine ⟨⟨_, resting⟩, rfl, ?_⟩
  rw [resting.log_eq, active.log_eq, ← decodeAll_pages chained, List.map_append, same, List.flatMap_append,
    List.map_singleton, List.flatMap_singleton, List.prefix_append_right_inj]
  exact paged.decodeAll_mono (last.slice_within keep) within

end

end Active

/-- Each step keeps the invariant, and what was acknowledged. -/
theorem Lasting.step (lasting : Lasting xxh64 settings sealer config s) (inverse : sealer.Inverse config.codec)
    (syncs : settings.fsync = true) {event : SiteEvent} (fair : s.fair settings event = true)
    (moved : s.step xxh64 sort settings sealer config event = some next) :
    Lasting xxh64 settings sealer config next ∧ s.Keeps xxh64 config next := by
  have acked := lasting.acked
  rcases lasting with ⟨pages, resting⟩ | ⟨t, older, closed, last, active⟩
  · cases event with
    | start =>
      simp only [Site.fair, decide_eq_true_eq] at fair
      obtain ⟨after, start, started, -, -, same, log, active⟩ := resting.starts settings sealer
        (by rwa [resting.count] at fair)
      cases started.symm.trans moved
      exact ⟨.inr active, same.ge, by rw [log]; exact List.take_prefix _ _⟩
    | wal event => simp [Site.step, Site.write, resting.idle] at moved
    | assign walFile => simp [Site.step, Site.assign, resting.idle] at moved
    | worker index event => simp [Site.step, Site.migrate, resting.alone] at moved
    | stop keep => simp [Site.step, Site.stop, resting.idle] at moved
  · cases event with
    | start => simp [Site.step, Site.start, active.runs] at moved
    | wal event =>
      obtain ⟨⟨task, closed', last', goesOn⟩, more, grows⟩ := active.write syncs fair moved
      exact ⟨.inr ⟨_, _, _, _, goesOn⟩, more, (List.take_prefix _ _).trans grows⟩
    | assign walFile =>
      obtain ⟨goesOn, same, disk⟩ := active.assign moved
      exact ⟨.inr ⟨_, _, _, _, goesOn⟩, same.ge, by rw [Site.log, Site.log, disk]; exact List.take_prefix _ _⟩
    | worker index event =>
      obtain ⟨goesOn, same⟩ := active.migrate inverse fair moved
      exact ⟨.inr ⟨_, _, _, _, goesOn⟩, same.ge, by rw [active.log_eq, goesOn.log_eq]; exact List.take_prefix _ _⟩
    | stop keep =>
      obtain ⟨rests, same, cut⟩ := active.stop moved
      have left : Lasting xxh64 settings sealer config next := .inl rests
      refine ⟨left, same.ge, ?_⟩
      have enough := left.acked
      rw [same] at enough
      obtain ⟨rest, whole⟩ := cut
      rw [← whole, List.take_append_of_le_length enough]
      exact List.take_prefix _ _

end Lasting

section Sessions

variable (xxh64 : Hash) (sort : UnstableSort) (settings : AckFileWriterSettings) (sealer : Sealer)
  (config : StoreConfig)

end Sessions

namespace Sample

end Sample

section Sessions

variable (xxh64 : Hash) (sort : UnstableSort) (settings : AckFileWriterSettings) (sealer : Sealer)
  (config : StoreConfig)

end Sessions

end NormFS
