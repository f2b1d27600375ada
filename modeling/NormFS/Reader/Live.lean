import NormFS.Disk.Changes
import NormFS.Reader.Sequential
import NormFS.Reader.Walk

/-! A reader at work while the queue goes on. Entries are appended to memory, blocks of them reach
the active WAL file, acknowledgements let memory give entries up, and the writer starts new files. -/
namespace NormFS

/-- The queue and one of its readers. `closed` and `active` record what was written to each file, from
file `first` on. `waiting` are the entries on their way to a file, `acks` the acknowledgements on their
way to memory. -/
structure Live where
  world : World
  reader : ReaderState
  first : Nat
  closed : List Segment
  active : Segment
  waiting : List Entry
  acks : List UintN

/-- `prefetch` is the task that reads ahead when it comes to run before it is waited for. -/
inductive LiveEvent where
  | read
  | prefetch
  | append (data : Bytes)
  | appendBatch (batch : List Bytes)
  | flush (count : Nat)
  | ack
  | rotate

def LiveEvent.background : LiveEvent → Bool
  | .read | .prefetch => false
  | _ => true

def Segment.stop (s : Segment) : Nat := s.first + s.entries.length

def Segment.file (xxh64 : Hash) (s : Segment) : Option Bytes :=
  if small : (s.bytes xxh64).length < 2 ^ 63 then some ⟨s.bytes xxh64, small⟩ else none

/-- The file that the writer starts for an entry. -/
def Segment.next (s : Segment) (e : Entry) : Segment :=
  ⟨{ s.header.resize e.1 e.2.length with numEntriesBefore := e.1 }, []⟩

namespace Live

def segment (s : Live) (i : Nat) : Segment := s.closed.getD i s.active

def flushed (s : Live) : Nat := s.active.stop

def enqueue (s : Live) (q : MemQueue) (added : List Entry) : Live :=
  { s with world := { s.world with mem := some q }, waiting := s.waiting ++ added }

/-- The active file with the next entries in it. -/
def filled (s : Live) (count : Nat) : Segment :=
  { s.active with entries := s.active.entries ++ s.waiting.take count }

def flush (s : Live) (count : Nat) (file : Bytes) : Live :=
  { s with
    world := { s.world with disk := s.world.disk.putWal (.ofUbig (s.first + s.closed.length)) file }
    active := s.filled count
    waiting := s.waiting.drop count
    acks := s.acks ++ ((s.waiting.take count).getLast?.map Prod.fst).toList }

def rotate (s : Live) (e : Entry) (file : Bytes) : Live :=
  { s with
    world := { s.world with disk := s.world.disk.putWal (.ofUbig (s.first + (s.closed.length + 1))) file }
    closed := s.closed ++ [s.active]
    active := s.active.next e }

def acknowledge (s : Live) (q : MemQueue) (acks : List UintN) : Live :=
  { s with world := { s.world with mem := some q }, acks := acks }

section Machine

variable (env : Env)

/- When a file is full the writer decides by its size. Here it may be full at any time. -/
def step (s : Live) : LiveEvent → Option Live
  | .read =>
    match transition env 1 s.world s.reader with
    | .next world reader => some { s with world := world, reader := reader }
    | _ => none
  | .prefetch =>
    match s.reader with
    | .readNextFile currentFile ctx (some (.pending fileId)) =>
      some { s with
        reader := .readNextFile currentFile ctx (some (.done (prefetchNextFile env s.world fileId))) }
    | _ => none
  | .append data => s.world.mem.map (fun q => s.enqueue (q.append data).1 [(q.nextId, data)])
  | .appendBatch batch => s.world.mem.map (fun q =>
      s.enqueue (q.appendBatch batch).1 (MemQueue.numbered q.nextId batch))
  | .flush count =>
    if (s.waiting.take count).all (fun e => s.active.header.canHoldEntry e.1 e.2.length) then
      ((s.filled count).file env.xxh64).map (s.flush count)
    else none
  | .ack =>
    match s.acks with
    | [] => none
    | id :: acks => s.world.mem.map (fun q => s.acknowledge (q.ack id) acks)
  | .rotate =>
    match s.waiting with
    | [] => none
    | e :: _ => ((s.active.next e).file env.xxh64).map (s.rotate e)

end Machine

/- What a step has to meet. A lookup finds the first file, and that file does not start after the
wanted entry. When memory refuses the next entry and the reader goes on to another file, the entry is not
in the file it leaves. The header of a new file is one that readers accept. -/
def Meets (s : Live) : LiveEvent → Prop
  | .read =>
    match s.reader with
    | .lookupFile startId _ _ _ => FirstFound s.world.disk s.first ∧ (s.segment 0).first ≤ startId.toNat
    | .readNextFile currentFile ctx _ => s.world.mem.any (fun q => q.refuses ctx.nextId) = true →
        (s.segment (currentFile.toNat - s.first)).stop ≤ ctx.nextId.toNat
    | _ => True
  | .rotate => ∀ e ∈ s.waiting.head?, (s.active.next e).header.Readable ∧
      (s.active.next e).header.size ≤ headerWindow
  | _ => True

instance (s : Live) (event : LiveEvent) : Decidable (s.Meets event) := by
  cases event
  case read =>
    unfold Meets
    dsimp only
    split <;> infer_instance
  case rotate =>
    unfold Meets
    infer_instance
  all_goals exact inferInstanceAs (Decidable True)

end Live

/-- Files without gaps that the lookup can read. -/
def Laid (env : Env) (disk : Disk) (a n : Nat) (segment : Nat → Segment) : Prop :=
  ∃ packed, Chained env.xxh64 env.config disk a n segment packed ∧
    ∀ i, i < n → Locatable disk (a + i) (segment i) (packed i)

section Files

variable {env : Env} {disk : Disk} {a n : Nat} {segment : Nat → Segment}

theorem Laid.absent (laid : Laid env disk a n segment) {g : Nat} (after : a + n ≤ g) :
    disk.walAt g = none ∧ disk.storeAt g = none := by
  obtain ⟨packed, layout, -⟩ := laid
  apply Disk.not_has_iff.mp
  intro has
  have within := has.within layout.walOnly layout.storeOnly
  omega

section Put

variable {xxh64 : Hash} {config : StoreConfig} {m : Nat} {file : Bytes}

theorem walAt_put_other {i : Nat} (other : i ≠ m) :
    (disk.putWal (.ofUbig m) file).walAt i = disk.walAt i := by
  rw [Disk.walAt_putWal, UintN.toNat_ofUbig, if_neg other]

theorem walAt_put_self : (disk.putWal (.ofUbig m) file).walAt m = some file := by
  rw [Disk.walAt_putWal, UintN.toNat_ofUbig, if_pos rfl]

theorem Complete.put_other {i : Nat} {s : Segment} {packed : StoreHeader}
    (complete : Complete xxh64 config disk i s packed) (other : i ≠ m) :
    Complete xxh64 config (disk.putWal (.ofUbig m) file) i s packed := by
  refine ⟨?_, complete.store, complete.before, complete.count, ?_⟩
  · rw [walAt_put_other other]
    exact complete.wal
  · rw [walAt_put_other other]
    exact complete.somewhere

/-- What the store will say of a file. -/
def Segment.packed (s : Segment) (like : StoreHeader) : StoreHeader :=
  { like with numEntriesBefore := .ofUbig s.first, numEntries := .ofUbig s.entries.length }

theorem Complete.put_self {s : Segment} (like : StoreHeader) (unpacked : disk.storeAt m = none)
    (content : file.data = s.bytes xxh64) :
    Complete xxh64 config (disk.putWal (.ofUbig m) file) m s (s.packed like) := by
  refine ⟨?_, ?_, UintN.toNat_ofUbig _, UintN.toNat_ofUbig _, ?_⟩
  · intro file' found
    rw [walAt_put_self] at found
    cases found
    exact content
  · intro file' found
    change disk.storeAt m = _ at found
    rw [unpacked] at found
    cases found
  · rw [walAt_put_self]
    exact .inl (Option.some_ne_none _)

/- Writing the last file anew, or one more file: the files before it stay as they are. -/
theorem Linked.put {packed : Nat → StoreHeader}
    (layout : Linked xxh64 config disk a n segment packed) (last : n = m ∨ n = m + 1)
    (unpacked : disk.storeAt (a + m) = none) {after : Nat → Segment}
    (same : ∀ i, i < m → after i = segment i)
    (following : ∀ i, i + 1 = m → (after m).first = (segment i).stop)
    (content : file.data = (after m).bytes xxh64) :
    Linked xxh64 config (disk.putWal (.ofUbig (a + m)) file) a (m + 1) after
      (fun i => if i < m then packed i else (after m).packed (packed i)) where
  complete := by
    intro i listed
    by_cases before : i < m
    · rw [if_pos before, same i before]
      exact (layout.complete i (by omega)).put_other (by omega)
    · obtain rfl : i = m := by omega
      rw [if_neg before]
      exact .put_self _ unpacked content
  following := by
    intro i listed
    rw [same i (by omega)]
    by_cases before : i + 1 < m
    · rw [same (i + 1) before]
      exact layout.following i (by omega)
    · have here : i + 1 = m := by omega
      rw [here]
      exact following i here
  headerOnly := by
    intro i listed empty
    by_cases before : i < m
    · rw [same i before] at empty
      exact layout.headerOnly i (by omega) empty
    · obtain rfl : i = m := by omega
      exact unpacked

theorem Chained.put {packed : Nat → StoreHeader}
    (layout : Chained xxh64 config disk a n segment packed) (last : n = m ∨ n = m + 1)
    (unpacked : disk.storeAt (a + m) = none) {after : Nat → Segment}
    (same : ∀ i, i < m → after i = segment i) (contiguous : (after m).Contiguous)
    (following : ∀ i, i + 1 = m → (after m).first = (segment i).stop)
    (content : file.data = (after m).bytes xxh64) :
    Chained xxh64 config (disk.putWal (.ofUbig (a + m)) file) a (m + 1) after
      (fun i => if i < m then packed i else (after m).packed (packed i)) where
  toLinked := layout.toLinked.put last unpacked same following content
  contiguous := by
    intro i listed
    by_cases before : i < m
    · rw [same i before]
      exact layout.contiguous i (by omega)
    · obtain rfl : i = m := by omega
      exact contiguous
  walOnly := by
    intro path member
    rcases List.mem_cons.mp member with rfl | member
    · exact ⟨m, Nat.lt_succ_self m, rfl⟩
    · obtain ⟨file', among, rfl⟩ := List.mem_map.mp member
      obtain ⟨i, listed, named⟩ :=
        layout.walOnly _ (List.mem_map_of_mem (List.mem_filter.mp among).1)
      exact ⟨i, by omega, named⟩
  storeOnly := by
    intro path member
    obtain ⟨i, listed, named⟩ := layout.storeOnly path member
    exact ⟨i, by omega, named⟩

theorem Laid.put (laid : Laid env disk a n segment) (last : n = m ∨ n = m + 1)
    (unpacked : disk.storeAt (a + m) = none) {after : Nat → Segment}
    (same : ∀ i, i < m → after i = segment i) (contiguous : (after m).Contiguous)
    (following : ∀ i, i + 1 = m → (after m).first = (segment i).stop)
    (readable : (after m).header.Readable) (window : (after m).header.size ≤ headerWindow)
    (content : file.data = (after m).bytes env.xxh64) :
    Laid env (disk.putWal (.ofUbig (a + m)) file) a (m + 1) after := by
  obtain ⟨packed, layout, locatable⟩ := laid
  refine ⟨_, layout.put last unpacked same contiguous following content, ?_⟩
  intro i listed
  by_cases before : i < m
  · have located := locatable i (by omega)
    rw [if_pos before, same i before]
    exact ⟨located.readable, located.wal, located.store⟩
  · obtain rfl : i = m := by omega
    exact ⟨readable, fun _ => window, fun inStore => absurd unpacked inStore⟩

end Put

end Files

namespace Live

/-- The queue between two steps: every entry is in a file or on its way to one, and memory has given up
nothing that is not in a file. There is no bucket. -/
structure Consistent (env : Env) (s : Live) : Prop where
  files : Laid env s.world.disk s.first (s.closed.length + 1) s.segment
  unpacked : s.world.disk.storeAt (s.first + s.closed.length) = none
  memory : ∃ q, s.world.mem = some q ∧ q.Backed s.flushed (s.flushed + s.waiting.length)
  waiting : Numbered s.flushed s.waiting
  acks : ∀ id ∈ s.acks, id.toNat < s.flushed
  cloud : s.world.cloud = none
  ranges : s.world.ranges.Agrees env.config s.world.disk.storeAt

structure Grows (s t : Live) : Prop where
  first : t.first = s.first
  files : s.closed.length ≤ t.closed.length
  header : ∀ i, i ≤ s.closed.length → (t.segment i).header = (s.segment i).header
  entries : ∀ i, i ≤ s.closed.length → (s.segment i).entries <+: (t.segment i).entries
  store : t.world.disk.storeAt = s.world.disk.storeAt

section Background

variable {env : Env} {s t : Live}

theorem segment_closed {i : Nat} (before : i < s.closed.length) : s.segment i = s.closed[i] := by
  simp [segment, before]

theorem segment_active : s.segment s.closed.length = s.active := by
  simp [segment]

theorem Grows.of_same (first : t.first = s.first) (closed : t.closed = s.closed) (active : t.active = s.active)
    (store : t.world.disk.storeAt = s.world.disk.storeAt) : Grows s t := by
  have segments : t.segment = s.segment := by
    funext i
    rw [segment, segment, closed, active]
  refine ⟨first, by rw [closed], ?_, ?_, store⟩
  · intro i _
    rw [segments]
  · intro i _
    rw [segments]

theorem Consistent.enqueue (consistent : s.Consistent env) {q : MemQueue} (memory : s.world.mem = some q)
    (batch : List Bytes) :
    (s.enqueue (q.appendBatch batch).1 (MemQueue.numbered q.nextId batch)).Consistent env := by
  obtain ⟨q', memory', backed⟩ := consistent.memory
  rw [memory] at memory'
  cases memory'
  obtain ⟨lo, -, spans⟩ := backed.spans
  have added := numbered_numbered q.nextId batch
  have length := length_numbered q.nextId batch
  rw [spans.nextId] at added
  refine ⟨consistent.files, consistent.unpacked, ⟨_, rfl, ?_⟩, ?_, consistent.acks, consistent.cloud,
    consistent.ranges⟩
  · have more := backed.appendBatch batch
    rw [Nat.add_assoc, ← length, ← List.length_append] at more
    exact more
  · exact numbered_append.mpr ⟨consistent.waiting, added⟩

theorem Consistent.acknowledge (consistent : s.Consistent env) {q : MemQueue} (memory : s.world.mem = some q)
    {id : UintN} {acks : List UintN} (sent : s.acks = id :: acks) :
    (s.acknowledge (q.ack id) acks).Consistent env := by
  obtain ⟨q', memory', backed⟩ := consistent.memory
  rw [memory] at memory'
  cases memory'
  have written := consistent.acks
  rw [sent] at written
  refine ⟨consistent.files, consistent.unpacked, ⟨_, rfl, ?_⟩, consistent.waiting, ?_, consistent.cloud,
    consistent.ranges⟩
  · exact backed.ack (written id List.mem_cons_self)
  · intro other member
    exact written other (List.mem_cons_of_mem _ member)

theorem file_eq_some {xxh64 : Hash} {segment : Segment} {file : Bytes}
    (written : segment.file xxh64 = some file) : file.data = segment.bytes xxh64 := by
  unfold Segment.file at written
  split at written
  · cases written
    rfl
  · cases written

theorem segment_flush (count : Nat) (file : Bytes) {i : Nat} (before : i < s.closed.length) :
    (s.flush count file).segment i = s.segment i := by
  rw [segment_closed before]
  exact segment_closed (s := s.flush count file) before

theorem flushed_flush (count : Nat) (file : Bytes) :
    (s.flush count file).flushed = s.flushed + (s.waiting.take count).length := by
  change s.active.first + (s.active.entries ++ s.waiting.take count).length = _
  rw [List.length_append, ← Nat.add_assoc]
  rfl

theorem segment_flush_active (count : Nat) (file : Bytes) :
    (s.flush count file).segment s.closed.length = s.filled count :=
  segment_active (s := s.flush count file)

theorem grows_flush (count : Nat) (file : Bytes) : Grows s (s.flush count file) := by
  refine ⟨rfl, Nat.le_refl _, ?_, ?_, rfl⟩
  · intro i listed
    rcases Nat.lt_or_eq_of_le listed with before | rfl
    · rw [segment_flush count file before]
    · rw [segment_active, segment_flush_active]
      rfl
  · intro i listed
    rcases Nat.lt_or_eq_of_le listed with before | rfl
    · rw [segment_flush count file before]
    · rw [segment_active, segment_flush_active]
      exact List.prefix_append _ _

theorem Consistent.flush (consistent : s.Consistent env) {count : Nat}
    (fits : CanHold s.active.header (s.waiting.take count)) {file : Bytes}
    (written : (s.filled count).file env.xxh64 = some file) : (s.flush count file).Consistent env := by
  obtain ⟨q, memory, backed⟩ := consistent.memory
  have active := segment_flush_active (s := s) count file
  have split := consistent.waiting
  rw [← List.take_append_drop count s.waiting] at split
  obtain ⟨block, rest⟩ := numbered_append.mp split
  have flushed := flushed_flush (s := s) count file
  have lengths := congrArg List.length (List.take_append_drop count s.waiting)
  rw [List.length_append] at lengths
  obtain ⟨packed, layout, locatable⟩ := consistent.files
  have contiguous := layout.contiguous s.closed.length (Nat.lt_succ_self _)
  have located := locatable s.closed.length (Nat.lt_succ_self _)
  rw [segment_active] at contiguous located
  refine ⟨?_, consistent.unpacked, ⟨q, memory, ?_⟩, ?_, ?_, consistent.cloud, consistent.ranges⟩
  · refine Laid.put consistent.files (.inr rfl) consistent.unpacked
      (fun i before => segment_flush count file before) ?_ ?_ ?_ ?_ ?_
    · rw [active]
      refine ⟨?_, numbered_append.mpr ⟨contiguous.ids, block⟩⟩
      intro e member
      rcases List.mem_append.mp member with old | new
      · exact contiguous.fits e old
      · exact fits e new
    · intro i next
      rw [active]
      have following := layout.following i (by omega)
      rw [next, segment_active] at following
      exact following
    · rw [active]
      exact located.readable
    · rw [active]
      exact located.wal consistent.unpacked
    · rw [active]
      exact file_eq_some written
  · have all : (s.flush count file).flushed + (s.flush count file).waiting.length =
        s.flushed + s.waiting.length := by
      change _ + (s.waiting.drop count).length = _
      omega
    rw [all]
    exact backed.mono (by omega)
  · rw [flushed]
    exact rest
  · intro id member
    rw [flushed]
    rcases List.mem_append.mp member with old | new
    · have before := consistent.acks id old
      omega
    · obtain ⟨e, last, rfl⟩ := Option.map_eq_some_iff.mp (Option.mem_toList.mp new)
      exact (block.mem (List.mem_of_getLast? last)).2

theorem segment_rotate (e : Entry) (file : Bytes) {i : Nat} (listed : i ≤ s.closed.length) :
    (s.rotate e file).segment i = s.segment i := by
  change (s.closed ++ [s.active]).getD i (s.active.next e) = s.closed.getD i s.active
  rcases Nat.lt_or_eq_of_le listed with before | rfl
  · simp [List.getElem?_append_left before, before]
  · simp

theorem grows_rotate (e : Entry) (file : Bytes) : Grows s (s.rotate e file) := by
  refine ⟨rfl, ?_, ?_, ?_, rfl⟩
  · change s.closed.length ≤ (s.closed ++ [s.active]).length
    simp
  · intro i listed
    rw [segment_rotate e file listed]
  · intro i listed
    rw [segment_rotate e file listed]

theorem Consistent.rotate (consistent : s.Consistent env) {e : Entry} {later : List Entry}
    (next : s.waiting = e :: later) (readable : (s.active.next e).header.Readable)
    (window : (s.active.next e).header.size ≤ headerWindow) {file : Bytes}
    (written : (s.active.next e).file env.xxh64 = some file) : (s.rotate e file).Consistent env := by
  have closed : (s.rotate e file).closed.length = s.closed.length + 1 := List.length_append
  have active : (s.rotate e file).segment (s.closed.length + 1) = s.active.next e := by
    rw [← closed]
    exact segment_active (s := s.rotate e file)
  have absent := (consistent.files.absent (g := s.first + (s.closed.length + 1)) (Nat.le_refl _)).2
  have numbered := consistent.waiting
  rw [next] at numbered
  have number := (numbered_cons.mp numbered).1
  have flushed : (s.rotate e file).flushed = s.flushed := number
  refine ⟨?_, ?_, ?_, ?_, ?_, consistent.cloud, consistent.ranges⟩
  · rw [closed]
    refine Laid.put consistent.files (.inl rfl) absent
      (fun i before => segment_rotate e file (Nat.le_of_lt_succ before)) ?_ ?_ ?_ ?_ ?_
    · rw [active]
      exact ⟨fun e member => absurd member List.not_mem_nil, rfl⟩
    · intro i last
      obtain rfl : i = s.closed.length := by omega
      rw [active, segment_active]
      exact number
    · rw [active]
      exact readable
    · rw [active]
      exact window
    · rw [active]
      exact file_eq_some written
  · rw [closed]
    exact absent
  · rw [flushed]
    exact consistent.memory
  · rw [flushed]
    exact consistent.waiting
  · rw [flushed]
    exact consistent.acks

/- The reader may rely on what it has seen of a file: the queue goes on and takes nothing back. -/
theorem Consistent.background (consistent : s.Consistent env) {event : LiveEvent}
    (other : event.background = true) (met : s.Meets event) (moved : s.step env event = some t) :
    t.Consistent env ∧ Grows s t ∧ t.reader = s.reader := by
  cases event with
  | read => cases other
  | prefetch => cases other
  | append data =>
    obtain ⟨q, memory, rfl⟩ := Option.map_eq_some_iff.mp moved
    have single : (q.append data).1 = (q.appendBatch [data]).1 := by
      simp [MemQueue.append, MemQueue.appendBatch, MemQueue.numbered]
    rw [single]
    exact ⟨consistent.enqueue memory [data], .of_same rfl rfl rfl rfl, rfl⟩
  | appendBatch batch =>
    obtain ⟨q, memory, rfl⟩ := Option.map_eq_some_iff.mp moved
    exact ⟨consistent.enqueue memory batch, .of_same rfl rfl rfl rfl, rfl⟩
  | flush count =>
    simp only [Live.step] at moved
    split at moved
    · rename_i fits
      obtain ⟨file, written, rfl⟩ := Option.map_eq_some_iff.mp moved
      exact ⟨consistent.flush (List.all_eq_true.mp fits) written, grows_flush count file, rfl⟩
    · cases moved
  | ack =>
    simp only [Live.step] at moved
    split at moved
    · cases moved
    · rename_i id acks sent
      obtain ⟨q, memory, rfl⟩ := Option.map_eq_some_iff.mp moved
      exact ⟨consistent.acknowledge memory sent, .of_same rfl rfl rfl rfl, rfl⟩
  | rotate =>
    simp only [Live.step] at moved
    split at moved
    · cases moved
    · rename_i e later next
      obtain ⟨file, written, rfl⟩ := Option.map_eq_some_iff.mp moved
      obtain ⟨readable, window⟩ := met e (by rw [next]; rfl)
      exact ⟨consistent.rotate next readable window written, grows_rotate e file, rfl⟩

end Background

end Live

end NormFS
