import NormFS.Reader.Live

/-! What a reader hands over while the queue goes on. It works on files as they were when it read
them, and memory may have given up since then what it does not find there. -/
namespace NormFS

/-- The content of a file at some time. -/
def Segment.Snapshot (env : Env) (s : Segment) (bytes : Bytes) : Prop :=
  ∃ entries, entries <+: s.entries ∧ bytes.data = Segment.bytes env.xxh64 ⟨s.header, entries⟩

theorem Segment.Contiguous.begun {s : Segment} (contiguous : s.Contiguous) {entries : List Entry}
    (begun : entries <+: s.entries) : Segment.Contiguous ⟨s.header, entries⟩ := by
  obtain ⟨later, all⟩ := begun
  have ids : Numbered s.first s.entries := contiguous.ids
  have fits := contiguous.fits
  rw [← all] at ids fits
  refine ⟨?_, (numbered_append.mp ids).1⟩
  intro e member
  exact fits e (List.mem_append_left _ member)

namespace Live

section Reading

variable (env : Env) (before : List Nat) (start : Nat) (s : Live)

/-- The reader is at file `i`. It has handed over the numbers from `start` up to the one it waits for, and
the file does not start after that. -/
structure At (ctx : ReadContext) (i : Nat) : Prop where
  single : ctx.step = 1
  bounded : ctx.lastId ≠ none
  listed : i ≤ s.closed.length
  reached : (s.segment i).first ≤ ctx.nextId.toNat
  ids : ∃ k, ctx.nextId.toNat = start + k ∧ ctx.sender.ids = before ++ List.range' start k

/-- What the task that reads ahead may bring: the content of file `j`, or nothing. -/
def Brings (j : Nat) : Option Prefetch → Prop
  | none => True
  | some (.pending fileId) => fileId = .ofUbig (s.first + j)
  | some (.done (.ok none)) => True
  | some (.done (.ok (some (bytes, _)))) => j ≤ s.closed.length ∧ (s.segment j).Snapshot env bytes
  | some (.done _) => False

def Reads : ReaderState → Prop
  | .lookupPositive offset limit sender => offset.toNat = start ∧ 0 < limit ∧ sender.ids = before
  | .lookupFile startId endId step sender => startId.toNat = start ∧ endId ≠ none ∧ step = 1 ∧ sender.ids = before
  | .readFile ctx | .readStore ctx => ∃ i, ctx.fileId = .ofUbig (s.first + i) ∧ s.At before start ctx i
  | .readWal ctx => ∃ i, ctx.fileId = .ofUbig (s.first + i) ∧ s.At before start ctx i ∧
      s.world.disk.storeAt (s.first + i) = none
  | .extractWalBytes ctx storeBytes source => ∃ i, ctx.fileId = .ofUbig (s.first + i) ∧ s.At before start ctx i ∧
      s.world.disk.storeAt (s.first + i) = some storeBytes ∧ source = .diskStore
  | .parseWalBytes ctx walBytes _ => ∃ i, ctx.fileId = .ofUbig (s.first + i) ∧ s.At before start ctx i ∧
      (s.segment i).Snapshot env walBytes
  | .readNextFile currentFile ctx handle => ∃ i, currentFile = .ofUbig (s.first + i) ∧ s.At before start ctx i ∧
      s.Brings env (i + 1) handle
  | .completed sender | .failed _ sender => ∃ k, sender.ids = before ++ List.range' start k
  | .lookupNegative _ _ _ | .readS3 _ | .subscribed _ => False

end Reading

section Reader

variable {env : Env} {before : List Nat} {start : Nat} {s t : Live}

variable {ctx : ReadContext} {i : Nat} {state : ReaderState}

theorem At.delivered (at' : s.At before start ctx i) :
    ∃ k, ctx.sender.ids = before ++ List.range' start k := by
  obtain ⟨k, -, ids⟩ := at'.ids
  exact ⟨k, ids⟩

theorem Reads.delivered (reads : s.Reads env before start state) :
    ∃ k, state.sender.ids = before ++ List.range' start k := by
  cases state with
  | lookupPositive offset limit sender => exact ⟨0, reads.2.2.trans (List.append_nil _).symm⟩
  | lookupFile startId endId step sender => exact ⟨0, reads.2.2.2.trans (List.append_nil _).symm⟩
  | readFile ctx | readStore ctx =>
    obtain ⟨i, -, at'⟩ := reads
    exact at'.delivered
  | readWal ctx | extractWalBytes ctx | parseWalBytes ctx | readNextFile f ctx =>
    obtain ⟨i, -, at', -⟩ := reads
    exact at'.delivered
  | completed sender | failed e sender => exact reads
  | lookupNegative | readS3 | subscribed => exact reads.elim

theorem At.grows (grows : Grows s t) (at' : s.At before start ctx i) :
    t.At before start ctx i := by
  refine ⟨at'.single, at'.bounded, Nat.le_trans at'.listed grows.files, ?_, at'.ids⟩
  rw [Segment.first, grows.header i at'.listed]
  exact at'.reached

theorem snapshot_grows (grows : Grows s t) (listed : i ≤ s.closed.length) {bytes : Bytes}
    (snapshot : (s.segment i).Snapshot env bytes) : (t.segment i).Snapshot env bytes := by
  obtain ⟨entries, begun, content⟩ := snapshot
  refine ⟨entries, begun.trans (grows.entries i listed), ?_⟩
  rw [grows.header i listed]
  exact content

theorem Brings.grows (grows : Grows s t) {j : Nat} {handle : Option Prefetch} (brings : s.Brings env j handle) :
    t.Brings env j handle := by
  rcases handle with _ | fileId | (_ | ⟨bytes, source⟩) | _ | _
  · trivial
  · rw [Brings, grows.first]
    exact brings
  · trivial
  · exact ⟨Nat.le_trans brings.1 grows.files, snapshot_grows grows brings.1 brings.2⟩
  · exact brings
  · exact brings

theorem Reads.grows (grows : Grows s t) (reads : s.Reads env before start state) :
    t.Reads env before start state := by
  cases state with
  | lookupPositive | lookupFile | completed | failed | lookupNegative | readS3 | subscribed => exact reads
  | readFile ctx | readStore ctx =>
    obtain ⟨i, here, at'⟩ := reads
    exact ⟨i, grows.first ▸ here, at'.grows grows⟩
  | readWal ctx =>
    obtain ⟨i, here, at', store⟩ := reads
    exact ⟨i, grows.first ▸ here, at'.grows grows, by rw [grows.store, grows.first]; exact store⟩
  | extractWalBytes ctx storeBytes source =>
    obtain ⟨i, here, at', store, local'⟩ := reads
    exact ⟨i, grows.first ▸ here, at'.grows grows, by rw [grows.store, grows.first]; exact store, local'⟩
  | parseWalBytes ctx walBytes source =>
    obtain ⟨i, here, at', snapshot⟩ := reads
    exact ⟨i, grows.first ▸ here, at'.grows grows, snapshot_grows grows at'.listed snapshot⟩
  | readNextFile currentFile ctx handle =>
    obtain ⟨i, here, at', brings⟩ := reads
    exact ⟨i, grows.first ▸ here, at'.grows grows, brings.grows grows⟩

theorem At.more (at' : s.At before start ctx i) {after : Sender} {k : Nat}
    (ids : after.ids = ctx.sender.ids ++ List.range' ctx.nextId.toNat k) :
    ∃ j, ctx.nextId.toNat + k = start + j ∧ after.ids = before ++ List.range' start j := by
  obtain ⟨j, next, sofar⟩ := at'.ids
  refine ⟨j + k, by omega, ?_⟩
  rw [ids, sofar, next, List.append_assoc, List.range'_append_1]

theorem Consistent.content (consistent : s.Consistent env) (listed : i ≤ s.closed.length) :
    (∃ file wal, s.world.disk.storeAt (s.first + i) = some file ∧
      extractWalBytes env.config (.ofUbig (s.first + i)) file false = .ok wal ∧ (s.segment i).Snapshot env wal) ∨
    (s.world.disk.storeAt (s.first + i) = none ∧
      ∃ file, s.world.disk.walAt (s.first + i) = some file ∧ (s.segment i).Snapshot env file) := by
  obtain ⟨packed, layout, -⟩ := consistent.files
  have complete := layout.complete i (Nat.lt_succ_of_le listed)
  cases inStore : s.world.disk.storeAt (s.first + i) with
  | some file =>
    left
    obtain ⟨wal, storeFile, content⟩ := complete.store file inStore
    exact ⟨file, wal, rfl, extractWalBytes_unverified storeFile.extracted, _, List.prefix_refl _, content⟩
  | none =>
    right
    obtain ⟨file, inWal⟩ := Option.ne_none_iff_exists'.mp
      (complete.somewhere.resolve_right (fun no => no inStore))
    exact ⟨rfl, file, inWal, _, List.prefix_refl _, complete.wal file inWal⟩

theorem Consistent.brings (consistent : s.Consistent env) {j : Nat} (near : j ≤ s.closed.length + 1) :
    s.Brings env j (some (.done (prefetchNextFile env s.world (.ofUbig (s.first + j))))) := by
  rcases Nat.lt_or_eq_of_le near with listed | rfl
  · have listed : j ≤ s.closed.length := Nat.le_of_lt_succ listed
    rcases consistent.content listed with ⟨file, wal, inStore, extracted, snapshot⟩ |
      ⟨notStored, file, inWal, snapshot⟩
    · have inStore : s.world.disk.storeFile (.ofUbig (s.first + j)) = some file := inStore
      simp only [prefetchNextFile, PersistStore.getStoreBytes, inStore, extracted]
      exact ⟨listed, snapshot⟩
    · have notStored : s.world.disk.storeFile (.ofUbig (s.first + j)) = none := notStored
      have inWal : s.world.disk.walFile (.ofUbig (s.first + j)) = some file := inWal
      simp only [prefetchNextFile, PersistStore.getStoreBytes, notStored, WalStore.getWalBytes, inWal]
      exact ⟨listed, snapshot⟩
  · obtain ⟨noWal, noStore⟩ := consistent.files.absent (g := s.first + (s.closed.length + 1)) (Nat.le_refl _)
    have noStore : s.world.disk.storeFile (.ofUbig (s.first + (s.closed.length + 1))) = none := noStore
    have noWal : s.world.disk.walFile (.ofUbig (s.first + (s.closed.length + 1))) = none := noWal
    simp only [prefetchNextFile, PersistStore.getStoreBytes, noStore, WalStore.getWalBytes, noWal,
      consistent.cloud]
    trivial

/- Memory hands over the rest of the run, or it refuses the next entry and that entry is in a file. -/
theorem Consistent.fromMemory_single (consistent : s.Consistent env) (nextId : UintN) {lastId : Option UintN}
    (bounded : lastId ≠ none) {step : Nat} (single : step = 1) (sender : Sender)
    (otherwise : Sender → ReaderState) :
    (∃ after k, fromMemory s.world nextId lastId step sender otherwise = .next s.world (.completed after) ∧
      after.ids = sender.ids ++ List.range' nextId.toNat k) ∨
    (s.world.mem.any (fun q => q.refuses nextId) = true ∧ nextId.toNat < s.flushed ∧
      fromMemory s.world nextId lastId step sender otherwise = .next s.world (otherwise sender)) := by
  obtain ⟨endId, rfl⟩ := Option.ne_none_iff_exists'.mp bounded
  subst single
  obtain ⟨q, memory, backed⟩ := consistent.memory
  obtain ⟨lo, low, spans⟩ := backed.spans
  rcases spans.readFull_single nextId endId sender with ⟨after, k, answer, ids⟩ | ⟨below, refused⟩
  · exact .inl ⟨after, k, by simp [fromMemory, memory, answer], ids⟩
  · right
    refine ⟨?_, by omega, by simp [fromMemory, memory, refused, MemReadResult.fail]⟩
    rw [memory, Option.any_some, ← Bool.not_eq_false]
    intro answers
    obtain ⟨after, answer⟩ := MemQueue.readFull_answers answers Nat.one_pos (by decide) endId sender
    rw [refused] at answer
    cases answer

/-- Where a step of the reader leads: the world stays as it is, but for the ranges it remembers. -/
def Moves (env : Env) (before : List Nat) (start : Nat) (s : Live) (move : Move) : Prop :=
  ∃ ranges state, move = .next { s.world with ranges := ranges } state ∧
    ranges.Agrees env.config s.world.disk.storeAt ∧ s.Reads env before start state

section

variable (consistent : s.Consistent env)

include consistent

theorem Consistent.stays
    (reads : s.Reads env before start state) : s.Moves env before start (.next s.world state) :=
  ⟨s.world.ranges, state, rfl, consistent.ranges, reads⟩

theorem Consistent.lookupPositive {offset : UintN} {limit : Nat} {sender : Sender}
    (reads : s.Reads env before start (.lookupPositive offset limit sender)) :
    s.Moves env before start (transition env 1 s.world (.lookupPositive offset limit sender)) := by
  obtain ⟨rfl, positive, ids⟩ := reads
  rw [transition, handleLookupPositive]
  split
  · exact consistent.stays ⟨0, ids.trans (List.append_nil _).symm⟩
  · simp only [boundOf, if_pos positive]
    rcases consistent.fromMemory_single offset (Option.some_ne_none _) rfl sender _ with
      ⟨after, k, goes, sent⟩ | ⟨-, -, goes⟩
    · rw [goes]
      exact consistent.stays ⟨k, ids ▸ sent⟩
    · rw [goes]
      exact consistent.stays ⟨rfl, Option.some_ne_none _, rfl, ids⟩

theorem Consistent.lookupFile {startId : UintN} {endId : Option UintN} {step : Nat}
    {sender : Sender} (reads : s.Reads env before start (.lookupFile startId endId step sender))
    (found : FirstFound s.world.disk s.first) (above : (s.segment 0).first ≤ startId.toNat) :
    s.Moves env before start (transition env 1 s.world (.lookupFile startId endId step sender)) := by
  obtain ⟨rfl, bounded, single, ids⟩ := reads
  rw [transition, handleLookupFile]
  split
  · exact consistent.stays ⟨0, ids.trans (List.append_nil _).symm⟩
  · obtain ⟨packed, layout, locatable⟩ := consistent.files
    obtain ⟨last, listed, g, covers, yields⟩ :=
      findFile_chained layout locatable (Nat.succ_pos _) found above
    obtain ⟨ranges, answer, agrees⟩ := yields s.world.ranges consistent.ranges
    rw [← consistent.cloud] at answer
    have near := covers.listed
    rw [answer]
    refine ⟨ranges, .readFile ⟨.ofUbig (s.first + g), startId, step, endId, sender⟩, rfl, agrees, g, rfl, ?_⟩
    exact ⟨single, bounded, by omega, covers.starts, 0, rfl, ids.trans (List.append_nil _).symm⟩

theorem Consistent.readFile
    (reads : s.Reads env before start (.readFile ctx)) :
    s.Moves env before start (transition env 1 s.world (.readFile ctx)) := by
  obtain ⟨i, here, at'⟩ := reads
  rw [transition, handleReadFile]
  split
  · exact consistent.stays at'.delivered
  · exact consistent.stays ⟨i, here, at'⟩

theorem Consistent.readStore
    (reads : s.Reads env before start (.readStore ctx)) :
    s.Moves env before start (transition env 1 s.world (.readStore ctx)) := by
  obtain ⟨i, here, at'⟩ := reads
  rw [transition, handleReadStore, PersistStore.getStoreBytes, here]
  split
  · exact consistent.stays at'.delivered
  · cases inStore : s.world.disk.storeFile (.ofUbig (s.first + i)) with
    | some storeBytes => exact consistent.stays ⟨i, here, at', inStore, rfl⟩
    | none => exact consistent.stays ⟨i, here, at', inStore⟩

theorem Consistent.readWal
    (reads : s.Reads env before start (.readWal ctx)) :
    s.Moves env before start (transition env 1 s.world (.readWal ctx)) := by
  obtain ⟨i, here, at', notStored⟩ := reads
  rw [transition, handleReadWal, WalStore.getWalBytes, here]
  split
  · exact consistent.stays at'.delivered
  · rcases consistent.content at'.listed with ⟨file, wal, inStore, -, -⟩ | ⟨-, file, inWal, snapshot⟩
    · rw [notStored] at inStore
      cases inStore
    · have inWal : s.world.disk.walFile (.ofUbig (s.first + i)) = some file := inWal
      rw [inWal]
      exact consistent.stays ⟨i, here, at', snapshot⟩

theorem Consistent.extractWalBytes {storeBytes : Bytes}
    {source : DataSource} (reads : s.Reads env before start (.extractWalBytes ctx storeBytes source)) :
    s.Moves env before start (transition env 1 s.world (.extractWalBytes ctx storeBytes source)) := by
  obtain ⟨i, here, at', inStore, rfl⟩ := reads
  rw [transition, handleExtractWalBytes, here]
  split
  · exact consistent.stays at'.delivered
  · rcases consistent.content at'.listed with ⟨file, wal, found, extracted, snapshot⟩ | ⟨notStored, -⟩
    · rw [inStore] at found
      cases found
      have unsigned : (DataSource.diskStore == DataSource.cloud) = false := rfl
      rw [unsigned, extracted]
      exact consistent.stays ⟨i, here, at', snapshot⟩
    · rw [inStore] at notStored
      cases notStored

theorem Consistent.parseWalBytes {walBytes : Bytes}
    {source : DataSource} (reads : s.Reads env before start (.parseWalBytes ctx walBytes source)) :
    s.Moves env before start (transition env 1 s.world (.parseWalBytes ctx walBytes source)) := by
  obtain ⟨i, here, at', entries, begun, content⟩ := reads
  obtain ⟨packed, layout, locatable⟩ := consistent.files
  have listed := Nat.lt_succ_of_le at'.listed
  obtain ⟨after, k, ids, goes⟩ := parse_single env ctx source (s := ⟨(s.segment i).header, entries⟩)
    (locatable i listed).readable ((layout.contiguous i listed).begun begun) content at'.single at'.reached
    s.world 1
  obtain ⟨j, next, delivered⟩ := at'.more ids
  rcases goes with goes | goes | ⟨nextId, value, goes⟩
  · rw [goes]
    exact consistent.stays ⟨j, delivered⟩
  · rw [goes]
    exact consistent.stays ⟨j, delivered⟩
  · rw [goes]
    have reached := at'.reached
    refine consistent.stays ⟨i, here, ⟨at'.single, at'.bounded, at'.listed, ?_, j, ?_, delivered⟩, ?_⟩
    · change (s.segment i).first ≤ nextId.toNat
      omega
    · exact value.trans next
    · cases spawned : prefetchFor ctx with
      | none => trivial
      | some task =>
        rw [prefetchFor_next spawned, here, increment_ofUbig]
        rfl

theorem Consistent.next
    (at' : s.At before start ctx i) (here : ctx.nextId.toNat < s.flushed)
    (left : (s.segment i).stop ≤ ctx.nextId.toNat) : s.At before start ctx (i + 1) := by
  have listed : i < s.closed.length := by
    rcases Nat.lt_or_eq_of_le at'.listed with listed | rfl
    · exact listed
    · rw [segment_active] at left
      exact absurd here (Nat.not_lt_of_le left)
  obtain ⟨packed, layout, -⟩ := consistent.files
  have following := layout.following i (by omega)
  exact ⟨at'.single, at'.bounded, listed, following.trans_le left, at'.ids⟩

end

theorem At.moved {ctx : ReadContext} {i : Nat} (at' : s.At before start ctx i) (fileId : UintN) :
    s.At before start (ctx.withFileId fileId) i :=
  ⟨at'.single, at'.bounded, at'.listed, at'.reached, at'.ids⟩

section

variable (consistent : s.Consistent env)

include consistent

theorem Consistent.awaited (listed : i ≤ s.closed.length)
    {task : Prefetch} (brings : s.Brings env (i + 1) (some task)) :
    s.Brings env (i + 1) (some (.done (task.await env s.world))) := by
  cases task with
  | pending fileId =>
    have next : fileId = .ofUbig (s.first + (i + 1)) := brings
    rw [next]
    exact consistent.brings (Nat.succ_le_succ listed)
  | done result => exact brings

theorem Consistent.readNextFile {currentFile : UintN}
    {handle : Option Prefetch} (reads : s.Reads env before start (.readNextFile currentFile ctx handle))
    (leaves : s.world.mem.any (fun q => q.refuses ctx.nextId) = true →
      (s.segment (currentFile.toNat - s.first)).stop ≤ ctx.nextId.toNat) :
    s.Moves env before start (transition env 1 s.world (.readNextFile currentFile ctx handle)) := by
  obtain ⟨i, rfl, at', brings⟩ := reads
  rw [UintN.toNat_ofUbig, Nat.add_sub_cancel_left] at leaves
  rw [transition, handleReadNextFile]
  split
  · exact consistent.stays at'.delivered
  · split
    · exact consistent.stays at'.delivered
    · rcases consistent.fromMemory_single ctx.nextId at'.bounded at'.single ctx.sender _ with
        ⟨after, k, goes, sent⟩ | ⟨refused, inFile, goes⟩
      · rw [goes]
        obtain ⟨j, -, delivered⟩ := at'.more sent
        exact consistent.stays ⟨j, delivered⟩
      · rw [goes]
        dsimp only [intoNextFile]
        rw [increment_ofUbig]
        have next := consistent.next at' inFile (leaves refused)
        have moved := next.moved (.ofUbig (s.first + i + 1))
        cases handle with
        | none => exact consistent.stays ⟨i + 1, rfl, moved⟩
        | some task =>
          have arrives := consistent.awaited at'.listed brings
          dsimp only
          cases result : task.await env s.world with
          | ok found =>
            rw [result] at arrives
            cases found with
            | none => exact consistent.stays ⟨i + 1, rfl, next, trivial⟩
            | some content =>
              obtain ⟨walBytes, source⟩ := content
              exact consistent.stays ⟨i + 1, rfl, moved, arrives.2⟩
          | err e =>
            rw [result] at arrives
            exact arrives.elim
          | panic =>
            rw [result] at arrives
            exact arrives.elim

theorem Consistent.withRanges {ranges : RangeCache}
    (agrees : ranges.Agrees env.config s.world.disk.storeAt) (state : ReaderState) :
    Consistent env { s with world := { s.world with ranges := ranges }, reader := state } :=
  ⟨consistent.files, consistent.unpacked, consistent.memory, consistent.waiting, consistent.acks,
    consistent.cloud, agrees⟩

/- A step of the reader. -/
theorem Consistent.moves (reads : s.Reads env before start s.reader)
    (met : s.Meets .read) : s.Moves env before start (transition env 1 s.world s.reader) := by
  unfold Meets at met
  cases state : s.reader with
  | lookupPositive offset limit sender => exact consistent.lookupPositive (state ▸ reads)
  | lookupFile startId endId step sender =>
    rw [state] at met
    exact consistent.lookupFile (state ▸ reads) met.1 met.2
  | readFile ctx => exact consistent.readFile (state ▸ reads)
  | readStore ctx => exact consistent.readStore (state ▸ reads)
  | readWal ctx => exact consistent.readWal (state ▸ reads)
  | extractWalBytes ctx storeBytes source => exact consistent.extractWalBytes (state ▸ reads)
  | parseWalBytes ctx walBytes source => exact consistent.parseWalBytes (state ▸ reads)
  | readNextFile currentFile ctx handle =>
    rw [state] at met
    exact consistent.readNextFile (state ▸ reads) met
  | completed sender => exact consistent.stays (state ▸ reads)
  | failed e sender => exact consistent.stays (state ▸ reads)
  | lookupNegative | readS3 | subscribed =>
    rw [state] at reads
    exact reads.elim

theorem Consistent.step (reads : s.Reads env before start s.reader)
    {event : LiveEvent} (met : s.Meets event) (moved : s.step env event = some t) :
    t.Consistent env ∧ t.Reads env before start t.reader := by
  cases other : event.background with
  | true =>
    obtain ⟨later, grows, same⟩ := consistent.background other met moved
    rw [same]
    exact ⟨later, reads.grows grows⟩
  | false =>
    cases event with
    | read =>
      obtain ⟨ranges, state, goes, agrees, there⟩ := consistent.moves reads met
      simp only [Live.step, goes, Option.some.injEq] at moved
      subst moved
      have same : Grows s { s with world := { s.world with ranges := ranges }, reader := state } :=
        .of_same rfl rfl rfl rfl
      exact ⟨consistent.withRanges agrees state, there.grows same⟩
    | prefetch =>
      simp only [Live.step] at moved
      split at moved
      · rename_i currentFile ctx fileId state
        cases moved
        rw [state] at reads
        obtain ⟨i, here, at', brings⟩ := reads
        have arrives := consistent.awaited at'.listed brings
        have there : s.Reads env before start (.readNextFile currentFile ctx
            (some (.done (prefetchNextFile env s.world fileId)))) := ⟨i, here, at', arrives⟩
        refine ⟨consistent.withRanges consistent.ranges _, there.grows ?_⟩
        exact .of_same rfl rfl rfl rfl
      · cases moved
    | append | appendBatch | flush | ack | rotate => cases other

end

end Reader

section Fresh

def firstFile : Bytes := ⟨WalHeader.default.writeToBytes, by decide⟩

def fresh (maxMemoryUsage : Nat) (reader : ReaderState) : Live where
  world := ⟨⟨[((UintN.ofUbig 1).toFilePath walExtension, firstFile)], []⟩, [], some (.new none maxMemoryUsage), none⟩
  reader := reader
  first := 1
  closed := []
  active := ⟨.default, []⟩
  waiting := []
  acks := []

theorem fresh_consistent (env : Env) (maxMemoryUsage : Nat) (reader : ReaderState) :
    (fresh maxMemoryUsage reader).Consistent env where
  files := by
    have nothing : Laid env ⟨[], []⟩ 1 0 (fun _ => ⟨.default, []⟩) :=
      ⟨fun _ => ⟨.none, .none, .zero, .zero⟩,
        ⟨⟨by simp, by simp, by simp⟩, by simp, by simp, by simp⟩, by simp⟩
    have segments : (fresh maxMemoryUsage reader).segment = fun _ => ⟨.default, []⟩ := rfl
    rw [segments]
    have content : firstFile.data = Segment.bytes env.xxh64 ⟨.default, []⟩ := by
      simp [Segment.bytes, firstFile, entriesBytes]
    exact nothing.put (.inl rfl) rfl (fun _ _ => rfl) ⟨by simp [CanHold], rfl⟩ (by simp)
      ⟨by decide, by decide⟩ (by decide) content
  unpacked := rfl
  memory := ⟨_, rfl, ⟨0, Nat.le_refl _, rfl, rfl, rfl, rfl⟩, by rintro _ ⟨⟩⟩
  waiting := rfl
  acks := by rintro _ ⟨⟩
  cloud := rfl
  ranges := RangeCache.agrees_nil _ _

end Fresh

end Live

/- What one bounded read hands over, however its steps fall between those of the queue: the wanted
entries from the first one on, without a hole. -/
theorem live_read_contiguous {env : Env} {s final : Live} (consistent : s.Consistent env) {start : UintN}
    {limit : Nat} {sender : Sender} (asks : s.reader = initialState (.absolute start) limit sender)
    (positive : 0 < limit) {events : List LiveEvent} (along : Runs.Along (Live.step env) Live.Meets s events)
    (ran : Runs.run (Live.step env) s events = some final) :
    ∃ k, final.reader.sender.ids = sender.ids ++ List.range' start.toNat k := by
  have reads : s.Reads env sender.ids start.toNat s.reader := by
    rw [asks]
    exact ⟨rfl, positive, rfl⟩
  have ends := Runs.run_invariant
    (fun s => s.Consistent env ∧ s.Reads env sender.ids start.toNat s.reader)
    (fun s event next holds met moved => holds.1.step holds.2 met moved) ⟨consistent, reads⟩ along ran
  exact ends.2.delivered

namespace Sample

def oneMore : List LiveEvent := [.append payload, .flush 1, .ack]

/-- The same into a new file. -/
def oneMoreFile : List LiveEvent := [.append payload, .rotate, .flush 1, .ack]

/-- The reader gets the content of the first file. -/
def opening : List LiveEvent := List.replicate 5 .read

def reading : List LiveEvent := List.replicate 3 .read

def liveEnv : Env := ⟨fun _ => 0, config⟩

def firstThree : Live := Live.fresh 0 (initialState (.absolute .zero) 3 (.staying []))

end Sample

open Sample

theorem live_read_contiguous_three :
    ∃ final, Runs.run (Live.step liveEnv) firstThree (oneMore ++ oneMore ++ opening ++ oneMoreFile ++ reading) =
        some final ∧ final.reader.sender.ids = [0, 1, 2] ∧
      ∃ k, final.reader.sender.ids = [] ++ List.range' UintN.zero.toNat k := by
  have runs : (Runs.run (Live.step liveEnv) firstThree
      (oneMore ++ oneMore ++ opening ++ oneMoreFile ++ reading)).any
        (fun final => decide (final.reader.sender.ids = [0, 1, 2])) = true := by
    decide +kernel
  obtain ⟨final, ran, ids⟩ := (Option.any_eq_true _ _).mp runs
  exact ⟨final, ran, of_decide_eq_true ids,
    live_read_contiguous (Live.fresh_consistent ..) rfl (by decide) (by decide +kernel) ran⟩

/- Two ways to lose an entry. The reader has the content of the first file with one entry in it; before
it looks again, the next entry goes to that file and out of memory, and the one after it to a new file. Or
the task that reads ahead finds no second file; when the reader comes to wait for it there are two more, and
it goes past the second one. -/
theorem live_read_jumps :
    firstThree.Consistent liveEnv ∧
    (∃ final, Runs.run (Live.step liveEnv) firstThree (oneMore ++ opening ++ oneMore ++ oneMoreFile ++ reading) =
      some final ∧ final.reader.sender.ids = [0, 2]) ∧
    (∃ final, Runs.run (Live.step liveEnv) firstThree
        (oneMore ++ opening ++ [.read, .prefetch] ++ oneMoreFile ++ oneMoreFile ++ [.read] ++ opening) =
      some final ∧ final.reader.sender.ids = [0, 2]) ∧
    ¬ ∃ k, [0, 2] = List.range' UintN.zero.toNat k := by
  have reaches : ∀ events, (Runs.run (Live.step liveEnv) firstThree events).any
      (fun final => decide (final.reader.sender.ids = [0, 2])) = true →
      ∃ final, Runs.run (Live.step liveEnv) firstThree events = some final ∧
        final.reader.sender.ids = [0, 2] := by
    intro events found
    obtain ⟨final, ran, ids⟩ := (Option.any_eq_true _ _).mp found
    exact ⟨final, ran, of_decide_eq_true ids⟩
  refine ⟨Live.fresh_consistent .., reaches _ (by decide +kernel), reaches _ (by decide +kernel), ?_⟩
  rintro ⟨k, contiguous⟩
  have length := congrArg List.length contiguous
  rw [List.length_range'] at length
  subst length
  exact absurd contiguous (by decide)

end NormFS
