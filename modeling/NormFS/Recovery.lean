import NormFS.Disk
import NormFS.Wal.CrashPrefix

/-! Where a queue goes on after a restart. The walk starts at the last file of either store and
goes back until a file has an entry. -/
namespace NormFS

open Framing

inductive RecoveryError where
  | store (error : StoreError)
  deriving DecidableEq, Repr

structure QueueStart where
  fileId : UintN
  header : WalHeader
  lastEntryId : Option UintN
  deriving DecidableEq, Repr

def QueueStart.fresh : QueueStart := ⟨.one, .default, none⟩

/- The larger of what is known and what is found; the first one of two equals stays. -/
def largest (known : Option UintN) (found : UintN) : Option UintN :=
  match known with
  | some current => if current < found then some found else some current
  | none => some found

section ContinueQueue

variable (xxh64 : Hash) (config : StoreConfig) (disk : Disk)

def getLatestFile : Option UintN :=
  let known := match WalStore.findLastFileId disk with
    | .ok id => largest none id
    | .error _ => none
  match PersistStore.findLastFileId disk with
  | .ok id => largest known id
  | .error _ => known

/- Errors of a source count as no answer; a panic of either takes the caller down. -/
def getFileEndAllSources (fileId : UintN) (ranges : RangeCache) :
    Outcome RecoveryError (Option UintN × RangeCache) :=
  match WalStore.getFileEnd disk xxh64 fileId, PersistStore.getFileEnd config disk fileId ranges with
  | .panic, _ => .panic
  | _, .panic => .panic
  | walEnd, storeEnd =>
    let known := match walEnd with
      | .ok (some id) => largest none id
      | _ => none
    match storeEnd with
    | .ok (some id, ranges) => .ok (largest known id, ranges)
    | .ok (none, ranges) => .ok (known, ranges)
    | _ => .ok (known, ranges)

def getFileHeaderAllSources (fileId : UintN) : Outcome RecoveryError (Option WalHeader) :=
  match WalStore.getFileHeader disk fileId, PersistStore.getFileHeader config disk fileId with
  | .panic, _ => .panic
  | _, .panic => .panic
  | .ok (some header), _ => .ok (some header)
  | _, .ok (some header) => .ok (some header)
  | _, _ => .ok none

/- The number of the file bounds the iterations, so the first case is never reached. -/
def continueLoop (latestFileId : UintN) :
    Nat → UintN → RangeCache → Outcome RecoveryError (QueueStart × RangeCache)
  | 0, _, ranges => .ok (.fresh, ranges)
  | fuel + 1, currentFileId, ranges => do
    let (fileEnd, ranges) ← getFileEndAllSources xxh64 config disk currentFileId ranges
    match fileEnd with
    | some lastEntryId =>
      let header ← getFileHeaderAllSources config disk currentFileId
      let nextFileId := if currentFileId == latestFileId then latestFileId.increment else latestFileId
      let newHeader := { header.getD .default with numEntriesBefore := lastEntryId.increment }
      pure (⟨nextFileId, newHeader, some lastEntryId⟩, ranges)
    | none =>
      if currentFileId == .one then pure (.fresh, ranges)
      else match currentFileId.decrement with
        | .ok previous => continueLoop latestFileId fuel previous ranges
        | .error e => .err (.store (.uintN e))

def continueQueue (ranges : RangeCache) : Outcome RecoveryError (QueueStart × RangeCache) :=
  match getLatestFile disk with
  | some latestFileId =>
    continueLoop xxh64 config disk latestFileId (latestFileId.toNat + 1) latestFileId ranges
  | none => .ok (.fresh, ranges)

end ContinueQueue

structure Segment where
  header : WalHeader
  entries : List Entry

def Segment.bytes (xxh64 : Hash) (s : Segment) : List UInt8 :=
  s.header.writeToBytes ++ entriesBytes xxh64 s.header s.entries

def Segment.first (s : Segment) : Nat := s.header.numEntriesBefore.toNat

structure Segment.Contiguous (s : Segment) : Prop where
  fits : CanHold s.header s.entries
  ids : s.entries.map (fun e => e.1.toNat) = List.range' s.first s.entries.length

theorem Segment.Contiguous.getLast? {s : Segment} (contiguous : s.Contiguous) {k : Nat}
    (positive : 0 < k) (bound : k ≤ s.entries.length) :
    ((s.entries.take k).getLast?).map (fun e => e.1.toNat) = some (s.first + k - 1) := by
  obtain ⟨j, rfl⟩ : ∃ j, k = j + 1 := ⟨k - 1, by omega⟩
  rw [← List.getLast?_map, List.map_take, contiguous.ids, List.take_range'_of_length_ge bound,
    List.range'_concat, List.getLast?_concat]
  simp

section Recovery

variable {xxh64 : Hash} {config : StoreConfig} {disk : Disk}

variable {fileId : UintN} {s : Segment} {n : Nat} {packed : StoreHeader} {ranges : RangeCache}

theorem WalStore.getFileEnd_cut {h : WalHeader} {file : Bytes} {bytes : List UInt8}
    {entries : List Entry} {torn : Option UintN} (readable : h.Readable)
    (cut : Cut xxh64 h bytes entries torn) (split : file.data = h.writeToBytes ++ bytes) (found : disk.walFile fileId = some file) :
    ∃ last, WalStore.getFileEnd disk xxh64 fileId = .ok last ∧
      last.map UintN.toNat = entries.getLast?.map (fun e => e.1.toNat) := by
  have range := getWalRange_cut xxh64 readable cut fileId
  rw [← split] at range
  simp only [WalStore.getFileEnd, found, Option.map_some, range]
  refine ⟨_, rfl, ?_⟩
  cases entries with
  | nil => cases torn <;> rfl
  | cons e entries => simp [List.getLast?_cons]

theorem WalStore.getFileEnd_none (absent : disk.walFile fileId = none) :
    WalStore.getFileEnd disk xxh64 fileId = .ok none := by
  simp only [WalStore.getFileEnd, absent, Option.map_none, getWalRange]

theorem WalStore.getFileEnd_begun {file : Bytes} (readable : s.header.Readable)
    (fits : CanHold s.header s.entries) (cut : file.data <+: s.bytes xxh64)
    (found : disk.walFile fileId = some file) :
    ∃ last, WalStore.getFileEnd disk xxh64 fileId = .ok last ∧
      last.map UintN.toNat = ((s.entries.take (wholeCount (entrySizes s.header s.entries)
        (file.length - s.header.size))).getLast?).map (fun e => e.1.toNat) := by
  rcases cut_cases cut with ⟨short, inside⟩ | ⟨bytes, split, begins⟩
  · rw [WalHeader.length_writeToBytes] at short
    have empty := getWalRange_short xxh64 readable.addressable inside short fileId
    have nothing := wholeCount_le_length (entrySizes_pos s.header s.entries) (file.length - s.header.size)
    have zero : file.length - s.header.size = 0 := Nat.sub_eq_zero_of_le (Nat.le_of_lt short)
    rw [zero] at nothing ⊢
    rw [Nat.le_zero.mp nothing]
    refine ⟨none, ?_, rfl⟩
    simp only [WalStore.getFileEnd, found, Option.map_some, empty]
  · have left := cut_of_leading xxh64 fits begins
    obtain ⟨last, answer, value⟩ := getFileEnd_cut readable left split found
    have length : file.length - s.header.size = bytes.length := by
      rw [Bytes.length, split, List.length_append, WalHeader.length_writeToBytes]
      omega
    refine ⟨last, answer, ?_⟩
    rw [value, length]
    exact lastId_congr (survivors_value fits bytes.length)

/-- A file before the last one is complete in the WAL, in the store, or in both. -/
structure Complete (xxh64 : Hash) (config : StoreConfig) (disk : Disk) (n : Nat)
    (s : Segment) (packed : StoreHeader) : Prop where
  wal : ∀ file, disk.walAt n = some file → file.data = s.bytes xxh64
  store : ∀ file, disk.storeAt n = some file →
    ∃ wal, StoreFile config (.ofUbig n) file wal packed ∧ wal.data = s.bytes xxh64
  before : packed.numEntriesBefore.toNat = s.first
  count : packed.numEntries.toNat = s.entries.length
  somewhere : disk.walAt n ≠ none ∨ disk.storeAt n ≠ none

/-- What the code can read of such a file: the header of the WAL file, and the counts of the store
file when there is no WAL file. -/
structure Legible (disk : Disk) (n : Nat) (s : Segment) (packed : StoreHeader) : Prop where
  wal : disk.walAt n ≠ none → s.header.Readable
  store : disk.walAt n = none → FileAuthentication.size + packed.size ≤ rangeWindow

theorem largest_value {known : Option UintN} {found : UintN}
    (first : ∀ id, known = some id → id.toNat = n) (second : found.toNat = n) :
    ∃ id, largest known found = some id ∧ id.toNat = n := by
  cases known with
  | none => exact ⟨found, rfl, second⟩
  | some id =>
    unfold largest
    dsimp only
    split
    · exact ⟨found, rfl, second⟩
    · exact ⟨id, rfl, first id rfl⟩

section

variable (complete : Complete xxh64 config disk n s packed)

include complete

theorem WalStore.getFileEnd_complete (legible : Legible disk n s packed)
    (contiguous : s.Contiguous) (inhabited : 0 < s.entries.length)
    (named : fileId.toNat = n) :
    ∃ walEnd, WalStore.getFileEnd disk xxh64 fileId = .ok walEnd ∧
      (∀ id, walEnd = some id → id.toNat = s.first + s.entries.length - 1) ∧
      (walEnd = none → disk.walAt n = none) := by
  have found := disk.walFile_eq fileId
  rw [named] at found
  cases wal : disk.walAt n with
  | none =>
    rw [wal] at found
    exact ⟨none, getFileEnd_none found, by simp, by simp⟩
  | some file =>
    rw [wal] at found
    have readable := legible.wal (by simp [wal])
    obtain ⟨last, answer, value⟩ := getFileEnd_cut readable (cut_whole xxh64 contiguous.fits)
      (complete.wal file wal) found
    have final := contiguous.getLast? inhabited (Nat.le_refl _)
    rw [List.take_length] at final
    have lastValue : last.map UintN.toNat = some (s.first + s.entries.length - 1) := by
      rw [value, ← final]
      exact lastId_congr (stored_value contiguous.fits)
    refine ⟨last, answer, ?_, ?_⟩
    · intro id same
      rw [same] at lastValue
      exact Option.some.inj lastValue
    · intro none
      rw [none] at lastValue
      cases lastValue

/- A store file may be refused only where a WAL file answers in its place. -/
theorem PersistStore.getFileEnd_complete (legible : Legible disk n s packed)
    (inhabited : 0 < s.entries.length)
    (named : fileId.toNat = n) (agrees : ranges.Agrees config disk.storeAt) :
    (∃ storeEnd after, PersistStore.getFileEnd config disk fileId ranges = .ok (storeEnd, after) ∧
      (∀ id, storeEnd = some id → id.toNat = s.first + s.entries.length - 1) ∧
      (disk.walAt n = none → storeEnd ≠ none) ∧ after.Agrees config disk.storeAt) ∨
    (disk.walAt n ≠ none ∧ ∃ e, PersistStore.getFileEnd config disk fileId ranges = .err e) := by
  subst named
  have found := disk.storeFile_eq fileId
  have counted : 0 < packed.numEntries.toNat := by rw [complete.count]; exact inhabited
  simp only [PersistStore.getFileEnd, PersistStore.getFileRange, found]
  cases store : disk.storeAt fileId.toNat with
  | none =>
    obtain ⟨after, answer, still⟩ := getRange_spec agrees fileId none (by rw [store]; rfl)
    rw [store] at answer
    refine .inl ⟨none, after, by rw [answer]; rfl, by simp, ?_, still⟩
    intro noWal
    have := complete.somewhere
    simp [noWal, store] at this
  | some file =>
    obtain ⟨wal, packedFile, -⟩ := complete.store file store
    have result : (∃ first last, rangeOf config (some file) = .ok (some (first, last)) ∧
        first.toNat = packed.numEntriesBefore.toNat ∧
        last.toNat = packed.numEntriesBefore.toNat + packed.numEntries.toNat - 1) ∨
        (disk.walAt fileId.toNat ≠ none ∧ ∃ e, rangeOf config (some file) = .err e) := by
      by_cases noWal : disk.walAt fileId.toNat = none
      · exact .inl (packedFile.readRange (legible.store noWal) counted)
      · rcases packedFile.readRange_total counted with range | refused
        · exact .inl range
        · exact .inr ⟨noWal, refused⟩
    rcases result with ⟨first, last, range, -, value⟩ | ⟨hasWal, e, refused⟩
    · obtain ⟨after, answer, still⟩ := getRange_spec agrees fileId _ (by rw [store]; exact range)
      rw [store] at answer
      refine .inl ⟨some last, after, by rw [answer]; rfl, ?_, by simp, still⟩
      intro id same
      cases same
      rw [value, complete.before, complete.count]
    · have answer := getRange_err agrees fileId (by rw [store]; exact refused)
      rw [store] at answer
      exact .inr ⟨hasWal, _, by rw [answer]; rfl⟩

theorem getFileEndAllSources_complete (legible : Legible disk n s packed)
    (contiguous : s.Contiguous) (inhabited : 0 < s.entries.length)
    (named : fileId.toNat = n) (agrees : ranges.Agrees config disk.storeAt) :
    ∃ last after, getFileEndAllSources xxh64 config disk fileId ranges = .ok (some last, after) ∧
      last.toNat = s.first + s.entries.length - 1 ∧ after.Agrees config disk.storeAt := by
  obtain ⟨walEnd, wal, walValue, walNone⟩ :=
    WalStore.getFileEnd_complete complete legible contiguous inhabited named
  rcases PersistStore.getFileEnd_complete complete legible inhabited named agrees with
    ⟨storeEnd, after, store, storeValue, storeSome, still⟩ | ⟨hasWal, e, store⟩
  · cases storeEnd with
    | none =>
      cases walEnd with
      | none => exact absurd rfl (storeSome (walNone rfl))
      | some last =>
        exact ⟨last, after, by simp [getFileEndAllSources, wal, store, largest], walValue last rfl, still⟩
    | some other =>
      obtain ⟨last, chosen, value⟩ := largest_value walValue (storeValue other rfl)
      refine ⟨last, after, ?_, value, still⟩
      cases walEnd <;> simpa [getFileEndAllSources, wal, store, largest] using chosen
  · cases walEnd with
    | none => exact absurd (walNone rfl) hasWal
    | some last =>
      exact ⟨last, ranges, by simp [getFileEndAllSources, wal, store, largest], walValue last rfl, agrees⟩

end

theorem readWalHeader_total (file : Option (List UInt8)) (fileId : UintN) :
    readWalHeader file fileId ≠ .panic := by
  cases file with
  | none => simp [readWalHeader]
  | some bytes =>
    have total := WalHeader.fromReader_total (bytes.take 128)
    unfold readWalHeader
    dsimp only
    split
    · simp
    · cases read : WalHeader.fromReader (bytes.take 128) with
      | ok answer => simp [headerOrEmpty]
      | err e => cases e <;> simp [headerOrEmpty]
      | panic => exact absurd read total

theorem getFileHeaderAllSources_total (config : StoreConfig) (disk : Disk) (fileId : UintN)
    (store : PersistStore.getFileHeader config disk fileId ≠ .panic) :
    ∃ header, getFileHeaderAllSources config disk fileId = .ok header := by
  have wal : WalStore.getFileHeader disk fileId ≠ .panic := by
    have total := readWalHeader_total ((disk.walFile fileId).map Bytes.data) fileId
    unfold WalStore.getFileHeader
    cases read : readWalHeader ((disk.walFile fileId).map Bytes.data) fileId with
    | ok header => simp
    | err e => cases e <;> simp
    | panic => exact absurd read total
  unfold getFileHeaderAllSources
  split
  · contradiction
  · contradiction
  all_goals exact ⟨_, rfl⟩

theorem PersistStore.getFileHeader_complete
    (complete : Complete xxh64 config disk n s packed) :
    PersistStore.getFileHeader config disk (.ofUbig n) ≠ .panic := by
  unfold PersistStore.getFileHeader
  split
  · simp
  · rename_i file store
    obtain ⟨wal, packedFile, content⟩ := complete.store file store
    have room := wal.addressable
    rw [content, Segment.bytes, List.length_append, WalHeader.length_writeToBytes, WalHeader.size] at room
    obtain ⟨header, read⟩ := WalHeader.fromBytes_size s.header
      (show 8 + s.header.numEntriesBefore.sizeInBytes < 2 ^ 64 by omega)
      (entriesBytes xxh64 s.header s.entries)
    split
    · simp
    · simp only [extractWalHeader, packedFile.extracted, Outcome.ok_bind, content, Segment.bytes, read]
      simp

/-- The state of a queue after a crash: files 1 to n, all but the last complete, the last one a
WAL file cut at any byte. -/
structure CrashLayout (xxh64 : Hash) (config : StoreConfig) (disk : Disk) (n : Nat)
    (segment : Nat → Segment) (packed : Nat → StoreHeader) (tail : Bytes) : Prop where
  positive : 1 ≤ n
  walFiles : ∀ path ∈ disk.wal.map Prod.fst, ∃ i, 1 ≤ i ∧ i ≤ n ∧
    path = (UintN.ofUbig i).toFilePath walExtension
  storeFiles : ∀ path ∈ disk.store.map Prod.fst, ∃ i, 1 ≤ i ∧ i < n ∧
    path = (UintN.ofUbig i).toFilePath storeExtension
  complete : ∀ i, 1 ≤ i → i < n → Complete xxh64 config disk i (segment i) (packed i)
  inhabited : ∀ i, 1 ≤ i → i < n → 0 < (segment i).entries.length
  contiguous : ∀ i, 1 ≤ i → i ≤ n → (segment i).Contiguous
  next : ∀ i, 1 ≤ i → i < n → (segment (i + 1)).first = (segment i).first + (segment i).entries.length
  last : disk.walAt n = some tail
  cut : tail.data <+: (segment n).bytes xxh64

/-- The entries wholly on disk, when the last file has `k` of them. -/
def wholeEntries (segment : Nat → Segment) (n k : Nat) : List Entry :=
  (List.range' 1 (n - 1)).flatMap (fun i => (segment i).entries) ++ (segment n).entries.take k

theorem mem_of_lookup {α β : Type} [BEq α] [LawfulBEq α] {a : α} {b : β} {l : List (α × β)}
    (found : l.lookup a = some b) : (a, b) ∈ l := by
  obtain ⟨before, after, split, -⟩ := List.lookup_eq_some_iff.mp found
  rw [split]
  exact List.mem_append_right _ (List.mem_cons_self ..)

theorem mem_keys_of_lookup {α β : Type} [BEq α] [LawfulBEq α] {a : α} {b : β} {l : List (α × β)}
    (found : l.lookup a = some b) : a ∈ l.map Prod.fst :=
  List.mem_map.mpr ⟨_, mem_of_lookup found, rfl⟩

variable {n : Nat} {segment : Nat → Segment} {packed : Nat → StoreHeader} {tail : Bytes}

section

variable (layout : CrashLayout xxh64 config disk n segment packed tail)

include layout

theorem CrashLayout.noStore :
    disk.storeAt n = none := by
  cases found : disk.storeAt n with
  | none => rfl
  | some file =>
    obtain ⟨i, _, below, same⟩ := layout.storeFiles _ (mem_keys_of_lookup found)
    have := toFilePath_inj same
    simp only [UintN.toNat_ofUbig] at this
    omega

theorem CrashLayout.latest
    (unshadowed : Unshadowed (disk.wal.map Prod.fst)) : getLatestFile disk = some (.ofUbig n) := by
  have member := mem_keys_of_lookup layout.last
  have named : ∀ path ∈ disk.wal.map Prod.fst, ∃ id : UintN, path = id.toFilePath walExtension := by
    intro path among
    obtain ⟨i, -, -, same⟩ := layout.walFiles path among
    exact ⟨_, same⟩
  obtain ⟨m, wal, present, above⟩ := Search.find_spec Search.max_sound walExtension (by decide)
    (List.ne_nil_of_mem member) named unshadowed
  obtain ⟨i, -, bound, same⟩ := layout.walFiles _ present
  have is := toFilePath_inj same
  have atLeast := above _ member
  simp only [UintN.toNat_ofUbig] at is atLeast
  obtain rfl : m = n := by omega
  have walLast : WalStore.findLastFileId disk = .ok (.ofUbig m) := wal
  unfold getLatestFile
  rw [walLast]
  cases store : PersistStore.findLastFileId disk with
  | error e => rfl
  | ok id =>
    have storeNamed : ∀ path ∈ disk.store.map Prod.fst,
        ∃ other : UintN, path = other.toFilePath storeExtension := by
      intro path among
      obtain ⟨i, -, -, same⟩ := layout.storeFiles path among
      exact ⟨_, same⟩
    obtain ⟨other, among, rfl⟩ := Search.find_mem Search.max_sound storeExtension storeNamed store
    obtain ⟨j, -, below, same⟩ := layout.storeFiles _ among
    have value := toFilePath_inj same
    simp only [UintN.toNat_ofUbig] at value
    simp [largest, UintN.lt_iff]
    omega

theorem CrashLayout.lastEnd
    (readable : (segment n).header.Readable)
    (agrees : ranges.Agrees config disk.storeAt) :
    ∃ last after, getFileEndAllSources xxh64 config disk (.ofUbig n) ranges = .ok (last, after) ∧
      last.map UintN.toNat = (((segment n).entries.take (wholeCount
        (entrySizes (segment n).header (segment n).entries)
        (tail.length - (segment n).header.size))).getLast?).map (fun e => e.1.toNat) ∧
      after.Agrees config disk.storeAt := by
  obtain ⟨last, wal, value⟩ := WalStore.getFileEnd_begun readable
    (layout.contiguous n layout.positive (Nat.le_refl n)).fits layout.cut layout.last
  obtain ⟨after, store, still⟩ := getRange_spec agrees (.ofUbig n) none
    (by rw [UintN.toNat_ofUbig, layout.noStore]; rfl)
  rw [UintN.toNat_ofUbig] at store
  have storeEnd : PersistStore.getFileEnd config disk (.ofUbig n) ranges = .ok (none, after) := by
    change ((getRange config (disk.storeAt n) (.ofUbig n) ranges).mapErr StoreError.range >>= _) = _
    rw [store]
    rfl
  refine ⟨last, after, ?_, value, still⟩
  cases last <;> simp [getFileEndAllSources, wal, storeEnd, largest]

end

/- The last file holds a whole entry, or the walk goes one file back, or there is none to go back to. -/
theorem wholeEntries_last (contiguous : ∀ i, 1 ≤ i → i ≤ n → (segment i).Contiguous)
    (inhabited : ∀ i, 1 ≤ i → i < n → 0 < (segment i).entries.length) (positive : 1 ≤ n) {k : Nat}
    (bound : k ≤ (segment n).entries.length) :
    ((wholeEntries segment n k).getLast?).map (fun e => e.1.toNat) =
      if 0 < k then some ((segment n).first + k - 1)
      else if 1 < n then some ((segment (n - 1)).first + (segment (n - 1)).entries.length - 1)
      else none := by
  by_cases whole : 0 < k
  · have last := (contiguous n positive (Nat.le_refl n)).getLast? whole bound
    have nonempty : (segment n).entries.take k ≠ [] := by
      intro empty
      rw [empty] at last
      cases last
    rw [if_pos whole, wholeEntries, List.getLast?_append_of_ne_nil _ nonempty]
    exact last
  · obtain rfl : k = 0 := by omega
    rw [if_neg whole, wholeEntries, List.take_zero, List.append_nil]
    by_cases more : 1 < n
    · obtain ⟨m, rfl⟩ : ∃ m, n = m + 2 := ⟨n - 2, by omega⟩
      have some := inhabited (m + 1) (by omega) (by omega)
      have last := (contiguous (m + 1) (by omega) (by omega)).getLast? some (Nat.le_refl _)
      rw [List.take_length] at last
      rw [if_pos more, show m + 2 - 1 = m + 1 from rfl, List.range'_concat, List.flatMap_append,
        Nat.one_mul, Nat.add_comm 1 m, List.flatMap_singleton,
        List.getLast?_append_of_ne_nil _ (List.ne_nil_of_length_pos some)]
      exact last
    · obtain rfl : n = 1 := by omega
      rfl

theorem continueLoop_found (latest : UintN) (fuel : Nat) {current last : UintN} {after : RangeCache}
    (fileEnd : getFileEndAllSources xxh64 config disk current ranges = .ok (some last, after))
    (header : PersistStore.getFileHeader config disk current ≠ .panic) :
    ∃ start, continueLoop xxh64 config disk latest (fuel + 1) current ranges = .ok (start, after) ∧
      start.lastEntryId = some last ∧ start.header.numEntriesBefore = last.increment ∧
      start.fileId = if current == latest then latest.increment else latest := by
  obtain ⟨found, read⟩ := getFileHeaderAllSources_total config disk current header
  simp only [continueLoop, fileEnd, Outcome.ok_bind, read, Outcome.pure_eq_ok]
  exact ⟨_, rfl, rfl, rfl, rfl⟩

theorem continueLoop_back {latest current : UintN} {after : RangeCache} {fuel : Nat}
    (fileEnd : getFileEndAllSources xxh64 config disk current ranges = .ok (none, after)) :
    continueLoop xxh64 config disk latest (fuel + 1) current ranges =
      if current == .one then .ok (.fresh, after)
      else match current.decrement with
        | .ok previous => continueLoop xxh64 config disk latest fuel previous after
        | .error e => .err (.store (.uintN e)) := by
  simp only [continueLoop, fileEnd, Outcome.ok_bind, Outcome.pure_eq_ok]

theorem decrement_ofUbig (n : Nat) : (UintN.ofUbig (n + 1)).decrement = .ok (.ofUbig n) := by
  obtain ⟨previous, less, value⟩ := UintN.decrement_eq (.ofUbig (n + 1)) (by simp)
  have canonical := (UintN.Canonical.decrement less).eq_ofUbig
  rw [value, UintN.toNat_ofUbig, Nat.add_sub_cancel] at canonical
  rw [less, canonical]

theorem ofUbig_beq (a b : Nat) : (UintN.ofUbig a == UintN.ofUbig b) = decide (a = b) := by
  rw [Bool.eq_iff_iff, UintN.beq_iff, UintN.toNat_ofUbig, UintN.toNat_ofUbig, decide_eq_true_eq]

/- Recovery goes on after the last entry that is wholly on disk, in a file that holds none. -/
theorem recovery_continues (layout : CrashLayout xxh64 config disk n segment packed tail)
    (legible : ∀ i, 1 ≤ i → i ≤ n → Legible disk i (segment i) (packed i))
    (unshadowed : Unshadowed (disk.wal.map Prod.fst)) (ranges : RangeCache)
    (agrees : ranges.Agrees config disk.storeAt) (k : Nat)
    (whole : k = wholeCount (entrySizes (segment n).header (segment n).entries)
      (tail.length - (segment n).header.size)) :
    ∃ start after, continueQueue xxh64 config disk ranges = .ok (start, after) ∧
      start.lastEntryId.map UintN.toNat =
        ((wholeEntries segment n k).getLast?).map (fun e => e.1.toNat) ∧
      start.header.numEntriesBefore.toNat =
        (match start.lastEntryId with | some last => last.toNat + 1 | none => 0) ∧
      start.fileId.toNat = if 0 < k then n + 1 else n := by
  have positive := layout.positive
  have bound : k ≤ (segment n).entries.length := by
    have := wholeCount_le (entrySizes (segment n).header (segment n).entries)
      (tail.length - (segment n).header.size)
    rwa [← whole, entrySizes, List.length_map] at this
  have readable := (legible n positive (Nat.le_refl n)).wal (by rw [layout.last]; simp)
  obtain ⟨last, after, fileEnd, lastValue, still⟩ := layout.lastEnd readable agrees
  rw [← whole] at lastValue
  rw [wholeEntries_last layout.contiguous layout.inhabited positive bound]
  simp only [continueQueue, layout.latest unshadowed, UintN.toNat_ofUbig]
  by_cases some : 0 < k
  · rw [(layout.contiguous n positive (Nat.le_refl n)).getLast? some bound] at lastValue
    obtain ⟨id, rfl, value⟩ := Option.map_eq_some_iff.mp lastValue
    have noHeader : PersistStore.getFileHeader config disk (.ofUbig n) = .ok none := by
      simp only [PersistStore.getFileHeader, show disk.storeFile (.ofUbig n) = none from layout.noStore]
    obtain ⟨start, run, lastId, header, fileId⟩ := continueLoop_found (.ofUbig n) n
      fileEnd (by rw [noHeader]; simp)
    refine ⟨start, after, run, ?_, ?_, ?_⟩
    · rw [lastId, if_pos some, Option.map_some, value]
    · rw [header, lastId, UintN.toNat_increment]
    · rw [fileId, ofUbig_beq, if_pos (by simp), if_pos some, UintN.toNat_increment, UintN.toNat_ofUbig]
  · obtain rfl : last = none := by
      obtain rfl : k = 0 := by omega
      simpa using lastValue
    simp only [if_neg some, continueLoop_back fileEnd]
    by_cases more : 1 < n
    · obtain ⟨m, rfl⟩ : ∃ m, n = m + 2 := ⟨n - 2, by omega⟩
      have complete := layout.complete (m + 1) (by omega) (by omega)
      have inhabited := layout.inhabited (m + 1) (by omega) (by omega)
      obtain ⟨entry, later, found, entryValue, -⟩ := getFileEndAllSources_complete complete
        (legible (m + 1) (by omega) (by omega)) (layout.contiguous (m + 1) (by omega) (by omega))
        inhabited (UintN.toNat_ofUbig (m + 1)) still
      obtain ⟨start, run, lastId, header, fileId⟩ := continueLoop_found (.ofUbig (m + 2))
        (m + 1) found (PersistStore.getFileHeader_complete complete)
      have notOne : (UintN.ofUbig (m + 2) == UintN.one) = false := by
        rw [Bool.eq_false_iff, ne_eq, UintN.beq_iff, UintN.toNat_ofUbig, UintN.toNat_one]
        omega
      refine ⟨start, later, ?_, ?_, ?_, ?_⟩
      · simpa only [notOne, Bool.false_eq_true, if_false, decrement_ofUbig] using run
      · rw [lastId, if_pos more, Option.map_some, entryValue, show m + 2 - 1 = m + 1 from rfl]
      · rw [header, lastId, UintN.toNat_increment]
      · rw [fileId, ofUbig_beq, if_neg (by simp), UintN.toNat_ofUbig]
    · obtain rfl : n = 1 := by omega
      have isOne : (UintN.ofUbig 1 == UintN.one) = true := (UintN.beq_iff _ _).mpr (by simp)
      simp only [isOne, if_true, if_neg more]
      exact ⟨_, _, rfl, rfl, rfl, rfl⟩

end Recovery

/-! One entry in a file before an empty last file. The file before is there twice, or in the store
only. -/
namespace Sample

def config : StoreConfig := ⟨⟨fun _ _ => true, fun _ _ _ => none, fun _ => none, fun _ => none⟩, false⟩

def payload : Bytes := ⟨[7], by decide⟩

def segment (first : UintN) : Nat → Segment
  | 1 => ⟨⟨8, max 4 first.sizeInBytes, first⟩, [(first, payload)]⟩
  | _ => ⟨⟨8, max 4 first.sizeInBytes, first.increment⟩, []⟩

def packed (first : UintN) : StoreHeader := ⟨.none, .none, first, .one⟩

def walBytes (first : UintN) : List UInt8 := (segment first 1).bytes (fun _ => 0)

def signatures : FileAuthentication :=
  ⟨List.replicate 64 0, List.replicate 64 0, by decide, by decide⟩

def storeBytes (first : UintN) : List UInt8 :=
  signatures.writeToBytes ++ ((packed first).writeToBytes ++ walBytes first)

def disk (inWal : Bool) (wal store : Bytes) : Disk where
  wal := (if inWal then [((UintN.ofUbig 1).toFilePath walExtension, wal)] else []) ++
    [((UintN.ofUbig 2).toFilePath walExtension, .empty)]
  store := [((UintN.ofUbig 1).toFilePath storeExtension, store)]

variable {first : UintN} {wal store : Bytes} (inWal : Bool)

theorem walAt_one : (disk inWal wal store).walAt 1 = if inWal then some wal else none := by
  cases inWal <;> rfl

theorem walAt_two : (disk inWal wal store).walAt 2 = some .empty := by cases inWal <;> rfl

theorem storeAt_one : (disk inWal wal store).storeAt 1 = some store := rfl

theorem contiguous (first : UintN) (i : Nat) : (segment first i).Contiguous := by
  unfold segment
  split
  · refine ⟨?_, rfl⟩
    intro e member
    obtain rfl := List.mem_singleton.mp member
    exact (WalHeader.canHoldEntry_iff _ _ _).mpr
      ⟨Nat.le_max_right _ _, show (UintN.ofU64 1).sizeInBytes ≤ 8 by decide⟩
  · exact ⟨by simp [CanHold], rfl⟩

theorem storeFile (content : wal.data = walBytes first) (file : store.data = storeBytes first)
    (fileId : UintN) : StoreFile config fileId store wal (packed first) := by
  have room := store.addressable
  rw [file, storeBytes, List.length_append, List.length_append, StoreHeader.length_writeToBytes,
    StoreHeader.size] at room
  have fits : (packed first).Addressable := ⟨by omega, by omega⟩
  refine ⟨⟨signatures, walBytes first, file, fun flag => by cases flag⟩, ?_⟩
  have afterAuth : (store.drop FileAuthentication.size).data = (packed first).writeToBytes ++ walBytes first := by
    rw [Bytes.data_drop, file, storeBytes, List.drop_left' (FileAuthentication.length_writeToBytes _)]
  have rest : (store.drop FileAuthentication.size).drop (packed first).size = wal := by
    apply Bytes.ext
    rw [Bytes.data_drop, afterAuth, List.drop_left' (StoreHeader.length_writeToBytes _), content]
  have auth : FileAuthentication.fromBytes store.data = .ok (signatures, FileAuthentication.size) := by
    rw [file, storeBytes, FileAuthentication.fromBytes_append]
  simp only [extractWalBytes, auth, Outcome.ofExcept_ok, Outcome.mapErr_ok, Outcome.ok_bind, afterAuth,
    StoreHeader.fromBytes_append _ fits, rest]
  rfl

theorem layout (content : wal.data = walBytes first) (file : store.data = storeBytes first) :
    CrashLayout (fun _ => 0) config (disk inWal wal store) 2 (segment first) (fun _ => packed first)
      .empty where
  positive := by decide
  walFiles := by
    intro path member
    cases inWal
    · exact ⟨2, by decide, by decide, by simpa [disk] using member⟩
    · rcases (by simpa [disk] using member : path = _ ∨ path = _) with rfl | rfl
      · exact ⟨1, by decide, by decide, rfl⟩
      · exact ⟨2, by decide, by decide, rfl⟩
  storeFiles := fun path member => ⟨1, by decide, by decide, by simpa [disk] using member⟩
  complete := by
    intro i low high
    obtain rfl : i = 1 := by omega
    refine ⟨?_, ?_, rfl, rfl, .inr (by rw [storeAt_one]; simp)⟩
    · intro file found
      rw [walAt_one] at found
      cases inWal
      · cases found
      · cases found
        exact content
    · intro found same
      cases same
      exact ⟨wal, storeFile content file _, content⟩
  inhabited := by
    intro i low high
    obtain rfl : i = 1 := by omega
    exact Nat.zero_lt_one
  contiguous := fun i _ _ => contiguous first i
  next := by
    intro i low high
    obtain rfl : i = 1 := by omega
    simp [segment, Segment.first]
  last := walAt_two inWal
  cut := List.nil_prefix

end Sample

open Sample

/- The count in a store file can be too long for the bytes that are read of it. -/
theorem recovery_range_window :
    ∃ (disk : Disk) (segment : Nat → Segment) (packed : Nat → StoreHeader),
      CrashLayout (fun _ => 0) config disk 2 segment packed .empty ∧
      ((wholeEntries segment 2 0).getLast?).map (fun e => e.1.toNat) = some (256 ^ 64) ∧
      continueQueue (fun _ => 0) config disk [] = .ok (.fresh, []) := by
  let first := UintN.big (256 ^ 64)
  let wal : Bytes := ⟨walBytes first, by decide +kernel⟩
  let store : Bytes := ⟨storeBytes first, by decide +kernel⟩
  exact ⟨Sample.disk false wal store, Sample.segment first, fun _ => Sample.packed first,
    layout false rfl rfl, rfl, by decide +kernel⟩

theorem recovery_continues_empty_last :
    ∃ (disk : Disk) (start : QueueStart) (after : RangeCache),
      continueQueue (fun _ => 0) config disk [] = .ok (start, after) ∧
      start.lastEntryId.map UintN.toNat = some 0 ∧ start.header.numEntriesBefore.toNat = 1 ∧
      start.fileId.toNat = 2 := by
  let wal : Bytes := ⟨walBytes .zero, by decide +kernel⟩
  let store : Bytes := ⟨storeBytes .zero, by decide +kernel⟩
  have crash : CrashLayout (fun _ => 0) config (Sample.disk true wal store) 2 (Sample.segment .zero)
      (fun _ => Sample.packed .zero) .empty := layout true rfl rfl
  have legible : ∀ i, 1 ≤ i → i ≤ 2 →
      Legible (Sample.disk true wal store) i (Sample.segment .zero i) (Sample.packed .zero) := by
    intro i low high
    obtain rfl | rfl : i = 1 ∨ i = 2 := by omega
    · exact ⟨fun _ => ⟨by decide, by decide⟩, fun absent => by rw [walAt_one] at absent; cases absent⟩
    · exact ⟨fun _ => ⟨by decide, by decide⟩, fun absent => by rw [walAt_two] at absent; cases absent⟩
  have unshadowed : Unshadowed ((Sample.disk true wal store).wal.map Prod.fst) := by
    refine unshadowed_of_small walExtension (by decide) ?_
    intro path member
    obtain ⟨i, low, high, same⟩ := crash.walFiles path member
    exact ⟨_, same, by rw [UintN.toNat_ofUbig]; omega⟩
  obtain ⟨start, after, run, last, header, file⟩ := recovery_continues crash legible unshadowed []
    (RangeCache.agrees_nil _ _) 0 rfl
  have isLast : start.lastEntryId.map UintN.toNat = some 0 := last
  obtain ⟨id, same, value⟩ := Option.map_eq_some_iff.mp isLast
  refine ⟨_, start, after, run, isLast, ?_, file⟩
  rw [header, same]
  simp [value]

end NormFS
