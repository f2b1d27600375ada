import NormFS.Recovery.Reuse
import NormFS.Store.Worker
import NormFS.Wal.Layout
import NormFS.Wal.Scan

/-! The files of a queue after any number of sessions. Every file but the last one holds a whole entry.
It may still end inside the next one: a crash has cut it there, and the session after the crash went on in
a new file. -/
namespace NormFS

open Framing

theorem UintN.sizeInBytes_le {a : UintN} (small : a.toNat < 2 ^ 128) : a.sizeInBytes ≤ 16 := by
  cases a with
  | big n => exact LittleEndian.byteLength_le small
  | _ => simp only [sizeInBytes]; omega

structure WalHeader.Narrow (h : WalHeader) : Prop where
  id : h.idSizeBytes ≤ 16
  data : h.dataSizeBytes ≤ 16
  before : h.numEntriesBefore.sizeInBytes ≤ 16

namespace WalHeader.Narrow

variable {h : WalHeader}

theorem readable (narrow : h.Narrow) : h.Readable := by
  have id := narrow.id
  have data := narrow.data
  have before := narrow.before
  refine ⟨?_, by omega⟩
  rw [WalEntryHeader.size, walEntryHeaderFixedOverhead]
  omega

theorem size_le (narrow : h.Narrow) : h.size ≤ 48 := by
  have before := narrow.before
  rw [WalHeader.size, walHeaderFixedSize]
  omega

end WalHeader.Narrow

structure Page where
  segment : Segment
  bytes : Bytes

namespace Page

def count (page : Page) : Nat :=
  wholeCount (entrySizes page.segment.header page.segment.entries) (page.bytes.length - page.segment.header.size)

def whole (page : Page) : List Entry := page.segment.entries.take page.count

structure Sound (xxh64 : Hash) (page : Page) : Prop where
  cut : page.bytes.data <+: page.segment.bytes xxh64
  contiguous : page.segment.Contiguous
  narrow : page.segment.header.Narrow
  small : ∀ e ∈ page.segment.entries, e.1.toNat < 2 ^ 64

variable {xxh64 : Hash} {config : StoreConfig} {disk : Disk} {page : Page}

theorem count_le (page : Page) : page.count ≤ page.segment.entries.length := by
  have bound := wholeCount_le (entrySizes page.segment.header page.segment.entries)
    (page.bytes.length - page.segment.header.size)
  rwa [entrySizes, List.length_map] at bound

theorem length_whole (page : Page) : page.whole.length = page.count := by
  rw [whole, List.length_take, Nat.min_eq_left page.count_le]

theorem ids_whole (sound : page.Sound xxh64) :
    page.whole.map (fun e => e.1.toNat) = List.range' page.segment.first page.count := by
  rw [whole, List.map_take, sound.contiguous.ids, List.take_range'_of_length_ge page.count_le]

theorem header_whole (inhabited : 0 < page.count) : page.segment.header.size < page.bytes.length := by
  by_contra short
  have nothing := wholeCount_le_length (entrySizes_pos page.segment.header page.segment.entries)
    (page.bytes.length - page.segment.header.size)
  have zero : page.bytes.length - page.segment.header.size = 0 := by omega
  rw [zero] at nothing
  rw [count, zero] at inhabited
  omega

theorem Sound.split (sound : page.Sound xxh64) (long : page.segment.header.size ≤ page.bytes.length) :
    ∃ bytes, page.bytes.data = page.segment.header.writeToBytes ++ bytes ∧
      bytes.length = page.bytes.length - page.segment.header.size ∧
      Cut xxh64 page.segment.header bytes (survivors page.segment.header page.segment.entries bytes.length)
        (torn page.segment.header page.segment.entries bytes.length) := by
  rcases cut_cases sound.cut with ⟨short, -⟩ | ⟨bytes, split, begins⟩
  · rw [WalHeader.length_writeToBytes] at short
    exact absurd long (Nat.not_le.mpr short)
  · refine ⟨bytes, split, ?_, cut_of_leading xxh64 sound.contiguous.fits begins⟩
    rw [Bytes.length, split, List.length_append, WalHeader.length_writeToBytes]
    omega

theorem Sound.decodeAll_eq (sound : page.Sound xxh64) : decodeAll xxh64 page.bytes = page.whole.map valueOf := by
  have readable := sound.narrow.readable
  by_cases long : page.segment.header.size ≤ page.bytes.length
  · obtain ⟨bytes, split, length, cut⟩ := sound.split long
    have widths := readable.widths
    have reads := readWalBytesRange_cut xxh64 readable.addressable (by omega) cut split
      ⟨.zero, none, 1, .diskWal⟩ (.staying [])
    obtain ⟨result, all⟩ := walk_everything ⟨.zero, none, 1, .diskWal⟩ rfl rfl
      (survivors page.segment.header page.segment.entries bytes.length) (by intro e _; simp)
      (torn page.segment.header page.segment.entries bytes.length) none none []
    have value := survivors_value sound.contiguous.fits bytes.length
    rw [length] at value
    rw [decodeAll, reads.trans all, whole, count, ← value, ← length]
    simp [Sender.staying, valueOf]
  · have cut : page.bytes.data <+: page.segment.header.writeToBytes := by
      rcases cut_cases sound.cut with ⟨-, inside⟩ | ⟨bytes, split, -⟩
      · exact inside
      · rw [Bytes.length, split, List.length_append, WalHeader.length_writeToBytes] at long
        omega
    have zero : page.bytes.length - page.segment.header.size = 0 := by omega
    have nothing := wholeCount_le_length (entrySizes_pos page.segment.header page.segment.entries) 0
    have empty : page.count = 0 := by
      rw [count, zero]
      omega
    rw [decodeAll, readWalBytesRange_short xxh64 readable.addressable cut (by omega), whole, empty]
    rfl

theorem getWalContent_eq (sound : page.Sound xxh64) (inhabited : 0 < page.count) :
    ∃ walData, getWalContent xxh64 (some page.bytes) = .ok walData ∧
      walData.entriesBefore.toNat = page.segment.first ∧ walData.numEntries.toNat = page.count := by
  obtain ⟨bytes, split, length, cut⟩ := sound.split (Nat.le_of_lt (header_whole inhabited))
  refine ⟨_, getWalContent_cut xxh64 sound.narrow.readable cut split, UintN.toNat_stored _ (Nat.le_refl _), ?_⟩
  have room := page.bytes.addressable
  have bound := wholeCount_le_length (entrySizes_pos page.segment.header page.segment.entries) bytes.length
  have short : bytes.length ≤ page.bytes.data.length := by
    rw [split, List.length_append]
    omega
  simp only [UintN.toNat_ofU64, BitVec.toNat_ofNat, length_survivors]
  rw [Nat.mod_eq_of_lt (by omega), count, ← length]

end Page

variable {xxh64 : Hash}

theorem ValidEntries.unique {header : WalHeader} {content : List UInt8}
    {cursor count count' : Nat} (one : ValidEntries xxh64 header content cursor count)
    (other : ValidEntries xxh64 header content cursor count') : count = count' := by
  induction one generalizing count' with
  | stop nothing =>
    cases other with
    | stop => rfl
    | entry here => exact absurd here (nothing _ _)
  | entry here later ih =>
    cases other with
    | stop nothing => exact absurd here (nothing _ _)
    | entry here' later' =>
      rw [(here'.unique here).2] at later'
      rw [ih later']

theorem Tally.unique {wal : Bytes} {before before' count count' : Nat}
    (one : Tally xxh64 wal before count) (other : Tally xxh64 wal before' count') :
    before = before' ∧ count = count' := by
  obtain ⟨header, size, decoded, rfl, valid⟩ := one.counted
  obtain ⟨header', size', decoded', rfl, valid'⟩ := other.counted
  cases decoded.symm.trans decoded'
  exact ⟨rfl, valid.unique valid'⟩

structure Shelved (xxh64 : Hash) (config : StoreConfig) (disk : Disk) (n : Nat) (bytes : Bytes) :
    Prop where
  wal : ∀ file, disk.walAt n = some file → file = bytes
  store : ∀ file, disk.storeAt n = some file → Migrated xxh64 config (.ofUbig n) bytes file
  somewhere : disk.Has n

theorem Disk.storeFile_ofUbig (disk : Disk) (n : Nat) : disk.storeFile (.ofUbig n) = disk.storeAt n := rfl

theorem Disk.walFile_ofUbig (disk : Disk) (n : Nat) : disk.walFile (.ofUbig n) = disk.walAt n := rfl

namespace Shelved

variable {xxh64 : Hash} {config : StoreConfig} {disk : Disk} {page : Page} {n : Nat}

theorem cascade {bytes : Bytes} (kept : Shelved xxh64 config disk n bytes) (verifySignatures : Bool) :
    NormFS.cascade config disk (.ofUbig n) verifySignatures = .ok (some bytes) := by
  unfold NormFS.cascade PersistStore.getStoreBytes WalStore.getWalBytes
  rw [Disk.storeFile_ofUbig, Disk.walFile_ofUbig]
  cases store : disk.storeAt n with
  | some file => simp only [(kept.store file store).content, Outcome.ok_bind, Outcome.pure_eq_ok]
  | none =>
    rcases kept.somewhere with wal | inStore
    · obtain ⟨file, found⟩ := Option.ne_none_iff_exists'.mp wal
      rw [found, kept.wal file found]
    · exact absurd store inStore

theorem packed (kept : Shelved xxh64 config disk n page.bytes) (sound : page.Sound xxh64) (inhabited : 0 < page.count)
    {file : Bytes} (found : disk.storeAt n = some file) :
    ∃ header, StoreFile config (.ofUbig n) file page.bytes header ∧
      header.numEntriesBefore.toNat = page.segment.first ∧ header.numEntries.toNat = page.count := by
  obtain ⟨walData, loaded, before, count⟩ := page.getWalContent_eq sound inhabited
  obtain ⟨-, tally⟩ := getWalContent_tally loaded
  obtain ⟨header, before', count', complete, tally', sameBefore, sameCount⟩ := (kept.store file found).header
  obtain ⟨rfl, rfl⟩ := tally'.unique tally
  exact ⟨header, complete, sameBefore.trans before, sameCount.trans count⟩

theorem last_whole (sound : page.Sound xxh64) : page.whole.getLast?.map (fun e => e.1.toNat) =
    if 0 < page.count then some (page.segment.first + page.count - 1) else none := by
  by_cases inhabited : 0 < page.count
  · rw [if_pos inhabited]
    exact sound.contiguous.getLast? inhabited page.count_le
  · rw [if_neg inhabited, Page.whole, Nat.eq_zero_of_not_pos inhabited]
    rfl

theorem first_add_count (sound : page.Sound xxh64) (inhabited : 0 < page.count) :
    page.segment.first + page.count ≤ 2 ^ 64 := by
  have last := last_whole sound
  rw [if_pos inhabited] at last
  obtain ⟨e, member, value⟩ := Option.map_eq_some_iff.mp last
  have bound := sound.small e (List.mem_of_mem_take (List.mem_of_getLast? member))
  omega

section

variable (kept : Shelved xxh64 config disk n page.bytes)

include kept

theorem walEnd (sound : page.Sound xxh64) :
    ∃ walEnd, WalStore.getFileEnd disk xxh64 (.ofUbig n) = .ok walEnd ∧
      ((disk.walAt n = none ∧ walEnd = none) ∨
        disk.walAt n ≠ none ∧ walEnd.map UintN.toNat = page.whole.getLast?.map (fun e => e.1.toNat)) := by
  cases wal : disk.walAt n with
  | none => exact ⟨none, WalStore.getFileEnd_none wal, .inl ⟨rfl, rfl⟩⟩
  | some file =>
    obtain rfl := kept.wal file wal
    obtain ⟨last, answer, value⟩ := WalStore.getFileEnd_begun sound.narrow.readable sound.contiguous.fits
      sound.cut wal
    exact ⟨last, answer, .inr ⟨by simp, value⟩⟩

theorem storeEnd (sound : page.Sound xxh64)
    (moved : disk.storeAt n ≠ none → 0 < page.count) {ranges : RangeCache}
    (agrees : ranges.Agrees config disk.storeAt) :
    ∃ storeEnd after, PersistStore.getFileEnd config disk (.ofUbig n) ranges = .ok (storeEnd, after) ∧
      after.Agrees config disk.storeAt ∧ ((disk.storeAt n = none ∧ storeEnd = none) ∨
        disk.storeAt n ≠ none ∧ storeEnd.map UintN.toNat = page.whole.getLast?.map (fun e => e.1.toNat)) := by
  have asked : ∀ answer, rangeOf config (disk.storeAt n) = .ok answer →
      ∃ after, PersistStore.getFileEnd config disk (.ofUbig n) ranges = .ok (answer.map Prod.snd, after) ∧
        after.Agrees config disk.storeAt := by
    intro answer read
    obtain ⟨after, got, still⟩ := getRange_spec agrees (.ofUbig n) answer (by rw [UintN.toNat_ofUbig]; exact read)
    rw [UintN.toNat_ofUbig] at got
    refine ⟨after, ?_, still⟩
    change ((getRange config (disk.storeAt n) (.ofUbig n) ranges).mapErr StoreError.range >>= _) = _
    rw [got]
    rfl
  cases store : disk.storeAt n with
  | none =>
    obtain ⟨after, answer, still⟩ := asked none (by rw [store]; rfl)
    exact ⟨none, after, answer, still, .inl ⟨rfl, rfl⟩⟩
  | some file =>
    have inhabited := moved (by rw [store]; simp)
    obtain ⟨header, complete, before, count⟩ := kept.packed sound inhabited store
    have bound := first_add_count sound inhabited
    have beforeSize := UintN.sizeInBytes_le (show header.numEntriesBefore.toNat < 2 ^ 128 by omega)
    have countSize := UintN.sizeInBytes_le (show header.numEntries.toNat < 2 ^ 128 by omega)
    have inside : FileAuthentication.size + header.size ≤ rangeWindow := by
      rw [StoreHeader.size]
      simp only [FileAuthentication.size, StoreHeader.fixedSize, rangeWindow]
      omega
    obtain ⟨first, last, range, -, value⟩ := complete.readRange inside (by omega)
    obtain ⟨after, answer, still⟩ := asked (some (first, last)) (by rw [store]; exact range)
    refine ⟨some last, after, answer, still, .inr ⟨by simp, ?_⟩⟩
    rw [last_whole sound, if_pos inhabited, Option.map_some, value, before, count]

theorem fileEnd (sound : page.Sound xxh64)
    (moved : disk.storeAt n ≠ none → 0 < page.count) {ranges : RangeCache}
    (agrees : ranges.Agrees config disk.storeAt) :
    ∃ last after, getFileEndAllSources xxh64 config disk (.ofUbig n) ranges = .ok (last, after) ∧
      last.map UintN.toNat = page.whole.getLast?.map (fun e => e.1.toNat) ∧ after.Agrees config disk.storeAt := by
  obtain ⟨walEnd, wal, walValue⟩ := kept.walEnd sound
  obtain ⟨storeEnd, after, store, still, storeValue⟩ := kept.storeEnd sound moved agrees
  have answer : getFileEndAllSources xxh64 config disk (.ofUbig n) ranges =
      .ok (storeEnd.elim walEnd (largest walEnd), after) := by
    cases walEnd <;> cases storeEnd <;> simp [getFileEndAllSources, wal, store, largest]
  refine ⟨_, after, answer, ?_, still⟩
  have alone : ∀ v : Option Nat, max v none = v ∧ max none v = v ∧ max v v = v := by
    intro v
    cases v with
    | none => exact ⟨rfl, rfl, rfl⟩
    | some a => exact ⟨rfl, rfl, congrArg some (Nat.max_self a)⟩
  have value : max (walEnd.map UintN.toNat) (storeEnd.map UintN.toNat) =
      page.whole.getLast?.map (fun e => e.1.toNat) := by
    rcases walValue with ⟨noWal, rfl⟩ | ⟨-, walLast⟩ <;> rcases storeValue with ⟨noStore, rfl⟩ | ⟨-, storeLast⟩
    · rcases kept.somewhere with there | there
      · exact absurd noWal there
      · exact absurd noStore there
    · exact (alone _).2.1.trans storeLast
    · exact (alone _).1.trans walLast
    · rw [walLast, storeLast, (alone _).2.2]
  rw [← value]
  cases storeEnd with
  | none => exact (alone _).1.symm
  | some id => exact largest_max walEnd id

theorem header (sound : page.Sound xxh64) (inhabited : 0 < page.count) :
    getFileHeaderAllSources config disk (.ofUbig n) = .ok (some page.segment.header.stored) := by
  have readable := sound.narrow.readable
  obtain ⟨bytes, split, -, -⟩ := sound.split (Nat.le_of_lt (Page.header_whole inhabited))
  have store : PersistStore.getFileHeader config disk (.ofUbig n) =
      .ok ((disk.storeAt n).bind (fun _ => some page.segment.header.stored)) := by
    unfold PersistStore.getFileHeader
    rw [Disk.storeFile_ofUbig]
    cases found : disk.storeAt n with
    | none => rfl
    | some file =>
      obtain ⟨packed, complete, -, -⟩ := kept.packed sound inhabited found
      obtain ⟨auth, body, layout, -⟩ := complete.layout
      have long : ¬ file.length < 10 := by
        have authLength := FileAuthentication.length_writeToBytes auth
        rw [Bytes.length, layout, List.length_append, authLength, FileAuthentication.size]
        omega
      simp only [long, if_false, extractWalHeader, complete.extracted, Outcome.ok_bind, split,
        WalHeader.fromBytes_append _ readable.addressable, Outcome.mapErr_ok, Outcome.pure_eq_ok, Option.bind_some]
  have wal : WalStore.getFileHeader disk (.ofUbig n) =
      .ok ((disk.walAt n).bind (fun _ => some page.segment.header.stored)) := by
    unfold WalStore.getFileHeader
    rw [Disk.walFile_ofUbig]
    cases found : disk.walAt n with
    | none => rfl
    | some file =>
      obtain rfl := kept.wal file found
      have small := sound.narrow.size_le
      have window : page.bytes.data.take 128 =
          page.segment.header.writeToBytes ++ bytes.take (128 - page.segment.header.size) := by
        rw [split, List.take_append, WalHeader.length_writeToBytes,
          List.take_of_length_le (by rw [WalHeader.length_writeToBytes]; omega)]
      have nonempty : page.bytes.data.isEmpty = false := by
        rw [split]
        rfl
      simp only [Option.map_some, readWalHeader, nonempty, Bool.false_eq_true, if_false, window, headerOrEmpty,
        WalHeader.fromReader_append _ readable.addressable readable.guarded, Outcome.ok_bind, Outcome.pure_eq_ok,
        Option.bind_some]
  unfold getFileHeaderAllSources
  rw [wal, store]
  rcases kept.somewhere with there | there
  · obtain ⟨file, found⟩ := Option.ne_none_iff_exists'.mp there
    simp [found]
  · obtain ⟨file, found⟩ := Option.ne_none_iff_exists'.mp there
    cases disk.walAt n <;> simp [found]

end

end Shelved

/-- The files of a queue, from file 1 on, with what is in them. The last one is not in the store. -/
structure Shelf (xxh64 : Hash) (config : StoreConfig) (disk : Disk) (contents : List Bytes) :
    Prop where
  walFiles : ∀ path ∈ disk.wal.map Prod.fst, ∃ i, 1 ≤ i ∧ i ≤ contents.length ∧
    path = (UintN.ofUbig i).toFilePath walExtension
  storeFiles : ∀ path ∈ disk.store.map Prod.fst, ∃ i, 1 ≤ i ∧ i < contents.length ∧
    path = (UintN.ofUbig i).toFilePath storeExtension
  kept : ∀ i bytes, contents[i]? = some bytes → Shelved xxh64 config disk (i + 1) bytes

structure Serial (xxh64 : Hash) (pages : List Page) : Prop where
  sound : ∀ page ∈ pages, page.Sound xxh64
  inhabited : ∀ page ∈ pages.dropLast, 0 < page.count
  numbered : ∀ i page, pages[i]? = some page → page.segment.first = ((pages.take i).flatMap Page.whole).length

structure Journal (xxh64 : Hash) (config : StoreConfig) (disk : Disk) (pages : List Page) :
    Prop where
  shelf : Shelf xxh64 config disk (pages.map Page.bytes)
  chained : Serial xxh64 pages

section Log

variable (xxh64 : Hash) (config : StoreConfig) (disk : Disk)

/-- What a reader finds in a file, wherever the file is. -/
def Disk.entriesAt (n : Nat) : List (Nat × Bytes) :=
  match cascade config disk (.ofUbig n) config.verifySignatures with
  | .ok (some bytes) => decodeAll xxh64 bytes
  | _ => []

/-- What a reader finds from the first file to the last. -/
def Disk.log : List (Nat × Bytes) :=
  (List.range' 1 ((getLatestFile disk).elim 0 UintN.toNat)).flatMap (disk.entriesAt xxh64 config)

end Log

/-- The pages before the one that the next session writes. A last page without a whole entry is written
anew. -/
def resumed (pages : List Page) : List Page :=
  if pages.getLast?.any (fun page => page.count == 0) then pages.dropLast else pages

namespace Shelf

variable {xxh64 : Hash} {config : StoreConfig} {disk : Disk} {contents : List Bytes}

theorem storeAt_above (shelf : Shelf xxh64 config disk contents) {n : Nat} (above : contents.length ≤ n) :
    disk.storeAt n = none := by
  cases found : disk.storeAt n with
  | none => rfl
  | some file =>
    obtain ⟨i, -, below, same⟩ := shelf.storeFiles _ (mem_keys_of_lookup found)
    have value := toFilePath_inj same
    simp only [UintN.toNat_ofUbig] at value
    omega

theorem walAt_last {init : List Bytes} {last : Bytes} (shelf : Shelf xxh64 config disk (init ++ [last])) :
    disk.walAt (init.length + 1) = some last := by
  have kept := shelf.kept init.length last (by simp)
  rcases kept.somewhere with there | there
  · obtain ⟨file, found⟩ := Option.ne_none_iff_exists'.mp there
    rw [found, kept.wal file found]
  · exact absurd (shelf.storeAt_above (by simp)) there

section

variable (shelf : Shelf xxh64 config disk contents)

include shelf

section

variable (small : contents.length < 2 ^ 24)

include small

theorem unshadowed :
    Unshadowed (disk.wal.map Prod.fst) := by
  refine unshadowed_of_small walExtension (by decide) ?_
  intro path member
  obtain ⟨i, -, within, same⟩ := shelf.walFiles path member
  exact ⟨_, same, by rw [UintN.toNat_ofUbig]; omega⟩

theorem latest :
    getLatestFile disk = if contents = [] then none else some (.ofUbig contents.length) := by
  rcases List.eq_nil_or_concat contents with rfl | ⟨init, last, rfl⟩
  · have noWal : disk.wal.map Prod.fst = [] := by
      apply List.eq_nil_iff_forall_not_mem.mpr
      intro path member
      obtain ⟨i, low, high, -⟩ := shelf.walFiles path member
      simp only [List.length_nil] at high
      omega
    have noStore : disk.store.map Prod.fst = [] := by
      apply List.eq_nil_iff_forall_not_mem.mpr
      intro path member
      obtain ⟨i, -, high, -⟩ := shelf.storeFiles path member
      exact absurd high (Nat.not_lt_zero i)
    unfold getLatestFile WalStore.findLastFileId PersistStore.findLastFileId
    rw [noWal, noStore]
    rfl
  · rw [List.concat_eq_append] at shelf small ⊢
    rw [if_neg (by simp), List.length_append, List.length_singleton]
    have member := mem_keys_of_lookup shelf.walAt_last
    have named : ∀ path ∈ disk.wal.map Prod.fst, ∃ id : UintN, path = id.toFilePath walExtension := by
      intro path among
      obtain ⟨i, -, -, same⟩ := shelf.walFiles path among
      exact ⟨_, same⟩
    obtain ⟨m, wal, present, above⟩ := Search.find_spec Search.max_sound walExtension (by decide)
      (List.ne_nil_of_mem member) named (shelf.unshadowed small)
    obtain ⟨i, -, bound, same⟩ := shelf.walFiles _ present
    have is := toFilePath_inj same
    have atLeast := above _ member
    simp only [UintN.toNat_ofUbig] at is atLeast
    rw [List.length_append, List.length_singleton] at bound
    obtain rfl : m = init.length + 1 := by omega
    have walLast : WalStore.findLastFileId disk = .ok (.ofUbig (init.length + 1)) := wal
    unfold getLatestFile
    rw [walLast]
    cases store : PersistStore.findLastFileId disk with
    | error e => rfl
    | ok id =>
      have storeNamed : ∀ path ∈ disk.store.map Prod.fst,
          ∃ other : UintN, path = other.toFilePath storeExtension := by
        intro path among
        obtain ⟨i, -, -, same⟩ := shelf.storeFiles path among
        exact ⟨_, same⟩
      obtain ⟨other, among, rfl⟩ := Search.find_mem Search.max_sound storeExtension storeNamed store
      obtain ⟨j, -, below, same⟩ := shelf.storeFiles _ among
      have value := toFilePath_inj same
      rw [List.length_append, List.length_singleton] at below
      simp only [UintN.toNat_ofUbig] at value
      simp [largest, UintN.lt_iff]
      omega

theorem count :
    (getLatestFile disk).elim 0 UintN.toNat = contents.length := by
  rw [shelf.latest small]
  split
  · rename_i empty
    rw [empty]
    rfl
  · simp

theorem log_eq :
    disk.log xxh64 config = contents.flatMap (decodeAll xxh64) := by
  have each : (List.range' 1 contents.length).map (disk.entriesAt xxh64 config) =
      contents.map (decodeAll xxh64) := by
    apply List.ext_getElem (by simp)
    intro i one other
    rw [List.getElem_map, List.getElem_map, List.getElem_range', Nat.one_mul, Nat.add_comm]
    have inside : i < contents.length := by simpa using other
    have member : contents[i]? = some contents[i] := List.getElem?_eq_getElem _
    rw [Disk.entriesAt, (shelf.kept i _ member).cascade]
  rw [Disk.log, shelf.count small, List.flatMap_def, each, List.flatMap_def]

end

end

theorem putWal {before after : List Bytes} (shelf : Shelf xxh64 config disk (before ++ after)) (old : after.length ≤ 1)
    {fileId : UintN} (named : fileId.toNat = before.length + 1) (bytes : Bytes) :
    Shelf xxh64 config (disk.putWal fileId bytes) (before ++ [bytes]) where
  walFiles := by
    intro path member
    rw [List.length_append, List.length_singleton]
    rcases List.mem_cons.mp member with rfl | earlier
    · exact ⟨before.length + 1, by omega, by omega, toFilePath_congr (by simp [named]) _⟩
    · obtain ⟨file, among, rfl⟩ := List.mem_map.mp earlier
      obtain ⟨i, low, high, same⟩ := shelf.walFiles _ (List.mem_map_of_mem (List.mem_filter.mp among).1)
      rw [List.length_append] at high
      exact ⟨i, low, by omega, same⟩
  storeFiles := by
    intro path member
    obtain ⟨i, low, high, same⟩ := shelf.storeFiles path member
    rw [List.length_append] at high ⊢
    rw [List.length_singleton]
    exact ⟨i, low, by omega, same⟩
  kept := by
    intro i content placed
    by_cases last : i = before.length
    · subst last
      rw [List.getElem?_concat_length] at placed
      cases placed
      have noStore : disk.storeAt (before.length + 1) = none :=
        shelf.storeAt_above (by rw [List.length_append]; omega)
      refine ⟨?_, ?_, .inl ?_⟩
      · intro file found
        rw [Disk.walAt_putWal, if_pos named.symm] at found
        exact (Option.some.inj found).symm
      · intro file found
        cases noStore.symm.trans found
      · rw [Disk.walAt_putWal, if_pos named.symm]
        simp
    · have inside : i < before.length := by
        have bound := (List.getElem?_eq_some_iff.mp placed).1
        rw [List.length_append, List.length_singleton] at bound
        omega
      rw [List.getElem?_append_left inside] at placed
      have kept := shelf.kept i content (by rw [List.getElem?_append_left inside]; exact placed)
      have other : ¬ i + 1 = fileId.toNat := by omega
      refine ⟨?_, kept.store, ?_⟩
      · intro file found
        rw [Disk.walAt_putWal, if_neg other] at found
        exact kept.wal file found
      · rw [Disk.Has, Disk.walAt_putWal, if_neg other]
        exact kept.somewhere

end Shelf

/-- The entries are numbered from zero on, across all pages. -/
theorem Serial.ids {pages : List Page} (chained : Serial xxh64 pages) :
    (pages.flatMap Page.whole).map (fun e => e.1.toNat) = List.range (pages.flatMap Page.whole).length := by
  have upTo : ∀ k, k ≤ pages.length → ((pages.take k).flatMap Page.whole).map (fun e => e.1.toNat) =
      List.range ((pages.take k).flatMap Page.whole).length := by
    intro k
    induction k with
    | zero => intro _; rfl
    | succ k ih =>
      intro within
      have member : pages[k]? = some pages[k] := List.getElem?_eq_getElem _
      have sound := chained.sound _ (List.getElem_mem (show k < pages.length by omega))
      rw [← List.take_append_getElem (by omega), List.flatMap_append, List.map_append, ih (by omega),
        List.flatMap_singleton, Page.ids_whole sound, chained.numbered k _ member, List.length_append,
        Page.length_whole, List.range_eq_range', List.range_eq_range']
      nth_rewrite 2 [← Nat.zero_add ((pages.take k).flatMap Page.whole).length]
      exact List.range'_append_1
  have all := upTo pages.length (Nat.le_refl _)
  rwa [List.take_length] at all

namespace Journal

variable {xxh64 : Hash} {config : StoreConfig} {disk : Disk} {pages : List Page}

theorem kept (journal : Journal xxh64 config disk pages) {i : Nat} {page : Page} (placed : pages[i]? = some page) :
    Shelved xxh64 config disk (i + 1) page.bytes :=
  journal.shelf.kept i page.bytes (by rw [List.getElem?_map, placed]; rfl)

theorem latest (journal : Journal xxh64 config disk pages) (small : pages.length < 2 ^ 24) :
    getLatestFile disk = if pages = [] then none else some (.ofUbig pages.length) := by
  have found := journal.shelf.latest (by rwa [List.length_map])
  rw [List.length_map] at found
  simpa using found

theorem log_eq (journal : Journal xxh64 config disk pages) (small : pages.length < 2 ^ 24) :
    disk.log xxh64 config = (pages.flatMap Page.whole).map valueOf := by
  rw [journal.shelf.log_eq (by rwa [List.length_map]), List.flatMap_map, List.map_flatMap]
  refine List.flatMap_congr ?_
  intro page member
  exact (journal.chained.sound page member).decodeAll_eq

theorem moved (journal : Journal xxh64 config disk pages) {i : Nat} {page : Page} (placed : pages[i]? = some page)
    (there : disk.storeAt (i + 1) ≠ none) : 0 < page.count := by
  apply journal.chained.inhabited
  have before : i + 1 < pages.length := by
    by_contra above
    exact there (journal.shelf.storeAt_above (by rw [List.length_map]; omega))
  rw [List.dropLast_eq_take]
  apply List.mem_of_getElem?
  rw [List.getElem?_take_of_lt (show i < pages.length - 1 by omega)]
  exact placed

/-- The number after the last whole entry, read at a page that has one and is followed by none. -/
theorem length_whole_pages {init rest : List Page} {page : Page}
    (journal : Journal xxh64 config disk (init ++ page :: rest)) (empty : rest.flatMap Page.whole = []) :
    ((init ++ page :: rest).flatMap Page.whole).length = page.segment.first + page.count := by
  have first := journal.chained.numbered init.length page (by simp)
  rw [List.take_left' rfl] at first
  rw [List.flatMap_append, List.flatMap_cons, empty, List.append_nil, List.length_append, Page.length_whole, first]

end Journal

/-- What a session starts from: the number after all whole entries, and a file behind the pages that
stay. -/
structure Resumes (pages : List Page) (start : QueueStart) : Prop where
  file : start.fileId.toNat = (resumed pages).length + 1
  next : OrderedBuffer.nextId start.lastEntryId = (pages.flatMap Page.whole).length
  before : start.header.numEntriesBefore.toNat = (pages.flatMap Page.whole).length
  narrow : start.header.Narrow

section Resuming

variable {xxh64 : Hash} {config : StoreConfig} {disk : Disk} {pages : List Page}

theorem continueLoop_page {latest current last : UintN} {ranges after : RangeCache} {header : WalHeader}
    (fuel : Nat) (fileEnd : getFileEndAllSources xxh64 config disk current ranges = .ok (some last, after))
    (read : getFileHeaderAllSources config disk current = .ok (some header)) :
    continueLoop xxh64 config disk latest (fuel + 1) current ranges =
      .ok (⟨if current == latest then latest.increment else latest,
        { header with numEntriesBefore := last.increment }, some last⟩, after) := by
  simp only [continueLoop, fileEnd, Outcome.ok_bind, read, Outcome.pure_eq_ok, Option.getD_some]

/-- The walk ends at the last page with a whole entry. -/
theorem Journal.resumes_at {init rest : List Page} {page : Page}
    (journal : Journal xxh64 config disk (init ++ page :: rest)) (inhabited : 0 < page.count)
    (empty : rest.flatMap Page.whole = []) (latest : UintN) (fuel : Nat) {ranges : RangeCache}
    (agrees : ranges.Agrees config disk.storeAt) :
    ∃ start after, continueLoop xxh64 config disk latest (fuel + 1) (.ofUbig (init.length + 1)) ranges =
        .ok (start, after) ∧
      start.fileId = (if UintN.ofUbig (init.length + 1) == latest then latest.increment else latest) ∧
      OrderedBuffer.nextId start.lastEntryId = ((init ++ page :: rest).flatMap Page.whole).length ∧
      start.header.numEntriesBefore.toNat = ((init ++ page :: rest).flatMap Page.whole).length ∧
      start.header.Narrow := by
  have placed : (init ++ page :: rest)[init.length]? = some page := by simp
  have kept := journal.kept placed
  have sound := journal.chained.sound page (by simp)
  obtain ⟨last, after, fileEnd, value, -⟩ := kept.fileEnd sound (journal.moved placed) agrees
  rw [Shelved.last_whole sound, if_pos inhabited] at value
  obtain ⟨id, rfl, number⟩ := Option.map_eq_some_iff.mp value
  have bound := Shelved.first_add_count sound inhabited
  refine ⟨_, after, continueLoop_page fuel fileEnd (kept.header sound inhabited), rfl, ?_, ?_, ?_⟩
  · rw [journal.length_whole_pages empty]
    change id.toNat + 1 = _
    omega
  · rw [journal.length_whole_pages empty, UintN.toNat_increment]
    omega
  · exact ⟨sound.narrow.id, sound.narrow.data,
      UintN.sizeInBytes_le (by rw [UintN.toNat_increment]; omega)⟩

theorem narrow_default : WalHeader.default.Narrow := ⟨by decide, by decide, by decide⟩

/- However many sessions there were, the next one goes on after the last whole entry, in a file of its
own. -/
theorem Journal.resumes (journal : Journal xxh64 config disk pages) (small : pages.length < 2 ^ 24) :
    ∃ start after, continueQueue xxh64 config disk [] = .ok (start, after) ∧ Resumes pages start := by
  have nothing := RangeCache.agrees_nil config disk.storeAt
  have latest := journal.latest small
  rcases List.eq_nil_or_concat pages with rfl | ⟨init, last, rfl⟩
  · refine ⟨.fresh, [], ?_, ⟨rfl, rfl, rfl, narrow_default⟩⟩
    rw [continueQueue, latest]
    rfl
  · rw [List.concat_eq_append] at journal latest ⊢
    rw [if_neg (by simp), List.length_append, List.length_singleton] at latest
    simp only [continueQueue, latest, UintN.toNat_ofUbig]
    by_cases inhabited : 0 < last.count
    · obtain ⟨start, after, ran, file, next, before, narrow⟩ := journal.resumes_at inhabited rfl
        (.ofUbig (init.length + 1)) (init.length + 1) nothing
      refine ⟨start, after, ran, ⟨?_, next, before, narrow⟩⟩
      have stays : resumed (init ++ [last]) = init ++ [last] := by
        rw [resumed, List.getLast?_concat, if_neg (by simpa using Nat.ne_of_gt inhabited)]
      rw [file, ofUbig_beq, if_pos (by simp), UintN.toNat_increment, UintN.toNat_ofUbig, stays,
        List.length_append, List.length_singleton]
    · have zero := Nat.eq_zero_of_not_pos inhabited
      have empty : [last].flatMap Page.whole = [] := by
        rw [List.flatMap_singleton, Page.whole, zero]
        rfl
      have placed : (init ++ [last])[init.length]? = some last := by simp
      have goes : resumed (init ++ [last]) = init := by
        rw [resumed, List.getLast?_concat, if_pos (by simpa using zero), List.dropLast_concat]
      obtain ⟨ended, after, fileEnd, value, still⟩ := (journal.kept placed).fileEnd
        (journal.chained.sound last (by simp)) (journal.moved placed) nothing
      rw [Shelved.last_whole (journal.chained.sound last (by simp)), if_neg inhabited] at value
      obtain rfl := Option.map_eq_none_iff.mp value
      rw [continueLoop_back fileEnd]
      rcases List.eq_nil_or_concat init with rfl | ⟨earlier, page, rfl⟩
      · have isOne : (UintN.ofUbig ([] : List Page).length.succ == UintN.one) = true :=
          (UintN.beq_iff _ _).mpr (by simp)
        rw [if_pos isOne]
        refine ⟨.fresh, after, rfl, ⟨?_, ?_, ?_, narrow_default⟩⟩
        · rw [goes]
          rfl
        · rw [List.nil_append, empty]
          rfl
        · rw [List.nil_append, empty]
          rfl
      · rw [List.concat_eq_append] at journal goes ⊢
        have notOne : (UintN.ofUbig ((earlier ++ [page]).length + 1) == UintN.one) = false := by
          rw [Bool.eq_false_iff, ne_eq, UintN.beq_iff, UintN.toNat_ofUbig, UintN.toNat_one,
            List.length_append, List.length_singleton]
          omega
        have filled := journal.chained.inhabited page (by simp)
        rw [List.append_assoc] at journal
        obtain ⟨start, later, ran, file, next, before, narrow⟩ := journal.resumes_at filled empty
          (.ofUbig (earlier.length + 2)) (earlier.length + 1) still
        rw [List.append_assoc]
        refine ⟨start, later, ?_, ⟨?_, next, before, narrow⟩⟩
        · rw [notOne, if_neg (by simp), List.length_append, List.length_singleton, decrement_ofUbig]
          exact ran
        · rw [List.append_assoc] at goes
          rw [file, ofUbig_beq, if_neg (by simp), UintN.toNat_ofUbig]
          rw [goes, List.length_append, List.length_singleton]

end Resuming

end NormFS
