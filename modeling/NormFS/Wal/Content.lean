import NormFS.Wal.Reader

/-! What `getWalContent` counts: the valid entries of a WAL file from its header on, up to the first
place where no valid entry stands. -/
namespace NormFS

section Counting

variable (xxh64 : Hash) (header : WalHeader) (content : List UInt8)

structure EntryAt (cursor : Nat) (entry : WalEntryHeader) (record : List UInt8) : Prop where
  decoded : WalEntryHeader.fromBytes (content.drop cursor) header = .ok entry
  size : entry.recordSize.toNat = record.length
  placed : record <+: content.drop (cursor + WalEntryHeader.size header)
  hashed : xxh64 record = entry.xxhash

inductive ValidEntries : Nat → Nat → Prop
  | stop {cursor : Nat} (none : ∀ entry record, ¬ EntryAt xxh64 header content cursor entry record) :
      ValidEntries cursor 0
  | entry {cursor count : Nat} {entry : WalEntryHeader} {record : List UInt8}
      (here : EntryAt xxh64 header content cursor entry record)
      (later : ValidEntries (cursor + WalEntryHeader.size header + record.length) count) :
      ValidEntries cursor (count + 1)

variable {xxh64 header content}

variable {entry : WalEntryHeader} {cursor : Nat} {record : List UInt8}

theorem fromBytes_room {data : List UInt8}
    (decoded : WalEntryHeader.fromBytes data header = .ok entry) :
    WalEntryHeader.size header ≤ data.length := by
  by_contra short
  unfold WalEntryHeader.fromBytes at decoded
  obtain ⟨expected, sized, rest⟩ := Outcome.bind_eq_ok.mp decoded
  obtain ⟨rfl, -⟩ := expectedSize_eq_ok sized
  rw [if_pos (by omega)] at rest
  cases rest

theorem EntryAt.inside
    (here : EntryAt xxh64 header content cursor entry record) :
    cursor + WalEntryHeader.size header + record.length ≤ content.length := by
  have room := fromBytes_room here.decoded
  have positive := WalEntryHeader.size_pos header
  have length := here.placed.length_le
  rw [List.length_drop] at room length
  omega

theorem ValidEntries.count_le {count : Nat} (valid : ValidEntries xxh64 header content cursor count) :
    count ≤ content.length - cursor := by
  induction valid with
  | stop => exact Nat.zero_le _
  | entry here _ ih =>
    have inside := here.inside
    have positive := WalEntryHeader.size_pos header
    omega

theorem EntryAt.sliced {ε : Type} (small : content.length < 2 ^ 63) (here : EntryAt xxh64 header content cursor entry record) :
    (sliceRecord xxh64 content (cursor + WalEntryHeader.size header) entry : Outcome ε _) =
      .ok (some record) := by
  have inside := here.inside
  have word : entry.recordSize.toNat < 2 ^ 64 := by
    rw [here.size]
    omega
  have value : (BitVec.ofNat 64 entry.recordSize.toNat).toNat = record.length := by
    rw [BitVec.toNat_ofNat, Nat.mod_eq_of_lt word, here.size]
  have taken := List.prefix_iff_eq_take.mp here.placed
  simp only [sliceRecord, UintN.toU64_ok _ word, value,
    Outcome.addUsize_ok (show cursor + WalEntryHeader.size header + record.length < 2 ^ 64 by omega),
    Outcome.ok_bind]
  rw [if_neg (by omega), ← taken, if_neg (not_not.mpr here.hashed)]

theorem entryAt_of_slice {ε : Type}
    (decoded : WalEntryHeader.fromBytes (content.drop cursor) header = .ok entry)
    (sliced : (sliceRecord xxh64 content (cursor + WalEntryHeader.size header) entry : Outcome ε _) =
      .ok (some record)) :
    EntryAt xxh64 header content cursor entry record := by
  unfold sliceRecord at sliced
  split at sliced
  · cases sliced
  · rename_i recordSize word
    obtain ⟨stop, added, rest⟩ := Outcome.bind_eq_ok.mp sliced
    have same := (Outcome.addUsize_eq_ok.mp added).2
    split at rest
    · cases rest
    · simp only at rest
      split at rest
      · cases rest
      · rename_i inside hashed
        cases rest
        refine ⟨decoded, ?_, List.take_prefix _ _, not_not.mp hashed⟩
        rw [List.length_take, List.length_drop, UintN.toNat_of_toU64 word]
        omega

/- The fuel lasts: every round passes at least an entry header. -/
theorem walContentLoop_counts (small : content.length < 2 ^ 63) {fuel numEntries total : Nat}
    (enough : content.length < cursor + fuel)
    (ran : walContentLoop xxh64 header content fuel cursor numEntries = .ok total) :
    ∃ count, total = numEntries + count ∧ ValidEntries xxh64 header content cursor count := by
  have positive := WalEntryHeader.size_pos header
  induction fuel generalizing cursor numEntries with
  | zero =>
    cases ran
    refine ⟨0, rfl, .stop ?_⟩
    intro entry record here
    have inside := here.inside
    omega
  | succ fuel ih =>
    rw [walContentLoop] at ran
    split at ran
    · rename_i nothing
      cases ran
      refine ⟨0, rfl, .stop ?_⟩
      intro entry record here
      have room := fromBytes_room here.decoded
      rw [List.isEmpty_iff.mp nothing] at room
      exact absurd room (by simp; omega)
    · split at ran
      · cases ran
      · rename_i refused
        cases ran
        refine ⟨0, rfl, .stop ?_⟩
        intro entry record here
        cases here.decoded.symm.trans refused
      · rename_i entry decoded
        obtain ⟨answer, sliced, rest⟩ := Outcome.bind_eq_ok.mp ran
        cases answer with
        | none =>
          cases rest
          refine ⟨0, rfl, .stop ?_⟩
          intro entry' record here
          cases here.decoded.symm.trans decoded
          cases (here.sliced small).symm.trans sliced
        | some record =>
          obtain ⟨count, total, valid⟩ := ih (by omega) rest
          exact ⟨count + 1, by omega, .entry (entryAt_of_slice decoded sliced) valid⟩

end Counting

/-- The numbers the header of a store file takes from a WAL file: the entries before it, as its own
header has them, and its valid entries. -/
structure Tally (xxh64 : Hash) (wal : Bytes) (before count : Nat) : Prop where
  counted : ∃ header size, WalHeader.fromBytes wal.data = .ok (header, size) ∧
    header.numEntriesBefore.toNat = before ∧ ValidEntries xxh64 header wal.data size count

theorem getWalContent_tally {xxh64 : Hash} {wal : Bytes} {walData : WalContent}
    (loaded : getWalContent xxh64 (some wal) = .ok walData) :
    walData.content = wal ∧ Tally xxh64 wal walData.entriesBefore.toNat walData.numEntries.toNat := by
  unfold getWalContent at loaded
  simp only at loaded
  split at loaded
  · cases loaded
  · obtain ⟨⟨header, size⟩, decoded, rest⟩ := Outcome.bind_eq_ok.mp loaded
    obtain ⟨numEntries, ran, made⟩ := Outcome.bind_eq_ok.mp rest
    cases made
    obtain ⟨count, total, valid⟩ := walContentLoop_counts wal.addressable
      (by rw [Bytes.length]; omega) ran
    have bound := valid.count_le
    have small := wal.addressable
    have value : (UintN.ofU64 (BitVec.ofNat 64 numEntries)).toNat = count := by
      rw [UintN.toNat_ofU64, BitVec.toNat_ofNat, Nat.mod_eq_of_lt (by omega), total, Nat.zero_add]
    refine ⟨rfl, ⟨header, size, Outcome.mapErr_eq_ok.mp decoded, rfl, ?_⟩⟩
    rw [value]
    exact valid

end NormFS
