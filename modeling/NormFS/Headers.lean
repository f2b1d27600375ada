import NormFS.Store.Header
import NormFS.Wal.Header

/-! The records in front of the files, written and read back, and the two readers of a WAL header side by
side: one is given a slice, the other a stream. -/
namespace NormFS

open LittleEndian Framing

/-- Equality of headers in the code: the counts are compared by value. -/
def StoreHeader.Same (a b : StoreHeader) : Prop :=
  a.compression = b.compression ∧ a.encryption = b.encryption ∧
    a.numEntriesBefore.toNat = b.numEntriesBefore.toNat ∧ a.numEntries.toNat = b.numEntries.toNat

theorem StoreHeader.stored_same (h : StoreHeader) : Same h.stored h :=
  ⟨rfl, rfl, UintN.toNat_stored _ (Nat.le_refl _), UintN.toNat_stored _ (Nat.le_refl _)⟩

def countGuard : Nat := 10 * 1024 * 1024

structure RoundTrip (wal : WalHeader) (store : StoreHeader) (auth : FileAuthentication) (rest : List UInt8) :
    Prop where
  walWritten : wal.writeToBytes.length = wal.size
  wal : ∃ read : WalHeader, read.Same wal ∧
    WalHeader.fromBytes (wal.writeToBytes ++ rest) = .ok (read, wal.size) ∧
    (wal.numEntriesBefore.sizeInBytes ≤ countGuard →
      WalHeader.fromReader (wal.writeToBytes ++ rest) = .ok ((read, wal.size), rest))
  storeWritten : store.writeToBytes.length = store.size
  store : ∃ read : StoreHeader, read.Same store ∧
    StoreHeader.fromBytes (store.writeToBytes ++ rest) = .ok (read, store.size)
  authWritten : auth.writeToBytes.length = FileAuthentication.size
  auth : FileAuthentication.fromBytes (auth.writeToBytes ++ rest) = .ok (auth, FileAuthentication.size)

theorem headers_round_trip (wal : WalHeader) (store : StoreHeader) (auth : FileAuthentication)
    (walFits : wal.Addressable) (storeFits : store.Addressable) (rest : List UInt8) :
    RoundTrip wal store auth rest := by
  constructor
  · exact wal.length_writeToBytes
  · refine ⟨wal.stored, wal.stored_same, wal.fromBytes_append walFits rest, ?_⟩
    intro guarded
    exact wal.fromReader_append walFits guarded rest
  · exact store.length_writeToBytes
  · exact ⟨store.stored, store.stored_same, store.fromBytes_append storeFits rest⟩
  · exact auth.length_writeToBytes
  · exact auth.fromBytes_append rest

def sampleStoreHeader : StoreHeader := ⟨.zstd, .aes, .u64 7, .big 3⟩

theorem length_sampleSignature : (List.replicate 64 (0 : UInt8)).length = 64 := List.length_replicate

def sampleAuthentication : FileAuthentication :=
  ⟨List.replicate 64 0, List.replicate 64 0, length_sampleSignature, length_sampleSignature⟩

/- Counts that are not canonical: seven in 64 bits, three in a number without a width. -/
theorem headers_round_trip_sample : RoundTrip ⟨8, 4, .u32 9⟩ sampleStoreHeader sampleAuthentication [1, 2, 3] :=
  headers_round_trip _ _ _ ⟨by decide, by decide, by decide⟩ ⟨by decide, by decide +kernel⟩ _

theorem wordAt_lt (data : List UInt8) (offset : Nat) : wordAt data offset < 2 ^ 64 := by
  have bound := decode_lt ((data.drop offset).take 8)
  have width : 256 ^ ((data.drop offset).take 8).length ≤ 256 ^ 8 :=
    Nat.pow_le_pow_right (by decide) (List.length_take_le _ _)
  exact Nat.lt_of_lt_of_le bound width

namespace WalHeader

def countLength (data : List UInt8) : Nat := decode ((data.drop walHeaderFixedSize).take 8)

/-- The three leading words are there and accepted, but not the whole count. -/
def CutCount (data : List UInt8) : Prop :=
  walHeaderFixedSize ≤ data.length ∧ decode (data.take 8) = 0 ∧
    (data.length < walHeaderFixedSize + 8 ∨ data.length < walHeaderFixedSize + 8 + countLength data)

def Unfinished (data : List UInt8) : Prop :=
  ∃ whole h n, fromBytes whole = .ok (h, n) ∧ data <+: whole.take n ∧ data.length < n

structure ReadersAgree (data : List UInt8) : Prop where
  same : (∃ h n rest, fromBytes data = .ok (h, n) ∧ fromReader data = .ok ((h, n), rest)) ∨
    ∃ e, fromBytes data = .err e ∧ fromReader data = .err e
  unfinished : Unfinished data → fromBytes data = .err .sliceTooShort ∧ fromReader data = .err .sliceTooShort

variable {data : List UInt8}

theorem fromReader_few (few : data.length < walHeaderFixedSize) :
    fromReader data = .err .sliceTooShort := by
  unfold fromReader
  rw [readExact_short _ few, Outcome.err_bind]

section

variable (long : walHeaderFixedSize ≤ data.length)

include long

theorem fromReader_version
    (version : decode (data.take 8) ≠ 0) :
    fromReader data = .err (.unsupportedVersion (decode (data.take 8))) := by
  have word : (data.take walHeaderFixedSize).take 8 = data.take 8 := by
    rw [List.take_take, Nat.min_eq_left (by decide)]
  unfold fromReader
  rw [readExact, if_neg (Nat.not_lt.mpr long), Outcome.ok_bind]
  dsimp only
  rw [word, if_pos version]

theorem exists_fixedBytes
    (version : decode (data.take 8) = 0) :
    ∃ h : WalHeader, h.Addressable ∧ data = h.fixedBytes ++ data.drop walHeaderFixedSize := by
  have enough : 24 ≤ data.length := long
  refine ⟨⟨wordAt data 8, wordAt data 16, .zero⟩, ⟨wordAt_lt _ _, wordAt_lt _ _, ?_⟩, ?_⟩
  · change 8 + 1 < 2 ^ 64
    decide
  have chunk (k : Nat) : (data.drop k).take 8 ++ data.drop (k + 8) = data.drop k := by
    rw [← List.drop_drop, List.take_append_drop]
  have first : encode 8 0 = (data.drop 0).take 8 := by
    rw [← encode_wordAt (by omega), wordAt, List.drop_zero, version]
  rw [fixedBytes, first, encode_wordAt (by omega), encode_wordAt (by omega), List.append_assoc, List.append_assoc,
    show data.drop walHeaderFixedSize = data.drop (16 + 8) from rfl, chunk, chunk, chunk, List.drop_zero]

theorem fromBytes_long
    (version : decode (data.take 8) = 0) :
    fromBytes data = (do
      let counted ← (UintN.readFromSlice (data.drop walHeaderFixedSize)).mapErr WalHeaderError.uintN
      pure (⟨decode ((data.drop 8).take 8), decode ((data.drop 16).take 8), counted.1⟩,
        walHeaderFixedSize + counted.2)) := by
  unfold fromBytes
  rw [if_neg (Nat.not_lt.mpr long), if_neg (not_not.mpr version)]

end

section Guarded

variable {data : List UInt8} (guarded : walHeaderFixedSize + 8 ≤ data.length → countLength data ≤ countGuard)

include guarded

/-- A count that is cut off is an error of the number for the slice reader. -/
theorem fromBytes_cutCount (cut : CutCount data) : fromBytes data = .err (.uintN .sliceTooShort) := by
  obtain ⟨long, version, short⟩ := cut
  have short' : (data.drop walHeaderFixedSize).length < 8 ∨
      (data.drop walHeaderFixedSize).length < 8 + countLength data := by
    rw [List.length_drop]
    omega
  have few : UintN.readFromSlice (data.drop walHeaderFixedSize) = .err .sliceTooShort := by
    unfold UintN.readFromSlice
    split
    · rfl
    · rename_i enough
      have small := guarded (by rw [List.length_drop] at enough; omega)
      have added : 8 + countLength data < 2 ^ 64 := by
        unfold countGuard at small
        omega
      change (do
        let bytesRead ← Outcome.addUsize 8 (countLength data)
        _) = _
      rw [Outcome.addUsize_ok added, Outcome.ok_bind, if_pos (short'.resolve_left enough)]
  rw [fromBytes_long long version, few, Outcome.mapErr_err, Outcome.err_bind]

omit guarded in
/-- The same count is too few bytes of the stream. -/
theorem fromReader_cutCount (cut : CutCount data) : fromReader data = .err .sliceTooShort := by
  obtain ⟨long, version, short⟩ := cut
  obtain ⟨h, fits, words⟩ := exists_fixedBytes long version
  have length : (data.drop walHeaderFixedSize).length = data.length - walHeaderFixedSize := List.length_drop
  rw [words, fromReader_fixed h fits]
  by_cases few : (data.drop walHeaderFixedSize).length < 8
  · rw [readExact_short _ few, Outcome.err_bind]
  · rw [readExact, if_neg few, Outcome.ok_bind]
    dsimp only
    split
    · rfl
    · rw [readExact_short, Outcome.err_bind]
      change _ < countLength data
      rw [List.length_drop]
      omega

theorem fromBytes_whole (long : walHeaderFixedSize ≤ data.length) (version : decode (data.take 8) = 0)
    (whole : ¬ CutCount data) : ∃ h, fromBytes data = .ok (h, walHeaderFixedSize + 8 + countLength data) := by
  have enough : walHeaderFixedSize + 8 ≤ data.length ∧ walHeaderFixedSize + 8 + countLength data ≤ data.length := by
    by_contra short
    exact whole ⟨long, version, by omega⟩
  have small := guarded enough.1
  let bytes := (data.drop (walHeaderFixedSize + 8)).take (countLength data)
  have length : bytes.length = countLength data := by
    rw [List.length_take, List.length_drop]
    omega
  obtain ⟨count, read, -⟩ := UintN.readValueFromSlice_ok bytes
  have standing : data.drop walHeaderFixedSize =
      UintN.lengthPrefixed bytes ++ data.drop (walHeaderFixedSize + 8 + countLength data) := by
    have word : encode 8 (countLength data) = (data.drop walHeaderFixedSize).take 8 :=
      encode_wordAt (by omega)
    rw [UintN.lengthPrefixed, length, word, List.append_assoc, ← List.drop_drop (i := countLength data),
      List.take_append_drop, ← List.drop_drop, List.take_append_drop]
  have addressable : 8 + bytes.length < 2 ^ 64 := by
    unfold countGuard at small
    omega
  rw [fromBytes_long long version, standing, UintN.readFromSlice_lengthPrefixed read _ addressable,
    Outcome.mapErr_ok, Outcome.ok_bind, length, ← Nat.add_assoc]
  exact ⟨_, rfl⟩

end Guarded

theorem Unfinished.cut (unfinished : Unfinished data) :
    data.length < walHeaderFixedSize ∨ CutCount data := by
  obtain ⟨whole, h, n, read, begins, short⟩ := unfinished
  obtain ⟨-, version, bytes, rest, count, tail, small, -, -, rfl⟩ := fromBytes_inv read
  have inside := begins.trans (List.take_prefix _ whole)
  by_cases few : data.length < walHeaderFixedSize
  · exact .inl few
  · have enough : 24 ≤ data.length := Nat.le_of_not_lt few
    have word : data.take 8 = whole.take 8 := by
      rw [List.prefix_iff_eq_take.mp inside, List.take_take, Nat.min_eq_left (by omega)]
    refine .inr ⟨enough, by rw [word, version], ?_⟩
    by_cases cut : data.length < walHeaderFixedSize + 8
    · exact .inl cut
    · have field : countLength data = bytes.length := by
        have same : (data.drop walHeaderFixedSize).take 8 = (whole.drop walHeaderFixedSize).take 8 := by
          rw [List.prefix_iff_eq_take.mp inside, List.drop_take, List.take_take, Nat.min_eq_left (by omega)]
        rw [countLength, same, tail, UintN.lengthPrefixed, List.append_assoc,
          List.take_left' (length_encode _ _)]
        exact decode_encode (by norm_num; omega)
      right
      rw [field]
      omega

/- The two readers agree on every sequence of bytes but those that end inside the count: there the reader
of a slice reports the error of the number, and the reader of a stream its own. -/
theorem readers_agree_iff (data : List UInt8)
    (guarded : walHeaderFixedSize + 8 ≤ data.length → countLength data ≤ countGuard) :
    ReadersAgree data ↔ ¬ CutCount data := by
  constructor
  · intro agree cut
    rcases agree.same with ⟨h, n, rest, read, -⟩ | ⟨e, slice, stream⟩
    · rw [fromBytes_cutCount guarded cut] at read
      cases read
    · rw [fromBytes_cutCount guarded cut] at slice
      rw [fromReader_cutCount cut] at stream
      cases slice
      cases stream
  · intro whole
    by_cases few : data.length < walHeaderFixedSize
    · have slice : fromBytes data = .err .sliceTooShort := if_pos few
      exact ⟨.inr ⟨_, slice, fromReader_few few⟩, fun _ => ⟨slice, fromReader_few few⟩⟩
    · have long := Nat.le_of_not_lt few
      constructor
      · by_cases version : decode (data.take 8) = 0
        · obtain ⟨h, read⟩ := fromBytes_whole guarded long version whole
          have inside := fromBytes_inside read
          have small := guarded (by omega)
          exact .inl ⟨h, _, _, read, fromReader_of_fromBytes read (Nat.add_le_add_left small _)⟩
        · refine .inr ⟨_, ?_, fromReader_version long version⟩
          unfold fromBytes
          rw [if_neg few, if_pos version]
      · intro unfinished
        exact absurd unfinished.cut (not_or.mpr ⟨few, whole⟩)

theorem readers_agree_default :
    ReadersAgree default.writeToBytes ↔ ¬ CutCount default.writeToBytes :=
  readers_agree_iff _ (by decide +kernel)

/- A header without its last byte. -/
theorem readers_disagree : fromBytes default.writeToBytes.dropLast = .err (.uintN .sliceTooShort) ∧
    fromReader default.writeToBytes.dropLast = .err .sliceTooShort := by
  decide +kernel

end WalHeader

end NormFS
