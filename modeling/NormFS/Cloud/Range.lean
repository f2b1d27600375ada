import NormFS.Store.Worker

/-! The range of a store file in the bucket. The reader takes the first bytes of the object for the store
header, where the signatures are. -/
namespace NormFS

open LittleEndian

/-- The errors of the bucket that this reader returns. -/
inductive S3RangeError where
  | uintN (error : UintNError)
  | storeHeader (error : StoreError)
  deriving DecidableEq, Repr

def readRangeFromS3 (object : Option Bytes) : Outcome S3RangeError (Option EntryRange) :=
  match object with
  | none => .ok none
  | some bytes => do
    let headerBytes := bytes.data.take 128
    let (header, _) ← (StoreHeader.fromBytes headerBytes).mapErr (fun e => .storeHeader (.header e))
    header.range .uintN

def SameRange (s3 : Outcome S3RangeError (Option EntryRange)) (fs : Outcome RangeStoreError (Option EntryRange)) :
    Prop :=
  ∃ a b, s3 = .ok a ∧ fs = .ok b ∧ rangeValues a = rangeValues b

/-- The bytes of the signatures that the reader of the object takes for the rest of a header. -/
def FileAuthentication.takenForHeader (auth : FileAuthentication) : List UInt8 :=
  auth.headerSignature ++ (encode 8 0 ++ auth.contentSignature.take 40)

/-- The bytes read as an encryption tag and two counts, and the counts give the range. -/
def SpellsRange (bytes : List UInt8) (range : Option (Nat × Nat)) : Prop :=
  ∃ (encryption : EncryptionType) (before count rest : List UInt8),
    bytes = encode 8 encryption.toU64 ++ (UintN.lengthPrefixed before ++ (UintN.lengthPrefixed count ++ rest)) ∧
    entryRange (decode before) (decode count) = range

section

variable {auth : FileAuthentication} {file : Bytes} {rest : List UInt8} (split : file.data = auth.writeToBytes ++ rest)

include split

theorem take_written :
    file.data.take 128 = encode 8 0 ++ (encode 8 0 ++ auth.takenForHeader) := by
  have signatures := auth.header_length
  rw [split, List.take_append_of_le_length (by rw [FileAuthentication.length_writeToBytes]; decide),
    FileAuthentication.writeToBytes, FileAuthentication.takenForHeader]
  simp [List.take_append, length_encode, signatures, List.take_of_length_le]

theorem readRangeFromS3_iff (range : Option (Nat × Nat)) :
    (∃ answer, readRangeFromS3 (some file) = .ok answer ∧ rangeValues answer = range) ↔
      SpellsRange auth.takenForHeader range := by
  constructor
  · rintro ⟨answer, read, rfl⟩
    simp only [readRangeFromS3, take_written split] at read
    obtain ⟨⟨header, size⟩, parsed, computed⟩ := Outcome.bind_eq_ok.mp read
    obtain ⟨before, count, tail, whole, -, -, -, readBefore, readCount⟩ :=
      StoreHeader.fromBytes_inv (Outcome.mapErr_eq_ok.mp parsed)
    refine ⟨header.encryption, before, count, tail, ?_, ?_⟩
    · rw [StoreHeader.fixedBytes, List.append_assoc, List.append_assoc] at whole
      have first := List.append_inj whole (by simp [length_encode])
      exact (List.append_inj first.2 (by simp [length_encode])).2
    · obtain ⟨same, again, values⟩ := StoreHeader.range_ok S3RangeError.uintN header
      rw [again] at computed
      cases computed
      rw [values, UintN.readValueFromSlice_value readBefore, UintN.readValueFromSlice_value readCount]
  · rintro ⟨encryption, before, count, tail, spelled, rfl⟩
    obtain ⟨numEntriesBefore, readBefore, beforeValue⟩ := UintN.readValueFromSlice_ok before
    obtain ⟨numEntries, readCount, countValue⟩ := UintN.readValueFromSlice_ok count
    have lengths := congrArg List.length spelled
    simp only [FileAuthentication.takenForHeader, List.length_append, auth.header_length, length_encode,
      List.length_take, auth.content_length, UintN.length_lengthPrefixed] at lengths
    have parsed := StoreHeader.fromBytes_counts ⟨.none, encryption, numEntriesBefore, numEntries⟩ readBefore
      readCount (by omega) (by omega) tail
    obtain ⟨answer, computed, values⟩ := StoreHeader.range_ok S3RangeError.uintN
      ⟨.none, encryption, numEntriesBefore, numEntries⟩
    refine ⟨answer, ?_, by rw [values, beforeValue, countValue]⟩
    have tag : encode 8 CompressionType.none.toU64 = encode 8 0 := rfl
    rw [StoreHeader.fixedBytes, List.append_assoc, List.append_assoc, ← spelled, tag] at parsed
    simp only [readRangeFromS3, take_written split, parsed, Outcome.mapErr_ok, Outcome.ok_bind]
    exact computed

end

/- The range in the bucket is that of the local file exactly when the bytes of the two signatures happen to
spell an encryption tag and the counts of the header. -/
theorem s3_range_iff {sealer : Sealer} {config : StoreConfig} {walFile : WalFile} {walData : WalContent}
    {data : List UInt8} {file : Bytes} (whole : file.data = storeFileBytes sealer walFile walData data)
    (signed : config.verifySignatures = true → config.codec.verify (storeHeaderOf walFile walData).writeToBytes
      (sealer.sign (storeHeaderOf walFile walData).writeToBytes) = true)
    (inside : FileAuthentication.size + (storeHeaderOf walFile walData).size ≤ rangeWindow) :
    SameRange (readRangeFromS3 (some file)) (readRangeFromFs config (some file)) ↔
      SpellsRange (fileAuthOf sealer walFile walData data).takenForHeader
        (entryRange walData.entriesBefore.toNat walData.numEntries.toNat) := by
  obtain ⟨local', read, values⟩ := readRangeFromFs_layout whole signed inside
  replace values : rangeValues local' = entryRange walData.entriesBefore.toNat walData.numEntries.toNat := values
  rw [← readRangeFromS3_iff whole, ← values]
  constructor
  · rintro ⟨a, b, s3, fs, same⟩
    rw [read] at fs
    cases fs
    exact ⟨a, s3, same⟩
  · rintro ⟨a, s3, same⟩
    exact ⟨a, local', s3, read, same⟩

def constantSealer (signature : List UInt8) (length : signature.length = 64) : Sealer where
  sign _ := signature
  sign_length _ := length
  encrypt _ _ := none
  zstdCompress _ := none

def trustingCodec : Codec := ⟨fun _ _ => true, fun _ _ _ => none, fun _ => none, fun _ => none⟩

/-- File 1 with one entry, number 0, and no content, under one signature. -/
def oneEntryFile (signature : List UInt8) (length : signature.length = 64) : Bytes where
  data := storeFileBytes (constantSealer signature length) ⟨.u8 1, .none, .none⟩
    ⟨.u8 0, .u8 1, Bytes.empty⟩ []
  addressable := by
    rw [storeFileBytes, List.length_append, List.length_append, FileAuthentication.length_writeToBytes,
      StoreHeader.length_writeToBytes]
    decide

/-- A signature that begins with the tag 0 and the counts 0 and 1. -/
def luckySignature : List UInt8 :=
  encode 8 0 ++ UintN.lengthPrefixed [0] ++ UintN.lengthPrefixed [1] ++ List.replicate 38 0

theorem s3_range_of_luckySignature :
    SameRange (readRangeFromS3 (some (oneEntryFile luckySignature (by decide))))
      (readRangeFromFs ⟨trustingCodec, true⟩ (some (oneEntryFile luckySignature (by decide)))) := by
  refine (@s3_range_iff (constantSealer luckySignature (by decide)) ⟨trustingCodec, true⟩ ⟨.u8 1, .none, .none⟩
    ⟨.u8 0, .u8 1, Bytes.empty⟩ [] (oneEntryFile luckySignature (by decide)) rfl (fun _ => rfl) (by decide)).mpr ?_
  refine ⟨.none, [0], [1], List.replicate 38 0 ++ (encode 8 0 ++ luckySignature.take 40), ?_, by decide⟩
  decide +kernel

/- Sixty-four bytes 7: the local file holds the entry 0, the object has no valid header. Sixty-four bytes
that spell other counts: the object has the entries 5 and 6. -/
theorem s3_range_wrong :
    readRangeFromFs ⟨trustingCodec, true⟩ (some (oneEntryFile (List.replicate 64 7) (by decide))) =
      .ok (some (.u8 0, .u8 0)) ∧
    readRangeFromS3 (some (oneEntryFile (List.replicate 64 7) (by decide))) =
      .err (.storeHeader (.header (.unsupportedEncryption 0x0707070707070707))) ∧
    readRangeFromS3 (some (oneEntryFile (encode 8 0 ++ UintN.lengthPrefixed [5] ++ UintN.lengthPrefixed [2] ++
      List.replicate 38 0) (by decide))) = .ok (some (.u8 5, .u8 6)) := by
  decide +kernel

end NormFS
