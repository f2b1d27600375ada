import NormFS.Types
import NormFS.Wal.Header

/-! An entry of a WAL file: a header whose two numeric fields have the widths the file header
announces, then the record. The hash of a record is any fixed function of its bytes. -/
namespace NormFS

open LittleEndian Framing

def walEntryHeaderFixedOverhead : Nat := 16

inductive WalEntryError where
  | sliceTooShort
  | uintN (error : UintNError)
  | unsupportedVersion (version : Nat)
  deriving DecidableEq, Repr

structure WalEntryHeader where
  entryId : UintN
  recordSize : UintN
  xxhash : BitVec 64
  deriving DecidableEq, Repr

def recordSizeOf (data : Bytes) : UintN := .ofU64 (BitVec.ofNat 64 data.length)

@[simp] theorem toNat_recordSizeOf (data : Bytes) : (recordSizeOf data).toNat = data.length := by
  rw [recordSizeOf, UintN.toNat_ofU64, data.word_length, Bytes.length]

namespace WalEntryHeader

def new (xxh64 : Hash) (entryId : UintN) (recordData : Bytes) : WalEntryHeader :=
  ⟨entryId, recordSizeOf recordData, xxh64 recordData.data⟩

def size (walHeader : WalHeader) : Nat :=
  walEntryHeaderFixedOverhead + walHeader.idSizeBytes + walHeader.dataSizeBytes

def writeToBytes (self : WalEntryHeader) (walHeader : WalHeader) :
    Except UintNError (List UInt8) := do
  let entryId ← self.entryId.writeValueToBufferWithSize walHeader.idSizeBytes
  let recordSize ← self.recordSize.writeValueToBufferWithSize walHeader.dataSizeBytes
  pure (encode 8 0 ++ entryId ++ recordSize ++ encode 8 self.xxhash.toNat)

def expectedSize {ε : Type} (walHeader : WalHeader) : Outcome ε Nat := do
  let withId ← Outcome.addUsize walEntryHeaderFixedOverhead walHeader.idSizeBytes
  Outcome.addUsize withId walHeader.dataSizeBytes

def fromBytes (data : List UInt8) (walHeader : WalHeader) :
    Outcome WalEntryError WalEntryHeader := do
  let idSize := walHeader.idSizeBytes
  let dataSize := walHeader.dataSizeBytes
  let expected ← expectedSize walHeader
  if data.length < expected then .err .sliceTooShort
  else
    let version := decode (data.take 8)
    if version ≠ 0 then .err (.unsupportedVersion version)
    else do
      let entryId ← (Outcome.ofExcept
        (UintN.readValueFromSlice ((data.drop 8).take idSize) idSize)).mapErr .uintN
      let recordSize ← (Outcome.ofExcept
        (UintN.readValueFromSlice ((data.drop (8 + idSize)).take dataSize) dataSize)).mapErr .uintN
      let xxhash := decode ((data.drop (8 + idSize + dataSize)).take 8)
      pure ⟨entryId, recordSize, BitVec.ofNat 64 xxhash⟩

def fromReader (reader : List UInt8) (walHeader : WalHeader) :
    Outcome WalEntryError (WalEntryHeader × List UInt8) := do
  let expected ← expectedSize walHeader
  Outcome.allocate expected
  let (buf, reader) ← readExact .sliceTooShort reader expected
  let header ← fromBytes buf walHeader
  pure (header, reader)

end WalEntryHeader

section Encoding

variable (xxh64 : Hash)

/-- The bytes the writer hands to the file for one entry. -/
def encodeEntry (walHeader : WalHeader) (entryId : UintN) (data : Bytes) :
    Except UintNError (List UInt8) := do
  let header ← (WalEntryHeader.new xxh64 entryId data).writeToBytes walHeader
  pure (header ++ data.data)

/-- The encoded header of an entry that fits the widths of the file. -/
def entryHeaderBytes (h : WalHeader) (id : UintN) (data : Bytes) : List UInt8 :=
  encode 8 0 ++ (id.padded h.idSizeBytes ++
    ((recordSizeOf data).padded h.dataSizeBytes ++ encode 8 (xxh64 data.data).toNat))

def entryBytes (h : WalHeader) (id : UintN) (data : Bytes) : List UInt8 :=
  entryHeaderBytes xxh64 h id data ++ data.data

def storedEntryHeader (h : WalHeader) (id : UintN) (data : Bytes) : WalEntryHeader :=
  ⟨id.stored h.idSizeBytes, (recordSizeOf data).stored h.dataSizeBytes, xxh64 data.data⟩

variable {h : WalHeader} {id : UintN} {data : Bytes}

@[simp] theorem storedEntryHeader_entryId :
    (storedEntryHeader xxh64 h id data).entryId = id.stored h.idSizeBytes := rfl

@[simp] theorem storedEntryHeader_xxhash :
    (storedEntryHeader xxh64 h id data).xxhash = xxh64 data.data := rfl

theorem encodeEntry_ok (fits : h.canHoldEntry id data.length = true) :
    encodeEntry xxh64 h id data = .ok (entryBytes xxh64 h id data) := by
  obtain ⟨idFits, dataFits⟩ := (WalHeader.canHoldEntry_iff h id data.length).mp fits
  have dataFits' : (recordSizeOf data).sizeInBytes ≤ h.dataSizeBytes := dataFits
  simp only [encodeEntry, WalEntryHeader.new, WalEntryHeader.writeToBytes,
    UintN.writeValueToBufferWithSize_ok _ _ idFits, UintN.writeValueToBufferWithSize_ok _ _ dataFits',
    bind, Except.bind, pure, Except.pure, entryBytes, entryHeaderBytes, List.append_assoc]

theorem length_entryHeaderBytes (fits : h.canHoldEntry id data.length = true) :
    (entryHeaderBytes xxh64 h id data).length = WalEntryHeader.size h := by
  obtain ⟨idFits, dataFits⟩ := (WalHeader.canHoldEntry_iff h id data.length).mp fits
  have dataFits' : (recordSizeOf data).sizeInBytes ≤ h.dataSizeBytes := dataFits
  simp only [entryHeaderBytes, List.length_append, length_encode, UintN.length_padded _ idFits,
    UintN.length_padded _ dataFits', WalEntryHeader.size, walEntryHeaderFixedOverhead]
  omega

theorem WalEntryHeader.size_pos (h : WalHeader) : 0 < WalEntryHeader.size h := by
  simp only [WalEntryHeader.size, walEntryHeaderFixedOverhead]
  omega

theorem length_entryBytes (fits : h.canHoldEntry id data.length = true) :
    (entryBytes xxh64 h id data).length = WalEntryHeader.size h + data.length := by
  rw [entryBytes, List.length_append, length_entryHeaderBytes xxh64 fits, Bytes.length]

variable {ε : Type}

theorem expectedSize_ok (small : WalEntryHeader.size h < 2 ^ 64) :
    (WalEntryHeader.expectedSize h : Outcome ε Nat) = .ok (WalEntryHeader.size h) := by
  unfold WalEntryHeader.size at small
  rw [WalEntryHeader.expectedSize, Outcome.addUsize_ok (by omega), Outcome.ok_bind,
    Outcome.addUsize_ok small, WalEntryHeader.size]

theorem expectedSize_eq_ok {expected : Nat}
    (sized : (WalEntryHeader.expectedSize h : Outcome ε Nat) = .ok expected) :
    expected = WalEntryHeader.size h ∧ WalEntryHeader.size h < 2 ^ 64 := by
  unfold WalEntryHeader.expectedSize at sized
  obtain ⟨withId, first, second⟩ := Outcome.bind_eq_ok.mp sized
  obtain ⟨-, rfl⟩ := Outcome.addUsize_eq_ok.mp first
  obtain ⟨word, rfl⟩ := Outcome.addUsize_eq_ok.mp second
  exact ⟨rfl, word⟩

theorem expectedSize_large (large : 2 ^ 64 ≤ WalEntryHeader.size h) :
    (WalEntryHeader.expectedSize h : Outcome ε Nat) = .panic := by
  unfold WalEntryHeader.size at large
  unfold WalEntryHeader.expectedSize Outcome.addUsize
  by_cases withId : walEntryHeaderFixedOverhead + h.idSizeBytes < 2 ^ 64
  · rw [if_pos withId, Outcome.ok_bind, if_neg (Nat.not_lt.mpr large)]
  · rw [if_neg withId, Outcome.panic_bind]

theorem fromBytes_entry (fits : h.canHoldEntry id data.length = true)
    (small : WalEntryHeader.size h < 2 ^ 64) (rest : List UInt8) :
    WalEntryHeader.fromBytes (entryHeaderBytes xxh64 h id data ++ rest) h =
      .ok (storedEntryHeader xxh64 h id data) := by
  obtain ⟨idFits, dataFits⟩ := (WalHeader.canHoldEntry_iff h id data.length).mp fits
  have dataFits' : (recordSizeOf data).sizeInBytes ≤ h.dataSizeBytes := dataFits
  have fields : entryHeaderBytes xxh64 h id data ++ rest =
      encode 8 0 ++ (id.padded h.idSizeBytes ++ ((recordSizeOf data).padded h.dataSizeBytes ++
        (encode 8 (xxh64 data.data).toNat ++ rest))) := by
    simp only [entryHeaderBytes, List.append_assoc]
  have long : ¬ (entryHeaderBytes xxh64 h id data ++ rest).length < WalEntryHeader.size h := by
    rw [List.length_append, length_entryHeaderBytes xxh64 fits]
    omega
  have afterVersion := congrArg (List.drop 8) fields
  rw [List.drop_left' (length_encode _ _)] at afterVersion
  have afterId := congrArg (List.drop h.idSizeBytes) afterVersion
  rw [List.drop_left' (UintN.length_padded _ idFits), List.drop_drop] at afterId
  have afterSize := congrArg (List.drop h.dataSizeBytes) afterId
  rw [List.drop_left' (UintN.length_padded _ dataFits'), List.drop_drop] at afterSize
  have version : decode ((entryHeaderBytes xxh64 h id data ++ rest).take 8) = 0 := by
    rw [fields, List.take_left' (length_encode _ _)]
    exact decode_encode (by decide)
  have hash : decode (encode 8 (xxh64 data.data).toNat) = (xxh64 data.data).toNat :=
    decode_encode (by have := (xxh64 data.data).isLt; norm_num; omega)
  unfold WalEntryHeader.fromBytes
  simp only [expectedSize_ok small, Outcome.ok_bind]
  rw [if_neg long, version, afterVersion, afterId, afterSize,
    List.take_left' (UintN.length_padded _ idFits), List.take_left' (UintN.length_padded _ dataFits'),
    List.take_left' (length_encode _ _), hash, UintN.readValueFromSlice_padded _ idFits,
    UintN.readValueFromSlice_padded _ dataFits']
  simp only [ne_eq, not_true_eq_false, if_false, Outcome.ofExcept_ok, Outcome.mapErr_ok,
    Outcome.ok_bind, Outcome.pure_eq_ok, BitVec.ofNat_toNat, BitVec.setWidth_eq, storedEntryHeader]

theorem fromBytes_entry_short {bytes : List UInt8} (small : WalEntryHeader.size h < 2 ^ 64)
    (short : bytes.length < WalEntryHeader.size h) :
    WalEntryHeader.fromBytes bytes h = .err .sliceTooShort := by
  unfold WalEntryHeader.fromBytes
  simp only [expectedSize_ok small, Outcome.ok_bind]
  exact if_pos short

theorem fromReader_entry (fits : h.canHoldEntry id data.length = true)
    (small : WalEntryHeader.size h < 2 ^ 63) (rest : List UInt8) :
    WalEntryHeader.fromReader (entryHeaderBytes xxh64 h id data ++ rest) h =
      .ok (storedEntryHeader xxh64 h id data, rest) := by
  have whole := fromBytes_entry xxh64 fits (by omega) []
  rw [List.append_nil] at whole
  unfold WalEntryHeader.fromReader
  simp only [expectedSize_ok (show WalEntryHeader.size h < 2 ^ 64 by omega), Outcome.ok_bind,
    Outcome.allocate_ok small, readExact_append' _ (length_entryHeaderBytes xxh64 fits), whole,
    Outcome.pure_eq_ok]

theorem fromReader_entry_short {bytes : List UInt8} (small : WalEntryHeader.size h < 2 ^ 63)
    (short : bytes.length < WalEntryHeader.size h) :
    WalEntryHeader.fromReader bytes h = .err .sliceTooShort := by
  unfold WalEntryHeader.fromReader
  simp only [expectedSize_ok (show WalEntryHeader.size h < 2 ^ 64 by omega), Outcome.ok_bind,
    Outcome.allocate_ok small, readExact_short _ short, Outcome.err_bind]

theorem storedRecordSize (fits : h.canHoldEntry id data.length = true) :
    (storedEntryHeader xxh64 h id data).recordSize.toU64 = .ok (BitVec.ofNat 64 data.length) := by
  have dataFits : (recordSizeOf data).sizeInBytes ≤ h.dataSizeBytes :=
    ((WalHeader.canHoldEntry_iff h id data.length).mp fits).2
  have value : ((recordSizeOf data).stored h.dataSizeBytes).toNat = data.length := by
    rw [UintN.toNat_stored _ dataFits, toNat_recordSizeOf]
  have small := data.addressable
  have word : ((recordSizeOf data).stored h.dataSizeBytes).toNat < 2 ^ 64 := by
    rw [value, Bytes.length]
    omega
  rw [storedEntryHeader, UintN.toU64_ok _ word, value]

end Encoding

end NormFS
