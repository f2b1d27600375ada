import NormFS.Lib.Framing
import NormFS.UintN.Codec

/-! The header of a WAL file: a version word, the widths of the two numeric fields of an
entry header, and the number of entries before the file. -/
namespace NormFS

open LittleEndian Framing

def walHeaderFixedSize : Nat := 24

inductive WalHeaderError where
  | sliceTooShort
  | invalidDataSizeBytes (size : Nat)
  | invalidIdSizeBytes (size : Nat)
  | uintN (error : UintNError)
  | unsupportedVersion (version : Nat)
  deriving DecidableEq, Repr

structure WalHeader where
  dataSizeBytes : Nat
  idSizeBytes : Nat
  numEntriesBefore : UintN
  deriving DecidableEq, Repr

namespace WalHeader

def default : WalHeader := ⟨8, 4, .zero⟩

def resize (self : WalHeader) (entryId : UintN) (dataSize : Nat) : WalHeader :=
  let requiredIdSize := entryId.sizeInBytes
  let requiredDataSize := (UintN.ofU64 (BitVec.ofNat 64 dataSize)).sizeInBytes
  { self with
    idSizeBytes := max self.idSizeBytes requiredIdSize
    dataSizeBytes := max self.dataSizeBytes requiredDataSize }

def canHoldEntry (self : WalHeader) (entryId : UintN) (dataSize : Nat) : Bool :=
  entryId.canFit self.idSizeBytes && (UintN.ofU64 (BitVec.ofNat 64 dataSize)).canFit self.dataSizeBytes

def size (self : WalHeader) : Nat := walHeaderFixedSize + 8 + self.numEntriesBefore.sizeInBytes

def fixedBytes (self : WalHeader) : List UInt8 :=
  encode 8 0 ++ encode 8 self.dataSizeBytes ++ encode 8 self.idSizeBytes

def writeToBytes (self : WalHeader) : List UInt8 :=
  self.fixedBytes ++ self.numEntriesBefore.writeToBuffer

def fromBytes (data : List UInt8) : Outcome WalHeaderError (WalHeader × Nat) :=
  if data.length < walHeaderFixedSize then .err .sliceTooShort
  else
    let version := decode (data.take 8)
    if version ≠ 0 then .err (.unsupportedVersion version)
    else do
      let dataSizeBytes := decode ((data.drop 8).take 8)
      let idSizeBytes := decode ((data.drop 16).take 8)
      let (numEntriesBefore, bytesRead) ←
        (UintN.readFromSlice (data.drop walHeaderFixedSize)).mapErr WalHeaderError.uintN
      pure (⟨dataSizeBytes, idSizeBytes, numEntriesBefore⟩, walHeaderFixedSize + bytesRead)

/- The streaming reader returns what is left of the stream as well. It refuses a count of
more than 10 MiB, which the reader of a slice does not. -/
def fromReader (reader : List UInt8) : Outcome WalHeaderError ((WalHeader × Nat) × List UInt8) := do
  let (fixed, reader) ← readExact .sliceTooShort reader walHeaderFixedSize
  let version := decode (fixed.take 8)
  let dataSizeBytes := decode ((fixed.drop 8).take 8)
  let idSizeBytes := decode ((fixed.drop 16).take 8)
  if version ≠ 0 then .err (.unsupportedVersion version)
  else do
    let (lenBuf, reader) ← readExact .sliceTooShort reader 8
    let len := decode lenBuf
    if 10 * 1024 * 1024 < len then .err .sliceTooShort
    else do
      let (valueBuf, reader) ← readExact .sliceTooShort reader len
      let numEntriesBefore ←
        (Outcome.ofExcept (UintN.readValueFromSlice valueBuf len)).mapErr WalHeaderError.uintN
      pure ((⟨dataSizeBytes, idSizeBytes, numEntriesBefore⟩, walHeaderFixedSize + 8 + len), reader)

def stored (self : WalHeader) : WalHeader :=
  { self with numEntriesBefore := self.numEntriesBefore.stored self.numEntriesBefore.sizeInBytes }

/-- Equality of headers in the code: the counts are compared by value. -/
def Same (a b : WalHeader) : Prop :=
  a.dataSizeBytes = b.dataSizeBytes ∧ a.idSizeBytes = b.idSizeBytes ∧
    a.numEntriesBefore.toNat = b.numEntriesBefore.toNat

theorem stored_same (h : WalHeader) : Same h.stored h :=
  ⟨rfl, rfl, UintN.toNat_stored _ (Nat.le_refl _)⟩

@[simp] theorem stored_dataSizeBytes (h : WalHeader) : h.stored.dataSizeBytes = h.dataSizeBytes := rfl
@[simp] theorem stored_idSizeBytes (h : WalHeader) : h.stored.idSizeBytes = h.idSizeBytes := rfl

theorem length_fixedBytes (h : WalHeader) : h.fixedBytes.length = walHeaderFixedSize := by
  simp only [fixedBytes, List.length_append, length_encode, walHeaderFixedSize]

theorem length_writeToBytes (h : WalHeader) : h.writeToBytes.length = h.size := by
  simp only [writeToBytes, List.length_append, length_fixedBytes, UintN.length_writeToBuffer, size]
  omega

structure Addressable (h : WalHeader) : Prop where
  data : h.dataSizeBytes < 2 ^ 64
  id : h.idSizeBytes < 2 ^ 64
  count : 8 + h.numEntriesBefore.sizeInBytes < 2 ^ 64

section

variable (h : WalHeader)

include h

theorem fixed_words (fits : h.Addressable) (rest : List UInt8) :
    decode ((h.fixedBytes ++ rest).take 8) = 0 ∧
    decode (((h.fixedBytes ++ rest).drop 8).take 8) = h.dataSizeBytes ∧
    decode (((h.fixedBytes ++ rest).drop 16).take 8) = h.idSizeBytes := by
  have words : h.fixedBytes ++ rest =
      encode 8 0 ++ (encode 8 h.dataSizeBytes ++ (encode 8 h.idSizeBytes ++ rest)) := by
    simp only [fixedBytes, List.append_assoc]
  have first : (h.fixedBytes ++ rest).drop 8 =
      encode 8 h.dataSizeBytes ++ (encode 8 h.idSizeBytes ++ rest) := by
    rw [words, List.drop_left' (length_encode _ _)]
  have second : (h.fixedBytes ++ rest).drop 16 = encode 8 h.idSizeBytes ++ rest := by
    rw [show 16 = 8 + 8 from rfl, ← List.drop_drop, first, List.drop_left' (length_encode _ _)]
  refine ⟨?_, ?_, ?_⟩
  · rw [words, List.take_left' (length_encode _ _)]
    exact decode_encode (by decide)
  · rw [first, List.take_left' (length_encode _ _)]
    exact decode_encode fits.data
  · rw [second, List.take_left' (length_encode _ _)]
    exact decode_encode fits.id

theorem fromBytes_append (fits : h.Addressable) (rest : List UInt8) :
    fromBytes (h.writeToBytes ++ rest) = .ok (h.stored, h.size) := by
  obtain ⟨version, data, id⟩ := fixed_words h fits (h.numEntriesBefore.writeToBuffer ++ rest)
  have tail : (h.fixedBytes ++ (h.numEntriesBefore.writeToBuffer ++ rest)).drop walHeaderFixedSize =
      h.numEntriesBefore.writeToBuffer ++ rest := List.drop_left' (length_fixedBytes h)
  have long : ¬ (h.fixedBytes ++ (h.numEntriesBefore.writeToBuffer ++ rest)).length <
      walHeaderFixedSize := by
    rw [List.length_append, length_fixedBytes]
    omega
  rw [writeToBytes, List.append_assoc]
  unfold fromBytes
  rw [if_neg long]
  simp only [version, data, id, tail, UintN.readFromSlice_append _ rest fits.count, ne_eq,
    not_true_eq_false, if_false, Outcome.mapErr_ok, Outcome.ok_bind, Outcome.pure_eq_ok,
    stored, size, Nat.add_assoc]

theorem fromBytes_size (count : 8 + h.numEntriesBefore.sizeInBytes < 2 ^ 64)
    (rest : List UInt8) : ∃ read, fromBytes (h.writeToBytes ++ rest) = .ok (read, h.size) := by
  have words : h.writeToBytes ++ rest = encode 8 0 ++ (encode 8 h.dataSizeBytes ++
      (encode 8 h.idSizeBytes ++ (h.numEntriesBefore.writeToBuffer ++ rest))) := by
    simp only [writeToBytes, fixedBytes, List.append_assoc]
  have version : decode ((h.writeToBytes ++ rest).take 8) = 0 := by
    rw [words, List.take_left' (length_encode _ _)]
    exact decode_encode (by decide)
  have tail : (h.writeToBytes ++ rest).drop walHeaderFixedSize =
      h.numEntriesBefore.writeToBuffer ++ rest := by
    rw [writeToBytes, List.append_assoc, List.drop_left' (length_fixedBytes h)]
  have long : ¬ (h.writeToBytes ++ rest).length < walHeaderFixedSize := by
    rw [List.length_append, length_writeToBytes, size]
    omega
  unfold fromBytes
  rw [if_neg long]
  simp only [version, tail, UintN.readFromSlice_append _ rest count, ne_eq, not_true_eq_false,
    if_false, Outcome.mapErr_ok, Outcome.ok_bind, Outcome.pure_eq_ok, size, Nat.add_assoc]
  exact ⟨_, rfl⟩

section

variable (fits : h.Addressable)

include fits

theorem fromBytes_short {p : List UInt8}
    (cut : p <+: h.writeToBytes) (short : p.length < h.size) :
    fromBytes p = .err .sliceTooShort ∨ fromBytes p = .err (.uintN .sliceTooShort) := by
  rcases cut_cases cut with ⟨inside, _⟩ | ⟨tail, rfl, begins⟩
  · left
    rw [length_fixedBytes] at inside
    exact if_pos inside
  · right
    rw [List.length_append, length_fixedBytes] at short
    obtain ⟨version, data, id⟩ := fixed_words h fits tail
    have shorter : tail.length < 8 + h.numEntriesBefore.sizeInBytes := by
      simp only [size] at short
      omega
    have rest : (h.fixedBytes ++ tail).drop walHeaderFixedSize = tail :=
      List.drop_left' (length_fixedBytes h)
    unfold fromBytes
    rw [if_neg (by rw [List.length_append, length_fixedBytes]; omega)]
    simp only [version, rest, UintN.readFromSlice_short _ _ begins shorter fits.count, ne_eq,
      not_true_eq_false, if_false, Outcome.mapErr_err, Outcome.err_bind]

theorem fromReader_fixed (rest : List UInt8) :
    fromReader (h.fixedBytes ++ rest) = (do
      let (lenBuf, reader) ← readExact .sliceTooShort rest 8
      if 10 * 1024 * 1024 < decode lenBuf then .err .sliceTooShort
      else do
        let (valueBuf, reader) ← readExact .sliceTooShort reader (decode lenBuf)
        let numEntriesBefore ← (Outcome.ofExcept
          (UintN.readValueFromSlice valueBuf (decode lenBuf))).mapErr WalHeaderError.uintN
        pure ((⟨h.dataSizeBytes, h.idSizeBytes, numEntriesBefore⟩,
          walHeaderFixedSize + 8 + decode lenBuf), reader)) := by
  obtain ⟨version, data, id⟩ := fixed_words h fits []
  rw [List.append_nil] at version data id
  unfold fromReader
  rw [readExact_append' _ (length_fixedBytes h)]
  simp only [Outcome.ok_bind, version, data, id, ne_eq, not_true_eq_false, if_false]

theorem decode_count :
    decode (encode 8 h.numEntriesBefore.sizeInBytes) = h.numEntriesBefore.sizeInBytes := by
  have count := fits.count
  exact decode_encode (by norm_num; omega)

theorem fromReader_append
    (guarded : h.numEntriesBefore.sizeInBytes ≤ 10 * 1024 * 1024) (rest : List UInt8) :
    fromReader (h.writeToBytes ++ rest) = .ok ((h.stored, h.size), rest) := by
  rw [writeToBytes, UintN.writeToBuffer, List.append_assoc, List.append_assoc, fromReader_fixed h fits,
    readExact_append' _ (length_encode _ _)]
  simp only [Outcome.ok_bind, decode_count h fits]
  rw [if_neg (Nat.not_lt.mpr guarded),
    readExact_append' _ (UintN.length_writeValueToBuffer h.numEntriesBefore)]
  simp only [Outcome.ok_bind, UintN.readValueFromSlice_written, Outcome.ofExcept_ok,
    Outcome.mapErr_ok, Outcome.pure_eq_ok, stored, size]

theorem fromReader_guard
    (large : 10 * 1024 * 1024 < h.numEntriesBefore.sizeInBytes) (rest : List UInt8) :
    fromReader (h.writeToBytes ++ rest) = .err .sliceTooShort := by
  rw [writeToBytes, UintN.writeToBuffer, List.append_assoc, List.append_assoc, fromReader_fixed h fits,
    readExact_append' _ (length_encode _ _)]
  simp only [Outcome.ok_bind, decode_count h fits]
  rw [if_pos large]

theorem fromReader_short {p : List UInt8}
    (cut : p <+: h.writeToBytes) (short : p.length < h.size) :
    fromReader p = .err .sliceTooShort := by
  rcases cut_cases cut with ⟨inside, _⟩ | ⟨tail, rfl, begins⟩
  · rw [length_fixedBytes] at inside
    unfold fromReader
    rw [readExact_short _ inside, Outcome.err_bind]
  · rw [List.length_append, length_fixedBytes] at short
    rw [fromReader_fixed h fits]
    rcases cut_cases begins with ⟨inside, _⟩ | ⟨value, rfl, _⟩
    · rw [length_encode] at inside
      rw [readExact_short _ inside, Outcome.err_bind]
    · rw [readExact_append' _ (length_encode _ _)]
      simp only [Outcome.ok_bind, decode_count h fits]
      split
      · rfl
      · have shorter : value.length < h.numEntriesBefore.sizeInBytes := by
          simp only [size, List.length_append, length_encode] at short
          omega
        rw [readExact_short _ shorter, Outcome.err_bind]

end

end

variable {data : List UInt8} {h : WalHeader} {start : Nat}

section

variable (read : fromBytes data = .ok (h, start))

include read

/-- Where a header is read from a slice, its count stands behind a length. -/
theorem fromBytes_inv :
    walHeaderFixedSize ≤ data.length ∧ decode (data.take 8) = 0 ∧
      ∃ bytes rest count, data.drop walHeaderFixedSize = UintN.lengthPrefixed bytes ++ rest ∧
        8 + bytes.length < 2 ^ 64 ∧ UintN.readValueFromSlice bytes bytes.length = .ok count ∧
        h = ⟨decode ((data.drop 8).take 8), decode ((data.drop 16).take 8), count⟩ ∧
        start = walHeaderFixedSize + (8 + bytes.length) := by
  unfold fromBytes at read
  split at read
  · cases read
  · rename_i long
    dsimp only at read
    split at read
    · cases read
    · rename_i version
      obtain ⟨⟨count, bytesRead⟩, counted, returned⟩ := Outcome.bind_eq_ok.mp read
      cases returned
      obtain ⟨bytes, rest, tail, small, rfl, value⟩ := UintN.readFromSlice_inv (Outcome.mapErr_eq_ok.mp counted)
      exact ⟨Nat.le_of_not_lt long, not_not.mp version, bytes, rest, count, tail, small, value, rfl, rfl⟩

theorem fromBytes_inside : start ≤ data.length := by
  obtain ⟨long, -, bytes, rest, -, tail, -, -, -, rfl⟩ := fromBytes_inv read
  have length := congrArg List.length tail
  rw [List.length_drop, List.length_append, UintN.length_lengthPrefixed] at length
  omega

/-- A header whose count passes the guard is read alike from a slice and from a stream. -/
theorem fromReader_of_fromBytes (guarded : start ≤ walHeaderFixedSize + 8 + 10 * 1024 * 1024) :
    fromReader data = .ok ((h, start), data.drop start) := by
  obtain ⟨long, version, bytes, rest, count, tail, small, value, rfl, rfl⟩ := fromBytes_inv read
  have length : decode (encode 8 bytes.length) = bytes.length := decode_encode (by norm_num; omega)
  have field : ∀ offset width, offset + width ≤ walHeaderFixedSize →
      ((data.take walHeaderFixedSize).drop offset).take width = (data.drop offset).take width := by
    intro offset width inside
    rw [List.drop_take, List.take_take, Nat.min_eq_left (by omega)]
  have first := field 0 8 (by decide)
  rw [List.drop_zero, List.drop_zero] at first
  have after : data.drop (walHeaderFixedSize + (8 + bytes.length)) = rest := by
    rw [← List.drop_drop, tail, List.drop_left' (UintN.length_lengthPrefixed bytes)]
  rw [UintN.lengthPrefixed, List.append_assoc] at tail
  unfold fromReader
  rw [readExact, if_neg (Nat.not_lt.mpr long), Outcome.ok_bind]
  dsimp only
  rw [first, field 8 8 (by decide), field 16 8 (by decide), if_neg (not_not.mpr version), tail,
    readExact_append' _ (length_encode _ _), Outcome.ok_bind]
  dsimp only
  rw [length, if_neg (by omega), readExact_append, Outcome.ok_bind]
  dsimp only
  rw [value, Outcome.ofExcept_ok, Outcome.mapErr_ok, Outcome.ok_bind, after, Nat.add_assoc]
  rfl

end

theorem fromReader_total (reader : List UInt8) : fromReader reader ≠ .panic := by
  unfold fromReader readExact
  split
  · simp
  · simp only [Outcome.ok_bind]
    split
    · simp
    · split
      · simp
      · simp only [Outcome.ok_bind]
        split
        · simp
        · split
          · simp
          · simp only [Outcome.ok_bind]
            cases UintN.readValueFromSlice _ _ <;> simp [Outcome.ofExcept, Outcome.mapErr]

theorem canHoldEntry_iff (h : WalHeader) (id : UintN) (dataSize : Nat) :
    h.canHoldEntry id dataSize = true ↔ id.sizeInBytes ≤ h.idSizeBytes ∧
      (UintN.ofU64 (BitVec.ofNat 64 dataSize)).sizeInBytes ≤ h.dataSizeBytes := by
  simp only [canHoldEntry, UintN.canFit, Bool.and_eq_true, decide_eq_true_eq]

theorem resize_canHoldEntry (h : WalHeader) (id : UintN) (dataSize : Nat) :
    (h.resize id dataSize).canHoldEntry id dataSize = true :=
  (canHoldEntry_iff _ _ _).mpr ⟨Nat.le_max_right _ _, Nat.le_max_right _ _⟩

end WalHeader

end NormFS
