import NormFS.Lib.Framing
import NormFS.Types
import NormFS.UintN.Codec

/-! The two records in front of a store file: the signatures, and the header that says how the
content is packed and which entries it holds. Both have a version with a single value, which is
written and checked but not kept. -/
namespace NormFS

open LittleEndian Framing

inductive StoreHeaderError where
  | sliceTooShort
  | uintN (error : UintNError)
  | unsupportedVersion (version : Nat)
  | unsupportedCompression (compression : Nat)
  | unsupportedEncryption (encryption : Nat)
  | unsupportedSignature (signature : Nat)
  deriving DecidableEq, Repr

def wordAt (data : List UInt8) (offset : Nat) : Nat := decode ((data.drop offset).take 8)

theorem wordAt_append (front rest : List UInt8) {offset v : Nat} (length : front.length = offset)
    (small : v < 2 ^ 64) : wordAt (front ++ (encode 8 v ++ rest)) offset = v := by
  rw [wordAt, List.drop_left' length, List.take_left' (length_encode _ _)]
  exact decode_encode small

theorem encode_wordAt {data : List UInt8} {offset : Nat} (inside : offset + 8 ≤ data.length) :
    encode 8 (wordAt data offset) = (data.drop offset).take 8 := by
  have width : ((data.drop offset).take 8).length = 8 := by
    rw [List.length_take, List.length_drop]
    omega
  apply decode_inj
  · rw [length_encode, width]
  · have bound := decode_lt ((data.drop offset).take 8)
    rw [width] at bound
    exact decode_encode bound

inductive CompressionType where
  | none
  | gzip
  | xz
  | zstd
  deriving DecidableEq, Repr

def CompressionType.toU64 : CompressionType → Nat
  | none => 0
  | gzip => 1
  | xz => 2
  | zstd => 3

def compressionTypeFromU64 : Nat → Except StoreHeaderError CompressionType
  | 0 => .ok .none
  | 1 => .ok .gzip
  | 2 => .ok .xz
  | 3 => .ok .zstd
  | value => .error (.unsupportedCompression value)

inductive EncryptionType where
  | none
  | aes
  deriving DecidableEq, Repr

def EncryptionType.toU64 : EncryptionType → Nat
  | none => 0
  | aes => 1

def encryptionTypeFromU64 : Nat → Except StoreHeaderError EncryptionType
  | 0 => .ok .none
  | 1 => .ok .aes
  | value => .error (.unsupportedEncryption value)

@[simp] theorem compressionTypeFromU64_toU64 (c : CompressionType) :
    compressionTypeFromU64 c.toU64 = .ok c := by cases c <;> rfl

@[simp] theorem encryptionTypeFromU64_toU64 (e : EncryptionType) :
    encryptionTypeFromU64 e.toU64 = .ok e := by cases e <;> rfl

theorem compressionTypeFromU64_eq_ok {value : Nat} {c : CompressionType}
    (read : compressionTypeFromU64 value = .ok c) : value = c.toU64 := by
  unfold compressionTypeFromU64 at read
  split at read <;> cases read <;> rfl

theorem encryptionTypeFromU64_eq_ok {value : Nat} {e : EncryptionType}
    (read : encryptionTypeFromU64 value = .ok e) : value = e.toU64 := by
  unfold encryptionTypeFromU64 at read
  split at read <;> cases read <;> rfl

theorem CompressionType.toU64_lt (c : CompressionType) : c.toU64 < 2 ^ 64 := by cases c <;> decide

theorem EncryptionType.toU64_lt (e : EncryptionType) : e.toU64 < 2 ^ 64 := by cases e <;> decide

structure FileAuthentication where
  headerSignature : List UInt8
  contentSignature : List UInt8
  header_length : headerSignature.length = 64
  content_length : contentSignature.length = 64
  deriving DecidableEq

namespace FileAuthentication

def size : Nat := 152

def fromBytes (data : List UInt8) : Except StoreHeaderError (FileAuthentication × Nat) :=
  if short : data.length < size then .error .sliceTooShort
  else if wordAt data 0 ≠ 0 then .error (.unsupportedVersion (wordAt data 0))
  else if wordAt data 8 ≠ 0 then .error (.unsupportedSignature (wordAt data 8))
  else if wordAt data 80 ≠ 0 then .error (.unsupportedSignature (wordAt data 80))
  else .ok (⟨(data.drop 16).take 64, (data.drop 88).take 64,
    by simp [size] at short ⊢; omega, by simp [size] at short ⊢; omega⟩, size)

theorem fromBytes_inv {data : List UInt8} {auth : FileAuthentication} {bytesRead : Nat}
    (read : fromBytes data = .ok (auth, bytesRead)) : bytesRead = size ∧ size ≤ data.length := by
  unfold fromBytes at read
  split at read
  · cases read
  · rename_i long
    split at read
    · cases read
    · split at read
      · cases read
      · split at read
        · cases read
        · cases read
          exact ⟨rfl, Nat.le_of_not_lt long⟩

def writeToBytes (self : FileAuthentication) : List UInt8 :=
  encode 8 0 ++ encode 8 0 ++ self.headerSignature ++ encode 8 0 ++ self.contentSignature

theorem length_writeToBytes (auth : FileAuthentication) : auth.writeToBytes.length = size := by
  simp [writeToBytes, length_encode, auth.header_length, auth.content_length, size]

theorem fromBytes_append (auth : FileAuthentication) (rest : List UInt8) :
    fromBytes (auth.writeToBytes ++ rest) = .ok (auth, size) := by
  have long : ¬ (auth.writeToBytes ++ rest).length < size := by
    rw [List.length_append, length_writeToBytes]
    omega
  have whole : auth.writeToBytes ++ rest = encode 8 0 ++ (encode 8 0 ++ (auth.headerSignature ++
      (encode 8 0 ++ (auth.contentSignature ++ rest)))) := by
    simp only [writeToBytes, List.append_assoc]
  have version : wordAt (auth.writeToBytes ++ rest) 0 = 0 := by
    rw [whole]
    exact wordAt_append [] _ rfl (by decide)
  have headerType : wordAt (auth.writeToBytes ++ rest) 8 = 0 := by
    rw [whole]
    exact wordAt_append (encode 8 0) _ (length_encode _ _) (by decide)
  have contentType : wordAt (auth.writeToBytes ++ rest) 80 = 0 := by
    rw [whole, ← List.append_assoc, ← List.append_assoc]
    exact wordAt_append (encode 8 0 ++ encode 8 0 ++ auth.headerSignature) _
      (by simp [length_encode, auth.header_length]) (by decide)
  have headerSignature : ((auth.writeToBytes ++ rest).drop 16).take 64 = auth.headerSignature := by
    rw [whole, ← List.append_assoc, List.drop_left' (by simp [length_encode]),
      List.take_left' auth.header_length]
  have contentSignature : ((auth.writeToBytes ++ rest).drop 88).take 64 = auth.contentSignature := by
    rw [whole, ← List.append_assoc, ← List.append_assoc, ← List.append_assoc,
      List.drop_left' (by simp [length_encode, auth.header_length]), List.take_left' auth.content_length]
  unfold fromBytes
  rw [dif_neg long]
  simp [version, headerType, contentType, headerSignature, contentSignature]

end FileAuthentication

structure StoreHeader where
  compression : CompressionType
  encryption : EncryptionType
  numEntriesBefore : UintN
  numEntries : UintN
  deriving DecidableEq, Repr

namespace StoreHeader

def fixedSize : Nat := 24

def fromBytes (data : List UInt8) : Outcome StoreHeaderError (StoreHeader × Nat) :=
  if data.length < fixedSize then .err .sliceTooShort
  else if wordAt data 0 ≠ 0 then .err (.unsupportedVersion (wordAt data 0))
  else do
    let compression ← Outcome.ofExcept (compressionTypeFromU64 (wordAt data 8))
    let encryption ← Outcome.ofExcept (encryptionTypeFromU64 (wordAt data 16))
    let (numEntriesBefore, bytesReadBefore) ←
      (UintN.readFromSlice (data.drop fixedSize)).mapErr StoreHeaderError.uintN
    let offset := fixedSize + bytesReadBefore
    let (numEntries, bytesReadAfter) ←
      (UintN.readFromSlice (data.drop offset)).mapErr StoreHeaderError.uintN
    pure (⟨compression, encryption, numEntriesBefore, numEntries⟩, offset + bytesReadAfter)

def writeToBytes (self : StoreHeader) : List UInt8 :=
  encode 8 0 ++ encode 8 self.compression.toU64 ++ encode 8 self.encryption.toU64 ++
    self.numEntriesBefore.writeToBuffer ++ self.numEntries.writeToBuffer

def size (self : StoreHeader) : Nat :=
  fixedSize + (8 + self.numEntriesBefore.sizeInBytes) + (8 + self.numEntries.sizeInBytes)

def isEncrypted (self : StoreHeader) : Bool := self.encryption != .none

def stored (self : StoreHeader) : StoreHeader :=
  { self with
    numEntriesBefore := self.numEntriesBefore.stored self.numEntriesBefore.sizeInBytes
    numEntries := self.numEntries.stored self.numEntries.sizeInBytes }

structure Addressable (h : StoreHeader) : Prop where
  before : 8 + h.numEntriesBefore.sizeInBytes < 2 ^ 64
  count : 8 + h.numEntries.sizeInBytes < 2 ^ 64

def fixedBytes (self : StoreHeader) : List UInt8 :=
  encode 8 0 ++ encode 8 self.compression.toU64 ++ encode 8 self.encryption.toU64

section

variable (h : StoreHeader)

include h

theorem length_fixedBytes : h.fixedBytes.length = fixedSize := by
  simp [fixedBytes, length_encode, fixedSize]

theorem writeToBytes_eq :
    h.writeToBytes = h.fixedBytes ++ (h.numEntriesBefore.writeToBuffer ++ h.numEntries.writeToBuffer) := by
  simp only [writeToBytes, fixedBytes, List.append_assoc]

theorem length_writeToBytes : h.writeToBytes.length = h.size := by
  rw [writeToBytes_eq, List.length_append, List.length_append, length_fixedBytes,
    UintN.length_writeToBuffer, UintN.length_writeToBuffer, size]
  omega

theorem fromBytes_fixed (rest : List UInt8) :
    fromBytes (h.fixedBytes ++ rest) = (do
      let (numEntriesBefore, bytesReadBefore) ←
        (UintN.readFromSlice rest).mapErr StoreHeaderError.uintN
      let (numEntries, bytesReadAfter) ←
        (UintN.readFromSlice (rest.drop bytesReadBefore)).mapErr StoreHeaderError.uintN
      pure (⟨h.compression, h.encryption, numEntriesBefore, numEntries⟩,
        fixedSize + bytesReadBefore + bytesReadAfter)) := by
  have whole : h.fixedBytes ++ rest = encode 8 0 ++ (encode 8 h.compression.toU64 ++
      (encode 8 h.encryption.toU64 ++ rest)) := by
    simp only [fixedBytes, List.append_assoc]
  have version : wordAt (h.fixedBytes ++ rest) 0 = 0 := by
    rw [whole]
    exact wordAt_append [] _ rfl (by decide)
  have compression : wordAt (h.fixedBytes ++ rest) 8 = h.compression.toU64 := by
    rw [whole]
    exact wordAt_append (encode 8 0) _ (length_encode _ _) h.compression.toU64_lt
  have encryption : wordAt (h.fixedBytes ++ rest) 16 = h.encryption.toU64 := by
    rw [whole, ← List.append_assoc]
    exact wordAt_append (encode 8 0 ++ encode 8 h.compression.toU64) _ (by simp [length_encode])
      h.encryption.toU64_lt
  have long : ¬ (h.fixedBytes ++ rest).length < fixedSize := by
    rw [List.length_append, length_fixedBytes]
    omega
  have tail : ∀ k, (h.fixedBytes ++ rest).drop (fixedSize + k) = rest.drop k := by
    intro k
    rw [← List.drop_drop, List.drop_left' (length_fixedBytes h)]
  unfold fromBytes
  rw [if_neg long]
  simp only [version, compression, encryption, compressionTypeFromU64_toU64,
    encryptionTypeFromU64_toU64, Outcome.ofExcept_ok, Outcome.ok_bind, ne_eq, not_true_eq_false,
    if_false, tail, List.drop_left' (length_fixedBytes h)]

theorem fromBytes_append (fits : h.Addressable) (rest : List UInt8) :
    fromBytes (h.writeToBytes ++ rest) = .ok (h.stored, h.size) := by
  have second : (h.numEntriesBefore.writeToBuffer ++ (h.numEntries.writeToBuffer ++ rest)).drop
      (8 + h.numEntriesBefore.sizeInBytes) = h.numEntries.writeToBuffer ++ rest :=
    List.drop_left' (UintN.length_writeToBuffer _)
  rw [writeToBytes_eq, List.append_assoc, List.append_assoc, fromBytes_fixed]
  simp only [UintN.readFromSlice_append _ _ fits.before, Outcome.mapErr_ok, Outcome.ok_bind, second,
    UintN.readFromSlice_append _ rest fits.count, Outcome.pure_eq_ok]
  rfl

theorem fromBytes_counts {before count : List UInt8}
    (readBefore : UintN.readValueFromSlice before before.length = .ok h.numEntriesBefore)
    (readCount : UintN.readValueFromSlice count count.length = .ok h.numEntries)
    (fitsBefore : 8 + before.length < 2 ^ 64) (fitsCount : 8 + count.length < 2 ^ 64) (rest : List UInt8) :
    fromBytes (h.fixedBytes ++ (UintN.lengthPrefixed before ++ (UintN.lengthPrefixed count ++ rest))) =
      .ok (h, fixedSize + (8 + before.length) + (8 + count.length)) := by
  rw [fromBytes_fixed]
  simp only [UintN.readFromSlice_lengthPrefixed readBefore _ fitsBefore, Outcome.mapErr_ok, Outcome.ok_bind,
    List.drop_left' (UintN.length_lengthPrefixed before),
    UintN.readFromSlice_lengthPrefixed readCount rest fitsCount, Outcome.pure_eq_ok]

end

section

variable {bytesRead : Nat} {data : List UInt8} {h : StoreHeader} (read : fromBytes data = .ok (h, bytesRead))

include read

/-- Where a header is read, its bytes stand: three words, and two numbers behind their lengths. -/
theorem fromBytes_inv :
    ∃ before count rest,
      data = h.fixedBytes ++ (UintN.lengthPrefixed before ++ (UintN.lengthPrefixed count ++ rest)) ∧
      8 + before.length < 2 ^ 64 ∧ 8 + count.length < 2 ^ 64 ∧
      bytesRead = fixedSize + (8 + before.length) + (8 + count.length) ∧
      UintN.readValueFromSlice before before.length = .ok h.numEntriesBefore ∧
      UintN.readValueFromSlice count count.length = .ok h.numEntries := by
  unfold fromBytes at read
  split at read
  · cases read
  · rename_i long
    have enough : 24 ≤ data.length := Nat.le_of_not_lt long
    split at read
    · cases read
    · rename_i version
      obtain ⟨compression, readCompression, read⟩ := Outcome.bind_eq_ok.mp read
      obtain ⟨encryption, readEncryption, read⟩ := Outcome.bind_eq_ok.mp read
      obtain ⟨⟨numEntriesBefore, readBytes⟩, readBefore, read⟩ := Outcome.bind_eq_ok.mp read
      obtain ⟨⟨numEntries, countBytes⟩, readCount, returned⟩ := Outcome.bind_eq_ok.mp read
      cases returned
      obtain ⟨before, after, split, fitsBefore, rfl, beforeValue⟩ :=
        UintN.readFromSlice_inv (Outcome.mapErr_eq_ok.mp readBefore)
      obtain ⟨count, rest, splitAfter, fitsCount, rfl, countValue⟩ :=
        UintN.readFromSlice_inv (Outcome.mapErr_eq_ok.mp readCount)
      refine ⟨before, count, rest, ?_, fitsBefore, fitsCount, rfl, beforeValue, countValue⟩
      have words : data = encode 8 0 ++ (encode 8 compression.toU64 ++ (encode 8 encryption.toU64 ++
          data.drop fixedSize)) := by
        rw [← compressionTypeFromU64_eq_ok (Outcome.ofExcept_eq_ok.mp readCompression),
          ← encryptionTypeFromU64_eq_ok (Outcome.ofExcept_eq_ok.mp readEncryption), ← not_not.mp version,
          encode_wordAt (by omega), encode_wordAt (by omega), encode_wordAt (by omega)]
        have chunk (k : Nat) : (data.drop k).take 8 ++ data.drop (k + 8) = data.drop k := by
          rw [← List.drop_drop, List.take_append_drop]
        rw [show data.drop fixedSize = data.drop (16 + 8) from rfl, chunk, chunk, chunk, List.drop_zero]
      have next : data.drop (fixedSize + (8 + before.length)) = after := by
        rw [← List.drop_drop, split, List.drop_left' (UintN.length_lengthPrefixed before)]
      rw [next] at splitAfter
      rw [← splitAfter, ← split]
      simpa [fixedBytes] using words

/-- Only the bytes of a header count, not what stands behind them. -/
theorem fromBytes_local :
    bytesRead ≤ data.length ∧ ∀ rest, fromBytes (data.take bytesRead ++ rest) = .ok (h, bytesRead) := by
  obtain ⟨before, count, after, whole, fitsBefore, fitsCount, rfl, readBefore, readCount⟩ := fromBytes_inv read
  have length : (h.fixedBytes ++ (UintN.lengthPrefixed before ++ UintN.lengthPrefixed count)).length =
      fixedSize + (8 + before.length) + (8 + count.length) := by
    simp only [List.length_append, length_fixedBytes, UintN.length_lengthPrefixed]
    omega
  have split : data = (h.fixedBytes ++ (UintN.lengthPrefixed before ++ UintN.lengthPrefixed count)) ++ after := by
    simpa using whole
  refine ⟨?_, fun rest => ?_⟩
  · rw [split, List.length_append, length]
    omega
  · rw [split, List.take_left' length, List.append_assoc, List.append_assoc]
    exact fromBytes_counts h readBefore readCount fitsBefore fitsCount rest

end

theorem fromBytes_short (h : StoreHeader) (fits : h.Addressable) {p : List UInt8}
    (cut : p <+: h.writeToBytes) (short : p.length < h.size) : ∃ e, fromBytes p = .err e := by
  rw [writeToBytes_eq] at cut
  rcases cut_cases cut with ⟨inside, _⟩ | ⟨counts, rfl, begins⟩
  · rw [length_fixedBytes] at inside
    exact ⟨_, if_pos inside⟩
  · rw [List.length_append, length_fixedBytes, size] at short
    rw [fromBytes_fixed]
    rcases cut_cases begins with ⟨inside, first⟩ | ⟨last, rfl, second⟩
    · rw [UintN.length_writeToBuffer] at inside
      rw [UintN.readFromSlice_short _ _ first inside fits.before]
      exact ⟨_, rfl⟩
    · rw [List.length_append, UintN.length_writeToBuffer] at short
      have rest : (h.numEntriesBefore.writeToBuffer ++ last).drop
          (8 + h.numEntriesBefore.sizeInBytes) = last :=
        List.drop_left' (UintN.length_writeToBuffer _)
      simp only [UintN.readFromSlice_append _ _ fits.before, Outcome.mapErr_ok, Outcome.ok_bind, rest,
        UintN.readFromSlice_short _ _ second (show last.length < 8 + h.numEntries.sizeInBytes by omega)
          fits.count]
      exact ⟨_, rfl⟩

end StoreHeader

end NormFS
