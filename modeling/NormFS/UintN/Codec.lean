import NormFS.Lib.LittleEndian
import NormFS.UintN.Value

/-! The byte form of a `UintN`. The variant fixes the number of bytes written; the reader
is told the number of bytes and returns the number they spell, in the variant it prefers. -/
namespace NormFS.UintN

open LittleEndian

def isValidDataSize (size : Nat) : Bool :=
  size == 1 || size == 2 || size == 4 || size == 8 || size == 16

def sizeInBytes : UintN → Nat
  | u8 _ => 1
  | u16 _ => 2
  | u32 _ => 4
  | u64 _ => 8
  | u128 _ => 16
  | big v => byteLength v

def canFit (self : UintN) (numBytes : Nat) : Bool := self.sizeInBytes ≤ numBytes

/- The writers return the bytes they append to the buffer. -/
def writeValueToBuffer : UintN → List UInt8
  | u8 v => encode 1 v.toNat
  | u16 v => encode 2 v.toNat
  | u32 v => encode 4 v.toNat
  | u64 v => encode 8 v.toNat
  | u128 v => encode 16 v.toNat
  | big v => encode (byteLength v) v

def writeToBuffer (self : UintN) : List UInt8 :=
  encode 8 self.sizeInBytes ++ self.writeValueToBuffer

def maxOfSize : Nat → Except UintNError Nat
  | 1 => .ok (2 ^ 8 - 1)
  | 2 => .ok (2 ^ 16 - 1)
  | 4 => .ok (2 ^ 32 - 1)
  | 8 => .ok (2 ^ 64 - 1)
  | 16 => .ok (2 ^ 128 - 1)
  | _ => .error .invalidUintNSize

/- A value held in a variant wider than `size` whose number would fit passes the check and
is then written with all the bytes of its variant. -/
def writeValueToBufferWithSize (self : UintN) (size : Nat) : Except UintNError (List UInt8) := do
  if size < self.sizeInBytes then
    let maxVal ← maxOfSize size
    if maxVal < self.toUbig then throw .valueTooLarge
  let written := self.writeValueToBuffer
  pure (written ++ List.replicate (size - written.length) 0)

def readValueFromSlice (data : List UInt8) (size : Nat) : Except UintNError UintN :=
  if data.length < size then .error .sliceTooShort
  else match size with
    | 0 => .ok (u8 0)
    | 1 => .ok (u8 (BitVec.ofNat 8 (decode (data.take 1))))
    | 2 => if data.length = 2 then .ok (ofU16 (BitVec.ofNat 16 (decode data))) else .error .sliceTooShort
    | 4 => if data.length = 4 then .ok (ofU32 (BitVec.ofNat 32 (decode data))) else .error .sliceTooShort
    | 8 => if data.length = 8 then .ok (ofU64 (BitVec.ofNat 64 (decode data))) else .error .sliceTooShort
    | 16 =>
      if data.length = 16 then .ok (ofU128 (BitVec.ofNat 128 (decode data))) else .error .sliceTooShort
    | _ => .ok (big (decode data))

def readFromSlice (data : List UInt8) : Outcome UintNError (UintN × Nat) :=
  if data.length < 8 then .err .sliceTooShort
  else do
    let len := decode (data.take 8)
    let bytesRead ← Outcome.addUsize 8 len
    if data.length < bytesRead then .err .sliceTooShort
    else do
      let value ← Outcome.ofExcept (readValueFromSlice ((data.drop 8).take len) len)
      pure (value, bytesRead)

@[simp] theorem length_writeValueToBuffer (a : UintN) :
    a.writeValueToBuffer.length = a.sizeInBytes := by
  cases a <;> simp only [writeValueToBuffer, sizeInBytes, length_encode]

theorem decode_writeValueToBuffer (a : UintN) : decode a.writeValueToBuffer = a.toNat := by
  cases a with
  | u8 v | u16 v | u32 v | u64 v | u128 v => exact decode_encode v.isLt
  | big v => exact decode_encode (lt_pow_byteLength v)

theorem length_writeToBuffer (a : UintN) : a.writeToBuffer.length = 8 + a.sizeInBytes := by
  simp only [writeToBuffer, List.length_append, length_encode, length_writeValueToBuffer]

/-- The bytes of a value in a field of `size` bytes that is wide enough. -/
def padded (self : UintN) (size : Nat) : List UInt8 :=
  self.writeValueToBuffer ++ List.replicate (size - self.sizeInBytes) 0

theorem length_padded (a : UintN) {size : Nat} (fits : a.sizeInBytes ≤ size) :
    (a.padded size).length = size := by
  simp only [padded, List.length_append, length_writeValueToBuffer, List.length_replicate]
  omega

theorem writeValueToBufferWithSize_ok (a : UintN) (size : Nat) (fits : a.sizeInBytes ≤ size) :
    a.writeValueToBufferWithSize size = .ok (a.padded size) := by
  unfold writeValueToBufferWithSize padded
  rw [if_neg (Nat.not_lt.mpr fits), ← length_writeValueToBuffer]
  rfl

theorem ofNat_decode_toNat {w : Nat} (bs : List UInt8) (from' : BitVec (8 * w) → UintN)
    (value : ∀ v, (from' v).toNat = v.toNat) (width : bs.length = w) :
    (from' (BitVec.ofNat (8 * w) (decode bs))).toNat = decode bs := by
  have small := decode_lt bs
  rw [value, BitVec.toNat_ofNat, Nat.pow_mul]
  exact Nat.mod_eq_of_lt (width ▸ small)

theorem readValueFromSlice_ok (bs : List UInt8) :
    ∃ v, readValueFromSlice bs bs.length = .ok v ∧ v.toNat = decode bs := by
  unfold readValueFromSlice
  rw [if_neg (Nat.lt_irrefl _)]
  split
  · rename_i empty
    refine ⟨_, rfl, ?_⟩
    rw [List.length_eq_zero_iff.mp empty]
    rfl
  · rename_i width
    refine ⟨_, rfl, ?_⟩
    rw [List.take_of_length_le (by omega)]
    exact ofNat_decode_toNat bs u8 toNat_u8 width
  case h_7 => exact ⟨_, rfl, rfl⟩
  all_goals
    rename_i width
    rw [if_pos width]
    refine ⟨_, rfl, ?_⟩
  · exact ofNat_decode_toNat bs ofU16 toNat_ofU16 width
  · exact ofNat_decode_toNat bs ofU32 toNat_ofU32 width
  · exact ofNat_decode_toNat bs ofU64 toNat_ofU64 width
  · exact ofNat_decode_toNat bs ofU128 toNat_ofU128 width

/-- What a reader of a field of `size` bytes makes of a value written to it: the same number,
in the variant the reader picks for that width. -/
def stored (self : UintN) (size : Nat) : UintN :=
  match readValueFromSlice (self.padded size) size with
  | .ok v => v
  | .error _ => zero

theorem readValueFromSlice_padded (a : UintN) {size : Nat} (fits : a.sizeInBytes ≤ size) :
    readValueFromSlice (a.padded size) size = .ok (a.stored size) := by
  obtain ⟨v, read, _⟩ := readValueFromSlice_ok (a.padded size)
  rw [length_padded a fits] at read
  simp only [stored, read]

@[simp] theorem toNat_stored (a : UintN) {size : Nat} (fits : a.sizeInBytes ≤ size) :
    (a.stored size).toNat = a.toNat := by
  obtain ⟨v, read, value⟩ := readValueFromSlice_ok (a.padded size)
  rw [length_padded a fits] at read
  simp only [stored, read, value]
  rw [padded, decode_padded, decode_writeValueToBuffer]

theorem padded_self (a : UintN) : a.padded a.sizeInBytes = a.writeValueToBuffer := by
  rw [padded, Nat.sub_self, List.replicate_zero, List.append_nil]

theorem readValueFromSlice_written (a : UintN) :
    readValueFromSlice a.writeValueToBuffer a.sizeInBytes = .ok (a.stored a.sizeInBytes) := by
  rw [← padded_self, readValueFromSlice_padded a (Nat.le_refl _)]

/-- Any bytes behind their length. -/
def lengthPrefixed (bytes : List UInt8) : List UInt8 := encode 8 bytes.length ++ bytes

theorem length_lengthPrefixed (bytes : List UInt8) : (lengthPrefixed bytes).length = 8 + bytes.length := by
  simp only [lengthPrefixed, List.length_append, length_encode]

theorem writeToBuffer_eq (a : UintN) : a.writeToBuffer = lengthPrefixed a.writeValueToBuffer := by
  rw [lengthPrefixed, length_writeValueToBuffer, writeToBuffer]

variable {v : UintN}

/-- Bytes behind their length are read, whoever wrote them, and the bytes after them are left alone. -/
theorem readFromSlice_lengthPrefixed {bytes : List UInt8}
    (read : readValueFromSlice bytes bytes.length = .ok v) (rest : List UInt8)
    (addressable : 8 + bytes.length < 2 ^ 64) :
    readFromSlice (lengthPrefixed bytes ++ rest) = .ok (v, 8 + bytes.length) := by
  have size : decode (encode 8 bytes.length) = bytes.length := decode_encode (by norm_num; omega)
  have head : (lengthPrefixed bytes ++ rest).take 8 = encode 8 bytes.length := by
    rw [lengthPrefixed, List.append_assoc, List.take_left' (length_encode _ _)]
  have tail : (lengthPrefixed bytes ++ rest).drop 8 = bytes ++ rest := by
    rw [lengthPrefixed, List.append_assoc, List.drop_left' (length_encode _ _)]
  have long : ¬ (lengthPrefixed bytes ++ rest).length < 8 + bytes.length := by
    rw [List.length_append, length_lengthPrefixed]
    omega
  unfold readFromSlice
  rw [if_neg (by omega)]
  simp only [head, size, Outcome.addUsize_ok addressable, Outcome.ok_bind]
  rw [if_neg long, tail, List.take_left' rfl, read]
  rfl

theorem readFromSlice_append (a : UintN) (rest : List UInt8)
    (addressable : 8 + a.sizeInBytes < 2 ^ 64) :
    readFromSlice (a.writeToBuffer ++ rest) = .ok (a.stored a.sizeInBytes, 8 + a.sizeInBytes) := by
  have read := readValueFromSlice_written a
  rw [← length_writeValueToBuffer] at read addressable ⊢
  rw [writeToBuffer_eq, readFromSlice_lengthPrefixed read rest addressable]

theorem readFromSlice_inv {data : List UInt8} {bytesRead : Nat}
    (read : readFromSlice data = .ok (v, bytesRead)) :
    ∃ bytes rest, data = lengthPrefixed bytes ++ rest ∧ 8 + bytes.length < 2 ^ 64 ∧
      bytesRead = 8 + bytes.length ∧ readValueFromSlice bytes bytes.length = .ok v := by
  unfold readFromSlice at read
  split at read
  · cases read
  · rename_i long
    obtain ⟨total, added, read⟩ := Outcome.bind_eq_ok.mp read
    obtain ⟨addressable, rfl⟩ := Outcome.addUsize_eq_ok.mp added
    split at read
    · cases read
    · rename_i enough
      obtain ⟨value, parsed, returned⟩ := Outcome.bind_eq_ok.mp read
      cases returned
      have length : ((data.drop 8).take (decode (data.take 8))).length = decode (data.take 8) := by
        rw [List.length_take, List.length_drop]
        omega
      have head : encode 8 (decode (data.take 8)) = data.take 8 := by
        apply decode_inj
        · rw [length_encode, List.length_take]
          omega
        · exact decode_encode (by norm_num; omega)
      refine ⟨(data.drop 8).take (decode (data.take 8)), data.drop (8 + decode (data.take 8)), ?_, ?_, ?_, ?_⟩
      · rw [lengthPrefixed, length, head, List.append_assoc, ← List.drop_drop, List.take_append_drop,
          List.take_append_drop]
      · rwa [length]
      · rw [length]
      · rw [length]
        exact Outcome.ofExcept_eq_ok.mp parsed

theorem readValueFromSlice_value {bytes : List UInt8}
    (read : readValueFromSlice bytes bytes.length = .ok v) : v.toNat = decode bytes := by
  obtain ⟨other, again, value⟩ := readValueFromSlice_ok bytes
  rw [read] at again
  cases again
  exact value

/-- Any proper prefix of a written value is reported as too short. -/
theorem readFromSlice_short (a : UintN) (p : List UInt8) (cut : p <+: a.writeToBuffer)
    (shorter : p.length < 8 + a.sizeInBytes) (addressable : 8 + a.sizeInBytes < 2 ^ 64) :
    readFromSlice p = .err .sliceTooShort := by
  unfold readFromSlice
  split
  · rfl
  · rename_i long
    have head : p.take 8 = encode 8 a.sizeInBytes := by
      rw [List.prefix_iff_eq_take.mp cut, List.take_take, Nat.min_eq_left (by omega), writeToBuffer,
        List.take_left' (length_encode _ _)]
    have size : decode (encode 8 a.sizeInBytes) = a.sizeInBytes :=
      decode_encode (by norm_num; omega)
    simp only [head, size, Outcome.addUsize_ok addressable, Outcome.ok_bind]
    rw [if_pos shorter]

end NormFS.UintN
