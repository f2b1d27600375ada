import NormFS.UintN.Codec
import NormFS.Wal.Entry

/-! Entry ids of the Go client. It has no variant of sixteen bytes, its big integers are written with
sixteen bytes, and it reads a number only from 1, 2, 4, 8 or 16 bytes. -/
namespace NormFS.GoClient

open LittleEndian

inductive UintN where
  | u8 (v : BitVec 8)
  | u16 (v : BitVec 16)
  | u32 (v : BitVec 32)
  | u64 (v : BitVec 64)
  | uintBig (v : Nat)
  deriving DecidableEq, Repr

structure ErrInvalidByteSliceLength where
  got : Nat
  deriving DecidableEq, Repr

namespace UintN

def toBigInt : UintN → Nat
  | u8 v => v.toNat
  | u16 v => v.toNat
  | u32 v => v.toNat
  | u64 v => v.toNat
  | uintBig v => v

/- The bytes of a big integer past the sixteenth are dropped. -/
def toLEBytes : UintN → List UInt8
  | u8 v => encode 1 v.toNat
  | u16 v => encode 2 v.toNat
  | u32 v => encode 4 v.toNat
  | u64 v => encode 8 v.toNat
  | uintBig v => (encode (byteLength v) v).take 16 ++ List.replicate (16 - byteLength v) 0

def fromLEBytes (data : List UInt8) : Except ErrInvalidByteSliceLength UintN :=
  match data.length with
  | 1 => .ok (u8 (BitVec.ofNat 8 (decode data)))
  | 2 => .ok (u16 (BitVec.ofNat 16 (decode data)))
  | 4 => .ok (u32 (BitVec.ofNat 32 (decode data)))
  | 8 => .ok (u64 (BitVec.ofNat 64 (decode data)))
  | 16 => .ok (uintBig (decode data))
  | got => .error ⟨got⟩

theorem decode_toLEBytes (id : UintN) (small : id.toBigInt < 2 ^ 128) : decode id.toLEBytes = id.toBigInt := by
  cases id with
  | u8 v | u16 v | u32 v | u64 v => exact decode_encode v.isLt
  | uintBig v =>
    have fits : byteLength v ≤ 16 := byteLength_le (by simpa [toBigInt] using small)
    rw [toLEBytes, List.take_of_length_le (by simpa using fits), decode_padded]
    exact decode_encode (lt_pow_byteLength v)

variable {data : List UInt8}

theorem toBigInt_ofNat_decode {w : Nat} (from' : BitVec (8 * w) → UintN)
    (value : ∀ v, (from' v).toBigInt = v.toNat) (width : data.length = w) :
    (from' (BitVec.ofNat (8 * w) (decode data))).toBigInt = decode data := by
  have small := decode_lt data
  rw [value, BitVec.toNat_ofNat, Nat.pow_mul]
  exact Nat.mod_eq_of_lt (width ▸ small)

theorem fromLEBytes_ok (valid : NormFS.UintN.isValidDataSize data.length = true) :
    ∃ id, fromLEBytes data = .ok id ∧ id.toBigInt = decode data := by
  unfold fromLEBytes
  split
  case h_1 width => exact ⟨_, rfl, toBigInt_ofNat_decode u8 (fun _ => rfl) width⟩
  case h_2 width => exact ⟨_, rfl, toBigInt_ofNat_decode u16 (fun _ => rfl) width⟩
  case h_3 width => exact ⟨_, rfl, toBigInt_ofNat_decode u32 (fun _ => rfl) width⟩
  case h_4 width => exact ⟨_, rfl, toBigInt_ofNat_decode u64 (fun _ => rfl) width⟩
  case h_5 => exact ⟨_, rfl, rfl⟩
  case h_6 not₁ not₂ not₄ not₈ not₁₆ =>
    simp only [NormFS.UintN.isValidDataSize, Bool.or_eq_true, beq_iff_eq] at valid
    rcases valid with (((one | two) | four) | eight) | sixteen
    · exact absurd one not₁
    · exact absurd two not₂
    · exact absurd four not₄
    · exact absurd eight not₈
    · exact absurd sixteen not₁₆

theorem fromLEBytes_error (invalid : NormFS.UintN.isValidDataSize data.length = false) :
    fromLEBytes data = .error ⟨data.length⟩ := by
  unfold fromLEBytes
  split
  case h_6 => rfl
  all_goals
    rename_i width
    rw [width] at invalid
    cases invalid

end UintN

/-- What the client makes of an id the server sends. -/
def received (id : NormFS.UintN) : Except ErrInvalidByteSliceLength Nat :=
  (UintN.fromLEBytes id.writeValueToBuffer).map UintN.toBigInt

/-- What the server makes of an id the client sends. -/
def accepted (id : UintN) : Except UintNError Nat :=
  (NormFS.UintN.readValueFromSlice id.toLEBytes id.toLEBytes.length).map NormFS.UintN.toNat

theorem received_eq (id : NormFS.UintN) :
    received id = if NormFS.UintN.isValidDataSize id.sizeInBytes then .ok id.toNat else .error ⟨id.sizeInBytes⟩ := by
  have length : id.writeValueToBuffer.length = id.sizeInBytes := NormFS.UintN.length_writeValueToBuffer id
  unfold received
  rw [← length]
  split
  · rename_i valid
    obtain ⟨got, read, value⟩ := UintN.fromLEBytes_ok valid
    rw [read, ← NormFS.UintN.decode_writeValueToBuffer id, ← value]
    rfl
  · rename_i invalid
    rw [UintN.fromLEBytes_error (Bool.eq_false_iff.mpr invalid)]
    rfl

theorem accepted_eq (id : UintN) (small : id.toBigInt < 2 ^ 128) : accepted id = .ok id.toBigInt := by
  obtain ⟨got, read, value⟩ := NormFS.UintN.readValueFromSlice_ok id.toLEBytes
  unfold accepted
  rw [read, ← UintN.decode_toLEBytes id small, ← value]
  rfl

theorem isValidDataSize_canonical {id : NormFS.UintN} (canonical : id.Canonical) (small : id.toNat < 2 ^ 128) :
    NormFS.UintN.isValidDataSize id.sizeInBytes = true := by
  cases id with
  | u8 v | u16 v | u32 v | u64 v | u128 v => rfl
  | big v => exact absurd small (Nat.not_lt.mpr canonical)

/- An id of the server reaches the client as long as it is written with 1, 2, 4, 8 or 16 bytes: always in
the variant the server prefers for it, not always as a big integer. An id of the client reaches the server
from every variant. -/
theorem ids_survive_iff (v : Nat) (small : v < 2 ^ 128) :
    (∀ id : NormFS.UintN, id.toNat = v →
      (received id = .ok v ↔ NormFS.UintN.isValidDataSize id.sizeInBytes = true)) ∧
    (∀ id : NormFS.UintN, id.toNat = v → id.Canonical → received id = .ok v) ∧
    (∀ id : UintN, id.toBigInt = v → accepted id = .ok v) := by
  refine ⟨?_, ?_, ?_⟩
  · rintro id rfl
    rw [received_eq]
    split
    · rename_i valid
      exact ⟨fun _ => valid, fun _ => rfl⟩
    · rename_i invalid
      constructor
      · intro read
        cases read
      · intro valid
        exact absurd valid invalid
  · rintro id rfl canonical
    rw [received_eq, if_pos (isValidDataSize_canonical canonical small)]
  · rintro id rfl
    exact accepted_eq id small

theorem ids_survive_of_65536 :
    received (.u32 65536) = .ok 65536 ∧ accepted (.uintBig 65536) = .ok 65536 := by
  obtain ⟨-, canonical, fromClient⟩ := ids_survive_iff 65536 (by decide)
  exact ⟨canonical (.u32 65536) rfl (show 2 ^ 16 ≤ 65536 by decide), fromClient (.uintBig 65536) rfl⟩

/- A WAL file whose header announces ids of three bytes is accepted. Its entry 65536 has a big integer for
an id, three bytes are sent for it, and the client refuses them. -/
theorem three_byte_id_refused :
    WalHeader.fromBytes (WalHeader.mk 8 3 .zero).writeToBytes = .ok (WalHeader.mk 8 3 .zero, 33) ∧
    WalEntryHeader.fromBytes (encode 8 0 ++ encode 3 65536 ++ encode 8 0 ++ encode 8 0) (WalHeader.mk 8 3 .zero) =
      .ok (WalEntryHeader.mk (.big 65536) .zero 0) ∧
    received (.big 65536) = .error ⟨3⟩ := by
  decide +kernel

end NormFS.GoClient
