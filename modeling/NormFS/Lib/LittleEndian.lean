import Mathlib.Data.Nat.Log
import Mathlib.Tactic.Ring

/-! Little-endian byte strings and the numbers they spell. The width is part of
the encoder, so a number that needs fewer bytes is padded with zero bytes. -/
namespace LittleEndian

/-- The low `width` bytes of a number, least significant first. -/
def encode : Nat → Nat → List UInt8
  | 0, _ => []
  | width + 1, n => UInt8.ofNat n :: encode width (n / 256)

def decode : List UInt8 → Nat
  | [] => 0
  | b :: bs => b.toNat + 256 * decode bs

/-- Bytes of the shortest encoding. Zero has the empty one. -/
def byteLength (n : Nat) : Nat := if n = 0 then 0 else n.log2 / 8 + 1

@[simp] theorem length_encode (width n : Nat) : (encode width n).length = width := by
  induction width generalizing n with
  | zero => rfl
  | succ width ih => simp only [encode, List.length_cons, ih]

theorem decode_encode {width n : Nat} (fits : n < 256 ^ width) : decode (encode width n) = n := by
  induction width generalizing n with
  | zero =>
    have zero : n = 0 := by simpa using fits
    simp only [encode, decode, zero]
  | succ width ih =>
    have high : n / 256 < 256 ^ width := by
      rw [Nat.pow_succ] at fits
      exact Nat.div_lt_of_lt_mul (by rwa [Nat.mul_comm])
    simp only [encode, decode, ih high, UInt8.toNat_ofNat']
    omega

theorem decode_lt (bs : List UInt8) : decode bs < 256 ^ bs.length := by
  induction bs with
  | nil => simp [decode]
  | cons b bs ih =>
    have low : b.toNat < 256 := b.toNat_lt
    simp only [decode, List.length_cons, Nat.pow_succ]
    omega

theorem decode_append (as bs : List UInt8) :
    decode (as ++ bs) = decode as + 256 ^ as.length * decode bs := by
  induction as with
  | nil => simp [decode]
  | cons a as ih =>
    simp only [List.cons_append, decode, ih, List.length_cons]
    ring

theorem decode_inj {as bs : List UInt8} (length : as.length = bs.length) (same : decode as = decode bs) :
    as = bs := by
  induction as generalizing bs with
  | nil => exact (List.eq_nil_of_length_eq_zero length.symm).symm
  | cons a as ih =>
    cases bs with
    | nil => cases length
    | cons b bs =>
      have lowA : a.toNat < 256 := a.toNat_lt
      have lowB : b.toNat < 256 := b.toNat_lt
      simp only [decode] at same
      have head : a = b := UInt8.toNat_inj.mp (by omega)
      rw [head, ih (Nat.succ.inj length) (by omega)]

theorem decode_zeros (k : Nat) : decode (List.replicate k 0) = 0 := by
  induction k with
  | zero => rfl
  | succ k ih => simp [List.replicate_succ, decode, ih]

theorem decode_padded (bs : List UInt8) (k : Nat) :
    decode (bs ++ List.replicate k 0) = decode bs := by
  simp only [decode_append, decode_zeros, Nat.mul_zero, Nat.add_zero]

theorem lt_pow_byteLength (n : Nat) : n < 256 ^ byteLength n := by
  unfold byteLength
  split
  · rename_i zero
    simp [zero]
  · have log : n < 2 ^ (n.log2 + 1) := Nat.lt_log2_self
    have grow : 2 ^ (n.log2 + 1) ≤ 2 ^ (8 * (n.log2 / 8 + 1)) :=
      Nat.pow_le_pow_right (by decide) (by omega)
    rw [Nat.pow_mul] at grow
    exact Nat.lt_of_lt_of_le log grow

/-- The shortest encoding really is one: any width that holds the number is at least as wide. -/
theorem byteLength_le {width n : Nat} (fits : n < 256 ^ width) : byteLength n ≤ width := by
  unfold byteLength
  split
  · exact Nat.zero_le _
  · rename_i nonzero
    have low : 2 ^ n.log2 ≤ n := Nat.log2_self_le nonzero
    have bound : 2 ^ n.log2 < 2 ^ (8 * width) := by
      rw [Nat.pow_mul]
      exact Nat.lt_of_le_of_lt low fits
    have exponent := (Nat.pow_lt_pow_iff_right (by decide : 1 < 2)).mp bound
    omega

theorem byteLength_pow (k : Nat) : byteLength (256 ^ k) = k + 1 := by
  apply Nat.le_antisymm
  · exact byteLength_le (Nat.pow_lt_pow_right (by decide) (Nat.lt_succ_self k))
  · have above := lt_pow_byteLength (256 ^ k)
    exact (Nat.pow_lt_pow_iff_right (by decide : 1 < 256)).mp above

end LittleEndian
