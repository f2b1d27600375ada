import NormFS.UintN.Codec

/-! What the operations compute, taken together: for two values in any variants the result is the result
on the numbers. There are two exceptions. Subtraction does not compare a minuend of a wider fixed width first,
and a field of a given width takes every number that fits, but with all the bytes of its variant. -/
namespace NormFS.UintN

theorem decrement_error_iff (a : UintN) : a.decrement = .error .decrementUnderflow ↔ a.toNat = 0 := by
  constructor
  · intro refused
    by_contra nonzero
    obtain ⟨b, less, -⟩ := decrement_eq a (Nat.pos_of_ne_zero nonzero)
    rw [refused] at less
    cases less
  · intro zero
    exact if_pos ((isZero_iff a).mpr zero)

theorem Canonical.addFixed {w : Nat} {a b : BitVec w} {narrow : BitVec w → UintN} {wide : UintN}
    (hn : a.toNat + b.toNat < 2 ^ w → (narrow (a + b)).Canonical)
    (hw : 2 ^ w ≤ a.toNat + b.toNat → wide.Canonical) : (addFixed a b narrow wide).Canonical := by
  unfold UintN.addFixed
  split
  · rename_i small
    exact hn small
  · rename_i large
    exact hw (Nat.le_of_not_lt large)

variable {a b : UintN} {size : Nat}

/-- A sum is canonical where its summands are: the variant grows only when the sum leaves the narrower one. -/
theorem Canonical.add (ha : a.Canonical) (hb : b.Canonical) : (a.add b).Canonical := by
  unfold UintN.add
  split
  · exact ha
  · cases a with
    | big v => cases b <;> exact Nat.le_add_right_of_le ha
    | u8 v | u16 v | u32 v | u64 v | u128 v =>
      cases b with
      | big u => exact Nat.le_add_left_of_le hb
      | u8 u | u16 u | u32 u | u64 u | u128 u =>
        apply Canonical.addFixed
        · intro _
          first
            | trivial
            | exact canonical_ofU16 _
            | exact canonical_ofU32 _
            | exact canonical_ofU64 _
            | exact canonical_ofU128 _
        · intro large
          simpa (disch := decide) only [Canonical, toNat_add_setWidth, setWidth_toNat] using large

theorem Canonical.rem {ε : Type} {r : UintN} (divided : (a.rem b : Outcome ε UintN) = .ok r) : r.Canonical := by
  unfold UintN.rem at divided
  split at divided
  · cases divided
  · split at divided
    case h_1 =>
      cases divided
      trivial
    all_goals
      cases divided
      first
        | exact canonical_ofU16 _
        | exact canonical_ofU32 _
        | exact canonical_ofU64 _
        | exact canonical_ofU128 _
        | exact canonical_ofUbig _

theorem Canonical.shrinkToFit (a : UintN) : a.shrinkToFit.Canonical := by
  cases a with
  | u8 v => trivial
  | u16 v | u32 v | u64 v | u128 v | big v => exact canonical_ofUbig _

theorem Canonical.stepBy (canonical : a.Canonical) (step : Nat) : (a.stepBy step).Canonical :=
  canonical.add (canonical_ofU64 _)

structure OperationsExact (a b : UintN) (step : BitVec 64) : Prop where
  eq : a.eq b = true ↔ a.toNat = b.toNat
  cmp : a.cmp b = compare a.toNat b.toNat
  increment : a.increment.toNat = a.toNat + 1
  decrement_zero : a.decrement = .error .decrementUnderflow ↔ a.toNat = 0
  decrement : 0 < a.toNat → ∃ d, a.decrement = .ok d ∧ d.toNat = a.toNat - 1
  add : (a.add b).toNat = a.toNat + b.toNat
  middle : (a.middle b).toNat = (a.toNat + b.toNat) / 2
  rem : 0 < b.toNat → ∃ r, (a.rem b : Outcome UintNError UintN) = .ok r ∧ r.toNat = a.toNat % b.toNat
  shrinkToFit : a.shrinkToFit.toNat = a.toNat
  stepBy : (a.stepBy step.toNat).toNat = a.toNat + step.toNat
  inStep : b.toNat ≤ a.toNat → 1 ≤ step.toNat →
    (a.inStep b step.toNat : Outcome UintNError Bool) = .ok (decide (step.toNat ∣ a.toNat - b.toNat))

structure OperationsCanonical (a b : UintN) (step : BitVec 64) : Prop where
  increment : a.increment.Canonical
  decrement : ∀ d, a.decrement = .ok d → d.Canonical
  add : (a.add b).Canonical
  middle : (a.middle b).Canonical
  rem : ∀ r, (a.rem b : Outcome UintNError UintN) = .ok r → r.Canonical
  shrinkToFit : a.shrinkToFit.Canonical
  stepBy : (a.stepBy step.toNat).Canonical

/- Comparison, counting, addition, halving, remainders and steps are exact in every pair of variants, and
canonical operands give canonical results. -/
theorem operations_exact (a b : UintN) (step : BitVec 64) :
    OperationsExact a b step ∧ (a.Canonical → b.Canonical → OperationsCanonical a b step) := by
  constructor
  · constructor
    · exact eq_iff a b
    · exact cmp_eq a b
    · exact toNat_increment a
    · exact decrement_error_iff a
    · exact decrement_eq a
    · exact toNat_add a b
    · exact toNat_middle a b
    · exact rem_ok a b
    · exact toNat_shrinkToFit a
    · exact toNat_stepBy a step.toNat step.isLt
    · intro ordered positive
      exact inStep_ok a b step.toNat positive step.isLt ordered
  · intro ha hb
    constructor
    · exact ha.increment
    · intro d less
      exact Canonical.decrement less
    · exact ha.add hb
    · exact ha.middle hb
    · intro r divided
      exact Canonical.rem divided
    · exact Canonical.shrinkToFit a
    · exact ha.stepBy step.toNat

/-! Subtraction. -/

def fixedWidth : UintN → Option Nat
  | u8 _ => some 8
  | u16 _ => some 16
  | u32 _ => some 32
  | u64 _ => some 64
  | u128 _ => some 128
  | big _ => none

/-- Both sides have a fixed width and that of the minuend is the larger one. -/
def WiderThan (a b : UintN) : Prop := ∃ w ∈ a.fixedWidth, ∃ v ∈ b.fixedWidth, v < w

structure SubExact (a b : UintN) : Prop where
  ordered : b.toNat ≤ a.toNat → ∃ d, a.sub b = .ok d ∧ d.toNat = a.toNat - b.toNat
  refused : a.toNat < b.toNat → a.sub b = .err .decrementUnderflow

theorem sub_refused (less : a.toNat < b.toNat) (notWider : ¬ WiderThan a b) :
    a.sub b = .err .decrementUnderflow := by
  have nonzero : ¬ b.isZero = true := by
    rw [isZero_iff]
    omega
  unfold sub
  rw [if_neg nonzero]
  split
  case h_1 | h_3 | h_6 | h_10 | h_15 => exact if_neg (Nat.not_le.mpr less)
  case h_16 => exact if_pos ((lt_iff _ _).mpr less)
  all_goals exact absurd ⟨_, rfl, _, rfl, by decide⟩ notWider

theorem sub_overflows (less : a.toNat < b.toNat) (wider : WiderThan a b) : a.sub b = .panic := by
  have nonzero : ¬ b.isZero = true := by
    rw [isZero_iff]
    omega
  have under {v w : Nat} {x : BitVec w} {y : BitVec v} (narrow : v ≤ w) (less : x.toNat < y.toNat)
      (from' : BitVec w → UintN) : subWider x (y.setWidth w) from' = .panic := by
    rw [subWider, setWidth_toNat y narrow, if_neg (Nat.not_le.mpr less)]
  obtain ⟨w, ha, v, hb, narrower⟩ := wider
  unfold sub
  rw [if_neg nonzero]
  cases a with
  | big x => cases ha
  | u8 x | u16 x | u32 x | u64 x | u128 x =>
    cases ha
    cases b with
    | big y => cases hb
    | u8 y | u16 y | u32 y | u64 y | u128 y =>
      cases hb
      first
        | exact absurd narrower (by decide)
        | exact under (by decide) less _

/- Subtraction is exact or refuses, unless a smaller number is held in a wider fixed width: that pair is
subtracted without a comparison. -/
theorem sub_exact_iff (a b : UintN) : SubExact a b ↔ b.toNat ≤ a.toNat ∨ ¬ WiderThan a b := by
  constructor
  · intro exact'
    by_contra both
    rw [not_or, not_not] at both
    obtain ⟨notOrdered, wider⟩ := both
    have less := Nat.lt_of_not_le notOrdered
    have refused := exact'.refused less
    rw [sub_overflows less wider] at refused
    cases refused
  · intro either
    constructor
    · exact sub_ok a b
    · intro less
      exact sub_refused less (either.resolve_left (Nat.not_le.mpr less))

/- Three in 16 bits less five in 8 bits. -/
theorem sub_overflow_small : (u16 3).sub (u8 5) = .panic ∧ (u8 3).sub (u16 5) = .err .decrementUnderflow := by
  decide

/-! Fields of a given width. -/

theorem maxOfSize_valid (valid : isValidDataSize size = true) : maxOfSize size = .ok (256 ^ size - 1) := by
  simp only [isValidDataSize, Bool.or_eq_true, beq_iff_eq] at valid
  rcases valid with (((rfl | rfl) | rfl) | rfl) | rfl <;> rfl

theorem maxOfSize_invalid (invalid : isValidDataSize size = false) :
    maxOfSize size = .error .invalidUintNSize := by
  unfold maxOfSize
  split
  case h_6 => rfl
  all_goals exact absurd invalid (by decide)

structure FieldExact (v : UintN) (size : Nat) : Prop where
  written : ∀ bytes, v.writeValueToBufferWithSize size = .ok bytes →
    bytes.length = size ∧ ∃ read, readValueFromSlice bytes size = .ok read ∧ read.toNat = v.toNat
  fits : v.sizeInBytes ≤ size → ∃ bytes, v.writeValueToBufferWithSize size = .ok bytes

/-- A number that fits is let through with all the bytes of its variant. -/
theorem writeValueToBufferWithSize_wide {v : UintN} (wide : size < v.sizeInBytes)
    (valid : isValidDataSize size = true) (small : v.toNat < 256 ^ size) :
    v.writeValueToBufferWithSize size = .ok v.writeValueToBuffer := by
  have accepted : ¬ 256 ^ size - 1 < v.toUbig := by
    rw [toUbig_eq]
    omega
  have tail : size - v.writeValueToBuffer.length = 0 := by
    rw [length_writeValueToBuffer]
    omega
  unfold writeValueToBufferWithSize
  rw [if_pos wide, maxOfSize_valid valid]
  change (if 256 ^ size - 1 < v.toUbig then _ else _) = _
  rw [if_neg accepted, tail, List.replicate_zero, List.append_nil]
  rfl

theorem writeValueToBufferWithSize_refused {v : UintN} (wide : size < v.sizeInBytes)
    (refused : isValidDataSize size = false ∨ 256 ^ size ≤ v.toNat) :
    ∃ e, v.writeValueToBufferWithSize size = .error e := by
  unfold writeValueToBufferWithSize
  rw [if_pos wide]
  cases valid : isValidDataSize size with
  | false =>
    rw [maxOfSize_invalid valid]
    exact ⟨_, rfl⟩
  | true =>
    have large : 256 ^ size - 1 < v.toUbig := by
      have positive : 0 < 256 ^ size := Nat.pow_pos (by decide)
      have enough := refused.resolve_left (by rw [valid]; decide)
      rw [toUbig_eq]
      omega
    rw [maxOfSize_valid valid]
    change ∃ e, (if 256 ^ size - 1 < v.toUbig then _ else _) = _
    rw [if_pos large]
    exact ⟨_, rfl⟩

/- A field is exact unless the value is held in a variant wider than the field and its number fits the
field: then more bytes are written than asked for. -/
theorem exact_field_iff (v : UintN) (size : Nat) :
    FieldExact v size ↔ v.sizeInBytes ≤ size ∨ isValidDataSize size = false ∨ 256 ^ size ≤ v.toNat := by
  constructor
  · intro exact'
    by_contra neither
    rw [not_or, not_or, Bool.not_eq_false, Nat.not_le, Nat.not_le] at neither
    obtain ⟨wide, valid, small⟩ := neither
    obtain ⟨length, -⟩ := exact'.written _ (writeValueToBufferWithSize_wide wide valid small)
    rw [length_writeValueToBuffer] at length
    omega
  · intro either
    by_cases fits : v.sizeInBytes ≤ size
    · have stored := writeValueToBufferWithSize_ok v size fits
      constructor
      · intro bytes written
        obtain rfl := Except.ok.inj (stored.symm.trans written)
        exact ⟨length_padded v fits, _, readValueFromSlice_padded v fits, toNat_stored v fits⟩
      · intro _
        exact ⟨_, stored⟩
    · obtain ⟨e, refused⟩ :=
        writeValueToBufferWithSize_refused (Nat.lt_of_not_le fits) (either.resolve_left fits)
      constructor
      · intro bytes written
        rw [refused] at written
        cases written
      · intro fits'
        exact absurd fits' fits

/- Five in 16 bits, in a field of one byte. -/
theorem field_overrun : (u16 5).writeValueToBufferWithSize 1 = .ok [5, 0] := by
  decide +kernel

end NormFS.UintN
