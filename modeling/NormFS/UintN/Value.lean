import NormFS.UintN.Basic

/-! Every operation of `UintN` is the same operation on the numbers held, whatever the
variants. Later modules use only these facts and never open a variant. -/
namespace NormFS.UintN

variable {v w : Nat} {a b : UintN}

theorem setWidth_toNat (x : BitVec v) (wider : v ≤ w) :
    (x.setWidth w).toNat = x.toNat := by
  have small : x.toNat < 2 ^ w :=
    Nat.lt_of_lt_of_le x.isLt (Nat.pow_le_pow_right (by decide) wider)
  rw [BitVec.toNat_setWidth, Nat.mod_eq_of_lt small]

theorem one_toNat (positive : 0 < w) : (1 : BitVec w).toNat = 1 :=
  Nat.mod_eq_of_lt (Nat.one_lt_two_pow (by omega))

theorem succ_toNat (x : BitVec w) (room : x.toNat + 1 < 2 ^ w) :
    (x + 1).toNat = x.toNat + 1 := by
  have positive : 0 < w := by
    rcases Nat.eq_zero_or_pos w with rfl | h
    · simp at room
    · exact h
  rw [BitVec.toNat_add, one_toNat positive, Nat.mod_eq_of_lt room]

theorem pred_toNat (x : BitVec w) (nonzero : 0 < x.toNat) :
    (x - 1).toNat = x.toNat - 1 := by
  have bound := x.isLt
  have positive : 0 < w := by
    rcases Nat.eq_zero_or_pos w with rfl | h
    · simp at bound
      omega
    · exact h
  rw [BitVec.toNat_sub_of_le (by rw [BitVec.le_def, one_toNat positive]; exact nonzero),
    one_toNat positive]

theorem toUbig_eq (a : UintN) : a.toUbig = a.toNat := by cases a <;> rfl

theorem isZero_iff (a : UintN) : a.isZero = true ↔ a.toNat = 0 := by
  cases a <;> simp [isZero, toNat, ← BitVec.toNat_inj]

@[simp] theorem toNat_zero : zero.toNat = 0 := rfl
@[simp] theorem toNat_one : one.toNat = 1 := rfl

@[simp] theorem toNat_ofU8 (v : BitVec 8) : (ofU8 v).toNat = v.toNat := rfl

@[simp] theorem toNat_ofU16 (v : BitVec 16) : (ofU16 v).toNat = v.toNat := by
  unfold ofU16
  split
  · simp only [toNat, BitVec.toNat_setWidth]
    omega
  · rfl

@[simp] theorem toNat_ofU32 (v : BitVec 32) : (ofU32 v).toNat = v.toNat := by
  unfold ofU32
  repeat' split
  all_goals simp only [toNat, BitVec.toNat_setWidth]
  all_goals omega

@[simp] theorem toNat_ofU64 (v : BitVec 64) : (ofU64 v).toNat = v.toNat := by
  unfold ofU64
  repeat' split
  all_goals simp only [toNat, BitVec.toNat_setWidth]
  all_goals omega

@[simp] theorem toNat_ofU128 (v : BitVec 128) : (ofU128 v).toNat = v.toNat := by
  unfold ofU128
  repeat' split
  all_goals simp only [toNat, BitVec.toNat_setWidth]
  all_goals omega

@[simp] theorem toNat_ofUbig (v : Nat) : (ofUbig v).toNat = v := by
  unfold ofUbig
  split
  · rename_i small
    rw [toNat_ofU128, BitVec.toNat_ofNat, Nat.mod_eq_of_lt small]
  · rfl

theorem toU64_ok (a : UintN) (small : a.toNat < 2 ^ 64) :
    a.toU64 = .ok (BitVec.ofNat 64 a.toNat) := by
  cases a with
  | u8 v | u16 v | u32 v | u64 v => simp [toU64, toNat]
  | u128 v =>
    simp only [toNat] at small
    rw [toU64, if_pos (Nat.le_sub_one_of_lt small)]
    rfl
  | big v => exact if_pos small

theorem toNat_of_toU64 {v : BitVec 64} (word : a.toU64 = .ok v) : a.toNat = v.toNat := by
  by_cases small : a.toNat < 2 ^ 64
  · rw [toU64_ok a small] at word
    rw [← Except.ok.inj word, BitVec.toNat_ofNat, Nat.mod_eq_of_lt small]
  · cases a with
    | u8 v | u16 v | u32 v | u64 v =>
      have bound := v.isLt
      simp only [toNat] at small
      omega
    | u128 v =>
      simp only [toNat] at small
      rw [toU64, if_neg (by omega)] at word
      cases word
    | big v =>
      simp only [toNat] at small
      rw [toU64, if_neg small] at word
      cases word

theorem toU128_ok (a : UintN) (small : a.toNat < 2 ^ 128) :
    a.toU128 = .ok (BitVec.ofNat 128 a.toNat) := by
  cases a with
  | u8 v | u16 v | u32 v | u64 v | u128 v => simp [toU128, toNat]
  | big v => exact if_pos small

theorem toU128_error (a : UintN) (large : 2 ^ 128 ≤ a.toNat) :
    a.toU128 = .error .valueTooLarge := by
  cases a with
  | u8 v | u16 v | u32 v | u64 v | u128 v =>
    have small := v.isLt
    simp only [toNat] at large
    omega
  | big v => exact if_neg (Nat.not_lt.mpr large)

theorem eqThroughU128_iff (a b : UintN) (fixed : a.toNat < 2 ^ 128 ∨ b.toNat < 2 ^ 128) :
    eqThroughU128 a b = true ↔ a.toNat = b.toNat := by
  unfold eqThroughU128
  by_cases hb : b.toNat < 2 ^ 128
  · by_cases ha : a.toNat < 2 ^ 128
    · simp only [toU128_ok b hb, toU128_ok a ha, beq_iff_eq, ← BitVec.toNat_inj,
        BitVec.toNat_ofNat, Nat.mod_eq_of_lt ha, Nat.mod_eq_of_lt hb]
    · simp only [toU128_ok b hb, toU128_error a (Nat.le_of_not_lt ha), Bool.false_eq_true,
        false_iff]
      omega
  · simp only [toU128_error b (Nat.le_of_not_lt hb), Bool.false_eq_true, false_iff]
    omega

theorem eq_iff (a b : UintN) : a.eq b = true ↔ a.toNat = b.toNat := by
  cases a with
  | u8 v | u16 v | u32 v | u64 v | u128 v =>
    have small := v.isLt
    cases b with
    | u8 u | u16 u | u32 u | u64 u | u128 u =>
      have small' := u.isLt
      simp only [eq, toNat, beq_iff_eq, ← BitVec.toNat_inj, BitVec.toNat_setWidth]
      try omega
    | big u =>
      simp only [eq]
      apply eqThroughU128_iff
      left
      simp only [toNat]
      omega
  | big v =>
    cases b with
    | u8 u | u16 u | u32 u | u64 u | u128 u =>
      have small := u.isLt
      simp only [eq]
      apply eqThroughU128_iff
      right
      simp only [toNat]
      omega
    | big u => simp [eq, toNat]

theorem beq_iff (a b : UintN) : (a == b) = true ↔ a.toNat = b.toNat := eq_iff a b

theorem cmp_eq (a b : UintN) : a.cmp b = compare a.toNat b.toNat := by
  cases a with
  | u8 v | u16 v | u32 v | u64 v | u128 v =>
    cases b with
    | u8 u | u16 u | u32 u | u64 u | u128 u =>
      simp only [cmp, cmpBits, toNat]
      try rw [setWidth_toNat _ (by decide)]
    | big u => rfl
  | big v => cases b <;> rfl

theorem lt_iff (a b : UintN) : a < b ↔ a.toNat < b.toNat := by
  change a.cmp b = .lt ↔ _
  rw [cmp_eq, Nat.compare_eq_lt]

theorem le_iff (a b : UintN) : a ≤ b ↔ a.toNat ≤ b.toNat := by
  change a.cmp b ≠ .gt ↔ _
  rw [cmp_eq, Ne, Nat.compare_eq_gt, Nat.not_lt]

@[simp] theorem toNat_increment (a : UintN) : a.increment.toNat = a.toNat + 1 := by
  cases a with
  | u8 v | u16 v | u32 v | u64 v | u128 v =>
    have small := v.isLt
    simp only [increment]
    split
    · rename_i full
      simp [toNat, full]
    · exact succ_toNat v (by omega)
  | big v => rfl

theorem decrement_eq (a : UintN) (positive : 0 < a.toNat) :
    ∃ b, a.decrement = .ok b ∧ b.toNat = a.toNat - 1 := by
  have nonzero : ¬ a.isZero = true := by rw [isZero_iff]; omega
  unfold decrement
  rw [if_neg nonzero]
  cases a with
  | u8 v | u16 v | u32 v | u64 v | u128 v =>
    refine ⟨_, rfl, ?_⟩
    simp only [toNat_ofU8, toNat_ofU16, toNat_ofU32, toNat_ofU64, toNat_ofU128]
    exact pred_toNat v positive
  | big v => exact ⟨_, rfl, toNat_ofUbig _⟩

theorem toNat_decrement (less : a.decrement = .ok b) : a.toNat = b.toNat + 1 := by
  rcases Nat.eq_zero_or_pos a.toNat with zero | positive
  · unfold decrement at less
    rw [if_pos ((isZero_iff a).mpr zero)] at less
    cases less
  · obtain ⟨c, less', value⟩ := decrement_eq a positive
    cases less.symm.trans less'
    omega

theorem toNat_addFixed (a b : BitVec w) (narrow : BitVec w → UintN) (wide : UintN)
    (hn : ∀ v, (narrow v).toNat = v.toNat) (hw : wide.toNat = a.toNat + b.toNat) :
    (addFixed a b narrow wide).toNat = a.toNat + b.toNat := by
  unfold addFixed
  split
  · rename_i small
    rw [hn, BitVec.toNat_add, Nat.mod_eq_of_lt small]
  · exact hw

theorem toNat_add_setWidth {u : Nat} (a : BitVec u) (b : BitVec v) (ha : u < w) (hb : v < w) :
    (a.setWidth w + b.setWidth w).toNat = a.toNat + b.toNat := by
  have aSmall : a.toNat < 2 ^ (w - 1) := a.isLt.trans_le (Nat.pow_le_pow_right Nat.two_pos (by omega))
  have bSmall : b.toNat < 2 ^ (w - 1) := b.isLt.trans_le (Nat.pow_le_pow_right Nat.two_pos (by omega))
  have double : 2 ^ (w - 1) * 2 = 2 ^ w := Nat.pow_pred_mul (by omega)
  rw [BitVec.toNat_add, setWidth_toNat a ha.le, setWidth_toNat b hb.le, Nat.mod_eq_of_lt (by omega)]

@[simp] theorem toNat_add (a b : UintN) : (a.add b).toNat = a.toNat + b.toNat := by
  unfold add
  split
  · rename_i zero
    rw [isZero_iff] at zero
    omega
  · split
    case h_26 => simp only [toNat_big, toUbig_eq]
    all_goals
      refine (toNat_addFixed _ _ _ _ (fun v => by simp) ?_).trans ?_
      · simp (disch := decide) only [toNat_u16, toNat_u32, toNat_u64, toNat_u128, toNat_big,
          toNat_add_setWidth, setWidth_toNat]
      · simp (disch := decide) only [toNat_u8, toNat_u16, toNat_u32, toNat_u64, toNat_u128, setWidth_toNat,
          Nat.add_comm]

theorem subChecked_ok (a b : BitVec w) (from' : BitVec w → UintN)
    (value : ∀ v, (from' v).toNat = v.toNat) (ordered : b.toNat ≤ a.toNat) :
    ∃ d, subChecked a b from' = .ok d ∧ d.toNat = a.toNat - b.toNat := by
  refine ⟨from' (a - b), if_pos ordered, ?_⟩
  rw [value, BitVec.toNat_sub_of_le ordered]

theorem subWider_ok (a : BitVec w) (b : BitVec v) (wider : v ≤ w)
    (from' : BitVec w → UintN) (value : ∀ v, (from' v).toNat = v.toNat)
    (ordered : b.toNat ≤ a.toNat) :
    ∃ d, subWider a (b.setWidth w) from' = .ok d ∧ d.toNat = a.toNat - b.toNat := by
  have same := setWidth_toNat b wider
  have ordered' : (b.setWidth w).toNat ≤ a.toNat := by omega
  refine ⟨from' (a - b.setWidth w), if_pos ordered', ?_⟩
  rw [value, BitVec.toNat_sub_of_le ordered', same]

theorem sub_ok (a b : UintN) (ordered : b.toNat ≤ a.toNat) :
    ∃ d, a.sub b = .ok d ∧ d.toNat = a.toNat - b.toNat := by
  unfold sub
  split
  · rename_i zero
    rw [isZero_iff] at zero
    exact ⟨a, rfl, by omega⟩
  · split
    case h_16 =>
      rw [if_neg (by rw [lt_iff]; omega)]
      exact ⟨_, rfl, by simp [toUbig_eq]⟩
    all_goals first
      | exact subChecked_ok _ _ _ (fun v => by simp) ordered
      | exact subWider_ok _ _ (by decide) _ (fun v => by simp) ordered

theorem subChecked_under {a b : BitVec w} (from' : BitVec w → UintN) (less : a.toNat < b.toNat)
    (d : UintN) : subChecked a b from' ≠ .ok d := by
  rw [subChecked, if_neg (Nat.not_le.mpr less)]
  rintro ⟨⟩

theorem subWider_under {a : BitVec w} {b : BitVec v} (wider : v ≤ w) (from' : BitVec w → UintN)
    (less : a.toNat < b.toNat) (d : UintN) : subWider a (b.setWidth w) from' ≠ .ok d := by
  rw [subWider, if_neg (by rw [setWidth_toNat b wider]; exact Nat.not_le.mpr less)]
  rintro ⟨⟩

/-- Subtraction of a larger number never returns. -/
theorem sub_under (less : a.toNat < b.toNat) (d : UintN) : a.sub b ≠ .ok d := by
  unfold sub
  split
  · rename_i zero
    rw [isZero_iff] at zero
    omega
  · split
    case h_16 =>
      rw [if_pos (by rwa [lt_iff])]
      rintro ⟨⟩
    all_goals first
      | exact subChecked_under _ less d
      | exact subWider_under (by decide) _ less d

@[simp] theorem toNat_shrinkToFit (a : UintN) : a.shrinkToFit.toNat = a.toNat := by
  cases a <;> simp [shrinkToFit, toUbig_eq]

theorem toNat_middle (a b : UintN) : (a.middle b).toNat = (a.toNat + b.toNat) / 2 := by
  unfold middle
  split
  case h_6 => simp [toUbig_eq]
  case h_5 v u =>
    have hv := v.isLt
    have hu := u.isLt
    dsimp only
    split
    · simp only [toNat_u128, BitVec.toNat_ofNat]
      omega
    · simp
  all_goals
    simp
    omega

theorem rem_ok {ε : Type} (a b : UintN) (nonzero : 0 < b.toNat) :
    ∃ r, (a.rem b : Outcome ε UintN) = .ok r ∧ r.toNat = a.toNat % b.toNat := by
  unfold rem
  rw [if_neg (by rw [isZero_iff]; omega)]
  split
  case h_17 => exact ⟨_, rfl, by simp [toUbig_eq]⟩
  all_goals
    refine ⟨_, rfl, ?_⟩
    simp [-BitVec.toNat_setWidth, setWidth_toNat]

/-- The numbers a subscriber asking for every `step`-th entry from `from'` on wants. -/
theorem inStep_ok {ε : Type} (a from' : UintN) (step : Nat) (positive : 0 < step)
    (word : step < 2 ^ 64) (ordered : from'.toNat ≤ a.toNat) :
    (a.inStep from' step : Outcome ε Bool) = .ok (decide (step ∣ a.toNat - from'.toNat)) := by
  unfold inStep
  by_cases single : step = 1
  · subst single
    simp
  · obtain ⟨d, hd, value⟩ := sub_ok a from' ordered
    have width : (ofU64 (BitVec.ofNat 64 step)).toNat = step := by
      rw [toNat_ofU64, BitVec.toNat_ofNat, Nat.mod_eq_of_lt word]
    obtain ⟨r, hr, remainder⟩ := rem_ok (ε := ε) d (ofU64 (BitVec.ofNat 64 step)) (by omega)
    rw [if_neg single, if_neg (by rw [lt_iff]; omega)]
    simp only [hd, hr, Outcome.ok_bind, Outcome.pure_eq_ok, Outcome.ok.injEq]
    rw [Bool.eq_iff_iff, isZero_iff, decide_eq_true_iff, remainder, width, value,
      Nat.dvd_iff_mod_eq_zero]

theorem toNat_stepBy (a : UintN) (step : Nat) (word : step < 2 ^ 64) :
    (a.stepBy step).toNat = a.toNat + step := by
  rw [stepBy, toNat_add, toNat_ofU64, BitVec.toNat_ofNat, Nat.mod_eq_of_lt word]

/-- A value in the smallest variant that holds it. File keys are derived from the bytes of the
variant, so for them two variants of one number are different. -/
def Canonical : UintN → Prop
  | u8 _ => True
  | u16 v => 2 ^ 8 ≤ v.toNat
  | u32 v => 2 ^ 16 ≤ v.toNat
  | u64 v => 2 ^ 32 ≤ v.toNat
  | u128 v => 2 ^ 64 ≤ v.toNat
  | big v => 2 ^ 128 ≤ v

theorem canonical_ofU16 (v : BitVec 16) : (ofU16 v).Canonical := by
  unfold ofU16
  split
  · trivial
  · simp only [Canonical]
    omega

theorem canonical_ofU32 (v : BitVec 32) : (ofU32 v).Canonical := by
  unfold ofU32
  split
  · trivial
  split <;> simp only [Canonical, BitVec.toNat_setWidth] <;> omega

theorem canonical_ofU64 (v : BitVec 64) : (ofU64 v).Canonical := by
  unfold ofU64
  split
  · trivial
  split
  · simp only [Canonical, BitVec.toNat_setWidth]
    omega
  split <;> simp only [Canonical, BitVec.toNat_setWidth] <;> omega

theorem canonical_ofU128 (v : BitVec 128) : (ofU128 v).Canonical := by
  unfold ofU128
  split
  · trivial
  split
  · simp only [Canonical, BitVec.toNat_setWidth]
    omega
  split
  · simp only [Canonical, BitVec.toNat_setWidth]
    omega
  split <;> simp only [Canonical, BitVec.toNat_setWidth] <;> omega

theorem canonical_ofUbig (n : Nat) : (ofUbig n).Canonical := by
  unfold ofUbig
  split
  · exact canonical_ofU128 _
  · simp only [Canonical]
    omega

theorem Canonical.ext (ha : a.Canonical) (hb : b.Canonical) (same : a.toNat = b.toNat) :
    a = b := by
  cases a <;> cases b <;> simp only [Canonical, toNat] at ha hb same
  case u8.u8 | u16.u16 | u32.u32 | u64.u64 | u128.u128 => rw [BitVec.eq_of_toNat_eq same]
  case big.big => rw [same]
  all_goals omega

theorem Canonical.eq_ofUbig (canonical : a.Canonical) : a = ofUbig a.toNat :=
  canonical.ext (canonical_ofUbig _) (by simp)

theorem Canonical.increment (canonical : a.Canonical) : a.increment.Canonical := by
  have value := toNat_increment a
  cases a with
  | u8 v | u16 v | u32 v | u64 v | u128 v =>
    simp only [UintN.increment] at value ⊢
    split
    · rename_i full
      simp [Canonical, full]
    · rename_i room
      simp only [if_neg room, toNat] at value
      simp only [Canonical, value] at canonical ⊢
      try omega
  | big v =>
    simp only [Canonical, UintN.increment] at canonical ⊢
    omega

theorem Canonical.decrement (less : a.decrement = .ok b) : b.Canonical := by
  unfold UintN.decrement at less
  split at less
  · cases less
  · cases a with
    | u8 v => cases less; trivial
    | u16 v => cases less; exact canonical_ofU16 _
    | u32 v => cases less; exact canonical_ofU32 _
    | u64 v => cases less; exact canonical_ofU64 _
    | u128 v => cases less; exact canonical_ofU128 _
    | big v => cases less; exact canonical_ofUbig _

theorem Canonical.middle (ha : a.Canonical) (hb : b.Canonical) :
    (a.middle b).Canonical := by
  have value := toNat_middle a b
  cases a <;> cases b <;> try exact canonical_ofUbig _
  case u8.u8 => trivial
  case u16.u16 | u32.u32 | u64.u64 =>
    simp only [UintN.middle, toNat] at value
    simp only [Canonical, UintN.middle, value] at ha hb ⊢
    omega
  case u128.u128 a b =>
    simp only [UintN.middle] at value ⊢
    split at value
    · rename_i small
      rw [if_pos small]
      simp only [toNat] at value
      simp only [Canonical, value] at ha hb ⊢
      omega
    · rename_i large
      rw [if_neg large]
      simp only [Canonical] at ha hb ⊢
      omega

end NormFS.UintN
