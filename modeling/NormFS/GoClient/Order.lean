import NormFS.GoClient.UintN

/-! Comparisons of the Go client's numbers. Each type has its own methods. Against a wider type they take
shortcuts: a byte counts as less than anything wider, and 16 and 32 bits are compared in a machine word,
are never greater, and panic where the other number does not fit. -/
namespace NormFS.GoClient.UintN

inductive Err where
  | subtractionUnderflow
  | valueTooLargeForTarget
  deriving DecidableEq, Repr

def isZero : UintN → Bool
  | u8 v => v == 0
  | u16 v => v == 0
  | u32 v => v == 0
  | u64 v => v == 0
  | uintBig v => v == 0

def toU64 : UintN → Except Err (BitVec 64)
  | u8 v => .ok (v.setWidth 64)
  | u16 v => .ok (v.setWidth 64)
  | u32 v => .ok (v.setWidth 64)
  | u64 v => .ok v
  | uintBig v => if v < 2 ^ 64 then .ok (BitVec.ofNat 64 v) else .error .valueTooLargeForTarget

def toU64Must (u : UintN) : Outcome Err (BitVec 64) :=
  match u.toU64 with
  | .ok v => .ok v
  | .error _ => .panic

def fromU64 (value : BitVec 64) : UintN :=
  if value.toNat ≤ 255 then u8 (value.setWidth 8)
  else if value.toNat ≤ 65535 then u16 (value.setWidth 16)
  else if value.toNat ≤ 4294967295 then u32 (value.setWidth 32)
  else u64 value

def fromBigInt (value : Nat) : UintN :=
  if value < 2 ^ 64 then fromU64 (BitVec.ofNat 64 value) else uintBig value

/- The methods of the big integers; those of the other types call them. -/
def bigEqual (u : Nat) : UintN → Bool
  | u8 v => decide (u < 2 ^ 64) && BitVec.ofNat 64 u == v.setWidth 64
  | u16 v => decide (u < 2 ^ 64) && BitVec.ofNat 64 u == v.setWidth 64
  | u32 v => decide (u < 2 ^ 64) && BitVec.ofNat 64 u == v.setWidth 64
  | u64 v => decide (u < 2 ^ 64) && BitVec.ofNat 64 u == v
  | uintBig v => u == v

def bigLess (u : Nat) (other : UintN) : Bool := decide (u < other.toBigInt)

def bigGreater (u : Nat) (other : UintN) : Bool := decide (other.toBigInt < u)

def equal : UintN → UintN → Bool
  | u8 u, u8 v => u == v
  | u8 u, u16 v => u.setWidth 16 == v
  | u8 u, u32 v => u.setWidth 32 == v
  | u8 u, u64 v => u.setWidth 64 == v
  | u16 u, u8 v => u == v.setWidth 16
  | u16 u, u16 v => u == v
  | u16 u, u32 v => u.setWidth 32 == v
  | u16 u, u64 v => u.setWidth 64 == v
  | u32 u, u8 v => u == v.setWidth 32
  | u32 u, u16 v => u == v.setWidth 32
  | u32 u, u32 v => u == v
  | u32 u, u64 v => u.setWidth 64 == v
  | u64 u, u8 v => u == v.setWidth 64
  | u64 u, u16 v => u == v.setWidth 64
  | u64 u, u32 v => u == v.setWidth 64
  | u64 u, u64 v => u == v
  | uintBig u, other => bigEqual u other
  | self, uintBig v => bigEqual v self

def less : UintN → UintN → Outcome Err Bool
  | u8 u, u8 v => .ok (decide (u < v))
  | u8 _, _ => .ok true
  | u16 u, u8 v => .ok (decide (u < v.setWidth 16))
  | u16 u, u16 v => .ok (decide (u < v))
  | u16 u, other => do
    let v ← other.toU64Must
    pure (decide (u.setWidth 64 < v))
  | u32 u, u8 v => .ok (decide (u < v.setWidth 32))
  | u32 u, u16 v => .ok (decide (u < v.setWidth 32))
  | u32 u, u32 v => .ok (decide (u < v))
  | u32 u, other => do
    let v ← other.toU64Must
    pure (decide (u.setWidth 64 < v))
  | u64 u, u8 v => .ok (decide (u < v.setWidth 64))
  | u64 u, u16 v => .ok (decide (u < v.setWidth 64))
  | u64 u, u32 v => .ok (decide (u < v.setWidth 64))
  | u64 u, u64 v => .ok (decide (u < v))
  | u64 u, uintBig v => .ok (bigGreater v (u64 u))
  | uintBig u, other => .ok (bigLess u other)

def greater : UintN → UintN → Bool
  | u8 u, u8 v => decide (u > v)
  | u8 _, _ => false
  | u16 u, u8 v => decide (u > v.setWidth 16)
  | u16 u, u16 v => decide (u > v)
  | u16 _, _ => false
  | u32 u, u8 v => decide (u > v.setWidth 32)
  | u32 u, u16 v => decide (u > v.setWidth 32)
  | u32 u, u32 v => decide (u > v)
  | u32 _, _ => false
  | u64 u, u8 v => decide (u > v.setWidth 64)
  | u64 u, u16 v => decide (u > v.setWidth 64)
  | u64 u, u32 v => decide (u > v.setWidth 64)
  | u64 u, u64 v => decide (u > v)
  | u64 u, uintBig v => bigLess v (u64 u)
  | uintBig u, other => bigGreater u other

/- The difference of big integers is taken only after `less` has answered no. -/
def sub (a b : UintN) : Outcome Err UintN :=
  if b.isZero then .ok a
  else do
    let under ← a.less b
    if under then .err .subtractionUnderflow
    else match a.toU64, b.toU64 with
      | .ok aU64, .ok bU64 => .ok (fromU64 (aU64 - bU64))
      | _, _ => .ok (fromBigInt (a.toBigInt - b.toBigInt))

/-! What the methods compute, by the shortcut they take. -/

inductive Shortcut where
  | none
  | always
  | word

def shortcut : UintN → UintN → Shortcut
  | u8 _, u8 _ => .none
  | u8 _, _ => .always
  | u16 _, u8 _ => .none
  | u16 _, u16 _ => .none
  | u16 _, _ => .word
  | u32 _, u64 _ => .word
  | u32 _, uintBig _ => .word
  | _, _ => .none

def Shortcut.less : Shortcut → Nat → Nat → Outcome Err Bool
  | .none, x, y => .ok (decide (x < y))
  | .always, _, _ => .ok true
  | .word, x, y => if y < 2 ^ 64 then .ok (decide (x < y)) else .panic

def Shortcut.greater : Shortcut → Nat → Nat → Bool
  | .none, x, y => decide (y < x)
  | .always, _, _ => false
  | .word, _, _ => false

/-- Where a shortcut gives the order of the numbers. -/
def Shortcut.Sound : Shortcut → Nat → Nat → Prop
  | .none, _, _ => True
  | .always, x, y => x < y
  | .word, x, y => x ≤ y ∧ y < 2 ^ 64

theorem Shortcut.sound_iff (s : Shortcut) (x y : Nat) :
    s.less x y = .ok (decide (x < y)) ∧ s.greater x y = decide (y < x) ↔ s.Sound x y := by
  cases s with
  | none => simp [less, greater, Sound]
  | always =>
    simp only [less, greater, Sound, Outcome.ok.injEq, eq_comm (a := true), eq_comm (a := false),
      decide_eq_true_eq, decide_eq_false_iff_not]
    omega
  | word =>
    simp only [less, greater, Sound, eq_comm (a := false), decide_eq_false_iff_not, Nat.not_lt]
    by_cases small : y < 2 ^ 64
    · rw [if_pos small]
      exact ⟨fun ⟨_, ordered⟩ => ⟨ordered, small⟩, fun ⟨ordered, _⟩ => ⟨rfl, ordered⟩⟩
    · rw [if_neg small]
      exact ⟨fun ⟨stopped, _⟩ => absurd stopped (by simp), fun ⟨_, fits⟩ => absurd fits small⟩

theorem toU64Must_eq (u : UintN) :
    u.toU64Must = if u.toBigInt < 2 ^ 64 then .ok (BitVec.ofNat 64 u.toBigInt) else .panic := by
  cases u with
  | u8 v | u16 v | u32 v | u64 v =>
    have small := v.isLt
    rw [if_pos (by simp only [toBigInt]; omega)]
    simp [toU64Must, toU64, toBigInt]
  | uintBig v =>
    unfold toU64Must toU64 toBigInt
    by_cases small : v < 2 ^ 64
    · simp only [if_pos small]
    · simp only [if_neg small]

theorem less_word {w : Nat} (u : BitVec w) (narrow : w ≤ 64) (other : UintN) :
    (do
      let v ← other.toU64Must
      pure (decide (u.setWidth 64 < v))) = Shortcut.word.less u.toNat other.toBigInt := by
  rw [toU64Must_eq, Shortcut.less]
  by_cases small : other.toBigInt < 2 ^ 64
  · simp only [if_pos small, Outcome.ok_bind, Outcome.pure_eq_ok, BitVec.lt_def,
      NormFS.UintN.setWidth_toNat u narrow, BitVec.toNat_ofNat, Nat.mod_eq_of_lt small]
  · rw [if_neg small, if_neg small]
    rfl

/- Widening a number keeps it by computation, so only the comparisons in a machine word need an argument. -/
theorem less_eq (a b : UintN) : a.less b = (shortcut a b).less a.toBigInt b.toBigInt := by
  cases a with
  | u8 u => cases b <;> rfl
  | u16 u =>
    cases b with
    | u8 v | u16 v => rfl
    | u32 v | u64 v | uintBig v => exact less_word u (by decide) _
  | u32 u =>
    cases b with
    | u8 v | u16 v | u32 v => rfl
    | u64 v | uintBig v => exact less_word u (by decide) _
  | u64 u => cases b <;> rfl
  | uintBig u => cases b <;> rfl

theorem greater_eq (a b : UintN) : a.greater b = (shortcut a b).greater a.toBigInt b.toBigInt := by
  cases a <;> cases b <;> rfl

theorem bigEqual_iff (u : Nat) (other : UintN) : bigEqual u other = true ↔ u = other.toBigInt := by
  cases other with
  | u8 v | u16 v | u32 v | u64 v =>
    have small := v.isLt
    simp only [bigEqual, toBigInt, Bool.and_eq_true, decide_eq_true_eq, beq_iff_eq, ← BitVec.toNat_inj,
      BitVec.toNat_ofNat, BitVec.toNat_setWidth]
    omega
  | uintBig v => simp [bigEqual, toBigInt]

theorem equal_iff (a b : UintN) : a.equal b = true ↔ a.toBigInt = b.toBigInt := by
  cases a with
  | u8 u | u16 u | u32 u | u64 u =>
    have small := u.isLt
    cases b with
    | u8 v | u16 v | u32 v | u64 v =>
      have small' := v.isLt
      simp only [equal, toBigInt, beq_iff_eq, ← BitVec.toNat_inj, BitVec.toNat_setWidth]
      try omega
    | uintBig v =>
      simp only [equal, bigEqual_iff]
      exact eq_comm
  | uintBig u => cases b <;> simp only [equal, bigEqual_iff] <;> rfl

/-! The order, and subtraction, which rests on it. -/

structure OrderExact (a b : UintN) : Prop where
  equal : a.equal b = true ↔ a.toBigInt = b.toBigInt
  less : a.less b = .ok (decide (a.toBigInt < b.toBigInt))
  greater : a.greater b = decide (b.toBigInt < a.toBigInt)
  sub_ordered : b.toBigInt ≤ a.toBigInt → ∃ d, a.sub b = .ok d ∧ d.toBigInt = a.toBigInt - b.toBigInt
  sub_under : a.toBigInt < b.toBigInt → a.sub b = .err .subtractionUnderflow

theorem isZero_iff (u : UintN) : u.isZero = true ↔ u.toBigInt = 0 := by
  cases u <;> simp [isZero, toBigInt, ← BitVec.toNat_inj]

theorem toBigInt_fromU64 (v : BitVec 64) : (fromU64 v).toBigInt = v.toNat := by
  unfold fromU64
  repeat' split
  all_goals simp only [toBigInt, BitVec.toNat_setWidth]
  all_goals omega

theorem toBigInt_fromBigInt (v : Nat) : (fromBigInt v).toBigInt = v := by
  unfold fromBigInt
  split
  · rename_i small
    rw [toBigInt_fromU64, BitVec.toNat_ofNat, Nat.mod_eq_of_lt small]
  · rfl

theorem toBigInt_of_toU64 {u : UintN} {v : BitVec 64} (word : u.toU64 = .ok v) : u.toBigInt = v.toNat := by
  cases u with
  | u8 x | u16 x | u32 x | u64 x =>
    cases word
    rfl
  | uintBig x =>
    by_cases small : x < 2 ^ 64
    · rw [toU64, if_pos small] at word
      cases word
      rw [BitVec.toNat_ofNat, Nat.mod_eq_of_lt small]
      rfl
    · rw [toU64, if_neg small] at word
      cases word

theorem sub_ordered {a b : UintN} (less : a.less b = .ok (decide (a.toBigInt < b.toBigInt)))
    (ordered : b.toBigInt ≤ a.toBigInt) : ∃ d, a.sub b = .ok d ∧ d.toBigInt = a.toBigInt - b.toBigInt := by
  have answer : decide (a.toBigInt < b.toBigInt) = false := decide_eq_false (Nat.not_lt.mpr ordered)
  unfold sub
  split
  · rename_i zero
    rw [isZero_iff] at zero
    exact ⟨a, rfl, by omega⟩
  · rw [less, answer, Outcome.ok_bind, if_neg Bool.false_ne_true]
    split
    · rename_i x y wordA wordB
      have valueA := toBigInt_of_toU64 wordA
      have valueB := toBigInt_of_toU64 wordB
      refine ⟨_, rfl, ?_⟩
      rw [toBigInt_fromU64, BitVec.toNat_sub_of_le (by rw [BitVec.le_def]; omega), valueA, valueB]
    · exact ⟨_, rfl, toBigInt_fromBigInt _⟩

theorem sub_under {a b : UintN} (less : a.less b = .ok (decide (a.toBigInt < b.toBigInt)))
    (under : a.toBigInt < b.toBigInt) : a.sub b = .err .subtractionUnderflow := by
  have nonzero : ¬ b.isZero = true := by
    rw [isZero_iff]
    omega
  unfold sub
  rw [if_neg nonzero, less, decide_eq_true under, Outcome.ok_bind, if_pos rfl]

/- The methods give the order of two numbers exactly where their shortcut does: a byte against a wider
type must be the smaller number, 16 and 32 bits against a wider type must not be the larger one and the
other must fit a machine word. -/
theorem order_exact_iff (a b : UintN) : OrderExact a b ↔ (shortcut a b).Sound a.toBigInt b.toBigInt := by
  constructor
  · intro exact'
    apply ((shortcut a b).sound_iff _ _).mp
    rw [← less_eq, ← greater_eq]
    exact ⟨exact'.less, exact'.greater⟩
  · intro sound
    obtain ⟨less, greater⟩ := ((shortcut a b).sound_iff _ _).mpr sound
    rw [← less_eq] at less
    rw [← greater_eq] at greater
    exact ⟨equal_iff a b, less, greater, sub_ordered less, sub_under less⟩

/- Five against three in 16 bits; 300 against a number of 65 bits; five less five. -/
theorem order_missed : (u8 5).less (u16 3) = .ok true ∧ (u16 300).less (uintBig (2 ^ 64)) = .panic ∧
    (u8 5).sub (u16 5) = .err .subtractionUnderflow := by
  decide +kernel

end NormFS.GoClient.UintN
