import NormFS.Lib.Outcome
import Mathlib.Data.Nat.Log

/-! Variable-width unsigned integers. A value can be held in more than one variant,
and the variant decides the number of bytes it is written with. Equality and order
are by value. -/
namespace NormFS

inductive UintNError where
  | valueTooLarge
  | decrementUnderflow
  | sliceTooShort
  | invalidUintNSize
  | invalidHexString
  | io (message : String)
  deriving DecidableEq, Repr

inductive UintN where
  | u8 (v : BitVec 8)
  | u16 (v : BitVec 16)
  | u32 (v : BitVec 32)
  | u64 (v : BitVec 64)
  | u128 (v : BitVec 128)
  | big (v : Nat)
  deriving DecidableEq, Repr

namespace UintN

/-- The number itself, for the statements. The code has no such function. -/
def toNat : UintN → Nat
  | u8 v => v.toNat
  | u16 v => v.toNat
  | u32 v => v.toNat
  | u64 v => v.toNat
  | u128 v => v.toNat
  | big v => v

@[simp] theorem toNat_u8 (v : BitVec 8) : (u8 v).toNat = v.toNat := rfl
@[simp] theorem toNat_u16 (v : BitVec 16) : (u16 v).toNat = v.toNat := rfl
@[simp] theorem toNat_u32 (v : BitVec 32) : (u32 v).toNat = v.toNat := rfl
@[simp] theorem toNat_u64 (v : BitVec 64) : (u64 v).toNat = v.toNat := rfl
@[simp] theorem toNat_u128 (v : BitVec 128) : (u128 v).toNat = v.toNat := rfl
@[simp] theorem toNat_big (v : Nat) : (big v).toNat = v := rfl

def zero : UintN := u8 0
def one : UintN := u8 1

instance : Inhabited UintN := ⟨zero⟩

def isZero : UintN → Bool
  | u8 v => v == 0
  | u16 v => v == 0
  | u32 v => v == 0
  | u64 v => v == 0
  | u128 v => v == 0
  | big v => v == 0

def toU64 : UintN → Except UintNError (BitVec 64)
  | u8 v => .ok (v.setWidth 64)
  | u16 v => .ok (v.setWidth 64)
  | u32 v => .ok (v.setWidth 64)
  | u64 v => .ok v
  | u128 v => if v.toNat ≤ 2 ^ 64 - 1 then .ok (v.setWidth 64) else .error .valueTooLarge
  | big v => if v < 2 ^ 64 then .ok (BitVec.ofNat 64 v) else .error .valueTooLarge

def toU128 : UintN → Except UintNError (BitVec 128)
  | u8 v => .ok (v.setWidth 128)
  | u16 v => .ok (v.setWidth 128)
  | u32 v => .ok (v.setWidth 128)
  | u64 v => .ok (v.setWidth 128)
  | u128 v => .ok v
  | big v => if v < 2 ^ 128 then .ok (BitVec.ofNat 128 v) else .error .valueTooLarge

def toUbig : UintN → Nat
  | u8 v => v.toNat
  | u16 v => v.toNat
  | u32 v => v.toNat
  | u64 v => v.toNat
  | u128 v => v.toNat
  | big v => v

/- The `From` conversions pick the smallest variant. -/
def ofU8 (value : BitVec 8) : UintN := u8 value

def ofU16 (value : BitVec 16) : UintN :=
  if value.toNat ≤ 255 then u8 (value.setWidth 8) else u16 value

def ofU32 (value : BitVec 32) : UintN :=
  if value.toNat ≤ 255 then u8 (value.setWidth 8)
  else if value.toNat ≤ 65535 then u16 (value.setWidth 16) else u32 value

def ofU64 (value : BitVec 64) : UintN :=
  if value.toNat ≤ 255 then u8 (value.setWidth 8)
  else if value.toNat ≤ 65535 then u16 (value.setWidth 16)
  else if value.toNat ≤ 2 ^ 32 - 1 then u32 (value.setWidth 32) else u64 value

def ofU128 (value : BitVec 128) : UintN :=
  if value.toNat ≤ 255 then u8 (value.setWidth 8)
  else if value.toNat ≤ 65535 then u16 (value.setWidth 16)
  else if value.toNat ≤ 2 ^ 32 - 1 then u32 (value.setWidth 32)
  else if value.toNat ≤ 2 ^ 64 - 1 then u64 (value.setWidth 64) else u128 value

def ofUbig (value : Nat) : UintN :=
  if value < 2 ^ 128 then ofU128 (BitVec.ofNat 128 value) else big value

/- The comparison of a `big` side with a fixed-width side. -/
def eqThroughU128 (a b : UintN) : Bool :=
  match b.toU128 with
  | .ok bVal =>
    match a.toU128 with
    | .ok aVal => aVal == bVal
    | .error _ => false
  | .error _ => false

/- `PartialEq`: the narrower side is widened before the comparison. -/
def eq : UintN → UintN → Bool
  | u8 a, u8 b => a == b
  | u16 a, u16 b => a == b
  | u32 a, u32 b => a == b
  | u64 a, u64 b => a == b
  | u128 a, u128 b => a == b
  | big a, big b => a == b
  | u8 a, u16 b => a.setWidth 16 == b
  | u8 a, u32 b => a.setWidth 32 == b
  | u8 a, u64 b => a.setWidth 64 == b
  | u8 a, u128 b => a.setWidth 128 == b
  | u16 a, u8 b => a == b.setWidth 16
  | u16 a, u32 b => a.setWidth 32 == b
  | u16 a, u64 b => a.setWidth 64 == b
  | u16 a, u128 b => a.setWidth 128 == b
  | u32 a, u8 b => a == b.setWidth 32
  | u32 a, u16 b => a == b.setWidth 32
  | u32 a, u64 b => a.setWidth 64 == b
  | u32 a, u128 b => a.setWidth 128 == b
  | u64 a, u8 b => a == b.setWidth 64
  | u64 a, u16 b => a == b.setWidth 64
  | u64 a, u32 b => a == b.setWidth 64
  | u64 a, u128 b => a.setWidth 128 == b
  | u128 a, u8 b => a == b.setWidth 128
  | u128 a, u16 b => a == b.setWidth 128
  | u128 a, u32 b => a == b.setWidth 128
  | u128 a, u64 b => a == b.setWidth 128
  | a, b => eqThroughU128 a b

instance : BEq UintN := ⟨eq⟩

def cmpBits {w : Nat} (a b : BitVec w) : Ordering := compare a.toNat b.toNat

def cmp : UintN → UintN → Ordering
  | u8 a, u8 b => cmpBits a b
  | u8 a, u16 b => cmpBits (a.setWidth 16) b
  | u8 a, u32 b => cmpBits (a.setWidth 32) b
  | u8 a, u64 b => cmpBits (a.setWidth 64) b
  | u8 a, u128 b => cmpBits (a.setWidth 128) b
  | u16 a, u8 b => cmpBits a (b.setWidth 16)
  | u16 a, u16 b => cmpBits a b
  | u16 a, u32 b => cmpBits (a.setWidth 32) b
  | u16 a, u64 b => cmpBits (a.setWidth 64) b
  | u16 a, u128 b => cmpBits (a.setWidth 128) b
  | u32 a, u8 b => cmpBits a (b.setWidth 32)
  | u32 a, u16 b => cmpBits a (b.setWidth 32)
  | u32 a, u32 b => cmpBits a b
  | u32 a, u64 b => cmpBits (a.setWidth 64) b
  | u32 a, u128 b => cmpBits (a.setWidth 128) b
  | u64 a, u8 b => cmpBits a (b.setWidth 64)
  | u64 a, u16 b => cmpBits a (b.setWidth 64)
  | u64 a, u32 b => cmpBits a (b.setWidth 64)
  | u64 a, u64 b => cmpBits a b
  | u64 a, u128 b => cmpBits (a.setWidth 128) b
  | u128 a, u8 b => cmpBits a (b.setWidth 128)
  | u128 a, u16 b => cmpBits a (b.setWidth 128)
  | u128 a, u32 b => cmpBits a (b.setWidth 128)
  | u128 a, u64 b => cmpBits a (b.setWidth 128)
  | u128 a, u128 b => cmpBits a b
  | a, b => compare a.toUbig b.toUbig

instance : LT UintN := ⟨fun a b => a.cmp b = .lt⟩
instance : LE UintN := ⟨fun a b => a.cmp b ≠ .gt⟩
instance (a b : UintN) : Decidable (a < b) := inferInstanceAs (Decidable (a.cmp b = .lt))
instance (a b : UintN) : Decidable (a ≤ b) := inferInstanceAs (Decidable (a.cmp b ≠ .gt))

def increment : UintN → UintN
  | u8 v => if v.toNat = 255 then u16 256 else u8 (v + 1)
  | u16 v => if v.toNat = 65535 then u32 65536 else u16 (v + 1)
  | u32 v => if v.toNat = 2 ^ 32 - 1 then u64 4294967296 else u32 (v + 1)
  | u64 v => if v.toNat = 2 ^ 64 - 1 then u128 18446744073709551616 else u64 (v + 1)
  | u128 v => if v.toNat = 2 ^ 128 - 1 then big (v.toNat + 1) else u128 (v + 1)
  | big v => big (v + 1)

def decrement (self : UintN) : Except UintNError UintN :=
  if self.isZero then .error .decrementUnderflow
  else match self with
    | u8 v => .ok (ofU8 (v - 1))
    | u16 v => .ok (ofU16 (v - 1))
    | u32 v => .ok (ofU32 (v - 1))
    | u64 v => .ok (ofU64 (v - 1))
    | u128 v => .ok (ofU128 (v - 1))
    | big v => .ok (ofUbig (v - 1))

/- `checked_add`, then either the narrow result or the sum in the next variant. -/
def addFixed {w : Nat} (a b : BitVec w) (narrow : BitVec w → UintN) (wide : UintN) : UintN :=
  if a.toNat + b.toNat < 2 ^ w then narrow (a + b) else wide

def add (self other : UintN) : UintN :=
  if other.isZero then self
  else match self, other with
    | u8 a, u8 b => addFixed a b u8 (u16 (a.setWidth 16 + b.setWidth 16))
    | u8 a, u16 b | u16 b, u8 a =>
      addFixed (a.setWidth 16) b ofU16 (u32 (a.setWidth 32 + b.setWidth 32))
    | u8 a, u32 b | u32 b, u8 a =>
      addFixed (a.setWidth 32) b ofU32 (u64 (a.setWidth 64 + b.setWidth 64))
    | u8 a, u64 b | u64 b, u8 a =>
      addFixed (a.setWidth 64) b ofU64 (u128 (a.setWidth 128 + b.setWidth 128))
    | u8 a, u128 b | u128 b, u8 a =>
      addFixed (a.setWidth 128) b ofU128 (big (a.toNat + b.toNat))
    | u16 a, u16 b => addFixed a b ofU16 (u32 (a.setWidth 32 + b.setWidth 32))
    | u16 a, u32 b | u32 b, u16 a =>
      addFixed (a.setWidth 32) b ofU32 (u64 (a.setWidth 64 + b.setWidth 64))
    | u16 a, u64 b | u64 b, u16 a =>
      addFixed (a.setWidth 64) b ofU64 (u128 (a.setWidth 128 + b.setWidth 128))
    | u16 a, u128 b | u128 b, u16 a =>
      addFixed (a.setWidth 128) b ofU128 (big (a.toNat + b.toNat))
    | u32 a, u32 b => addFixed a b ofU32 (u64 (a.setWidth 64 + b.setWidth 64))
    | u32 a, u64 b | u64 b, u32 a =>
      addFixed (a.setWidth 64) b ofU64 (u128 (a.setWidth 128 + b.setWidth 128))
    | u32 a, u128 b | u128 b, u32 a =>
      addFixed (a.setWidth 128) b ofU128 (big (a.toNat + b.toNat))
    | u64 a, u64 b => addFixed a b ofU64 (u128 (a.setWidth 128 + b.setWidth 128))
    | u64 a, u128 b | u128 b, u64 a =>
      addFixed (a.setWidth 128) b ofU128 (big (a.toNat + b.toNat))
    | u128 a, u128 b => addFixed a b ofU128 (big (a.toNat + b.toNat))
    | a, b => big (a.toUbig + b.toUbig)

/- Same variants compare first; a wider minuend is assumed to be the larger number, and
its fixed-width subtraction overflows when it is not. -/
def subChecked {w : Nat} (a b : BitVec w) (from' : BitVec w → UintN) : Outcome UintNError UintN :=
  if b.toNat ≤ a.toNat then .ok (from' (a - b)) else .err .decrementUnderflow

def subWider {w : Nat} (a b : BitVec w) (from' : BitVec w → UintN) : Outcome UintNError UintN :=
  if b.toNat ≤ a.toNat then .ok (from' (a - b)) else .panic

def sub (self other : UintN) : Outcome UintNError UintN :=
  if other.isZero then .ok self
  else match self, other with
    | u8 a, u8 b => subChecked a b ofU8
    | u16 a, u8 b => subWider a (b.setWidth 16) ofU16
    | u16 a, u16 b => subChecked a b ofU16
    | u32 a, u8 b => subWider a (b.setWidth 32) ofU32
    | u32 a, u16 b => subWider a (b.setWidth 32) ofU32
    | u32 a, u32 b => subChecked a b ofU32
    | u64 a, u8 b => subWider a (b.setWidth 64) ofU64
    | u64 a, u16 b => subWider a (b.setWidth 64) ofU64
    | u64 a, u32 b => subWider a (b.setWidth 64) ofU64
    | u64 a, u64 b => subChecked a b ofU64
    | u128 a, u8 b => subWider a (b.setWidth 128) ofU128
    | u128 a, u16 b => subWider a (b.setWidth 128) ofU128
    | u128 a, u32 b => subWider a (b.setWidth 128) ofU128
    | u128 a, u64 b => subWider a (b.setWidth 128) ofU128
    | u128 a, u128 b => subChecked a b ofU128
    | a, b =>
      if a < b then .err .decrementUnderflow else .ok (ofUbig (a.toUbig - b.toUbig))

def shrinkToFit (self : UintN) : UintN :=
  match self with
  | u8 _ => self
  | _ => ofUbig self.toUbig

def middle (self other : UintN) : UintN :=
  match self, other with
  | u8 a, u8 b => u8 (((a.setWidth 16 + b.setWidth 16) / 2).setWidth 8)
  | u16 a, u16 b => u16 (((a.setWidth 32 + b.setWidth 32) / 2).setWidth 16)
  | u32 a, u32 b => u32 (((a.setWidth 64 + b.setWidth 64) / 2).setWidth 32)
  | u64 a, u64 b => u64 (((a.setWidth 128 + b.setWidth 128) / 2).setWidth 64)
  | u128 a, u128 b =>
    let half := (a.toNat + b.toNat) / 2
    if half < 2 ^ 128 then u128 (BitVec.ofNat 128 half) else big half
  | a, b => ofUbig ((a.toUbig + b.toUbig) / 2)

def rem {ε : Type} (self rhs : UintN) : Outcome ε UintN :=
  if rhs.isZero then .panic
  else match self, rhs with
    | u8 a, u8 b => .ok (ofU8 (a % b))
    | u16 a, u16 b => .ok (ofU16 (a % b))
    | u16 a, u8 b => .ok (ofU16 (a % b.setWidth 16))
    | u32 a, u32 b => .ok (ofU32 (a % b))
    | u32 a, u16 b => .ok (ofU32 (a % b.setWidth 32))
    | u32 a, u8 b => .ok (ofU32 (a % b.setWidth 32))
    | u64 a, u64 b => .ok (ofU64 (a % b))
    | u64 a, u32 b => .ok (ofU64 (a % b.setWidth 64))
    | u64 a, u16 b => .ok (ofU64 (a % b.setWidth 64))
    | u64 a, u8 b => .ok (ofU64 (a % b.setWidth 64))
    | u128 a, u128 b => .ok (ofU128 (a % b))
    | u128 a, u64 b => .ok (ofU128 (a % b.setWidth 128))
    | u128 a, u32 b => .ok (ofU128 (a % b.setWidth 128))
    | u128 a, u16 b => .ok (ofU128 (a % b.setWidth 128))
    | u128 a, u8 b => .ok (ofU128 (a % b.setWidth 128))
    | big a, big b => .ok (ofUbig (a % b))
    | a, b => .ok (ofUbig (a.toUbig % b.toUbig))

/- A step of one is answered before the comparison with `from`. -/
def inStep {ε : Type} (self from' : UintN) (step : Nat) : Outcome ε Bool :=
  if step = 1 then .ok true
  else if self < from' then .ok false
  else do
    let diff := match self.sub from' with
      | .ok d => d
      | _ => zero
    let r ← diff.rem (ofU64 (BitVec.ofNat 64 step))
    pure r.isZero

def stepBy (self : UintN) (step : Nat) : UintN := self.add (ofU64 (BitVec.ofNat 64 step))

end UintN

end NormFS
