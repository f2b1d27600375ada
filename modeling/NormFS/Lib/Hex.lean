import Mathlib.Data.List.Basic
import Mathlib.Tactic.Ring

/-! Hexadecimal text and the number it spells. -/
namespace Hex

def isDigit (c : Char) : Bool :=
  ('0' ≤ c && c ≤ '9') || ('a' ≤ c && c ≤ 'f') || ('A' ≤ c && c ≤ 'F')

def digitValue (c : Char) : Nat :=
  if '0' ≤ c && c ≤ '9' then c.toNat - '0'.toNat
  else if 'a' ≤ c && c ≤ 'f' then c.toNat - 'a'.toNat + 10
  else c.toNat - 'A'.toNat + 10

def value (text : List Char) : Nat := text.foldl (fun n c => n * 16 + digitValue c) 0

theorem foldl_eq (text : List Char) (n : Nat) :
    text.foldl (fun n c => n * 16 + digitValue c) n = n * 16 ^ text.length + value text := by
  induction text generalizing n with
  | nil => simp [value]
  | cons c text ih =>
    simp only [value, List.foldl_cons, List.length_cons] at ih ⊢
    rw [ih, ih (0 * 16 + digitValue c), Nat.pow_succ]
    ring

theorem value_append (as bs : List Char) :
    value (as ++ bs) = value as * 16 ^ bs.length + value bs := by
  rw [value, List.foldl_append, foldl_eq]
  rfl

theorem value_zeros (k : Nat) (text : List Char) : value (List.replicate k '0' ++ text) = value text := by
  have zeros : value (List.replicate k '0') = 0 := by
    induction k with
    | zero => rfl
    | succ k ih =>
      rw [List.replicate_succ', value_append, ih]
      rfl
  rw [value_append, zeros, Nat.zero_mul, Nat.zero_add]

theorem digitChar_hex : ∀ d, d < 16 →
    isDigit (Nat.digitChar d) = true ∧ digitValue (Nat.digitChar d) = d := by decide

theorem toDigits_spells (n : Nat) :
    (∀ c ∈ Nat.toDigits 16 n, isDigit c = true) ∧ value (Nat.toDigits 16 n) = n := by
  induction n using Nat.strongRecOn with
  | ind n ih =>
    by_cases small : n < 16
    · obtain ⟨digit, same⟩ := digitChar_hex n small
      rw [Nat.toDigits_of_lt_base small]
      refine ⟨?_, ?_⟩
      · intro c member
        obtain rfl : c = n.digitChar := by simpa using member
        exact digit
      · simp [value, same]
    · obtain ⟨digits, same⟩ := ih (n / 16) (by omega)
      obtain ⟨digit, last⟩ := digitChar_hex (n % 16) (Nat.mod_lt _ (by decide))
      rw [Nat.toDigits_of_base_le (by decide) (by omega)]
      refine ⟨?_, ?_⟩
      · intro c member
        rcases List.mem_append.mp member with front | back
        · exact digits c front
        · obtain rfl : c = (n % 16).digitChar := by simpa using back
          exact digit
      · rw [value_append, same]
        simp [value, last]
        omega

end Hex
