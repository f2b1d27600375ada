import NormFS.Lib.Outcome
import Mathlib.Data.List.Basic
import Mathlib.Data.List.Infix

/-! A stream cut at an arbitrary position. The stream is a concatenation of blocks; a cut
leaves some number of whole blocks and a proper beginning of the next one. -/
namespace Framing

variable {ε α : Type}

/-- Takes exactly `n` items off the front of a stream, or fails. -/
def readExact (error : ε) (stream : List α) (n : Nat) : Outcome ε (List α × List α) :=
  if stream.length < n then .err error else .ok (stream.take n, stream.drop n)

theorem readExact_append (error : ε) (block rest : List α) :
    readExact error (block ++ rest) block.length = .ok (block, rest) := by
  unfold readExact
  rw [if_neg (by simp), List.take_left, List.drop_left]

variable {n : Nat}

theorem readExact_append' (error : ε) {block rest : List α} (length : block.length = n) :
    readExact error (block ++ rest) n = .ok (block, rest) :=
  length ▸ readExact_append error block rest

theorem readExact_short (error : ε) {stream : List α} (short : stream.length < n) :
    readExact error stream n = .err error := if_pos short

/-- The items from `start` up to `stop`; a range that is not inside is a panic. -/
def slice (data : List α) (start stop : Nat) : Outcome ε (List α) :=
  if start ≤ stop ∧ stop ≤ data.length then .ok ((data.drop start).take (stop - start)) else .panic

theorem slice_ok {data : List α} {start stop : Nat} (ordered : start ≤ stop) (inside : stop ≤ data.length) :
    (slice data start stop : Outcome ε (List α)) = .ok ((data.drop start).take (stop - start)) :=
  if_pos ⟨ordered, inside⟩

theorem slice_rest {data : List α} {start : Nat} (inside : start ≤ data.length) :
    (slice data start data.length : Outcome ε (List α)) = .ok (data.drop start) := by
  rw [slice_ok inside (Nat.le_refl _), List.take_of_length_le (by rw [List.length_drop])]

/-- The blocks of the given lengths that end within the first `n` items. -/
def wholeCount : List Nat → Nat → Nat
  | [], _ => 0
  | size :: sizes, n => if n < size then 0 else wholeCount sizes (n - size) + 1

theorem wholeCount_short {size : Nat} (sizes : List Nat) (short : n < size) :
    wholeCount (size :: sizes) n = 0 := if_pos short

theorem wholeCount_add (size n : Nat) (sizes : List Nat) :
    wholeCount (size :: sizes) (size + n) = wholeCount sizes n + 1 := by
  rw [wholeCount, if_neg (by omega), Nat.add_sub_cancel_left]

theorem wholeCount_le (sizes : List Nat) (n : Nat) : wholeCount sizes n ≤ sizes.length := by
  induction sizes generalizing n with
  | nil => exact Nat.le_refl 0
  | cons size sizes ih =>
    rw [wholeCount]
    split
    · exact Nat.zero_le _
    · exact Nat.succ_le_succ (ih _)

theorem wholeCount_le_length {sizes : List Nat} (positive : ∀ size ∈ sizes, 0 < size) (n : Nat) :
    wholeCount sizes n ≤ n := by
  induction sizes generalizing n with
  | nil => exact Nat.zero_le n
  | cons size sizes ih =>
    have first := positive size (by simp)
    have rest := ih (fun s member => positive s (by simp [member])) (n - size)
    rw [wholeCount]
    split <;> omega

theorem wholeCount_mono (sizes : List Nat) {m : Nat} (le : m ≤ n) : wholeCount sizes m ≤ wholeCount sizes n := by
  induction sizes generalizing m n with
  | nil => exact Nat.le_refl 0
  | cons size sizes ih =>
    have rest := ih (show m - size ≤ n - size by omega)
    rw [wholeCount, wholeCount]
    split
    · exact Nat.zero_le _
    · rw [if_neg (by omega)]
      exact Nat.succ_le_succ rest

theorem le_wholeCount {sizes : List Nat} {k : Nat} (within : k ≤ sizes.length) (reached : (sizes.take k).sum ≤ n) :
    k ≤ wholeCount sizes n := by
  induction sizes generalizing k n with
  | nil => exact within
  | cons size sizes ih =>
    cases k with
    | zero => exact Nat.zero_le _
    | succ k =>
      rw [List.take_succ_cons, List.sum_cons] at reached
      rw [wholeCount, if_neg (by omega)]
      exact Nat.succ_le_succ (ih (Nat.le_of_succ_le_succ within) (by omega))

/-- Either the cut falls inside the first block, or after it. -/
theorem cut_cases {block rest cut : List α} (begins : cut <+: block ++ rest) :
    (cut.length < block.length ∧ cut <+: block) ∨ ∃ tail, cut = block ++ tail ∧ tail <+: rest := by
  by_cases short : cut.length < block.length
  · left
    exact ⟨short, List.prefix_of_prefix_length_le begins (List.prefix_append _ _) (by omega)⟩
  · right
    have whole : block <+: cut :=
      List.prefix_of_prefix_length_le (List.prefix_append _ _) begins (by omega)
    obtain ⟨tail, rfl⟩ := whole
    exact ⟨tail, rfl, (List.prefix_append_right_inj block).mp begins⟩

end Framing
