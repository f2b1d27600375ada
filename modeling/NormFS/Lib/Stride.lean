import Mathlib.Algebra.Order.Ring.Nat
import Mathlib.Tactic.Ring

/-! Every `step`-th number from `start` on, up to a last one where there is a last one, picked out
of consecutive numbers that come in pieces. A cursor at the first wanted number of the next piece is
all that has to be carried over. -/
namespace Stride

def hit (start step : Nat) (last : Option Nat) (n : Nat) : Bool :=
  decide (start ≤ n ∧ (∀ l ∈ last, n ≤ l) ∧ step ∣ n - start)

variable {start step lo len next : Nat} {last : Option Nat}

variable {n : Nat}

theorem hit_iff :
    hit start step last n = true ↔ start ≤ n ∧ (∀ l ∈ last, n ≤ l) ∧ step ∣ n - start := by
  simp [hit]

theorem hit_limit {limit : Nat} (steps : 0 < step) (positive : 0 < limit) :
    hit start step (some (start + (limit - 1) * step)) n = true ↔ ∃ k < limit, n = start + k * step := by
  rw [hit_iff]
  constructor
  · rintro ⟨above, below, k, distance⟩
    have under := below _ rfl
    rw [Nat.mul_comm] at distance
    refine ⟨k, ?_, by omega⟩
    have bound : k * step ≤ (limit - 1) * step := by omega
    have := Nat.le_of_mul_le_mul_right bound steps
    omega
  · rintro ⟨k, small, rfl⟩
    have bound : k * step ≤ (limit - 1) * step := Nat.mul_le_mul_right _ (by omega)
    refine ⟨by omega, ?_, ?_⟩
    · rintro l ⟨⟩
      omega
    · rw [Nat.add_sub_cancel_left]
      exact Nat.dvd_mul_left step k

def picks (start step : Nat) (last : Option Nat) (lo len : Nat) : List Nat :=
  (List.range' lo len).filter (hit start step last)

theorem mem_picks :
    n ∈ picks start step last lo len ↔ (lo ≤ n ∧ n < lo + len) ∧ hit start step last n = true := by
  rw [picks, List.mem_filter, List.mem_range'_1]

theorem picks_append (start step : Nat) (last : Option Nat) (lo a b : Nat) :
    picks start step last lo (a + b) = picks start step last lo a ++ picks start step last (lo + a) b := by
  rw [picks, ← List.range'_append_1, List.filter_append]
  rfl

theorem picks_below (outside : lo + len ≤ start) : picks start step last lo len = [] := by
  rw [picks, List.filter_eq_nil_iff]
  intro n member wanted
  have inside := List.mem_range'_1.mp member
  have above := (hit_iff.mp wanted).1
  omega

theorem picks_above {l : Nat} (outside : l < lo) : picks start step (some l) lo len = [] := by
  rw [picks, List.filter_eq_nil_iff]
  intro n member wanted
  have inside := List.mem_range'_1.mp member
  have below := (hit_iff.mp wanted).2.1 l rfl
  omega

/-- `next` is wanted: the first number of all, or one less than a step behind `lo`. -/
structure Aligned (start step lo next : Nat) : Prop where
  above : start ≤ next
  whole : step ∣ next - start
  close : next = start ∨ next < lo + step

structure Cursor (start step lo next : Nat) : Prop extends Aligned start step lo next where
  reached : lo ≤ next

theorem Aligned.initial (start step lo : Nat) : Aligned start step lo start where
  above := Nat.le_refl _
  whole := by simp
  close := .inl rfl

theorem Cursor.initial (step : Nat) (reached : lo ≤ start) : Cursor start step lo start :=
  ⟨.initial start step lo, reached⟩

/-- From there on, the numbers counted from `next` are those counted from the start. -/
theorem Aligned.hit_eq (aligned : Aligned start step lo next) (from' : lo ≤ n) :
    hit next step last n = hit start step last n := by
  rw [Bool.eq_iff_iff, hit_iff, hit_iff]
  have above := aligned.above
  obtain ⟨j, ahead⟩ := aligned.whole
  constructor
  · rintro ⟨beyond, under, k, distance⟩
    refine ⟨by omega, under, j + k, ?_⟩
    rw [Nat.mul_add]
    omega
  · rintro ⟨beyond, under, k, distance⟩
    -- A wanted number below `next` is at least one step below it, and so below the piece.
    have notBelow : next ≤ n := by
      rcases aligned.close with rfl | close
      · exact beyond
      · by_contra less
        have fewer : k < j := by
          by_contra more
          have := Nat.mul_le_mul_left step (Nat.le_of_not_lt more)
          omega
        have := Nat.mul_le_mul_left step (Nat.succ_le_of_lt fewer)
        rw [Nat.mul_succ] at this
        omega
    refine ⟨notBelow, under, k - j, ?_⟩
    rw [Nat.mul_sub]
    omega

theorem Aligned.picks_eq (aligned : Aligned start step lo next) (last : Option Nat) (len : Nat) :
    picks next step last lo len = picks start step last lo len := by
  apply List.filter_congr
  intro n member
  exact aligned.hit_eq (List.mem_range'_1.mp member).1

/-- The wanted number after a piece: a step after the last one picked, if there was one. -/
def nextAfter (next step : Nat) (last : Option Nat) (lo len : Nat) : Nat :=
  ((picks next step last lo len).getLast?.map (· + step)).getD next

theorem Aligned.nextAfter (aligned : Aligned start step lo next) (last : Option Nat) (len : Nat) :
    Aligned start step (lo + len) (nextAfter next step last lo len) := by
  unfold Stride.nextAfter
  have above := aligned.above
  cases taken : (picks next step last lo len).getLast? with
  | none =>
    refine ⟨above, aligned.whole, ?_⟩
    rcases aligned.close with same | close
    · exact .inl same
    · exact .inr (Nat.lt_of_lt_of_le close (by omega))
  | some n =>
    obtain ⟨j, ahead⟩ := aligned.whole
    obtain ⟨⟨lower, upper⟩, wanted⟩ := mem_picks.mp (List.mem_of_getLast? taken)
    obtain ⟨beyond, under, k, distance⟩ := hit_iff.mp wanted
    change Aligned start step (lo + len) (n + step)
    refine ⟨by omega, ⟨j + k + 1, ?_⟩, .inr (by omega)⟩
    rw [Nat.mul_add, Nat.mul_add]
    omega

theorem after_last (steps : 0 < step) (before : ∀ l ∈ last, lo + len ≤ l)
    (taken : (picks next step last lo len).getLast? = some n) : lo + len ≤ n + step := by
  obtain ⟨⟨lower, upper⟩, wanted⟩ := mem_picks.mp (List.mem_of_getLast? taken)
  obtain ⟨beyond, under, k, distance⟩ := hit_iff.mp wanted
  -- Otherwise the next number would have been picked as well.
  by_contra inside
  have later : n + step ∈ picks next step last lo len := by
    refine mem_picks.mpr ⟨⟨by omega, by omega⟩, hit_iff.mpr ⟨by omega, ?_, k + 1, ?_⟩⟩
    · intro l some'
      have := before l some'
      omega
    · rw [Nat.mul_add]
      omega
  have sorted : (picks next step last lo len).Pairwise (· < ·) :=
    List.Pairwise.sublist List.filter_sublist List.pairwise_lt_range'
  obtain ⟨front, split⟩ := List.getLast?_eq_some_iff.mp taken
  rw [split, List.pairwise_append] at sorted
  rw [split, List.mem_append, List.mem_singleton] at later
  rcases later with early | same
  · have := sorted.2.2 _ early n (by simp)
    omega
  · omega

/-- When nothing was picked the cursor is beyond the piece. -/
theorem Cursor.after_none (cursor : Cursor start step lo next) (before : ∀ l ∈ last, lo + len ≤ l)
    (taken : (picks next step last lo len).getLast? = none) : lo + len ≤ next := by
  rw [List.getLast?_eq_none_iff] at taken
  by_contra inside
  have here : next ∈ picks next step last lo len := by
    refine mem_picks.mpr ⟨⟨cursor.reached, by omega⟩, hit_iff.mpr ⟨Nat.le_refl _, ?_, by simp⟩⟩
    intro l some'
    have := before l some'
    omega
  rw [taken] at here
  cases here

theorem Cursor.nextAfter (steps : 0 < step) (cursor : Cursor start step lo next)
    (before : ∀ l ∈ last, lo + len ≤ l) : Cursor start step (lo + len) (nextAfter next step last lo len) := by
  refine ⟨cursor.toAligned.nextAfter last len, ?_⟩
  unfold Stride.nextAfter
  cases taken : (picks next step last lo len).getLast? with
  | none => exact cursor.after_none before taken
  | some n => exact after_last steps before taken

end Stride
