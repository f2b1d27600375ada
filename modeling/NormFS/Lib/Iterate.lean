import Mathlib.Data.Option.Basic

/-! A machine that goes on by itself until it stops. -/
namespace Iterate

variable {σ : Type*} (next : σ → Option σ)

/-- The state after some steps, `none` when the machine has stopped before. -/
def after : Nat → σ → Option σ
  | 0, s => some s
  | n + 1, s => (next s).bind (after n)

variable {next}

variable {n : Nat} {s final : σ} {inv : σ → Prop}

theorem after_succ :
    after next (n + 1) s = some final ↔ ∃ middle, next s = some middle ∧ after next n middle = some final :=
  Option.bind_eq_some_iff

theorem after_add {m : Nat} {middle : σ} (first : after next n s = some middle)
    (second : after next m middle = some final) : after next (n + m) s = some final := by
  induction n generalizing s with
  | zero =>
    cases first
    rwa [Nat.zero_add]
  | succ n ih =>
    obtain ⟨t, moved, came⟩ := after_succ.mp first
    rw [Nat.succ_add]
    exact after_succ.mpr ⟨t, moved, ih came⟩

theorem after_stopped {m : Nat} (stopped : after next n s = none) (le : n ≤ m) :
    after next m s = none := by
  induction n generalizing s m with
  | zero => cases stopped
  | succ n ih =>
    obtain ⟨m, rfl⟩ := Nat.exists_eq_add_one_of_ne_zero (show m ≠ 0 by omega)
    cases moved : next s with
    | none => rw [after, moved, Option.bind_none]
    | some t =>
      rw [after, moved, Option.bind_some] at stopped ⊢
      exact ih stopped (by omega)

theorem after_invariant {inv : σ → Prop} (keeps : ∀ s t, inv s → next s = some t → inv t) {s final : σ}
    (start : inv s) (came : after next n s = some final) : inv final := by
  induction n generalizing s with
  | zero =>
    cases came
    exact start
  | succ n ih =>
    obtain ⟨middle, moved, later⟩ := after_succ.mp came
    exact ih (keeps s middle start moved) later

def Always (next : σ → Option σ) (good : σ → Prop) (s : σ) : Prop :=
  ∀ n t, after next n s = some t → good t

theorem always_iff {good : σ → Prop} :
    Always next good s ↔ good s ∧ ∀ t, next s = some t → Always next good t := by
  constructor
  · intro always
    refine ⟨always 0 s rfl, ?_⟩
    intro t moved n u came
    exact always (n + 1) u (after_succ.mpr ⟨t, moved, came⟩)
  · rintro ⟨here, later⟩ n u came
    cases n with
    | zero =>
      cases came
      exact here
    | succ n =>
      obtain ⟨t, moved, came⟩ := after_succ.mp came
      exact later t moved n u came

/-- A machine whose every step lowers a measure stops before it has made more steps than that. -/
theorem after_measure {measure : σ → Nat}
    (lowers : ∀ s t, inv s → next s = some t → inv t ∧ measure t < measure s) (start : inv s) :
    after next (measure s + 1) s = none := by
  induction left : measure s using Nat.strongRecOn generalizing s with
  | ind left ih =>
    cases moved : next s with
    | none => rw [after, moved, Option.bind_none]
    | some t =>
      obtain ⟨still, less⟩ := lowers s t start moved
      have stopped := ih (measure t) (by omega) still rfl
      rw [after, moved, Option.bind_some, after_stopped stopped (by omega)]

variable (next) in
/-- The state in which the machine stops, or the one it has reached when the fuel is used up. -/
def finish : Nat → σ → σ
  | 0, s => s
  | fuel + 1, s =>
    match next s with
    | none => s
    | some t => finish fuel t

theorem finish_invariant (keeps : ∀ s t, inv s → next s = some t → inv t) (start : inv s)
    (fuel : Nat) : inv (finish next fuel s) := by
  induction fuel generalizing s with
  | zero => exact start
  | succ fuel ih =>
    rw [finish]
    split
    · exact start
    · rename_i t moved
      exact ih (keeps s t start moved)

/-- Fuel for as many steps as the measure is enough. -/
theorem finish_stopped {measure : σ → Nat}
    (lowers : ∀ s t, inv s → next s = some t → inv t ∧ measure t < measure s) (start : inv s) {fuel : Nat}
    (enough : measure s ≤ fuel) : next (finish next fuel s) = none := by
  induction fuel generalizing s with
  | zero =>
    cases moved : next s with
    | none => exact moved
    | some t =>
      have less := (lowers s t start moved).2
      omega
  | succ fuel ih =>
    rw [finish]
    split
    · assumption
    · rename_i t moved
      obtain ⟨still, less⟩ := lowers s t start moved
      exact ih still (by omega)

end Iterate
