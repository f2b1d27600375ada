import NormFS.Lib.Iterate

/-! A machine that does in one step what another one does in several. Seen through a view they show the
same, and they stop in related states. -/
namespace Iterate

variable {σ τ ν : Type*}

/-- The machine goes on to `final` in one or more steps and shows what `final` shows after each of them. -/
inductive Glides (next : τ → Option τ) (view : τ → ν) (final : τ) : τ → Prop
  | once {t : τ} (moved : next t = some final) : Glides next view final t
  | more {t u : τ} (moved : next t = some u) (shows : view u = view final) (later : Glides next view final u) :
    Glides next view final t

/-- Every step of the first machine is a glide of the second, and where the first one stops so does the
second, as long as the first is in a good state. -/
structure Simulates (first : σ → Option σ) (second : τ → Option τ) (view : σ → ν) (view' : τ → ν)
    (good : σ → Prop) (related : σ → τ → Prop) : Prop where
  shows : ∀ s t, related s t → view s = view' t
  moves : ∀ s t s', related s t → good s → first s = some s' → ∃ t', Glides second view' t' t ∧ related s' t'
  stops : ∀ s t, related s t → good s → first s = none → second t = none

section Glides

variable {next : τ → Option τ} {view : τ → ν} {final t u : τ}

theorem Glides.ne_none (glides : Glides next view final t) : next t ≠ none := by
  cases glides with
  | once moved => simp [moved]
  | more moved _ _ => simp [moved]

theorem Glides.after (glides : Glides next view final t) : ∃ n, after next n t = some final := by
  induction glides with
  | once moved => exact ⟨1, after_succ.mpr ⟨final, moved, rfl⟩⟩
  | more moved _ _ ih =>
    obtain ⟨n, came⟩ := ih
    exact ⟨n + 1, after_succ.mpr ⟨_, moved, came⟩⟩

theorem Glides.between (glides : Glides next view final t) {n : Nat} (came : Iterate.after next (n + 1) t = some u) :
    (view u = view final ∧ next u ≠ none) ∨ ∃ m ≤ n, Iterate.after next m final = some u := by
  induction glides generalizing n with
  | once moved =>
    obtain ⟨v, moved', came⟩ := after_succ.mp came
    rw [moved] at moved'
    cases moved'
    exact .inr ⟨n, Nat.le_refl _, came⟩
  | more moved shows later ih =>
    obtain ⟨v, moved', came⟩ := after_succ.mp came
    rw [moved] at moved'
    cases moved'
    cases n with
    | zero =>
      cases came
      exact .inl ⟨shows, later.ne_none⟩
    | succ n =>
      rcases ih came with onTheWay | ⟨m, less, past⟩
      · exact .inl onTheWay
      · exact .inr ⟨m, Nat.le_succ_of_le less, past⟩

end Glides

section Simulation

variable {first : σ → Option σ} {second : τ → Option τ} {view : σ → ν} {view' : τ → ν} {good : σ → Prop}
  {related : σ → τ → Prop} {s s' : σ} {t t' : τ}

/-- Wherever the first machine comes, the second comes to a related state. -/
theorem Simulates.forward (simulates : Simulates first second view view' good related) (calm : Always first good s)
    (start : related s t) {n : Nat} (came : after first n s = some s') :
    ∃ m t', after second m t = some t' ∧ related s' t' := by
  induction n generalizing s t with
  | zero =>
    cases came
    exact ⟨0, t, rfl, start⟩
  | succ n ih =>
    obtain ⟨u, moved, came⟩ := after_succ.mp came
    obtain ⟨here, later⟩ := always_iff.mp calm
    obtain ⟨v, glides, still⟩ := simulates.moves s t u start here moved
    obtain ⟨k, reached⟩ := glides.after
    obtain ⟨m, t', came', end'⟩ := ih (later u moved) still came
    exact ⟨k + m, t', after_add reached came', end'⟩

/-- Wherever the second machine comes, the first one shows the same somewhere; where it stops, the first
comes to a related state. -/
theorem Simulates.backward (simulates : Simulates first second view view' good related) (calm : Always first good s)
    (start : related s t) {m : Nat} (came : after second m t = some t') :
    ∃ n s', after first n s = some s' ∧ view s' = view' t' ∧ (second t' = none → related s' t') := by
  induction m using Nat.strongRecOn generalizing s t with
  | ind m ih =>
    obtain ⟨here, later⟩ := always_iff.mp calm
    cases m with
    | zero =>
      cases came
      exact ⟨0, s, rfl, simulates.shows _ _ start, fun _ => start⟩
    | succ m =>
      cases moved : first s with
      | none =>
        obtain ⟨u, moved', -⟩ := after_succ.mp came
        rw [simulates.stops s t start here moved] at moved'
        cases moved'
      | some u =>
        obtain ⟨v, glides, still⟩ := simulates.moves s t u start here moved
        rcases glides.between came with ⟨shows, goesOn⟩ | ⟨k, less, past⟩
        · refine ⟨1, u, after_succ.mpr ⟨u, moved, rfl⟩, ?_, fun stopped => absurd stopped goesOn⟩
          rw [simulates.shows u v still, shows]
        · obtain ⟨n, s', came', shows, end'⟩ := ih k (by omega) (later u moved) still past
          exact ⟨n + 1, s', after_succ.mpr ⟨u, moved, came'⟩, shows, end'⟩

end Simulation

end Iterate
