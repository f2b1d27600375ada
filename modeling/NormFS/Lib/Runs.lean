import Mathlib.Tactic.Ring

/-! Runs of a machine whose steps may be refused. The events are what the outside world chooses:
which thread moves next, what a system call answers. A safety property of all runs is an invariant,
kept by every step that the assumptions on the events allow. -/
namespace Runs

variable {σ ε : Type*} (step : σ → ε → Option σ)

/-- The state a sequence of events leads to, unless one of them is refused. -/
def run : σ → List ε → Option σ
  | s, [] => some s
  | s, event :: rest => (step s event).bind (fun next => run next rest)

/-- Every event of the run meets the assumption in the state in which it happens. -/
def Along (meets : σ → ε → Prop) : σ → List ε → Prop
  | _, [] => True
  | s, event :: rest => meets s event ∧
    match step s event with
    | none => True
    | some next => Along meets next rest

instance decidableAlong (meets : σ → ε → Prop) [∀ s event, Decidable (meets s event)] :
    ∀ s events, Decidable (Along step meets s events)
  | _, [] => .isTrue trivial
  | s, event :: rest =>
    have : Decidable (match step s event with
        | none => True
        | some next => Along step meets next rest) :=
      match step s event with
      | none => .isTrue trivial
      | some next => decidableAlong meets next rest
    inferInstanceAs (Decidable (meets s event ∧ _))

variable {step}

variable {meets : σ → ε → Prop} {s final : σ} {events : List ε}

theorem along_cons {next : σ} {event : ε} {rest : List ε}
    (along : Along step meets s (event :: rest)) (moved : step s event = some next) :
    meets s event ∧ Along step meets next rest := by
  rw [Along, moved] at along
  exact along

theorem Along.and {first second : σ → ε → Prop}
    (one : Along step first s events) (other : Along step second s events) :
    Along step (fun s event => first s event ∧ second s event) s events := by
  induction events generalizing s with
  | nil => trivial
  | cons event rest ih =>
    refine ⟨⟨one.1, other.1⟩, ?_⟩
    cases moved : step s event with
    | none => trivial
    | some next => exact ih (along_cons one moved).2 (along_cons other moved).2

theorem run_cons {event : ε} {rest : List ε} :
    run step s (event :: rest) = some final ↔
      ∃ next, step s event = some next ∧ run step next rest = some final :=
  Option.bind_eq_some_iff

theorem run_append (s : σ) (first second : List ε) :
    run step s (first ++ second) = (run step s first).bind (fun middle => run step middle second) := by
  induction first generalizing s with
  | nil => rfl
  | cons event rest ih =>
    simp only [List.cons_append, run]
    cases step s event with
    | none => rfl
    | some next => exact ih next

/-- What holds at the start and is kept by every step that meets the assumption holds at the end. -/
theorem run_invariant (inv : σ → Prop)
    (keeps : ∀ s event next, inv s → meets s event → step s event = some next → inv next) (start : inv s) (along : Along step meets s events)
    (ran : run step s events = some final) : inv final := by
  induction events generalizing s with
  | nil =>
    cases ran
    exact start
  | cons event rest ih =>
    obtain ⟨next, moved, ran⟩ := run_cons.mp ran
    obtain ⟨met, later⟩ := along_cons along moved
    exact ih (keeps s event next start met moved) later ran

theorem run_keeps (inv : σ → Prop) (keeps : ∀ s event next, inv s → step s event = some next → inv next) (start : inv s) (ran : run step s events = some final) : inv final := by
  induction events generalizing s with
  | nil =>
    cases ran
    exact start
  | cons event rest ih =>
    obtain ⟨next, moved, ran⟩ := run_cons.mp ran
    exact ih (keeps s event next start moved) ran

variable (step)

def Always (good : σ → Prop) : σ → List ε → Prop
  | s, [] => good s
  | s, event :: rest => good s ∧
    match step s event with
    | none => True
    | some next => Always good next rest

variable {step}

/-- Where exactly the steps that meet a condition keep an invariant, a run keeps it exactly when all its
steps meet the condition. -/
theorem always_iff_along_of_run (inv : σ → Prop)
    (exact : ∀ s event next, inv s → step s event = some next → (inv next ↔ meets s event)) (start : inv s) (ran : run step s events = some final) :
    Always step inv s events ↔ Along step meets s events := by
  induction events generalizing s with
  | nil => exact ⟨fun _ => trivial, fun _ => start⟩
  | cons event rest ih =>
    obtain ⟨next, moved, ran⟩ := run_cons.mp ran
    simp only [Always, Along, moved]
    constructor
    · rintro ⟨-, later⟩
      have kept : inv next := by
        cases rest with
        | nil => exact later
        | cons _ _ => exact later.1
      exact ⟨(exact s event next start moved).mp kept, (ih kept ran).mp later⟩
    · rintro ⟨met, later⟩
      have kept := (exact s event next start moved).mpr met
      exact ⟨start, (ih kept ran).mpr later⟩

theorem run_total (moves : ∀ s event, ∃ next, step s event = some next) (s : σ) (events : List ε) :
    ∃ final, run step s events = some final := by
  induction events generalizing s with
  | nil => exact ⟨s, rfl⟩
  | cons event rest ih =>
    obtain ⟨next, moved⟩ := moves s event
    obtain ⟨final, ran⟩ := ih next
    exact ⟨final, run_cons.mpr ⟨next, moved, ran⟩⟩

theorem always_iff_along (inv : σ → Prop) (moves : ∀ s event, ∃ next, step s event = some next)
    (exact : ∀ s event next, inv s → step s event = some next → (inv next ↔ meets s event)) (start : inv s) (events : List ε) : Always step inv s events ↔ Along step meets s events := by
  obtain ⟨final, ran⟩ := run_total moves s events
  exact always_iff_along_of_run inv exact start ran

theorem always_congr {one other : σ → Prop} (inv : σ → Prop)
    (keeps : ∀ s event next, inv s → step s event = some next → inv next)
    (same : ∀ s, inv s → (one s ↔ other s)) (start : inv s) (events : List ε) :
    Always step one s events ↔ Always step other s events := by
  induction events generalizing s with
  | nil => exact same s start
  | cons event rest ih =>
    simp only [Always]
    refine and_congr (same s start) ?_
    cases moved : step s event with
    | none => exact Iff.rfl
    | some next => exact ih (keeps s event next start moved)

end Runs
