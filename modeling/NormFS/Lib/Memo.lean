import NormFS.Lib.Outcome

/-! Computations that use a state as a memory only: from every state that agrees with the truth
they give the same answer and leave a state that agrees again. -/

abbrev Memo (σ ε α : Type) := StateT σ (Outcome ε) α

namespace Memo

variable {σ ε α β : Type}

variable {p : Memo σ ε α} {f : α → Memo σ ε β} {a : α}

theorem bind_eq_ok {s : σ} {result : β × σ} :
    (p >>= f) s = .ok result ↔ ∃ a middle, p s = .ok (a, middle) ∧ f a middle = .ok result := by
  change (p s >>= fun r => f r.1 r.2) = _ ↔ _
  rw [Outcome.bind_eq_ok, Prod.exists]

/-- The answer does not depend on what is remembered, as long as it agrees. -/
def Yields (agrees : σ → Prop) (p : Memo σ ε α) (answer : α) : Prop :=
  ∀ s, agrees s → ∃ after, p s = .ok (answer, after) ∧ agrees after

variable {agrees : σ → Prop}

theorem yields_pure (a : α) : Yields agrees (pure a : Memo σ ε α) a := by
  intro s holds
  exact ⟨s, rfl, holds⟩

theorem Yields.bind {b : β} (first : Yields agrees p a)
    (second : Yields agrees (f a) b) : Yields agrees (p >>= f) b := by
  intro s holds
  obtain ⟨middle, answer, still⟩ := first s holds
  obtain ⟨after, result, kept⟩ := second middle still
  refine ⟨after, ?_, kept⟩
  change (p s >>= fun r => f r.1 r.2) = _
  rw [answer]
  exact result

theorem Yields.unique {b : α} (first : Yields agrees p a) (second : Yields agrees p b)
    {s : σ} (holds : agrees s) : a = b := by
  obtain ⟨_, one, -⟩ := first s holds
  obtain ⟨_, other, -⟩ := second s holds
  rw [one] at other
  cases other
  rfl

/-- The computation fails, whatever is remembered. -/
def Fails (agrees : σ → Prop) (p : Memo σ ε α) (e : ε) : Prop := ∀ s, agrees s → p s = .err e

theorem Yields.fails {e : ε} (first : Yields agrees p a)
    (second : Fails agrees (f a) e) : Fails agrees (p >>= f) e := by
  intro s holds
  obtain ⟨middle, answer, still⟩ := first s holds
  change (p s >>= fun r => f r.1 r.2) = _
  rw [answer]
  exact second middle still

theorem Fails.bind {e : ε} (first : Fails agrees p e) (f : α → Memo σ ε β) :
    Fails agrees (p >>= f) e := by
  intro s holds
  change (p s >>= fun r => f r.1 r.2) = _
  rw [first s holds]
  rfl

theorem Fails.not_yields {e : ε} (fails : Fails agrees p e) {s : σ} (holds : agrees s) :
    ¬ Yields agrees p a := by
  intro yields
  obtain ⟨_, answer, -⟩ := yields s holds
  rw [fails s holds] at answer
  cases answer

def ofOutcome (result : Outcome ε α) : Memo σ ε α := fun s => result >>= fun a => .ok (a, s)

theorem yields_ofOutcome {result : Outcome ε α} (answer : result = .ok a) :
    Yields agrees (ofOutcome result : Memo σ ε α) a := by
  intro s holds
  exact ⟨s, by rw [ofOutcome, answer]; rfl, holds⟩

end Memo
