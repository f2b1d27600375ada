import Mathlib.Tactic.Ring

/-! Results of code that can succeed, report an error, or panic. A panic is not an
error value: nothing in the code catches it, so every sequencing step passes it on. -/

inductive Outcome (ε α : Type) where
  | ok (value : α)
  | err (error : ε)
  | panic
  deriving DecidableEq, Repr

namespace Outcome

variable {ε δ α β : Type}

def bind : Outcome ε α → (α → Outcome ε β) → Outcome ε β
  | ok a, f => f a
  | err e, _ => err e
  | panic, _ => panic

instance : Monad (Outcome ε) where
  pure := ok
  bind := bind

def mapErr (f : ε → δ) : Outcome ε α → Outcome δ α
  | ok a => ok a
  | err e => err (f e)
  | panic => panic

def ofExcept : Except ε α → Outcome ε α
  | .ok a => ok a
  | .error e => err e

def addUsize (a b : Nat) : Outcome ε Nat := if a + b < 2 ^ 64 then ok (a + b) else panic

/-- No buffer is longer than the largest signed word; asking for more panics. -/
def allocate (size : Nat) : Outcome ε Unit := if size < 2 ^ 63 then ok () else panic

@[simp] theorem pure_eq_ok (a : α) : (pure a : Outcome ε α) = ok a := rfl
@[simp] theorem ok_bind (a : α) (f : α → Outcome ε β) : (ok a >>= f) = f a := rfl
@[simp] theorem err_bind (e : ε) (f : α → Outcome ε β) : (err e >>= f) = err e := rfl
@[simp] theorem panic_bind (f : α → Outcome ε β) : (panic >>= f) = panic := rfl
@[simp] theorem mapErr_ok (f : ε → δ) (a : α) : (ok a).mapErr f = ok a := rfl
@[simp] theorem mapErr_err (f : ε → δ) (e : ε) : (err e : Outcome ε α).mapErr f = err (f e) := rfl
@[simp] theorem mapErr_panic (f : ε → δ) : (panic : Outcome ε α).mapErr f = panic := rfl

@[simp] theorem ofExcept_ok (a : α) : (ofExcept (.ok a) : Outcome ε α) = ok a := rfl
@[simp] theorem ofExcept_error (e : ε) : (ofExcept (.error e) : Outcome ε α) = err e := rfl

def any (p : α → Bool) : Outcome ε α → Bool
  | ok a => p a
  | err _ | panic => false

variable {x : Outcome ε α} {f : α → Outcome ε β}

theorem any_eq_true {p : α → Bool} : x.any p = true ↔ ∃ a, x = ok a ∧ p a = true := by
  cases x with
  | ok a => simp [any]
  | err e => simp [any]
  | panic => simp [any]

theorem bind_eq_ok {b : β} :
    (x >>= f) = ok b ↔ ∃ a, x = ok a ∧ f a = ok b := by
  cases x with
  | ok a => simp
  | err e => simp
  | panic => simp

theorem bind_eq_panic :
    (x >>= f) = panic ↔ x = panic ∨ ∃ a, x = ok a ∧ f a = panic := by
  cases x with
  | ok a => simp
  | err e => simp
  | panic => simp

theorem bind_congr {g : α → Outcome ε β} (same : ∀ a, x = ok a → f a = g a) :
    (x >>= f) = (x >>= g) := by
  cases x with
  | ok a => exact same a rfl
  | err e => rfl
  | panic => rfl

def Errorless (x : Outcome ε α) : Prop := ∀ e, x ≠ err e

theorem errorless_ok (a : α) : Errorless (ok a : Outcome ε α) := by
  rintro e ⟨⟩

theorem Errorless.bind (first : x.Errorless)
    (later : ∀ a, (f a).Errorless) : (x >>= f).Errorless := by
  cases x with
  | ok a => exact later a
  | err e => exact absurd rfl (first e)
  | panic => rintro e ⟨⟩

theorem ofExcept_eq_ok {x : Except ε α} {a : α} : (ofExcept x : Outcome ε α) = ok a ↔ x = .ok a := by
  cases x <;> simp [ofExcept]

theorem mapErr_eq_ok {f : ε → δ} {a : α} : x.mapErr f = ok a ↔ x = ok a := by
  cases x <;> simp [mapErr]

theorem mapErr_eq_panic {f : ε → δ} : x.mapErr f = panic ↔ x = panic := by
  cases x <;> simp [mapErr]

theorem ofExcept_ne_panic (x : Except ε α) : (ofExcept x : Outcome ε α) ≠ panic := by
  cases x <;> simp [ofExcept]

theorem addUsize_eq_ok {a b c : Nat} :
    (addUsize a b : Outcome ε Nat) = ok c ↔ a + b < 2 ^ 64 ∧ c = a + b := by
  unfold addUsize
  split <;> simp_all [eq_comm]

theorem addUsize_ok {a b : Nat} (small : a + b < 2 ^ 64) :
    (addUsize a b : Outcome ε Nat) = ok (a + b) := if_pos small

theorem allocate_ok {size : Nat} (small : size < 2 ^ 63) :
    (allocate size : Outcome ε Unit) = ok () := if_pos small

end Outcome
