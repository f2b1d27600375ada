import Mathlib.Data.List.Basic

/-! Tasks that hold locks. A task's own state says which lock it holds, if any; a lock is free when no
task holds it. Taking only free locks keeps every lock with at most one task. -/
namespace Guards

variable {τ κ : Type*} (guard : τ → Option κ)

def Exclusive (tasks : List τ) : Prop :=
  ∀ (i j : Nat) (t u : τ) (k : κ), tasks[i]? = some t → tasks[j]? = some u → guard t = some k → guard u = some k → i = j

def Free (tasks : List τ) (k : κ) : Prop := ∀ t ∈ tasks, guard t ≠ some k

instance decidableFree [DecidableEq κ] (tasks : List τ) (k : κ) : Decidable (Free guard tasks k) :=
  inferInstanceAs (Decidable (∀ t ∈ tasks, guard t ≠ some k))

variable {guard}

theorem exclusive_nil : Exclusive guard [] := by
  intro i j t u k first
  simp at first

variable {tasks : List τ} {t t' u : τ} {i : Nat}

theorem Exclusive.append (exclusive : Exclusive guard tasks) (none : guard t = none) :
    Exclusive guard (tasks ++ [t]) := by
  intro i j u v k first second holds holds'
  have old : ∀ {i : Nat} {u : τ}, (tasks ++ [t])[i]? = some u → guard u = some k → tasks[i]? = some u := by
    intro i u here holds
    rcases Nat.lt_or_ge i tasks.length with inside | outside
    · rwa [List.getElem?_append_left inside] at here
    · rw [List.getElem?_append_right outside] at here
      obtain rfl := List.mem_singleton.mp (List.mem_of_getElem? here)
      cases none.symm.trans holds
  exact exclusive i j u v k (old first holds) (old second holds') holds holds'

theorem getElem?_set_self (here : tasks[i]? = some t) :
    (tasks.set i t')[i]? = some t' := by
  rw [List.getElem?_set, if_pos rfl, if_pos (List.getElem?_eq_some_iff.mp here).1]

theorem getElem?_set_cases {j : Nat} (here : tasks[i]? = some t)
    (there : (tasks.set i t')[j]? = some u) : j = i ∧ u = t' ∨ j ≠ i ∧ tasks[j]? = some u := by
  by_cases moved : i = j
  · subst moved
    cases (getElem?_set_self here).symm.trans there
    exact .inl ⟨rfl, rfl⟩
  · rw [List.getElem?_set_ne moved] at there
    exact .inr ⟨Ne.symm moved, there⟩

theorem getElem?_append_cases {more : List τ} (there : (tasks ++ more)[i]? = some u) :
    tasks[i]? = some u ∨ tasks[i]? = none ∧ u ∈ more := by
  by_cases old : i < tasks.length
  · rw [List.getElem?_append_left old] at there
    exact .inl there
  · have late := Nat.le_of_not_lt old
    rw [List.getElem?_append_right late] at there
    exact .inr ⟨List.getElem?_eq_none_iff.mpr late, List.mem_of_getElem? there⟩

theorem mem_set_cases (there : u ∈ tasks.set i t') :
    u = t' ∨ ∃ j, j ≠ i ∧ tasks[j]? = some u := by
  obtain ⟨j, here⟩ := List.mem_iff_getElem?.mp there
  rw [List.getElem?_set] at here
  by_cases moved : i = j
  · rw [if_pos moved] at here
    split at here
    · cases here
      exact .inl rfl
    · cases here
  · rw [if_neg moved] at here
    exact .inr ⟨j, Ne.symm moved, here⟩

theorem mem_set_of_ne {j : Nat} (other : j ≠ i) (here : tasks[j]? = some u) :
    u ∈ tasks.set i t' := by
  refine List.mem_iff_getElem?.mpr ⟨j, ?_⟩
  rw [List.getElem?_set, if_neg (Ne.symm other)]
  exact here

/-- A task goes on with the lock it has, with none, or with one that is free. -/
theorem Exclusive.set (exclusive : Exclusive guard tasks)
    (here : tasks[i]? = some t)
    (kept : ∀ k, guard t' = some k → guard t = some k ∨ Free guard tasks k) :
    Exclusive guard (tasks.set i t') := by
  have inside : i < tasks.length := (List.getElem?_eq_some_iff.mp here).1
  -- whoever holds what the moved task holds now is the moved task
  have mine : ∀ j u k, j ≠ i → tasks[j]? = some u → guard t' = some k → guard u ≠ some k := by
    intro j u k other there holds holds'
    rcases kept k holds with same | free
    · exact other (exclusive j i u t k there here holds' same)
    · exact free u (List.mem_of_getElem? there) holds'
  intro a b u v k first second holds holds'
  rw [List.getElem?_set] at first second
  by_cases atA : i = a
  · by_cases atB : i = b
    · omega
    · rw [if_pos atA, if_pos (by omega)] at first
      rw [if_neg atB] at second
      cases first
      exact absurd holds' (mine b v k (Ne.symm atB) second holds)
  · rw [if_neg atA] at first
    by_cases atB : i = b
    · rw [if_pos atB, if_pos (by omega)] at second
      cases second
      exact absurd holds (mine a u k (Ne.symm atA) first holds')
    · rw [if_neg atB] at second
      exact exclusive a b u v k first second holds holds'

end Guards
