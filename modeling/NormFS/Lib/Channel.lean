import Mathlib.Data.List.Basic

/-! Buffered channels. A send appends an item while there is room, a receive takes the oldest one. A
send on a closed channel ends the program; a receive from a closed and empty one does not wait. -/

structure Channel (α : Type*) where
  capacity : Nat
  items : List α
  closed : Bool
  bounded : items.length ≤ capacity
  deriving DecidableEq

namespace Channel

variable {α : Type*}

def make (capacity : Nat) : Channel α := ⟨capacity, [], false, Nat.zero_le _⟩

/-- How a send goes that does not wait. -/
inductive Sent (α : Type*) where
  | sent (after : Channel α)
  | full
  | panic

def send (c : Channel α) (item : α) : Sent α :=
  if c.closed then .panic
  else if room : c.items.length < c.capacity then
    .sent ⟨c.capacity, c.items ++ [item], false, by rw [List.length_append]; exact room⟩
  else .full

inductive Received (α : Type*) where
  | item (item : α) (after : Channel α)
  | drained
  | blocked

def receive : Channel α → Received α
  | ⟨capacity, item :: rest, closed, bounded⟩ =>
    .item item ⟨capacity, rest, closed, Nat.le_of_succ_le bounded⟩
  | ⟨_, [], true, _⟩ => .drained
  | ⟨_, [], false, _⟩ => .blocked

def hasRoom (c : Channel α) : Bool := decide (c.items.length < c.capacity)

def close (c : Channel α) : Channel α := { c with closed := true }

variable {c after : Channel α} {item : α}

theorem send_eq_sent (sent : c.send item = .sent after) :
    after.items = c.items ++ [item] ∧ after.closed = false ∧ after.capacity = c.capacity := by
  unfold send at sent
  split at sent
  · cases sent
  · split at sent
    · cases sent
      exact ⟨rfl, rfl, rfl⟩
    · cases sent

theorem send_eq_panic : c.send item = .panic ↔ c.closed = true := by
  unfold send
  split
  · simp_all
  · split <;> simp_all

theorem hasRoom_iff : c.hasRoom = true ↔ c.items.length < c.capacity := decide_eq_true_iff

theorem send_eq_full : c.send item = .full ↔ c.closed = false ∧ c.hasRoom = false := by
  unfold send hasRoom
  split
  · simp_all
  · split <;> simp_all

theorem items_of_full (full : c.hasRoom = false) : c.items.length = c.capacity := by
  have noRoom : ¬ c.items.length < c.capacity := by
    rw [← hasRoom_iff, full]
    exact Bool.false_ne_true
  exact Nat.le_antisymm c.bounded (Nat.le_of_not_lt noRoom)

theorem receive_eq_item (received : c.receive = .item item after) :
    c.items = item :: after.items ∧ after.closed = c.closed ∧ after.capacity = c.capacity := by
  obtain ⟨capacity, items, closed, bounded⟩ := c
  cases items with
  | nil => cases closed <;> cases received
  | cons first rest =>
    cases received
    exact ⟨rfl, rfl, rfl⟩

theorem receive_eq_drained (received : c.receive = .drained) : c.items = [] ∧ c.closed = true := by
  obtain ⟨capacity, items, closed, bounded⟩ := c
  cases items with
  | nil =>
    cases closed with
    | true => exact ⟨rfl, rfl⟩
    | false => cases received
  | cons first rest => cases received

end Channel
