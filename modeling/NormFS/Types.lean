import NormFS.UintN.Basic

/-! Payload buffers, what a reader delivers, and the channel it delivers to. -/
namespace NormFS

/-- A buffer in memory. No buffer is longer than the largest signed machine word. -/
@[ext] structure Bytes where
  data : List UInt8
  addressable : data.length < 2 ^ 63
  deriving DecidableEq

def Bytes.length (b : Bytes) : Nat := b.data.length

theorem Bytes.word_length (b : Bytes) : (BitVec.ofNat 64 b.length).toNat = b.data.length :=
  Nat.mod_eq_of_lt (Nat.lt_trans b.addressable (by decide))

def Bytes.empty : Bytes := ⟨[], by decide⟩

def Bytes.slice (b : Bytes) (start size : Nat) : Bytes where
  data := (b.data.drop start).take size
  addressable := by
    have bound := b.addressable
    rw [List.length_take, List.length_drop]
    omega

/-- A buffer that has been allocated. None is longer than the bound, so nothing is cut off. -/
def Bytes.allocated (data : List UInt8) : Bytes where
  data := data.take (2 ^ 63 - 1)
  addressable := by
    rw [List.length_take]
    omega

theorem Bytes.allocated_data (b : Bytes) : Bytes.allocated b.data = b := by
  have bound := b.addressable
  exact Bytes.ext (List.take_of_length_le (by omega))

/-- The id and the payload. -/
abbrev Entry := UintN × Bytes

/-- What a record is checked with. -/
abbrev Hash := List UInt8 → BitVec 64

/-- Entries that carry consecutive numbers. -/
def Numbered (lo : Nat) (entries : List Entry) : Prop :=
  entries.map (fun e => e.1.toNat) = List.range' lo entries.length

variable {lo : Nat} {entries : List Entry}

theorem numbered_cons {e : Entry} :
    Numbered lo (e :: entries) ↔ e.1.toNat = lo ∧ Numbered (lo + 1) entries := by
  simp [Numbered, List.range'_succ]

theorem numbered_append {as bs : List Entry} :
    Numbered lo (as ++ bs) ↔ Numbered lo as ∧ Numbered (lo + as.length) bs := by
  constructor
  · intro numbered
    rw [Numbered, List.map_append, List.length_append, ← List.range'_append_1] at numbered
    exact List.append_inj numbered (by simp)
  · rintro ⟨first, second⟩
    unfold Numbered at *
    rw [List.map_append, first, second, List.length_append, ← List.range'_append_1]

theorem Numbered.mem (numbered : Numbered lo entries)
    {e : Entry} (member : e ∈ entries) : lo ≤ e.1.toNat ∧ e.1.toNat < lo + entries.length := by
  have listed : e.1.toNat ∈ entries.map (fun e => e.1.toNat) := List.mem_map_of_mem member
  rw [numbered] at listed
  exact List.mem_range'_1.mp listed

theorem Numbered.getLast (numbered : Numbered lo entries) (some' : entries ≠ []) :
    ∃ e, entries.getLast? = some e ∧ e.1.toNat + 1 = lo + entries.length := by
  rcases List.eq_nil_or_concat entries with empty | ⟨front, e, rfl⟩
  · exact absurd empty some'
  · rw [List.concat_eq_append] at numbered ⊢
    refine ⟨e, List.getLast?_concat, ?_⟩
    rw [Numbered, List.map_append, List.length_append, List.length_singleton,
      List.range'_concat] at numbered
    have last := (List.append_inj' numbered rfl).2
    simp only [List.map_cons, List.map_nil, List.cons.injEq, and_true] at last
    rw [List.length_append, List.length_singleton]
    omega

structure QueueId where
  path : List Char
  deriving DecidableEq, Repr

inductive DataSource where
  | none
  | cloud
  | diskStore
  | diskWal
  | memory
  deriving DecidableEq, Repr

structure ReadEntry where
  id : UintN
  data : Bytes
  source : DataSource
  deriving DecidableEq

/- The sending half of a channel. `room` counts the entries the receiver still takes before
it goes away; a receiver that stays is `none`. A full channel only delays the sender. -/
structure Sender where
  delivered : List ReadEntry
  room : Option Nat
  deriving DecidableEq

namespace Sender

def isClosed (target : Sender) : Bool := target.room == some 0

def send (target : Sender) (entry : ReadEntry) : Option Sender :=
  match target.room with
  | some 0 => none
  | some (n + 1) => some ⟨target.delivered ++ [entry], some n⟩
  | none => some ⟨target.delivered ++ [entry], none⟩

/-- A receiver that stays until the end. -/
def staying (delivered : List ReadEntry) : Sender := ⟨delivered, none⟩

@[simp] theorem isClosed_staying (delivered : List ReadEntry) : (staying delivered).isClosed = false := rfl

@[simp] theorem send_staying (delivered : List ReadEntry) (entry : ReadEntry) :
    (staying delivered).send entry = some (staying (delivered ++ [entry])) := rfl

end Sender

end NormFS
