import Mathlib.Data.List.Sort
import NormFS.Types
import NormFS.UintN.Value

/-! The buffer that puts entries back into the order of their identifiers before they are
written. An entry that is the next one passes straight through; any other waits in `pending`. -/
namespace NormFS

/-- An unstable sort: some permutation in the order of the identifiers, nothing more. -/
structure UnstableSort where
  run : List Entry → List Entry
  perm : ∀ entries, (run entries).Perm entries
  sorted : ∀ entries, (run entries).Pairwise (fun a b => a.1.toNat ≤ b.1.toNat)

/-- One such sort, to run the model with. -/
def UnstableSort.insertion : UnstableSort where
  run entries := entries.insertionSort (fun a b => a.1.toNat ≤ b.1.toNat)
  perm entries := List.perm_insertionSort _ entries
  sorted entries := by
    have : Std.Total (fun a b : Entry => a.1.toNat ≤ b.1.toNat) := ⟨fun a b => Nat.le_total _ _⟩
    have : IsTrans Entry (fun a b => a.1.toNat ≤ b.1.toNat) :=
      ⟨fun a b c => Nat.le_trans⟩
    exact List.pairwise_insertionSort _ entries

structure OrderedBuffer where
  pending : List Entry
  lastWrittenId : Option UintN
  deriving DecidableEq

namespace OrderedBuffer

def new (lastId : Option UintN) : OrderedBuffer := ⟨[], lastId⟩

def follows (lastId : Option UintN) (id : UintN) : Bool :=
  match lastId with
  | some last => id == last.increment
  | none => id.isZero

def checkCanWrite (self : OrderedBuffer) (id : UintN) : Bool := follows self.lastWrittenId id

def canWrite (self : OrderedBuffer) (id : UintN) : Bool × OrderedBuffer :=
  if self.checkCanWrite id then (true, { self with lastWrittenId := some id }) else (false, self)

/- The scan over the sorted buffer, up to the first entry that does not follow the one before. -/
def drainReady (lastId : Option UintN) :
    List Entry → List Entry × Option UintN
  | [] => ([], lastId)
  | (id, data) :: rest =>
    if follows lastId id then
      let (ready, lastId) := drainReady (some id) rest
      ((id, data) :: ready, lastId)
    else ([], lastId)

def waitForOrder (sort : UnstableSort) (self : OrderedBuffer) (entry : Entry) :
    List Entry × OrderedBuffer :=
  let pending := sort.run (self.pending ++ [entry])
  let (ready, lastId) := drainReady self.lastWrittenId pending
  let cropped := ready.length
  if 0 < cropped then (ready, ⟨pending.drop cropped, lastId⟩)
  else (ready, ⟨pending, self.lastWrittenId⟩)

/-- The two paths of the writer over the buffer. -/
def accept (sort : UnstableSort) (self : OrderedBuffer) (entry : Entry) :
    List Entry × OrderedBuffer :=
  let (direct, buffer) := self.canWrite entry.1
  if direct then ([entry], buffer) else buffer.waitForOrder sort entry

def nextId (lastId : Option UintN) : Nat := lastId.elim 0 (fun last => last.toNat + 1)

@[simp] theorem nextId_some (id : UintN) : nextId (some id) = id.toNat + 1 := rfl

theorem follows_iff (lastId : Option UintN) (id : UintN) :
    follows lastId id = true ↔ id.toNat = nextId lastId := by
  cases lastId with
  | none => exact UintN.isZero_iff id
  | some last => rw [follows, UintN.beq_iff, UintN.toNat_increment, nextId_some]

/-- The drained entries are a beginning of the buffer, numbered from the next number on, and what
stays does not start with the number that is now next. -/
theorem drainReady_spec (lastId : Option UintN) (pending : List Entry) :
    ∃ rest, (drainReady lastId pending).1 ++ rest = pending ∧
      Numbered (nextId lastId) (drainReady lastId pending).1 ∧
      nextId (drainReady lastId pending).2 =
        nextId lastId + (drainReady lastId pending).1.length ∧
      (∀ e ∈ rest.head?, e.1.toNat ≠ nextId (drainReady lastId pending).2) := by
  induction pending generalizing lastId with
  | nil => exact ⟨[], rfl, rfl, rfl, by simp⟩
  | cons e pending ih =>
    obtain ⟨id, data⟩ := e
    by_cases next : follows lastId id = true
    · obtain ⟨rest, split, numbered, count, stops⟩ := ih (some id)
      have value := (follows_iff lastId id).mp next
      simp only [drainReady, next, if_true]
      refine ⟨rest, by rw [List.cons_append, split], ?_, ?_, stops⟩
      · rw [nextId_some, value] at numbered
        exact numbered_cons.mpr ⟨value, numbered⟩
      · rw [count, nextId_some, value, List.length_cons]
        omega
    · simp only [drainReady, next]
      refine ⟨(id, data) :: pending, rfl, rfl, rfl, ?_⟩
      intro e head
      obtain rfl : (id, data) = e := by simpa using head
      rw [follows_iff] at next
      exact next

theorem waitForOrder_spec (sort : UnstableSort) (buffer : OrderedBuffer) (entry : Entry) :
    (buffer.waitForOrder sort entry).1 ++ (buffer.waitForOrder sort entry).2.pending =
      sort.run (buffer.pending ++ [entry]) ∧
    Numbered (nextId buffer.lastWrittenId) (buffer.waitForOrder sort entry).1 ∧
    nextId (buffer.waitForOrder sort entry).2.lastWrittenId =
      nextId buffer.lastWrittenId + (buffer.waitForOrder sort entry).1.length ∧
    (∀ e ∈ (buffer.waitForOrder sort entry).2.pending.head?,
      e.1.toNat ≠ nextId (buffer.waitForOrder sort entry).2.lastWrittenId) := by
  obtain ⟨rest, whole, numbered, count, stops⟩ :=
    drainReady_spec buffer.lastWrittenId (sort.run (buffer.pending ++ [entry]))
  unfold waitForOrder
  generalize sort.run (buffer.pending ++ [entry]) = pending at *
  cases drained : drainReady buffer.lastWrittenId pending with
  | mk ready lastId =>
    simp only [drained] at whole numbered count stops ⊢
    subst whole
    split
    · exact ⟨by rw [List.drop_left], numbered, count, by rwa [List.drop_left]⟩
    · rename_i empty
      obtain rfl : ready = [] := List.length_eq_zero_iff.mp (by omega)
      rw [List.length_nil, Nat.add_zero] at count
      rw [count] at stops
      exact ⟨rfl, rfl, rfl, stops⟩

/-- One arrival: what leaves the buffer is numbered from the next number on, and nothing is lost
or made up. -/
theorem accept_spec (sort : UnstableSort) (buffer : OrderedBuffer) (entry : Entry) :
    Numbered (nextId buffer.lastWrittenId) (buffer.accept sort entry).1 ∧
    nextId (buffer.accept sort entry).2.lastWrittenId =
      nextId buffer.lastWrittenId + (buffer.accept sort entry).1.length ∧
    ((buffer.accept sort entry).1 ++ (buffer.accept sort entry).2.pending).Perm
      (entry :: buffer.pending) := by
  unfold accept canWrite checkCanWrite
  by_cases next : follows buffer.lastWrittenId entry.1 = true
  · have value := (follows_iff _ _).mp next
    simp only [next, if_true]
    exact ⟨numbered_cons.mpr ⟨value, rfl⟩, by rw [nextId_some, value]; rfl, List.Perm.refl _⟩
  · simp only [next, if_false, Bool.false_eq_true]
    obtain ⟨whole, numbered, count, _⟩ := waitForOrder_spec sort buffer entry
    refine ⟨numbered, count, ?_⟩
    rw [whole]
    exact (sort.perm _).trans List.perm_append_comm

def acceptAll (sort : UnstableSort) (self : OrderedBuffer) :
    List Entry → List Entry × OrderedBuffer
  | [] => ([], self)
  | entry :: rest =>
    let (ready, buffer) := self.accept sort entry
    let (later, buffer) := buffer.acceptAll sort rest
    (ready ++ later, buffer)

theorem acceptAll_cons (sort : UnstableSort) (buffer : OrderedBuffer) (entry : Entry)
    (rest : List Entry) :
    buffer.acceptAll sort (entry :: rest) =
      ((buffer.accept sort entry).1 ++ ((buffer.accept sort entry).2.acceptAll sort rest).1,
        ((buffer.accept sort entry).2.acceptAll sort rest).2) := rfl

theorem acceptAll_append (sort : UnstableSort) (buffer : OrderedBuffer)
    (as bs : List Entry) :
    buffer.acceptAll sort (as ++ bs) =
      ((buffer.acceptAll sort as).1 ++ ((buffer.acceptAll sort as).2.acceptAll sort bs).1,
        ((buffer.acceptAll sort as).2.acceptAll sort bs).2) := by
  induction as generalizing buffer with
  | nil => rfl
  | cons a as ih => simp only [List.cons_append, acceptAll_cons, ih, List.append_assoc]

end OrderedBuffer

end NormFS
