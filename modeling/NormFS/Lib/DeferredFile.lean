import Mathlib.Data.List.Basic

/-! A file whose writes are carried out behind the caller's back. A write takes a piece over and
returns; the bytes reach the file later, and a failure on the way is told to the write after it. A
sync waits for the disk but does not pass the failure on. -/

/-- What has become of the piece that was taken over last. -/
inductive Background (α : Type*) where
  | idle
  | writing (rest : List α)
  | failed
  deriving DecidableEq

structure DeferredFile (α : Type*) where
  content : List α
  background : Background α
  deriving DecidableEq

/-- What the disk does with the piece. -/
inductive DiskEvent where
  | wrote (count : Nat)
  | failed
  deriving DecidableEq

namespace DeferredFile

variable {α : Type*} {file next : DeferredFile α} {piece : List α} {event : DiskEvent}

def pending (file : DeferredFile α) : List α :=
  match file.background with
  | .writing rest => rest
  | _ => []

def promised (file : DeferredFile α) : List α := file.content ++ file.pending

def hasFailed (file : DeferredFile α) : Bool :=
  match file.background with
  | .failed => true
  | _ => false

/-- The disk is done with the piece, whether or not it has written it. -/
def isSettled (file : DeferredFile α) : Bool :=
  match file.background with
  | .writing _ => false
  | _ => true

def takeOver (file : DeferredFile α) (piece : List α) : Option (DeferredFile α) :=
  match file.background with
  | .idle => some { file with background := .writing piece }
  | _ => none

/-- The write after a failure gets the error and takes nothing over. -/
def report (file : DeferredFile α) : Option (DeferredFile α) :=
  match file.background with
  | .failed => some { file with background := .idle }
  | _ => none

def carry (file : DeferredFile α) : DiskEvent → Option (DeferredFile α)
  | .wrote count =>
    match file.background with
    | .writing rest =>
      if count < rest.length then
        some ⟨file.content ++ rest.take count, .writing (rest.drop count)⟩
      else some ⟨file.content ++ rest, .idle⟩
    | _ => none
  | .failed =>
    match file.background with
    | .writing _ => some { file with background := .failed }
    | _ => none

theorem pending_of_settled (settled : file.isSettled = true) : file.pending = [] := by
  unfold isSettled at settled
  unfold pending
  split <;> simp_all

theorem promised_of_settled (settled : file.isSettled = true) : file.promised = file.content := by
  rw [promised, pending_of_settled settled, List.append_nil]

theorem content_prefix (file : DeferredFile α) : file.content <+: file.promised :=
  List.prefix_append _ _

theorem takeOver_spec (taken : file.takeOver piece = some next) :
    file.hasFailed = false ∧ next.hasFailed = false ∧ next.content = file.content ∧
      next.promised = file.promised ++ piece := by
  unfold takeOver at taken
  split at taken
  · rename_i idle
    cases taken
    simp [hasFailed, promised, pending, idle]
  · cases taken

theorem report_spec (reported : file.report = some next) :
    file.hasFailed = true ∧ next.hasFailed = false ∧ next.isSettled = true ∧
      next.content = file.content := by
  unfold report at reported
  split at reported
  · rename_i failed
    cases reported
    simp [hasFailed, isSettled, failed]
  · cases reported

theorem carry_wrote {count : Nat} (carried : file.carry (.wrote count) = some next) :
    file.hasFailed = false ∧ next.hasFailed = false ∧ file.content <+: next.content ∧
      next.promised = file.promised := by
  simp only [carry] at carried
  split at carried
  · rename_i rest writing
    split at carried <;> cases carried <;> simp [hasFailed, promised, pending, writing]
  · cases carried

theorem carry_failed (carried : file.carry .failed = some next) :
    file.hasFailed = false ∧ next.hasFailed = true ∧ next.isSettled = true ∧
      next.content = file.content := by
  simp only [carry] at carried
  split at carried
  · rename_i rest writing
    cases carried
    simp [hasFailed, isSettled, writing]
  · cases carried

theorem carry_grows (carried : file.carry event = some next) : file.content <+: next.content := by
  cases event with
  | wrote count => exact (carry_wrote carried).2.2.1
  | failed => exact (carry_failed carried).2.2.2 ▸ List.prefix_rfl

theorem unsettled_of_carry (carried : file.carry event = some next) : file.isSettled = false := by
  cases event <;> simp only [carry] at carried <;> split at carried <;>
    first | cases carried; done | simp_all [isSettled]

end DeferredFile
