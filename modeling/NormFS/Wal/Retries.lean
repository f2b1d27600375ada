import NormFS.Wal.AckFileWriter

/-! What failed writes do to the file. A write that fails at the disk is told to the next write, which
may belong to the next block, and every attempt writes the whole block at the end of the file. So a
block may be acknowledged and missing, or stand behind a part of itself. -/
namespace NormFS

open Runs

def blockOf (writes : List (UintN × List UInt8)) : Block :=
  ⟨writes.flatMap Prod.snd, (writes.getLast?.map Prod.fst).toList⟩

namespace WriterTask

/-- The calls whose bytes the task holds. -/
def Carries (writes : List (UintN × List UInt8)) : WriterTask → Prop
  | .waiting | .ended => writes = []
  | .writing block _ _ _ | .syncing block _ _ | .returning block _ => block = blockOf writes

/-- The bytes that the present attempt has handed over to the file. -/
def handed : WriterTask → List UInt8
  | .writing block _ _ handed => block.data.take handed
  | .syncing block _ _ => block.data
  | _ => []

end WriterTask

namespace AckFileWriter

theorem handed_afterFlush (closing : Bool) : (afterFlush closing).handed = [] := by
  cases closing <;> rfl

theorem handed_afterFailure (block : Block) (closing : Bool) (attempt : Nat) :
    (afterFailure block closing attempt).handed = [] := by
  unfold afterFailure
  split <;> rfl

/-- Every call is in an acknowledged block, in the block that is being written, or in the buffer, and
an acknowledgement stands for all calls up to its own. -/
structure Accounted (header : List UInt8) (s : AckFileWriter)
    (flushed block rest : List (UintN × List UInt8)) : Prop where
  writes : s.writes = flushed ++ (block ++ rest)
  buffer : s.buffer = rest.flatMap Prod.snd
  acks : s.acks.getLast? = rest.getLast?.map Prod.fst
  size : s.currentSize = header.length + (s.writes.flatMap Prod.snd).length
  carries : s.task.Carries block
  sent : ∀ id ∈ s.sent, ∃ upTo later, flushed = upTo ++ later ∧ upTo.getLast?.map Prod.fst = some id

/-- What a move does to the file, to the bytes handed over and to the acknowledged blocks. -/
inductive Shifts (fsync : Bool) (s next : AckFileWriter) (flushed : List (UintN × List UInt8)) :
    TaskEvent → List (UintN × List UInt8) → Prop where
  | keeps {event : TaskEvent} (quiet : event ≠ .syncDone) (file : next.file = s.file)
    (handed : next.task.handed = s.task.handed) : Shifts fsync s next flushed event flushed
  | takes {count : Nat} {piece : List UInt8} (filled : piece ≠ [])
    (taken : s.file.takeOver piece = some next.file)
    (handed : next.task.handed = s.task.handed ++ piece) :
    Shifts fsync s next flushed (.takeOver count) flushed
  | retries (reported : s.file.report = some next.file) (handed : next.task.handed = []) :
    Shifts fsync s next flushed .writeFailed flushed
  | resyncs (settled : s.file.isSettled = true) (file : next.file = s.file)
    (handed : next.task.handed = []) : Shifts fsync s next flushed .syncFailed flushed
  | done {block : List (UintN × List UInt8)} (unsynced : fsync = false)
    (whole : s.task.handed = block.flatMap Prod.snd) (file : next.file = s.file)
    (handed : next.task.handed = []) : Shifts fsync s next flushed .writeDone (flushed ++ block)
  | synced {block : List (UintN × List UInt8)} (settled : s.file.isSettled = true)
    (whole : s.task.handed = block.flatMap Prod.snd) (file : next.file = s.file)
    (handed : next.task.handed = []) : Shifts fsync s next flushed .syncDone (flushed ++ block)
  | carried {event : DiskEvent} (carried : s.file.carry event = some next.file)
    (handed : next.task.handed = s.task.handed) : Shifts fsync s next flushed (.disk event) flushed

namespace Accounted

variable {header : List UInt8} {s next : AckFileWriter}
  {flushed block rest : List (UintN × List UInt8)} {fsync : Bool} {event : TaskEvent}

theorem initial (header : List UInt8) : Accounted header (.new header) [] [] [] := by
  constructor <;> simp [AckFileWriter.new, WriterTask.Carries]

section

variable (accounted : Accounted header s flushed block rest)

include accounted

theorem write (id : UintN) (entry : List UInt8) :
    Accounted header (s.write id entry) flushed block (rest ++ [(id, entry)]) where
  writes := by simp [AckFileWriter.write, accounted.writes]
  buffer := by simp [AckFileWriter.write, accounted.buffer]
  acks := by simp [AckFileWriter.write]
  size := by
    simp only [AckFileWriter.write, accounted.size, List.flatMap_append, List.length_append,
      List.flatMap_cons, List.flatMap_nil, List.append_nil]
    omega
  carries := accounted.carries
  sent := accounted.sent

theorem close :
    Accounted header s.close flushed block rest :=
  ⟨accounted.writes, accounted.buffer, accounted.acks, accounted.size, accounted.carries,
    accounted.sent⟩

theorem goTo {task : WriterTask}
    (carries : task.Carries block) (file : DeferredFile UInt8) :
    Accounted header { s with file := file, task := task } flushed block rest :=
  ⟨accounted.writes, accounted.buffer, accounted.acks, accounted.size, carries, accounted.sent⟩

end

theorem afterFlush_carries (closing : Bool) : (afterFlush closing).Carries [] := by
  cases closing <;> rfl

theorem afterFailure_carries (block : List (UintN × List UInt8)) (closing : Bool) (attempt : Nat) :
    (afterFailure (blockOf block) closing attempt).Carries block := by
  unfold afterFailure
  split <;> rfl

theorem acknowledge (accounted : Accounted header s flushed block rest) (closing : Bool) :
    Accounted header (s.acknowledge (blockOf block) closing) (flushed ++ block) [] rest where
  writes := by simp [AckFileWriter.acknowledge, accounted.writes]
  buffer := accounted.buffer
  acks := accounted.acks
  size := accounted.size
  carries := afterFlush_carries closing
  sent := by
    intro id member
    rcases List.mem_append.mp member with earlier | new
    · obtain ⟨upTo, later, split, last⟩ := accounted.sent id earlier
      exact ⟨upTo, later ++ block, by rw [split, List.append_assoc], last⟩
    · refine ⟨flushed ++ block, [], (List.append_nil _).symm, ?_⟩
      have last : block.getLast?.map Prod.fst = some id := Option.mem_toList.mp new
      obtain ⟨w, found, rfl⟩ := Option.map_eq_some_iff.mp last
      rw [List.getLast?_append, found]
      rfl

theorem takeBlock (accounted : Accounted header s flushed [] rest) (closing : Bool) :
    Accounted header { s with buffer := [], acks := [], task := .writing s.takeBlock closing 0 0 }
      flushed rest [] where
  writes := by simpa using accounted.writes
  buffer := rfl
  acks := rfl
  size := accounted.size
  carries := by
    rw [AckFileWriter.takeBlock, accounted.buffer, accounted.acks]
    rfl
  sent := accounted.sent

theorem giveBack (accounted : Accounted header s flushed block rest) (closing : Bool) :
    Accounted header { s with
      buffer := (blockOf block).data ++ s.buffer
      acks := (blockOf block).acks ++ s.acks
      task := afterFlush closing } flushed [] (block ++ rest) where
  writes := by simpa using accounted.writes
  buffer := by simp [accounted.buffer, blockOf]
  acks := by
    rw [List.getLast?_append, accounted.acks, List.getLast?_append, blockOf]
    cases rest.getLast? <;> cases block.getLast? <;> rfl
  size := accounted.size
  carries := afterFlush_carries closing
  sent := accounted.sent

/-- Whatever happens, every call stays accounted for. -/
theorem moves (accounted : Accounted header s flushed block rest) (moved : Moves fsync s event next) :
    ∃ flushed' block' rest', Accounted header next flushed' block' rest' ∧
      Shifts fsync s next flushed event flushed' := by
  have carries := accounted.carries
  cases moved with
  | idle waiting _ =>
    rw [waiting] at carries
    cases carries
    refine ⟨flushed, [], rest, accounted.goTo (afterFlush_carries _) _, .keeps nofun rfl ?_⟩
    rw [waiting]
    exact handed_afterFlush _
  | take waiting _ =>
    rw [waiting] at carries
    cases carries
    exact ⟨flushed, rest, [], accounted.takeBlock _, .keeps nofun rfl (by rw [waiting]; rfl)⟩
  | @takeOver _ closing attempt handed count file writing some' within taken =>
    rw [writing] at carries
    cases carries
    refine ⟨flushed, block, rest, accounted.goTo (by rfl) file, .takes ?_ taken ?_⟩
    · intro empty
      have length := congrArg List.length empty
      simp only [List.length_take, List.length_drop, List.length_nil] at length
      omega
    · rw [writing]
      exact List.take_add
  | writeFailed writing reported =>
    rw [writing] at carries
    cases carries
    exact ⟨flushed, block, rest, accounted.goTo (afterFailure_carries _ _ _) _,
      .retries reported (handed_afterFailure _ _ _)⟩
  | sync _ writing =>
    rw [writing] at carries
    cases carries
    refine ⟨flushed, block, rest, accounted.goTo (by rfl) _, .keeps nofun rfl ?_⟩
    rw [writing]
    exact List.take_length.symm
  | writeDone unsynced writing =>
    rw [writing] at carries
    cases carries
    refine ⟨flushed ++ block, [], rest, accounted.acknowledge _, .done unsynced ?_ rfl
      (handed_afterFlush _)⟩
    rw [writing]
    exact List.take_length
  | syncFailed syncing settled =>
    rw [syncing] at carries
    cases carries
    exact ⟨flushed, block, rest, accounted.goTo (afterFailure_carries _ _ _) _,
      .resyncs settled rfl (handed_afterFailure _ _ _)⟩
  | syncDone syncing settled =>
    rw [syncing] at carries
    cases carries
    exact ⟨flushed ++ block, [], rest, accounted.acknowledge _,
      .synced settled (by rw [syncing]; rfl) rfl (handed_afterFlush _)⟩
  | giveBack returning =>
    rw [returning] at carries
    cases carries
    refine ⟨flushed, [], block ++ rest, accounted.giveBack _, .keeps nofun rfl ?_⟩
    rw [returning]
    exact handed_afterFlush _
  | disk carried => exact ⟨flushed, block, rest, accounted.goTo carries _, .carried carried rfl⟩

end Accounted

theorem Moves.writes {fsync : Bool} {s next : AckFileWriter} {event : TaskEvent}
    (moved : Moves fsync s event next) : next.writes = s.writes := by
  cases moved <;> rfl

def calls : List WriterEvent → List (UintN × List UInt8)
  | [] => []
  | .write entryId entry :: rest => (entryId, entry) :: calls rest
  | .close :: rest | .task _ :: rest => calls rest

/-- A write fails only before any byte of the present attempt is in the file. Neither the flush nor,
where it syncs, the sync is a success while a failure is still to be told, and a sync fails only then. -/
def failsCleanly (fsync : Bool) (s : AckFileWriter) : TaskEvent → Bool
  | .disk .failed => decide (s.file.pending = s.task.handed)
  | .writeDone => fsync || !s.file.hasFailed
  | .syncFailed => s.file.hasFailed
  | .syncDone => !s.file.hasFailed
  | _ => true

def stepsCleanly (settings : AckFileWriterSettings) (s : AckFileWriter) : WriterEvent → Bool
  | .task event => s.failsCleanly settings.fsync event
  | _ => true

/-- The file will be the header, the acknowledged blocks and what the present attempt has handed over;
after a failure it ends with the acknowledged blocks. -/
structure Straight (header : List UInt8) (s : AckFileWriter) (flushed : List (UintN × List UInt8)) :
    Prop where
  promised : s.file.hasFailed = false →
    s.file.promised = header ++ (flushed.flatMap Prod.snd ++ s.task.handed)
  failed : s.file.hasFailed = true → s.content = header ++ flushed.flatMap Prod.snd

namespace Straight

variable {header : List UInt8} {s next : AckFileWriter}
  {flushed flushed' block rest : List (UintN × List UInt8)} {fsync : Bool} {event : TaskEvent}

theorem initial (header : List UInt8) : Straight header (.new header) [] where
  promised := by
    intro _
    simp [AckFileWriter.new, DeferredFile.promised, DeferredFile.pending, WriterTask.handed]
  failed := by rintro ⟨⟩

theorem acknowledge (straight : Straight header s flushed) (told : s.file.hasFailed = false)
    (whole : s.task.handed = block.flatMap Prod.snd) (file : next.file = s.file)
    (handed : next.task.handed = []) : Straight header next (flushed ++ block) where
  promised := by
    intro _
    rw [file, straight.promised told, whole, handed, List.flatMap_append, List.append_nil]
  failed := by
    rw [file, told]
    rintro ⟨⟩

theorem shifts (straight : Straight header s flushed) (clean : s.failsCleanly fsync event = true)
    (shifts : Shifts fsync s next flushed event flushed') : Straight header next flushed' := by
  cases shifts with
  | keeps _ file handed =>
    refine ⟨?_, ?_⟩
    · rw [file, handed]
      exact straight.promised
    · rw [content, file]
      exact straight.failed
  | takes filled taken handed =>
    obtain ⟨sound, sound', -, promised⟩ := DeferredFile.takeOver_spec taken
    refine ⟨fun _ => ?_, fun failed => absurd (sound'.symm.trans failed) (by decide)⟩
    rw [promised, straight.promised sound, handed]
    simp only [List.append_assoc]
  | retries reported handed =>
    obtain ⟨failed, sound', settled, same⟩ := DeferredFile.report_spec reported
    refine ⟨fun _ => ?_, fun failed => absurd (sound'.symm.trans failed) (by decide)⟩
    rw [DeferredFile.promised_of_settled settled, same, handed, List.append_nil]
    exact straight.failed failed
  | resyncs settled file handed =>
    have failed : s.file.hasFailed = true := clean
    refine ⟨fun sound => ?_, fun _ => ?_⟩
    · rw [file, failed] at sound
      cases sound
    · rw [content, file]
      exact straight.failed failed
  | done unsynced whole file handed =>
    subst unsynced
    exact straight.acknowledge (by simpa [failsCleanly] using clean) whole file handed
  | synced settled whole file handed =>
    exact straight.acknowledge (by simpa [failsCleanly] using clean) whole file handed
  | @carried event carried handed =>
    cases event with
    | wrote count =>
      obtain ⟨sound, sound', -, promised⟩ := DeferredFile.carry_wrote carried
      refine ⟨fun _ => ?_, fun failed => absurd (sound'.symm.trans failed) (by decide)⟩
      rw [promised, straight.promised sound, handed]
    | failed =>
      obtain ⟨sound, failed', -, same⟩ := DeferredFile.carry_failed carried
      refine ⟨fun sound => absurd (failed'.symm.trans sound) (by decide), fun _ => ?_⟩
      have pending : s.file.pending = s.task.handed := of_decide_eq_true clean
      have promised := straight.promised sound
      rw [DeferredFile.promised, pending, ← List.append_assoc, List.append_left_inj] at promised
      rw [content, same]
      exact promised

/-- So it holds the header, or a part of it, and a beginning of what was handed to the writer. -/
theorem begins (straight : Straight header s flushed)
    (accounted : Accounted header s flushed block rest) :
    s.content <+: header ++ s.writes.flatMap Prod.snd := by
  rw [accounted.writes, List.flatMap_append, List.flatMap_append]
  cases failed : s.file.hasFailed with
  | true =>
    rw [straight.failed failed, List.prefix_append_right_inj]
    exact List.prefix_append _ _
  | false =>
    have within : s.task.handed <+: block.flatMap Prod.snd := by
      have carries := accounted.carries
      cases task : s.task with
      | writing _ _ _ _ =>
        rw [task] at carries
        cases carries
        exact List.take_prefix _ _
      | syncing _ _ _ =>
        rw [task] at carries
        cases carries
        exact List.prefix_rfl
      | _ => exact List.nil_prefix
    have promised := s.file.content_prefix
    rw [straight.promised failed] at promised
    refine promised.trans ?_
    rw [List.prefix_append_right_inj, List.prefix_append_right_inj]
    exact within.trans (List.prefix_append _ _)

/-- The writer at any time of a clean run. -/
def Reached (header : List UInt8) (s : AckFileWriter) : Prop :=
  ∃ flushed block rest, Accounted header s flushed block rest ∧ Straight header s flushed

theorem of_step {settings : AckFileWriterSettings} {event : WriterEvent} (reached : Reached header s)
    (clean : s.stepsCleanly settings event = true)
    (moved : AckFileWriter.step settings s event = some next) : Reached header next := by
  obtain ⟨flushed, block, rest, accounted, straight⟩ := reached
  cases event with
  | write id entry =>
    cases moved
    exact ⟨_, _, _, accounted.write id entry, straight.promised, straight.failed⟩
  | close =>
    cases moved
    exact ⟨_, _, _, accounted.close, straight.promised, straight.failed⟩
  | task event =>
    obtain ⟨flushed', block', rest', accounted', shifts⟩ :=
      accounted.moves (moves_of_taskStep moved)
    exact ⟨flushed', block', rest', accounted', straight.shifts clean shifts⟩

end Straight

end AckFileWriter

end NormFS
