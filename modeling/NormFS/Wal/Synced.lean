import NormFS.Wal.Durability

/-! Where the bytes of the files are, as long as writes fail cleanly. A file begins with the blocks that
are synced and acknowledged; behind them is a beginning of what is still to be written. -/
namespace NormFS

open OrderedBuffer Runs

namespace AckFileWriter

/-- With syncing on, `synced` bytes of the file are known to be on disk. They hold the acknowledged
blocks, and only bytes of the present attempt are on their way after these. -/
structure Settled (header : List UInt8) (s : AckFileWriter) (synced : Nat)
    (flushed : List (UintN × List UInt8)) : Prop where
  settled : flushed ≠ [] → s.task.handed = [] → s.file.isSettled = true
  covered : flushed ≠ [] → header.length + (flushed.flatMap Prod.snd).length ≤ synced
  within : synced ≤ s.content.length

def syncedAfter (synced : Nat) (next : AckFileWriter) : TaskEvent → Nat
  | .syncDone => next.content.length
  | _ => synced

section Filed

variable {header : List UInt8} {s next : AckFileWriter} {synced : Nat}
  {flushed flushed' block rest : List (UintN × List UInt8)} {event : TaskEvent}

/-- Where the disk is done and has nothing of a block, the file ends with the acknowledged ones. -/
theorem Straight.content_of_settled (straight : Straight header s flushed)
    (settled : s.file.isSettled = true) (handed : s.task.handed = []) :
    s.content = header ++ flushed.flatMap Prod.snd := by
  cases failed : s.file.hasFailed with
  | true => exact straight.failed failed
  | false =>
    have promised := straight.promised failed
    rwa [DeferredFile.promised_of_settled settled, handed, List.append_nil] at promised

theorem Settled.shifts (filed : Settled header s synced flushed)
    (shifts : Shifts true s next flushed event flushed') (straight : Straight header next flushed') :
    Settled header next (syncedAfter synced next event) flushed' := by
  cases shifts with
  | keeps quiet file handed =>
    have same : syncedAfter synced next event = synced := by
      cases event <;> first | rfl | exact absurd rfl quiet
    refine ⟨?_, ?_, ?_⟩
    · rw [file, handed]
      exact filed.settled
    · rw [same]
      exact filed.covered
    · rw [same, content, file]
      exact filed.within
  | takes filled taken handed =>
    obtain ⟨-, -, same, -⟩ := DeferredFile.takeOver_spec taken
    refine ⟨fun _ none => ?_, filed.covered, ?_⟩
    · rw [handed] at none
      exact absurd (List.append_eq_nil_iff.mp none).2 filled
    · rw [content, same]
      exact filed.within
  | retries reported handed =>
    obtain ⟨-, -, settled, same⟩ := DeferredFile.report_spec reported
    refine ⟨fun _ _ => settled, filed.covered, ?_⟩
    rw [content, same]
    exact filed.within
  | resyncs settled file handed =>
    refine ⟨fun _ _ => file ▸ settled, filed.covered, ?_⟩
    rw [content, file]
    exact filed.within
  | done unsynced => cases unsynced
  | synced settled whole file handed =>
    have settled' : next.file.isSettled = true := file ▸ settled
    refine ⟨fun _ _ => settled', fun _ => ?_, Nat.le_refl _⟩
    rw [syncedAfter, straight.content_of_settled settled' handed, List.length_append]
  | carried carried handed =>
    refine ⟨fun some none => ?_, filed.covered,
      filed.within.trans (DeferredFile.carry_grows carried).length_le⟩
    rw [handed] at none
    exact absurd ((filed.settled some none).symm.trans (DeferredFile.unsettled_of_carry carried))
      (by decide)

end Filed

structure Filed (header : List UInt8) (s : AckFileWriter) (synced : Nat)
    (flushed block rest : List (UintN × List UInt8)) : Prop extends
    Settled header s synced flushed where
  accounted : Accounted header s flushed block rest
  straight : Straight header s flushed

namespace Filed

variable {header : List UInt8} {s next : AckFileWriter} {synced : Nat}
  {flushed block rest : List (UintN × List UInt8)} {event : TaskEvent}

theorem initial (header : List UInt8) : Filed header (.new header) 0 [] [] [] :=
  ⟨⟨fun some => absurd rfl some, fun some => absurd rfl some, Nat.zero_le _⟩, .initial header,
    .initial header⟩

section

variable (filed : Filed header s synced flushed block rest)

include filed

theorem write (id : UintN) (entry : List UInt8) :
    Filed header (s.write id entry) synced flushed block (rest ++ [(id, entry)]) :=
  ⟨⟨filed.settled, filed.covered, filed.within⟩, filed.accounted.write id entry,
    ⟨filed.straight.promised, filed.straight.failed⟩⟩

theorem close :
    Filed header s.close synced flushed block rest :=
  ⟨⟨filed.settled, filed.covered, filed.within⟩, filed.accounted.close,
    ⟨filed.straight.promised, filed.straight.failed⟩⟩

theorem step
    (moved : s.taskStep true event = some next) (clean : s.failsCleanly true event = true) :
    ∃ flushed' block' rest',
      Filed header next (syncedAfter synced next event) flushed' block' rest' := by
  obtain ⟨flushed', block', rest', accounted, shifts⟩ :=
    filed.accounted.moves (moves_of_taskStep moved)
  have straight := filed.straight.shifts clean shifts
  exact ⟨flushed', block', rest', filed.toSettled.shifts shifts straight, accounted, straight⟩

theorem ended (closes : s.Closes)
    (ended : s.task = .ended) (filled : s.writes.flatMap Prod.snd ≠ []) :
    s.content = header ++ s.writes.flatMap Prod.snd ∧ s.file.isSettled = true := by
  have carries := filed.accounted.carries
  rw [ended] at carries
  cases carries
  have empty : rest.flatMap Prod.snd = [] := by
    rw [← filed.accounted.buffer]
    exact closes.drained (by rw [ended]; rfl)
  have all : s.writes.flatMap Prod.snd = flushed.flatMap Prod.snd := by
    rw [filed.accounted.writes, List.nil_append, List.flatMap_append, empty, List.append_nil]
  have handed : s.task.handed = [] := by
    rw [ended]
    rfl
  have settled := filed.settled (by rintro rfl; exact filled all) handed
  exact ⟨by rw [all]; exact filed.straight.content_of_settled settled handed, settled⟩

end

end Filed

end AckFileWriter

namespace WalTask

def syncedAfter (s next : WalTask) (synced : Nat) : WalEvent → Nat
  | .task event => AckFileWriter.syncedAfter synced next.current.writer event
  | .work => if next.closed.length = s.closed.length then synced else 0
  | _ => synced

/-- Writes fail cleanly, and no file is closed without an entry. -/
def writesTidily (settings : AckFileWriterSettings) (s : WalTask) : WalEvent → Bool
  | .task event => s.current.writer.failsCleanly settings.fsync event
  | .work => s.ready.head?.all (fun entry => !s.mustRotate settings entry || s.hasWritten)
  | _ => true

structure Tidy (s : WalTask) (synced : Nat) : Prop where
  current : ∃ flushed block rest,
    AckFileWriter.Filed s.current.header.writeToBytes s.current.writer synced flushed block rest
  closed : ∀ file ∈ s.closed, file.writer.content = file.image.bytes ∧
    file.writer.file.isSettled = true ∧ file.writer.writes ≠ []
  hasWritten : s.hasWritten = true → s.current.writer.writes.flatMap Prod.snd ≠ []

namespace Tidy

theorem settled {s : WalTask} {synced : Nat} (tidy : s.Tidy synced) :
    ∀ file ∈ s.closed, file.writer.file.isSettled = true :=
  fun file member => (tidy.closed file member).2.1

variable {xxh64 : Hash} {sort : UnstableSort} {settings : AckFileWriterSettings}
  {announced : Prop} {first firstFile : Nat} {s next : WalTask} {entries : List Entry}
  {synced : Nat}

theorem initial (fileId : UintN) (header : WalHeader) (lastEntryId : Option UintN) :
    Tidy (.new fileId header lastEntryId) 0 :=
  ⟨⟨[], [], [], .initial _⟩, by rintro _ ⟨⟩, by rintro ⟨⟩⟩

theorem withWriter (tidy : s.Tidy synced) {writer : AckFileWriter}
    (writes : writer.writes = s.current.writer.writes) {after : Nat}
    (filed : ∃ flushed block rest,
      AckFileWriter.Filed s.current.header.writeToBytes writer after flushed block rest) :
    (s.withWriter writer).Tidy after := by
  refine ⟨filed, tidy.closed, ?_⟩
  intro written
  change writer.writes.flatMap Prod.snd ≠ []
  rw [writes]
  exact tidy.hasWritten written

theorem hand (tidy : s.Tidy synced) {entry : Entry} (rest : List Entry)
    (fits : s.current.header.canHoldEntry entry.1 entry.2.length = true) :
    (s.hand xxh64 entry rest).Tidy synced := by
  have filled : entryBytes xxh64 s.current.header entry.1 entry.2 ≠ [] := by
    rw [ne_eq, ← List.length_eq_zero_iff, length_entryBytes xxh64 fits, WalEntryHeader.size,
      walEntryHeaderFixedOverhead]
    omega
  unfold WalTask.hand
  rw [encodeEntry_ok xxh64 fits]
  obtain ⟨flushed, block, later, filed⟩ := tidy.current
  refine ⟨⟨flushed, block, _, filed.write _ _⟩, tidy.closed, ?_⟩
  intro _
  simp [WalTask.withWriter, AckFileWriter.write, filled]

theorem rotate (tidy : s.Tidy synced) (closes : s.current.writer.Closes)
    (ended : s.current.writer.task = .ended) (written : s.hasWritten = true) (entry : Entry) :
    (s.rotate entry).Tidy 0 := by
  obtain ⟨flushed, block, rest, filed⟩ := tidy.current
  refine ⟨⟨[], [], [], .initial _⟩, ?_, by rintro ⟨⟩⟩
  intro file member
  rcases List.mem_append.mp member with earlier | last
  · exact tidy.closed file earlier
  · obtain rfl := List.mem_singleton.mp last
    have filled := tidy.hasWritten written
    obtain ⟨complete, settled⟩ := filed.ended closes ended filled
    exact ⟨complete, settled, by rintro none; rw [none] at filled; exact filled rfl⟩

theorem step (tidy : s.Tidy synced)
    (sound : Sound xxh64 settings announced first firstFile s entries)
    (syncs : settings.fsync = true) {event : WalEvent} (tidily : s.writesTidily settings event = true)
    (moved : s.step xxh64 sort settings event = some next) :
    next.Tidy (s.syncedAfter next synced event) := by
  cases event with
  | request request =>
    simp only [WalTask.step] at moved
    split at moved <;> cases moved
    exact ⟨tidy.current, tidy.closed, tidy.hasWritten⟩
  | close =>
    simp only [WalTask.step] at moved
    split at moved <;> cases moved
    obtain ⟨flushed, block, rest, filed⟩ := tidy.current
    exact ⟨⟨_, _, _, filed.close⟩, tidy.closed, tidy.hasWritten⟩
  | work =>
    rw [syncedAfter]
    cases works_of_work moved with
    | wait ready full =>
      rw [if_pos (by simp [WalTask.withWriter])]
      obtain ⟨flushed, block, rest, filed⟩ := tidy.current
      refine tidy.withWriter ?_ ⟨_, _, _, filed.close⟩
      rfl
    | @rotate entry rest ready full ended =>
      have place := sound.move ready full ended
      have longer : ((s.rotate entry).hand xxh64 entry rest).closed.length = s.closed.length + 1 := by
        unfold WalTask.hand
        rw [encodeEntry_ok xxh64 place.fits]
        simp [WalTask.withWriter, WalTask.rotate]
      rw [if_neg (by omega)]
      have written : s.hasWritten = true := by
        simpa [writesTidily, ready, full] using tidily
      have rotated := tidy.rotate (sound.closes (sound.running ready)) ended written entry
      exact rotated.hand rest place.fits
    | @hand entry rest ready room =>
      have place := sound.stay ready room
      have same : (s.hand xxh64 entry rest).closed.length = s.closed.length := by
        unfold WalTask.hand
        rw [encodeEntry_ok xxh64 place.fits]
        rfl
      rw [if_pos same]
      exact tidy.hand rest place.fits
    | accept ready batch =>
      rw [if_pos rfl]
      exact ⟨tidy.current, tidy.closed, tidy.hasWritten⟩
  | task event =>
    obtain ⟨writer, stepped, rfl⟩ := Option.map_eq_some_iff.mp moved
    have clean : s.current.writer.failsCleanly settings.fsync event = true := tidily
    rw [syncs] at stepped clean
    obtain ⟨flushed, block, rest, filed⟩ := tidy.current
    exact tidy.withWriter (AckFileWriter.moves_of_taskStep stepped).writes (filed.step stepped clean)
  | late index event =>
    obtain ⟨file, writer, late, rfl⟩ := late_of_step moved
    exact absurd ((tidy.closed file late.mem).2.1.symm.trans late.unsettled) (by decide)

end Tidy

end WalTask

end NormFS
