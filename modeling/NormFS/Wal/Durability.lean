import Mathlib.Data.List.Infix
import NormFS.Wal.Ordering
import NormFS.Wal.Task

/-! What an acknowledgement says about the disk. A block is acknowledged by its last entry, and a
block that could not be written goes back to the front of the buffer. So everything up to the
acknowledged entry is in the files, as long as no write fails behind the back of a flush and the
closing flush of a rotation gets its block out: the new file is opened whether or not it did. -/
namespace NormFS

open OrderedBuffer Runs

/-- The task is in the flush that a shutdown asked for, or past it. -/
def WriterTask.closing : WriterTask → Bool
  | .waiting => false
  | .writing _ closing _ _ | .syncing _ closing _ | .returning _ closing => closing
  | .ended => true

namespace AckFileWriter

/-- The closing flush fails for the last time and leaves its block in the buffer for good. -/
def givesUp (s : AckFileWriter) (event : TaskEvent) : Bool :=
  match event, s.task with
  | .writeFailed, .writing _ closing attempt _ => closing && decide (maxRetries ≤ attempt + 1)
  | .syncFailed, .syncing _ closing attempt => closing && decide (maxRetries ≤ attempt + 1)
  | _, _ => false

structure Closes (s : AckFileWriter) : Prop where
  asked : s.task.closing = true → s.shutdown = true
  drained : s.task.closing = true → s.buffer = []
  keeps : ∀ block, s.task ≠ .returning block true

theorem closing_afterFlush (closing : Bool) : (afterFlush closing).closing = closing := by
  cases closing <;> rfl

theorem closing_afterFailure (block : Block) (closing : Bool) (attempt : Nat) :
    (afterFailure block closing attempt).closing = closing := by
  unfold afterFailure
  split <;> rfl

namespace Closes

variable {s next : AckFileWriter} {fsync : Bool} {event : TaskEvent}

theorem initial (header : List UInt8) : Closes (.new header) := by
  constructor <;> simp [AckFileWriter.new, WriterTask.closing]

theorem goTo (closes : Closes s) {task : WriterTask} (same : task.closing = s.task.closing)
    (keeps : ∀ block, task ≠ .returning block true) {file : DeferredFile UInt8} {sent : List UintN} :
    Closes { s with file := file, sent := sent, task := task } where
  asked := fun closing => closes.asked (same.symm.trans closing)
  drained := fun closing => closes.drained (same.symm.trans closing)
  keeps := keeps

theorem afterFlush_ne (closing : Bool) (block : Block) : afterFlush closing ≠ .returning block true := by
  cases closing <;> exact nofun

theorem afterFailure_ne {block : Block} {closing : Bool} {attempt : Nat}
    (again : (closing && decide (maxRetries ≤ attempt + 1)) = false) (other : Block) :
    afterFailure block closing attempt ≠ .returning other true := by
  unfold afterFailure
  split
  · exact nofun
  · rename_i last
    rintro ⟨⟩
    rw [Bool.true_and, decide_eq_false_iff_not] at again
    omega

theorem moves (closes : Closes s) (persists : s.givesUp event = false)
    (moved : Moves fsync s event next) : Closes next := by
  cases moved with
  | idle waiting empty =>
    refine ⟨?_, fun _ => empty, afterFlush_ne _⟩
    intro closing
    exact (closing_afterFlush _).symm.trans closing
  | take waiting filled => exact ⟨fun closing => closing, fun _ => rfl, nofun⟩
  | takeOver writing => exact closes.goTo (by rw [writing]; rfl) (by rintro _ ⟨⟩)
  | writeFailed writing _ =>
    simp only [givesUp, writing] at persists
    exact closes.goTo (by rw [writing]; exact closing_afterFailure _ _ _) (afterFailure_ne persists)
  | sync _ writing => exact closes.goTo (by rw [writing]; rfl) (by rintro _ ⟨⟩)
  | writeDone _ writing =>
    exact closes.goTo (by rw [writing]; exact closing_afterFlush _) (afterFlush_ne _)
  | syncFailed syncing _ =>
    simp only [givesUp, syncing] at persists
    exact closes.goTo (by rw [syncing]; exact closing_afterFailure _ _ _) (afterFailure_ne persists)
  | syncDone syncing _ =>
    exact closes.goTo (by rw [syncing]; exact closing_afterFlush _) (afterFlush_ne _)
  | @giveBack block closing returning =>
    cases closing with
    | true => exact absurd returning (closes.keeps block)
    | false => exact ⟨nofun, nofun, nofun⟩
  | disk _ => exact ⟨closes.asked, closes.drained, closes.keeps⟩

theorem close (closes : Closes s) : Closes s.close :=
  ⟨fun _ => rfl, closes.drained, closes.keeps⟩

/-- Before a shutdown nothing closes, so new entries do no harm. -/
theorem write (closes : Closes s) (running : s.shutdown = false) (id : UintN) (entry : List UInt8) :
    Closes (s.write id entry) where
  asked := closes.asked
  drained := by
    intro closing
    have asked := closes.asked closing
    rw [running] at asked
    cases asked
  keeps := closes.keeps

end Closes

/-- Nothing is acknowledged while the disk is still writing, or with a failure that is not yet told. -/
def acksSettled (fsync : Bool) (s : AckFileWriter) : TaskEvent → Bool
  | .writeDone => fsync || (s.file.isSettled && !s.file.hasFailed)
  | .syncDone => !s.file.hasFailed
  | _ => true

/-- The acknowledged blocks are in the file, and what the present attempt has handed over will be at
its end, unless the disk fails. -/
structure Written (s : AckFileWriter) (flushed : List (UintN × List UInt8)) : Prop where
  handed : s.file.hasFailed = false → s.task.handed <:+ s.file.promised
  inFile : ∀ w ∈ flushed, w.2 <:+: s.content

namespace Written

variable {s next : AckFileWriter} {flushed flushed' block : List (UintN × List UInt8)} {fsync : Bool}
  {event : TaskEvent}

theorem initial (header : List UInt8) : Written (.new header) [] :=
  ⟨fun _ => List.nil_suffix, by rintro _ ⟨⟩⟩

theorem grows (written : Written s flushed) (grown : s.content <+: next.content) :
    ∀ w ∈ flushed, w.2 <:+: next.content :=
  fun w member => (written.inFile w member).trans grown.isInfix

theorem acknowledge (written : Written s flushed) (settled : s.file.isSettled = true)
    (told : s.file.hasFailed = false) (whole : s.task.handed = block.flatMap Prod.snd)
    (file : next.file = s.file) (handed : next.task.handed = []) : Written next (flushed ++ block) where
  handed := by
    intro _
    rw [handed]
    exact List.nil_suffix
  inFile := by
    rw [content, file]
    intro w member
    rcases List.mem_append.mp member with earlier | new
    · exact written.inFile w earlier
    · have inBlock : w.2 <:+: block.flatMap Prod.snd :=
        List.infix_of_mem_flatten (List.mem_map_of_mem new)
      have atEnd := written.handed told
      rw [whole, DeferredFile.promised_of_settled settled] at atEnd
      exact inBlock.trans atEnd.isInfix

theorem shifts (written : Written s flushed) (settles : s.acksSettled fsync event = true)
    (shifts : Shifts fsync s next flushed event flushed') : Written next flushed' := by
  cases shifts with
  | keeps _ file handed =>
    refine ⟨?_, ?_⟩
    · rw [file, handed]
      exact written.handed
    · rw [content, file]
      exact written.inFile
  | takes filled taken handed =>
    obtain ⟨sound, -, same, promised⟩ := DeferredFile.takeOver_spec taken
    refine ⟨fun _ => ?_, ?_⟩
    · rw [handed, promised]
      obtain ⟨before, split⟩ := written.handed sound
      exact ⟨before, by rw [← List.append_assoc, split]⟩
    · rw [content, same]
      exact written.inFile
  | retries reported handed =>
    obtain ⟨-, -, -, same⟩ := DeferredFile.report_spec reported
    refine ⟨fun _ => handed ▸ List.nil_suffix, ?_⟩
    rw [content, same]
    exact written.inFile
  | resyncs settled file handed =>
    refine ⟨fun _ => handed ▸ List.nil_suffix, ?_⟩
    rw [content, file]
    exact written.inFile
  | done unsynced whole file handed =>
    subst unsynced
    simp only [acksSettled, Bool.false_or, Bool.and_eq_true, Bool.not_eq_true'] at settles
    exact written.acknowledge settles.1 settles.2 whole file handed
  | synced settled whole file handed =>
    exact written.acknowledge settled (by simpa [acksSettled] using settles) whole file handed
  | @carried event carried handed =>
    refine ⟨fun sound' => ?_, written.grows (DeferredFile.carry_grows carried)⟩
    cases event with
    | wrote count =>
      obtain ⟨sound, -, -, promised⟩ := DeferredFile.carry_wrote carried
      rw [handed, promised]
      exact written.handed sound
    | failed =>
      obtain ⟨-, failed, -, -⟩ := DeferredFile.carry_failed carried
      exact absurd (failed.symm.trans sound') (by decide)

end Written

section Acknowledged

variable {header : List UInt8} {s : AckFileWriter} {flushed block rest : List (UintN × List UInt8)}

section

variable (accounted : Accounted header s flushed block rest)

include accounted

theorem Accounted.sent_written {acked : UintN}
    (sent : acked ∈ s.sent) : ∃ w ∈ s.writes, w.1 = acked := by
  obtain ⟨upTo, later, split, last⟩ := accounted.sent acked sent
  obtain ⟨w, found, same⟩ := Option.map_eq_some_iff.mp last
  refine ⟨w, ?_, same⟩
  rw [accounted.writes, split]
  exact List.mem_append_left _ (List.mem_append_left _ (List.mem_of_getLast? found))

theorem Accounted.acked_inFile
    (written : Written s flushed)
    (increasing : (s.writes.map (fun w => w.1.toNat)).Pairwise (· < ·)) {acked : UintN}
    (sent : acked ∈ s.sent) {w : UintN × List UInt8} (member : w ∈ s.writes)
    (upToAcked : w.1.toNat ≤ acked.toNat) : w.2 <:+: s.content := by
  obtain ⟨upTo, later, split, last⟩ := accounted.sent acked sent
  obtain ⟨z, found, rfl⟩ := Option.map_eq_some_iff.mp last
  have inFile := written.inFile
  have writes := accounted.writes
  rw [split] at inFile
  rw [split, List.append_assoc] at writes
  rw [writes] at increasing member
  rcases List.mem_append.mp member with before | after
  · exact inFile w (List.mem_append_left _ before)
  · rw [List.map_append, List.pairwise_append] at increasing
    have above := increasing.2.2 _ (List.mem_map.mpr ⟨z, List.mem_of_getLast? found, rfl⟩) _
      (List.mem_map.mpr ⟨w, after, rfl⟩)
    omega

theorem Accounted.all_inFile
    (written : Written s flushed) (closes : Closes s) (ended : s.task = .ended) : ∀ w ∈ s.writes, w.2 <:+: s.content := by
  have carries := accounted.carries
  rw [ended] at carries
  cases carries
  have empty : rest.flatMap Prod.snd = [] := by
    rw [← accounted.buffer]
    exact closes.drained (by rw [ended]; rfl)
  intro w member
  rw [accounted.writes, List.nil_append] at member
  rcases List.mem_append.mp member with inFlushed | inRest
  · exact written.inFile w inFlushed
  · rw [List.flatMap_eq_nil_iff.mp empty w inRest]
    exact List.nil_infix

end

end Acknowledged

end AckFileWriter

namespace AckFileWriter.Moves

variable {fsync : Bool} {s next : AckFileWriter} {event : TaskEvent}

theorem shutdown (moved : Moves fsync s event next) : next.shutdown = s.shutdown := by
  cases moved <;> rfl

theorem currentSize (moved : Moves fsync s event next) : next.currentSize = s.currentSize := by
  cases moved <;> rfl

end AckFileWriter.Moves

namespace WalTask

/-- The writer of a file never loses track of a call, and what it has acknowledged is in the file. -/
def OwnedFile.Accounted (file : OwnedFile) : Prop :=
  ∃ flushed block rest,
    AckFileWriter.Accounted file.header.writeToBytes file.writer flushed block rest ∧
      AckFileWriter.Written file.writer flushed

theorem OwnedFile.Accounted.initial (fileId : UintN) (header : WalHeader) :
    OwnedFile.Accounted (.new fileId header) :=
  ⟨[], [], [], .initial _, .initial _⟩

variable {file : OwnedFile}

theorem OwnedFile.Accounted.moves (accounted : OwnedFile.Accounted file)
    {fsync : Bool} {event : TaskEvent} {writer : AckFileWriter}
    (settles : file.writer.acksSettled fsync event = true)
    (moved : AckFileWriter.Moves fsync file.writer event writer) :
    OwnedFile.Accounted { file with writer := writer } := by
  obtain ⟨flushed, block, rest, accounted, written⟩ := accounted
  obtain ⟨flushed', block', rest', accounted', shifts⟩ := accounted.moves moved
  exact ⟨flushed', block', rest', accounted', written.shifts settles shifts⟩

theorem OwnedFile.Accounted.close (accounted : OwnedFile.Accounted file) :
    OwnedFile.Accounted { file with writer := file.writer.close } := by
  obtain ⟨flushed, block, rest, accounted, written⟩ := accounted
  exact ⟨flushed, block, rest, accounted.close, written.handed, written.inFile⟩

theorem OwnedFile.Accounted.write (accounted : OwnedFile.Accounted file)
    (id : UintN) (entry : List UInt8) :
    OwnedFile.Accounted { file with writer := file.writer.write id entry } := by
  obtain ⟨flushed, block, rest, accounted, written⟩ := accounted
  exact ⟨flushed, block, _, accounted.write id entry, written.handed, written.inFile⟩

/-- The task between two steps. `entries` are those handed to the files so far. -/
structure Sound (xxh64 : Hash) (settings : AckFileWriterSettings) (announced : Prop)
    (first firstFile : Nat) (s : WalTask) (entries : List Entry) : Prop where
  wrote : Wrote xxh64 announced first firstFile (s.image settings) entries
  accepted : s.accepted = entries ++ s.ready
  numbered : Numbered (first + entries.length) s.ready
  next : nextId s.buffer.lastWrittenId = first + s.accepted.length
  kept : (s.accepted ++ s.buffer.pending).Perm s.received
  accounted : ∀ file ∈ s.files, OwnedFile.Accounted file
  closed : ∀ file ∈ s.closed, ∀ w ∈ file.writer.writes, w.2 <:+: file.writer.content
  closes : s.stopping = false → s.current.writer.Closes
  asked : s.current.writer.shutdown = true →
    s.stopping = true ∨ ∃ entry rest, s.ready = entry :: rest ∧ s.mustRotate settings entry = true
  stopped : s.stopping = true → s.ready = [] ∧ s.batch = []

namespace Sound

variable {xxh64 : Hash} {sort : UnstableSort} {settings : AckFileWriterSettings}
  {announced : Prop} {first firstFile : Nat} {s : WalTask} {entries : List Entry}

theorem sized (sound : Sound xxh64 settings announced first firstFile s entries) : s.Sized := by
  obtain ⟨flushed, block, rest, accounted, -⟩ := sound.accounted s.current (by simp [files])
  rw [WalTask.Sized, accounted.size, FileImage.bytes, List.length_append]
  rfl

variable {writer : AckFileWriter} {entry : Entry} {rest : List Entry}

section

variable (sound : Sound xxh64 settings announced first firstFile s entries)

include sound

theorem withWriter (writes : writer.writes = s.current.writer.writes)
    (size : writer.currentSize = s.current.writer.currentSize)
    (accounted : OwnedFile.Accounted { s.current with writer := writer })
    (closes : s.stopping = false → writer.Closes)
    (asked : writer.shutdown = true →
      s.stopping = true ∨ ∃ entry rest, s.ready = entry :: rest ∧ s.mustRotate settings entry = true) :
    Sound xxh64 settings announced first firstFile (s.withWriter writer) entries where
  wrote := by
    rw [image_withWriter writes]
    exact sound.wrote
  accepted := sound.accepted
  numbered := sound.numbered
  next := sound.next
  kept := sound.kept
  accounted := by
    intro file member
    rcases List.mem_append.mp member with earlier | last
    · exact sound.accounted file (List.mem_append_left _ earlier)
    · obtain rfl := List.mem_singleton.mp last
      exact accounted
  closed := sound.closed
  closes := closes
  asked := by
    intro shutdown
    rcases asked shutdown with stopping | ⟨entry, rest, ready, full⟩
    · exact .inl stopping
    · refine .inr ⟨entry, rest, ready, ?_⟩
      rw [← full]
      simp only [WalTask.mustRotate, WalTask.withWriter, AckFileWriter.canAdd, size]
  stopped := sound.stopped

theorem task {event : TaskEvent}
    (moved : AckFileWriter.Moves settings.fsync s.current.writer event writer)
    (settles : s.current.writer.acksSettled settings.fsync event = true)
    (persists : s.stopping = false → s.current.writer.givesUp event = false) :
    Sound xxh64 settings announced first firstFile (s.withWriter writer) entries := by
  have accounted := sound.accounted s.current (by simp [files])
  apply sound.withWriter moved.writes moved.currentSize (accounted.moves settles moved)
  · intro running
    exact (sound.closes running).moves (persists running) moved
  · rw [moved.shutdown]
    exact sound.asked

theorem late {index : Nat}
    {event : DiskEvent} {file : OwnedFile}
    (late : Late settings.fsync s index event file writer) :
    Sound xxh64 settings announced first firstFile
      { s with closed := s.closed.set index { file with writer := writer } } entries where
  wrote := by
    have same : OwnedFile.image { file with writer := writer } = file.image := by
      rw [OwnedFile.image, late.moved.writes]
      rfl
    have image := late.map OwnedFile.image same
    rw [WalTask.image, image]
    exact sound.wrote
  accepted := sound.accepted
  numbered := sound.numbered
  next := sound.next
  kept := sound.kept
  accounted := by
    intro f member
    rcases List.mem_append.mp member with earlier | last
    · have all : ∀ f ∈ s.closed, OwnedFile.Accounted f :=
        fun f member => sound.accounted f (List.mem_append_left _ member)
      exact forall_mem_set all ((all file late.mem).moves rfl late.moved) index f earlier
    · exact sound.accounted f (List.mem_append_right _ last)
  closed := by
    refine forall_mem_set sound.closed ?_ index
    rw [late.moved.writes]
    intro w member
    exact (sound.closed file late.mem w member).trans late.content.isInfix
  closes := sound.closes
  asked := sound.asked
  stopped := sound.stopped

end

structure Place (settings : AckFileWriterSettings) (s p : WalTask) (entry : Entry) : Prop where
  chosen : p = if s.mustRotate settings entry then s.rotate entry else s
  fits : p.current.header.canHoldEntry entry.1 entry.2.length = true
  running : p.current.writer.shutdown = false
  closes : p.current.writer.Closes
  accounted : ∀ file ∈ p.files, OwnedFile.Accounted file
  closed : ∀ file ∈ p.closed, ∀ w ∈ file.writer.writes, w.2 <:+: file.writer.content

section

variable (sound : Sound xxh64 settings announced first firstFile s entries)

include sound

theorem running (ready : s.ready = entry :: rest) :
    s.stopping = false := by
  by_contra stopping
  have empty := (sound.stopped (Bool.not_eq_false _ ▸ stopping)).1
  rw [ready] at empty
  cases empty

theorem stay (ready : s.ready = entry :: rest)
    (room : s.mustRotate settings entry = false) : Place settings s s entry where
  chosen := by rw [room]; rfl
  fits := by
    simp only [WalTask.mustRotate, Bool.or_eq_false_iff, Bool.not_eq_false'] at room
    exact room.2
  running := by
    by_contra shutdown
    rcases sound.asked (Bool.not_eq_false _ ▸ shutdown) with stopping | ⟨other, later, same, full⟩
    · rw [sound.running ready] at stopping
      cases stopping
    · cases ready.symm.trans same
      rw [room] at full
      cases full
  closes := sound.closes (sound.running ready)
  accounted := sound.accounted
  closed := sound.closed

theorem move (ready : s.ready = entry :: rest)
    (full : s.mustRotate settings entry = true) (ended : s.current.writer.task = .ended) :
    Place settings s (s.rotate entry) entry where
  chosen := by rw [full]; rfl
  fits := s.current.header.resize_canHoldEntry entry.1 entry.2.length
  running := rfl
  closes := .initial _
  accounted := by
    intro file member
    rcases List.mem_append.mp member with earlier | last
    · exact sound.accounted file earlier
    · obtain rfl := List.mem_singleton.mp last
      exact .initial _ _
  closed := by
    intro file member
    rcases List.mem_append.mp member with earlier | last
    · exact sound.closed file earlier
    · obtain rfl := List.mem_singleton.mp last
      obtain ⟨_, _, _, accounted, written⟩ := sound.accounted s.current (by simp [files])
      exact accounted.all_inFile written (sound.closes (sound.running ready)) ended

end

theorem hand (sound : Sound xxh64 settings announced first firstFile s entries) {p : WalTask}
    {entry : Entry} {rest : List Entry} (ready : s.ready = entry :: rest)
    (place : Place settings s p entry) :
    Sound xxh64 settings announced first firstFile (p.hand xxh64 entry rest) (entries ++ [entry]) := by
  obtain ⟨next, numbered⟩ := numbered_cons.mp (ready ▸ sound.numbered)
  obtain ⟨-, -, wrote⟩ := sound.wrote.writeEntry next
  rw [← image_writeEntry sound.sized entry rest, ← place.chosen] at wrote
  have same : p.accepted = s.accepted ∧ p.buffer = s.buffer ∧ p.received = s.received ∧
      p.stopping = s.stopping := by
    rw [place.chosen]
    split <;> exact ⟨rfl, rfl, rfl, rfl⟩
  obtain ⟨accepted, buffer, received, stopping⟩ := same
  unfold WalTask.hand at wrote ⊢
  rw [encodeEntry_ok xxh64 place.fits] at wrote ⊢
  refine ⟨wrote, ?_, ?_, ?_, ?_, ?_, place.closed, ?_, ?_, ?_⟩
  · change p.accepted = entries ++ [entry] ++ rest
    rw [accepted, sound.accepted, ready, List.append_assoc]
    rfl
  · rw [List.length_append, List.length_singleton, ← Nat.add_assoc]
    exact numbered
  · change nextId p.buffer.lastWrittenId = first + p.accepted.length
    rw [buffer, accepted]
    exact sound.next
  · change (p.accepted ++ p.buffer.pending).Perm p.received
    rw [buffer, accepted, received]
    exact sound.kept
  · intro file member
    rcases List.mem_append.mp member with earlier | last
    · exact place.accounted file (List.mem_append_left _ earlier)
    · obtain rfl := List.mem_singleton.mp last
      exact (place.accounted p.current (by simp [files])).write entry.1 _
  · intro _
    exact place.closes.write place.running _ _
  · intro shutdown
    exact absurd (place.running.symm.trans shutdown) (by decide)
  · intro stopped
    change p.stopping = true at stopped
    rw [stopping, sound.running ready] at stopped
    cases stopped

section

variable (sound : Sound xxh64 settings announced first firstFile s entries)

include sound

theorem accept (ready : s.ready = [])
    (batch : s.batch = entry :: rest) :
    Sound xxh64 settings announced first firstFile { s with
      buffer := (s.buffer.accept sort entry).2
      batch := rest
      ready := (s.buffer.accept sort entry).1
      received := s.received ++ [entry]
      accepted := s.accepted ++ (s.buffer.accept sort entry).1 } entries := by
  obtain ⟨numbered, next, kept⟩ := accept_spec sort s.buffer entry
  have all : s.accepted = entries := by
    rw [sound.accepted, ready, List.append_nil]
  refine ⟨sound.wrote.withBuffer _, ?_, ?_, ?_, ?_, sound.accounted, sound.closed, sound.closes, ?_, ?_⟩
  · change s.accepted ++ _ = entries ++ _
    rw [all]
  · rw [sound.next, all] at numbered
    exact numbered
  · change _ = first + (s.accepted ++ _).length
    rw [next, sound.next, List.length_append, Nat.add_assoc]
  · calc
      (s.accepted ++ (s.buffer.accept sort entry).1 ++ (s.buffer.accept sort entry).2.pending).Perm
          (s.accepted ++ (entry :: s.buffer.pending)) := by
        rw [List.append_assoc]
        exact kept.append_left s.accepted
      _ |>.Perm (entry :: (s.accepted ++ s.buffer.pending)) := List.perm_middle
      _ |>.Perm (entry :: s.received) := sound.kept.cons _
      _ |>.Perm (s.received ++ [entry]) := (List.perm_append_singleton _ _).symm
  · intro shutdown
    rcases sound.asked shutdown with stopping | ⟨other, later, same, _⟩
    · exact .inl stopping
    · rw [ready] at same
      cases same
  · intro stopping
    have empty := (sound.stopped stopping).2
    rw [batch] at empty
    cases empty

theorem work {next : WalTask}
    (works : Works xxh64 sort settings s next) :
    ∃ entries', Sound xxh64 settings announced first firstFile next entries' := by
  cases works with
  | @wait entry rest ready full =>
    have accounted := sound.accounted s.current (by simp [files])
    refine ⟨entries, sound.withWriter rfl rfl accounted.close ?_ ?_⟩
    · intro running
      exact (sound.closes running).close
    · intro _
      exact .inr ⟨entry, rest, ready, full⟩
  | rotate ready full ended => exact ⟨_, sound.hand ready (sound.move ready full ended)⟩
  | hand ready room => exact ⟨_, sound.hand ready (sound.stay ready room)⟩
  | accept ready batch => exact ⟨_, sound.accept ready batch⟩

theorem request
    (running : s.stopping = false) (batch : List Entry) :
    Sound xxh64 settings announced first firstFile { s with batch := batch } entries :=
  ⟨sound.wrote, sound.accepted, sound.numbered, sound.next, sound.kept, sound.accounted, sound.closed,
    sound.closes, sound.asked, fun stopping => absurd (running.symm.trans stopping) (by decide)⟩

theorem stop
    (ready : s.ready = []) (batch : s.batch = []) :
    Sound xxh64 settings announced first firstFile
      { s.withWriter s.current.writer.close with stopping := true } entries where
  wrote := sound.wrote
  accepted := sound.accepted
  numbered := sound.numbered
  next := sound.next
  kept := sound.kept
  accounted := by
    intro file member
    rcases List.mem_append.mp member with earlier | last
    · exact sound.accounted file (List.mem_append_left _ earlier)
    · obtain rfl := List.mem_singleton.mp last
      exact (sound.accounted s.current (by simp [files])).close
  closed := sound.closed
  closes := nofun
  asked := fun _ => .inl rfl
  stopped := fun _ => ⟨ready, batch⟩

end

theorem initial (fileId : UintN) (header : WalHeader) (lastEntryId : Option UintN) :
    Sound xxh64 settings (header.numEntriesBefore.toNat = nextId lastEntryId) (nextId lastEntryId)
      fileId.toNat (.new fileId header lastEntryId) [] where
  wrote := (served_new xxh64 fileId header settings.maxFileSize lastEntryId).wrote
  accepted := rfl
  numbered := rfl
  next := rfl
  kept := .refl _
  accounted := by
    intro file member
    obtain rfl := List.mem_singleton.mp member
    exact .initial fileId header
  closed := by rintro _ ⟨⟩
  closes := fun _ => .initial header.writeToBytes
  asked := by rintro ⟨⟩
  stopped := by rintro ⟨⟩

end Sound

/-- Nothing is acknowledged before the disk has it, and the closing flush of a rotation does not give
up. -/
def losesNothing (settings : AckFileWriterSettings) (s : WalTask) : WalEvent → Bool
  | .task event => s.current.writer.acksSettled settings.fsync event &&
      (s.stopping || !s.current.writer.givesUp event)
  | _ => true

theorem Sound.step {xxh64 : Hash} {sort : UnstableSort}
    {settings : AckFileWriterSettings} {announced : Prop} {first firstFile : Nat} {s next : WalTask}
    {entries : List Entry} {event : WalEvent}
    (sound : Sound xxh64 settings announced first firstFile s entries)
    (keeps : s.losesNothing settings event = true) (moved : s.step xxh64 sort settings event = some next) :
    ∃ entries', Sound xxh64 settings announced first firstFile next entries' := by
  cases event with
  | request request =>
    simp only [WalTask.step] at moved
    split at moved <;> cases moved
    rename_i idle
    simp only [WalTask.idle, Bool.and_eq_true, Bool.not_eq_true'] at idle
    exact ⟨entries, sound.request idle.2 _⟩
  | close =>
    simp only [WalTask.step] at moved
    split at moved <;> cases moved
    rename_i idle
    simp only [WalTask.idle, Bool.and_eq_true, List.isEmpty_iff] at idle
    exact ⟨entries, sound.stop idle.1.1 idle.1.2⟩
  | work => exact sound.work (works_of_work moved)
  | task event =>
    obtain ⟨writer, stepped, rfl⟩ := Option.map_eq_some_iff.mp moved
    simp only [losesNothing, Bool.and_eq_true] at keeps
    refine ⟨entries, sound.task (AckFileWriter.moves_of_taskStep stepped) keeps.1 ?_⟩
    intro running
    simpa [running] using keeps.2
  | late index event =>
    obtain ⟨file, writer, late, rfl⟩ := late_of_step moved
    exact ⟨entries, sound.late late⟩

section Acknowledged

variable {xxh64 : Hash} {settings : AckFileWriterSettings} {announced : Prop}
  {first firstFile : Nat} {s : WalTask} {entries : List Entry}

theorem files_image (s : WalTask) (settings : AckFileWriterSettings) :
    (s.image settings).files = s.files.map OwnedFile.image := by
  rw [files, List.map_append]
  rfl

variable {acked : UintN}

section

variable (sound : Sound xxh64 settings announced first firstFile s entries)

include sound

theorem Sound.sent_written
    {file : OwnedFile} (member : file ∈ s.files) (sent : acked ∈ file.writer.sent) :
    acked.toNat ∈ file.image.writes.map (fun w => w.1.toNat) := by
  obtain ⟨flushed, block, rest, accounted, -⟩ := sound.accounted file member
  obtain ⟨w, written, rfl⟩ := accounted.sent_written sent
  exact List.mem_map.mpr ⟨w, written, rfl⟩

theorem Sound.acked_handed (sent : acked ∈ s.sent) :
    first ≤ acked.toNat ∧ acked.toNat < first + entries.length := by
  obtain ⟨file, member, sentByFile⟩ := List.mem_flatMap.mp sent
  obtain ⟨handed, numbered⟩ := sound.wrote.handedIds
  rw [← mem_ids_consecutive numbered, ← handed, WriterState.handedIds, files_image]
  exact List.mem_flatMap.mpr ⟨file.image, List.mem_map_of_mem member, sound.sent_written member sentByFile⟩

/-- Everything released up to an acknowledged entry is in a file. -/
theorem Sound.acked_inFile (sent : acked ∈ s.sent) {entry : Entry} (member : entry ∈ s.accepted)
    (upToAcked : entry.1.toNat ≤ acked.toNat) :
    ∃ file ∈ s.files, entryBytes xxh64 file.header entry.1 entry.2 <:+: file.writer.content := by
  have range := sound.acked_handed sent
  obtain ⟨closed, opened, inv, rfl⟩ := sound.wrote
  have increasing : ((closed.flatten ++ opened).map (fun e => e.1.toNat)).Pairwise (· < ·) := by
    rw [inv.numbered]
    exact List.pairwise_lt_range'
  rw [List.map_append, List.pairwise_append] at increasing
  rw [sound.accepted] at member
  rcases List.mem_append.mp member with handed | waiting
  · rcases List.mem_append.mp handed with inClosed | inCurrent
    · obtain ⟨image, among, written⟩ := laidOut_mem inv.completed inClosed
      obtain ⟨file, fileAmong, rfl⟩ := List.mem_map.mp among
      exact ⟨file, List.mem_append_left _ fileAmong, sound.closed file fileAmong _ written⟩
    · have current : s.current ∈ s.files := by simp [files]
      have written : (entry.1, entryBytes xxh64 s.current.header entry.1 entry.2) ∈ s.current.writer.writes := by
        have writes := inv.current.writes
        change s.current.writer.writes = _ at writes
        rw [writes]
        exact List.mem_map_of_mem inCurrent
      refine ⟨s.current, current, ?_⟩
      obtain ⟨file, fileMember, sentByFile⟩ := List.mem_flatMap.mp sent
      rcases List.mem_append.mp fileMember with earlier | last
      · -- an acknowledgement of an earlier file is below everything in the current one
        have below : acked.toNat ∈ closed.flatten.map (fun e => e.1.toNat) := by
          rw [← laidOut_ids inv.completed]
          exact List.mem_flatMap.mpr
            ⟨file.image, List.mem_map_of_mem earlier, sound.sent_written fileMember sentByFile⟩
        have above := increasing.2.2 _ below _ (List.mem_map.mpr ⟨entry, inCurrent, rfl⟩)
        omega
      · obtain rfl := List.mem_singleton.mp last
        obtain ⟨flushed, block, rest, accounted, inFile⟩ := sound.accounted _ current
        apply accounted.acked_inFile inFile _ sentByFile written upToAcked
        have writes := inv.current.writes
        change s.current.writer.writes = _ at writes
        rw [writes, List.map_map]
        exact increasing.2.1
  · have later := (mem_ids_consecutive sound.numbered entry.1.toNat).mp
      (List.mem_map.mpr ⟨entry, waiting, rfl⟩)
    omega

end

end Acknowledged

/- In every run in which the disk has what is acknowledged and no closing flush of a rotation gives up,
an acknowledgement means that every entry released up to it is in a file, and no number up to it has
been passed over. -/
theorem acked_entries_on_disk (xxh64 : Hash) (sort : UnstableSort)
    (settings : AckFileWriterSettings) (fileId : UintN) (header : WalHeader)
    (lastEntryId : Option UintN) (events : List WalEvent) (s : WalTask)
    (ran : Runs.run (step xxh64 sort settings) (.new fileId header lastEntryId) events = some s)
    (keeps : Along (step xxh64 sort settings) (losesNothing settings · ·)
      (.new fileId header lastEntryId) events) :
    (∀ entry ∈ s.accepted, entry ∈ s.received) ∧
    ∀ acked ∈ s.sent,
      (∀ entry ∈ s.accepted, entry.1.toNat ≤ acked.toNat →
        ∃ file ∈ s.files, entryBytes xxh64 file.header entry.1 entry.2 <:+: file.writer.content) ∧
      (∀ entry ∈ s.received, nextId lastEntryId ≤ entry.1.toNat → entry.1.toNat ≤ acked.toNat →
        ∃ same ∈ s.accepted, same.1.toNat = entry.1.toNat) := by
  obtain ⟨entries, sound⟩ := run_invariant
    (fun s => ∃ entries, Sound xxh64 settings (header.numEntriesBefore.toNat = nextId lastEntryId)
      (nextId lastEntryId) fileId.toNat s entries)
    (fun _ _ _ ⟨_, sound⟩ keeps moved => sound.step keeps moved)
    ⟨[], .initial fileId header lastEntryId⟩ keeps ran
  refine ⟨fun entry member => sound.kept.subset (List.mem_append_left _ member), ?_⟩
  intro acked sent
  refine ⟨fun entry member upToAcked => sound.acked_inFile sent member upToAcked, ?_⟩
  intro entry _ since upToAcked
  have range := sound.acked_handed sent
  obtain ⟨_, numbered⟩ := sound.wrote.handedIds
  obtain ⟨same, member, value⟩ := List.mem_map.mp
    ((mem_ids_consecutive numbered entry.1.toNat).mpr ⟨since, by omega⟩)
  exact ⟨same, sound.accepted ▸ List.mem_append_left _ member, value⟩

/- The disk is full: the header is in the file, the write of the entry fails. The sync after it is a
success all the same, and the entry is acknowledged. -/
theorem acked_entry_in_no_file :
    let events : List WalEvent := [.request (.enqueue .zero .empty), .work, .work,
      .task (.disk (.wrote 33)), .task .flush, .task (.takeOver 28), .task .writeDone,
      .task (.disk .failed), .task .syncDone]
    ∃ s, Runs.run (step (fun _ => 0) .insertion ⟨1000, true⟩) (.new .one .default none) events =
        some s ∧
      s.sent = [.zero] ∧ s.accepted = [(.zero, .empty)] ∧
      ¬ ∃ file ∈ s.files,
        entryBytes (fun _ => 0) file.header .zero .empty <:+: file.writer.content := by
  intro events
  have shown : ((Runs.run (step (fun _ => 0) .insertion ⟨1000, true⟩) (.new .one .default none)
      events).any fun s => decide (s.sent = [.zero] ∧ s.accepted = [(.zero, .empty)] ∧
        ¬ ∃ file ∈ s.files,
          entryBytes (fun _ => 0) file.header .zero .empty <:+: file.writer.content)) = true := by
    decide +kernel
  obtain ⟨s, ran, holds⟩ := (Option.any_eq_true _ _).mp shown
  exact ⟨s, ran, of_decide_eq_true holds⟩

/- Two entries that do not fit into one file. The first write fails, and so does the sync; the attempt
after the one that is told of it gets the entry out. -/
theorem acked_entries_on_disk_two_files :
    let events : List WalEvent := [.request (.enqueue .zero .empty), .work, .work,
      .request (.enqueue .one .empty), .work, .work, .task (.disk (.wrote 33)), .task .flush,
      .task (.takeOver 28), .task .writeDone, .task (.disk .failed), .task .syncFailed,
      .task .writeFailed, .task (.takeOver 28), .task .writeDone, .task (.disk (.wrote 28)),
      .task .syncDone, .work, .task (.disk (.wrote 33)), .task .flush, .task (.takeOver 28),
      .task .writeDone, .task (.disk (.wrote 28)), .task .syncDone]
    ∃ s, Runs.run (step (fun _ => 0) .insertion ⟨60, true⟩) (.new .one .default none) events =
        some s ∧
      s.sent = [.zero, .one] ∧ s.accepted = [(.zero, .empty), (.one, .empty)] ∧
      ∃ file ∈ s.files, entryBytes (fun _ => 0) file.header .zero .empty <:+: file.writer.content := by
  intro events
  have shown : ((Runs.run (step (fun _ => 0) .insertion ⟨60, true⟩) (.new .one .default none)
      events).any fun s =>
        decide (s.sent = [.zero, .one] ∧ s.accepted = [(.zero, .empty), (.one, .empty)])) = true := by
    decide +kernel
  obtain ⟨s, ran, holds⟩ := (Option.any_eq_true _ _).mp shown
  obtain ⟨sent, accepted⟩ := of_decide_eq_true holds
  obtain ⟨-, durable⟩ := acked_entries_on_disk (fun _ => 0) .insertion ⟨60, true⟩ .one .default none
    _ s ran (by decide +kernel)
  refine ⟨s, ran, sent, accepted, (durable .one ?_).1 (.zero, .empty) ?_ (by decide)⟩
  · rw [sent]
    exact List.mem_cons_of_mem _ List.mem_cons_self
  · rw [accepted]
    exact List.mem_cons_self

end WalTask

end NormFS
