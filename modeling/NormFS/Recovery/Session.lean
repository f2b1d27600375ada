import NormFS.Recovery.Journal
import NormFS.Wal.Progress
import NormFS.Wal.Synced

/-! One session of a queue behind the pages that earlier sessions left: its closed files are complete pages,
and any beginning of the current one that has all that was synced is a page with every acknowledged entry. -/
namespace NormFS

open OrderedBuffer Runs Framing

section Pages

variable {xxh64 : Hash} {older : List Page}

theorem Serial.snoc (chained : Serial xxh64 older) (inhabited : ∀ page ∈ older, 0 < page.count) {page : Page}
    (sound : page.Sound xxh64) (first : page.segment.first = (older.flatMap Page.whole).length) :
    Serial xxh64 (older ++ [page]) where
  sound := by
    intro other member
    rcases List.mem_append.mp member with earlier | last
    · exact chained.sound other earlier
    · obtain rfl := List.mem_singleton.mp last
      exact sound
  inhabited := by
    rw [List.dropLast_concat]
    exact inhabited
  numbered := by
    intro i other placed
    by_cases last : i = older.length
    · subst last
      rw [List.getElem?_concat_length] at placed
      cases placed
      rw [List.take_left' rfl]
      exact first
    · have inside : i < older.length := by
        have bound := (List.getElem?_eq_some_iff.mp placed).1
        rw [List.length_append, List.length_singleton] at bound
        omega
      rw [List.getElem?_append_left inside] at placed
      rw [List.take_append_of_le_length (Nat.le_of_lt inside)]
      exact chained.numbered i other placed

theorem Serial.init {last : Page} (chained : Serial xxh64 (older ++ [last])) :
    Serial xxh64 older ∧ ∀ page ∈ older, 0 < page.count := by
  have inhabited := chained.inhabited
  rw [List.dropLast_concat] at inhabited
  refine ⟨⟨fun page member => chained.sound page (List.mem_append_left _ member),
    fun page member => inhabited page (List.mem_of_mem_dropLast member), ?_⟩, inhabited⟩
  intro i page placed
  have inside := (List.getElem?_eq_some_iff.mp placed).1
  have first := chained.numbered i page (by rw [List.getElem?_append_left inside]; exact placed)
  rwa [List.take_append_of_le_length (Nat.le_of_lt inside)] at first

theorem Serial.resumed {pages : List Page} (chained : Serial xxh64 pages) :
    Serial xxh64 (NormFS.resumed pages) ∧ (∀ page ∈ NormFS.resumed pages, 0 < page.count) ∧
      (NormFS.resumed pages).flatMap Page.whole = pages.flatMap Page.whole := by
  rcases List.eq_nil_or_concat pages with rfl | ⟨init, last, rfl⟩
  · exact ⟨chained, nofun, rfl⟩
  · rw [List.concat_eq_append] at chained ⊢
    obtain ⟨initChained, inhabited⟩ := chained.init
    rw [NormFS.resumed, List.getLast?_concat]
    split
    · rename_i empty
      have zero : last.count = 0 := by simpa using empty
      rw [List.dropLast_concat]
      refine ⟨initChained, inhabited, ?_⟩
      rw [List.flatMap_append, List.flatMap_singleton, Page.whole, zero, List.take_zero, List.append_nil]
    · rename_i filled
      have positive : 0 < last.count := by
        have nonzero : last.count ≠ 0 := by simpa using filled
        omega
      refine ⟨chained, ?_, rfl⟩
      intro page member
      rcases List.mem_append.mp member with earlier | here
      · exact inhabited page earlier
      · obtain rfl := List.mem_singleton.mp here
        exact positive

theorem sum_entrySizes (xxh64 : Hash) {h : WalHeader} {entries : List Entry}
    (fits : CanHold h entries) : (entriesBytes xxh64 h entries).length = (entrySizes h entries).sum := by
  rw [entriesBytes, List.length_flatMap, ← blocks_sizes xxh64 fits, List.map_map]
  rfl

theorem Page.count_complete {page : Page} (fits : CanHold page.segment.header page.segment.entries)
    (complete : page.bytes.data = page.segment.bytes xxh64) : page.count = page.segment.entries.length := by
  have length : page.bytes.length - page.segment.header.size =
      (entrySizes page.segment.header page.segment.entries).sum := by
    rw [Bytes.length, complete, Segment.bytes, List.length_append, WalHeader.length_writeToBytes,
      Nat.add_sub_cancel_left, sum_entrySizes xxh64 fits]
  apply Nat.le_antisymm page.count_le
  rw [Page.count, length]
  apply le_wholeCount
  · rw [entrySizes, List.length_map]
  · rw [entrySizes, List.take_of_length_le (by rw [List.length_map])]

theorem LaidOut.first {file : FileImage} {entries : List Entry} {first : Nat}
    (laid : LaidOut xxh64 True file entries) (numbered : Numbered first entries) (filled : entries ≠ []) :
    file.header.numEntriesBefore.toNat = first := by
  obtain ⟨e, rest, rfl⟩ := List.exists_cons_of_ne_nil filled
  rw [laid.starts trivial e rfl]
  exact (numbered_cons.mp numbered).1

theorem laidOut_filled {announced : Prop} {files : List FileImage} {layout : List (List Entry)}
    (laid : List.Forall₂ (LaidOut xxh64 announced) files layout) (filled : ∀ file ∈ files, file.writes ≠ []) :
    ∀ entries ∈ layout, entries ≠ [] := by
  induction laid with
  | nil => exact nofun
  | @cons file es files layout first laid ih =>
    intro entries member
    rcases List.mem_cons.mp member with rfl | later
    · rintro rfl
      exact filled file List.mem_cons_self first.writes
    · exact ih (fun other among => filled other (List.mem_cons_of_mem _ among)) entries later

theorem Serial.append {files : List FileImage} {layout : List (List Entry)} {contents : List Bytes}
    (chained : Serial xxh64 older) (inhabited : ∀ page ∈ older, 0 < page.count)
    (laid : List.Forall₂ (LaidOut xxh64 True) files layout)
    (complete : contents.map Bytes.data = files.map FileImage.bytes)
    (numbered : Numbered (older.flatMap Page.whole).length layout.flatten)
    (filled : ∀ entries ∈ layout, entries ≠ []) (narrow : ∀ file ∈ files, file.header.Narrow)
    (small : ∀ e ∈ layout.flatten, e.1.toNat < 2 ^ 64) :
    ∃ pages, pages.map Page.bytes = contents ∧ Serial xxh64 (older ++ pages) ∧
      (∀ page ∈ older ++ pages, 0 < page.count) ∧ pages.flatMap Page.whole = layout.flatten := by
  induction laid generalizing older contents with
  | nil =>
    obtain rfl : contents = [] := List.map_eq_nil_iff.mp complete
    exact ⟨[], rfl, by rwa [List.append_nil], by rwa [List.append_nil], rfl⟩
  | @cons file entries files layout first laid ih =>
    obtain ⟨bytes, contents, rfl⟩ : ∃ b bs, contents = b :: bs := by
      cases contents with
      | nil => cases complete
      | cons b bs => exact ⟨b, bs, rfl⟩
    obtain ⟨whole, complete⟩ := List.cons.inj complete
    rw [List.flatten_cons] at numbered small
    obtain ⟨here, later⟩ := numbered_append.mp numbered
    have some := filled entries (by simp)
    let page : Page := ⟨⟨file.header, entries⟩, bytes⟩
    have begins := first.first here some
    have count : page.count = entries.length := page.count_complete first.fits (whole.trans first.bytes)
    have sound : page.Sound xxh64 := by
      refine ⟨?_, ⟨first.fits, ?_⟩, narrow file (by simp), fun e member => small e (List.mem_append_left _ member)⟩
      · exact (whole.trans first.bytes) ▸ List.prefix_rfl
      · change entries.map _ = List.range' file.header.numEntriesBefore.toNat entries.length
        rw [begins]
        exact here
    have positive : 0 < page.count := by
      rw [count]
      exact List.length_pos_iff.mpr some
    have all : page.whole = entries := by
      rw [Page.whole, count]
      exact List.take_length
    have longer : ((older ++ [page]).flatMap Page.whole).length =
        (older.flatMap Page.whole).length + entries.length := by
      rw [List.flatMap_append, List.flatMap_singleton, all, List.length_append]
    obtain ⟨pages, same, next, inhabited', values⟩ := ih (chained.snoc inhabited sound begins)
      (by
        intro other member
        rcases List.mem_append.mp member with earlier | last
        · exact inhabited other earlier
        · obtain rfl := List.mem_singleton.mp last
          exact positive)
      complete (by rw [longer]; exact later) (fun es member => filled es (by simp [member]))
      (fun f member => narrow f (by simp [member])) (fun e member => small e (List.mem_append_right _ member))
    rw [List.append_assoc] at next inhabited'
    refine ⟨page :: pages, by rw [List.map_cons, same], next, inhabited', ?_⟩
    rw [List.flatMap_cons, all, values, List.flatten_cons]

end Pages

theorem narrow_resize {h : WalHeader} (narrow : h.Narrow) {id : UintN} (small : id.toNat < 2 ^ 64) (data : Bytes) :
    WalHeader.Narrow { h.resize id data.length with numEntriesBefore := id } where
  id := Nat.max_le.mpr ⟨narrow.id, UintN.sizeInBytes_le (by omega)⟩
  data := by
    have room := data.addressable
    refine Nat.max_le.mpr ⟨narrow.data, UintN.sizeInBytes_le ?_⟩
    rw [UintN.toNat_ofU64, BitVec.toNat_ofNat]
    omega
  before := UintN.sizeInBytes_le (show id.toNat < 2 ^ 128 by omega)

structure Session (xxh64 : Hash) (settings : AckFileWriterSettings) (older : List Page)
    (t : WalTask) (synced : Nat) : Prop where
  chained : Serial xxh64 older
  inhabited : ∀ page ∈ older, 0 < page.count
  sound : ∃ entries, t.Sound xxh64 settings True (older.flatMap Page.whole).length (older.length + 1) entries
  tidy : t.Tidy synced
  narrow : ∀ file ∈ t.files, file.header.Narrow
  small : ∀ e ∈ t.taken, e.1.toNat < 2 ^ 64

structure Paged (xxh64 : Hash) (older : List Page) (t : WalTask) (pages : List Page)
    (opened : List Entry) : Prop where
  chained : Serial xxh64 (older ++ pages)
  inhabited : ∀ page ∈ older ++ pages, 0 < page.count
  accepted : ∀ e ∈ pages.flatMap Page.whole ++ opened, e ∈ t.accepted
  laid : LaidOut xxh64 True t.current.image opened
  contiguous : Segment.Contiguous ⟨t.current.header, opened⟩
  first : t.current.header.numEntriesBefore.toNat = ((older ++ pages).flatMap Page.whole).length
  closed : ∀ file ∈ t.closed, ∀ id ∈ file.writer.sent, id.toNat < t.current.header.numEntriesBefore.toNat
  within : t.current.writer.content <+: t.current.image.bytes
  narrow : t.current.header.Narrow
  small : ∀ e ∈ opened, e.1.toNat < 2 ^ 64

namespace Session

variable {xxh64 : Hash} {sort : UnstableSort} {settings : AckFileWriterSettings}
  {older : List Page} {t next : WalTask} {synced : Nat} {event : WalEvent}

theorem accepted_taken (session : Session xxh64 settings older t synced) : ∀ e ∈ t.accepted, e ∈ t.taken := by
  intro e member
  obtain ⟨entries, sound⟩ := session.sound
  exact List.mem_append_left _ (sound.kept.subset (List.mem_append_left _ member))

theorem resume {pages : List Page} {start : QueueStart} (chained : Serial xxh64 pages)
    (resumes : Resumes pages start) :
    Session xxh64 settings (resumed pages) (.new start.fileId start.header start.lastEntryId) 0 := by
  obtain ⟨older, inhabited, whole⟩ := chained.resumed
  have sound : WalTask.Sound xxh64 settings _ _ _ _ _ := .initial start.fileId start.header start.lastEntryId
  rw [eq_true (resumes.before.trans resumes.next.symm), resumes.next, resumes.file, ← whole] at sound
  refine ⟨older, inhabited, ⟨[], sound⟩, .initial _ _ _, ?_, by rintro _ ⟨⟩⟩
  intro file member
  obtain rfl := List.mem_singleton.mp member
  exact resumes.narrow

theorem step (session : Session xxh64 settings older t synced) (syncs : settings.fsync = true)
    (keeps : t.losesNothing settings event = true) (tidily : t.writesTidily settings event = true)
    (small : ∀ e ∈ event.submits, e.1.toNat < 2 ^ 64) (moved : t.step xxh64 sort settings event = some next) :
    Session xxh64 settings older next (t.syncedAfter next synced event) := by
  obtain ⟨entries, sound⟩ := session.sound
  refine ⟨session.chained, session.inhabited, sound.step keeps moved, session.tidy.step sound syncs tidily moved,
    ?_, ?_⟩
  · have current : t.current ∈ t.files := by simp [WalTask.files]
    intro file member
    cases WalTask.turns_of_step session.tidy.settled moved with
    | stays closed fileId header =>
      rw [WalTask.files, closed] at member
      rcases List.mem_append.mp member with earlier | last
      · exact session.narrow file (List.mem_append_left _ earlier)
      · obtain rfl := List.mem_singleton.mp last
        rw [header]
        exact session.narrow _ current
    | rotates entry ready closed fileId header =>
      rw [WalTask.files, closed] at member
      rcases List.mem_append.mp member with earlier | last
      · exact session.narrow file earlier
      · obtain rfl := List.mem_singleton.mp last
        rw [header]
        refine narrow_resize (session.narrow _ current) (session.small entry (session.accepted_taken entry ?_)) _
        rw [sound.accepted]
        exact List.mem_append_right _ ready
  · intro e member
    rw [sound.taken_step moved] at member
    rcases List.mem_append.mp member with earlier | asked
    · exact session.small e earlier
    · exact small e asked

theorem paged (session : Session xxh64 settings older t synced) {contents : List Bytes}
    (closed : contents.map Bytes.data = t.closed.map (fun file => file.writer.content)) :
    ∃ pages opened, pages.map Page.bytes = contents ∧ Paged xxh64 older t pages opened := by
  obtain ⟨entries, sound⟩ := session.sound
  obtain ⟨layout, opened, writes, all⟩ := sound.wrote
  have complete : contents.map Bytes.data = (t.closed.map OwnedFile.image).map FileImage.bytes := by
    rw [closed, List.map_map]
    exact List.map_congr_left (fun file member => (session.tidy.closed file member).1)
  have accepted : ∀ e ∈ layout.flatten ++ opened, e ∈ t.accepted := by
    intro e member
    rw [sound.accepted]
    exact List.mem_append_left _ (all ▸ member)
  have small : ∀ e ∈ layout.flatten ++ opened, e.1.toNat < 2 ^ 64 := fun e member =>
    session.small e (session.accepted_taken e (accepted e member))
  have filled : ∀ es ∈ layout, es ≠ [] := by
    apply laidOut_filled writes.completed
    intro file member
    obtain ⟨owned, among, rfl⟩ := List.mem_map.mp member
    exact (session.tidy.closed owned among).2.2
  obtain ⟨here, later⟩ := numbered_append.mp writes.numbered
  obtain ⟨pages, same, chained, inhabited, whole⟩ := session.chained.append session.inhabited writes.completed complete
    here filled
    (by
      intro file member
      obtain ⟨owned, among, rfl⟩ := List.mem_map.mp member
      exact session.narrow owned (List.mem_append_left _ among))
    (fun e member => small e (List.mem_append_left _ member))
  have first : t.current.header.numEntriesBefore.toNat = ((older ++ pages).flatMap Page.whole).length := by
    rw [List.flatMap_append, whole, List.length_append]
    by_cases empty : opened = []
    · have announced := writes.announces trivial empty
      rw [empty, List.append_nil] at announced
      exact announced
    · exact writes.current.first later empty
  refine ⟨pages, opened, same, chained, inhabited, ?_, writes.current, ⟨writes.current.fits, ?_⟩, first, ?_, ?_,
    session.narrow _ (by simp [WalTask.files]), fun e member => small e (List.mem_append_right _ member)⟩
  · rw [whole]
    exact accepted
  · rw [Segment.first, first, List.flatMap_append, whole, List.length_append]
    exact later
  · intro file among id sent
    have written : id.toNat ∈ layout.flatten.map (fun e => e.1.toNat) := by
      rw [← laidOut_ids writes.completed]
      exact List.mem_flatMap.mpr ⟨file.image, List.mem_map_of_mem among,
        sound.sent_written (List.mem_append_left _ among) sent⟩
    have bound := ((mem_ids_consecutive here _).mp written).2
    rw [first, List.flatMap_append, whole, List.length_append]
    exact bound
  · obtain ⟨flushed, block, rest, filed⟩ := session.tidy.current
    exact filed.straight.begins filed.accounted

end Session

namespace Paged

variable {xxh64 : Hash} {settings : AckFileWriterSettings} {older pages : List Page}
  {t : WalTask} {opened : List Entry} {synced : Nat} {bytes longer : Bytes}

section

variable (paged : Paged xxh64 older t pages opened)

include paged

theorem sound (begins : bytes.data <+: t.current.image.bytes) :
    Page.Sound xxh64 ⟨⟨t.current.header, opened⟩, bytes⟩ := by
  rw [paged.laid.bytes] at begins
  exact ⟨begins, paged.contiguous, paged.narrow, paged.small⟩

theorem chain (begins : bytes.data <+: t.current.image.bytes) :
    Serial xxh64 (older ++ pages ++ [⟨⟨t.current.header, opened⟩, bytes⟩]) :=
  paged.chained.snoc paged.inhabited (paged.sound begins) paged.first

theorem decodeAll_mono (begins : bytes.data <+: longer.data)
    (within : longer.data <+: t.current.image.bytes) : decodeAll xxh64 bytes <+: decodeAll xxh64 longer := by
  rw [(paged.sound (begins.trans within)).decodeAll_eq, (paged.sound within).decodeAll_eq, Page.whole, Page.whole,
    List.map_take, List.map_take]
  apply List.take_prefix_take_left
  exact wholeCount_mono _ (Nat.sub_le_sub_right begins.length_le _)

/-- The calls whose bytes are among the first `size` ones of the file are entries that a reader finds there. -/
theorem length_decodeAll (begins : bytes.data <+: t.current.image.bytes)
    {calls later : List (UintN × List UInt8)} (split : t.current.writer.writes = calls ++ later)
    (reached : t.current.header.size + (calls.flatMap Prod.snd).length ≤ bytes.length) :
    calls.length ≤ (decodeAll xxh64 bytes).length := by
  have writes := paged.laid.writes
  change t.current.writer.writes = _ at writes
  have calls_eq : calls = (opened.take calls.length).map
      (fun e => (e.1, entryBytes xxh64 t.current.header e.1 e.2)) := by
    rw [List.map_take]
    change calls = List.take _ (opened.map (fun e => (e.1, entryBytes xxh64 t.current.image.header e.1 e.2)))
    rw [← writes, split, List.take_left' rfl]
  have within : calls.length ≤ opened.length := by
    have lengths := congrArg List.length (split.symm.trans writes)
    rw [List.length_append, List.length_map] at lengths
    omega
  have size : (calls.flatMap Prod.snd).length =
      ((entrySizes t.current.header opened).take calls.length).sum := by
    have fits : CanHold t.current.header (opened.take calls.length) := fun e member =>
      paged.contiguous.fits e (List.mem_of_mem_take member)
    rw [entrySizes, ← List.map_take, ← entrySizes, ← sum_entrySizes xxh64 fits, entriesBytes]
    nth_rewrite 1 [calls_eq]
    rw [List.flatMap_map]
  rw [(paged.sound begins).decodeAll_eq, List.length_map, Page.length_whole]
  apply le_wholeCount
  · rwa [entrySizes, List.length_map]
  · rw [← size]
    change _ ≤ bytes.length - t.current.header.size
    omega

theorem number_lt {calls later : List (UintN × List UInt8)}
    (split : t.current.writer.writes = calls ++ later) {w : UintN × List UInt8} (member : w ∈ calls) :
    w.1.toNat < t.current.header.numEntriesBefore.toNat + calls.length := by
  have writes : t.current.writer.writes = _ := paged.laid.writes
  have ids : t.current.writer.writes.map (fun w => w.1.toNat) =
      List.range' t.current.header.numEntriesBefore.toNat opened.length := by
    rw [writes, List.map_map]
    exact paged.contiguous.ids
  have within : calls.length ≤ opened.length := by
    have lengths := congrArg List.length (split.symm.trans writes)
    rw [List.length_append, List.length_map] at lengths
    omega
  have upTo := congrArg (List.take calls.length) ids
  rw [split, List.map_append, List.take_left' (List.length_map _), List.take_range'_of_length_ge within] at upTo
  have among := List.mem_map_of_mem (f := fun w : UintN × List UInt8 => w.1.toNat) member
  rw [upTo, List.mem_range'_1] at among
  exact among.2

/-- An acknowledged entry is in a closed file or in the synced part of the current one. -/
theorem acked (tidy : t.Tidy synced)
    (current : bytes.data = t.current.writer.content) {id : UintN} (sent : id ∈ t.sent) :
    id.toNat < ((older ++ pages).flatMap Page.whole).length + (decodeAll xxh64 (bytes.slice 0 synced)).length := by
  rw [← paged.first]
  obtain ⟨file, member, sentByFile⟩ := List.mem_flatMap.mp sent
  rcases List.mem_append.mp member with earlier | last
  · have bound := paged.closed file earlier id sentByFile
    omega
  · obtain rfl := List.mem_singleton.mp last
    obtain ⟨flushed, block, rest, filed⟩ := tidy.current
    obtain ⟨upTo, later, rfl, acked⟩ := filed.accounted.sent id sentByFile
    obtain ⟨w, found, rfl⟩ := Option.map_eq_some_iff.mp acked
    have some : upTo ≠ [] := List.ne_nil_of_mem (List.mem_of_getLast? found)
    have cut : (bytes.slice 0 synced).length = synced := by
      simp only [Bytes.length, Bytes.slice, List.drop_zero, current, List.length_take]
      exact Nat.min_eq_left filed.within
    have covered := filed.covered (by simp [some])
    have begins : (bytes.slice 0 synced).data <+: t.current.image.bytes :=
      (List.take_prefix _ _).trans (current ▸ paged.within)
    have many := paged.length_decodeAll begins filed.accounted.writes
      (by rw [cut, ← WalHeader.length_writeToBytes]; exact covered)
    rw [List.length_append] at many
    have writes := filed.accounted.writes
    rw [List.append_assoc] at writes
    have below := paged.number_lt writes (List.mem_of_getLast? found)
    omega

end

end Paged

end NormFS
