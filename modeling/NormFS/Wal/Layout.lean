import Mathlib.Data.List.Forall2
import NormFS.Wal.Writer

/-! What the writer leaves in its files. The entries of all files in order are numbered without a
gap, and every file begins with the entry its header announces. -/
namespace NormFS

open LittleEndian Framing OrderedBuffer

/-- A file holds exactly these entries, each in a form its header can carry. `announced` says that
the writer was started with a header that names the next entry. -/
structure LaidOut (xxh64 : Hash) (announced : Prop) (file : FileImage)
    (entries : List Entry) : Prop where
  writes : file.writes = entries.map (fun e => (e.1, entryBytes xxh64 file.header e.1 e.2))
  fits : CanHold file.header entries
  starts : announced → ∀ e ∈ entries.head?, file.header.numEntriesBefore.toNat = e.1.toNat

theorem LaidOut.bytes {xxh64 : Hash} {announced : Prop} {file : FileImage}
    {entries : List Entry} (laid : LaidOut xxh64 announced file entries) :
    file.bytes = file.header.writeToBytes ++ entriesBytes xxh64 file.header entries := by
  rw [FileImage.bytes, laid.writes, List.flatMap_map]
  rfl

section Files

variable {xxh64 : Hash} {announced : Prop} {files : List FileImage}
  {layout : List (List Entry)}

theorem laidOut_ids (laid : List.Forall₂ (LaidOut xxh64 announced) files layout) :
    files.flatMap (fun f => f.writes.map (fun w => w.1.toNat)) =
      layout.flatten.map (fun e => e.1.toNat) := by
  induction laid with
  | nil => rfl
  | cons first rest ih =>
    rw [List.flatMap_cons, List.flatten_cons, List.map_append, ih, first.writes, List.map_map]
    rfl

theorem laidOut_mem (laid : List.Forall₂ (LaidOut xxh64 announced) files layout)
    {e : Entry} (member : e ∈ layout.flatten) :
    ∃ file ∈ files, (e.1, entryBytes xxh64 file.header e.1 e.2) ∈ file.writes := by
  induction laid with
  | nil => cases member
  | @cons file entries _ _ first rest ih =>
    rcases List.mem_append.mp member with here | later
    · exact ⟨file, by simp, by rw [first.writes]; exact List.mem_map_of_mem here⟩
    · obtain ⟨file, among, written⟩ := ih later
      exact ⟨file, List.mem_cons_of_mem _ among, written⟩

end Files

/-- The writer between two entries: `closed` are the entries of the completed files, `opened` those
of the current one. A file without entries announces the next one. -/
structure Writes (xxh64 : Hash) (announced : Prop) (first firstFile : Nat)
    (s : WriterState) (closed : List (List Entry)) (opened : List Entry) : Prop where
  completed : List.Forall₂ (LaidOut xxh64 announced) s.completed closed
  current : LaidOut xxh64 announced s.current opened
  numbered : Numbered first (closed.flatten ++ opened)
  fileIds : s.files.map (fun f => f.fileId.toNat) = List.range' firstFile s.files.length
  announces : announced → opened = [] →
    s.header.numEntriesBefore.toNat = first + (closed.flatten ++ opened).length

namespace Writes

variable {xxh64 : Hash} {announced : Prop} {first firstFile : Nat}
  {s : WriterState}
  {closed : List (List Entry)} {opened : List Entry}

theorem files_length (s : WriterState) : s.files.length = s.completed.length + 1 := by
  rw [WriterState.files, List.length_append, List.length_singleton]

theorem fileId_current (inv : Writes xxh64 announced first firstFile s closed opened) :
    s.fileId.toNat = firstFile + s.completed.length := by
  have ids := congrArg List.getLast? inv.fileIds
  rw [files_length, List.range'_concat] at ids
  simpa [WriterState.files, WriterState.current] using ids

theorem rotate (inv : Writes xxh64 announced first firstFile s closed opened) {id : UintN}
    (next : id.toNat = first + (closed.flatten ++ opened).length) (dataSize : Nat) :
    Writes xxh64 announced first firstFile (s.rotate id dataSize) (closed ++ [opened]) [] where
  completed := List.rel_append inv.completed (.cons inv.current .nil)
  current := ⟨rfl, by intro e member; simp at member, by simp⟩
  numbered := by simpa using inv.numbered
  fileIds := by
    have files : (s.rotate id dataSize).files = s.files ++ [(s.rotate id dataSize).current] := rfl
    rw [files, List.map_append, inv.fileIds, List.length_append, List.range'_append_1.symm]
    simp [WriterState.current, WriterState.rotate, inv.fileId_current, files_length]
    omega
  announces := by
    intro _ _
    simpa [WriterState.rotate] using next

theorem append (inv : Writes xxh64 announced first firstFile s closed opened) {entry : Entry}
    (next : entry.1.toNat = first + (closed.flatten ++ opened).length)
    (fits : s.header.canHoldEntry entry.1 entry.2.length = true) :
    Writes xxh64 announced first firstFile
      { s with writes := s.writes ++ [(entry.1, entryBytes xxh64 s.header entry.1 entry.2)],
               hasWritten := true } closed (opened ++ [entry]) where
  completed := inv.completed
  current := by
    refine ⟨?_, ?_, ?_⟩
    · have writes := inv.current.writes
      simp only [WriterState.current] at writes ⊢
      rw [writes, List.map_append]
      rfl
    · intro e member
      rcases List.mem_append.mp member with earlier | last
      · exact inv.current.fits e earlier
      · obtain rfl : e = entry := by simpa using last
        exact fits
    · intro honest e head
      cases opened with
      | nil =>
        obtain rfl : entry = e := by simpa using head
        exact (inv.announces honest rfl).trans next.symm
      | cons o opened => exact inv.current.starts honest e (by simpa using head)
  numbered := by
    rw [← List.append_assoc]
    exact numbered_append.mpr ⟨inv.numbered, numbered_cons.mpr ⟨next, rfl⟩⟩
  fileIds := by simpa [WriterState.files, WriterState.current] using inv.fileIds
  announces := by simp

end Writes

section Serving

variable {xxh64 : Hash} {announced : Prop} {first firstFile : Nat}

/-- The writer has handed these entries to its files, in this order. -/
def Wrote (xxh64 : Hash) (announced : Prop) (first firstFile : Nat)
    (s : WriterState) (entries : List Entry) : Prop :=
  ∃ closed opened, Writes xxh64 announced first firstFile s closed opened ∧ closed.flatten ++ opened = entries

variable {s : WriterState} {entries submitted : List Entry}

section

variable (wrote : Wrote xxh64 announced first firstFile s entries)

include wrote

theorem Wrote.withBuffer (buffer : OrderedBuffer) :
    Wrote xxh64 announced first firstFile { s with buffer := buffer } entries := by
  obtain ⟨closed, opened, inv, all⟩ := wrote
  exact ⟨closed, opened, ⟨inv.completed, inv.current, inv.numbered, inv.fileIds, inv.announces⟩, all⟩

/-- A rotation makes room whenever one is made, so the encoder always succeeds. -/
theorem Wrote.writeEntry {entry : Entry} (next : entry.1.toNat = first + entries.length) :
    (s.writeEntry xxh64 entry).2 = .ok () ∧ (s.writeEntry xxh64 entry).1.buffer = s.buffer ∧
      Wrote xxh64 announced first firstFile (s.writeEntry xxh64 entry).1 (entries ++ [entry]) := by
  obtain ⟨closed, opened, inv, rfl⟩ := wrote
  unfold WriterState.writeEntry
  by_cases full : s.mustRotate entry.1 entry.2.length = true
  · have fits : (s.rotate entry.1 entry.2.length).header.canHoldEntry entry.1 entry.2.length = true :=
      s.header.resize_canHoldEntry entry.1 entry.2.length
    simp only [full, if_true, encodeEntry_ok xxh64 fits]
    refine ⟨trivial, rfl, closed ++ [opened], [entry], ?_, by simp⟩
    exact (inv.rotate next _).append (by simpa using next) fits
  · have fits : s.header.canHoldEntry entry.1 entry.2.length = true := by
      simp only [WriterState.mustRotate, Bool.or_eq_true, Bool.not_eq_true', not_or,
        Bool.not_eq_false] at full
      exact full.2
    simp only [full, if_false, Bool.false_eq_true, encodeEntry_ok xxh64 fits]
    exact ⟨trivial, trivial, closed, opened ++ [entry], inv.append next fits, by simp⟩

theorem Wrote.writeEntries {ready : List Entry}
    (numbered : Numbered (first + entries.length) ready) :
    (s.writeEntries xxh64 ready).2 = .ok () ∧ (s.writeEntries xxh64 ready).1.buffer = s.buffer ∧
      Wrote xxh64 announced first firstFile (s.writeEntries xxh64 ready).1 (entries ++ ready) := by
  induction ready generalizing s entries with
  | nil => exact ⟨rfl, rfl, by simpa [WriterState.writeEntries] using wrote⟩
  | cons entry ready ih =>
    obtain ⟨next, later⟩ := numbered_cons.mp numbered
    obtain ⟨ok, buffer, wrote'⟩ := wrote.writeEntry next
    have later' : Numbered (first + (entries ++ [entry]).length) ready := by
      rwa [List.length_append, List.length_singleton, ← Nat.add_assoc]
    have rest := ih wrote' later'
    unfold WriterState.writeEntries
    cases step : s.writeEntry xxh64 entry with
    | mk s' result =>
      rw [step] at ok buffer rest
      dsimp only at ok buffer rest
      subst ok
      rw [buffer, List.append_assoc] at rest
      exact rest

end

structure Served (xxh64 : Hash) (announced : Prop) (first firstFile : Nat)
    (submitted : List Entry) (s : WriterState) (entries : List Entry) : Prop where
  wrote : Wrote xxh64 announced first firstFile s entries
  next : nextId s.buffer.lastWrittenId = first + entries.length
  kept : (entries ++ s.buffer.pending).Perm submitted

theorem Served.write (sort : UnstableSort)
    (served : Served xxh64 announced first firstFile submitted s entries) (id : UintN) (data : Bytes) :
    (s.write xxh64 sort id data).2 = .ok () ∧
    (s.write xxh64 sort id data).1.buffer = (s.buffer.accept sort (id, data)).2 ∧
    Served xxh64 announced first firstFile (submitted ++ [(id, data)]) (s.write xxh64 sort id data).1
      (entries ++ (s.buffer.accept sort (id, data)).1) := by
  obtain ⟨numbered, next, kept⟩ := accept_spec sort s.buffer (id, data)
  rw [served.next] at numbered next
  unfold WriterState.write
  cases step : s.buffer.accept sort (id, data) with
  | mk ready buffer =>
    simp only [step] at numbered next kept ⊢
    have wrote : Wrote xxh64 announced first firstFile { s with buffer := buffer } entries :=
      served.wrote.withBuffer buffer
    obtain ⟨ok, same, wrote'⟩ := wrote.writeEntries numbered
    refine ⟨ok, same, wrote', ?_, ?_⟩
    · rw [same, next, List.length_append, Nat.add_assoc]
    · rw [same]
      calc
        (entries ++ ready ++ buffer.pending).Perm (entries ++ ((id, data) :: s.buffer.pending)) := by
          rw [List.append_assoc]
          exact kept.append_left entries
        _ |>.Perm ((id, data) :: (entries ++ s.buffer.pending)) := List.perm_middle
        _ |>.Perm ((id, data) :: submitted) := served.kept.cons _
        _ |>.Perm (submitted ++ [(id, data)]) := (List.perm_append_singleton _ _).symm

theorem Served.writeBatch (sort : UnstableSort)
    (served : Served xxh64 announced first firstFile submitted s entries) (batch : List Entry) :
    (s.writeBatch xxh64 sort batch).2 = .ok () ∧
    (s.writeBatch xxh64 sort batch).1.buffer = (s.buffer.acceptAll sort batch).2 ∧
    Served xxh64 announced first firstFile (submitted ++ batch) (s.writeBatch xxh64 sort batch).1
      (entries ++ (s.buffer.acceptAll sort batch).1) := by
  induction batch generalizing s submitted entries with
  | nil =>
    simp only [WriterState.writeBatch, acceptAll, List.append_nil]
    exact ⟨trivial, trivial, served⟩
  | cons entry batch ih =>
    obtain ⟨id, data⟩ := entry
    obtain ⟨ok, buffer, served'⟩ := served.write sort id data
    have rest := ih served'
    rw [buffer, List.append_assoc, List.append_assoc] at rest
    unfold WriterState.writeBatch
    cases step : s.write xxh64 sort id data with
    | mk s' result =>
      rw [step] at ok rest
      dsimp only at ok rest
      subst ok
      exact rest

theorem Served.handle (sort : UnstableSort)
    (served : Served xxh64 announced first firstFile submitted s entries) (request : WriteRequest) :
    (s.handle xxh64 sort request).2 = .ok () ∧
    (s.handle xxh64 sort request).1.buffer = (s.buffer.acceptAll sort request.entries).2 ∧
    Served xxh64 announced first firstFile (submitted ++ request.entries) (s.handle xxh64 sort request).1
      (entries ++ (s.buffer.acceptAll sort request.entries).1) := by
  cases request with
  | enqueue id data =>
    have step := served.write sort id data
    simpa only [WriterState.handle, WriteRequest.entries, acceptAll, List.append_nil] using step
  | enqueueBatch batch => exact served.writeBatch sort batch

/-- Any sequence of requests is served without an error, and the files hold what the ordering
buffer released. -/
theorem Served.serve (sort : UnstableSort)
    (served : Served xxh64 announced first firstFile submitted s entries) (requests : List WriteRequest) :
    (s.serve xxh64 sort requests).2 = [] ∧
    (s.serve xxh64 sort requests).1.buffer =
      (s.buffer.acceptAll sort (requests.flatMap WriteRequest.entries)).2 ∧
    Served xxh64 announced first firstFile (submitted ++ requests.flatMap WriteRequest.entries)
      (s.serve xxh64 sort requests).1
      (entries ++ (s.buffer.acceptAll sort (requests.flatMap WriteRequest.entries)).1) := by
  induction requests generalizing s submitted entries with
  | nil =>
    simp only [WriterState.serve, List.flatMap_nil, acceptAll, List.append_nil]
    exact ⟨trivial, trivial, served⟩
  | cons request requests ih =>
    obtain ⟨ok, buffer, served'⟩ := served.handle sort request
    have rest := ih served'
    rw [buffer, List.append_assoc, List.append_assoc] at rest
    rw [List.flatMap_cons, acceptAll_append]
    unfold WriterState.serve
    cases step : s.handle xxh64 sort request with
    | mk s' result =>
      rw [step] at ok rest
      dsimp only at ok rest
      subst ok
      exact rest

theorem served_new (xxh64 : Hash) (fileId : UintN) (header : WalHeader) (maxFileSize : Nat) (lastId : Option UintN) :
    Served xxh64 (header.numEntriesBefore.toNat = nextId lastId) (nextId lastId) fileId.toNat [] (.new fileId header maxFileSize lastId) [] where
  wrote := by
    refine ⟨[], [], ⟨.nil, ⟨rfl, by intro e member; simp at member, by simp⟩, rfl, rfl, ?_⟩, rfl⟩
    intro announced _
    exact announced
  next := rfl
  kept := List.Perm.refl _

end Serving

section Decoding

variable (xxh64 : Hash)

/-- The entries a reader of the whole file receives, as numbers and payloads. -/
def decodeAll (content : Bytes) : List (Nat × Bytes) :=
  (readWalBytesRange xxh64 content ⟨.zero, none, 1, .diskWal⟩ (.staying [])).1.delivered.map
    (fun e => (e.id.toNat, e.data))

theorem readWalBytesRange_headerOnly {h : WalHeader} {content : Bytes} (request : ReadRequest)
    (delivered : List ReadEntry) (split : content.data = h.writeToBytes) :
    (readWalBytesRange xxh64 content request (.staying delivered)).1 = .staying delivered := by
  have room := content.addressable
  have length : content.data.length = h.size := by rw [split, WalHeader.length_writeToBytes]
  have count : 8 + h.numEntriesBefore.sizeInBytes < 2 ^ 64 := by
    simp only [WalHeader.size] at length
    omega
  obtain ⟨read, header⟩ := h.fromBytes_size count []
  rw [List.append_nil, ← split, ← length] at header
  unfold readWalBytesRange
  dsimp only
  split
  · rfl
  · simp [header, walBytesLoop]

theorem decodeAll_laidOut {announced : Prop} {file : FileImage} {entries : List Entry}
    (laid : LaidOut xxh64 announced file entries) {content : Bytes} (same : content.data = file.bytes) :
    decodeAll xxh64 content = entries.map valueOf := by
  have room := content.addressable
  rw [laid.bytes] at same
  cases entries with
  | nil =>
    rw [entriesBytes, List.flatMap_nil, List.append_nil] at same
    rw [decodeAll, readWalBytesRange_headerOnly xxh64 _ _ same]
    rfl
  | cons e entries =>
    have first := length_entryBytes xxh64 (laid.fits e (by simp))
    have length : content.data.length = file.header.size + ((entryBytes xxh64 file.header e.1 e.2).length +
        (entriesBytes xxh64 file.header entries).length) := by
      rw [same, List.length_append, WalHeader.length_writeToBytes, entriesBytes, List.flatMap_cons,
        List.length_append]
      rfl
    have small : WalEntryHeader.size file.header < 2 ^ 63 := by omega
    have addressable : file.header.Addressable := by
      simp only [WalHeader.size] at length
      simp only [WalEntryHeader.size] at small
      exact ⟨by omega, by omega, by omega⟩
    have reads := readWalBytesRange_cut xxh64 addressable (by omega) (cut_whole xxh64 laid.fits) same
      ⟨.zero, none, 1, .diskWal⟩ (.staying [])
    obtain ⟨result, all⟩ := walk_everything ⟨.zero, none, 1, .diskWal⟩ rfl rfl
      ((e :: entries).map (storedEntry file.header)) (by intro e _; simp) none none none []
    rw [decodeAll, reads.trans all, ← stored_value laid.fits]
    simp [Sender.staying, valueOf]

theorem decodeAll_files {announced : Prop} {files : List FileImage}
    {layout : List (List Entry)}
    (laid : List.Forall₂ (LaidOut xxh64 announced) files layout) {contents : List Bytes}
    (same : contents.map Bytes.data = files.map FileImage.bytes) :
    contents.flatMap (decodeAll xxh64) = layout.flatten.map valueOf := by
  induction laid generalizing contents with
  | nil =>
    obtain rfl : contents = [] := List.map_eq_nil_iff.mp same
    rfl
  | cons first rest ih =>
    cases contents with
    | nil => simp at same
    | cons content contents =>
      simp only [List.map_cons, List.cons.injEq] at same
      rw [List.flatMap_cons, decodeAll_laidOut xxh64 first same.1, ih same.2, List.flatten_cons,
        List.map_append]

end Decoding

/- Every file in the sequence the writer leaves is its header and encoded entries, and reading all
of them in order gives the entries from the next number on, each as it was submitted. -/
theorem wal_layout_across_rotations (xxh64 : Hash) (sort : UnstableSort)
    (lastEntryId : Option UintN) (fileId : UintN) (header : WalHeader) (maxFileSize : Nat)
    (requests : List WriteRequest)
    (announced : header.numEntriesBefore.toNat = nextId lastEntryId) :
    let served := (WriterState.new fileId header maxFileSize lastEntryId).serve xxh64 sort requests
    let files := served.1.files
    served.2 = [] ∧
    files.map (fun f => f.fileId.toNat) = List.range' fileId.toNat files.length ∧
    ∃ layout : List (List Entry),
      List.Forall₂ (fun (file : FileImage) entries =>
        file.bytes = file.header.writeToBytes ++
          (entries.map (fun e => entryBytes xxh64 file.header e.1 e.2)).flatten ∧
        (∀ e ∈ entries, file.header.canHoldEntry e.1 e.2.length = true ∧
          encodeEntry xxh64 file.header e.1 e.2 = .ok (entryBytes xxh64 file.header e.1 e.2)) ∧
        (∀ e ∈ entries.head?, file.header.numEntriesBefore.toNat = e.1.toNat)) files layout ∧
      (∀ contents : List Bytes, contents.map Bytes.data = files.map FileImage.bytes →
        contents.flatMap (decodeAll xxh64) = layout.flatten.map (fun e => (e.1.toNat, e.2))) ∧
      layout.flatten.map (fun e => e.1.toNat) =
        List.range' (nextId lastEntryId) layout.flatten.length ∧
      (∀ e ∈ layout.flatten, ∃ request ∈ requests, e ∈ request.entries) := by
  obtain ⟨noErrors, _, served⟩ := (served_new xxh64 fileId header maxFileSize lastEntryId).serve
    sort requests
  obtain ⟨closed, opened, inv, all⟩ := served.wrote
  have laid : List.Forall₂ (LaidOut xxh64 _) _ (closed ++ [opened]) :=
    List.rel_append inv.completed (.cons inv.current .nil)
  have flat : (closed ++ [opened]).flatten = closed.flatten ++ opened := by simp
  refine ⟨noErrors, inv.fileIds, closed ++ [opened], ?_, ?_, ?_, ?_⟩
  · apply laid.imp
    intro file entries laid
    exact ⟨laid.bytes, fun e member => ⟨laid.fits e member, encodeEntry_ok xxh64 (laid.fits e member)⟩,
      laid.starts announced⟩
  · intro contents same
    exact decodeAll_files xxh64 laid same
  · rw [flat]
    exact inv.numbered
  · intro e member
    rw [flat, all] at member
    have submitted := served.kept.subset (List.mem_append_left _ member)
    simpa using submitted

/- The second entry no longer fits the size of the first file. -/
theorem wal_layout_across_rotations_two_files :
    let served := (WriterState.new .zero .default 65 none).serve (fun _ => 0) .insertion
      [.enqueue .zero ⟨[1, 2, 3], by decide⟩, .enqueueBatch [(.one, ⟨[4, 5], by decide⟩)]]
    served.2 = [] ∧ served.1.files.map (fun f => f.fileId.toNat) = [0, 1] := by
  obtain ⟨noErrors, fileIds, _⟩ := wal_layout_across_rotations (fun _ => 0) .insertion none .zero .default 65
    [.enqueue .zero ⟨[1, 2, 3], by decide⟩, .enqueueBatch [(.one, ⟨[4, 5], by decide⟩)]] rfl
  exact ⟨noErrors, fileIds.trans (by decide)⟩

end NormFS
