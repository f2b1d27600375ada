import NormFS.Store.Content

/-! The range of entries in a store file, read from its first bytes and remembered. -/
namespace NormFS

abbrev EntryRange := UintN × UintN

def readRangeFromFs (config : StoreConfig) (file : Option Bytes) :
    Outcome RangeStoreError (Option EntryRange) :=
  match file with
  | none => .err .fileNotFound
  | some content => do
    let buffer := content.data.take 256
    let (fileAuth, authSize) ← (Outcome.ofExcept (FileAuthentication.fromBytes buffer)).mapErr .header
    let contentAfterAuth := buffer.drop authSize
    let (header, headerSize) ← (StoreHeader.fromBytes contentAfterAuth).mapErr .header
    if config.verifySignatures &&
        !config.codec.verify (contentAfterAuth.take headerSize) fileAuth.headerSignature then
      .err .signatureVerificationFailed
    else if header.numEntries.isZero then .ok none
    else do
      let firstId := header.numEntriesBefore
      let numEntriesMinusOne ← (header.numEntries.sub .one).mapErr .uintN
      pure (some (firstId, firstId.add numEntriesMinusOne))

/- What both readers of a range do with the header. -/
def StoreHeader.range {ε : Type} (wrap : UintNError → ε) (header : StoreHeader) : Outcome ε (Option EntryRange) :=
  if header.numEntries.isZero then .ok none
  else do
    let firstId := header.numEntriesBefore
    let numEntriesMinusOne ← (header.numEntries.sub .one).mapErr wrap
    pure (some (firstId, firstId.add numEntriesMinusOne))

def entryRange (before count : Nat) : Option (Nat × Nat) :=
  if count = 0 then none else some (before, before + count - 1)

def rangeValues (range : Option EntryRange) : Option (Nat × Nat) :=
  range.map (fun ids => (ids.1.toNat, ids.2.toNat))

theorem StoreHeader.range_ok {ε : Type} (wrap : UintNError → ε) (header : StoreHeader) :
    ∃ answer, header.range wrap = .ok answer ∧
      rangeValues answer = entryRange header.numEntriesBefore.toNat header.numEntries.toNat := by
  unfold StoreHeader.range entryRange
  by_cases empty : header.numEntries.toNat = 0
  · rw [if_pos ((UintN.isZero_iff _).mpr empty), if_pos empty]
    exact ⟨none, rfl, rfl⟩
  · obtain ⟨minusOne, subtracted, value⟩ := UintN.sub_ok header.numEntries .one (by rw [UintN.toNat_one]; omega)
    rw [if_neg (fun zero => empty ((UintN.isZero_iff _).mp zero)), if_neg empty, subtracted]
    refine ⟨some (header.numEntriesBefore, header.numEntriesBefore.add minusOne), rfl, ?_⟩
    simp only [rangeValues, Option.map_some, UintN.toNat_add, value, UintN.toNat_one]
    congr 2
    omega

/- The ranges of one queue. The key is the decimal text of the file number. -/
abbrev RangeCache := List (Nat × EntryRange)

def RangeCache.get (ranges : RangeCache) (fileId : UintN) : Option EntryRange :=
  ranges.lookup fileId.toNat

def RangeCache.insert (ranges : RangeCache) (fileId : UintN) (range : EntryRange) : RangeCache :=
  (fileId.toNat, range) :: ranges

def getRange (config : StoreConfig) (file : Option Bytes) (fileId : UintN) (ranges : RangeCache) :
    Outcome RangeStoreError (Option EntryRange × RangeCache) :=
  match ranges.get fileId with
  | some range => .ok (some range, ranges)
  | none =>
    match readRangeFromFs config file with
    | .ok (some range) => .ok (some range, ranges.insert fileId range)
    | .ok none => .ok (none, ranges)
    | .err .fileNotFound => .ok (none, ranges)
    | .err e => .err e
    | .panic => .panic

def recordRange (ranges : RangeCache) (fileId firstId lastId : UintN) : RangeCache :=
  ranges.insert fileId (firstId, lastId)

/-- What `getRange` answers without its memory. -/
def rangeOf (config : StoreConfig) (file : Option Bytes) : Outcome RangeStoreError (Option EntryRange) :=
  match readRangeFromFs config file with
  | .err .fileNotFound => .ok none
  | answer => answer

/-- Every remembered range is the one in the file. -/
def RangeCache.Agrees (ranges : RangeCache) (config : StoreConfig) (files : Nat → Option Bytes) : Prop :=
  ∀ n range, ranges.lookup n = some range → rangeOf config (files n) = .ok (some range)

theorem RangeCache.agrees_nil (config : StoreConfig) (files : Nat → Option Bytes) :
    RangeCache.Agrees [] config files := by
  intro n range found
  cases found

variable {ranges : RangeCache} {config : StoreConfig} {files : Nat → Option Bytes} {fileId : UintN}
  {file wal : Bytes} {header : StoreHeader}

theorem RangeCache.Agrees.insert (agrees : ranges.Agrees config files)
    {range : EntryRange} (read : rangeOf config (files fileId.toNat) = .ok (some range)) :
    (ranges.insert fileId range).Agrees config files := by
  intro n other found
  rw [RangeCache.insert, List.lookup_cons] at found
  by_cases same : n = fileId.toNat
  · subst same
    simp only [beq_self_eq_true, Option.some.injEq] at found
    exact found ▸ read
  · have different : (n == fileId.toNat) = false := by simpa using same
    simp only [different] at found
    exact agrees n other found

/-- Remembering changes nothing in the answers. -/
theorem getRange_spec
    (agrees : ranges.Agrees config files) (fileId : UintN) (answer : Option EntryRange)
    (read : rangeOf config (files fileId.toNat) = .ok answer) :
    ∃ after, getRange config (files fileId.toNat) fileId ranges = .ok (answer, after) ∧
      after.Agrees config files := by
  unfold getRange
  split
  · rename_i range found
    have same := agrees _ _ found
    rw [read] at same
    exact ⟨ranges, by rw [Outcome.ok.inj same], agrees⟩
  · unfold rangeOf at read
    cases fs : readRangeFromFs config (files fileId.toNat) with
    | ok found =>
      rw [fs] at read
      obtain rfl : found = answer := Outcome.ok.inj read
      cases found with
      | none => exact ⟨ranges, rfl, agrees⟩
      | some range => exact ⟨_, rfl, agrees.insert (by rw [rangeOf, fs])⟩
    | err e =>
      rw [fs] at read
      cases e with
      | fileNotFound =>
        obtain rfl : none = answer := Outcome.ok.inj read
        exact ⟨ranges, rfl, agrees⟩
      | _ => cases read
    | panic =>
      rw [fs] at read
      cases read

theorem getRange_err
    (agrees : ranges.Agrees config files) (fileId : UintN) {e : RangeStoreError}
    (read : rangeOf config (files fileId.toNat) = .err e) :
    getRange config (files fileId.toNat) fileId ranges = .err e := by
  unfold getRange
  split
  · rename_i range found
    have same := agrees _ _ found
    rw [read] at same
    cases same
  · unfold rangeOf at read
    cases fs : readRangeFromFs config (files fileId.toNat) with
    | ok found =>
      rw [fs] at read
      cases read
    | err e' =>
      rw [fs] at read
      cases e' <;> simp_all
    | panic =>
      rw [fs] at read
      cases read

def rangeWindow : Nat := 256

theorem readRangeFromFs_layout {auth : FileAuthentication} {body : List UInt8}
    (split : file.data = auth.writeToBytes ++ (header.writeToBytes ++ body))
    (signed : config.verifySignatures = true → config.codec.verify header.writeToBytes auth.headerSignature = true)
    (inside : FileAuthentication.size + header.size ≤ rangeWindow) :
    ∃ answer, readRangeFromFs config (some file) = .ok answer ∧
      rangeValues answer = entryRange header.numEntriesBefore.toNat header.numEntries.toNat := by
  have headerLength := StoreHeader.length_writeToBytes header
  have authLength := FileAuthentication.length_writeToBytes auth
  have fits : header.Addressable := by
    rw [StoreHeader.size, rangeWindow] at inside
    exact ⟨by omega, by omega⟩
  have window : file.data.take 256 = auth.writeToBytes ++ (header.writeToBytes ++
      body.take (rangeWindow - FileAuthentication.size - header.size)) := by
    rw [split, List.take_append, List.take_append, List.take_of_length_le (by rw [rangeWindow] at inside; omega),
      List.take_of_length_le (by rw [rangeWindow] at inside; omega), authLength, headerLength]
    rfl
  have verified : (config.verifySignatures &&
      !config.codec.verify header.writeToBytes auth.headerSignature) = false := by
    cases flag : config.verifySignatures with
    | false => rfl
    | true => rw [signed flag]; rfl
  obtain ⟨answer, computed, values⟩ := StoreHeader.range_ok RangeStoreError.uintN header.stored
  refine ⟨answer, ?_, ?_⟩
  · simp only [readRangeFromFs, window, FileAuthentication.fromBytes_append, Outcome.ofExcept_ok, Outcome.mapErr_ok,
      Outcome.ok_bind, List.drop_left' authLength, StoreHeader.fromBytes_append _ fits,
      List.take_left' headerLength, verified, Bool.false_eq_true, if_false]
    exact computed
  · rw [values]
    congr 1
    · exact UintN.toNat_stored _ (Nat.le_refl _)
    · exact UintN.toNat_stored _ (Nat.le_refl _)

theorem readRangeFromFs_cut {config : StoreConfig} {file : Bytes} {auth : FileAuthentication}
    {header : StoreHeader} {body : List UInt8}
    (split : file.data = auth.writeToBytes ++ (header.writeToBytes ++ body))
    (outside : ¬ FileAuthentication.size + header.size ≤ rangeWindow) :
    ∃ e, readRangeFromFs config (some file) = .err (.header e) := by
  have headerLength := StoreHeader.length_writeToBytes header
  have authLength := FileAuthentication.length_writeToBytes auth
  have room : FileAuthentication.size ≤ rangeWindow := by decide
  have fits : header.Addressable := by
    have bound := file.addressable
    rw [split, List.length_append, List.length_append, headerLength, StoreHeader.size] at bound
    exact ⟨by omega, by omega⟩
  have window : file.data.take rangeWindow = auth.writeToBytes ++
      header.writeToBytes.take (rangeWindow - FileAuthentication.size) := by
    rw [split, List.take_append, List.take_append_of_le_length (by omega),
      List.take_of_length_le (by omega), authLength]
  obtain ⟨e, refused⟩ := StoreHeader.fromBytes_short header fits
    (List.take_prefix (rangeWindow - FileAuthentication.size) header.writeToBytes)
    (by rw [List.length_take, headerLength]; omega)
  rw [rangeWindow] at window refused
  refine ⟨e, ?_⟩
  simp only [readRangeFromFs, window, FileAuthentication.fromBytes_append,
    Outcome.ofExcept_ok, Outcome.mapErr_ok, Outcome.ok_bind, List.drop_left' authLength, refused,
    Outcome.mapErr_err, Outcome.err_bind]

theorem readRangeFromFs_ordered {file : Option Bytes} {range : EntryRange}
    (read : readRangeFromFs config file = .ok (some range)) : range.1.toNat ≤ range.2.toNat := by
  unfold readRangeFromFs at read
  split at read
  · cases read
  · obtain ⟨⟨auth, authSize⟩, -, read⟩ := Outcome.bind_eq_ok.mp read
    obtain ⟨⟨header, headerSize⟩, -, read⟩ := Outcome.bind_eq_ok.mp read
    dsimp only at read
    split at read
    · cases read
    · obtain ⟨answer, computed, values⟩ := StoreHeader.range_ok RangeStoreError.uintN header
      have same : answer = some range := Outcome.ok.inj (computed.symm.trans read)
      subst same
      unfold entryRange at values
      split at values
      · cases values
      · obtain ⟨first, last⟩ := Prod.mk.inj (Option.some.inj values)
        omega

theorem readRangeFromFs_found (config : StoreConfig) (file : Bytes) :
    readRangeFromFs config (some file) ≠ .err .fileNotFound := by
  intro read
  simp only [readRangeFromFs] at read
  cases auth : FileAuthentication.fromBytes (file.data.take 256) with
  | error e =>
    rw [auth] at read
    cases read
  | ok found =>
    rw [auth] at read
    simp only [Outcome.ofExcept_ok, Outcome.mapErr_ok, Outcome.ok_bind] at read
    cases parsed : StoreHeader.fromBytes ((file.data.take 256).drop found.2) with
    | err e =>
      rw [parsed] at read
      cases read
    | panic =>
      rw [parsed] at read
      cases read
    | ok header =>
      rw [parsed] at read
      simp only [Outcome.mapErr_ok, Outcome.ok_bind] at read
      split at read
      · cases read
      · obtain ⟨answer, computed, -⟩ := StoreHeader.range_ok RangeStoreError.uintN header.1
        exact absurd (computed.symm.trans read) (by rintro ⟨⟩)

structure StoreFile (config : StoreConfig) (fileId : UintN) (file wal : Bytes) (header : StoreHeader) :
    Prop where
  layout : ∃ auth body, file.data =
      FileAuthentication.writeToBytes auth ++ (header.writeToBytes ++ body) ∧
    (config.verifySignatures = true →
      config.codec.verify header.writeToBytes auth.headerSignature = true)
  extracted : extractWalBytes config fileId file config.verifySignatures = .ok wal

section

variable (complete : StoreFile config fileId file wal header)

include complete

theorem StoreFile.addressable :
    header.Addressable := by
  obtain ⟨auth, body, split, -⟩ := complete.layout
  have room := file.addressable
  rw [split, List.length_append, List.length_append, StoreHeader.length_writeToBytes,
    StoreHeader.size] at room
  exact ⟨by omega, by omega⟩

theorem StoreFile.readRange
    (inside : FileAuthentication.size + header.size ≤ rangeWindow) (inhabited : 0 < header.numEntries.toNat) :
    ∃ first last, rangeOf config (some file) = .ok (some (first, last)) ∧
      first.toNat = header.numEntriesBefore.toNat ∧
      last.toNat = header.numEntriesBefore.toNat + header.numEntries.toNat - 1 := by
  obtain ⟨auth, body, split, signed⟩ := complete.layout
  obtain ⟨answer, read, values⟩ := readRangeFromFs_layout split signed inside
  rw [entryRange, if_neg (Nat.ne_of_gt inhabited)] at values
  obtain ⟨⟨first, last⟩, rfl, ids⟩ := Option.map_eq_some_iff.mp values
  obtain ⟨firstId, lastId⟩ := Prod.mk.inj ids
  exact ⟨first, last, by rw [rangeOf, read], firstId, lastId⟩

theorem StoreFile.readRange_empty
    (inside : FileAuthentication.size + header.size ≤ rangeWindow) (empty : header.numEntries.toNat = 0) :
    rangeOf config (some file) = .ok none := by
  obtain ⟨auth, body, split, signed⟩ := complete.layout
  obtain ⟨answer, read, values⟩ := readRangeFromFs_layout split signed inside
  rw [entryRange, if_pos empty] at values
  obtain rfl := Option.map_eq_none_iff.mp values
  rw [rangeOf, read]

/-- Whatever the width of the counts, the range of a complete file is found or refused. -/
theorem StoreFile.readRange_total
    (inhabited : 0 < header.numEntries.toNat) :
    (∃ first last, rangeOf config (some file) = .ok (some (first, last)) ∧
      first.toNat = header.numEntriesBefore.toNat ∧
      last.toNat = header.numEntriesBefore.toNat + header.numEntries.toNat - 1) ∨
    ∃ e, rangeOf config (some file) = .err e := by
  by_cases inside : FileAuthentication.size + header.size ≤ rangeWindow
  · exact .inl (complete.readRange inside inhabited)
  · right
    obtain ⟨auth, body, split, -⟩ := complete.layout
    obtain ⟨e, refused⟩ := @readRangeFromFs_cut config _ _ _ _ split inside
    exact ⟨.header e, by rw [rangeOf, refused]⟩

end

end NormFS
