import NormFS.Wal.Reader

/-! A WAL file cut at an arbitrary byte. The three walkers see the same thing: the entries that
are wholly there, and possibly the header of one more whose record is cropped. -/
namespace NormFS

open LittleEndian Framing

section Cut

variable (xxh64 : Hash) (h : WalHeader)

def entriesBytes (entries : List Entry) : List UInt8 :=
  entries.flatMap (fun e => entryBytes xxh64 h e.1 e.2)

def entrySizes (entries : List Entry) : List Nat :=
  entries.map (fun e => WalEntryHeader.size h + e.2.length)

def CanHold (entries : List Entry) : Prop :=
  ∀ e ∈ entries, h.canHoldEntry e.1 e.2.length = true

def storedEntry (e : Entry) : Entry := (e.1.stored h.idSizeBytes, e.2)

/-- The entries wholly within the first `n` bytes, as a reader returns them. -/
def survivors (entries : List Entry) (n : Nat) : List Entry :=
  (entries.take (wholeCount (entrySizes h entries) n)).map (storedEntry h)

/-- The entry after them, when its header is whole and its record is not. -/
def torn : List Entry → Nat → Option UintN
  | [], _ => none
  | (id, data) :: entries, n =>
    if n < WalEntryHeader.size h then none
    else if n < WalEntryHeader.size h + data.length then some (id.stored h.idSizeBytes)
    else torn entries (n - (WalEntryHeader.size h + data.length))

variable {h}

variable {entries : List Entry} {id : UintN} {data content : Bytes} {ε : Type}
  {record done bytes : List UInt8} {fuel : Nat}

theorem encodeEntries_ok (fits : CanHold h entries) :
    entries.mapM (fun e => encodeEntry xxh64 h e.1 e.2) =
      .ok (entries.map (fun e => entryBytes xxh64 h e.1 e.2)) := by
  induction entries with
  | nil => rfl
  | cons e entries ih =>
    have first := encodeEntry_ok xxh64 (fits e (by simp))
    have rest := ih (fun e' member => fits e' (by simp [member]))
    rw [List.mapM_cons, first, rest]
    rfl

/-- What is left of the entries of a file after a cut: bytes, the entries a walker finds in them,
and the identifier of a cropped one. -/
inductive Cut (xxh64 : Hash) (h : WalHeader) :
    List UInt8 → List Entry → Option UintN → Prop where
  | short {bytes : List UInt8} (short : bytes.length < WalEntryHeader.size h) : Cut xxh64 h bytes [] none
  | cropped {id : UintN} {data : Bytes} {record : List UInt8}
      (fits : h.canHoldEntry id data.length = true) (cropped : record.length < data.length) :
      Cut xxh64 h (entryHeaderBytes xxh64 h id data ++ record) [] (some (id.stored h.idSizeBytes))
  | whole {id : UintN} {data : Bytes} {rest : List UInt8} {entries : List Entry}
      {torn : Option UintN} (fits : h.canHoldEntry id data.length = true)
      (tail : Cut xxh64 h rest entries torn) :
      Cut xxh64 h (entryBytes xxh64 h id data ++ rest) (storedEntry h (id, data) :: entries) torn

theorem survivors_short {n : Nat} (entries : List Entry)
    (short : n < WalEntryHeader.size h + data.length) : survivors h ((id, data) :: entries) n = [] := by
  rw [survivors, entrySizes, List.map_cons, wholeCount_short _ short]
  rfl

theorem survivors_whole (id : UintN) (data : Bytes) (n : Nat) (entries : List Entry) :
    survivors h ((id, data) :: entries) (WalEntryHeader.size h + data.length + n) =
      storedEntry h (id, data) :: survivors h entries n := by
  rw [survivors, entrySizes, List.map_cons, wholeCount_add]
  rfl

theorem torn_whole (id : UintN) (data : Bytes) (n : Nat) (entries : List Entry) :
    torn h ((id, data) :: entries) (WalEntryHeader.size h + data.length + n) = torn h entries n := by
  rw [torn, if_neg (by omega), if_neg (by omega), Nat.add_sub_cancel_left]

theorem cut_of_leading (fits : CanHold h entries) {p : List UInt8}
    (begins : p <+: entriesBytes xxh64 h entries) :
    Cut xxh64 h p (survivors h entries p.length) (torn h entries p.length) := by
  induction entries generalizing p with
  | nil =>
    obtain rfl : p = [] := List.prefix_nil.mp begins
    exact .short (by simp [WalEntryHeader.size, walEntryHeaderFixedOverhead])
  | cons e entries ih =>
    obtain ⟨id, data⟩ := e
    have fitsFirst : h.canHoldEntry id data.length = true := fits (id, data) (by simp)
    have headerLength := length_entryHeaderBytes xxh64 fitsFirst
    change p <+: entryBytes xxh64 h id data ++ entriesBytes xxh64 h entries at begins
    rcases cut_cases begins with ⟨inside, within⟩ | ⟨tail, rfl, later⟩
    · rw [length_entryBytes xxh64 fitsFirst] at inside
      rw [survivors_short entries inside, torn]
      rcases cut_cases within with ⟨short, _⟩ | ⟨record, rfl, _⟩
      · rw [headerLength] at short
        rw [if_pos short]
        exact .short short
      · rw [List.length_append, headerLength] at inside ⊢
        rw [if_neg (by omega), if_pos inside]
        exact .cropped fitsFirst (by omega)
    · rw [List.length_append, length_entryBytes xxh64 fitsFirst, survivors_whole, torn_whole]
      exact .whole fitsFirst (ih (fun e member => fits e (by simp [member])) later)

theorem cut_whole (fits : CanHold h entries) :
    Cut xxh64 h (entriesBytes xxh64 h entries) (entries.map (storedEntry h)) none := by
  induction entries with
  | nil => exact .short (WalEntryHeader.size_pos h)
  | cons e entries ih =>
    exact .whole (fits e (by simp)) (ih (fun e member => fits e (by simp [member])))

section

variable (fits : h.canHoldEntry id data.length = true)

include fits

theorem streamRecord_whole (rest : List UInt8) :
    (streamRecord xxh64 (data.data ++ rest) (storedEntryHeader xxh64 h id data) : Outcome ε _) =
      .ok (some (data.data, rest)) := by
  simp only [streamRecord, storedRecordSize xxh64 fits, data.word_length,
    Outcome.allocate_ok data.addressable, Outcome.ok_bind, readExact_append, storedEntryHeader_xxhash, ne_eq, not_true_eq_false, if_false]

theorem streamRecord_cropped (cropped : record.length < data.length) :
    (streamRecord xxh64 record (storedEntryHeader xxh64 h id data) : Outcome ε _) = .ok none := by
  have shorter : record.length < data.data.length := cropped
  simp only [streamRecord, storedRecordSize xxh64 fits, data.word_length,
    Outcome.allocate_ok data.addressable, Outcome.ok_bind, readExact_short () shorter]

theorem sliceRecord_whole {rest : List UInt8}
    (split : content.data = done ++ (data.data ++ rest)) :
    (sliceRecord xxh64 content.data done.length (storedEntryHeader xxh64 h id data) : Outcome ε _) =
      .ok (some data.data) := by
  have bound := content.addressable
  have small := data.addressable
  have length : content.data.length = done.length + (data.data.length + rest.length) := by
    rw [split, List.length_append, List.length_append]
  have record : (content.data.drop done.length).take data.data.length = data.data := by
    rw [split, List.drop_left, List.take_left]
  simp only [sliceRecord, storedRecordSize xxh64 fits, data.word_length,
    Outcome.addUsize_ok (show done.length + data.data.length < 2 ^ 64 by omega), Outcome.ok_bind]
  rw [if_neg (by omega), record]
  simp only [storedEntryHeader_xxhash, ne_eq, not_true_eq_false, if_false]

theorem sliceRecord_cropped (cropped : record.length < data.length)
    (split : content.data = done ++ record) :
    (sliceRecord xxh64 content.data done.length (storedEntryHeader xxh64 h id data) : Outcome ε _) =
      .ok none := by
  have bound := content.addressable
  have small := data.addressable
  have length : content.data.length = done.length + record.length := by
    rw [split, List.length_append]
  have shorter : record.length < data.data.length := cropped
  simp only [sliceRecord, storedRecordSize xxh64 fits, data.word_length,
    Outcome.addUsize_ok (show done.length + data.data.length < 2 ^ 64 by omega), Outcome.ok_bind]
  rw [if_pos (by omega)]

end

theorem walRangeLoop_cut {torn : Option UintN}
    (small : WalEntryHeader.size h < 2 ^ 63) (cut : Cut xxh64 h bytes entries torn)
    (enough : bytes.length < fuel) (firstId lastId : Option UintN) :
    walRangeLoop xxh64 h fuel bytes firstId lastId =
      .ok (firstId.or ((entries.head?.map Prod.fst).or torn),
        (entries.getLast?.map Prod.fst).or lastId) := by
  induction cut generalizing fuel firstId lastId with
  | short short =>
    obtain ⟨fuel, rfl⟩ := Nat.exists_eq_add_one_of_ne_zero (Nat.ne_zero_of_lt enough)
    simp [walRangeLoop, fromReader_entry_short small short]
  | cropped fits cropped =>
    obtain ⟨fuel, rfl⟩ := Nat.exists_eq_add_one_of_ne_zero (Nat.ne_zero_of_lt enough)
    simp [walRangeLoop, fromReader_entry xxh64 fits small, streamRecord_cropped xxh64 fits cropped]
  | whole fits tail ih =>
    obtain ⟨fuel, rfl⟩ := Nat.exists_eq_add_one_of_ne_zero (Nat.ne_zero_of_lt enough)
    have positive := WalEntryHeader.size_pos h
    rw [List.length_append, length_entryBytes xxh64 fits] at enough
    simp only [walRangeLoop, entryBytes, List.append_assoc, fromReader_entry xxh64 fits small,
      streamRecord_whole xxh64 fits, Outcome.ok_bind, storedEntryHeader_entryId]
    rw [ih (by omega)]
    simp only [storedEntry, List.head?_cons, Option.map_some, Option.some_or, Option.or_assoc,
      List.getLast?_cons]
    cases List.getLast? _ <;> rfl

section

variable (small : WalEntryHeader.size h < 2 ^ 64)

include small

theorem slice_whole {rest : List UInt8} (fits : h.canHoldEntry id data.length = true)
    (split : content.data = done ++ (entryBytes xxh64 h id data ++ rest)) :
    (content.data.drop done.length).isEmpty = false ∧
    WalEntryHeader.fromBytes (content.data.drop done.length) h =
      .ok (storedEntryHeader xxh64 h id data) ∧
    (∀ ε : Type, (sliceRecord xxh64 content.data (done.length + WalEntryHeader.size h)
      (storedEntryHeader xxh64 h id data) : Outcome ε _) = .ok (some data.data)) ∧
    content.slice (done.length + WalEntryHeader.size h) data.data.length = data ∧
    ∃ done', content.data = done' ++ rest ∧
      done'.length = done.length + WalEntryHeader.size h + data.data.length := by
  have remaining : content.data.drop done.length =
      entryHeaderBytes xxh64 h id data ++ (data.data ++ rest) := by
    rw [split, List.drop_left, entryBytes, List.append_assoc]
  have header := length_entryHeaderBytes xxh64 fits
  have split' : content.data = (done ++ entryHeaderBytes xxh64 h id data) ++ (data.data ++ rest) := by
    rw [split, entryBytes, List.append_assoc, List.append_assoc]
  have cursor : (done ++ entryHeaderBytes xxh64 h id data).length =
      done.length + WalEntryHeader.size h := by rw [List.length_append, header]
  refine ⟨by rw [remaining]; rfl, by rw [remaining, fromBytes_entry xxh64 fits small], ?_, ?_,
    done ++ entryHeaderBytes xxh64 h id data ++ data.data, ?_, ?_⟩
  · intro ε
    rw [← cursor]
    exact sliceRecord_whole xxh64 fits split'
  · rw [← cursor]
    apply Bytes.ext
    simp only [Bytes.slice, split', List.drop_left, List.take_left]
  · rw [split', List.append_assoc _ data.data]
  · rw [List.length_append, cursor]

/-- One round of a slice walker on an entry whose record is cropped. -/
theorem slice_cropped (fits : h.canHoldEntry id data.length = true)
    (cropped : record.length < data.length)
    (split : content.data = done ++ (entryHeaderBytes xxh64 h id data ++ record)) :
    (content.data.drop done.length).isEmpty = false ∧
    WalEntryHeader.fromBytes (content.data.drop done.length) h =
      .ok (storedEntryHeader xxh64 h id data) ∧
    (∀ ε : Type, (sliceRecord xxh64 content.data (done.length + WalEntryHeader.size h)
      (storedEntryHeader xxh64 h id data) : Outcome ε _) = .ok none) := by
  have remaining : content.data.drop done.length = entryHeaderBytes xxh64 h id data ++ record := by
    rw [split, List.drop_left]
  rw [← List.append_assoc] at split
  refine ⟨by rw [remaining]; rfl, by rw [remaining, fromBytes_entry xxh64 fits small], ?_⟩
  intro ε
  have record := sliceRecord_cropped (ε := ε) xxh64 fits cropped split
  rwa [List.length_append, length_entryHeaderBytes xxh64 fits] at record

theorem walContentLoop_cut {torn : Option UintN} (cut : Cut xxh64 h bytes entries torn)
    (split : content.data = done ++ bytes) (enough : bytes.length < fuel)
    (numEntries : Nat) :
    walContentLoop xxh64 h content.data fuel done.length numEntries =
      .ok (numEntries + entries.length) := by
  induction cut generalizing done fuel numEntries with
  | short short =>
    obtain ⟨fuel, rfl⟩ := Nat.exists_eq_add_one_of_ne_zero (Nat.ne_zero_of_lt enough)
    simp [walContentLoop, split, fromBytes_entry_short small short]
  | cropped fits cropped =>
    obtain ⟨fuel, rfl⟩ := Nat.exists_eq_add_one_of_ne_zero (Nat.ne_zero_of_lt enough)
    obtain ⟨nonempty, header, record⟩ := slice_cropped xxh64 small fits cropped split
    simp [walContentLoop, nonempty, header, record]
  | whole fits tail ih =>
    obtain ⟨fuel, rfl⟩ := Nat.exists_eq_add_one_of_ne_zero (Nat.ne_zero_of_lt enough)
    have positive := WalEntryHeader.size_pos h
    rw [List.length_append, length_entryBytes xxh64 fits] at enough
    obtain ⟨nonempty, header, record, _, done', split', next⟩ := slice_whole xxh64 small fits split
    simp only [walContentLoop, nonempty, Bool.false_eq_true, if_false, header, record,
      Outcome.ok_bind, ← next]
    rw [ih split' (by omega), List.length_cons]
    congr 1
    omega

end

/-- A range read over the entries found in a file and the identifier of a cropped one. -/
def walk (request : ReadRequest) : List Entry → Option UintN → Option UintN →
    Option UintN → Sender → Sender × Outcome WalError ReadRangeResult
  | [], cropped, lastRead, lastProcessed, target =>
    if target.isClosed then (target, .ok .channelClosed)
    else match cropped with
      | none => (target, .ok (rangeResult request false lastRead lastProcessed))
      | some id => (target, .ok (rangeResult request (pastEnd request id) lastRead (some id)))
  | (id, data) :: entries, cropped, lastRead, _, target =>
    if target.isClosed then (target, .ok .channelClosed)
    else if pastEnd request id then (target, .ok (rangeResult request true lastRead (some id)))
    else match deliver request id data lastRead target with
      | .panic => (target, .panic)
      | .err e => (target, .err e)
      | .ok (.closed target) => (target, .ok .channelClosed)
      | .ok (.reachedEnd target lastRead) => (target, .ok (rangeResult request true lastRead (some id)))
      | .ok (.proceed target lastRead) => walk request entries cropped lastRead (some id) target

theorem walBytesLoop_cut {torn : Option UintN} (request : ReadRequest)
    (small : WalEntryHeader.size h < 2 ^ 64) (cut : Cut xxh64 h bytes entries torn)
    (split : content.data = done ++ bytes) (enough : bytes.length < fuel)
    (lastRead lastProcessed : Option UintN) (target : Sender) :
    walBytesLoop xxh64 request h content fuel done.length lastRead lastProcessed target =
      walk request entries torn lastRead lastProcessed target := by
  induction cut generalizing done fuel lastRead lastProcessed target with
  | short short =>
    obtain ⟨fuel, rfl⟩ := Nat.exists_eq_add_one_of_ne_zero (Nat.ne_zero_of_lt enough)
    simp [walBytesLoop, walk, split, fromBytes_entry_short small short]
  | cropped fits cropped =>
    obtain ⟨fuel, rfl⟩ := Nat.exists_eq_add_one_of_ne_zero (Nat.ne_zero_of_lt enough)
    obtain ⟨nonempty, header, record⟩ := slice_cropped xxh64 small fits cropped split
    simp only [walBytesLoop, walk, nonempty, Bool.false_eq_true, if_false, header, record,
      storedEntryHeader_entryId]
    cases pastEnd request _ <;> rfl
  | whole fits tail ih =>
    obtain ⟨fuel, rfl⟩ := Nat.exists_eq_add_one_of_ne_zero (Nat.ne_zero_of_lt enough)
    have positive := WalEntryHeader.size_pos h
    rw [List.length_append, length_entryBytes xxh64 fits] at enough
    obtain ⟨nonempty, header, record, slice, done', split', next⟩ := slice_whole xxh64 small fits split
    have later := fun lastRead lastProcessed target =>
      ih split' (show _ < fuel by omega) lastRead lastProcessed target
    simp only [walBytesLoop, walk, nonempty, Bool.false_eq_true, if_false, header, record,
      storedEntryHeader_entryId, slice, storedEntry, ← next, later]
    rfl

structure WalHeader.Readable (h : WalHeader) : Prop where
  widths : WalEntryHeader.size h < 2 ^ 63
  guarded : h.numEntriesBefore.sizeInBytes ≤ 10 * 1024 * 1024

instance (h : WalHeader) : Decidable h.Readable :=
  decidable_of_iff (WalEntryHeader.size h < 2 ^ 63 ∧ h.numEntriesBefore.sizeInBytes ≤ 10 * 1024 * 1024)
    ⟨fun both => ⟨both.1, both.2⟩, fun readable => ⟨readable.widths, readable.guarded⟩⟩

theorem WalHeader.Readable.addressable {h : WalHeader} (readable : h.Readable) : h.Addressable := by
  have widths := readable.widths
  have guarded := readable.guarded
  unfold WalEntryHeader.size at widths
  exact ⟨by omega, by omega, by omega⟩

theorem Cut.stored {torn : Option UintN}
    (cut : Cut xxh64 h bytes entries torn) : Cut xxh64 h.stored bytes entries torn := by
  induction cut with
  | short short => exact .short short
  | cropped fits cropped => exact .cropped (h := h.stored) fits cropped
  | whole fits tail ih => exact .whole (h := h.stored) fits ih

theorem header_nonempty (h : WalHeader) (bytes : List UInt8) :
    (h.writeToBytes ++ bytes).isEmpty = false := rfl

theorem getWalRange_cut {torn : Option UintN}
    (readable : h.Readable) (cut : Cut xxh64 h bytes entries torn) (fileId : UintN) :
    getWalRange xxh64 (some (h.writeToBytes ++ bytes)) fileId = .ok (h.stored,
      ((entries.head?.map Prod.fst).or torn).bind
        (fun first => (entries.getLast?.map Prod.fst).map (fun last => (first, last)))) := by
  have loop := walRangeLoop_cut (h := h.stored) xxh64 readable.widths (cut.stored xxh64)
    (Nat.lt_succ_self bytes.length) none none
  simp only [getWalRange, header_nonempty, Bool.false_eq_true, if_false, headerOrEmpty,
    WalHeader.fromReader_append h readable.addressable readable.guarded, Outcome.ok_bind, loop,
    Outcome.pure_eq_ok, Option.none_or, Option.or_none]

theorem getWalContent_cut {file : Bytes}
    {torn : Option UintN} (readable : h.Readable) (cut : Cut xxh64 h bytes entries torn)
    (split : file.data = h.writeToBytes ++ bytes) :
    getWalContent xxh64 (some file) = .ok ⟨h.stored.numEntriesBefore,
      .ofU64 (BitVec.ofNat 64 entries.length), file⟩ := by
  have widths := readable.widths
  have header : WalHeader.fromBytes file.data = .ok (h.stored, h.writeToBytes.length) := by
    rw [split, WalHeader.fromBytes_append h readable.addressable, WalHeader.length_writeToBytes]
  have nonempty : file.data.isEmpty = false := by rw [split]; rfl
  have enough : bytes.length < file.length + 1 := by
    rw [Bytes.length, split, List.length_append]
    omega
  have loop := walContentLoop_cut (h := h.stored) xxh64 (show WalEntryHeader.size h < 2 ^ 64 by omega)
    (cut.stored xxh64) split enough 0
  simp only [getWalContent, nonempty, Bool.false_eq_true, if_false, header, Outcome.mapErr_ok,
    Outcome.ok_bind, loop, Outcome.pure_eq_ok, Nat.zero_add]

theorem readWalBytesRange_cut {file : Bytes}
    {torn : Option UintN} (addressable : h.Addressable) (small : WalEntryHeader.size h < 2 ^ 64)
    (cut : Cut xxh64 h bytes entries torn) (split : file.data = h.writeToBytes ++ bytes)
    (request : ReadRequest) (target : Sender) :
    readWalBytesRange xxh64 file request target =
      walk { request with step := max request.step 1 } entries torn none none target := by
  have header : WalHeader.fromBytes file.data = .ok (h.stored, h.writeToBytes.length) := by
    rw [split, WalHeader.fromBytes_append h addressable, WalHeader.length_writeToBytes]
  have nonempty : file.data.isEmpty = false := by rw [split]; rfl
  have enough : bytes.length < file.length + 1 := by
    rw [Bytes.length, split, List.length_append]
    omega
  simp only [readWalBytesRange, nonempty, Bool.false_eq_true, if_false, header]
  exact walBytesLoop_cut (h := h.stored) xxh64 _ small (cut.stored xxh64) split enough none none target

theorem walk_everything (request : ReadRequest) (unbounded : request.untilId = none)
    (single : request.step = 1) (entries : List Entry)
    (above : ∀ e ∈ entries, request.fromId.toNat ≤ e.1.toNat) (torn lastRead lastProcessed : Option UintN)
    (delivered : List ReadEntry) :
    ∃ result, walk request entries torn lastRead lastProcessed (.staying delivered) =
      (.staying (delivered ++ entries.map (fun e => ⟨e.1, e.2, request.source⟩)), .ok result) := by
  induction entries generalizing lastRead lastProcessed delivered with
  | nil => cases torn <;> simp [walk]
  | cons e entries ih =>
    have from_le : request.fromId ≤ e.1 := (UintN.le_iff _ _).mpr (above e (by simp))
    have sent : (deliver request e.1 e.2 lastRead (.staying delivered) : Outcome WalError _) =
        .ok (.proceed (.staying (delivered ++ [⟨e.1, e.2, request.source⟩])) (some e.1)) := by
      simp [deliver, from_le, unbounded, single, UintN.inStep]
    obtain ⟨result, later⟩ := ih (fun e' member => above e' (by simp [member])) (some e.1) (some e.1)
      (delivered ++ [⟨e.1, e.2, request.source⟩])
    refine ⟨result, ?_⟩
    simp only [walk, Sender.isClosed_staying, Bool.false_eq_true, if_false, pastEnd, unbounded,
      Option.any_none, sent, later, List.map_cons, List.append_assoc, List.singleton_append]

/-- Two lists of entries with the same numbers and the same payloads. -/
def valueOf (e : Entry) : Nat × Bytes := (e.1.toNat, e.2)

theorem stored_value (fits : CanHold h entries) :
    (entries.map (storedEntry h)).map valueOf = entries.map valueOf := by
  rw [List.map_map]
  apply List.map_congr_left
  intro e member
  have fit := (WalHeader.canHoldEntry_iff _ _ _).mp (fits e member)
  simp only [Function.comp, valueOf, storedEntry, UintN.toNat_stored _ fit.1]

theorem survivors_value (fits : CanHold h entries) (n : Nat) :
    (survivors h entries n).map valueOf =
      (entries.take (wholeCount (entrySizes h entries) n)).map valueOf :=
  stored_value (fun e member => fits e (List.mem_of_mem_take member))

theorem length_survivors (h : WalHeader) (entries : List Entry) (n : Nat) :
    (survivors h entries n).length = wholeCount (entrySizes h entries) n := by
  have bound := wholeCount_le (entrySizes h entries) n
  rw [entrySizes, List.length_map] at bound
  rw [survivors, List.length_map, List.length_take, entrySizes]
  omega

theorem blocks_sizes (fits : CanHold h entries) :
    (entries.map (fun e => entryBytes xxh64 h e.1 e.2)).map List.length = entrySizes h entries := by
  rw [List.map_map, entrySizes]
  apply List.map_congr_left
  intro e member
  exact length_entryBytes xxh64 (fits e member)

theorem entrySizes_pos (h : WalHeader) (entries : List Entry) :
    ∀ size ∈ entrySizes h entries, 0 < size := by
  intro size member
  obtain ⟨e, _, rfl⟩ := List.mem_map.mp member
  have positive := WalEntryHeader.size_pos h
  omega

def idRange (entries : List Entry) : Option (Nat × Nat) :=
  entries.head?.bind (fun first => entries.getLast?.map (fun last => (first.1.toNat, last.1.toNat)))

theorem idRange_congr {as bs : List Entry} (same : as.map valueOf = bs.map valueOf) :
    idRange as = idRange bs := by
  have heads := congrArg List.head? same
  have lasts := congrArg List.getLast? same
  rw [List.head?_map, List.head?_map] at heads
  rw [List.getLast?_map, List.getLast?_map] at lasts
  have through : ∀ es : List Entry, idRange es =
      (es.head?.map valueOf).bind (fun a => (es.getLast?.map valueOf).map (fun b => (a.1, b.1))) := by
    intro es
    cases hd : es.head? <;> cases tl : es.getLast? <;> simp [idRange, hd, tl, valueOf]
  rw [through, through, heads, lasts]

theorem lastId_congr {as bs : List Entry} (same : as.map valueOf = bs.map valueOf) :
    as.getLast?.map (fun e => e.1.toNat) = bs.getLast?.map (fun e => e.1.toNat) := by
  have through : ∀ es : List Entry,
      es.getLast?.map (fun e => e.1.toNat) = (es.map valueOf).getLast?.map Prod.fst := by
    intro es
    rw [List.getLast?_map, Option.map_map]
    rfl
  rw [through, through, same]

def firstAndLast (entries : List Entry) : Option (UintN × UintN) :=
  entries.head?.bind (fun first => entries.getLast?.map (fun last => (first.1, last.1)))

/-- The number in the header of a damaged entry is no answer on its own. -/
theorem first_and_last (entries : List Entry) (torn : Option UintN) :
    ((entries.head?.map Prod.fst).or torn).bind
      (fun first => (entries.getLast?.map Prod.fst).map (fun last => (first, last))) = firstAndLast entries := by
  cases entries with
  | nil => cases torn <;> rfl
  | cons e entries => simp [firstAndLast, List.getLast?_cons]

theorem range_value (entries : List Entry) (torn : Option UintN) :
    (((entries.head?.map Prod.fst).or torn).bind
      (fun first => (entries.getLast?.map Prod.fst).map (fun last => (first, last)))).map
        (fun r => (r.1.toNat, r.2.toNat)) = idRange entries := by
  rw [first_and_last, firstAndLast, idRange]
  cases entries.head? <;> cases entries.getLast? <;> rfl

theorem getWalRange_short (addressable : h.Addressable) {p : List UInt8} (cut : p <+: h.writeToBytes)
    (short : p.length < h.size) (fileId : UintN) :
    getWalRange xxh64 (some p) fileId = .err (.walEmpty fileId) := by
  unfold getWalRange
  dsimp only
  split
  · rfl
  · rw [WalHeader.fromReader_short h addressable cut short]
    rfl

theorem readWalBytesRange_short (addressable : h.Addressable) {p : Bytes}
    (cut : p.data <+: h.writeToBytes) (short : p.length < h.size) (request : ReadRequest)
    (target : Sender) : (readWalBytesRange xxh64 p request target).1 = target := by
  unfold readWalBytesRange
  dsimp only
  split
  · rfl
  · rcases WalHeader.fromBytes_short h addressable cut short with header | header <;> rw [header]

/- A file cut anywhere after its header still gives every reader the entries before the cut;
a file cut inside its header gives none of them anything. -/
theorem crash_prefix_decoding (h : WalHeader) (entries : List Entry)
    (blocks : List (List UInt8)) (p : Bytes) (fileId fromId : UintN) (source : DataSource)
    (delivered : List ReadEntry) (zero : fromId.toNat = 0)
    (guarded : h.numEntriesBefore.sizeInBytes ≤ 10 * 1024 * 1024)
    (widths : 16 + h.idSizeBytes + h.dataSizeBytes < 2 ^ 63)
    (fits : ∀ e ∈ entries, h.canHoldEntry e.1 e.2.length = true)
    (encoded : entries.mapM (fun e => encodeEntry xxh64 h e.1 e.2) = .ok blocks)
    (cut : p.data <+: h.writeToBytes ++ blocks.flatten) :
    (h.size ≤ p.length →
      let k := wholeCount (blocks.map List.length) (p.length - h.size)
      (∃ header range, getWalRange xxh64 (some p.data) fileId = .ok (header, range) ∧
        header.Same h ∧
        range.map (fun r => (r.1.toNat, r.2.toNat)) = idRange (entries.take k)) ∧
      (∃ content, getWalContent xxh64 (some p) = .ok content ∧ content.numEntries.toNat = k ∧
        content.entriesBefore.toNat = h.numEntriesBefore.toNat) ∧
      (∃ sent result, readWalBytesRange xxh64 p ⟨fromId, none, 1, source⟩ (.staying delivered) =
          (.staying (delivered ++ sent), .ok result) ∧
        sent.map (fun e => (e.id.toNat, e.data)) =
          (entries.take k).map (fun e => (e.1.toNat, e.2)))) ∧
    (p.length < h.size →
      getWalRange xxh64 (some p.data) fileId = .err (.walEmpty fileId) ∧
      (readWalBytesRange xxh64 p ⟨fromId, none, 1, source⟩ (.staying delivered)).1 =
        .staying delivered) := by
  have readable : h.Readable := ⟨widths, guarded⟩
  have blocksEq : blocks = entries.map (fun e => entryBytes xxh64 h e.1 e.2) := by
    rw [encodeEntries_ok xxh64 fits] at encoded
    exact (Except.ok.inj encoded).symm
  have sizes := blocks_sizes xxh64 fits
  have flat : blocks.flatten = entriesBytes xxh64 h entries := by
    rw [blocksEq, entriesBytes, List.flatMap_def]
  rw [flat] at cut
  rw [← blocksEq] at sizes
  refine ⟨fun long => ?_, fun short => ?_⟩
  · rcases cut_cases cut with ⟨short, _⟩ | ⟨bytes, split, begins⟩
    · rw [WalHeader.length_writeToBytes] at short
      exact absurd long (Nat.not_le.mpr short)
    · have cutEntries := cut_of_leading xxh64 fits begins
      have length : p.length - h.size = bytes.length := by
        rw [Bytes.length, split, List.length_append, WalHeader.length_writeToBytes]
        omega
      have value := survivors_value fits bytes.length
      have range := getWalRange_cut xxh64 readable cutEntries fileId
      rw [← split] at range
      dsimp only
      rw [sizes, length]
      refine ⟨⟨h.stored, _, range, h.stored_same, ?_⟩, ?_, ?_⟩
      · rw [range_value]
        exact idRange_congr value
      · refine ⟨_, getWalContent_cut xxh64 readable cutEntries split, ?_, h.stored_same.2.2⟩
        have bound := wholeCount_le_length (entrySizes_pos h entries) bytes.length
        have room := p.addressable
        rw [split, List.length_append] at room
        rw [UintN.toNat_ofU64, BitVec.toNat_ofNat, length_survivors, Nat.mod_eq_of_lt (by omega)]
      · have reads := readWalBytesRange_cut xxh64 readable.addressable
          (Nat.lt_trans widths (by decide)) cutEntries split ⟨fromId, none, 1, source⟩ (.staying delivered)
        obtain ⟨result, all⟩ := walk_everything ⟨fromId, none, 1, source⟩ rfl rfl
          (survivors h entries bytes.length) (by intro e _; simp [zero]) (torn h entries bytes.length)
          none none delivered
        refine ⟨_, result, reads.trans all, ?_⟩
        rw [List.map_map]
        exact value
  · have inside : p.data <+: h.writeToBytes := by
      rcases cut_cases cut with ⟨_, inside⟩ | ⟨bytes, split, _⟩
      · exact inside
      · rw [Bytes.length, split, List.length_append, WalHeader.length_writeToBytes] at short
        omega
    exact ⟨getWalRange_short xxh64 readable.addressable inside short fileId,
      readWalBytesRange_short xxh64 readable.addressable inside short _ _⟩

theorem getWalRange_guard (h : WalHeader) (addressable : h.Addressable)
    (large : 10 * 1024 * 1024 < h.numEntriesBefore.sizeInBytes) (rest : List UInt8) (fileId : UintN) :
    getWalRange xxh64 (some (h.writeToBytes ++ rest)) fileId = .err (.walEmpty fileId) := by
  simp only [getWalRange, header_nonempty, Bool.false_eq_true, if_false,
    WalHeader.fromReader_guard h addressable large]
  rfl

end Cut

/- Two files that consist of a whole header and nothing else. The first is reported empty because
of the guard on the count; for the second no buffer can hold an entry header. -/
theorem crash_prefix_header_limits :
    (∃ h : WalHeader, h = ⟨8, 4, .big (256 ^ (10 * 1024 * 1024))⟩ ∧
      h.writeToBytes.length < 2 ^ 63 ∧
      getWalRange (fun _ => 0) (some h.writeToBytes) .zero = .err (.walEmpty .zero)) ∧
    getWalRange (fun _ => 0) (some (WalHeader.mk 8 (2 ^ 63) .zero).writeToBytes) .zero = .panic := by
  refine ⟨⟨_, rfl, ?_⟩, by decide⟩
  generalize header : WalHeader.mk 8 4 (.big (256 ^ (10 * 1024 * 1024))) = h
  have size : h.numEntriesBefore.sizeInBytes = 10 * 1024 * 1024 + 1 := by
    rw [← header]
    exact byteLength_pow _
  have empty := getWalRange_guard (fun _ => 0) h
    ⟨by rw [← header]; decide, by rw [← header]; decide, by rw [size]; decide⟩
    (by rw [size]; decide) [] .zero
  rw [List.append_nil] at empty
  refine ⟨?_, empty⟩
  rw [WalHeader.length_writeToBytes, WalHeader.size, size]
  decide

theorem crash_prefix_decoding_torn :
    ∃ content, getWalContent (fun _ => 7) (some ⟨WalHeader.default.writeToBytes ++
        entryBytes (fun _ => 7) .default (.u8 0) ⟨[1, 2], by decide⟩ ++ [0, 0, 0], by decide⟩) =
          .ok content ∧
      content.numEntries.toNat = 1 ∧ content.entriesBefore.toNat = 0 := by
  have reads := (crash_prefix_decoding (fun _ => 7) .default
    [(.u8 0, ⟨[1, 2], by decide⟩), (.u8 1, ⟨[], by decide⟩)]
    [entryBytes (fun _ => 7) .default (.u8 0) ⟨[1, 2], by decide⟩,
      entryBytes (fun _ => 7) .default (.u8 1) ⟨[], by decide⟩]
    ⟨WalHeader.default.writeToBytes ++
      entryBytes (fun _ => 7) .default (.u8 0) ⟨[1, 2], by decide⟩ ++ [0, 0, 0], by decide⟩
    .zero .zero .diskWal [] rfl (by decide) (by decide) (by decide) rfl (by decide)).1 (by decide)
  exact reads.2.1

end NormFS
