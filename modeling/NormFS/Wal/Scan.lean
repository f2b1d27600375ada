import NormFS.Wal.Content
import NormFS.Wal.Range

/-! Arbitrary bytes after a file header: the entries that stand there one after another, and what
each of the four walkers makes of the place where they end. -/
namespace NormFS

open LittleEndian Framing

section Leading

variable {xxh64 : Hash} {h : WalHeader} {content : List UInt8}

variable {cursor stop : Nat} {entries : List Entry}

theorem EntryAt.unique {entry entry' : WalEntryHeader} {record record' : List UInt8}
    (first : EntryAt xxh64 h content cursor entry record) (second : EntryAt xxh64 h content cursor entry' record') :
    entry = entry' ∧ record = record' := by
  obtain rfl : entry = entry' := Outcome.ok.inj (first.decoded.symm.trans second.decoded)
  have length : record.length = record'.length := first.size.symm.trans second.size
  refine ⟨rfl, ?_⟩
  rw [List.prefix_iff_eq_take.mp first.placed, List.prefix_iff_eq_take.mp second.placed, length]

/-- The entries that stand one after another from a place on, all of them, and the place after
the last. -/
inductive Leading (xxh64 : Hash) (h : WalHeader) (content : List UInt8) :
    Nat → List Entry → Nat → Prop
  | stop {cursor : Nat} (none : ∀ entry record, ¬ EntryAt xxh64 h content cursor entry record) :
      Leading xxh64 h content cursor [] cursor
  | entry {cursor stop : Nat} {entry : WalEntryHeader} {record : Bytes} {entries : List Entry}
      (here : EntryAt xxh64 h content cursor entry record.data)
      (later : Leading xxh64 h content (cursor + WalEntryHeader.size h + record.length) entries stop) :
      Leading xxh64 h content cursor ((entry.entryId, record) :: entries) stop

section

variable (leading : Leading xxh64 h content cursor entries stop)

include leading

theorem Leading.none_after :
    ∀ entry record, ¬ EntryAt xxh64 h content stop entry record := by
  induction leading with
  | stop none' => exact none'
  | entry _ _ ih => exact ih

theorem Leading.passes : cursor + 16 * entries.length ≤ stop := by
  induction leading with
  | stop => exact Nat.le_refl _
  | entry _ _ ih =>
    rw [WalEntryHeader.size, walEntryHeaderFixedOverhead] at ih
    rw [List.length_cons]
    omega

theorem Leading.inside (begins : cursor ≤ content.length) :
    stop ≤ content.length := by
  induction leading with
  | stop => exact begins
  | entry here _ ih => exact ih here.inside

end

theorem leading_exists (xxh64 : Hash) (h : WalHeader) (small : content.length < 2 ^ 63)
    (cursor : Nat) : ∃ entries stop, Leading xxh64 h content cursor entries stop := by
  induction left : content.length - cursor using Nat.strongRecOn generalizing cursor with
  | ind left ih =>
    by_cases some' : ∃ entry record, EntryAt xxh64 h content cursor entry record
    · obtain ⟨entry, record, here⟩ := some'
      have inside := here.inside
      have positive := WalEntryHeader.size_pos h
      obtain ⟨entries, stop, later⟩ := ih (content.length - (cursor + WalEntryHeader.size h + record.length))
        (by omega) (cursor + WalEntryHeader.size h + record.length) rfl
      have buffered : EntryAt xxh64 h content cursor entry (Bytes.mk record (by omega)).data := here
      exact ⟨_, stop, .entry buffered later⟩
    · exact ⟨[], cursor, .stop (fun entry record here => some' ⟨entry, record, here⟩)⟩

end Leading

section Ending

variable {xxh64 : Hash} {h : WalHeader} {content : List UInt8}

/-- The number in the header at a place, whether or not the record after it is good. -/
def headerAt (h : WalHeader) (content : List UInt8) (cursor : Nat) : Option UintN :=
  match WalEntryHeader.fromBytes (content.drop cursor) h with
  | .ok entry => some entry.entryId
  | _ => none

/-- The length of the record that the header at a place announces, if it is a machine word. -/
def announced (h : WalHeader) (content : List UInt8) (cursor : Nat) : Option Nat :=
  match WalEntryHeader.fromBytes (content.drop cursor) h with
  | .ok entry => entry.recordSize.toU64.toOption.map BitVec.toNat
  | _ => none

theorem announced_eq_some {cursor size : Nat} : announced h content cursor = some size ↔
    ∃ entry word, WalEntryHeader.fromBytes (content.drop cursor) h = .ok entry ∧
      entry.recordSize.toU64 = .ok word ∧ word.toNat = size := by
  unfold announced
  cases WalEntryHeader.fromBytes (content.drop cursor) h with
  | ok entry => cases read : entry.recordSize.toU64 <;> simp [Except.toOption, read]
  | err e => simp
  | panic => simp

structure Steady (h : WalHeader) (content : List UInt8) (stop : Nat) : Prop where
  header : stop < content.length → WalEntryHeader.size h < 2 ^ 64
  record : ∀ size ∈ announced h content stop, stop + WalEntryHeader.size h + size < 2 ^ 64

theorem fromBytes_present {bytes : List UInt8} (small : WalEntryHeader.size h < 2 ^ 64)
    (room : WalEntryHeader.size h ≤ bytes.length) (version : decode (bytes.take 8) = 0) :
    ∃ entry, WalEntryHeader.fromBytes bytes h = .ok entry ∧
      entry.recordSize.toNat = decode ((bytes.drop (8 + h.idSizeBytes)).take h.dataSizeBytes) := by
  have total := room
  rw [WalEntryHeader.size, walEntryHeaderFixedOverhead] at total
  have idLength : ((bytes.drop 8).take h.idSizeBytes).length = h.idSizeBytes := by
    rw [List.length_take, List.length_drop]
    omega
  have sizeLength : ((bytes.drop (8 + h.idSizeBytes)).take h.dataSizeBytes).length = h.dataSizeBytes := by
    rw [List.length_take, List.length_drop]
    omega
  obtain ⟨entryId, readId, -⟩ := UintN.readValueFromSlice_ok ((bytes.drop 8).take h.idSizeBytes)
  obtain ⟨recordSize, readSize, value⟩ :=
    UintN.readValueFromSlice_ok ((bytes.drop (8 + h.idSizeBytes)).take h.dataSizeBytes)
  rw [idLength] at readId
  rw [sizeLength] at readSize
  refine ⟨⟨entryId, recordSize, BitVec.ofNat 64 (decode
    ((bytes.drop (8 + h.idSizeBytes + h.dataSizeBytes)).take 8))⟩, ?_, value⟩
  unfold WalEntryHeader.fromBytes
  rw [expectedSize_ok small, Outcome.ok_bind, if_neg (Nat.not_lt.mpr room)]
  dsimp only
  rw [if_neg (not_not.mpr version), readId, readSize]
  rfl

theorem fromBytes_eq_panic {bytes : List UInt8} :
    WalEntryHeader.fromBytes bytes h = .panic ↔ 2 ^ 64 ≤ WalEntryHeader.size h := by
  constructor
  · intro panics
    by_contra fits
    have small := Nat.lt_of_not_le fits
    by_cases room : WalEntryHeader.size h ≤ bytes.length
    · by_cases version : decode (bytes.take 8) = 0
      · obtain ⟨entry, decoded, -⟩ := fromBytes_present small room version
        rw [decoded] at panics
        cases panics
      · unfold WalEntryHeader.fromBytes at panics
        rw [expectedSize_ok small, Outcome.ok_bind, if_neg (Nat.not_lt.mpr room)] at panics
        dsimp only at panics
        rw [if_pos version] at panics
        cases panics
    · rw [fromBytes_entry_short small (Nat.lt_of_not_le room)] at panics
      cases panics
  · intro large
    rw [WalEntryHeader.fromBytes, expectedSize_large large, Outcome.panic_bind]

variable {ε : Type}

theorem sliceRecord_eq_panic {cursor : Nat} {entry : WalEntryHeader} :
    (sliceRecord xxh64 content cursor entry : Outcome ε _) = .panic ↔
      ∃ word, entry.recordSize.toU64 = .ok word ∧ 2 ^ 64 ≤ cursor + word.toNat := by
  unfold sliceRecord
  cases entry.recordSize.toU64 with
  | error e => simp
  | ok word =>
    by_cases small : cursor + word.toNat < 2 ^ 64
    · simp only [Outcome.addUsize_ok small, Outcome.ok_bind]
      constructor
      · intro panics
        split at panics
        · cases panics
        · split at panics <;> cases panics
      · rintro ⟨_, ⟨⟩, large⟩
        omega
    · simp only [Outcome.addUsize, if_neg small, Outcome.panic_bind, true_iff]
      exact ⟨word, rfl, by omega⟩

theorem sliceRecord_errorless (cursor : Nat) (entry : WalEntryHeader) :
    (sliceRecord xxh64 content cursor entry : Outcome ε _).Errorless := by
  unfold sliceRecord
  cases entry.recordSize.toU64 with
  | error e => exact Outcome.errorless_ok _
  | ok word =>
    refine Outcome.Errorless.bind ?_ ?_
    · unfold Outcome.addUsize
      split <;> rintro e ⟨⟩
    · intro stop
      split
      · exact Outcome.errorless_ok _
      · dsimp only
        split <;> exact Outcome.errorless_ok _

/-- Where no entry stands and the offsets are machine words, a slice walker finds no record. -/
theorem sliceRecord_stop {stop : Nat}
    (nothing : ∀ entry record, ¬ EntryAt xxh64 h content stop entry record) (steady : Steady h content stop)
    {entry : WalEntryHeader} (decoded : WalEntryHeader.fromBytes (content.drop stop) h = .ok entry) :
    (sliceRecord xxh64 content (stop + WalEntryHeader.size h) entry : Outcome ε _) = .ok none := by
  cases found : (sliceRecord xxh64 content (stop + WalEntryHeader.size h) entry : Outcome ε _) with
  | panic =>
    obtain ⟨word, read, large⟩ := sliceRecord_eq_panic.mp found
    have := steady.record word.toNat (announced_eq_some.mpr ⟨entry, word, decoded, read, rfl⟩)
    omega
  | err e => exact absurd found (sliceRecord_errorless _ _ e)
  | ok answer =>
    cases answer with
    | none => rfl
    | some record => exact absurd (entryAt_of_slice decoded found) (nothing _ _)

theorem unsteady (xxh64 : Hash) {stop : Nat} (overflow : ¬ Steady h content stop) :
    ((content.drop stop).isEmpty = false ∧ WalEntryHeader.fromBytes (content.drop stop) h = .panic) ∨
    ((content.drop stop).isEmpty = false ∧ ∃ entry,
      WalEntryHeader.fromBytes (content.drop stop) h = .ok entry ∧
      ∀ ε : Type, (sliceRecord xxh64 content (stop + WalEntryHeader.size h) entry : Outcome ε _) = .panic) := by
  by_cases header : stop < content.length → WalEntryHeader.size h < 2 ^ 64
  · right
    have record : ¬ ∀ size ∈ announced h content stop, stop + WalEntryHeader.size h + size < 2 ^ 64 :=
      fun all => overflow ⟨header, all⟩
    push Not at record
    obtain ⟨size, some', large⟩ := record
    obtain ⟨entry, word, decoded, read, rfl⟩ := announced_eq_some.mp some'
    refine ⟨?_, entry, decoded, fun ε => sliceRecord_eq_panic.mpr ⟨word, read, large⟩⟩
    have room := fromBytes_room decoded
    have positive := WalEntryHeader.size_pos h
    rw [List.isEmpty_eq_false_iff]
    intro nil
    rw [nil, List.length_nil] at room
    omega
  · left
    push Not at header
    obtain ⟨before, large⟩ := header
    refine ⟨?_, fromBytes_eq_panic.mpr large⟩
    rw [List.isEmpty_eq_false_iff, ne_eq, List.drop_eq_nil_iff]
    omega

end Ending

section Content

variable {xxh64 : Hash} {h : WalHeader} {content : List UInt8}

variable {stop : Nat}

/-- The counting walker takes all the entries and comes to the place after them. -/
theorem walContentLoop_leading (small : content.length < 2 ^ 63) {cursor : Nat}
    {entries : List Entry} (leading : Leading xxh64 h content cursor entries stop) {fuel : Nat}
    (enough : content.length < cursor + fuel) (numEntries : Nat) :
    ∃ left, content.length < stop + left ∧ walContentLoop xxh64 h content fuel cursor numEntries =
      walContentLoop xxh64 h content left stop (numEntries + entries.length) := by
  induction leading generalizing fuel numEntries with
  | stop => exact ⟨fuel, enough, rfl⟩
  | @entry cursor stop entry record entries here later ih =>
    have inside := here.inside
    have positive := WalEntryHeader.size_pos h
    obtain ⟨fuel, rfl⟩ := Nat.exists_eq_add_one_of_ne_zero (show fuel ≠ 0 by omega)
    have nonempty : (content.drop cursor).isEmpty = false := by
      rw [List.isEmpty_eq_false_iff, ne_eq, List.drop_eq_nil_iff]
      omega
    obtain ⟨left, remains, later⟩ := ih (show _ < _ + fuel by omega) (numEntries + 1)
    refine ⟨left, remains, ?_⟩
    rw [walContentLoop]
    simp only [nonempty, Bool.false_eq_true, if_false, here.decoded, here.sliced small, Outcome.ok_bind]
    rw [List.length_cons, Nat.add_comm entries.length, ← Nat.add_assoc]
    exact later

theorem walContentLoop_stop (nothing : ∀ entry record, ¬ EntryAt xxh64 h content stop entry record)
    (steady : Steady h content stop) (fuel numEntries : Nat) :
    walContentLoop xxh64 h content (fuel + 1) stop numEntries = .ok numEntries := by
  rw [walContentLoop]
  split
  · rfl
  · rename_i nonempty
    have before : stop < content.length := by
      rw [Bool.not_eq_true, List.isEmpty_eq_false_iff, ne_eq, List.drop_eq_nil_iff] at nonempty
      omega
    cases decoded : WalEntryHeader.fromBytes (content.drop stop) h with
    | panic =>
      have := fromBytes_eq_panic.mp decoded
      have := steady.header before
      omega
    | err e => rfl
    | ok entry =>
      dsimp only
      rw [sliceRecord_stop nothing steady decoded]
      rfl

/-- Otherwise it panics: at the widths of the header, or at the announced length. -/
theorem walContentLoop_panic (overflow : ¬ Steady h content stop) (fuel numEntries : Nat) :
    walContentLoop xxh64 h content (fuel + 1) stop numEntries = .panic := by
  rw [walContentLoop]
  rcases unsteady xxh64 overflow with ⟨nonempty, panics⟩ | ⟨nonempty, entry, decoded, panics⟩
  · simp only [nonempty, Bool.false_eq_true, if_false, panics]
  · simp only [nonempty, Bool.false_eq_true, if_false, decoded, panics, Outcome.panic_bind]

end Content

section Walk

/-- A range read over good entries, with what follows at the place after them. -/
def walkThen (request : ReadRequest) (after : Option UintN → Option UintN → Sender →
    Sender × Outcome WalError ReadRangeResult) : List Entry → Option UintN → Option UintN →
    Sender → Sender × Outcome WalError ReadRangeResult
  | [], lastRead, lastProcessed, target => after lastRead lastProcessed target
  | (id, data) :: entries, lastRead, _, target =>
    if target.isClosed then (target, .ok .channelClosed)
    else if pastEnd request id then (target, .ok (rangeResult request true lastRead (some id)))
    else match deliver request id data lastRead target with
      | .panic => (target, .panic)
      | .err e => (target, .err e)
      | .ok (.closed target) => (target, .ok .channelClosed)
      | .ok (.reachedEnd target lastRead) => (target, .ok (rangeResult request true lastRead (some id)))
      | .ok (.proceed target lastRead) => walkThen request after entries lastRead (some id) target

theorem walk_eq_walkThen (request : ReadRequest) (entries : List Entry) (torn : Option UintN) :
    walk request entries torn = walkThen request (walk request [] torn) entries := by
  funext lastRead lastProcessed target
  induction entries generalizing lastRead lastProcessed target with
  | nil => rfl
  | cons e entries ih =>
    obtain ⟨id, data⟩ := e
    conv_lhs => simp only [walk, ih]
    rfl

variable {xxh64 : Hash} {h : WalHeader}

variable {content : Bytes} {cursor stop fuel : Nat} {entries : List Entry}

theorem walBytesLoop_leading (request : ReadRequest) (leading : Leading xxh64 h content.data cursor entries stop)
    (enough : content.length < cursor + fuel) :
    ∃ left, content.length < stop + left ∧ walBytesLoop xxh64 request h content fuel cursor =
      walkThen request (walBytesLoop xxh64 request h content left stop) entries := by
  induction leading generalizing fuel with
  | stop => exact ⟨fuel, enough, rfl⟩
  | @entry cursor stop entry record entries here later ih =>
    have inside := here.inside
    have positive := WalEntryHeader.size_pos h
    rw [Bytes.length] at enough
    obtain ⟨fuel, rfl⟩ := Nat.exists_eq_add_one_of_ne_zero (show fuel ≠ 0 by omega)
    have nonempty : (content.data.drop cursor).isEmpty = false := by
      rw [List.isEmpty_eq_false_iff, ne_eq, List.drop_eq_nil_iff]
      omega
    have slice : content.slice (cursor + WalEntryHeader.size h) record.data.length = record :=
      Bytes.ext (List.prefix_iff_eq_take.mp here.placed).symm
    obtain ⟨left, remains, later⟩ := @ih fuel (by rw [Bytes.length, Bytes.length]; omega)
    refine ⟨left, remains, ?_⟩
    funext lastRead lastProcessed target
    have later' := fun lastRead lastProcessed target =>
      congrFun (congrFun (congrFun later lastRead) lastProcessed) target
    rw [Bytes.length] at later'
    conv_lhs =>
      simp only [walBytesLoop, nonempty, Bool.false_eq_true, if_false, here.decoded,
        here.sliced content.addressable, slice, later']
    rfl

theorem walBytesLoop_stop (request : ReadRequest)
    (nothing : ∀ entry record, ¬ EntryAt xxh64 h content.data stop entry record)
    (steady : Steady h content.data stop) (fuel : Nat) :
    walBytesLoop xxh64 request h content (fuel + 1) stop = walk request [] (headerAt h content.data stop) := by
  funext lastRead lastProcessed target
  simp only [walBytesLoop, walk]
  by_cases empty : (content.data.drop stop).isEmpty = true
  · have short : ∀ entry, WalEntryHeader.fromBytes (content.data.drop stop) h ≠ .ok entry := by
      intro entry decoded
      have room := fromBytes_room decoded
      have positive := WalEntryHeader.size_pos h
      rw [List.isEmpty_iff.mp empty, List.length_nil] at room
      omega
    have none' : headerAt h content.data stop = none := by
      unfold headerAt
      split
      · rename_i decoded
        exact absurd decoded (short _)
      · rfl
    simp only [empty, if_true, none']
  · have before : stop < content.data.length := by
      rw [Bool.not_eq_true, List.isEmpty_eq_false_iff, ne_eq, List.drop_eq_nil_iff] at empty
      omega
    simp only [if_neg empty, headerAt]
    cases decoded : WalEntryHeader.fromBytes (content.data.drop stop) h with
    | panic =>
      have := fromBytes_eq_panic.mp decoded
      have := steady.header before
      omega
    | err e => rfl
    | ok entry =>
      simp only [sliceRecord_stop nothing steady decoded]
      cases pastEnd request entry.entryId <;> rfl

theorem walBytesLoop_steady (request : ReadRequest) (leading : Leading xxh64 h content.data cursor entries stop)
    (begins : cursor ≤ content.length) (steady : Steady h content.data stop)
    (enough : content.length < cursor + fuel) :
    walBytesLoop xxh64 request h content fuel cursor =
      walk request entries (headerAt h content.data stop) := by
  obtain ⟨left, remains, walked⟩ := walBytesLoop_leading request leading enough
  have inside := leading.inside begins
  rw [Bytes.length] at remains
  obtain ⟨left, rfl⟩ := Nat.exists_eq_add_one_of_ne_zero (show left ≠ 0 by omega)
  rw [walked, walBytesLoop_stop request leading.none_after steady, walk_eq_walkThen request entries]

theorem walBytesLoop_panic {request : ReadRequest}
    (overflow : ¬ Steady h content.data stop) (endless : request.untilId = none) {target : Sender}
    (opened : target.isClosed = false) (fuel : Nat) (lastRead lastProcessed : Option UintN) :
    (walBytesLoop xxh64 request h content (fuel + 1) stop lastRead lastProcessed target).2 =
      .panic := by
  rw [walBytesLoop]
  rcases unsteady xxh64 overflow with ⟨nonempty, panics⟩ | ⟨nonempty, entry, decoded, panics⟩
  · simp only [opened, nonempty, Bool.false_eq_true, if_false, panics]
  · have inside : pastEnd request entry.entryId = false := by rw [pastEnd, endless, Option.any_none]
    simp only [opened, nonempty, Bool.false_eq_true, if_false, decoded, inside, panics]

theorem header_present {file : Bytes} {start : Nat} (decoded : WalHeader.fromBytes file.data = .ok (h, start)) :
    file.data.isEmpty = false := by
  cases bytes : file.data with
  | nil =>
    rw [bytes] at decoded
    cases decoded
  | cons => rfl

theorem readWalBytesRange_loop {file : Bytes} {start : Nat}
    (decoded : WalHeader.fromBytes file.data = .ok (h, start)) (request : ReadRequest) :
    readWalBytesRange xxh64 file request =
      walBytesLoop xxh64 { request with step := max request.step 1 } h file (file.length + 1) start
        none none := by
  funext target
  simp only [readWalBytesRange, header_present decoded, Bool.false_eq_true, if_false, decoded]

theorem walContentLoop_steady {content : List UInt8} (small : content.length < 2 ^ 63) (leading : Leading xxh64 h content cursor entries stop)
    (begins : cursor ≤ content.length) (steady : Steady h content stop)
    (enough : content.length < cursor + fuel) (numEntries : Nat) :
    walContentLoop xxh64 h content fuel cursor numEntries = .ok (numEntries + entries.length) := by
  obtain ⟨left, remains, counted⟩ := walContentLoop_leading small leading enough numEntries
  have inside := leading.inside begins
  obtain ⟨left, rfl⟩ := Nat.exists_eq_add_one_of_ne_zero (show left ≠ 0 by omega)
  rw [counted, walContentLoop_stop leading.none_after steady]

end Walk

section Stream

variable {xxh64 : Hash} {h : WalHeader} {content : List UInt8}

theorem fromBytes_take {bytes : List UInt8} (room : WalEntryHeader.size h ≤ bytes.length) :
    WalEntryHeader.fromBytes (bytes.take (WalEntryHeader.size h)) h = WalEntryHeader.fromBytes bytes h := by
  have fields : ∀ start width, start + width ≤ WalEntryHeader.size h →
      ((bytes.take (WalEntryHeader.size h)).drop start).take width = (bytes.drop start).take width := by
    intro start width inside
    rw [List.drop_take, List.take_take, Nat.min_eq_left (by omega)]
  unfold WalEntryHeader.fromBytes
  apply Outcome.bind_congr
  intro expected sized
  obtain ⟨rfl, -⟩ := expectedSize_eq_ok sized
  have version := fields 0 8 (by rw [WalEntryHeader.size, walEntryHeaderFixedOverhead]; omega)
  rw [List.drop_zero, List.drop_zero] at version
  rw [List.length_take, Nat.min_eq_left room, if_neg (Nat.lt_irrefl _), if_neg (Nat.not_lt.mpr room), version,
    fields _ _ (by rw [WalEntryHeader.size, walEntryHeaderFixedOverhead]; omega),
    fields _ _ (by rw [WalEntryHeader.size, walEntryHeaderFixedOverhead]; omega),
    fields _ _ (by rw [WalEntryHeader.size, walEntryHeaderFixedOverhead]; omega)]

theorem fromReader_eq (small : WalEntryHeader.size h < 2 ^ 63) (bytes : List UInt8) :
    WalEntryHeader.fromReader bytes h = (WalEntryHeader.fromBytes bytes h >>= fun entry =>
      .ok (entry, bytes.drop (WalEntryHeader.size h))) := by
  unfold WalEntryHeader.fromReader
  rw [expectedSize_ok (by omega), Outcome.ok_bind, Outcome.allocate_ok small, Outcome.ok_bind]
  by_cases room : WalEntryHeader.size h ≤ bytes.length
  · rw [readExact, if_neg (Nat.not_lt.mpr room), Outcome.ok_bind]
    dsimp only
    rw [fromBytes_take room]
    rfl
  · rw [readExact_short _ (Nat.lt_of_not_le room), fromBytes_entry_short (by omega) (Nat.lt_of_not_le room)]
    rfl

theorem streamRecord_eq {ε : Type} (small : content.length < 2 ^ 63) {cursor : Nat}
    (inside : cursor ≤ content.length) {entry : WalEntryHeader}
    (buffered : ∀ word, entry.recordSize.toU64 = .ok word → word.toNat < 2 ^ 63) :
    (streamRecord xxh64 (content.drop cursor) entry : Outcome ε _) =
      (sliceRecord xxh64 content cursor entry >>= fun found =>
        .ok (found.map (fun record => (record, content.drop (cursor + record.length))))) := by
  unfold streamRecord sliceRecord
  cases read : entry.recordSize.toU64 with
  | error e => rfl
  | ok word =>
    have bound := buffered word read
    dsimp only
    rw [Outcome.allocate_ok bound, Outcome.ok_bind, Outcome.addUsize_ok (by omega), Outcome.ok_bind]
    by_cases short : content.length < cursor + word.toNat
    · rw [if_pos short, readExact_short]
      · rfl
      · rw [List.length_drop]
        omega
    · have length : ((content.drop cursor).take word.toNat).length = word.toNat := by
        rw [List.length_take, List.length_drop]
        omega
      rw [if_neg short, readExact, if_neg (by rw [List.length_drop]; omega)]
      dsimp only
      split
      · rfl
      · rw [Outcome.ok_bind, Option.map_some, length, List.drop_drop]

end Stream

end NormFS
