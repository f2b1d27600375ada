import NormFS.Wal.Scan

/-! Damaged files. The four walkers agree on the entries that stand at the beginning of a file as
long as a buffer can be had for what the streaming ones read. -/
namespace NormFS

open LittleEndian Framing

section Stream

variable {xxh64 : Hash} {h : WalHeader} {content : List UInt8}

structure Buffered (h : WalHeader) (content : List UInt8) (stop : Nat) : Prop where
  header : WalEntryHeader.size h < 2 ^ 63
  record : ∀ size ∈ announced h content stop, size < 2 ^ 63

theorem EntryAt.streamed {ε : Type} (small : content.length < 2 ^ 63) {cursor : Nat} {entry : WalEntryHeader}
    {record : List UInt8} (here : EntryAt xxh64 h content cursor entry record) :
    WalEntryHeader.fromReader (content.drop cursor) h =
      .ok (entry, content.drop (cursor + WalEntryHeader.size h)) ∧
    (streamRecord xxh64 (content.drop (cursor + WalEntryHeader.size h)) entry : Outcome ε _) =
      .ok (some (record, content.drop (cursor + WalEntryHeader.size h + record.length))) := by
  have inside := here.inside
  constructor
  · rw [fromReader_eq (by omega), here.decoded, Outcome.ok_bind, List.drop_drop]
  · rw [streamRecord_eq small (by omega), here.sliced small]
    · rfl
    · intro word read
      have value := UintN.toNat_of_toU64 read
      rw [here.size] at value
      omega

variable {stop : Nat}

theorem fromReader_stop (buffered : Buffered h content stop) :
    WalEntryHeader.fromReader (content.drop stop) h =
      (WalEntryHeader.fromBytes (content.drop stop) h >>= fun entry =>
        .ok (entry, content.drop (stop + WalEntryHeader.size h))) := by
  rw [fromReader_eq buffered.header]
  apply Outcome.bind_congr
  intro entry _
  rw [List.drop_drop]

section

variable (small : content.length < 2 ^ 63)

include small

theorem Buffered.steady (inside : stop ≤ content.length)
    (buffered : Buffered h content stop) : Steady h content stop where
  header := fun _ => Nat.lt_trans buffered.header (by decide)
  record := by
    intro size some'
    obtain ⟨entry, -, decoded, -⟩ := announced_eq_some.mp some'
    have room := fromBytes_room decoded
    have bound := buffered.record size some'
    rw [List.length_drop] at room
    omega

theorem streamRecord_stop {ε : Type}
    (nothing : ∀ entry record, ¬ EntryAt xxh64 h content stop entry record) (inside : stop ≤ content.length)
    (buffered : Buffered h content stop) {entry : WalEntryHeader}
    (decoded : WalEntryHeader.fromBytes (content.drop stop) h = .ok entry) :
    (streamRecord xxh64 (content.drop (stop + WalEntryHeader.size h)) entry : Outcome ε _) = .ok none := by
  have room := fromBytes_room decoded
  have positive := WalEntryHeader.size_pos h
  rw [List.length_drop] at room
  rw [streamRecord_eq small (by omega), sliceRecord_stop nothing (buffered.steady small inside) decoded]
  · rfl
  · intro word read
    exact buffered.record word.toNat (announced_eq_some.mpr ⟨entry, word, decoded, read, rfl⟩)

/-- The range walker keeps the first number it sees and the last number with a good record. -/
theorem walRangeLoop_leading {cursor : Nat}
    {entries : List Entry} (leading : Leading xxh64 h content cursor entries stop) {fuel : Nat}
    (enough : content.length < cursor + fuel) (firstId lastId : Option UintN) :
    ∃ left, content.length < stop + left ∧ walRangeLoop xxh64 h fuel (content.drop cursor) firstId lastId =
      walRangeLoop xxh64 h left (content.drop stop) (firstId.or (entries.head?.map Prod.fst))
        ((entries.getLast?.map Prod.fst).or lastId) := by
  induction leading generalizing fuel firstId lastId with
  | stop => exact ⟨fuel, enough, by simp⟩
  | @entry cursor stop entry record entries here later ih =>
    have inside := here.inside
    have positive := WalEntryHeader.size_pos h
    obtain ⟨fuel, rfl⟩ := Nat.exists_eq_add_one_of_ne_zero (show fuel ≠ 0 by omega)
    obtain ⟨header, body⟩ := @EntryAt.streamed _ _ _ WalError small _ _ _ here
    obtain ⟨left, remains, later⟩ := ih (show _ < _ + fuel by rw [Bytes.length]; omega)
      (firstId.or (some entry.entryId)) (some entry.entryId)
    refine ⟨left, remains, ?_⟩
    rw [Bytes.length] at later
    simp only [walRangeLoop, header, body, Outcome.ok_bind, later, List.head?_cons, Option.map_some,
      Option.or_assoc, Option.some_or, List.getLast?_cons]
    cases entries.getLast? <;> rfl

theorem walRangeLoop_stop
    (nothing : ∀ entry record, ¬ EntryAt xxh64 h content stop entry record) (inside : stop ≤ content.length)
    (buffered : Buffered h content stop) (fuel : Nat) (firstId lastId : Option UintN) :
    walRangeLoop xxh64 h (fuel + 1) (content.drop stop) firstId lastId =
      .ok (firstId.or (headerAt h content stop), lastId) := by
  rw [walRangeLoop, fromReader_stop buffered, headerAt]
  cases decoded : WalEntryHeader.fromBytes (content.drop stop) h with
  | panic =>
    have := fromBytes_eq_panic.mp decoded
    have := buffered.header
    omega
  | err e => simp
  | ok entry => simp [streamRecord_stop small nothing inside buffered decoded]

end

theorem walFileLoop_leading (request : ReadRequest) (small : content.length < 2 ^ 63) {cursor : Nat}
    {entries : List Entry} (leading : Leading xxh64 h content cursor entries stop) {fuel : Nat}
    (enough : content.length < cursor + fuel) :
    ∃ left, content.length < stop + left ∧ walFileLoop xxh64 request h fuel (content.drop cursor) =
      walkThen request (walFileLoop xxh64 request h left (content.drop stop)) entries := by
  induction leading generalizing fuel with
  | stop => exact ⟨fuel, enough, rfl⟩
  | @entry cursor stop entry record entries here later ih =>
    have inside := here.inside
    have positive := WalEntryHeader.size_pos h
    obtain ⟨fuel, rfl⟩ := Nat.exists_eq_add_one_of_ne_zero (show fuel ≠ 0 by omega)
    obtain ⟨header, body⟩ := @EntryAt.streamed _ _ _ WalError small _ _ _ here
    obtain ⟨left, remains, later⟩ := @ih fuel (by rw [Bytes.length]; omega)
    refine ⟨left, remains, ?_⟩
    funext lastRead lastProcessed target
    have later' := fun lastRead lastProcessed target =>
      congrFun (congrFun (congrFun later lastRead) lastProcessed) target
    rw [Bytes.length] at later'
    conv_lhs => simp only [walFileLoop, header, body, Bytes.allocated_data, later']
    rfl

theorem walFileLoop_stop (request : ReadRequest) (small : content.length < 2 ^ 63)
    (nothing : ∀ entry record, ¬ EntryAt xxh64 h content stop entry record) (inside : stop ≤ content.length)
    (buffered : Buffered h content stop) (fuel : Nat) :
    walFileLoop xxh64 request h (fuel + 1) (content.drop stop) = walk request [] (headerAt h content stop) := by
  funext lastRead lastProcessed target
  simp only [walFileLoop, walk, fromReader_stop buffered, headerAt]
  cases decoded : WalEntryHeader.fromBytes (content.drop stop) h with
  | panic =>
    have := fromBytes_eq_panic.mp decoded
    have := buffered.header
    omega
  | err e => rfl
  | ok entry =>
    simp only [Outcome.ok_bind, streamRecord_stop small nothing inside buffered decoded]
    cases pastEnd request entry.entryId <;> rfl

theorem fromReader_panic (large : 2 ^ 63 ≤ WalEntryHeader.size h) (bytes : List UInt8) :
    WalEntryHeader.fromReader bytes h = .panic := by
  unfold WalEntryHeader.fromReader
  by_cases word : WalEntryHeader.size h < 2 ^ 64
  · rw [expectedSize_ok word, Outcome.ok_bind, Outcome.allocate, if_neg (Nat.not_lt.mpr large), Outcome.panic_bind]
  · rw [expectedSize_large (Nat.le_of_not_lt word), Outcome.panic_bind]

theorem walRangeLoop_panic (overlong : ¬ Buffered h content stop) (fuel : Nat)
    (firstId lastId : Option UintN) :
    walRangeLoop xxh64 h (fuel + 1) (content.drop stop) firstId lastId = .panic := by
  rw [walRangeLoop]
  by_cases header : WalEntryHeader.size h < 2 ^ 63
  · have record : ¬ ∀ size ∈ announced h content stop, size < 2 ^ 63 := fun all => overlong ⟨header, all⟩
    push Not at record
    obtain ⟨size, some', large⟩ := record
    obtain ⟨entry, word, decoded, read, rfl⟩ := announced_eq_some.mp some'
    have panics : (streamRecord xxh64 (content.drop (stop + WalEntryHeader.size h)) entry :
        Outcome WalError _) = .panic := by
      simp only [streamRecord, read, Outcome.allocate, if_neg (Nat.not_lt.mpr large), Outcome.panic_bind]
    rw [fromReader_eq header, decoded, Outcome.ok_bind, List.drop_drop]
    simp only [panics, Outcome.panic_bind]
  · rw [fromReader_panic (Nat.le_of_not_lt header)]

end Stream

structure WalkersAgree (xxh64 : Hash) (file : Bytes) (entries : List Entry) :
    Prop where
  content : ∃ found, getWalContent xxh64 (some file) = .ok found ∧ found.numEntries.toNat = entries.length
  range : ∀ fileId, ∃ header, getWalRange xxh64 (some file.data) fileId = .ok (header, firstAndLast entries)
  reads : ∀ (request : ReadRequest) (target : Sender), request.step < 2 ^ 64 →
    readWalFileRange xxh64 (some file.data) request target = readWalBytesRange xxh64 file request target ∧
    ∃ sent result, sent.Sublist (entries.map request.label) ∧
      (readWalBytesRange xxh64 file request target).1.delivered = target.delivered ++ sent ∧
      (readWalBytesRange xxh64 file request target).2 = .ok result

section Agree

variable {request : ReadRequest}

theorem Sender.send_delivered {target next : Sender} {entry : ReadEntry} (sent : target.send entry = some next) :
    next.delivered = target.delivered ++ [entry] := by
  unfold send at sent
  split at sent
  · cases sent
  · cases sent
    rfl
  · cases sent
    rfl

/-- A walk sends some of the entries, in their order, and returns. -/
theorem walk_sends (steps : 0 < request.step) (word : request.step < 2 ^ 64) (entries : List Entry)
    (torn lastRead lastProcessed : Option UintN) (target : Sender) :
    ∃ sent result, sent.Sublist (entries.map request.label) ∧
      (walk request entries torn lastRead lastProcessed target).1.delivered = target.delivered ++ sent ∧
      (walk request entries torn lastRead lastProcessed target).2 = .ok result := by
  induction entries generalizing lastRead lastProcessed target with
  | nil =>
    unfold walk
    split
    · exact ⟨[], _, List.nil_sublist _, (List.append_nil _).symm, rfl⟩
    · cases torn <;> exact ⟨[], _, List.nil_sublist _, (List.append_nil _).symm, rfl⟩
  | cons e entries ih =>
    obtain ⟨id, data⟩ := e
    rw [walk]
    split
    · exact ⟨[], _, List.nil_sublist _, (List.append_nil _).symm, rfl⟩
    · cases past : pastEnd request id with
      | true => exact ⟨[], _, List.nil_sublist _, (List.append_nil _).symm, rfl⟩
      | false =>
        rw [if_neg (by simp), deliver_inside steps word past]
        cases hit : Stride.hit request.fromId.toNat request.step request.last id.toNat with
        | false =>
          obtain ⟨sent, result, among, delivered, returned⟩ := ih lastRead (some id) target
          exact ⟨sent, result, among.trans (List.sublist_cons_self _ _), delivered, returned⟩
        | true =>
          simp only [if_true, ReadRequest.handOver]
          cases sends : target.send (request.label (id, data)) with
          | none => exact ⟨[], _, List.nil_sublist _, (List.append_nil _).symm, rfl⟩
          | some next =>
            have reached := Sender.send_delivered sends
            by_cases final : request.last = some id.toNat
            · simp only [if_pos final]
              exact ⟨[request.label (id, data)], _, by simp, reached, rfl⟩
            · simp only [if_neg final]
              obtain ⟨sent, result, among, delivered, returned⟩ := ih (some id) (some id) next
              refine ⟨request.label (id, data) :: sent, result, among.cons_cons _, ?_, returned⟩
              rw [delivered, reached, List.append_assoc, List.singleton_append]

variable {xxh64 : Hash} {file : Bytes} {h : WalHeader} {start stop : Nat}
  {entries : List Entry}

section

variable (decoded : WalHeader.fromBytes file.data = .ok (h, start))

include decoded

section

variable (guarded : start ≤ walHeaderFixedSize + 8 + 10 * 1024 * 1024)

include guarded

theorem getWalRange_loop (fileId : UintN) :
    getWalRange xxh64 (some file.data) fileId =
      (walRangeLoop xxh64 h ((file.data.drop start).length + 1) (file.data.drop start) none none >>= fun found =>
        .ok (h, found.1.bind (fun first => found.2.map (fun last => (first, last))))) := by
  simp only [getWalRange, header_present decoded, Bool.false_eq_true, if_false,
    WalHeader.fromReader_of_fromBytes decoded guarded, headerOrEmpty, Outcome.ok_bind]
  rfl

theorem walkers_agree_of_buffered
    (leading : Leading xxh64 h file.data start entries stop) (buffered : Buffered h file.data stop) :
    WalkersAgree xxh64 file entries := by
  have small := file.addressable
  have begins := WalHeader.fromBytes_inside decoded
  have inside := leading.inside begins
  have steady := buffered.steady small inside
  have passed := leading.passes
  have read : ∀ request target, readWalBytesRange xxh64 file request target =
      walk { request with step := max request.step 1 } entries (headerAt h file.data stop) none none target := by
    intro request target
    simp only [readWalBytesRange, header_present decoded, Bool.false_eq_true, if_false, decoded]
    rw [walBytesLoop_steady _ leading begins steady (by omega)]
  have fuelled : file.data.length < start + ((file.data.drop start).length + 1) := by
    rw [List.length_drop]
    omega
  refine ⟨?_, ?_, ?_⟩
  · refine ⟨⟨h.numEntriesBefore, .ofU64 (BitVec.ofNat 64 entries.length), file⟩, ?_, ?_⟩
    · simp only [getWalContent, header_present decoded, Bool.false_eq_true, if_false, decoded, Outcome.mapErr_ok,
        Outcome.ok_bind]
      rw [walContentLoop_steady small leading begins steady (by rw [Bytes.length]; omega), Nat.zero_add]
      rfl
    · rw [UintN.toNat_ofU64, BitVec.toNat_ofNat, Nat.mod_eq_of_lt (by omega)]
  · intro fileId
    obtain ⟨left, remains, counted⟩ := walRangeLoop_leading small leading fuelled none none
    obtain ⟨left, rfl⟩ := Nat.exists_eq_add_one_of_ne_zero (show left ≠ 0 by omega)
    rw [walRangeLoop_stop small leading.none_after inside buffered, Option.none_or, Option.or_none] at counted
    refine ⟨h, ?_⟩
    rw [getWalRange_loop decoded guarded, counted, Outcome.ok_bind, first_and_last]
  · intro request target word
    obtain ⟨left, remains, walked⟩ := walFileLoop_leading { request with step := max request.step 1 } small
      leading fuelled
    obtain ⟨left, rfl⟩ := Nat.exists_eq_add_one_of_ne_zero (show left ≠ 0 by omega)
    rw [walFileLoop_stop _ small leading.none_after inside buffered, ← walk_eq_walkThen] at walked
    rw [read]
    refine ⟨?_, ?_⟩
    · simp only [readWalFileRange, header_present decoded, Bool.false_eq_true, if_false,
        WalHeader.fromReader_of_fromBytes decoded guarded, walked]
    · have positive : 0 < max request.step 1 := by omega
      exact @walk_sends { request with step := max request.step 1 } positive (by simp; omega) entries _ none none
        target

/-- Without a buffer the streaming walkers cannot agree with the others. -/
theorem buffered_of_range
    (leading : Leading xxh64 h file.data start entries stop) {header : WalHeader}
    {range : Option (UintN × UintN)} (fileId : UintN)
    (answered : getWalRange xxh64 (some file.data) fileId = .ok (header, range)) :
    Buffered h file.data stop := by
  by_contra overlong
  have begins := WalHeader.fromBytes_inside decoded
  have inside := leading.inside begins
  have fuelled : file.data.length < start + ((file.data.drop start).length + 1) := by
    rw [List.length_drop]
    omega
  obtain ⟨left, remains, counted⟩ := walRangeLoop_leading file.addressable leading fuelled none none
  obtain ⟨left, rfl⟩ := Nat.exists_eq_add_one_of_ne_zero (show left ≠ 0 by omega)
  rw [walRangeLoop_panic overlong] at counted
  rw [getWalRange_loop decoded guarded, counted] at answered
  cases answered

end

end

/- All walkers see the same entries in a file, whatever its bytes, if and only if buffers can be had
for an entry header of the announced widths and for the record that the first damaged entry
announces. -/
theorem walkers_agree_iff (decoded : WalHeader.fromBytes file.data = .ok (h, start))
    (guarded : start ≤ walHeaderFixedSize + 8 + 10 * 1024 * 1024)
    (leading : Leading xxh64 h file.data start entries stop) :
    WalkersAgree xxh64 file entries ↔ Buffered h file.data stop := by
  constructor
  · intro agree
    obtain ⟨header, answered⟩ := agree.range .zero
    exact buffered_of_range decoded guarded leading .zero answered
  · exact walkers_agree_of_buffered decoded guarded leading

end Agree

/-- A file header and one entry header, for entry 0, that announces a record of `2 ^ 63` bytes. -/
def overlongBytes : List UInt8 :=
  WalHeader.default.writeToBytes ++ (encode 8 0 ++ (encode 4 0 ++ (encode 8 (2 ^ 63) ++ encode 8 0)))

theorem overlongBytes_short : overlongBytes.length < 2 ^ 63 := by decide

def overlongFile : Bytes := ⟨overlongBytes, overlongBytes_short⟩

theorem overlongFile_announces :
    WalEntryHeader.fromBytes (overlongFile.data.drop 33) .default = .ok ⟨.u8 0, .u64 (BitVec.ofNat 64 (2 ^ 63)), 0⟩ := by decide

theorem overlongFile_leading (xxh64 : Hash) :
    Leading xxh64 .default overlongFile.data 33 [] 33 := by
  refine .stop ?_
  intro entry record here
  obtain rfl : entry = ⟨.u8 0, .u64 (BitVec.ofNat 64 (2 ^ 63)), 0⟩ := Outcome.ok.inj (here.decoded.symm.trans overlongFile_announces)
  have small := overlongFile.addressable
  have inside := here.inside
  have size := here.size
  have value : (UintN.u64 (BitVec.ofNat 64 (2 ^ 63))).toNat = 2 ^ 63 := by decide
  rw [value] at size
  omega

/- The counting walker and the slice reader pass over such an entry; the streaming walkers ask for
a buffer of that size. No offset is near the limit. -/
theorem walkers_disagree :
    WalHeader.fromBytes overlongFile.data = .ok (.default, 33) ∧
      Leading (fun _ => 7) .default overlongFile.data 33 [] 33 ∧ Steady .default overlongFile.data 33 ∧
      (getWalContent (fun _ => 7) (some overlongFile)).any (fun found => found.numEntries.toNat == 0) = true ∧
      getWalRange (fun _ => 7) (some overlongFile.data) .zero = .panic ∧
      (readWalBytesRange (fun _ => 7) overlongFile ⟨.zero, none, 1, .diskWal⟩ (.staying [])).2 =
        .ok (.partialRead none (.u8 0)) ∧
      (readWalFileRange (fun _ => 7) (some overlongFile.data) ⟨.zero, none, 1, .diskWal⟩ (.staying [])).2 = .panic ∧
      ¬ WalkersAgree (fun _ => 7) overlongFile [] := by
  refine ⟨by decide, overlongFile_leading _, ⟨fun _ => by decide, ?_⟩, by decide, by decide, by decide, by decide, ?_⟩
  · intro size some'
    obtain ⟨entry, word, decoded, read, rfl⟩ := announced_eq_some.mp some'
    obtain rfl := Outcome.ok.inj (decoded.symm.trans overlongFile_announces)
    have value : (UintN.u64 (BitVec.ofNat 64 (2 ^ 63))).toNat = 2 ^ 63 := by decide
    have width : WalEntryHeader.size .default = 28 := by decide
    rw [← UintN.toNat_of_toU64 read, value, width]
    omega
  · intro agree
    obtain ⟨header, answered⟩ := agree.range .zero
    have panics : getWalRange (fun _ => 7) (some overlongFile.data) .zero = .panic := by decide
    rw [panics] at answered
    cases answered

/-- The theorem at this file: no buffer, no agreement. -/
theorem walkers_agree_overlong :
    WalkersAgree (fun _ => 7) overlongFile [] ↔ Buffered .default overlongFile.data 33 :=
  walkers_agree_iff (by decide) (by decide) (overlongFile_leading _)

end NormFS
