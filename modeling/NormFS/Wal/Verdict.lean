import NormFS.Wal.Range

/-! A range read of a file that may be cut at any byte after its header: what it sends, and when it
reports that the range is complete. -/
namespace NormFS

open LittleEndian Framing Stride

structure WrittenFile (xxh64 : Hash) (h : WalHeader) (entries : List Entry)
    (file : Bytes) : Prop where
  dataWord : h.dataSizeBytes < 2 ^ 64
  idWord : h.idSizeBytes < 2 ^ 64
  fits : CanHold h entries
  increasing : Increasing entries
  content : file.data = h.writeToBytes ++ entriesBytes xxh64 h entries

section Cut

variable {xxh64 : Hash} {h : WalHeader} {entries : List Entry} {file : Bytes}

theorem WrittenFile.addressable (wal : WrittenFile xxh64 h entries file) : h.Addressable := by
  have room := file.addressable
  rw [wal.content, List.length_append, WalHeader.length_writeToBytes, WalHeader.size] at room
  exact ⟨wal.dataWord, wal.idWord, by omega⟩

theorem WrittenFile.small (wal : WrittenFile xxh64 h entries file) (inhabited : entries ≠ []) :
    WalEntryHeader.size h < 2 ^ 64 := by
  obtain ⟨e, rest, rfl⟩ := List.exists_cons_of_ne_nil inhabited
  have room := file.addressable
  have first := length_entryBytes xxh64 (wal.fits e (by simp))
  rw [wal.content, entriesBytes, List.flatMap_cons, List.length_append, List.length_append, first] at room
  omega

/-- The entries wholly contained in the first `n` bytes after the header. -/
def entriesWithin (h : WalHeader) (entries : List Entry) (n : Nat) : List Entry :=
  entries.take (wholeCount (entrySizes h entries) n)

/-- The numbers of the headers found in a cut file are the first ones of the file. -/
theorem torn_follows (fits : CanHold h entries) (n : Nat) :
    (survivors h entries n).map (fun e => e.1.toNat) ++ (torn h entries n).toList.map UintN.toNat <+:
      entries.map (fun e => e.1.toNat) := by
  induction entries generalizing n with
  | nil => simp [survivors, torn, entrySizes]
  | cons e entries ih =>
    obtain ⟨id, data⟩ := e
    have number : (id.stored h.idSizeBytes).toNat = id.toNat :=
      UintN.toNat_stored _ ((WalHeader.canHoldEntry_iff _ _ _).mp (fits (id, data) (by simp))).1
    by_cases whole : WalEntryHeader.size h + data.length ≤ n
    · obtain ⟨m, rfl⟩ := Nat.exists_eq_add_of_le whole
      rw [survivors_whole, torn_whole, List.map_cons, List.map_cons, List.cons_append, List.cons_prefix_cons]
      exact ⟨number, ih (fun e member => fits e (by simp [member])) m⟩
    · rw [survivors_short entries (Nat.lt_of_not_le whole), torn, if_pos (Nat.lt_of_not_le whole)]
      split
      · simp
      · simp [number]

theorem seen_increasing (fits : CanHold h entries) (increasing : Increasing entries) (n : Nat) :
    ((survivors h entries n).map Prod.fst ++ (torn h entries n).toList).Pairwise
      (fun a b => a.toNat < b.toNat) := by
  have ordered : (entries.map (fun e => e.1.toNat)).Pairwise (· < ·) := List.pairwise_map.mpr increasing
  have begins := ordered.sublist (torn_follows fits n).sublist
  rw [← Function.comp_def UintN.toNat, ← List.map_map, ← List.map_append] at begins
  exact List.pairwise_map.mp begins

variable {p : Bytes}

theorem readWalBytesRange_header (addressable : h.Addressable) (only : p.data = h.writeToBytes)
    (request : ReadRequest) (target : Sender) :
    readWalBytesRange xxh64 p request target =
      walk { request with step := max request.step 1 } [] none none none target := by
  have header : WalHeader.fromBytes p.data = .ok (h.stored, p.data.length) := by
    have decoded := WalHeader.fromBytes_append h addressable []
    rwa [List.append_nil, ← WalHeader.length_writeToBytes, ← only] at decoded
  have nonempty : p.data.isEmpty = false := by
    rw [only]
    rfl
  simp [readWalBytesRange, nonempty, header, walBytesLoop, walk]

theorem WrittenFile.reads (wal : WrittenFile xxh64 h entries file) (cut : p.data <+: file.data)
    (header : h.size ≤ p.length) (request : ReadRequest) (target : Sender) :
    readWalBytesRange xxh64 p request target =
      walk { request with step := max request.step 1 } (survivors h entries (p.length - h.size))
        (torn h entries (p.length - h.size)) none none target := by
  rw [wal.content] at cut
  rcases cut_cases cut with ⟨short, -⟩ | ⟨bytes, split, begins⟩
  · rw [WalHeader.length_writeToBytes] at short
    exact absurd header (Nat.not_le.mpr short)
  · have length : p.length - h.size = bytes.length := by
      rw [Bytes.length, split, List.length_append, WalHeader.length_writeToBytes]
      omega
    rw [length]
    by_cases none' : entries = []
    · subst none'
      obtain rfl : bytes = [] := List.prefix_nil.mp begins
      rw [List.append_nil] at split
      exact readWalBytesRange_header wal.addressable split request target
    · exact readWalBytesRange_cut xxh64 wal.addressable (wal.small none') (cut_of_leading xxh64 wal.fits begins)
        split request target

theorem WrittenFile.offers (wal : WrittenFile xxh64 h entries file) (cut : p.data <+: file.data)
    (header : h.size ≤ p.length) (request : ReadRequest) (steps : 1 ≤ request.step)
    (word : request.step < 2 ^ 64) (target : Sender) :
    (readWalBytesRange xxh64 p request target).1 = target.offer ((wanted request.fromId.toNat request.step
      request.last (survivors h entries (p.length - h.size))).map request.label) := by
  have ids := seen_increasing wal.fits wal.increasing (p.length - h.size)
  have increasing : Increasing (survivors h entries (p.length - h.size)) := by
    have whole := (List.pairwise_append.mp ids).1
    rwa [List.pairwise_map] at whole
  have reads := wal.reads cut header request target
  rw [Nat.max_eq_left steps] at reads
  rw [reads]
  exact walk_offer request steps word increasing _ _ _ target

/-- Its verdict counts the cropped entry as well. -/
theorem WrittenFile.judges (wal : WrittenFile xxh64 h entries file) (cut : p.data <+: file.data)
    (header : h.size ≤ p.length) (request : ReadRequest) (steps : 1 ≤ request.step)
    (word : request.step < 2 ^ 64) (delivered : List ReadEntry) :
    (readWalBytesRange xxh64 p request (.staying delivered)).2 = .ok (request.verdict
      ((survivors h entries (p.length - h.size)).map Prod.fst ++ (torn h entries (p.length - h.size)).toList)
      ((wanted request.fromId.toNat request.step request.last
        (survivors h entries (p.length - h.size))).getLast?.map Prod.fst)) := by
  have ids := seen_increasing wal.fits wal.increasing (p.length - h.size)
  have reads := wal.reads cut header request (.staying delivered)
  rw [Nat.max_eq_left steps] at reads
  rw [reads]
  have judged := @walk_verdict request steps word _ _ none ids none delivered
  rwa [Option.or_none] at judged

/-- What a range read promises about the entries that are there: it sends those that are asked for,
reports completion when one of them is at or past the last wanted number, and otherwise names the
last one sent. -/
def RangeRead (xxh64 : Hash) (whole : List Entry) (p : Bytes)
    (fromId untilId : UintN) (step : Nat) (source : DataSource) (delivered : List ReadEntry) : Prop :=
  ∃ sent result, readWalBytesRange xxh64 p ⟨fromId, some untilId, step, source⟩ (.staying delivered) =
      (.staying (delivered ++ sent), .ok result) ∧
    sent.map (fun e => (e.id.toNat, e.data)) =
      (wanted fromId.toNat step (some untilId.toNat) whole).map valueOf ∧
    (result = .complete ↔ ∃ e ∈ whole, untilId.toNat ≤ e.1.toNat) ∧
    (result ≠ .complete → ∃ lastRead inFile, result = .partialRead lastRead inFile ∧
      lastRead.map UintN.toNat = sent.getLast?.map (fun e => e.id.toNat))

theorem wanted_congr {start step : Nat} {last : Option Nat} {as bs : List Entry}
    (same : as.map valueOf = bs.map valueOf) :
    (wanted start step last as).map valueOf = (wanted start step last bs).map valueOf := by
  have through : ∀ es : List Entry, (wanted start step last es).map valueOf =
      (es.map valueOf).filter (fun e => hit start step last e.1) := by
    intro es
    rw [List.filter_map]
    rfl
  rw [through, through, same]

theorem exists_value {as bs : List Entry} (same : as.map valueOf = bs.map valueOf) (l : Nat) :
    (∃ e ∈ as, l ≤ e.1.toNat) ↔ ∃ e ∈ bs, l ≤ e.1.toNat := by
  have through : ∀ es : List Entry,
      (∃ e ∈ es, l ≤ e.1.toNat) ↔ ∃ v ∈ es.map valueOf, l ≤ v.1 := by
    intro es
    constructor
    · rintro ⟨e, member, le⟩
      exact ⟨valueOf e, List.mem_map_of_mem member, le⟩
    · rintro ⟨_, member, le⟩
      obtain ⟨e, listed, rfl⟩ := List.mem_map.mp member
      exact ⟨e, listed, le⟩
  rw [through, through, same]

/- A range read keeps its promise on a cut file unless the header of the cropped entry is at or past
the last wanted number and no entry before it is. -/
theorem range_read_iff (wal : WrittenFile xxh64 h entries file) {p : Bytes} (cut : p.data <+: file.data)
    (header : h.size ≤ p.length) (fromId untilId : UintN) {step : Nat} (steps : 1 ≤ step)
    (word : step < 2 ^ 64) (source : DataSource) (delivered : List ReadEntry) :
    RangeRead xxh64 (entriesWithin h entries (p.length - h.size)) p fromId untilId step source delivered ↔
      ∀ id ∈ torn h entries (p.length - h.size), untilId.toNat ≤ id.toNat →
        ∃ e ∈ entriesWithin h entries (p.length - h.size), untilId.toNat ≤ e.1.toNat := by
  have value := survivors_value wal.fits (p.length - h.size)
  have offered := wal.offers cut header ⟨fromId, some untilId, step, source⟩ steps word (.staying delivered)
  have judged := wal.judges cut header ⟨fromId, some untilId, step, source⟩ steps word delivered
  have there := exists_value value untilId.toNat
  generalize p.length - h.size = n at value offered judged there ⊢
  rw [Sender.offer_staying] at offered
  have answer : readWalBytesRange xxh64 p ⟨fromId, some untilId, step, source⟩ (.staying delivered) = (_, _) :=
    Prod.ext offered judged
  have reached : (ReadRequest.mk fromId (some untilId) step source).reached
      ((survivors h entries n).map Prod.fst ++ (torn h entries n).toList) = true ↔
      (∃ e ∈ entriesWithin h entries n, untilId.toNat ≤ e.1.toNat) ∨
        ∃ id ∈ torn h entries n, untilId.toNat ≤ id.toNat := by
    rw [entriesWithin, ← there]
    simp [ReadRequest.reached_iff, ReadRequest.last, or_and_right, exists_or]
  constructor
  · rintro ⟨sent, result, reads, -, complete, -⟩ id cropped le
    rw [answer] at reads
    obtain ⟨-, same⟩ := Prod.mk.inj reads
    rw [← complete, ← Outcome.ok.inj same, ReadRequest.verdict, if_pos (reached.mpr (.inr ⟨id, cropped, le⟩))]
  · intro covered
    refine ⟨_, _, answer, ?_, ?_, ?_⟩
    · rw [List.map_map]
      exact wanted_congr value
    · constructor
      · intro complete
        by_contra none'
        have before : ¬ _ := mt reached.mp (by
          rintro (whole | ⟨id, cropped, le⟩)
          · exact none' whole
          · exact none' (covered id cropped le))
        rw [ReadRequest.verdict, if_neg before] at complete
        cases complete
      · intro whole
        rw [ReadRequest.verdict, if_pos (reached.mpr (.inl whole))]
    · intro partly
      have before : ¬ _ := fun all => partly (by rw [ReadRequest.verdict, if_pos all])
      refine ⟨_, _, by rw [ReadRequest.verdict, if_neg before], ?_⟩
      rw [List.getLast?_map, Option.map_map, Option.map_map]
      rfl

end Cut

theorem pairOfBytes_short : ([1, 2] : List UInt8).length < 2 ^ 63 := by decide

def pairOfBytes : Bytes := ⟨[1, 2], pairOfBytes_short⟩

def pairOfEntries : List Entry := [(.u8 0, pairOfBytes), (.u8 1, pairOfBytes)]

def pairBytes : List UInt8 :=
  WalHeader.default.writeToBytes ++ entriesBytes (fun _ => 7) .default pairOfEntries

theorem pairBytes_short : pairBytes.length < 2 ^ 63 := by decide

def pairFile : Bytes := ⟨pairBytes, pairBytes_short⟩

theorem pairBytes_cropped : (pairBytes.take (pairBytes.length - 1)).length < 2 ^ 63 := by decide

def croppedFile : Bytes := ⟨pairBytes.take (pairBytes.length - 1), pairBytes_cropped⟩

theorem pairFile_wellFormed : WrittenFile (fun _ => 7) .default pairOfEntries pairFile where
  dataWord := by decide
  idWord := by decide
  fits := by
    unfold CanHold
    decide
  increasing := by
    unfold Increasing
    decide
  content := rfl

/- The last byte of entry 1 is missing. A read of 0 and 1 sends entry 0 only, and reports the range
as complete. -/
theorem range_read_cropped :
    WrittenFile (fun _ => 7) .default pairOfEntries pairFile ∧ croppedFile.data <+: pairFile.data ∧
      WalHeader.default.size ≤ croppedFile.length ∧
      (readWalBytesRange (fun _ => 7) croppedFile ⟨.u8 0, some (.u8 1), 1, .diskWal⟩ (.staying [])).1.delivered.map
        (fun e => e.id.toNat) = [0] ∧
      (readWalBytesRange (fun _ => 7) croppedFile ⟨.u8 0, some (.u8 1), 1, .diskWal⟩ (.staying [])).2 =
        .ok .complete ∧
      ¬ RangeRead (fun _ => 7) (entriesWithin .default pairOfEntries (croppedFile.length - WalHeader.default.size))
        croppedFile (.u8 0) (.u8 1) 1 .diskWal [] := by
  refine ⟨pairFile_wellFormed, List.take_prefix _ _, by decide, by decide, by decide, ?_⟩
  rintro ⟨sent, result, reads, -, complete, -⟩
  have judged : (readWalBytesRange (fun _ => 7) croppedFile ⟨.u8 0, some (.u8 1), 1, .diskWal⟩
      (.staying [])).2 = .ok .complete := by decide
  rw [reads] at judged
  obtain ⟨e, member, le⟩ := complete.mp (Outcome.ok.inj judged)
  revert e
  decide

/-- The whole file is read as promised. -/
theorem range_read_whole :
    RangeRead (fun _ => 7) (entriesWithin .default pairOfEntries (pairFile.length - WalHeader.default.size))
      pairFile (.u8 0) (.u8 1) 1 .diskWal [] := by
  refine (range_read_iff pairFile_wellFormed (List.prefix_refl _) (by decide) (.u8 0) (.u8 1) (by decide)
    (by decide) .diskWal []).mpr ?_
  have none' : torn .default pairOfEntries (pairFile.length - WalHeader.default.size) = none := by decide
  rw [none']
  rintro _ ⟨⟩

end NormFS
