import Mathlib.Tactic.IntervalCases
import NormFS.Decode.Indexed
import NormFS.Wal.Damaged

/-! The decoders on arbitrary bytes. No index is ever out of range and every walk ends; what remains
are sums of lengths that the bytes announce, and the decoders survive exactly the bytes in which no
such sum leaves the machine words. -/
namespace NormFS

open LittleEndian Framing

section Panics

variable {data : List UInt8}

theorem UintN.readFromSlice_eq_panic :
    readFromSlice data = .panic ↔ 8 ≤ data.length ∧ 2 ^ 64 ≤ 8 + wordAt data 0 := by
  unfold readFromSlice wordAt
  rw [List.drop_zero]
  by_cases short : data.length < 8
  · rw [if_pos short]
    constructor
    · rintro ⟨⟩
    · rintro ⟨long, -⟩
      omega
  · rw [if_neg short]
    dsimp only
    by_cases word : 8 + decode (data.take 8) < 2 ^ 64
    · rw [Outcome.addUsize_ok word, Outcome.ok_bind]
      constructor
      · intro panics
        split at panics
        · cases panics
        · rcases Outcome.bind_eq_panic.mp panics with read | ⟨v, -, returned⟩
          · exact absurd read (Outcome.ofExcept_ne_panic _)
          · cases returned
      · rintro ⟨-, large⟩
        omega
    · rw [Outcome.addUsize, if_neg word, Outcome.panic_bind]
      exact ⟨fun _ => ⟨by omega, by omega⟩, fun _ => rfl⟩

theorem UintN.readFromSlice_length {v : UintN} {bytesRead : Nat}
    (read : readFromSlice data = .ok (v, bytesRead)) : bytesRead = 8 + wordAt data 0 := by
  unfold readFromSlice at read
  split at read
  · cases read
  · obtain ⟨total, added, rest⟩ := Outcome.bind_eq_ok.mp read
    obtain ⟨-, rfl⟩ := Outcome.addUsize_eq_ok.mp added
    split at rest
    · cases rest
    · obtain ⟨value, -, returned⟩ := Outcome.bind_eq_ok.mp rest
      cases returned
      rfl

theorem UintN.readFromSlice_present (room : 8 + wordAt data 0 ≤ data.length)
    (small : data.length < 2 ^ 63) : ∃ v, readFromSlice data = .ok (v, 8 + wordAt data 0) := by
  have word : wordAt data 0 = decode (data.take 8) := by rw [wordAt, List.drop_zero]
  rw [word] at room ⊢
  have length : ((data.drop 8).take (decode (data.take 8))).length = decode (data.take 8) := by
    rw [List.length_take, List.length_drop]
    omega
  obtain ⟨v, read, -⟩ := readValueFromSlice_ok ((data.drop 8).take (decode (data.take 8)))
  rw [length] at read
  refine ⟨v, ?_⟩
  unfold readFromSlice
  rw [if_neg (by omega)]
  dsimp only
  rw [Outcome.addUsize_ok (by omega), Outcome.ok_bind, if_neg (by omega), read]
  rfl

theorem wordAt_drop (data : List UInt8) (front : Nat) : wordAt (data.drop front) 0 = wordAt data front := by
  rw [wordAt, wordAt, List.drop_zero]

theorem WalHeader.fromBytes_eq_panic :
    fromBytes data = .panic ↔ 32 ≤ data.length ∧ wordAt data 0 = 0 ∧ 2 ^ 64 ≤ 8 + wordAt data 24 := by
  have version : decode (data.take 8) = wordAt data 0 := by rw [wordAt, List.drop_zero]
  unfold fromBytes
  rw [version]
  by_cases short : data.length < walHeaderFixedSize
  · rw [if_pos short]
    rw [walHeaderFixedSize] at short
    constructor
    · rintro ⟨⟩
    · rintro ⟨long, -⟩
      omega
  · rw [if_neg short]
    dsimp only
    by_cases known : wordAt data 0 = 0
    · rw [if_neg (not_not.mpr known), Outcome.bind_eq_panic, Outcome.mapErr_eq_panic,
        UintN.readFromSlice_eq_panic, List.length_drop, wordAt_drop, walHeaderFixedSize]
      rw [walHeaderFixedSize] at short
      constructor
      · rintro (⟨room, large⟩ | ⟨_, -, returned⟩)
        · exact ⟨by omega, known, large⟩
        · cases returned
      · rintro ⟨long, -, large⟩
        exact .inl ⟨by omega, large⟩
    · rw [if_pos known]
      constructor
      · rintro ⟨⟩
      · rintro ⟨-, zero, -⟩
        exact absurd zero known

theorem compressionTypeFromU64_known {value : Nat} :
    (∃ c, compressionTypeFromU64 value = .ok c) ↔ value ≤ 3 := by
  constructor
  · rintro ⟨c, read⟩
    rw [compressionTypeFromU64_eq_ok read]
    cases c <;> decide
  · intro known
    interval_cases value <;> exact ⟨_, rfl⟩

theorem encryptionTypeFromU64_known {value : Nat} :
    (∃ e, encryptionTypeFromU64 value = .ok e) ↔ value ≤ 1 := by
  constructor
  · rintro ⟨e, read⟩
    rw [encryptionTypeFromU64_eq_ok read]
    cases e <;> decide
  · intro known
    interval_cases value <;> exact ⟨_, rfl⟩

structure KnownStoreHeader (data : List UInt8) : Prop where
  version : wordAt data 0 = 0
  compression : wordAt data 8 ≤ 3
  encryption : wordAt data 16 ≤ 1

theorem StoreHeader.fromBytes_eq_panic (small : data.length < 2 ^ 63) :
    fromBytes data = .panic ↔ KnownStoreHeader data ∧
      ((32 ≤ data.length ∧ 2 ^ 64 ≤ 8 + wordAt data 24) ∨
        (40 + wordAt data 24 ≤ data.length ∧ 2 ^ 64 ≤ 8 + wordAt data (32 + wordAt data 24))) := by
  unfold fromBytes
  by_cases short : data.length < fixedSize
  · rw [if_pos short]
    rw [fixedSize] at short
    constructor
    · rintro ⟨⟩
    · rintro ⟨-, ⟨long, -⟩ | ⟨long, -⟩⟩ <;> omega
  · rw [if_neg short]
    rw [fixedSize] at short
    by_cases version : wordAt data 0 = 0
    · rw [if_neg (not_not.mpr version)]
      constructor
      · intro panics
        rcases Outcome.bind_eq_panic.mp panics with read | ⟨c, compression, panics⟩
        · exact absurd read (Outcome.ofExcept_ne_panic _)
        · rcases Outcome.bind_eq_panic.mp panics with read | ⟨e, encryption, panics⟩
          · exact absurd read (Outcome.ofExcept_ne_panic _)
          · refine ⟨⟨version, compressionTypeFromU64_known.mp ⟨c, Outcome.ofExcept_eq_ok.mp compression⟩,
              encryptionTypeFromU64_known.mp ⟨e, Outcome.ofExcept_eq_ok.mp encryption⟩⟩, ?_⟩
            rcases Outcome.bind_eq_panic.mp panics with first | ⟨⟨before, bytesRead⟩, first, panics⟩
            · rw [Outcome.mapErr_eq_panic, UintN.readFromSlice_eq_panic, List.length_drop, wordAt_drop, fixedSize] at first
              exact .inl ⟨by omega, first.2⟩
            · have read := Outcome.mapErr_eq_ok.mp first
              have length := UintN.readFromSlice_length read
              rw [wordAt_drop] at length
              subst length
              rcases Outcome.bind_eq_panic.mp panics with second | ⟨_, -, returned⟩
              · rw [Outcome.mapErr_eq_panic, UintN.readFromSlice_eq_panic, List.length_drop, wordAt_drop, fixedSize]
                  at second
                right
                have place : 24 + (8 + wordAt data 24) = 32 + wordAt data 24 := by omega
                rw [place] at second
                exact ⟨by omega, second.2⟩
              · cases returned
      · rintro ⟨known, overflow⟩
        obtain ⟨c, compression⟩ := compressionTypeFromU64_known.mpr known.compression
        obtain ⟨e, encryption⟩ := encryptionTypeFromU64_known.mpr known.encryption
        rw [compression, encryption, Outcome.ofExcept_ok, Outcome.ok_bind, Outcome.ofExcept_ok, Outcome.ok_bind]
        rcases overflow with ⟨long, large⟩ | ⟨long, large⟩
        · have first : UintN.readFromSlice (data.drop fixedSize) = .panic := by
            rw [UintN.readFromSlice_eq_panic, List.length_drop, wordAt_drop, fixedSize]
            exact ⟨by omega, large⟩
          rw [first]
          rfl
        · obtain ⟨before, first⟩ := UintN.readFromSlice_present (show 8 + wordAt (data.drop fixedSize) 0 ≤ _ by
            rw [wordAt_drop, List.length_drop, fixedSize]
            omega) (by rw [List.length_drop]; omega)
          have second : UintN.readFromSlice (data.drop (fixedSize + (8 + wordAt (data.drop fixedSize) 0))) = .panic := by
            have place : fixedSize + (8 + wordAt (data.drop fixedSize) 0) = 32 + wordAt data 24 := by
              rw [wordAt_drop, fixedSize]
              omega
            rw [place, UintN.readFromSlice_eq_panic, List.length_drop, wordAt_drop]
            exact ⟨by omega, large⟩
          rw [first, Outcome.mapErr_ok, Outcome.ok_bind]
          dsimp only
          rw [second]
          rfl
    · rw [if_pos version]
      constructor
      · rintro ⟨⟩
      · rintro ⟨known, -⟩
        exact absurd known.version version

end Panics

section Walks

variable {xxh64 : Hash} {h : WalHeader} {file : Bytes} {start stop : Nat}
  {entries : List Entry}

theorem getWalContent_loop (decoded : WalHeader.fromBytes file.data = .ok (h, start)) :
    getWalContent xxh64 (some file) = (walContentLoop xxh64 h file.data (file.length + 1) start 0 >>= fun count =>
      .ok ⟨h.numEntriesBefore, .ofU64 (BitVec.ofNat 64 count), file⟩) := by
  simp only [getWalContent, header_present decoded, Bool.false_eq_true, if_false, decoded, Outcome.mapErr_ok,
    Outcome.ok_bind]
  rfl

/-- The counting walk of a file panics exactly when an offset at the end of its entries overflows. -/
theorem getWalContent_eq_panic (decoded : WalHeader.fromBytes file.data = .ok (h, start))
    (leading : Leading xxh64 h file.data start entries stop) :
    getWalContent xxh64 (some file) = .panic ↔ ¬ Steady h file.data stop := by
  have small := file.addressable
  have begins := WalHeader.fromBytes_inside decoded
  have inside := leading.inside begins
  have enough : file.data.length < start + (file.length + 1) := by
    rw [Bytes.length]
    omega
  rw [getWalContent_loop decoded]
  constructor
  · intro panics steady
    rw [walContentLoop_steady small leading begins steady enough] at panics
    cases panics
  · intro overflow
    obtain ⟨left, remains, counted⟩ := walContentLoop_leading small leading enough 0
    obtain ⟨left, rfl⟩ := Nat.exists_eq_add_one_of_ne_zero (show left ≠ 0 by omega)
    rw [counted, walContentLoop_panic overflow, Outcome.panic_bind]

def everything : ReadRequest := ⟨.zero, none, 1, .diskWal⟩

theorem walkThen_everything (after : Option UintN → Option UintN → Sender →
    Sender × Outcome WalError ReadRangeResult) (entries : List Entry)
    (lastRead lastProcessed : Option UintN) (delivered : List ReadEntry) :
    ∃ lastRead' lastProcessed' delivered',
      walkThen everything after entries lastRead lastProcessed (.staying delivered) =
        after lastRead' lastProcessed' (.staying delivered') := by
  induction entries generalizing lastRead lastProcessed delivered with
  | nil => exact ⟨_, _, _, rfl⟩
  | cons e entries ih =>
    obtain ⟨id, data⟩ := e
    have inside : pastEnd everything id = false := rfl
    have hits : Stride.hit everything.fromId.toNat everything.step everything.last id.toNat = true := by
      rw [Stride.hit_iff]
      refine ⟨?_, ?_, by simp [everything]⟩
      · simp [everything]
      · rintro l ⟨⟩
    obtain ⟨lastRead', lastProcessed', delivered', later⟩ := ih (some id) (some id)
      (delivered ++ [everything.label (id, data)])
    refine ⟨lastRead', lastProcessed', delivered', ?_⟩
    rw [walkThen, deliver_inside (by decide) (by decide) inside]
    simp only [Sender.isClosed_staying, Bool.false_eq_true, if_false, inside, hits, if_true, Sender.send_staying,
      ReadRequest.handOver]
    exact later

theorem readWalBytesRange_survives (decoded : WalHeader.fromBytes file.data = .ok (h, start))
    (leading : Leading xxh64 h file.data start entries stop) :
    (∀ (request : ReadRequest) (target : Sender), request.step < 2 ^ 64 →
      (readWalBytesRange xxh64 file request target).2 ≠ .panic) ↔ Steady h file.data stop := by
  have begins := WalHeader.fromBytes_inside decoded
  have inside := leading.inside begins
  constructor
  · intro survives
    by_contra overflow
    obtain ⟨left, remains, walked⟩ := walBytesLoop_leading everything leading
      (show file.length < start + (file.length + 1) by omega)
    rw [Bytes.length] at remains
    obtain ⟨left, rfl⟩ := Nat.exists_eq_add_one_of_ne_zero (show left ≠ 0 by omega)
    have read := @readWalBytesRange_loop xxh64 _ _ _ decoded everything
    obtain ⟨_, _, delivered, reached⟩ := walkThen_everything
      (walBytesLoop xxh64 everything h file (left + 1) stop) entries none none []
    apply survives everything (.staying []) (by decide)
    rw [read]
    change (walBytesLoop xxh64 everything h file (file.length + 1) start none none (.staying [])).2 = .panic
    rw [walked, reached]
    exact walBytesLoop_panic overflow rfl rfl left _ _
  · intro steady request target word
    rw [readWalBytesRange_loop decoded, walBytesLoop_steady _ leading begins steady (by omega)]
    obtain ⟨_, _, -, -, returned⟩ := @walk_sends { request with step := max request.step 1 }
      (show 0 < max request.step 1 by omega) (show max request.step 1 < 2 ^ 64 by omega) entries
      (headerAt h file.data stop) none none target
    rw [returned]
    rintro ⟨⟩

end Walks

/-- Every round of a loop either ends it, or moves the cursor on by at least 16 bytes, inside the
buffer. -/
def Advances {σ ρ : Type} (length : Nat) (loop : Nat → Nat → σ → ρ) : Prop :=
  ∀ cursor state, (∃ result, ∀ fuel, loop (fuel + 1) cursor state = result) ∨
    ∃ cursor' state', cursor + 16 ≤ cursor' ∧ cursor' ≤ length ∧
      ∀ fuel, loop (fuel + 1) cursor state = loop fuel cursor' state'

namespace Indexed

variable {xxh64 : Hash}

theorem recordAt_inside {ε : Type} {content record : List UInt8} {cursor stop : Nat} {entry : WalEntryHeader}
    (found : (recordAt xxh64 content cursor entry : Outcome ε _) = .ok (some (record, stop))) :
    cursor ≤ stop ∧ stop ≤ content.length := by
  unfold recordAt at found
  cases read : entry.recordSize.toU64 with
  | error e =>
    rw [read] at found
    cases found
  | ok word =>
    rw [read] at found
    obtain ⟨sum, added, rest⟩ := Outcome.bind_eq_ok.mp found
    obtain ⟨-, rfl⟩ := Outcome.addUsize_eq_ok.mp added
    split at rest
    · cases rest
    · obtain ⟨bytes, -, rest⟩ := Outcome.bind_eq_ok.mp rest
      split at rest
      · cases rest
      · cases rest
        omega

theorem header_advances {ε : Type} {walHeader : WalHeader} {size cursor next : Nat}
    (sized : (WalEntryHeader.expectedSize walHeader : Outcome ε Nat) = .ok size)
    (added : (Outcome.addUsize cursor size : Outcome ε Nat) = .ok next) : cursor + 16 ≤ next := by
  obtain ⟨rfl, -⟩ := expectedSize_eq_ok sized
  obtain ⟨-, rfl⟩ := Outcome.addUsize_eq_ok.mp added
  rw [WalEntryHeader.size, walEntryHeaderFixedOverhead]
  omega

theorem walContentLoop_advances (walHeader : WalHeader) (content : List UInt8) :
    Advances content.length (walContentLoop xxh64 walHeader content) := by
  intro cursor numEntries
  simp only [walContentLoop]
  cases sliced : (slice content cursor content.length : Outcome WalError _) with
  | panic => exact .inl ⟨_, fun _ => rfl⟩
  | err e => exact .inl ⟨_, fun _ => rfl⟩
  | ok remaining =>
    simp only [Outcome.ok_bind]
    split
    · exact .inl ⟨_, fun _ => rfl⟩
    · cases walEntryHeaderFromBytes remaining walHeader with
      | panic => exact .inl ⟨_, fun _ => rfl⟩
      | err e => exact .inl ⟨_, fun _ => rfl⟩
      | ok entry =>
        simp only
        cases sized : (WalEntryHeader.expectedSize walHeader : Outcome WalError _) with
        | panic => exact .inl ⟨_, fun _ => rfl⟩
        | err e => exact .inl ⟨_, fun _ => rfl⟩
        | ok size =>
          simp only [Outcome.ok_bind]
          cases added : (Outcome.addUsize cursor size : Outcome WalError _) with
          | panic => exact .inl ⟨_, fun _ => rfl⟩
          | err e => exact .inl ⟨_, fun _ => rfl⟩
          | ok next =>
            simp only [Outcome.ok_bind]
            cases found : (recordAt xxh64 content next entry : Outcome WalError _) with
            | panic => exact .inl ⟨_, fun _ => rfl⟩
            | err e => exact .inl ⟨_, fun _ => rfl⟩
            | ok answer =>
              cases answer with
              | none => exact .inl ⟨_, fun _ => rfl⟩
              | some record =>
                obtain ⟨bytes, stop⟩ := record
                simp only [Outcome.ok_bind]
                cases counted : (Outcome.addUsize numEntries 1 : Outcome WalError _) with
                | panic => exact .inl ⟨_, fun _ => rfl⟩
                | err e => exact .inl ⟨_, fun _ => rfl⟩
                | ok count =>
                  have moved := header_advances sized added
                  have inside := recordAt_inside found
                  exact .inr ⟨stop, count, by omega, inside.2, fun _ => rfl⟩

theorem walBytesLoop_advances (request : ReadRequest) (walHeader : WalHeader) (content : Bytes) :
    Advances content.length (fun fuel cursor (state : Option UintN × Option UintN × Sender) =>
      walBytesLoop xxh64 request walHeader content fuel cursor state.1 state.2.1 state.2.2) := by
  rintro cursor ⟨lastRead, lastProcessed, target⟩
  simp only [walBytesLoop]
  split
  · exact .inl ⟨_, fun _ => rfl⟩
  · cases slice content.data cursor content.length with
    | panic => exact .inl ⟨_, fun _ => rfl⟩
    | err e => exact .inl ⟨_, fun _ => rfl⟩
    | ok remaining =>
      simp only
      split
      · exact .inl ⟨_, fun _ => rfl⟩
      · cases walEntryHeaderFromBytes remaining walHeader with
        | panic => exact .inl ⟨_, fun _ => rfl⟩
        | err e => exact .inl ⟨_, fun _ => rfl⟩
        | ok entry =>
          simp only
          split
          · exact .inl ⟨_, fun _ => rfl⟩
          · generalize placed : (WalEntryHeader.expectedSize walHeader >>= _ : Outcome WalError _) = place
            cases place with
            | panic => exact .inl ⟨_, fun _ => rfl⟩
            | err e => exact .inl ⟨_, fun _ => rfl⟩
            | ok found =>
              obtain ⟨first, answer⟩ := found
              cases answer with
              | none => exact .inl ⟨_, fun _ => rfl⟩
              | some record =>
                obtain ⟨bytes, stop⟩ := record
                obtain ⟨size, sized, rest⟩ := Outcome.bind_eq_ok.mp placed
                obtain ⟨next, added, rest⟩ := Outcome.bind_eq_ok.mp rest
                obtain ⟨record, found, returned⟩ := Outcome.bind_eq_ok.mp rest
                cases returned
                have moved := header_advances sized added
                have inside := recordAt_inside found
                simp only
                cases deliver request entry.entryId (content.slice first bytes.length) lastRead target with
                | panic => exact .inl ⟨_, fun _ => rfl⟩
                | err e => exact .inl ⟨_, fun _ => rfl⟩
                | ok delivery =>
                  cases delivery with
                  | closed target => exact .inl ⟨_, fun _ => rfl⟩
                  | reachedEnd target lastRead => exact .inl ⟨_, fun _ => rfl⟩
                  | proceed target lastRead =>
                    exact .inr ⟨stop, (lastRead, some entry.entryId, target), by omega, inside.2, fun _ => rfl⟩

end Indexed

structure Survives (xxh64 : Hash) (bytes : Bytes) (h : WalHeader) : Prop where
  value : Indexed.readFromSlice bytes.data ≠ .panic
  walHeader : Indexed.walHeaderFromBytes bytes.data ≠ .panic
  walEntryHeader : Indexed.walEntryHeaderFromBytes bytes.data h ≠ .panic
  storeHeader : Indexed.storeHeaderFromBytes bytes.data ≠ .panic
  authentication : Indexed.fileAuthenticationFromBytes bytes.data ≠ .panic
  content : Indexed.getWalContent xxh64 (some bytes) ≠ .panic
  range : ∀ (request : ReadRequest) (target : Sender), request.step < 2 ^ 64 →
    (Indexed.readWalBytesRange xxh64 bytes request target).2 ≠ .panic

/-- No length that the bytes announce takes an offset out of the machine words. -/
structure Harmless (xxh64 : Hash) (bytes : Bytes) (h : WalHeader) : Prop where
  value : 8 ≤ bytes.length → 8 + wordAt bytes.data 0 < 2 ^ 64
  widths : WalEntryHeader.size h < 2 ^ 64
  before : 32 ≤ bytes.length → wordAt bytes.data 0 = 0 → 8 + wordAt bytes.data 24 < 2 ^ 64
  count : KnownStoreHeader bytes.data → 40 + wordAt bytes.data 24 ≤ bytes.length →
    8 + wordAt bytes.data (32 + wordAt bytes.data 24) < 2 ^ 64
  entries : ∀ header start entries stop, WalHeader.fromBytes bytes.data = .ok (header, start) →
    Leading xxh64 header bytes.data start entries stop → Steady header bytes.data stop

section Survive

variable {xxh64 : Hash} {bytes : Bytes} {h : WalHeader}

theorem Survives.harmless (survives : Survives xxh64 bytes h) : Harmless xxh64 bytes h where
  value := by
    intro long
    by_contra large
    apply survives.value
    rw [Indexed.readFromSlice_eq, UintN.readFromSlice_eq_panic]
    exact ⟨long, Nat.le_of_not_lt large⟩
  widths := by
    by_contra large
    apply survives.walEntryHeader
    rw [Indexed.walEntryHeaderFromBytes_eq, fromBytes_eq_panic]
    exact Nat.le_of_not_lt large
  before := by
    intro long version
    by_contra large
    apply survives.walHeader
    rw [Indexed.walHeaderFromBytes_eq bytes.addressable, WalHeader.fromBytes_eq_panic]
    exact ⟨long, version, Nat.le_of_not_lt large⟩
  count := by
    intro known long
    by_contra large
    apply survives.storeHeader
    rw [Indexed.storeHeaderFromBytes_eq bytes.addressable, StoreHeader.fromBytes_eq_panic bytes.addressable]
    exact ⟨known, .inr ⟨long, Nat.le_of_not_lt large⟩⟩
  entries := by
    intro header start entries stop decoded leading
    rw [← readWalBytesRange_survives decoded leading]
    intro request target word
    rw [← Indexed.readWalBytesRange_eq]
    exact survives.range request target word

theorem getWalContent_survives (harmless : Harmless xxh64 bytes h) : getWalContent xxh64 (some bytes) ≠ .panic := by
  intro panics
  cases decoded : WalHeader.fromBytes bytes.data with
  | panic =>
    obtain ⟨long, version, large⟩ := WalHeader.fromBytes_eq_panic.mp decoded
    have := harmless.before long version
    omega
  | err e =>
    simp only [getWalContent, decoded, Outcome.mapErr_err, Outcome.err_bind] at panics
    split at panics <;> cases panics
  | ok read =>
    obtain ⟨header, start⟩ := read
    obtain ⟨entries, stop, leading⟩ := leading_exists xxh64 header bytes.addressable start
    exact (getWalContent_eq_panic decoded leading).mp panics (harmless.entries _ _ _ _ decoded leading)

theorem readWalBytesRange_harmless (harmless : Harmless xxh64 bytes h) (request : ReadRequest) (target : Sender)
    (word : request.step < 2 ^ 64) : (readWalBytesRange xxh64 bytes request target).2 ≠ .panic := by
  cases decoded : WalHeader.fromBytes bytes.data with
  | panic =>
    obtain ⟨long, version, large⟩ := WalHeader.fromBytes_eq_panic.mp decoded
    have := harmless.before long version
    omega
  | err e =>
    simp only [readWalBytesRange, decoded]
    split
    · rintro ⟨⟩
    · cases e <;> rintro ⟨⟩
  | ok read =>
    obtain ⟨header, start⟩ := read
    obtain ⟨entries, stop, leading⟩ := leading_exists xxh64 header bytes.addressable start
    exact (readWalBytesRange_survives decoded leading).mpr (harmless.entries _ _ _ _ decoded leading) request
      target word

theorem Harmless.survives (harmless : Harmless xxh64 bytes h) : Survives xxh64 bytes h where
  value := by
    rw [Indexed.readFromSlice_eq, ne_eq, UintN.readFromSlice_eq_panic]
    rintro ⟨long, large⟩
    have := harmless.value long
    omega
  walHeader := by
    rw [Indexed.walHeaderFromBytes_eq bytes.addressable, ne_eq, WalHeader.fromBytes_eq_panic]
    rintro ⟨long, version, large⟩
    have := harmless.before long version
    omega
  walEntryHeader := by
    rw [Indexed.walEntryHeaderFromBytes_eq, ne_eq, fromBytes_eq_panic]
    have := harmless.widths
    omega
  storeHeader := by
    rw [Indexed.storeHeaderFromBytes_eq bytes.addressable, ne_eq, StoreHeader.fromBytes_eq_panic bytes.addressable]
    rintro ⟨known, ⟨long, large⟩ | ⟨long, large⟩⟩
    · have := harmless.before long known.version
      omega
    · have := harmless.count known long
      omega
  authentication := by
    rw [Indexed.fileAuthenticationFromBytes_eq]
    exact Outcome.ofExcept_ne_panic _
  content := by
    rw [Indexed.getWalContent_eq]
    exact getWalContent_survives harmless
  range := by
    intro request target word
    rw [Indexed.readWalBytesRange_eq]
    exact readWalBytesRange_harmless harmless request target word

end Survive

/- The decoders and walks survive given bytes if and only if no length announced in them overflows an
offset; and whatever the bytes, each round of a walk that goes on has moved by 16 bytes at least. -/
theorem decoders_survive_iff (xxh64 : Hash) (bytes : Bytes) (h : WalHeader) :
    (Survives xxh64 bytes h ↔ Harmless xxh64 bytes h) ∧
      (∀ walHeader, Advances bytes.length (Indexed.walContentLoop xxh64 walHeader bytes.data)) ∧
      ∀ request walHeader, Advances bytes.length
        (fun fuel cursor (state : Option UintN × Option UintN × Sender) =>
          Indexed.walBytesLoop xxh64 request walHeader bytes fuel cursor state.1 state.2.1 state.2.2) :=
  ⟨⟨Survives.harmless, Harmless.survives⟩,
    fun walHeader => Indexed.walContentLoop_advances walHeader bytes.data,
    fun request walHeader => Indexed.walBytesLoop_advances request walHeader bytes⟩

theorem hostileBytes_short : (List.replicate 8 (255 : UInt8)).length < 2 ^ 63 := by decide

/-- Eight bytes that announce a number of `2 ^ 64 - 1` bytes. -/
def hostileBytes : Bytes := ⟨List.replicate 8 255, hostileBytes_short⟩

def hostileWalBytes : List UInt8 :=
  WalHeader.default.writeToBytes ++ (encode 8 0 ++ (encode 4 0 ++ (encode 8 (2 ^ 64 - 1) ++ encode 8 0)))

theorem hostileWalBytes_short : hostileWalBytes.length < 2 ^ 63 := by decide

/-- A WAL file whose only entry announces a record of `2 ^ 64 - 1` bytes. -/
def hostileWal : Bytes := ⟨hostileWalBytes, hostileWalBytes_short⟩

/- The length of a number, and the length of a record, are added to an offset before anything is
compared. -/
theorem decoders_overflow :
    Indexed.readFromSlice hostileBytes.data = .panic ∧
      ¬ Survives (fun _ => 7) hostileBytes .default ∧
      Indexed.getWalContent (fun _ => 7) (some hostileWal) = .panic ∧
      (Indexed.readWalBytesRange (fun _ => 7) hostileWal ⟨.zero, none, 1, .diskWal⟩ (.staying [])).2 = .panic := by
  have panics : Indexed.readFromSlice hostileBytes.data = .panic := by decide
  exact ⟨panics, fun survives => survives.value panics, by decide, by decide⟩

end NormFS
