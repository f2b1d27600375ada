import NormFS.Recovery

/-! Which identifiers and files a restarted queue uses again, for every state of the disk. The walk
looks for entries only: what the header of a file without entries knows is not asked. -/
namespace NormFS

def QueueStart.nextEntry (start : QueueStart) : Nat :=
  match start.lastEntryId with
  | some last => last.toNat + 1
  | none => 0

section Places

variable (xxh64 : Hash) (config : StoreConfig) (disk : Disk)

def walLast (file : Option Bytes) : Option Nat :=
  match getWalRange xxh64 (file.map Bytes.data) .zero with
  | .ok (_, entries) => entries.map (fun range => range.2.toNat)
  | _ => none

def storeLast (file : Option Bytes) : Option Nat :=
  match rangeOf config file with
  | .ok (some range) => some range.2.toNat
  | _ => none

/-- The last entry that can be read of a file, in either place. -/
def Disk.lastEntryAt (f : Nat) : Option Nat := max (walLast xxh64 (disk.walAt f)) (storeLast config (disk.storeAt f))

/-- The entries before a file, where its WAL header can be read. -/
def Disk.countBefore (f : Nat) : Option Nat :=
  (disk.walAt f).bind (fun file => match WalHeader.fromBytes file.data with
    | .ok (header, _) => some header.numEntriesBefore.toNat
    | _ => none)

structure Topmost (latest file last : Nat) : Prop where
  counted : 1 ≤ file ∨ latest = 0
  le : file ≤ latest
  entry : disk.lastEntryAt xxh64 config file = some last
  above : ∀ f, file < f → f ≤ latest → disk.lastEntryAt xxh64 config f = none

variable {xxh64 config disk}

theorem getWalRange_congr {bytes : Option (List UInt8)} {a b : UintN} {answer : WalHeader × Option (UintN × UintN)}
    (read : getWalRange xxh64 bytes a = .ok answer) : getWalRange xxh64 bytes b = .ok answer := by
  cases bytes with
  | none => cases read
  | some bytes =>
    unfold getWalRange at read ⊢
    dsimp only at read ⊢
    split at read
    · cases read
    · rename_i nonempty
      rw [if_neg nonempty]
      cases decoded : WalHeader.fromReader bytes with
      | ok header => rw [decoded] at read; exact read
      | err e => rw [decoded] at read; cases e <;> cases read
      | panic => rw [decoded] at read; cases read

variable {fileId : UintN} {ranges after : RangeCache}

theorem walLast_refused {file : Option Bytes} {e : WalError}
    (read : getWalRange xxh64 (file.map Bytes.data) fileId = .err e) : walLast xxh64 file = none := by
  unfold walLast
  split
  · rename_i found
    cases read.symm.trans (getWalRange_congr found)
  · rfl

theorem WalStore.getFileEnd_last (fileId : UintN) :
    (∃ last, WalStore.getFileEnd disk xxh64 fileId = .ok last ∧
      walLast xxh64 (disk.walAt fileId.toNat) = last.map UintN.toNat) ∨
    (∃ e, WalStore.getFileEnd disk xxh64 fileId = .err e ∧ walLast xxh64 (disk.walAt fileId.toNat) = none) ∨
    WalStore.getFileEnd disk xxh64 fileId = .panic := by
  unfold WalStore.getFileEnd
  rw [disk.walFile_eq fileId]
  cases range : getWalRange xxh64 ((disk.walAt fileId.toNat).map Bytes.data) fileId with
  | ok found =>
    refine .inl ⟨_, rfl, ?_⟩
    unfold walLast
    rw [getWalRange_congr (b := .zero) range]
    obtain ⟨header, entries⟩ := found
    cases entries <;> rfl
  | err e =>
    have nothing := walLast_refused range
    cases e with
    | walEmpty => exact .inl ⟨none, rfl, nothing⟩
    | walNotFound => exact .inl ⟨none, rfl, nothing⟩
    | _ => exact .inr (.inl ⟨_, rfl, nothing⟩)
  | panic => exact .inr (.inr rfl)

theorem getRange_ok {files : Nat → Option Bytes} (agrees : ranges.Agrees config files) {answer : Option EntryRange}
    (got : getRange config (files fileId.toNat) fileId ranges = .ok (answer, after)) :
    rangeOf config (files fileId.toNat) = .ok answer ∧ after.Agrees config files := by
  cases read : rangeOf config (files fileId.toNat) with
  | ok found =>
    obtain ⟨after', same, still⟩ := getRange_spec agrees fileId found read
    cases got.symm.trans same
    exact ⟨rfl, still⟩
  | err e => cases got.symm.trans (getRange_err agrees fileId read)
  | panic =>
    unfold getRange at got
    split at got
    · rename_i range known
      cases read.symm.trans (agrees _ _ known)
    · unfold rangeOf at read
      split at read
      · cases read
      · rw [read] at got
        cases got

theorem getRange_refused {files : Nat → Option Bytes} (agrees : ranges.Agrees config files) {e : RangeStoreError} (got : getRange config (files fileId.toNat) fileId ranges = .err e) :
    storeLast config (files fileId.toNat) = none := by
  unfold storeLast
  cases read : rangeOf config (files fileId.toNat) with
  | ok found =>
    obtain ⟨after, same, -⟩ := getRange_spec agrees fileId found read
    cases got.symm.trans same
  | err e => rfl
  | panic => rfl

theorem PersistStore.getFileEnd_last {ranges : RangeCache} (agrees : ranges.Agrees config disk.storeAt)
    (fileId : UintN) :
    (∃ last after, PersistStore.getFileEnd config disk fileId ranges = .ok (last, after) ∧
      storeLast config (disk.storeAt fileId.toNat) = last.map UintN.toNat ∧ after.Agrees config disk.storeAt) ∨
    (∃ e, PersistStore.getFileEnd config disk fileId ranges = .err e ∧
      storeLast config (disk.storeAt fileId.toNat) = none) ∨
    PersistStore.getFileEnd config disk fileId ranges = .panic := by
  unfold PersistStore.getFileEnd PersistStore.getFileRange
  rw [disk.storeFile_eq fileId]
  cases got : getRange config (disk.storeAt fileId.toNat) fileId ranges with
  | ok found =>
    obtain ⟨answer, after⟩ := found
    obtain ⟨read, still⟩ := getRange_ok agrees got
    refine .inl ⟨_, after, rfl, ?_, still⟩
    unfold storeLast
    rw [read]
    cases answer <;> rfl
  | err e => exact .inr (.inl ⟨_, rfl, getRange_refused agrees got⟩)
  | panic => exact .inr (.inr rfl)

theorem largest_max (known : Option UintN) (found : UintN) :
    (largest known found).map UintN.toNat = max (known.map UintN.toNat) (some found.toNat) := by
  cases known with
  | none => rfl
  | some current =>
    unfold largest
    dsimp only
    split
    · rename_i less
      have less' := (UintN.lt_iff _ _).mp less
      exact congrArg some (Nat.max_eq_right (by omega)).symm
    · rename_i notLess
      have notLess' := mt (UintN.lt_iff _ _).mpr notLess
      exact congrArg some (Nat.max_eq_left (by omega)).symm

theorem storeAnswer_last {ranges after : RangeCache} (agrees : ranges.Agrees config disk.storeAt) {fileId : UintN}
    {known last : Option UintN} (wal : walLast xxh64 (disk.walAt fileId.toNat) = known.map UintN.toNat)
    (chosen : (match PersistStore.getFileEnd config disk fileId ranges with
      | .ok (some id, ranges) => (.ok (largest known id, ranges) : Outcome RecoveryError _)
      | .ok (none, ranges) => .ok (known, ranges)
      | .err _ => .ok (known, ranges)
      | .panic => .panic) = .ok (last, after)) :
    disk.lastEntryAt xxh64 config fileId.toNat = last.map UintN.toNat ∧ after.Agrees config disk.storeAt := by
  have alone : ∀ value : Option Nat, max value none = value := by
    intro value
    cases value <;> rfl
  unfold Disk.lastEntryAt
  rcases PersistStore.getFileEnd_last agrees fileId with
    ⟨storeEnd, ranges', store, value, still⟩ | ⟨e, store, value⟩ | store
  · rw [store] at chosen
    cases storeEnd with
    | none =>
      cases chosen
      refine ⟨?_, still⟩
      rw [wal, value]
      exact alone _
    | some id =>
      cases chosen
      refine ⟨?_, still⟩
      rw [wal, value, largest_max]
      rfl
  · rw [store] at chosen
    cases chosen
    refine ⟨?_, agrees⟩
    rw [wal, value]
    exact alone _
  · rw [store] at chosen
    cases chosen

/-- The later of the two answers is taken; a place that reports an error has none. -/
theorem getFileEndAllSources_last (agrees : ranges.Agrees config disk.storeAt) {last : Option UintN}
    (read : getFileEndAllSources xxh64 config disk fileId ranges = .ok (last, after)) :
    disk.lastEntryAt xxh64 config fileId.toNat = last.map UintN.toNat ∧ after.Agrees config disk.storeAt := by
  unfold getFileEndAllSources at read
  rcases @WalStore.getFileEnd_last xxh64 disk fileId with
    ⟨walEnd, wal, value⟩ | ⟨e, wal, value⟩ | wal
  · refine storeAnswer_last agrees value ?_
    rw [wal] at read
    cases store : PersistStore.getFileEnd config disk fileId ranges with
    | ok found =>
      rw [store] at read
      obtain ⟨storeEnd, ranges'⟩ := found
      cases walEnd <;> cases storeEnd <;> exact read
    | err e =>
      rw [store] at read
      cases walEnd <;> exact read
    | panic =>
      rw [store] at read
      cases read
  · refine @storeAnswer_last xxh64 config disk ranges after agrees fileId none last value ?_
    rw [wal] at read
    cases store : PersistStore.getFileEnd config disk fileId ranges with
    | ok found =>
      rw [store] at read
      obtain ⟨storeEnd, ranges'⟩ := found
      cases storeEnd <;> exact read
    | err e =>
      rw [store] at read
      exact read
    | panic =>
      rw [store] at read
      cases read
  · rw [wal] at read
    cases read

/- One round of the walk either ends it at a file with an entry or at file 1, or goes one file back. -/
theorem continueLoop_topmost {latest : UintN} {fuel : Nat} {current : UintN}
    {start : QueueStart} (agrees : ranges.Agrees config disk.storeAt) (enough : current.toNat < fuel)
    (returned : continueLoop xxh64 config disk latest fuel current ranges = .ok (start, after)) :
    (∃ file last, Topmost xxh64 config disk current.toNat file last ∧ start.nextEntry = last + 1 ∧
      start.fileId.toNat = if file = latest.toNat then latest.toNat + 1 else latest.toNat) ∨
    (1 ≤ current.toNat ∧ (∀ f, 1 ≤ f → f ≤ current.toNat → disk.lastEntryAt xxh64 config f = none) ∧
      start = .fresh) := by
  induction fuel generalizing current ranges with
  | zero => exact absurd enough (Nat.not_lt_zero _)
  | succ fuel ih =>
    rw [continueLoop] at returned
    obtain ⟨⟨fileEnd, ranges'⟩, read, rest⟩ := Outcome.bind_eq_ok.mp returned
    obtain ⟨value, still⟩ := getFileEndAllSources_last agrees read
    cases fileEnd with
    | some lastEntryId =>
      obtain ⟨header, -, made⟩ := Outcome.bind_eq_ok.mp rest
      cases made
      refine .inl ⟨current.toNat, lastEntryId.toNat, ⟨by omega, Nat.le_refl _, value, ?_⟩, rfl, ?_⟩
      · intro f above below
        omega
      · by_cases same : current.toNat = latest.toNat
        · have same' : (current == latest) = true := (UintN.beq_iff _ _).mpr same
          simp only [same', if_true, if_pos same, UintN.toNat_increment]
        · have different : (current == latest) = false :=
            Bool.eq_false_iff.mpr (mt (UintN.beq_iff _ _).mp same)
          simp only [different, Bool.false_eq_true, if_false, if_neg same]
    | none =>
      dsimp only at rest
      split at rest
      · rename_i isOne
        have one : current.toNat = 1 := ((UintN.beq_iff _ _).mp isOne).trans UintN.toNat_one
        cases rest
        refine .inr ⟨by omega, ?_, rfl⟩
        intro f low high
        obtain rfl : f = current.toNat := by omega
        exact value
      · rename_i notOne
        have notOne' : current.toNat ≠ 1 := by
          intro one
          exact notOne ((UintN.beq_iff _ _).mpr (one.trans UintN.toNat_one.symm))
        split at rest
        · rename_i previous less
          have value' := UintN.toNat_decrement less
          rcases ih still (by omega) rest with ⟨file, last, top, next, chosen⟩ | ⟨positive, nothing, fresh⟩
          · refine .inl ⟨file, last, ⟨?_, ?_, top.entry, ?_⟩, next, chosen⟩
            · have := top.counted
              omega
            · have := top.le
              omega
            · intro f above below
              rcases Nat.lt_or_ge previous.toNat f with higher | lower
              · obtain rfl : f = current.toNat := by omega
                exact value
              · exact top.above f above lower
          · refine .inr ⟨by omega, ?_, fresh⟩
            intro f low high
            rcases Nat.lt_or_ge previous.toNat f with higher | lower
            · obtain rfl : f = current.toNat := by omega
              exact value
            · exact nothing f low lower
        · cases rest

theorem Topmost.unique {latest file file' last last' : Nat} (one : Topmost xxh64 config disk latest file last)
    (other : Topmost xxh64 config disk latest file' last') : file = file' ∧ last = last' := by
  have same : file = file' := by
    rcases Nat.lt_trichotomy file file' with less | same | less
    · cases (one.above file' less other.le).symm.trans other.entry
    · exact same
    · cases (other.above file less one.le).symm.trans one.entry
  subst same
  exact ⟨rfl, Option.some.inj (one.entry.symm.trans other.entry)⟩

theorem continueQueue_topmost {start : QueueStart}
    (agrees : ranges.Agrees config disk.storeAt)
    (returned : continueQueue xxh64 config disk ranges = .ok (start, after)) :
    (∃ latest file last, (getLatestFile disk).map UintN.toNat = some latest ∧
      Topmost xxh64 config disk latest file last ∧ start.nextEntry = last + 1 ∧
      start.fileId.toNat = if file = latest then latest + 1 else latest) ∨
    ((∀ latest, (getLatestFile disk).map UintN.toNat = some latest → 1 ≤ latest ∧
      ∀ f, 1 ≤ f → f ≤ latest → disk.lastEntryAt xxh64 config f = none) ∧ start = .fresh) := by
  unfold continueQueue at returned
  cases found : getLatestFile disk with
  | none =>
    rw [found] at returned
    cases returned
    refine .inr ⟨?_, rfl⟩
    rintro _ ⟨⟩
  | some latest =>
    rw [found] at returned
    rcases continueLoop_topmost agrees (Nat.lt_succ_self _) returned with
      ⟨file, last, top, next, chosen⟩ | ⟨positive, nothing, fresh⟩
    · exact .inl ⟨latest.toNat, file, last, rfl, top, next, chosen⟩
    · refine .inr ⟨?_, fresh⟩
      rintro _ ⟨⟩
      exact ⟨positive, nothing⟩

/- No identifier below a count in a readable header is given out again, and no file before an existing
one is written again, exactly if the topmost entry is up to date and the last file was found, or there
is nothing to go on from. -/
theorem recovery_reuses_nothing_iff {ranges after : RangeCache} {start : QueueStart}
    (agrees : ranges.Agrees config disk.storeAt)
    (returned : continueQueue xxh64 config disk ranges = .ok (start, after)) :
    ((∀ f n, disk.countBefore f = some n → n ≤ start.nextEntry) ∧
      ∀ f, disk.Has f → f ≤ start.fileId.toNat) ↔
    (∃ latest file last, (getLatestFile disk).map UintN.toNat = some latest ∧
      Topmost xxh64 config disk latest file last ∧
      (∀ f n, disk.countBefore f = some n → n ≤ last + 1) ∧
      ∀ f, disk.Has f → f ≤ if file = latest then latest + 1 else latest) ∨
    ((∀ latest, (getLatestFile disk).map UintN.toNat = some latest →
        ∀ f, 1 ≤ f → f ≤ latest → disk.lastEntryAt xxh64 config f = none) ∧
      (∀ f n, disk.countBefore f = some n → n = 0) ∧ ∀ f, disk.Has f → f ≤ 1) := by
  rcases continueQueue_topmost agrees returned with
    ⟨latest, file, last, found, top, next, chosen⟩ | ⟨nothing, rfl⟩
  · rw [next, chosen]
    constructor
    · rintro ⟨counts, files⟩
      exact .inl ⟨latest, file, last, found, top, counts, files⟩
    · rintro (⟨latest', file', last', found', top', counts, files⟩ | ⟨empty, counts, files⟩)
      · obtain rfl := Option.some.inj (found.symm.trans found')
        obtain ⟨rfl, rfl⟩ := top.unique top'
        exact ⟨counts, files⟩
      · refine ⟨?_, ?_⟩
        · intro f n before
          rw [counts f n before]
          exact Nat.zero_le _
        · intro f has
          rcases top.counted with positive | rfl
          · cases (empty latest found file positive top.le).symm.trans top.entry
          · have := files f has
            have := top.le
            rw [if_pos (by omega)]
            omega
  · constructor
    · rintro ⟨counts, files⟩
      refine .inr ⟨fun latest found => (nothing latest found).2, ?_, files⟩
      intro f n before
      exact Nat.le_zero.mp (counts f n before)
    · rintro (⟨latest, file, last, found, top, -, -⟩ | ⟨-, counts, files⟩)
      · obtain ⟨positive, empty⟩ := nothing latest found
        cases (empty file (top.counted.resolve_right (by omega)) top.le).symm.trans top.entry
      · refine ⟨?_, files⟩
        intro f n before
        exact (counts f n before).le

end Places

namespace Sample

def begun : Bytes := ⟨(⟨8, 4, .one⟩ : WalHeader).writeToBytes, by decide +kernel⟩

def begunPath : Path := (UintN.ofUbig 2).toFilePath walExtension

def onlyBegun : Disk := ⟨[(begunPath, begun)], []⟩

def firstFile : Bytes := ⟨walBytes .zero, by decide +kernel⟩

def begunAfterFirst : Disk := ⟨[((UintN.ofUbig 1).toFilePath walExtension, firstFile), (begunPath, begun)], []⟩

theorem begunAfterFirst_walAt (f : Nat) : begunAfterFirst.walAt f =
    if f = 1 then some firstFile else if f = 2 then some begun else none := by
  simp only [Disk.walAt, Disk.walFile, begunAfterFirst, begunPath, List.lookup_cons, List.lookup_nil,
    toFilePath_beq]
  by_cases first : f = 1
  · simp [first]
  · by_cases second : f = 2
    · simp [second]
    · simp [first, second]

theorem begunAfterFirst_lastEntryAt : begunAfterFirst.lastEntryAt (fun _ => 0) config 2 = none ∧
    begunAfterFirst.lastEntryAt (fun _ => 0) config 1 = some 0 := by
  decide +kernel

end Sample

/-- The header says that entry 0 was given out, and it will be given out again, in a file before. -/
theorem recovery_reuses_first_id : ∃ start,
    continueQueue (fun _ => 0) Sample.config Sample.onlyBegun [] = .ok (start, []) ∧
    Sample.onlyBegun.countBefore 2 = some 1 ∧ start.nextEntry = 0 ∧
    Sample.onlyBegun.Has 2 ∧ start.fileId.toNat = 1 :=
  ⟨.fresh, by decide +kernel, by decide +kernel, rfl, .inl (by decide +kernel), rfl⟩

/-- With the file before it in place the begun file is written again, from entry 1 on. -/
theorem recovery_reuses_nothing_begun : ∃ start after,
    continueQueue (fun _ => 0) Sample.config Sample.begunAfterFirst [] = .ok (start, after) ∧
    (∀ f n, Sample.begunAfterFirst.countBefore f = some n → n ≤ start.nextEntry) ∧
    ∀ f, Sample.begunAfterFirst.Has f → f ≤ start.fileId.toNat := by
  have returns : (continueQueue (fun _ => 0) Sample.config Sample.begunAfterFirst []).any (fun _ => true) = true := by
    decide +kernel
  obtain ⟨⟨start, after⟩, returned, -⟩ := Outcome.any_eq_true.mp returns
  refine ⟨start, after, returned, ?_⟩
  refine (recovery_reuses_nothing_iff (RangeCache.agrees_nil _ _) returned).mpr (.inl ⟨2, 1, 0, ?_, ?_, ?_, ?_⟩)
  · decide +kernel
  · refine ⟨.inl (Nat.le_refl _), by decide, Sample.begunAfterFirst_lastEntryAt.2, ?_⟩
    intro f above below
    obtain rfl : f = 2 := by omega
    exact Sample.begunAfterFirst_lastEntryAt.1
  · intro f n before
    have counts : Sample.begunAfterFirst.countBefore 1 = some 0 ∧
        Sample.begunAfterFirst.countBefore 2 = some 1 := by
      decide +kernel
    by_cases first : f = 1
    · subst first
      cases counts.1.symm.trans before
      decide
    · by_cases second : f = 2
      · subst second
        cases counts.2.symm.trans before
        decide
      · rw [Disk.countBefore, Sample.begunAfterFirst_walAt, if_neg first, if_neg second] at before
        cases before
  · intro f has
    rw [if_neg (by decide)]
    rcases has with inWal | inStore
    · rw [Sample.begunAfterFirst_walAt] at inWal
      by_contra large
      exact inWal (by rw [if_neg (by omega), if_neg (by omega)])
    · exact absurd rfl inStore

end NormFS
