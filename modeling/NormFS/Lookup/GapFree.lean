import NormFS.Lookup
import NormFS.Recovery

/-! The lookup among files without gaps between them: it answers with the last file that does not
start after the wanted entry. -/
namespace NormFS

/-- What the search itself needs of the files, whatever else is in the directories: files `a`, …,
`a + n - 1` are complete, and their entries continue one another. -/
structure Linked (xxh64 : Hash) (config : StoreConfig) (disk : Disk) (a n : Nat)
    (segment : Nat → Segment) (packed : Nat → StoreHeader) : Prop where
  complete : ∀ i, i < n → Complete xxh64 config disk (a + i) (segment i) (packed i)
  following : ∀ i, i + 1 < n → (segment (i + 1)).first = (segment i).first + (segment i).entries.length
  headerOnly : ∀ i, i < n → (segment i).entries = [] → disk.storeAt (a + i) = none

/-- No other files. All of them may be without entries: a file that cannot hold the next entry is
given up however empty it is. -/
structure Chained (xxh64 : Hash) (config : StoreConfig) (disk : Disk) (a n : Nat)
    (segment : Nat → Segment) (packed : Nat → StoreHeader) : Prop
    extends Linked xxh64 config disk a n segment packed where
  contiguous : ∀ i, i < n → (segment i).Contiguous
  walOnly : ∀ path ∈ disk.wal.map Prod.fst,
    ∃ i < n, path = (UintN.ofUbig (a + i)).toFilePath walExtension
  storeOnly : ∀ path ∈ disk.store.map Prod.fst,
    ∃ i < n, path = (UintN.ofUbig (a + i)).toFilePath storeExtension

/-- Only the last one may be without entries, and then it is not in the store. -/
structure GapFree (xxh64 : Hash) (config : StoreConfig) (disk : Disk) (a n : Nat)
    (segment : Nat → Segment) (packed : Nat → StoreHeader) : Prop
    extends Chained xxh64 config disk a n segment packed where
  inhabited : ∀ i, i + 1 < n → (segment i).entries ≠ []

def headerWindow : Nat := 128

structure Locatable (disk : Disk) (n : Nat) (s : Segment) (packed : StoreHeader) : Prop where
  readable : s.header.Readable
  wal : disk.storeAt n = none → s.header.size ≤ headerWindow
  store : disk.storeAt n ≠ none → FileAuthentication.size + packed.size ≤ rangeWindow

structure Unhidden (extension : Name) (files : List Path) (a : Nat) : Prop where
  listed : (UintN.ofUbig a).toFilePath extension ∈ files
  level : ∀ q ∈ files, q.head? = ((UintN.ofUbig a).toFilePath extension).head? →
    q.length = ((UintN.ofUbig a).toFilePath extension).length

/-- The search of one of the two stores finds the first file. -/
def FirstFound (disk : Disk) (a : Nat) : Prop :=
  findMinId (disk.wal.map Prod.fst) walExtension = .ok (.ofUbig a) ∨
    findMinId (disk.store.map Prod.fst) storeExtension = .ok (.ofUbig a)

instance (disk : Disk) (a : Nat) : Decidable (FirstFound disk a) := inferInstanceAs (Decidable (_ ∨ _))

section Lookup

variable {xxh64 : Hash} {config : StoreConfig} {disk : Disk} {a n : Nat}
  {segment : Nat → Segment} {packed : Nat → StoreHeader}

abbrev Remembers (config : StoreConfig) (disk : Disk) (ranges : RangeCache) : Prop :=
  ranges.Agrees config disk.storeAt

/- How the two questions about one file are answered: by the store, or by the WAL when the store
does not have it. -/
def Probed (config : StoreConfig) (disk : Disk) (fileId start : UintN) : Option UintN → Prop
  | some stop => Memo.Yields (Remembers config disk) (storeRange config disk fileId) (some (start, stop))
  | none => Memo.Yields (Remembers config disk) (storeRange config disk fileId) none ∧
      Memo.Yields (Remembers config disk) (walStart disk fileId) (.start start)

variable {fileId start target lastFileId : UintN} {i left right last m : Nat} {stop : Option UintN}
  {b : Bounds} {extension : Name} {files : List Path}

theorem storeRange_yields {answer : Option EntryRange}
    (read : rangeOf config (disk.storeAt fileId.toNat) = .ok answer) :
    Memo.Yields (Remembers config disk) (storeRange config disk fileId) answer := by
  intro ranges agrees
  obtain ⟨after, answered, kept⟩ := getRange_spec agrees fileId answer read
  refine ⟨after, ?_, kept⟩
  simp only [storeRange, PersistStore.getFileRange, disk.storeFile_eq, answered, Outcome.mapErr_ok]

theorem walStart_yields {h : WalHeader} {file : Bytes} (readable : h.Readable) (window : h.size ≤ headerWindow)
    (begins : h.writeToBytes <+: file.data) (found : disk.walFile fileId = some file) :
    Memo.Yields (Remembers config disk) (walStart disk fileId) (.start h.stored.numEntriesBefore) := by
  obtain ⟨rest, content⟩ := begins
  have readFirst : file.data.take headerWindow = h.writeToBytes ++ rest.take (headerWindow - h.size) := by
    rw [← content, List.take_append, WalHeader.length_writeToBytes,
      List.take_of_length_le (by rw [WalHeader.length_writeToBytes]; exact window)]
  have nonempty : file.data.isEmpty = false := by
    rw [← content]
    rfl
  have answer : WalStore.getEntriesBefore disk fileId = .ok h.stored.numEntriesBefore := by
    rw [headerWindow] at readFirst
    simp only [WalStore.getEntriesBefore, found, Option.map_some, readWalHeader, nonempty,
      Bool.false_eq_true, if_false, readFirst, headerOrEmpty,
      WalHeader.fromReader_append h readable.addressable readable.guarded, Outcome.ok_bind,
      Outcome.pure_eq_ok]
  unfold walStart
  rw [answer]
  exact Memo.yields_pure _

section

variable (layout : Linked xxh64 config disk a n segment packed)

include layout

theorem Linked.probed
    (locatable : ∀ i, i < n → Locatable disk (a + i) (segment i) (packed i)) (listed : i < n) :
    ∃ start stop, Probed config disk (.ofUbig (a + i)) start stop ∧
      start.toNat = (segment i).first ∧
      (∀ e ∈ stop, e.toNat + 1 = (segment i).first + (segment i).entries.length) ∧
      (stop ≠ none → 0 < (segment i).entries.length) := by
  have complete := layout.complete i listed
  have windows := locatable i listed
  cases inStore : disk.storeAt (a + i) with
  | some file =>
    obtain ⟨wal, storeFile, -⟩ := complete.store file inStore
    have some' : disk.storeAt (a + i) ≠ none := by simp [inStore]
    have positive : 0 < (segment i).entries.length := by
      rw [List.length_pos_iff]
      exact fun empty => some' (layout.headerOnly i listed empty)
    have count := complete.count
    obtain ⟨first, last, range, firstValue, lastValue⟩ :=
      storeFile.readRange (windows.store some') (by omega)
    refine ⟨first, some last, storeRange_yields (by simpa [inStore] using range), ?_, ?_, fun _ => positive⟩
    · rw [firstValue, complete.before]
    · rintro _ ⟨⟩
      rw [lastValue, complete.before]
      omega
  | none =>
    have somewhere := complete.somewhere.resolve_right (by simp [inStore])
    obtain ⟨file, inWal⟩ := Option.ne_none_iff_exists'.mp somewhere
    have absent : rangeOf config (disk.storeAt (UintN.ofUbig (a + i)).toNat) = .ok none := by
      rw [UintN.toNat_ofUbig, inStore]
      rfl
    refine ⟨(segment i).header.stored.numEntriesBefore, none, ⟨storeRange_yields absent, ?_⟩, ?_, ?_,
      fun no => absurd rfl no⟩
    · refine walStart_yields windows.readable (windows.wal inStore) ?_ inWal
      rw [complete.wal file inWal]
      exact List.prefix_append _ _
    · exact (segment i).header.stored_same.2.2
    · rintro _ ⟨⟩

theorem Linked.ends_le {j : Nat} (less : i < j)
    (listed : j < n) : (segment i).first + (segment i).entries.length ≤ (segment j).first := by
  obtain ⟨k, rfl⟩ := Nat.exists_eq_add_of_lt less
  induction k with
  | zero => exact Nat.le_of_eq (layout.following i listed).symm
  | succ k ih =>
    have before := ih (by omega) (by omega)
    have following := layout.following (i + k + 1) (by omega)
    have shape : i + (k + 1) + 1 = i + k + 1 + 1 := by omega
    rw [shape, following]
    omega

theorem Linked.first_le {j : Nat} (before : i ≤ j)
    (listed : j < n) : (segment i).first ≤ (segment j).first := by
  rcases Nat.eq_or_lt_of_le before with rfl | less
  · exact Nat.le_refl _
  · have := layout.ends_le less listed
    omega

end

theorem GapFree.first_lt (layout : GapFree xxh64 config disk a n segment packed) {j : Nat}
    (less : i < j) (listed : j < n) : (segment i).first < (segment j).first := by
  have ends := layout.ends_le less listed
  have positive := List.length_pos_iff.mpr (layout.inhabited i (by omega))
  omega

theorem increment_ofUbig (n : Nat) : (UintN.ofUbig n).increment = .ofUbig (n + 1) := by
  rw [(UintN.canonical_ofUbig n).increment.eq_ofUbig, UintN.toNat_increment, UintN.toNat_ofUbig]

theorem middle_ofUbig (m n : Nat) : (UintN.ofUbig m).middle (.ofUbig n) = .ofUbig ((m + n) / 2) := by
  rw [((UintN.canonical_ofUbig m).middle (UintN.canonical_ofUbig n)).eq_ofUbig, UintN.toNat_middle,
    UintN.toNat_ofUbig, UintN.toNat_ofUbig]

theorem findValidFileBackward_probed
    (probed : Probed config disk fileId start stop) (minFileId : UintN) (fuel : Nat) :
    Memo.Yields (Remembers config disk) ((Prober.ofDisk config disk none).findValidFileBackward minFileId (fuel + 1) fileId)
      (some ⟨fileId, start, stop⟩) := by
  cases stop with
  | some stop => exact Memo.Yields.bind probed (Memo.yields_pure _)
  | none => exact Memo.Yields.bind probed.1 (Memo.Yields.bind probed.2 (Memo.yields_pure _))

structure Covers (segment : Nat → Segment) (target right g : Nat) : Prop where
  listed : g ≤ right
  starts : (segment g).first ≤ target
  last : g = right ∨ target < (segment (g + 1)).first

structure Bounds.Around (b : Bounds) (segment : Nat → Segment) (a target left right : Nat) : Prop where
  leftFile : b.leftFileId = .ofUbig (a + left)
  rightFile : b.rightFileId = .ofUbig (a + right)
  ordered : left ≤ right
  leftKnown : ∀ e ∈ b.leftEnd, e.toNat + 1 = (segment left).first + (segment left).entries.length
  rightKnown : b.rightStart.toNat = (segment right).first
  above : (segment left).first ≤ target
  below : target ≤ (segment right).first

/-- A round answers with a covering file or brings the bounds closer. -/
def RoundGoes (segment : Nat → Segment) (a target left right : Nat) : Round → Prop
  | .found fileId => ∃ g, fileId = .ofUbig (a + g) ∧ Covers segment target right g
  | .narrowed b => ∃ left' right', b.Around segment a target left' right' ∧
      (right' = right ∨ right' < right ∧ target < (segment right').first) ∧ right' - left' < right - left

theorem nextStart_probed
    (probed : Probed config disk fileId start stop) :
    Memo.Yields (Remembers config disk) ((Prober.ofDisk config disk none).nextStart fileId) (some start) := by
  cases stop with
  | some stop => exact Memo.Yields.bind probed (Memo.yields_pure _)
  | none => exact Memo.Yields.bind probed.1 (Memo.Yields.bind probed.2 (Memo.yields_pure _))

section

variable (layout : Linked xxh64 config disk a n segment packed)

include layout

section

variable (locatable : ∀ i, i < n → Locatable disk (a + i) (segment i) (packed i))

include locatable

theorem halve_linked {mid : Nat} (around : b.Around segment a target.toNat left right)
    (listed : right < n) (afterLeft : left < mid) (beforeRight : mid < right) {midStart : UintN}
    {midEnd : Option UintN} (starts : midStart.toNat = (segment mid).first)
    (stops : ∀ e ∈ midEnd, e.toNat + 1 = (segment mid).first + (segment mid).entries.length) :
    ∃ round, Memo.Yields (Remembers config disk)
        ((Prober.ofDisk config disk none).halve target b (.ofUbig (a + mid)) midStart midEnd) round ∧
      RoundGoes segment a target.toNat left right round := by
  have following := layout.following mid (by omega)
  unfold Prober.halve
  by_cases before : target < midStart
  · have less := (UintN.lt_iff _ _).mp before
    rw [if_pos before]
    exact ⟨_, Memo.yields_pure _, left, mid, ⟨around.leftFile, rfl, by omega, around.leftKnown, starts,
      around.above, by omega⟩, .inr ⟨by omega, by omega⟩, by omega⟩
  · rw [if_neg before]
    rw [UintN.lt_iff] at before
    have above : (segment mid).first ≤ target.toNat := by omega
    cases midEnd with
    | some stop =>
      have stopValue := stops stop rfl
      by_cases inside : target ≤ stop
      · simp only [if_pos inside]
        rw [UintN.le_iff] at inside
        exact ⟨_, Memo.yields_pure _, mid, rfl, by omega, above, .inr (by omega)⟩
      · simp only [if_neg inside]
        exact ⟨_, Memo.yields_pure _, mid, right, ⟨rfl, around.rightFile, by omega, stops,
          around.rightKnown, above, around.below⟩, .inl rfl, by omega⟩
    | none =>
      obtain ⟨nextStart', stop, probed, nextValue, -, -⟩ := layout.probed locatable (show mid + 1 < n by omega)
      have next := nextStart_probed probed
      have reached : UintN.ofUbig (a + (mid + 1)) ≤ b.rightFileId := by
        rw [around.rightFile, UintN.le_iff, UintN.toNat_ofUbig, UintN.toNat_ofUbig]
        omega
      have shape : (UintN.ofUbig (a + mid)).increment = .ofUbig (a + (mid + 1)) := increment_ofUbig _
      simp only [shape, if_pos reached]
      by_cases inside : target < nextStart'
      · refine ⟨.found (.ofUbig (a + mid)), Memo.Yields.bind next ?_, ?_⟩
        · simp only [if_pos inside]
          exact Memo.yields_pure _
        · rw [UintN.lt_iff] at inside
          exact ⟨mid, rfl, by omega, above, .inr (by omega)⟩
      · refine ⟨.narrowed { b with leftFileId := .ofUbig (a + mid), leftEnd := none },
          Memo.Yields.bind next ?_, ?_⟩
        · simp only [if_neg inside]
          exact Memo.yields_pure _
        · exact ⟨mid, right, ⟨rfl, around.rightFile, by omega, by rintro _ ⟨⟩, around.rightKnown, above,
            around.below⟩, .inl rfl, by omega⟩

theorem searchRound_linked (around : b.Around segment a target.toNat left right)
    (listed : right < n) :
    ∃ round, Memo.Yields (Remembers config disk) ((Prober.ofDisk config disk none).searchRound target b) round ∧
      RoundGoes segment a target.toNat left right round := by
  have ordered := around.ordered
  have above := around.above
  have below := around.below
  unfold Prober.searchRound
  rw [around.leftFile, around.rightFile, ofUbig_beq, increment_ofUbig, ofUbig_beq, middle_ofUbig]
  by_cases same : left = right
  · subst same
    simp only [decide_true, if_true]
    exact ⟨_, Memo.yields_pure _, left, rfl, Nat.le_refl _, above, .inl rfl⟩
  · rw [if_neg (by simpa using same)]
    by_cases adjacent : left + 1 = right
    · subst adjacent
      have following := layout.following left listed
      rw [if_pos (by simp; omega)]
      have chooses : ∀ inLeft : Prop, [Decidable inLeft] → (inLeft ↔ target.toNat < (segment (left + 1)).first) →
          RoundGoes segment a target.toNat left (left + 1)
            (.found (if inLeft then .ofUbig (a + left) else .ofUbig (a + (left + 1)))) := by
        intro inLeft _ decides
        by_cases first : inLeft
        · rw [if_pos first]
          exact ⟨left, rfl, by omega, above, .inr (decides.mp first)⟩
        · rw [if_neg first]
          exact ⟨left + 1, rfl, Nat.le_refl _, by rw [decides] at first; omega, .inl rfl⟩
      cases known : b.leftEnd with
      | some leftEnd =>
        have stop := around.leftKnown leftEnd known
        exact ⟨_, Memo.yields_pure _, chooses _ (by rw [UintN.le_iff]; omega)⟩
      | none =>
        have start := around.rightKnown
        exact ⟨_, Memo.yields_pure _, chooses _ (by rw [UintN.lt_iff]; omega)⟩
    · rw [if_neg (by simp; omega)]
      have shape : (a + left + (a + right)) / 2 = a + (left + right) / 2 := by omega
      obtain ⟨start, stop, probed, starts, stops, -⟩ :=
        layout.probed locatable (show (left + right) / 2 < n by omega)
      obtain ⟨round, yields, goes⟩ := halve_linked layout locatable around listed
        (show left < (left + right) / 2 by omega) (by omega) starts stops
      refine ⟨round, ?_, goes⟩
      rw [shape]
      cases stop with
      | some stop => exact Memo.Yields.bind probed yields
      | none => exact Memo.Yields.bind probed.1 (Memo.Yields.bind probed.2 yields)

theorem binarySearch_linked (fuel : Nat) (around : b.Around segment a target.toNat left right)
    (listed : right < n) (enough : right - left < fuel) :
    ∃ g, Covers segment target.toNat right g ∧
      Memo.Yields (Remembers config disk) (binarySearch config disk none target fuel b)
        (.file (.ofUbig (a + g))) := by
  induction fuel generalizing b left right with
  | zero => omega
  | succ fuel ih =>
    obtain ⟨round, yields, goes⟩ := searchRound_linked layout locatable around listed
    cases round with
    | found fileId =>
      obtain ⟨g, rfl, covers⟩ := goes
      exact ⟨g, covers, Memo.Yields.bind yields (Memo.yields_pure _)⟩
    | narrowed b =>
      obtain ⟨left', right', around', within, closer⟩ := goes
      obtain ⟨g, covers, later⟩ := ih around' (by omega) (by omega)
      refine ⟨g, ⟨by have := covers.listed; omega, covers.starts, ?_⟩, Memo.Yields.bind yields later⟩
      rcases covers.last with rfl | next
      · rcases within with same | ⟨-, before⟩
        · exact .inl same
        · exact absurd covers.starts (Nat.not_le_of_lt before)
      · exact .inr next

end

end

theorem Probed.range (probed : Probed config disk fileId start stop) :
    Memo.Yields (Remembers config disk) (storeRange config disk fileId) (stop.map (fun stop => (start, stop))) := by
  cases stop with
  | some stop => exact probed
  | none => exact probed.1

theorem Probed.first (probed : Probed config disk fileId start stop) :
    Memo.Yields (Remembers config disk)
      (firstProbe disk none fileId (stop.map (fun stop => (start, stop)))) (some ⟨fileId, start, stop⟩) := by
  cases stop with
  | some stop => exact Memo.yields_pure _
  | none => exact Memo.Yields.bind probed.2 (Memo.yields_pure _)

structure EndsAt (config : StoreConfig) (disk : Disk) (a : Nat) (segment : Nat → Segment) (lastFileId : UintN)
    (last : Nat) : Prop where
  range : ∃ answer, Memo.Yields (Remembers config disk) (storeRange config disk lastFileId) answer
  backward : ∃ start stop, Memo.Yields (Remembers config disk)
      ((Prober.ofDisk config disk none).findValidFileBackward (.ofUbig a) (lastFileId.toNat + 1) lastFileId)
      (some ⟨.ofUbig (a + last), start, stop⟩) ∧
    start.toNat = (segment last).first ∧
    (∀ e ∈ stop, e.toNat + 1 = (segment last).first + (segment last).entries.length) ∧
    (stop ≠ none → 0 < (segment last).entries.length)

section

variable (layout : Linked xxh64 config disk a n segment packed)

include layout

section

variable (locatable : ∀ i, i < n → Locatable disk (a + i) (segment i) (packed i))

include locatable

theorem Linked.endsAt (listed : last < n) :
    EndsAt config disk a segment (.ofUbig (a + last)) last := by
  obtain ⟨start, stop, probed, facts⟩ := layout.probed locatable listed
  exact ⟨⟨_, probed.range⟩, start, stop, findValidFileBackward_probed probed _ _, facts⟩

theorem searchFiles_below {first : Nat}
    {answer : Option EntryRange} (listed : first < n)
    (range : Memo.Yields (Remembers config disk) (storeRange config disk lastFileId) answer)
    (below : target.toNat < (segment first).first) :
    Memo.Yields (Remembers config disk) (searchFiles config disk none target (.ofUbig (a + first)) lastFileId)
      (.file (.ofUbig (a + first))) := by
  obtain ⟨start, stop, probed, starts, -, -⟩ := layout.probed locatable listed
  have before : target < start := by
    rw [UintN.lt_iff]
    omega
  refine probed.range.bind (range.bind (probed.first.bind ?_))
  simp only [before, decide_true, Bool.true_or, if_true]
  exact Memo.yields_pure _

theorem searchFiles_linked
    (ends : EndsAt config disk a segment lastFileId last) (listed : last < n)
    (above : (segment 0).first ≤ target.toNat) :
    ∃ g, Covers segment target.toNat last g ∧
      Memo.Yields (Remembers config disk)
        (searchFiles config disk none target (.ofUbig a) lastFileId) (.file (.ofUbig (a + g))) := by
  obtain ⟨firstStart, firstStop, firstProbed, firstStarts, firstStops, -⟩ :=
    layout.probed locatable (show 0 < n by omega)
  obtain ⟨⟨lastRange, ranged⟩, lastStart, lastStop, backward, lastStarts, lastStops, lastPositive⟩ := ends
  rw [Nat.add_zero] at firstProbed
  suffices goal : ∃ g, Covers segment target.toNat last g ∧
      Memo.Yields (Remembers config disk)
        (if target < firstStart || firstStop.any (fun stop => decide (target ≤ stop)) then
            pure (.file (.ofUbig a))
          else searchAfter config disk none target ⟨.ofUbig a, firstStart, firstStop⟩ lastFileId)
        (.file (.ofUbig (a + g))) by
    obtain ⟨g, covers, yields⟩ := goal
    exact ⟨g, covers, firstProbed.range.bind (ranged.bind (firstProbed.first.bind yields))⟩
  have notBefore : ¬ target < firstStart := by
    rw [UintN.lt_iff]
    omega
  cases inFirst : firstStop.any (fun stop => decide (target ≤ stop)) with
  | true =>
    obtain ⟨stop, known, inside⟩ := (Option.any_eq_true ..).mp inFirst
    have stopValue := firstStops stop known
    have inside := (UintN.le_iff _ _).mp (of_decide_eq_true inside)
    refine ⟨0, ⟨by omega, above, ?_⟩, by simpa using Memo.yields_pure _⟩
    rcases Nat.eq_zero_or_pos last with rfl | more
    · exact .inl rfl
    · have following := layout.following 0 (by omega)
      exact .inr (by omega)
  | false =>
    simp only [notBefore, decide_false, Bool.or_self, Bool.false_eq_true, if_false]
    by_cases afterStart : lastStart < target
    · refine ⟨last, ⟨Nat.le_refl _, ?_, .inl rfl⟩, backward.bind ?_⟩
      · rw [UintN.lt_iff] at afterStart
        omega
      · simp only [searchBetween, if_pos afterStart]
        exact Memo.yields_pure _
    · have below : target.toNat ≤ (segment last).first := by
        rw [UintN.lt_iff] at afterStart
        omega
      have inLast : lastStop.any (fun stop => decide (stop < target)) = false := by
        cases known : lastStop with
        | none => rfl
        | some stop =>
          have stopValue := lastStops stop known
          have positive := lastPositive (by simp [known])
          simp only [Option.any_some, decide_eq_false_iff_not, UintN.lt_iff]
          omega
      have around : Bounds.Around ⟨.ofUbig a, .ofUbig (a + last), firstStop, lastStart⟩ segment a
          target.toNat 0 last :=
        ⟨rfl, rfl, Nat.zero_le _, firstStops, lastStarts, above, below⟩
      obtain ⟨g, covers, yields⟩ := binarySearch_linked layout locatable (last + 1) around listed
        (by omega)
      refine ⟨g, covers, backward.bind ?_⟩
      have distance : (UintN.ofUbig (a + last)).toNat - (UintN.ofUbig a).toNat +
          ((UintN.ofUbig a).toNat - (UintN.ofUbig (a + last)).toNat) = last := by
        rw [UintN.toNat_ofUbig, UintN.toNat_ofUbig]
        omega
      simpa only [searchBetween, if_neg afterStart, inLast, Bool.false_eq_true, if_false, distance]
        using yields

end

end

theorem noneIfNoFiles_some (found : Except PathError UintN) (id : UintN) :
    noneIfNoFiles found = .ok (some id) ↔ found = .ok id := by
  cases found with
  | ok other => simp [noneIfNoFiles]
  | error e => cases e <;> simp [noneIfNoFiles]

theorem listing_ends (extended : IsExtension extension)
    (only : ∀ path ∈ files, ∃ i < n, path = (UintN.ofUbig (a + i)).toFilePath extension) {search : Search}
    {r : Nat → Nat → Prop} (sound : search.Sound r) :
    ∃ answer, noneIfNoFiles (search.find files extension) = .ok answer ∧
      (∀ id ∈ answer, ∃ i < n, id = .ofUbig (a + i)) ∧ (files ≠ [] → answer ≠ none) := by
  have named : ∀ path ∈ files, ∃ id : UintN, path = id.toFilePath extension := by
    intro path member
    obtain ⟨i, -, rfl⟩ := only path member
    exact ⟨_, rfl⟩
  rcases Search.find_cases sound extension named with ⟨id, answer, member⟩ | none'
  · obtain ⟨i, listed, same⟩ := only _ member
    have value := toFilePath_inj same
    rw [UintN.toNat_ofUbig] at value
    refine ⟨some (.ofUbig id.toNat), by rw [answer]; rfl, ?_, fun _ => by simp⟩
    rintro _ ⟨⟩
    exact ⟨i, listed, by rw [value]⟩
  · refine ⟨none, by rw [none']; rfl, by rintro _ ⟨⟩, ?_⟩
    intro nonempty
    exact absurd none' (search.find_total extended nonempty named)

theorem Unhidden.found (unhidden : Unhidden extension files a)
    (extended : IsExtension extension)
    (only : ∀ path ∈ files, ∃ i < n, path = (UintN.ofUbig (a + i)).toFilePath extension) : findMinId files extension = .ok (.ofUbig a) := by
  have named : ∀ path ∈ files, ∃ id : UintN, path = id.toFilePath extension := by
    intro path member
    obtain ⟨i, -, rfl⟩ := only path member
    exact ⟨_, rfl⟩
  have found := Search.find_extreme Search.min_sound extension extended named unhidden.listed
    (fun other member below => by
      obtain ⟨i, -, same⟩ := only _ member
      have value := toFilePath_inj same
      rw [UintN.toNat_ofUbig] at value below ⊢
      omega) unhidden.level
  rw [findMinId, found, UintN.toNat_ofUbig]

/-- A number of at most three digits is not below any directory. -/
theorem unhidden_of_small (extended : IsExtension extension)
    (only : ∀ path ∈ files, ∃ i < n, path = (UintN.ofUbig (a + i)).toFilePath extension)
    (listed : (UintN.ofUbig a).toFilePath extension ∈ files) (small : a < 4096) :
    Unhidden extension files a := by
  have single : ((UintN.ofUbig a).toFilePath extension).length = 1 := by
    rwa [length_toFilePath_eq_one, UintN.toNat_ofUbig]
  refine ⟨listed, ?_⟩
  intro q member head
  obtain ⟨i, -, rfl⟩ := only q member
  obtain ⟨name, same⟩ := List.length_eq_one_iff.mp single
  have dotted := (spells_toFilePath (.ofUbig a) extension).dotted extended (by rw [same]; rfl)
  have dotted' := (spells_toFilePath (.ofUbig (a + i)) extension).dotted extended (head.trans (by rw [same]; rfl))
  rw [single]
  exact dotted'.mp (dotted.mpr single)

theorem some_ofUbig_add_inj (i l : Nat) : some (UintN.ofUbig (a + i)) = some (.ofUbig (a + l)) ↔ i = l := by
  constructor
  · intro same
    have values := congrArg UintN.toNat (Option.some.inj same)
    rw [UintN.toNat_ofUbig, UintN.toNat_ofUbig] at values
    omega
  · rintro rfl
    rfl

/-- A choice between two listed numbers is one of them, and stands to other numbers as either of them does. -/
theorem picked_listed {choose : UintN → UintN → UintN} {rel : Nat → Nat → Prop}
    (picks : ∀ i j, ∃ c, (c = i ∨ c = j) ∧ choose (.ofUbig (a + i)) (.ofUbig (a + j)) = .ofUbig (a + c) ∧
      ∀ k, rel c k ↔ rel i k ∨ rel j k)
    {x y : Option UintN} (xs : ∀ id ∈ x, ∃ i < n, id = .ofUbig (a + i)) (ys : ∀ id ∈ y, ∃ i < n, id = .ofUbig (a + i))
    (some' : x ≠ none ∨ y ≠ none) :
    ∃ i < n, pickOf choose [x, y] = some (.ofUbig (a + i)) ∧
      ∀ k, rel i k ↔ ∃ l, rel l k ∧ (x = some (.ofUbig (a + l)) ∨ y = some (.ofUbig (a + l))) := by
  cases x with
  | none =>
    obtain ⟨y, rfl⟩ := Option.ne_none_iff_exists'.mp (some'.resolve_left (by simp))
    obtain ⟨j, listed, rfl⟩ := ys y rfl
    exact ⟨j, listed, rfl, fun k => by simp only [some_ofUbig_add_inj, reduceCtorEq, false_or, exists_eq_right']⟩
  | some x =>
    obtain ⟨i, xListed, rfl⟩ := xs x rfl
    cases y with
    | none => exact ⟨i, xListed, rfl, fun k => by simp only [some_ofUbig_add_inj, reduceCtorEq, or_false, exists_eq_right']⟩
    | some y =>
      obtain ⟨j, yListed, rfl⟩ := ys y rfl
      obtain ⟨c, either, chosen, stands⟩ := picks i j
      refine ⟨c, by omega, congrArg some chosen, fun k => ?_⟩
      rw [stands]
      simp only [some_ofUbig_add_inj]
      constructor
      · rintro (reaches | reaches)
        · exact ⟨i, reaches, .inl rfl⟩
        · exact ⟨j, reaches, .inr rfl⟩
      · rintro ⟨l, reaches, rfl | rfl⟩
        · exact .inl reaches
        · exact .inr reaches

theorem least_listed {x y : Option UintN} (xs : ∀ id ∈ x, ∃ i < n, id = .ofUbig (a + i))
    (ys : ∀ id ∈ y, ∃ i < n, id = .ofUbig (a + i)) (some' : x ≠ none ∨ y ≠ none) :
    ∃ i < n, leastOf [x, y, none] = some (.ofUbig (a + i)) ∧
      ∀ k, i ≤ k ↔ ∃ l, l ≤ k ∧ (x = some (.ofUbig (a + l)) ∨ y = some (.ofUbig (a + l))) := by
  have two : leastOf [x, y, none] = leastOf [x, y] := by cases x <;> cases y <;> rfl
  rw [two]
  refine picked_listed (fun i j => ?_) xs ys some'
  simp only [UintN.lt_iff, UintN.toNat_ofUbig]
  split
  · exact ⟨j, .inr rfl, rfl, fun k => by omega⟩
  · exact ⟨i, .inl rfl, rfl, fun k => by omega⟩

theorem greatest_listed {x y : Option UintN} (xs : ∀ id ∈ x, ∃ i < n, id = .ofUbig (a + i))
    (ys : ∀ id ∈ y, ∃ i < n, id = .ofUbig (a + i)) (some' : x ≠ none ∨ y ≠ none) :
    ∃ j < n, greatestOf [x, y] = some (.ofUbig (a + j)) ∧
      ∀ k, k ≤ j ↔ ∃ l, k ≤ l ∧ (x = some (.ofUbig (a + l)) ∨ y = some (.ofUbig (a + l))) := by
  refine @picked_listed _ _ _ (fun l k => k ≤ l) (fun i j => ?_) _ _ xs ys some'
  simp only [UintN.lt_iff, UintN.toNat_ofUbig]
  split
  · exact ⟨i, .inl rfl, rfl, fun k => by omega⟩
  · exact ⟨j, .inr rfl, rfl, fun k => by omega⟩

theorem Disk.Has.listed (has : disk.Has m) :
    (UintN.ofUbig m).toFilePath walExtension ∈ disk.wal.map Prod.fst ∨
      (UintN.ofUbig m).toFilePath storeExtension ∈ disk.store.map Prod.fst := by
  refine has.imp ?_ ?_
  · intro inWal
    obtain ⟨file, found⟩ := Option.ne_none_iff_exists'.mp inWal
    exact mem_keys_of_lookup found
  · intro inStore
    obtain ⟨file, found⟩ := Option.ne_none_iff_exists'.mp inStore
    exact mem_keys_of_lookup found

theorem Disk.not_has_iff : ¬ disk.Has m ↔ disk.walAt m = none ∧ disk.storeAt m = none := by
  rw [Disk.Has, not_or, not_ne_iff, not_ne_iff]

theorem Disk.Has.within
    (walOnly : ∀ path ∈ disk.wal.map Prod.fst, ∃ i < n, path = (UintN.ofUbig (a + i)).toFilePath walExtension)
    (storeOnly : ∀ path ∈ disk.store.map Prod.fst, ∃ i < n, path = (UintN.ofUbig (a + i)).toFilePath storeExtension) (has : disk.Has m) : a ≤ m ∧ m < a + n := by
  have named {i : Nat} {extension : Name}
      (same : (UintN.ofUbig m).toFilePath extension = (UintN.ofUbig (a + i)).toFilePath extension) : m = a + i := by
    simpa using toFilePath_inj same
  rcases has.listed with inWal | inStore
  · obtain ⟨i, listed, same⟩ := walOnly _ inWal
    have := named same
    omega
  · obtain ⟨i, listed, same⟩ := storeOnly _ inStore
    have := named same
    omega

theorem Complete.has {s : Segment} {header : StoreHeader} (complete : Complete xxh64 config disk m s header) :
    disk.Has m :=
  complete.somewhere

theorem Linked.listed (layout : Linked xxh64 config disk a n segment packed) (some' : 0 < n) :
    disk.store.map Prod.fst ≠ [] ∨ disk.wal.map Prod.fst ≠ [] :=
  ((layout.complete 0 some').has.listed.imp List.ne_nil_of_mem List.ne_nil_of_mem).symm

theorem firstFound_of_small
    (walOnly : ∀ path ∈ disk.wal.map Prod.fst, ∃ i < n, path = (UintN.ofUbig (a + i)).toFilePath walExtension)
    (storeOnly : ∀ path ∈ disk.store.map Prod.fst, ∃ i < n, path = (UintN.ofUbig (a + i)).toFilePath storeExtension)
    (has : disk.Has a) (small : a < 4096) : FirstFound disk a := by
  refine has.listed.imp ?_ ?_
  · intro inWal
    exact (unhidden_of_small (by decide) walOnly inWal small).found (by decide) walOnly
  · intro inStore
    exact (unhidden_of_small (by decide) storeOnly inStore small).found (by decide) storeOnly

/-- The queues of the program start at file 1, so their first file is always found. -/
theorem Chained.firstFound (layout : Chained xxh64 config disk a n segment packed) (some' : 0 < n)
    (small : a < 4096) : FirstFound disk a :=
  firstFound_of_small layout.walOnly layout.storeOnly (layout.complete 0 some').has small

/-- The search of one of the two stores finds file `a + k` or a later one. -/
def LastFound (disk : Disk) (a k : Nat) : Prop :=
  ∃ l, k ≤ l ∧ (findMaxId (disk.wal.map Prod.fst) walExtension = .ok (.ofUbig (a + l)) ∨
    findMaxId (disk.store.map Prod.fst) storeExtension = .ok (.ofUbig (a + l)))

theorem fileBounds_ends
    (walOnly : ∀ path ∈ disk.wal.map Prod.fst, ∃ i < n, path = (UintN.ofUbig (a + i)).toFilePath walExtension)
    (storeOnly : ∀ path ∈ disk.store.map Prod.fst, ∃ i < n, path = (UintN.ofUbig (a + i)).toFilePath storeExtension)
    (some' : disk.store.map Prod.fst ≠ [] ∨ disk.wal.map Prod.fst ≠ []) :
    ∃ first < n, ∃ last < n, fileBounds disk none = .ok (some (.ofUbig (a + first), .ofUbig (a + last))) ∧
      (∀ k, first ≤ k ↔ ∃ l, l ≤ k ∧ FirstFound disk (a + l)) ∧ ∀ k, k ≤ last ↔ LastFound disk a k := by
  have walNamed : IsExtension walExtension := by decide
  have storeNamed : IsExtension storeExtension := by decide
  obtain ⟨storeFirst, storeFirstIs, storeFirstIn, storeAny⟩ :=
    listing_ends storeNamed storeOnly Search.min_sound
  obtain ⟨walFirst, walFirstIs, walFirstIn, walAny⟩ := listing_ends walNamed walOnly Search.min_sound
  obtain ⟨storeLast, storeLastIs, storeLastIn, storeAnyLast⟩ :=
    listing_ends storeNamed storeOnly Search.max_sound
  obtain ⟨walLast, walLastIs, walLastIn, walAnyLast⟩ := listing_ends walNamed walOnly Search.max_sound
  obtain ⟨first, firstListed, least, isFirst⟩ := least_listed storeFirstIn walFirstIn (some'.imp storeAny walAny)
  obtain ⟨last, lastListed, greatest, isLast⟩ :=
    greatest_listed storeLastIn walLastIn (some'.imp storeAnyLast walAnyLast)
  refine ⟨first, firstListed, last, lastListed, ?_, fun k => ?_, fun k => ?_⟩
  · simp only [fileBounds, PersistStore.getFirstFileId, PersistStore.getLastFileId, WalStore.getFirstFileId,
      WalStore.getLastFileId, findMinId, findMaxId, storeFirstIs, storeLastIs, walFirstIs, walLastIs,
      Except.mapError, bind, Except.bind, pure, Except.pure, Option.bind_none, least, greatest]
  · simp only [isFirst, FirstFound, ← noneIfNoFiles_some, findMinId, walFirstIs, storeFirstIs, Except.ok.injEq]
    simp only [or_comm]
  · simp only [isLast, LastFound, ← noneIfNoFiles_some, findMaxId, walLastIs, storeLastIs, Except.ok.injEq]
    simp only [or_comm]

theorem fileBounds_listed
    (walOnly : ∀ path ∈ disk.wal.map Prod.fst, ∃ i < n, path = (UintN.ofUbig (a + i)).toFilePath walExtension)
    (storeOnly : ∀ path ∈ disk.store.map Prod.fst, ∃ i < n, path = (UintN.ofUbig (a + i)).toFilePath storeExtension)
    (some' : disk.store.map Prod.fst ≠ [] ∨ disk.wal.map Prod.fst ≠ []) :
    ∃ first < n, ∃ last < n, fileBounds disk none = .ok (some (.ofUbig (a + first), .ofUbig (a + last))) ∧
      (first = 0 ↔ FirstFound disk a) ∧ ∀ k, k ≤ last ↔ LastFound disk a k := by
  obtain ⟨first, firstListed, last, lastListed, bounds, isFirst, isLast⟩ := fileBounds_ends walOnly storeOnly some'
  refine ⟨first, firstListed, last, lastListed, bounds, ?_, isLast⟩
  have atZero := isFirst 0
  simpa using atZero

theorem findFile_bounds {firstFileId : UintN} {located : Located}
    (bounds : fileBounds disk none = .ok (some (firstFileId, lastFileId)))
    (yields : Memo.Yields (Remembers config disk)
      (searchFiles config disk none target firstFileId lastFileId) located) :
    Memo.Yields (Remembers config disk) (findFileWithS3 config disk none target) located := by
  have answered : Memo.Yields (Remembers config disk)
      (Memo.ofOutcome (Outcome.ofExcept (fileBounds disk none)) : LookupM _)
      (some (firstFileId, lastFileId)) := Memo.yields_ofOutcome (by rw [bounds]; rfl)
  exact answered.bind yields

theorem findFile_chained (layout : Chained xxh64 config disk a n segment packed)
    (locatable : ∀ i, i < n → Locatable disk (a + i) (segment i) (packed i)) (some' : 0 < n)
    (found : FirstFound disk a) (above : (segment 0).first ≤ target.toNat) :
    ∃ last < n, ∃ g, Covers segment target.toNat last g ∧
      Memo.Yields (Remembers config disk) (findFileWithS3 config disk none target) (.file (.ofUbig (a + g))) := by
  obtain ⟨first, -, last, listed, bounds, isFirst, -⟩ :=
    fileBounds_listed layout.walOnly layout.storeOnly (layout.toLinked.listed some')
  obtain rfl := isFirst.mpr found
  obtain ⟨g, covers, yields⟩ :=
    searchFiles_linked layout.toLinked locatable (layout.toLinked.endsAt locatable listed) listed above
  exact ⟨last, listed, g, covers, findFile_bounds bounds yields⟩

theorem Linked.tail (layout : Linked xxh64 config disk a n segment packed) (f : Nat) :
    Linked xxh64 config disk (a + f) (n - f) (fun i => segment (f + i)) (fun i => packed (f + i)) where
  complete := by
    intro i listed
    rw [Nat.add_assoc]
    exact layout.complete (f + i) (by omega)
  following := fun i listed => layout.following (f + i) (by omega)
  headerOnly := by
    intro i listed empty
    rw [Nat.add_assoc]
    exact layout.headerOnly (f + i) (by omega) empty

/- Wherever the search of the directories begins, an entry from there on leads to a file that does
not start after it. The last file found may even lie before the first one. -/
theorem findFile_from (layout : GapFree xxh64 config disk a n segment packed)
    (locatable : ∀ i, i < n → Locatable disk (a + i) (segment i) (packed i)) {first : Nat}
    (firstListed : first < n) (lastListed : last < n)
    (bounds : fileBounds disk none = .ok (some (.ofUbig (a + first), .ofUbig (a + last))))
    (above : (segment first).first ≤ target.toNat) :
    ∃ g < n, (segment g).first ≤ target.toNat ∧
      Memo.Yields (Remembers config disk) (findFileWithS3 config disk none target) (.file (.ofUbig (a + g))) := by
  by_cases ordered : first ≤ last
  · have located : ∀ i, i < n - first →
        Locatable disk (a + first + i) (segment (first + i)) (packed (first + i)) := by
      intro i listed
      rw [Nat.add_assoc]
      exact locatable (first + i) (by omega)
    have tail := layout.toLinked.tail first
    have ends := tail.endsAt located (show last - first < n - first by omega)
    have shape : a + first + (last - first) = a + last := by omega
    rw [shape] at ends
    obtain ⟨g, covers, yields⟩ := searchFiles_linked tail located ends (by omega) above
    have upTo := covers.listed
    rw [Nat.add_assoc] at yields
    exact ⟨first + g, by omega, covers.starts, findFile_bounds bounds yields⟩
  · obtain ⟨start, stop, probed, starts, -, -⟩ := layout.toLinked.probed locatable firstListed
    obtain ⟨lastStart, lastStop, lastProbed, lastStarts, -, -⟩ := layout.toLinked.probed locatable lastListed
    have earlier := layout.first_lt (show last < first by omega) firstListed
    have notBefore : ¬ target < start := by
      rw [UintN.lt_iff]
      omega
    have behind : lastStart < target := by
      rw [UintN.lt_iff]
      omega
    cases inside : stop.any (fun stop => decide (target ≤ stop)) with
    | true =>
      refine ⟨first, firstListed, above, findFile_bounds bounds
        (probed.range.bind (lastProbed.range.bind (probed.first.bind ?_)))⟩
      simp only [inside, Bool.or_true, if_true]
      exact Memo.yields_pure _
    | false =>
      refine ⟨last, lastListed, by omega, findFile_bounds bounds
        (probed.range.bind (lastProbed.range.bind (probed.first.bind ?_)))⟩
      simp only [inside, notBefore, decide_false, Bool.or_self, Bool.false_eq_true, if_false]
      refine (findValidFileBackward_probed lastProbed _ _).bind ?_
      simp only [searchBetween, if_pos behind]
      exact Memo.yields_pure _

/- A search that misses the first file sends the reader to a file behind the wanted entry. -/
theorem findFile_missed (layout : GapFree xxh64 config disk a n segment packed)
    (locatable : ∀ i, i < n → Locatable disk (a + i) (segment i) (packed i)) (some' : 0 < n)
    (missed : ¬ FirstFound disk a) (below : target.toNat ≤ (segment 0).first) :
    ∃ g < n, target.toNat < (segment g).first ∧
      Memo.Yields (Remembers config disk) (findFileWithS3 config disk none target) (.file (.ofUbig (a + g))) := by
  have linked := layout.toLinked
  obtain ⟨first, firstListed, last, lastListed, bounds, isFirst, -⟩ :=
    fileBounds_listed layout.walOnly layout.storeOnly (linked.listed some')
  have later : 0 < first := Nat.pos_of_ne_zero (fun zero => missed (isFirst.mp zero))
  have starts := layout.first_lt later firstListed
  obtain ⟨_, ranged⟩ := (linked.endsAt locatable lastListed).range
  exact ⟨first, firstListed, by omega, findFile_bounds bounds
    (searchFiles_below linked locatable firstListed ranged (by omega))⟩

end Lookup

end NormFS
