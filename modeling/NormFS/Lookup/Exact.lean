import NormFS.Lookup.GapFree

/-! When the lookup is exact. It answers with the file that holds the wanted entry, with the first
file for an entry before it and with the last readable one for an entry behind, if and only if the
searches of the directories come to both ends of the queue. -/
namespace NormFS

/-- Files `a`, …, `a + n - 1` with entries that continue one another, and where `created` says so
one more in the WAL that does not hold a byte yet. Only the last of all may be without entries. -/
structure Unbroken (xxh64 : Hash) (config : StoreConfig) (disk : Disk) (a n : Nat)
    (segment : Nat → Segment) (packed : Nat → StoreHeader) (created : Bool) : Prop
    extends Linked xxh64 config disk a n segment packed where
  positive : 0 < n
  contiguous : ∀ i, i < n → (segment i).Contiguous
  first : (segment 0).entries ≠ []
  inhabited : ∀ i, i + 1 < n + created.toNat → (segment i).entries ≠ []
  zeroByte : created = true → disk.walAt (a + n) = some .empty ∧ disk.storeAt (a + n) = none
  walOnly : ∀ path ∈ disk.wal.map Prod.fst,
    ∃ i < n + created.toNat, path = (UintN.ofUbig (a + i)).toFilePath walExtension
  storeOnly : ∀ path ∈ disk.store.map Prod.fst,
    ∃ i < n, path = (UintN.ofUbig (a + i)).toFilePath storeExtension

/-- Without a bucket the lookup answers with this file, whatever ranges are remembered. -/
def Finds (config : StoreConfig) (disk : Disk) (target : UintN) (fileId : Nat) : Prop :=
  Memo.Yields (Remembers config disk) (findFileWithS3 config disk none target) (.file (.ofUbig fileId))

structure ExactLookup (config : StoreConfig) (disk : Disk) (a n : Nat) (segment : Nat → Segment) : Prop where
  inside : ∀ (target : UintN) (f : Nat), f < n → (∃ e ∈ (segment f).entries, e.1.toNat = target.toNat) →
    Finds config disk target (a + f)
  before : ∀ target : UintN, (∀ f < n, ∀ e ∈ (segment f).entries, target.toNat < e.1.toNat) →
    Finds config disk target a
  behind : ∀ target : UintN, (∀ f < n, ∀ e ∈ (segment f).entries, e.1.toNat < target.toNat) →
    ∀ f, f + 1 = n → Finds config disk target (a + f)

section Exact

variable {xxh64 : Hash} {config : StoreConfig} {disk : Disk} {a n : Nat}
  {segment : Nat → Segment} {packed : Nat → StoreHeader} {created : Bool}

variable {target : UintN} {f : Nat}

theorem Finds.unique {located : Located} (finds : Finds config disk target f)
    (yields : Memo.Yields (Remembers config disk) (findFileWithS3 config disk none target) located) :
    located = .file (.ofUbig f) :=
  yields.unique finds (RangeCache.agrees_nil _ _)

theorem Finds.inj {g : Nat} (one : Finds config disk target f)
    (other : Finds config disk target g) : f = g := by
  have same := Located.file.inj (other.unique one)
  have values := congrArg UintN.toNat same
  rwa [UintN.toNat_ofUbig, UintN.toNat_ofUbig] at values

theorem Segment.Contiguous.mem_iff {s : Segment} (contiguous : s.Contiguous) (id : Nat) :
    (∃ e ∈ s.entries, e.1.toNat = id) ↔ s.first ≤ id ∧ id < s.first + s.entries.length := by
  rw [← List.mem_range'_1, ← contiguous.ids, List.mem_map]

theorem storeRange_absent {m : Nat} (absent : disk.storeAt m = none) :
    Memo.Yields (Remembers config disk) (storeRange config disk (.ofUbig m)) none := by
  refine storeRange_yields ?_
  rw [UintN.toNat_ofUbig, absent]
  rfl

theorem walStart_empty {m : Nat} (empty : disk.walAt m = some .empty) :
    Memo.Yields (Remembers config disk) (walStart disk (.ofUbig m)) .empty := by
  have answer : WalStore.getEntriesBefore disk (.ofUbig m) = .err (.walEmpty (.ofUbig m)) := by
    have found : disk.walFile (.ofUbig m) = some .empty := empty
    simp only [WalStore.getEntriesBefore, found, Option.map_some]
    rfl
  unfold walStart
  rw [answer]
  exact Memo.yields_pure _

section

variable (layout : Unbroken xxh64 config disk a n segment packed created)

include layout

theorem Unbroken.endsAt_zeroByte
    (locatable : ∀ i, i < n → Locatable disk (a + i) (segment i) (packed i)) (exists' : created = true) :
    EndsAt config disk a segment (.ofUbig (a + n)) (n - 1) := by
  obtain ⟨empty, absent⟩ := layout.zeroByte exists'
  have positive := layout.positive
  obtain ⟨start, stop, probed, facts⟩ := layout.probed locatable (show n - 1 < n by omega)
  refine ⟨⟨none, storeRange_absent absent⟩, start, stop, ?_, facts⟩
  refine (storeRange_absent absent).bind ((walStart_empty empty).bind ?_)
  have above : ¬ UintN.ofUbig (a + n) ≤ UintN.ofUbig a := by
    rw [UintN.le_iff, UintN.toNat_ofUbig, UintN.toNat_ofUbig]
    omega
  have previous : (UintN.ofUbig (a + n)).decrement = .ok (.ofUbig (a + (n - 1))) := by
    have shape : a + n = a + (n - 1) + 1 := by omega
    rw [shape, decrement_ofUbig]
  have fuel : (UintN.ofUbig (a + n)).toNat = a + (n - 1) + 1 := by
    rw [UintN.toNat_ofUbig]
    omega
  simp only [if_neg above, previous, fuel]
  exact findValidFileBackward_probed probed _ _

theorem Unbroken.endsAt
    (locatable : ∀ i, i < n → Locatable disk (a + i) (segment i) (packed i)) {last : Nat}
    (listed : last < n + created.toNat) :
    EndsAt config disk a segment (.ofUbig (a + last)) (min last (n - 1)) := by
  have positive := layout.positive
  by_cases readable : last < n
  · have shape : min last (n - 1) = last := by omega
    rw [shape]
    exact layout.toLinked.endsAt locatable readable
  · have bit := created.toNat_le
    obtain rfl : last = n := by omega
    have shape : min last (last - 1) = last - 1 := by omega
    rw [shape]
    refine layout.endsAt_zeroByte locatable ?_
    cases created with
    | true => rfl
    | false => exact absurd listed readable

theorem Unbroken.bounds :
    ∃ first < n + created.toNat, ∃ last < n + created.toNat,
      fileBounds disk none = .ok (some (.ofUbig (a + first), .ofUbig (a + last))) ∧
      (first = 0 ↔ FirstFound disk a) ∧ ∀ k, k ≤ last ↔ LastFound disk a k := by
  refine fileBounds_listed layout.walOnly ?_ (layout.toLinked.listed layout.positive)
  intro path member
  obtain ⟨i, listed, same⟩ := layout.storeOnly path member
  exact ⟨i, by omega, same⟩

theorem Unbroken.before_first {target : Nat}
    (before : ∀ f < n, ∀ e ∈ (segment f).entries, target < e.1.toNat) : target < (segment 0).first := by
  have some' := List.length_pos_iff.mpr layout.first
  obtain ⟨e, member, value⟩ := ((layout.contiguous 0 layout.positive).mem_iff _).mpr
    ⟨Nat.le_refl _, Nat.lt_add_of_pos_right some'⟩
  rw [← value]
  exact before 0 layout.positive e member

theorem Unbroken.behind_last {target : Nat}
    (behind : ∀ f < n, ∀ e ∈ (segment f).entries, e.1.toNat < target) (last : f + 1 = n) :
    (segment f).first ≤ target := by
  -- the last entry is in this file or in the one before it
  have ended {g : Nat} (listed : g < n) (some' : (segment g).entries ≠ []) :
      (segment g).first + (segment g).entries.length ≤ target := by
    have length := List.length_pos_iff.mpr some'
    obtain ⟨e, member, value⟩ := ((layout.contiguous g listed).mem_iff
      ((segment g).first + (segment g).entries.length - 1)).mpr ⟨by omega, by omega⟩
    have less := behind g listed e member
    omega
  by_cases some' : (segment f).entries = []
  · have later : f ≠ 0 := by
      rintro rfl
      exact layout.first some'
    have following := layout.following (f - 1) (by omega)
    have shape : f - 1 + 1 = f := by omega
    rw [shape] at following
    rw [following]
    exact ended (by omega) (layout.inhabited (f - 1) (by omega))
  · have := ended (show f < n by omega) some'
    omega

section

variable (locatable : ∀ i, i < n → Locatable disk (a + i) (segment i) (packed i))

include locatable

theorem Unbroken.covered (firstFound : FirstFound disk a)
    (lastFound : LastFound disk a (n - 1)) (above : (segment 0).first ≤ target.toNat) :
    ∃ g, Covers segment target.toNat (n - 1) g ∧ Finds config disk target (a + g) := by
  obtain ⟨first, -, last, listed, bounds, isFirst, isLast⟩ := layout.bounds
  obtain rfl := isFirst.mpr firstFound
  have reaches := (isLast (n - 1)).mpr lastFound
  have ends := layout.endsAt locatable listed
  have positive := layout.positive
  rw [Nat.min_eq_right reaches] at ends
  obtain ⟨g, covers, yields⟩ := searchFiles_linked layout.toLinked locatable ends (by omega) above
  exact ⟨g, covers, findFile_bounds bounds yields⟩

theorem Unbroken.exact_of_found (firstFound : FirstFound disk a)
    (lastFound : LastFound disk a (n - 1)) : ExactLookup config disk a n segment where
  inside := by
    intro target f listed within
    obtain ⟨starts, ends⟩ := ((layout.contiguous f listed).mem_iff _).mp within
    have above := layout.toLinked.first_le (Nat.zero_le f) listed
    obtain ⟨g, covers, finds⟩ := layout.covered locatable firstFound lastFound (by omega : _ ≤ target.toNat)
    have upTo := covers.listed
    have begun := covers.starts
    rcases Nat.lt_trichotomy g f with before | rfl | after
    · have next := covers.last.resolve_left (by omega)
      have := layout.toLinked.first_le (show g + 1 ≤ f from before) listed
      omega
    · exact finds
    · have := layout.toLinked.ends_le after (by omega)
      omega
  before := by
    intro target before
    obtain ⟨first, -, last, listed, bounds, isFirst, -⟩ := layout.bounds
    obtain rfl := isFirst.mpr firstFound
    obtain ⟨_, ranged⟩ := (layout.endsAt locatable listed).range
    exact findFile_bounds bounds
      (searchFiles_below layout.toLinked locatable layout.positive ranged (layout.before_first before))
  behind := by
    intro target behind f last
    have starts := layout.behind_last behind last
    have above := layout.toLinked.first_le (Nat.zero_le f) (by omega)
    obtain ⟨g, covers, finds⟩ := layout.covered locatable firstFound lastFound (by omega : _ ≤ target.toNat)
    have upTo := covers.listed
    rcases covers.last with final | next
    · have same : g = f := by omega
      rwa [← same]
    · have same : g = f := by
        by_contra different
        have := layout.toLinked.first_le (show g + 1 ≤ f by omega) (by omega)
        omega
      rwa [← same]

/- A search that misses the first file answers with a later one for the very first entry, or with
nothing when all it finds is the file without a byte. -/
theorem Unbroken.missed_first (missed : ¬ FirstFound disk a) :
    ∃ located, located ≠ .file (.ofUbig a) ∧ Memo.Yields (Remembers config disk)
      (findFileWithS3 config disk none (.ofUbig (segment 0).first)) located := by
  obtain ⟨first, firstListed, last, listed, bounds, isFirst, -⟩ := layout.bounds
  have later : 0 < first := Nat.pos_of_ne_zero (fun zero => missed (isFirst.mp zero))
  obtain ⟨_, ranged⟩ := (layout.endsAt locatable listed).range
  by_cases readable : first < n
  · have some' := List.length_pos_iff.mpr layout.first
    have starts := layout.toLinked.ends_le later readable
    refine ⟨.file (.ofUbig (a + first)), ?_, findFile_bounds bounds
      (searchFiles_below layout.toLinked locatable readable ranged (by rw [UintN.toNat_ofUbig]; omega))⟩
    intro same
    have values := congrArg UintN.toNat (Located.file.inj same)
    rw [UintN.toNat_ofUbig, UintN.toNat_ofUbig] at values
    omega
  · have bit := created.toNat_le
    obtain rfl : first = n := by omega
    have exists' : created = true := by
      cases created with
      | true => rfl
      | false => exact absurd firstListed readable
    obtain ⟨empty, absent⟩ := layout.zeroByte exists'
    refine ⟨.nothing, by rintro ⟨⟩, findFile_bounds bounds ?_⟩
    refine (storeRange_absent absent).bind (ranged.bind ?_)
    have nothing : Memo.Yields (Remembers config disk)
        (firstProbe disk none (.ofUbig (a + first)) none) none :=
      (walStart_empty empty).bind (Memo.yields_pure _)
    exact nothing.bind (Memo.yields_pure _)

end

theorem Unbroken.exact_inside_zero
    (exact' : ExactLookup config disk a n segment) :
    Finds config disk (.ofUbig (segment 0).first) a := by
  have some' := List.length_pos_iff.mpr layout.first
  refine exact'.inside _ 0 layout.positive (((layout.contiguous 0 layout.positive).mem_iff _).mpr ?_)
  rw [UintN.toNat_ofUbig]
  omega

/-- The number at which the last file starts is in that file or behind every entry. -/
theorem Unbroken.exact_last
    (exact' : ExactLookup config disk a n segment) (last : f + 1 = n) :
    Finds config disk (.ofUbig (segment f).first) (a + f) := by
  by_cases some' : (segment f).entries = []
  · refine exact'.behind _ ?_ f last
    intro g listed e member
    have inside := ((layout.contiguous g listed).mem_iff _).mp ⟨e, member, rfl⟩
    have earlier : g < f := by
      by_contra final
      obtain rfl : g = f := by omega
      rw [some'] at member
      cases member
    have ends := layout.toLinked.ends_le earlier (by omega)
    rw [UintN.toNat_ofUbig]
    omega
  · have length := List.length_pos_iff.mpr some'
    refine exact'.inside _ f (by omega) (((layout.contiguous f (by omega)).mem_iff _).mpr ?_)
    rw [UintN.toNat_ofUbig]
    omega

end

/- Exact for every target, if and only if `find_min_id` gives the first file for one of the two
directories and `find_max_id` the last one with a header or a later one. -/
theorem lookup_exact_iff (layout : Unbroken xxh64 config disk a n segment packed created)
    (locatable : ∀ i, i < n → Locatable disk (a + i) (segment i) (packed i)) :
    ExactLookup config disk a n segment ↔ FirstFound disk a ∧ LastFound disk a (n - 1) := by
  constructor
  · intro exact'
    have firstFound : FirstFound disk a := by
      by_contra missed
      obtain ⟨located, wrong, yields⟩ := layout.missed_first locatable missed
      exact wrong ((layout.exact_inside_zero exact').unique yields)
    refine ⟨firstFound, ?_⟩
    obtain ⟨first, -, last, listed, bounds, isFirst, isLast⟩ := layout.bounds
    obtain rfl := isFirst.mpr firstFound
    have positive := layout.positive
    rw [← isLast]
    by_contra short
    have ends := layout.toLinked.endsAt locatable (show last < n by omega)
    have above := layout.toLinked.first_le (Nat.zero_le (n - 1)) (by omega)
    obtain ⟨g, covers, yields⟩ := searchFiles_linked layout.toLinked locatable ends (by omega)
      (show _ ≤ (UintN.ofUbig (segment (n - 1)).first).toNat by rwa [UintN.toNat_ofUbig])
    have right := layout.exact_last exact' (show n - 1 + 1 = n by omega)
    have same := right.inj (findFile_bounds bounds yields)
    have upTo := covers.listed
    omega
  · rintro ⟨firstFound, lastFound⟩
    exact layout.exact_of_found locatable firstFound lastFound

theorem listing_found {extension : Name} (extended : IsExtension extension) {files : List Path} {m k : Nat}
    (only : ∀ path ∈ files, ∃ i < m, path = (UintN.ofUbig (a + i)).toFilePath extension)
    (small : a + m ≤ 2 ^ 24) (listed : (UintN.ofUbig (a + k)).toFilePath extension ∈ files) {search : Search}
    {r : Nat → Nat → Prop} (sound : search.Sound r) :
    ∃ l, search.find files extension = .ok (.ofUbig (a + l)) ∧ r (a + l) (a + k) := by
  have named : ∀ path ∈ files, ∃ id : UintN, path = id.toFilePath extension ∧ id.toNat < 2 ^ 24 := by
    intro path member
    obtain ⟨i, bound, rfl⟩ := only path member
    exact ⟨_, rfl, by rw [UintN.toNat_ofUbig]; omega⟩
  obtain ⟨id, answer, member, wins⟩ := Search.find_spec sound extension extended (List.ne_nil_of_mem listed)
    (fun path member => (named path member).imp fun _ h => h.1) (unshadowed_of_small extension extended named)
  obtain ⟨l, -, same⟩ := only _ member
  have value := toFilePath_inj same
  rw [UintN.toNat_ofUbig, UintN.toNat_ofUbig] at value
  have beats := wins _ listed
  rw [UintN.toNat_ofUbig] at beats
  subst value
  exact ⟨l, answer, beats⟩

theorem Unbroken.found_of_small (layout : Unbroken xxh64 config disk a n segment packed created)
    (small : a + (n + created.toNat) ≤ 2 ^ 24) : FirstFound disk a ∧ LastFound disk a (n - 1) := by
  have positive := layout.positive
  constructor
  · rcases (layout.complete 0 positive).has.listed with inWal | inStore
    · obtain ⟨l, answer, least⟩ := listing_found (by decide) layout.walOnly small inWal Search.min_sound
      obtain rfl : l = 0 := by omega
      exact .inl answer
    · obtain ⟨l, answer, least⟩ := listing_found (by decide) layout.storeOnly (by omega) inStore Search.min_sound
      obtain rfl : l = 0 := by omega
      exact .inr answer
  · rcases (layout.complete (n - 1) (by omega)).has.listed with inWal | inStore
    · obtain ⟨l, answer, greatest⟩ := listing_found (by decide) layout.walOnly small inWal Search.max_sound
      exact ⟨l, by omega, .inl answer⟩
    · obtain ⟨l, answer, greatest⟩ := listing_found (by decide) layout.storeOnly (by omega) inStore Search.max_sound
      exact ⟨l, by omega, .inr answer⟩

theorem GapFree.unbroken (layout : GapFree xxh64 config disk a n segment packed) (positive : 0 < n)
    (first : (segment 0).entries ≠ []) : Unbroken xxh64 config disk a n segment packed false :=
  { layout.toLinked with
    positive, first
    contiguous := layout.contiguous
    inhabited := layout.inhabited
    zeroByte := by rintro ⟨⟩
    walOnly := layout.walOnly
    storeOnly := layout.storeOnly }

end Exact

/-! A row of files with one entry each: the first and the last in the WAL, the others in the store. -/
namespace Sample

def number (k : Nat) : UintN := .u32 (BitVec.ofNat 32 k)

theorem toNat_number {k : Nat} (small : k < 2 ^ 32) : (number k).toNat = k := by
  rw [number, UintN.toNat_u32, BitVec.toNat_ofNat, Nat.mod_eq_of_lt small]

def oneEntry (k : Nat) : Segment := segment (number k) 1

theorem length_walBytes (k : Nat) : (walBytes (number k)).length = 65 := by
  have fits := (contiguous (number k) 1).fits (number k, payload) (by simp [segment])
  have entry := length_entryBytes (fun _ => 0) fits
  have flat : entriesBytes (fun _ => 0) (segment (number k) 1).header (segment (number k) 1).entries =
      entryBytes (fun _ => 0) (segment (number k) 1).header (number k) payload := by
    simp [entriesBytes, segment]
  rw [walBytes, Segment.bytes, List.length_append, WalHeader.length_writeToBytes, flat, entry]
  rfl

def walFile (k : Nat) : Bytes := ⟨walBytes (number k), by rw [length_walBytes]; decide⟩

theorem length_storeBytes (k : Nat) : (storeBytes (number k)).length = 262 := by
  rw [storeBytes, List.length_append, List.length_append, FileAuthentication.length_writeToBytes,
    StoreHeader.length_writeToBytes, length_walBytes]
  rfl

def storedFile (k : Nat) : Bytes := ⟨storeBytes (number k), by rw [length_storeBytes]; decide⟩

def row (a w : Nat) : Disk where
  wal := [((UintN.ofUbig a).toFilePath walExtension, walFile 0),
    ((UintN.ofUbig (a + w + 1)).toFilePath walExtension, walFile (w + 1))]
  store := (List.range' 1 w).map (fun i => ((UintN.ofUbig (a + i)).toFilePath storeExtension, storedFile i))

theorem row_walAt (a w m : Nat) : (row a w).walAt m =
    if m = a then some (walFile 0) else if m = a + w + 1 then some (walFile (w + 1)) else none := by
  simp only [Disk.walAt, Disk.walFile, row, List.lookup_cons, List.lookup_nil, toFilePath_beq]
  by_cases first : m = a
  · simp [first]
  · by_cases last : m = a + w + 1
    · subst last
      simp [first]
    · simp [first, last]

theorem lookup_row (a lo w m : Nat) :
    ((List.range' lo w).map (fun i => ((UintN.ofUbig (a + i)).toFilePath storeExtension, storedFile i))).lookup
      ((UintN.ofUbig m).toFilePath storeExtension) =
      if a + lo ≤ m ∧ m < a + lo + w then some (storedFile (m - a)) else none := by
  induction w generalizing lo with
  | zero =>
    rw [if_neg (by omega)]
    rfl
  | succ w ih =>
    rw [List.range'_succ, List.map_cons, List.lookup_cons, toFilePath_beq, ih]
    by_cases here : m = a + lo
    · subst here
      rw [if_pos (show a + lo ≤ a + lo ∧ a + lo < a + lo + (w + 1) by omega)]
      simp
    · have different : decide (m = a + lo) = false := by simpa using here
      rw [different]
      by_cases later : a + (lo + 1) ≤ m ∧ m < a + (lo + 1) + w
      · rw [if_pos later, if_pos (by omega)]
      · rw [if_neg later, if_neg (by omega)]

theorem row_storeAt (a w m : Nat) : (row a w).storeAt m =
    if a + 1 ≤ m ∧ m < a + 1 + w then some (storedFile (m - a)) else none :=
  lookup_row a 1 w m

theorem row_stored {a w : Nat} {path : Path} (member : path ∈ (row a w).store.map Prod.fst) :
    ∃ i, 1 ≤ i ∧ i ≤ w ∧ path = (UintN.ofUbig (a + i)).toFilePath storeExtension := by
  rw [row, List.map_map] at member
  obtain ⟨i, inside, rfl⟩ := List.mem_map.mp member
  have := List.mem_range'_1.mp inside
  exact ⟨i, by omega, by omega, rfl⟩

theorem oneEntry_first {k : Nat} (small : k < 2 ^ 32) : (oneEntry k).first = k := toNat_number small

theorem row_gapFree (a w : Nat) (small : w + 2 < 2 ^ 32) :
    GapFree (fun _ => 0) config (row a w) a (w + 2) oneEntry (fun i => packed (number i)) where
  complete := by
    intro i listed
    refine ⟨?_, ?_, rfl, rfl, ?_⟩
    · intro file found
      rw [row_walAt] at found
      split at found
      · obtain rfl : i = 0 := by omega
        cases found
        rfl
      · split at found
        · obtain rfl : i = w + 1 := by omega
          cases found
          rfl
        · cases found
    · intro file found
      rw [row_storeAt] at found
      split at found
      · rw [Nat.add_sub_cancel_left] at found
        cases found
        exact ⟨walFile i, storeFile rfl rfl _, rfl⟩
      · cases found
    · rw [row_walAt, row_storeAt]
      by_cases inside : a + 1 ≤ a + i ∧ a + i < a + 1 + w
      · right
        simp [inside]
      · left
        by_cases first : i = 0
        · simp [first]
        · have last : i = w + 1 := by omega
          simp [last]
          omega
  contiguous := fun i _ => contiguous (number i) 1
  following := by
    intro i listed
    rw [oneEntry_first (by omega), oneEntry_first (by omega)]
    rfl
  inhabited := by
    intro i _ empty
    cases empty
  headerOnly := by
    intro i _ empty
    cases empty
  walOnly := by
    intro path member
    rcases (by simpa [row] using member : path = _ ∨ path = _) with rfl | rfl
    · exact ⟨0, by omega, rfl⟩
    · exact ⟨w + 1, by omega, rfl⟩
  storeOnly := by
    intro path member
    obtain ⟨i, -, upper, same⟩ := row_stored member
    exact ⟨i, by omega, same⟩

theorem row_locatable (a w i : Nat) : Locatable (row a w) (a + i) (oneEntry i) (packed (number i)) where
  readable := ⟨show 28 < 2 ^ 63 by decide, show 4 ≤ 10 * 1024 * 1024 by decide⟩
  wal := fun _ => show 36 ≤ 128 by decide
  store := fun _ => show 152 + 45 ≤ 256 by decide

/-- More than sixteen million files: `001/000/000` hides `001/000`, the first file. -/
theorem row_first_missed : ¬ FirstFound (row 0x1000 0xffefff) 0x1000 := by
  rintro (inWal | inStore)
  · exact absurd inWal (by decide +kernel)
  · rcases Search.find_cases Search.min_sound storeExtension (fun path member => by
      obtain ⟨i, -, -, same⟩ := row_stored member
      exact ⟨_, same⟩) with ⟨id, answer, member⟩ | none'
    · obtain ⟨i, positive, -, same⟩ := row_stored member
      have value := toFilePath_inj same
      have first := congrArg UintN.toNat (Except.ok.inj (answer.symm.trans inStore))
      rw [UintN.toNat_ofUbig] at value
      rw [UintN.toNat_ofUbig, UintN.toNat_ofUbig] at first
      omega
    · rw [findMinId, none'] at inStore
      cases inStore

end Sample

open Sample

theorem lookup_passes_first_file :
    ∃ (config : StoreConfig) (disk : Disk) (segment : Nat → Segment) (packed : Nat → StoreHeader),
      Unbroken (fun _ => 0) config disk 0x1000 0xfff001 segment packed false ∧
      (∀ i, i < 0xfff001 → Locatable disk (0x1000 + i) (segment i) (packed i)) ∧
      (∃ e ∈ (segment 0).entries, e.1.toNat = UintN.zero.toNat) ∧
      ∃ g, 0 < g ∧ Finds config disk .zero (0x1000 + g) := by
  have files := row_gapFree 0x1000 0xffefff (by decide)
  have locatable := fun i (_ : i < 0xfff001) => row_locatable 0x1000 0xffefff i
  obtain ⟨g, -, behind, finds⟩ := findFile_missed files locatable (by decide) row_first_missed
    (show UintN.zero.toNat ≤ _ from Nat.zero_le _)
  refine ⟨config, _, _, _, files.unbroken (by decide) (fun empty => by cases empty), locatable,
    ⟨(number 0, payload), List.mem_singleton.mpr rfl, by decide⟩, g, ?_, finds⟩
  rcases Nat.eq_zero_or_pos g with rfl | later
  · exact absurd behind (Nat.not_lt_zero _)
  · exact later

theorem lookup_exact_row :
    Finds Sample.config (row 1 1) (number 1) 2 ∧ Finds Sample.config (row 1 1) (.ofU64 9) 3 := by
  have layout := (row_gapFree 1 1 (by decide)).unbroken (by decide) (fun empty => by cases empty)
  have exact' := (lookup_exact_iff layout (fun i _ => row_locatable 1 1 i)).mpr (layout.found_of_small (by decide))
  refine ⟨exact'.inside (number 1) 1 (by decide) ⟨(number 1, payload), List.mem_singleton.mpr rfl, rfl⟩,
    exact'.behind (.ofU64 9) ?_ 2 rfl⟩
  intro f listed e member
  obtain rfl := List.mem_singleton.mp member
  rw [toNat_number (by omega)]
  exact Nat.lt_of_lt_of_le listed (by decide)

end NormFS
