import NormFS.Lookup.Sparse

/-! The lookup in a queue with holes: file numbers may be missing, and files may be without a byte or
torn at their end. -/
namespace NormFS

/-- A file with more than a name: one in the store, or a WAL file with a byte. -/
def Kept (disk : Disk) (m : Nat) : Prop :=
  disk.storeAt m ≠ none ∨ ∃ file, disk.walAt m = some file ∧ file.data ≠ []

/-- What recovery may leave of the files `0`, …, `n - 1`. Each begins with the entries of its segment;
whatever follows them is torn or damaged. The entries of a file come before those of the files after it. -/
structure Scattered (xxh64 : Hash) (config : StoreConfig) (disk : Disk) (n : Nat)
    (segment : Nat → Segment) (packed : Nat → StoreHeader) : Prop where
  walOnly : ∀ path ∈ disk.wal.map Prod.fst, ∃ i < n, path = (UintN.ofUbig i).toFilePath walExtension
  storeOnly : ∀ path ∈ disk.store.map Prod.fst, ∃ i < n, path = (UintN.ofUbig i).toFilePath storeExtension
  wal : ∀ m file, disk.walAt m = some file → file.data ≠ [] → (segment m).bytes xxh64 <+: file.data
  store : ∀ m file, disk.storeAt m = some file →
    ∃ wal, StoreFile config (.ofUbig m) file wal (packed m) ∧ (segment m).bytes xxh64 <+: wal.data
  counts : ∀ m, disk.storeAt m ≠ none → (packed m).numEntriesBefore.toNat = (segment m).first ∧
    (packed m).numEntries.toNat = (segment m).entries.length
  walLegible : ∀ m file, disk.walAt m = some file → file.data ≠ [] →
    (segment m).header.Readable ∧ (segment m).header.size ≤ headerWindow
  storeLegible : ∀ m, disk.storeAt m ≠ none → FileAuthentication.size + (packed m).size ≤ rangeWindow
  begins : ∀ m, Kept disk m → ∀ e ∈ (segment m).entries, (segment m).first ≤ e.1.toNat
  counted : ∀ m, disk.storeAt m ≠ none → ∀ e ∈ (segment m).entries,
    e.1.toNat < (segment m).first + (segment m).entries.length
  rising : ∀ m k, m < k → Kept disk m → Kept disk k → (segment m).first ≤ (segment k).first
  ordered : ∀ m k, m < k → Kept disk m → Kept disk k →
    ∀ e ∈ (segment m).entries, e.1.toNat < (segment k).first

/-- The sight of every file. A file without entries has no range in the store. -/
def rowOf (disk : Disk) (segment : Nat → Segment) : Row := fun m =>
  if (disk.storeAt m).isSome && !(segment m).entries.isEmpty then
    .packed (segment m).first ((segment m).first + (segment m).entries.length - 1)
  else if (disk.walAt m).any (fun file => !file.data.isEmpty) then .loose (segment m).first
  else .nothing

/-- The first file is the least that `find_min_id` gives for the two directories, the last one the greatest
that `find_max_id` gives. -/
def Outermost (disk : Disk) (first last : Nat) : Prop :=
  (∀ k, first ≤ k ↔ ∃ l, l ≤ k ∧ FirstFound disk l) ∧ ∀ k, k ≤ last ↔ LastFound disk 0 k

section Holes

variable {xxh64 : Hash} {config : StoreConfig} {disk : Disk} {n : Nat}
  {segment : Nat → Segment} {packed : Nat → StoreHeader}

theorem Outermost.unique {first last first' last' : Nat} (one : Outermost disk first last)
    (other : Outermost disk first' last') : first = first' ∧ last = last' := by
  have le := (one.1 first').mpr ((other.1 first').mp (Nat.le_refl _))
  have ge := (other.1 first).mpr ((one.1 first).mp (Nat.le_refl _))
  have le' := (other.2 last).mpr ((one.2 last).mp (Nat.le_refl _))
  have ge' := (one.2 last').mpr ((other.2 last').mp (Nat.le_refl _))
  exact ⟨by omega, by omega⟩

variable {m : Nat}

theorem walStart_absent (absent : disk.walAt m = none) :
    Memo.Yields (Remembers config disk) (walStart disk (.ofUbig m)) .notFound := by
  have answer : WalStore.getEntriesBefore disk (.ofUbig m) = .err .walNotFound := by
    have found : disk.walFile (.ofUbig m) = none := absent
    simp only [WalStore.getEntriesBefore, found, Option.map_none]
    rfl
  unfold walStart
  rw [answer]
  exact Memo.yields_pure _

section

variable (layout : Scattered xxh64 config disk n segment packed)

include layout

theorem Scattered.packed_seen {file : Bytes}
    (stored : disk.storeAt m = some file) (some' : (segment m).entries ≠ []) :
    ∃ start stop, Probed config disk (.ofUbig m) start (some stop) ∧ start.toNat = (segment m).first ∧
      stop.toNat = (segment m).first + (segment m).entries.length - 1 := by
  have here : disk.storeAt m ≠ none := by simp [stored]
  obtain ⟨wal, storeFile, -⟩ := layout.store m file stored
  obtain ⟨before, count⟩ := layout.counts m here
  have positive := List.length_pos_iff.mpr some'
  obtain ⟨first, last, range, firstValue, lastValue⟩ :=
    storeFile.readRange (layout.storeLegible m here) (by omega)
  refine ⟨first, last, storeRange_yields ?_, by omega, by omega⟩
  rw [UintN.toNat_ofUbig, stored]
  exact range

theorem Scattered.unpacked_seen
    (without : ¬ ((disk.storeAt m).isSome && !(segment m).entries.isEmpty) = true) :
    Memo.Yields (Remembers config disk) (storeRange config disk (.ofUbig m)) none := by
  cases stored : disk.storeAt m with
  | none => exact storeRange_absent stored
  | some file =>
    have here : disk.storeAt m ≠ none := by simp [stored]
    have empty : (segment m).entries = [] := by simpa [stored] using without
    obtain ⟨wal, storeFile, -⟩ := layout.store m file stored
    obtain ⟨-, count⟩ := layout.counts m here
    refine storeRange_yields ?_
    rw [UintN.toNat_ofUbig, stored]
    exact storeFile.readRange_empty (layout.storeLegible m here) (by rw [count, empty]; rfl)

theorem Scattered.seen :
    Seen config disk (rowOf disk segment) where
  data := by
    intro m data
    unfold rowOf at data ⊢
    split at data
    · rename_i inStore
      obtain ⟨stored, some'⟩ := (Bool.and_eq_true _ _).mp inStore
      obtain ⟨file, stored⟩ := Option.isSome_iff_exists.mp stored
      obtain ⟨start, stop, probed, starts, stops⟩ := layout.packed_seen stored (by simpa using some')
      refine ⟨start, some stop, probed, ?_⟩
      rw [if_pos inStore, sightOf, starts, stops]
    · rename_i without
      split at data
      · rename_i inWal
        obtain ⟨file, found, nonempty⟩ := (Option.any_eq_true ..).mp inWal
        have nonempty : file.data ≠ [] := by simpa using nonempty
        obtain ⟨readable, window⟩ := layout.walLegible m file found nonempty
        have begins : (segment m).header.writeToBytes <+: file.data :=
          (List.prefix_append _ _).trans (layout.wal m file found nonempty)
        refine ⟨_, none, ⟨layout.unpacked_seen without, walStart_yields readable window begins found⟩, ?_⟩
        rw [if_neg without, if_pos inWal, sightOf, (segment m).header.stored_same.2.2]
        rfl
      · exact absurd rfl data
  hole := by
    intro m hole
    unfold rowOf at hole
    split at hole
    · cases hole
    · rename_i without
      split at hole
      · cases hole
      · rename_i notInWal
        refine ⟨layout.unpacked_seen without, ?_⟩
        cases found : disk.walAt m with
        | none => exact .inl (walStart_absent found)
        | some file =>
          have empty : file.data = [] := by simpa [found] using notInWal
          obtain rfl : file = .empty := Bytes.ext empty
          exact .inr (walStart_empty found)

end

theorem rowOf_start {start : Nat} (seen : (rowOf disk segment m).start = some start) :
    Kept disk m ∧ start = (segment m).first := by
  unfold rowOf at seen
  split at seen
  · rename_i inStore
    cases seen
    refine ⟨.inl ?_, rfl⟩
    intro absent
    simp [absent] at inStore
  · split at seen
    · rename_i inWal
      obtain ⟨file, found, nonempty⟩ := (Option.any_eq_true ..).mp inWal
      cases seen
      exact ⟨.inr ⟨file, found, by simpa using nonempty⟩, rfl⟩
    · cases seen

theorem rowOf_packed {start stop : Nat} (seen : rowOf disk segment m = .packed start stop) :
    disk.storeAt m ≠ none ∧ (segment m).entries ≠ [] ∧ start = (segment m).first ∧
      stop = (segment m).first + (segment m).entries.length - 1 := by
  unfold rowOf at seen
  split at seen
  · rename_i inStore
    cases seen
    obtain ⟨stored, some'⟩ := (Bool.and_eq_true _ _).mp inStore
    exact ⟨by intro absent; simp [absent] at stored, by simpa using some', rfl, rfl⟩
  · split at seen <;> cases seen

/-- The file with an entry divides the files at it. -/
theorem Scattered.divides (layout : Scattered xxh64 config disk n segment packed) {f t : Nat} (kept : Kept disk f)
    (holds : ∃ e ∈ (segment f).entries, e.1.toNat = t) : (rowOf disk segment).Divides f t := by
  obtain ⟨e, member, rfl⟩ := holds
  have begun := layout.begins f kept e member
  refine ⟨?_, ?_, ?_⟩
  · intro m start seen
    obtain ⟨keptM, rfl⟩ := rowOf_start seen
    rcases Nat.lt_trichotomy m f with before | rfl | after
    · have := layout.rising m f before keptM kept
      omega
    · omega
    · have := layout.ordered f m after kept keptM e member
      omega
  · intro m start stop seen
    obtain ⟨-, some', rfl, rfl⟩ := rowOf_packed seen
    have := List.length_pos_iff.mpr some'
    omega
  · intro m start stop seen upTo
    obtain ⟨stored, some', rfl, rfl⟩ := rowOf_packed seen
    have positive := List.length_pos_iff.mpr some'
    rcases Nat.eq_or_lt_of_le upTo with rfl | after
    · have := layout.counted f stored e member
      omega
    · have := layout.ordered f m after kept (.inl stored) e member
      omega

theorem Scattered.outermost (layout : Scattered xxh64 config disk n segment packed) {f : Nat} (kept : Kept disk f) :
    ∃ first last, Outermost disk first last ∧
      fileBounds disk none = .ok (some (.ofUbig first, .ofUbig last)) := by
  have listed : disk.store.map Prod.fst ≠ [] ∨ disk.wal.map Prod.fst ≠ [] := by
    refine kept.imp ?_ ?_
    · intro stored
      obtain ⟨file, found⟩ := Option.ne_none_iff_exists'.mp stored
      exact List.ne_nil_of_mem (mem_keys_of_lookup found)
    · rintro ⟨file, found, -⟩
      exact List.ne_nil_of_mem (mem_keys_of_lookup found)
  obtain ⟨first, -, last, -, bounds, isFirst, isLast⟩ := @fileBounds_ends disk 0 n
    (by simpa only [Nat.zero_add] using layout.walOnly) (by simpa only [Nat.zero_add] using layout.storeOnly) listed
  simp only [Nat.zero_add] at bounds isFirst
  exact ⟨first, last, ⟨isFirst, isLast⟩, bounds⟩

/- The file with the target, or one before it, is found if and only if the first file listed has data and is
not after it, and the search from there does not get stuck behind a WAL file that no file follows. -/
theorem holes_tolerated_iff (layout : Scattered xxh64 config disk n segment packed) {f : Nat} {target : UintN}
    (kept : Kept disk f) (holds : ∃ e ∈ (segment f).entries, e.1.toNat = target.toNat) :
    (∃ g ≤ f, Finds config disk target g) ↔
      ∃ first last, Outermost disk first last ∧ (rowOf disk segment).Reaches f target.toNat first last := by
  obtain ⟨first, last, outermost, bounds⟩ := layout.outermost kept
  have answered : Memo.Yields (Remembers config disk)
      (Memo.ofOutcome (Outcome.ofExcept (fileBounds disk none)) : LookupM _)
      (some (.ofUbig first, .ofUbig last)) := Memo.yields_ofOutcome (by rw [bounds]; rfl)
  have searched := searchFiles_seen layout.seen (layout.divides kept holds) first last
  constructor
  · intro found
    refine ⟨first, last, outermost, ?_⟩
    rcases searched with ⟨reaches, -⟩ | ⟨-, lost⟩
    · exact reaches
    · exact absurd found (Misses.after answered lost).not_found
  · rintro ⟨first', last', other, reaches⟩
    obtain ⟨rfl, rfl⟩ := outermost.unique other
    rcases searched with ⟨-, found⟩ | ⟨misses, -⟩
    · exact FoundUpTo.after answered found
    · exact absurd reaches misses

end Holes

/-! Files of one entry each, entry `m` in file `m`, with others that are missing or without a byte. -/
namespace Sample

def strewn (inWal zeroByte inStore : List Nat) : Disk where
  wal := inWal.map (fun m => ((UintN.ofUbig m).toFilePath walExtension, walFile m)) ++
    zeroByte.map (fun m => ((UintN.ofUbig m).toFilePath walExtension, .empty))
  store := inStore.map (fun m => ((UintN.ofUbig m).toFilePath storeExtension, storedFile m))

variable {inWal zeroByte inStore : List Nat} {n : Nat}

variable {file : Bytes}

theorem strewn_wal {path : Path} (listed : (path, file) ∈ (strewn inWal zeroByte inStore).wal) :
    ∃ m ∈ inWal ++ zeroByte, path = (UintN.ofUbig m).toFilePath walExtension ∧ (file = walFile m ∨ file = .empty) := by
  rcases List.mem_append.mp listed with member | member
  · obtain ⟨m, inside, same⟩ := List.mem_map.mp member
    cases same
    exact ⟨m, List.mem_append_left _ inside, rfl, .inl rfl⟩
  · obtain ⟨m, inside, same⟩ := List.mem_map.mp member
    cases same
    exact ⟨m, List.mem_append_right _ inside, rfl, .inr rfl⟩

theorem strewn_store {path : Path} (listed : (path, file) ∈ (strewn inWal zeroByte inStore).store) :
    ∃ m ∈ inStore, path = (UintN.ofUbig m).toFilePath storeExtension ∧ file = storedFile m := by
  obtain ⟨m, inside, same⟩ := List.mem_map.mp listed
  cases same
  exact ⟨m, inside, rfl, rfl⟩

theorem strewn_walAt {m : Nat} (found : (strewn inWal zeroByte inStore).walAt m = some file) :
    m ∈ inWal ++ zeroByte ∧ (file = walFile m ∨ file = .empty) := by
  obtain ⟨k, inside, same, content⟩ := strewn_wal (mem_of_lookup found)
  have value := toFilePath_inj same
  rw [UintN.toNat_ofUbig, UintN.toNat_ofUbig] at value
  subst value
  exact ⟨inside, content⟩

theorem strewn_storeAt {m : Nat} (found : (strewn inWal zeroByte inStore).storeAt m = some file) :
    m ∈ inStore ∧ file = storedFile m := by
  obtain ⟨k, inside, same, content⟩ := strewn_store (mem_of_lookup found)
  have value := toFilePath_inj same
  rw [UintN.toNat_ofUbig, UintN.toNat_ofUbig] at value
  subst value
  exact ⟨inside, content⟩

theorem strewn_kept {m : Nat} (kept : Kept (strewn inWal zeroByte inStore) m) : m ∈ inWal ++ zeroByte ++ inStore := by
  rcases kept with stored | ⟨file, found, -⟩
  · obtain ⟨file, found⟩ := Option.ne_none_iff_exists'.mp stored
    exact List.mem_append_right _ (strewn_storeAt found).1
  · exact List.mem_append_left _ (strewn_walAt found).1

theorem strewn_scattered (below : ∀ m ∈ inWal ++ zeroByte ++ inStore, m < n) (small : n ≤ 2 ^ 32) :
    Scattered (fun _ => 0) config (strewn inWal zeroByte inStore) n oneEntry (fun m => packed (number m)) := by
  have kept {m : Nat} (kept : Kept (strewn inWal zeroByte inStore) m) : (oneEntry m).first = m := by
    have listed := below m (strewn_kept kept)
    exact oneEntry_first (by omega)
  have only {m : Nat} {e : Entry} (member : e ∈ (oneEntry m).entries) : e.1.toNat = (oneEntry m).first := by
    rw [List.mem_singleton.mp member]
    rfl
  refine ⟨?_, ?_, ?_, ?_, fun m _ => ⟨rfl, rfl⟩, ?_, ?_, ?_, ?_, ?_, ?_⟩
  · intro path member
    obtain ⟨⟨path, file⟩, listed, rfl⟩ := List.mem_map.mp member
    obtain ⟨m, inside, same, -⟩ := strewn_wal listed
    exact ⟨m, below m (List.mem_append_left _ inside), same⟩
  · intro path member
    obtain ⟨⟨path, file⟩, listed, rfl⟩ := List.mem_map.mp member
    obtain ⟨m, inside, same, -⟩ := strewn_store listed
    exact ⟨m, below m (List.mem_append_right _ inside), same⟩
  · intro m file found nonempty
    rcases (strewn_walAt found).2 with rfl | rfl
    · exact List.prefix_rfl
    · exact absurd rfl nonempty
  · intro m file found
    rw [(strewn_storeAt found).2]
    exact ⟨walFile m, storeFile rfl rfl _, List.prefix_rfl⟩
  · intro m _ _ _
    exact ⟨⟨show 28 < 2 ^ 63 by decide, show 4 ≤ 10 * 1024 * 1024 by decide⟩, show 36 ≤ 128 by decide⟩
  · intro m _
    exact show 152 + 45 ≤ 256 by decide
  · intro m _ e member
    exact Nat.le_of_eq (only member).symm
  · intro m _ e member
    rw [only member]
    exact Nat.lt_add_one _
  · intro m k less keptM keptK
    rw [kept keptM, kept keptK]
    exact Nat.le_of_lt less
  · intro m k less keptM keptK e member
    rwa [only member, kept keptM, kept keptK]

/-- File 4 is in the WAL, 0 and 3 are in the store, 2 is without a byte and 1 is missing. -/
def patchwork : Disk := strewn [4] [2] [0, 3]

theorem patchwork_outermost : Outermost patchwork 0 4 := by
  obtain ⟨first, last, outermost, bounds⟩ := (strewn_scattered (n := 5) (by decide) (by decide)).outermost
    (show Kept patchwork 4 from .inr ⟨walFile 4, by decide +kernel, by decide +kernel⟩)
  have computed : fileBounds patchwork none = .ok (some (.ofUbig 0, .ofUbig 4)) := by decide +kernel
  rw [show fileBounds (strewn [4] [2] [0, 3]) none = _ from computed] at bounds
  have same := Option.some.inj (Except.ok.inj bounds)
  have firsts := congrArg (fun ids => ids.1.toNat) same
  have lasts := congrArg (fun ids => ids.2.toNat) same
  simp only [UintN.toNat_ofUbig] at firsts lasts
  subst firsts lasts
  exact outermost

theorem patchwork_passable (t : Nat) : (rowOf patchwork oneEntry).Passable t (0, 4) := by
  have listed {m : Nat} (data : rowOf patchwork oneEntry m ≠ .nothing) : m ∈ [4, 2, 0, 3] := by
    obtain ⟨start, seen⟩ := Option.ne_none_iff_exists'.mp (fun none' => data (Sight.start_eq_none.mp none'))
    exact strewn_kept (rowOf_start seen).1
  have two : rowOf patchwork oneEntry 2 = .nothing := by decide +kernel
  have zero : rowOf patchwork oneEntry 0 = .packed 0 0 := by decide +kernel
  have three : rowOf patchwork oneEntry 3 = .packed 3 3 := by decide +kernel
  refine Row.passable_of_followed (by decide +kernel) ?_
  intro m start loose _ k later
  have last : m = 4 := by
    have inside := listed (show rowOf patchwork oneEntry m ≠ .nothing by rw [loose]; rintro ⟨⟩)
    simp only [List.mem_cons, List.not_mem_nil, or_false] at inside
    rcases inside with rfl | rfl | rfl | rfl
    · rfl
    · rw [two] at loose
      cases loose
    · rw [zero] at loose
      cases loose
    · rw [three] at loose
      cases loose
  by_contra data
  have inside := listed data
  simp only [List.mem_cons, List.not_mem_nil, or_false] at inside
  omega

end Sample

open Sample

/- Files 0, 2 and 4 are in the WAL, 1 and 3 are missing. Entry 2 is in file 2, which the search comes to first;
it asks for file 3 and fails. -/
theorem hole_after_wal_file :
    Scattered (fun _ => 0) Sample.config (strewn [0, 2, 4] [] []) 5 oneEntry (fun m => packed (number m)) ∧
      Kept (strewn [0, 2, 4] [] []) 2 ∧ (∃ e ∈ (oneEntry 2).entries, e.1.toNat = (number 2).toNat) ∧
      findFileWithS3 Sample.config (strewn [0, 2, 4] [] []) none (number 2) [] = .err (.wal .walNotFound) := by
  refine ⟨strewn_scattered (by decide) (by decide), .inr ⟨walFile 2, by decide +kernel, by decide +kernel⟩,
    ⟨_, List.mem_singleton.mpr rfl, rfl⟩, by decide +kernel⟩

theorem patchwork_tolerated : ∃ g ≤ 3, Finds Sample.config patchwork (number 3) g := by
  refine (holes_tolerated_iff (f := 3) (n := 5) (strewn_scattered (by decide) (by decide))
    (.inl (by decide +kernel)) ⟨_, List.mem_singleton.mpr rfl, rfl⟩).mpr
    ⟨0, 4, patchwork_outermost, by decide +kernel, by decide, .inr ⟨4, by decide +kernel, .inr (patchwork_passable _)⟩⟩

end NormFS
