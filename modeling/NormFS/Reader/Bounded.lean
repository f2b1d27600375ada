import NormFS.Lookup.Exact
import NormFS.Reader.Exact
import NormFS.Reader.Walk

/-! Bounded reads are exact if and only if the search of the directories finds the first file. The
other direction needs the reads that go wrong: one that starts behind the wanted entries, and one
that goes from file to file behind the last one and never ends. -/
namespace NormFS

open Stride

section Missed

variable {env : Env} {world : World} {a n lo count : Nat} {segment : Nat → Segment}
  {packed : Nat → StoreHeader} {payload : Nat → Bytes}

theorem GapFree.emptyFrom (files : GapFree env.xxh64 env.config world.disk a n segment packed) :
    world.disk.EmptyFrom (a + n) := by
  intro fileId beyond
  have absent : ¬ world.disk.Has fileId.toNat := by
    intro has
    have within := has.within files.walOnly files.storeOnly
    omega
  rw [Disk.storeFile_eq, Disk.walFile_eq]
  exact (Disk.not_has_iff.mp absent).symm

theorem parse_empty (ctx : ReadContext) (source : DataSource) {s : Segment} {bytes : Bytes}
    {delivered : List ReadEntry} (readable : s.header.Readable) (empty : s.entries = [])
    (content : bytes.data = s.bytes env.xxh64) (stays : ctx.sender = .staying delivered) (world : World)
    (step : Nat) :
    transition env step world (.parseWalBytes ctx bytes source) =
      .next world (.readNextFile ctx.fileId ctx (prefetchFor ctx)) := by
  have widths := readable.widths
  have fits : CanHold s.header s.entries := by
    rw [empty]
    rintro _ ⟨⟩
  have reads := readWalBytesRange_cut env.xxh64 readable.addressable (by omega) (cut_whole env.xxh64 fits)
    content ⟨ctx.nextId, ctx.lastId, ctx.step, source⟩ ctx.sender
  rw [empty, stays] at reads
  simp only [List.map_nil, walk, Sender.isClosed_staying, Bool.false_eq_true, if_false, rangeResult,
    Option.any_none, or_self] at reads
  obtain ⟨fileId, nextId, step', lastId, sender⟩ := ctx
  obtain rfl : sender = _ := stays
  simp only [transition, handleParseWalBytes, Sender.isClosed_staying, Bool.false_eq_true, if_false, reads]

/- The read of the very first entry, when the search misses the file that holds it: memory does not
answer, and the lookup sends the reader to a file `g` behind. -/
theorem Quiescent.missed_arrives (quiescent : Quiescent env world a n segment packed lo count payload)
    (locatable : ∀ i, i < n → Locatable world.disk (a + i) (segment i) (packed i)) (some' : 0 < lo)
    (missed : ¬ FirstFound world.disk a) :
    ∃ g < n, 0 < (segment g).first ∧ ∃ (ranges : RangeCache) (bytes : Bytes) (source : DataSource) (last : UintN),
      ranges.Agrees env.config world.disk.storeAt ∧ bytes.data = (segment g).bytes env.xxh64 ∧
      last.toNat = 0 ∧
      Leads env 1 world (.lookupPositive .zero 1 (.staying [])) { world with ranges := ranges }
        (.parseWalBytes ⟨.ofUbig (a + g), .zero, 1, some last, .staying []⟩ bytes source) := by
  obtain ⟨q, memory, holds⟩ := quiescent.memory
  obtain ⟨f, fListed, lower, -⟩ := quiescent.covered 0 some'
  obtain ⟨g, gListed, behind, yields⟩ := findFile_missed quiescent.files locatable (by omega) missed
    (show UintN.zero.toNat ≤ _ from Nat.zero_le _)

  obtain ⟨last, bound, lastValue⟩ := @boundOf_exact .zero 1 1 (by omega) (by decide)
  have fails := holds.readFull_before (show UintN.zero.toNat < lo from some') last 1 (.staying [])
  have asks : transition env 1 world (.lookupPositive .zero 1 (.staying [])) =
      .next world (.lookupFile .zero (some last) 1 (.staying [])) := by
    simp [transition, handleLookupPositive, fromMemory, memory, bound, fails, MemReadResult.fail]
  obtain ⟨ranges, bytes, source, agrees, content, leads⟩ :=
    quiescent.looks_up gListed yields (some last) 1 1
  exact ⟨g, gListed, behind, ranges, bytes, source, last, agrees, content, lastValue,
    .step asks rfl leads⟩

theorem Quiescent.missed_ends (quiescent : Quiescent env world a n segment packed lo count payload)
    (locatable : ∀ i, i < n → Locatable world.disk (a + i) (segment i) (packed i)) {g : Nat} (listed : g < n)
    (behind : 0 < (segment g).first) (inhabited : (segment g).entries ≠ []) {bytes : Bytes}
    (content : bytes.data = (segment g).bytes env.xxh64) {last : UintN} (lastValue : last.toNat = 0)
    (source : DataSource) (world' : World) :
    Leads env 1 world' (.parseWalBytes ⟨.ofUbig (a + g), .zero, 1, some last, .staying []⟩ bytes source)
      world' (.completed (.staying [])) := by
  have contiguous := quiescent.files.contiguous g listed
  obtain ⟨sent, sentValues, complete, -⟩ := parse_file ⟨.ofUbig (a + g), .zero, 1, some last, .staying []⟩
    source (locatable g listed).readable contiguous content rfl Nat.one_pos (show 1 < 2 ^ 64 by decide)
    world' 1
  have goes := complete inhabited ⟨last.toNat, rfl, by omega⟩
  have none' : wanted 0 1 (some last.toNat) (segment g).read = [] :=
    wanted_past contiguous.read (by omega)
  change _ = (wanted 0 1 (some last.toNat) (segment g).read).map valueOf at sentValues
  rw [none', List.map_nil, List.map_eq_nil_iff] at sentValues
  rw [sentValues] at goes
  exact .step goes rfl (.refl ..)

theorem expected_zero (positive : 0 < count) : expected 0 1 1 count payload = [(0, payload 0)] := by
  obtain ⟨k, rfl⟩ := Nat.exists_eq_add_of_lt positive
  have rest : (List.range' 1 k).filter (hit 0 1 (some 0)) = [] := picks_above Nat.one_pos
  rw [expected_eq Nat.one_pos Nat.one_pos, selection, picks, Nat.zero_add, List.range'_succ]
  simp only [Nat.sub_self, Nat.zero_mul, Nat.zero_add, List.filter_cons, rest]
  rfl

theorem Quiescent.missed_read (quiescent : Quiescent env world a n segment packed lo count payload)
    (locatable : ∀ i, i < n → Locatable world.disk (a + i) (segment i) (packed i)) (some' : 0 < lo)
    (missed : ¬ FirstFound world.disk a) :
    ¬ Completes env 1 world (.lookupPositive .zero 1 (.staying [])) (expected 0 1 1 count payload) := by
  obtain ⟨g, listed, behind, ranges, bytes, source, last, agrees, content, lastValue, arrives⟩ :=
    quiescent.missed_arrives locatable some' missed
  rintro ⟨world', sender, ends, values⟩
  have later := arrives.rest ends rfl
  by_cases empty : (segment g).entries = []
  · -- The file has no entries, so it is the last one, and the reader walks on behind it.
    have final : g + 1 = n := by
      by_contra notLast
      exact quiescent.files.inhabited g (by omega) empty
    let ctx : ReadContext := ⟨.ofUbig (a + g), .zero, 1, some last, .staying []⟩
    have noTask : prefetchFor ctx = none := by
      simp [prefetchFor, ctx, UintN.lt_iff, lastValue]
    have goes := parse_empty ctx source (locatable g listed).readable empty content rfl
      { world with ranges := ranges } 1
    rw [noTask] at goes
    have quiet := quiescent.withRanges agrees
    obtain ⟨q, memory, holds⟩ := quiet.memory
    have lost : Lost { world with ranges := ranges } (a + n) (.readNextFile ctx.fileId ctx none) := by
      refine ⟨?_, .bounded memory (holds.refuses some') rfl rfl, by rintro _ ⟨⟩⟩
      simp only [ctx, UintN.toNat_ofUbig]
      omega
    have walks := (Leads.step goes rfl (.refl ..)).rest later rfl
    refine walks.never (fun _ => Lost.running) (fun _ => ?_) lost
    exact lost_step quiet.cloud quiet.files.emptyFrom 1
  · obtain ⟨q, -, holds⟩ := quiescent.memory
    have upTo := holds.upTo
    have same := (quiescent.missed_ends locatable listed behind empty content lastValue source _).unique later
      rfl rfl
    cases same
    rw [expected_zero (by omega)] at values
    cases values

/-- What the reader hands over before it ends without an error. -/
def Delivers (env : Env) (world : World) (position : ReadPosition) (limit step : Nat)
    (values : List (Nat × Bytes)) : Prop :=
  ∃ fuel world' sender, read env position limit step world (.staying []) fuel = .next world' (.completed sender) ∧
    sender.delivered.map (fun e => (e.id.toNat, e.data)) = values

theorem delivers_iff {position : ReadPosition} {limit step : Nat} {values : List (Nat × Bytes)} :
    Delivers env world position limit step values ↔
      Completes env step world (initialState position limit (.staying [])) values := by
  constructor
  · rintro ⟨fuel, world', sender, ends, delivered⟩
    exact ⟨world', sender, ⟨fuel, ends⟩, delivered⟩
  · rintro ⟨world', sender, ⟨fuel, ends⟩, delivered⟩
    exact ⟨fuel, world', sender, ends, delivered⟩

/- Every bounded read of a quiet queue delivers exactly the wanted entries that exist, provided that
memory holds them all or the search of a directory finds the first file; and otherwise not every
read does. -/
theorem bounded_reads_exact_iff (quiescent : Quiescent env world a n segment packed lo count payload)
    (locatable : ∀ i, i < n → Locatable world.disk (a + i) (segment i) (packed i)) :
    (∀ limit step : Nat, 0 < limit → limit < 2 ^ 64 → 0 < step → step < 2 ^ 64 →
      (limit - 1) * step < 2 ^ 64 →
      (∀ start : UintN, Delivers env world (.absolute start) limit step
        (expected start.toNat limit step count payload)) ∧
      (∀ offset : UintN, Delivers env world (.shiftFromTail offset) limit step
        (expected (count - 1 - offset.toNat) limit step count payload))) ↔
    lo = 0 ∨ FirstFound world.disk a := by
  constructor
  · intro exact'
    by_contra neither
    obtain ⟨some', missed⟩ := not_or.mp neither
    have first := (exact' 1 1 (by decide) (by decide) (by decide) (by decide) (by decide)).1 .zero
    exact quiescent.missed_read locatable (Nat.pos_of_ne_zero some') missed (delivers_iff.mp first)
  · intro found limit step positive _ steps word reach
    exact ⟨fun start => delivers_iff.mpr
        (quiescent.absolute_completes locatable found start positive steps word reach),
      fun offset => delivers_iff.mpr
        (quiescent.negative_completes locatable found offset positive steps word reach)⟩

end Missed

/-! The row of files, with the newest entries in memory. -/
namespace Sample

def env : Env := ⟨fun _ => 0, config⟩

def newest (lo count : Nat) : MemQueue where
  entries := (List.range' lo (count - lo)).map (fun k => (number k, payload))
  lastId := some (number (count - 1))
  firstId := if lo < count then some (number lo) else none
  lastAckedId := none
  memoryUsage := 0
  maxMemoryUsage := 0
  subscribers := []
  nextSubscriberId := 0

def world (a w lo : Nat) : World := ⟨row a w, [], some (newest lo (w + 2)), none⟩

theorem newest_holds {lo count : Nat} (within : lo ≤ count) (some' : 0 < count) (small : count < 2 ^ 32) :
    (newest lo count).Holds lo count (fun _ => payload) where
  numbered := by
    rw [Numbered, newest, List.map_map, List.length_map, List.length_range']
    have same : ∀ k ∈ List.range' lo (count - lo), (number k).toNat = k := by
      intro k member
      have := List.mem_range'_1.mp member
      exact toNat_number (by omega)
    exact (List.map_congr_left same).trans (List.map_id _)
  upTo := by
    simp only [newest, List.length_map, List.length_range']
    omega
  stored := by
    intro e member
    obtain ⟨k, -, rfl⟩ := List.mem_map.mp member
    rfl
  firstId := by
    unfold newest
    by_cases less : lo < count
    · obtain ⟨d, rfl⟩ := Nat.exists_eq_add_of_lt less
      have shape : lo + d + 1 - lo = d + 1 := by omega
      rw [if_pos less, shape]
      rfl
    · have none' : count - lo = 0 := by omega
      simp [less, none']
  lastId := by
    rw [if_neg (by omega), newest, Option.map_some, toNat_number (by omega)]

theorem row_quiescent (a w lo : Nat) (within : lo ≤ w + 2) (small : w + 2 < 2 ^ 32) :
    Quiescent env (world a w lo) a (w + 2) oneEntry (fun i => packed (number i)) lo (w + 2)
      (fun _ => payload) where
  files := row_gapFree a w small
  memory := ⟨_, rfl, newest_holds within (by omega) small⟩
  stored := by
    intro i _ e member
    obtain rfl := List.mem_singleton.mp member
    rfl
  present := by
    intro i listed e member
    obtain rfl := List.mem_singleton.mp member
    simp only [toNat_number (show i < 2 ^ 32 by omega)]
    exact listed
  covered := by
    intro k before
    refine ⟨k, by omega, ?_⟩
    rw [oneEntry_first (by omega)]
    exact ⟨Nat.le_refl _, Nat.lt_succ_self _⟩
  cloud := rfl
  ranges := RangeCache.agrees_nil _ _

end Sample

open Sample

/- More than sixteen million files: `001/000/000` hides `001/000`, the file with the first entry. -/
theorem hidden_first_file :
    ∃ (env : Env) (world : World) (segment : Nat → Segment) (packed : Nat → StoreHeader) (payload : Nat → Bytes),
      Quiescent env world 0x1000 0xfff001 segment packed 0xfff001 0xfff001 payload ∧
      (∀ i, i < 0xfff001 → Locatable world.disk (0x1000 + i) (segment i) (packed i)) ∧
      expected 0 1 1 0xfff001 payload = [(0, payload 0)] ∧
      Delivers env world (.absolute .zero) 1 1 [] := by
  have quiescent := row_quiescent 0x1000 0xffefff 0xfff001 (by decide) (by decide)
  have locatable := fun i (_ : i < 0xfff001) => row_locatable 0x1000 0xffefff i
  obtain ⟨g, listed, behind, ranges, bytes, source, last, agrees, content, lastValue, arrives⟩ :=
    quiescent.missed_arrives locatable (by decide) row_first_missed
  have ends := quiescent.missed_ends locatable listed behind (fun empty => by cases empty) content lastValue
    source { Sample.world 0x1000 0xffefff 0xfff001 with ranges := ranges }
  exact ⟨Sample.env, _, _, _, _, quiescent, locatable, expected_zero (by decide),
    delivers_iff.mpr ⟨_, _, arrives.trans ends, rfl⟩⟩

theorem bounded_reads_exact_row :
    Delivers Sample.env (Sample.world 1 1 2) (.shiftFromTail (.ofU64 9)) 3 2
      [(0, Sample.payload), (2, Sample.payload)] := by
  have found : FirstFound (Sample.world 1 1 2).disk 1 :=
    (row_gapFree 1 1 (by decide)).firstFound (by decide) (by decide)
  have reads := ((bounded_reads_exact_iff (row_quiescent 1 1 2 (by decide) (by decide))
    (fun i _ => row_locatable 1 1 i)).mpr (.inr found) 3 2 (by decide) (by decide) (by decide) (by decide)
      (by decide)).2 (.ofU64 9)
  exact reads

end NormFS
