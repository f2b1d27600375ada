import NormFS.Lookup.GapFree
import NormFS.Mem.Reads
import NormFS.Reader.Walk

/-! Bounded reads of a queue that nobody writes to. The read goes through memory, the lookup, one
file after the other and memory again; a cursor says at each of these points what is still to come. -/
namespace NormFS

open Stride

section Runs

variable {env : Env} {s : Nat}

variable {state state' state₁ state₂ : ReaderState} {world world' world₁ world₂ : World}

theorem run_terminal (terminal : state.isTerminal = true) (n : Nat) (world : World) :
    run env s n world state = .next world state := by
  cases n with
  | zero => rfl
  | succ n => rw [run_succ, terminal, if_pos rfl]

theorem run_add (env : Env) (s n k : Nat) (world : World) (state : ReaderState) :
    run env s (n + k) world state = match run env s n world state with
      | .next world' state' => run env s k world' state'
      | other => other := by
  induction n generalizing world state with
  | zero => rw [Nat.zero_add]; rfl
  | succ n ih =>
    rw [Nat.succ_add, run_succ, run_succ]
    cases terminal : state.isTerminal with
    | true => simp only [if_true, run_terminal terminal]
    | false =>
      simp only [Bool.false_eq_true, if_false]
      cases transition env s world state with
      | next world' state' => exact ih world' state'
      | error e => rfl
      | panic => rfl
      | hang => rfl

/-- The loop goes from one state to another. -/
def Leads (env : Env) (s : Nat) (world : World) (state : ReaderState) (world' : World)
    (state' : ReaderState) : Prop :=
  ∃ n, run env s n world state = .next world' state'

theorem Leads.refl (env : Env) (s : Nat) (world : World) (state : ReaderState) :
    Leads env s world state world state := ⟨0, rfl⟩

theorem Leads.step {world'' : World} {state'' : ReaderState}
    (goes : transition env s world state = .next world' state') (running : state.isTerminal = false)
    (later : Leads env s world' state' world'' state'') : Leads env s world state world'' state'' := by
  obtain ⟨n, run'⟩ := later
  refine ⟨n + 1, ?_⟩
  rw [run_succ, running, goes]
  exact run'

theorem Leads.trans
    (one : Leads env s world state world₁ state₁) (other : Leads env s world₁ state₁ world₂ state₂) :
    Leads env s world state world₂ state₂ := by
  obtain ⟨n, first⟩ := one
  obtain ⟨k, second⟩ := other
  refine ⟨n + k, ?_⟩
  rw [run_add, first]
  exact second

theorem Leads.never {lost : ReaderState → Prop}
    (unfinished : ∀ state, lost state → state.isTerminal = false)
    (stays : ∀ state, lost state → ∃ state', transition env s world state = .next world state' ∧ lost state')
    (inside : lost state)
    (leads : Leads env s world state world' state') : lost state' := by
  obtain ⟨n, reached⟩ := leads
  induction n generalizing state with
  | zero =>
    cases reached
    exact inside
  | succ n ih =>
    obtain ⟨state'', goes, still⟩ := stays state inside
    rw [run_succ, unfinished state inside, goes] at reached
    exact ih still reached

section

variable (one : Leads env s world state world₁ state₁)

include one

theorem Leads.run_rest {fuel : Nat}
    (ends : run env s fuel world state = .next world₂ state₂) (final : state₂.isTerminal = true) :
    run env s fuel world₁ state₁ = .next world₂ state₂ := by
  obtain ⟨n, first⟩ := one
  have together := run_add env s n fuel world state
  have again := run_add env s fuel n world state
  rw [first] at together
  rw [ends, Nat.add_comm, together] at again
  simp only [run_terminal final] at again
  exact again

theorem Leads.rest (other : Leads env s world state world₂ state₂)
    (final : state₂.isTerminal = true) : Leads env s world₁ state₁ world₂ state₂ := by
  obtain ⟨k, ends⟩ := other
  exact ⟨k, one.run_rest ends final⟩

theorem Leads.unique (other : Leads env s world state world₂ state₂)
    (final₁ : state₁.isTerminal = true) (final₂ : state₂.isTerminal = true) :
    (world₁, state₁) = (world₂, state₂) := by
  obtain ⟨k, same⟩ := one.rest other final₂
  rw [run_terminal final₁] at same
  cases same
  rfl

end

/-- The read ends without an error, with these entries delivered. -/
def Completes (env : Env) (s : Nat) (world : World) (state : ReaderState) (values : List (Nat × Bytes)) :
    Prop :=
  ∃ world' sender, Leads env s world state world' (.completed sender) ∧
    sender.delivered.map (fun e => (e.id.toNat, e.data)) = values

theorem Completes.after {values : List (Nat × Bytes)}
    (leads : Leads env s world state world' state') (later : Completes env s world' state' values) :
    Completes env s world state values := by
  obtain ⟨last, sender, ends, delivered⟩ := later
  exact ⟨last, sender, leads.trans ends, delivered⟩

theorem Completes.step
    {values : List (Nat × Bytes)} (goes : transition env s world state = .next world' state')
    (running : state.isTerminal = false) (later : Completes env s world' state' values) :
    Completes env s world state values :=
  later.after ((Leads.refl ..).step goes running)

end Runs

/-- Local files without gaps, the newest entries in memory, no bucket, and every entry in memory or
in a file. -/
structure Quiescent (env : Env) (world : World) (a n : Nat) (segment : Nat → Segment)
    (packed : Nat → StoreHeader) (lo count : Nat) (payload : Nat → Bytes) : Prop where
  files : GapFree env.xxh64 env.config world.disk a n segment packed
  memory : ∃ q, world.mem = some q ∧ q.Holds lo count payload
  stored : ∀ i, i < n → ∀ e ∈ (segment i).entries, e.2 = payload e.1.toNat
  present : ∀ i, i < n → ∀ e ∈ (segment i).entries, e.1.toNat < count
  covered : ∀ k, k < lo →
    ∃ i < n, (segment i).first ≤ k ∧ k < (segment i).first + (segment i).entries.length
  cloud : world.cloud = none
  ranges : world.ranges.Agrees env.config world.disk.storeAt

/-- What a read from `start` is to deliver. -/
def expected (start limit step count : Nat) (payload : Nat → Bytes) : List (Nat × Bytes) :=
  ((List.range count).filter (fun n => decide (∃ k < limit, n = start + k * step))).map
    (fun n => (n, payload n))

def selection (start step : Nat) (last : Option Nat) (count : Nat) (payload : Nat → Bytes) : List (Nat × Bytes) :=
  (picks start step last 0 count).map (fun n => (n, payload n))

theorem expected_eq {start limit step count : Nat} {payload : Nat → Bytes} (steps : 0 < step)
    (positive : 0 < limit) : expected start limit step count payload =
      selection start step (some (start + (limit - 1) * step)) count payload := by
  unfold expected selection picks
  rw [List.range_eq_range']
  congr 1
  apply List.filter_congr
  intro n _
  rw [Bool.eq_iff_iff, decide_eq_true_iff, hit_limit steps positive]

def Segment.read (s : Segment) : List Entry := s.entries.map (storedEntry s.header)

theorem Segment.Contiguous.read {s : Segment} (contiguous : s.Contiguous) : Numbered s.first s.read :=
  Numbered.congr (stored_value contiguous.fits).symm contiguous.ids

theorem Segment.read_stored {s : Segment} (contiguous : s.Contiguous) {payload : Nat → Bytes}
    (stored : ∀ e ∈ s.entries, e.2 = payload e.1.toNat) : ∀ e ∈ s.read, e.2 = payload e.1.toNat := by
  intro e member
  obtain ⟨e, among, rfl⟩ := List.mem_map.mp member
  have fit := (WalHeader.canHoldEntry_iff _ _ _).mp (contiguous.fits e among)
  rw [storedEntry, UintN.toNat_stored _ fit.1, stored e among]

/-- A local file is read without a look at its signatures. -/
theorem extractWalBytes_unverified {config : StoreConfig} {fileId : UintN} {content wal : Bytes} {verify : Bool}
    (extracted : extractWalBytes config fileId content verify = .ok wal) :
    extractWalBytes config fileId content false = .ok wal := by
  cases verify with
  | false => exact extracted
  | true =>
    simp only [extractWalBytes, Outcome.bind_eq_ok] at extracted
    obtain ⟨auth, authRead, header, headerRead, rest⟩ := extracted
    split at rest
    · cases rest
    · simp only [extractWalBytes, authRead, headerRead, Outcome.ok_bind, Bool.false_and, Bool.false_eq_true,
        if_false]
      exact rest

section Reader

variable {env : Env} {world : World} {a n lo count : Nat} {segment : Nat → Segment}
  {packed : Nat → StoreHeader} {payload : Nat → Bytes}

theorem Quiescent.withRanges (quiescent : Quiescent env world a n segment packed lo count payload)
    {ranges : RangeCache} (agrees : ranges.Agrees env.config world.disk.storeAt) :
    Quiescent env { world with ranges := ranges } a n segment packed lo count payload :=
  ⟨quiescent.files, quiescent.memory, quiescent.stored, quiescent.present, quiescent.covered,
    quiescent.cloud, agrees⟩

variable {i step : Nat} {bytes : Bytes} {delivered : List ReadEntry} {start : UintN}
  {ctx : ReadContext}

/- The bytes of a file come to the parser on two ways, with and without the task that reads ahead. -/
theorem Quiescent.fetched (quiescent : Quiescent env world a n segment packed lo count payload)
    (listed : i < n) :
    ∃ (bytes : Bytes) (source : DataSource), bytes.data = (segment i).bytes env.xxh64 ∧
      prefetchNextFile env world (.ofUbig (a + i)) = .ok (some (bytes, source)) ∧
      ∀ (step : Nat) (ctx : ReadContext),
        ctx.fileId = .ofUbig (a + i) → ctx.sender.isClosed = false →
        Leads env step world (.readFile ctx) world (.parseWalBytes ctx bytes source) := by
  have complete := quiescent.files.complete i listed
  cases inStore : world.disk.storeFile (.ofUbig (a + i)) with
  | some file =>
    obtain ⟨wal, storeFile, content⟩ := complete.store file inStore
    have extracted := extractWalBytes_unverified storeFile.extracted
    refine ⟨wal, .diskStore, content, ?_, ?_⟩
    · simp only [prefetchNextFile, PersistStore.getStoreBytes, inStore, extracted]
    · intro step ctx here opened
      have opens : transition env step world (.readFile ctx) = .next world (.readStore ctx) := by
        simp [transition, handleReadFile, opened]
      have gets : transition env step world (.readStore ctx) =
          .next world (.extractWalBytes ctx file .diskStore) := by
        simp [transition, handleReadStore, opened, here, PersistStore.getStoreBytes, inStore]
      have unsigned : (DataSource.diskStore == DataSource.cloud) = false := rfl
      have unpacks : transition env step world (.extractWalBytes ctx file .diskStore) =
          .next world (.parseWalBytes ctx wal .diskStore) := by
        simp [transition, handleExtractWalBytes, opened, here, unsigned, extracted]
      exact .step opens rfl (.step gets rfl (.step unpacks rfl (.refl ..)))
  | none =>
    obtain ⟨file, inWal⟩ := Option.ne_none_iff_exists'.mp (complete.somewhere.resolve_right (fun no => no inStore))
    have found : world.disk.walFile (.ofUbig (a + i)) = some file := inWal
    refine ⟨file, .diskWal, complete.wal file inWal, ?_, ?_⟩
    · simp only [prefetchNextFile, PersistStore.getStoreBytes, inStore, WalStore.getWalBytes, found]
    · intro step ctx here opened
      have opens : transition env step world (.readFile ctx) = .next world (.readStore ctx) := by
        simp [transition, handleReadFile, opened]
      have misses : transition env step world (.readStore ctx) = .next world (.readWal ctx) := by
        simp [transition, handleReadStore, opened, here, PersistStore.getStoreBytes, inStore]
      have gets : transition env step world (.readWal ctx) = .next world (.parseWalBytes ctx file .diskWal) := by
        simp [transition, handleReadWal, opened, here, WalStore.getWalBytes, found]
      exact .step opens rfl (.step misses rfl (.step gets rfl (.refl ..)))

def ReadContext.last (ctx : ReadContext) : Option Nat := ctx.lastId.map UintN.toNat

/- What parsing a file does to a read: it ends it, or it goes to the next file. -/
theorem parse_file (ctx : ReadContext) (source : DataSource) {s : Segment} (readable : s.header.Readable) (contiguous : s.Contiguous)
    (content : bytes.data = s.bytes env.xxh64) (stays : ctx.sender = .staying delivered)
    (steps : 0 < ctx.step) (word : ctx.step < 2 ^ 64) (world : World) (step : Nat) :
    ∃ more : List ReadEntry, more.map (fun e => (e.id.toNat, e.data)) =
        (wanted ctx.nextId.toNat ctx.step ctx.last s.read).map valueOf ∧
      (s.entries ≠ [] → (∃ l ∈ ctx.last, l < s.first + s.entries.length) →
        transition env step world (.parseWalBytes ctx bytes source) =
          .next world (.completed (.staying (delivered ++ more)))) ∧
      ((∀ l ∈ ctx.last, s.first + s.entries.length ≤ l) →
        ∃ next : UintN, transition env step world (.parseWalBytes ctx bytes source) =
            .next world (.readNextFile ctx.fileId
              { ctx with nextId := next, sender := .staying (delivered ++ more) } (prefetchFor ctx)) ∧
          next.toNat =
            nextAfter ctx.nextId.toNat ctx.step ctx.last s.first s.entries.length) := by
  have widths := readable.widths
  have reads := readWalBytesRange_cut env.xxh64 readable.addressable (by omega)
    (cut_whole env.xxh64 contiguous.fits) content ⟨ctx.nextId, ctx.lastId, ctx.step, source⟩ ctx.sender
  have single : max ctx.step 1 = ctx.step := by omega
  have length : s.read.length = s.entries.length := by simp [Segment.read]
  obtain ⟨result, walked, complete, remains⟩ := walk_numbered
    ⟨ctx.nextId, ctx.lastId, ctx.step, source⟩ steps word contiguous.read delivered
  have bound : ReadRequest.last ⟨ctx.nextId, ctx.lastId, ctx.step, source⟩ = ctx.last := rfl
  simp only [bound] at walked complete remains
  simp only [single, stays] at reads
  change _ = walk _ s.read none none none _ at reads
  rw [walked] at reads
  rw [length] at complete remains
  refine ⟨(wanted ctx.nextId.toNat ctx.step ctx.last s.read).map (fun e => ⟨e.1, e.2, source⟩),
    ?_, ?_, ?_⟩
  · rw [List.map_map]
    rfl
  · intro inhabited reached
    obtain rfl := complete reached (by simpa [Segment.read] using inhabited)
    simp only [transition, handleParseWalBytes, stays, Sender.isClosed_staying, Bool.false_eq_true,
      if_false, reads]
    rfl
  · intro before
    obtain ⟨id, rfl⟩ := remains before
    have ids := wanted_ids ctx.nextId.toNat ctx.step ctx.last contiguous.read
    rw [length] at ids
    have lasts := congrArg List.getLast? ids
    rw [List.getLast?_map] at lasts
    unfold nextAfter
    rw [← lasts]
    cases taken : (wanted ctx.nextId.toNat ctx.step ctx.last s.read).getLast? with
    | none =>
      refine ⟨ctx.nextId, ?_, rfl⟩
      rw [taken, Option.map_none] at reads
      simp only [transition, handleParseWalBytes, stays, Sender.isClosed_staying,
        Bool.false_eq_true, if_false, reads]
      rfl
    | some e =>
      refine ⟨e.1.add (.ofU64 (BitVec.ofNat 64 ctx.step)), ?_, UintN.toNat_stepBy e.1 ctx.step word⟩
      rw [taken, Option.map_some] at reads
      simp only [transition, handleParseWalBytes, stays, Sender.isClosed_staying,
        Bool.false_eq_true, if_false, reads]
      rfl

theorem selection_append (start step : Nat) (last : Option Nat) (lo len : Nat) (payload : Nat → Bytes) :
    selection start step last (lo + len) payload = selection start step last lo payload ++
      (picks start step last lo len).map (fun n => (n, payload n)) := by
  rw [selection, picks_append, List.map_append, Nat.zero_add]
  rfl

/-- Everything wanted between `base` and `lo` is delivered, and the count goes on from there. A read
that begins at or before its first wanted entry has not gone past any. -/
structure Reading (payload : Nat → Bytes) (start step : Nat) (last : Option Nat) (base lo : Nat)
    (ctx : ReadContext) (delivered : List ReadEntry) : Prop where
  stays : ctx.sender = .staying delivered
  based : base ≤ lo
  values : delivered.map (fun e => (e.id.toNat, e.data)) =
    (picks start step last base (lo - base)).map (fun n => (n, payload n))
  aligned : Aligned start step lo ctx.nextId.toNat
  reached : base ≤ start → lo ≤ ctx.nextId.toNat
  bound : ctx.last = last
  sameStep : ctx.step = step

namespace Reading

variable {start step base bound : Nat} {last : Option Nat} {ctx : ReadContext}
  {delivered : List ReadEntry}

theorem moved (reading : Reading payload start step last base bound ctx delivered) (fileId : UintN) :
    Reading payload start step last base bound (ctx.withFileId fileId) delivered :=
  { reading with }

theorem finished (reading : Reading payload start step last 0 bound ctx delivered)
    (within : bound ≤ count) (beyond : count ≤ ctx.nextId.toNat) :
    delivered.map (fun e => (e.id.toNat, e.data)) = selection start step last count payload := by
  obtain ⟨rest, rfl⟩ := Nat.exists_eq_add_of_le within
  rw [selection_append, ← reading.aligned.picks_eq, picks_below beyond, List.map_nil, List.append_nil]
  exact reading.values

theorem remaining (reading : Reading payload start step last 0 bound ctx delivered)
    (within : bound ≤ count) :
    selection start step last count payload =
      selection start step last bound payload ++
        selection ctx.nextId.toNat step last count payload := by
  obtain ⟨rest, rfl⟩ := Nat.exists_eq_add_of_le within
  have reached := reading.reached (Nat.zero_le _)
  have below : selection ctx.nextId.toNat step last bound payload = [] := by
    rw [selection, picks_below (by omega)]
    rfl
  rw [selection_append, selection_append ctx.nextId.toNat, below, List.nil_append,
    reading.aligned.picks_eq]

theorem initial {start : UintN} (fileId : UintN) (step : Nat) (lastId : Option UintN)
    (payload : Nat → Bytes) (based : base ≤ bound)
    (reached : base ≤ start.toNat → bound ≤ start.toNat) (front : base = bound ∨ bound ≤ start.toNat) :
    Reading payload start.toNat step (lastId.map UintN.toNat) base bound
      ⟨fileId, start, step, lastId, .staying []⟩ [] := by
  refine ⟨rfl, based, ?_, .initial _ _ _, reached, rfl, rfl⟩
  rcases front with rfl | below
  · rw [Nat.sub_self]
    rfl
  · rw [picks_below (by omega)]
    rfl

end Reading

theorem Quiescent.stop_le (quiescent : Quiescent env world a n segment packed lo count payload)
    (listed : i < n) (inhabited : (segment i).entries ≠ []) :
    (segment i).first + (segment i).entries.length ≤ count := by
  have positive := List.length_pos_iff.mpr inhabited
  have number := (quiescent.files.contiguous i listed).getLast? positive (Nat.le_refl _)
  rw [List.take_length] at number
  obtain ⟨e, last, value⟩ := Option.map_eq_some_iff.mp number
  have := quiescent.present i listed e (List.mem_of_getLast? last)
  omega

/-- A file from number `i` on holds this entry. -/
def Ahead (segment : Nat → Segment) (n i k : Nat) : Prop :=
  ∃ j, i ≤ j ∧ j < n ∧ (segment j).first ≤ k ∧ k < (segment j).first + (segment j).entries.length

section

variable (files : GapFree env.xxh64 env.config world.disk a n segment packed)

include files

theorem Ahead.inhabited {k : Nat}
    (ahead : Ahead segment n i k) : (segment i).entries ≠ [] := by
  obtain ⟨j, le, listed, lower, upper⟩ := ahead
  rcases Nat.eq_or_lt_of_le le with rfl | less
  · intro empty
    rw [empty, List.length_nil] at upper
    omega
  · exact files.inhabited i (by omega)

theorem Ahead.of_covered {k : Nat}
    (listed : i < n) (reached : (segment i).first ≤ k)
    (somewhere : ∃ j < n, (segment j).first ≤ k ∧
      k < (segment j).first + (segment j).entries.length) : Ahead segment n i k := by
  obtain ⟨j, jListed, lower, upper⟩ := somewhere
  refine ⟨j, ?_, jListed, lower, upper⟩
  by_contra notLater
  have following := files.following j (by omega)
  have := files.first_le (show j + 1 ≤ i by omega) listed
  omega

theorem Ahead.next {k : Nat}
    (beyond : (segment i).first + (segment i).entries.length ≤ k) (listed : i < n)
    (somewhere : ∃ j < n, (segment j).first ≤ k ∧
      k < (segment j).first + (segment j).entries.length) :
    Ahead segment n (i + 1) k ∧ i + 1 < n := by
  obtain ⟨j, later, jListed, lower, upper⟩ :=
    Ahead.of_covered files listed (Nat.le_trans (Nat.le_add_right _ _) beyond) somewhere
  have notHere : j ≠ i := by
    rintro rfl
    omega
  exact ⟨⟨j, by omega, jListed, lower, upper⟩, by omega⟩

end

theorem MemQueue.Holds.refuses {q : MemQueue} (holds : q.Holds lo count payload)
    (before : start.toNat < lo) : q.refuses start = true := by
  have upTo := holds.upTo
  obtain ⟨last, lastId, lastValue⟩ := holds.lastId_some (by omega)
  rw [MemQueue.refuses, Bool.and_eq_true, lastId]
  constructor
  · simp only [Option.any_some, Bool.not_eq_true', decide_eq_false_iff_not, UintN.lt_iff]
    omega
  · rw [Option.all_eq_true]
    intro first firstId
    have above := holds.firstId_above firstId
    rw [decide_eq_true_iff, UintN.lt_iff]
    omega

theorem MemQueue.Holds.followFull_before {q : MemQueue} (holds : q.Holds lo count payload)
    (before : start.toNat < lo) (inside : lo < count) (step : Nat) (target : Sender) :
    q.followFull start start step target = some (.fail, target, q) := by
  obtain ⟨first, firstId, firstValue⟩ := holds.firstId_some inside
  have earlier : start < first := by
    rw [UintN.lt_iff]
    omega
  simp [followFull, followSnapshot, firstId, earlier]

section

variable (quiescent : Quiescent env world a n segment packed lo count payload)

include quiescent

theorem Quiescent.unserved (before : ctx.nextId.toNat < lo) (answers : ctx.lastId = none → lo < count)
    (opened : ctx.sender.isClosed = false) : Unserved world ctx := by
  obtain ⟨q, memory, holds⟩ := quiescent.memory
  have upTo := holds.upTo
  cases bounded : ctx.lastId with
  | some last => exact .bounded memory (holds.refuses before) bounded opened
  | none =>
    refine ⟨?_, refuses_notPast memory (holds.refuses before), opened⟩
    intro otherwise
    have fails := holds.followFull_before before (answers bounded) ctx.step ctx.sender
    obtain ⟨disk, ranges, mem, cloud⟩ := world
    obtain rfl : mem = some q := memory
    simp [fromMemory, bounded, fails, MemReadResult.fail]

theorem Quiescent.advances {handle : Option Prefetch} (unserved : Unserved world ctx)
    (ofNext : ∀ task ∈ handle, task = .pending (.ofUbig (a + (i + 1)))) (nextListed : i + 1 < n)
    (s : Nat) :
    ∃ (bytes : Bytes) (source : DataSource), bytes.data = (segment (i + 1)).bytes env.xxh64 ∧
      Leads env s world (.readNextFile (.ofUbig (a + i)) ctx handle) world
        (.parseWalBytes (ctx.withFileId (.ofUbig (a + (i + 1)))) bytes source) := by
  obtain ⟨bytes, source, content, prefetched, fetched⟩ := quiescent.fetched nextListed
  have follows : (UintN.ofUbig (a + i)).increment = .ofUbig (a + (i + 1)) := increment_ofUbig _
  refine ⟨bytes, source, content, ?_⟩
  cases task : handle with
  | none =>
    have goes : transition env s world (.readNextFile (.ofUbig (a + i)) ctx none) =
        .next world (.readFile (ctx.withFileId (.ofUbig (a + (i + 1))))) := by
      simp only [transition, handleReadNextFile, unserved.opened, unserved.notPast,
        Bool.false_eq_true, if_false]
      exact (unserved.refuses _).trans (by simp only [intoNextFile, follows])
    exact .step goes rfl (fetched s _ rfl unserved.opened)
  | some task' =>
    obtain rfl := ofNext task' task
    have goes : transition env s world
        (.readNextFile (.ofUbig (a + i)) ctx (some (.pending (.ofUbig (a + (i + 1)))))) =
        .next world (.parseWalBytes (ctx.withFileId (.ofUbig (a + (i + 1)))) bytes source) := by
      simp only [transition, handleReadNextFile, unserved.opened, unserved.notPast,
        Bool.false_eq_true, if_false]
      exact (unserved.refuses _).trans (by simp only [intoNextFile, follows, Prefetch.await, prefetched])
    exact .step goes rfl (.refl ..)

theorem Quiescent.passed (inhabited : 0 < count) (beyond : count ≤ ctx.nextId.toNat)
    (opened : ctx.sender.isClosed = false) (fileId : UintN) (handle : Option Prefetch) (s : Nat) :
    Leads env s world (.readNextFile fileId ctx handle) world (.completed ctx.sender) := by
  obtain ⟨q, memory, holds⟩ := quiescent.memory
  obtain ⟨last, lastId, lastValue⟩ := holds.lastId_some inhabited
  have past : last < ctx.nextId := by
    rw [UintN.lt_iff]
    omega
  have goes : transition env s world (.readNextFile fileId ctx handle) =
      .next world (.completed ctx.sender) := by
    simp [transition, handleReadNextFile, opened, memory, MemQueue.getLastId, lastId, past]
  exact .step goes rfl (.refl ..)

end

theorem prefetchFor_next {task : Prefetch} (spawned : prefetchFor ctx = some task) :
    task = .pending ctx.fileId.increment := by
  unfold prefetchFor at spawned
  split at spawned
  · exact (Option.some.inj spawned).symm
  · cases spawned

theorem Reading.sent (quiescent : Quiescent env world a n segment packed lo count payload)
    {start step base i : Nat} {last : Option Nat} {ctx : ReadContext} {delivered more : List ReadEntry}
    (listed : i < n)
    (reading : Reading payload start step last base (segment i).first ctx delivered)
    (moreValues : more.map (fun e => (e.id.toNat, e.data)) =
      (wanted ctx.nextId.toNat ctx.step ctx.last (segment i).read).map valueOf) :
    (delivered ++ more).map (fun e => (e.id.toNat, e.data)) =
      (picks start step last base ((segment i).first + (segment i).entries.length - base)).map
        (fun n => (n, payload n)) := by
  have contiguous := quiescent.files.contiguous i listed
  have fromFile := wanted_values ctx.nextId.toNat ctx.step ctx.last contiguous.read
    (Segment.read_stored contiguous (quiescent.stored i listed))
  rw [Segment.read, List.length_map, reading.bound, reading.sameStep, reading.aligned.picks_eq] at fromFile
  have based := reading.based
  have length : (segment i).first + (segment i).entries.length - base =
      ((segment i).first - base) + (segment i).entries.length := by omega
  have piece : base + ((segment i).first - base) = (segment i).first := by omega
  rw [List.map_append, reading.values, moreValues, length, picks_append, List.map_append, piece,
    reading.bound, reading.sameStep]
  exact congrArg _ fromFile

structure Turned (segment : Nat → Segment) (payload : Nat → Bytes) (lo count start step : Nat)
    (last : Option Nat) (base i : Nat) (ctx : ReadContext) (delivered : List ReadEntry) : Prop where
  reading : Reading payload start step last base
    ((segment i).first + (segment i).entries.length) ctx delivered
  within : base ≤ start → (segment i).first + (segment i).entries.length ≤ count
  moved : ∃ before < lo, Aligned start step (segment i).first before ∧
    ctx.nextId.toNat = nextAfter before step last (segment i).first (segment i).entries.length

section

variable (quiescent : Quiescent env world a n segment packed lo count payload)

include quiescent

/- The read goes through the files, by induction on how many are left. What it is to come to is
shown for each way in which it can leave a file. -/
theorem Quiescent.walks
    (locatable : ∀ i, i < n → Locatable world.disk (a + i) (segment i) (packed i))
    {start base : Nat} {last : Option Nat} (front : base ≤ start ∨ last = none)
    (answers : last = none → lo < count) (steps : 0 < step) (word : step < 2 ^ 64) (s : Nat)
    (Goal : Nat → ReaderState → Prop)
    (back : ∀ {i state state'}, Leads env s world state world state' → Goal i state' → Goal i state)
    (ends : ∀ {i l sent}, last = some l → l < (segment i).first + (segment i).entries.length →
      (segment i).first + (segment i).entries.length ≤ count →
      sent.map (fun e : ReadEntry => (e.id.toNat, e.data)) =
        (picks start step last base ((segment i).first + (segment i).entries.length - base)).map
          (fun n => (n, payload n)) → Goal i (.completed (.staying sent)))
    (stops : ∀ {i ctx delivered}, i < n →
      Turned segment payload lo count start step last base i ctx delivered →
      count ≤ ctx.nextId.toNat → Goal i (.completed ctx.sender))
    (inMemory : ∀ {i ctx delivered} (handle : Option Prefetch), i < n →
      Turned segment payload lo count start step last base i ctx delivered →
      lo ≤ ctx.nextId.toNat → ctx.nextId.toNat < count →
      Goal i (.readNextFile (.ofUbig (a + i)) ctx handle))
    (goesOn : ∀ {i ctx delivered state},
      Turned segment payload lo count start step last base i ctx delivered →
      ctx.nextId.toNat < lo → Goal (i + 1) state → Goal i state)
    (lost : ∀ {i ctx delivered handle}, i + 1 = n →
      Turned segment payload lo count start step last base i ctx delivered →
      ctx.nextId.toNat < lo → (∀ task ∈ handle, task = .pending (.ofUbig (a + (i + 1)))) →
      Goal i (.readNextFile (.ofUbig (a + i)) ctx handle))
    {left : Nat} (more : i + left = n) (listed : i < n) {source : DataSource}
    (here : ctx.fileId = .ofUbig (a + i)) (content : bytes.data = (segment i).bytes env.xxh64)
    (before : ctx.nextId.toNat < lo)
    (reading : Reading payload start step last base (segment i).first ctx delivered) :
    Goal i (.parseWalBytes ctx bytes source) := by
  induction left generalizing i ctx delivered bytes source with
  | zero => omega
  | succ left ih =>
    have bound := reading.bound
    have sameStep := reading.sameStep
    obtain ⟨sent, sentValues, complete, remains⟩ := parse_file ctx source (locatable i listed).readable
      (quiescent.files.contiguous i listed) content reading.stays (sameStep ▸ steps) (sameStep ▸ word)
      world s
    have values := reading.sent quiescent listed sentValues
    -- A read from the front has its next entry in this file or a later one.
    have inhabited : base ≤ start → (segment i).entries ≠ [] := fun first =>
      Ahead.inhabited quiescent.files (Ahead.of_covered quiescent.files listed (reading.reached first)
        (quiescent.covered _ before))
    have within := fun first => quiescent.stop_le listed (inhabited first)
    by_cases reached : ∃ l ∈ ctx.last, l < (segment i).first + (segment i).entries.length
    · obtain ⟨l, isLast, less⟩ := reached
      have isLast' : last = some l := bound ▸ isLast
      have first : base ≤ start := front.resolve_right (by rw [isLast']; rintro ⟨⟩)
      exact back (.step (complete (inhabited first) ⟨l, isLast, less⟩) rfl (.refl ..))
        (ends isLast' less (within first) values)
    · have notEnded : ∀ l ∈ ctx.last, (segment i).first + (segment i).entries.length ≤ l := by
        intro l isLast
        exact Nat.le_of_not_lt (fun less => reached ⟨l, isLast, less⟩)
      obtain ⟨next, goes, moved⟩ := remains notEnded
      rw [here] at goes
      rw [sameStep, bound] at moved
      have turned : Turned segment payload lo count start step last base i
          ⟨.ofUbig (a + i), next, ctx.step, ctx.lastId, .staying (delivered ++ sent)⟩
          (delivered ++ sent) := by
        refine ⟨⟨rfl, Nat.le_trans reading.based (Nat.le_add_right _ _), values, ?_, ?_, bound, sameStep⟩,
          within, ctx.nextId.toNat, before, reading.aligned, moved⟩
        · rw [moved]
          exact reading.aligned.nextAfter last _
        · intro first
          rw [moved]
          exact (Cursor.nextAfter steps ⟨reading.aligned, reading.reached first⟩ (bound ▸ notEnded)).reached
      refine back (.step goes rfl (.refl ..)) ?_
      have ofNext : ∀ task ∈ prefetchFor ctx, task = .pending (.ofUbig (a + (i + 1))) := by
        intro task spawned
        rw [prefetchFor_next spawned, here, increment_ofUbig]
        rfl
      rcases Nat.lt_or_ge next.toNat lo with less | upTo
      · have unserved : Unserved world
            ⟨.ofUbig (a + i), next, ctx.step, ctx.lastId, .staying (delivered ++ sent)⟩ :=
          quiescent.unserved less
            (fun endless => answers (bound ▸ Option.map_eq_none_iff.mpr endless)) rfl
        by_cases nextListed : i + 1 < n
        · obtain ⟨bytes', source', content', leads⟩ := quiescent.advances unserved ofNext nextListed s
          have onward := turned.reading.moved (.ofUbig (a + (i + 1)))
          rw [← quiescent.files.following i nextListed] at onward
          exact back leads (goesOn turned less (ih (by omega) nextListed rfl content' less onward))
        · exact lost (by omega) turned less ofNext
      · by_cases finished : count ≤ next.toNat
        · have positive : 0 < count := by
            obtain ⟨q, -, holds⟩ := quiescent.memory
            have := holds.upTo
            omega
          exact back (quiescent.passed positive finished rfl _ _ s) (stops listed turned finished)
        · exact inMemory _ listed turned upTo (Nat.lt_of_not_le finished)

theorem Quiescent.not_lost
    {start base : Nat} {last : Option Nat}
    (final : i + 1 = n)
    (turned : Turned segment payload lo count start step last base i ctx delivered)
    (front : base ≤ start) (less : ctx.nextId.toNat < lo) : False := by
  have reached := turned.reading.reached front
  have next := (Ahead.next quiescent.files reached (by omega) (quiescent.covered _ less)).2
  omega

theorem Quiescent.parse_completes
    (locatable : ∀ i, i < n → Locatable world.disk (a + i) (segment i) (packed i))
    {last : UintN} (steps : 0 < step) (word : step < 2 ^ 64) (s : Nat) (listed : i < n) {source : DataSource} (content : bytes.data = (segment i).bytes env.xxh64)
    (starts : (segment i).first ≤ start.toNat) (before : start.toNat < lo) :
    Completes env s world
      (.parseWalBytes ⟨.ofUbig (a + i), start, step, some last, .staying []⟩ bytes source)
      (selection start.toNat step (some last.toNat) count payload) := by
  obtain ⟨q, memory, holds⟩ := quiescent.memory
  have reading : Reading payload start.toNat step (some last.toNat) 0 (segment i).first
      ⟨.ofUbig (a + i), start, step, some last, .staying []⟩ [] :=
    .initial _ step (some last) payload (Nat.zero_le _) (fun _ => starts) (.inr starts)
  refine quiescent.walks locatable (.inl (Nat.zero_le _)) (by rintro ⟨⟩) steps word s
    (fun _ state => Completes env s world state _) .after ?_ ?_ ?_ (fun _ _ later => later) ?_
    (show i + (n - i) = n by omega) listed rfl content before reading
  · rintro j _ sent ⟨⟩ reached within values
    refine ⟨world, _, Leads.refl .., ?_⟩
    obtain ⟨rest, upTo⟩ := Nat.exists_eq_add_of_le within
    rw [upTo, selection_append, picks_above reached, List.map_nil, List.append_nil]
    exact values
  · intro j ctx delivered _ turned finished
    refine ⟨world, _, Leads.refl .., ?_⟩
    rw [turned.reading.stays]
    exact turned.reading.finished (turned.within (Nat.zero_le _)) finished
  · intro j ctx delivered handle _ turned upTo inside
    have reading := turned.reading
    have sameStep := reading.sameStep
    obtain ⟨last', bounded, same⟩ := Option.map_eq_some_iff.mp reading.bound
    obtain ⟨queueLast, lastId, lastValue⟩ := holds.lastId_some (by omega)
    have notPast : ¬ queueLast < ctx.nextId := by
      rw [UintN.lt_iff]
      omega
    have sends := holds.readFull_sends (sameStep ▸ steps) (sameStep ▸ word) upTo inside last' delivered
    have goes : transition env s world (.readNextFile (.ofUbig (a + j)) ctx handle) =
        .next world (.completed (.staying (delivered ++
          (wanted ctx.nextId.toNat ctx.step (some last'.toNat) q.entries).map memoryEntry))) := by
      simp [transition, handleReadNextFile, reading.stays, memory, MemQueue.getLastId, lastId, notPast,
        fromMemory, bounded, sends]
    refine .step goes rfl ⟨world, _, Leads.refl .., ?_⟩
    have values := holds.values upTo ctx.step (some last'.toNat)
    simp only [Sender.staying, List.map_append, reading.values, List.map_map]
    rw [reading.remaining (turned.within (Nat.zero_le _)), ← sameStep, ← same]
    exact congrArg _ values
  · intro j ctx delivered handle final turned less _
    exact (quiescent.not_lost final turned (Nat.zero_le _) less).elim

theorem Quiescent.looks_up {g : Nat} (listed : g < n)
    (yields : Memo.Yields (Remembers env.config world.disk)
      (findFileWithS3 env.config world.disk none start) (.file (.ofUbig (a + g))))
    (endId : Option UintN) (step s : Nat) :
    ∃ (ranges : RangeCache) (bytes : Bytes) (source : DataSource),
      ranges.Agrees env.config world.disk.storeAt ∧ bytes.data = (segment g).bytes env.xxh64 ∧
      Leads env s world (.lookupFile start endId step (.staying [])) { world with ranges := ranges }
        (.parseWalBytes ⟨.ofUbig (a + g), start, step, endId, .staying []⟩ bytes source) := by
  obtain ⟨ranges, answer, agrees⟩ := yields world.ranges quiescent.ranges
  have goes : transition env s world (.lookupFile start endId step (.staying [])) =
      .next { world with ranges := ranges }
        (.readFile ⟨.ofUbig (a + g), start, step, endId, .staying []⟩) := by
    simp [transition, handleLookupFile, quiescent.cloud, answer]
  obtain ⟨bytes, source, content, -, fetched⟩ := (quiescent.withRanges agrees).fetched listed
  exact ⟨ranges, bytes, source, agrees, content, .step goes rfl (fetched s _ rfl rfl)⟩

/- A read that memory did not answer: when a file at or before the first wanted entry is found, the
lookup does not go past it. -/
theorem Quiescent.lookup_arrives
    (locatable : ∀ i, i < n → Locatable world.disk (a + i) (segment i) (packed i))
    (found : ∃ l < n, FirstFound world.disk (a + l) ∧ (segment l).first ≤ start.toNat)
    (endId : Option UintN) (step s : Nat) :
    ∃ g < n, (segment g).first ≤ start.toNat ∧
      ∃ (ranges : RangeCache) (bytes : Bytes) (source : DataSource),
        ranges.Agrees env.config world.disk.storeAt ∧ bytes.data = (segment g).bytes env.xxh64 ∧
        Leads env s world (.lookupFile start endId step (.staying [])) { world with ranges := ranges }
          (.parseWalBytes ⟨.ofUbig (a + g), start, step, endId, .staying []⟩ bytes source) := by
  obtain ⟨l, listed, isFound, starts⟩ := found
  obtain ⟨first, firstListed, last, lastListed, bounds, isFirst, -⟩ := fileBounds_ends
    quiescent.files.walOnly quiescent.files.storeOnly (quiescent.files.toLinked.listed (by omega))
  have notAfter : first ≤ l := (isFirst l).mpr ⟨l, Nat.le_refl _, isFound⟩
  have above : (segment first).first ≤ start.toNat :=
    Nat.le_trans (quiescent.files.first_le notAfter listed) starts
  obtain ⟨g, gListed, gStarts, yields⟩ :=
    findFile_from quiescent.files locatable firstListed lastListed bounds above
  exact ⟨g, gListed, gStarts, quiescent.looks_up gListed yields endId step s⟩

theorem Quiescent.found_front
    {start : Nat} (before : start < lo) (found : FirstFound world.disk a) :
    ∃ l < n, FirstFound world.disk (a + l) ∧ (segment l).first ≤ start := by
  obtain ⟨f, listed, lower, -⟩ := quiescent.covered _ before
  exact ⟨0, by omega, found, Nat.le_trans (quiescent.files.first_le (Nat.zero_le f) listed) lower⟩

section

variable (locatable : ∀ i, i < n → Locatable world.disk (a + i) (segment i) (packed i))

include locatable

theorem Quiescent.lookup_completes
    (found : FirstFound world.disk a) {last : UintN} (before : start.toNat < lo)
    (steps : 0 < step) (word : step < 2 ^ 64) (s : Nat) :
    Completes env s world (.lookupFile start (some last) step (.staying []))
      (selection start.toNat step (some last.toNat) count payload) := by
  obtain ⟨g, listed, starts, ranges, bytes, source, agrees, content, leads⟩ :=
    quiescent.lookup_arrives locatable (quiescent.found_front before found) (some last) step s
  exact .after leads ((quiescent.withRanges agrees).parse_completes locatable steps word s listed content
    starts before)

theorem Quiescent.absolute_completes
    (found : lo = 0 ∨ FirstFound world.disk a) {limit : Nat} (start : UintN) (positive : 0 < limit)
    (steps : 0 < step) (word : step < 2 ^ 64) (reach : (limit - 1) * step < 2 ^ 64) :
    Completes env step world (.lookupPositive start limit (.staying []))
      (expected start.toNat limit step count payload) := by
  obtain ⟨q, memory, holds⟩ := quiescent.memory
  obtain ⟨last, bound, lastValue⟩ := @boundOf_exact start limit step positive reach
  rw [expected_eq steps positive, ← lastValue]
  by_cases beyond : count ≤ start.toNat
  · have goes : transition env step world (.lookupPositive start limit (.staying [])) =
        .next world (.completed (.staying [])) := by
      simp [transition, handleLookupPositive, fromMemory, memory, bound, holds.readFull_beyond beyond]
    refine .step goes rfl ⟨world, _, Leads.refl .., ?_⟩
    rw [selection, picks_below (by omega)]
    rfl
  · by_cases inMemory : lo ≤ start.toNat
    · have sends := holds.readFull_sends steps word inMemory (by omega) last []
      have goes : transition env step world (.lookupPositive start limit (.staying [])) =
          .next world (.completed (.staying ((wanted start.toNat step (some last.toNat) q.entries).map
            memoryEntry))) := by
        simp [transition, handleLookupPositive, fromMemory, memory, bound, sends]
      refine .step goes rfl ⟨world, _, Leads.refl .., ?_⟩
      simp only [Sender.staying, List.map_map]
      exact holds.values inMemory step (some last.toNat)
    · have fails := holds.readFull_before (by omega : start.toNat < lo) last step (.staying [])
      have goes : transition env step world (.lookupPositive start limit (.staying [])) =
          .next world (.lookupFile start (some last) step (.staying [])) := by
        simp [transition, handleLookupPositive, fromMemory, memory, bound, fails, MemReadResult.fail]
      exact .step goes rfl (quiescent.lookup_completes locatable (found.resolve_left (by omega))
        (by omega) steps word step)

theorem Quiescent.negative_completes
    (found : lo = 0 ∨ FirstFound world.disk a) {limit : Nat} (offset : UintN) (positive : 0 < limit)
    (steps : 0 < step) (word : step < 2 ^ 64) (reach : (limit - 1) * step < 2 ^ 64) :
    Completes env step world (.lookupNegative offset limit (.staying []))
      (expected (count - 1 - offset.toNat) limit step count payload) := by
  obtain ⟨q, memory, holds⟩ := quiescent.memory
  rw [expected_eq steps positive]
  rcases Nat.eq_zero_or_pos count with rfl | inhabited
  · have goes : transition env step world (.lookupNegative offset limit (.staying [])) =
        .next world (.completed (.staying [])) := by
      simp [transition, handleLookupNegative, memory, positive, holds.readFullNegative_none]
    exact .step goes rfl ⟨world, _, Leads.refl .., rfl⟩
  · by_cases inMemory : lo ≤ count - 1 - offset.toNat
    · obtain ⟨startId, sends⟩ := holds.readFullNegative_sends steps word positive offset inhabited inMemory []
      have goes : transition env step world (.lookupNegative offset limit (.staying [])) =
          .next world (.completed (.staying ((wanted (count - 1 - offset.toNat) step
            (some (count - 1 - offset.toNat + (limit - 1) * step)) q.entries).map memoryEntry))) := by
        simp [transition, handleLookupNegative, memory, positive, sends]
      refine .step goes rfl ⟨world, _, Leads.refl .., ?_⟩
      simp only [Sender.staying, List.map_map]
      exact holds.values inMemory step _
    · obtain ⟨startId, fails, start⟩ := holds.readFullNegative_before offset (by omega) step limit (.staying [])
      obtain ⟨last, bound, lastValue⟩ := @boundOf_exact startId limit step positive reach
      have goes : transition env step world (.lookupNegative offset limit (.staying [])) =
          .next world (.lookupFile startId (some last) step (.staying [])) := by
        simp [transition, handleLookupNegative, memory, positive, fails, bound]
      rw [← start, ← lastValue]
      exact .step goes rfl (quiescent.lookup_completes locatable (found.resolve_left (by omega))
        (by omega) steps word step)

end

end

end Reader

end NormFS
