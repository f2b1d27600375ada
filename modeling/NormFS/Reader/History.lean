import NormFS.Mem.Subscription
import NormFS.Reader.Bounded

/-! A read without a limit on a quiet queue: the history before the subscription, and what the
subscription takes of the entries to come. -/
namespace NormFS

open Stride

section Memory

variable {q : MemQueue} {lo count : Nat} {payload : Nat → Bytes} {step : Nat}

/-- The subscription that memory registers for a read from `start` on. -/
def MemQueue.subscription (q : MemQueue) (start : UintN) (step : Nat) (delivered : List ReadEntry) : Subscriber :=
  ⟨start, step, (wanted start.toNat step none q.entries).getLast?.map Prod.fst,
    .staying (delivered ++ (wanted start.toNat step none q.entries).map memoryEntry)⟩

theorem MemQueue.Holds.followFull_registers (holds : q.Holds lo count payload) (steps : 0 < step)
    (word : step < 2 ^ 64) {start : UintN} (reached : lo ≤ start.toNat ∨ lo = count)
    (delivered : List ReadEntry) :
    q.followFull start start step (.staying delivered) =
      some (⟨true, none, some q.nextSubscriberId⟩, (q.subscription start step delivered).target,
        (q.register (q.subscription start step delivered)).1) := by
  have upTo := holds.upTo
  by_cases inside : lo < count
  · obtain ⟨first, firstId, firstValue⟩ := holds.firstId_some inside
    have lower : lo ≤ start.toNat := reached.resolve_right (by omega)
    have notBefore : ¬ start < first := by
      rw [UintN.lt_iff]
      omega
    have sent := collect_numbered steps word (holds.numbered.since lower) start (Nat.le_refl _) none
    rw [Option.map_none, wanted_since] at sent
    simp [followFull, followSnapshot, firstId, notBefore, since, sent, sendAll_staying, subscription, register]
  · have empty : q.entries = [] := List.eq_nil_of_length_eq_zero (by omega)
    have firstId : q.firstId = none := by
      rw [holds.firstId, empty]
      rfl
    simp [followFull, followSnapshot, firstId, sendAll_staying, subscription, register, empty, wanted]

theorem MemQueue.Holds.later_taken (holds : q.Holds lo count payload) (steps : 0 < step)
    (word : step < 2 ^ 64) {start : UintN} (delivered : List ReadEntry) {later : List Entry}
    (beyond : ∀ e ∈ later, count ≤ e.1.toNat) :
    (q.subscription start step delivered).call later = .ok ({ q.subscription start step delivered with
      target := .staying ((q.subscription start step delivered).target.delivered ++
        (later.filter (fun e => passes start.toNat step e.1.toNat)).map memoryEntry) }, true) := by
  rw [@call_staying (q.subscription start step delivered) steps word _ rfl later]
  have taken : later.filter (q.subscription start step delivered).takes =
      later.filter (fun e => passes start.toNat step e.1.toNat) := by
    apply List.filter_congr
    intro e member
    have above := beyond e member
    have notSent : (q.subscription start step delivered).lastSentId.any (fun last => decide (e.1 ≤ last)) =
        false := by
      rw [Bool.eq_false_iff]
      intro reached
      obtain ⟨last, sent, notLate⟩ := (Option.any_eq_true _ _).mp reached
      obtain ⟨old, found, rfl⟩ := Option.map_eq_some_iff.mp sent
      have among := (List.mem_filter.mp (List.mem_of_getLast? found)).1
      have below := (holds.numbered.mem among).2
      have upTo := holds.upTo
      have le := (UintN.le_iff _ _).mp (of_decide_eq_true notLate)
      omega
    rw [Subscriber.takes, notSent]
    rfl
  rw [taken]
  rfl

end Memory

section Reader

variable {env : Env} {world : World} {a n lo count : Nat} {segment : Nat → Segment}
  {packed : Nat → StoreHeader} {payload : Nat → Bytes} {q : MemQueue}

structure Continues (q : MemQueue) (start step count : Nat) (payload : Nat → Bytes) (world' : World)
    (sender : Sender) : Prop where
  history : sender.delivered.map (fun e => (e.id.toNat, e.data)) = selection start step none count payload
  future : ∃ q' sub, world'.mem = some q' ∧ q'.subscribers = q.subscribers ++ [(q.nextSubscriberId, sub)] ∧
    ∀ later : List Entry, (∀ e ∈ later, count ≤ e.1.toNat) →
      sub.call later = .ok ({ sub with
        target := .staying (sender.delivered ++ (wanted start step none later).map memoryEntry) }, true)

/-- The read ends; when it ends in a subscription, that continues the history. -/
def Follows (env : Env) (s : Nat) (world : World) (state : ReaderState) (q : MemQueue)
    (start step count : Nat) (payload : Nat → Bytes) : Prop :=
  ∃ world' state', Leads env s world state world' state' ∧ state'.isTerminal = true ∧
    ∀ sender, state' = .subscribed sender → Continues q start step count payload world' sender

variable {start : UintN} {step : Nat} {world' : World}

theorem Follows.after {s start : Nat} {state state' : ReaderState}
    (leads : Leads env s world state world' state')
    (later : Follows env s world' state' q start step count payload) :
    Follows env s world state q start step count payload := by
  obtain ⟨last, final, ends, terminal, continues⟩ := later
  exact ⟨last, final, leads.trans ends, terminal, continues⟩

/-- For entries behind a cursor that exists or counts by more than one, the step test of the
subscription is the one of the request. -/
theorem passes_wanted {start bound next count : Nat} (aligned : Aligned start step bound next)
    (within : bound ≤ count) (near : next ≤ count ∨ step ≠ 1) {later : List Entry}
    (beyond : ∀ e ∈ later, count ≤ e.1.toNat) :
    later.filter (fun e => passes next step e.1.toNat) = wanted start step none later := by
  apply List.filter_congr
  intro e member
  have above := beyond e member
  rw [← aligned.hit_eq (show bound ≤ e.1.toNat by omega), Bool.eq_iff_iff, hit_iff, passes,
    decide_eq_true_iff]
  constructor
  · rintro (single | ⟨reached, whole⟩)
    · exact ⟨by omega, by rintro _ ⟨⟩, single ▸ Nat.one_dvd _⟩
    · exact ⟨reached, by rintro _ ⟨⟩, whole⟩
  · rintro ⟨reached, -, whole⟩
    exact .inr ⟨reached, whole⟩

/- Memory takes over: what is left of the history comes from it, and the subscription counts on
from the cursor. -/
theorem Reading.subscribes (holds : q.Holds lo count payload) {start bound : Nat}
    {ctx : ReadContext} {delivered : List ReadEntry}
    (reading : Reading payload start step none 0 bound ctx delivered) (within : bound ≤ count)
    (reached : lo ≤ ctx.nextId.toNat) (near : ctx.nextId.toNat ≤ count ∨ step ≠ 1) (steps : 0 < step)
    (word : step < 2 ^ 64)
    (memory : world'.mem = some (q.register (q.subscription ctx.nextId step delivered)).1) :
    Continues q start step count payload world' (q.subscription ctx.nextId step delivered).target where
  history := by
    have values := holds.values reached step none
    change (delivered ++ _).map _ = _
    rw [List.map_append, reading.values, List.map_map, reading.remaining within]
    exact congrArg _ values
  future := by
    refine ⟨_, q.subscription ctx.nextId step delivered, memory, rfl, ?_⟩
    intro later beyond
    rw [holds.later_taken steps word delivered beyond, passes_wanted reading.aligned within near beyond]

theorem fromMemory_subscribes (holds : q.Holds lo count payload) (memory : world.mem = some q) (steps : 0 < step) (word : step < 2 ^ 64)
    (reached : lo ≤ start.toNat ∨ lo = count) (delivered : List ReadEntry)
    (otherwise : Sender → ReaderState) :
    fromMemory world start none step (.staying delivered) otherwise =
      .next { world with mem := some (q.register (q.subscription start step delivered)).1 }
        (.subscribed (q.subscription start step delivered).target) := by
  simp [fromMemory, memory, holds.followFull_registers steps word reached delivered]

theorem Turned.subscribes (holds : q.Holds lo count payload) (memory : world.mem = some q)
    {start base i : Nat} {ctx : ReadContext} {delivered : List ReadEntry}
    (turned : Turned segment payload lo count start step none base i ctx delivered) (steps : 0 < step)
    (word : step < 2 ^ 64) (reached : lo ≤ ctx.nextId.toNat) (inside : ctx.nextId.toNat < count)
    (handle : Option Prefetch) (env : Env) (s : Nat) (fileId : UintN) :
    Leads env s world (.readNextFile fileId ctx handle)
      { world with mem := some (q.register (q.subscription ctx.nextId step delivered)).1 }
      (.subscribed (q.subscription ctx.nextId step delivered).target) := by
  have reading := turned.reading
  have endless : ctx.lastId = none := Option.map_eq_none_iff.mp reading.bound
  obtain ⟨queueLast, lastId, lastValue⟩ := holds.lastId_some (by omega)
  have notPast : ¬ queueLast < ctx.nextId := by
    rw [UintN.lt_iff]
    omega
  have before : (world.mem.bind MemQueue.getLastId).any (fun last => decide (last < ctx.nextId)) =
      false := by
    simp [memory, MemQueue.getLastId, lastId, notPast]
  have goes : transition env s world (.readNextFile fileId ctx handle) =
      .next { world with mem := some (q.register (q.subscription ctx.nextId step delivered)).1 }
        (.subscribed (q.subscription ctx.nextId step delivered).target) := by
    simp only [transition, handleReadNextFile, reading.stays, Sender.isClosed_staying, before,
      Bool.false_eq_true, if_false, endless, reading.sameStep]
    exact fromMemory_subscribes holds memory steps word (.inl reached) delivered _
  exact .step goes rfl (.refl ..)

theorem Quiescent.parse_follows (quiescent : Quiescent env world a n segment packed lo count payload)
    (memory : world.mem = some q) (holds : q.Holds lo count payload) (inside : lo < count)
    (locatable : ∀ i, i < n → Locatable world.disk (a + i) (segment i) (packed i)) (steps : 0 < step) (word : step < 2 ^ 64) (s : Nat) {i : Nat} (listed : i < n)
    {bytes : Bytes} {source : DataSource} (content : bytes.data = (segment i).bytes env.xxh64)
    (starts : (segment i).first ≤ start.toNat) (before : start.toNat < lo) :
    Follows env s world (.parseWalBytes ⟨.ofUbig (a + i), start, step, none, .staying []⟩ bytes source)
      q start.toNat step count payload := by
  have reading : Reading payload start.toNat step none 0 (segment i).first
      ⟨.ofUbig (a + i), start, step, none, .staying []⟩ [] :=
    .initial _ step none payload (Nat.zero_le _) (fun _ => starts) (.inr starts)
  refine quiescent.walks locatable (.inr rfl) (fun _ => inside) steps word s
    (fun _ state => Follows env s world state q start.toNat step count payload) .after ?_ ?_ ?_
    (fun _ _ later => later) ?_ (show i + (n - i) = n by omega) listed rfl content before reading
  · rintro j l sent ⟨⟩
  · intro j ctx delivered _ turned finished
    exact ⟨world, _, .refl .., rfl, by rintro _ ⟨⟩⟩
  · intro j ctx delivered handle _ turned upTo inside'
    refine ⟨_, _, turned.subscribes holds memory steps word upTo inside' handle env s _, rfl, ?_⟩
    rintro sender ⟨⟩
    exact turned.reading.subscribes holds (turned.within (Nat.zero_le _)) upTo
      (.inl (Nat.le_of_lt inside')) steps word rfl
  · intro j ctx delivered handle final turned less _
    exact (quiescent.not_lost final turned (Nat.zero_le _) less).elim

/-- Memory answers at once when it reaches back to the start, and also when it is empty. -/
theorem lookupPositive_subscribes (env : Env) (holds : q.Holds lo count payload) (memory : world.mem = some q) (steps : 0 < step) (word : step < 2 ^ 64)
    (reached : lo ≤ start.toNat ∨ lo = count) :
    Leads env step world (.lookupPositive start 0 (.staying []))
      { world with mem := some (q.register (q.subscription start step [])).1 }
      (.subscribed (q.subscription start step []).target) := by
  have goes : transition env step world (.lookupPositive start 0 (.staying [])) =
      .next { world with mem := some (q.register (q.subscription start step [])).1 }
        (.subscribed (q.subscription start step []).target) :=
    fromMemory_subscribes holds memory steps word reached [] _
  exact .step goes rfl (.refl ..)

theorem lookupPositive_asks (env : Env) (holds : q.Holds lo count payload)
    (memory : world.mem = some q) (inside : lo < count) (before : start.toNat < lo)
    (step : Nat) :
    Leads env step world (.lookupPositive start 0 (.staying [])) world
      (.lookupFile start none step (.staying [])) := by
  have fails := holds.followFull_before before inside step (.staying [])
  have goes : transition env step world (.lookupPositive start 0 (.staying [])) =
      .next world (.lookupFile start none step (.staying [])) := by
    obtain ⟨disk, ranges, mem, cloud⟩ := world
    obtain rfl : mem = some q := memory
    simp [transition, handleLookupPositive, boundOf, fromMemory, fails, MemReadResult.fail]
  exact .step goes rfl (.refl ..)

/-- The search of a directory finds a file at or before this entry. -/
def FoundBefore (disk : Disk) (a n : Nat) (segment : Nat → Segment) (start : Nat) : Prop :=
  ∃ l < n, FirstFound disk (a + l) ∧ (segment l).first ≤ start

theorem Quiescent.absolute_follows (quiescent : Quiescent env world a n segment packed lo count payload)
    (memory : world.mem = some q) (holds : q.Holds lo count payload)
    (locatable : ∀ i, i < n → Locatable world.disk (a + i) (segment i) (packed i)) (steps : 0 < step) (word : step < 2 ^ 64)
    (found : lo ≤ start.toNat ∨ FoundBefore world.disk a n segment start.toNat)
    (answers : lo < count ∨ count ≤ start.toNat) (near : start.toNat ≤ count ∨ step ≠ 1) :
    Follows env step world (.lookupPositive start 0 (.staying [])) q start.toNat step count payload := by
  by_cases reached : lo ≤ start.toNat
  · refine ⟨_, _, lookupPositive_subscribes env holds memory steps word (.inl reached), rfl, ?_⟩
    rintro sender ⟨⟩
    have reading : Reading payload start.toNat step none 0 (min start.toNat count)
        ⟨.zero, start, step, none, .staying []⟩ [] :=
      .initial _ step none payload (Nat.zero_le _) (fun _ => Nat.min_le_left _ _)
        (.inr (Nat.min_le_left _ _))
    exact reading.subscribes holds (Nat.min_le_right _ _) reached near steps word rfl
  · have before : start.toNat < lo := Nat.lt_of_not_le reached
    have inside : lo < count := answers.resolve_right (by have := holds.upTo; omega)
    obtain ⟨g, listed, starts, ranges, bytes, source, agrees, content, leads⟩ :=
      quiescent.lookup_arrives locatable (found.resolve_left reached) none step step
    exact .after ((lookupPositive_asks env holds memory inside before step).trans leads)
      ((quiescent.withRanges agrees).parse_follows memory holds inside locatable steps word step listed
        content starts before)

/-- Whenever a read from `start` ends in a subscription, that continues the whole history. -/
def FollowsExactly (env : Env) (world : World) (q : MemQueue) (start : UintN) (step count : Nat)
    (payload : Nat → Bytes) : Prop :=
  ∀ fuel world' sender, read env (.absolute start) 0 step world (.staying []) fuel =
    .next world' (.subscribed sender) → Continues q start.toNat step count payload world' sender

theorem history_missing (holds : q.Holds lo count payload)
    (empty : lo = count) (exists' : start.toNat < count)
    (continues : Continues q start.toNat step count payload world' (q.subscription start step []).target) :
    False := by
  have upTo := holds.upTo
  have none' : q.entries = [] := List.eq_nil_of_length_eq_zero (by omega)
  have history := continues.history
  have first : start.toNat ∈ picks start.toNat step none 0 count :=
    mem_picks.mpr ⟨by omega, hit_iff.mpr ⟨Nat.le_refl _, by rintro _ ⟨⟩, by simp⟩⟩
  rw [MemQueue.subscription, none'] at history
  have nothing : picks start.toNat step none 0 count = [] := List.map_eq_nil_iff.mp history.symm
  rw [nothing] at first
  cases first

/-- With a step of one a subscription also takes the entries before its start. -/
theorem earlier_taken (holds : q.Holds lo count payload)
    (beyond : count < start.toNat)
    (continues : Continues q start.toNat 1 count payload world' (q.subscription start 1 []).target)
    (memory : world'.mem = some (q.register (q.subscription start 1 [])).1) : False := by
  obtain ⟨q', sub, memory', subscribers, future⟩ := continues.future
  rw [memory] at memory'
  cases memory'
  obtain rfl : q.subscription start 1 [] = sub := by
    have last := (List.append_inj' subscribers rfl).2
    cases last
    rfl
  have later : ∀ e ∈ [(UintN.ofUbig count, payload 0)], count ≤ e.1.toNat := by
    intro e member
    obtain rfl := List.mem_singleton.mp member
    simp
  have called := future _ later
  rw [holds.later_taken Nat.one_pos (by decide) [] later] at called
  have unwanted : wanted start.toNat 1 none [(UintN.ofUbig count, payload 0)] = [] := by
    rw [wanted, List.filter_eq_nil_iff]
    intro e member hits
    obtain rfl := List.mem_singleton.mp member
    have above := (hit_iff.mp hits).1
    rw [UintN.toNat_ofUbig] at above
    omega
  rw [unwanted, List.map_nil, List.append_nil] at called
  have targets := congrArg Subscriber.target (Prod.mk.inj (Outcome.ok.inj called)).1
  have lengths := congrArg (fun target => target.delivered.length) targets
  simp [Sender.staying, passes] at lengths

/-- After this file the next wanted entry is in memory. -/
def HandsOver (lo count start step : Nat) (s : Segment) : Prop :=
  ∃ e, (picks start step none s.first s.entries.length).getLast? = some e ∧
    lo ≤ e + step ∧ e + step < count

def HandsOverFrom (segment : Nat → Segment) (n lo count start step i : Nat) : Prop :=
  ∃ j, i ≤ j ∧ j < n ∧ HandsOver lo count start step (segment j)

structure Skips (env : Env) (s : Nat) (world : World) (state : ReaderState) (start : Nat)
    (handsOver : Prop) : Prop where
  subscribes : handsOver → ∃ world' sender, Leads env s world state world' (.subscribed sender) ∧
    start ∉ sender.delivered.map (fun e => e.id.toNat)
  never : ¬ handsOver → ∀ world' sender, ¬ Leads env s world state world' (.subscribed sender)

theorem Skips.after {s start : Nat} {state state' : ReaderState} {handsOver : Prop}
    (leads : Leads env s world state world' state') (later : Skips env s world' state' start handsOver) :
    Skips env s world state start handsOver where
  subscribes := by
    intro yes
    obtain ⟨last, sender, ends, missing⟩ := later.subscribes yes
    exact ⟨last, sender, leads.trans ends, missing⟩
  never := by
    intro no last sender ends
    exact later.never no last sender (leads.rest ends rfl)

section Turn

variable {start step base i : Nat} {ctx : ReadContext} {delivered : List ReadEntry}

theorem Turned.cases (turned : Turned segment payload lo count start step none base i ctx delivered) :
    ctx.nextId.toNat < lo ∧
        (picks start step none (segment i).first (segment i).entries.length).getLast? = none ∨
      ∃ e, (picks start step none (segment i).first (segment i).entries.length).getLast? = some e ∧
        ctx.nextId.toNat = e + step := by
  obtain ⟨before, less, aligned, moved⟩ := turned.moved
  rw [nextAfter, aligned.picks_eq] at moved
  cases taken : (picks start step none (segment i).first (segment i).entries.length).getLast? with
  | none =>
    rw [taken] at moved
    exact .inl ⟨by rw [moved]; exact less, rfl⟩
  | some e =>
    rw [taken] at moved
    exact .inr ⟨e, rfl, moved⟩

theorem Turned.handsOver_iff
    (turned : Turned segment payload lo count start step none base i ctx delivered) :
    HandsOver lo count start step (segment i) ↔ lo ≤ ctx.nextId.toNat ∧ ctx.nextId.toNat < count := by
  rcases turned.cases with ⟨less, nothing⟩ | ⟨e, taken, next⟩
  · constructor
    · rintro ⟨e, taken, -⟩
      rw [nothing] at taken
      cases taken
    · omega
  · rw [next]
    constructor
    · rintro ⟨e', taken', handsOver⟩
      rw [taken] at taken'
      cases taken'
      exact handsOver
    · exact fun handsOver => ⟨e, taken, handsOver⟩

theorem Turned.finished
    (files : GapFree env.xxh64 env.config world.disk a n segment packed)
    (turned : Turned segment payload lo count start step none base i ctx delivered)
    (within : lo ≤ count) (beyond : count ≤ ctx.nextId.toNat) :
    ¬ HandsOverFrom segment n lo count start step i := by
  rintro ⟨j, le, listed, handsOver⟩
  rcases Nat.eq_or_lt_of_le le with rfl | less
  · have := turned.handsOver_iff.mp handsOver
    omega
  · obtain ⟨later, laterTaken, -, notBeyond⟩ := handsOver
    obtain ⟨notReached, -⟩ | ⟨e, taken, next⟩ := turned.cases
    · omega
    · have here := (mem_picks.mp (List.mem_of_getLast? taken)).1
      have there := (mem_picks.mp (List.mem_of_getLast? laterTaken)).1
      have ends := files.ends_le less listed
      omega

theorem HandsOverFrom.next {segment : Nat → Segment}
    (notHere : ¬ HandsOver lo count start step (segment i)) :
    HandsOverFrom segment n lo count start step i ↔
      HandsOverFrom segment n lo count start step (i + 1) := by
  constructor
  · rintro ⟨j, le, listed, handsOver⟩
    refine ⟨j, ?_, listed, handsOver⟩
    rcases Nat.eq_or_lt_of_le le with rfl | less
    · exact absurd handsOver notHere
    · exact less
  · rintro ⟨j, le, listed, handsOver⟩
    exact ⟨j, by omega, listed, handsOver⟩

/-- What is delivered to a read that began behind its start does not hold the start. -/
theorem Turned.start_missing (holds : q.Holds lo count payload)
    (turned : Turned segment payload lo count start step none base i ctx delivered)
    (behind : start < base) (before : start < lo) :
    start ∉ (q.subscription ctx.nextId step delivered).target.delivered.map
      (fun e => e.id.toNat) := by
  change start ∉ (delivered ++ _).map _
  rw [List.map_append, List.mem_append, not_or]
  constructor
  · intro member
    obtain ⟨e, among, same⟩ := List.mem_map.mp member
    have value : (e.id.toNat, e.data) ∈ delivered.map (fun e => (e.id.toNat, e.data)) :=
      List.mem_map_of_mem among
    rw [turned.reading.values] at value
    obtain ⟨k, picked, pair⟩ := List.mem_map.mp value
    have lower := (mem_picks.mp picked).1.1
    have number := congrArg Prod.fst pair
    simp only at number
    omega
  · intro member
    rw [List.map_map] at member
    obtain ⟨e, among, same⟩ := List.mem_map.mp member
    have lower := (holds.numbered.mem (List.mem_filter.mp among).1).1
    have number : e.1.toNat = start := same
    omega

end Turn

section

variable (quiescent : Quiescent env world a n segment packed lo count payload)

include quiescent

theorem Quiescent.parse_skips
    (memory : world.mem = some q) (holds : q.Holds lo count payload) (inside : lo < count)
    (locatable : ∀ i, i < n → Locatable world.disk (a + i) (segment i) (packed i)) (steps : 0 < step) (word : step < 2 ^ 64) (s : Nat) {i : Nat} (listed : i < n)
    {bytes : Bytes} {source : DataSource} (content : bytes.data = (segment i).bytes env.xxh64)
    (behind : start.toNat < (segment i).first) (before : start.toNat < lo) :
    Skips env s world (.parseWalBytes ⟨.ofUbig (a + i), start, step, none, .staying []⟩ bytes source)
      start.toNat (HandsOverFrom segment n lo count start.toNat step i) := by
  have reading : Reading payload start.toNat step none (segment i).first (segment i).first
      ⟨.ofUbig (a + i), start, step, none, .staying []⟩ [] :=
    .initial _ step none payload (Nat.le_refl _) (by omega) (.inl rfl)
  refine quiescent.walks locatable (.inr rfl) (fun _ => inside) steps word s
    (fun i state => Skips env s world state start.toNat
      (HandsOverFrom segment n lo count start.toNat step i)) .after ?_ ?_ ?_ ?_ ?_
    (show i + (n - i) = n by omega) listed rfl content before reading
  · rintro j l sent ⟨⟩
  · intro j ctx delivered _ turned finished
    refine ⟨fun yes => absurd yes (turned.finished quiescent.files (Nat.le_of_lt inside) finished), ?_⟩
    rintro - world' sender ⟨k, reached⟩
    rw [run_terminal rfl] at reached
    cases reached
  · intro j ctx delivered handle jListed turned upTo inside'
    have yes : HandsOverFrom segment n lo count start.toNat step j :=
      ⟨j, Nat.le_refl _, jListed, turned.handsOver_iff.mpr ⟨upTo, inside'⟩⟩
    exact ⟨fun _ => ⟨_, _, turned.subscribes holds memory steps word upTo inside' handle env s _,
      turned.start_missing holds behind before⟩, fun no => absurd yes no⟩
  · intro j ctx delivered state turned less later
    have notHere := turned.handsOver_iff.not.mpr (by omega)
    rw [HandsOverFrom.next notHere]
    exact later
  · intro j ctx delivered handle final turned less ofNext
    have notHere := turned.handsOver_iff.not.mpr (by omega)
    have no : ¬ HandsOverFrom segment n lo count start.toNat step j := by
      rw [HandsOverFrom.next notHere]
      rintro ⟨k, le, kListed, -⟩
      omega
    refine ⟨fun yes => absurd yes no, ?_⟩
    intro _ world' sender leads
    have lost : Lost world (a + n) (.readNextFile (.ofUbig (a + j)) ctx handle) := by
      refine ⟨by rw [UintN.toNat_ofUbig]; omega, quiescent.unserved less (fun _ => inside) ?_, ?_⟩
      · rw [turned.reading.stays]
        rfl
      · intro task spawned
        rw [ofNext task spawned, increment_ofUbig]
        rfl
    exact leads.never (fun _ => Lost.running)
      (fun _ => lost_step quiescent.cloud quiescent.files.emptyFrom s) lost

theorem Quiescent.absolute_skips
    (memory : world.mem = some q) (holds : q.Holds lo count payload) (inside : lo < count)
    (locatable : ∀ i, i < n → Locatable world.disk (a + i) (segment i) (packed i)) (steps : 0 < step) (word : step < 2 ^ 64) (before : start.toNat < lo)
    (hidden : ¬ FoundBefore world.disk a n segment start.toNat) :
    ∃ l < n, FirstFound world.disk (a + l) ∧ (∀ k, FirstFound world.disk (a + k) → l ≤ k) ∧
      Skips env step world (.lookupPositive start 0 (.staying [])) start.toNat
        (HandsOverFrom segment n lo count start.toNat step l) := by
  obtain ⟨f, fListed, -⟩ := quiescent.covered _ before
  have linked := quiescent.files.toLinked
  obtain ⟨first, listed, last, lastListed, bounds, isFirst, -⟩ := fileBounds_ends
    quiescent.files.walOnly quiescent.files.storeOnly (linked.listed (by omega))
  obtain ⟨l, upTo, found⟩ := (isFirst first).mp (Nat.le_refl _)
  obtain rfl : l = first := Nat.le_antisymm upTo ((isFirst l).mpr ⟨l, Nat.le_refl _, found⟩)
  have behind : start.toNat < (segment l).first := by
    by_contra notBehind
    exact hidden ⟨l, listed, found, Nat.le_of_not_lt notBehind⟩
  obtain ⟨_, ranged⟩ := (linked.endsAt locatable lastListed).range
  obtain ⟨ranges, bytes, source, agrees, content, leads⟩ := quiescent.looks_up listed
    (findFile_bounds bounds (searchFiles_below linked locatable listed ranged behind)) none step step
  exact ⟨l, listed, found, fun k isFound => (isFirst k).mpr ⟨k, Nat.le_refl _, isFound⟩,
    .after ((lookupPositive_asks env holds memory inside before step).trans leads)
      ((quiescent.withRanges agrees).parse_skips memory holds inside locatable steps word step listed
        content behind before)⟩

/-- A read that begins behind its start misses history whenever it ends in a subscription. -/
theorem Quiescent.follows_hidden_iff
    (memory : world.mem = some q) (holds : q.Holds lo count payload) (inside : lo < count)
    (locatable : ∀ i, i < n → Locatable world.disk (a + i) (segment i) (packed i)) (steps : 0 < step) (word : step < 2 ^ 64) (before : start.toNat < lo)
    (hidden : ¬ FoundBefore world.disk a n segment start.toNat) :
    FollowsExactly env world q start step count payload ↔
      ∀ l, FirstFound world.disk (a + l) →
        ¬ HandsOverFrom segment n lo count start.toNat step l := by
  obtain ⟨l, listed, found, least, skips⟩ :=
    quiescent.absolute_skips memory holds inside locatable steps word before hidden
  constructor
  · rintro exact' k isFound ⟨j, le, jListed, handsOver⟩
    have notAfter := least k isFound
    obtain ⟨world', sender, ⟨fuel, ends⟩, missing⟩ :=
      skips.subscribes ⟨j, by omega, jListed, handsOver⟩
    have history := (exact' fuel world' sender ends).history
    have wanted' : start.toNat ∈ picks start.toNat step none 0 count :=
      mem_picks.mpr ⟨by omega, hit_iff.mpr ⟨Nat.le_refl _, by rintro _ ⟨⟩, by simp⟩⟩
    refine missing ?_
    have ids := congrArg (List.map Prod.fst) history
    rw [selection, List.map_map, List.map_map] at ids
    have same : (Prod.fst ∘ fun n => (n, payload n)) = (id : Nat → Nat) := rfl
    rw [same, List.map_id] at ids
    rw [← ids] at wanted'
    exact wanted'
  · intro none' fuel world' sender ends
    exact (skips.never (none' l found) world' sender ⟨fuel, ends⟩).elim

end

/- A subscription continues the history exactly when memory is not empty or nothing is wanted yet,
the start is not behind the next entry or the step is not one, and the read is not sent to a file
behind its start from which it comes to memory. -/
theorem follow_history_iff (quiescent : Quiescent env world a n segment packed lo count payload)
    (memory : world.mem = some q) (holds : q.Holds lo count payload)
    (locatable : ∀ i, i < n → Locatable world.disk (a + i) (segment i) (packed i)) (start : UintN)
    {step : Nat} (steps : 0 < step) (word : step < 2 ^ 64) :
    FollowsExactly env world q start step count payload ↔
      (lo < count ∨ count ≤ start.toNat) ∧ (start.toNat ≤ count ∨ step ≠ 1) ∧
      (lo ≤ start.toNat ∨ FoundBefore world.disk a n segment start.toNat ∨
        ∀ l, FirstFound world.disk (a + l) →
          ¬ HandsOverFrom segment n lo count start.toNat step l) := by
  have upTo := holds.upTo
  by_cases answers : lo < count ∨ count ≤ start.toNat
  · by_cases near : start.toNat ≤ count ∨ step ≠ 1
    · by_cases found : lo ≤ start.toNat ∨ FoundBefore world.disk a n segment start.toNat
      · refine iff_of_true ?_ ⟨answers, near, by tauto⟩
        intro fuel world' sender ends
        obtain ⟨last, final, leads, terminal, continues⟩ :=
          quiescent.absolute_follows memory holds locatable steps word found answers near
        have same := leads.unique ⟨fuel, ends⟩ terminal rfl
        cases same
        exact continues sender rfl
      · obtain ⟨before, hidden⟩ := not_or.mp found
        rw [quiescent.follows_hidden_iff memory holds (answers.resolve_right (by omega)) locatable steps
          word (Nat.lt_of_not_le before) hidden]
        exact ⟨fun none' => ⟨answers, near, .inr (.inr none')⟩,
          fun condition => (condition.2.2.resolve_left before).resolve_left hidden⟩
    · refine iff_of_false ?_ (fun condition => near condition.2.1)
      intro exact'
      obtain ⟨behind, single⟩ := not_or.mp near
      obtain rfl : step = 1 := not_not.mp single
      obtain ⟨fuel, ends⟩ := lookupPositive_subscribes env holds memory steps word
        (show lo ≤ start.toNat ∨ lo = count by omega)
      exact earlier_taken holds (by omega) (exact' fuel _ _ ends) rfl
  · refine iff_of_false ?_ (fun condition => answers condition.1)
    intro exact'
    obtain ⟨fuel, ends⟩ := lookupPositive_subscribes env holds memory steps word
      (show lo ≤ start.toNat ∨ lo = count by omega)
    exact history_missing holds (by omega) (by omega) (exact' fuel _ _ ends)

end Reader

open Sample

/- Three files with one entry each, the last entry also in memory: the first two come from their
files, the third with the subscription. -/
theorem follow_history_three_files :
    FollowsExactly Sample.env (Sample.world 1 1 2) (newest 2 3) .zero 1 3 (fun _ => Sample.payload) :=
  (follow_history_iff (row_quiescent 1 1 2 (by decide) (by decide)) rfl
    (newest_holds (by decide) (by decide) (by decide)) (fun i _ => row_locatable 1 1 i) .zero
    (by decide) (by decide)).mpr ⟨.inl (by decide), .inl (by decide), .inr (.inl ⟨0, by decide,
      (row_gapFree 1 1 (by decide)).firstFound (by decide) (by decide), by decide⟩)⟩

/- After recovery memory is empty: three entries exist, and a read from the first one subscribes
without any of them. -/
theorem follow_skips_history :
    Quiescent Sample.env (Sample.world 1 1 3) 1 3 oneEntry (fun i => packed (number i)) 3 3
      (fun _ => Sample.payload) ∧
    ∃ world' sender, read Sample.env (.absolute .zero) 0 1 (Sample.world 1 1 3) (.staying []) 2 =
        .next world' (.subscribed sender) ∧ sender.delivered = [] := by
  refine ⟨row_quiescent 1 1 3 (by decide) (by decide), ?_⟩
  have ran : (read Sample.env (.absolute .zero) 0 1 (Sample.world 1 1 3) (.staying []) 2).subscribedSender.any
      (fun sender => decide (sender.delivered = [])) = true := by decide +kernel
  obtain ⟨sender, subscribed, delivered⟩ := (Option.any_eq_true _ _).mp ran
  obtain ⟨world', ends⟩ := Move.subscribedSender_eq_some subscribed
  exact ⟨world', sender, ends, of_decide_eq_true delivered⟩

end NormFS
