import NormFS.Mem.Calls
import NormFS.Reader.Walk

/-! The limit and the step of a request, which nothing checks. They are multiplied in a machine word, the
step divides in the subscriptions and drives the loops over the entries in memory. -/
namespace NormFS

/-- What memory can hold: a queue after any calls. -/
def Content (q : MemQueue) : Prop :=
  ∃ lastId maxMemoryUsage calls final,
    Runs.run MemRun.step (.start lastId maxMemoryUsage) calls = some final ∧ final.queue = q

theorem Content.represents {q : MemQueue} (content : Content q) : q.Represents := by
  obtain ⟨lastId, maxMemoryUsage, calls, final, ran, rfl⟩ := content
  exact (MemRun.Consistent.run maxMemoryUsage ran).represents

theorem content_new (lastId : Option UintN) : Content (.new lastId 0) := ⟨lastId, 0, [], _, rfl, rfl⟩

def StartsAt : ReadPosition → UintN → Prop
  | .absolute offset, startId => startId = offset
  | .shiftFromTail offset, startId =>
    ∃ q lastId, Content q ∧ q.lastId = some lastId ∧ startId = MemQueue.tailStart lastId offset

def lookup (world : World) (position : ReadPosition) (limit step : Nat) (sender : Sender) : Move :=
  match position with
  | .absolute offset => handleLookupPositive world offset limit step sender
  | .shiftFromTail offset => handleLookupNegative world offset limit step sender

/-- A request asks memory at first, and again behind every file. -/
def Asks (position : ReadPosition) (limit step : Nat) (world : World) (move : Move) : Prop :=
  (∃ sender, move = lookup world position limit step sender) ∨
    ∃ startId nextId sender otherwise, StartsAt position startId ∧ startId.toNat ≤ nextId.toNat ∧
      move = fromMemory world nextId (boundOf startId limit step) step sender otherwise

structure RequestSafe (position : ReadPosition) (limit step : Nat) : Prop where
  bound : 0 < limit → ∀ startId, StartsAt position startId →
    ∃ last, boundOf startId limit step = some last ∧ last.toNat = startId.toNat + (limit - 1) * step
  ends : ∀ {world : World} {q : MemQueue}, world.mem = some q → Content q →
    ¬ Asks position limit step world .hang
  divides : ∀ {world after : World} {state : ReaderState} {q queue : MemQueue} {key : Nat} {sub : Subscriber},
    world.mem = some q → Content q → Asks position limit step world (.next after state) →
    after.mem = some queue → (key, sub) ∈ queue.subscribers → (key, sub) ∉ q.subscribers →
    ∀ (first : UintN) (batch : List Bytes), queue.nextId.toNat ≤ first.toNat →
      sub.call (MemQueue.numbered first batch) ≠ .panic

/-- An unbounded request needs a step. A bounded one needs a product that fits, and from the tail a step
too, unless it reads one entry at most. -/
def WithinWord (position : ReadPosition) (limit step : Nat) : Prop :=
  if limit = 0 then 0 < step
  else (limit - 1) * step < 2 ^ 64 ∧
    (step = 0 → limit = 1 ∨ ∀ offset, position = .shiftFromTail offset → offset.toNat = 0)

section Bound

theorem boundOf_wraps {startId last : UintN} {limit step : Nat} (found : boundOf startId limit step = some last)
    (large : 2 ^ 64 ≤ (limit - 1) * step) : last.toNat ≠ startId.toNat + (limit - 1) * step := by
  unfold boundOf at found
  split at found
  · cases found
    have reduced := Nat.mod_lt ((limit - 1) * step) (show 0 < 2 ^ 64 by decide)
    rw [UintN.toNat_add, UintN.toNat_ofU64, BitVec.toNat_ofNat]
    omega
  · cases found

end Bound

section Loops

variable {current : UintN}

/-- With a step of zero the loop stays where it is. -/
theorem catchUp_stuck {fuel : Nat} {id : UintN} (behind : current.toNat < id.toNat) :
    catchUp 0 none fuel current id = none := by
  induction fuel generalizing current with
  | zero => rw [catchUp, if_pos ((UintN.lt_iff _ _).mpr behind)]
  | succ fuel ih =>
    rw [catchUp, if_pos ((UintN.lt_iff _ _).mpr behind)]
    dsimp only
    rw [if_neg (by simp)]
    apply ih
    rw [UintN.toNat_stepBy _ _ (by decide)]
    exact behind

/-- A bound that is reached ends the loop whatever the step. -/
theorem collect_bounded {step : Nat} (word : step < 2 ^ 64) {last : UintN} (reached : last.toNat ≤ current.toNat)
    (room : Option Nat) (entries : List Entry) :
    ∃ collected, collect step (some last) room current entries = some collected := by
  induction entries generalizing current room with
  | nil => exact ⟨[], rfl⟩
  | cons e entries ih =>
    obtain ⟨id, data⟩ := e
    rw [collect]
    split
    · exact ⟨_, rfl⟩
    · rename_i inside
      have within : id.toNat ≤ last.toNat := by
        by_contra beyond
        apply inside
        have past : last < id := (UintN.lt_iff _ _).mpr (Nat.lt_of_not_le beyond)
        simp [past]
      rw [catchUp_reached (by omega)]
      change ∃ collected, (if current == id then _ else _) = some collected
      split
      · have next := UintN.toNat_stepBy current step word
        obtain ⟨later, rest⟩ := @ih (current.stepBy step) (by omega) (room.map (· - 1))
        exact ⟨(id, data) :: later, by rw [rest]; rfl⟩
      · exact ih reached room

/-- One entry at most: it is where the loop starts, and then there is no room or no other. -/
theorem collect_single {step : Nat} {entries : List Entry}
    (numbered : Numbered current.toNat entries) {room : Option Nat} (single : room = some 1 ∨ entries.length ≤ 1) :
    ∃ collected, collect step none room current entries = some collected := by
  cases entries with
  | nil => exact ⟨[], rfl⟩
  | cons e entries =>
    obtain ⟨id, data⟩ := e
    obtain ⟨number, -⟩ := numbered_cons.mp numbered
    have same : (current == id) = true := (UintN.beq_iff _ _).mpr number.symm
    have rest : ∃ later, collect step none (room.map (· - 1)) (current.stepBy step) entries = some later := by
      rcases single with rfl | short
      · cases entries with
        | nil => exact ⟨[], rfl⟩
        | cons next entries => exact ⟨[], by simp [collect]⟩
      · obtain rfl : entries = [] := List.length_eq_zero_iff.mp (by simpa using short)
        exact ⟨[], rfl⟩
    obtain ⟨later, collected⟩ := rest
    rw [collect]
    split
    · exact ⟨_, rfl⟩
    · rw [catchUp_reached (Nat.le_of_eq number)]
      change ∃ collected, (if current == id then _ else _) = some collected
      rw [if_pos same, collected]
      exact ⟨_, rfl⟩

end Loops

/-! The calls of memory return where their loop does. -/

namespace MemQueue

variable {q : MemQueue} {step : Nat}

theorem readFull_ends {start endId : UintN}
    (ends : ∃ collected, collect step (some endId) none start (q.since start) = some collected) (target : Sender) :
    ∃ answer, q.readFull start endId step target = some answer := by
  obtain ⟨collected, found⟩ := ends
  unfold readFull
  cases q.lastId with
  | none => exact ⟨_, rfl⟩
  | some last =>
    dsimp only
    split
    · exact ⟨_, rfl⟩
    · cases q.firstId with
      | none => exact ⟨_, rfl⟩
      | some first =>
        dsimp only
        split
        · exact ⟨_, rfl⟩
        · rw [found]
          exact ⟨_, rfl⟩

/-- What a follower leaves of the queue: itself, or itself with one subscription of that step. -/
def FollowedBy (q : MemQueue) (step : Nat) (queue : MemQueue) : Prop :=
  queue = q ∨ ∃ sub : Subscriber, sub.step = step ∧ queue = (q.register sub).1

theorem followFull_ends {start : UintN} (ends : ∃ collected, collect step none none start (q.since start) = some collected)
    (fromId : UintN) (target : Sender) :
    ∃ result sender queue, q.followFull fromId start step target = some (result, sender, queue) ∧
      q.FollowedBy step queue := by
  obtain ⟨collected, found⟩ := ends
  have snapshot : ∃ taken, q.followSnapshot start step = some taken := by
    unfold followSnapshot
    cases q.firstId with
    | none => exact ⟨_, rfl⟩
    | some first =>
      dsimp only
      split
      · exact ⟨_, rfl⟩
      · rw [found]
        exact ⟨_, rfl⟩
  obtain ⟨taken, snapshot⟩ := snapshot
  unfold followFull
  rw [snapshot]
  cases taken with
  | none => exact ⟨_, _, _, rfl, .inl rfl⟩
  | some entries =>
    cases sent : target.sendAll entries with
    | mk sender all =>
      simp only [Option.bind_eq_bind, Option.bind_some, sent]
      cases all with
      | false => exact ⟨_, _, _, rfl, .inl rfl⟩
      | true => exact ⟨_, _, _, rfl, .inr ⟨_, rfl, rfl⟩⟩

theorem followFullNegative_ends {offset : UintN}
    (ends : ∀ last, q.lastId = some last → ∃ collected,
      collect step none none (tailStart last offset) (q.since (tailStart last offset)) = some collected)
    (target : Sender) :
    ∃ result sender queue, q.followFullNegative offset step target = some (result, sender, queue) ∧
      q.FollowedBy step queue := by
  unfold followFullNegative
  split
  · exact ⟨_, _, _, rfl, .inr ⟨_, rfl, rfl⟩⟩
  · cases lastId : q.lastId with
    | none => exact ⟨_, _, _, rfl, .inl rfl⟩
    | some last =>
      obtain ⟨collected, found⟩ := ends last lastId
      cases firstId : q.firstId with
      | none => exact ⟨_, _, _, rfl, .inl rfl⟩
      | some first =>
        dsimp only
        split
        · exact ⟨_, _, _, rfl, .inl rfl⟩
        · cases sent : target.sendAll collected with
          | mk sender all =>
            simp only [found, Option.bind_eq_bind, Option.bind_some, sent]
            cases all with
            | false => exact ⟨_, _, _, rfl, .inl rfl⟩
            | true => exact ⟨_, _, _, rfl, .inr ⟨_, rfl, rfl⟩⟩

end MemQueue

theorem MemQueue.Represents.window {q : MemQueue} (represents : q.Represents) {last first : UintN}
    (lastId : q.lastId = some last) (firstId : q.firstId = some first) : ∃ lo, q.Window lo last.toNat := by
  obtain ⟨lo, numbered⟩ := represents.contiguous
  have filled : q.entries ≠ [] := by
    intro empty
    have none' := represents.firstId
    rw [firstId, empty] at none'
    cases none'
  obtain ⟨e, rest, shape⟩ := List.exists_cons_of_ne_nil filled
  have next := represents.number_last filled numbered
  rw [MemQueue.nextId, lastId] at next
  simp only [UintN.toNat_increment] at next
  have positive : 0 < q.entries.length := List.length_pos_of_ne_nil filled
  refine ⟨lo, by omega, numbered, by omega, ?_, by rw [lastId]; rfl⟩
  rw [represents.firstId, shape]
  rw [shape] at numbered
  exact congrArg some (numbered_cons.mp numbered).1

namespace MemQueue.Window

variable {q : MemQueue} {lo last : Nat}

theorem first_eq (window : q.Window lo last) {first : UintN} (firstId : q.firstId = some first) :
    lo = first.toNat := by
  have value := window.firstId
  rw [firstId] at value
  exact (Option.some.inj value).symm

theorem since_last (window : q.Window lo last) {start : UintN} (atLast : start.toNat = last) :
    (q.since start).length ≤ 1 := by
  have inhabited := window.inhabited
  have numbered : Numbered start.toNat (q.since start) := window.numbered.since (by omega)
  have within : ∀ e ∈ q.since start, e.1.toNat < last + 1 := by
    intro e member
    have bound := (window.numbered.mem (List.dropWhile_subset _ member)).2
    rwa [window.upTo] at bound
  rcases shape : q.since start with _ | ⟨e, _ | ⟨next, rest⟩⟩
  · simp
  · simp
  · rw [shape] at numbered within
    have second := (numbered_cons.mp (numbered_cons.mp numbered).2).1
    have bound := within next (by simp)
    omega

end MemQueue.Window

section Handlers

variable {world : World} {q : MemQueue} {limit step : Nat} {sender : Sender}

/-- The next state of a move and the queue it leaves, which is the old one or has one subscription more. -/
def Settled (q : MemQueue) (step : Nat) (move : Move) : Prop :=
  move ≠ .hang ∧ ∀ after state queue, move = .next after state → after.mem = some queue → q.FollowedBy step queue

theorem settled_next (mem : world.mem = some q) (state : ReaderState) : Settled q step (.next world state) := by
  refine ⟨by rintro ⟨⟩, ?_⟩
  rintro after state' queue same held
  cases same
  rw [mem] at held
  cases held
  exact .inl rfl

theorem settled_followed {queue : MemQueue} (followed : q.FollowedBy step queue) (state : ReaderState) :
    Settled q step (.next { world with mem := some queue } state) := by
  refine ⟨by rintro ⟨⟩, ?_⟩
  rintro after state' queue' same held
  cases same
  cases held
  exact followed

theorem settled_error (error : ReaderError) : Settled q step (.error error) :=
  ⟨by rintro ⟨⟩, by rintro after state queue ⟨⟩⟩

theorem fromMemory_bounded (mem : world.mem = some q) {nextId endId : UintN}
    (ends : ∃ collected, collect step (some endId) none nextId (q.since nextId) = some collected)
    (otherwise : Sender → ReaderState) :
    ∃ state, fromMemory world nextId (some endId) step sender otherwise = .next world state := by
  obtain ⟨⟨result, sent⟩, answered⟩ := MemQueue.readFull_ends ends sender
  unfold fromMemory
  rw [mem]
  dsimp only
  rw [answered]
  exact ⟨_, rfl⟩

theorem fromMemory_following (mem : world.mem = some q) {nextId : UintN}
    (ends : ∃ collected, collect step none none nextId (q.since nextId) = some collected)
    (otherwise : Sender → ReaderState) :
    Settled q step (fromMemory world nextId none step sender otherwise) := by
  obtain ⟨result, sent, queue, answered, followed⟩ := MemQueue.followFull_ends ends nextId sender
  unfold fromMemory
  rw [mem]
  dsimp only
  rw [answered]
  exact settled_followed followed _

theorem handleLookupNegative_bounded (mem : world.mem = some q) {offset : UintN} (limited : 0 < limit)
    (ends : ∃ answer, q.readFullNegative offset step limit sender = some answer) :
    handleLookupNegative world offset limit step sender = .error .queueNotFound ∨
      ∃ state, handleLookupNegative world offset limit step sender = .next world state := by
  obtain ⟨⟨result, sent⟩, answered⟩ := ends
  unfold handleLookupNegative
  split
  · exact .inr ⟨_, rfl⟩
  · rw [mem]
    dsimp only
    rw [answered]
    dsimp only
    split
    · exact .inr ⟨_, rfl⟩
    · cases result.startId with
      | none => exact .inl rfl
      | some startId => exact .inr ⟨_, rfl⟩

theorem handleLookupNegative_following (mem : world.mem = some q) {offset : UintN}
    (ends : ∀ last, q.lastId = some last → ∃ collected,
      collect step none none (MemQueue.tailStart last offset) (q.since (MemQueue.tailStart last offset)) =
        some collected) :
    Settled q step (handleLookupNegative world offset 0 step sender) := by
  obtain ⟨result, sent, queue, answered, followed⟩ := MemQueue.followFullNegative_ends ends sender
  unfold handleLookupNegative
  split
  · exact settled_next mem _
  · rw [mem]
    dsimp only
    rw [if_neg (Nat.lt_irrefl 0), answered]
    dsimp only
    split
    · exact settled_followed followed _
    · cases result.startId with
      | none => exact settled_error _
      | some startId => exact settled_followed followed _

end Handlers

theorem call_divides {sub : Subscriber} (steps : 0 < sub.step) (word : sub.step < 2 ^ 64) (entries : List Entry) :
    sub.call entries ≠ .panic := by
  induction entries generalizing sub with
  | nil => rintro ⟨⟩
  | cons e entries ih =>
    obtain ⟨id, data⟩ := e
    unfold Subscriber.call
    split
    · exact ih steps word
    · rw [inStep_passes id sub.fromId steps word, Outcome.ok_bind]
      split
      · split
        · exact ih steps word
        · rintro ⟨⟩
      · exact ih steps word

section Safe

variable {position : ReadPosition} {limit step : Nat}

theorem asks_stepping (steps : 0 < step) (word : step < 2 ^ 64) {world : World} {q : MemQueue}
    (mem : world.mem = some q) {move : Move} (asks : Asks position limit step world move) :
    Settled q step move := by
  have bounded : ∀ nextId endId, ∃ collected,
      collect step (some endId) none nextId (q.since nextId) = some collected :=
    fun nextId endId => collect_ends steps word _ _ _ _
  have following : ∀ nextId, ∃ collected, collect step none none nextId (q.since nextId) = some collected :=
    fun nextId => collect_ends steps word _ _ _ _
  have memory : ∀ nextId lastId sender otherwise,
      Settled q step (fromMemory world nextId lastId step sender otherwise) := by
    intro nextId lastId sender otherwise
    cases lastId with
    | none => exact fromMemory_following mem (following nextId) otherwise
    | some endId =>
      have answered : ∃ state, fromMemory world nextId (some endId) step sender otherwise = .next world state :=
        fromMemory_bounded mem (bounded nextId endId) otherwise
      obtain ⟨state, answered⟩ := answered
      rw [answered]
      exact settled_next mem state
  rcases asks with ⟨sender, rfl⟩ | ⟨startId, nextId, sender, otherwise, -, -, rfl⟩
  · cases position with
    | absolute offset =>
      change Settled q step (handleLookupPositive world offset limit step sender)
      unfold handleLookupPositive
      split
      · exact settled_next mem _
      · exact memory _ _ _ _
    | shiftFromTail offset =>
      change Settled q step (handleLookupNegative world offset limit step sender)
      rcases Nat.eq_zero_or_pos limit with rfl | limited
      · exact handleLookupNegative_following mem (fun last _ => following _)
      · rcases handleLookupNegative_bounded mem limited (q.readFullNegative_ends offset steps word limit sender) with
          failed | ⟨state, answered⟩
        · rw [failed]
          exact settled_error _
        · rw [answered]
          exact settled_next mem state
  · exact memory _ _ _ _

theorem asks_single (limited : 0 < limit)
    (single : limit = 1 ∨ ∀ offset, position = .shiftFromTail offset → offset.toNat = 0) {world : World}
    {q : MemQueue} (mem : world.mem = some q) (content : Content q) {move : Move}
    (asks : Asks position limit 0 world move) : move = .error .queueNotFound ∨ ∃ state, move = .next world state := by
  have memory : ∀ startId nextId sender otherwise, startId.toNat ≤ nextId.toNat →
      ∃ state, fromMemory world nextId (boundOf startId limit 0) 0 sender otherwise = .next world state := by
    intro startId nextId sender otherwise ordered
    obtain ⟨last, bound, value⟩ := @boundOf_exact startId limit 0 limited (by simp)
    rw [bound]
    exact fromMemory_bounded mem (collect_bounded (by decide) (by omega) _ _) otherwise
  rcases asks with ⟨sender, rfl⟩ | ⟨startId, nextId, sender, otherwise, -, ordered, rfl⟩
  · cases position with
    | absolute offset =>
      right
      change ∃ state, handleLookupPositive world offset limit 0 sender = _
      unfold handleLookupPositive
      split
      · exact ⟨_, rfl⟩
      · exact memory _ _ _ _ (Nat.le_refl _)
    | shiftFromTail offset =>
      apply handleLookupNegative_bounded mem limited
      apply MemQueue.readFullNegative_returns
      intro last first lastId firstId reached
      rw [if_pos limited]
      obtain ⟨lo, window⟩ := content.represents.window lastId firstId
      have start := MemQueue.toNat_tailStart last offset
      apply collect_single (window.numbered.since (by rw [window.first_eq firstId]; exact reached))
      rcases single with rfl | fromLast
      · exact .inl rfl
      · right
        apply window.since_last
        rw [start, fromLast offset rfl, Nat.sub_zero]
  · exact .inr (memory _ _ _ _ ordered)

end Safe

/-! Requests that are not answered. -/

section Unsafe

def twoEntries : MemQueue where
  entries := [(.u8 0, .empty), (.u8 1, .empty)]
  lastId := some (.u8 1)
  firstId := some (.u8 0)
  lastAckedId := none
  memoryUsage := 0
  maxMemoryUsage := 0
  subscribers := []
  nextSubscriberId := 0

theorem content_twoEntries : Content twoEntries :=
  ⟨none, 0, [.update (.enqueue .empty), .update (.enqueue .empty)], _, rfl, rfl⟩

def worldOf (q : MemQueue) : World := ⟨⟨[], []⟩, [], some q, none⟩

theorem collect_twoEntries {start : UintN} (first : start.toNat = 0) {room : Option Nat}
    (roomy : room ≠ some 0 ∧ room ≠ some 1) : collect 0 none room start (twoEntries.since start) = none := by
  have whole : twoEntries.since start = twoEntries.entries := by
    apply List.dropWhile_cons_of_neg
    simp [UintN.lt_iff, first]
  have here : (start == UintN.u8 0) = true := by
    rw [UintN.beq_iff, first]
    rfl
  have room' : room.map (· - 1) ≠ some 0 := by
    intro full
    obtain ⟨n, rfl, small⟩ := Option.map_eq_some_iff.mp full
    have cases' : n = 0 ∨ n = 1 := by omega
    rcases cases' with rfl | rfl
    · exact roomy.1 rfl
    · exact roomy.2 rfl
  have behind : (start.stepBy 0).toNat < (UintN.u8 1).toNat := by
    rw [UintN.toNat_stepBy _ _ (by decide), first]
    decide
  rw [whole]
  unfold twoEntries collect
  rw [if_neg (by simpa using roomy.1), catchUp_reached (Nat.zero_le _)]
  change (if start == UintN.u8 0 then _ else _) = none
  rw [if_pos here]
  unfold collect
  rw [if_neg (by simpa using room'), catchUp_stuck behind]
  rfl

theorem tailStart_twoEntries {offset : UintN} (back : offset.toNat ≠ 0) :
    (MemQueue.tailStart (.u8 1) offset).toNat = 0 := by
  rw [MemQueue.toNat_tailStart]
  change 1 - offset.toNat = 0
  omega

theorem lookup_stuck {offset : UintN} (back : offset.toNat ≠ 0) {limit : Nat} (several : limit ≠ 1) :
    lookup (worldOf twoEntries) (.shiftFromTail offset) limit 0 (.staying []) = .hang := by
  have first := tailStart_twoEntries back
  have early : ¬ MemQueue.tailStart (.u8 1) offset < .u8 0 := by
    rw [UintN.lt_iff, first]
    exact Nat.lt_irrefl 0
  have notZero : (offset == UintN.zero) = false := by
    rw [Bool.eq_false_iff]
    intro zero
    exact back ((UintN.beq_iff _ _).mp zero)
  change handleLookupNegative (worldOf twoEntries) offset limit 0 (.staying []) = _
  rcases Nat.eq_zero_or_pos limit with rfl | limited
  · have waits := @collect_twoEntries _ first none ⟨by simp, by simp⟩
    have stuck : twoEntries.followFullNegative offset 0 (.staying []) = none := by
      unfold MemQueue.followFullNegative
      rw [if_neg (by simp [notZero])]
      change (if MemQueue.tailStart (.u8 1) offset < .u8 0 then _ else _) = none
      rw [if_neg early, waits]
      rfl
    unfold handleLookupNegative worldOf
    dsimp only
    rw [stuck]
    rfl
  · have waits := @collect_twoEntries _ first (some limit)
      ⟨by simpa using Nat.ne_of_gt limited, by simpa using several⟩
    have stuck : twoEntries.readFullNegative offset 0 limit (.staying []) = none := by
      unfold MemQueue.readFullNegative
      change (if MemQueue.tailStart (.u8 1) offset < .u8 0 then _ else _) = none
      rw [if_neg early, if_pos limited, waits]
      rfl
    unfold handleLookupNegative worldOf
    dsimp only
    rw [if_pos limited, stuck]
    rfl

theorem inStep_zero (id : UintN) : (id.inStep id 0 : Outcome Unit Bool) = .panic := by
  obtain ⟨difference, subtracted, -⟩ := UintN.sub_ok id id (Nat.le_refl _)
  have notLess : ¬ id < id := by
    rw [UintN.lt_iff]
    exact Nat.lt_irrefl _
  unfold UintN.inStep
  rw [if_neg (by decide), if_neg notLess, subtracted]
  rfl

/-- A subscription without a step divides by zero at the first entry it is about. -/
theorem call_zero (fromId : UintN) (target : Sender) :
    (Subscriber.mk fromId 0 none target).call (MemQueue.numbered fromId [.empty]) = .panic := by
  unfold MemQueue.numbered Subscriber.call
  dsimp only
  rw [inStep_zero]
  rfl

theorem not_safe_of_registers {position : ReadPosition} (fromId : UintN) {after : World} {state : ReaderState}
    {queue : MemQueue}
    (registered : lookup (worldOf (.new none 0)) position 0 0 (.staying []) = .next after state)
    (held : after.mem = some queue) (shape : queue = ((MemQueue.new none 0).register ⟨fromId, 0, none, .staying []⟩).1) :
    ¬ RequestSafe position 0 0 := by
  intro safe
  have asks : Asks position 0 0 (worldOf (.new none 0)) (.next after state) := .inl ⟨.staying [], registered.symm⟩
  have member : (0, (⟨fromId, 0, none, .staying []⟩ : Subscriber)) ∈ queue.subscribers := by
    rw [shape]
    exact List.mem_singleton_self _
  refine safe.divides rfl (content_new none) asks held member ?_ fromId [.empty] ?_ (call_zero _ _)
  · intro before
    cases before
  · rw [shape]
    exact Nat.zero_le _

theorem not_safe_unstepped (position : ReadPosition) : ¬ RequestSafe position 0 0 := by
  cases position with
  | absolute offset => exact not_safe_of_registers offset rfl rfl rfl
  | shiftFromTail offset =>
    by_cases back : offset.toNat = 0
    · have zero : (offset == UintN.zero) = true := (UintN.beq_iff _ _).mpr back
      have registered : (MemQueue.new none 0).followFullNegative offset 0 (.staying []) =
          some (⟨true, some .zero, some 0⟩, .staying [],
            ((MemQueue.new none 0).register ⟨.zero, 0, none, .staying []⟩).1) := if_pos zero
      have subscribed : lookup (worldOf (.new none 0)) (.shiftFromTail offset) 0 0 (.staying []) =
          .next (worldOf ((MemQueue.new none 0).register ⟨.zero, 0, none, .staying []⟩).1)
            (.subscribed (.staying [])) := by
        change handleLookupNegative (worldOf (.new none 0)) offset 0 0 (.staying []) = _
        unfold handleLookupNegative worldOf
        dsimp only
        rw [registered]
        rfl
      exact not_safe_of_registers .zero subscribed rfl rfl
    · intro safe
      exact safe.ends rfl content_twoEntries (.inl ⟨_, (lookup_stuck back (by decide)).symm⟩)

end Unsafe

theorem exists_start (position : ReadPosition) : ∃ startId, StartsAt position startId := by
  cases position with
  | absolute offset => exact ⟨offset, rfl⟩
  | shiftFromTail offset => exact ⟨_, .new (some .zero) 0, .zero, content_new _, rfl, rfl⟩

theorem RequestSafe.within {position : ReadPosition} {limit step : Nat} (safe : RequestSafe position limit step) :
    WithinWord position limit step := by
  unfold WithinWord
  split
  · rename_i unlimited
    subst unlimited
    by_contra none'
    obtain rfl : step = 0 := by omega
    exact not_safe_unstepped position safe
  · rename_i limited
    constructor
    · obtain ⟨startId, starts⟩ := exists_start position
      obtain ⟨last, found, value⟩ := safe.bound (Nat.pos_of_ne_zero limited) startId starts
      by_contra large
      exact boundOf_wraps found (Nat.le_of_not_lt large) value
    · rintro rfl
      by_contra neither
      rw [not_or] at neither
      obtain ⟨several, away⟩ := neither
      obtain ⟨offset, away⟩ := not_forall.mp away
      obtain ⟨rfl, back⟩ := Classical.not_imp.mp away
      exact safe.ends rfl content_twoEntries (.inl ⟨_, (lookup_stuck back several).symm⟩)

theorem WithinWord.safe {position : ReadPosition} {limit step : Nat} (word : step < 2 ^ 64)
    (within : WithinWord position limit step) : RequestSafe position limit step := by
  unfold WithinWord at within
  have bound : 0 < limit → (limit - 1) * step < 2 ^ 64 := by
    intro limited
    rw [if_neg (Nat.ne_of_gt limited)] at within
    exact within.1
  rcases Nat.eq_zero_or_pos step with rfl | steps
  · have limited : 0 < limit := by
      by_contra unlimited
      rw [if_pos (by omega)] at within
      exact absurd within (Nat.lt_irrefl 0)
    rw [if_neg (Nat.ne_of_gt limited)] at within
    have single := within.2 rfl
    refine ⟨fun limited _ _ => boundOf_exact limited (bound limited), ?_, ?_⟩
    · intro world q mem content asks
      rcases asks_single limited single mem content asks with failed | ⟨state, next⟩
      · cases failed
      · cases next
    · intro world after state q queue key sub mem content asks held among new'
      rcases asks_single limited single mem content asks with failed | ⟨state', next⟩
      · cases failed
      · cases next
        rw [mem] at held
        cases held
        exact absurd among new'
  · refine ⟨fun limited _ _ => boundOf_exact limited (bound limited), ?_, ?_⟩
    · intro world q mem _ asks
      exact (asks_stepping steps word mem asks).1 rfl
    · intro world after state q queue key sub mem _ asks held among new' first batch _
      have followed := (asks_stepping steps word mem asks).2 after state queue rfl held
      rcases followed with rfl | ⟨added, stepping, rfl⟩
      · exact absurd among new'
      · rcases List.mem_append.mp among with before | last
        · exact absurd before new'
        · obtain ⟨-, rfl⟩ := Prod.mk.inj (List.mem_singleton.mp last)
          exact call_divides (stepping ▸ steps) (stepping ▸ word) _

/- A request is safe exactly when its product fits a machine word and, where it subscribes or reads more
than one entry from the tail, its step is not zero. -/
theorem request_safe_iff (position : ReadPosition) (limit step : BitVec 64) :
    RequestSafe position limit.toNat step.toNat ↔ WithinWord position limit.toNat step.toNat :=
  ⟨RequestSafe.within, WithinWord.safe step.isLt⟩

/- Three entries with a step of 2^63 from 0 on, and a subscription to everything with a step of zero. -/
theorem request_unsafe :
    boundOf (.u8 0) 3 (2 ^ 63) = some (.u8 0) ∧
    lookup (worldOf twoEntries) (.absolute (.u8 0)) 0 0 (.staying []) = .hang ∧
    (Subscriber.mk (.u8 0) 0 none (.staying [])).call [(.u8 0, .empty)] = .panic := by
  refine ⟨by decide +kernel, ?_, ?_⟩
  · rfl
  · rfl

end NormFS
