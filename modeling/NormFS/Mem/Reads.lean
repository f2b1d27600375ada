import NormFS.Mem.Queue
import NormFS.Wal.Range

/-! What memory answers when it holds the entries from some number on. -/
namespace NormFS

open Stride

/-- The queue has had `count` entries and memory holds those from number `lo` on. -/
structure MemQueue.Holds (q : MemQueue) (lo count : Nat) (payload : Nat → Bytes) : Prop where
  numbered : Numbered lo q.entries
  upTo : lo + q.entries.length = count
  stored : ∀ e ∈ q.entries, e.2 = payload e.1.toNat
  firstId : q.firstId = q.entries.head?.map Prod.fst
  lastId : q.lastId.map UintN.toNat = if count = 0 then none else some (count - 1)

section Collect

variable {step : Nat}

variable {entries : List Entry}

/-- The number after a picked one is the cursor for the rest. -/
theorem wanted_step {current : Nat} {last : Option Nat}
    (steps : 0 < step) (numbered : Numbered (current + 1) entries) :
    wanted (current + step) step last entries = wanted current step last entries := by
  have aligned : Aligned current step (current + 1) (current + step) :=
    ⟨by omega, by simp, .inr (by omega)⟩
  apply List.filter_congr
  intro e member
  exact aligned.hit_eq (numbered.mem member).1

theorem catchUp_reached {endId : Option UintN} {current id : UintN} (reached : id.toNat ≤ current.toNat) :
    catchUp step endId (id.toNat - current.toNat) current id = some current := by
  have ordered : ¬ current < id := by
    rw [UintN.lt_iff]
    omega
  rw [Nat.sub_eq_zero_of_le reached, catchUp, if_neg ordered]

/- Among consecutive entries the inner loop never runs: the current number is never behind. -/
theorem collect_numbered (steps : 0 < step) (word : step < 2 ^ 64) {lo : Nat}
    (numbered : Numbered lo entries) (current : UintN) (reached : lo ≤ current.toNat) (endId : Option UintN) :
    collect step endId none current entries =
      some (wanted current.toNat step (endId.map UintN.toNat) entries) := by
  induction entries generalizing lo current with
  | nil => rfl
  | cons e entries ih =>
    obtain ⟨id, data⟩ := e
    obtain ⟨number, rest⟩ := numbered_cons.mp numbered
    simp only at number
    have next := UintN.toNat_stepBy current step word
    rw [collect, catchUp_reached (by omega)]
    by_cases past : ∃ last ∈ endId, last.toNat < id.toNat
    · obtain ⟨last, bound, less⟩ := past
      rw [Option.mem_def] at bound
      subst bound
      have outside : (some last).any (fun last => decide (last < id)) = true := by
        simpa [UintN.lt_iff] using less
      rw [outside, Option.map_some, wanted_past numbered (by omega)]
      rfl
    · have inside : endId.any (fun last => decide (last < id)) = false := by
        rw [Bool.eq_false_iff]
        intro some'
        obtain ⟨last, bound, less⟩ := (Option.any_eq_true ..).mp some'
        exact past ⟨last, bound, (UintN.lt_iff _ _).mp (of_decide_eq_true less)⟩
      have within : ∀ l ∈ endId.map UintN.toNat, id.toNat ≤ l := by
        intro l some'
        obtain ⟨last, bound, rfl⟩ := Option.map_eq_some_iff.mp some'
        by_contra beyond
        exact past ⟨last, bound, by omega⟩
      rw [inside]
      by_cases same : current.toNat = id.toNat
      · have equal : (current == id) = true := (UintN.beq_iff _ _).mpr same
        have hits : hit current.toNat step (endId.map UintN.toNat) id.toNat = true :=
          hit_iff.mpr ⟨by omega, within, by simp [same]⟩
        have later := ih rest (current.stepBy step) (by omega)
        have rebased : wanted (current.toNat + step) step (endId.map UintN.toNat) entries = _ :=
          wanted_step steps (by rwa [same, number])
        rw [next, rebased] at later
        simp [equal, later, wanted, hits]
      · have different : (current == id) = false := by
          rw [Bool.eq_false_iff]
          exact fun equal => same ((UintN.beq_iff _ _).mp equal)
        have miss : hit current.toNat step (endId.map UintN.toNat) id.toNat = false := by
          rw [Bool.eq_false_iff]
          intro hits
          have := (hit_iff.mp hits).1
          omega
        simp [different, ih rest current (by omega), wanted, miss]

theorem collect_room (steps : 0 < step) (word : step < 2 ^ 64) {lo : Nat}
    (numbered : Numbered lo entries) (current : UintN) (reached : lo ≤ current.toNat) (room : Nat)
    {last : Nat} (balance : last + step = current.toNat + room * step) :
    collect step none (some room) current entries =
      some (wanted current.toNat step (some last) entries) := by
  induction entries generalizing lo current room with
  | nil => rfl
  | cons e entries ih =>
    obtain ⟨id, data⟩ := e
    obtain ⟨number, rest⟩ := numbered_cons.mp numbered
    simp only at number
    have next := UintN.toNat_stepBy current step word
    rw [collect, catchUp_reached (by omega)]
    cases room with
    | zero =>
      have nothing : wanted current.toNat step (some last) ((id, data) :: entries) = [] := by
        rw [wanted, List.filter_eq_nil_iff]
        intro e _ hits
        obtain ⟨above, below, -⟩ := hit_iff.mp hits
        have := below last rfl
        omega
      rw [nothing]
      rfl
    | succ room =>
      rw [Nat.succ_mul] at balance
      by_cases same : current.toNat = id.toNat
      · have equal : (current == id) = true := (UintN.beq_iff _ _).mpr same
        have hits : hit current.toNat step (some last) id.toNat = true := by
          refine hit_iff.mpr ⟨by omega, ?_, by simp [same]⟩
          rintro l ⟨⟩
          omega
        have later := ih rest (current.stepBy step) (by omega) room (by omega)
        have rebased : wanted (current.toNat + step) step (some last) entries = _ :=
          wanted_step steps (by rwa [same, number])
        rw [next, rebased] at later
        simp [equal, later, wanted, hits]
      · have different : (current == id) = false := by
          rw [Bool.eq_false_iff]
          exact fun equal => same ((UintN.beq_iff _ _).mp equal)
        have miss : hit current.toNat step (some last) id.toNat = false := by
          rw [Bool.eq_false_iff]
          intro hits
          have := (hit_iff.mp hits).1
          omega
        have later := ih rest current (by omega) (room + 1) (by rw [Nat.succ_mul]; omega)
        simp [different, later, wanted, miss]

end Collect

theorem Numbered.since {lo : Nat} {entries : List Entry} (numbered : Numbered lo entries)
    {start : UintN} (reached : lo ≤ start.toNat) :
    Numbered start.toNat (entries.dropWhile (fun e => decide (e.1 < start))) := by
  induction entries generalizing lo with
  | nil => simp [Numbered]
  | cons e entries ih =>
    obtain ⟨number, rest⟩ := numbered_cons.mp numbered
    rw [List.dropWhile_cons]
    split
    · rename_i before
      have := (UintN.lt_iff _ _).mp (of_decide_eq_true before)
      exact ih rest (by omega)
    · rename_i after
      have : ¬ e.1.toNat < start.toNat := fun less => after (decide_eq_true ((UintN.lt_iff _ _).mpr less))
      have same : lo = start.toNat := by omega
      exact same ▸ numbered

theorem wanted_since (start : UintN) (step : Nat) (last : Option Nat) (entries : List Entry) :
    wanted start.toNat step last (entries.dropWhile (fun e => decide (e.1 < start))) =
      wanted start.toNat step last entries := by
  induction entries with
  | nil => rfl
  | cons e entries ih =>
    rw [List.dropWhile_cons]
    split
    · rename_i before
      have less := (UintN.lt_iff _ _).mp (of_decide_eq_true before)
      have miss : hit start.toNat step last e.1.toNat = false := by
        rw [Bool.eq_false_iff]
        intro hits
        have := (hit_iff.mp hits).1
        omega
      rw [ih]
      simp [wanted, miss]
    · rfl

def memoryEntry (e : Entry) : ReadEntry := ⟨e.1, e.2, .memory⟩

theorem sendAll_offer (target : Sender) (entries : List Entry) :
    (target.sendAll entries).1 = target.offer (entries.map memoryEntry) := by
  induction entries generalizing target with
  | nil => rfl
  | cons e entries ih =>
    unfold Sender.sendAll Sender.sendEntry
    rw [List.map_cons, Sender.offer, memoryEntry]
    cases target.send ⟨e.1, e.2, .memory⟩ with
    | none => rfl
    | some next => exact ih next

theorem sendAll_staying (delivered : List ReadEntry) (entries : List Entry) :
    (Sender.staying delivered).sendAll entries =
      (.staying (delivered ++ entries.map memoryEntry), true) := by
  induction entries generalizing delivered with
  | nil => simp [Sender.sendAll]
  | cons e entries ih => simp [Sender.sendAll, Sender.sendEntry, ih, memoryEntry]

theorem MemQueue.toNat_tailStart (lastId offset : UintN) :
    (tailStart lastId offset).toNat = lastId.toNat - offset.toNat := by
  unfold tailStart
  split
  · rename_i less
    have := (UintN.lt_iff _ _).mp less
    simp only [UintN.toNat_zero]
    omega
  · rename_i notLess
    have ordered : offset.toNat ≤ lastId.toNat := by
      rw [UintN.lt_iff] at notLess
      omega
    obtain ⟨difference, subtracted, value⟩ := UintN.sub_ok lastId offset ordered
    rw [subtracted]
    exact value

structure MemQueue.Window (q : MemQueue) (lo last : Nat) : Prop where
  inhabited : lo ≤ last
  numbered : Numbered lo q.entries
  upTo : lo + q.entries.length = last + 1
  firstId : q.firstId.map UintN.toNat = some lo
  lastId : q.lastId.map UintN.toNat = some last

namespace MemQueue.Window

variable {q : MemQueue} {lo last : Nat}

theorem readFull_offers (window : q.Window lo last) {step : Nat} (steps : 0 < step) (word : step < 2 ^ 64)
    {start : UintN} (reached : lo ≤ start.toNat) (inside : start.toNat ≤ last) (endId : UintN)
    (target : Sender) : q.readFull start endId step target = some (⟨true, none, none⟩, target.offer
      ((wanted start.toNat step (some endId.toNat) q.entries).map memoryEntry)) := by
  obtain ⟨lastId, found, lastValue⟩ := Option.map_eq_some_iff.mp window.lastId
  obtain ⟨firstId, held, firstValue⟩ := Option.map_eq_some_iff.mp window.firstId
  have notBeyond : ¬ lastId < start := by
    rw [UintN.lt_iff]
    omega
  have notBefore : ¬ start < firstId := by
    rw [UintN.lt_iff]
    omega
  have sent := collect_numbered steps word (window.numbered.since reached) start (Nat.le_refl _) (some endId)
  rw [Option.map_some, wanted_since] at sent
  simp [readFull, found, held, notBeyond, notBefore, since, sent, sendAll_offer]

/-- A read from the tail starts at a number of its own and then reads like any other. -/
theorem readFullNegative_offers (window : q.Window lo last) {step : Nat} (steps : 0 < step)
    (word : step < 2 ^ 64) {limit : Nat} (positive : 0 < limit) (offset : UintN)
    (reached : lo ≤ last - offset.toNat) (target : Sender) :
    ∃ startId, q.readFullNegative offset step limit target =
      some (⟨(target.sendAll (wanted (last - offset.toNat) step
          (some (last - offset.toNat + (limit - 1) * step)) q.entries)).2, startId, none⟩,
        target.offer ((wanted (last - offset.toNat) step
          (some (last - offset.toNat + (limit - 1) * step)) q.entries).map memoryEntry)) := by
  obtain ⟨lastId, found, lastValue⟩ := Option.map_eq_some_iff.mp window.lastId
  obtain ⟨firstId, held, firstValue⟩ := Option.map_eq_some_iff.mp window.firstId
  have start := toNat_tailStart lastId offset
  rw [lastValue] at start
  have notBefore : ¬ tailStart lastId offset < firstId := by
    rw [UintN.lt_iff]
    omega
  have balance : last - offset.toNat + (limit - 1) * step + step =
      (tailStart lastId offset).toNat + limit * step := by
    obtain ⟨k, rfl⟩ := Nat.exists_eq_add_of_lt positive
    rw [start]
    simp only [Nat.zero_add, Nat.add_sub_cancel, Nat.succ_mul]
    omega
  have sent := collect_room steps word (window.numbered.since (by omega)) (tailStart lastId offset)
    (Nat.le_refl _) limit balance
  rw [wanted_since, start] at sent
  -- The first wanted number is in memory, so there is something to send.
  have nonempty : wanted (last - offset.toNat) step
      (some (last - offset.toNat + (limit - 1) * step)) q.entries ≠ [] := by
    intro none'
    have ids := wanted_ids (last - offset.toNat) step
      (some (last - offset.toNat + (limit - 1) * step)) window.numbered
    rw [none', List.map_nil] at ids
    have member : last - offset.toNat ∈ ([] : List Nat) := by
      rw [ids, mem_picks, window.upTo]
      refine ⟨⟨reached, by omega⟩, hit_iff.mpr ⟨Nat.le_refl _, ?_, by simp⟩⟩
      rintro l ⟨⟩
      omega
    cases member
  refine ⟨some (tailStart lastId offset), ?_⟩
  simp [readFullNegative, found, held, notBefore, positive, since, sent, ← sendAll_offer, nonempty]

end MemQueue.Window

namespace MemQueue.Holds

variable {q : MemQueue} {lo count : Nat} {payload : Nat → Bytes}

theorem lastId_some (holds : q.Holds lo count payload) (inhabited : 0 < count) :
    ∃ last, q.lastId = some last ∧ last.toNat = count - 1 := by
  have last := holds.lastId
  rw [if_neg (by omega)] at last
  exact Option.map_eq_some_iff.mp last

theorem lastId_none (holds : q.Holds lo 0 payload) : q.lastId = none := by
  have last := holds.lastId
  rw [if_pos rfl] at last
  exact Option.map_eq_none_iff.mp last

section

variable (holds : q.Holds lo count payload)

include holds

theorem firstId_some (inside : lo < count) :
    ∃ first, q.firstId = some first ∧ first.toNat = lo := by
  have entries := holds.upTo
  cases list : q.entries with
  | nil =>
    rw [list, List.length_nil] at entries
    omega
  | cons e rest =>
    have numbered := holds.numbered
    rw [list] at numbered
    exact ⟨e.1, by rw [holds.firstId, list]; rfl, (numbered_cons.mp numbered).1⟩

theorem firstId_above {first : UintN} (found : q.firstId = some first) :
    lo ≤ first.toNat := by
  have entries := holds.firstId
  rw [found] at entries
  obtain ⟨e, head, rfl⟩ := Option.map_eq_some_iff.mp entries.symm
  exact (holds.numbered.mem (List.mem_of_head? head)).1

theorem values {start : Nat} (reached : lo ≤ start) (step : Nat)
    (last : Option Nat) :
    (wanted start step last q.entries).map valueOf =
      (picks start step last 0 count).map (fun n => (n, payload n)) := by
  have before : picks start step last 0 lo = [] := picks_below (by omega)
  have split := picks_append start step last 0 lo q.entries.length
  rw [holds.upTo, before, List.nil_append, Nat.zero_add] at split
  rw [wanted_values start step last holds.numbered holds.stored, split]

theorem window (inside : lo < count) : q.Window lo (count - 1) := by
  obtain ⟨last, lastId, lastValue⟩ := holds.lastId_some (by omega)
  obtain ⟨first, firstId, firstValue⟩ := holds.firstId_some inside
  have upTo := holds.upTo
  exact ⟨by omega, holds.numbered, by omega, by rw [firstId, Option.map_some, firstValue],
    by rw [lastId, Option.map_some, lastValue]⟩

end

variable {start : UintN}

section

variable (holds : q.Holds lo count payload)

include holds

theorem readFull_sends {step : Nat} (steps : 0 < step)
    (word : step < 2 ^ 64) (reached : lo ≤ start.toNat) (inside : start.toNat < count)
    (endId : UintN) (delivered : List ReadEntry) :
    q.readFull start endId step (.staying delivered) = some (⟨true, none, none⟩, .staying (delivered ++
      (wanted start.toNat step (some endId.toNat) q.entries).map memoryEntry)) := by
  rw [(holds.window (by omega)).readFull_offers steps word reached (by omega), Sender.offer_staying]

theorem readFull_beyond (beyond : count ≤ start.toNat)
    (endId : UintN) (step : Nat) (target : Sender) :
    q.readFull start endId step target = some (⟨true, none, none⟩, target) := by
  rcases Nat.eq_zero_or_pos count with rfl | inhabited
  · simp [readFull, holds.lastId_none]
  · obtain ⟨last, lastId, lastValue⟩ := holds.lastId_some inhabited
    have after : last < start := by
      rw [UintN.lt_iff]
      omega
    simp [readFull, lastId, after]

theorem readFull_before (before : start.toNat < lo)
    (endId : UintN) (step : Nat) (target : Sender) :
    q.readFull start endId step target = some (.fail, target) := by
  have upTo := holds.upTo
  obtain ⟨last, lastId, lastValue⟩ := holds.lastId_some (by omega)
  have notBeyond : ¬ last < start := by
    rw [UintN.lt_iff]
    omega
  cases firstId : q.firstId with
  | none => simp [readFull, lastId, firstId, notBeyond]
  | some first =>
    have above := holds.firstId_above firstId
    have earlier : start < first := by
      rw [UintN.lt_iff]
      omega
    simp [readFull, lastId, firstId, notBeyond, earlier]

theorem readFullNegative_sends {step : Nat} (steps : 0 < step)
    (word : step < 2 ^ 64) {limit : Nat} (positive : 0 < limit) (offset : UintN) (inhabited : 0 < count)
    (reached : lo ≤ count - 1 - offset.toNat) (delivered : List ReadEntry) :
    ∃ startId, q.readFullNegative offset step limit (.staying delivered) =
      some (⟨true, startId, none⟩, .staying (delivered ++ (wanted (count - 1 - offset.toNat) step
        (some (count - 1 - offset.toNat + (limit - 1) * step)) q.entries).map memoryEntry)) := by
  obtain ⟨startId, sends⟩ := (holds.window (by omega)).readFullNegative_offers steps word positive
    offset reached (.staying delivered)
  rw [sendAll_staying, Sender.offer_staying] at sends
  exact ⟨startId, sends⟩

end

theorem readFullNegative_none (holds : q.Holds lo 0 payload) (offset : UintN) (step limit : Nat)
    (target : Sender) : q.readFullNegative offset step limit target = some (⟨true, some .zero, none⟩, target) := by
  simp [readFullNegative, holds.lastId_none]

theorem readFullNegative_before (holds : q.Holds lo count payload) (offset : UintN)
    (before : count - 1 - offset.toNat < lo) (step limit : Nat) (target : Sender) :
    ∃ startId, q.readFullNegative offset step limit target = some (⟨false, some startId, none⟩, target) ∧
      startId.toNat = count - 1 - offset.toNat := by
  have upTo := holds.upTo
  obtain ⟨last, lastId, lastValue⟩ := holds.lastId_some (by omega)
  have start := toNat_tailStart last offset
  rw [lastValue] at start
  refine ⟨tailStart last offset, ?_, start⟩
  cases firstId : q.firstId with
  | none => simp [readFullNegative, lastId, firstId]
  | some first =>
    have above := holds.firstId_above firstId
    have earlier : tailStart last offset < first := by
      rw [UintN.lt_iff]
      omega
    simp [readFullNegative, lastId, firstId, earlier]

end MemQueue.Holds

end NormFS
