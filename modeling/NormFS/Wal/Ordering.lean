import Mathlib.Algebra.Group.Nat.Even
import NormFS.Wal.Layout

/-! Which arrivals leave the ordering buffer empty. The direct path writes the next entry without
looking at the buffer, so an entry that closes a gap leaves its successor waiting although it is
now the next one. The arrival after it empties the buffer up to the next gap. -/
namespace NormFS

namespace OrderedBuffer

def pendingIds (buffer : OrderedBuffer) : List Nat := buffer.pending.map (fun e => e.1.toNat)

/-- The next entry is waiting in the buffer. -/
def stuck (buffer : OrderedBuffer) : Bool := buffer.pendingIds.contains (nextId buffer.lastWrittenId)

structure Tracks (start : Nat) (arrived : List Nat) (buffer : OrderedBuffer) : Prop where
  nodup : buffer.pendingIds.Nodup
  above : ∀ x ∈ buffer.pendingIds, nextId buffer.lastWrittenId ≤ x
  exact : ∀ x, x ∈ arrived ↔ (start ≤ x ∧ x < nextId buffer.lastWrittenId) ∨ x ∈ buffer.pendingIds
  begun : start ≤ nextId buffer.lastWrittenId

theorem tracks_new (lastId : Option UintN) : Tracks (nextId lastId) [] (new lastId) where
  nodup := List.nodup_nil
  above := by simp [pendingIds, new]
  exact := by
    intro x
    simp [pendingIds, new]
  begun := Nat.le_refl _

variable {start : Nat} {arrived : List Nat} {buffer : OrderedBuffer}

theorem Tracks.direct {id : UintN}
    (tracks : Tracks start arrived buffer) (fresh : id.toNat ∉ arrived)
    (next : id.toNat = nextId buffer.lastWrittenId) :
    Tracks start (id.toNat :: arrived) { buffer with lastWrittenId := some id } := by
  have notPending : id.toNat ∉ buffer.pendingIds := fun member =>
    fresh ((tracks.exact _).mpr (.inr member))
  have begun := tracks.begun
  refine ⟨tracks.nodup, ?_, ?_, ?_⟩
  · intro x member
    have lower := tracks.above x member
    have other : x ≠ id.toNat := fun same => notPending (same ▸ member)
    rw [nextId_some]
    omega
  · intro x
    have old := tracks.exact x
    rw [List.mem_cons, old, nextId_some]
    change _ ↔ _ ∨ x ∈ buffer.pendingIds
    constructor
    · rintro (rfl | ⟨lower, upper⟩ | member)
      · exact .inl ⟨by omega, by omega⟩
      · exact .inl ⟨lower, by omega⟩
      · exact .inr member
    · rintro (⟨lower, upper⟩ | member)
      · by_cases same : x = id.toNat
        · exact .inl same
        · exact .inr (.inl ⟨lower, by omega⟩)
      · exact .inr (.inr member)
  · rw [nextId_some]
    omega

theorem mem_ids_consecutive {first : Nat} {entries : List Entry}
    (numbered : Numbered first entries) (x : Nat) :
    x ∈ entries.map (fun e => e.1.toNat) ↔ first ≤ x ∧ x < first + entries.length := by
  rw [numbered, List.mem_range'_1]

/-- In a sorted buffer whose first entry is not the next one and none is older, the next one is
not there at all. -/
theorem not_stuck_of_sorted
    (sorted : buffer.pending.Pairwise (fun a b => a.1.toNat ≤ b.1.toNat))
    (above : ∀ x ∈ buffer.pendingIds, nextId buffer.lastWrittenId ≤ x)
    (stops : ∀ e ∈ buffer.pending.head?, e.1.toNat ≠ nextId buffer.lastWrittenId) :
    buffer.stuck = false := by
  rw [Bool.eq_false_iff, stuck, ne_eq, List.contains_iff_mem]
  intro waiting
  obtain ⟨e, member, same⟩ := List.mem_map.mp waiting
  unfold pendingIds at above
  cases pending : buffer.pending with
  | nil => simp [pending] at member
  | cons head rest =>
    rw [pending] at sorted member above
    have other := stops head (by rw [pending]; rfl)
    have lower := above head.1.toNat (List.mem_map.mpr ⟨head, by simp, rfl⟩)
    rcases List.mem_cons.mp member with rfl | inRest
    · exact other same
    · have first := (List.pairwise_cons.mp sorted).1 e inRest
      omega

/-- An arrival that has to wait. Whatever it lets go, the next entry is not left in the buffer. -/
theorem Tracks.waited (sort : UnstableSort)
    {entry : Entry} (tracks : Tracks start arrived buffer) (fresh : entry.1.toNat ∉ arrived)
    (later : nextId buffer.lastWrittenId < entry.1.toNat) :
    Tracks start (entry.1.toNat :: arrived) (buffer.waitForOrder sort entry).2 ∧
      (buffer.waitForOrder sort entry).2.stuck = false := by
  obtain ⟨whole, numbered, count, stops⟩ := waitForOrder_spec sort buffer entry
  generalize buffer.waitForOrder sort entry = result at *
  obtain ⟨ready, after⟩ := result
  dsimp only at *
  have ids : (ready.map (fun e => e.1.toNat) ++ after.pendingIds).Perm
      (entry.1.toNat :: buffer.pendingIds) := by
    have shuffled := ((sort.perm (buffer.pending ++ [entry])).trans
      List.perm_append_comm).map (fun e : Entry => e.1.toNat)
    rw [← whole, List.map_append] at shuffled
    exact shuffled
  have notPending : entry.1.toNat ∉ buffer.pendingIds := fun member =>
    fresh ((tracks.exact _).mpr (.inr member))
  have distinct : (ready.map (fun e => e.1.toNat) ++ after.pendingIds).Nodup :=
    ids.nodup_iff.mpr (List.nodup_cons.mpr ⟨notPending, tracks.nodup⟩)
  have drained := mem_ids_consecutive numbered
  have either : ∀ x, (x = entry.1.toNat ∨ x ∈ buffer.pendingIds) ↔
      x ∈ ready.map (fun e => e.1.toNat) ∨ x ∈ after.pendingIds := by
    intro x
    rw [← List.mem_cons, ← ids.mem_iff, List.mem_append]
  have above : ∀ x ∈ after.pendingIds, nextId after.lastWrittenId ≤ x := by
    intro x member
    have notReady : x ∉ ready.map (fun e => e.1.toNat) := fun inReady =>
      (List.nodup_append.mp distinct).2.2 x inReady x member rfl
    have lower : nextId buffer.lastWrittenId ≤ x := by
      rcases (either x).mpr (.inr member) with rfl | old
      · omega
      · exact tracks.above x old
    rw [drained] at notReady
    omega
  have sorted : after.pending.Pairwise (fun a b => a.1.toNat ≤ b.1.toNat) := by
    have all := sort.sorted (buffer.pending ++ [entry])
    rw [← whole] at all
    exact (List.pairwise_append.mp all).2.1
  have begun := tracks.begun
  refine ⟨⟨(List.nodup_append.mp distinct).2.1, above, ?_, by omega⟩,
    not_stuck_of_sorted sorted above stops⟩
  intro x
  have old := tracks.exact x
  have split := either x
  have inReady := drained x
  rw [List.mem_cons]
  grind

theorem Tracks.accept (sort : UnstableSort)
    {entry : Entry} (tracks : Tracks start arrived buffer) (fresh : entry.1.toNat ∉ arrived)
    (within : start ≤ entry.1.toNat) :
    Tracks start (entry.1.toNat :: arrived) (buffer.accept sort entry).2 ∧
      (buffer.accept sort entry).2.stuck = (decide (entry.1.toNat = nextId buffer.lastWrittenId) &&
        buffer.pendingIds.contains (entry.1.toNat + 1)) := by
  unfold OrderedBuffer.accept canWrite checkCanWrite
  by_cases next : entry.1.toNat = nextId buffer.lastWrittenId
  · rw [(follows_iff _ _).mpr next]
    simp only [if_true, next, decide_true, Bool.true_and]
    rw [← next]
    exact ⟨tracks.direct fresh next, rfl⟩
  · have notNext : follows buffer.lastWrittenId entry.1 = false := by
      rw [Bool.eq_false_iff, ne_eq, follows_iff]
      exact next
    have later : nextId buffer.lastWrittenId < entry.1.toNat := by
      have notWritten := mt (tracks.exact entry.1.toNat).mpr fresh
      omega
    simp only [notNext, Bool.false_eq_true, if_false, next, decide_false, Bool.false_and]
    exact tracks.waited sort fresh later

end OrderedBuffer

/-- An arrival that closes the lowest gap right below an entry that is already there. -/
def closesGap (earlier : List Nat) (arrival : Nat) (later : List Nat) : Bool :=
  later.all (fun other => decide (arrival < other)) && earlier.contains (arrival + 1)

def gapClosings : List Nat → List Nat → List Bool
  | _, [] => []
  | earlier, arrival :: later =>
    closesGap earlier arrival later :: gapClosings (arrival :: earlier) later

/-- How many arrivals at the end, one after the other, close a gap. -/
def trailingGapClosings (arrivals : List Nat) : Nat :=
  ((gapClosings [] arrivals).reverse.takeWhile id).length

/-- Toggling on a flag and resetting without it counts the flags at the end modulo two. -/
theorem toggle_eq_odd (flags : List Bool) :
    flags.foldl (fun state flag => !state && flag) false =
      decide (¬ Even (flags.reverse.takeWhile id).length) := by
  induction flags using List.reverseRecOn with
  | nil => rfl
  | append_singleton flags flag ih =>
    rw [List.foldl_concat, ih, List.reverse_concat]
    cases flag with
    | false => simp
    | true => simp [Nat.even_add_one, -Nat.not_even_iff_odd]

namespace OrderedBuffer

structure Arrivals (start count : Nat) (arrived later : List Nat) : Prop where
  nodup : (arrived ++ later).Nodup
  exact : ∀ x, x ∈ arrived ++ later ↔ start ≤ x ∧ x < start + count

variable {start count : Nat} {arrived : List Nat} {buffer : OrderedBuffer}

theorem Arrivals.step {arrival : Nat} {later : List Nat}
    (arrivals : Arrivals start count arrived (arrival :: later)) :
    Arrivals start count (arrival :: arrived) later := by
  have moved : (arrived ++ arrival :: later).Perm (arrival :: arrived ++ later) := List.perm_middle
  exact ⟨moved.nodup_iff.mp arrivals.nodup, fun x => by rw [← moved.mem_iff]; exact arrivals.exact x⟩

theorem stuck_step {later : List Nat} {arrival : Nat} (tracks : Tracks start arrived buffer)
    (arrivals : Arrivals start count arrived (arrival :: later)) :
    (decide (arrival = nextId buffer.lastWrittenId) && buffer.pendingIds.contains (arrival + 1)) =
      (!buffer.stuck && closesGap arrived arrival later) := by
  have fresh : arrival ∉ arrived := fun member =>
    (List.nodup_append.mp arrivals.nodup).2.2 arrival member arrival (by simp) rfl
  have range := (arrivals.exact arrival).mp (by simp)
  cases waiting : buffer.stuck with
  | true =>
    rw [stuck, List.contains_iff_mem] at waiting
    have other : arrival ≠ nextId buffer.lastWrittenId := fun same =>
      fresh ((tracks.exact _).mpr (.inr (same ▸ waiting)))
    simp [other]
  | false =>
    rw [stuck, Bool.eq_false_iff, ne_eq, List.contains_iff_mem] at waiting
    have nextMissing : nextId buffer.lastWrittenId ∉ arrived := by
      intro member
      rcases (tracks.exact _).mp member with ⟨_, less⟩ | member
      · omega
      · exact waiting member
    have notBelow : nextId buffer.lastWrittenId ≤ arrival := by
      have := mt (tracks.exact arrival).mpr fresh
      omega
    rw [Bool.eq_iff_iff, closesGap]
    simp only [Bool.and_eq_true, decide_eq_true_eq, List.contains_iff_mem, Bool.not_false, true_and,
      List.all_eq_true]
    constructor
    · rintro ⟨same, member⟩
      refine ⟨?_, (tracks.exact _).mpr (.inr member)⟩
      intro other later'
      have distinct := List.nodup_append.mp arrivals.nodup
      have otherFresh : other ∉ arrived := fun old => distinct.2.2 other old other (by simp [later']) rfl
      have otherRange := (arrivals.exact other).mp (by simp [later'])
      have otherNe : other ≠ arrival := fun eq =>
        (List.nodup_cons.mp distinct.2.1).1 (eq ▸ later')
      have := mt (tracks.exact other).mpr otherFresh
      omega
    · rintro ⟨least, successor⟩
      have same : arrival = nextId buffer.lastWrittenId := by
        by_contra other
        have begun := tracks.begun
        have inside := (arrivals.exact (nextId buffer.lastWrittenId)).mpr ⟨begun, by omega⟩
        rcases List.mem_append.mp inside with old | rest
        · exact nextMissing old
        · rcases List.mem_cons.mp rest with eq | rest
          · exact other eq.symm
          · have := least _ rest
            omega
      refine ⟨same, ?_⟩
      rcases (tracks.exact _).mp successor with ⟨_, less⟩ | member
      · omega
      · exact member

theorem acceptAll_stuck (sort : UnstableSort) (entries : List Entry) (tracks : Tracks start arrived buffer)
    (arrivals : Arrivals start count arrived (entries.map (fun e => e.1.toNat))) :
    (∃ all, Arrivals start count all [] ∧ Tracks start all (buffer.acceptAll sort entries).2) ∧
    (buffer.acceptAll sort entries).2.stuck =
      (gapClosings arrived (entries.map (fun e => e.1.toNat))).foldl
        (fun state flag => !state && flag) buffer.stuck := by
  induction entries generalizing arrived buffer with
  | nil => exact ⟨⟨arrived, arrivals, tracks⟩, rfl⟩
  | cons entry entries ih =>
    rw [List.map_cons] at arrivals ⊢
    have fresh : entry.1.toNat ∉ arrived := fun member =>
      (List.nodup_append.mp arrivals.nodup).2.2 _ member _ (by simp) rfl
    have range := (arrivals.exact entry.1.toNat).mp (by simp)
    obtain ⟨tracks', flag⟩ := tracks.accept sort fresh range.1
    rw [stuck_step tracks arrivals] at flag
    obtain ⟨final, later⟩ := ih tracks' arrivals.step
    rw [acceptAll_cons, gapClosings, List.foldl_cons, ← flag]
    exact ⟨final, later⟩

/-- Once everything has arrived, the buffer is empty unless the next entry waits in it. -/
theorem pending_nil_iff
    (tracks : Tracks start arrived buffer) (arrivals : Arrivals start count arrived []) :
    buffer.pending = [] ↔ buffer.stuck = false := by
  rw [← List.map_eq_nil_iff (f := fun e : Entry => e.1.toNat)]
  change buffer.pendingIds = [] ↔ _
  rw [stuck, Bool.eq_false_iff, ne_eq, List.contains_iff_mem]
  constructor
  · intro empty
    rw [empty]
    exact List.not_mem_nil
  · intro free
    rw [List.eq_nil_iff_forall_not_mem]
    intro x member
    have begun := tracks.begun
    have lower := tracks.above x member
    have old := (tracks.exact x).mpr (.inr member)
    have range := (arrivals.exact x).mp (by simpa using old)
    have next := (arrivals.exact (nextId buffer.lastWrittenId)).mpr ⟨begun, by omega⟩
    rcases (tracks.exact _).mp (by simpa using next) with ⟨_, less⟩ | waiting
    · omega
    · exact free waiting

end OrderedBuffer

open OrderedBuffer

/-- The numbers of the entries handed to the file writers, in order. -/
def WriterState.handedIds (s : WriterState) : List Nat :=
  s.files.flatMap (fun f => f.writes.map (fun w => w.1.toNat))

theorem Wrote.handedIds {xxh64 : Hash} {announced : Prop} {first firstFile : Nat}
    {s : WriterState} {entries : List Entry}
    (wrote : Wrote xxh64 announced first firstFile s entries) :
    s.handedIds = entries.map (fun e => e.1.toNat) ∧ Numbered first entries := by
  obtain ⟨closed, opened, inv, rfl⟩ := wrote
  refine ⟨?_, inv.numbered⟩
  have laid : List.Forall₂ (LaidOut xxh64 announced) s.files (closed ++ [opened]) :=
    List.rel_append inv.completed (.cons inv.current .nil)
  have flat : closed.flatten ++ opened = (closed ++ [opened]).flatten := by simp
  rw [flat]
  exact laidOut_ids laid

/- Of the arrivals of the numbers from the next one on, each once, exactly those whose trailing
run of gap closings is even leave nothing in the ordering buffer. -/
theorem no_write_left_behind_iff (xxh64 : Hash) (sort : UnstableSort)
    (lastWrittenId : Option UintN) (fileId : UintN) (header : WalHeader) (maxFileSize count : Nat)
    (requests : List WriteRequest)
    (once : ((requests.flatMap WriteRequest.entries).map (fun e => e.1.toNat)).Perm
      (List.range' (nextId lastWrittenId) count)) :
    let s := ((WriterState.new fileId header maxFileSize lastWrittenId).serve xxh64 sort requests).1
    (s.handedIds = List.range' (nextId lastWrittenId) count ∧ s.buffer.pending = []) ↔
      Even (trailingGapClosings ((requests.flatMap WriteRequest.entries).map (fun e => e.1.toNat))) := by
  obtain ⟨_, buffer, served⟩ := (served_new xxh64 fileId header maxFileSize lastWrittenId).serve
    sort requests
  dsimp only
  generalize ((WriterState.new fileId header maxFileSize lastWrittenId).serve xxh64 sort requests).1 = s
    at *
  have arrivals : Arrivals (nextId lastWrittenId) count []
      ((requests.flatMap WriteRequest.entries).map (fun e => e.1.toNat)) :=
    ⟨once.nodup_iff.mpr List.nodup_range', fun x => by
      rw [List.nil_append, once.mem_iff, List.mem_range'_1]⟩
  obtain ⟨⟨all, arrived, tracks⟩, flag⟩ :=
    acceptAll_stuck sort (requests.flatMap WriteRequest.entries) (tracks_new lastWrittenId) arrivals
  have start : (OrderedBuffer.new lastWrittenId).stuck = false := rfl
  have empty := pending_nil_iff tracks arrived
  rw [flag, start, toggle_eq_odd, decide_eq_false_iff_not, not_not] at empty
  have state : (WriterState.new fileId header maxFileSize lastWrittenId).buffer = .new lastWrittenId := rfl
  rw [state] at buffer
  rw [← buffer] at empty
  change s.buffer.pending = [] ↔ Even (trailingGapClosings _) at empty
  rw [← empty]
  constructor
  · exact fun both => both.2
  · intro drained
    obtain ⟨ids, numbered⟩ := served.wrote.handedIds
    have kept := served.kept
    rw [drained, List.append_nil] at kept
    have length := kept.length_eq
    have total := once.length_eq
    rw [List.length_map, List.length_range'] at total
    refine ⟨?_, drained⟩
    rw [ids, numbered, length, List.nil_append, total]

/- The second entry arrives first and stays in the buffer when the first one overtakes it. -/
theorem successor_left_behind :
    ((WriterState.new .zero .default 1000 (some .zero)).serve (fun _ => 0) .insertion
      [.enqueue (.u8 2) .empty, .enqueue (.u8 1) .empty]).1.buffer.pending = [(.u8 2, .empty)] := by
  decide

theorem no_write_left_behind_third_arrival :
    let s := ((WriterState.new .zero .default 1000 (some .zero)).serve (fun _ => 0) .insertion
      [.enqueue (.u8 2) .empty, .enqueueBatch [(.u8 1, .empty), (.u8 3, .empty)]]).1
    s.handedIds = [1, 2, 3] ∧ s.buffer.pending = [] :=
  (no_write_left_behind_iff (fun _ => 0) .insertion (some .zero) .zero .default 1000 3
    [.enqueue (.u8 2) .empty, .enqueueBatch [(.u8 1, .empty), (.u8 3, .empty)]] (by decide)).mpr
    (by decide)

end NormFS
