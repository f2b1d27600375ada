import NormFS.Lib.Iterate
import NormFS.Lookup.Exact

/-! The bisection among files of which some are missing or empty, told by what the lookup sees of
each file. It comes to a file at or before the one with the wanted entry, unless it has to ask for
the file after a WAL file and there is none. -/
namespace NormFS

open Iterate

/-- What the lookup sees of a file: both ends of one in the store, the start of one that is only in the
WAL, or no data. -/
inductive Sight where
  | packed (start stop : Nat)
  | loose (start : Nat)
  | nothing
  deriving DecidableEq, Repr

def Sight.start : Sight → Option Nat
  | .packed start _ => some start
  | .loose start => some start
  | .nothing => none

theorem Sight.start_eq_none {sight : Sight} : sight.start = none ↔ sight = .nothing := by
  cases sight <;> simp [Sight.start]

abbrev Row := Nat → Sight

namespace Row

variable (row : Row)

/-- The nearest file with data, from one file backward to another. -/
def backward (lo : Nat) : Nat → Option Nat
  | 0 => if row 0 = .nothing then none else some 0
  | m + 1 =>
    if row (m + 1) = .nothing then if m + 1 ≤ lo then none else backward lo m
    else some (m + 1)

/-- Where the search for `t` goes on after the middle file, `none` when it ends. -/
def turn (t : Nat) (s : Nat × Nat) (mid : Nat) : Sight → Option (Nat × Nat)
  | .packed start stop =>
    if t < start then some (s.1, mid) else if t ≤ stop then none else some (mid, s.2)
  | .loose start =>
    if t < start then some (s.1, mid)
    else if mid + 1 ≤ s.2 then
      match (row (mid + 1)).start with
      | some next => if t < next then none else some (mid, s.2)
      | none => none
    else none
  | .nothing => (row.backward (s.1 + 1) mid).map (fun valid => (s.1, valid))

def narrow (t : Nat) (s : Nat × Nat) : Option (Nat × Nat) :=
  if s.1 = s.2 ∨ s.1 + 1 = s.2 then none else row.turn t s ((s.1 + s.2) / 2) (row ((s.1 + s.2) / 2))

/-- The middle file is in the WAL only and may hold `t`, and there is no file after it to tell. -/
def Stuck (t : Nat) (s : Nat × Nat) : Prop :=
  s.1 ≠ s.2 ∧ s.1 + 1 ≠ s.2 ∧ (s.1 + s.2) / 2 + 1 ≤ s.2 ∧
    (∃ start ≤ t, row ((s.1 + s.2) / 2) = .loose start) ∧ row ((s.1 + s.2) / 2 + 1) = .nothing

/-- The search between two files never gets stuck. -/
def Passable (t : Nat) : Nat × Nat → Prop := Always (row.narrow t) (fun s => ¬ row.Stuck t s)

/-- File `f` divides the row: it and the files before it start at or before `t`, the others after. -/
structure Divides (f t : Nat) : Prop where
  starts : ∀ m start, (row m).start = some start → (start ≤ t ↔ m ≤ f)
  ordered : ∀ m start stop, row m = .packed start stop → start ≤ stop
  stops : ∀ m start stop, row m = .packed start stop → f ≤ m → t ≤ stop

variable {row}

theorem backward_spec {lo m v : Nat} (found : row.backward lo m = some v) :
    v ≤ m ∧ row v ≠ .nothing ∧ (lo ≤ m → lo ≤ v) := by
  induction m with
  | zero =>
    unfold backward at found
    split at found
    · cases found
    · rename_i data
      cases found
      exact ⟨Nat.le_refl _, data, id⟩
  | succ m ih =>
    unfold backward at found
    split at found
    · split at found
      · cases found
      · have := ih found
        exact ⟨by omega, this.2.1, fun _ => this.2.2 (by omega)⟩
    · rename_i data
      cases found
      exact ⟨Nat.le_refl _, data, id⟩

theorem backward_hole {lo m : Nat} (hole : row m = .nothing) (reached : m ≤ lo) : row.backward lo m = none := by
  cases m with
  | zero => simp [backward, hole]
  | succ m => simp [backward, hole, reached]

theorem narrow_right {t : Nat} {s u : Nat × Nat} (moved : row.narrow t s = some u) (data : row s.2 ≠ .nothing) :
    row u.2 ≠ .nothing := by
  unfold narrow at moved
  split at moved
  · cases moved
  · cases here : row ((s.1 + s.2) / 2) with
    | packed start stop =>
      rw [here, turn] at moved
      split at moved
      · cases moved
        simp [here]
      · split at moved
        · cases moved
        · cases moved
          exact data
    | loose start =>
      rw [here, turn] at moved
      split at moved
      · cases moved
        simp [here]
      · split at moved
        · split at moved
          · split at moved
            · cases moved
            · cases moved
              exact data
          · cases moved
        · cases moved
    | nothing =>
      rw [here, turn] at moved
      obtain ⟨v, found, rfl⟩ := Option.map_eq_some_iff.mp moved
      exact (backward_spec found).2.1

/- A row in which every WAL file but the last file with data is followed by a file with data is passable. -/
theorem passable_of_followed {t : Nat} {s : Nat × Nat} (data : row s.2 ≠ .nothing)
    (followed : ∀ m start, row m = .loose start → row (m + 1) = .nothing → ∀ k, m < k → row k = .nothing) :
    row.Passable t s := by
  intro n u came
  have inside : row u.2 ≠ .nothing :=
    after_invariant (fun _ _ data moved => narrow_right moved data) data came
  rintro ⟨-, -, before, ⟨start, -, loose⟩, hole⟩
  exact inside (followed _ start loose hole _ (by omega))

end Row

section Search

variable {config : StoreConfig} {disk : Disk} {row : Row} {f : Nat} {target : UintN}

def sightOf (start : UintN) : Option UintN → Sight
  | some stop => .packed start.toNat stop.toNat
  | none => .loose start.toNat

theorem start_sightOf (start : UintN) (stop : Option UintN) : (sightOf start stop).start = some start.toNat := by
  cases stop <;> rfl

structure Seen (config : StoreConfig) (disk : Disk) (row : Row) : Prop where
  data : ∀ m, row m ≠ .nothing →
    ∃ start stop, Probed config disk (.ofUbig m) start stop ∧ row m = sightOf start stop
  hole : ∀ m, row m = .nothing →
    Memo.Yields (Remembers config disk) (storeRange config disk (.ofUbig m)) none ∧
      (Memo.Yields (Remembers config disk) (walStart disk (.ofUbig m)) .notFound ∨
        Memo.Yields (Remembers config disk) (walStart disk (.ofUbig m)) .empty)

def WalkedTo (config : StoreConfig) (disk : Disk) (row : Row) : Option Nat → Option Probe → Prop
  | some v, some probe => Probed config disk (.ofUbig v) probe.start probe.stop ∧
      row v = sightOf probe.start probe.stop ∧ probe.fileId = .ofUbig v
  | none, none => True
  | _, _ => False

theorem Seen.backward_end (seen : Seen config disk row) {lo m : Nat} (hole : row m = .nothing) (reached : m ≤ lo)
    (fuel : Nat) : Memo.Yields (Remembers config disk)
      ((Prober.ofDisk config disk none).findValidFileBackward (.ofUbig lo) (fuel + 1) (.ofUbig m)) none := by
  obtain ⟨absent, wal⟩ := seen.hole m hole
  have last : UintN.ofUbig m ≤ UintN.ofUbig lo := by
    rwa [UintN.le_iff, UintN.toNat_ofUbig, UintN.toNat_ofUbig]
  refine absent.bind ?_
  rcases wal with wal | wal
  · exact wal.bind (by simpa only [if_pos last] using Memo.yields_pure _)
  · exact wal.bind (by simpa only [if_pos last] using Memo.yields_pure _)

theorem Seen.backward (seen : Seen config disk row) (lo m : Nat) {fuel : Nat} (enough : m < fuel) :
    ∃ answer, WalkedTo config disk row (row.backward lo m) answer ∧
      Memo.Yields (Remembers config disk) ((Prober.ofDisk config disk none).findValidFileBackward (.ofUbig lo) fuel (.ofUbig m)) answer := by
  obtain ⟨fuel, rfl⟩ := Nat.exists_eq_add_one_of_ne_zero (show fuel ≠ 0 by omega)
  have stays (m : Nat) (data : row m ≠ .nothing) (fuel : Nat) : ∃ answer, WalkedTo config disk row (some m) answer ∧
      Memo.Yields (Remembers config disk) ((Prober.ofDisk config disk none).findValidFileBackward (.ofUbig lo) (fuel + 1) (.ofUbig m)) answer := by
    obtain ⟨start, stop, probed, sight⟩ := seen.data m data
    exact ⟨some ⟨.ofUbig m, start, stop⟩, ⟨probed, sight, rfl⟩, findValidFileBackward_probed probed _ _⟩
  induction m generalizing fuel with
  | zero =>
    unfold Row.backward
    split
    · rename_i hole
      exact ⟨none, trivial, seen.backward_end hole (Nat.zero_le _) fuel⟩
    · rename_i data
      exact stays 0 data fuel
  | succ m ih =>
    unfold Row.backward
    split
    · rename_i hole
      split
      · rename_i reached
        exact ⟨none, trivial, seen.backward_end hole reached fuel⟩
      · rename_i further
        have above : ¬ UintN.ofUbig (m + 1) ≤ UintN.ofUbig lo := by
          rwa [UintN.le_iff, UintN.toNat_ofUbig, UintN.toNat_ofUbig]
        obtain ⟨fuel, rfl⟩ := Nat.exists_eq_add_one_of_ne_zero (show fuel ≠ 0 by omega)
        obtain ⟨answer, walked, yields⟩ := ih fuel (by omega)
        obtain ⟨absent, wal⟩ := seen.hole (m + 1) hole
        refine ⟨answer, walked, absent.bind ?_⟩
        rcases wal with wal | wal
        · exact wal.bind (by simpa only [if_neg above, decrement_ofUbig] using yields)
        · exact wal.bind (by simpa only [if_neg above, decrement_ofUbig] using yields)
    · rename_i data
      exact stays (m + 1) data fuel

structure Bounds.Within (b : Bounds) (row : Row) (f t l r : Nat) : Prop where
  leftFile : b.leftFileId = .ofUbig l
  rightFile : b.rightFileId = .ofUbig r
  upTo : l ≤ f
  leftKnown : ∀ e ∈ b.leftEnd, f ≤ l → t ≤ e.toNat
  rightKnown : (row r).start = some b.rightStart.toNat

def apart (s : Nat × Nat) : Nat := (s.2 - s.1) + (s.1 - s.2)

variable {l r : Nat} {stop : Option UintN} {α : Type}

theorem apart_toMiddle (unequal : l ≠ r) (distant : l + 1 ≠ r) :
    apart ((l + r) / 2, r) < apart (l, r) := by
  unfold apart
  dsimp only
  omega

theorem apart_fromMiddle (after : l < (l + r) / 2) : apart (l, (l + r) / 2) < apart (l, r) := by
  unfold apart
  dsimp only
  omega

theorem Bounds.Within.toMiddle {b : Bounds} {row : Row} {f t m start : Nat} (within : b.Within row f t l r)
    (divides : row.Divides f t) (sight : (row m).start = some start) (begun : start ≤ t)
    (beyond : ∀ e ∈ stop, f ≤ m → t ≤ e.toNat) :
    Bounds.Within { b with leftFileId := .ofUbig m, leftEnd := stop } row f t m r :=
  ⟨rfl, within.rightFile, (divides.starts m start sight).mp begun, beyond, within.rightKnown⟩

/-- A round answers with a file at or before `f`, or goes on as the row says. -/
def RoundComes (row : Row) (f t l r : Nat) : Round → Prop
  | .found fileId => (∃ g ≤ f, fileId = .ofUbig g) ∧ row.narrow t (l, r) = none
  | .narrowed b => ∃ s, b.Within row f t s.1 s.2 ∧ row.narrow t (l, r) = some s ∧ apart s < apart (l, r)

/-- What a computation of the next bounds does: it fails where the row gets stuck, and only there. -/
def Comes (config : StoreConfig) (disk : Disk) (row : Row) (f t l r : Nat) (p : LookupM Round) : Prop :=
  (row.Stuck t (l, r) ∧ ∃ e, Memo.Fails (Remembers config disk) p e) ∨
    (¬ row.Stuck t (l, r) ∧ ∃ round, Memo.Yields (Remembers config disk) p round ∧ RoundComes row f t l r round)

theorem comes_bind {f t : Nat} {q : LookupM α} {k : α → LookupM Round} {a : α}
    (first : Memo.Yields (Remembers config disk) q a) (comes : Comes config disk row f t l r (k a)) :
    Comes config disk row f t l r (q >>= k) := by
  rcases comes with ⟨stuck, e, fails⟩ | ⟨free, round, yields, goes⟩
  · exact .inl ⟨stuck, e, first.fails fails⟩
  · exact .inr ⟨free, round, first.bind yields, goes⟩

theorem Row.not_stuck {t : Nat} (other : ∀ start, row ((l + r) / 2) ≠ .loose start) : ¬ row.Stuck t (l, r) := by
  rintro ⟨-, -, -, ⟨start, -, loose⟩, -⟩
  exact other start loose

theorem Row.narrow_far {t l r : Nat} (unequal : l ≠ r) (distant : l + 1 ≠ r) :
    row.narrow t (l, r) = row.turn t (l, r) ((l + r) / 2) (row ((l + r) / 2)) := by
  rw [Row.narrow, if_neg]
  rintro (same | next)
  · exact unequal same
  · exact distant next

section Round

variable {b : Bounds} {l r : Nat}

theorem searchBackward_seen (seen : Seen config disk row) (divides : row.Divides f target.toNat)
    (within : b.Within row f target.toNat l r) (unequal : l ≠ r) (distant : l + 1 ≠ r)
    (hole : row ((l + r) / 2) = .nothing) :
    Comes config disk row f target.toNat l r ((Prober.ofDisk config disk none).searchBackward b (.ofUbig ((l + r) / 2))) := by
  refine .inr ⟨Row.not_stuck (fun start loose => by rw [hole] at loose; cases loose), ?_⟩
  have next : row.narrow target.toNat (l, r) =
      (row.backward (l + 1) ((l + r) / 2)).map (fun valid => (l, valid)) := by
    rw [Row.narrow_far unequal distant, hole]
    rfl
  obtain ⟨answer, walked, yields⟩ := seen.backward (l + 1) ((l + r) / 2)
    (show (l + r) / 2 < (UintN.ofUbig ((l + r) / 2)).toNat + 1 by rw [UintN.toNat_ofUbig]; omega)
  rw [← increment_ofUbig, ← within.leftFile] at yields
  cases found : row.backward (l + 1) ((l + r) / 2) with
  | none =>
    rw [found] at walked next
    cases answer with
    | some probe => exact walked.elim
    | none =>
      refine ⟨_, yields.bind (Memo.yields_pure _), ⟨l, within.upTo, within.leftFile⟩, next⟩
  | some v =>
    rw [found] at walked next
    cases answer with
    | none => exact walked.elim
    | some probe =>
      obtain ⟨probed, sight, named⟩ := walked
      -- the walk has found a file, so the middle is after the left file
      have after : l + 1 ≤ (l + r) / 2 := by
        by_contra before
        rw [Row.backward_hole hole (by omega)] at found
        cases found
      have between := Row.backward_spec found
      have reached := between.2.2 after
      refine ⟨_, yields.bind (Memo.yields_pure _), (l, v), ⟨within.leftFile, named, within.upTo, ?_, ?_⟩, next, ?_⟩
      · intro e known upTo
        have known : probe.stop = some e := known
        exact divides.stops v probe.start.toNat e.toNat (by rw [sight, known]; rfl) (by omega)
      · rw [sight, start_sightOf]
      · unfold apart
        dsimp only
        omega

theorem nextStart_seen (seen : Seen config disk row) {m : Nat} :
    (∃ start : UintN, (row m).start = some start.toNat ∧
      Memo.Yields (Remembers config disk) ((Prober.ofDisk config disk none).nextStart (.ofUbig m)) (some start)) ∨
    (row m = .nothing ∧ ∃ e, Memo.Fails (Remembers config disk) ((Prober.ofDisk config disk none).nextStart (.ofUbig m)) e) := by
  by_cases hole : row m = .nothing
  · obtain ⟨absent, wal⟩ := seen.hole m hole
    refine .inr ⟨hole, ?_⟩
    rcases wal with wal | wal
    · exact ⟨_, absent.fails (wal.fails (fun _ _ => rfl))⟩
    · exact ⟨_, absent.fails (wal.fails (fun _ _ => rfl))⟩
  · obtain ⟨start, stop, probed, sight⟩ := seen.data m hole
    exact .inl ⟨start, by rw [sight, start_sightOf], nextStart_probed probed⟩

/-- The middle is a WAL file: where it ends is asked of the file after it. -/
theorem halve_loose_seen (seen : Seen config disk row) (divides : row.Divides f target.toNat)
    (within : b.Within row f target.toNat l r) (unequal : l ≠ r) (distant : l + 1 ≠ r) {start : UintN}
    (sight : row ((l + r) / 2) = sightOf start none) (begun : start.toNat ≤ target.toNat) :
    Comes config disk row f target.toNat l r ((Prober.ofDisk config disk none).halve target b (.ofUbig ((l + r) / 2)) start none) := by
  have next := @Row.narrow_far row target.toNat l r unequal distant
  have known : (row ((l + r) / 2)).start = some start.toNat := by rw [sight, start_sightOf]
  have reached := (divides.starts _ _ known).mp begun
  rw [sight, sightOf, Row.turn, if_neg (Nat.not_lt.mpr begun)] at next
  unfold Prober.halve
  rw [if_neg (fun before => absurd ((UintN.lt_iff _ _).mp before) (Nat.not_lt.mpr begun))]
  by_cases last : (l + r) / 2 + 1 ≤ r
  · have reaches : UintN.ofUbig ((l + r) / 2 + 1) ≤ b.rightFileId := by
      rwa [within.rightFile, UintN.le_iff, UintN.toNat_ofUbig, UintN.toNat_ofUbig]
    rw [if_pos last] at next
    simp only [increment_ofUbig, if_pos reaches]
    rcases @nextStart_seen config disk row seen ((l + r) / 2 + 1) with ⟨after, follows, yields⟩ | ⟨hole, e, fails⟩
    · have free : ¬ row.Stuck target.toNat (l, r) := by
        rintro ⟨-, -, -, -, hole⟩
        rw [hole] at follows
        cases follows
      rw [follows] at next
      by_cases inside : target < after
      · simp only [if_pos ((UintN.lt_iff _ _).mp inside)] at next
        refine .inr ⟨free, .found (.ofUbig ((l + r) / 2)), yields.bind ?_, ⟨_, reached, rfl⟩, next⟩
        simp only [if_pos inside]
        exact Memo.yields_pure _
      · simp only [if_neg (fun less => inside ((UintN.lt_iff _ _).mpr less))] at next
        refine .inr ⟨free, .narrowed { b with leftFileId := .ofUbig ((l + r) / 2), leftEnd := none },
          yields.bind ?_, _, within.toMiddle divides known begun (by rintro _ ⟨⟩), next,
          apart_toMiddle unequal distant⟩
        simp only [if_neg inside]
        exact Memo.yields_pure _
    · exact .inl ⟨⟨unequal, distant, last, ⟨_, begun, sight⟩, hole⟩, e, fails.bind _⟩
  · have beyond : ¬ UintN.ofUbig ((l + r) / 2 + 1) ≤ b.rightFileId := by
      rwa [within.rightFile, UintN.le_iff, UintN.toNat_ofUbig, UintN.toNat_ofUbig]
    rw [if_neg last] at next
    simp only [increment_ofUbig, if_neg beyond]
    refine .inr ⟨?_, _, Memo.yields_pure _, ⟨_, reached, rfl⟩, next⟩
    rintro ⟨-, -, inside, -⟩
    exact last inside

theorem halve_seen (seen : Seen config disk row) (divides : row.Divides f target.toNat)
    (within : b.Within row f target.toNat l r) (unequal : l ≠ r) (distant : l + 1 ≠ r) {start : UintN}
    {stop : Option UintN} (sight : row ((l + r) / 2) = sightOf start stop) :
    Comes config disk row f target.toNat l r ((Prober.ofDisk config disk none).halve target b (.ofUbig ((l + r) / 2)) start stop) := by
  have next := @Row.narrow_far row target.toNat l r unequal distant
  have known : (row ((l + r) / 2)).start = some start.toNat := by rw [sight, start_sightOf]
  by_cases before : target < start
  · have less := (UintN.lt_iff _ _).mp before
    unfold Prober.halve
    rw [if_pos before]
    refine .inr ⟨?_, _, Memo.yields_pure _, (l, (l + r) / 2),
      ⟨within.leftFile, rfl, within.upTo, within.leftKnown, known⟩, ?_, apart_fromMiddle ?_⟩
    · rintro ⟨-, -, -, ⟨start', begun, loose⟩, -⟩
      rw [loose] at known
      cases known
      omega
    · rw [next, sight]
      cases stop <;> rw [sightOf, Row.turn, if_pos less]
    · have later := mt (divides.starts _ _ known).mpr (Nat.not_le.mpr less)
      have upTo := within.upTo
      omega
  · have begun : start.toNat ≤ target.toNat := by
      rw [UintN.lt_iff] at before
      omega
    cases stop with
    | none => exact halve_loose_seen seen divides within unequal distant sight begun
    | some stop =>
      have free : ¬ row.Stuck target.toNat (l, r) :=
        Row.not_stuck (fun start' loose => by rw [sight] at loose; cases loose)
      rw [sight, sightOf, Row.turn, if_neg (Nat.not_lt.mpr begun)] at next
      unfold Prober.halve
      rw [if_neg before]
      by_cases inside : target ≤ stop
      · rw [if_pos ((UintN.le_iff _ _).mp inside)] at next
        simp only [if_pos inside]
        exact .inr ⟨free, _, Memo.yields_pure _, ⟨_, (divides.starts _ _ known).mp begun, rfl⟩, next⟩
      · rw [if_neg (fun within => inside ((UintN.le_iff _ _).mpr within))] at next
        simp only [if_neg inside]
        refine .inr ⟨free, _, Memo.yields_pure _, _, within.toMiddle divides known begun ?_, next, apart_toMiddle unequal distant⟩
        rintro _ ⟨⟩ upTo
        exact divides.stops _ _ _ sight upTo

theorem searchRound_neighbours (divides : row.Divides f target.toNat)
    (within : b.Within row f target.toNat l (l + 1)) :
    Comes config disk row f target.toNat l (l + 1) ((Prober.ofDisk config disk none).searchRound target b) := by
  have upTo := within.upTo
  have starts := divides.starts (l + 1) _ within.rightKnown
  have free : ¬ row.Stuck target.toNat (l, l + 1) := fun stuck => stuck.2.1 rfl
  have ends : row.narrow target.toNat (l, l + 1) = none := if_pos (.inr rfl)
  have chooses (inLeft : Prop) [Decidable inLeft] (right : ¬ inLeft → l + 1 ≤ f) :
      RoundComes row f target.toNat l (l + 1) (.found (if inLeft then .ofUbig l else .ofUbig (l + 1))) := by
    by_cases left : inLeft
    · rw [if_pos left]
      exact ⟨⟨l, upTo, rfl⟩, ends⟩
    · rw [if_neg left]
      exact ⟨⟨l + 1, right left, rfl⟩, ends⟩
  refine .inr ⟨free, ?_⟩
  unfold Prober.searchRound
  rw [within.leftFile, within.rightFile, ofUbig_beq, increment_ofUbig, ofUbig_beq,
    if_neg (by simp), if_pos (by simp)]
  cases known : b.leftEnd with
  | some leftEnd =>
    refine ⟨_, Memo.yields_pure _, chooses _ ?_⟩
    intro behind
    rw [UintN.le_iff] at behind
    by_contra inLeft
    exact behind (within.leftKnown leftEnd known (by omega))
  | none =>
    refine ⟨_, Memo.yields_pure _, chooses _ ?_⟩
    intro reached
    rw [UintN.lt_iff] at reached
    omega

theorem searchRound_seen (seen : Seen config disk row) (divides : row.Divides f target.toNat)
    (within : b.Within row f target.toNat l r) :
    Comes config disk row f target.toNat l r ((Prober.ofDisk config disk none).searchRound target b) := by
  by_cases same : l = r
  · subst same
    refine .inr ⟨fun stuck => stuck.1 rfl, .found b.leftFileId, ?_, ⟨l, within.upTo, within.leftFile⟩, if_pos (.inl rfl)⟩
    unfold Prober.searchRound
    rw [within.leftFile, within.rightFile, ofUbig_beq, if_pos (by simp)]
    exact Memo.yields_pure _
  · by_cases neighbours : l + 1 = r
    · subst neighbours
      exact searchRound_neighbours divides within
    · unfold Prober.searchRound
      rw [within.leftFile, within.rightFile, ofUbig_beq, increment_ofUbig, ofUbig_beq, middle_ofUbig,
        if_neg (by simpa using same), if_neg (by simpa using neighbours)]
      by_cases hole : row ((l + r) / 2) = .nothing
      · have back := searchBackward_seen seen divides within same neighbours hole
        obtain ⟨absent, wal⟩ := seen.hole _ hole
        refine comes_bind absent ?_
        rcases wal with wal | wal
        · exact comes_bind wal back
        · exact comes_bind wal back
      · obtain ⟨start, stop, probed, sight⟩ := seen.data _ hole
        have halves := halve_seen seen divides within same neighbours sight
        cases stop with
        | some stop => exact comes_bind probed halves
        | none => exact comes_bind probed.1 (comes_bind probed.2 halves)

end Round

/-- The whole bisection: it fails if it gets stuck, and comes to a file at or before `f` otherwise. -/
theorem binarySearch_seen (seen : Seen config disk row) (divides : row.Divides f target.toNat) {b : Bounds}
    {s : Nat × Nat} (within : b.Within row f target.toNat s.1 s.2) {fuel : Nat} (enough : apart s < fuel) :
    (¬ row.Passable target.toNat s ∧
      ∃ e, Memo.Fails (Remembers config disk) (binarySearch config disk none target fuel b) e) ∨
    (row.Passable target.toNat s ∧ ∃ g ≤ f,
      Memo.Yields (Remembers config disk) (binarySearch config disk none target fuel b) (.file (.ofUbig g))) := by
  induction fuel generalizing b s with
  | zero => omega
  | succ fuel ih =>
    rw [Row.Passable, always_iff]
    rcases searchRound_seen seen divides within with ⟨stuck, e, fails⟩ | ⟨free, round, yields, comes⟩
    · exact .inl ⟨fun passes => passes.1 stuck, e, fails.bind _⟩
    · cases round with
      | found fileId =>
        obtain ⟨⟨g, upTo, rfl⟩, ends⟩ := comes
        refine .inr ⟨⟨free, ?_⟩, g, upTo, yields.bind (Memo.yields_pure _)⟩
        intro u moved
        rw [ends] at moved
        cases moved
      | narrowed b' =>
        obtain ⟨u, within', moved, closer⟩ := comes
        have later := ih within' (show apart u < fuel from Nat.lt_of_lt_of_le closer (Nat.le_of_lt_succ enough))
        have only : ∀ v, row.narrow target.toNat s = some v → v = u := by
          intro v other
          rw [moved] at other
          cases other
          rfl
        rcases later with ⟨blocked, e, fails⟩ | ⟨passes, g, upTo, found⟩
        · exact .inl ⟨fun passes => blocked (passes.2 u moved), e, yields.fails fails⟩
        · refine .inr ⟨⟨free, ?_⟩, g, upTo, yields.bind found⟩
          intro v other
          rw [only v other]
          exact passes

theorem Seen.range (seen : Seen config disk row) (m : Nat) :
    ∃ answer, Memo.Yields (Remembers config disk) (storeRange config disk (.ofUbig m)) answer := by
  by_cases hole : row m = .nothing
  · exact ⟨none, (seen.hole m hole).1⟩
  · obtain ⟨start, stop, probed, -⟩ := seen.data m hole
    exact ⟨_, probed.range⟩

/-- The search from `first` on: in the last file, or between the two. -/
def Row.Ahead (row : Row) (t first lastFileId : Nat) : Prop :=
  ∃ last, row.backward first lastFileId = some last ∧
    ((∃ start < t, (row last).start = some start) ∨ row.Passable t (first, last))

/-- The first file has data and is not after `f`; it holds `t`, or the search from there on succeeds. -/
def Row.Reaches (row : Row) (f t first lastFileId : Nat) : Prop :=
  row first ≠ .nothing ∧ first ≤ f ∧
    ((∃ start stop, row first = .packed start stop ∧ t ≤ stop) ∨ row.Ahead t first lastFileId)

/-- An error, no file, or a file after `f`. -/
def Misses (config : StoreConfig) (disk : Disk) (f : Nat) (p : LookupM Located) : Prop :=
  (∃ e, Memo.Fails (Remembers config disk) p e) ∨
    ∃ located, Memo.Yields (Remembers config disk) p located ∧ ∀ g ≤ f, located ≠ .file (.ofUbig g)

def FoundUpTo (config : StoreConfig) (disk : Disk) (f : Nat) (p : LookupM Located) : Prop :=
  ∃ g ≤ f, Memo.Yields (Remembers config disk) p (.file (.ofUbig g))

theorem Misses.not_found {p : LookupM Located} (misses : Misses config disk f p) : ¬ FoundUpTo config disk f p := by
  rintro ⟨g, upTo, yields⟩
  rcases misses with ⟨e, fails⟩ | ⟨located, other, wrong⟩
  · exact fails.not_yields (RangeCache.agrees_nil _ _) yields
  · exact wrong g upTo (other.unique yields (RangeCache.agrees_nil _ _))

theorem Misses.after {q : LookupM α} {k : α → LookupM Located} {a : α}
    (first : Memo.Yields (Remembers config disk) q a) (misses : Misses config disk f (k a)) :
    Misses config disk f (q >>= k) := by
  rcases misses with ⟨e, fails⟩ | ⟨located, yields, wrong⟩
  · exact .inl ⟨e, first.fails fails⟩
  · exact .inr ⟨located, first.bind yields, wrong⟩

theorem FoundUpTo.after {q : LookupM α} {k : α → LookupM Located} {a : α}
    (first : Memo.Yields (Remembers config disk) q a) (found : FoundUpTo config disk f (k a)) :
    FoundUpTo config disk f (q >>= k) := by
  obtain ⟨g, upTo, yields⟩ := found
  exact ⟨g, upTo, first.bind yields⟩

theorem searchBetween_seen (seen : Seen config disk row) (divides : row.Divides f target.toNat)
    {first last : Nat} (upTo : first ≤ f) {start : UintN}
    (sight : row first = sightOf start stop) {probe : Probe} (named : probe.fileId = .ofUbig last)
    (lastSight : row last = sightOf probe.start probe.stop) (notAfter : ¬ probe.start < target) :
    (¬ row.Passable target.toNat (first, last) ∧ ∃ e, Memo.Fails (Remembers config disk)
      (searchBetween config disk none target ⟨.ofUbig first, start, stop⟩ probe) e) ∨
    (row.Passable target.toNat (first, last) ∧ FoundUpTo config disk f
      (searchBetween config disk none target ⟨.ofUbig first, start, stop⟩ probe)) := by
  have inLast : probe.stop.any (fun stop => decide (stop < target)) = false := by
    cases known : probe.stop with
    | none => rfl
    | some e =>
      have := divides.ordered last probe.start.toNat e.toNat (by rw [lastSight, known]; rfl)
      rw [UintN.lt_iff] at notAfter
      simp only [Option.any_some, decide_eq_false_iff_not, UintN.lt_iff]
      omega
  have within : Bounds.Within ⟨.ofUbig first, probe.fileId, stop, probe.start⟩ row f target.toNat
      first last := by
    refine ⟨rfl, named, upTo, ?_, by rw [lastSight, start_sightOf]⟩
    intro e known upTo
    have known : stop = some e := known
    exact divides.stops first start.toNat e.toNat (by rw [sight, known]; rfl) upTo
  have searched := @binarySearch_seen _ _ _ _ _ seen divides _ (first, last) within
    (apart (first, last) + 1) (Nat.lt_succ_self _)
  have distance : (probe.fileId.toNat - (UintN.ofUbig first).toNat) +
      ((UintN.ofUbig first).toNat - probe.fileId.toNat) = apart (first, last) := by
    rw [named, UintN.toNat_ofUbig, UintN.toNat_ofUbig]
    rfl
  simp only [searchBetween, if_neg notAfter, inLast, distance, Bool.false_eq_true, if_false]
  exact searched

theorem searchAfter_seen (seen : Seen config disk row) (divides : row.Divides f target.toNat)
    {first : Nat} (upTo : first ≤ f) {start : UintN}
    (sight : row first = sightOf start stop) (lastFileId : Nat) :
    (row.Ahead target.toNat first lastFileId ∧ FoundUpTo config disk f
      (searchAfter config disk none target ⟨.ofUbig first, start, stop⟩ (.ofUbig lastFileId))) ∨
    (¬ row.Ahead target.toNat first lastFileId ∧ Misses config disk f
      (searchAfter config disk none target ⟨.ofUbig first, start, stop⟩ (.ofUbig lastFileId))) := by
  unfold searchAfter
  obtain ⟨answer, walked, back⟩ := seen.backward first lastFileId
    (show lastFileId < (UintN.ofUbig lastFileId).toNat + 1 by rw [UintN.toNat_ofUbig]; omega)
  cases found : row.backward first lastFileId with
  | none =>
    rw [found] at walked
    cases answer with
    | some probe => exact walked.elim
    | none =>
      refine .inr ⟨?_, .inr ⟨.nothing, back.bind (Memo.yields_pure _), fun _ _ => by rintro ⟨⟩⟩⟩
      rintro ⟨last, other, -⟩
      rw [found] at other
      cases other
  | some last =>
    rw [found] at walked
    cases answer with
    | none => exact walked.elim
    | some probe =>
      obtain ⟨probed, lastSight, named⟩ := walked
      have lastStart : (row last).start = some probe.start.toNat := by rw [lastSight, start_sightOf]
      have ahead : row.Ahead target.toNat first lastFileId ↔
          probe.start.toNat < target.toNat ∨ row.Passable target.toNat (first, last) := by
        unfold Row.Ahead
        simp only [found, Option.some.injEq, exists_eq_left', lastStart]
        simp
      rw [ahead]
      by_cases afterStart : probe.start < target
      · have less := (UintN.lt_iff _ _).mp afterStart
        refine .inl ⟨.inl less, last, (divides.starts last _ lastStart).mp (by omega), back.bind ?_⟩
        simp only [searchBetween, if_pos afterStart, named]
        exact Memo.yields_pure _
      · rcases searchBetween_seen seen divides upTo sight named lastSight afterStart with
          ⟨blocked, e, fails⟩ | ⟨passes, g, upTo, yields⟩
        · refine .inr ⟨?_, .inl ⟨e, back.fails fails⟩⟩
          rintro (less | passes)
          · exact afterStart ((UintN.lt_iff _ _).mpr less)
          · exact blocked passes
        · exact .inl ⟨.inr passes, g, upTo, back.bind yields⟩

theorem searchFiles_seen (seen : Seen config disk row) (divides : row.Divides f target.toNat) (first lastFileId : Nat) :
    (row.Reaches f target.toNat first lastFileId ∧ FoundUpTo config disk f
      (searchFiles config disk none target (.ofUbig first) (.ofUbig lastFileId))) ∨
    (¬ row.Reaches f target.toNat first lastFileId ∧ Misses config disk f
      (searchFiles config disk none target (.ofUbig first) (.ofUbig lastFileId))) := by
  obtain ⟨_, ranged⟩ := seen.range lastFileId
  by_cases hole : row first = .nothing
  · refine .inr ⟨fun reaches => reaches.1 hole, ?_⟩
    obtain ⟨absent, wal⟩ := seen.hole first hole
    refine Misses.after absent (Misses.after ranged ?_)
    rcases wal with wal | wal
    · exact .inl ⟨_, (wal.fails (fun _ _ => rfl)).bind _⟩
    · have none' : Memo.Yields (Remembers config disk) (firstProbe disk none (.ofUbig first) none) none :=
        wal.bind (Memo.yields_pure _)
      exact .inr ⟨.nothing, none'.bind (Memo.yields_pure _), fun _ _ => by rintro ⟨⟩⟩
  · obtain ⟨start, stop, probed, sight⟩ := seen.data first hole
    have starts := divides.starts first start.toNat (by rw [sight, start_sightOf])
    have known : (∃ start stop, row first = .packed start stop ∧ target.toNat ≤ stop) ↔
        stop.any (fun stop => decide (target ≤ stop)) = true := by
      rw [sight]
      cases stop with
      | none => simp [sightOf]
      | some stop => simp [sightOf, UintN.le_iff]
    have enters {P : LookupM Located → Prop}
        (bind : ∀ {α : Type} {q : LookupM α} {k : α → LookupM Located} {a : α},
          Memo.Yields (Remembers config disk) q a → P (k a) → P (q >>= k))
        (inner : P (if target < start || stop.any (fun stop => decide (target ≤ stop)) then
            pure (.file (.ofUbig first))
          else searchAfter config disk none target ⟨.ofUbig first, start, stop⟩ (.ofUbig lastFileId))) :
        P (searchFiles config disk none target (.ofUbig first) (.ofUbig lastFileId)) :=
      bind probed.range (bind ranged (bind probed.first inner))
    by_cases before : first ≤ f
    · have begun := starts.mpr before
      have notBefore : ¬ target < start := by
        rw [UintN.lt_iff]
        omega
      cases inFirst : stop.any (fun stop => decide (target ≤ stop)) with
      | true =>
        refine .inl ⟨⟨hole, before, .inl (known.mpr inFirst)⟩, enters FoundUpTo.after ?_⟩
        rw [inFirst, Bool.or_true, if_pos rfl]
        exact ⟨first, before, Memo.yields_pure _⟩
      | false =>
        have reaches : row.Reaches f target.toNat first lastFileId ↔ row.Ahead target.toNat first lastFileId := by
          unfold Row.Reaches
          rw [known, inFirst]
          simp [hole, before]
        rw [reaches]
        refine (searchAfter_seen seen divides before sight lastFileId).imp ?_ ?_
        · rintro ⟨ahead, found⟩
          refine ⟨ahead, enters FoundUpTo.after ?_⟩
          simpa only [inFirst, notBefore, decide_false, Bool.or_self, Bool.false_eq_true, if_false] using found
        · rintro ⟨ahead, lost⟩
          refine ⟨ahead, enters Misses.after ?_⟩
          simpa only [inFirst, notBefore, decide_false, Bool.or_self, Bool.false_eq_true, if_false] using lost
    · refine .inr ⟨fun reaches => before reaches.2.1, enters Misses.after ?_⟩
      have less : target < start := by
        rw [UintN.lt_iff]
        omega
      rw [decide_eq_true less, Bool.true_or, if_pos rfl]
      refine .inr ⟨_, Memo.yields_pure _, ?_⟩
      intro g upTo same
      have values := congrArg UintN.toNat (Located.file.inj same)
      rw [UintN.toNat_ofUbig, UintN.toNat_ofUbig] at values
      omega

end Search

end NormFS
