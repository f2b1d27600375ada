import NormFS.Lib.Iterate
import NormFS.Lookup

/-! The rounds of the bisection, whatever its probes answer. A probe may answer differently every
time it is made: its answers are drawn from a state of any kind. -/
namespace NormFS

open Iterate

def Bounds.Ordered (b : Bounds) : Prop := b.leftFileId.toNat ≤ b.rightFileId.toNat

def Bounds.span (b : Bounds) : Nat := b.rightFileId.toNat - b.leftFileId.toNat

namespace Prober

section Search

variable {σ : Type} (p : Prober σ)

/-- One round, `none` when the search returns in it: with a file, an error or a panic. -/
def round (targetId : UintN) (s : Bounds × σ) : Option (Bounds × σ) :=
  match p.searchRound targetId s.1 s.2 with
  | .ok (.narrowed b, after) => some (b, after)
  | _ => none

end Search

section Rounds

variable {σ : Type} {p : Prober σ}

theorem findValidFileBackward_between {minFileId searchId : UintN} {fuel : Nat} {s s' : σ} {valid : Probe}
    (reached : minFileId.toNat ≤ searchId.toNat)
    (found : p.findValidFileBackward minFileId fuel searchId s = .ok (some valid, s')) :
    minFileId.toNat ≤ valid.fileId.toNat ∧ valid.fileId.toNat ≤ searchId.toNat := by
  induction fuel generalizing searchId s with
  | zero => cases found
  | succ fuel ih =>
    rw [findValidFileBackward] at found
    obtain ⟨range, s1, -, found⟩ := Memo.bind_eq_ok.mp found
    cases range with
    | some range =>
      cases found
      exact ⟨reached, Nat.le_refl _⟩
    | none =>
      obtain ⟨wal, s2, -, found⟩ := Memo.bind_eq_ok.mp found
      cases wal with
      | start id =>
        cases found
        exact ⟨reached, Nat.le_refl _⟩
      | notFound | empty =>
        dsimp only at found
        split at found
        · cases found
        · rename_i above
          rw [UintN.le_iff] at above
          cases less : searchId.decrement with
          | error e =>
            rw [less] at found
            cases found
          | ok previous =>
            rw [less] at found
            have number := UintN.toNat_decrement less
            have between := ih (by omega) found
            omega

def Narrower (b' b : Bounds) : Prop := b'.Ordered ∧ b'.span < b.span

variable {b : Bounds} {targetId : UintN} {t : Bounds × σ}

theorem searchBackward_narrows {b' : Bounds} {mid : UintN} {s s' : σ}
    (after : b.leftFileId.toNat < mid.toNat) (before : mid.toNat < b.rightFileId.toNat)
    (narrowed : p.searchBackward b mid s = .ok (.narrowed b', s')) : Narrower b' b := by
  unfold searchBackward at narrowed
  obtain ⟨valid, s1, walked, narrowed⟩ := Memo.bind_eq_ok.mp narrowed
  cases valid with
  | none => cases narrowed
  | some valid =>
    have between := findValidFileBackward_between (by rw [UintN.toNat_increment]; omega) walked
    rw [UintN.toNat_increment] at between
    cases narrowed
    simp only [Narrower, Bounds.Ordered, Bounds.span]
    omega

theorem halve_narrows {b' : Bounds} {mid midStart : UintN} {midEnd : Option UintN} {s s' : σ}
    (after : b.leftFileId.toNat < mid.toNat) (before : mid.toNat < b.rightFileId.toNat)
    (narrowed : p.halve targetId b mid midStart midEnd s = .ok (.narrowed b', s')) : Narrower b' b := by
  have toRight : ∀ start, Narrower { b with rightFileId := mid, rightStart := start } b := by
    intro start
    simp only [Narrower, Bounds.Ordered, Bounds.span]
    omega
  have toLeft : ∀ stop, Narrower { b with leftFileId := mid, leftEnd := stop } b := by
    intro stop
    simp only [Narrower, Bounds.Ordered, Bounds.span]
    omega
  unfold halve at narrowed
  split at narrowed
  · cases narrowed
    exact toRight _
  · cases midEnd with
    | some stop =>
      dsimp only at narrowed
      split at narrowed
      · cases narrowed
      · cases narrowed
        exact toLeft _
    | none =>
      dsimp only at narrowed
      split at narrowed
      · obtain ⟨start, s1, -, narrowed⟩ := Memo.bind_eq_ok.mp narrowed
        cases start with
        | none => cases narrowed
        | some start =>
          dsimp only at narrowed
          split at narrowed
          · cases narrowed
          · cases narrowed
            exact toLeft _
      · cases narrowed

/-- The round asks the bucket for the middle file, and the request fails. -/
def Fails (p : Prober σ) (s : Bounds × σ) : Prop :=
  s.1.leftFileId.toNat ≠ s.1.rightFileId.toNat ∧ s.1.leftFileId.toNat + 1 ≠ s.1.rightFileId.toNat ∧
    ∃ s1 s2 s3 getFileRange e, p.storeRange (s.1.leftFileId.middle s.1.rightFileId) s.2 = .ok (none, s1) ∧
      p.walStart (s.1.leftFileId.middle s.1.rightFileId) s1 = .ok (.notFound, s2) ∧
      p.cloudRange = some getFileRange ∧
      getFileRange (s.1.leftFileId.middle s.1.rightFileId) s2 = .ok (.error e, s3)

theorem round_eq_some {s : Bounds × σ} :
    p.round targetId s = some t ↔ p.searchRound targetId s.1 s.2 = .ok (.narrowed t.1, t.2) := by
  unfold round
  constructor
  · intro moved
    split at moved
    · rename_i b after searched
      cases moved
      exact searched
    · cases moved
  · intro searched
    rw [searched]

/- What a round can do to ordered bounds that are not found equal or neighbours: four of the five ways
to go on bring them closer together. -/
theorem round_narrows {s : Bounds × σ}
    (ordered : s.1.Ordered) (moved : p.round targetId s = some t) : p.Fails s ∨ Narrower t.1 s.1 := by
  rw [Bounds.Ordered] at ordered
  have searched := round_eq_some.mp moved
  unfold searchRound at searched
  split at searched
  · cases searched
  · rename_i different
    split at searched
    · cases leftEnd : s.1.leftEnd <;> rw [leftEnd] at searched <;> cases searched
    · rename_i apart
      have unequal : s.1.leftFileId.toNat ≠ s.1.rightFileId.toNat := by
        intro same
        exact different ((UintN.beq_iff _ _).mpr same)
      have distant : s.1.leftFileId.toNat + 1 ≠ s.1.rightFileId.toNat := by
        intro same
        apply apart
        rw [UintN.beq_iff, UintN.toNat_increment]
        exact same
      have middle := UintN.toNat_middle s.1.leftFileId s.1.rightFileId
      have after : s.1.leftFileId.toNat < (s.1.leftFileId.middle s.1.rightFileId).toNat := by omega
      have before : (s.1.leftFileId.middle s.1.rightFileId).toNat < s.1.rightFileId.toNat := by omega
      obtain ⟨range, s1, stored, searched⟩ := Memo.bind_eq_ok.mp searched
      cases range with
      | some range => exact .inr (halve_narrows after before searched)
      | none =>
        obtain ⟨wal, s2, looked, searched⟩ := Memo.bind_eq_ok.mp searched
        cases wal with
        | start id => exact .inr (halve_narrows after before searched)
        | empty => exact .inr (searchBackward_narrows after before searched)
        | notFound =>
          dsimp only at searched
          cases bucket : p.cloudRange with
          | none =>
            rw [bucket] at searched
            exact .inr (searchBackward_narrows after before searched)
          | some getFileRange =>
            rw [bucket] at searched
            obtain ⟨answer, s3, asked, searched⟩ := Memo.bind_eq_ok.mp searched
            rcases answer with e | _ | range
            · exact .inl ⟨unequal, distant, s1, s2, s3, getFileRange, e, stored, looked, bucket, asked⟩
            · cases searched
            · exact .inr (halve_narrows after before searched)

theorem round_fails {targetId : UintN} {s : Bounds × σ} (fails : p.Fails s) :
    ∃ s3, p.round targetId s = some (s.1, s3) := by
  obtain ⟨unequal, distant, s1, s2, s3, getFileRange, e, stored, looked, bucket, asked⟩ := fails
  have different : (s.1.leftFileId == s.1.rightFileId) = false := by
    rw [Bool.eq_false_iff]
    exact fun same => unequal ((UintN.beq_iff _ _).mp same)
  have apart : (s.1.leftFileId.increment == s.1.rightFileId) = false := by
    rw [Bool.eq_false_iff]
    intro same
    have := (UintN.beq_iff _ _).mp same
    rw [UintN.toNat_increment] at this
    exact distant this
  refine ⟨s3, round_eq_some.mpr ?_⟩
  unfold searchRound
  simp only [different, apart, Bool.false_eq_true, if_false]
  refine Memo.bind_eq_ok.mpr ⟨_, s1, stored, Memo.bind_eq_ok.mpr ⟨_, s2, looked, ?_⟩⟩
  simp only [bucket]
  exact Memo.bind_eq_ok.mpr ⟨_, s3, asked, rfl⟩

def distance (b : Bounds) : Int := b.rightFileId.toNat - b.leftFileId.toNat

structure Ends (p : Prober σ) (targetId : UintN) (s : Bounds × σ) : Prop where
  returns : after (p.round targetId) (s.1.rightFileId.toNat + 1 - s.1.leftFileId.toNat) s = none
  shrinks : ∀ n t u, after (p.round targetId) n s = some t → p.round targetId t = some u →
    distance u.1 < distance t.1

/-- No request for a middle file fails, in whatever round. -/
def Answered (p : Prober σ) (targetId : UintN) : Bounds × σ → Prop :=
  Always (p.round targetId) (fun t => ¬ p.Fails t)

theorem Answered.step {u : Bounds × σ} (now : t.1.Ordered ∧ p.Answered targetId t)
    (moved : p.round targetId t = some u) : (u.1.Ordered ∧ p.Answered targetId u) ∧ u.1.span < t.1.span := by
  obtain ⟨here, later⟩ := always_iff.mp now.2
  rcases round_narrows now.1 moved with fails | ⟨still, closer⟩
  · exact absurd fails here
  · exact ⟨⟨still, later u moved⟩, closer⟩

theorem Answered.returns {s : Bounds × σ} (now : s.1.Ordered ∧ p.Answered targetId s) :
    after (p.round targetId) (s.1.span + 1) s = none :=
  after_measure (fun _ _ => Answered.step) now

/- For every two files and every sequence of answers: the search ends in time, coming closer in every
round, if and only if the first file is not after the last and the bucket never fails on a middle
file. -/
theorem search_ends_iff (p : Prober σ) (targetId : UintN) (s : Bounds × σ) :
    p.Ends targetId s ↔ s.1.leftFileId.toNat ≤ s.1.rightFileId.toNat ∧ p.Answered targetId s := by
  constructor
  · intro ends
    refine ⟨?_, ?_⟩
    · by_contra reversed
      have returns := ends.returns
      rw [Nat.sub_eq_zero_of_le (by omega)] at returns
      cases returns
    · intro n t came fails
      obtain ⟨s3, moved⟩ := @round_fails _ p targetId t fails
      exact absurd (ends.shrinks n t _ came moved) (Int.lt_irrefl _)
  · rintro ⟨ordered, answered⟩
    refine ⟨?_, ?_⟩
    · have stopped := Answered.returns ⟨ordered, answered⟩
      rwa [Bounds.span, ← Nat.sub_add_comm ordered] at stopped
    · intro n t u came moved
      have here := after_invariant (fun _ _ now moved => (Answered.step now moved).1) ⟨ordered, answered⟩ came
      obtain ⟨⟨still, -⟩, closer⟩ := Answered.step here moved
      have before := here.1
      unfold Bounds.Ordered Bounds.span at *
      unfold distance
      omega

end Rounds

/-- Probes that find nothing on the disk, and a bucket that fails every time. -/
def unreachable : Prober Unit where
  storeRange := fun _ => pure none
  walStart := fun _ => pure .notFound
  cloudRange := some (fun _ => pure (.error .other))

def threeFiles : Bounds := ⟨.u8 0, .u8 2, none, .u8 9⟩

/- Between files 0 and 2 the bucket is asked for file 1, for ever. -/
theorem search_endless : (∀ n, after (unreachable.round (.u8 5)) n (threeFiles, ()) = some (threeFiles, ())) ∧
    ¬ unreachable.Ends (.u8 5) (threeFiles, ()) := by
  have again : unreachable.round (.u8 5) (threeFiles, ()) = some (threeFiles, ()) := rfl
  have forever : ∀ n, after (unreachable.round (.u8 5)) n (threeFiles, ()) = some (threeFiles, ()) := by
    intro n
    induction n with
    | zero => rfl
    | succ n ih => exact after_succ.mpr ⟨_, again, ih⟩
  refine ⟨forever, ?_⟩
  intro ends
  have returns := ends.returns
  rw [forever] at returns
  cases returns

end Prober

end NormFS
