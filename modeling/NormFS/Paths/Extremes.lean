import NormFS.Paths
import Mathlib.Data.Finset.Max

/-! The first and the last file of a directory tree, files of every depth mixed. In each directory
the search compares what is left of the paths below it, so of two files the order of the parts below
their last common directory decides, not the order of the numbers. -/
namespace NormFS

/-- What is left of two paths below the last directory that they share. -/
def parting : Path → Path → Path × Path
  | a :: p, b :: q => if a = b then parting p q else (a :: p, b :: q)
  | p, q => (p, q)

@[simp] theorem parting_cons (directory : Name) (p q : Path) :
    parting (directory :: p) (directory :: q) = parting p q := by simp [parting]

theorem parting_swap (p q : Path) : parting q p = (parting p q).swap := by
  fun_induction parting p q with
  | case1 p a q ih => simpa using ih
  | case2 a p b q differ => simp [parting, Ne.symm differ]
  | case3 p q other =>
    rcases p with _ | ⟨a, p⟩ <;> rcases q with _ | ⟨b, q⟩
    · rfl
    · rfl
    · rfl
    · exact (other a p b q rfl rfl).elim

def pathFor (extension : Name) (n : Nat) : Path := (UintN.ofUbig n).toFilePath extension

/-- Below their last common directory the two files stand in the order of their numbers. -/
def InOrder (extension : Name) (x y : Nat) : Prop :=
  rank extension (parting (pathFor extension x) (pathFor extension y)).1 <
    rank extension (parting (pathFor extension x) (pathFor extension y)).2

instance (extension : Name) (x y : Nat) : Decidable (InOrder extension x y) :=
  inferInstanceAs (Decidable (_ < _))

structure Lists (extension : Name) (S : Finset Nat) (files : List Path) : Prop where
  once : files.Nodup
  mem_iff : ∀ path, path ∈ files ↔ ∃ n ∈ S, path = pathFor extension n

structure FindsEnds (extension : Name) (S : Finset Nat) (nonempty : S.Nonempty) (files : List Path) :
    Prop where
  max : findMaxId files extension = .ok (.ofUbig (S.max' nonempty))
  min : findMinId files extension = .ok (.ofUbig (S.min' nonempty))
  sorted : ∃ ids, getFilesIds files extension = .ok ids ∧
    ids.getLast? = some (.ofUbig (S.max' nonempty)) ∧ ids.head? = some (.ofUbig (S.min' nonempty))

theorem spells_pathFor (extension : Name) (n : Nat) :
    Spells extension (groupsOf n) (pathFor extension n) := by
  simpa [pathFor] using spells_toFilePath (.ofUbig n) extension

theorem rank_pathFor (extension : Name) (n : Nat) : rank extension (pathFor extension n) = n := by
  rw [pathFor, rank_toFilePath, UintN.toNat_ofUbig]

theorem pathFor_ne (extension : Name) {x y : Nat} (differ : x ≠ y) :
    pathFor extension x ≠ pathFor extension y := by
  intro same
  apply differ
  rw [← rank_pathFor extension x, same, rank_pathFor]

theorem pathToId_pathFor (extension : Name) (n : Nat) :
    pathToId (pathFor extension n) extension = .ok (.ofUbig n) := by
  rw [pathFor, pathToId_toFilePath, UintN.toNat_ofUbig]

theorem length_pathFor_mono (extension : Name) {x y : Nat} (below : x < y) :
    (pathFor extension x).length ≤ (pathFor extension y).length := by
  have digits : (Nat.toDigits 16 x).length ≤ (Nat.toDigits 16 y).length := by
    rw [Nat.length_toDigits_le_iff (by decide) Nat.length_toDigits_pos]
    have reach := (Nat.length_toDigits_le_iff (by decide) Nat.length_toDigits_pos).mp
      (le_refl (Nat.toDigits 16 y).length)
    omega
  rw [pathFor, pathFor, length_toFilePath, length_toFilePath, UintN.toNat_ofUbig, UintN.toNat_ofUbig]
  omega

namespace Lists
variable {extension : Name} {S : Finset Nat} {files : List Path}

theorem named (lists : Lists extension S files) : Named extension files := by
  intro path member
  obtain ⟨n, -, rfl⟩ := (lists.mem_iff path).mp member
  exact ⟨_, spells_pathFor extension n⟩

theorem mem (lists : Lists extension S files) {n : Nat} (inS : n ∈ S) : pathFor extension n ∈ files :=
  (lists.mem_iff _).mpr ⟨n, inS, rfl⟩

end Lists

section Sufficient
variable {extension : Name} (extended : IsExtension extension)
include extended

/-- Two names part where no directory holds both. -/
theorem parting_of_apart {ps qs : List Name} {p q : Path} (pSpells : Spells extension ps p)
    (qSpells : Spells extension qs q) (apart : Apart p q) (differ : p ≠ q) : parting p q = (p, q) := by
  rcases p with _ | ⟨a, p⟩
  · exact absurd rfl (pSpells.proper extended).1
  · rcases q with _ | ⟨b, q⟩
    · exact absurd rfl (qSpells.proper extended).1
    · have different : a ≠ b := by
        rintro rfl
        -- only a file has a dot in its name, so both end here
        have pDotted := pSpells.dotted extended rfl
        have qDotted := qSpells.dotted extended rfl
        have both : (a :: p).length = 1 ∧ (a :: q).length = 1 := by
          rcases apart a p q rfl rfl with rfl | rfl
          · exact ⟨rfl, qDotted.mp (pDotted.mpr rfl)⟩
          · exact ⟨pDotted.mp (qDotted.mpr rfl), rfl⟩
        simp only [List.length_cons, Nat.add_eq_right, List.length_eq_zero_iff] at both
        rw [both.1, both.2] at differ
        exact differ rfl
      simp [parting, different]

variable {files : List Path} {S : Finset Nat}

/-- The answer is extreme for every weight that agrees with the comparison where two paths part. -/
theorem Search.findRecursive_parting {search : Search} {r : Nat → Nat → Prop} (sound : search.Sound r)
    {depth : Nat} (weight : Path → Nat) (nonempty : files ≠ [])
    (named : Named extension files) (shallow : ∀ path ∈ files, path.length ≤ depth)
    (agrees : ∀ p ∈ files, ∀ q ∈ files,
      r (rank extension (parting p q).1) (rank extension (parting p q).2) → r (weight p) (weight q)) :
    ∃ p, search.findRecursive extension depth files = .ok p ∧ ∀ q ∈ files, r (weight p) (weight q) := by
  induction depth generalizing files weight with
  | zero =>
    obtain ⟨path, member⟩ := List.exists_mem_of_ne_nil _ nonempty
    have short := shallow path member
    exact absurd (List.length_eq_zero_iff.mp (Nat.le_zero.mp short)) (named.proper extended path member).1
  | succ depth ih =>
    obtain ⟨some', isFile⟩ := List.exists_mem_of_ne_nil _ nonempty
    have here : ∀ c ∈ files, ∀ q ∈ files, Apart c q → r (rank extension c) (rank extension q) →
        r (weight c) (weight q) := by
      intro c cMember q qMember apart order
      by_cases same : c = q
      · rw [same]
        exact sound.refl _
      · obtain ⟨cs, cSpells⟩ := named c cMember
        obtain ⟨qs, qSpells⟩ := named q qMember
        apply agrees c cMember q qMember
        rwa [parting_of_apart extended cSpells qSpells apart same]
    obtain ⟨p, answer, wins⟩ := findRecursive_weighed sound extension weight here (fun _ => True)
      ⟨some', isFile, trivial⟩ (named.proper extended) (by
        rintro directory ⟨q, among, -⟩
        obtain ⟨p, answer, wins⟩ := ih (fun path => weight (directory :: path)) (List.ne_nil_of_mem among)
          (fun path member => (named.below member).imp fun _ h => h.1)
          (fun path member => by simpa using shallow _ (mem_below.mp member).2)
          (fun p pAmong q qAmong order => agrees _ (mem_below.mp pAmong).2 _ (mem_below.mp qAmong).2
            (by rwa [parting_cons]))
        exact ⟨p, answer, fun q other _ => wins q other⟩)
    exact ⟨p, answer, fun q member => wins q member trivial⟩

theorem Search.find_parting {search : Search} {r : Nat → Nat → Prop} (sound : search.Sound r) (nonempty : S.Nonempty) (lists : Lists extension S files)
    (weight : Nat → Nat)
    (agrees : ∀ x ∈ S, ∀ y ∈ S,
      r (rank extension (parting (pathFor extension x) (pathFor extension y)).1)
        (rank extension (parting (pathFor extension x) (pathFor extension y)).2) →
      r (weight x) (weight y)) :
    ∃ n ∈ S, search.find files extension = .ok (.ofUbig n) ∧ ∀ m ∈ S, r (weight n) (weight m) := by
  obtain ⟨k, inS⟩ := nonempty
  obtain ⟨p, answer, wins⟩ := findRecursive_parting extended sound (fun path => weight (rank extension path))
    (List.ne_nil_of_mem (lists.mem inS)) lists.named (fun path member => le_depthOf member) (by
      intro p pMember q qMember order
      obtain ⟨x, xInS, rfl⟩ := (lists.mem_iff p).mp pMember
      obtain ⟨y, yInS, rfl⟩ := (lists.mem_iff q).mp qMember
      rw [rank_pathFor, rank_pathFor]
      exact agrees x xInS y yInS order)
  obtain ⟨n, nInS, rfl⟩ := (lists.mem_iff p).mp (findRecursive_mem sound extension answer)
  refine ⟨n, nInS, ?_, ?_⟩
  · simp only [find, answer, bind, Except.bind, pathToId_pathFor]
  · intro m mInS
    have order := wins _ (lists.mem mInS)
    rwa [rank_pathFor, rank_pathFor] at order

/- The weight singles out the greatest number: the others may stand in any order among themselves. -/
theorem findMaxId_inOrder (nonempty : S.Nonempty)
    (lists : Lists extension S files)
    (ordered : ∀ x ∈ S, x < S.max' nonempty → InOrder extension x (S.max' nonempty)) :
    findMaxId files extension = .ok (.ofUbig (S.max' nonempty)) := by
  obtain ⟨n, -, answer, above⟩ := Search.find_parting extended Search.max_sound nonempty lists
    (fun x => if x = S.max' nonempty then 1 else 0) (by
      intro x xInS y yInS order
      by_cases greatest : y = S.max' nonempty
      · subst greatest
        have same : x = S.max' nonempty := by
          by_contra smaller
          have strict := ordered x xInS (lt_of_le_of_ne (S.le_max' x xInS) smaller)
          unfold InOrder at strict
          omega
        rw [if_pos rfl, if_pos same]
      · rw [if_neg greatest]
        exact Nat.zero_le _)
  have wins := above _ (S.max'_mem nonempty)
  have greatest : n = S.max' nonempty := by
    by_contra other
    rw [if_pos rfl, if_neg other] at wins
    omega
  rw [findMaxId, answer, greatest]

theorem findMinId_inOrder (nonempty : S.Nonempty)
    (lists : Lists extension S files)
    (ordered : ∀ y ∈ S, S.min' nonempty < y → InOrder extension (S.min' nonempty) y) :
    findMinId files extension = .ok (.ofUbig (S.min' nonempty)) := by
  obtain ⟨n, -, answer, below⟩ := Search.find_parting extended Search.min_sound nonempty lists
    (fun x => if x = S.min' nonempty then 0 else 1) (by
      intro x xInS y yInS order
      by_cases least : y = S.min' nonempty
      · subst least
        have same : x = S.min' nonempty := by
          by_contra larger
          have strict := ordered x xInS (lt_of_le_of_ne (S.min'_le x xInS) (Ne.symm larger))
          rw [InOrder, parting_swap (pathFor extension x)] at strict
          exact absurd strict (by simpa using order)
        rw [if_pos rfl, if_pos same]
      · rw [if_neg least]
        split <;> omega)
  have wins := below _ (S.min'_mem nonempty)
  have least : n = S.min' nonempty := by
    by_contra other
    rw [if_pos rfl, if_neg other] at wins
    omega
  rw [findMinId, answer, least]

theorem getFilesIds_lists (lists : Lists extension S files) :
    ∃ ids, getFilesIds files extension = .ok ids ∧ ids.Pairwise (· ≤ ·) ∧
      ∀ id, id ∈ ids ↔ ∃ n ∈ S, id = .ofUbig n := by
  refine ⟨_, rfl, ?_, ?_⟩
  · have total : Std.Total (fun a b : UintN => a ≤ b) := ⟨fun a b => by
      rw [UintN.le_iff, UintN.le_iff]
      omega⟩
    have trans : IsTrans UintN (· ≤ ·) := ⟨fun a b c => by
      rw [UintN.le_iff, UintN.le_iff, UintN.le_iff]
      omega⟩
    exact List.pairwise_insertionSort _ _
  · intro id
    rw [List.mem_insertionSort, List.mem_filterMap]
    constructor
    · rintro ⟨path, selected, spelt⟩
      obtain ⟨n, inS, rfl⟩ := (lists.mem_iff path).mp (List.mem_of_mem_filter selected)
      rw [pathToId_pathFor] at spelt
      exact ⟨n, inS, (Option.some.inj spelt).symm⟩
    · rintro ⟨n, inS, rfl⟩
      refine ⟨pathFor extension n, List.mem_filter.mpr ⟨lists.mem inS, ?_⟩, ?_⟩
      · obtain ⟨stem, group, last⟩ := (spells_pathFor extension n).last
        rw [last, Option.any_some, hasExtension_withExtension extended group]
      · rw [pathToId_pathFor]
        rfl

theorem getFilesIds_ends (nonempty : S.Nonempty)
    (lists : Lists extension S files) :
    ∃ ids, getFilesIds files extension = .ok ids ∧
      ids.getLast? = some (.ofUbig (S.max' nonempty)) ∧ ids.head? = some (.ofUbig (S.min' nonempty)) := by
  obtain ⟨ids, answer, sorted, mem_iff⟩ := getFilesIds_lists extended lists
  refine ⟨ids, answer, ?_, ?_⟩
  · have listed := (mem_iff _).mpr ⟨_, S.max'_mem nonempty, rfl⟩
    rcases List.eq_nil_or_concat' ids with rfl | ⟨front, last, rfl⟩
    · cases listed
    · obtain ⟨n, inS, rfl⟩ := (mem_iff last).mp (by simp)
      have above : S.max' nonempty ≤ n := by
        rcases List.mem_append.mp listed with before | same
        · have order := (List.pairwise_append.mp sorted).2.2 _ before _ (List.mem_singleton_self _)
          simpa [UintN.le_iff] using order
        · have value := congrArg UintN.toNat (List.mem_singleton.mp same)
          simp only [UintN.toNat_ofUbig] at value
          omega
      rw [List.getLast?_concat, le_antisymm (S.le_max' n inS) above]
  · have listed := (mem_iff _).mpr ⟨_, S.min'_mem nonempty, rfl⟩
    rcases ids with _ | ⟨first, rest⟩
    · cases listed
    · obtain ⟨n, inS, rfl⟩ := (mem_iff first).mp (by simp)
      have below : n ≤ S.min' nonempty := by
        rcases List.mem_cons.mp listed with same | after
        · have value := congrArg UintN.toNat same
          simp only [UintN.toNat_ofUbig] at value
          omega
        · have order := (List.pairwise_cons.mp sorted).1 _ after
          simpa [UintN.le_iff] using order
      rw [List.head?_cons, le_antisymm below (S.min'_le n inS)]

theorem FindsEnds.of_inOrder (nonempty : S.Nonempty)
    (lists : Lists extension S files)
    (last : ∀ x ∈ S, x < S.max' nonempty → InOrder extension x (S.max' nonempty))
    (first : ∀ y ∈ S, S.min' nonempty < y → InOrder extension (S.min' nonempty) y) :
    FindsEnds extension S nonempty files where
  max := findMaxId_inOrder extended nonempty lists last
  min := findMinId_inOrder extended nonempty lists first
  sorted := getFilesIds_ends extended nonempty lists

end Sufficient

/-! Where the condition fails, the smaller search already errs, on two files. -/

variable {extension : Name}

theorem Search.findRecursive_nothing (search : Search) {depth : Nat} {files : List Path}
    (foreign : ∀ path ∈ files, path.getLast?.any (hasExtension extension) = false) :
    search.findRecursive extension depth files = .error .noFilesFound := by
  induction depth generalizing files with
  | zero => rfl
  | succ depth ih =>
    apply findRecursive_unoffered
    rw [List.eq_nil_iff_forall_not_mem]
    intro c among
    rcases mem_candidates.mp among with ⟨directory, path, -, -, answer⟩ | inFiles
    · rw [ih] at answer
      · cases answer
      · intro path among
        obtain ⟨nonnil, member⟩ := mem_below.mp among
        obtain ⟨second, rest, rfl⟩ := List.exists_cons_of_ne_nil nonnil
        simpa using foreign _ member
    · obtain ⟨member, name, rfl, extended⟩ := mem_filesIn.mp inFiles
      have other := foreign _ member
      rw [List.getLast?_singleton, Option.any_some, extended] at other
      cases other

section Pair
variable {extension : Name} (extended : IsExtension extension)

variable {p q : Path} {depth : Nat}

theorem Search.findRecursive_shared (search : Search) (extension : Name) (depth : Nat) (directory : Name) (pNonempty : p ≠ []) (qNonempty : q ≠ []) {answer : Path}
    (found : search.findRecursive extension depth [q, p] = .ok answer) :
    search.findRecursive extension (depth + 1) [directory :: q, directory :: p] =
      .ok (directory :: answer) := by
  obtain ⟨a, p, rfl⟩ := List.exists_cons_of_ne_nil pNonempty
  obtain ⟨b, q, rfl⟩ := List.exists_cons_of_ne_nil qNonempty
  have subs : subdirectories [directory :: b :: q, directory :: a :: p] = [directory] := by
    simp [subdirectories]
  have inside : below directory [directory :: b :: q, directory :: a :: p] = [b :: q, a :: p] := by
    simp [below]
  simp [findRecursive, subs, inside, found, filesIn, best]

include extended

theorem Search.findRecursive_single (search : Search) {groups : List Name} {path : Path}
    (spells : Spells extension groups path) (shallow : path.length ≤ depth) :
    search.findRecursive extension depth [path] = .ok path := by
  obtain ⟨p, answer⟩ := search.findRecursive_total extended (List.cons_ne_nil path [])
    (fun other member => ⟨groups, List.mem_singleton.mp member ▸ spells⟩)
    (fun other member => List.mem_singleton.mp member ▸ shallow)
  have only := List.mem_singleton.mp (findRecursive_mem search.always_sound extension answer)
  rw [answer, only]

/-- Of two files that part here, the first listed is the answer of the smaller search unless it is
the larger one; of a file and a directory, the directory. -/
theorem Search.min_apart {ps qs : List Name} (pSpells : Spells extension ps p)
    (qSpells : Spells extension qs q) (differ : p.head? ≠ q.head?) (shorter : p.length ≤ q.length)
    (enough : q.length ≤ depth) (order : rank extension q ≤ rank extension p) :
    Search.min.findRecursive extension depth [q, p] = .ok q := by
  have keeps : Search.min.keeps (pathToIdOrZero extension q) (pathToIdOrZero extension p) = true :=
    decide_eq_true ((UintN.le_iff _ _).mpr order)
  have prefers : Search.min.prefersDirectory (pathToIdOrZero extension q) (pathToIdOrZero extension p) =
      true := decide_eq_true ((UintN.le_iff _ _).mpr order)
  obtain ⟨pNonnil, pFile⟩ := pSpells.proper extended
  obtain ⟨qNonnil, qFile⟩ := qSpells.proper extended
  obtain ⟨a, p, rfl⟩ := List.exists_cons_of_ne_nil pNonnil
  obtain ⟨b, q, rfl⟩ := List.exists_cons_of_ne_nil qNonnil
  have names : a ≠ b := by simpa using differ
  obtain ⟨depth, rfl⟩ : ∃ d, depth = d + 1 := ⟨depth - 1, by simp at enough; omega⟩
  rcases q with _ | ⟨b', q⟩
  · -- two files
    obtain rfl : p = [] := by
      rw [List.length_cons, List.length_singleton] at shorter
      exact List.length_eq_zero_iff.mp (by omega)
    simp [findRecursive, subdirectories, filesIn, pFile a rfl, qFile b rfl, best, keeps]
  · obtain ⟨qs', -, qTail⟩ := qSpells.tail (by simp)
    have qFound : Search.min.findRecursive extension depth [b' :: q] = .ok (b' :: q) :=
      Search.min.findRecursive_single extended qTail (by simp at enough ⊢; omega)
    rcases p with _ | ⟨a', p⟩
    · simp [findRecursive, subdirectories, below, filesIn, pFile a rfl, best, qFound, prefers]
    · obtain ⟨ps', -, pTail⟩ := pSpells.tail (by simp)
      have pFound : Search.min.findRecursive extension depth [a' :: p] = .ok (a' :: p) :=
        Search.min.findRecursive_single extended pTail (by simp at enough shorter ⊢; omega)
      simp [findRecursive, subdirectories, below, filesIn, best, qFound, pFound, keeps, names, Ne.symm names]

theorem Search.min_parting {ps qs : List Name} (pSpells : Spells extension ps p)
    (qSpells : Spells extension qs q) (differ : p ≠ q) (shorter : p.length ≤ q.length)
    (enough : q.length ≤ depth)
    (order : rank extension (parting p q).2 ≤ rank extension (parting p q).1) :
    Search.min.findRecursive extension depth [q, p] = .ok q := by
  fun_induction parting p q generalizing ps qs depth with
  | case1 p directory q ih =>
    rw [List.length_cons] at enough
    obtain ⟨depth, rfl⟩ : ∃ d, depth = d + 1 := ⟨depth - 1, by omega⟩
    have lengths : p.length ≤ q.length := by simpa using shorter
    have pNonempty : p ≠ [] := by
      rintro rfl
      -- a file of this name leaves no room for a directory of this name
      have dot := (pSpells.dotted extended rfl).mpr rfl
      have single := (qSpells.dotted extended rfl).mp dot
      obtain rfl : q = [] := by simpa using single
      exact differ rfl
    have qNonempty : q ≠ [] := by
      rintro rfl
      exact pNonempty (List.length_eq_zero_iff.mp (Nat.le_zero.mp lengths))
    obtain ⟨ps', -, pTail⟩ := pSpells.tail pNonempty
    obtain ⟨qs', -, qTail⟩ := qSpells.tail qNonempty
    have found := ih pTail qTail (by simpa using differ) lengths (show q.length ≤ depth by omega) order
    exact Search.min.findRecursive_shared extension depth directory pNonempty qNonempty found
  | case2 a p b q names =>
    exact Search.min_apart extended pSpells qSpells (by simpa using names) shorter enough order
  | case3 p q other =>
    obtain ⟨a, p, rfl⟩ := List.exists_cons_of_ne_nil (pSpells.proper extended).1
    obtain ⟨b, q, rfl⟩ := List.exists_cons_of_ne_nil (qSpells.proper extended).1
    exact (other a p b q rfl rfl).elim

theorem findMinId_pair {x y : Nat} (below : x < y) (disordered : ¬ InOrder extension x y) :
    findMinId [pathFor extension y, pathFor extension x] extension = .ok (.ofUbig y) := by
  have reached : (pathFor extension y).length ≤ depthOf [pathFor extension y, pathFor extension x] :=
    le_depthOf List.mem_cons_self
  have found := Search.min_parting extended (spells_pathFor extension x) (spells_pathFor extension y)
    (pathFor_ne extension below.ne) (length_pathFor_mono extension below) reached (Nat.le_of_not_lt disordered)
  simp only [findMinId, Search.find, found, bind, Except.bind, pathToId_pathFor]

end Pair

/-! The condition, and where it holds. -/

/-- Files have an extension, and any two stand in the order of their numbers where they part. -/
structure Searchable (extension : Name) (U : Set Nat) : Prop where
  extended : U.Nonempty → IsExtension extension
  ordered : ∀ x ∈ U, ∀ y ∈ U, x < y → InOrder extension x y

theorem parting_level {ps qs : List Name} {p q : Path} (pSpells : Spells extension ps p)
    (qSpells : Spells extension qs q) (level : p.length = q.length)
    (order : rank extension p < rank extension q) :
    rank extension (parting p q).1 < rank extension (parting p q).2 := by
  fun_induction parting p q generalizing ps qs with
  | case1 p directory q ih =>
    have lengths : p.length = q.length := by simpa using level
    by_cases ends : p = []
    · rw [ends, List.length_nil] at lengths
      rw [ends, List.length_eq_zero_iff.mp lengths.symm] at order
      exact absurd order (lt_irrefl _)
    · have goesOn : q ≠ [] := by
        rintro rfl
        exact ends (List.length_eq_zero_iff.mp lengths)
      obtain ⟨ps', rfl, pTail⟩ := pSpells.tail ends
      obtain ⟨qs', rfl, qTail⟩ := qSpells.tail goesOn
      rw [pSpells.rank_cons pTail, qSpells.rank_cons qTail, lengths] at order
      exact ih pTail qTail lengths (by omega)
  | case2 a p b q names => exact order
  | case3 p q other => exact order

theorem searchable_of_small (extended : IsExtension extension) {U : Set Nat}
    (small : ∀ n ∈ U, n < 2 ^ 24) : Searchable extension U := by
  refine ⟨fun _ => extended, ?_⟩
  intro x xInU y yInU below
  have order : rank extension (pathFor extension x) < rank extension (pathFor extension y) := by
    rwa [rank_pathFor, rank_pathFor]
  have deeper := length_pathFor_mono extension below
  have shallow : (pathFor extension y).length ≤ 2 := by
    rw [pathFor, length_toFilePath_le _ _ two_ne_zero, UintN.toNat_ofUbig]
    exact small y yInU
  have xSpells := spells_pathFor extension x
  have ySpells := spells_pathFor extension y
  have positive := List.length_pos_iff.mpr (xSpells.proper extended).1
  by_cases level : (pathFor extension x).length = (pathFor extension y).length
  · exact parting_level xSpells ySpells level order
  · have apart : Apart (pathFor extension x) (pathFor extension y) := .of_single (by omega)
    rw [InOrder, parting_of_apart extended xSpells ySpells apart (pathFor_ne extension below.ne)]
    exact order

/- The files of `U` can be searched, whichever of them exist and however they are listed, exactly
when any two of them can. -/
theorem extremes_found_iff (extension : Name) (U : Set Nat) :
    (∀ (S : Finset Nat) (nonempty : S.Nonempty), ↑S ⊆ U → ∀ files, Lists extension S files →
      FindsEnds extension S nonempty files) ↔ Searchable extension U := by
  constructor
  · intro finds
    have extended : U.Nonempty → IsExtension extension := by
      rintro ⟨x, inU⟩
      by_contra plain
      have alone : Lists extension {x} [pathFor extension x] := ⟨by simp, by simp⟩
      have found := (finds {x} (by simp) (by simpa using inU) _ alone).max
      have nothing : Search.max.findRecursive extension (depthOf [pathFor extension x])
          [pathFor extension x] = .error .noFilesFound :=
        Search.max.findRecursive_nothing (by
          intro path member
          obtain ⟨stem, group, last⟩ := (spells_pathFor extension x).last
          rw [List.mem_singleton.mp member, last, Option.any_some, hasExtension_foreign plain group])
      rw [findMaxId, Search.find, nothing] at found
      cases found
    refine ⟨extended, ?_⟩
    intro x xInU y yInU below
    by_contra disordered
    have wrong := findMinId_pair (extended ⟨x, xInU⟩) below disordered
    have pair : Lists extension {x, y} [pathFor extension y, pathFor extension x] := by
      refine ⟨?_, ?_⟩
      · simpa using pathFor_ne extension below.ne'
      · intro path
        simp [or_comm]
    have found := (finds {x, y} (by simp) (by
      intro n member
      rcases Finset.mem_insert.mp (Finset.mem_coe.mp member) with rfl | second
      · exact xInU
      · exact Finset.mem_singleton.mp second ▸ yInU) _ pair).min
    have least : ({x, y} : Finset Nat).min' (by simp) ≤ x := Finset.min'_le _ _ (by simp)
    rw [wrong, Except.ok.injEq] at found
    have value := congrArg UintN.toNat found
    rw [UintN.toNat_ofUbig, UintN.toNat_ofUbig] at value
    omega
  · intro searchable S nonempty within files lists
    obtain ⟨n, inS⟩ := nonempty
    have extended := searchable.extended ⟨n, within inS⟩
    have ordered : ∀ x ∈ S, ∀ y ∈ S, x < y → InOrder extension x y :=
      fun x xInS y yInS => searchable.ordered x (within xInS) y (within yInS)
    exact .of_inOrder extended ⟨n, inS⟩ lists (fun x xInS => ordered x xInS _ (S.max'_mem _))
      (fun y yInS => ordered _ (S.min'_mem _) y yInS)

/- In directory 001 the file fff beats 000/000, and 000/000 is not behind the file 000. -/
theorem extremes_missed :
    findMaxId [pathFor walExtension 0x1fff, pathFor walExtension 0x1000000] walExtension =
        .ok (.ofUbig 0x1fff) ∧
      getFilesIds [pathFor walExtension 0x1fff, pathFor walExtension 0x1000000] walExtension =
        .ok [.ofUbig 0x1fff, .ofUbig 0x1000000] ∧
      findMinId [pathFor walExtension 0x1000, pathFor walExtension 0x1000000] walExtension =
        .ok (.ofUbig 0x1000000) ∧
      getFilesIds [pathFor walExtension 0x1000, pathFor walExtension 0x1000000] walExtension =
        .ok [.ofUbig 0x1000, .ofUbig 0x1000000] := by
  decide +kernel

end NormFS
