import NormFS.Lib.Hex
import NormFS.UintN.Value
import Mathlib.Data.List.Dedup
import Mathlib.Data.List.Sort

/-! File names. The number of a file in hexadecimal, padded to groups of three digits; every group
but the last is a directory. The search for the first and the last file walks the directories and
compares, in each of them, what is left of the paths below it. -/
namespace NormFS

abbrev Name := List Char

/-- Components below the directory of a queue, the last one with its extension. -/
abbrev Path := List Name

def walExtension : Name := ['w', 'a', 'l']
def storeExtension : Name := ['s', 't', 'o', 'r', 'e']

inductive PathError where
  | io
  | uintN (error : UintNError)
  | noFilesFound
  deriving DecidableEq, Repr

def padHex (hex : List Char) : List Char :=
  List.replicate ((hex.length + 2) / 3 * 3 - hex.length) '0' ++ hex

/-- The leading groups of three digits, and what is left when at most three are. -/
def splitGroups : List Char → List Name × Name
  | a :: b :: c :: d :: rest =>
    ([a, b, c] :: (splitGroups (d :: rest)).1, (splitGroups (d :: rest)).2)
  | remaining => ([], remaining)

def withExtension (stem extension : Name) : Name :=
  if extension.isEmpty then stem else stem ++ '.' :: extension

def UintN.toFilePath (self : UintN) (extension : Name) : Path :=
  let groups := splitGroups (padHex (Nat.toDigits 16 self.shrinkToFit.toNat))
  groups.1 ++ [withExtension groups.2 extension]

def UintN.fromHexDigits (hexString : List Char) : Except UintNError UintN :=
  if hexString.all Hex.isDigit then .ok (.ofUbig (Hex.value hexString)) else .error .invalidHexString

def stripExtension (extension component : Name) : Name :=
  if ('.' :: extension).isSuffixOf component then component.take (component.length - (extension.length + 1))
  else component

def pathToId (path : Path) (extension : Name) : Except PathError UintN :=
  match UintN.fromHexDigits (path.flatMap (stripExtension extension)) with
  | .ok id => .ok id
  | .error e => .error (.uintN e)

def pathToIdOrZero (extension : Name) (path : Path) : UintN :=
  match pathToId path extension with
  | .ok id => id
  | .error _ => .zero

/- A directory is the list of the files below it. The order of the list stands for the order in
which the operating system lists a directory. -/
def subdirectories (files : List Path) : List Name :=
  (files.filterMap (fun path => match path with
    | directory :: _ :: _ => some directory
    | _ => none)).dedup

def below (directory : Name) (files : List Path) : List Path :=
  files.filterMap (fun path => match path with
    | first :: second :: rest => if first = directory then some (second :: rest) else none
    | _ => none)

/- The extension of a name is what follows its last dot. -/
def hasExtension (extension name : Name) : Bool :=
  !extension.contains '.' && ('.' :: extension).isSuffixOf name &&
    decide (extension.length + 1 < name.length)

/-- The extensions by which files are told from other files. -/
def IsExtension (extension : Name) : Prop := extension ≠ [] ∧ '.' ∉ extension

instance (extension : Name) : Decidable (IsExtension extension) := inferInstanceAs (Decidable (_ ∧ _))

def filesIn (extension : Name) (files : List Path) : List Path :=
  files.filter (fun path => match path with
    | [name] => hasExtension extension name
    | _ => false)

/- The two searches differ in the comparison only. `keeps earlier later` is the answer of the
iterator: the last of several largest, the first of several smallest. `prefersDirectory` decides
between what the subdirectories and what the files of a directory give. -/
structure Search where
  keeps : UintN → UintN → Bool
  prefersDirectory : UintN → UintN → Bool

def Search.max : Search := ⟨fun a b => decide (b < a), fun a b => decide (b ≤ a)⟩
def Search.min : Search := ⟨fun a b => decide (a ≤ b), fun a b => decide (a ≤ b)⟩

def Search.best (search : Search) (extension : Name) : List Path → Option Path
  | [] => none
  | path :: rest => some (rest.foldl (fun chosen other =>
      if search.keeps (pathToIdOrZero extension chosen) (pathToIdOrZero extension other) then chosen
      else other) path)

@[simp] theorem Search.best_nil (search : Search) (extension : Name) : search.best extension [] = none := rfl

/- The depth of the deepest file bounds the recursion. -/
def Search.findRecursive (search : Search) (extension : Name) : Nat → List Path → Except PathError Path
  | 0, _ => .error .noFilesFound
  | depth + 1, files =>
    let fromDirs := search.best extension ((subdirectories files).filterMap (fun directory =>
      match search.findRecursive extension depth (below directory files) with
      | .ok path => some (directory :: path)
      | .error _ => none))
    let fromFiles := search.best extension (filesIn extension files)
    match fromDirs, fromFiles with
    | some p1, some p2 =>
      .ok (if search.prefersDirectory (pathToIdOrZero extension p1) (pathToIdOrZero extension p2)
        then p1 else p2)
    | some p, none => .ok p
    | none, some p => .ok p
    | none, none => .error .noFilesFound

def depthOf (files : List Path) : Nat := (files.map List.length).foldr Nat.max 0

def Search.find (search : Search) (files : List Path) (extension : Name) : Except PathError UintN := do
  let path ← search.findRecursive extension (depthOf files) files
  pathToId path extension

def findMaxId (files : List Path) (extension : Name) : Except PathError UintN :=
  Search.max.find files extension

def findMinId (files : List Path) (extension : Name) : Except PathError UintN :=
  Search.min.find files extension

/- The walk visits every file below the directory; names that spell no number are passed over. -/
def getFilesIds (files : List Path) (extension : Name) : Except PathError (List UintN) :=
  let ids := (files.filter (fun path => path.getLast?.any (hasExtension extension))).filterMap
    (fun path => (pathToId path extension).toOption)
  .ok (ids.insertionSort (· ≤ ·))

def groupsOf (n : Nat) : List Name :=
  (splitGroups (padHex (Nat.toDigits 16 n))).1 ++ [(splitGroups (padHex (Nat.toDigits 16 n))).2]

def pathOf (extension : Name) : List Name → Path
  | [] => []
  | [stem] => [withExtension stem extension]
  | directory :: next :: rest => directory :: pathOf extension (next :: rest)

def IsGroup (group : Name) : Prop := group.length = 3 ∧ group.all Hex.isDigit = true

theorem pathOf_append_singleton (extension : Name) (groups : List Name) (stem : Name) :
    pathOf extension (groups ++ [stem]) = groups ++ [withExtension stem extension] := by
  induction groups with
  | nil => rfl
  | cons group groups ih =>
    cases groups with
    | nil => rfl
    | cons next rest => simpa [pathOf] using ih

theorem toFilePath_eq (id : UintN) (extension : Name) :
    id.toFilePath extension = pathOf extension (groupsOf id.toNat) := by
  rw [groupsOf, pathOf_append_singleton, UintN.toFilePath, UintN.toNat_shrinkToFit]

theorem splitGroups_flatten (text : List Char) :
    (splitGroups text).1.flatten ++ (splitGroups text).2 = text := by
  fun_induction splitGroups text with
  | case1 a b c d rest ih => simpa using ih
  | case2 remaining => rfl

theorem splitGroups_length {k : Nat} {text : List Char} (whole : text.length = 3 * (k + 1)) :
    (∀ group ∈ (splitGroups text).1, group.length = 3) ∧ (splitGroups text).2.length = 3 := by
  induction k generalizing text with
  | zero =>
    match text, whole with
    | [a, b, c], _ => exact ⟨by simp [splitGroups], rfl⟩
  | succ k ih =>
    match text, whole with
    | a :: b :: c :: d :: rest, whole =>
      obtain ⟨groups, last⟩ := ih (show (d :: rest).length = 3 * (k + 1) by simp at whole ⊢; omega)
      refine ⟨?_, last⟩
      intro group member
      rcases List.mem_cons.mp member with rfl | later
      · rfl
      · exact groups group later

theorem groupsOf_spec (n : Nat) :
    (∀ group ∈ groupsOf n, IsGroup group) ∧ Hex.value (groupsOf n).flatten = n := by
  obtain ⟨digits, spells⟩ := Hex.toDigits_spells n
  have positive : 0 < (Nat.toDigits 16 n).length := Nat.length_toDigits_pos
  have flat : (groupsOf n).flatten = padHex (Nat.toDigits 16 n) := by
    simpa [groupsOf] using splitGroups_flatten (padHex (Nat.toDigits 16 n))
  have length : (padHex (Nat.toDigits 16 n)).length =
      3 * (((Nat.toDigits 16 n).length + 2) / 3 - 1 + 1) := by
    simp only [padHex, List.length_append, List.length_replicate]
    omega
  obtain ⟨groups, last⟩ := splitGroups_length length
  refine ⟨?_, by rw [flat, padHex, Hex.value_zeros, spells]⟩
  intro group member
  refine ⟨?_, ?_⟩
  · rcases List.mem_append.mp member with front | back
    · exact groups group front
    · obtain rfl : group = _ := by simpa using back
      exact last
  · rw [List.all_eq_true]
    intro c inGroup
    have inText : c ∈ padHex (Nat.toDigits 16 n) := flat ▸ List.mem_flatten.mpr ⟨group, member, inGroup⟩
    rcases List.mem_append.mp inText with zero | digit
    · rw [List.eq_of_mem_replicate zero]
      rfl
    · exact digits c digit

theorem groupsOf_ne_nil (n : Nat) : groupsOf n ≠ [] := by simp [groupsOf]

theorem dot_not_digit {group : Name} (hex : group.all Hex.isDigit = true) : '.' ∉ group := by
  intro member
  have digit := List.all_eq_true.mp hex '.' member
  exact absurd digit (by decide)

theorem stripExtension_group {group : Name} (hex : group.all Hex.isDigit = true) (extension : Name) :
    stripExtension extension group = group := by
  unfold stripExtension
  rw [if_neg]
  intro ends
  have within := List.isSuffixOf_iff_suffix.mp ends
  exact dot_not_digit hex (within.subset (by simp))

variable {stem extension : Name} {files : List Path} {path : Path}

theorem stripExtension_file (hex : stem.all Hex.isDigit = true) (extension : Name) :
    stripExtension extension (withExtension stem extension) = stem := by
  unfold withExtension
  split
  · exact stripExtension_group hex extension
  · unfold stripExtension
    rw [if_pos (List.isSuffixOf_iff_suffix.mpr (List.suffix_append _ _))]
    simp

theorem pathToId_pathOf (extension : Name) {groups : List Name}
    (wellFormed : ∀ group ∈ groups, IsGroup group) :
    pathToId (pathOf extension groups) extension = .ok (.ofUbig (Hex.value groups.flatten)) := by
  have strip : (pathOf extension groups).flatMap (stripExtension extension) = groups.flatten := by
    fun_induction pathOf extension groups with
    | case1 => rfl
    | case2 stem => simp [stripExtension_file (wellFormed stem (by simp)).2]
    | case3 directory next rest ih =>
      rw [List.flatMap_cons, stripExtension_group (wellFormed directory (by simp)).2,
        ih (fun group member => wellFormed group (List.mem_cons_of_mem _ member))]
      rfl
  have digits : groups.flatten.all Hex.isDigit = true := by
    rw [List.all_eq_true]
    intro c member
    obtain ⟨group, inGroups, inGroup⟩ := List.mem_flatten.mp member
    exact List.all_eq_true.mp (wellFormed group inGroups).2 c inGroup
  simp only [pathToId, strip, UintN.fromHexDigits, digits, if_true]

theorem pathToId_toFilePath (id : UintN) (extension : Name) :
    pathToId (id.toFilePath extension) extension = .ok (.ofUbig id.toNat) := by
  obtain ⟨groups, spells⟩ := groupsOf_spec id.toNat
  rw [toFilePath_eq, pathToId_pathOf extension groups, spells]

theorem toFilePath_inj {a b : UintN}
    (same : a.toFilePath extension = b.toFilePath extension) : a.toNat = b.toNat := by
  have ids := pathToId_toFilePath a extension
  rw [same, pathToId_toFilePath] at ids
  have values := congrArg UintN.toNat (Except.ok.inj ids)
  simpa using values.symm

theorem toFilePath_beq (extension : Name) (m n : Nat) :
    ((UintN.ofUbig m).toFilePath extension == (UintN.ofUbig n).toFilePath extension) = decide (m = n) := by
  rw [Bool.eq_iff_iff, beq_iff_eq, decide_eq_true_iff]
  constructor
  · intro same
    have value := toFilePath_inj same
    rwa [UintN.toNat_ofUbig, UintN.toNat_ofUbig] at value
  · rintro rfl
    rfl

/-! What the search finds. A search is sound for an order when its comparisons decide that order. -/

structure Search.Sound (search : Search) (r : Nat → Nat → Prop) : Prop where
  refl : ∀ a, r a a
  trans : ∀ {a b c}, r a b → r b c → r a c
  shift : ∀ {a b} c, r a b → r (c + a) (c + b)
  kept : ∀ {a b}, search.keeps a b = true → r a.toNat b.toNat
  replaced : ∀ {a b}, search.keeps a b = false → r b.toNat a.toNat
  directory : ∀ {a b}, search.prefersDirectory a b = true → r a.toNat b.toNat
  file : ∀ {a b}, search.prefersDirectory a b = false → r b.toNat a.toNat

theorem Search.max_sound : Search.max.Sound (fun a b => b ≤ a) where
  refl _ := le_refl _
  trans ab bc := le_trans bc ab
  shift _ ab := by omega
  kept h := by have := (UintN.lt_iff _ _).mp (of_decide_eq_true h); omega
  replaced h := by
    have := mt (UintN.lt_iff _ _).mpr (of_decide_eq_false h)
    omega
  directory h := (UintN.le_iff _ _).mp (of_decide_eq_true h)
  file h := by
    have := mt (UintN.le_iff _ _).mpr (of_decide_eq_false h)
    omega

theorem Search.min_sound : Search.min.Sound (fun a b => a ≤ b) where
  refl _ := le_refl _
  trans ab bc := le_trans ab bc
  shift _ ab := by omega
  kept h := (UintN.le_iff _ _).mp (of_decide_eq_true h)
  replaced h := by
    have := mt (UintN.le_iff _ _).mpr (of_decide_eq_false h)
    omega
  directory h := (UintN.le_iff _ _).mp (of_decide_eq_true h)
  file h := by
    have := mt (UintN.le_iff _ _).mpr (of_decide_eq_false h)
    omega

def rank (extension : Name) (path : Path) : Nat := (pathToIdOrZero extension path).toNat

theorem mem_below {directory : Name} :
    path ∈ below directory files ↔ path ≠ [] ∧ directory :: path ∈ files := by
  simp only [below, List.mem_filterMap]
  constructor
  · rintro ⟨whole, member, selected⟩
    rcases whole with _ | ⟨first, _ | ⟨second, rest⟩⟩
    · cases selected
    · cases selected
    · by_cases same : first = directory
      · subst same
        simp only [if_pos, Option.some.injEq] at selected
        subst selected
        exact ⟨by simp, member⟩
      · simp [same] at selected
  · rintro ⟨nonempty, member⟩
    obtain ⟨second, rest, rfl⟩ := List.exists_cons_of_ne_nil nonempty
    exact ⟨_, member, by simp⟩

theorem mem_subdirectories {directory : Name} :
    directory ∈ subdirectories files ↔ below directory files ≠ [] := by
  simp only [subdirectories, List.mem_dedup, List.mem_filterMap]
  constructor
  · rintro ⟨whole, member, selected⟩
    rcases whole with _ | ⟨first, _ | ⟨second, rest⟩⟩
    · cases selected
    · cases selected
    · cases selected
      exact List.ne_nil_of_mem (mem_below.mpr ⟨by simp, member⟩)
  · intro inhabited
    obtain ⟨path, among⟩ := List.exists_mem_of_ne_nil _ inhabited
    obtain ⟨nonempty, member⟩ := mem_below.mp among
    obtain ⟨second, rest, rfl⟩ := List.exists_cons_of_ne_nil nonempty
    exact ⟨_, member, rfl⟩

structure Spells (extension : Name) (groups : List Name) (path : Path) : Prop where
  nonempty : groups ≠ []
  wellFormed : ∀ group ∈ groups, IsGroup group
  same : path = pathOf extension groups

def Named (extension : Name) (files : List Path) : Prop :=
  ∀ path ∈ files, ∃ groups, Spells extension groups path

theorem spells_toFilePath (id : UintN) (extension : Name) :
    Spells extension (groupsOf id.toNat) (id.toFilePath extension) :=
  ⟨groupsOf_ne_nil _, (groupsOf_spec _).1, toFilePath_eq id extension⟩

theorem toFilePath_congr {a b : UintN} (same : a.toNat = b.toNat) (extension : Name) :
    a.toFilePath extension = b.toFilePath extension := by
  rw [toFilePath_eq, toFilePath_eq, same]

theorem rank_toFilePath (id : UintN) (extension : Name) :
    rank extension (id.toFilePath extension) = id.toNat := by
  simp [rank, pathToIdOrZero, pathToId_toFilePath]

theorem length_pathOf (extension : Name) (groups : List Name) :
    (pathOf extension groups).length = groups.length := by
  fun_induction pathOf extension groups with
  | case1 => rfl
  | case2 stem => rfl
  | case3 directory next rest ih => simpa using ih

theorem hasExtension_withExtension (extended : IsExtension extension)
    (group : IsGroup stem) : hasExtension extension (withExtension stem extension) = true := by
  simp [hasExtension, withExtension, extended.1, extended.2, List.isSuffixOf_iff_suffix, group.1]

/- A dot in the extension moves the last dot of the name, and without an extension there is none. -/
theorem hasExtension_foreign (plain : ¬ IsExtension extension)
    (group : IsGroup stem) : hasExtension extension (withExtension stem extension) = false := by
  by_cases dot : '.' ∈ extension
  · simp [hasExtension, dot]
  · obtain rfl : extension = [] := by
      by_contra nonempty
      exact plain ⟨nonempty, dot⟩
    have unended : ¬ ['.'] <:+ stem := fun ends => dot_not_digit group.2 (ends.subset (by simp))
    simp [withExtension, hasExtension, List.isSuffixOf_iff_suffix, unended]

namespace Spells
variable {extension : Name} {groups : List Name} {path : Path}

section

variable (spells : Spells extension groups path)

include spells

theorem length : path.length = groups.length := by
  rw [spells.same, length_pathOf]

theorem rank :
    rank extension path = Hex.value groups.flatten := by
  simp [NormFS.rank, pathToIdOrZero, spells.same, pathToId_pathOf extension spells.wellFormed]

theorem digits : groups.flatten.length = 3 * groups.length := by
  have wellFormed := spells.wellFormed
  clear spells
  induction groups with
  | nil => rfl
  | cons group groups ih =>
    have three := (wellFormed group (by simp)).1
    have rest := ih (fun other member => wellFormed other (List.mem_cons_of_mem _ member))
    simp only [List.flatten_cons, List.length_append, List.length_cons]
    omega

theorem proper (extended : IsExtension extension) :
    path ≠ [] ∧ ∀ name, path = [name] → hasExtension extension name = true := by
  obtain ⟨nonempty, wellFormed, rfl⟩ := spells
  refine ⟨?_, ?_⟩
  · intro empty
    have := congrArg List.length empty
    rw [length_pathOf] at this
    exact nonempty (List.length_eq_zero_iff.mp this)
  · intro name single
    have one := congrArg List.length single
    rw [length_pathOf] at one
    obtain ⟨stem, rfl⟩ := List.length_eq_one_iff.mp one
    obtain rfl : withExtension stem extension = name := by simpa [pathOf] using single
    exact hasExtension_withExtension extended (wellFormed stem (by simp))

theorem last :
    ∃ stem, IsGroup stem ∧ path.getLast? = some (withExtension stem extension) := by
  obtain ⟨nonempty, wellFormed, rfl⟩ := spells
  rcases List.eq_nil_or_concat' groups with rfl | ⟨front, stem, rfl⟩
  · exact absurd rfl nonempty
  · exact ⟨stem, wellFormed stem (by simp), by rw [pathOf_append_singleton, List.getLast?_concat]⟩

theorem dotted (extended : IsExtension extension) {name : Name}
    (head : path.head? = some name) : '.' ∈ name ↔ path.length = 1 := by
  obtain ⟨nonempty, wellFormed, rfl⟩ := spells
  rcases groups with _ | ⟨first, _ | ⟨second, rest⟩⟩
  · exact absurd rfl nonempty
  · cases head
    simp [pathOf, withExtension, extended.1]
  · cases head
    have undotted := dot_not_digit (wellFormed name (by simp)).2
    simp [length_pathOf, undotted]

end

theorem tail {directory : Name} (spells : Spells extension groups (directory :: path))
    (nonnil : path ≠ []) :
    ∃ rest, groups = directory :: rest ∧ Spells extension rest path := by
  obtain ⟨-, wellFormed, same⟩ := spells
  rcases groups with _ | ⟨first, _ | ⟨second, rest⟩⟩
  · cases same
  · cases same
    exact absurd rfl nonnil
  · cases same
    exact ⟨second :: rest, rfl, by simp,
      fun group member => wellFormed group (List.mem_cons_of_mem _ member), rfl⟩

theorem rank_cons {directory : Name} (whole : Spells extension (directory :: groups) (directory :: path))
    (tail : Spells extension groups path) :
    NormFS.rank extension (directory :: path) =
      Hex.value directory * 16 ^ (3 * path.length) + NormFS.rank extension path := by
  rw [whole.rank, tail.rank, List.flatten_cons, Hex.value_append, tail.digits, tail.length]

end Spells

namespace Named
variable {extension : Name} {files : List Path}

theorem proper (named : Named extension files) (extended : IsExtension extension) :
    ∀ path ∈ files, path ≠ [] ∧ ∀ name, path = [name] → hasExtension extension name = true := by
  intro path member
  obtain ⟨groups, spells⟩ := named path member
  exact spells.proper extended

theorem below {directory : Name} {path : Path} (named : Named extension files)
    (among : path ∈ below directory files) :
    ∃ groups, Spells extension groups path ∧ Spells extension (directory :: groups) (directory :: path) := by
  obtain ⟨nonnil, member⟩ := mem_below.mp among
  obtain ⟨groups, spells⟩ := named _ member
  obtain ⟨rest, rfl, tail⟩ := spells.tail nonnil
  exact ⟨rest, tail, spells⟩

end Named

/-- No two files share their first directory and lie at different depths. -/
def Unshadowed (files : List Path) : Prop :=
  ∀ p ∈ files, ∀ q ∈ files, p.head? = q.head? → p.length = q.length

theorem le_depthOf (member : path ∈ files) :
    path.length ≤ depthOf files := by
  unfold depthOf
  induction files with
  | nil => cases member
  | cons first rest ih =>
    simp only [List.map_cons, List.foldr_cons]
    rcases List.mem_cons.mp member with rfl | later
    · exact Nat.le_max_left _ _
    · exact le_trans (ih later) (Nat.le_max_right _ _)

theorem named_of_ids
    (named : ∀ path ∈ files, ∃ id : UintN, path = id.toFilePath extension) : Named extension files := by
  intro path member
  obtain ⟨id, rfl⟩ := named path member
  exact ⟨_, spells_toFilePath id extension⟩

/-- No directory holds both files: they part where the search is. -/
def Apart (p q : Path) : Prop :=
  ∀ directory p' q', p = directory :: p' → q = directory :: q' → p' = [] ∨ q' = []

namespace Apart
variable {p q : Path}

theorem symm (apart : Apart p q) : Apart q p :=
  fun directory q' p' qs ps => (apart directory p' q' ps qs).symm

theorem of_head_ne (differ : p.head? ≠ q.head?) : Apart p q := by
  rintro directory p' q' rfl rfl
  exact absurd rfl differ

theorem of_single (single : p.length = 1) : Apart p q := by
  rintro directory p' q' rfl rfl
  exact .inl (List.length_eq_zero_iff.mp (by simpa using single))

end Apart

theorem Search.findRecursive_error {search : Search} {depth : Nat}
    {e : PathError} (answer : search.findRecursive extension depth files = .error e) : e = .noFilesFound := by
  cases depth with
  | zero =>
    cases answer
    rfl
  | succ depth =>
    simp only [findRecursive] at answer
    split at answer <;> cases answer
    rfl

theorem mem_filesIn :
    path ∈ filesIn extension files ↔
      path ∈ files ∧ ∃ name, path = [name] ∧ hasExtension extension name = true := by
  rw [filesIn, List.mem_filter]
  rcases path with _ | ⟨name, _ | ⟨second, rest⟩⟩ <;> simp

/-- The answers of the subdirectories, seen from the directory. -/
def Search.subdirectoryAnswers (search : Search) (extension : Name) (depth : Nat) (files : List Path) :
    List Path :=
  (subdirectories files).filterMap (fun directory =>
    (search.findRecursive extension depth (below directory files)).toOption.map (directory :: ·))

def Search.choose (search : Search) (extension : Name) (fromDirs fromFiles : Option Path) :
    Except PathError Path :=
  match fromDirs, fromFiles with
  | some p1, some p2 =>
    .ok (if search.prefersDirectory (pathToIdOrZero extension p1) (pathToIdOrZero extension p2)
      then p1 else p2)
  | some p, none => .ok p
  | none, some p => .ok p
  | none, none => .error .noFilesFound

def Search.candidates (search : Search) (extension : Name) (depth : Nat) (files : List Path) : List Path :=
  search.subdirectoryAnswers extension depth files ++ filesIn extension files

section Candidates
variable {search : Search} {extension : Name} {depth : Nat} {files : List Path}

theorem Search.mem_candidates {c : Path} : c ∈ search.candidates extension depth files ↔
    (∃ directory path, c = directory :: path ∧ directory ∈ subdirectories files ∧
      search.findRecursive extension depth (below directory files) = .ok path) ∨
    c ∈ filesIn extension files := by
  rw [candidates, List.mem_append, subdirectoryAnswers, List.mem_filterMap]
  apply or_congr_left
  constructor
  · rintro ⟨directory, isSub, made⟩
    cases answer : search.findRecursive extension depth (below directory files) with
    | error e =>
      rw [answer] at made
      cases made
    | ok path =>
      rw [answer] at made
      cases made
      exact ⟨directory, path, rfl, isSub, answer⟩
  · rintro ⟨directory, path, rfl, isSub, answer⟩
    refine ⟨directory, isSub, ?_⟩
    rw [answer]
    rfl

theorem Search.findRecursive_succ : search.findRecursive extension (depth + 1) files =
    search.choose extension (search.best extension (search.subdirectoryAnswers extension depth files))
      (search.best extension (filesIn extension files)) := by
  rw [findRecursive]
  generalize answers : (subdirectories files).filterMap _ = D
  have same : D = search.subdirectoryAnswers extension depth files := by
    rw [← answers, subdirectoryAnswers]
    congr 1
    funext directory
    cases search.findRecursive extension depth (below directory files) <;> rfl
  rw [same]
  rfl

theorem Search.findRecursive_unoffered (none' : search.candidates extension depth files = []) :
    search.findRecursive extension (depth + 1) files = .error .noFilesFound := by
  obtain ⟨noDirs, noFiles⟩ := List.append_eq_nil_iff.mp none'
  rw [findRecursive_succ, noDirs, noFiles]
  rfl

/-- Two candidates of one directory never lie below the same subdirectory. -/
theorem Search.candidates_apart {c q : Path}
    (cAmong : c ∈ search.candidates extension depth files)
    (qAmong : q ∈ search.candidates extension depth files) (differ : c ≠ q) : Apart c q := by
  rcases mem_candidates.mp cAmong with ⟨a, p, rfl, -, cAnswer⟩ | cFile
  · rcases mem_candidates.mp qAmong with ⟨b, p', rfl, -, qAnswer⟩ | qFile
    · apply Apart.of_head_ne
      intro same
      obtain rfl : a = b := by simpa using same
      rw [cAnswer, Except.ok.injEq] at qAnswer
      exact differ (by rw [qAnswer])
    · obtain ⟨-, name, rfl, -⟩ := mem_filesIn.mp qFile
      exact (Apart.of_single rfl).symm
  · obtain ⟨-, name, rfl, -⟩ := mem_filesIn.mp cFile
    exact .of_single rfl

end Candidates

section Search
variable {search : Search} {r : Nat → Nat → Prop} (sound : search.Sound r) (extension : Name)
include sound

theorem Search.fold_wins (rest : List Path) (path : Path) :
    ∃ p ∈ path :: rest,
      rest.foldl (fun chosen other =>
        if search.keeps (pathToIdOrZero extension chosen) (pathToIdOrZero extension other) then chosen
        else other) path = p ∧ ∀ q ∈ path :: rest, r (rank extension p) (rank extension q) := by
  induction rest generalizing path with
  | nil => exact ⟨path, by simp, rfl, by simpa using sound.refl _⟩
  | cons other rest ih =>
    cases keeps : search.keeps (pathToIdOrZero extension path) (pathToIdOrZero extension other) with
    | true =>
      obtain ⟨p, member, chosen, wins⟩ := ih path
      refine ⟨p, by simp at member ⊢; tauto, by simpa [keeps] using chosen, ?_⟩
      intro q among
      simp only [List.mem_cons] at among wins
      rcases among with rfl | rfl | later
      · exact wins _ (.inl rfl)
      · exact sound.trans (wins path (.inl rfl)) (sound.kept keeps)
      · exact wins q (.inr later)
    | false =>
      obtain ⟨p, member, chosen, wins⟩ := ih other
      refine ⟨p, by simp at member ⊢; tauto, by simpa [keeps] using chosen, ?_⟩
      intro q among
      simp only [List.mem_cons] at among wins
      rcases among with rfl | rfl | later
      · exact sound.trans (wins other (.inl rfl)) (sound.replaced keeps)
      · exact wins _ (.inl rfl)
      · exact wins q (.inr later)

theorem Search.best_wins {paths : List Path} (nonempty : paths ≠ []) :
    ∃ p ∈ paths, search.best extension paths = some p ∧
      ∀ q ∈ paths, r (rank extension p) (rank extension q) := by
  cases paths with
  | nil => exact absurd rfl nonempty
  | cons path rest =>
    obtain ⟨p, member, chosen, wins⟩ := Search.fold_wins sound extension rest path
    exact ⟨p, member, congrArg some chosen, wins⟩

variable {depth : Nat} {files : List Path}

theorem Search.findRecursive_wins
    (offered : search.candidates extension depth files ≠ []) :
    ∃ p ∈ search.candidates extension depth files, search.findRecursive extension (depth + 1) files = .ok p ∧
      ∀ c ∈ search.candidates extension depth files, r (rank extension p) (rank extension c) := by
  rw [candidates] at offered ⊢
  rw [findRecursive_succ]
  generalize search.subdirectoryAnswers extension depth files = D at offered ⊢
  generalize filesIn extension files = F at offered ⊢
  by_cases noD : D = []
  · rw [noD, List.nil_append] at offered ⊢
    obtain ⟨f, member, fBest, fWins⟩ := best_wins sound extension offered
    exact ⟨f, member, by rw [fBest]; rfl, fWins⟩
  · obtain ⟨d, dMember, dBest, dWins⟩ := best_wins sound extension noD
    by_cases noF : F = []
    · rw [noF, List.append_nil]
      exact ⟨d, dMember, by rw [dBest]; rfl, dWins⟩
    · obtain ⟨f, fMember, fBest, fWins⟩ := best_wins sound extension noF
      rw [dBest, fBest, choose]
      cases prefers : search.prefersDirectory (pathToIdOrZero extension d)
          (pathToIdOrZero extension f) with
      | true =>
        refine ⟨d, List.mem_append_left _ dMember, rfl, ?_⟩
        intro c among
        rcases List.mem_append.mp among with inDirs | inFiles
        · exact dWins c inDirs
        · exact sound.trans (sound.directory prefers) (fWins c inFiles)
      | false =>
        refine ⟨f, List.mem_append_right _ fMember, rfl, ?_⟩
        intro c among
        rcases List.mem_append.mp among with inDirs | inFiles
        · exact sound.trans (sound.file prefers) (dWins c inDirs)
        · exact fWins c inFiles

theorem Search.findRecursive_mem {p : Path}
    (answer : search.findRecursive extension depth files = .ok p) : p ∈ files := by
  induction depth generalizing files p with
  | zero => cases answer
  | succ depth ih =>
    by_cases none' : search.candidates extension depth files = []
    · rw [findRecursive_unoffered none'] at answer
      cases answer
    · obtain ⟨c, among, chosen, -⟩ := findRecursive_wins sound extension none'
      obtain rfl : c = p := by
        rw [answer, Except.ok.injEq] at chosen
        exact chosen.symm
      rcases mem_candidates.mp among with ⟨directory, path, rfl, -, deeper⟩ | inFiles
      · exact (mem_below.mp (ih deeper)).2
      · exact (mem_filesIn.mp inFiles).1

theorem Search.candidates_subset {c : Path}
    (among : c ∈ search.candidates extension depth files) : c ∈ files := by
  rcases mem_candidates.mp among with ⟨directory, path, rfl, -, answer⟩ | inFiles
  · exact (mem_below.mp (findRecursive_mem sound extension answer)).2
  · exact (mem_filesIn.mp inFiles).1

/-- A directory gives an answer that beats every good path when each of its subdirectories does.
Answers are weighed by `weight`, which need not be what the search compares: it has to agree with
the comparison on paths that part in this directory. -/
theorem Search.findRecursive_weighed (weight : Path → Nat)
    (agrees : ∀ c ∈ files, ∀ q ∈ files, Apart c q → r (rank extension c) (rank extension q) →
      r (weight c) (weight q))
    (good : Path → Prop) (nonempty : ∃ q ∈ files, good q)
    (proper : ∀ path ∈ files, path ≠ [] ∧ ∀ name, path = [name] → hasExtension extension name = true)
    (subs : ∀ directory, (∃ q ∈ below directory files, good (directory :: q)) →
      ∃ p, search.findRecursive extension depth (below directory files) = .ok p ∧
        ∀ q ∈ below directory files, good (directory :: q) →
          r (weight (directory :: p)) (weight (directory :: q))) :
    ∃ p, search.findRecursive extension (depth + 1) files = .ok p ∧
      ∀ q ∈ files, good q → r (weight p) (weight q) := by
  -- every good file is covered by a candidate
  have covered : ∀ q ∈ files, good q →
      ∃ c ∈ search.candidates extension depth files, r (weight c) (weight q) := by
    intro q member isGood
    obtain ⟨nonnil, extended⟩ := proper q member
    rcases q with _ | ⟨first, _ | ⟨second, rest⟩⟩
    · exact absurd rfl nonnil
    · exact ⟨_, mem_candidates.mpr (.inr (mem_filesIn.mpr ⟨member, first, rfl, extended first rfl⟩)),
        sound.refl _⟩
    · have among : second :: rest ∈ below first files := mem_below.mpr ⟨by simp, member⟩
      obtain ⟨p, answer, wins⟩ := subs first ⟨_, among, isGood⟩
      have isSub := mem_subdirectories.mpr (List.ne_nil_of_mem among)
      exact ⟨first :: p, mem_candidates.mpr (.inl ⟨first, p, rfl, isSub, answer⟩), wins _ among isGood⟩
  obtain ⟨q, member, isGood⟩ := nonempty
  obtain ⟨c, offered, -⟩ := covered q member isGood
  obtain ⟨p, chosen, answer, wins⟩ := findRecursive_wins sound extension (List.ne_nil_of_mem offered)
  refine ⟨p, answer, ?_⟩
  intro q member isGood
  obtain ⟨c, among, beats⟩ := covered q member isGood
  refine sound.trans ?_ beats
  by_cases same : p = c
  · rw [same]
    exact sound.refl _
  · exact agrees p (candidates_subset sound extension chosen) c (candidates_subset sound extension among)
      (candidates_apart chosen among same) (wins c among)

theorem Search.findRecursive_step (good : Path → Prop)
    (nonempty : ∃ q ∈ files, good q)
    (proper : ∀ path ∈ files, path ≠ [] ∧ ∀ name, path = [name] → hasExtension extension name = true)
    (subs : ∀ directory, (∃ q ∈ below directory files, good (directory :: q)) →
      ∃ p, search.findRecursive extension depth (below directory files) = .ok p ∧
        ∀ q ∈ below directory files, good (directory :: q) →
          r (rank extension (directory :: p)) (rank extension (directory :: q))) :
    ∃ p, search.findRecursive extension (depth + 1) files = .ok p ∧
      ∀ q ∈ files, good q → r (rank extension p) (rank extension q) :=
  findRecursive_weighed sound extension (rank extension) (fun _ _ _ _ _ order => order) good nonempty
    proper subs

theorem Search.prefixed (named : Named extension files) {directory : Name}
    {p q : Path} (pAmong : p ∈ below directory files) (qAmong : q ∈ below directory files)
    (equal : p.length = q.length) (order : r (rank extension p) (rank extension q)) :
    r (rank extension (directory :: p)) (rank extension (directory :: q)) := by
  obtain ⟨ps, pTail, pWhole⟩ := named.below pAmong
  obtain ⟨qs, qTail, qWhole⟩ := named.below qAmong
  rw [pWhole.rank_cons pTail, qWhole.rank_cons qTail, equal]
  exact sound.shift _ order

theorem Search.findRecursive_level (extended : IsExtension extension) {k : Nat}
    (enough : k < depth) (nonempty : files ≠ []) (named : Named extension files)
    (level : ∀ path ∈ files, path.length = k + 1) :
    ∃ p, search.findRecursive extension depth files = .ok p ∧
      ∀ q ∈ files, r (rank extension p) (rank extension q) := by
  obtain ⟨some', isFile⟩ := List.exists_mem_of_ne_nil _ nonempty
  suffices all : ∃ p, search.findRecursive extension depth files = .ok p ∧
      ∀ q ∈ files, True → r (rank extension p) (rank extension q) by simpa using all
  induction k generalizing depth files some' with
  | zero =>
    obtain ⟨depth, rfl⟩ : ∃ d, depth = d + 1 := ⟨depth - 1, by omega⟩
    refine findRecursive_step sound extension _ ⟨some', isFile, trivial⟩ (named.proper extended) ?_
    rintro directory ⟨p, among, -⟩
    obtain ⟨nonnil, member⟩ := mem_below.mp among
    have one := level _ member
    exact absurd (by simpa using one) nonnil
  | succ k ih =>
    obtain ⟨depth, rfl⟩ : ∃ d, depth = d + 1 := ⟨depth - 1, by omega⟩
    refine findRecursive_step sound extension _ ⟨some', isFile, trivial⟩ (named.proper extended) ?_
    rintro directory ⟨q, inhabited, -⟩
    have tails : ∀ path ∈ below directory files, path.length = k + 1 := by
      intro path among
      simpa using level _ (mem_below.mp among).2
    obtain ⟨p, answer, wins⟩ := ih (show k < depth by omega) (List.ne_nil_of_mem inhabited)
      (fun path member => (named.below member).imp fun _ h => h.1) tails q inhabited
    refine ⟨p, answer, ?_⟩
    intro q other _
    have among := findRecursive_mem sound extension answer
    exact prefixed sound extension named among other (by rw [tails p among, tails q other])
      (wins q other trivial)

theorem Search.findRecursive_root (extended : IsExtension extension)
    (named : Named extension files) {path : Path} (member : path ∈ files)
    (level : ∀ q ∈ files, q.head? = path.head? → q.length = path.length) :
    ∃ p, search.findRecursive extension (depthOf files) files = .ok p ∧
      r (rank extension p) (rank extension path) := by
  have reached := le_depthOf member
  have long := List.length_pos_iff.mpr (named.proper extended path member).1
  obtain ⟨depth, same⟩ : ∃ d, depthOf files = d + 1 := ⟨depthOf files - 1, by omega⟩
  rw [same]
  suffices root : ∃ p, search.findRecursive extension (depth + 1) files = .ok p ∧
      ∀ q ∈ files, q = path → r (rank extension p) (rank extension q) by
    obtain ⟨p, answer, wins⟩ := root
    exact ⟨p, answer, wins path member rfl⟩
  refine findRecursive_step sound extension _ ⟨path, member, rfl⟩ (named.proper extended) ?_
  rintro directory ⟨q, among, rfl⟩
  obtain ⟨nonnil, -⟩ := mem_below.mp among
  have positive := List.length_pos_iff.mpr nonnil
  rw [List.length_cons] at reached
  have tails : ∀ other ∈ below directory files, other.length = q.length - 1 + 1 := by
    intro other alsoAmong
    have equal := level _ (mem_below.mp alsoAmong).2 rfl
    simp only [List.length_cons] at equal
    omega
  obtain ⟨p, answer, wins⟩ := findRecursive_level sound extension extended
    (show q.length - 1 < depth by omega) (List.ne_nil_of_mem among)
    (fun path member => (named.below member).imp fun _ h => h.1) tails
  refine ⟨p, answer, ?_⟩
  rintro _ other ⟨⟩
  have pAmong := findRecursive_mem sound extension answer
  have equal := tails p pAmong
  exact prefixed sound extension named pAmong other (by omega) (wins _ other)

theorem Search.find_cases
    (named : ∀ path ∈ files, ∃ id : UintN, path = id.toFilePath extension) :
    (∃ id : UintN, search.find files extension = .ok (.ofUbig id.toNat) ∧
      id.toFilePath extension ∈ files) ∨ search.find files extension = .error .noFilesFound := by
  unfold find
  cases found : search.findRecursive extension (depthOf files) files with
  | error e =>
    right
    obtain rfl := findRecursive_error found
    rfl
  | ok path =>
    left
    have member := findRecursive_mem sound extension found
    obtain ⟨id, rfl⟩ := named path member
    exact ⟨id, by simp only [bind, Except.bind, pathToId_toFilePath], member⟩

theorem Search.find_mem {id : UintN}
    (named : ∀ path ∈ files, ∃ other : UintN, path = other.toFilePath extension)
    (answer : search.find files extension = .ok id) :
    ∃ other : UintN, other.toFilePath extension ∈ files ∧ id = .ofUbig other.toNat := by
  rcases find_cases sound extension named with ⟨other, found, member⟩ | none'
  · rw [found] at answer
    cases answer
    exact ⟨other, member, rfl⟩
  · rw [none'] at answer
    cases answer

/-- A number is found when it beats all others and its first directory is of one depth. -/
theorem Search.find_extreme (extended : IsExtension extension)
    (named : ∀ path ∈ files, ∃ id : UintN, path = id.toFilePath extension) {id : UintN}
    (member : id.toFilePath extension ∈ files)
    (extreme : ∀ other : UintN, other.toFilePath extension ∈ files → r other.toNat id.toNat →
      other.toNat = id.toNat)
    (level : ∀ q ∈ files, q.head? = (id.toFilePath extension).head? →
      q.length = (id.toFilePath extension).length) :
    search.find files extension = .ok (.ofUbig id.toNat) := by
  obtain ⟨p, answer, wins⟩ := findRecursive_root sound extension extended (named_of_ids named)
    member level
  obtain ⟨other, rfl⟩ := named p (findRecursive_mem sound extension answer)
  rw [rank_toFilePath, rank_toFilePath] at wins
  have same := extreme other (findRecursive_mem sound extension answer) wins
  simp only [find, answer, bind, Except.bind, pathToId_toFilePath, same]

theorem Search.find_spec (extended : IsExtension extension) (nonempty : files ≠ [])
    (named : ∀ path ∈ files, ∃ id : UintN, path = id.toFilePath extension)
    (unshadowed : Unshadowed files) :
    ∃ n : Nat, search.find files extension = .ok (.ofUbig n) ∧
      (UintN.ofUbig n).toFilePath extension ∈ files ∧
      ∀ other : UintN, other.toFilePath extension ∈ files → r n other.toNat := by
  obtain ⟨first, isFile⟩ := List.exists_mem_of_ne_nil _ nonempty
  have root := fun path (member : path ∈ files) => findRecursive_root sound extension extended
    (named_of_ids named) member (fun q isFile => unshadowed q isFile path member)
  obtain ⟨p, answer, -⟩ := root first isFile
  have member := findRecursive_mem sound extension answer
  obtain ⟨id, rfl⟩ := named p member
  refine ⟨id.toNat, ?_, ?_, ?_⟩
  · simp only [find, answer, bind, Except.bind, pathToId_toFilePath]
  · rw [toFilePath_congr (b := id) (by simp)]
    exact member
  · intro other among
    obtain ⟨p, same, order⟩ := root _ among
    rw [answer, Except.ok.injEq] at same
    rwa [← same, rank_toFilePath, rank_toFilePath] at order

end Search

theorem Search.always_sound (search : Search) : search.Sound (fun _ _ => True) := by
  constructor <;> intros <;> trivial

theorem Search.findRecursive_total (search : Search) (extended : IsExtension extension)
    {depth : Nat} (nonempty : files ≠ []) (named : Named extension files)
    (shallow : ∀ path ∈ files, path.length ≤ depth) :
    ∃ p, search.findRecursive extension depth files = .ok p := by
  obtain ⟨path, member⟩ := List.exists_mem_of_ne_nil _ nonempty
  induction depth generalizing files path with
  | zero =>
    have short := shallow path member
    exact absurd (List.length_eq_zero_iff.mp (Nat.le_zero.mp short)) (named.proper extended path member).1
  | succ depth ih =>
    obtain ⟨p, answer, -⟩ := findRecursive_step search.always_sound extension (fun _ => True)
      ⟨path, member, trivial⟩ (named.proper extended) (by
        rintro directory ⟨q, among, -⟩
        obtain ⟨p, answer⟩ := ih (List.ne_nil_of_mem among)
          (fun path member => (named.below member).imp fun _ h => h.1)
          (fun path member => by simpa using shallow _ (mem_below.mp member).2) q among
        exact ⟨p, answer, fun _ _ _ => trivial⟩)
    exact ⟨p, answer⟩

theorem Search.find_total (search : Search) (extended : IsExtension extension)
    (nonempty : files ≠ []) (named : ∀ path ∈ files, ∃ id : UintN, path = id.toFilePath extension) :
    search.find files extension ≠ .error .noFilesFound := by
  obtain ⟨p, answer⟩ := search.findRecursive_total extended nonempty (named_of_ids named)
    (fun path member => le_depthOf member)
  obtain ⟨id, rfl⟩ := named p (findRecursive_mem search.always_sound extension answer)
  simp [find, answer, bind, Except.bind, pathToId_toFilePath]

theorem length_toFilePath (id : UintN) (extension : Name) :
    (id.toFilePath extension).length = ((Nat.toDigits 16 id.toNat).length + 2) / 3 := by
  have spells := spells_toFilePath id extension
  have digits := spells.digits
  have flat : (groupsOf id.toNat).flatten = padHex (Nat.toDigits 16 id.toNat) := by
    simpa [groupsOf] using splitGroups_flatten (padHex (Nat.toDigits 16 id.toNat))
  rw [flat, padHex, List.length_append, List.length_replicate] at digits
  rw [spells.length]
  omega

theorem length_toFilePath_le (id : UintN) (extension : Name) {levels : Nat} (some' : levels ≠ 0) :
    (id.toFilePath extension).length ≤ levels ↔ id.toNat < 16 ^ (3 * levels) := by
  rw [length_toFilePath, ← Nat.length_toDigits_le_iff (by decide) (by omega)]
  omega

theorem toFilePath_ne_nil (fileId : UintN) (extension : Name) : fileId.toFilePath extension ≠ [] := by
  simp [UintN.toFilePath]

theorem length_toFilePath_eq_one (id : UintN) (extension : Name) :
    (id.toFilePath extension).length = 1 ↔ id.toNat < 4096 := by
  have atMost := length_toFilePath_le id extension Nat.one_ne_zero
  have positive := List.length_pos_iff.mpr (toFilePath_ne_nil id extension)
  omega

/- Two levels only: a name with an extension is no directory. -/
theorem unshadowed_of_small (extension : Name) (extended : IsExtension extension)
    (small : ∀ path ∈ files, ∃ id : UintN, path = id.toFilePath extension ∧ id.toNat < 2 ^ 24) :
    Unshadowed files := by
  have short : ∀ path ∈ files, ∃ groups, Spells extension groups path ∧ path.length ≤ 2 := by
    intro path member
    obtain ⟨id, rfl, bound⟩ := small path member
    exact ⟨_, spells_toFilePath id extension, (length_toFilePath_le id extension two_ne_zero).mpr bound⟩
  intro p pMember q qMember head
  obtain ⟨ps, pSpells, pShort⟩ := short p pMember
  obtain ⟨qs, qSpells, qShort⟩ := short q qMember
  obtain ⟨name, rest, rfl⟩ := List.exists_cons_of_ne_nil (pSpells.proper extended).1
  have pDotted := pSpells.dotted extended rfl
  have qDotted := qSpells.dotted extended head.symm
  have pPositive := List.length_pos_iff.mpr (pSpells.proper extended).1
  have qPositive := List.length_pos_iff.mpr (qSpells.proper extended).1
  by_cases single : '.' ∈ name
  · rw [pDotted.mp single, qDotted.mp single]
  · have := mt pDotted.mpr single
    have := mt qDotted.mpr single
    omega

end NormFS
