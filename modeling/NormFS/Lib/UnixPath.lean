import Mathlib.Data.List.Basic
import Mathlib.Data.List.TakeWhile

/-! Unix paths as text. Joining replaces the base by an absolute path and puts a slash only where none
is; comparing goes by components, where repeated slashes and dots between them do not count. -/
namespace UnixPath

abbrev Text := List Char

def isAbsolute (path : Text) : Bool := path.head? == some '/'

/-- The text without the slashes it begins with. -/
def trimStart (path : Text) : Text := path.dropWhile (· == '/')

def separator (base : Text) : Text :=
  if base = [] ∨ base.getLast? = some '/' then [] else ['/']

def push (base path : Text) : Text :=
  if isAbsolute path then path else base ++ separator base ++ path

def extend (base : Text) (names : List Text) : Text := names.foldl push base

def join (names : List Text) : Text := ['/'].intercalate names

inductive Component where
  | rootDir
  | curDir
  | parentDir
  | normal (name : Text)
  deriving DecidableEq, Repr

def componentOf (name : Text) : Component :=
  if name = ['.', '.'] then .parentDir else .normal name

def counts (part : Text) : Bool := part != [] && part != ['.']

def body (path : Text) : List Component := ((path.splitOn '/').filter counts).map componentOf

/- A dot counts only where the path begins with it. -/
def front (path : Text) : List Component :=
  if isAbsolute path then [.rootDir]
  else if (path.splitOn '/').head? = some ['.'] then [.curDir]
  else []

def components (path : Text) : List Component := front path ++ body path

def IsName (name : Text) : Prop := name ≠ [] ∧ '/' ∉ name

variable {name base path : Text} {names : List Text}

theorem IsName.isAbsolute (proper : IsName name) : isAbsolute name = false := by
  obtain ⟨nonempty, free⟩ := proper
  cases name with
  | nil => exact absurd rfl nonempty
  | cons c rest =>
    have other : c ≠ '/' := by
      rintro rfl
      exact free (by simp)
    simpa [UnixPath.isAbsolute] using other

theorem isAbsolute_append (nonempty : base ≠ []) (path : Text) :
    isAbsolute (base ++ path) = isAbsolute base := by
  cases base with
  | nil => exact absurd rfl nonempty
  | cons c rest => rfl

theorem isAbsolute_trimStart (path : Text) : isAbsolute (trimStart path) = false := by
  unfold isAbsolute trimStart
  cases first : (path.dropWhile (· == '/')).head? with
  | none => rfl
  | some c =>
    have stops := List.head?_dropWhile_not (· == '/') path
    rw [first] at stops
    simpa using stops

theorem trimStart_relative (relative : isAbsolute path = false) : trimStart path = path := by
  cases path with
  | nil => rfl
  | cons c rest =>
    apply List.dropWhile_cons_of_neg
    simpa [isAbsolute] using relative

theorem trimStart_absolute (absolute : isAbsolute path = true) :
    ∃ slashes, path = '/' :: List.replicate slashes '/' ++ trimStart path := by
  cases path with
  | nil => cases absolute
  | cons c rest =>
    obtain rfl : c = '/' := by simpa [isAbsolute] using absolute
    refine ⟨(rest.takeWhile (· == '/')).length, ?_⟩
    have slashes : rest.takeWhile (· == '/') = List.replicate (rest.takeWhile (· == '/')).length '/' := by
      apply List.eq_replicate_of_mem
      intro c member
      simpa using List.mem_takeWhile_imp member
    rw [List.cons_append, ← slashes, trimStart, List.dropWhile_cons_of_pos (by rfl),
      List.takeWhile_append_dropWhile]

theorem length_trimStart_lt (absolute : isAbsolute path = true) :
    (trimStart path).length < path.length := by
  obtain ⟨slashes, whole⟩ := trimStart_absolute absolute
  have lengths := congrArg List.length whole
  simp only [List.length_append, List.length_cons, List.length_replicate] at lengths
  omega

theorem push_absolute (base : Text) (absolute : isAbsolute path = true) :
    push base path = path := if_pos absolute

theorem push_relative (base : Text) (relative : isAbsolute path = false) :
    push base path = base ++ separator base ++ path := by
  unfold push
  rw [relative, if_neg Bool.false_ne_true]

theorem isAbsolute_push (relativeBase : isAbsolute base = false)
    (relative : isAbsolute path = false) : isAbsolute (push base path) = false := by
  rw [push_relative _ relative]
  cases base with
  | nil => exact relative
  | cons c rest => exact relativeBase

theorem push_nil_left (path : Text) : push [] path = path := by
  unfold push
  split <;> rfl

theorem separator_name (base : Text) (proper : IsName name) :
    separator (base ++ name) = ['/'] := by
  unfold separator
  rw [if_neg]
  rintro (empty | ends)
  · exact proper.1 (List.append_eq_nil_iff.mp empty).2
  · rw [List.getLast?_append_of_ne_nil _ proper.1] at ends
    exact proper.2 (List.mem_of_getLast? ends)

theorem push_push (base : Text) (proper : IsName name) (relative : isAbsolute path = false) :
    push (push base name) path = push base (name ++ '/' :: path) := by
  have whole : isAbsolute (name ++ '/' :: path) = false := by
    rw [isAbsolute_append proper.1]
    exact proper.isAbsolute
  rw [push_relative _ relative, push_relative _ proper.isAbsolute, push_relative _ whole, separator_name _ proper]
  simp

theorem isAbsolute_join (proper : ∀ name ∈ names, IsName name) :
    isAbsolute (join names) = false := by
  cases names with
  | nil => rfl
  | cons name rest =>
    have first := proper name (by simp)
    cases rest with
    | nil => simpa [join] using first.isAbsolute
    | cons next rest =>
      rw [join, List.intercalate_cons_cons, List.append_assoc, isAbsolute_append first.1]
      exact first.isAbsolute

theorem extend_eq (base : Text) (nonempty : names ≠ []) (proper : ∀ name ∈ names, IsName name) :
    extend base names = push base (join names) := by
  induction names generalizing base with
  | nil => exact absurd rfl nonempty
  | cons name rest ih =>
    have later : ∀ name ∈ rest, IsName name := fun name member => proper name (List.mem_cons_of_mem _ member)
    cases rest with
    | nil => simp [extend, join]
    | cons next rest =>
      have step := ih (push base name) (by simp) later
      rw [push_push base (proper name (by simp)) (isAbsolute_join later)] at step
      simpa [extend, join, List.intercalate_cons_cons] using step

theorem join_cons (name : Text) (rest : List Text) :
    join (name :: rest) = name ++ rest.flatMap (fun name => '/' :: name) := by
  induction rest generalizing name with
  | nil => simp [join]
  | cons next rest ih =>
    rw [List.flatMap_cons, List.cons_append, ← ih next, join, List.intercalate_cons_cons]
    simp [join]

theorem slash_join (nonempty : names ≠ []) :
    '/' :: join names = names.flatMap (fun name => '/' :: name) := by
  cases names with
  | nil => exact absurd rfl nonempty
  | cons name rest => rw [join_cons, List.flatMap_cons, List.cons_append]

theorem join_append (nonempty : names ≠ []) (rest : List Text) :
    join (names ++ rest) = join names ++ rest.flatMap (fun name => '/' :: name) := by
  cases names with
  | nil => exact absurd rfl nonempty
  | cons name names => rw [List.cons_append, join_cons, join_cons, List.flatMap_append, List.append_assoc]

theorem join_splitOn (path : Text) : join (path.splitOn '/') = path := List.intercalate_splitOn '/'

theorem splitOn_append_join (path : Text) (nonempty : names ≠ [])
    (proper : ∀ name ∈ names, IsName name) :
    (path ++ '/' :: join names).splitOn '/' = path.splitOn '/' ++ names := by
  rw [List.splitOn_append_cons_self, join, List.splitOn_intercalate _ (fun name member => (proper name member).2) nonempty]

/-! Components. -/

theorem body_slash (base path : Text) : body (base ++ '/' :: path) = body base ++ body path := by
  unfold body
  rw [List.splitOn_append_cons_self, List.filter_append, List.map_append]

@[simp] theorem body_nil : body [] = [] := rfl

theorem front_slash (nonempty : base ≠ []) (path : Text) : front (base ++ '/' :: path) = front base := by
  unfold front
  rw [isAbsolute_append nonempty, List.splitOn_append_cons_self, List.head?_append_of_ne_nil _ (List.splitOn_ne_nil _ _)]

theorem separator_cases (base : Text) :
    base = [] ∨ (∃ before, base = before ++ ['/'] ∧ separator base = []) ∨ separator base = ['/'] := by
  unfold separator
  by_cases empty : base = []
  · exact .inl empty
  · by_cases ends : base.getLast? = some '/'
    · refine .inr (.inl ⟨base.dropLast, ?_, by rw [if_pos (.inr ends)]⟩)
      exact (List.dropLast_append_getLast? _ ends).symm
    · exact .inr (.inr (by rw [if_neg (by simp [empty, ends])]))

theorem body_push (base : Text) (relative : isAbsolute path = false) :
    body (push base path) = body base ++ body path := by
  rw [push_relative _ relative]
  rcases separator_cases base with rfl | ⟨before, rfl, bare⟩ | slash
  · rfl
  · rw [bare, List.append_nil, body_slash before [], List.append_assoc, List.singleton_append, body_slash]
    simp
  · rw [slash, List.append_assoc, List.singleton_append, body_slash]

theorem front_push (nonempty : base ≠ []) (relative : isAbsolute path = false) :
    front (push base path) = front base := by
  rw [push_relative _ relative]
  rcases separator_cases base with rfl | ⟨before, rfl, bare⟩ | slash
  · exact absurd rfl nonempty
  · rw [bare, List.append_nil, List.append_assoc, List.singleton_append]
    cases before with
    | nil => rfl
    | cons c rest => rw [front_slash (by simp), front_slash (by simp) []]
  · rw [slash, List.append_assoc, List.singleton_append, front_slash nonempty]

theorem components_push (nonempty : base ≠ []) (relative : isAbsolute path = false) :
    components (push base path) = components base ++ body path := by
  unfold components
  rw [front_push nonempty relative, body_push base relative, List.append_assoc]

theorem components_absolute (absolute : isAbsolute path = true) :
    components path = .rootDir :: body (trimStart path) := by
  have slashes (k : Nat) (rest : Text) : body (List.replicate k '/' ++ rest) = body rest := by
    induction k with
    | zero => rfl
    | succ k ih =>
      rw [List.replicate_succ]
      exact (body_slash [] _).trans ih
  obtain ⟨k, whole⟩ := trimStart_absolute absolute
  unfold components front
  rw [if_pos absolute, List.singleton_append]
  congr 1
  conv_lhs => rw [whole]
  exact slashes (k + 1) (trimStart path)

theorem components_head_relative (relative : isAbsolute path = false) :
    (components path).head? ≠ some .rootDir := by
  unfold components front
  rw [relative, if_neg Bool.false_ne_true]
  split
  · simp
  · unfold body
    cases shown : (path.splitOn '/').filter counts with
    | nil => simp
    | cons name rest =>
      unfold componentOf
      simp only [List.map_cons, List.nil_append, List.head?_cons]
      split <;> simp

end UnixPath
