import NormFS.Cloud.Keys

/-! Paths in the bucket. A path is read as one text, and the first file of a queue is searched by listing
one level after the other: a level with files ends the search, otherwise it goes on in the directory whose
name is the least digit. -/
namespace NormFS

open UnixPath

/- The errors that a listing and a name can give. -/
inductive BucketError where
  | reqwest
  | xml
  | uintN (error : UintNError)
  | noFilesFound
  | invalidUrl
  | invalidStatusCode (code : Nat)
  deriving DecidableEq, Repr

structure ListObjectsResult where
  contents : List Text
  commonPrefixes : List Text

/-- The answers to `list_objects`: a prefix, and the delimiter at which keys are folded together. -/
abbrev S3Client := Text → Option Char → Except BucketError ListObjectsResult

namespace Bucket

def pathToId (path : Text) (extension : Name) : Except BucketError UintN :=
  match UintN.fromHexDigits ((path.splitOn '/').flatMap (stripExtension extension)) with
  | .ok id => .ok id
  | .error e => .error (.uintN e)

def hexDigitsForMin : List Char :=
  ['0', '1', '2', '3', '4', '5', '6', '7', '8', '9', 'a', 'b', 'c', 'd', 'e', 'f']

/-- What follows a text, or the whole where it does not begin with it. -/
def withoutFront (front text : Text) : Text :=
  if front.isPrefixOf text then text.drop front.length else text

def trimEnd (path : Text) : Text := (trimStart path.reverse).reverse

/-- One key of a level against the least file seen before it. -/
def noteFile (currentPrefix : Text) (extension : Name) (minFile : Option (Text × UintN)) (key : Text) :
    Option (Text × UintN) :=
  let relativeKey := trimStart (withoutFront currentPrefix key)
  if !relativeKey.contains '/' && ('.' :: extension).isSuffixOf key then
    match pathToId relativeKey extension, minFile with
    | .ok id, some (path, minId) => if id < minId then some (relativeKey, id) else some (path, minId)
    | .ok id, none => some (relativeKey, id)
    | .error _, _ => minFile
  else minFile

def dirName (currentPrefix commonPrefix : Text) : Text :=
  trimEnd (trimStart (withoutFront currentPrefix commonPrefix))

/-- The first digit that names a directory, with the directory. -/
def firstDirectory (currentPrefix : Text) (commonPrefixes : List Text) : Option (Char × Text) :=
  hexDigitsForMin.findSome? (fun hexDigit =>
    (commonPrefixes.find? (fun commonPrefix => dirName currentPrefix commonPrefix == [hexDigit])).map
      (fun commonPrefix => (hexDigit, commonPrefix)))

/- `none` is a search that has not returned within the depth. A directory without files ends the search as
well: both loops are left, and the error is the same. -/
def findMinIdRecursive (client : S3Client) (extension : Name) : Nat → Text → Option (Except BucketError Text)
  | 0, _ => none
  | depth + 1, currentPrefix =>
    match client currentPrefix (some '/') with
    | .error e => some (.error e)
    | .ok listResult =>
      match listResult.contents.foldl (noteFile currentPrefix extension) none with
      | some (path, _) => some (.ok path)
      | none =>
        match firstDirectory currentPrefix listResult.commonPrefixes with
        | none => some (.error .noFilesFound)
        | some (hexDigit, subdirPrefix) =>
          match findMinIdRecursive client extension depth subdirPrefix with
          | some (.ok subPath) => some (.ok (hexDigit :: '/' :: subPath))
          | other => other

def findMinId (client : S3Client) (depth : Nat) (front : Text) (extension : Name) :
    Option (Except BucketError UintN) :=
  match findMinIdRecursive client extension depth front with
  | some (.ok relativePath) => some (pathToId relativePath extension)
  | some (.error e) => some (.error e)
  | none => none

end Bucket

def CloudDownloader.findMinId (self : CloudDownloader) (client : S3Client) (depth : Nat) (queue : QueueId) :
    Option (Except BucketError (Option UintN)) :=
  match Bucket.findMinId client depth (self.listedPrefix queue) storeExtension with
  | some (.ok id) => some (.ok (some id))
  | some (.error .noFilesFound) => some (.ok none)
  | some (.error e) => some (.error e)
  | none => none

/-! The path of a file identifies it. -/

namespace Bucket

theorem splitOn_join {names : List Text} (nonempty : names ≠ []) (proper : ∀ name ∈ names, IsName name) :
    (join names).splitOn '/' = names :=
  List.splitOn_intercalate _ (fun name member => (proper name member).2) nonempty

theorem pathToId_join {names : List Text} (nonempty : names ≠ []) (proper : ∀ name ∈ names, IsName name)
    {extension : Name} {id : UintN} (read : NormFS.pathToId names extension = .ok id) :
    pathToId (join names) extension = .ok id := by
  unfold NormFS.pathToId at read
  rw [pathToId, splitOn_join nonempty proper]
  cases parsed : UintN.fromHexDigits (names.flatMap (stripExtension extension)) with
  | ok value =>
    rw [parsed] at read
    cases read
    rfl
  | error e =>
    rw [parsed] at read
    cases read

theorem pathToId_toFilePath (id : UintN) {extension : Name} (free : '/' ∉ extension) :
    pathToId (id.toFilePathIn [] extension) extension = .ok (.ofUbig id.toNat) := by
  rw [toFilePathIn_eq _ _ free, push_nil_left]
  exact pathToId_join (toFilePath_ne_nil id _) (toFilePath_isName id free) (NormFS.pathToId_toFilePath id extension)

end Bucket

def KnownExtension (extension : Name) : Prop := extension = walExtension ∨ extension = storeExtension

theorem join_inj {names names' : List Text} (nonempty : names ≠ []) (nonempty' : names' ≠ [])
    (proper : ∀ name ∈ names, IsName name) (proper' : ∀ name ∈ names', IsName name)
    (same : join names = join names') : names = names' := by
  rw [← Bucket.splitOn_join nonempty proper, same, Bucket.splitOn_join nonempty' proper']

theorem toFilePathIn_inj {v w : UintN} {extension : Name} (free : '/' ∉ extension) {base : Text}
    (same : v.toFilePathIn base extension = w.toFilePathIn base extension) : v.toNat = w.toNat := by
  have proper := toFilePath_isName v free
  have proper' := toFilePath_isName w free
  rw [toFilePathIn_eq _ _ free, toFilePathIn_eq _ _ free, push_relative _ (isAbsolute_join proper),
    push_relative _ (isAbsolute_join proper')] at same
  exact toFilePath_inj (join_inj (toFilePath_ne_nil v _) (toFilePath_ne_nil w _) proper proper'
    (List.append_cancel_left same))

theorem directory_isGroup (id : UintN) (extension : Name) {name : Name}
    (member : name ∈ (id.toFilePath extension).dropLast) : IsGroup name := by
  have directories : (id.toFilePath extension).dropLast = (groupsOf id.toNat).dropLast := by
    rw [toFilePath_eq, groupsOf, pathOf_append_singleton, List.dropLast_concat, List.dropLast_concat]
  rw [directories] at member
  exact (groupsOf_spec id.toNat).1 name (List.dropLast_subset _ member)

theorem toFilePath_not_directory (v w : UintN) {extension other : Name} (extended : extension ≠ []) {back : Path}
    (deeper : back ≠ []) : w.toFilePath other ≠ v.toFilePath extension ++ back := by
  intro same
  obtain ⟨stem, -, last⟩ := (spells_toFilePath v extension).last
  have inside : withExtension stem extension ∈ (w.toFilePath other).dropLast := by
    rw [same, List.dropLast_append_of_ne_nil deeper]
    exact List.mem_append_left _ (List.mem_of_getLast? last)
  refine dot_not_digit (directory_isGroup w other inside).2 ?_
  simp [withExtension, extended]

structure Identifies (v w : UintN) (extension other : Name) : Prop where
  read : ∃ id, pathToId (v.toFilePath extension) extension = .ok id ∧ id.toNat = v.toNat
  readInBucket : ∃ id, Bucket.pathToId (v.toFilePathIn [] extension) extension = .ok id ∧ id.toNat = v.toNat
  apart : v.toNat ≠ w.toNat → v.toFilePath extension ≠ w.toFilePath extension ∧
    ∀ base, v.toFilePathIn base extension ≠ w.toFilePathIn base extension
  notDirectory : ∀ back ≠ [], w.toFilePath other ≠ v.toFilePath extension ++ back

theorem paths_identify (v w : UintN) {extension : Name} (known : KnownExtension extension) (other : Name) :
    Identifies v w extension other := by
  have free : '/' ∉ extension := by rcases known with rfl | rfl <;> decide
  have extended : extension ≠ [] := by rcases known with rfl | rfl <;> decide
  constructor
  · exact ⟨_, pathToId_toFilePath v extension, UintN.toNat_ofUbig _⟩
  · exact ⟨_, Bucket.pathToId_toFilePath v free, UintN.toNat_ofUbig _⟩
  · intro differ
    constructor
    · intro same
      exact differ (toFilePath_inj same)
    · intro base same
      exact differ (toFilePathIn_inj free same)
  · intro back deeper
    exact toFilePath_not_directory v w extended deeper

theorem paths_identify_sample : Identifies (.u16 0x1002) (.big 2) walExtension storeExtension :=
  paths_identify _ _ (.inl rfl) _

/-! The first file of a queue in the bucket. -/

/-- A complete listing: the keys below a prefix with no further slash, and the others up to their next one. -/
def ListsKeys (client : S3Client) (bucket : List Text) : Prop :=
  ∀ front, ∃ result, client front (some '/') = .ok result ∧
    (∀ key, key ∈ result.contents ↔ key ∈ bucket ∧ ∃ name, '/' ∉ name ∧ key = front ++ name) ∧
    ∀ folded, folded ∈ result.commonPrefixes ↔
      ∃ name rest, '/' ∉ name ∧ folded = front ++ name ++ ['/'] ∧ folded ++ rest ∈ bucket

structure Stores (bucket : List Text) (downloader : CloudDownloader) (queue : QueueId) (ids : List UintN) : Prop where
  there : ∀ id ∈ ids, downloader.fileKey queue id ∈ bucket
  only : ∀ key ∈ bucket, downloader.listedPrefix queue <+: key → ∃ id ∈ ids, key = downloader.fileKey queue id

structure FindsLeast (answer : Nat → Option (Except BucketError (Option UintN))) (ids : List UintN) : Prop where
  empty : ids = [] → ∃ depth, answer depth = some (.ok none)
  least : ids ≠ [] → ∃ depth found, answer depth = some (.ok (some found)) ∧
    (∃ id ∈ ids, id.toNat = found.toNat) ∧ ∀ id ∈ ids, found.toNat ≤ id.toNat

theorem fileKey_eq (downloader : CloudDownloader) (queue : QueueId) (id : UintN) :
    downloader.fileKey queue id = downloader.listedPrefix queue ++ join (id.toFilePath storeExtension) := by
  rw [CloudDownloader.fileKey, toCloudKey_eq, CloudDownloader.listedPrefix, QueueId.toCloudQueuePath]
  simp only [List.append_assoc, List.singleton_append]

theorem slash_mem_join {names : List Text} (nonempty : names ≠ []) (proper : ∀ name ∈ names, IsName name) :
    '/' ∈ join names ↔ names.length ≠ 1 := by
  rcases names with _ | ⟨name, _ | ⟨next, rest⟩⟩
  · exact absurd rfl nonempty
  · simp [join, (proper name (by simp)).2]
  · rw [join_cons]
    simp

namespace Bucket

theorem withoutFront_append (front text : Text) : withoutFront front (front ++ text) = text := by
  unfold withoutFront
  rw [if_pos (by simp), List.drop_left]

def leaf (id : UintN) : Text := join (id.toFilePath storeExtension)

theorem leaf_inj {a b : UintN} (same : leaf a = leaf b) : a.toNat = b.toNat :=
  toFilePath_inj (join_inj (toFilePath_ne_nil a _) (toFilePath_ne_nil b _) (toFilePath_isName a storeExtension_free)
    (toFilePath_isName b storeExtension_free) same)

theorem slash_mem_leaf (id : UintN) : '/' ∈ leaf id ↔ 4096 ≤ id.toNat := by
  rw [leaf, slash_mem_join (toFilePath_ne_nil id _) (toFilePath_isName id storeExtension_free), Ne,
    length_toFilePath_eq_one, Nat.not_lt]

theorem leaf_isName {id : UintN} (small : id.toNat < 4096) :
    IsName (leaf id) ∧ '.' :: storeExtension <:+ leaf id := by
  obtain ⟨name, single⟩ := List.length_eq_one_iff.mp ((length_toFilePath_eq_one id storeExtension).mpr small)
  obtain ⟨stem, -, last⟩ := (spells_toFilePath id storeExtension).last
  have proper := toFilePath_isName id storeExtension_free name (by rw [single]; simp)
  have leafIs : leaf id = name := by
    rw [leaf, single]
    simp [join]
  have nameIs : name = stem ++ '.' :: storeExtension := by
    rw [single] at last
    exact Option.some.inj last
  refine ⟨leafIs ▸ proper, ?_⟩
  rw [leafIs, nameIs]
  exact List.suffix_append _ _

theorem pathToId_leaf (id : UintN) : pathToId (leaf id) storeExtension = .ok (.ofUbig id.toNat) :=
  pathToId_join (toFilePath_ne_nil id _) (toFilePath_isName id storeExtension_free)
    (NormFS.pathToId_toFilePath id storeExtension)

def noted (id : UintN) : Text × UintN := (leaf id, .ofUbig id.toNat)

section Level

variable {front : Text}

theorem noteFile_leaf {id : UintN} (small : id.toNat < 4096) (least : UintN) :
    noteFile front storeExtension none (front ++ leaf id) = some (noted id) ∧
    noteFile front storeExtension (some (noted least)) (front ++ leaf id) =
      some (noted (if id.toNat < least.toNat then id else least)) := by
  obtain ⟨proper, extended⟩ := leaf_isName small
  have relative : trimStart (withoutFront front (front ++ leaf id)) = leaf id := by
    rw [withoutFront_append, trimStart_relative proper.isAbsolute]
  have file : (!(leaf id).contains '/' && ('.' :: storeExtension).isSuffixOf (front ++ leaf id)) = true := by
    rw [Bool.and_eq_true, List.isSuffixOf_iff_suffix]
    exact ⟨by simpa using proper.2, extended.trans (List.suffix_append _ _)⟩
  constructor
  · simp only [noteFile, relative, file, if_true, pathToId_leaf, noted]
  · simp only [noteFile, relative, file, if_true, pathToId_leaf, noted, UintN.lt_iff, UintN.toNat_ofUbig]
    split
    · rfl
    · rfl

theorem fold_leaves {keys : List Text} (leaves : ∀ key ∈ keys, ∃ id : UintN, id.toNat < 4096 ∧ key = front ++ leaf id)
    (least : UintN) :
    ∃ found, keys.foldl (noteFile front storeExtension) (some (noted least)) = some (noted found) ∧
      (found = least ∨ front ++ leaf found ∈ keys) ∧ found.toNat ≤ least.toNat ∧
      ∀ id, front ++ leaf id ∈ keys → found.toNat ≤ id.toNat := by
  induction keys generalizing least with
  | nil => exact ⟨least, rfl, .inl rfl, Nat.le_refl _, by simp⟩
  | cons key keys ih =>
    obtain ⟨here, small, rfl⟩ := leaves key (by simp)
    obtain ⟨found, result, among, below, least'⟩ :=
      ih (fun key member => leaves key (List.mem_cons_of_mem _ member))
        (if here.toNat < least.toNat then here else least)
    refine ⟨found, ?_, ?_, ?_, ?_⟩
    · rw [List.foldl_cons, (noteFile_leaf small least).2]
      exact result
    · rcases among with rfl | later
      · split
        · exact .inr (by simp)
        · exact .inl rfl
      · exact .inr (List.mem_cons_of_mem _ later)
    · split at below <;> omega
    · intro id member
      rcases List.mem_cons.mp member with same | later
      · have value := leaf_inj (List.append_cancel_left same)
        split at below <;> omega
      · exact least' id later

theorem dirName_group {name : Name} (group : IsGroup name) : dirName front (front ++ name ++ ['/']) = name := by
  have proper := group.isName
  have relative : isAbsolute (name ++ ['/']) = false := by
    rw [isAbsolute_append proper.1]
    exact proper.isAbsolute
  have reversed : IsName name.reverse := by
    refine ⟨by simpa using proper.1, ?_⟩
    rw [List.mem_reverse]
    exact proper.2
  have ends : trimStart ('/' :: name.reverse) = trimStart name.reverse := List.dropWhile_cons_of_pos rfl
  rw [dirName, List.append_assoc, withoutFront_append, trimStart_relative relative, trimEnd,
    List.reverse_append, List.reverse_singleton, List.singleton_append, ends, trimStart_relative reversed.isAbsolute,
    List.reverse_reverse]

/-- A directory of three digits is none of the directories that are looked for. -/
theorem firstDirectory_groups {folded : List Text}
    (groups : ∀ directory ∈ folded, ∃ name, IsGroup name ∧ directory = front ++ name ++ ['/']) :
    firstDirectory front folded = none := by
  unfold firstDirectory
  rw [List.findSome?_eq_none_iff]
  intro hexDigit _
  rw [Option.map_eq_none_iff, List.find?_eq_none]
  intro directory member named
  obtain ⟨name, group, rfl⟩ := groups directory member
  rw [dirName_group group, beq_iff_eq] at named
  have length := group.1
  rw [named] at length
  cases length

end Level

end Bucket

section Search

variable {client : S3Client} {bucket : List Text} {downloader : CloudDownloader} {queue : QueueId} {ids : List UintN}

section

variable (stores : Stores bucket downloader queue ids)

include stores

theorem Stores.listed (lists : ListsKeys client bucket) :
    ∃ result, client (downloader.listedPrefix queue) (some '/') = .ok result ∧
      (∀ key, key ∈ result.contents ↔
        ∃ id ∈ ids, id.toNat < 4096 ∧ key = downloader.listedPrefix queue ++ Bucket.leaf id) ∧
      ∀ directory ∈ result.commonPrefixes,
        ∃ name, IsGroup name ∧ directory = downloader.listedPrefix queue ++ name ++ ['/'] := by
  obtain ⟨result, answered, contents, folded⟩ := lists (downloader.listedPrefix queue)
  refine ⟨result, answered, ?_, ?_⟩
  · intro key
    rw [contents]
    constructor
    · rintro ⟨member, name, free, rfl⟩
      obtain ⟨id, listed, same⟩ := stores.only _ member (List.prefix_append _ _)
      rw [fileKey_eq] at same
      have name' : name = Bucket.leaf id := List.append_cancel_left same
      refine ⟨id, listed, ?_, by rw [name']⟩
      rw [name', Bucket.slash_mem_leaf] at free
      omega
    · rintro ⟨id, listed, small, rfl⟩
      have there := stores.there id listed
      rw [fileKey_eq] at there
      exact ⟨there, _, (Bucket.leaf_isName small).1.2, rfl⟩
  · intro directory member
    obtain ⟨name, rest, free, rfl, deeper⟩ := (folded directory).mp member
    rw [List.append_assoc, List.append_assoc] at deeper
    obtain ⟨id, -, same⟩ := stores.only _ deeper (List.prefix_append _ _)
    rw [fileKey_eq] at same
    refine ⟨name, ?_, rfl⟩
    have parts := congrArg (List.splitOn '/') (List.append_cancel_left same)
    rw [List.singleton_append, List.splitOn_append_cons_self, List.splitOn_eq_singleton free,
      Bucket.splitOn_join (toFilePath_ne_nil id _) (toFilePath_isName id storeExtension_free)] at parts
    apply directory_isGroup id storeExtension
    rw [← parts, List.dropLast_append_of_ne_nil (List.splitOn_ne_nil _ _)]
    simp

theorem Stores.findMinId_small (lists : ListsKeys client bucket)
    {small : UintN} (member : small ∈ ids) (first : small.toNat < 4096) (depth : Nat) :
    ∃ found ∈ ids, downloader.findMinId client (depth + 1) queue = some (.ok (some (.ofUbig found.toNat))) ∧
      ∀ id ∈ ids, found.toNat ≤ id.toNat := by
  obtain ⟨result, answered, contents, -⟩ := stores.listed lists
  cases listing : result.contents with
  | nil =>
    have there := (contents _).mpr ⟨small, member, first, rfl⟩
    rw [listing] at there
    cases there
  | cons key keys =>
    have leaves : ∀ other ∈ key :: keys, ∃ id : UintN, id.toNat < 4096 ∧
        other = downloader.listedPrefix queue ++ Bucket.leaf id := by
      intro other listed
      obtain ⟨id, -, shallow, same⟩ := (contents other).mp (by rwa [listing])
      exact ⟨id, shallow, same⟩
    obtain ⟨here, shallow, rfl⟩ := leaves key (by simp)
    obtain ⟨found, folded, among, below, least⟩ :=
      Bucket.fold_leaves (fun other listed => leaves other (List.mem_cons_of_mem _ listed)) here
    have inside : downloader.listedPrefix queue ++ Bucket.leaf found ∈ result.contents := by
      rw [listing]
      rcases among with rfl | later
      · simp
      · exact List.mem_cons_of_mem _ later
    obtain ⟨id, listed, small', same⟩ := (contents _).mp inside
    have value := Bucket.leaf_inj (List.append_cancel_left same)
    have chosen : result.contents.foldl (Bucket.noteFile (downloader.listedPrefix queue) storeExtension) none =
        some (Bucket.leaf found, .ofUbig found.toNat) := by
      rw [listing, List.foldl_cons, (Bucket.noteFile_leaf shallow here).1]
      exact folded
    refine ⟨id, listed, ?_, ?_⟩
    · simp only [CloudDownloader.findMinId, Bucket.findMinId, Bucket.findMinIdRecursive, answered, chosen,
        Bucket.pathToId_leaf, value]
    · intro other otherListed
      rw [← value]
      by_cases deep : other.toNat < 4096
      · have there := (contents _).mpr ⟨other, otherListed, deep, rfl⟩
        rw [listing] at there
        rcases List.mem_cons.mp there with head | later
        · have value' := Bucket.leaf_inj (List.append_cancel_left head)
          omega
        · exact least other later
      · omega

theorem Stores.findMinId_none (lists : ListsKeys client bucket)
    (deep : ∀ id ∈ ids, 4096 ≤ id.toNat) (depth : Nat) :
    downloader.findMinId client (depth + 1) queue = some (.ok none) := by
  obtain ⟨result, answered, contents, groups⟩ := stores.listed lists
  have empty : result.contents = [] := by
    apply List.eq_nil_iff_forall_not_mem.mpr
    intro key member
    obtain ⟨id, listed, small, -⟩ := (contents key).mp member
    have large := deep id listed
    omega
  simp only [CloudDownloader.findMinId, Bucket.findMinId, Bucket.findMinIdRecursive, answered, empty, List.foldl_nil,
    Bucket.firstDirectory_groups groups]

end

/- The first file of a queue is found exactly where it has a number of at most three digits: the
directories of longer numbers have names of three digits, and only names of one digit are looked for. -/
theorem cloud_least_iff (stores : Stores bucket downloader queue ids) (lists : ListsKeys client bucket) :
    FindsLeast (fun depth => downloader.findMinId client depth queue) ids ↔
      ids = [] ∨ ∃ id ∈ ids, id.toNat < 4096 := by
  constructor
  · intro finds
    by_contra neither
    rw [not_or] at neither
    obtain ⟨nonempty, deep⟩ := neither
    have missed := stores.findMinId_none lists (fun id member => Nat.le_of_not_lt fun small => deep ⟨id, member, small⟩)
    obtain ⟨depth, found, answer, -⟩ := finds.least nonempty
    cases depth with
    | zero => cases answer
    | succ depth =>
      have both := (missed depth).symm.trans answer
      cases both
  · intro either
    constructor
    · rintro rfl
      exact ⟨1, stores.findMinId_none lists (by simp) 0⟩
    · intro nonempty
      obtain ⟨small, member, first⟩ := either.resolve_left nonempty
      obtain ⟨found, listed, answer, least⟩ := stores.findMinId_small lists member first 0
      refine ⟨1, _, answer, ⟨found, listed, (UintN.toNat_ofUbig _).symm⟩, ?_⟩
      intro id idListed
      rw [UintN.toNat_ofUbig]
      exact least id idListed

end Search

def restsOf (bucket : List Text) (front : Text) : List Text :=
  (bucket.filter front.isPrefixOf).map (fun key => key.drop front.length)

theorem mem_restsOf {bucket : List Text} {front rest : Text} : rest ∈ restsOf bucket front ↔ front ++ rest ∈ bucket := by
  simp only [restsOf, List.mem_map, List.mem_filter, List.isPrefixOf_iff_prefix]
  constructor
  · rintro ⟨key, ⟨member, rest', rfl⟩, rfl⟩
    rwa [List.drop_left]
  · intro member
    exact ⟨_, ⟨member, List.prefix_append _ _⟩, List.drop_left⟩

def listObjects (bucket : List Text) : S3Client := fun front delimiter =>
  match delimiter with
  | none => .ok ⟨(restsOf bucket front).map (front ++ ·), []⟩
  | some mark => .ok ⟨((restsOf bucket front).filter (fun rest => !rest.contains mark)).map (front ++ ·),
      (((restsOf bucket front).filter (fun rest => rest.contains mark)).map
        (fun rest => front ++ rest.takeWhile (· != mark) ++ [mark])).dedup⟩

theorem takeWhile_name {name : Text} (free : '/' ∉ name) (rest : Text) :
    (name ++ '/' :: rest).takeWhile (· != '/') = name := by
  have passes : ∀ c ∈ name, (c != '/') = true := by
    intro c member
    rw [bne_iff_ne]
    rintro rfl
    exact free member
  rw [List.takeWhile_append_of_pos passes, List.takeWhile_cons_of_neg (by simp), List.append_nil]

theorem exists_name_slash {text : Text} (slash : '/' ∈ text) : ∃ name rest, '/' ∉ name ∧ text = name ++ '/' :: rest := by
  induction text with
  | nil => cases slash
  | cons c text ih =>
    by_cases here : c = '/'
    · exact ⟨[], text, by simp, by rw [here]; rfl⟩
    · obtain ⟨name, rest, free, rfl⟩ := ih ((List.mem_cons.mp slash).resolve_left (Ne.symm here))
      refine ⟨c :: name, rest, ?_, rfl⟩
      rw [List.mem_cons, not_or]
      exact ⟨Ne.symm here, free⟩

theorem lists_listObjects (bucket : List Text) : ListsKeys (listObjects bucket) bucket := by
  intro front
  refine ⟨_, rfl, ?_, ?_⟩
  · intro key
    simp only [List.mem_map, List.mem_filter, mem_restsOf, Bool.not_eq_true', List.contains_eq_mem,
      decide_eq_false_iff_not]
    constructor
    · rintro ⟨rest, ⟨member, free⟩, rfl⟩
      exact ⟨member, rest, free, rfl⟩
    · rintro ⟨member, name, free, rfl⟩
      exact ⟨name, ⟨member, free⟩, rfl⟩
  · intro folded
    simp only [List.mem_dedup, List.mem_map, List.mem_filter, mem_restsOf, List.contains_eq_mem, decide_eq_true_eq]
    constructor
    · rintro ⟨key, ⟨member, slash⟩, rfl⟩
      obtain ⟨name, rest, free, rfl⟩ := exists_name_slash slash
      exact ⟨name, rest, free, by rw [takeWhile_name free], by rw [takeWhile_name free]; simpa using member⟩
    · rintro ⟨name, rest, free, rfl, member⟩
      exact ⟨name ++ '/' :: rest, ⟨by simpa using member, by simp⟩, by rw [takeWhile_name free]⟩

/- The queue "q" with the files 1 and 0x1000, and with 0x1000 alone. -/
def sampleQueue : QueueId := (QueueIdResolver.mk ['i']).resolve ['q']

def sampleKeys (ids : List UintN) : List Text := ids.map ((CloudDownloader.new ['p']).fileKey sampleQueue)

theorem stores_sampleKeys (ids : List UintN) :
    Stores (sampleKeys ids) (CloudDownloader.new ['p']) sampleQueue ids := by
  constructor
  · intro id member
    exact List.mem_map_of_mem member
  · intro key member _
    obtain ⟨id, listed, rfl⟩ := List.mem_map.mp member
    exact ⟨id, listed, rfl⟩

theorem cloud_least_sample :
    FindsLeast (fun depth =>
        (CloudDownloader.new ['p']).findMinId (listObjects (sampleKeys [.u16 0x1000, .u8 1])) depth sampleQueue)
      [.u16 0x1000, .u8 1] ↔ [UintN.u16 0x1000, .u8 1] = [] ∨ ∃ id ∈ [UintN.u16 0x1000, .u8 1], id.toNat < 4096 :=
  cloud_least_iff (stores_sampleKeys _) (lists_listObjects _)

theorem cloud_least_missed : sampleKeys [.u16 0x1000] = ["p/i/q/001/000.store".toList] ∧
    (CloudDownloader.new ['p']).findMinId (listObjects (sampleKeys [.u16 0x1000])) 8 sampleQueue = some (.ok none) := by
  decide +kernel

end NormFS
