import NormFS.Crypto
import NormFS.Lib.UnixPath
import NormFS.Paths

/-! Keys of store files in the bucket. The offloader joins the whole path of the queue to a prefix that
already holds the instance; the downloader joins the trimmed path to the prefix of the settings. -/
namespace NormFS

open UnixPath

def UintN.toFilePathIn (self : UintN) (baseFolder : Text) (extension : Name) : Text :=
  extend baseFolder (self.toFilePath extension)

def QueueId.toCloudQueuePath (self : QueueId) (basePrefix : Text) : Text :=
  basePrefix ++ trimStart self.path ++ ['/']

def QueueId.toCloudKey (self : QueueId) (basePrefix : Text) (fileId : UintN) : Text :=
  let queuePath := trimStart self.path
  let filePath := trimStart (fileId.toFilePathIn [] storeExtension)
  if basePrefix.isEmpty then queuePath ++ '/' :: filePath
  else basePrefix ++ queuePath ++ '/' :: filePath

structure CloudDownloader where
  basePrefix : Text

def CloudDownloader.new (cloudPrefix : Text) : CloudDownloader where
  basePrefix :=
    if cloudPrefix.isEmpty then []
    else if cloudPrefix.getLast? == some '/' then cloudPrefix
    else cloudPrefix ++ ['/']

/-- The prefix listed for the first file of a queue. -/
def CloudDownloader.listedPrefix (self : CloudDownloader) (queue : QueueId) : Text :=
  queue.toCloudQueuePath self.basePrefix

/-- The key of `get_store_bytes` and of `get_file_range`. -/
def CloudDownloader.fileKey (self : CloudDownloader) (queue : QueueId) (fileId : UintN) : Text :=
  queue.toCloudKey self.basePrefix fileId

/- What the instance gives the disk monitor, and the monitor its offloaders. -/
def fullCloudPrefix (cloudPrefix instanceId : Text) : Text :=
  if cloudPrefix.isEmpty then instanceId else cloudPrefix ++ '/' :: instanceId

structure QueueOffloaderWorker where
  queueId : Text
  cloudPrefix : Text

def QueueOffloaderWorker.new (queueId : QueueId) (cloudPrefix : Text) : QueueOffloaderWorker :=
  ⟨queueId.path, cloudPrefix⟩

def QueueOffloaderWorker.s3Key (self : QueueOffloaderWorker) (fileId : UintN) : Text :=
  self.cloudPrefix ++ '/' :: fileId.toFilePathIn self.queueId storeExtension

theorem resolve_isAbsolute (resolver : QueueIdResolver) (path : List Char) :
    isAbsolute (resolver.resolve path).path = true := by
  unfold QueueIdResolver.resolve
  split
  · rename_i absolute
    cases path with
    | nil => cases absolute
    | cons c rest =>
      obtain rfl : '/' = c := by simpa using absolute
      rfl
  · rfl

theorem IsGroup.isName {group : Name} (digits : IsGroup group) : IsName group := by
  refine ⟨?_, ?_⟩
  · rintro rfl
    exact absurd digits.1 (by decide)
  · intro slash
    exact absurd (List.all_eq_true.mp digits.2 '/' slash) (by decide)

variable {extension : Name}

theorem IsGroup.withExtension_isName {group : Name} (digits : IsGroup group)
    (free : '/' ∉ extension) : IsName (withExtension group extension) := by
  unfold withExtension
  split
  · exact digits.isName
  · refine ⟨by simp, ?_⟩
    intro slash
    rcases List.mem_append.mp slash with stem | dotted
    · exact digits.isName.2 stem
    · exact free (by simpa using dotted)

theorem pathOf_isName (free : '/' ∉ extension) {groups : List Name}
    (wellFormed : ∀ group ∈ groups, IsGroup group) : ∀ name ∈ pathOf extension groups, IsName name := by
  fun_induction pathOf extension groups with
  | case1 => simp
  | case2 stem =>
    intro name member
    obtain rfl : name = _ := by simpa using member
    exact (wellFormed stem (by simp)).withExtension_isName free
  | case3 directory next rest ih =>
    intro name member
    rcases List.mem_cons.mp member with rfl | later
    · exact (wellFormed _ (by simp)).isName
    · exact ih (fun group inRest => wellFormed group (List.mem_cons_of_mem _ inRest)) name later

theorem toFilePath_isName (fileId : UintN) (free : '/' ∉ extension) :
    ∀ name ∈ fileId.toFilePath extension, IsName name := by
  rw [toFilePath_eq]
  exact pathOf_isName free (groupsOf_spec fileId.toNat).1

theorem toFilePathIn_eq (fileId : UintN) (base : Text) (free : '/' ∉ extension) :
    fileId.toFilePathIn base extension = push base (join (fileId.toFilePath extension)) :=
  extend_eq base (toFilePath_ne_nil fileId _) (toFilePath_isName fileId free)

theorem storeExtension_free : '/' ∉ storeExtension := by decide

theorem toCloudKey_eq (queue : QueueId) (basePrefix : Text) (fileId : UintN) :
    queue.toCloudKey basePrefix fileId =
      basePrefix ++ (trimStart queue.path ++ '/' :: join (fileId.toFilePath storeExtension)) := by
  have relative := isAbsolute_join (toFilePath_isName fileId storeExtension_free)
  unfold QueueId.toCloudKey
  simp only [toFilePathIn_eq _ _ storeExtension_free, push_nil_left, trimStart_relative relative]
  split
  · rename_i empty
    obtain rfl := List.isEmpty_iff.mp empty
    rfl
  · rw [List.append_assoc]

theorem length_basePrefix (cloudPrefix instanceId : Text) :
    (CloudDownloader.new cloudPrefix).basePrefix.length ≤ (fullCloudPrefix cloudPrefix instanceId).length := by
  unfold CloudDownloader.new fullCloudPrefix
  cases cloudPrefix with
  | nil => simp
  | cons c rest =>
    simp only [List.isEmpty_cons, Bool.false_eq_true, if_false]
    split <;> simp

/- The offloader never writes the key the downloader reads: its prefix is at least as long, and it keeps
the slashes the other trims. -/
theorem upload_key_ne_download_key (cloudPrefix : Text) (resolver : QueueIdResolver) (path : List Char)
    (fileId : UintN) :
    (QueueOffloaderWorker.new (resolver.resolve path) (fullCloudPrefix cloudPrefix resolver.instanceId)).s3Key fileId ≠
      (CloudDownloader.new cloudPrefix).fileKey (resolver.resolve path) fileId := by
  intro same
  have relative := isAbsolute_join (toFilePath_isName fileId storeExtension_free)
  have prefixes := length_basePrefix cloudPrefix resolver.instanceId
  have trimmed := length_trimStart_lt (resolve_isAbsolute resolver path)
  have lengths := congrArg List.length same
  simp only [QueueOffloaderWorker.s3Key, QueueOffloaderWorker.new, CloudDownloader.fileKey, toCloudKey_eq,
    toFilePathIn_eq _ _ storeExtension_free, push_relative _ relative, List.length_append, List.length_cons] at lengths
  omega

/- File 1 of the queue "q" goes to "p/i//i/q/001.store" and is looked for at "p/i/q/001.store". -/
theorem upload_lost :
    (QueueOffloaderWorker.new ((QueueIdResolver.mk ['i']).resolve ['q']) (fullCloudPrefix ['p'] ['i'])).s3Key (.u8 1) =
      "p/i//i/q/001.store".toList ∧
    (CloudDownloader.new ['p']).fileKey ((QueueIdResolver.mk ['i']).resolve ['q']) (.u8 1) =
      "p/i/q/001.store".toList ∧
    ¬ (CloudDownloader.new ['p']).listedPrefix ((QueueIdResolver.mk ['i']).resolve ['q']) <+:
      (QueueOffloaderWorker.new ((QueueIdResolver.mk ['i']).resolve ['q']) (fullCloudPrefix ['p'] ['i'])).s3Key
        (.u8 1) := by
  decide +kernel

/-! When two files share a key. -/

/-- The path of the second queue, without its first slashes, is that of the first followed by the leading
groups of the first file's number, and the other groups are the number of the second file. -/
def SharesKey (q₁ : QueueId) (f₁ : UintN) (q₂ : QueueId) (f₂ : UintN) : Prop :=
  q₁ ≠ q₂ ∧ ∃ groups : List Name, groupsOf f₁.toNat = groups ++ groupsOf f₂.toNat ∧
    trimStart q₂.path = trimStart q₁.path ++ groups.flatMap (fun group => '/' :: group)

theorem withExtension_inj {a b : Name} (same : withExtension a extension = withExtension b extension) :
    a = b := by
  unfold withExtension at same
  split at same
  · exact same
  · exact List.append_cancel_right same

theorem pathOf_eq_append {groups front back : List Name} (nonempty : back ≠ [])
    (same : pathOf extension groups = front ++ pathOf extension back) : groups = front ++ back := by
  obtain ⟨before, last, rfl⟩ := (List.eq_nil_or_concat back).resolve_left nonempty
  rw [List.concat_eq_append, pathOf_append_singleton, ← List.append_assoc] at same
  rcases List.eq_nil_or_concat groups with rfl | ⟨directories, stem, rfl⟩
  · simp [pathOf] at same
  · rw [List.concat_eq_append, pathOf_append_singleton] at same
    obtain ⟨path, name⟩ := List.append_inj' same rfl
    rw [List.concat_eq_append, List.concat_eq_append, path, withExtension_inj (List.singleton_inj.mp name),
      List.append_assoc]

theorem pathOf_append (extension : Name) (front : List Name) {back : List Name} (nonempty : back ≠ []) :
    pathOf extension (front ++ back) = front ++ pathOf extension back := by
  obtain ⟨before, last, rfl⟩ := (List.eq_nil_or_concat back).resolve_left nonempty
  rw [List.concat_eq_append, ← List.append_assoc, pathOf_append_singleton, pathOf_append_singleton,
    List.append_assoc]

theorem SharesKey.key_eq {q₁ q₂ : QueueId} {f₁ f₂ : UintN} (shares : SharesKey q₁ f₁ q₂ f₂) (basePrefix : Text) :
    q₁.toCloudKey basePrefix f₁ = q₂.toCloudKey basePrefix f₂ := by
  obtain ⟨-, groups, number, path⟩ := shares
  have file : f₁.toFilePath storeExtension = groups ++ f₂.toFilePath storeExtension := by
    rw [toFilePath_eq, toFilePath_eq, number, pathOf_append _ _ (groupsOf_ne_nil _)]
  rw [toCloudKey_eq, toCloudKey_eq, path, slash_join (toFilePath_ne_nil f₁ _), slash_join (toFilePath_ne_nil f₂ _),
    file, List.flatMap_append, List.append_assoc]

/-- Equal keys are split at the same slash, or one queue takes up groups of the other's number. -/
theorem key_split {q₁ q₂ : QueueId} {f₁ f₂ : UintN} {rest : List Name}
    (path : (trimStart q₂.path).splitOn '/' = (trimStart q₁.path).splitOn '/' ++ rest)
    (file : f₁.toFilePath storeExtension = rest ++ f₂.toFilePath storeExtension) :
    (q₁ = q₂ ∧ f₁.toNat = f₂.toNat) ∨ SharesKey q₁ f₁ q₂ f₂ := by
  rw [toFilePath_eq, toFilePath_eq] at file
  have number := pathOf_eq_append (groupsOf_ne_nil f₂.toNat) file
  have trimmed : trimStart q₂.path = trimStart q₁.path ++ rest.flatMap (fun group => '/' :: group) := by
    rw [← join_splitOn (trimStart q₂.path), path, join_append (List.splitOn_ne_nil _ _), join_splitOn]
  by_cases queue : q₁ = q₂
  · left
    refine ⟨queue, ?_⟩
    have none : rest = [] := by
      rw [queue, List.self_eq_append_right] at path
      exact path
    rw [none, List.nil_append] at number
    rw [← (groupsOf_spec f₁.toNat).2, number, (groupsOf_spec f₂.toNat).2]
  · exact .inr ⟨queue, rest, number, trimmed⟩

/- A key tells the queue and the file, unless the queues differ in their first slashes only, or one path
goes on with groups that the number of the other's file begins with. -/
theorem toCloudKey_injective_iff (cloudPrefix : Text) (r₁ r₂ : QueueIdResolver) (path₁ path₂ : List Char)
    (f₁ f₂ : UintN) :
    ((r₁.resolve path₁).toCloudKey (CloudDownloader.new cloudPrefix).basePrefix f₁ =
        (r₂.resolve path₂).toCloudKey (CloudDownloader.new cloudPrefix).basePrefix f₂ →
      r₁.resolve path₁ = r₂.resolve path₂ ∧ f₁.toNat = f₂.toNat) ↔
    ¬ SharesKey (r₁.resolve path₁) f₁ (r₂.resolve path₂) f₂ ∧
      ¬ SharesKey (r₂.resolve path₂) f₂ (r₁.resolve path₁) f₁ := by
  generalize r₁.resolve path₁ = q₁
  generalize r₂.resolve path₂ = q₂
  generalize (CloudDownloader.new cloudPrefix).basePrefix = basePrefix
  constructor
  · intro injective
    constructor
    · intro shares
      exact shares.1 (injective (shares.key_eq basePrefix)).1
    · intro shares
      exact shares.1 (injective (shares.key_eq basePrefix).symm).1.symm
  · rintro ⟨notFirst, notSecond⟩ same
    rw [toCloudKey_eq, toCloudKey_eq] at same
    have parts := congrArg (List.splitOn '/') (List.append_cancel_left same)
    rw [splitOn_append_join _ (toFilePath_ne_nil f₁ _) (toFilePath_isName f₁ storeExtension_free),
      splitOn_append_join _ (toFilePath_ne_nil f₂ _) (toFilePath_isName f₂ storeExtension_free)] at parts
    rcases List.append_eq_append_iff.mp parts with ⟨rest, path, file⟩ | ⟨rest, path, file⟩
    · exact (key_split path file).resolve_right notFirst
    · obtain ⟨queue, number⟩ := (key_split path file).resolve_right notSecond
      exact ⟨queue.symm, number.symm⟩

/- The queues "/a" and "//a" share every key; file 0x001002 of "/a" has the key of file 2 of "/a/001". -/
theorem keys_collide :
    (QueueIdResolver.mk ['i']).resolve "/a".toList ≠ (QueueIdResolver.mk ['i']).resolve "//a".toList ∧
    ((QueueIdResolver.mk ['i']).resolve "/a".toList).toCloudKey (CloudDownloader.new ['p']).basePrefix (.u8 1) =
      ((QueueIdResolver.mk ['i']).resolve "//a".toList).toCloudKey (CloudDownloader.new ['p']).basePrefix (.u8 1) ∧
    (QueueIdResolver.mk ['i']).resolve "/a".toList ≠ (QueueIdResolver.mk ['i']).resolve "/a/001".toList ∧
    ((QueueIdResolver.mk ['i']).resolve "/a".toList).toCloudKey (CloudDownloader.new ['p']).basePrefix (.u16 0x1002) =
      ((QueueIdResolver.mk ['i']).resolve "/a/001".toList).toCloudKey (CloudDownloader.new ['p']).basePrefix (.u8 2) := by
  decide +kernel

end NormFS
