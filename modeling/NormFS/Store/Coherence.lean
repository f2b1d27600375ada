import NormFS.Offload.Directories
import NormFS.Store.Worker

/-! The ranges remembered for all queues. The memory is filled by whoever asks for a range, from the store
file, and by the worker, from the WAL file it has just moved; its keys are text. -/
namespace NormFS

open UnixPath

def UintN.display (self : UintN) : Text := Nat.toDigits 10 self.toNat

namespace RangeStore

def key (queueId : QueueId) (fileId : UintN) : Text := queueId.path ++ '-' :: fileId.display

abbrev Ranges := List (Text × EntryRange)

def getRange (config : StoreConfig) (file : Option Bytes) (key : Text) (ranges : Ranges) :
    Outcome RangeStoreError (Option EntryRange) × Ranges :=
  match ranges.lookup key with
  | some range => (.ok (some range), ranges)
  | none =>
    match readRangeFromFs config file with
    | .ok (some range) => (.ok (some range), (key, range) :: ranges)
    | .err .fileNotFound => (.ok none, ranges)
    | answer => (answer, ranges)

def recordRange (ranges : Ranges) (key : Text) (firstId lastId : UintN) : Ranges :=
  (key, (firstId, lastId)) :: ranges

end RangeStore

/- The instance: its keys, its root, and the file a path leads to, which may be the same for two paths. -/
structure RangeEnv (φ : Type) where
  xxh64 : Hash
  config : StoreConfig
  sealer : QueueId → Sealer
  root : Text
  resolve : Text → φ

/-- Signatures are accepted by whoever checks them. -/
def RangeEnv.Accepts {φ : Type} (env : RangeEnv φ) : Prop :=
  ∀ queue message, env.config.codec.verify message ((env.sealer queue).sign message) = true

structure RangeWorld (φ : Type) where
  store : φ → Option Bytes
  ranges : RangeStore.Ranges

inductive RangeEvent where
  | processEntry (queue : QueueId) (walFile : WalFile) (wal : Option Bytes) (renamed : Bool)
  | getRange (queue : QueueId) (fileId : UintN)

namespace RangeEnv

variable {φ : Type} [DecidableEq φ] (env : RangeEnv φ)

def place (queue : QueueId) (fileId : UintN) : φ := env.resolve (queue.toStorePath env.root fileId)

/-- The tally of the WAL file and the store file made of it, if the worker gets that far. -/
def packed (queue : QueueId) (walFile : WalFile) (wal : Option Bytes) : Option (WalContent × Bytes) :=
  match getWalContent env.xxh64 wal with
  | .ok walData =>
    match maybeCompressAndEncrypt (env.sealer queue) walFile walData.content with
    | some data =>
      if room : (storeFileBytes (env.sealer queue) walFile walData data).length < 2 ^ 63 then
        some (walData, ⟨storeFileBytes (env.sealer queue) walFile walData data, room⟩)
      else none
    | none => none
  | _ => none

/-- The rename of the store file, and the record of its range unless the last id cannot be computed. -/
def finish (s : RangeWorld φ) (queue : QueueId) (fileId : UintN) (walData : WalContent) (file : Bytes) :
    RangeWorld φ :=
  let store := fun place => if place = env.place queue fileId then some file else s.store place
  match (walData.entriesBefore.add walData.numEntries).sub .one with
  | .ok lastId =>
    ⟨store, RangeStore.recordRange s.ranges (RangeStore.key queue fileId) walData.entriesBefore lastId⟩
  | _ => ⟨store, s.ranges⟩

/- `renamed` says whether the system calls up to the rename succeed. -/
def processEntry (s : RangeWorld φ) (queue : QueueId) (walFile : WalFile) (wal : Option Bytes) (renamed : Bool) :
    RangeWorld φ :=
  match env.packed queue walFile wal, renamed with
  | some (walData, file), true => env.finish s queue walFile.fileId walData file
  | _, _ => s

def getRange (s : RangeWorld φ) (queue : QueueId) (fileId : UintN) :
    Outcome RangeStoreError (Option EntryRange) × RangeStore.Ranges :=
  RangeStore.getRange env.config (s.store (env.place queue fileId)) (RangeStore.key queue fileId) s.ranges

def step (s : RangeWorld φ) : RangeEvent → Option (RangeWorld φ)
  | .processEntry queue walFile wal renamed => some (env.processEntry s queue walFile wal renamed)
  | .getRange queue fileId => some { s with ranges := (env.getRange s queue fileId).2 }

/-- Nothing is remembered yet, and the store is in any state. -/
def start (store : φ → Option Bytes) : RangeWorld φ := ⟨store, []⟩

/-- Every answer about a store file that exists is what the file says, with the ids in order. -/
def Truthful (s : RangeWorld φ) : Prop :=
  ∀ queue fileId file answer, s.store (env.place queue fileId) = some file →
    (env.getRange s queue fileId).1 = .ok answer →
    (∃ fs, readRangeFromFs env.config (some file) = .ok fs ∧ rangeValues answer = rangeValues fs) ∧
      ∀ range, answer = some range → range.1.toNat ≤ range.2.toNat

/-- The header of the new store file is among the bytes a reader of its range reads. -/
def Visible (walFile : WalFile) (walData : WalContent) : Prop :=
  FileAuthentication.size + (storeHeaderOf walFile walData).size ≤ rangeWindow

structure Recordable (s : RangeWorld φ) (queue : QueueId) (walFile : WalFile) (walData : WalContent) : Prop where
  inhabited : 0 < walData.entriesBefore.toNat + walData.numEntries.toNat →
    0 < walData.numEntries.toNat ∧ Visible walFile walData
  unknown : walData.entriesBefore.toNat + walData.numEntries.toNat = 0 →
    s.ranges.lookup (RangeStore.key queue walFile.fileId) = none
  aliases : ∀ other fileId range, RangeStore.key other fileId ≠ RangeStore.key queue walFile.fileId →
    s.ranges.lookup (RangeStore.key other fileId) = some range →
    env.place other fileId = env.place queue walFile.fileId →
    Visible walFile walData ∧
      rangeValues (some range) = entryRange walData.entriesBefore.toNat walData.numEntries.toNat

def Meets (s : RangeWorld φ) : RangeEvent → Prop
  | .processEntry queue walFile wal renamed => ∀ walData file,
    env.packed queue walFile wal = some (walData, file) → renamed = true → env.Recordable s queue walFile walData
  | .getRange _ _ => True

end RangeEnv

/-! Keys. -/

theorem display_plain (fileId : UintN) : '-' ∉ fileId.display := by
  intro member
  exact absurd (Nat.isDigit_of_mem_toDigits (by decide) (by decide) member) (by decide)

theorem display_inj {a b : UintN} (same : a.display = b.display) : a.toNat = b.toNat := by
  have numbers := congrArg (fun digits => Nat.ofDigitChars 10 digits 0) same
  simpa only [UintN.display, Nat.ofDigitChars_ten_toDigits] using numbers

/-- The part of a key behind the last dash is the number of the file. -/
theorem key_split_last {q₁ q₂ : Text} {d₁ d₂ rest : Text} (plain : '-' ∉ d₁) (path : q₂ = q₁ ++ rest)
    (number : '-' :: d₁ = rest ++ '-' :: d₂) : q₁ = q₂ ∧ d₁ = d₂ := by
  cases rest with
  | nil => exact ⟨by simpa using path.symm, by simpa using number⟩
  | cons c rest =>
    rw [List.cons_append] at number
    obtain ⟨-, inside⟩ := List.cons.inj number
    exact absurd (by rw [inside]; simp) plain

theorem rangeKey_inj {q₁ q₂ : QueueId} {f₁ f₂ : UintN} (same : RangeStore.key q₁ f₁ = RangeStore.key q₂ f₂) :
    q₁ = q₂ ∧ f₁.toNat = f₂.toNat := by
  have paths : q₁.path = q₂.path ∧ f₁.display = f₂.display := by
    rcases List.append_eq_append_iff.mp same with ⟨rest, path, number⟩ | ⟨rest, path, number⟩
    · exact key_split_last (display_plain f₁) path number
    · obtain ⟨path, number⟩ := key_split_last (display_plain f₂) path number
      exact ⟨path.symm, number.symm⟩
  obtain ⟨path, number⟩ := paths
  refine ⟨?_, display_inj number⟩
  cases q₁
  cases q₂
  rw [QueueId.mk.injEq]
  exact path

namespace RangeEnv

variable {φ : Type} {env : RangeEnv φ}

theorem place_of_key {q₁ q₂ : QueueId} {f₁ f₂ : UintN} (same : RangeStore.key q₁ f₁ = RangeStore.key q₂ f₂) :
    env.place q₁ f₁ = env.place q₂ f₂ := by
  obtain ⟨rfl, number⟩ := rangeKey_inj same
  unfold place QueueId.toStorePath UintN.toFilePathIn
  rw [toFilePath_congr number]

structure Matches (config : StoreConfig) (file : Bytes) (range : EntryRange) : Prop where
  read : ∃ fs, readRangeFromFs config (some file) = .ok fs ∧ rangeValues (some range) = rangeValues fs
  ordered : range.1.toNat ≤ range.2.toNat

variable (env) in
def Coherent (s : RangeWorld φ) : Prop :=
  ∀ queue fileId range file, s.ranges.lookup (RangeStore.key queue fileId) = some range →
    s.store (env.place queue fileId) = some file → Matches env.config file range

/-- Answers are true exactly when everything remembered is. -/
theorem truthful_iff_coherent (s : RangeWorld φ) : env.Truthful s ↔ env.Coherent s := by
  constructor
  · intro truthful queue fileId range file known stored
    have answer : (env.getRange s queue fileId).1 = .ok (some range) := by
      simp only [getRange, RangeStore.getRange, known]
    obtain ⟨read, ordered⟩ := truthful queue fileId file (some range) stored answer
    exact ⟨read, ordered range rfl⟩
  · intro coherent queue fileId file answer stored answered
    unfold getRange RangeStore.getRange at answered
    split at answered
    · rename_i range known
      obtain rfl : some range = answer := Outcome.ok.inj answered
      obtain ⟨read, ordered⟩ := coherent queue fileId range file known stored
      refine ⟨read, ?_⟩
      rintro _ ⟨⟩
      exact ordered
    · rw [stored] at answered
      have fromFile (fs : Option EntryRange) (read : readRangeFromFs env.config (some file) = .ok fs)
          (same : fs = answer) :
          (∃ fs, readRangeFromFs env.config (some file) = .ok fs ∧ rangeValues answer = rangeValues fs) ∧
            ∀ range, answer = some range → range.1.toNat ≤ range.2.toNat := by
        subst same
        refine ⟨⟨fs, read, rfl⟩, ?_⟩
        rintro range rfl
        exact readRangeFromFs_ordered read
      split at answered
      · rename_i range read
        exact fromFile (some range) read (Outcome.ok.inj answered)
      · rename_i read
        exact absurd read (readRangeFromFs_found _ _)
      · exact fromFile answer answered rfl

theorem packed_inv {queue : QueueId} {walFile : WalFile} {wal : Option Bytes} {walData : WalContent} {file : Bytes}
    (made : env.packed queue walFile wal = some (walData, file)) :
    getWalContent env.xxh64 wal = .ok walData ∧
      ∃ data, file.data = storeFileBytes (env.sealer queue) walFile walData data := by
  unfold packed at made
  split at made
  · rename_i counted
    split at made
    · split at made
      · cases made
        exact ⟨counted, _, rfl⟩
      · cases made
    · cases made
  · cases made

theorem matches_new_iff (accepts : env.Accepts) {queue : QueueId} {walFile : WalFile} {wal : Option Bytes}
    {walData : WalContent} {file : Bytes} (made : env.packed queue walFile wal = some (walData, file))
    (range : EntryRange) :
    Matches env.config file range ↔ Visible walFile walData ∧
      rangeValues (some range) = entryRange walData.entriesBefore.toNat walData.numEntries.toNat := by
  obtain ⟨-, data, whole⟩ := packed_inv made
  constructor
  · rintro ⟨⟨fs, read, same⟩, ordered⟩
    by_cases inside : FileAuthentication.size + (storeHeaderOf walFile walData).size ≤ rangeWindow
    · obtain ⟨answer, again, values⟩ := readRangeFromFs_layout whole (fun _ => accepts queue _) inside
      rw [read] at again
      cases again
      exact ⟨inside, same.trans values⟩
    · obtain ⟨e, refused⟩ := @readRangeFromFs_cut env.config _ _ _ _ whole inside
      rw [read] at refused
      cases refused
  · rintro ⟨inside, same⟩
    obtain ⟨answer, read, values⟩ := readRangeFromFs_layout whole (fun _ => accepts queue _) inside
    refine ⟨⟨answer, read, same.trans values.symm⟩, ?_⟩
    unfold entryRange at same
    split at same
    · cases same
    · obtain ⟨first, last⟩ := Prod.mk.inj (Option.some.inj same)
      omega

section Steps

variable [DecidableEq φ]

theorem finish_store (s : RangeWorld φ) (queue : QueueId) (fileId : UintN) (walData : WalContent) (file : Bytes)
    (place : φ) : (env.finish s queue fileId walData file).store place =
      if place = env.place queue fileId then some file else s.store place := by
  unfold finish
  dsimp only
  split <;> rfl

/-- With an entry before or in the file, a range is recorded: up to the entry before the next file. -/
theorem finish_records {walData : WalContent} (s : RangeWorld φ) (queue : QueueId) (fileId : UintN) (file : Bytes)
    (some' : 0 < walData.entriesBefore.toNat + walData.numEntries.toNat) :
    ∃ lastId, (env.finish s queue fileId walData file).ranges =
        (RangeStore.key queue fileId, (walData.entriesBefore, lastId)) :: s.ranges ∧
      lastId.toNat = walData.entriesBefore.toNat + walData.numEntries.toNat - 1 := by
  obtain ⟨lastId, computed, value⟩ := UintN.sub_ok (walData.entriesBefore.add walData.numEntries) .one
    (by rw [UintN.toNat_one, UintN.toNat_add]; omega)
  refine ⟨lastId, ?_, by rw [value, UintN.toNat_add, UintN.toNat_one]⟩
  simp only [finish, computed, RangeStore.recordRange]

theorem finish_forgets {walData : WalContent} (s : RangeWorld φ) (queue : QueueId) (fileId : UintN) (file : Bytes)
    (nothing : walData.entriesBefore.toNat + walData.numEntries.toNat = 0) :
    (env.finish s queue fileId walData file).ranges = s.ranges := by
  have under : (walData.entriesBefore.add walData.numEntries).toNat < UintN.one.toNat := by
    rw [UintN.toNat_one, UintN.toNat_add]
    omega
  unfold finish
  dsimp only
  split
  · rename_i lastId computed
    exact absurd computed (UintN.sub_under under lastId)
  · rfl

variable {s : RangeWorld φ}

theorem finish_lookup_other {walData : WalContent} {queue : QueueId} {fileId : UintN} {file : Bytes}
    {key : Text} (other : key ≠ RangeStore.key queue fileId) :
    (env.finish s queue fileId walData file).ranges.lookup key = s.ranges.lookup key := by
  by_cases nothing : walData.entriesBefore.toNat + walData.numEntries.toNat = 0
  · rw [finish_forgets s queue fileId file nothing]
  · obtain ⟨lastId, recorded, -⟩ := @finish_records φ env _ walData s queue fileId file (Nat.pos_of_ne_zero nothing)
    rw [recorded, List.lookup_cons, beq_eq_false_iff_ne.mpr other]

theorem coherent_finish_iff (accepts : env.Accepts) (coherent : env.Coherent s) {queue : QueueId}
    {walFile : WalFile} {wal : Option Bytes} {walData : WalContent} {file : Bytes}
    (made : env.packed queue walFile wal = some (walData, file)) :
    env.Coherent (env.finish s queue walFile.fileId walData file) ↔ env.Recordable s queue walFile walData := by
  have here : (env.finish s queue walFile.fileId walData file).store (env.place queue walFile.fileId) = some file := by
    rw [finish_store, if_pos rfl]
  constructor
  · intro kept
    refine ⟨?_, ?_, ?_⟩
    · intro positive
      obtain ⟨lastId, recorded, -⟩ := @finish_records φ env _ walData s queue walFile.fileId file positive
      have known := kept queue walFile.fileId (walData.entriesBefore, lastId) file
        (by rw [recorded, List.lookup_cons, beq_self_eq_true]) here
      obtain ⟨visible, same⟩ := (matches_new_iff accepts made _).mp known
      refine ⟨Nat.pos_of_ne_zero ?_, visible⟩
      intro empty
      rw [entryRange, if_pos empty] at same
      cases same
    · intro nothing
      cases known : s.ranges.lookup (RangeStore.key queue walFile.fileId) with
      | none => rfl
      | some range =>
        rw [← @finish_forgets φ env _ walData s queue walFile.fileId file nothing] at known
        obtain ⟨-, same⟩ := (matches_new_iff accepts made _).mp (kept queue walFile.fileId range file known here)
        rw [entryRange, if_pos (by omega)] at same
        cases same
    · intro other fileId range different known same
      refine (matches_new_iff accepts made range).mp (kept other fileId range file ?_ (by rw [same, here]))
      rw [finish_lookup_other different, known]
  · intro recordable other fileId range found known stored
    by_cases own : RangeStore.key other fileId = RangeStore.key queue walFile.fileId
    · -- the file of the key is the new one
      rw [place_of_key own, here] at stored
      cases stored
      rw [own] at known
      refine (matches_new_iff accepts made range).mpr ?_
      by_cases nothing : walData.entriesBefore.toNat + walData.numEntries.toNat = 0
      · rw [finish_forgets s queue walFile.fileId file nothing, recordable.unknown nothing] at known
        cases known
      · obtain ⟨positive, visible⟩ := recordable.inhabited (Nat.pos_of_ne_zero nothing)
        obtain ⟨lastId, recorded, value⟩ :=
          @finish_records φ env _ walData s queue walFile.fileId file (Nat.pos_of_ne_zero nothing)
        rw [recorded, List.lookup_cons, beq_self_eq_true] at known
        cases known
        refine ⟨visible, ?_⟩
        rw [entryRange, if_neg (Nat.ne_of_gt positive), ← value]
        rfl
    · rw [finish_lookup_other own] at known
      rw [finish_store] at stored
      by_cases same : env.place other fileId = env.place queue walFile.fileId
      · rw [if_pos same] at stored
        cases stored
        exact (matches_new_iff accepts made range).mpr (recordable.aliases other fileId range own known same)
      · rw [if_neg same] at stored
        exact coherent other fileId range found known stored

omit [DecidableEq φ] in
theorem coherent_getRange (coherent : env.Coherent s) (queue : QueueId) (fileId : UintN) :
    env.Coherent { s with ranges := (env.getRange s queue fileId).2 } := by
  unfold getRange RangeStore.getRange
  split
  · exact coherent
  · split
    · rename_i range read
      intro other otherFile found file known stored
      rw [List.lookup_cons] at known
      by_cases own : RangeStore.key other otherFile = RangeStore.key queue fileId
      · rw [own, beq_self_eq_true] at known
        cases known
        rw [place_of_key own] at stored
        rw [stored] at read
        exact ⟨⟨_, read, rfl⟩, readRangeFromFs_ordered read⟩
      · rw [beq_eq_false_iff_ne.mpr own] at known
        exact coherent other otherFile found file known stored
    · exact coherent
    · exact coherent

theorem coherent_step_iff (accepts : env.Accepts) {next : RangeWorld φ} {event : RangeEvent}
    (coherent : env.Coherent s) (moved : env.step s event = some next) :
    env.Coherent next ↔ env.Meets s event := by
  cases event with
  | getRange queue fileId =>
    cases moved
    exact ⟨fun _ => trivial, fun _ => coherent_getRange coherent queue fileId⟩
  | processEntry queue walFile wal renamed =>
    cases moved
    unfold processEntry
    split
    · rename_i walData file made
      rw [coherent_finish_iff accepts coherent made]
      constructor
      · intro recordable otherData otherFile again _
        rw [made] at again
        cases again
        exact recordable
      · intro meets
        exact meets walData file made rfl
    · rename_i other
      refine ⟨?_, fun _ => coherent⟩
      intro _ walData file made true'
      exact (other walData file made true').elim

/- Every answer in every state of a run is true exactly when every file the worker finishes is recordable. -/
theorem range_cache_truthful_iff (accepts : env.Accepts) (store : φ → Option Bytes) (events : List RangeEvent) :
    Runs.Always env.step env.Truthful (start store) events ↔ Runs.Along env.step env.Meets (start store) events := by
  have empty : env.Coherent (start store) := by
    intro queue fileId range file known
    cases known
  refine Runs.always_iff_along env.Truthful (fun s event => ?_) (fun s event next truthful moved => ?_)
    ((truthful_iff_coherent _).mpr empty) events
  · cases event <;> exact ⟨_, rfl⟩
  · rw [truthful_iff_coherent] at truthful ⊢
    exact coherent_step_iff accepts truthful moved

end Steps

end RangeEnv

namespace Sample

def rangeEnv : RangeEnv Text := ⟨fun _ => 0, plainConfig, fun _ => sealer, "/r".toList, id⟩

def rangeQueue : QueueId := ⟨"/i/q".toList⟩

/-- A WAL file that ends behind its header; five entries are in the files before it. -/
def headerOnly : Bytes := ⟨(WalHeader.mk 8 4 (.u8 5)).writeToBytes, by decide +kernel⟩

end Sample

theorem range_cache_truthful_of_closed :
    Runs.Always Sample.rangeEnv.step Sample.rangeEnv.Truthful (RangeEnv.start (fun _ => none))
      [.processEntry Sample.rangeQueue Sample.closedFile (some Sample.closedBytes) true,
        .getRange Sample.rangeQueue (.u8 1)] := by
  refine (RangeEnv.range_cache_truthful_iff (fun _ _ => rfl) _ _).mpr ⟨?_, trivial, trivial⟩
  intro walData file made _
  have counted : getWalContent (fun _ => 0) (some Sample.closedBytes) = .ok ⟨.zero, .u8 1, Sample.closedBytes⟩ := by
    decide +kernel
  obtain ⟨read, -⟩ := RangeEnv.packed_inv made
  cases counted.symm.trans read
  refine ⟨fun _ => ⟨by decide, show _ ≤ 256 by decide⟩, ?_, ?_⟩
  · rintro ⟨⟩
  · intro other fileId range _ known
    cases known

/- The range recorded for the file is (5, 4), and the file itself has none. -/
theorem range_of_header_only :
    ∃ final, Runs.run Sample.rangeEnv.step (RangeEnv.start (fun _ => none))
        [.processEntry Sample.rangeQueue ⟨.u8 1, .none, .none⟩ (some Sample.headerOnly) true] = some final ∧
      (Sample.rangeEnv.getRange final Sample.rangeQueue (.u8 1)).1 = .ok (some (.u8 5, .u8 4)) ∧
      ∃ file, final.store (Sample.rangeEnv.place Sample.rangeQueue (.u8 1)) = some file ∧
        readRangeFromFs Sample.plainConfig (some file) = .ok none := by
  have evaluated : (Runs.run Sample.rangeEnv.step (RangeEnv.start (fun _ => none))
      [.processEntry Sample.rangeQueue ⟨.u8 1, .none, .none⟩ (some Sample.headerOnly) true]).any (fun final =>
        decide ((Sample.rangeEnv.getRange final Sample.rangeQueue (.u8 1)).1 = .ok (some (.u8 5, .u8 4))) &&
        (final.store (Sample.rangeEnv.place Sample.rangeQueue (.u8 1))).any (fun file =>
          decide (readRangeFromFs Sample.plainConfig (some file) = .ok none))) = true := by
    decide +kernel
  obtain ⟨final, ran, facts⟩ := (Option.any_eq_true _ _).mp evaluated
  obtain ⟨answer, stored⟩ := Bool.and_eq_true_iff.mp facts
  obtain ⟨file, there, read⟩ := (Option.any_eq_true _ _).mp stored
  exact ⟨final, ran, of_decide_eq_true answer, file, there, of_decide_eq_true read⟩

end NormFS
