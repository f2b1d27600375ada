import NormFS.Disk.Changes
import NormFS.Lib.DeferredFile
import NormFS.Lib.Runs
import NormFS.Wal.Content

/-! The worker that moves a closed WAL file into the store: it packs and signs the content, writes it
to a temporary file, renames that into place and then deletes the WAL file. It may fail at every
step, and after a crash anywhere it may be given the same file again. The temporary file carries its
writes out in the background, and the sync before the rename does not tell whether the last one failed. -/
namespace NormFS

open Runs

structure Sealer where
  sign : List UInt8 → List UInt8
  sign_length : ∀ message, (sign message).length = 64
  encrypt : UintN → Bytes → Option (List UInt8 × List UInt8)
  zstdCompress : Bytes → Option Bytes

structure Sealer.Inverse (sealer : Sealer) (codec : Codec) : Prop where
  verify : ∀ message, codec.verify message (sealer.sign message) = true
  nonce : ∀ fileId data nonce cipher, sealer.encrypt fileId data = some (nonce, cipher) → nonce.length = 12
  decrypt : ∀ fileId data nonce cipher, sealer.encrypt fileId data = some (nonce, cipher) →
    codec.decrypt fileId nonce cipher = some data
  decompress : ∀ data packed, sealer.zstdCompress data = some packed →
    codec.zstdDecompress packed.data = some data

structure WalFile where
  fileId : UintN
  compressionType : CompressionType
  encryptionType : EncryptionType

inductive WorkerState where
  | started
  | loaded (walData : WalContent)
  | packed (walData : WalContent) (data : List UInt8)
  | writing (walData : WalContent) (temp : DeferredFile UInt8) (rest : List UInt8)
  | written (walData : WalContent) (temp : Bytes)
  | renamed (walData : WalContent)
  | recorded
  | stopped

/-- The files, the remembered ranges and the worker. The temporary file is in its state, with the bytes
that are still to be handed over to it. -/
structure Migration where
  disk : Disk
  ranges : RangeCache
  worker : WorkerState

inductive WorkerEvent where
  | proceed
  | takeOver (count : Nat)
  | disk (event : DiskEvent)
  | fail
  | restart

section Worker

variable (sealer : Sealer) (walFile : WalFile)

def compress (data : Bytes) : Option Bytes :=
  match walFile.compressionType with
  | .none => some data
  | .zstd => sealer.zstdCompress data
  | _ => none

def encrypt (data : Bytes) : Option (List UInt8) :=
  match walFile.encryptionType with
  | .none => some data.data
  | .aes => (sealer.encrypt walFile.fileId data).map (fun (nonce, ciphertext) => nonce ++ ciphertext)

def maybeCompressAndEncrypt (data : Bytes) : Option (List UInt8) :=
  (compress sealer walFile data).bind (encrypt sealer walFile)

def storeHeaderOf (walData : WalContent) : StoreHeader :=
  ⟨walFile.compressionType, walFile.encryptionType, walData.entriesBefore, walData.numEntries⟩

def fileAuthOf (walData : WalContent) (data : List UInt8) : FileAuthentication :=
  ⟨sealer.sign (storeHeaderOf walFile walData).writeToBytes, sealer.sign data, sealer.sign_length _,
    sealer.sign_length _⟩

def storeFileBytes (walData : WalContent) (data : List UInt8) : List UInt8 :=
  (fileAuthOf sealer walFile walData data).writeToBytes ++
    ((storeHeaderOf walFile walData).writeToBytes ++ data)

/- Each step of the worker. A write to the temporary file gets the error of the one before; the sync
waits for the disk, and the error of the last write is lost with the file handle. -/
def proceed (xxh64 : Hash) (m : Migration) : Option Migration :=
  match m.worker with
  | .started =>
    match getWalContent xxh64 (m.disk.walFile walFile.fileId) with
    | .ok walData => some { m with worker := .loaded walData }
    | _ => some { m with worker := .stopped }
  | .loaded walData =>
    match maybeCompressAndEncrypt sealer walFile walData.content with
    | some data => some { m with worker := .packed walData data }
    | none => some { m with worker := .stopped }
  | .packed walData data =>
    some { m with worker := .writing walData ⟨[], .idle⟩ (storeFileBytes sealer walFile walData data) }
  | .writing walData temp [] =>
    if !temp.isSettled then none
    else if room : temp.content.length < 2 ^ 63 then
      some { m with worker := .written walData ⟨temp.content, room⟩ }
    else some { m with worker := .stopped }
  | .writing _ temp (_ :: _) => if temp.hasFailed then some { m with worker := .stopped } else none
  | .written walData temp =>
    some { m with disk := m.disk.putStore walFile.fileId temp, worker := .renamed walData }
  | .renamed walData =>
    match (walData.entriesBefore.add walData.numEntries).sub .one with
    | .ok lastId => some { m with
        ranges := recordRange m.ranges walFile.fileId walData.entriesBefore lastId
        worker := .recorded }
    | _ => some { m with worker := .stopped }
  | .recorded => some { m with disk := m.disk.deleteWal walFile.fileId, worker := .stopped }
  | .stopped => none

def WorkerState.takeOver (count : Nat) : WorkerState → Option WorkerState
  | .writing walData temp rest =>
    if 0 < count ∧ count ≤ rest.length then
      (temp.takeOver (rest.take count)).map fun temp => .writing walData temp (rest.drop count)
    else none
  | _ => none

def WorkerState.carry (event : DiskEvent) : WorkerState → Option WorkerState
  | .writing walData temp rest => (temp.carry event).map fun temp => .writing walData temp rest
  | _ => none

def Migration.step (xxh64 : Hash) (m : Migration) : WorkerEvent → Option Migration
  | .proceed => proceed sealer walFile xxh64 m
  | .takeOver count => (m.worker.takeOver count).map fun worker => { m with worker := worker }
  | .disk event => (m.worker.carry event).map fun worker => { m with worker := worker }
  | .fail => some { m with worker := .stopped }
  | .restart => some { m with worker := .started }

end Worker

theorem disk_migration {xxh64 : Hash} {sealer : Sealer} {walFile : WalFile}
    {m next : Migration} {event : WorkerEvent} (moved : m.step sealer walFile xxh64 event = some next) :
    next.disk = m.disk ∨ (∃ file, next.disk = m.disk.putStore walFile.fileId file) ∨
      (event = .proceed ∧ m.worker = .recorded ∧ next.disk = m.disk.deleteWal walFile.fileId) := by
  cases event with
  | proceed =>
    change proceed sealer walFile xxh64 m = some next at moved
    unfold proceed at moved
    split at moved
    case h_6 temp here =>
      cases moved
      exact .inr (.inl ⟨temp, rfl⟩)
    case h_8 here =>
      cases moved
      exact .inr (.inr ⟨rfl, here, rfl⟩)
    case h_3 =>
      cases moved
      exact .inl rfl
    case h_9 => cases moved
    case h_4 =>
      split at moved
      · cases moved
      · split at moved <;> cases moved <;> exact .inl rfl
    all_goals
      split at moved <;> cases moved <;> exact .inl rfl
  | takeOver count =>
    obtain ⟨worker, -, rfl⟩ := Option.map_eq_some_iff.mp moved
    exact .inl rfl
  | disk event =>
    obtain ⟨worker, -, rfl⟩ := Option.map_eq_some_iff.mp moved
    exact .inl rfl
  | fail =>
    cases moved
    exact .inl rfl
  | restart =>
    cases moved
    exact .inl rfl

/-- The sync is not a success while a failed write is still to be told. -/
def WorkerState.tells (worker : WorkerState) : WorkerEvent → Bool
  | .proceed =>
    match worker with
    | .writing _ temp [] => !temp.hasFailed
    | _ => true
  | _ => true

/- What a reader gets of a file: from the store, else from the WAL. -/
def cascade (config : StoreConfig) (disk : Disk) (fileId : UintN) (verifySignatures : Bool) :
    Outcome StoreError (Option Bytes) :=
  match PersistStore.getStoreBytes disk fileId with
  | some storeBytes => do
    let walBytes ← extractWalBytes config fileId storeBytes verifySignatures
    pure (some walBytes)
  | none => .ok (WalStore.getWalBytes disk fileId)

section Packing

variable {sealer : Sealer} {config : StoreConfig} {walFile : WalFile} {walData : WalContent}

theorem decrypt_encrypted (inverse : sealer.Inverse config.codec) {plain packed : Bytes}
    (made : encrypt sealer walFile plain = some packed.data) :
    config.codec.decryptContent (storeHeaderOf walFile walData).stored walFile.fileId packed = .ok plain := by
  unfold encrypt at made
  cases kind : walFile.encryptionType with
  | none =>
    rw [kind] at made
    have same : plain = packed := Bytes.ext (Option.some.inj made)
    simp [Codec.decryptContent, StoreHeader.isEncrypted, StoreHeader.stored, storeHeaderOf, kind, same]
  | aes =>
    rw [kind] at made
    obtain ⟨⟨nonce, ciphertext⟩, encrypted, joined⟩ := Option.map_eq_some_iff.mp made
    have twelve := inverse.nonce _ _ _ _ encrypted
    have plainOf := inverse.decrypt _ _ _ _ encrypted
    have long : ¬ packed.length < 12 := by
      rw [Bytes.length, ← joined, List.length_append]
      omega
    simp [Codec.decryptContent, StoreHeader.isEncrypted, StoreHeader.stored, storeHeaderOf, kind, long, ← joined,
      List.take_left' twelve, List.drop_left' twelve, plainOf]

theorem decompress_compressed {codec : Codec} (undo : ∀ data packed, sealer.zstdCompress data = some packed →
      codec.zstdDecompress packed.data = some data) {header : StoreHeader} {plain packed : Bytes}
    (tag : header.compression = walFile.compressionType) (made : compress sealer walFile plain = some packed) :
    codec.decompressContent header packed = .ok plain := by
  unfold compress at made
  unfold Codec.decompressContent
  rw [tag]
  cases kind : walFile.compressionType with
  | none =>
    rw [kind] at made
    cases made
    rfl
  | zstd =>
    rw [kind] at made
    simp only [undo _ _ made]
  | gzip =>
    rw [kind] at made
    cases made
  | xz =>
    rw [kind] at made
    cases made

/- What the worker writes is a complete store file, whether or not a reader checks signatures. -/
theorem storeFile_written (inverse : sealer.Inverse config.codec) {data : List UInt8} {file : Bytes}
    (made : maybeCompressAndEncrypt sealer walFile walData.content = some data)
    (whole : file.data = storeFileBytes sealer walFile walData data) (verifySignatures : Bool) :
    extractWalBytes config walFile.fileId file verifySignatures = .ok walData.content := by
  obtain ⟨processed, compressed, encrypted⟩ := Option.bind_eq_some_iff.mp made
  have room := file.addressable
  have authLength := FileAuthentication.length_writeToBytes (fileAuthOf sealer walFile walData data)
  have headerLength := StoreHeader.length_writeToBytes (storeHeaderOf walFile walData)
  rw [whole, storeFileBytes, List.length_append, List.length_append, headerLength, StoreHeader.size] at room
  have fits : (storeHeaderOf walFile walData).Addressable := ⟨by omega, by omega⟩
  have afterAuth : (file.drop FileAuthentication.size).data =
      (storeHeaderOf walFile walData).writeToBytes ++ data := by
    rw [Bytes.data_drop, whole, storeFileBytes, List.drop_left' authLength]
  have content : ((file.drop FileAuthentication.size).drop (storeHeaderOf walFile walData).size).data = data := by
    rw [Bytes.data_drop, afterAuth, List.drop_left' headerLength]
  have plain := @decrypt_encrypted sealer config walFile walData inverse processed
    ((file.drop FileAuthentication.size).drop (storeHeaderOf walFile walData).size) (by rw [content]; exact encrypted)
  have verified : (verifySignatures && !(config.codec.verify (storeHeaderOf walFile walData).writeToBytes
      (fileAuthOf sealer walFile walData data).headerSignature &&
      config.codec.verify data (fileAuthOf sealer walFile walData data).contentSignature)) = false := by
    rw [fileAuthOf, inverse.verify, inverse.verify]
    simp
  rw [extractWalBytes, whole, storeFileBytes, FileAuthentication.fromBytes_append]
  simp only [Outcome.ofExcept_ok, Outcome.mapErr_ok, Outcome.ok_bind, afterAuth,
    StoreHeader.fromBytes_append _ fits, List.take_left' headerLength, content, verified, Bool.false_eq_true,
    if_false, plain]
  exact decompress_compressed inverse.decompress rfl compressed

end Packing

structure Migrated (xxh64 : Hash) (config : StoreConfig) (fileId : UintN) (wal file : Bytes) :
    Prop where
  content : ∀ verifySignatures, extractWalBytes config fileId file verifySignatures = .ok wal
  header : ∃ header before count, StoreFile config fileId file wal header ∧ Tally xxh64 wal before count ∧
    header.numEntriesBefore.toNat = before ∧ header.numEntries.toNat = count

theorem StoreFile.decoded {config : StoreConfig} {fileId : UintN} {file wal : Bytes} {header : StoreHeader}
    (complete : StoreFile config fileId file wal header) :
    StoreHeader.fromBytes (file.data.drop FileAuthentication.size) = .ok (header.stored, header.size) := by
  obtain ⟨auth, body, split, -⟩ := complete.layout
  rw [split, List.drop_left' (FileAuthentication.length_writeToBytes auth)]
  exact StoreHeader.fromBytes_append header complete.addressable body

theorem readRangeFromFs_of_rangeOf {config : StoreConfig} {file : Option Bytes} {range : EntryRange}
    (read : rangeOf config file = .ok (some range)) : readRangeFromFs config file = .ok (some range) := by
  unfold rangeOf at read
  split at read
  · cases read
  · exact read

section Migrating

variable {xxh64 : Hash} {sealer : Sealer} {config : StoreConfig} {walFile : WalFile}
  {wal : Bytes}

variable {walData : WalContent} {m : Migration}

theorem migrated_written (inverse : sealer.Inverse config.codec) {data : List UInt8}
    {file : Bytes} (loaded : getWalContent xxh64 (some wal) = .ok walData)
    (made : maybeCompressAndEncrypt sealer walFile walData.content = some data)
    (whole : file.data = storeFileBytes sealer walFile walData data) :
    Migrated xxh64 config walFile.fileId wal file := by
  obtain ⟨same, tally⟩ := getWalContent_tally loaded
  have content := storeFile_written inverse made whole
  rw [same] at content
  refine ⟨content, storeHeaderOf walFile walData, _, _, ⟨⟨_, _, whole, ?_⟩, content _⟩, tally, rfl, rfl⟩
  intro _
  exact inverse.verify _

/-- What the worker knows at each of its steps. -/
def WorkerState.Sound (xxh64 : Hash) (sealer : Sealer) (config : StoreConfig)
    (walFile : WalFile) (wal : Bytes) (disk : Disk) : WorkerState → Prop
  | .started => True
  | .loaded walData => getWalContent xxh64 (some wal) = .ok walData
  | .packed walData data => getWalContent xxh64 (some wal) = .ok walData ∧
      maybeCompressAndEncrypt sealer walFile walData.content = some data
  | .writing walData temp rest => getWalContent xxh64 (some wal) = .ok walData ∧
      ∃ data, maybeCompressAndEncrypt sealer walFile walData.content = some data ∧
        (temp.hasFailed = false → temp.promised ++ rest = storeFileBytes sealer walFile walData data)
  | .written _ temp => Migrated xxh64 config walFile.fileId wal temp
  | .renamed _ => (disk.storeFile walFile.fileId).isSome
  | .recorded => (disk.storeFile walFile.fileId).isSome
  | .stopped => True

structure Migration.Safe (xxh64 : Hash) (sealer : Sealer) (config : StoreConfig)
    (walFile : WalFile) (wal : Bytes) (m : Migration) : Prop where
  inWal : ∀ file, m.disk.walFile walFile.fileId = some file → file = wal
  inStore : ∀ file, m.disk.storeFile walFile.fileId = some file → Migrated xxh64 config walFile.fileId wal file
  somewhere : (m.disk.walFile walFile.fileId).isSome ∨ (m.disk.storeFile walFile.fileId).isSome
  worker : m.worker.Sound xxh64 sealer config walFile wal m.disk

theorem Migration.Safe.start (started : m.worker = .started)
    (closed : m.disk.walFile walFile.fileId = some wal) (unmoved : m.disk.storeFile walFile.fileId = none) :
    m.Safe xxh64 sealer config walFile wal where
  inWal := by
    intro file found
    exact Option.some.inj (found.symm.trans closed)
  inStore := by
    intro file found
    cases unmoved.symm.trans found
  somewhere := .inl (Option.isSome_iff_exists.mpr ⟨wal, closed⟩)
  worker := by
    rw [started]
    trivial

theorem Migration.Safe.goto (safe : m.Safe xxh64 sealer config walFile wal) (worker : WorkerState)
    (sound : worker.Sound xxh64 sealer config walFile wal m.disk) (ranges : RangeCache) :
    Migration.Safe xxh64 sealer config walFile wal ⟨m.disk, ranges, worker⟩ :=
  ⟨safe.inWal, safe.inStore, safe.somewhere, sound⟩

/-- What the disk has of the temporary file, once all of it is handed over and no failure is pending,
is the whole file. -/
theorem migrated_synced (inverse : sealer.Inverse config.codec)
    {temp : DeferredFile UInt8} {disk : Disk}
    (sound : (WorkerState.writing walData temp []).Sound xxh64 sealer config walFile wal disk)
    (settled : temp.isSettled = true) (told : temp.hasFailed = false)
    (room : temp.content.length < 2 ^ 63) :
    Migrated xxh64 config walFile.fileId wal ⟨temp.content, room⟩ := by
  obtain ⟨loaded, data, made, whole⟩ := sound
  have content := whole told
  rw [List.append_nil, DeferredFile.promised_of_settled settled] at content
  exact migrated_written inverse loaded made content

section

variable (safe : m.Safe xxh64 sealer config walFile wal)

include safe

theorem Migration.Safe.loads (loaded : getWalContent xxh64 (m.disk.walFile walFile.fileId) = .ok walData) :
    getWalContent xxh64 (some wal) = .ok walData := by
  cases found : m.disk.walFile walFile.fileId with
  | none =>
    rw [found] at loaded
    cases loaded
  | some file =>
    rw [found, safe.inWal file found] at loaded
    exact loaded

theorem Migration.Safe.rename
    (walData : WalContent) {temp : Bytes} (whole : Migrated xxh64 config walFile.fileId wal temp) :
    Migration.Safe xxh64 sealer config walFile wal
      { m with disk := m.disk.putStore walFile.fileId temp, worker := .renamed walData } := by
  have there : ((m.disk.putStore walFile.fileId temp).storeFile walFile.fileId).isSome := by
    rw [Disk.storeFile_putStore]
    rfl
  refine ⟨safe.inWal, ?_, .inr there, there⟩
  intro file found
  rw [Disk.storeFile_putStore] at found
  cases found
  exact whole

theorem Migration.Safe.delete
    (there : (m.disk.storeFile walFile.fileId).isSome) : Migration.Safe xxh64 sealer config walFile wal
      { m with disk := m.disk.deleteWal walFile.fileId, worker := .stopped } := by
  refine ⟨?_, safe.inStore, .inr there, trivial⟩
  intro file found
  rw [Disk.walFile_deleteWal] at found
  cases found

end

theorem Migration.Safe.proceed (inverse : sealer.Inverse config.codec) {next : Migration}
    (safe : m.Safe xxh64 sealer config walFile wal) (told : m.worker.tells .proceed = true)
    (moved : proceed sealer walFile xxh64 m = some next) :
    next.Safe xxh64 sealer config walFile wal := by
  have sound := safe.worker
  unfold NormFS.proceed at moved
  cases here : m.worker with
  | started =>
    simp only [here] at moved
    split at moved <;> cases moved
    · rename_i walData loaded
      exact safe.goto (.loaded walData) (safe.loads loaded) _
    · exact safe.goto .stopped trivial _
  | loaded walData =>
    rw [here] at sound
    simp only [here] at moved
    split at moved <;> cases moved
    · rename_i data made
      exact safe.goto (.packed walData data) ⟨sound, made⟩ _
    · exact safe.goto .stopped trivial _
  | packed walData data =>
    rw [here] at sound
    simp only [here] at moved
    cases moved
    exact safe.goto (.writing walData ⟨[], .idle⟩ _) ⟨sound.1, data, sound.2, fun _ => rfl⟩ _
  | writing walData temp rest =>
    rw [here] at sound told
    cases rest with
    | nil =>
      simp only [here] at moved
      split at moved
      · cases moved
      · rename_i settled
        have settled : temp.isSettled = true := by simpa using settled
        split at moved <;> cases moved
        · refine safe.goto (.written walData ⟨_, _⟩) (migrated_synced inverse sound settled ?_ _) _
          simpa [WorkerState.tells] using told
        · exact safe.goto .stopped trivial _
    | cons byte rest =>
      simp only [here] at moved
      split at moved <;> cases moved
      exact safe.goto .stopped trivial _
  | written walData temp =>
    rw [here] at sound
    simp only [here] at moved
    cases moved
    exact safe.rename walData sound
  | renamed walData =>
    rw [here] at sound
    simp only [here] at moved
    split at moved <;> cases moved
    · exact safe.goto .recorded sound _
    · exact safe.goto .stopped trivial _
  | recorded =>
    rw [here] at sound
    simp only [here] at moved
    cases moved
    exact safe.delete sound
  | stopped =>
    simp only [here] at moved
    cases moved

theorem WorkerState.Sound.takeOver {worker after : WorkerState} {disk : Disk} {count : Nat}
    (sound : worker.Sound xxh64 sealer config walFile wal disk)
    (taken : worker.takeOver count = some after) :
    after.Sound xxh64 sealer config walFile wal disk := by
  unfold WorkerState.takeOver at taken
  split at taken
  · split at taken
    · obtain ⟨temp, handed, rfl⟩ := Option.map_eq_some_iff.mp taken
      obtain ⟨loaded, data, made, whole⟩ := sound
      obtain ⟨told, -, -, promised⟩ := DeferredFile.takeOver_spec handed
      refine ⟨loaded, data, made, fun _ => ?_⟩
      rw [promised, List.append_assoc, List.take_append_drop]
      exact whole told
    · cases taken
  · cases taken

theorem WorkerState.Sound.carry {worker after : WorkerState} {disk : Disk} {event : DiskEvent}
    (sound : worker.Sound xxh64 sealer config walFile wal disk)
    (carried : worker.carry event = some after) :
    after.Sound xxh64 sealer config walFile wal disk := by
  unfold WorkerState.carry at carried
  split at carried
  · obtain ⟨temp, moved, rfl⟩ := Option.map_eq_some_iff.mp carried
    obtain ⟨loaded, data, made, whole⟩ := sound
    refine ⟨loaded, data, made, fun told' => ?_⟩
    cases event with
    | wrote count =>
      obtain ⟨told, -, -, promised⟩ := DeferredFile.carry_wrote moved
      rw [promised]
      exact whole told
    | failed =>
      obtain ⟨-, failed, -, -⟩ := DeferredFile.carry_failed moved
      exact absurd (failed.symm.trans told') (by decide)
  · cases carried

theorem Migration.Safe.step (inverse : sealer.Inverse config.codec) {next : Migration}
    {event : WorkerEvent} (safe : m.Safe xxh64 sealer config walFile wal)
    (told : m.worker.tells event = true) (moved : m.step sealer walFile xxh64 event = some next) :
    next.Safe xxh64 sealer config walFile wal := by
  cases event with
  | proceed => exact safe.proceed inverse told moved
  | takeOver count =>
    obtain ⟨worker, taken, rfl⟩ := Option.map_eq_some_iff.mp moved
    exact safe.goto worker (safe.worker.takeOver taken) _
  | disk event =>
    obtain ⟨worker, carried, rfl⟩ := Option.map_eq_some_iff.mp moved
    exact safe.goto worker (safe.worker.carry carried) _
  | fail =>
    cases moved
    exact safe.goto .stopped trivial _
  | restart =>
    cases moved
    exact safe.goto .started trivial _

/-- Readers get the file from one complete copy or from the other. -/
theorem Migration.Safe.cascade (safe : m.Safe xxh64 sealer config walFile wal)
    (verifySignatures : Bool) :
    NormFS.cascade config m.disk walFile.fileId verifySignatures = .ok (some wal) := by
  unfold NormFS.cascade PersistStore.getStoreBytes WalStore.getWalBytes
  cases store : m.disk.storeFile walFile.fileId with
  | some file =>
    simp only [(safe.inStore file store).content, Outcome.ok_bind, Outcome.pure_eq_ok]
  | none =>
    cases found : m.disk.walFile walFile.fileId with
    | some file => rw [safe.inWal file found]
    | none =>
      have somewhere := safe.somewhere
      rw [store, found] at somewhere
      simp at somewhere

/- As long as no sync hides the failure of a write, a failure or a crash at any step, and any number of
new attempts after it, leave the content of the file readable; and a store file that is in place has
the right range in its header. -/
theorem migration_preserves_content (inverse : sealer.Inverse config.codec) {start final : Migration}
    {events : List WorkerEvent} (started : start.worker = .started)
    (closed : start.disk.walFile walFile.fileId = some wal)
    (unmoved : start.disk.storeFile walFile.fileId = none)
    (ran : Runs.run (Migration.step sealer walFile xxh64) start events = some final)
    (told : Along (Migration.step sealer walFile xxh64) (fun m event => m.worker.tells event) start
      events) :
    (∀ verifySignatures, cascade config final.disk walFile.fileId verifySignatures = .ok (some wal)) ∧
    ∀ file, final.disk.storeFile walFile.fileId = some file →
      ∃ header size before count,
        StoreHeader.fromBytes (file.data.drop FileAuthentication.size) = .ok (header, size) ∧
        Tally xxh64 wal before count ∧
        header.numEntriesBefore.toNat = before ∧ header.numEntries.toNat = count ∧
        (0 < count → FileAuthentication.size + size ≤ rangeWindow → ∃ first last,
          readRangeFromFs config (some file) = .ok (some (first, last)) ∧
          first.toNat = before ∧ last.toNat = before + count - 1) := by
  have always := run_invariant (Migration.Safe xxh64 sealer config walFile wal)
    (fun _ _ _ safe told moved => safe.step inverse told moved) (.start started closed unmoved) told ran
  refine ⟨always.cascade, ?_⟩
  intro file found
  obtain ⟨header, before, count, complete, tally, sameBefore, sameCount⟩ := (always.inStore file found).header
  refine ⟨header.stored, header.size, before, count, complete.decoded, tally, ?_, ?_, ?_⟩
  · rw [← sameBefore]
    exact UintN.toNat_stored _ (Nat.le_refl _)
  · rw [← sameCount]
    exact UintN.toNat_stored _ (Nat.le_refl _)
  · intro inhabited inside
    obtain ⟨first, last, read, firstIs, lastIs⟩ := complete.readRange inside (by omega)
    exact ⟨first, last, readRangeFromFs_of_rangeOf read, by omega, by omega⟩

end Migrating

namespace Sample

/- Keys that hide nothing: the compressor puts a byte in front, the cipher a nonce. -/
def sealer : Sealer where
  sign := fun _ => List.replicate 64 0
  sign_length := fun _ => rfl
  encrypt := fun _ data => some (List.replicate 12 0, data.data)
  zstdCompress := fun data =>
    if room : (1 :: data.data).length < 2 ^ 63 then some ⟨1 :: data.data, room⟩ else none

def plainConfig : StoreConfig where
  codec :=
    { verify := fun _ signature => signature == List.replicate 64 0
      decrypt := fun _ _ cipher => if room : cipher.length < 2 ^ 63 then some ⟨cipher, room⟩ else none
      zstdDecompress := fun data => if room : (data.drop 1).length < 2 ^ 63 then some ⟨data.drop 1, room⟩ else none
      xzDecompress := fun _ => none }
  verifySignatures := true

theorem sealer_inverse : sealer.Inverse plainConfig.codec where
  verify := fun _ => rfl
  nonce := by
    rintro _ _ _ _ ⟨⟩
    rfl
  decrypt := by
    rintro _ data _ _ ⟨⟩
    exact dif_pos data.addressable
  decompress := by
    intro data packed made
    simp only [sealer] at made
    split at made
    · cases made
      exact dif_pos data.addressable
    · cases made

def closedFile : WalFile := ⟨.ofUbig 1, .zstd, .aes⟩

def closedBytes : Bytes :=
  ⟨WalHeader.default.writeToBytes ++ entryBytes (fun _ => 0) WalHeader.default .zero .empty, by decide +kernel⟩

def closed : Migration := ⟨⟨[((UintN.ofUbig 1).toFilePath walExtension, closedBytes)], []⟩, [], .started⟩

/-- The content is packed, and the signatures and the header of the store file are written. -/
def headerWritten : List WorkerEvent :=
  [.proceed, .proceed, .proceed, .takeOver 152, .disk (.wrote 152), .takeOver 42, .disk (.wrote 42)]

/-- All of it is. -/
def written : List WorkerEvent := headerWritten ++ [.takeOver 74, .disk (.wrote 74)]

end Sample

/- The write of the content fails. The sync is a success all the same, so the file is renamed without
its content, and the WAL file is deleted. -/
theorem truncated_store_file_renamed : ∃ final,
    Runs.run (Migration.step Sample.sealer Sample.closedFile (fun _ => 0)) Sample.closed
      (Sample.headerWritten ++ [.takeOver 74, .disk .failed, .proceed, .proceed, .proceed, .proceed]) =
        some final ∧
    (final.disk.walFile (.ofUbig 1)).isNone ∧ (final.disk.storeFile (.ofUbig 1)).isSome ∧
    ∀ verifySignatures, cascade Sample.plainConfig final.disk (.ofUbig 1) verifySignatures ≠
      .ok (some Sample.closedBytes) := by
  have evaluated : (Runs.run (Migration.step Sample.sealer Sample.closedFile (fun _ => 0)) Sample.closed
      (Sample.headerWritten ++ [.takeOver 74, .disk .failed, .proceed, .proceed, .proceed,
        .proceed])).any (fun final => (final.disk.walFile (.ofUbig 1)).isNone &&
        (final.disk.storeFile (.ofUbig 1)).isSome &&
        decide (∀ verifySignatures, cascade Sample.plainConfig final.disk (.ofUbig 1) verifySignatures ≠
          .ok (some Sample.closedBytes))) = true := by
    decide +kernel
  obtain ⟨final, ran, facts⟩ := (Option.any_eq_true _ _).mp evaluated
  simp only [Bool.and_eq_true, decide_eq_true_eq] at facts
  exact ⟨final, ran, facts.1.1, facts.1.2, facts.2⟩

/- The file is compressed, encrypted, written, renamed and recorded, and the WAL file is deleted. -/
theorem migration_preserves_content_in_order : ∃ final,
    Runs.run (Migration.step Sample.sealer Sample.closedFile (fun _ => 0)) Sample.closed
      (Sample.written ++ [.proceed, .proceed, .proceed, .proceed]) = some final ∧
    (final.disk.walFile (.ofUbig 1)).isNone ∧ (final.disk.storeFile (.ofUbig 1)).isSome ∧
    cascade Sample.plainConfig final.disk (.ofUbig 1) true = .ok (some Sample.closedBytes) := by
  have evaluated : (Runs.run (Migration.step Sample.sealer Sample.closedFile (fun _ => 0)) Sample.closed
      (Sample.written ++ [.proceed, .proceed, .proceed, .proceed])).any (fun final => (final.disk.walFile (.ofUbig 1)).isNone &&
        (final.disk.storeFile (.ofUbig 1)).isSome) = true := by
    decide +kernel
  obtain ⟨final, ran, facts⟩ := (Option.any_eq_true _ _).mp evaluated
  obtain ⟨gone, there⟩ := Bool.and_eq_true_iff.mp facts
  have present : Sample.closed.disk.walFile Sample.closedFile.fileId = some Sample.closedBytes := by
    decide +kernel
  have kept := migration_preserves_content Sample.sealer_inverse rfl present rfl ran (by decide +kernel)
  exact ⟨final, ran, gone, there, kept.1 true⟩

end NormFS
