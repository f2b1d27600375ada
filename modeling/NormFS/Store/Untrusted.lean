import NormFS.Crypto
import NormFS.Store.Worker

/-! Store files from a bucket that is not trusted. Header and content are signed apart, under one key for all
queues and files, and neither signature names the file; so the bucket may answer with any signed string for the
header and any other for the content. -/
namespace NormFS

structure InstanceKeys where
  sign : List UInt8 → List UInt8
  sign_length : ∀ message, (sign message).length = 64
  verify : List UInt8 → List UInt8 → Bool
  encrypt : QueueId → UintN → Bytes → Option (List UInt8 × List UInt8)
  decrypt : QueueId → UintN → List UInt8 → List UInt8 → Option Bytes
  zstdCompress : Bytes → Option Bytes
  zstdDecompress : List UInt8 → Option Bytes
  xzDecompress : List UInt8 → Option Bytes

namespace InstanceKeys

def sealer (keys : InstanceKeys) (queue : QueueId) : Sealer :=
  ⟨keys.sign, keys.sign_length, keys.encrypt queue, keys.zstdCompress⟩

def codec (keys : InstanceKeys) (queue : QueueId) : Codec :=
  ⟨keys.verify, keys.decrypt queue, keys.zstdDecompress, keys.xzDecompress⟩

end InstanceKeys

structure Written (keys : InstanceKeys) where
  queue : QueueId
  walFile : WalFile
  walData : WalContent
  compressed : Bytes
  data : List UInt8
  compress_eq : compress (keys.sealer queue) walFile walData.content = some compressed
  encrypt_eq : encrypt (keys.sealer queue) walFile compressed = some data
  room : (storeFileBytes (keys.sealer queue) walFile walData data).length < 2 ^ 63

section Untrusted

variable {keys : InstanceKeys}

def Written.header (file : Written keys) : StoreHeader := storeHeaderOf file.walFile file.walData

theorem Written.lengths (file : Written keys) : file.header.Addressable ∧ file.data.length < 2 ^ 63 := by
  have bound := file.room
  rw [storeFileBytes, List.length_append, List.length_append, StoreHeader.length_writeToBytes, StoreHeader.size] at bound
  refine ⟨⟨?_, ?_⟩, by omega⟩
  · unfold Written.header
    omega
  · unfold Written.header
    omega

def signedBy (history : List (Written keys)) : List (List UInt8) :=
  history.flatMap (fun file => [file.header.writeToBytes, file.data])

structure Written.UnderKey (file : Written keys) (queue : QueueId) (fileId : UintN) : Prop where
  encrypted : file.walFile.encryptionType = .aes
  key : keyInfo file.queue file.walFile.fileId = keyInfo queue fileId

/- What is assumed of the cryptography: signatures are accepted exactly for what was signed, and a key opens
exactly what was encrypted under it. -/
structure Unforgeable (keys : InstanceKeys) (history : List (Written keys)) : Prop where
  verify : ∀ message signature,
    keys.verify message signature = true ↔ message ∈ signedBy history ∧ signature = keys.sign message
  nonce : ∀ queue fileId plain nonce cipher, keys.encrypt queue fileId plain = some (nonce, cipher) → nonce.length = 12
  decrypt : ∀ queue fileId nonce cipher plain, keys.decrypt queue fileId nonce cipher = some plain ↔
    ∃ file ∈ history, file.UnderKey queue fileId ∧
      keys.encrypt file.queue file.walFile.fileId file.compressed = some (nonce, cipher) ∧ file.compressed = plain

/-- Content the instance migrated for this queue and file. -/
def MigratedFor (history : List (Written keys)) (queue : QueueId) (fileId : UintN) (content : Bytes) : Prop :=
  ∃ file ∈ history, file.queue = queue ∧ file.walFile.fileId.toNat = fileId.toNat ∧ file.walData.content = content

structure SignedHeader (history : List (Written keys)) (header : StoreHeader) (bytes : List UInt8) : Prop where
  signed : bytes ∈ signedBy history
  reads : StoreHeader.fromBytes bytes = .ok (header, bytes.length)

/-- Both parts find room in one file. -/
def OneFile (header content : List UInt8) : Prop :=
  FileAuthentication.size + header.length + content.length < 2 ^ 63

/- No header and content the instance signed give, put together, anything but content of this queue and file.
Under a header without encryption every signed string is content; under one with encryption only the files
under the key of this queue and file are. -/
structure Separated (history : List (Written keys)) (queue : QueueId) (fileId : UintN) : Prop where
  plain : ∀ header bytes content restored, SignedHeader history header bytes → header.encryption = .none →
    content.data ∈ signedBy history → OneFile bytes content.data →
    (keys.codec queue).decompressContent header content = .ok restored →
    MigratedFor history queue fileId restored
  encrypted : ∀ header bytes file restored, SignedHeader history header bytes → header.encryption = .aes →
    file ∈ history → file.UnderKey queue fileId → OneFile bytes file.data →
    (keys.codec queue).decompressContent header file.compressed = .ok restored →
    MigratedFor history queue fileId restored

theorem Written.data_eq {history : List (Written keys)} (unforgeable : Unforgeable keys history)
    {file : Written keys} (encrypted : file.walFile.encryptionType = .aes) :
    ∃ nonce cipher, keys.encrypt file.queue file.walFile.fileId file.compressed = some (nonce, cipher) ∧
      file.data = nonce ++ cipher ∧ nonce.length = 12 := by
  have made := file.encrypt_eq
  unfold encrypt at made
  rw [encrypted] at made
  obtain ⟨⟨nonce, cipher⟩, sealed', joined⟩ := Option.map_eq_some_iff.mp made
  exact ⟨nonce, cipher, sealed', joined.symm, unforgeable.nonce _ _ _ _ _ sealed'⟩

theorem data_signed {history : List (Written keys)} {file : Written keys} (member : file ∈ history) :
    file.data ∈ signedBy history :=
  List.mem_flatMap.mpr ⟨file, member, by simp⟩

section Reader

variable {codec : Codec} {fileId : UintN} {restored : Bytes}

/-- What a reader that checks signatures has read: a header and a content, each with a signature of its own. -/
theorem extractWalBytes_inv {config : StoreConfig} {answer : Bytes}
    (read : extractWalBytes config fileId answer true = .ok restored) :
    ∃ (auth : FileAuthentication) (header : StoreHeader) (bytes : List UInt8) (content plain : Bytes),
      OneFile bytes content.data ∧ config.codec.verify bytes auth.headerSignature = true ∧
      config.codec.verify content.data auth.contentSignature = true ∧
      StoreHeader.fromBytes bytes = .ok (header, bytes.length) ∧
      config.codec.decryptContent header fileId content = .ok plain ∧
      config.codec.decompressContent header plain = .ok restored := by
  unfold extractWalBytes at read
  obtain ⟨⟨auth, authSize⟩, readAuth, read⟩ := Outcome.bind_eq_ok.mp read
  obtain ⟨⟨header, headerSize⟩, readHeader, read⟩ := Outcome.bind_eq_ok.mp read
  obtain ⟨rfl, enough⟩ := FileAuthentication.fromBytes_inv (Outcome.ofExcept_eq_ok.mp (Outcome.mapErr_eq_ok.mp readAuth))
  replace readHeader := Outcome.mapErr_eq_ok.mp readHeader
  obtain ⟨inside, again⟩ := StoreHeader.fromBytes_local readHeader
  have length : ((answer.drop FileAuthentication.size).data.take headerSize).length = headerSize := by
    rw [List.length_take]
    omega
  dsimp only at read
  split at read
  · cases read
  · rename_i checked
    obtain ⟨plain, decrypted, decompressed⟩ := Outcome.bind_eq_ok.mp read
    have both : (config.codec.verify ((answer.drop FileAuthentication.size).data.take headerSize) auth.headerSignature &&
        config.codec.verify ((answer.drop FileAuthentication.size).drop headerSize).data auth.contentSignature) = true := by
      simpa using checked
    obtain ⟨first, second⟩ := Bool.and_eq_true_iff.mp both
    refine ⟨auth, header, _, _, plain, ?_, first, second, ?_, decrypted, decompressed⟩
    · have bound := answer.addressable
      rw [OneFile, length, Bytes.data_drop, List.length_drop, Bytes.data_drop, List.length_drop]
      rw [Bytes.data_drop, List.length_drop] at inside
      omega
    · rw [length]
      simpa using again []

theorem extractWalBytes_joined {config : StoreConfig} {auth : FileAuthentication} {header : StoreHeader}
    {bytes : List UInt8} {content plain : Bytes} (oneFile : OneFile bytes content.data)
    (headerSigned : config.codec.verify bytes auth.headerSignature = true)
    (contentSigned : config.codec.verify content.data auth.contentSignature = true)
    (reads : StoreHeader.fromBytes bytes = .ok (header, bytes.length))
    (decrypted : config.codec.decryptContent header fileId content = .ok plain)
    (decompressed : config.codec.decompressContent header plain = .ok restored) :
    ∃ answer, extractWalBytes config fileId answer true = .ok restored := by
  have authLength := FileAuthentication.length_writeToBytes auth
  have room : (auth.writeToBytes ++ (bytes ++ content.data)).length < 2 ^ 63 := by
    rw [List.length_append, List.length_append, authLength]
    rw [OneFile] at oneFile
    omega
  refine ⟨⟨auth.writeToBytes ++ (bytes ++ content.data), room⟩, ?_⟩
  have afterAuth : ((⟨auth.writeToBytes ++ (bytes ++ content.data), room⟩ : Bytes).drop FileAuthentication.size).data =
      bytes ++ content.data := by
    rw [Bytes.data_drop, List.drop_left' authLength]
  have rest : ((⟨auth.writeToBytes ++ (bytes ++ content.data), room⟩ : Bytes).drop FileAuthentication.size).drop
      bytes.length = content := by
    apply Bytes.ext
    rw [Bytes.data_drop, afterAuth, List.drop_left' rfl]
  have joined : StoreHeader.fromBytes (bytes ++ content.data) = .ok (header, bytes.length) := by
    have again := (StoreHeader.fromBytes_local reads).2 content.data
    rwa [List.take_length] at again
  rw [extractWalBytes, FileAuthentication.fromBytes_append]
  simp only [Outcome.ofExcept_ok, Outcome.mapErr_ok, Outcome.ok_bind, afterAuth, joined, List.take_left' rfl, rest,
    headerSigned, contentSigned, Bool.and_self, Bool.not_true, Bool.and_false, Bool.false_eq_true, if_false, decrypted]
  exact decompressed

theorem decryptContent_plain {header : StoreHeader} (tag : header.encryption = .none) (content : Bytes) :
    codec.decryptContent header fileId content = .ok content := by
  simp [Codec.decryptContent, StoreHeader.isEncrypted, tag]

theorem decryptContent_encrypted {header : StoreHeader} (tag : header.encryption = .aes) {content plain : Bytes} :
    codec.decryptContent header fileId content = .ok plain ↔
      12 ≤ content.length ∧ codec.decrypt fileId (content.data.take 12) (content.data.drop 12) = some plain := by
  have encrypted : header.isEncrypted = true := by simp [StoreHeader.isEncrypted, tag]
  unfold Codec.decryptContent
  rw [if_pos encrypted]
  split
  · rename_i short
    constructor
    · rintro ⟨⟩
    · rintro ⟨long, -⟩
      omega
  · rename_i long
    cases opened : codec.decrypt fileId (content.data.take 12) (content.data.drop 12) with
    | none => simp
    | some found => simp [Nat.le_of_not_lt long]

end Reader

variable {history : List (Written keys)} {queue : QueueId} {fileId : UintN}

theorem decryptContent_history (unforgeable : Unforgeable keys history) {header : StoreHeader}
    (tag : header.encryption = .aes) {content plain : Bytes} :
    (keys.codec queue).decryptContent header fileId content = .ok plain ↔
      ∃ file ∈ history, file.UnderKey queue fileId ∧ file.data = content.data ∧ file.compressed = plain := by
  rw [decryptContent_encrypted tag]
  constructor
  · rintro ⟨long, opened⟩
    obtain ⟨file, member, under, made, same⟩ := (unforgeable.decrypt _ _ _ _ _).mp opened
    obtain ⟨nonce, cipher, again, data, -⟩ := Written.data_eq unforgeable under.encrypted
    rw [made] at again
    cases again
    exact ⟨file, member, under, by rw [data, List.take_append_drop], same⟩
  · rintro ⟨file, member, under, data, same⟩
    obtain ⟨nonce, cipher, made, joined, twelve⟩ := Written.data_eq unforgeable under.encrypted
    rw [data] at joined
    refine ⟨?_, (unforgeable.decrypt _ _ _ _ _).mpr ⟨file, member, under, ?_, same⟩⟩
    · rw [Bytes.length, joined, List.length_append]
      omega
    · rw [joined, List.take_left' twelve, List.drop_left' twelve, made]

/- Whatever the bucket answers for a queue and a file, a reader that checks signatures gets content of that
queue and file or an error: exactly when headers and contents of the written files are separated. -/
theorem untrusted_answer_iff (unforgeable : Unforgeable keys history) (queue : QueueId) (fileId : UintN) :
    (∀ answer restored, extractWalBytes ⟨keys.codec queue, true⟩ fileId answer true = .ok restored →
      MigratedFor history queue fileId restored) ↔ Separated history queue fileId := by
  have accepted (message : List UInt8) (signed : message ∈ signedBy history) :
      (keys.codec queue).verify message (keys.sign message) = true :=
    (unforgeable.verify _ _).mpr ⟨signed, rfl⟩
  constructor
  · intro secure
    constructor
    · intro header bytes content restored signedHeader tag signed oneFile decompressed
      obtain ⟨answer, read⟩ := @extractWalBytes_joined fileId restored ⟨keys.codec queue, true⟩
        ⟨keys.sign bytes, keys.sign content.data, keys.sign_length _, keys.sign_length _⟩ header bytes content content
        oneFile (accepted _ signedHeader.signed) (accepted _ signed) signedHeader.reads (decryptContent_plain tag content)
        decompressed
      exact secure answer restored read
    · intro header bytes file restored signedHeader tag member under oneFile decompressed
      obtain ⟨answer, read⟩ := @extractWalBytes_joined fileId restored ⟨keys.codec queue, true⟩
        ⟨keys.sign bytes, keys.sign file.data, keys.sign_length _, keys.sign_length _⟩ header bytes
        ⟨file.data, file.lengths.2⟩ file.compressed oneFile (accepted _ signedHeader.signed) (accepted _ (data_signed member))
        signedHeader.reads ((decryptContent_history unforgeable tag).mpr ⟨file, member, under, rfl, rfl⟩) decompressed
      exact secure answer restored read
  · intro separated answer restored read
    obtain ⟨auth, header, bytes, content, plain, oneFile, headerSigned, contentSigned, reads, decrypted, decompressed⟩ :=
      extractWalBytes_inv read
    have signedHeader : SignedHeader history header bytes := ⟨((unforgeable.verify _ _).mp headerSigned).1, reads⟩
    cases tag : header.encryption with
    | none =>
      have same := (decryptContent_plain tag content).symm.trans decrypted
      cases same
      exact separated.plain header bytes content restored signedHeader tag
        ((unforgeable.verify _ _).mp contentSigned).1 oneFile decompressed
    | aes =>
      obtain ⟨file, member, under, data, rfl⟩ := (decryptContent_history unforgeable tag).mp decrypted
      exact separated.encrypted header bytes file restored signedHeader tag member under (by rwa [data]) decompressed

/- It is enough that every file is encrypted, with one compression, under a key no other queue or file has,
and that no ciphertext happens to be a header. -/
theorem Separated.of_encrypted
    (undo : ∀ data packed, keys.zstdCompress data = some packed → keys.zstdDecompress packed.data = some data)
    (allEncrypted : ∀ file ∈ history, file.walFile.encryptionType = .aes)
    (oneCompression : ∀ file ∈ history, ∀ other ∈ history, file.walFile.compressionType = other.walFile.compressionType)
    (ownKey : ∀ file ∈ history, keyInfo file.queue file.walFile.fileId = keyInfo queue fileId →
      file.queue = queue ∧ file.walFile.fileId.toNat = fileId.toNat)
    (noHeader : ∀ file ∈ history, ∀ header, StoreHeader.fromBytes file.data ≠ .ok (header, file.data.length)) :
    Separated history queue fileId := by
  have headers (header : StoreHeader) (bytes : List UInt8) (signedHeader : SignedHeader history header bytes) :
      ∃ file ∈ history, header.encryption = .aes ∧ header.compression = file.walFile.compressionType := by
    obtain ⟨file, member, either⟩ := List.mem_flatMap.mp signedHeader.signed
    have reads := signedHeader.reads
    rcases List.mem_cons.mp either with rfl | second
    · have written := StoreHeader.fromBytes_append file.header file.lengths.1 []
      rw [List.append_nil, reads] at written
      obtain ⟨rfl, -⟩ := Prod.mk.inj (Outcome.ok.inj written)
      exact ⟨file, member, allEncrypted file member, rfl⟩
    · obtain rfl : bytes = file.data := by simpa using second
      exact absurd reads (noHeader file member header)
  constructor
  · intro header bytes content restored signedHeader tag
    obtain ⟨-, -, encrypted, -⟩ := headers header bytes signedHeader
    rw [tag] at encrypted
    cases encrypted
  · intro header bytes file restored signedHeader _ member under _ decompressed
    obtain ⟨other, known, -, tag⟩ := headers header bytes signedHeader
    have again := @decompress_compressed (keys.sealer file.queue) file.walFile (keys.codec queue) undo header _ _
      (tag.trans (oneCompression other known file member)) file.compress_eq
    rw [decompressed] at again
    cases again
    obtain ⟨queueEq, fileEq⟩ := ownKey file member under.key
    exact ⟨file, member, queueEq, fileEq, rfl⟩

end Untrusted

namespace Sample

/- An instance that wrote one file, number 1 of the queue "/a", with or without encryption. It signs with
sixty-four zero bytes. -/
def ownedQueue : QueueId := ⟨"/a".toList⟩

def ownedContent : WalContent := ⟨.u8 0, .u8 1, ⟨[1, 2, 3], by decide⟩⟩

def ownedFile (encryption : EncryptionType) : WalFile := ⟨.u8 1, .none, encryption⟩

def ownedData : EncryptionType → List UInt8
  | .none => [1, 2, 3]
  | .aes => List.replicate 12 0 ++ [1, 2, 3]

theorem length_zeroSignature : (List.replicate 64 (0 : UInt8)).length = 64 := rfl

def ownedKeys (encryption : EncryptionType) : InstanceKeys where
  sign _ := List.replicate 64 0
  sign_length _ := length_zeroSignature
  verify message signature :=
    decide ((message = (storeHeaderOf (ownedFile encryption) ownedContent).writeToBytes ∨
      message = ownedData encryption) ∧ signature = List.replicate 64 0)
  encrypt _ _ data := some (List.replicate 12 0, data.data)
  decrypt queue fileId nonce cipher :=
    if encryption = .aes ∧ keyInfo ownedQueue (.u8 1) = keyInfo queue fileId ∧ List.replicate 12 0 = nonce ∧
      [1, 2, 3] = cipher then some ownedContent.content else none
  zstdCompress _ := none
  zstdDecompress _ := none
  xzDecompress _ := none

def ownedWritten (encryption : EncryptionType) : Written (ownedKeys encryption) where
  queue := ownedQueue
  walFile := ownedFile encryption
  walData := ownedContent
  compressed := ownedContent.content
  data := ownedData encryption
  compress_eq := rfl
  encrypt_eq := by cases encryption <;> rfl
  room := by cases encryption <;> decide +kernel

theorem owned_unforgeable (encryption : EncryptionType) :
    Unforgeable (ownedKeys encryption) [ownedWritten encryption] where
  verify message signature := by
    simp [ownedKeys, signedBy, ownedWritten, Written.header]
  nonce := by
    rintro _ _ _ _ _ ⟨⟩
    rfl
  decrypt queue fileId nonce cipher plain := by
    constructor
    · intro opened
      simp only [ownedKeys] at opened
      split at opened
      · rename_i same
        obtain ⟨tag, key, rfl, rfl⟩ := same
        cases opened
        exact ⟨ownedWritten encryption, by simp, ⟨tag, key⟩, rfl, rfl⟩
      · cases opened
    · rintro ⟨file, member, ⟨tag, key⟩, made, rfl⟩
      obtain rfl : file = ownedWritten encryption := by simpa using member
      cases made
      exact if_pos ⟨tag, key, rfl, rfl⟩

end Sample

/-- With encryption, every answer for the file is its content or refused. -/
theorem untrusted_answer_of_encrypted :
    Separated [Sample.ownedWritten .aes] Sample.ownedQueue (.u8 1) ∧
    ∀ answer restored, extractWalBytes ⟨(Sample.ownedKeys .aes).codec Sample.ownedQueue, true⟩ (.u8 1) answer true =
      .ok restored → MigratedFor [Sample.ownedWritten .aes] Sample.ownedQueue (.u8 1) restored := by
  have separated : Separated [Sample.ownedWritten .aes] Sample.ownedQueue (.u8 1) := by
    apply Separated.of_encrypted
    · rintro _ _ ⟨⟩
    · intro file member
      obtain rfl : file = Sample.ownedWritten .aes := by simpa using member
      rfl
    · intro file member other known
      obtain rfl : file = Sample.ownedWritten .aes := by simpa using member
      obtain rfl : other = Sample.ownedWritten .aes := by simpa using known
      rfl
    · intro file member _
      obtain rfl : file = Sample.ownedWritten .aes := by simpa using member
      exact ⟨rfl, rfl⟩
    · intro file member header
      obtain rfl : file = Sample.ownedWritten .aes := by simpa using member
      have short : StoreHeader.fromBytes (Sample.ownedWritten .aes).data = .err .sliceTooShort := rfl
      rw [short]
      rintro ⟨⟩
  exact ⟨separated, (untrusted_answer_iff (Sample.owned_unforgeable .aes) Sample.ownedQueue (.u8 1)).mpr separated⟩

/- Without encryption the bucket answers with file 1 of the queue "/a" when it is asked for file 2 of "/b", and
nothing was ever migrated for that file. -/
theorem swapped_file_accepted :
    Unforgeable (Sample.ownedKeys .none) [Sample.ownedWritten .none] ∧
    extractWalBytes ⟨(Sample.ownedKeys .none).codec ⟨"/b".toList⟩, true⟩ (.u8 2)
      ⟨storeFileBytes ((Sample.ownedKeys .none).sealer Sample.ownedQueue) (Sample.ownedFile .none) Sample.ownedContent
        (Sample.ownedData .none), (Sample.ownedWritten .none).room⟩ true = .ok Sample.ownedContent.content ∧
    ¬ MigratedFor [Sample.ownedWritten .none] ⟨"/b".toList⟩ (.u8 2) Sample.ownedContent.content := by
  refine ⟨Sample.owned_unforgeable .none, by decide +kernel, ?_⟩
  rintro ⟨file, member, queue, -, -⟩
  obtain rfl : file = Sample.ownedWritten .none := by simpa using member
  exact absurd queue (by decide)

end NormFS
