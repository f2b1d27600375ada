import NormFS.Paths
import NormFS.Store.Header
import NormFS.Wal.Reader

/-! The content of a store file: the bytes of a WAL file, compressed, encrypted and signed. The
ciphers, the signature scheme and the compressors are parameters. -/
namespace NormFS

inductive RangeStoreError where
  | io
  | header (error : StoreHeaderError)
  | path (error : PathError)
  | uintN (error : UintNError)
  | fileNotFound
  | signatureVerificationFailed
  deriving DecidableEq, Repr

inductive StoreError where
  | io
  | header (error : StoreHeaderError)
  | decrypt
  | wal (error : WalError)
  | uintN (error : UintNError)
  | range (error : RangeStoreError)
  | path (error : PathError)
  | walHeaderError (error : WalHeaderError)
  | fileNotFound
  | signatureVerificationFailed
  deriving DecidableEq, Repr

/- The keys of an instance for one queue. The key of a file is derived from the bytes of its
number, so `decrypt` takes the number itself and not its value. -/
structure Codec where
  verify : List UInt8 → List UInt8 → Bool
  decrypt : UintN → List UInt8 → List UInt8 → Option Bytes
  zstdDecompress : List UInt8 → Option Bytes
  xzDecompress : List UInt8 → Option Bytes

structure StoreConfig where
  codec : Codec
  verifySignatures : Bool

def Bytes.drop (b : Bytes) (start : Nat) : Bytes where
  data := b.data.drop start
  addressable := by
    have bound := b.addressable
    rw [List.length_drop]
    omega

theorem Bytes.data_drop (b : Bytes) (start : Nat) : (b.drop start).data = b.data.drop start := rfl

def Codec.decryptContent (codec : Codec) (storeHeader : StoreHeader) (fileId : UintN) (content : Bytes) :
    Outcome StoreError Bytes :=
  if storeHeader.isEncrypted then
    if content.length < 12 then .err .decrypt
    else match codec.decrypt fileId (content.data.take 12) (content.data.drop 12) with
      | some plain => .ok plain
      | none => .err .decrypt
  else .ok content

/- The tag `gzip` is read as the tag `zstd` is. -/
def Codec.decompressContent (codec : Codec) (storeHeader : StoreHeader) (content : Bytes) :
    Outcome StoreError Bytes :=
  let unpacked := match storeHeader.compression with
    | .gzip => codec.zstdDecompress content.data
    | .xz => codec.xzDecompress content.data
    | .zstd => codec.zstdDecompress content.data
    | .none => some content
  match unpacked with
  | some plain => .ok plain
  | none => .err .io

def extractWalBytes (config : StoreConfig) (fileId : UintN) (content : Bytes) (verifySignatures : Bool) :
    Outcome StoreError Bytes := do
  let (fileAuth, authSize) ← (Outcome.ofExcept (FileAuthentication.fromBytes content.data)).mapErr .header
  let contentAfterAuth := content.drop authSize
  let (storeHeader, headerSize) ← (StoreHeader.fromBytes contentAfterAuth.data).mapErr .header
  let encryptedContent := contentAfterAuth.drop headerSize
  if verifySignatures && !(config.codec.verify (contentAfterAuth.data.take headerSize) fileAuth.headerSignature &&
      config.codec.verify encryptedContent.data fileAuth.contentSignature) then
    .err .signatureVerificationFailed
  else do
    let walContentBytes ← config.codec.decryptContent storeHeader fileId encryptedContent
    config.codec.decompressContent storeHeader walContentBytes

/- The source repeats the steps of `extractWalBytes` here. -/
def extractWalHeader (config : StoreConfig) (fileId : UintN) (storeFileBytes : Bytes) :
    Outcome StoreError WalHeader := do
  let walContentBytes ← extractWalBytes config fileId storeFileBytes config.verifySignatures
  let (walHeader, _) ← (WalHeader.fromBytes walContentBytes.data).mapErr .walHeaderError
  pure walHeader

end NormFS
