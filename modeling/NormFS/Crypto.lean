import NormFS.Types
import NormFS.UintN.Codec

/-! What the keys of a file are derived from. The path of the queue and the bytes of the number of the
file are put one behind the other, without a mark between them or a length. -/
namespace NormFS

open LittleEndian

structure QueueIdResolver where
  instanceId : List Char

/-- An absolute path is taken as it is, any other belongs to the instance. -/
def QueueIdResolver.resolve (self : QueueIdResolver) (path : List Char) : QueueId :=
  if ['/'].isPrefixOf path then ⟨path⟩ else ⟨'/' :: self.instanceId ++ '/' :: path⟩

def utf8 (text : List Char) : List UInt8 := text.flatMap String.utf8EncodeChar

def QueueId.toKeyDerivationBase (self : QueueId) : List Char := self.path

def UintN.valueToBytes (self : UintN) : List UInt8 := self.writeValueToBuffer

/-- The `info` of `derive_rng`. -/
def keyInfo (queueId : QueueId) (fileId : UintN) : List UInt8 :=
  utf8 queueId.toKeyDerivationBase ++ fileId.valueToBytes

/-- The generator of a file's key and nonce, for any HKDF and any stream cipher. -/
def deriveRng {Rng : Type} (expand : List UInt8 → List UInt8 → Option (List UInt8)) (fromSeed : List UInt8 → Rng)
    (seed : List UInt8) (queueId : QueueId) (fileId : UintN) : Option Rng :=
  (expand seed (keyInfo queueId fileId)).map fromSeed

/-- The path of the second queue goes on with a text, and the number of the first file spells that text
before the number of the second file. -/
def SpellsPath (q₁ : QueueId) (f₁ : UintN) (q₂ : QueueId) (f₂ : UintN) : Prop :=
  ∃ text, text ≠ [] ∧ q₂.path = q₁.path ++ text ∧ f₁.sizeInBytes = (utf8 text).length + f₂.sizeInBytes ∧
    f₁.toNat = decode (utf8 text) + 256 ^ (utf8 text).length * f₂.toNat

theorem utf8_append (as bs : List Char) : utf8 (as ++ bs) = utf8 as ++ utf8 bs := List.flatMap_append

theorem prefix_of_utf8 {as bs : List Char} {rest : List UInt8} (begins : utf8 bs = utf8 as ++ rest) :
    ∃ text, bs = as ++ text ∧ rest = utf8 text := by
  have encoded : as.utf8Encode ++ rest.toByteArray = bs.utf8Encode := by
    rw [List.utf8Encode, List.utf8Encode, ← List.toByteArray_append]
    exact congrArg List.toByteArray begins.symm
  obtain ⟨text, whole⟩ := List.isPrefix_of_utf8Encode_append_eq_utf8Encode _ encoded
  refine ⟨text, whole.symm, ?_⟩
  rw [← whole, utf8_append] at begins
  exact (List.append_cancel_left begins).symm

variable {f₁ f₂ : UintN} {q₁ q₂ : QueueId}

theorem valueToBytes_append {front : List UInt8} :
    f₁.valueToBytes = front ++ f₂.valueToBytes ↔
      f₁.sizeInBytes = front.length + f₂.sizeInBytes ∧ f₁.toNat = decode front + 256 ^ front.length * f₂.toNat := by
  have length₁ : f₁.valueToBytes.length = f₁.sizeInBytes := UintN.length_writeValueToBuffer f₁
  have length₂ : f₂.valueToBytes.length = f₂.sizeInBytes := UintN.length_writeValueToBuffer f₂
  have value₁ : decode f₁.valueToBytes = f₁.toNat := UintN.decode_writeValueToBuffer f₁
  have value₂ : decode f₂.valueToBytes = f₂.toNat := UintN.decode_writeValueToBuffer f₂
  constructor
  · intro same
    constructor
    · rw [← length₁, ← length₂, same, List.length_append]
    · rw [← value₁, ← value₂, same, decode_append]
  · rintro ⟨length, value⟩
    apply decode_inj
    · rw [List.length_append, length₁, length₂, length]
    · rw [decode_append, value₁, value₂, value]

theorem SpellsPath.keyInfo_eq (spells : SpellsPath q₁ f₁ q₂ f₂) :
    keyInfo q₁ f₁ = keyInfo q₂ f₂ := by
  obtain ⟨text, -, path, length, value⟩ := spells
  unfold keyInfo QueueId.toKeyDerivationBase
  rw [path, utf8_append, List.append_assoc, valueToBytes_append.mpr ⟨length, value⟩]

theorem SpellsPath.queues_ne (spells : SpellsPath q₁ f₁ q₂ f₂) : q₁ ≠ q₂ := by
  obtain ⟨text, some, path, -, -⟩ := spells
  rintro rfl
  exact some (List.self_eq_append_right.mp path)

/-- Equal bytes are split at the same place, or the number of the first file goes on with the path. -/
theorem keyInfo_split {rest : List UInt8}
    (path : utf8 q₂.path = utf8 q₁.path ++ rest) (number : f₁.valueToBytes = rest ++ f₂.valueToBytes) :
    (q₁ = q₂ ∧ f₁.toNat = f₂.toNat) ∨ SpellsPath q₁ f₁ q₂ f₂ := by
  obtain ⟨text, whole, rfl⟩ := prefix_of_utf8 path
  obtain ⟨length, value⟩ := valueToBytes_append.mp number
  by_cases empty : text = []
  · left
    subst empty
    refine ⟨?_, by simpa [utf8, decode] using value⟩
    cases q₁
    cases q₂
    rw [QueueId.mk.injEq]
    simpa using whole.symm
  · exact .inr ⟨text, empty, whole, length, value⟩

/- The bytes the keys are derived from tell the queue and the file, unless one path goes on where the
other ends and the number of the file spells the difference. -/
theorem keyInfo_injective_iff (r₁ r₂ : QueueIdResolver) (path₁ path₂ : List Char) (f₁ f₂ : UintN) :
    (keyInfo (r₁.resolve path₁) f₁ = keyInfo (r₂.resolve path₂) f₂ →
      r₁.resolve path₁ = r₂.resolve path₂ ∧ f₁.toNat = f₂.toNat) ↔
    ¬ SpellsPath (r₁.resolve path₁) f₁ (r₂.resolve path₂) f₂ ∧
      ¬ SpellsPath (r₂.resolve path₂) f₂ (r₁.resolve path₁) f₁ := by
  generalize r₁.resolve path₁ = q₁
  generalize r₂.resolve path₂ = q₂
  constructor
  · intro injective
    constructor
    · intro spells
      exact spells.queues_ne (injective spells.keyInfo_eq).1
    · intro spells
      exact spells.queues_ne (injective spells.keyInfo_eq.symm).1.symm
  · rintro ⟨notFirst, notSecond⟩ same
    rcases List.append_eq_append_iff.mp same with ⟨rest, path, number⟩ | ⟨rest, path, number⟩
    · exact (keyInfo_split path number).resolve_right notFirst
    · obtain ⟨queue, file⟩ := (keyInfo_split path number).resolve_right notSecond
      exact ⟨queue.symm, file.symm⟩

/- File 25442 of the queue "a" and file 99 of the queue "ab": the two bytes of the first number are the
letters 'b' and 'c', the only byte of the second is 'c'. Both files get their key and nonce from one and
the same generator. -/
theorem keys_shared :
    (QueueIdResolver.mk ['0']).resolve ['a'] ≠ (QueueIdResolver.mk ['0']).resolve ['a', 'b'] ∧
    keyInfo ((QueueIdResolver.mk ['0']).resolve ['a']) (.ofUbig 25442) =
      keyInfo ((QueueIdResolver.mk ['0']).resolve ['a', 'b']) (.ofUbig 99) ∧
    ∀ (Rng : Type) (expand : List UInt8 → List UInt8 → Option (List UInt8)) (fromSeed : List UInt8 → Rng)
      (seed : List UInt8), deriveRng expand fromSeed seed ((QueueIdResolver.mk ['0']).resolve ['a']) (.ofUbig 25442) =
        deriveRng expand fromSeed seed ((QueueIdResolver.mk ['0']).resolve ['a', 'b']) (.ofUbig 99) := by
  have same : keyInfo ((QueueIdResolver.mk ['0']).resolve ['a']) (.ofUbig 25442) =
      keyInfo ((QueueIdResolver.mk ['0']).resolve ['a', 'b']) (.ofUbig 99) := by decide +kernel
  refine ⟨by decide, same, ?_⟩
  intro Rng expand fromSeed seed
  unfold deriveRng
  rw [same]

end NormFS
