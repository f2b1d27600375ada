import NormFS.Lookup.Rounds
import NormFS.Reader.Bounded

/-! Whether a bounded read ends. A lookup between a first and a last file in order ends; between files
in the wrong order the bisection may repeat itself. The walk from file to file ends unless it passes
the last file while memory refuses the next entry. -/
namespace NormFS

section Search

variable {config : StoreConfig} {disk : Disk} {ranges after : RangeCache}

variable {target : UintN}

/-- The search between the two files that the directories give comes to an end: they are in order, or
the bisection does not repeat itself. -/
def Disk.Searchable (config : StoreConfig) (disk : Disk) (ranges : RangeCache) (target : UintN) : Prop :=
  ∀ first last, fileBounds disk none = .ok (some (first, last)) → first.toNat ≤ last.toNat ∨
    ∀ after, searchFiles config disk none target first last ranges ≠ .ok (.endless, after)

end Search

section Files

end Files

section Walk

variable {env : Env} {world : World} {q : MemQueue} {files s : Nat} {state state' : ReaderState}

structure ReadContext.Limited (ctx : ReadContext) : Prop where
  bounded : ∃ last, ctx.lastId = some last
  steps : 0 < ctx.step
  word : ctx.step < 2 ^ 64

theorem ReadContext.Limited.withFileId {ctx : ReadContext} (limited : ctx.Limited) (fileId : UintN) :
    (ctx.withFileId fileId).Limited :=
  ⟨limited.bounded, limited.steps, limited.word⟩

def Walking : ReaderState → Prop
  | .readFile ctx | .readStore ctx | .readWal ctx => ctx.Limited
  | .extractWalBytes ctx _ _ | .parseWalBytes ctx _ _ => ctx.Limited
  | .readNextFile currentFile ctx prefetchHandle =>
    ctx.Limited ∧ ∀ handle ∈ prefetchHandle, handle = .pending currentFile.increment
  | _ => False

/-- How many more states a read among files below a bound can take. -/
def weight (files : Nat) : ReaderState → Nat
  | .readFile ctx => 8 * (files - ctx.fileId.toNat) + 6
  | .readStore ctx => 8 * (files - ctx.fileId.toNat) + 5
  | .readWal ctx | .extractWalBytes ctx _ _ => 8 * (files - ctx.fileId.toNat) + 4
  | .parseWalBytes ctx _ _ => 8 * (files - ctx.fileId.toNat) + 3
  | .readNextFile currentFile _ _ => 8 * (files - currentFile.toNat) + 2
  | _ => 0

/-- Behind the last file, with the next entry neither in memory nor beyond the last one; or before a
lookup whose search repeats itself. -/
def Stuck (env : Env) (world : World) : ReaderState → Prop
  | .lookupFile start _ _ sender =>
    sender.isClosed = false ∧ ¬ world.disk.Searchable env.config world.ranges start
  | .readNextFile currentFile ctx _ => world.disk.EmptyFrom (currentFile.toNat + 1) ∧
    ctx.sender.isClosed = false ∧ ∃ q, world.mem = some q ∧ q.refuses ctx.nextId = true
  | _ => False

theorem Walking.running (walking : Walking state) : state.isTerminal = false := by
  cases state <;> first | rfl | cases walking

def Going (s : Nat) : ReaderState → Prop
  | .lookupPositive _ limit _ | .lookupNegative _ limit _ => 0 < limit
  | .lookupFile _ endId step _ => step = s ∧ ∃ last, endId = some last
  | state => state.isTerminal = true ∨ Walking state

theorem Walking.going (walking : Walking state) : Going s state := by
  cases state <;> first | exact .inr walking | cases walking

variable {world' : World} {limit : Nat}

end Walk

namespace Sample

end Sample

end NormFS
