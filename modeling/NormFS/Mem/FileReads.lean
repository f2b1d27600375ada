import NormFS.Mem.Reads
import NormFS.Wal.Verdict

/-! Entries held both in memory and as the content of one WAL file are read the same from either. -/
namespace NormFS

open Stride Framing

/-- The part of what is offered that a receiver takes before it leaves. -/
def Sender.taken {α : Type} (target : Sender) (offered : List α) : List α :=
  target.room.elim offered offered.take

theorem Sender.delivered_offer (target : Sender) (entries : List ReadEntry) :
    (target.offer entries).delivered = target.delivered ++ target.taken entries := by
  induction entries generalizing target with
  | nil => obtain ⟨delivered, _ | n⟩ := target <;> simp [offer, taken]
  | cons entry entries ih =>
    obtain ⟨delivered, _ | _ | n⟩ := target
    · rw [offer_cons rfl, ih]
      simp [taken]
    · rw [offer_closed rfl]
      simp [taken]
    · rw [offer_cons rfl, ih]
      simp [taken]

def Sender.values (target : Sender) : List (Nat × Bytes) :=
  target.delivered.map (fun e => (e.id.toNat, e.data))

theorem Sender.values_offer (target : Sender) (entries : List ReadEntry) :
    (target.offer entries).values = target.values ++
      target.taken (entries.map (fun e => (e.id.toNat, e.data))) := by
  rw [values, delivered_offer, List.map_append]
  cases room : target.room with
  | none => simp [taken, room, values]
  | some n => simp [taken, room, values, List.map_take]

section Agree

variable {xxh64 : Hash} {h : WalHeader} {entries : List Entry} {file : Bytes}

theorem survivors_all (fits : CanHold h entries) :
    survivors h entries (entriesBytes xxh64 h entries).length = entries.map (storedEntry h) := by
  induction entries with
  | nil => simp [survivors]
  | cons e entries ih =>
    have length : (entriesBytes xxh64 h (e :: entries)).length =
        WalEntryHeader.size h + e.2.length + (entriesBytes xxh64 h entries).length := by
      rw [entriesBytes, List.flatMap_cons, List.length_append, length_entryBytes xxh64 (fits e (by simp))]
      rfl
    rw [length, survivors_whole, ih (fun e member => fits e (by simp [member])), List.map_cons]

theorem WrittenFile.values (wal : WrittenFile xxh64 h entries file) (request : ReadRequest) (steps : 1 ≤ request.step)
    (word : request.step < 2 ^ 64) (target : Sender) :
    (readWalBytesRange xxh64 file request target).1.values = target.values ++
      target.taken ((wanted request.fromId.toNat request.step request.last entries).map valueOf) := by
  have length : file.length = h.size + (entriesBytes xxh64 h entries).length := by
    rw [Bytes.length, wal.content, List.length_append, WalHeader.length_writeToBytes]
  rw [wal.offers (List.prefix_refl _) (by omega) request steps word, Sender.values_offer, List.map_map, length,
    Nat.add_sub_cancel_left, survivors_all wal.fits]
  congr 2
  exact wanted_congr (stored_value wal.fits)

variable {q : MemQueue} {i j : Nat}

/- Memory selects by a running number, the file by a remainder. They deliver the same entries to
any receiver, and a read from the tail is the read from the number it resolves to. -/
theorem memory_agrees_with_file (window : q.Window i j) (wal : WrittenFile xxh64 h entries file)
    (same : q.entries.map valueOf = entries.map valueOf) (step : Nat) (steps : 1 ≤ step)
    (word : step < 2 ^ 64) (target : Sender) :
    (∀ (start endId : UintN) (source : DataSource), i ≤ start.toNat → start.toNat ≤ j →
      ∃ result sender, q.readFull start endId step target = some (result, sender) ∧ result.success = true ∧
        sender.values = (readWalBytesRange xxh64 file ⟨start, some endId, step, source⟩ target).1.values) ∧
    (∀ (offset start endId : UintN) (limit : Nat), 1 ≤ limit → offset.toNat ≤ j - i →
      start.toNat = j - offset.toNat → endId.toNat = j - offset.toNat + (limit - 1) * step →
      ∃ result result' sender, q.readFullNegative offset step limit target = some (result, sender) ∧
        q.readFull start endId step target = some (result', sender)) := by
  refine ⟨?_, ?_⟩
  · intro start endId source above below
    refine ⟨_, _, window.readFull_offers steps word above below endId target, rfl, ?_⟩
    rw [wal.values _ steps word, Sender.values_offer, List.map_map]
    congr 2
    exact wanted_congr same
  · intro offset start endId limit positive inside startValue endValue
    have inhabited := window.inhabited
    have above : i ≤ start.toNat := by omega
    obtain ⟨startId, tail⟩ := window.readFullNegative_offers steps word positive offset (by omega) target
    have full := window.readFull_offers steps word above (by omega) endId target
    rw [startValue, endValue] at full
    exact ⟨_, _, _, tail, full⟩

end Agree

def pairInMemory : MemQueue :=
  { MemQueue.new none 100 with entries := pairOfEntries, firstId := some (.u8 0), lastId := some (.u8 1) }

theorem pairInMemory_window : pairInMemory.Window 0 1 where
  inhabited := by decide
  numbered := rfl
  upTo := rfl
  firstId := rfl
  lastId := rfl

/-- Both entries, read from the last one on by a receiver that takes one entry. -/
theorem memory_agrees_with_file_pair :
    ∃ result sender, pairInMemory.readFull (.u16 1) (.u8 9) 3 ⟨[], some 1⟩ = some (result, sender) ∧
      result.success = true ∧ sender.values =
        (readWalBytesRange (fun _ => 7) pairFile ⟨.u16 1, some (.u8 9), 3, .diskWal⟩ ⟨[], some 1⟩).1.values :=
  (memory_agrees_with_file pairInMemory_window pairFile_wellFormed rfl 3 (by decide) (by decide) ⟨[], some 1⟩).1
    (.u16 1) (.u8 9) .diskWal (by decide) (by decide)

end NormFS
