import NormFS.Reader.Fsm

/-! Bounded reads step by step on arbitrary files: when memory answers, and how a read goes on for
ever behind the last file. -/
namespace NormFS

section Memory

variable {step : Nat}

theorem catchUp_ends (steps : 0 < step) (word : step < 2 ^ 64) (endId : Option UintN) {fuel : Nat}
    {current id : UintN} (enough : id.toNat - current.toNat ≤ fuel) :
    ∃ reached, catchUp step endId fuel current id = some reached := by
  induction fuel generalizing current with
  | zero =>
    have ordered : ¬ current < id := by
      rw [UintN.lt_iff]
      omega
    exact ⟨current, by rw [catchUp, if_neg ordered]⟩
  | succ fuel ih =>
    rw [catchUp]
    split
    · have next := UintN.toNat_stepBy current step word
      dsimp only
      split
      · exact ⟨_, rfl⟩
      · exact ih (by omega)
    · exact ⟨_, rfl⟩

theorem collect_ends (steps : 0 < step) (word : step < 2 ^ 64) (endId : Option UintN) (room : Option Nat)
    (current : UintN) (entries : List Entry) :
    ∃ collected, collect step endId room current entries = some collected := by
  induction entries generalizing room current with
  | nil => exact ⟨[], rfl⟩
  | cons e entries ih =>
    obtain ⟨id, data⟩ := e
    rw [collect]
    split
    · exact ⟨_, rfl⟩
    · obtain ⟨reached, caught⟩ := @catchUp_ends step steps word endId _ current id (Nat.le_refl _)
      rw [caught]
      change ∃ collected, (if reached == id then _ else _) = some collected
      split
      · obtain ⟨later, rest⟩ := ih (room.map (· - 1)) (reached.stepBy step)
        exact ⟨(id, data) :: later, by rw [rest]; rfl⟩
      · exact ih room reached

namespace MemQueue

/-- Memory knows of later entries but does not hold this one. -/
def refuses (q : MemQueue) (nextId : UintN) : Bool :=
  q.lastId.any (fun last => !decide (last < nextId)) && q.firstId.all (fun first => decide (nextId < first))

variable {q : MemQueue}

theorem readFull_refuses {start : UintN} (refused : q.refuses start = true) (endId : UintN)
    (step : Nat) (target : Sender) : q.readFull start endId step target = some (.fail, target) := by
  rw [refuses, Bool.and_eq_true] at refused
  obtain ⟨known, missing⟩ := refused
  cases lastId : q.lastId with
  | none =>
    rw [lastId] at known
    cases known
  | some last =>
    rw [lastId] at known
    have notPast : ¬ last < start := by simpa using known
    cases firstId : q.firstId with
    | none => simp [readFull, lastId, notPast, firstId]
    | some first =>
      rw [firstId] at missing
      have earlier : start < first := by simpa using missing
      simp [readFull, lastId, notPast, firstId, earlier]

theorem readFull_answers {start : UintN} (answered : q.refuses start = false)
    (steps : 0 < step) (word : step < 2 ^ 64) (endId : UintN) (target : Sender) :
    ∃ sender, q.readFull start endId step target = some (⟨true, none, none⟩, sender) := by
  rw [readFull]
  cases lastId : q.lastId with
  | none => exact ⟨_, rfl⟩
  | some last =>
    dsimp only
    split
    · exact ⟨_, rfl⟩
    · rename_i notPast
      cases firstId : q.firstId with
      | none => simp [refuses, lastId, notPast, firstId] at answered
      | some first =>
        have notEarlier : ¬ start < first := by simpa [refuses, lastId, notPast, firstId] using answered
        obtain ⟨collected, found⟩ := collect_ends steps word (some endId) none start (q.since start)
        exact ⟨_, by simp only [if_neg notEarlier, found]; rfl⟩

/-- A read from the tail comes to its end when its loop does, which runs only over entries in memory. -/
theorem readFullNegative_returns {offset : UintN} {limit : Nat}
    (ends : ∀ last first, q.lastId = some last → q.firstId = some first →
      first.toNat ≤ (tailStart last offset).toNat → ∃ collected,
        collect step none (if 0 < limit then some limit else none) (tailStart last offset)
          (q.since (tailStart last offset)) = some collected)
    (target : Sender) : ∃ answer, q.readFullNegative offset step limit target = some answer := by
  rw [readFullNegative]
  cases lastId : q.lastId with
  | none => exact ⟨_, rfl⟩
  | some last =>
    cases firstId : q.firstId with
    | none => exact ⟨_, rfl⟩
    | some first =>
      dsimp only
      split
      · exact ⟨_, rfl⟩
      · rename_i notEarlier
        rw [UintN.lt_iff, Nat.not_lt] at notEarlier
        obtain ⟨collected, found⟩ := ends last first lastId firstId notEarlier
        rw [found]
        change ∃ answer, (if collected.isEmpty then _ else _) = some answer
        split <;> exact ⟨_, rfl⟩

theorem readFullNegative_ends (q : MemQueue) (offset : UintN) (steps : 0 < step) (word : step < 2 ^ 64)
    (limit : Nat) (target : Sender) : ∃ answer, q.readFullNegative offset step limit target = some answer :=
  readFullNegative_returns (fun _ _ _ _ _ => collect_ends steps word _ _ _ _) target

end MemQueue

theorem fromMemory_refused {world : World} {q : MemQueue} (memory : world.mem = some q) {nextId : UintN}
    (refused : q.refuses nextId = true) (endId : UintN) (step : Nat) (sender : Sender)
    (otherwise : Sender → ReaderState) :
    fromMemory world nextId (some endId) step sender otherwise = .next world (otherwise sender) := by
  simp [fromMemory, memory, MemQueue.readFull_refuses refused, MemReadResult.fail]

end Memory

theorem boundOf_exact {startId : UintN} {limit step : Nat} (bounded : 0 < limit)
    (fits : (limit - 1) * step < 2 ^ 64) :
    ∃ last, boundOf startId limit step = some last ∧
      last.toNat = startId.toNat + (limit - 1) * step := by
  refine ⟨_, if_pos bounded, ?_⟩
  rw [UintN.toNat_add, UintN.toNat_ofU64, BitVec.toNat_ofNat, Nat.mod_eq_of_lt fits]

/-- No file of the queue has this number or a greater one. -/
def Disk.EmptyFrom (disk : Disk) (files : Nat) : Prop :=
  ∀ fileId : UintN, files ≤ fileId.toNat → disk.storeFile fileId = none ∧ disk.walFile fileId = none

def Refuses (world : World) (ctx : ReadContext) : Prop :=
  ∀ otherwise : Sender → ReaderState,
    fromMemory world ctx.nextId ctx.lastId ctx.step ctx.sender otherwise =
      .next world (otherwise ctx.sender)

structure Unserved (world : World) (ctx : ReadContext) : Prop where
  refuses : Refuses world ctx
  notPast : (world.mem.bind MemQueue.getLastId).any (fun last => decide (last < ctx.nextId)) = false
  opened : ctx.sender.isClosed = false

/-- Such a read behind the last file. -/
def Lost (world : World) (files : Nat) : ReaderState → Prop
  | .readFile ctx | .readStore ctx | .readWal ctx => files ≤ ctx.fileId.toNat ∧ Unserved world ctx
  | .readNextFile currentFile ctx prefetchHandle =>
    files ≤ currentFile.toNat + 1 ∧ Unserved world ctx ∧
      ∀ handle ∈ prefetchHandle, handle = .pending currentFile.increment
  | _ => False

variable {world : World}

theorem Lost.running {files : Nat} {state : ReaderState}
    (lost : Lost world files state) : state.isTerminal = false := by
  cases state <;> first | rfl | cases lost

theorem refuses_notPast {q : MemQueue} (memory : world.mem = some q) {nextId : UintN}
    (refused : q.refuses nextId = true) :
    (world.mem.bind MemQueue.getLastId).any (fun last => decide (last < nextId)) = false := by
  rw [MemQueue.refuses, Bool.and_eq_true] at refused
  cases lastId : q.lastId with
  | none =>
    rw [lastId] at refused
    cases refused.1
  | some last =>
    rw [lastId] at refused
    simpa [memory, MemQueue.getLastId, lastId] using refused.1

theorem Unserved.bounded {q : MemQueue} (memory : world.mem = some q)
    {ctx : ReadContext} (refused : q.refuses ctx.nextId = true) {last : UintN}
    (bounded : ctx.lastId = some last) (opened : ctx.sender.isClosed = false) :
    Unserved world ctx := by
  refine ⟨?_, refuses_notPast memory refused, opened⟩
  rw [Refuses, bounded]
  exact fromMemory_refused memory refused last ctx.step ctx.sender

theorem lost_step {env : Env} {files : Nat} (cloud : world.cloud = none)
    (empty : world.disk.EmptyFrom files) (s : Nat) {state : ReaderState}
    (lost : Lost world files state) :
    ∃ state', transition env s world state = .next world state' ∧ Lost world files state' := by
  cases state with
  | readFile ctx =>
    exact ⟨.readStore ctx, by simp [transition, handleReadFile, lost.2.opened], lost⟩
  | readStore ctx =>
    have absent := (empty ctx.fileId lost.1).1
    exact ⟨.readWal ctx, by
      simp [transition, handleReadStore, lost.2.opened, PersistStore.getStoreBytes, absent], lost⟩
  | readWal ctx =>
    have absent := (empty ctx.fileId lost.1).2
    refine ⟨.readNextFile ctx.fileId ctx none, ?_, Nat.le_succ_of_le lost.1, lost.2, by rintro _ ⟨⟩⟩
    simp [transition, handleReadWal, lost.2.opened, WalStore.getWalBytes, absent, cloud]
  | readNextFile currentFile ctx prefetchHandle =>
    obtain ⟨beyond, unserved, handles⟩ := lost
    have next : currentFile.increment.toNat = currentFile.toNat + 1 := UintN.toNat_increment _
    cases handle : prefetchHandle with
    | none =>
      refine ⟨.readFile (ctx.withFileId currentFile.increment), ?_, ?_,
        ⟨unserved.refuses, unserved.notPast, unserved.opened⟩⟩
      · simp only [transition, handleReadNextFile, unserved.opened, unserved.notPast,
          Bool.false_eq_true, if_false]
        exact unserved.refuses _
      · change files ≤ currentFile.increment.toNat
        omega
    | some task =>
      obtain rfl := handles task handle
      have absent := empty currentFile.increment (by omega)
      have nothing : prefetchNextFile env world currentFile.increment = .ok none := by
        simp [prefetchNextFile, PersistStore.getStoreBytes, absent.1, WalStore.getWalBytes, absent.2, cloud]
      refine ⟨.readNextFile currentFile.increment ctx none, ?_, by omega, unserved, by rintro _ ⟨⟩⟩
      simp only [transition, handleReadNextFile, unserved.opened, unserved.notPast,
        Bool.false_eq_true, if_false]
      exact (unserved.refuses _).trans (by simp only [intoNextFile, Prefetch.await, nothing])
  | _ => cases lost

end NormFS
