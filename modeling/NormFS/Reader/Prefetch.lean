import NormFS.Lib.Simulation
import NormFS.Lookup.Holes
import NormFS.Reader.Ends

/-! Reading ahead. A read that waits for the task that fetches the next file goes the same way as one that
reads the next file itself, step by step. -/
namespace NormFS

open Iterate

def goesOn (move : World → ReaderState → Move) (x : World × ReaderState) : Option (World × ReaderState) :=
  if x.2.isTerminal then none
  else match move x.1 x.2 with
    | .next world state => some (world, state)
    | _ => none

def ReaderState.plain : ReaderState → ReaderState
  | readNextFile currentFile ctx _ => readNextFile currentFile ctx none
  | state => state

def Move.plain : Move → Move
  | next world state => next world state.plain
  | other => other

section Plain

variable (env : Env)

/-- A transition that forgets the task: the next file is read by the states for it. -/
def plainTransition (step : Nat) (world : World) (state : ReaderState) : Move :=
  (transition env step world state).plain

def plainRead (position : ReadPosition) (limit step : Nat) (world : World) (sender : Sender) (fuel : Nat) : Move :=
  if sender.isClosed then .error .clientDisconnected
  else runWith (plainTransition env step) fuel world (initialState position limit sender)

end Plain

structure SameReads (a b : Nat → Move) : Prop where
  delivers : ∀ out : Sender, (∃ n world state, a n = .next world state ∧ state.sender = out) ↔
    ∃ n world state, b n = .next world state ∧ state.sender = out
  ends : ∀ world state, state.isTerminal = true → ((∃ n, a n = .next world state) ↔ ∃ n, b n = .next world state)
  refuses : ∀ e, (∃ n, a n = .error e) ↔ ∃ n, b n = .error e

section Runs

variable {move : World → ReaderState → Move} {world world' : World} {state state' : ReaderState}

theorem goesOn_eq_some : goesOn move (world, state) = some (world', state') ↔
    state.isTerminal = false ∧ move world state = .next world' state' := by
  unfold goesOn
  cases state.isTerminal with
  | true => simp
  | false =>
    cases moved : move world state with
    | next => simp
    | error | panic | hang => simp

theorem goesOn_eq_none (running : state.isTerminal = false) :
    goesOn move (world, state) = none ↔ ∀ world' state', move world state ≠ .next world' state' := by
  constructor
  · intro stopped world' state' moved
    rw [goesOn_eq_some.mpr ⟨running, moved⟩] at stopped
    cases stopped
  · intro no
    cases moved : goesOn move (world, state) with
    | none => rfl
    | some y => exact absurd (goesOn_eq_some.mp moved).2 (no _ _)

theorem runWith_running (running : state.isTerminal = false) (moved : move world state = .next world' state') (n : Nat) :
    runWith move (n + 1) world state = runWith move n world' state' := by
  rw [runWith, running, moved]
  rfl

theorem runWith_reaches : (∃ n, runWith move n world state = .next world' state') ↔
    ∃ n, after (goesOn move) n (world, state) = some (world', state') := by
  constructor
  · rintro ⟨n, came⟩
    induction n generalizing world state with
    | zero =>
      cases came
      exact ⟨0, rfl⟩
    | succ n ih =>
      cases terminal : state.isTerminal with
      | true =>
        rw [runWith, terminal] at came
        cases came
        exact ⟨0, rfl⟩
      | false =>
        cases moved : move world state with
        | next world state =>
          rw [runWith_running terminal moved] at came
          obtain ⟨m, later⟩ := ih came
          exact ⟨m + 1, after_succ.mpr ⟨_, goesOn_eq_some.mpr ⟨terminal, moved⟩, later⟩⟩
        | error | panic | hang =>
          rw [runWith, terminal, moved] at came
          cases came
  · rintro ⟨n, came⟩
    refine ⟨n, ?_⟩
    induction n generalizing world state with
    | zero =>
      cases came
      rfl
    | succ n ih =>
      obtain ⟨_, moved, later⟩ := after_succ.mp came
      obtain ⟨running, next⟩ := goesOn_eq_some.mp moved
      rw [runWith_running running next]
      exact ih later

theorem runWith_refuses {e : ReaderError} : (∃ n, runWith move n world state = .error e) ↔
    ∃ n world' state', after (goesOn move) n (world, state) = some (world', state') ∧
      state'.isTerminal = false ∧ move world' state' = .error e := by
  constructor
  · rintro ⟨n, came⟩
    induction n generalizing world state with
    | zero => cases came
    | succ n ih =>
      cases terminal : state.isTerminal with
      | true =>
        rw [runWith, terminal] at came
        cases came
      | false =>
        cases moved : move world state with
        | next world state =>
          rw [runWith_running terminal moved] at came
          obtain ⟨m, w, s, later, gives⟩ := ih came
          exact ⟨m + 1, w, s, after_succ.mpr ⟨_, goesOn_eq_some.mpr ⟨terminal, moved⟩, later⟩, gives⟩
        | error e' =>
          rw [runWith, terminal, moved] at came
          cases came
          exact ⟨0, world, state, rfl, terminal, moved⟩
        | panic | hang =>
          rw [runWith, terminal, moved] at came
          cases came
  · rintro ⟨n, world', state', came, running, gives⟩
    refine ⟨n + 1, ?_⟩
    induction n generalizing world state with
    | zero =>
      cases came
      rw [runWith, running, gives]
      rfl
    | succ n ih =>
      obtain ⟨_, moved, later⟩ := after_succ.mp came
      obtain ⟨going, next⟩ := goesOn_eq_some.mp moved
      rw [runWith_running going next]
      exact ih later

end Runs

/-- Memory does not answer: the read goes on in the files. -/
def LeftToFiles (world : World) (ctx : ReadContext) (world' : World) (out : Sender) : Prop :=
  ∀ otherwise, fromMemory world ctx.nextId ctx.lastId ctx.step ctx.sender otherwise = .next world' (otherwise out)

def SameDisk (world world' : World) : Prop := world'.disk = world.disk ∧ world'.cloud = world.cloud

theorem fromMemory_cases (world : World) (ctx : ReadContext) :
    (∃ world' out, SameDisk world world' ∧ LeftToFiles world ctx world' out) ∨
    (∃ world' state, SameDisk world world' ∧ (state = .completed state.sender ∨ state = .subscribed state.sender) ∧
      ∀ otherwise, fromMemory world ctx.nextId ctx.lastId ctx.step ctx.sender otherwise = .next world' state) ∨
    ∀ otherwise, fromMemory world ctx.nextId ctx.lastId ctx.step ctx.sender otherwise = .hang := by
  unfold LeftToFiles fromMemory
  cases world.mem with
  | none => exact .inl ⟨world, ctx.sender, ⟨rfl, rfl⟩, fun _ => rfl⟩
  | some queue =>
    cases ctx.lastId with
    | some endId =>
      dsimp only
      cases queue.readFull ctx.nextId endId ctx.step ctx.sender with
      | none => exact .inr (.inr fun _ => rfl)
      | some answer =>
        obtain ⟨result, sender⟩ := answer
        cases success : result.success with
        | true => exact .inr (.inl ⟨world, .completed sender, ⟨rfl, rfl⟩, .inl rfl, fun _ => by simp only [success, if_true]⟩)
        | false => exact .inl ⟨world, sender, ⟨rfl, rfl⟩, fun _ => by simp [success]⟩
    | none =>
      dsimp only
      cases queue.followFull ctx.nextId ctx.nextId ctx.step ctx.sender with
      | none => exact .inr (.inr fun _ => rfl)
      | some answer =>
        obtain ⟨result, sender, queue⟩ := answer
        cases success : result.success && result.subscriptionId.isSome with
        | true => exact .inr (.inl ⟨{ world with mem := some queue }, .subscribed sender, ⟨rfl, rfl⟩, .inr rfl,
            fun _ => by simp only [success, if_true]⟩)
        | false => exact .inl ⟨{ world with mem := some queue }, sender, ⟨rfl, rfl⟩, fun _ => by simp [success]⟩

/-- What every transition keeps and can bring about: the disk stays, a task is for the file after the
current one, and only a task that is waited for ends in an I/O error. -/
structure Moved (world : World) (state : ReaderState) (world' : World) (state' : ReaderState) : Prop where
  disk : SameDisk world world'
  ahead : ∀ currentFile ctx handle, state' = .readNextFile currentFile ctx handle →
    ∀ task ∈ handle, task = .pending currentFile.increment
  io : ∀ out, state' = .failed .io out →
    state.isTerminal = true ∨ ∃ currentFile ctx task, state = .readNextFile currentFile ctx (some task)

section Transition

variable {env : Env} {step : Nat} {world world' : World} {state state' : ReaderState}

/-- A state without a task that is no I/O error. -/
def Simple : ReaderState → Bool
  | .readNextFile _ _ (some _) | .failed .io _ => false
  | _ => true

theorem moved_simply (disk : SameDisk world world') (simple : Simple state' = true) :
    Moved world state world' state' := by
  refine ⟨disk, ?_, ?_⟩
  · rintro currentFile ctx handle rfl task rfl
    cases simple
  · rintro out rfl
    cases simple

theorem fromMemory_moved {ctx : ReadContext} {otherwise : Sender → ReaderState}
    (moved : fromMemory world ctx.nextId ctx.lastId ctx.step ctx.sender otherwise = .next world' state') :
    SameDisk world world' ∧ (Simple state' = true ∨ ∃ out, LeftToFiles world ctx world' out ∧ state' = otherwise out) := by
  rcases fromMemory_cases world ctx with ⟨w, out, disk, left⟩ | ⟨w, answer, disk, final, answered⟩ | hangs
  · rw [left otherwise] at moved
    cases moved
    exact ⟨disk, .inr ⟨out, left, rfl⟩⟩
  · rw [answered otherwise] at moved
    cases moved
    refine ⟨disk, .inl ?_⟩
    rcases final with final | final
    · rw [final]
      rfl
    · rw [final]
      rfl
  · rw [hangs otherwise] at moved
    cases moved

theorem handleLookupNegative_moved {offset : UintN} {limit : Nat} {sender : Sender}
    (moved : handleLookupNegative world offset limit step sender = .next world' state') :
    SameDisk world world' ∧ Simple state' = true := by
  unfold handleLookupNegative at moved
  split at moved
  · cases moved
    exact ⟨⟨rfl, rfl⟩, rfl⟩
  · split at moved
    · cases moved
    · split at moved
      · split at moved
        · cases moved
        · split at moved
          · cases moved
            exact ⟨⟨rfl, rfl⟩, rfl⟩
          · split at moved
            · cases moved
            · cases moved
              exact ⟨⟨rfl, rfl⟩, rfl⟩
      · split at moved
        · cases moved
        · dsimp only at moved
          split at moved
          · cases moved
            exact ⟨⟨rfl, rfl⟩, rfl⟩
          · split at moved
            · cases moved
            · cases moved
              exact ⟨⟨rfl, rfl⟩, rfl⟩

theorem handleLookupFile_moved {startId : UintN} {endId : Option UintN} {sender : Sender}
    (moved : handleLookupFile env world startId endId step sender = .next world' state') :
    SameDisk world world' ∧ Simple state' = true := by
  unfold handleLookupFile at moved
  split at moved
  · cases moved
    exact ⟨⟨rfl, rfl⟩, rfl⟩
  · split at moved <;> cases moved <;> exact ⟨⟨rfl, rfl⟩, rfl⟩

theorem handleParseWalBytes_moved {ctx : ReadContext} {walBytes : Bytes} {dataSource : DataSource}
    (moved : handleParseWalBytes env world ctx walBytes dataSource = .next world' state') :
    Moved world state world' state' := by
  have ahead {ctx' : ReadContext} : Moved world state world (.readNextFile ctx.fileId ctx' (prefetchFor ctx)) := by
    refine ⟨⟨rfl, rfl⟩, ?_, by rintro _ ⟨⟩⟩
    rintro _ _ _ ⟨⟩ task spawned
    unfold prefetchFor at spawned
    split at spawned
    · cases spawned
      rfl
    · cases spawned
  unfold handleParseWalBytes at moved
  split at moved
  · cases moved
    exact moved_simply ⟨rfl, rfl⟩ rfl
  · dsimp only at moved
    split at moved <;> cases moved
    · exact moved_simply ⟨rfl, rfl⟩ rfl
    · exact ahead
    · exact moved_simply ⟨rfl, rfl⟩ rfl
    · exact ahead

/-- Memory is asked before the task that reads ahead is looked at. -/
theorem handleReadNextFile_moved {currentFile : UintN} {ctx : ReadContext} {handle : Option Prefetch}
    (moved : transition env step world (.readNextFile currentFile ctx handle) = .next world' state') :
    Moved world (.readNextFile currentFile ctx handle) world' state' := by
  simp only [transition, handleReadNextFile] at moved
  split at moved
  · cases moved
    exact moved_simply ⟨rfl, rfl⟩ rfl
  · split at moved
    · cases moved
      exact moved_simply ⟨rfl, rfl⟩ rfl
    · obtain ⟨disk, simple | ⟨out, -, rfl⟩⟩ := fromMemory_moved moved
      · exact moved_simply disk simple
      · cases handle with
        | none => exact moved_simply disk rfl
        | some task =>
          refine ⟨disk, ?_, fun _ _ => .inr ⟨_, _, _, rfl⟩⟩
          dsimp only [intoNextFile]
          split
          · rintro _ _ _ ⟨⟩
          · rintro _ _ _ ⟨⟩ task ⟨⟩
          · rintro _ _ _ ⟨⟩
          · rintro _ _ _ ⟨⟩

theorem transition_moved (moved : transition env step world state = .next world' state') :
    Moved world state world' state' := by
  cases state with
  | lookupPositive offset limit sender =>
    simp only [transition, handleLookupPositive] at moved
    split at moved
    · cases moved
      exact moved_simply ⟨rfl, rfl⟩ rfl
    · obtain ⟨disk, simple | ⟨out, -, rfl⟩⟩ := @fromMemory_moved _ _ _
        ⟨.zero, offset, step, boundOf offset limit step, sender⟩ _ moved
      · exact moved_simply disk simple
      · exact moved_simply disk rfl
  | lookupNegative offset limit sender =>
    obtain ⟨disk, simple⟩ := handleLookupNegative_moved moved
    exact moved_simply disk simple
  | lookupFile startId endId step sender =>
    obtain ⟨disk, simple⟩ := handleLookupFile_moved moved
    exact moved_simply disk simple
  | readFile ctx =>
    simp only [transition, handleReadFile, Move.next.injEq] at moved
    obtain ⟨rfl, rfl⟩ := moved
    refine moved_simply ⟨rfl, rfl⟩ ?_
    split <;> exact rfl
  | readStore ctx =>
    simp only [transition, handleReadStore, Move.next.injEq] at moved
    obtain ⟨rfl, rfl⟩ := moved
    refine moved_simply ⟨rfl, rfl⟩ ?_
    split
    · exact rfl
    · split <;> exact rfl
  | readWal ctx =>
    simp only [transition, handleReadWal, Move.next.injEq] at moved
    obtain ⟨rfl, rfl⟩ := moved
    refine moved_simply ⟨rfl, rfl⟩ ?_
    split
    · exact rfl
    · split
      · exact rfl
      · split <;> exact rfl
  | readS3 ctx =>
    simp only [transition, handleReadS3, Move.next.injEq] at moved
    obtain ⟨rfl, rfl⟩ := moved
    refine moved_simply ⟨rfl, rfl⟩ ?_
    split
    · exact rfl
    · split
      · exact rfl
      · split <;> exact rfl
  | extractWalBytes ctx storeBytes dataSource =>
    simp only [transition, handleExtractWalBytes] at moved
    split at moved
    · cases moved
      exact moved_simply ⟨rfl, rfl⟩ rfl
    · split at moved <;> cases moved <;> exact moved_simply ⟨rfl, rfl⟩ rfl
  | parseWalBytes ctx walBytes dataSource => exact handleParseWalBytes_moved moved
  | readNextFile currentFile ctx handle => exact handleReadNextFile_moved moved
  | subscribed sender | completed sender =>
    cases moved
    exact moved_simply ⟨rfl, rfl⟩ rfl
  | failed e sender =>
    cases moved
    exact ⟨⟨rfl, rfl⟩, by rintro _ _ _ ⟨⟩, fun _ _ => .inl rfl⟩

theorem transition_closed (closed : state.sender.isClosed = true) (running : state.isTerminal = false) :
    transition env step world state = .next world (.failed .clientDisconnected state.sender) := by
  cases state with
  | lookupPositive offset limit sender =>
    have closed : sender.isClosed = true := closed
    simp [transition, handleLookupPositive, closed, ReaderState.sender]
  | lookupNegative offset limit sender =>
    have closed : sender.isClosed = true := closed
    simp [transition, handleLookupNegative, closed, ReaderState.sender]
  | lookupFile startId endId step sender =>
    have closed : sender.isClosed = true := closed
    simp [transition, handleLookupFile, closed, ReaderState.sender]
  | readFile ctx =>
    have closed : ctx.sender.isClosed = true := closed
    simp [transition, handleReadFile, closed, ReaderState.sender]
  | readStore ctx =>
    have closed : ctx.sender.isClosed = true := closed
    simp [transition, handleReadStore, closed, ReaderState.sender]
  | readWal ctx =>
    have closed : ctx.sender.isClosed = true := closed
    simp [transition, handleReadWal, closed, ReaderState.sender]
  | readS3 ctx =>
    have closed : ctx.sender.isClosed = true := closed
    simp [transition, handleReadS3, closed, ReaderState.sender]
  | extractWalBytes ctx storeBytes dataSource =>
    have closed : ctx.sender.isClosed = true := closed
    simp [transition, handleExtractWalBytes, closed, ReaderState.sender]
  | parseWalBytes ctx walBytes dataSource =>
    have closed : ctx.sender.isClosed = true := closed
    simp [transition, handleParseWalBytes, closed, ReaderState.sender]
  | readNextFile currentFile ctx handle =>
    have closed : ctx.sender.isClosed = true := closed
    simp [transition, handleReadNextFile, closed, ReaderState.sender]
  | subscribed | completed | failed => cases running

end Transition

/-- The states of the two reads: the same one, or one before the next file, or any two that are about to notice
that the receiver has left. -/
inductive Mirrors : ReaderState → ReaderState → Prop
  | same {state : ReaderState} (elsewhere : ∀ currentFile ctx handle, state ≠ .readNextFile currentFile ctx handle) :
    Mirrors state state
  | nextFile (currentFile : UintN) (ctx : ReadContext) (fileId : UintN) {handle : Option Prefetch}
    (ahead : ∀ task ∈ handle, task = .pending currentFile.increment) :
    Mirrors (.readNextFile currentFile ctx handle) (.readNextFile currentFile (ctx.withFileId fileId) none)
  | left {state state' : ReaderState} (sender : state.sender = state'.sender) (closed : state.sender.isClosed = true)
    (running : state.isTerminal = false) (running' : state'.isTerminal = false) : Mirrors state state'

/-- The queue does not end before the next wanted entry. -/
def ReadsOn (world : World) (ctx : ReadContext) : Prop :=
  (world.mem.bind MemQueue.getLastId).any (fun queueLastId => decide (queueLastId < ctx.nextId)) = false

/-- The reader has to wait for the task that reads this file ahead. -/
def WaitsFor (world : World) (state : ReaderState) (fileId : UintN) : Prop :=
  ∃ currentFile ctx world' out, state = .readNextFile currentFile ctx (some (.pending fileId)) ∧
    ctx.sender.isClosed = false ∧ ReadsOn world ctx ∧ LeftToFiles world ctx world' out

/-- The bytes of this file in the store make the extraction panic. -/
def Explodes (env : Env) (disk : Disk) (fileId : UintN) : Prop :=
  ∃ storeBytes, disk.storeFile fileId = some storeBytes ∧
    extractWalBytes env.config fileId storeBytes false = .panic

/-- No task that the reader waits for panics. -/
def Calm (env : Env) (x : World × ReaderState) : Prop :=
  ∀ fileId, WaitsFor x.1 x.2 fileId → ¬ Explodes env x.1.disk fileId

section Mirrors

variable {env : Env} {step : Nat} {world world' : World} {state state' : ReaderState}

theorem Mirrors.sender (mirrors : Mirrors state state') : state.sender = state'.sender := by
  cases mirrors with
  | same => rfl
  | nextFile => rfl
  | left sender => exact sender

theorem Mirrors.terminal (mirrors : Mirrors state state') : state.isTerminal = state'.isTerminal := by
  cases mirrors with
  | same => rfl
  | nextFile => rfl
  | left _ _ running running' => rw [running, running']

theorem Mirrors.eq (mirrors : Mirrors state state') (terminal : state.isTerminal = true) : state' = state := by
  cases mirrors with
  | same => rfl
  | nextFile => cases terminal
  | left _ _ running _ =>
    rw [running] at terminal
    cases terminal

theorem Moved.mirrors (moved : Moved world state world' state') : Mirrors state' state'.plain := by
  cases state' with
  | readNextFile currentFile ctx handle => exact .nextFile currentFile ctx ctx.fileId (moved.ahead _ _ _ rfl)
  | _ => exact .same (by rintro _ _ _ ⟨⟩)

def shown (x : World × ReaderState) : Sender := x.2.sender

theorem plain_goesOn (running : state.isTerminal = false) (moved : transition env step world state = .next world' state') :
    goesOn (plainTransition env step) (world, state) = some (world', state'.plain) := by
  refine goesOn_eq_some.mpr ⟨running, ?_⟩
  rw [plainTransition, moved]
  rfl

/-- From the file on, the plain read comes to where the task would have brought it. -/
theorem plain_cascade {ctx : ReadContext} (opened : ctx.sender.isClosed = false) (cloud : world.cloud = none)
    (sound : ¬ Explodes env world.disk ctx.fileId) :
    (∃ walBytes source, prefetchNextFile env world ctx.fileId = .ok (some (walBytes, source)) ∧
      Glides (goesOn (plainTransition env step)) shown (world, .parseWalBytes ctx walBytes source) (world, .readFile ctx)) ∨
    (prefetchNextFile env world ctx.fileId = .ok none ∧
      Glides (goesOn (plainTransition env step)) shown (world, .readNextFile ctx.fileId ctx none) (world, .readFile ctx)) := by
  have file : transition env step world (.readFile ctx) = .next world (.readStore ctx) := by
    simp [transition, handleReadFile, opened]
  have glides {t final : ReaderState} (first : transition env step world (.readStore ctx) = .next world t)
      (running : t.isTerminal = false) (alike : t.plain = t ∧ t.sender = ctx.sender)
      (alike' : final.plain = final ∧ final.sender = ctx.sender)
      (second : transition env step world t = .next world final) :
      Glides (goesOn (plainTransition env step)) shown (world, final) (world, .readFile ctx) := by
    have one := plain_goesOn rfl first
    have two := plain_goesOn running second
    rw [alike.1] at one
    rw [alike'.1] at two
    exact .more (plain_goesOn rfl file) alike'.2.symm (.more one (alike.2.trans alike'.2.symm) (.once two))
  cases stored : world.disk.storeFile ctx.fileId with
  | some storeBytes =>
    have store : transition env step world (.readStore ctx) = .next world (.extractWalBytes ctx storeBytes .diskStore) := by
      simp [transition, handleReadStore, opened, PersistStore.getStoreBytes, stored]
    have local' : (DataSource.diskStore == DataSource.cloud) = false := rfl
    cases extracted : extractWalBytes env.config ctx.fileId storeBytes false with
    | ok walBytes =>
      refine .inl ⟨walBytes, .diskStore, ?_, glides store rfl ⟨rfl, rfl⟩ ⟨rfl, rfl⟩ ?_⟩
      · simp [prefetchNextFile, PersistStore.getStoreBytes, stored, extracted]
      · simp [transition, handleExtractWalBytes, opened, local', extracted]
    | err e =>
      refine .inr ⟨?_, glides store rfl ⟨rfl, rfl⟩ ⟨rfl, rfl⟩ ?_⟩
      · simp [prefetchNextFile, PersistStore.getStoreBytes, stored, extracted]
      · simp [transition, handleExtractWalBytes, opened, local', extracted]
    | panic => exact absurd ⟨storeBytes, stored, extracted⟩ sound
  | none =>
    have store : transition env step world (.readStore ctx) = .next world (.readWal ctx) := by
      simp [transition, handleReadStore, opened, PersistStore.getStoreBytes, stored]
    cases found : world.disk.walFile ctx.fileId with
    | some walBytes =>
      refine .inl ⟨walBytes, .diskWal, ?_, glides store rfl ⟨rfl, rfl⟩ ⟨rfl, rfl⟩ ?_⟩
      · simp [prefetchNextFile, PersistStore.getStoreBytes, stored, WalStore.getWalBytes, found]
      · simp [transition, handleReadWal, opened, WalStore.getWalBytes, found]
    | none =>
      refine .inr ⟨?_, glides store rfl ⟨rfl, rfl⟩ ⟨rfl, rfl⟩ ?_⟩
      · simp [prefetchNextFile, PersistStore.getStoreBytes, stored, WalStore.getWalBytes, found, cloud]
      · simp [transition, handleReadWal, opened, WalStore.getWalBytes, found, cloud]

theorem prefetchNextFile_congr (disk : SameDisk world world') (fileId : UintN) :
    prefetchNextFile env world' fileId = prefetchNextFile env world fileId := by
  simp only [prefetchNextFile, disk.1, disk.2]

/-- Without a bucket a task does not fail, and it panics only on such bytes. -/
theorem prefetchNextFile_local (cloud : world.cloud = none) {fileId : UintN} (sound : ¬ Explodes env world.disk fileId) :
    ∃ answer, prefetchNextFile env world fileId = .ok answer := by
  unfold prefetchNextFile PersistStore.getStoreBytes
  cases stored : world.disk.storeFile fileId with
  | some storeBytes =>
    cases extracted : extractWalBytes env.config fileId storeBytes false with
    | ok walBytes => exact ⟨some (walBytes, .diskStore), by simp only [extracted]⟩
    | err e => exact ⟨none, by simp only [extracted]⟩
    | panic => exact absurd ⟨storeBytes, stored, extracted⟩ sound
  | none =>
    cases WalStore.getWalBytes world.disk fileId with
    | some walBytes => exact ⟨_, rfl⟩
    | none => exact ⟨none, by simp only [cloud]⟩

/-- A step of the read that reads ahead, and what the plain read does meanwhile. -/
def KeepsPace (env : Env) (step : Nat) (world : World) (state state' : ReaderState) : Prop :=
  (∃ world' next next', transition env step world state = .next world' next ∧ SameDisk world world' ∧
      Mirrors next next' ∧ Glides (goesOn (plainTransition env step)) shown (world', next') (world, state')) ∨
    ((∀ world' next, transition env step world state ≠ .next world' next) ∧
      plainTransition env step world state' = transition env step world state)

theorem keepsPace_once (running : state'.isTerminal = false) (disk : SameDisk world world') {next next' : ReaderState}
    (moved : transition env step world state = .next world' next)
    (moved' : transition env step world state' = .next world' next') (mirrors : Mirrors next next'.plain) :
    KeepsPace env step world state state' :=
  .inl ⟨world', next, next'.plain, moved, disk, mirrors, .once (plain_goesOn running moved')⟩

theorem keepsPace_final (running : state'.isTerminal = false) (disk : SameDisk world world') {final : ReaderState}
    (terminal : final.isTerminal = true) (moved : transition env step world state = .next world' final)
    (moved' : transition env step world state' = .next world' final) : KeepsPace env step world state state' := by
  refine keepsPace_once running disk moved moved' ?_
  cases final with
  | subscribed | completed | failed => exact .same (by rintro _ _ _ ⟨⟩)
  | _ => cases terminal

theorem keepsPace_closed (sender : state.sender = state'.sender) (closed : state.sender.isClosed = true)
    (running : state.isTerminal = false) (running' : state'.isTerminal = false) :
    KeepsPace env step world state state' := by
  have plainly := @transition_closed env step world state' (by rwa [← sender]) running'
  rw [← sender] at plainly
  exact keepsPace_final running' ⟨rfl, rfl⟩ rfl (transition_closed closed running) plainly

theorem keepsPace_same (running : state.isTerminal = false) : KeepsPace env step world state state := by
  cases moved : transition env step world state with
  | next world' next =>
    have step := transition_moved moved
    exact keepsPace_once running step.disk moved moved step.mirrors
  | error | panic | hang => exact .inr ⟨by simp [moved], by rw [plainTransition, moved]; rfl⟩

theorem readNextFile_open {currentFile : UintN} {ctx : ReadContext} {handle : Option Prefetch}
    (opened : ctx.sender.isClosed = false) (continues : ReadsOn world ctx) :
    transition env step world (.readNextFile currentFile ctx handle) =
      fromMemory world ctx.nextId ctx.lastId ctx.step ctx.sender (intoNextFile env world currentFile ctx handle) := by
  rw [ReadsOn] at continues
  simp only [transition, handleReadNextFile, opened, continues, Bool.false_eq_true, if_false]

theorem readNextFile_past {currentFile : UintN} {ctx : ReadContext} {handle : Option Prefetch}
    (opened : ctx.sender.isClosed = false) (past : ¬ ReadsOn world ctx) :
    transition env step world (.readNextFile currentFile ctx handle) = .next world (.completed ctx.sender) := by
  rw [ReadsOn, Bool.not_eq_false] at past
  simp only [transition, handleReadNextFile, opened, past, Bool.false_eq_true, if_false, if_true]

/-- Where the answer of a task brings the read. -/
def arrivesAt (nextFileId : UintN) (ctx : ReadContext) : Option (Bytes × DataSource) → ReaderState
  | some (walBytes, source) => .parseWalBytes (ctx.withFileId nextFileId) walBytes source
  | none => .readNextFile nextFileId ctx none

/-- Memory does not answer: the task is waited for here, the file is read there. -/
theorem keepsPace_files (cloud : world.cloud = none) {currentFile : UintN} {ctx : ReadContext} (fileId : UintN)
    {handle : Option Prefetch} (ahead : ∀ task ∈ handle, task = .pending currentFile.increment)
    (calm : Calm env (world, .readNextFile currentFile ctx handle)) (opened : ctx.sender.isClosed = false)
    (continues : ReadsOn world ctx) {out : Sender} (disk : SameDisk world world') (left : LeftToFiles world ctx world' out) :
    KeepsPace env step world (.readNextFile currentFile ctx handle)
      (.readNextFile currentFile (ctx.withFileId fileId) none) := by
  have here : transition env step world (.readNextFile currentFile ctx handle) =
      .next world' (intoNextFile env world currentFile ctx handle out) := by
    rw [readNextFile_open opened continues]
    exact left _
  have there : transition env step world (.readNextFile currentFile (ctx.withFileId fileId) none) =
      .next world' (.readFile ⟨currentFile.increment, ctx.nextId, ctx.step, ctx.lastId, out⟩) := by
    rw [@readNextFile_open env step world currentFile (ctx.withFileId fileId) none opened continues]
    exact left _
  cases handle with
  | none => exact keepsPace_once rfl disk here there (.same (by rintro _ _ _ ⟨⟩))
  | some task =>
    obtain rfl := ahead task rfl
    have sound : ¬ Explodes env world.disk currentFile.increment :=
      calm _ ⟨currentFile, ctx, world', out, rfl, opened, continues, left⟩
    obtain ⟨answer, fetched⟩ := prefetchNextFile_local cloud sound
    have arrives : intoNextFile env world currentFile ctx (some (.pending currentFile.increment)) out =
        arrivesAt currentFile.increment { ctx with sender := out } answer := by
      rw [intoNextFile, Prefetch.await, fetched]
      cases answer <;> rfl
    rw [arrives] at here
    cases closed : out.isClosed with
    | true =>
      refine keepsPace_once rfl disk here there (.left ?_ ?_ ?_ rfl)
      · cases answer <;> rfl
      · cases answer <;> exact closed
      · cases answer <;> rfl
    | false =>
      have sound' : ¬ Explodes env world'.disk currentFile.increment := by rwa [disk.1]
      rcases @plain_cascade env step world' ⟨currentFile.increment, ctx.nextId, ctx.step, ctx.lastId, out⟩ closed
        (by rw [disk.2, cloud]) sound' with ⟨walBytes, source, same, glides⟩ | ⟨same, glides⟩
      · rw [prefetchNextFile_congr disk, fetched] at same
        cases same
        exact .inl ⟨world', _, _, here, disk, .same (by rintro _ _ _ ⟨⟩), .more (plain_goesOn rfl there) rfl glides⟩
      · rw [prefetchNextFile_congr disk, fetched] at same
        cases same
        exact .inl ⟨world', _, _, here, disk, .nextFile _ _ _ (by rintro _ ⟨⟩), .more (plain_goesOn rfl there) rfl glides⟩

theorem keepsPace_nextFile (cloud : world.cloud = none) {currentFile : UintN} {ctx : ReadContext} (fileId : UintN)
    {handle : Option Prefetch} (ahead : ∀ task ∈ handle, task = .pending currentFile.increment)
    (calm : Calm env (world, .readNextFile currentFile ctx handle)) :
    KeepsPace env step world (.readNextFile currentFile ctx handle)
      (.readNextFile currentFile (ctx.withFileId fileId) none) := by
  cases opened : ctx.sender.isClosed with
  | true => exact keepsPace_closed rfl opened rfl rfl
  | false =>
    by_cases continues : ReadsOn world ctx
    · have plainly := @readNextFile_open env step world currentFile (ctx.withFileId fileId) none opened continues
      rcases fromMemory_cases world ctx with ⟨w, out, disk, left⟩ | ⟨w, answer, disk, final, answered⟩ | hangs
      · exact keepsPace_files cloud fileId ahead calm opened continues disk left
      · refine keepsPace_final rfl disk ?_ (by rw [readNextFile_open opened continues]; exact answered _)
          (by rw [plainly]; exact answered _)
        rcases final with final | final
        · rw [final]
          rfl
        · rw [final]
          rfl
      · have here : transition env step world (.readNextFile currentFile ctx handle) = .hang := by
          rw [readNextFile_open opened continues]
          exact hangs _
        refine .inr ⟨by simp [here], ?_⟩
        rw [plainTransition, plainly, here]
        exact congrArg Move.plain (hangs _)
    · exact keepsPace_final rfl ⟨rfl, rfl⟩ rfl (readNextFile_past opened continues)
        (@readNextFile_past env step world currentFile (ctx.withFileId fileId) none opened continues)

theorem Mirrors.keepsPace (mirrors : Mirrors state state') (cloud : world.cloud = none) (calm : Calm env (world, state))
    (running : state.isTerminal = false) : KeepsPace env step world state state' := by
  cases mirrors with
  | same => exact keepsPace_same running
  | nextFile currentFile ctx fileId ahead => exact keepsPace_nextFile cloud fileId ahead calm
  | left sender closed running running' => exact keepsPace_closed sender closed running running'

/-- The two reads are in the same world and in states that mirror each other. -/
def Abreast (x y : World × ReaderState) : Prop := x.1 = y.1 ∧ x.1.cloud = none ∧ Mirrors x.2 y.2

theorem prefetch_simulates (env : Env) (step : Nat) :
    Simulates (goesOn (transition env step)) (goesOn (plainTransition env step)) shown shown (Calm env) Abreast where
  shows := by
    rintro ⟨world, state⟩ ⟨_, state'⟩ ⟨rfl, -, mirrors⟩
    exact mirrors.sender
  moves := by
    rintro ⟨world, state⟩ ⟨_, state'⟩ ⟨world', next⟩ ⟨rfl, cloud, mirrors⟩ calm moved
    obtain ⟨running, moved⟩ := goesOn_eq_some.mp moved
    rcases mirrors.keepsPace cloud calm running with ⟨w, _, next', moved', disk, still, glides⟩ | ⟨no, -⟩
    · rw [moved] at moved'
      cases moved'
      exact ⟨(world', next'), glides, rfl, disk.2.trans cloud, still⟩
    · exact absurd moved (no _ _)
  stops := by
    rintro ⟨world, state⟩ ⟨_, state'⟩ ⟨rfl, cloud, mirrors⟩ calm stopped
    cases running : state.isTerminal with
    | true =>
      obtain rfl : state' = state := mirrors.eq running
      exact if_pos running
    | false =>
      have no := (goesOn_eq_none running).mp stopped
      rcases mirrors.keepsPace cloud calm running with ⟨w, next, next', moved, -⟩ | ⟨-, same⟩
      · exact absurd moved (no _ _)
      · refine (goesOn_eq_none (by rwa [← mirrors.terminal])).mpr ?_
        rwa [same]

end Mirrors

section Reads

variable {env : Env} {step limit : Nat} {world : World} {position : ReadPosition} {sender : Sender}

/-- No task that the read waits for comes to bytes that make it panic. -/
def Undisturbed (env : Env) (reads : Nat → Move) : Prop :=
  ∀ n world' state', reads n = .next world' state' → Calm env (world', state')

theorem Simple.plain {state : ReaderState} (noIo : ∀ out, state ≠ .failed .io out) : Simple state.plain = true := by
  cases state with
  | failed e out =>
    cases e with
    | io => exact absurd rfl (noIo out)
    | _ => rfl
  | _ => rfl

theorem plain_simple {x y : World × ReaderState} (simple : Simple x.2 = true)
    (moved : goesOn (plainTransition env step) x = some y) : Simple y.2 = true := by
  obtain ⟨world, state⟩ := x
  obtain ⟨world', state'⟩ := y
  obtain ⟨running, moved⟩ := goesOn_eq_some.mp moved
  rw [plainTransition] at moved
  cases next : transition env step world state with
  | next w s =>
    rw [next] at moved
    cases moved
    refine Simple.plain ?_
    rintro out rfl
    rcases (transition_moved next).io out rfl with terminal | ⟨currentFile, ctx, task, rfl⟩
    · rw [running] at terminal
      cases terminal
    · cases simple
  | error | panic | hang =>
    rw [next] at moved
    cases moved

theorem plainRead_simple {n : Nat} {world' : World} {state' : ReaderState}
    (came : plainRead env position limit step world sender n = .next world' state') : Simple state' = true := by
  unfold plainRead at came
  split at came
  · cases came
  · obtain ⟨m, reached⟩ := runWith_reaches.mp ⟨n, came⟩
    refine after_invariant (fun _ _ => plain_simple) ?_ reached
    cases position <;> rfl

theorem undisturbed_of_sound (sound : ∀ fileId, ¬ Explodes env world.disk fileId) :
    Undisturbed env (read env position limit step world sender) := by
  intro n world' state' came fileId _ explodes
  unfold read at came
  split at came
  · cases came
  · obtain ⟨m, reached⟩ := runWith_reaches.mp ⟨n, came⟩
    have keeps : ∀ x y : World × ReaderState, x.1.disk = world.disk → goesOn (transition env step) x = some y →
        y.1.disk = world.disk := by
      intro x y same moved
      exact (transition_moved (goesOn_eq_some.mp moved).2).disk.1.trans same
    have same : world'.disk = world.disk := after_invariant keeps rfl reached
    rw [same] at explodes
    exact sound fileId explodes

theorem panicking_task {state : ReaderState} {fileId : UintN} (waits : WaitsFor world state fileId)
    (explodes : Explodes env world.disk fileId) :
    ∃ world' out, goesOn (transition env step) (world, state) = some (world', .failed .io out) := by
  obtain ⟨currentFile, ctx, world', out, rfl, opened, continues, left⟩ := waits
  obtain ⟨storeBytes, stored, extracted⟩ := explodes
  refine ⟨world', out, goesOn_eq_some.mpr ⟨rfl, ?_⟩⟩
  have fetched : prefetchNextFile env world fileId = .panic := by
    simp only [prefetchNextFile, PersistStore.getStoreBytes, stored, extracted]
  rw [readNextFile_open opened continues, left, intoNextFile, Prefetch.await, fetched]

/-- Two runs that start abreast, the first of them calm all the way. -/
theorem sameReads_of_calm {start : ReaderState} (calm : Always (goesOn (transition env step)) (Calm env) (world, start))
    (abreast : Abreast (world, start) (world, start)) :
    SameReads (fun n => runWith (transition env step) n world start)
      (fun n => runWith (plainTransition env step) n world start) where
  delivers := by
    intro out
    constructor
    · rintro ⟨n, world', state', came, rfl⟩
      obtain ⟨k, reached⟩ := runWith_reaches.mp ⟨n, came⟩
      obtain ⟨m, ⟨_, state''⟩, plainly, rfl, -, mirrors⟩ := (prefetch_simulates env step).forward calm abreast reached
      obtain ⟨n, came⟩ := runWith_reaches.mpr ⟨m, plainly⟩
      exact ⟨n, _, state'', came, mirrors.sender.symm⟩
    · rintro ⟨n, world', state', came, rfl⟩
      obtain ⟨k, reached⟩ := runWith_reaches.mp ⟨n, came⟩
      obtain ⟨m, ⟨w, state''⟩, ahead, shows, -⟩ := (prefetch_simulates env step).backward calm abreast reached
      obtain ⟨n, came⟩ := runWith_reaches.mpr ⟨m, ahead⟩
      exact ⟨n, w, state'', came, shows⟩
  ends := by
    intro world' final terminal
    simp only [runWith_reaches]
    constructor
    · rintro ⟨n, reached⟩
      obtain ⟨m, ⟨_, state''⟩, plainly, rfl, -, mirrors⟩ := (prefetch_simulates env step).forward calm abreast reached
      obtain rfl : state'' = final := mirrors.eq terminal
      exact ⟨m, plainly⟩
    · rintro ⟨n, reached⟩
      obtain ⟨m, ⟨w, state''⟩, ahead, -, related⟩ := (prefetch_simulates env step).backward calm abreast reached
      obtain ⟨rfl, -, mirrors⟩ := related (if_pos terminal)
      obtain rfl : final = state'' := mirrors.eq (by rwa [mirrors.terminal])
      exact ⟨m, ahead⟩
  refuses := by
    intro e
    simp only [runWith_refuses]
    constructor
    · rintro ⟨n, world', state', reached, running, gives⟩
      obtain ⟨m, ⟨_, state''⟩, plainly, rfl, cloud, mirrors⟩ := (prefetch_simulates env step).forward calm abreast reached
      refine ⟨m, _, state'', plainly, by rwa [← mirrors.terminal], ?_⟩
      rcases mirrors.keepsPace cloud (calm n _ reached) running with ⟨w, next, -, moved, -⟩ | ⟨-, same⟩
      · rw [gives] at moved
        cases moved
      · exact same.trans gives
    · rintro ⟨n, world', state', reached, running, gives⟩
      have stopped : goesOn (plainTransition env step) (world', state') = none :=
        (goesOn_eq_none running).mpr (by simp [gives])
      obtain ⟨m, ⟨w, state''⟩, ahead, -, related⟩ := (prefetch_simulates env step).backward calm abreast reached
      obtain ⟨rfl, cloud, mirrors⟩ := related stopped
      have running' : state''.isTerminal = false := by rwa [← mirrors.terminal] at running
      refine ⟨m, _, state'', ahead, running', ?_⟩
      rcases mirrors.keepsPace cloud (calm m _ ahead) running' with ⟨_, _, _, _, _, _, glides⟩ | ⟨-, same⟩
      · exact absurd stopped glides.ne_none
      · exact same.symm.trans gives

/- Reading ahead changes neither what is delivered nor how the read ends, if and only if no task that the read
waits for panics. -/
theorem prefetch_changes_nothing_iff (env : Env) {world : World} (cloud : world.cloud = none) (position : ReadPosition)
    (limit step : Nat) (sender : Sender) :
    SameReads (read env position limit step world sender) (plainRead env position limit step world sender) ↔
      Undisturbed env (read env position limit step world sender) := by
  cases closed : sender.isClosed with
  | true =>
    have here : read env position limit step world sender = fun _ => .error .clientDisconnected := by
      funext n
      rw [read, closed]
      rfl
    have there : plainRead env position limit step world sender = fun _ => .error .clientDisconnected := by
      funext n
      rw [plainRead, closed]
      rfl
    rw [here, there]
    refine ⟨fun _ => ?_, fun _ => ⟨fun _ => Iff.rfl, fun _ _ _ => Iff.rfl, fun _ => Iff.rfl⟩⟩
    intro n world' state' came
    cases came
  | false =>
    have here : read env position limit step world sender =
        fun n => runWith (transition env step) n world (initialState position limit sender) := by
      funext n
      rw [read, closed]
      rfl
    have there : plainRead env position limit step world sender =
        fun n => runWith (plainTransition env step) n world (initialState position limit sender) := by
      funext n
      rw [plainRead, closed]
      rfl
    rw [here, there]
    constructor
    · intro same n world' state' came fileId waits explodes
      obtain ⟨w, out, failed⟩ := @panicking_task env step world' state' fileId waits explodes
      obtain ⟨m, reached⟩ := runWith_reaches.mp ⟨n, came⟩
      obtain ⟨k, plainly⟩ := (same.ends w (.failed .io out) rfl).mp
        (runWith_reaches.mpr ⟨m + 1, after_add reached (after_succ.mpr ⟨_, failed, rfl⟩)⟩)
      have simple := plainRead_simple (congrFun there k |>.trans plainly)
      cases simple
    · intro undisturbed
      have calm : Always (goesOn (transition env step)) (Calm env) (world, initialState position limit sender) := by
        rintro n ⟨world', state'⟩ came
        obtain ⟨m, reached⟩ := runWith_reaches.mpr ⟨n, came⟩
        exact undisturbed m world' state' reached
      refine sameReads_of_calm calm ⟨rfl, cloud, .same ?_⟩
      cases position <;> rintro _ _ _ ⟨⟩

end Reads

namespace Move

def ioSender : Move → Option Sender
  | next _ (.failed .io sender) => some sender
  | _ => none

def isPanic : Move → Bool
  | panic => true
  | _ => false

theorem ioSender_eq_some {move : Move} {sender : Sender} (ends : move.ioSender = some sender) :
    ∃ world, move = next world (.failed .io sender) := by
  unfold ioSender at ends
  split at ends
  · cases ends
    exact ⟨_, rfl⟩
  · cases ends

end Move

namespace Sample

/-- A store file whose header announces a number of `2 ^ 64 - 1` bytes. -/
def overlong : Bytes :=
  ⟨signatures.writeToBytes ++ (List.replicate 24 0 ++ List.replicate 8 255), by
    rw [List.length_append, FileAuthentication.length_writeToBytes]
    decide⟩

/-- File 0 in the store, then this file, and file 2 in the WAL; memory knows of entry 2 only. -/
def overlongNext : World where
  disk := ⟨[((UintN.ofUbig 2).toFilePath walExtension, walFile 2)],
    [((UintN.ofUbig 0).toFilePath storeExtension, storedFile 0),
      ((UintN.ofUbig 1).toFilePath storeExtension, overlong)]⟩
  ranges := []
  mem := some (.new (some (number 2)) 100)
  cloud := none

def holedWorld : World := ⟨patchwork, [], some (.new (some (number 4)) 100), none⟩

end Sample

/- The reader delivers entry 0 and then waits for the task that reads file 1 ahead. The task panics: with it the
read ends in an I/O error, without it the read itself panics. -/
theorem prefetch_hides_panic :
    (∃ n world' out, read Sample.env (.absolute .zero) 3 1 Sample.overlongNext (.staying []) n =
      .next world' (.failed .io out)) ∧
    (∃ n, (plainRead Sample.env (.absolute .zero) 3 1 Sample.overlongNext (.staying []) n).isPanic = true) ∧
    ¬ SameReads (read Sample.env (.absolute .zero) 3 1 Sample.overlongNext (.staying []))
      (plainRead Sample.env (.absolute .zero) 3 1 Sample.overlongNext (.staying [])) := by
  have fails : (read Sample.env (.absolute .zero) 3 1 Sample.overlongNext (.staying []) 8).ioSender.isSome = true := by
    decide +kernel
  obtain ⟨out, failed⟩ := Option.isSome_iff_exists.mp fails
  obtain ⟨world', ended⟩ := Move.ioSender_eq_some failed
  refine ⟨⟨8, world', out, ended⟩, ⟨10, by decide +kernel⟩, ?_⟩
  intro same
  obtain ⟨n, plainly⟩ := (same.ends world' (.failed .io out) rfl).mp ⟨8, ended⟩
  cases plainRead_simple plainly

theorem prefetch_among_holes :
    SameReads (read Sample.env (.absolute .zero) 3 1 Sample.holedWorld (.staying []))
      (plainRead Sample.env (.absolute .zero) 3 1 Sample.holedWorld (.staying [])) := by
  refine (prefetch_changes_nothing_iff Sample.env rfl (.absolute .zero) 3 1 (.staying [])).mpr
    (undisturbed_of_sound ?_)
  rintro fileId ⟨storeBytes, stored, panics⟩
  rw [Disk.storeFile_eq] at stored
  obtain ⟨-, rfl⟩ := Sample.strewn_storeAt stored
  have packed : StoreFile Sample.config fileId (Sample.storedFile fileId.toNat) (Sample.walFile fileId.toNat)
      (Sample.packed (Sample.number fileId.toNat)) := Sample.storeFile rfl rfl fileId
  have extracted : extractWalBytes Sample.env.config fileId (Sample.storedFile fileId.toNat) false = .ok _ :=
    packed.extracted
  rw [extracted] at panics
  cases panics

end NormFS
