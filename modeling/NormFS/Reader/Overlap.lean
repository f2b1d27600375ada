import NormFS.Reader.Fsm
import NormFS.Store.Worker

/-! A reader and a prefetch task look for a file while the worker moves it into the store. Each looks
into the store first and into the WAL then; the worker puts the file into the store and then takes it
out of the WAL. Nothing keeps the two looks together, so both moves may happen between them. -/
namespace NormFS

open Runs

/-- How far a prefetch task has come. -/
inductive PrefetchPhase where
  | store
  | wal
  | cloud
  | done (result : PrefetchResult)

/-- The states in which a reader has a file number and no bytes of the file yet. -/
def ReaderState.probing : ReaderState → Bool
  | readFile _ | readStore _ | readWal _ | readS3 _ | extractWalBytes _ _ _ => true
  | _ => false

structure Overlap where
  world : World
  worker : WorkerState
  reader : Option ReaderState
  ahead : Option PrefetchPhase

def Overlap.migration (s : Overlap) : Migration := ⟨s.world.disk, s.world.ranges, s.worker⟩

inductive OverlapEvent where
  | worker (event : WorkerEvent)
  | look (ctx : ReadContext)
  | reader
  | lookAhead
  | ahead

section Machine

variable (env : Env) (sealer : Sealer) (walFile : WalFile)

/- The body of `prefetchNextFile`, one look after the other. -/
def prefetchStep (world : World) (fileId : UintN) : PrefetchPhase → Option PrefetchPhase
  | .store =>
    match PersistStore.getStoreBytes world.disk fileId with
    | some storeBytes =>
      match extractWalBytes env.config fileId storeBytes false with
      | .ok walBytes => some (.done (.ok (some (walBytes, .diskStore))))
      | .err _ => some (.done (.ok none))
      | .panic => some (.done .panic)
    | none => some .wal
  | .wal =>
    match WalStore.getWalBytes world.disk fileId with
    | some walBytes => some (.done (.ok (some (walBytes, .diskWal))))
    | none => some .cloud
  | .cloud =>
    match world.cloud with
    | none => some (.done (.ok none))
    | some s3 =>
      match s3.getStoreBytes fileId with
      | .ok (some storeBytes) =>
        match extractWalBytes env.config fileId storeBytes true with
        | .ok walBytes => some (.done (.ok (some (walBytes, .cloud))))
        | .err _ => some (.done (.ok none))
        | .panic => some (.done .panic)
      | .ok none => some (.done (.ok none))
      | .error e => some (.done (.err (.cloud e)))
  | .done _ => none

theorem prefetchStep_finishes (world : World) (fileId : UintN) : ∃ n,
    Runs.run (fun phase (_ : Unit) => prefetchStep env world fileId phase) .store (List.replicate n ()) =
      some (.done (prefetchNextFile env world fileId)) := by
  unfold prefetchNextFile
  cases store : PersistStore.getStoreBytes world.disk fileId with
  | some storeBytes =>
    refine ⟨1, ?_⟩
    cases extracted : extractWalBytes env.config fileId storeBytes false <;>
      simp [Runs.run, prefetchStep, store, extracted]
  | none =>
    cases wal : WalStore.getWalBytes world.disk fileId with
    | some walBytes => exact ⟨2, by simp [Runs.run, prefetchStep, store, wal]⟩
    | none =>
      refine ⟨3, ?_⟩
      cases cloud : world.cloud with
      | none => simp [Runs.run, prefetchStep, store, wal, cloud]
      | some s3 =>
        rcases answer : s3.getStoreBytes fileId with e | _ | storeBytes
        · simp [Runs.run, prefetchStep, store, wal, cloud, answer]
        · simp [Runs.run, prefetchStep, store, wal, cloud, answer]
        · cases extracted : extractWalBytes env.config fileId storeBytes true <;>
            simp [Runs.run, prefetchStep, store, wal, cloud, answer, extracted]

/- Looking for the file may begin at any time. A panic ends the reader. -/
def Overlap.step (s : Overlap) : OverlapEvent → Option Overlap
  | .worker event => (s.migration.step sealer walFile env.xxh64 event).map (fun m =>
      { s with world := { s.world with disk := m.disk, ranges := m.ranges }, worker := m.worker })
  | .look ctx => some { s with reader := some (.readFile (ctx.withFileId walFile.fileId)) }
  | .reader => s.reader.bind (fun state =>
      if state.probing then
        match transition env 1 s.world state with
        | .next world state => some { s with world := world, reader := some state }
        | _ => some { s with reader := some (.failed .io state.sender) }
      else none)
  | .lookAhead => some { s with ahead := some .store }
  | .ahead => s.ahead.bind (fun phase => (prefetchStep env s.world walFile.fileId phase).map (fun phase =>
      { s with ahead := some phase }))

/-- Someone has looked into the store in vain and not into the WAL yet. -/
def Overlap.between (s : Overlap) : Bool :=
  s.reader.any (fun state => match state with | .readWal _ => true | _ => false) ||
    s.ahead.any (fun phase => match phase with | .wal => true | _ => false)

/-- The worker deletes the WAL file only when nobody is between the two looks, and renames only a store
file that is complete. -/
def Overlap.undisturbed (s : Overlap) : OverlapEvent → Bool
  | .worker event => s.worker.tells event && (match event, s.worker with
    | .proceed, .recorded => !s.between
    | _, _ => true)
  | _ => true

end Machine

section Finding

variable {env : Env} {sealer : Sealer} {walFile : WalFile} {wal : Bytes}

/-- The reader has missed nothing so far. -/
def ReaderState.Finds (env : Env) (fileId : UintN) (wal : Bytes) (disk : Disk) : ReaderState → Prop
  | readFile ctx | readStore ctx => ctx.fileId = fileId
  | readWal ctx => ctx.fileId = fileId ∧ (disk.walFile fileId).isSome
  | extractWalBytes ctx storeBytes dataSource => ctx.fileId = fileId ∧ dataSource = .diskStore ∧
      NormFS.extractWalBytes env.config fileId storeBytes false = .ok wal
  | parseWalBytes ctx walBytes _ => ctx.fileId = fileId ∧ walBytes = wal
  | failed error sender => error = .clientDisconnected ∧ sender.isClosed = true
  | _ => False

def PrefetchPhase.Finds (fileId : UintN) (wal : Bytes) (disk : Disk) : PrefetchPhase → Prop
  | store => True
  | .wal => (disk.walFile fileId).isSome
  | cloud => False
  | done result => ∃ source, result = .ok (some (wal, source))

/-- How many looks and unpackings are left at most. -/
def ReaderState.looksLeft : ReaderState → Nat
  | readFile _ => 3
  | readStore _ => 2
  | readWal _ | extractWalBytes _ _ _ => 1
  | _ => 0

def PrefetchPhase.looksLeft : PrefetchPhase → Nat
  | .store => 2
  | .wal => 1
  | _ => 0

structure Overlap.Sound (env : Env) (sealer : Sealer) (walFile : WalFile) (wal : Bytes) (s : Overlap) :
    Prop where
  safe : s.migration.Safe env.xxh64 sealer env.config walFile wal
  reader : ∀ state, s.reader = some state → state.Finds env walFile.fileId wal s.world.disk
  ahead : ∀ phase, s.ahead = some phase → phase.Finds walFile.fileId wal s.world.disk

variable {m : Migration} {s : Overlap}

theorem Migration.Safe.inWal_of_noStore (safe : m.Safe env.xxh64 sealer env.config walFile wal)
    (absent : m.disk.storeFile walFile.fileId = none) : (m.disk.walFile walFile.fileId).isSome := by
  have somewhere := safe.somewhere
  rw [absent] at somewhere
  exact somewhere.resolve_right (by simp)

theorem Migration.Safe.walFile_eq (safe : m.Safe env.xxh64 sealer env.config walFile wal)
    (present : (m.disk.walFile walFile.fileId).isSome) : m.disk.walFile walFile.fileId = some wal := by
  obtain ⟨file, found⟩ := Option.isSome_iff_exists.mp present
  rw [found, safe.inWal file found]

/- Each transition of a reader that looks for the file brings it nearer to the content. -/
theorem Overlap.Sound.transition (sound : s.Sound env sealer walFile wal) {state : ReaderState}
    (finds : state.Finds env walFile.fileId wal s.world.disk) (probing : state.probing = true) :
    ∃ next, NormFS.transition env 1 s.world state = .next s.world next ∧
      next.Finds env walFile.fileId wal s.world.disk ∧ next.looksLeft < state.looksLeft := by
  cases state with
  | readFile ctx =>
    refine ⟨_, rfl, ?_⟩
    split
    · rename_i closed
      exact ⟨⟨rfl, closed⟩, Nat.zero_lt_succ _⟩
    · exact ⟨finds, Nat.lt_succ_self _⟩
  | readStore ctx =>
    have same : ctx.fileId = walFile.fileId := finds
    refine ⟨_, rfl, ?_⟩
    split
    · rename_i closed
      exact ⟨⟨rfl, closed⟩, Nat.zero_lt_succ _⟩
    · rw [same]
      cases store : PersistStore.getStoreBytes s.world.disk walFile.fileId with
      | some storeBytes =>
        exact ⟨⟨same, rfl, (sound.safe.inStore storeBytes store).content false⟩, Nat.lt_succ_self _⟩
      | none => exact ⟨⟨same, sound.safe.inWal_of_noStore store⟩, Nat.lt_succ_self _⟩
  | readWal ctx =>
    obtain ⟨same, present⟩ := finds
    refine ⟨_, rfl, ?_⟩
    split
    · rename_i closed
      exact ⟨⟨rfl, closed⟩, Nat.zero_lt_succ _⟩
    · have found : WalStore.getWalBytes s.world.disk walFile.fileId = some wal := sound.safe.walFile_eq present
      rw [same, found]
      exact ⟨⟨same, rfl⟩, Nat.lt_succ_self _⟩
  | extractWalBytes ctx storeBytes dataSource =>
    obtain ⟨same, rfl, extracted⟩ := finds
    change ∃ next, handleExtractWalBytes env s.world ctx storeBytes .diskStore = .next s.world next ∧ _
    unfold handleExtractWalBytes
    split
    · rename_i closed
      exact ⟨_, rfl, ⟨rfl, closed⟩, Nat.zero_lt_succ _⟩
    · rw [same, show (DataSource.diskStore == DataSource.cloud) = false from rfl, extracted]
      exact ⟨_, rfl, ⟨same, rfl⟩, Nat.lt_succ_self _⟩
  | readS3 => exact absurd finds id
  | lookupPositive | lookupNegative | lookupFile | parseWalBytes | readNextFile | subscribed | completed | failed =>
    cases probing

theorem Overlap.Sound.prefetchStep (sound : s.Sound env sealer walFile wal) {phase : PrefetchPhase}
    (finds : phase.Finds walFile.fileId wal s.world.disk) (left : 0 < phase.looksLeft) :
    ∃ next, NormFS.prefetchStep env s.world walFile.fileId phase = some next ∧
      next.Finds walFile.fileId wal s.world.disk ∧ next.looksLeft < phase.looksLeft := by
  cases phase with
  | store =>
    cases store : PersistStore.getStoreBytes s.world.disk walFile.fileId with
    | some storeBytes =>
      refine ⟨.done (.ok (some (wal, .diskStore))), ?_, ⟨.diskStore, rfl⟩, Nat.zero_lt_succ _⟩
      simp only [NormFS.prefetchStep, store, (sound.safe.inStore storeBytes store).content false]
    | none =>
      refine ⟨.wal, ?_, sound.safe.inWal_of_noStore store, Nat.lt_succ_self _⟩
      simp only [NormFS.prefetchStep, store]
  | wal =>
    have found : WalStore.getWalBytes s.world.disk walFile.fileId = some wal := sound.safe.walFile_eq finds
    refine ⟨.done (.ok (some (wal, .diskWal))), ?_, ⟨.diskWal, rfl⟩, Nat.lt_succ_self _⟩
    simp only [NormFS.prefetchStep, found]
  | cloud => exact absurd finds id
  | done => cases left

theorem Migration.step_keeps_wal {xxh64 : Hash} {next : Migration} {event : WorkerEvent}
    (moved : m.step sealer walFile xxh64 event = some next)
    (kept : event = .proceed → m.worker ≠ .recorded) (fileId : UintN) :
    next.disk.walFile fileId = m.disk.walFile fileId := by
  rcases disk_migration moved with same | ⟨file, same⟩ | ⟨rfl, recorded, -⟩
  · rw [same]
  · rw [same]
    rfl
  · exact absurd recorded (kept rfl)

/-- Whoever stands between the two looks still finds the file in the WAL. -/
theorem Overlap.Sound.worker {event : WorkerEvent}
    (sound : s.Sound env sealer walFile wal)
    (moved : s.migration.step sealer walFile env.xxh64 event = some m)
    (met : s.undisturbed (.worker event) = true) :
    (∀ state, s.reader = some state → state.Finds env walFile.fileId wal m.disk) ∧
    ∀ phase, s.ahead = some phase → phase.Finds walFile.fileId wal m.disk := by
  by_cases deleting : event = .proceed ∧ s.worker = .recorded
  · obtain ⟨rfl, recorded⟩ := deleting
    simp only [Overlap.undisturbed, recorded, Overlap.between, Bool.and_eq_true, Bool.not_eq_true',
      Bool.or_eq_false_iff] at met
    obtain ⟨-, readerAway, aheadAway⟩ := met
    refine ⟨?_, ?_⟩
    · intro state reading
      have finds := sound.reader state reading
      rw [reading] at readerAway
      cases state with
      | readWal ctx => cases readerAway
      | _ => exact finds
    · intro phase going
      have finds := sound.ahead phase going
      rw [going] at aheadAway
      cases phase with
      | wal => cases aheadAway
      | _ => exact finds
  · have same := Migration.step_keeps_wal moved
      (fun proceeding recorded => deleting ⟨proceeding, recorded⟩) walFile.fileId
    have same' : m.disk.walFile walFile.fileId = s.world.disk.walFile walFile.fileId := same
    refine ⟨?_, ?_⟩
    · intro state reading
      have finds := sound.reader state reading
      cases state with
      | readWal ctx => exact ⟨finds.1, same' ▸ finds.2⟩
      | _ => exact finds
    · intro phase going
      have finds := sound.ahead phase going
      cases phase with
      | wal =>
        show Option.isSome _ = true
        rw [same']
        exact finds
      | _ => exact finds

theorem Overlap.Sound.step (inverse : sealer.Inverse env.config.codec) {next : Overlap} {event : OverlapEvent}
    (sound : s.Sound env sealer walFile wal) (met : s.undisturbed event = true)
    (moved : s.step env sealer walFile event = some next) : next.Sound env sealer walFile wal := by
  cases event with
  | worker event =>
    obtain ⟨m, worked, rfl⟩ := Option.map_eq_some_iff.mp moved
    have safe := sound.safe.step inverse (Bool.and_eq_true_iff.mp met).1 worked
    obtain ⟨reader, ahead⟩ := sound.worker worked met
    exact ⟨safe, reader, ahead⟩
  | look ctx =>
    cases moved
    refine ⟨sound.safe, ?_, sound.ahead⟩
    rintro _ ⟨⟩
    rfl
  | reader =>
    obtain ⟨state, reading, taken⟩ := Option.bind_eq_some_iff.mp moved
    split at taken
    · rename_i probing
      obtain ⟨after, went, finds, -⟩ := sound.transition (sound.reader state reading) probing
      rw [went] at taken
      cases taken
      refine ⟨sound.safe, ?_, sound.ahead⟩
      rintro _ ⟨⟩
      exact finds
    · cases taken
  | lookAhead =>
    cases moved
    refine ⟨sound.safe, sound.reader, ?_⟩
    rintro _ ⟨⟩
    trivial
  | ahead =>
    obtain ⟨phase, going, taken⟩ := Option.bind_eq_some_iff.mp moved
    obtain ⟨after, went, rfl⟩ := Option.map_eq_some_iff.mp taken
    refine ⟨sound.safe, sound.reader, ?_⟩
    rintro _ ⟨⟩
    cases left : phase.looksLeft with
    | zero =>
      have finds := sound.ahead phase going
      cases phase with
      | cloud => exact absurd finds id
      | done => cases went
      | store | wal => cases left
    | succ n =>
      obtain ⟨after', went', finds, -⟩ := sound.prefetchStep (sound.ahead phase going) (by omega)
      cases went.symm.trans went'
      exact finds

/- While nobody is overtaken, whoever looks for the file has its content, or has no one left to give it
to, or gets nearer to it with its next step; so three steps of its own are enough. -/
theorem migration_unnoticed (inverse : sealer.Inverse env.config.codec) {start final : Overlap}
    {events : List OverlapEvent} (started : start.worker = .started)
    (closed : start.world.disk.walFile walFile.fileId = some wal)
    (unmoved : start.world.disk.storeFile walFile.fileId = none)
    (idle : start.reader = none ∧ start.ahead = none)
    (along : Along (Overlap.step env sealer walFile) (Overlap.undisturbed · ·) start events)
    (ran : Runs.run (Overlap.step env sealer walFile) start events = some final) :
    (∀ state, final.reader = some state →
      (∃ ctx source, ctx.fileId = walFile.fileId ∧ state = .parseWalBytes ctx wal source) ∨
      (∃ sender, sender.isClosed = true ∧ state = .failed .clientDisconnected sender) ∨
      ∃ next after, final.step env sealer walFile .reader = some next ∧ next.reader = some after ∧
        after.looksLeft < state.looksLeft) ∧
    ∀ phase, final.ahead = some phase →
      (∃ source, phase = .done (.ok (some (wal, source)))) ∨
      ∃ next after, final.step env sealer walFile .ahead = some next ∧ next.ahead = some after ∧
        after.looksLeft < phase.looksLeft := by
  have sound : start.Sound env sealer walFile wal := by
    refine ⟨.start started closed unmoved, ?_, ?_⟩
    · intro state reading
      cases idle.1.symm.trans reading
    · intro phase going
      cases idle.2.symm.trans going
  have always := run_invariant (Overlap.Sound env sealer walFile wal)
    (fun _ _ _ sound met moved => sound.step inverse met moved) sound along ran
  refine ⟨?_, ?_⟩
  · intro state reading
    have finds := always.reader state reading
    cases probing : state.probing with
    | true =>
      obtain ⟨after, went, -, less⟩ := always.transition finds probing
      refine .inr (.inr ⟨{ final with reader := some after }, after, ?_, rfl, less⟩)
      simp only [Overlap.step, reading, Option.bind_some, probing, if_true, went]
    | false =>
      cases state with
      | parseWalBytes ctx walBytes source =>
        obtain ⟨same, rfl⟩ := finds
        exact .inl ⟨ctx, source, same, rfl⟩
      | failed error sender =>
        obtain ⟨rfl, closed⟩ := finds
        exact .inr (.inl ⟨sender, closed, rfl⟩)
      | readFile | readStore | readWal | readS3 | extractWalBytes => cases probing
      | lookupPositive | lookupNegative | lookupFile | readNextFile | subscribed | completed =>
        exact absurd finds id
  · intro phase going
    have finds := always.ahead phase going
    cases left : phase.looksLeft with
    | zero =>
      cases phase with
      | done result =>
        obtain ⟨source, rfl⟩ := finds
        exact .inl ⟨source, rfl⟩
      | cloud => exact absurd finds id
      | store | wal => cases left
    | succ n =>
      obtain ⟨after, went, -, less⟩ := always.prefetchStep finds (by omega)
      refine .inr ⟨{ final with ahead := some after }, after, ?_, rfl, by omega⟩
      simp only [Overlap.step, going, Option.bind_some, went, Option.map_some]

end Finding

namespace Sample

def plainEnv : Env := ⟨fun _ => 0, plainConfig⟩

def lookedFor : ReadContext := ⟨.ofUbig 1, .zero, 1, some .zero, .staying []⟩

def overlap : Overlap := ⟨⟨closed.disk, [], none, none⟩, .started, none, none⟩

/- Both look into the store, the worker moves the file, and both look into the WAL. -/
def overtaking : List OverlapEvent :=
  [.look lookedFor, .reader, .reader, .lookAhead, .ahead] ++ (written ++ List.replicate 4 WorkerEvent.proceed).map .worker ++
    [.reader, .ahead, .ahead]

/- The same, but the WAL file is deleted only afterwards. -/
def waiting : List OverlapEvent :=
  [.look lookedFor, .reader, .reader, .lookAhead, .ahead] ++ (written ++ List.replicate 3 WorkerEvent.proceed).map .worker ++
    [.reader, .ahead, .worker .proceed]

end Sample

/-- Where the reader goes on from when the prefetch has found nothing either. -/
def Overlap.wentOn (s : Overlap) : Option (UintN × ReadContext) :=
  match s.reader, s.ahead with
  | some (.readNextFile current ctx none), some (.done (.ok none)) => some (current, ctx)
  | _, _ => none

theorem Overlap.wentOn_eq_some {s : Overlap} {current : UintN} {ctx : ReadContext}
    (goes : s.wentOn = some (current, ctx)) :
    s.reader = some (.readNextFile current ctx none) ∧ s.ahead = some (.done (.ok none)) := by
  unfold Overlap.wentOn at goes
  split at goes
  · rename_i reading going
    cases goes
    exact ⟨reading, going⟩
  · cases goes

/-- The file was in the WAL all the time until it was in the store, and both have gone past it. -/
theorem file_missed_between_looks : ∃ final,
    Runs.run (Overlap.step Sample.plainEnv Sample.sealer Sample.closedFile) Sample.overlap Sample.overtaking =
      some final ∧
    final.reader = some (.readNextFile (.ofUbig 1) Sample.lookedFor none) ∧
    final.ahead = some (.done (.ok none)) ∧
    Sample.overlap.world.disk.walFile (.ofUbig 1) = some Sample.closedBytes ∧
    cascade Sample.plainConfig final.world.disk (.ofUbig 1) true = .ok (some Sample.closedBytes) := by
  have evaluated : (Runs.run (Overlap.step Sample.plainEnv Sample.sealer Sample.closedFile) Sample.overlap
      Sample.overtaking).any (fun final =>
        final.wentOn.any (fun place => decide (place.1 = .ofUbig 1) && decide (place.2 = Sample.lookedFor)) &&
        decide (cascade Sample.plainConfig final.world.disk (.ofUbig 1) true = .ok (some Sample.closedBytes))) =
      true := by
    decide +kernel
  obtain ⟨final, ran, facts⟩ := (Option.any_eq_true _ _).mp evaluated
  obtain ⟨places, found⟩ := Bool.and_eq_true_iff.mp facts
  obtain ⟨⟨current, ctx⟩, wentOn, place⟩ := (Option.any_eq_true _ _).mp places
  obtain ⟨reading, going⟩ := Overlap.wentOn_eq_some wentOn
  obtain ⟨here, same⟩ := Bool.and_eq_true_iff.mp place
  have current' : current = .ofUbig 1 := of_decide_eq_true here
  have ctx' : ctx = Sample.lookedFor := of_decide_eq_true same
  rw [current', ctx'] at reading
  exact ⟨final, ran, reading, going, by decide +kernel, of_decide_eq_true found⟩

/-- Both have the content before the worker deletes the WAL file. -/
theorem migration_unnoticed_waiting : ∃ final,
    Runs.run (Overlap.step Sample.plainEnv Sample.sealer Sample.closedFile) Sample.overlap Sample.waiting =
      some final ∧
    (final.world.disk.walFile (.ofUbig 1)).isNone ∧
    (∃ ctx source, final.reader = some (.parseWalBytes ctx Sample.closedBytes source)) ∧
    ∃ source, final.ahead = some (.done (.ok (some (Sample.closedBytes, source)))) := by
  have evaluated : (Runs.run (Overlap.step Sample.plainEnv Sample.sealer Sample.closedFile) Sample.overlap
      Sample.waiting).any (fun final =>
        (final.world.disk.walFile (.ofUbig 1)).isNone &&
        final.reader.any (fun state => !state.sender.isClosed && decide (state.looksLeft = 0)) &&
        final.ahead.any (fun phase => decide (phase.looksLeft = 0))) = true := by
    decide +kernel
  obtain ⟨final, ran, facts⟩ := (Option.any_eq_true _ _).mp evaluated
  simp only [Bool.and_eq_true] at facts
  obtain ⟨⟨gone, reader⟩, ahead⟩ := facts
  obtain ⟨state, reading, stateFacts⟩ := (Option.any_eq_true _ _).mp reader
  obtain ⟨phase, going, phaseFacts⟩ := (Option.any_eq_true _ _).mp ahead
  obtain ⟨opened, stateDone⟩ := Bool.and_eq_true_iff.mp stateFacts
  have present : Sample.overlap.world.disk.walFile Sample.closedFile.fileId = some Sample.closedBytes := by
    decide +kernel
  have inverse : Sample.sealer.Inverse Sample.plainEnv.config.codec := Sample.sealer_inverse
  have both := migration_unnoticed inverse rfl present rfl ⟨rfl, rfl⟩ (by decide +kernel) ran
  refine ⟨final, ran, gone, ?_, ?_⟩
  · rcases both.1 state reading with ⟨ctx, source, -, rfl⟩ | ⟨sender, closed, rfl⟩ | ⟨_, _, _, _, less⟩
    · exact ⟨ctx, source, reading⟩
    · simp [ReaderState.sender, closed] at opened
    · rw [of_decide_eq_true stateDone] at less
      cases less
  · rcases both.2 phase going with ⟨source, rfl⟩ | ⟨_, _, _, _, less⟩
    · exact ⟨source, going⟩
    · rw [of_decide_eq_true phaseFacts] at less
      cases less

end NormFS
