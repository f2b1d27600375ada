import NormFS.Reader.Bounded
import NormFS.Wal.Scan

/-! Reads without a limit. Such a read is to end in a subscription, but the test for the end of the
queue at a file boundary is the one of bounded reads: the files may carry the next wanted entry past
the last one of the queue. -/
namespace NormFS

open Stride

section Files

/-- What a reader finds in a file: the entries that stand there one after another, and none behind a
damaged header. -/
inductive FileEntries (xxh64 : Hash) (bytes : Bytes) : List Entry → Prop
  | unreadable {e : WalHeaderError} (damaged : WalHeader.fromBytes bytes.data = .err e) :
      FileEntries xxh64 bytes []
  | readable {h : WalHeader} {start stop : Nat} {entries : List Entry}
      (decoded : WalHeader.fromBytes bytes.data = .ok (h, start))
      (leading : Leading xxh64 h bytes.data start entries stop)
      (steady : Steady h bytes.data stop) : FileEntries xxh64 bytes entries

/- A file from the store, the WAL or the bucket. A bucket without files counts as a missing file,
but not for the task that reads ahead. -/
def fetched (env : Env) (world : World) (ahead : Bool) (fileId : UintN) : PrefetchResult :=
  match prefetchNextFile env world fileId with
  | .err (.cloud .noFilesFound) => if ahead then .err (.cloud .noFilesFound) else .ok none
  | result => result

variable (xxh64 : Hash) (fetch : Bool → UintN → PrefetchResult)

/-- A file that does not end a read, with its entries. A missing one is passed over. -/
inductive Gives (ahead : Bool) (fileId : UintN) : Bool → List Entry → Prop
  | missing (absent : fetch ahead fileId = .ok none) : Gives ahead fileId false []
  | present {bytes : Bytes} {source : DataSource} {entries : List Entry}
      (found : fetch ahead fileId = .ok (some (bytes, source)))
      (reads : FileEntries xxh64 bytes entries) : Gives ahead fileId true entries

/-- The files from one on, up to the next one. Reads without gaps read that one ahead. -/
inductive FilesFrom (step : Nat) (first : UintN) : List (List Entry) → UintN → Bool → Prop
  | nil : FilesFrom step first [] first false
  | snoc {files : List (List Entry)} {fileId : UintN} {ahead present : Bool} {entries : List Entry}
      (before : FilesFrom step first files fileId ahead)
      (gives : Gives xxh64 fetch ahead fileId present entries) :
      FilesFrom step first (files ++ [entries]) fileId.increment (present && step == 1)

def wantedAfter (step : Nat) (next : UintN) (entries : List Entry) : UintN :=
  ((wanted next.toNat step none entries).getLast?.map (fun e => e.1.stepBy step)).getD next

def wantedBehind (step : Nat) (start : UintN) (files : List (List Entry)) : UintN :=
  files.foldl (wantedAfter step) start

/-- Memory holds entries, but only later ones. -/
def MemQueue.lacks (q : MemQueue) (id : UintN) : Bool :=
  q.firstId.any (fun first => decide (id < first))

/-- The entry that a read without a limit looks for in the files. -/
def MemQueue.lookupStart (q : MemQueue) : ReadPosition → Option UintN
  | .absolute offset => if q.lacks offset then some offset else none
  | .shiftFromTail offset =>
    if offset == .zero then none
    else match q.lastId with
      | none => some .zero
      | some last =>
        if q.firstId.all (fun first => decide (tailStart last offset < first)) then
          some (tailStart last offset)
        else none

/-- The files lead past the last entry of the queue: the next wanted entry is still one that memory
lacks before a file, and behind it one that does not exist. -/
def Outruns (q : MemQueue) (step : Nat) (start first last : UintN) : Prop :=
  ∃ files entries fileId ahead, FilesFrom xxh64 fetch step first (files ++ [entries]) fileId ahead ∧
    (files = [] ∨ q.lacks (wantedBehind step start files) = true) ∧
    last < wantedAfter step (wantedBehind step start files) entries

variable {xxh64 fetch}

theorem wantedBehind_snoc (step : Nat) (start : UintN) (files : List (List Entry))
    (entries : List Entry) : wantedBehind step start (files ++ [entries]) =
      wantedAfter step (wantedBehind step start files) entries := by
  rw [wantedBehind, List.foldl_append]
  rfl

theorem wantedAfter_le {step : Nat} (word : step < 2 ^ 64) (next : UintN) (entries : List Entry) :
    next.toNat ≤ (wantedAfter step next entries).toNat := by
  unfold wantedAfter
  cases taken : (wanted next.toNat step none entries).getLast? with
  | none => exact Nat.le_refl _
  | some e =>
    have hits := (List.mem_filter.mp (List.mem_of_getLast? taken)).2
    have above := (hit_iff.mp hits).1
    change next.toNat ≤ (e.1.stepBy step).toNat
    rw [UintN.toNat_stepBy _ _ word]
    omega

theorem MemQueue.lacks_of_le {q : MemQueue} {id later : UintN} (lacks : q.lacks later = true)
    (le : id.toNat ≤ later.toNat) : q.lacks id = true := by
  obtain ⟨first, firstId, less⟩ := (Option.any_eq_true _ _).mp lacks
  refine (Option.any_eq_true _ _).mpr ⟨first, firstId, ?_⟩
  rw [decide_eq_true_iff, UintN.lt_iff] at less ⊢
  omega

theorem FilesFrom.last {step : Nat} {first fileId : UintN} {ahead : Bool} {all : List (List Entry)}
    (filesFrom : FilesFrom xxh64 fetch step first all fileId ahead) {files : List (List Entry)}
    {entries : List Entry} (split : all = files ++ [entries]) :
    ∃ fileId' ahead' present, FilesFrom xxh64 fetch step first files fileId' ahead' ∧
      Gives xxh64 fetch ahead' fileId' present entries ∧ fileId = fileId'.increment ∧
      ahead = (present && step == 1) := by
  cases filesFrom with
  | nil => simp at split
  | snoc before gives =>
    obtain ⟨rfl, same⟩ := List.append_inj' split rfl
    cases same
    exact ⟨_, _, _, before, gives, rfl, rfl⟩

end Files

section Walk

variable {request : ReadRequest}

/- Without a last wanted entry a walk ends because the receiver is gone, or behind all the entries. -/
theorem walk_unlimited (endless : request.untilId = none) (steps : 0 < request.step)
    (word : request.step < 2 ^ 64) (entries : List Entry)
    (torn lastRead lastProcessed : Option UintN) (target : Sender) :
    ((walk request entries torn lastRead lastProcessed target).2 = .ok .channelClosed ∧
        target.room ≠ none) ∨
      ∃ sender id, walk request entries torn lastRead lastProcessed target =
          (sender, .ok (.partialRead (((wanted request.fromId.toNat request.step none
            entries).getLast?.map Prod.fst).or lastRead) id)) ∧
        (target.room = none → sender.room = none) := by
  have inside : ∀ id, pastEnd request id = false := by
    intro id
    rw [pastEnd, endless, Option.any_none]
  have last : request.last = none := by rw [ReadRequest.last, endless, Option.map_none]
  have unfinished : ∀ lastRead lastProcessed, ∃ id,
      rangeResult request false lastRead lastProcessed = .partialRead lastRead id := by
    intro lastRead lastProcessed
    exact ⟨_, rangeResult_unfinished lastRead (by rw [last]; rintro _ _ _ ⟨⟩)⟩
  induction entries generalizing lastRead lastProcessed target with
  | nil =>
    unfold walk
    cases closed : target.isClosed with
    | true => exact .inl ⟨rfl, fun stays => by simp [Sender.isClosed, stays] at closed⟩
    | false =>
      right
      cases torn with
      | none =>
        obtain ⟨id, result⟩ := unfinished lastRead lastProcessed
        exact ⟨target, id, by simp [result, wanted], fun stays => stays⟩
      | some torn =>
        obtain ⟨id, result⟩ := unfinished lastRead (some torn)
        exact ⟨target, id, by simp [inside, result, wanted], fun stays => stays⟩
  | cons e entries ih =>
    obtain ⟨id, data⟩ := e
    rw [walk]
    cases closed : target.isClosed with
    | true => exact .inl ⟨rfl, fun stays => by simp [Sender.isClosed, stays] at closed⟩
    | false =>
      rw [if_neg Bool.false_ne_true, inside, if_neg Bool.false_ne_true,
        deliver_inside steps word (inside id), wanted_cons, last]
      cases hit request.fromId.toNat request.step none id.toNat with
      | false => exact ih lastRead (some id) target
      | true =>
        obtain ⟨next, sent⟩ := Sender.send_open closed (request.label (id, data))
        simp only [if_true, sent, ReadRequest.handOver, last, reduceCtorEq, if_false]
        have kept : target.room = none → next.room = none := by
          intro stays
          rw [Sender.send, stays] at sent
          cases sent
          rfl
        rcases ih (some id) (some id) next with ⟨ended, open'⟩ | ⟨sender, processed, ended, stays⟩
        · exact .inl ⟨ended, fun stays => open' (kept stays)⟩
        · refine .inr ⟨sender, processed, ?_, fun staying => stays (kept staying)⟩
          rw [ended, List.getLast?_cons]
          cases (wanted request.fromId.toNat request.step none entries).getLast? <;> rfl

theorem walkThen_panics (endless : request.untilId = none) (steps : 0 < request.step)
    (word : request.step < 2 ^ 64) {after : Option UintN → Option UintN → Sender →
      Sender × Outcome WalError ReadRangeResult}
    (panics : ∀ lastRead lastProcessed target,
      (after lastRead lastProcessed target).2 = .ok .channelClosed ∨
        (after lastRead lastProcessed target).2 = .panic)
    (entries : List Entry) (lastRead lastProcessed : Option UintN) (target : Sender) :
    (walkThen request after entries lastRead lastProcessed target).2 = .ok .channelClosed ∨
      (walkThen request after entries lastRead lastProcessed target).2 = .panic := by
  have inside : ∀ id, pastEnd request id = false := by
    intro id
    rw [pastEnd, endless, Option.any_none]
  have last : request.last = none := by rw [ReadRequest.last, endless, Option.map_none]
  induction entries generalizing lastRead lastProcessed target with
  | nil => exact panics _ _ _
  | cons e entries ih =>
    obtain ⟨id, data⟩ := e
    rw [walkThen]
    cases closed : target.isClosed with
    | true => exact .inl rfl
    | false =>
      rw [if_neg Bool.false_ne_true, inside, if_neg Bool.false_ne_true,
        deliver_inside steps word (inside id)]
      cases hit request.fromId.toNat request.step request.last id.toNat with
      | false => exact ih lastRead (some id) target
      | true =>
        obtain ⟨next, sent⟩ := Sender.send_open closed (request.label (id, data))
        simp only [if_true, sent, ReadRequest.handOver, last, reduceCtorEq, if_false]
        exact ih (some id) (some id) next

end Walk

section Ends

variable {env : Env} {world : World} {step : Nat} {state : ReaderState}

/-- The client is never told that the stream is finished. -/
def NeverCompletes (env : Env) (step : Nat) (world : World) (state : ReaderState) : Prop :=
  ∀ fuel world' sender, run env step fuel world state ≠ .next world' (.completed sender)

theorem NeverCompletes.of_step {world' : World} {state' : ReaderState}
    (goes : transition env step world state = .next world' state')
    (running : state.isTerminal = false) (later : NeverCompletes env step world' state') :
    NeverCompletes env step world state := by
  intro fuel last sender
  cases fuel with
  | zero =>
    rintro ⟨⟩
    cases running
  | succ fuel =>
    rw [run_succ, running, if_neg Bool.false_ne_true, goes]
    exact later fuel last sender

theorem NeverCompletes.terminal (terminal : state.isTerminal = true)
    (other : ∀ sender, state ≠ .completed sender) : NeverCompletes env step world state := by
  intro fuel last sender ends
  rw [run_terminal terminal] at ends
  cases ends
  exact other sender rfl

/-- A handler that does not return, or returns an error, does not tell the client anything. -/
theorem NeverCompletes.stops (stops : ∀ world' state', transition env step world state ≠ .next world' state')
    (running : state.isTerminal = false) : NeverCompletes env step world state := by
  intro fuel last sender
  cases fuel with
  | zero =>
    rintro ⟨⟩
    cases running
  | succ fuel =>
    rw [run_succ, running, if_neg Bool.false_ne_true]
    cases goes : transition env step world state with
    | next world' state' => exact absurd goes (stops _ _)
    | _ => rintro ⟨⟩

theorem NeverCompletes.after {world' : World} {state' : ReaderState}
    (leads : Leads env step world state world' state')
    (later : NeverCompletes env step world' state') : NeverCompletes env step world state := by
  intro fuel last sender ends
  exact later fuel last sender (leads.run_rest ends rfl)

theorem NeverCompletes.failed (env : Env) (step : Nat) (world : World) (e : ReaderError)
    (sender : Sender) : NeverCompletes env step world (.failed e sender) :=
  .terminal rfl (by rintro _ ⟨⟩)

theorem NeverCompletes.closed (gone : state.sender.isClosed = true)
    (other : ∀ sender, state ≠ .completed sender) : NeverCompletes env step world state := by
  cases terminal : state.isTerminal with
  | true => exact .terminal terminal other
  | false =>
    refine .of_step ?_ terminal (.failed env step world .clientDisconnected state.sender)
    cases state with
    | lookupPositive | lookupNegative | lookupFile | readFile | readStore | readWal | readS3
    | extractWalBytes | parseWalBytes | readNextFile =>
      simp only [ReaderState.sender] at gone
      simp only [transition, handleLookupPositive, handleLookupNegative, handleLookupFile,
        handleReadFile, handleReadStore, handleReadWal, handleReadS3, handleExtractWalBytes,
        handleParseWalBytes, handleReadNextFile, gone, if_true, ReaderState.sender]
    | _ => cases terminal

end Ends

section Arrival

variable {env : Env} {world : World} {step : Nat} {fileId next : UintN} {sender : Sender}
  {state : ReaderState}

/-- A read of file `fileId` goes on according to what the file is. -/
def Fetches (env : Env) (step : Nat) (world : World) (fileId next : UintN) (sender : Sender)
    (state : ReaderState) : PrefetchResult → Prop
  | .ok none => ∃ any, Leads env step world state world
      (.readNextFile fileId ⟨any, next, step, none, sender⟩ none)
  | .ok (some (bytes, source)) => Leads env step world state world
      (.parseWalBytes ⟨fileId, next, step, none, sender⟩ bytes source)
  | _ => NeverCompletes env step world state

theorem Fetches.of_step {state' : ReaderState} {result : PrefetchResult}
    (goes : transition env step world state = .next world state') (running : state.isTerminal = false)
    (later : Fetches env step world fileId next sender state' result) :
    Fetches env step world fileId next sender state result := by
  cases result with
  | ok found =>
    cases found with
    | none =>
      obtain ⟨any, leads⟩ := later
      exact ⟨any, .step goes running leads⟩
    | some found => exact Leads.step goes running later
  | _ => exact NeverCompletes.of_step goes running later

theorem extract_fetches (opened : sender.isClosed = false) (storeBytes : Bytes) (source : DataSource)
    {result : PrefetchResult}
    (unpacked : result = match extractWalBytes env.config fileId storeBytes (source == .cloud) with
      | .ok walBytes => .ok (some (walBytes, source))
      | .err _ => .ok none
      | .panic => .panic) :
    Fetches env step world fileId next sender
      (.extractWalBytes ⟨fileId, next, step, none, sender⟩ storeBytes source) result := by
  cases extracted : extractWalBytes env.config fileId storeBytes (source == .cloud) with
  | ok walBytes =>
    rw [extracted] at unpacked
    subst unpacked
    refine Fetches.of_step ?_ rfl (Leads.refl env step world _)
    simp only [transition, handleExtractWalBytes, opened, Bool.false_eq_true, if_false, extracted]
  | err e =>
    rw [extracted] at unpacked
    subst unpacked
    refine Fetches.of_step ?_ rfl ⟨fileId, Leads.refl env step world _⟩
    simp only [transition, handleExtractWalBytes, opened, Bool.false_eq_true, if_false, extracted]
  | panic =>
    rw [extracted] at unpacked
    subst unpacked
    refine NeverCompletes.stops ?_ rfl
    intro world' state'
    simp only [transition, handleExtractWalBytes, opened, Bool.false_eq_true, if_false, extracted]
    rintro ⟨⟩

theorem readS3_fetches (opened : sender.isClosed = false)
    (notInStore : PersistStore.getStoreBytes world.disk fileId = none)
    (notInWal : WalStore.getWalBytes world.disk fileId = none) {s3 : Cloud}
    (cloud : world.cloud = some s3) :
    Fetches env step world fileId next sender (.readS3 ⟨fileId, next, step, none, sender⟩)
      (fetched env world false fileId) := by
  cases answer : s3.getStoreBytes fileId with
  | ok found =>
    cases found with
    | none =>
      have absent : fetched env world false fileId = .ok none := by
        simp only [fetched, prefetchNextFile, notInStore, notInWal, cloud, answer]
      rw [absent]
      refine Fetches.of_step ?_ rfl ⟨fileId, Leads.refl env step world _⟩
      simp only [transition, handleReadS3, opened, Bool.false_eq_true, if_false, cloud, answer]
    | some storeBytes =>
      refine Fetches.of_step ?_ rfl (extract_fetches opened storeBytes .cloud ?_)
      · simp only [transition, handleReadS3, opened, Bool.false_eq_true, if_false, cloud, answer]
      · have verified : (DataSource.cloud == DataSource.cloud) = true := rfl
        simp only [fetched, prefetchNextFile, notInStore, notInWal, cloud, answer, verified]
        cases extractWalBytes env.config fileId storeBytes true <;> rfl
  | error e =>
    cases e with
    | noFilesFound =>
      have absent : fetched env world false fileId = .ok none := by
        simp only [fetched, prefetchNextFile, notInStore, notInWal, cloud, answer, Bool.false_eq_true, if_false]
      rw [absent]
      refine Fetches.of_step ?_ rfl ⟨fileId, Leads.refl env step world _⟩
      simp only [transition, handleReadS3, opened, Bool.false_eq_true, if_false, cloud, answer]
    | other =>
      have failed : fetched env world false fileId = .err (.cloud .other) := by
        simp only [fetched, prefetchNextFile, notInStore, notInWal, cloud, answer]
      rw [failed]
      refine Fetches.of_step ?_ rfl (NeverCompletes.failed env step world (.cloud .other) sender)
      simp only [transition, handleReadS3, opened, Bool.false_eq_true, if_false, cloud, answer]

theorem readFile_fetches (opened : sender.isClosed = false) :
    Fetches env step world fileId next sender (.readFile ⟨fileId, next, step, none, sender⟩)
      (fetched env world false fileId) := by
  have opens : transition env step world (.readFile ⟨fileId, next, step, none, sender⟩) =
      .next world (.readStore ⟨fileId, next, step, none, sender⟩) := by
    simp only [transition, handleReadFile, opened, Bool.false_eq_true, if_false]
  refine .of_step opens rfl ?_
  cases inStore : PersistStore.getStoreBytes world.disk fileId with
  | some storeBytes =>
    refine .of_step ?_ rfl (extract_fetches opened storeBytes .diskStore ?_)
    · simp only [transition, handleReadStore, opened, Bool.false_eq_true, if_false, inStore]
    · have unverified : (DataSource.diskStore == DataSource.cloud) = false := rfl
      unfold fetched prefetchNextFile
      rw [unverified, inStore]
      dsimp only
      cases extractWalBytes env.config fileId storeBytes false <;> rfl
  | none =>
    have misses : transition env step world (.readStore ⟨fileId, next, step, none, sender⟩) =
        .next world (.readWal ⟨fileId, next, step, none, sender⟩) := by
      simp only [transition, handleReadStore, opened, Bool.false_eq_true, if_false, inStore]
    refine .of_step misses rfl ?_
    cases inWal : WalStore.getWalBytes world.disk fileId with
    | some walBytes =>
      have found : fetched env world false fileId = .ok (some (walBytes, .diskWal)) := by
        simp only [fetched, prefetchNextFile, inStore, inWal]
      rw [found]
      refine Fetches.of_step ?_ rfl (Leads.refl env step world _)
      simp only [transition, handleReadWal, opened, Bool.false_eq_true, if_false, inWal]
    | none =>
      cases cloud : world.cloud with
      | some s3 =>
        refine .of_step ?_ rfl (readS3_fetches opened inStore inWal cloud)
        simp only [transition, handleReadWal, opened, Bool.false_eq_true, if_false, inWal, cloud,
          Option.isSome_some, if_true]
      | none =>
        have absent : fetched env world false fileId = .ok none := by
          simp only [fetched, prefetchNextFile, inStore, inWal, cloud]
        rw [absent]
        refine Fetches.of_step ?_ rfl ⟨fileId, .refl ..⟩
        simp only [transition, handleReadWal, opened, Bool.false_eq_true, if_false, inWal, cloud,
          Option.isSome_none]

end Arrival

section Boundary

variable {env : Env} {world : World} {step : Nat} {fileId next : UintN} {sender : Sender}
  {state : ReaderState}

/-- The read is behind file `fileId`, and the next one is being read ahead or not. -/
def Boundary (step : Nat) (fileId : UintN) (ahead : Bool) (next : UintN) (sender : Sender)
    (state : ReaderState) : Prop :=
  ∃ any, state = .readNextFile fileId ⟨any, next, step, none, sender⟩
    (if ahead then some (.pending fileId.increment) else none)

theorem prefetchFor_unlimited (fileId next : UintN) (step : Nat) (sender : Sender) :
    prefetchFor ⟨fileId, next, step, none, sender⟩ =
      if (step == 1) = true then some (.pending fileId.increment) else none := by
  simp [prefetchFor]

theorem parse_gives {bytes : Bytes} {entries : List Entry}
    (reads : FileEntries env.xxh64 bytes entries) (opened : sender.isClosed = false)
    (steps : 0 < step) (word : step < 2 ^ 64) (source : DataSource) :
    NeverCompletes env step world
        (.parseWalBytes ⟨fileId, next, step, none, sender⟩ bytes source) ∧ sender.room ≠ none ∨
      ∃ sender' state', transition env step world
          (.parseWalBytes ⟨fileId, next, step, none, sender⟩ bytes source) = .next world state' ∧
        Boundary step fileId (step == 1) (wantedAfter step next entries) sender' state' ∧
        (sender.room = none → sender'.room = none) := by
  have ahead := prefetchFor_unlimited fileId next step sender
  cases reads with
  | @unreadable e damaged =>
    refine .inr ⟨sender, _, ?_, ⟨fileId, rfl⟩, fun stays => stays⟩
    simp only [transition, handleParseWalBytes, opened, Bool.false_eq_true, if_false, readWalBytesRange,
      damaged, ahead]
    cases bytes.data.isEmpty with
    | true => rfl
    | false => cases e <;> rfl
  | @readable h start stop _ decoded leading steady =>
    have begins := WalHeader.fromBytes_inside decoded
    have read := @readWalBytesRange_loop env.xxh64 h bytes start decoded ⟨next, none, step, source⟩
    rw [walBytesLoop_steady _ leading begins steady (by omega)] at read
    have single : max step 1 = step := by omega
    simp only [single] at read
    rcases @walk_unlimited ⟨next, none, step, source⟩ rfl steps word entries
        (headerAt h bytes.data stop) none none sender with ⟨closed, open'⟩ | ⟨sender', id, walked, stays⟩
    · refine .inl ⟨?_, open'⟩
      have goes : ∃ sender', transition env step world
          (.parseWalBytes ⟨fileId, next, step, none, sender⟩ bytes source) =
          .next world (.failed .clientDisconnected sender') := by
        refine ⟨(walk ⟨next, none, step, source⟩ entries (headerAt h bytes.data stop) none none
          sender).1, ?_⟩
        simp only [transition, handleParseWalBytes, opened, Bool.false_eq_true, if_false, read]
        rw [← Prod.eta (walk _ _ _ _ _ _), closed]
      obtain ⟨sender', goes⟩ := goes
      exact .of_step goes rfl (.failed env step world .clientDisconnected sender')
    · refine .inr ⟨sender', _, ?_, ⟨fileId, rfl⟩, stays⟩
      simp only [transition, handleParseWalBytes, opened, Bool.false_eq_true, if_false, read, walked,
        ahead, Option.or_none, wantedAfter]
      cases (wanted next.toNat step none entries).getLast? <;> rfl

theorem parse_never {bytes : Bytes} (unread : ∀ entries, ¬ FileEntries env.xxh64 bytes entries)
    (opened : sender.isClosed = false) (steps : 0 < step) (word : step < 2 ^ 64)
    (source : DataSource) :
    NeverCompletes env step world
      (.parseWalBytes ⟨fileId, next, step, none, sender⟩ bytes source) := by
  have ends : (readWalBytesRange env.xxh64 bytes ⟨next, none, step, source⟩ sender).2 =
        .ok .channelClosed ∨
      (readWalBytesRange env.xxh64 bytes ⟨next, none, step, source⟩ sender).2 = .panic := by
    cases header : WalHeader.fromBytes bytes.data with
    | err e => exact absurd (.unreadable header) (unread [])
    | panic =>
      right
      have present : bytes.data.isEmpty = false := by
        cases data : bytes.data with
        | nil =>
          rw [data] at header
          cases header
        | cons => rfl
      simp only [readWalBytesRange, present, Bool.false_eq_true, if_false, header]
    | ok found =>
      obtain ⟨h, start⟩ := found
      have begins := WalHeader.fromBytes_inside header
      obtain ⟨entries, stop, leading⟩ := leading_exists env.xxh64 h bytes.addressable start
      have unsteady : ¬ Steady h bytes.data stop :=
        fun steady => unread entries (.readable header leading steady)
      have inside := leading.inside begins
      obtain ⟨left, remains, walked⟩ := walBytesLoop_leading ⟨next, none, max step 1, source⟩ leading
        (show bytes.length < start + (bytes.length + 1) by omega)
      rw [Bytes.length] at remains
      obtain ⟨left, rfl⟩ := Nat.exists_eq_add_one_of_ne_zero (show left ≠ 0 by omega)
      rw [readWalBytesRange_loop header]
      change (walBytesLoop env.xxh64 ⟨next, none, max step 1, source⟩ h bytes _ _ none none sender).2 =
          _ ∨ (walBytesLoop env.xxh64 ⟨next, none, max step 1, source⟩ h bytes _ _ none none
            sender).2 = _
      rw [walked]
      refine walkThen_panics rfl (show 0 < max step 1 by omega) (show max step 1 < 2 ^ 64 by omega) ?_ _ _ _ _
      intro lastRead lastProcessed target
      cases closed : target.isClosed with
      | true =>
        left
        rw [walBytesLoop, if_pos closed]
      | false => exact .inr (walBytesLoop_panic unsteady rfl closed left _ _)
  cases read : readWalBytesRange env.xxh64 bytes ⟨next, none, step, source⟩ sender with
  | mk sender' result =>
    rw [read] at ends
    rcases ends with rfl | rfl
    · refine .of_step ?_ rfl (.failed env step world .clientDisconnected sender')
      simp only [transition, handleParseWalBytes, opened, Bool.false_eq_true, if_false, read]
    · refine .stops ?_ rfl
      intro world' state'
      simp only [transition, handleParseWalBytes, opened, Bool.false_eq_true, if_false, read]
      rintro ⟨⟩

theorem Fetches.gives {ahead present : Bool} {entries : List Entry}
    (fetches : Fetches env step world fileId next sender state (fetched env world ahead fileId))
    (gives : Gives env.xxh64 (fetched env world) ahead fileId present entries)
    (opened : sender.isClosed = false) (steps : 0 < step) (word : step < 2 ^ 64) :
    NeverCompletes env step world state ∧ sender.room ≠ none ∨
      ∃ sender' state', Leads env step world state world state' ∧
        Boundary step fileId (present && step == 1) (wantedAfter step next entries) sender' state' ∧
        (sender.room = none → sender'.room = none) := by
  cases gives with
  | missing absent =>
    rw [absent] at fetches
    obtain ⟨any, leads⟩ := fetches
    exact .inr ⟨sender, _, leads, ⟨any, rfl⟩, fun stays => stays⟩
  | @present bytes source _ found reads =>
    rw [found] at fetches
    rcases @parse_gives env world step fileId next sender _ _ reads opened steps word source with
      ⟨never, open'⟩ | ⟨sender', state', goes, boundary, stays⟩
    · exact .inl ⟨.after fetches never, open'⟩
    · refine .inr ⟨sender', state', Leads.trans fetches (.step goes rfl (.refl ..)), ?_, stays⟩
      rw [Bool.true_and]
      exact boundary

theorem Fetches.never {ahead : Bool}
    (fetches : Fetches env step world fileId next sender state (fetched env world ahead fileId))
    (nothing : ∀ present entries, ¬ Gives env.xxh64 (fetched env world) ahead fileId present entries)
    (opened : sender.isClosed = false) (steps : 0 < step) (word : step < 2 ^ 64) :
    NeverCompletes env step world state := by
  cases result : fetched env world ahead fileId with
  | ok found =>
    cases found with
    | none => exact absurd (.missing result) (nothing false [])
    | some found =>
      obtain ⟨bytes, source⟩ := found
      rw [result] at fetches
      exact .after fetches (parse_never (fun entries reads => nothing true entries (.present result reads))
        opened steps word source)
  | err e =>
    rw [result] at fetches
    exact fetches
  | panic =>
    rw [result] at fetches
    exact fetches

variable {q : MemQueue} {ahead : Bool}

theorem Boundary.completes (boundary : Boundary step fileId ahead next sender state)
    (memory : world.mem = some q) {last : UintN} (lastId : q.lastId = some last) (past : last < next)
    (opened : sender.isClosed = false) :
    Leads env step world state world (.completed sender) := by
  obtain ⟨any, rfl⟩ := boundary
  refine .step ?_ rfl (.refl ..)
  simp [transition, handleReadNextFile, opened, memory, MemQueue.getLastId, lastId, past]

theorem Boundary.goes (boundary : Boundary step fileId ahead next sender state)
    (memory : world.mem = some q) (notPast : ∀ last, q.lastId = some last → ¬ last < next)
    (lacks : q.lacks next = true) (opened : sender.isClosed = false) :
    ∃ state', transition env step world state = .next world state' ∧
      Fetches env step world fileId.increment next sender state'
        (fetched env world ahead fileId.increment) := by
  obtain ⟨any, rfl⟩ := boundary
  have before : (world.mem.bind MemQueue.getLastId).any (fun last => decide (last < next)) = false := by
    cases lastId : q.lastId with
    | none => simp [memory, MemQueue.getLastId, lastId]
    | some last => simp [memory, MemQueue.getLastId, lastId, notPast last lastId]
  obtain ⟨first, firstId, less⟩ := (Option.any_eq_true _ _).mp lacks
  have fails : q.followFull next next step sender = some (.fail, sender, q) := by
    simp [MemQueue.followFull, MemQueue.followSnapshot, firstId, of_decide_eq_true less]
  obtain ⟨disk, ranges, mem, cloud⟩ := world
  obtain rfl : mem = some q := memory
  simp only [transition, handleReadNextFile, opened, before, Bool.false_eq_true, if_false, fromMemory,
    intoNextFile, fails, MemReadResult.fail, Bool.false_and]
  cases ahead with
  | false => exact ⟨_, rfl, readFile_fetches opened⟩
  | true =>
    refine ⟨_, rfl, ?_⟩
    simp only [if_true, Prefetch.await]
    unfold fetched
    cases prefetchNextFile env ⟨disk, ranges, some q, cloud⟩ fileId.increment with
    | ok found =>
      cases found with
      | none => exact ⟨any, .refl ..⟩
      | some found => exact Leads.refl ..
    | err e =>
      have failed : Fetches env step ⟨disk, ranges, some q, cloud⟩ fileId.increment next sender
          (.failed e sender) (.err e) := NeverCompletes.failed env step _ e sender
      cases e with
      | cloud e => cases e <;> exact failed
      | _ => exact failed
    | panic => exact NeverCompletes.failed env step _ .io sender

theorem sendAll_unsent {target left : Sender} {entries : List Entry}
    (unsent : target.sendAll entries = (left, false)) : left.isClosed = true := by
  induction entries generalizing target with
  | nil => cases unsent
  | cons e entries ih =>
    unfold Sender.sendAll at unsent
    split at unsent
    · exact ih unsent
    · rename_i refused
      cases unsent
      by_contra opened
      obtain ⟨next, sent⟩ := Sender.send_open (Bool.not_eq_true _ ▸ opened) ⟨e.1, e.2, .memory⟩
      rw [Sender.sendEntry, sent] at refused
      cases refused

theorem fromMemory_never (memory : world.mem = some q) (has : q.lacks next = false) (steps : 0 < step)
    (word : step < 2 ^ 64) {otherwise : Sender → ReaderState}
    (goesOn : ∀ sender, (otherwise sender).sender = sender ∧ ∀ out, otherwise sender ≠ .completed out)
    {state : ReaderState} (running : state.isTerminal = false)
    (goes : transition env step world state = fromMemory world next none step sender otherwise) :
    NeverCompletes env step world state := by
  have snapshot : ∃ entries, q.followSnapshot next step = some (some entries) := by
    unfold MemQueue.followSnapshot
    cases firstId : q.firstId with
    | none => exact ⟨[], rfl⟩
    | some first =>
      have notLess : ¬ next < first := by simpa [MemQueue.lacks, firstId] using has
      obtain ⟨collected, found⟩ := collect_ends steps word none none next (q.since next)
      exact ⟨collected, by simp [notLess, found]⟩
  obtain ⟨entries, snapshot⟩ := snapshot
  simp only [fromMemory, memory, MemQueue.followFull, snapshot, Option.bind_eq_bind, Option.bind_some]
    at goes
  cases sent : sender.sendAll entries with
  | mk left all =>
    rw [sent] at goes
    cases all with
    | true => exact .of_step goes running (.terminal rfl (by rintro _ ⟨⟩))
    | false =>
      obtain ⟨carries, running'⟩ := goesOn left
      have gone : (otherwise left).sender.isClosed = true := by
        rw [carries]
        exact sendAll_unsent sent
      exact .of_step goes running (.closed gone running')

theorem Boundary.never (boundary : Boundary step fileId ahead next sender state)
    (memory : world.mem = some q) (notPast : ∀ last, q.lastId = some last → ¬ last < next)
    (has : q.lacks next = false) (opened : sender.isClosed = false) (steps : 0 < step)
    (word : step < 2 ^ 64) : NeverCompletes env step world state := by
  obtain ⟨any, rfl⟩ := boundary
  have before : (world.mem.bind MemQueue.getLastId).any (fun last => decide (last < next)) = false := by
    cases lastId : q.lastId with
    | none => simp [memory, MemQueue.getLastId, lastId]
    | some last => simp [memory, MemQueue.getLastId, lastId, notPast last lastId]
  refine fromMemory_never memory has steps word ?_ rfl (by
    rw [transition, handleReadNextFile, if_neg (by simp [opened]), if_neg (by simp [before])])
  intro sender
  dsimp only [intoNextFile]
  split
  · split <;> exact ⟨rfl, by rintro _ ⟨⟩⟩
  · exact ⟨rfl, by rintro _ ⟨⟩⟩

end Boundary

section Unlimited

variable {env : Env} {world : World} {q : MemQueue} {step : Nat} {start first : UintN}

variable {sender : Sender}

/- Behind a file the read never completes, by induction on the transitions left: each one that does
not end the read brings it behind the next file. -/
theorem boundary_run (memory : world.mem = some q) (steps : 0 < step) (word : step < 2 ^ 64)
    (never : ∀ last, q.lastId = some last →
      ¬ Outruns env.xxh64 (fetched env world) q step start first last)
    {files : List (List Entry)} {entries : List Entry} {fileId : UintN} {ahead : Bool}
    (filesFrom : FilesFrom env.xxh64 (fetched env world) step first (files ++ [entries])
      fileId.increment ahead)
    (lacked : files = [] ∨ q.lacks (wantedBehind step start files) = true)
    {state : ReaderState}
    (boundary : Boundary step fileId ahead (wantedBehind step start (files ++ [entries])) sender state) :
    NeverCompletes env step world state := by
  have notPast : ∀ {files entries fileId ahead}, FilesFrom env.xxh64 (fetched env world) step first
      (files ++ [entries]) fileId ahead →
      (files = [] ∨ q.lacks (wantedBehind step start files) = true) →
      ∀ last, q.lastId = some last → ¬ last < wantedBehind step start (files ++ [entries]) := by
    intro files entries fileId ahead filesFrom lacked last lastId past
    rw [wantedBehind_snoc] at past
    exact never last lastId ⟨files, entries, fileId, ahead, filesFrom, lacked, past⟩
  intro fuel
  induction fuel generalizing files entries fileId ahead sender state with
  | zero =>
    obtain ⟨any, rfl⟩ := boundary
    rintro _ _ ⟨⟩
  | succ fuel ih =>
    cases opened : sender.isClosed with
    | true =>
      refine NeverCompletes.closed ?_ ?_ (fuel + 1)
      · obtain ⟨any, rfl⟩ := boundary
        exact opened
      · obtain ⟨any, rfl⟩ := boundary
        rintro _ ⟨⟩
    | false =>
      have before := notPast filesFrom lacked
      cases lacks : q.lacks (wantedBehind step start (files ++ [entries])) with
      | false => exact boundary.never memory before lacks opened steps word (fuel + 1)
      | true =>
        obtain ⟨state', goes, fetches⟩ := @Boundary.goes env _ _ _ _ _ _ _ _ boundary memory before lacks opened
        have running : state.isTerminal = false := by
          obtain ⟨any, rfl⟩ := boundary
          rfl
        rw [run_succ, running, if_neg Bool.false_ne_true, goes]
        intro world' out ends
        by_cases given : ∃ present more,
            Gives env.xxh64 (fetched env world) ahead fileId.increment present more
        · obtain ⟨present, more, gives⟩ := given
          rcases fetches.gives gives opened steps word with ⟨ended, -⟩ | ⟨sender', next, leads, behind, -⟩
          · exact ended fuel world' out ends
          · rw [← wantedBehind_snoc] at behind
            exact ih (filesFrom.snoc gives) (.inr lacks) behind world' out (leads.run_rest ends rfl)
        · exact fetches.never (fun present more gives => given ⟨present, more, gives⟩) opened steps word
            fuel world' out ends

/- With a client that stays, the read gets through the files as long as memory lacks what it wants. -/
theorem filesFrom_leads (memory : world.mem = some q) (steps : 0 < step) (word : step < 2 ^ 64)
    {files : List (List Entry)} {fileId : UintN} {ahead : Bool}
    (filesFrom : FilesFrom env.xxh64 (fetched env world) step first files fileId ahead)
    (lacked : files = [] ∨ q.lacks (wantedBehind step start files) = true) :
    (∃ sender, Leads env step world (.readFile ⟨first, start, step, none, .staying []⟩) world
      (.completed sender)) ∨
    ∃ sender state, sender.room = none ∧
      Leads env step world (.readFile ⟨first, start, step, none, .staying []⟩) world state ∧
      Fetches env step world fileId (wantedBehind step start files) sender state
        (fetched env world ahead fileId) := by
  induction filesFrom with
  | nil => exact .inr ⟨_, _, rfl, .refl .., readFile_fetches rfl⟩
  | @snoc files fileId ahead present entries before gives ih =>
    have lacks := lacked.resolve_left (by simp)
    rw [wantedBehind_snoc] at lacks
    rcases ih (.inr (MemQueue.lacks_of_le lacks (wantedAfter_le word _ _))) with
      completed | ⟨sender, state, stays, leads, fetches⟩
    · exact .inl completed
    · have opened : sender.isClosed = false := by simp [Sender.isClosed, stays]
      rcases fetches.gives gives opened steps word with ⟨-, gone⟩ | ⟨sender', behind, onward, boundary, kept⟩
      · exact absurd stays gone
      · have opened' : sender'.isClosed = false := by simp [Sender.isClosed, kept stays]
        by_cases past : ∃ last, q.lastId = some last ∧
            last < wantedAfter step (wantedBehind step start files) entries
        · obtain ⟨last, lastId, past⟩ := past
          exact .inl ⟨sender', (leads.trans onward).trans
            (boundary.completes memory lastId past opened')⟩
        · obtain ⟨state', goes, fetches'⟩ := @Boundary.goes env _ _ _ _ _ _ _ _ boundary memory
            (fun last lastId less => past ⟨last, lastId, less⟩) lacks opened'
          have running : behind.isTerminal = false := by
            obtain ⟨any, rfl⟩ := boundary
            rfl
          rw [wantedBehind_snoc]
          exact .inr ⟨sender', state', kept stays, (leads.trans onward).trans (.step goes running (.refl ..)),
            fetches'⟩

theorem readFile_completes_iff (memory : world.mem = some q) (steps : 0 < step) (word : step < 2 ^ 64) :
    (∀ sender, NeverCompletes env step world (.readFile ⟨first, start, step, none, sender⟩)) ↔
      ∀ last, q.lastId = some last →
        ¬ Outruns env.xxh64 (fetched env world) q step start first last := by
  constructor
  · rintro never last lastId ⟨files, entries, fileId, ahead, filesFrom, lacked, past⟩
    obtain ⟨fileId', ahead', present, before, gives, -, -⟩ := filesFrom.last rfl
    rcases filesFrom_leads memory steps word before lacked with
      ⟨sender, fuel, ends⟩ | ⟨sender, state, stays, leads, fetches⟩
    · exact never _ fuel world sender ends
    · have opened : sender.isClosed = false := by simp [Sender.isClosed, stays]
      rcases fetches.gives gives opened steps word with ⟨-, gone⟩ | ⟨sender', behind, onward, boundary, kept⟩
      · exact gone stays
      · obtain ⟨fuel, ends⟩ := (leads.trans onward).trans
          (boundary.completes memory lastId past (by simp [Sender.isClosed, kept stays]))
        exact never _ fuel world sender' ends
  · intro never sender
    cases opened : sender.isClosed with
    | true => exact .closed opened (by rintro _ ⟨⟩)
    | false =>
      have fetches := @readFile_fetches env world step first start sender opened
      by_cases given : ∃ present entries,
          Gives env.xxh64 (fetched env world) false first present entries
      · obtain ⟨present, entries, gives⟩ := given
        rcases fetches.gives gives opened steps word with ⟨ended, -⟩ | ⟨sender', state, leads, boundary, -⟩
        · exact ended
        · have filesFrom : FilesFrom env.xxh64 (fetched env world) step first ([] ++ [entries])
              first.increment (present && step == 1) := .snoc .nil gives
          exact .after leads (boundary_run memory steps word never filesFrom (.inl rfl) boundary)
      · exact fetches.never (fun present entries gives => given ⟨present, entries, gives⟩) opened steps
          word

theorem lookup_starts (memory : world.mem = some q) {position : ReadPosition}
    (looksUp : q.lookupStart position = some start) (opened : sender.isClosed = false) :
    transition env step world (initialState position 0 sender) =
      .next world (.lookupFile start none step sender) := by
  obtain ⟨disk, ranges, mem, cloud⟩ := world
  obtain rfl : mem = some q := memory
  cases position with
  | absolute offset =>
    simp only [MemQueue.lookupStart] at looksUp
    split at looksUp
    · rename_i lacks
      cases looksUp
      obtain ⟨first, firstId, less⟩ := (Option.any_eq_true _ _).mp lacks
      simp [transition, initialState, handleLookupPositive, opened, boundOf, fromMemory,
        MemQueue.followFull, MemQueue.followSnapshot, firstId, of_decide_eq_true less, MemReadResult.fail]
    · cases looksUp
  | shiftFromTail offset =>
    simp only [MemQueue.lookupStart] at looksUp
    split at looksUp
    · cases looksUp
    · rename_i notZero
      cases lastId : q.lastId with
      | none =>
        rw [lastId] at looksUp
        cases looksUp
        simp [transition, initialState, handleLookupNegative, opened, MemQueue.followFullNegative,
          notZero, lastId]
      | some last =>
        simp only [lastId] at looksUp
        split at looksUp
        · rename_i before
          cases looksUp
          cases firstId : q.firstId with
          | none =>
            simp [transition, initialState, handleLookupNegative, opened, MemQueue.followFullNegative,
              notZero, lastId, firstId]
          | some first =>
            have less : MemQueue.tailStart last offset < first := by simpa [firstId] using before
            simp [transition, initialState, handleLookupNegative, opened, MemQueue.followFullNegative,
              notZero, lastId, firstId, less]
        · cases looksUp

theorem lookup_never (memory : world.mem = some q) (steps : 0 < step) (word : step < 2 ^ 64)
    {position : ReadPosition} (answered : q.lookupStart position = none)
    (opened : sender.isClosed = false) :
    NeverCompletes env step world (initialState position 0 sender) := by
  cases position with
  | absolute offset =>
    have has : q.lacks offset = false := by simpa [MemQueue.lookupStart] using answered
    have goes : transition env step world (initialState (.absolute offset) 0 sender) =
        fromMemory world offset none step sender (.lookupFile offset none step) := by
      simp only [transition, initialState, handleLookupPositive, opened, Bool.false_eq_true, if_false,
        boundOf, Nat.lt_irrefl]
    exact fromMemory_never memory has steps word (fun _ => ⟨rfl, by rintro _ ⟨⟩⟩) rfl goes
  | shiftFromTail offset =>
    simp only [MemQueue.lookupStart] at answered
    split at answered
    · rename_i zero
      have goes : ∃ world', transition env step world (initialState (.shiftFromTail offset) 0 sender) =
          .next world' (.subscribed sender) := by
        simp only [transition, initialState, handleLookupNegative, opened, Bool.false_eq_true, if_false,
          memory, Nat.lt_irrefl, MemQueue.followFullNegative, zero, if_true]
        exact ⟨_, rfl⟩
      obtain ⟨world', goes⟩ := goes
      exact .of_step goes rfl (.terminal rfl (by rintro _ ⟨⟩))
    · rename_i notZero
      cases lastId : q.lastId with
      | none =>
        rw [lastId] at answered
        cases answered
      | some last =>
        simp only [lastId] at answered
        split at answered
        · cases answered
        · rename_i notBefore
          cases firstId : q.firstId with
          | none => simp [firstId] at notBefore
          | some first =>
            have notLess : ¬ MemQueue.tailStart last offset < first := by simpa [firstId] using notBefore
            obtain ⟨collected, found⟩ := collect_ends steps word none none (MemQueue.tailStart last offset)
              (q.since (MemQueue.tailStart last offset))
            cases sent : sender.sendAll collected with
            | mk left all =>
              have goes : ∃ world', transition env step world (initialState (.shiftFromTail offset) 0 sender) =
                  .next world' (if all then .subscribed left
                    else .lookupFile (MemQueue.tailStart last offset) none step left) := by
                simp only [transition, initialState, handleLookupNegative, opened, Bool.false_eq_true,
                  if_false, memory, Nat.lt_irrefl, MemQueue.followFullNegative, notZero, lastId, firstId,
                  notLess, found, sent, Option.bind_eq_bind, Option.bind_some]
                cases all <;> exact ⟨_, rfl⟩
              obtain ⟨world', goes⟩ := goes
              cases all with
              | true => exact .of_step goes rfl (.terminal rfl (by rintro _ ⟨⟩))
              | false => exact .of_step goes rfl (.closed (sendAll_unsent sent) (by rintro _ ⟨⟩))

theorem lookupFile_completes_iff (memory : world.mem = some q) (steps : 0 < step)
    (word : step < 2 ^ 64) :
    (∀ sender, NeverCompletes env step world (.lookupFile start none step sender)) ↔
      ∀ last, q.lastId = some last → ∀ first ranges,
        findFileWithS3 env.config world.disk world.cloud start world.ranges = .ok (.file first, ranges) →
        ¬ Outruns env.xxh64 (fetched env world) q step start first last := by
  cases answer : findFileWithS3 env.config world.disk world.cloud start world.ranges with
  | ok found =>
    obtain ⟨located, ranges⟩ := found
    cases located with
    | file first =>
      have goes : ∀ sender : Sender, sender.isClosed = false →
          transition env step world (.lookupFile start none step sender) =
            .next { world with ranges := ranges } (.readFile ⟨first, start, step, none, sender⟩) := by
        intro sender opened
        simp only [transition, handleLookupFile, opened, Bool.false_eq_true, if_false, answer]
      have onward := @readFile_completes_iff env { world with ranges := ranges } q step start first
        memory steps word
      constructor
      · rintro never last lastId _ _ ⟨⟩
        refine onward.mp ?_ last lastId
        intro sender
        cases opened : sender.isClosed with
        | true => exact .closed opened (by rintro _ ⟨⟩)
        | false =>
          intro fuel world' out ends
          refine never sender (fuel + 1) world' out ?_
          rw [run_succ, goes sender opened]
          exact ends
      · intro never sender
        cases opened : sender.isClosed with
        | true => exact .closed opened (by rintro _ ⟨⟩)
        | false =>
          refine .of_step (goes sender opened) rfl (onward.mpr ?_ sender)
          exact fun last lastId => never last lastId first ranges rfl
    | nothing =>
      refine iff_of_true ?_ (by rintro _ _ _ _ ⟨⟩)
      intro sender
      cases opened : sender.isClosed with
      | true => exact .closed opened (by rintro _ ⟨⟩)
      | false =>
        refine .of_step ?_ rfl (.failed env step { world with ranges := ranges } .queueNotFound sender)
        simp only [transition, handleLookupFile, opened, Bool.false_eq_true, if_false, answer]
    | endless =>
      refine iff_of_true ?_ (by rintro _ _ _ _ ⟨⟩)
      intro sender
      cases opened : sender.isClosed with
      | true => exact .closed opened (by rintro _ ⟨⟩)
      | false =>
        refine .stops ?_ rfl
        intro world' state'
        simp only [transition, handleLookupFile, opened, Bool.false_eq_true, if_false, answer]
        rintro ⟨⟩
  | err e =>
    refine iff_of_true ?_ (by rintro _ _ _ _ ⟨⟩)
    intro sender
    cases opened : sender.isClosed with
    | true => exact .closed opened (by rintro _ ⟨⟩)
    | false =>
      refine .of_step ?_ rfl (.failed env step world .notFound sender)
      simp only [transition, handleLookupFile, opened, Bool.false_eq_true, if_false, answer]
  | panic =>
    refine iff_of_true ?_ (by rintro _ _ _ _ ⟨⟩)
    intro sender
    cases opened : sender.isClosed with
    | true => exact .closed opened (by rintro _ ⟨⟩)
    | false =>
      refine .stops ?_ rfl
      intro world' state'
      simp only [transition, handleLookupFile, opened, Bool.false_eq_true, if_false, answer]
      rintro ⟨⟩

/- Whatever is on disk and in memory, no client of a read without a limit is told that the stream is
finished, if and only if the files from the one that the lookup finds do not lead past the last entry
of the queue. -/
theorem follow_never_completes_iff (memory : world.mem = some q) (steps : 0 < step)
    (word : step < 2 ^ 64) (position : ReadPosition) :
    (∀ sender fuel world' sender',
      read env position 0 step world sender fuel ≠ .next world' (.completed sender')) ↔
    ∀ start, q.lookupStart position = some start → ∀ last, q.lastId = some last → ∀ first ranges,
      findFileWithS3 env.config world.disk world.cloud start world.ranges = .ok (.file first, ranges) →
      ¬ Outruns env.xxh64 (fetched env world) q step start first last := by
  have asks : (∀ sender fuel world' sender',
        read env position 0 step world sender fuel ≠ .next world' (.completed sender')) ↔
      ∀ sender : Sender, sender.isClosed = false →
        NeverCompletes env step world (initialState position 0 sender) := by
    constructor
    · intro never sender opened fuel world' out ends
      refine never sender fuel world' out ?_
      rw [read, if_neg (by simp [opened])]
      exact ends
    · intro never sender fuel world' out
      unfold read
      split
      · rintro ⟨⟩
      · rename_i opened
        exact never sender (Bool.not_eq_true _ ▸ opened) fuel world' out
  rw [asks]
  cases looksUp : q.lookupStart position with
  | none =>
    exact iff_of_true (fun sender opened => lookup_never memory steps word looksUp opened) (by rintro _ ⟨⟩)
  | some start =>
    have running : ∀ sender : Sender, (initialState position 0 sender).isTerminal = false := by
      intro sender
      cases position <;> rfl
    have onward := @lookupFile_completes_iff env world q step start memory steps word
    constructor
    · rintro never _ ⟨⟩
      refine onward.mp ?_
      intro sender
      cases opened : sender.isClosed with
      | true => exact .closed opened (by rintro _ ⟨⟩)
      | false =>
        intro fuel world' out ends
        refine never sender opened (fuel + 1) world' out ?_
        rw [run_succ, running, lookup_starts memory looksUp opened]
        exact ends
    · intro never sender opened
      exact .of_step (lookup_starts memory looksUp opened) (running sender)
        (onward.mpr (never start rfl) sender)

end Unlimited

/- All three entries in memory: the read never gets to the files. -/
theorem follow_never_completes_recent :
    ¬ ∃ sender fuel world' sender', read Sample.env (.absolute .zero) 0 1 (Sample.world 1 1 0) sender fuel =
      .next world' (.completed sender') := by
  rintro ⟨sender, fuel, world', sender', completes⟩
  refine (follow_never_completes_iff rfl (by decide) (by decide) (.absolute .zero)).mpr ?_ _ _ _ _ completes
  intro start looksUp
  cases looksUp

/- Two files, the second entry also in memory. A read of every second entry gets the first one from
its file; the next wanted one is the third, which is still to be written. -/
theorem follow_told_complete :
    ∃ world' sender, read Sample.env (.absolute .zero) 0 2 (Sample.world 1 0 1) (.staying []) 8 =
        .next world' (.completed sender) ∧
      sender.delivered.map (fun e => e.id.toNat) = [0] := by
  have ran : (read Sample.env (.absolute .zero) 0 2 (Sample.world 1 0 1) (.staying []) 8).completedSender.any
      (fun sender => decide (sender.delivered.map (fun e => e.id.toNat) = [0])) = true := by decide +kernel
  obtain ⟨sender, completed, delivered⟩ := (Option.any_eq_true _ _).mp ran
  obtain ⟨world', ends⟩ := Move.completedSender_eq_some completed
  exact ⟨world', sender, ends, of_decide_eq_true delivered⟩

end NormFS
