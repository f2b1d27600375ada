import Mathlib.Data.List.Nodup
import Mathlib.Data.List.Perm.Subperm
import NormFS.Mem.Subscription

/-! From the snapshot of a follower to its subscription. What was appended before the snapshot is in
it; what is appended after the registration is announced to the new subscription; what falls between
the two is announced to those who are registered at that time. -/
namespace NormFS

open Stride Runs

namespace Feed

/-- The entries whose announcement is still to come. -/
def pending (s : Feed) : List Entry :=
  s.producers.flatMap (fun producer => match producer with
    | .notifying entries => entries
    | .removing _ => [])

/-- There is one producer: it appends again when it is done with the last append. -/
def oneProducer (s : Feed) : FeedEvent → Bool
  | .enqueue _ | .enqueueBatch _ => s.producers.isEmpty
  | _ => true

/-- At the registration the announcement of every wanted entry appended since the snapshot is still
to come. -/
def registersInTime (s : Feed) : FeedEvent → Bool
  | .follow =>
    match s.follower with
    | .sending [] subscriber =>
      (wanted subscriber.fromId.toNat subscriber.step none (s.log.drop s.seen)).all
        (fun e => s.pending.any (fun announced => decide (announced = e)))
    | _ => true
  | _ => true

end Feed

namespace FollowRequest

def step : FollowRequest → Nat
  | fromId _ step _ | fromTail _ step _ => step

/-- The first number that is wanted, when `next` is the number of the next entry at the snapshot. -/
def startAt (next : Nat) : FollowRequest → Nat
  | fromId startId _ _ => startId.toNat
  | fromTail offset _ _ => if offset.toNat = 0 then next else next - 1 - offset.toNat

end FollowRequest

section Numbers

variable {lo : Nat} {log : List Entry}

theorem numbered_drop (numbered : Numbered lo log) (k : Nat) :
    log.drop k = log.filter (fun e => decide (lo + k ≤ e.1.toNat)) := by
  induction log generalizing lo k with
  | nil => simp
  | cons e log ih =>
    obtain ⟨number, rest⟩ := numbered_cons.mp numbered
    cases k with
    | zero =>
      have all : ∀ a ∈ e :: log, decide (lo + 0 ≤ a.1.toNat) = true := by
        intro a member
        exact decide_eq_true (numbered.mem member).1
      exact (List.filter_eq_self.mpr all).symm
    | succ k =>
      have before : ¬ lo + (k + 1) ≤ e.1.toNat := by omega
      have shifted : lo + (k + 1) = lo + 1 + k := by omega
      rw [List.drop_succ_cons, ih rest k, List.filter_cons_of_neg (by simpa using before), shifted]

theorem numbered_suffix {part : List Entry} (numbered : Numbered lo log) (suffix : part <:+ log) :
    Numbered (lo + (log.length - part.length)) part := by
  obtain ⟨gone, rfl⟩ := suffix
  rw [List.length_append, Nat.add_sub_cancel]
  exact (numbered_append.mp numbered).2

/-- Of a subscription whose last sent entry is the last wanted one of the log, what comes late is
what comes after the log. -/
theorem after_last_wanted (numbered : Numbered lo log) {start step n : Nat}
    (hits : hit start step none n = true) (above : lo ≤ n) :
    (∀ last ∈ (wanted start step none log).getLast?.map Prod.fst, last.toNat < n) ↔ lo + log.length ≤ n := by
  have increasing : ((wanted start step none log).map (fun e => e.1.toNat)).Pairwise (· < ·) := by
    rw [wanted_ids start step none numbered]
    exact List.Pairwise.sublist List.filter_sublist List.pairwise_lt_range'
  constructor
  · intro late
    by_contra inside
    have listed : n ∈ log.map (fun e => e.1.toNat) := by
      rw [numbered, List.mem_range'_1]
      omega
    obtain ⟨e, member, rfl⟩ := List.mem_map.mp listed
    have picked : e ∈ wanted start step none log := List.mem_filter.mpr ⟨member, hits⟩
    cases found : (wanted start step none log).getLast? with
    | none =>
      rw [List.getLast?_eq_none_iff.mp found] at picked
      cases picked
    | some last =>
      have less := late last.1 (by rw [found]; rfl)
      obtain ⟨front, split⟩ := List.getLast?_eq_some_iff.mp found
      rw [split, List.map_append, List.pairwise_append] at increasing
      rw [split] at picked
      rcases List.mem_append.mp picked with earlier | here
      · have := increasing.2.2 _ (List.mem_map.mpr ⟨e, earlier, rfl⟩) last.1.toNat (by simp)
        omega
      · obtain rfl := List.mem_singleton.mp here
        omega
  · intro beyond last member
    obtain ⟨e, found, rfl⟩ := Option.map_eq_some_iff.mp member
    have among := (List.mem_filter.mp (List.mem_of_getLast? found)).1
    have := (numbered.mem among).2
    omega

end Numbers

/-- The subscription skips entries up to the last one that was sent. -/
def Subscriber.Late (sub : Subscriber) (n : Nat) : Prop := ∀ last ∈ sub.lastSentId, last.toNat < n

theorem Subscriber.takes_iff (sub : Subscriber) (e : Entry) :
    (sub.fromId.toNat ≤ e.1.toNat ∧ sub.takes e = true) ↔
      (hit sub.fromId.toNat sub.step none e.1.toNat = true ∧ sub.Late e.1.toNat) := by
  have late : sub.lastSentId.any (fun last => decide (e.1 ≤ last)) = false ↔ sub.Late e.1.toNat := by
    rw [Subscriber.Late]
    cases sub.lastSentId <;> simp [UintN.le_iff]
  have steps : (sub.fromId.toNat ≤ e.1.toNat ∧ passes sub.fromId.toNat sub.step e.1.toNat = true) ↔
      hit sub.fromId.toNat sub.step none e.1.toNat = true := by
    rw [hit_iff, passes, decide_eq_true_iff]
    constructor
    · rintro ⟨reached, single | ⟨-, multiple⟩⟩
      · exact ⟨reached, by rintro _ ⟨⟩, single ▸ Nat.one_dvd _⟩
      · exact ⟨reached, by rintro _ ⟨⟩, multiple⟩
    · rintro ⟨reached, -, multiple⟩
      exact ⟨reached, .inr ⟨reached, multiple⟩⟩
  rw [Subscriber.takes, Bool.and_eq_true, Bool.not_eq_true', late, ← steps]
  tauto

/-- A follower between its snapshot and its registration, or after it: of the wanted entries it will
be told about, it skips those that were in the log of the snapshot. -/
structure Subscriber.Marks (sub : Subscriber) (lo seen : Nat) : Prop where
  late : ∀ n, hit sub.fromId.toNat sub.step none n = true → lo ≤ n → (sub.Late n ↔ lo + seen ≤ n)

namespace Feed.Logged

variable {lo : Nat} {s : Feed}

theorem wanted_memory (logged : Logged lo s) {first : UintN} (found : s.queue.firstId = some first)
    {start : Nat} (reached : first.toNat ≤ start) (step : Nat) :
    wanted start step none s.queue.entries = wanted start step none s.log := by
  obtain ⟨gone, split⟩ := logged.memory
  have memory := numbered_suffix logged.numbered logged.memory
  have head := logged.firstId
  rw [found] at head
  obtain ⟨e, headOf, rfl⟩ := Option.map_eq_some_iff.mp head.symm
  have firstValue := (memory.mem (List.mem_of_head? headOf)).1
  have none' : wanted start step none gone = [] := by
    rw [wanted, List.filter_eq_nil_iff]
    intro old member hits
    have older : Numbered lo gone := by
      have numbered := logged.numbered
      rw [← split] at numbered
      exact (numbered_append.mp numbered).1
    have below := (older.mem member).2
    have above := (hit_iff.mp hits).1
    have length := congrArg List.length split
    rw [List.length_append] at length
    omega
  rw [← split, wanted, wanted, List.filter_append]
  change _ = wanted start step none gone ++ _
  rw [none', List.nil_append]

variable {step : Nat} {entries : List Entry} {sub : Subscriber}

theorem collected (logged : Logged lo s) (steps : 0 < step) (word : step < 2 ^ 64)
    {first start : UintN} (found : s.queue.firstId = some first) (reached : first.toNat ≤ start.toNat) :
    collect step none none start (s.queue.since start) = some (wanted start.toNat step none s.log) := by
  have memory := numbered_suffix logged.numbered logged.memory
  have head := logged.firstId
  rw [found] at head
  obtain ⟨e, headOf, rfl⟩ := Option.map_eq_some_iff.mp head.symm
  have entries := logged.wanted_memory found reached step
  have number : e.1.toNat = lo + (s.log.length - s.queue.entries.length) := by
    cases list : s.queue.entries with
    | nil =>
      rw [list] at headOf
      cases headOf
    | cons a rest =>
      rw [list] at headOf memory
      cases headOf
      exact (numbered_cons.mp memory).1
  have since := @Numbered.since _ _ memory start (by omega)
  have sent := collect_numbered steps word since start (Nat.le_refl _) none
  rw [Option.map_none, wanted_since, entries] at sent
  exact sent

theorem log_empty (logged : Logged lo s) (none' : s.queue.firstId = none) : s.log = [] := by
  by_contra filled
  have head := logged.firstId
  rw [none'] at head
  exact logged.kept filled (List.head?_eq_none_iff.mp (Option.map_eq_none_iff.mp head.symm))

structure Snapshot (lo : Nat) (s : Feed) (request : FollowRequest) (entries : List Entry)
    (sub : Subscriber) : Prop where
  step : sub.step = request.step
  target : sub.target = request.target
  entries : entries = wanted sub.fromId.toNat sub.step none s.log
  marks : sub.Marks lo s.log.length
  start : sub.fromId.toNat = request.startAt (lo + s.log.length)

section

variable (logged : Logged lo s)

include logged

theorem marks_last (start : UintN) (step : Nat) (target : Sender) :
    Subscriber.Marks ⟨start, step, (wanted start.toNat step none s.log).getLast?.map Prod.fst, target⟩ lo
      s.log.length :=
  ⟨fun _ hits above => after_last_wanted logged.numbered hits above⟩

theorem lastId_next :
    s.queue.lastId.elim 0 (fun last => last.toNat + 1) = lo + s.log.length := by
  rw [← logged.next, MemQueue.nextId]
  cases s.queue.lastId with
  | none => rfl
  | some last => exact (UintN.toNat_increment last).symm

theorem followStart_fromId {start : UintN} {target : Sender}
    (steps : 0 < step) (word : step < 2 ^ 64)
    (found : s.queue.followStart (.fromId start step target) = some (some (entries, sub))) :
    Snapshot lo s (.fromId start step target) entries sub := by
  cases first : s.queue.firstId with
  | none =>
    have empty := logged.log_empty first
    simp only [MemQueue.followStart, MemQueue.followSnapshot, first] at found
    cases found
    refine ⟨rfl, rfl, by rw [empty]; rfl, ?_, rfl⟩
    have marks := logged.marks_last start step target
    rwa [empty] at marks ⊢
  | some memStart =>
    simp only [MemQueue.followStart, MemQueue.followSnapshot, first] at found
    split at found
    · cases found
    · rename_i notBefore
      rw [UintN.lt_iff] at notBefore
      rw [logged.collected steps word first (by omega)] at found
      cases found
      exact ⟨rfl, rfl, rfl, logged.marks_last start step target, rfl⟩

/-- Everything so far is skipped, and counting starts with the next entry. -/
theorem snapshot_tail {offset fromId : UintN} (zero : offset.toNat = 0)
    (value : fromId.toNat = lo + s.log.length) (step : Nat) (target : Sender) :
    Snapshot lo s (.fromTail offset step target) [] ⟨fromId, step, s.queue.lastId, target⟩ := by
  refine ⟨rfl, rfl, ?_, ⟨?_⟩, ?_⟩
  · symm
    rw [wanted, List.filter_eq_nil_iff]
    intro e member hits
    have above := value.ge.trans (hit_iff.mp hits).1
    have below := (logged.numbered.mem member).2
    omega
  · intro n hits _
    have above := value.ge.trans (hit_iff.mp hits).1
    have next := logged.lastId_next
    refine ⟨fun _ => by omega, fun _ => ?_⟩
    rintro last (lastId : s.queue.lastId = some last)
    rw [lastId] at next
    change last.toNat + 1 = _ at next
    omega
  · rw [FollowRequest.startAt, if_pos zero]
    exact value

theorem followStart_fromTail {offset : UintN} {target : Sender}
    (steps : 0 < step) (word : step < 2 ^ 64)
    (found : s.queue.followStart (.fromTail offset step target) = some (some (entries, sub))) :
    Snapshot lo s (.fromTail offset step target) entries sub := by
  have next := logged.lastId_next
  simp only [MemQueue.followStart] at found
  split at found
  · rename_i nothing
    cases found
    refine logged.snapshot_tail ((UintN.beq_iff _ _).mp nothing) ?_ step target
    rw [← next]
    cases s.queue.lastId with
    | none => rfl
    | some last => exact UintN.toNat_add last (.ofU64 1)
  · rename_i something
    split at found
    · cases found
    · rename_i last lastId
      split at found
      · cases found
      · rename_i first
        split at found
        · cases found
        · rename_i notBefore
          rw [UintN.lt_iff] at notBefore
          rw [logged.collected steps word first (Nat.le_of_not_lt notBefore)] at found
          cases found
          refine ⟨rfl, rfl, rfl, logged.marks_last _ step target, ?_⟩
          rw [lastId] at next
          change last.toNat + 1 = _ at next
          have nonzero : ¬ offset.toNat = 0 := fun zero => something ((UintN.beq_iff _ _).mpr zero)
          rw [FollowRequest.startAt, if_neg nonzero, ← next, Nat.add_sub_cancel]
          exact MemQueue.toNat_tailStart last offset

/-- Whichever way it was asked for, a snapshot takes what is wanted of the whole log. -/
theorem followStart {request : FollowRequest} (steps : 0 < request.step)
    (word : request.step < 2 ^ 64)
    (found : s.queue.followStart request = some (some (entries, sub))) :
    Snapshot lo s request entries sub := by
  cases request with
  | fromId => exact logged.followStart_fromId steps word found
  | fromTail => exact logged.followStart_fromTail steps word found

end

end Feed.Logged

structure FollowRequest.Asks (request : FollowRequest) (next : Nat) (sub : Subscriber) : Prop where
  steps : 0 < sub.step
  word : sub.step < 2 ^ 64
  step : sub.step = request.step
  start : sub.fromId.toNat = request.startAt next

namespace Feed

def wantedBy (sub : Subscriber) (entries : List Entry) : List Entry :=
  wanted sub.fromId.toNat sub.step none entries

structure Sending (lo : Nat) (s : Feed) (rest : List Entry) (sub : Subscriber) : Prop where
  marks : sub.Marks lo s.seen
  within : s.seen ≤ s.log.length
  sent : ∃ sent, sub.target = .staying (sent.map memoryEntry) ∧
    sent ++ rest = wantedBy sub (s.log.take s.seen)

def received (sub : Subscriber) : List ReadEntry :=
  sub.target.delivered.filter (fun e => decide (sub.fromId.toNat ≤ e.id.toNat))

structure Served (lo : Nat) (s : Feed) (sub : Subscriber) : Prop where
  marks : sub.Marks lo s.seen
  within : s.seen ≤ s.log.length
  stays : sub.target = .staying sub.target.delivered
  complete : received sub ++
    (wantedBy sub (s.pending.filter (fun e => decide (lo + s.seen ≤ e.1.toNat)))).map memoryEntry =
      (wantedBy sub s.log).map memoryEntry

inductive Phase (lo : Nat) (request : FollowRequest) (s : Feed) : Prop
  | starting (here : s.follower = .starting request)
  | sending {rest : List Entry} {sub : Subscriber} (here : s.follower = .sending rest sub)
      (asks : request.Asks (lo + s.seen) sub) (sending : Sending lo s rest sub)
  | refused (here : s.follower = .ended none)
  | registered {mine : Nat} {sub : Subscriber} (here : s.follower = .ended (some mine))
      (asks : request.Asks (lo + s.seen) sub) (among : (mine, sub) ∈ s.queue.subscribers) (served : Served lo s sub)
      (safe : ∀ failed, .removing failed ∈ s.producers → mine ∉ failed)

structure Followed (lo : Nat) (request : FollowRequest) (s : Feed) : Prop where
  logged : Logged lo s
  lone : s.producers.length ≤ 1
  pending : s.pending <:+ s.log
  removals : ∀ failed, .removing failed ∈ s.producers → ∀ id ∈ failed, id < s.queue.nextSubscriberId
  phase : Phase lo request s

structure Appends (s next : Feed) (added : List Entry) : Prop where
  log : next.log = s.log ++ added
  producers : next.producers =
    s.producers ++ notifies (if s.queue.subscribers.isEmpty then none else some added)
  subscribers : next.queue.subscribers = s.queue.subscribers
  nextSubscriberId : next.queue.nextSubscriberId = s.queue.nextSubscriberId
  follower : next.follower = s.follower
  seen : next.seen = s.seen

theorem appends (s : Feed) {batch : List Bytes} (filled : batch ≠ []) :
    Appends s (s.enqueueBatch batch) (MemQueue.numbered s.queue.nextId batch) := by
  have some : batch.isEmpty = false := by simpa using filled
  constructor <;> simp [Feed.enqueueBatch, MemQueue.appendBatch, some]

theorem Logged.appends {lo : Nat} {s : Feed} (logged : Logged lo s) (batch : List Bytes) :
    s.enqueueBatch batch = s ∨ ∃ added, Numbered (lo + s.log.length) added ∧
      Appends s (s.enqueueBatch batch) added := by
  cases batch with
  | nil =>
    left
    simp [Feed.enqueueBatch, MemQueue.appendBatch, MemQueue.numbered, notifies]
  | cons data batch =>
    right
    refine ⟨MemQueue.numbered s.queue.nextId (data :: batch), ?_, s.appends (List.cons_ne_nil _ _)⟩
    rw [← logged.next]
    exact numbered_numbered _ _

section Steps

variable {lo : Nat} {request : FollowRequest} {s : Feed}

theorem wantedBy_append (sub : Subscriber) (as bs : List Entry) :
    wantedBy sub (as ++ bs) = wantedBy sub as ++ wantedBy sub bs := List.filter_append ..

theorem pending_nil (idle : s.producers = []) : s.pending = [] := by
  rw [pending, idle]
  rfl

variable {next : Feed} {added entries : List Entry} {sub : Subscriber} {i : Nat}
  {producer : Producer} {failed : List Nat}

theorem Sending.append {rest : List Entry}
    (sending : Sending lo s rest sub) (appends : Appends s next added) : Sending lo next rest sub where
  marks := by
    rw [appends.seen]
    exact sending.marks
  within := by
    rw [appends.seen, appends.log, List.length_append]
    exact Nat.le_add_right_of_le sending.within
  sent := by
    rw [appends.seen, appends.log, List.take_append_of_le_length sending.within]
    exact sending.sent

theorem Served.append (served : Served lo s sub)
    (appends : Appends s next added) (numbered : Numbered (lo + s.log.length) added)
    (idle : s.producers = []) (announced : next.pending = added) : Served lo next sub where
  marks := by
    rw [appends.seen]
    exact served.marks
  within := by
    rw [appends.seen, appends.log, List.length_append]
    exact Nat.le_add_right_of_le served.within
  stays := served.stays
  complete := by
    have before := served.complete
    rw [pending_nil idle] at before
    have late : added.filter (fun e => decide (lo + s.seen ≤ e.1.toNat)) = added := by
      rw [List.filter_eq_self]
      intro e member
      have above := (numbered.mem member).1
      have within := served.within
      exact decide_eq_true (by omega)
    rw [announced, appends.seen, late, appends.log, wantedBy_append, List.map_append, ← before]
    simp [wantedBy, wanted]

theorem Followed.append (followed : Followed lo request s)
    (after : Logged lo next) (idle : s.producers = []) (numbered : Numbered (lo + s.log.length) added)
    (appends : Appends s next added) : Followed lo request next := by
  have producers := appends.producers
  rw [idle, List.nil_append] at producers
  have kind : next.pending = if s.queue.subscribers.isEmpty then [] else added := by
    rw [Feed.pending, producers]
    split <;> simp [notifies]
  have quiet : ∀ failed, .removing failed ∉ next.producers := by
    intro failed member
    rw [producers] at member
    split at member <;> simp [notifies] at member
  constructor
  · exact after
  · rw [producers]
    split <;> simp [notifies]
  · rw [kind, appends.log]
    split
    · exact List.nil_suffix
    · exact List.suffix_append _ _
  · intro failed member
    exact absurd member (quiet failed)
  · cases followed.phase with
    | starting here => exact .starting (appends.follower.trans here)
    | sending here asks sending =>
      exact .sending (appends.follower.trans here) (by rwa [appends.seen]) (sending.append appends)
    | refused here => exact .refused (appends.follower.trans here)
    | registered here asks among served safe =>
      have filled : s.queue.subscribers.isEmpty = false := by
        rw [List.isEmpty_eq_false_iff]
        exact List.ne_nil_of_mem among
      rw [filled, if_neg Bool.false_ne_true] at kind
      exact .registered (appends.follower.trans here) (by rwa [appends.seen]) (by rwa [appends.subscribers])
        (served.append appends numbered idle kind) (fun failed member => absurd member (quiet failed))

theorem Followed.enqueueBatch (followed : Followed lo request s) (idle : s.producers = [])
    (batch : List Bytes) : Followed lo request (s.enqueueBatch batch) := by
  have after := followed.logged.enqueueBatch batch
  rcases followed.logged.appends batch with same | ⟨added, numbered, appends⟩
  · rwa [same]
  · exact followed.append after idle numbered appends

theorem received_call (asks : request.Asks (lo + s.seen) sub) (served : Served lo s sub) (pending : s.pending = entries) (logged : entries <:+ s.log)
    (numbered : Numbered lo s.log) :
    ∃ after, sub.call entries = .ok (after, true) ∧ request.Asks (lo + s.seen) after ∧ Subscriber.Marks after lo s.seen ∧
      after.target = .staying after.target.delivered ∧ wantedBy after = wantedBy sub ∧
      received after = (wantedBy sub s.log).map memoryEntry := by
  refine ⟨_, call_staying asks.steps asks.word served.stays entries, ⟨asks.steps, asks.word, asks.step, asks.start⟩,
    ⟨served.marks.late⟩, rfl, rfl, ?_⟩
  have taken : (entries.filter sub.takes).filter (fun e => decide (sub.fromId.toNat ≤ e.1.toNat)) =
      wantedBy sub (entries.filter (fun e => decide (lo + s.seen ≤ e.1.toNat))) := by
    rw [wantedBy, wanted, List.filter_filter, List.filter_filter]
    apply List.filter_congr
    intro e member
    have above := (numbered.mem (logged.subset member)).1
    have late := served.marks.late e.1.toNat
    rw [Bool.eq_iff_iff]
    simp only [Bool.and_eq_true, decide_eq_true_eq]
    rw [sub.takes_iff e]
    constructor
    · rintro ⟨hits, isLate⟩
      exact ⟨hits, (late hits above).mp isLate⟩
    · rintro ⟨hits, isLate⟩
      exact ⟨hits, (late hits above).mpr isLate⟩
  have complete := served.complete
  rw [pending, ← taken] at complete
  rw [← complete, received, received]
  change List.filter _ (sub.target.delivered ++ _) = _
  rw [List.filter_append, List.filter_map]
  rfl

theorem Followed.only (followed : Followed lo request s)
    (here : s.producers[i]? = some producer) : i = 0 ∧ s.producers = [producer] := by
  have lone := followed.lone
  cases list : s.producers with
  | nil =>
    rw [list] at here
    cases here
  | cons first rest =>
    rw [list] at here lone
    obtain rfl : rest = [] := List.eq_nil_of_length_eq_zero (by simpa using lone)
    cases i with
    | zero =>
      cases here
      exact ⟨rfl, rfl⟩
    | succ i => cases here

theorem goesOn_lone (producer : Producer) (failed : List Nat) :
    goesOn [producer] 0 failed = if failed.isEmpty then [] else [.removing failed] := by
  cases failed <;> rfl

theorem pending_goesOn
    (goes : next.producers = goesOn [producer] 0 failed) : next.pending = [] := by
  rw [Feed.pending, goes, goesOn_lone]
  split <;> rfl

theorem removing_goesOn {given : List Nat}
    (member : .removing given ∈ goesOn [producer] 0 failed) : given = failed := by
  rw [goesOn_lone] at member
  split at member
  · cases member
  · cases List.mem_singleton.mp member
    rfl

theorem length_goesOn (producer : Producer) (failed : List Nat) :
    (goesOn [producer] 0 failed).length ≤ 1 := by
  rw [goesOn_lone]
  split <;> simp

section

variable (followed : Followed lo request s)

include followed

theorem Followed.notify {subscribers : List (Nat × Subscriber)}
    (here : s.producers[i]? = some (.notifying entries))
    (called : MemQueue.callSubscribers entries s.queue.subscribers = .ok (subscribers, failed)) :
    Followed lo request { s with
      queue := { s.queue with subscribers := subscribers }
      producers := goesOn s.producers i failed } := by
  obtain ⟨rfl, only⟩ := followed.only here
  obtain ⟨keys, each, named⟩ := callSubscribers_mem called
  have announced : s.pending = entries := by
    rw [Feed.pending, only]
    exact List.append_nil entries
  have silent : Feed.pending { s with
      queue := { s.queue with subscribers := subscribers }
      producers := goesOn s.producers 0 failed } = [] := pending_goesOn (by rw [only])
  constructor
  · exact followed.logged.withSubscribers (by rw [keys]) _ _ _ _
  · rw [only]
    exact length_goesOn _ _
  · rw [silent]
    exact List.nil_suffix
  · intro given member id inside
    rw [only] at member
    obtain rfl := removing_goesOn member
    obtain ⟨sub, -, among, -⟩ := named id inside
    exact followed.logged.fresh id (List.mem_map.mpr ⟨_, among, rfl⟩)
  · cases followed.phase with
    | starting here => exact .starting here
    | sending here asks sending => exact .sending here asks ⟨sending.marks, sending.within, sending.sent⟩
    | refused here => exact .refused here
    | @registered mine sub here asks among served safe =>
      have suffix := followed.pending
      rw [announced] at suffix
      obtain ⟨after, call, asked, marks, stays, same, got⟩ :=
        received_call asks served announced suffix followed.logged.numbered
      obtain ⟨after', kept, call', among', -⟩ := each mine sub among
      rw [call] at call'
      cases call'
      refine .registered here asked among' ⟨marks, served.within, stays, ?_⟩ ?_
      · rw [silent, got, same]
        simp [wantedBy, wanted]
      · intro given member inside
        rw [only] at member
        obtain rfl := removing_goesOn member
        obtain ⟨other, after', among'', call''⟩ := named mine inside
        obtain rfl : other = sub := by
          have unique := List.inj_on_of_nodup_map followed.logged.keys among'' among rfl
          exact (Prod.mk.inj unique).2
        rw [call] at call''
        cases call''

theorem Followed.remove {id : Nat} {rest : List Nat}
    (here : s.producers[i]? = some (.removing (id :: rest))) :
    Followed lo request { s with
      queue := s.queue.unsubscribe id
      producers := goesOn s.producers i rest
      removed := s.removed ++ s.queue.subscribers.filter (fun other => other.1 == id) } := by
  obtain ⟨rfl, only⟩ := followed.only here
  have silent : Feed.pending { s with
      queue := s.queue.unsubscribe id
      producers := goesOn s.producers 0 rest
      removed := s.removed ++ s.queue.subscribers.filter (fun other => other.1 == id) } = [] :=
    pending_goesOn (by rw [only])
  have before : s.pending = [] := by
    rw [Feed.pending, only]
    rfl
  have listed : Producer.removing (id :: rest) ∈ s.producers := by simp [only]
  constructor
  · exact followed.logged.withSubscribers (List.filter_sublist.map Prod.fst) _ _ _ _
  · rw [only]
    exact length_goesOn _ _
  · rw [silent]
    exact List.nil_suffix
  · intro given member other inside
    rw [only] at member
    obtain rfl := removing_goesOn member
    exact followed.removals _ listed other (List.mem_cons_of_mem _ inside)
  · cases followed.phase with
    | starting here => exact .starting here
    | sending here asks sending => exact .sending here asks ⟨sending.marks, sending.within, sending.sent⟩
    | refused here => exact .refused here
    | @registered mine sub here asks among served safe =>
      have apart := safe _ listed
      refine .registered here asks ?_ ⟨served.marks, served.within, served.stays, ?_⟩ ?_
      · apply List.mem_filter.mpr
        refine ⟨among, ?_⟩
        simpa using fun same : mine = id => apart (same ▸ List.mem_cons_self)
      · rw [silent]
        have complete := served.complete
        rwa [before] at complete
      · intro given member inside
        rw [only] at member
        obtain rfl := removing_goesOn member
        exact apart (List.mem_cons_of_mem _ inside)

theorem Followed.produce
    (moved : s.produce i = some next) : Followed lo request next := by
  unfold Feed.produce at moved
  split at moved
  · cases moved
  · rename_i here
    split at moved
    · rename_i called
      cases moved
      exact followed.notify here called
    · cases moved
  · cases moved
  · rename_i here
    cases moved
    exact followed.remove here

theorem Followed.receive (capacity id : Nat) :
    Followed lo request (s.receive capacity id) := by
  refine ⟨followed.logged.receive capacity id, followed.lone, followed.pending, followed.removals, ?_⟩
  cases followed.phase with
  | starting here => exact .starting here
  | sending here asks sending => exact .sending here asks ⟨sending.marks, sending.within, sending.sent⟩
  | refused here => exact .refused here
  | @registered mine sub here asks among served safe =>
    refine .registered here asks ?_ ⟨served.marks, served.within, served.stays, served.complete⟩ safe
    apply List.mem_map.mpr
    refine ⟨(mine, sub), among, if_neg ?_⟩
    rintro ⟨-, bounded⟩
    have stays := served.stays
    rw [stays] at bounded
    cases bounded

end

theorem Followed.snapshot (steps : 0 < request.step) (word : request.step < 2 ^ 64)
    (fresh : request.target = .staying []) (followed : Followed lo request s) (found : s.queue.followStart request = some (some (entries, sub))) :
    Followed lo request { s with follower := .sending entries sub, seen := s.log.length } := by
  have taken := followed.logged.followStart steps word found
  refine ⟨followed.logged.withSubscribers (List.Sublist.refl _) _ _ _ _, followed.lone, followed.pending,
    followed.removals, .sending rfl ⟨?_, ?_, taken.step, taken.start⟩
      ⟨taken.marks, Nat.le_refl _, [], ?_, ?_⟩⟩
  · rwa [taken.step]
  · rwa [taken.step]
  · rw [taken.target, fresh]
    rfl
  · rw [List.nil_append, List.take_length]
    exact taken.entries

theorem Followed.send (followed : Followed lo request s) {entry : Entry} {rest : List Entry} {target : Sender} (asks : request.Asks (lo + s.seen) sub)
    (sending : Sending lo s (entry :: rest) sub) (sent : sub.target.sendEntry entry = some target) :
    Followed lo request { s with follower := .sending rest { sub with target := target } } := by
  refine ⟨followed.logged.withSubscribers (List.Sublist.refl _) _ _ _ _, followed.lone, followed.pending,
    followed.removals, .sending rfl ⟨asks.steps, asks.word, asks.step, asks.start⟩
      ⟨⟨sending.marks.late⟩, sending.within, ?_⟩⟩
  obtain ⟨before, reached, split⟩ := sending.sent
  rw [reached] at sent
  cases sent
  refine ⟨before ++ [entry], ?_, ?_⟩
  · rw [List.map_append]
    rfl
  · rw [List.append_assoc]
    exact split

/-- When the announcements of what is wanted since the snapshot are still to come, they come. -/
theorem pending_wanted (followed : Followed lo request s)
    (inTime : ∀ e ∈ wantedBy sub (s.log.drop s.seen), e ∈ s.pending) :
    wantedBy sub (s.pending.filter (fun e => decide (lo + s.seen ≤ e.1.toNat))) =
      wantedBy sub (s.log.drop s.seen) := by
  have numbered := followed.logged.numbered
  have distinct : (wantedBy sub (s.log.drop s.seen)).Nodup := by
    have ids : (s.log.map (fun e => e.1.toNat)).Nodup := by
      rw [numbered]
      exact List.nodup_range'
    exact (List.Nodup.of_map _ ids).sublist (List.filter_sublist.trans (List.drop_sublist _ _))
  rw [numbered_drop numbered] at inTime distinct ⊢
  apply List.Sublist.eq_of_length_le
  · exact (followed.pending.sublist.filter _).filter _
  · apply List.Subperm.length_le
    apply distinct.subperm
    intro e member
    obtain ⟨late, hits⟩ := List.mem_filter.mp member
    exact List.mem_filter.mpr
      ⟨List.mem_filter.mpr ⟨inTime e member, (List.mem_filter.mp late).2⟩, hits⟩

theorem Followed.register (followed : Followed lo request s) (asks : request.Asks (lo + s.seen) sub)
    (sending : Sending lo s [] sub) (inTime : ∀ e ∈ wantedBy sub (s.log.drop s.seen), e ∈ s.pending) :
    Followed lo request { s with
      queue := (s.queue.register sub).1, follower := .ended (some (s.queue.register sub).2) } := by
  refine ⟨followed.logged.register sub _, followed.lone, followed.pending, ?_,
    .registered rfl asks (List.mem_append_right _ (List.mem_singleton_self _))
      ⟨sending.marks, sending.within, ?_, ?_⟩ ?_⟩
  · intro failed member id inside
    exact Nat.lt_succ_of_lt (followed.removals failed member id inside)
  · obtain ⟨sent, reached, -⟩ := sending.sent
    rw [reached]
    rfl
  · obtain ⟨sent, reached, split⟩ := sending.sent
    rw [List.append_nil] at split
    have got : received sub = (wantedBy sub (s.log.take s.seen)).map memoryEntry := by
      rw [received, reached, ← split]
      apply List.filter_eq_self.mpr
      intro e member
      obtain ⟨entry, among, rfl⟩ := List.mem_map.mp member
      rw [split] at among
      exact decide_eq_true (hit_iff.mp (List.mem_filter.mp among).2).1
    change received sub ++ (wantedBy sub (s.pending.filter (fun e => decide (lo + s.seen ≤ e.1.toNat)))).map
      memoryEntry = _
    rw [pending_wanted followed inTime, got, ← List.map_append, ← wantedBy_append, List.take_append_drop]
  · intro failed member inside
    exact Nat.lt_irrefl _ (followed.removals failed member _ inside)

theorem Followed.follow (steps : 0 < request.step) (word : request.step < 2 ^ 64)
    (fresh : request.target = .staying []) (followed : Followed lo request s)
    (inTime : registersInTime s .follow = true) (moved : s.follow = some next) :
    Followed lo request next := by
  have elsewhere := followed.logged.withSubscribers (List.Sublist.refl _)
  cases followed.phase with
  | starting here =>
    rw [Feed.follow, here] at moved
    dsimp only at moved
    split at moved
    · cases moved
    · cases moved
      exact ⟨elsewhere _ _ _ _, followed.lone, followed.pending, followed.removals, .refused rfl⟩
    · rename_i found
      cases moved
      exact followed.snapshot steps word fresh found
  | @sending rest sub here asks sending =>
    rw [Feed.follow, here] at moved
    cases rest with
    | nil =>
      cases moved
      rw [registersInTime, here] at inTime
      refine followed.register asks sending ?_
      intro e member
      have found := List.all_eq_true.mp inTime e member
      obtain ⟨announced, among, same⟩ := List.any_eq_true.mp found
      rwa [of_decide_eq_true same] at among
    | cons entry rest =>
      dsimp only at moved
      split at moved
      · rename_i sent
        cases moved
        exact followed.send asks sending sent
      · cases moved
        exact ⟨elsewhere _ _ _ _, followed.lone, followed.pending, followed.removals, .refused rfl⟩
  | refused here =>
    rw [Feed.follow, here] at moved
    cases moved
  | registered here =>
    rw [Feed.follow, here] at moved
    cases moved

theorem Followed.step {capacity : Nat} {event : FeedEvent} (steps : 0 < request.step)
    (word : request.step < 2 ^ 64) (fresh : request.target = .staying [])
    (followed : Followed lo request s) (one : oneProducer s event = true)
    (inTime : registersInTime s event = true) (moved : s.step capacity event = some next) :
    Followed lo request next := by
  cases event with
  | enqueue data =>
    cases moved
    rw [enqueue_eq]
    exact followed.enqueueBatch (List.isEmpty_iff.mp one) [data]
  | enqueueBatch batch =>
    cases moved
    exact followed.enqueueBatch (List.isEmpty_iff.mp one) batch
  | produce i => exact followed.produce moved
  | follow => exact followed.follow steps word fresh inTime moved
  | receive id =>
    cases moved
    exact followed.receive capacity id

end Steps

theorem Followed.initial {lo count : Nat} {payload : Nat → Bytes} {q : MemQueue}
    (holds : q.Holds lo count payload) (acked : ∀ a ∈ q.lastAckedId, a.toNat < count)
    (keys : (q.subscribers.map Prod.fst).Nodup)
    (fresh : ∀ id ∈ q.subscribers.map Prod.fst, id < q.nextSubscriberId) (request : FollowRequest) :
    Followed lo request (start q request) where
  logged := .initial holds acked keys fresh request
  lone := Nat.zero_le 1
  pending := List.nil_suffix
  removals := by rintro _ ⟨⟩
  phase := .starting rfl

/- One follower and one producer, in any order of their steps. A registration while the announcements
of all wanted entries since the snapshot are still to come loses nothing: the subscription has got
the wanted entries in their order, each once, up to those whose announcement is still to come. -/
theorem handover_complete (capacity : Nat) {lo count : Nat} {payload : Nat → Bytes} {q : MemQueue}
    (holds : q.Holds lo count payload) (acked : ∀ a ∈ q.lastAckedId, a.toNat < count)
    (keys : (q.subscribers.map Prod.fst).Nodup)
    (fresh : ∀ id ∈ q.subscribers.map Prod.fst, id < q.nextSubscriberId) {request : FollowRequest}
    (steps : 0 < request.step) (word : request.step < 2 ^ 64) (staying : request.target = .staying [])
    {events : List FeedEvent} {s : Feed}
    (one : Along (step capacity) (oneProducer · ·) (start q request) events)
    (inTime : Along (step capacity) (registersInTime · ·) (start q request) events)
    (ran : Runs.run (step capacity) (start q request) events = some s) {mine : Nat}
    (registered : s.follower = .ended (some mine)) :
    ∃ sub, (mine, sub) ∈ s.queue.subscribers ∧ sub.step = request.step ∧
      sub.fromId.toNat = request.startAt (lo + s.seen) ∧
      received sub <+: (wanted sub.fromId.toNat sub.step none s.log).map memoryEntry ∧
      (s.pending = [] → received sub = (wanted sub.fromId.toNat sub.step none s.log).map memoryEntry) := by
  have both : Along (step capacity) (fun s event => oneProducer s event = true ∧
      registersInTime s event = true) (start q request) events := one.and inTime
  have followed : Followed lo request s :=
    run_invariant (Followed lo request)
      (fun _ _ _ followed met moved => followed.step steps word staying met.1 met.2 moved)
      (.initial holds acked keys fresh request) both ran
  cases followed.phase with
  | starting here =>
    rw [registered] at here
    cases here
  | sending here =>
    rw [registered] at here
    cases here
  | refused here =>
    rw [registered] at here
    cases here
  | @registered other sub here asks among served safe =>
    rw [registered] at here
    cases here
    refine ⟨sub, among, asks.step, asks.start, ⟨_, served.complete⟩, ?_⟩
    intro announced
    have complete := served.complete
    rw [announced] at complete
    simpa [wantedBy, wanted] using complete

def lone (s : Feed) : Option Subscriber :=
  match s.queue.subscribers with
  | [(0, sub)] => some sub
  | _ => none

theorem lone_eq_some {s : Feed} {sub : Subscriber} (only : s.lone = some sub) :
    s.queue.subscribers = [(0, sub)] := by
  unfold lone at only
  split at only
  · rename_i list
    cases only
    exact list
  · cases only

def payloadOf (n : Nat) : Bytes := ⟨List.replicate (n % 8) 7, by rw [List.length_replicate]; omega⟩

/-- A follower from the first entry on, at every entry. -/
def fromFirst : FollowRequest := .fromId .zero 1 (.staying [])

theorem handover_complete_two_entries :
    ∃ s sub, Runs.run (step 1) (start (.new none 100) fromFirst)
        [.enqueue (payloadOf 1), .follow, .follow, .follow, .enqueue (payloadOf 2), .produce 0] = some s ∧
      (0, sub) ∈ s.queue.subscribers ∧ s.log.map (fun e => e.1.toNat) = [0, 1] ∧
      received sub = (wanted sub.fromId.toNat sub.step none s.log).map memoryEntry := by
  have ran : (Runs.run (step 1) (start (.new none 100) fromFirst)
      [.enqueue (payloadOf 1), .follow, .follow, .follow, .enqueue (payloadOf 2), .produce 0]).any (fun s =>
        decide (s.follower = .ended (some 0) ∧ s.pending = [] ∧
          s.log.map (fun e => e.1.toNat) = [0, 1])) = true := by decide +kernel
  obtain ⟨s, reached, facts⟩ := (Option.any_eq_true _ _).mp ran
  obtain ⟨follower, announced, ids⟩ := of_decide_eq_true facts
  have holds : (MemQueue.new none 100).Holds 0 0 payloadOf :=
    ⟨rfl, rfl, by rintro _ ⟨⟩, rfl, rfl⟩
  obtain ⟨sub, among, -, -, -, complete⟩ := handover_complete 1 holds (by rintro _ ⟨⟩) List.nodup_nil
    (by rintro _ ⟨⟩) (show 0 < fromFirst.step by decide) (by decide) rfl (by decide +kernel)
    (by decide +kernel) reached follower
  exact ⟨s, sub, reached, among, ids, complete announced⟩

/- An entry that is appended after the snapshot and before the registration finds nobody to announce
it to: there is no producer left, and the subscription has the first entry only. -/
theorem entry_lost_at_registration :
    ∃ s sub, Runs.run (step 1) (start (.new none 100) fromFirst)
        [.enqueue (payloadOf 1), .follow, .follow, .enqueue (payloadOf 2), .follow] = some s ∧
      Along (step 1) (oneProducer · ·) (start (.new none 100) fromFirst)
        [.enqueue (payloadOf 1), .follow, .follow, .enqueue (payloadOf 2), .follow] ∧
      s.follower = .ended (some 0) ∧ s.queue.subscribers = [(0, sub)] ∧ s.producers = [] ∧
      s.log.map (fun e => e.1.toNat) = [0, 1] ∧ sub.target.delivered.map (fun e => e.id.toNat) = [0] := by
  have ran : (Runs.run (step 1) (start (.new none 100) fromFirst)
      [.enqueue (payloadOf 1), .follow, .follow, .enqueue (payloadOf 2), .follow]).any (fun s =>
        decide (s.follower = .ended (some 0) ∧ s.producers = [] ∧
          s.log.map (fun e => e.1.toNat) = [0, 1]) &&
        s.lone.any (fun sub => decide (sub.target.delivered.map (fun e => e.id.toNat) = [0]))) = true := by
    decide +kernel
  obtain ⟨s, reached, facts⟩ := (Option.any_eq_true _ _).mp ran
  rw [Bool.and_eq_true, decide_eq_true_iff] at facts
  obtain ⟨⟨follower, producers, ids⟩, subs⟩ := facts
  obtain ⟨sub, only, delivered⟩ := (Option.any_eq_true _ _).mp subs
  exact ⟨s, sub, reached, by decide +kernel, follower, lone_eq_some only, producers, ids,
    of_decide_eq_true delivered⟩

end Feed

end NormFS
