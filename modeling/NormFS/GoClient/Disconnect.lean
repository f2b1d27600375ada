import NormFS.GoClient.Pending

/-! What a lost connection leaves behind. All pending calls are taken out of the maps; each of them has
to find in its channel something that ends it. The marker is sent without waiting, so it gets lost
where the channel is full of entries the reader has not taken yet. -/
namespace NormFS.GoClient

namespace Client

/-- No call taken out of a map by a lost connection waits for something nobody sends. -/
def Remembered (s : Client) : Prop := ∀ r ∈ s.requests, r.failed = true → r.answered = true

def signalled (s : Client) (kind : Kind) (index : Nat) : Option Request := do
  let rest ← (s.pending kind).failing
  let entry ← rest[index]?
  s.requests[entry.2]?

/-- When `failPendingReads` comes to a read, its channel has room, or something that ends the read is in
the channel or has been seen. -/
def Roomy (s : Client) : Event → Prop
  | .signal .read index => (s.signalled .read index).all (fun r => r.channel.hasRoom || r.answered) = true
  | _ => True

instance (s : Client) (event : Event) : Decidable (s.Roomy event) := by
  unfold Roomy
  split <;> infer_instance

structure Signalled (s : Client) : Prop extends s.Orderly where
  remembered : s.Remembered
  answered : ∀ kind, ∀ rest ∈ (s.pending kind).failing, ∀ entry ∈ (s.pending kind).entries, entry ∉ rest →
    ∀ r, s.requests[entry.2]? = some r → r.answered = true

variable {s next : Client}

variable {owner : Nat} {r after : Request} {kind : Kind}

theorem remembered_set (remembered : s.Remembered)
    (found : s.requests[owner]? = some r) (onward : r.Onward after) :
    (s.setRequest owner after).Remembered := by
  intro other member failed
  rcases List.mem_or_eq_of_mem_set member with old | rfl
  · exact remembered other old failed
  · rw [onward.failed] at failed
    exact onward.answered (remembered r (List.mem_of_getElem? found) failed)

theorem answered_set {other : Nat} {changed : Request} (found : s.requests[owner]? = some r)
    (onward : r.Onward after) (answered : ∀ r, s.requests[other]? = some r → r.answered = true)
    (changed' : (s.requests.set owner after)[other]? = some changed) : changed.answered = true := by
  by_cases same : owner = other
  · subst same
    rw [List.getElem?_set_self'] at changed'
    obtain ⟨_, -, rfl⟩ := Option.map_eq_some_iff.mp changed'
    exact onward.answered (answered r found)
  · rw [List.getElem?_set_ne same] at changed'
    exact answered changed changed'

theorem Signalled.setRequest (signalled : s.Signalled)
    (found : s.requests[owner]? = some r) (onward : r.Onward after) (orderly : (s.setRequest owner after).Orderly) :
    (s.setRequest owner after).Signalled where
  toOrderly := orderly
  remembered := remembered_set signalled.remembered found onward
  answered := by
    intro kind rest loop entry member gone r' found'
    exact answered_set found onward (signalled.answered kind rest loop entry member gone) found'

theorem Signalled.setFree (signalled : s.Signalled) {p : Pending} (free : p.failing = none) (found : s.requests[owner]? = some r) (onward : r.Onward after)
    (orderly : ((s.setPending kind p).setRequest owner after).Orderly) :
    ((s.setPending kind p).setRequest owner after).Signalled where
  toOrderly := orderly
  remembered := remembered_set signalled.remembered found onward
  answered := by
    intro other rest loop entry member gone r' found'
    change rest ∈ ((s.setPending kind p).pending other).failing at loop
    change entry ∈ ((s.setPending kind p).pending other).entries at member
    rw [pending_setPending] at loop member
    split at loop
    · rw [free] at loop
      cases loop
    · rename_i different
      rw [if_neg different] at member
      exact answered_set found onward (signalled.answered other rest loop entry member gone) found'

theorem eq_of_erased {α : Type} {l : List α} {a b : α} {index : Nat} (member : a ∈ l)
    (erased : l[index]? = some b) (gone : a ∉ l.eraseIdx index) : a = b := by
  obtain ⟨place, here⟩ := List.mem_iff_getElem?.mp member
  have same : place = index := by
    by_contra different
    exact gone (List.mem_eraseIdx_iff_getElem?.mpr ⟨place, different, here⟩)
  subst same
  rw [here] at erased
  exact Option.some.inj erased

theorem Signalled.advance (signalled : s.Signalled) {index : Nat} {id : BitVec 64}
    {rest : List (BitVec 64 × Nat)} (loop : (s.pending kind).failing = some rest)
    (entry : rest[index]? = some (id, owner)) (found : s.requests[owner]? = some r) (answered : r.answered = true)
    (orderly : (s.setPending kind
      { s.pending kind with failing := some (rest.eraseIdx index) }).Orderly) :
    (s.setPending kind { s.pending kind with failing := some (rest.eraseIdx index) }).Signalled where
  toOrderly := orderly
  remembered := signalled.remembered
  answered := by
    intro other rest' loop' entry' member gone r' found'
    rw [pending_setPending] at loop' member
    split at loop'
    · rename_i same
      subst same
      cases loop'
      rw [if_pos rfl] at member
      by_cases waiting : entry' ∈ rest
      · obtain rfl := eq_of_erased waiting entry gone
        cases found.symm.trans found'
        exact answered
      · exact signalled.answered other rest loop entry' member waiting r' found'
    · rename_i different
      rw [if_neg different] at member
      exact signalled.answered other rest' loop' entry' member gone r' found'

/-- A write whose channel is full has its answer or the marker there. -/
theorem Orderly.full_write (orderly : s.Orderly) {id : BitVec 64}
    (member : (id, owner) ∈ (s.pending .write).entries) (found : s.requests[owner]? = some r)
    (full : r.channel.hasRoom = false) : r.answered = true := by
  obtain ⟨isKind, -, -⟩ := orderly.not_owner found member rfl
  have capacity := orderly.capacity r (List.mem_of_getElem? found)
  have length := Channel.items_of_full full
  rw [capacity, isKind] at length
  rw [Request.answered, Bool.or_eq_true]
  right
  refine ends_write isKind ?_
  rw [← List.length_pos_iff, length]
  exact Nat.one_pos

theorem Signalled.begin (signalled : s.Signalled) (call : Call) : (s.begin call).Signalled where
  toOrderly := signalled.toOrderly.begin call
  remembered := by
    intro r member failed
    rcases List.mem_append.mp member with old | new
    · exact signalled.remembered r old failed
    · obtain rfl := List.mem_singleton.mp new
      cases failed
  answered := by
    intro kind rest loop entry member gone r found
    obtain ⟨r', found', -⟩ := signalled.listed kind entry member
    have inside : entry.2 < s.requests.length := (List.getElem?_eq_some_iff.mp found').1
    rw [Client.begin, List.getElem?_append_left inside] at found
    exact signalled.answered kind rest loop entry member gone r found

theorem Signalled.fail (signalled : s.Signalled) {lost : Nat}
    (orderly : Orderly { s.setPending kind
      { s.pending kind with failing := some (s.pending kind).entries } with lost }) :
    Signalled { s.setPending kind
      { s.pending kind with failing := some (s.pending kind).entries } with lost } where
  toOrderly := orderly
  remembered := signalled.remembered
  answered := by
    intro other rest loop entry member gone
    change rest ∈ ((s.setPending kind _).pending other).failing at loop
    change entry ∈ ((s.setPending kind _).pending other).entries at member
    rw [pending_setPending] at loop member
    split at loop
    · rename_i same
      cases loop
      rw [if_pos same] at member
      exact absurd member gone
    · rename_i different
      rw [if_neg different] at member
      exact signalled.answered other rest loop entry member gone

theorem answered_marked {channel : Channel (Option ServerResponse)}
    (sent : r.channel.send none = .sent channel) : Request.answered { r with channel } = true := by
  obtain ⟨items, -, -⟩ := Channel.send_eq_sent sent
  rw [Request.answered, Bool.or_eq_true]
  right
  change r.call.ends r.phase.started channel.items = true
  rw [items]
  exact ends_marker

theorem Signalled.clear (signalled : s.Signalled) (loop : (s.pending kind).failing = some [])
    (lost : Nat) :
    Signalled { s.setPending kind ⟨[], none⟩ with
      requests := s.requests.mapIdx (fun owner r =>
        if owner ∈ (s.pending kind).owners then { r with failed := true } else r)
      lost } := by
  have same (owner : Nat) (r : Request) :
      (if owner ∈ (s.pending kind).owners then { r with failed := true } else r : Request).answered =
        r.answered := by
    split <;> rfl
  refine ⟨signalled.toOrderly.clear kind lost, ?_, ?_⟩
  · intro r' member failed
    obtain ⟨owner, inside, rfl⟩ := List.mem_mapIdx.mp member
    rw [same]
    by_cases listed : owner ∈ (s.pending kind).owners
    · obtain ⟨entry, isEntry, rfl⟩ := List.mem_map.mp listed
      exact signalled.answered kind [] loop entry isEntry (by simp) _ (List.getElem?_eq_getElem inside)
    · rw [if_neg listed] at failed
      exact signalled.remembered _ (List.getElem_mem inside) failed
  · intro other rest loop' entry member gone r' found'
    change rest ∈ ((s.setPending kind ⟨[], none⟩).pending other).failing at loop'
    change entry ∈ ((s.setPending kind ⟨[], none⟩).pending other).entries at member
    rw [pending_setPending] at loop' member
    split at loop'
    · cases loop'
    · rename_i different
      rw [if_neg different] at member
      rw [List.getElem?_mapIdx] at found'
      obtain ⟨r, found, rfl⟩ := Option.map_eq_some_iff.mp found'
      rw [same]
      exact signalled.answered other rest loop' entry member gone r found

theorem Signalled.step (signalled : s.Signalled) {event : Event} (effect : Effect s event next)
    (roomy : s.Roomy event) : next.Signalled := by
  have orderly := signalled.toOrderly.step effect
  cases effect with
  | begun call => exact signalled.begin call
  | @registered owner r found phase free =>
    have still : ((s.pending r.call.kind).insert r.id owner).failing = none := free
    exact signalled.setFree still found (.registered phase) orderly
  | moved found moved => exact signalled.setRequest found (Request.move_onward moved).1 orderly
  | @deleted owner r after found moved free =>
    have still : ((s.pending r.call.kind).delete r.id).failing = none := free
    exact signalled.setFree still found (Request.delete_onward moved).1 orderly
  | dispatching dispatcher known => exact ⟨orderly, signalled.remembered, signalled.answered⟩
  | sent dispatcher found sent idle =>
    have onward := Request.Onward.sent sent
    refine ⟨orderly, remembered_set signalled.remembered found onward, ?_⟩
    intro kind rest loop entry member gone r' found'
    exact answered_set found onward (signalled.answered kind rest loop entry member gone) found'
  | failing kind lost free => exact signalled.fail orderly
  | @signalled kind index owner id rest r channel loop entry found sent =>
    have onward := Request.Onward.sent sent
    have kept := signalled.toOrderly.setRequest found onward
      (fun kind entry member same => (signalled.not_owner found member same).2.2)
    exact (signalled.setRequest found onward kept).advance loop entry (setRequest_self found)
      (answered_marked sent) orderly
  | @dropped kind index owner id rest r loop entry found full =>
    obtain ⟨-, noRoom⟩ := Channel.send_eq_full.mp full
    refine signalled.advance loop entry found ?_ orderly
    cases kind with
    | write => exact signalled.full_write (signalled.loop _ rest loop _ (List.mem_of_getElem? entry)) found noRoom
    | read =>
      have target : s.signalled .read index = some r := by
        simp [Client.signalled, loop, entry, found]
      simpa [Roomy, target, noRoom] using roomy
  | cleared kind lost loop => exact signalled.clear loop lost
  | panicked found closed sender => exact ⟨orderly, signalled.remembered, signalled.answered⟩

/-- The rest of the loop, run without a pause, does not reach a call whose channel is full. -/
theorem Orderly.finish (orderly : s.Orderly) (alive : s.sentOnClosed = false) {rest : List (BitVec 64 × Nat)} (loop : (s.pending kind).failing = some rest)
    (listed : owner ∈ (s.pending kind).owners) (found : s.requests[owner]? = some r)
    (full : r.channel.hasRoom = false) :
    ∃ later final, Runs.run Client.step s later = some final ∧
      final.requests[owner]? = some { r with failed := true } := by
  induction rest generalizing s with
  | nil =>
    have cleared : s.step (.clear kind) = s.clear kind := by
      simp [Client.step, alive]
    refine ⟨[.clear kind], _, by simp [Runs.run, cleared, Client.clear, loop]; rfl, ?_⟩
    simp [found, listed]
  | cons entry rest ih =>
    obtain ⟨other, found', -, -, listed'⟩ := orderly.listed kind entry (orderly.loop kind _ loop _ (by simp))
    have opened := orderly.opened other (List.mem_of_getElem? found') (Phase.not_done_of_listed listed')
    have signals : s.step (.signal kind 0) = s.signal kind 0 := by
      simp [Client.step, alive]
    cases send : other.channel.send none with
    | panic =>
      rw [Channel.send_eq_panic, opened] at send
      cases send
    | full =>
      have moved : s.step (.signal kind 0) =
          some (s.setPending kind { s.pending kind with failing := some rest }) := by
        simp [signals, Client.signal, loop, found', send]
      obtain ⟨later, final, ran, ends⟩ := ih (orderly.step (step_effect moved)) alive
        (by rw [pending_setPending, if_pos rfl]) (by rw [pending_setPending, if_pos rfl]; exact listed) found
      exact ⟨.signal kind 0 :: later, final, Runs.run_cons.mpr ⟨_, moved, ran⟩, ends⟩
    | sent channel =>
      have different : entry.2 ≠ owner := by
        rintro rfl
        cases found.symm.trans found'
        cases (Channel.send_eq_full.mpr ⟨opened, full⟩).symm.trans send
      have moved : s.step (.signal kind 0) =
          some ((s.setPending kind { s.pending kind with failing := some rest }).setRequest entry.2
            { other with channel }) := by
        simp [signals, Client.signal, loop, found', send]
      have found' : ((s.setPending kind { s.pending kind with failing := some rest }).setRequest entry.2
          { other with channel }).requests[owner]? = some r :=
        (List.getElem?_set_ne different).trans found
      obtain ⟨later, final, ran, ends⟩ := ih (orderly.step (step_effect moved)) alive
        (by change ((s.setPending kind _).pending kind).failing = _; rw [pending_setPending, if_pos rfl])
        (by change owner ∈ ((s.setPending kind _).pending kind).owners; rw [pending_setPending, if_pos rfl]; exact listed)
        found'
      exact ⟨.signal kind 0 :: later, final, Runs.run_cons.mpr ⟨_, moved, ran⟩, ends⟩

/-- A marker dropped from a channel in which nothing ends the read: the read is forgotten when the loop
comes to its end. -/
theorem Orderly.forgotten (orderly : s.Orderly) {event : Event} (crowded : ¬ s.Roomy event)
    (moved : s.step event = some next) :
    ∃ later final, Runs.run Client.step next later = some final ∧ ¬ final.Remembered := by
  unfold Roomy at crowded
  split at crowded
  · rename_i index
    cases target : s.signalled .read index with
    | none => simp [target] at crowded
    | some r =>
      obtain ⟨full, unanswered⟩ : r.channel.hasRoom = false ∧ r.answered = false := by
        simpa [target] using crowded
      simp only [Client.signalled, Option.bind_eq_bind, Option.bind_eq_some_iff] at target
      obtain ⟨rest, loop, ⟨id, owner⟩, entry, found⟩ := target
      have member := orderly.loop .read rest loop _ (List.mem_of_getElem? entry)
      obtain ⟨-, -, listed⟩ := orderly.not_owner found member rfl
      have opened := orderly.opened r (List.mem_of_getElem? found) (Phase.not_done_of_listed listed)
      have dropped : r.channel.send none = .full := Channel.send_eq_full.mpr ⟨opened, full⟩
      have alive : s.sentOnClosed = false := by
        by_contra crashed
        simp [Client.step, crashed] at moved
      have goes : s.step (.signal .read index) =
          some (s.setPending .read { s.pending .read with failing := some (rest.eraseIdx index) }) := by
        simp [Client.step, alive, Client.signal, loop, entry, found, dropped]
      cases goes.symm.trans moved
      obtain ⟨later, final, ran, last⟩ := (orderly.step (step_effect goes)).finish alive
        (by rw [pending_setPending, if_pos rfl])
        (by rw [pending_setPending, if_pos rfl]; exact List.mem_map.mpr ⟨_, member, rfl⟩) found full
      refine ⟨later, final, ran, ?_⟩
      intro remembered
      have answered := remembered _ (List.mem_of_getElem? last) rfl
      exact absurd (answered.symm.trans unanswered) (by decide)
  · exact absurd trivial crowded

end Client

/- In every run in which `failPendingReads` never finds a channel full without anything in it that ends
the read, no call is forgotten; and every step at which it does can be continued to a state in which a
read is forgotten. -/
theorem no_pending_call_forgotten {events : List Event} {final : Client}
    (ran : Runs.run Client.step .init events = some final) :
    (Runs.Along Client.step Client.Roomy .init events → final.Remembered) ∧
    ∀ event next, ¬ final.Roomy event → final.step event = some next →
      ∃ later last, Runs.run Client.step next later = some last ∧ ¬ last.Remembered := by
  constructor
  · intro along
    have start : Client.init.Signalled := ⟨Client.orderly_init, by rintro r ⟨⟩, by rintro kind rest ⟨⟩⟩
    exact (Runs.run_invariant Client.Signalled
      (fun s event next signalled roomy moved => signalled.step (Client.step_effect moved) roomy) start along ran).remembered
  · intro event next crowded moved
    have orderly := Runs.run_keeps Client.Orderly
      (fun s event next orderly moved => orderly.step (Client.step_effect moved)) Client.orderly_init ran
    exact orderly.forgotten crowded moved

namespace Sample

def started : ServerResponse := ⟨none, some ⟨1, .rrStart, [], [], .dsNone⟩⟩

def entry : ServerResponse := ⟨none, some ⟨1, .rrEntry, [5], [], .dsMemory⟩⟩

/-- A read that is handing over its first entry. -/
def opening : List Event :=
  [.call .read, .register 0, .move 0 (.request true), .respond started, .lookup, .send, .move 0 .receive,
    .respond entry, .lookup, .send, .move 0 .receive]

def filling : Nat → List Event
  | 0 => []
  | n + 1 => .respond entry :: .lookup :: .send :: filling n

def breaking : List Event := [.fail .write, .clear .write, .fail .read, .signal .read 0, .clear .read]

/-- The client of the one read, with these items in its channel. -/
def reading (channel : Channel (Option ServerResponse)) : Client where
  requests := [⟨.read, 1, channel, .handing ⟨.u8 5, [], .dsMemory⟩, false⟩]
  nextID := Function.update (fun _ => 0) .read 1
  pending := Function.update (fun _ => ⟨[], none⟩) .read ⟨[(1, 0)], none⟩
  dispatcher := .idle
  lost := 0
  sentOnClosed := false

theorem opening_runs : Runs.run Client.step .init opening = some (reading (.make messageChanBuffer)) := rfl

theorem reading_receives {channel after : Channel (Option ServerResponse)}
    (sent : channel.send (some entry) = .sent after) (events : List Event) :
    Runs.run Client.step (reading channel) (.respond entry :: .lookup :: .send :: events) =
      Runs.run Client.step (reading after) events := by
  have arrives : (reading channel).step (.respond entry) =
      some { reading channel with dispatcher := .lookingUp .read entry } := rfl
  have looksUp : Client.step { reading channel with dispatcher := .lookingUp .read entry } .lookup =
      some { reading channel with dispatcher := .sending .read 0 entry } := rfl
  have sends : Client.step { reading channel with dispatcher := .sending .read 0 entry } .send =
      some (reading after) := by
    simp [Client.step, Client.send, reading, sent, Client.setRequest, Dispatcher.after]
  simp only [Runs.run, arrives, looksUp, sends, Option.bind_some]

theorem filling_runs (n : Nat) (channel : Channel (Option ServerResponse)) (opened : channel.closed = false)
    (room : channel.items.length + n ≤ channel.capacity) :
    ∃ after, Runs.run Client.step (reading channel) (filling n) = some (reading after) ∧
      after.items = channel.items ++ List.replicate n (some entry) ∧ after.closed = false ∧
      after.capacity = channel.capacity := by
  induction n generalizing channel with
  | zero => exact ⟨channel, rfl, by simp, opened, rfl⟩
  | succ n ih =>
    cases send : channel.send (some entry) with
    | sent middle =>
      obtain ⟨items, stillOpen, capacity⟩ := Channel.send_eq_sent send
      obtain ⟨after, ran, final, closed, same⟩ := ih middle stillOpen (by rw [items, capacity, List.length_append]; simp; omega)
      refine ⟨after, by rw [filling, reading_receives send, ran], ?_, closed, same.trans capacity⟩
      rw [final, items, List.append_assoc, List.replicate_succ, List.singleton_append]
    | full =>
      have length := Channel.items_of_full (Channel.send_eq_full.mp send).2
      omega
    | panic =>
      rw [Channel.send_eq_panic, opened] at send
      cases send

theorem entries_do_not_end (n : Nat) : Call.read.ends true (List.replicate n (some entry)) = false := by
  induction n with
  | zero => rfl
  | succ n ih =>
    rw [List.replicate_succ, Call.ends, ih]
    rfl

theorem breaking_runs {channel : Channel (Option ServerResponse)} (dropped : channel.send none = .full) :
    ∃ final, Runs.run Client.step (reading channel) breaking = some final ∧
      final.requests = [⟨.read, 1, channel, .handing ⟨.u8 5, [], .dsMemory⟩, true⟩] := by
  obtain ⟨s, begun, requests, pending, alive⟩ : ∃ s : Client,
      Runs.run Client.step (reading channel) [.fail .write, .clear .write, .fail .read] = some s ∧
      s.requests = (reading channel).requests ∧ s.pending .read = ⟨[(1, 0)], some [(1, 0)]⟩ ∧
      s.sentOnClosed = false := ⟨_, rfl, rfl, rfl, rfl⟩
  have signals : s.step (.signal .read 0) = some (s.setPending .read ⟨[(1, 0)], some []⟩) := by
    simp [Client.step, alive, Client.signal, pending, requests, reading, dropped]
  have clears : Client.step (s.setPending .read ⟨[(1, 0)], some []⟩) (.clear .read) =
      (s.setPending .read ⟨[(1, 0)], some []⟩).clear .read := by
    simp [Client.step, Client.setPending, alive]
  have split : breaking = [.fail .write, .clear .write, .fail .read] ++ [.signal .read 0, .clear .read] := rfl
  rw [split, Runs.run_append, begun, Option.bind_some]
  simp only [Runs.run, signals, clears, Option.bind_some, Client.clear, Client.pending_setPending, if_true]
  refine ⟨_, rfl, ?_⟩
  simp [requests, reading, Client.setPending, Pending.owners]

end Sample

open Sample

theorem full_read_forgotten : ∃ final, Runs.run Client.step .init
      (opening ++ (filling messageChanBuffer ++ breaking)) = some final ∧ ¬ final.Remembered := by
  obtain ⟨channel, filled, items, opened, capacity⟩ :=
    filling_runs messageChanBuffer (.make messageChanBuffer) rfl (by simp [Channel.make])
  have full : channel.hasRoom = false := by
    simp [Channel.hasRoom, items, capacity, Channel.make]
  have dropped : channel.send none = .full := Channel.send_eq_full.mpr ⟨opened, full⟩
  obtain ⟨final, broken, requests⟩ := breaking_runs dropped
  refine ⟨final, ?_, ?_⟩
  · rw [Runs.run_append, opening_runs, Option.bind_some, Runs.run_append, filled, Option.bind_some, broken]
  · intro remembered
    have answered := remembered _ (requests ▸ List.mem_cons_self) rfl
    have unanswered : Call.read.ends true channel.items = false := by
      rw [items]
      exact entries_do_not_end _
    simp [Request.answered, Phase.ended, Phase.started, unanswered] at answered

theorem no_pending_call_forgotten_opening : ∃ final,
    Runs.run Client.step .init (opening ++ breaking) = some final ∧
      final.requests.any Request.failed = true ∧ final.Remembered := by
  have ran : (Runs.run Client.step .init (opening ++ breaking)).any
      (fun final => final.requests.any Request.failed) = true := by
    decide +kernel
  obtain ⟨final, ran, failed⟩ := (Option.any_eq_true _ _).mp ran
  exact ⟨final, ran, failed, (no_pending_call_forgotten ran).1 (by decide +kernel)⟩

end NormFS.GoClient
