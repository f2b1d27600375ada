import NormFS.GoClient.Pending

/-! Sends on closed channels. The dispatcher looks a channel up under the mutex and sends after
releasing it; a call that ends in between closes the channel under its hands. -/
namespace NormFS.GoClient

namespace Client

/-- No send on a closed channel has happened, and none happens if the dispatcher moves next. -/
def Quiet (s : Client) : Prop :=
  s.sentOnClosed = false ∧ ∀ next, s.step .send = some next → next.sentOnClosed = false

/-- No owner closes its channel while the dispatcher is between looking it up and sending. -/
def Undisturbed (s : Client) : Event → Prop
  | .move owner .close => s.dispatcher.target ≠ some owner
  | _ => True

instance (s : Client) (event : Event) : Decidable (s.Undisturbed event) := by
  unfold Undisturbed
  split <;> infer_instance

structure Unclosed (s : Client) : Prop extends s.Orderly where
  sending : ∀ owner r, s.dispatcher.target = some owner → s.requests[owner]? = some r → r.channel.closed = false
  alive : s.sentOnClosed = false

variable {s next : Client}

variable {owner : Nat} {r : Request}

theorem Orderly.listed_open (orderly : s.Orderly) {kind : Kind} {id : BitVec 64}
    (member : (id, owner) ∈ (s.pending kind).entries) (found : s.requests[owner]? = some r) :
    r.channel.closed = false :=
  orderly.opened r (List.mem_of_getElem? found)
    (Phase.not_done_of_listed (orderly.not_owner found member rfl).2.2)

theorem Unclosed.not_panicked (unclosed : s.Unclosed)
    (found : s.requests[owner]? = some r)
    (sender : s.dispatcher.target = some owner ∨ ∃ kind, ∃ rest ∈ (s.pending kind).failing,
      ∃ id, (id, owner) ∈ rest) : r.channel.closed = false := by
  rcases sender with target | ⟨kind, rest, loop, id, member⟩
  · exact unclosed.sending owner r target found
  · exact unclosed.listed_open (unclosed.loop kind rest loop _ member) found

theorem sending_set (sending : ∀ owner r, s.dispatcher.target = some owner → s.requests[owner]? = some r →
      r.channel.closed = false) {changed : Nat} {after : Request} (opened : s.dispatcher.target = some changed →
      after.channel.closed = false) (owner : Nat) (r : Request) (target : s.dispatcher.target = some owner)
    (found : (s.requests.set changed after)[owner]? = some r) : r.channel.closed = false := by
  by_cases same : changed = owner
  · subst same
    rw [List.getElem?_set_self'] at found
    obtain ⟨_, -, rfl⟩ := Option.map_eq_some_iff.mp found
    exact opened target
  · rw [List.getElem?_set_ne same] at found
    exact sending owner r target found

theorem Unclosed.step (unclosed : s.Unclosed) {event : Event} (effect : Effect s event next)
    (undisturbed : s.Undisturbed event) : next.Unclosed := by
  have orderly := unclosed.toOrderly.step effect
  cases effect with
  | begun call =>
    refine ⟨orderly, ?_, unclosed.alive⟩
    intro owner r target found
    have inside := unclosed.target owner target
    rw [begin, List.getElem?_append_left inside] at found
    exact unclosed.sending owner r target found
  | @registered owner r found phase free =>
    refine ⟨orderly, sending_set unclosed.sending ?_, unclosed.alive⟩
    intro _
    exact unclosed.opened r (List.mem_of_getElem? found) (by rw [phase]; rfl)
  | @moved owner r after move found moved =>
    refine ⟨orderly, sending_set unclosed.sending ?_, unclosed.alive⟩
    intro target
    obtain ⟨onward, -, rfl | notDone⟩ := Request.move_onward moved
    · exact absurd target undisturbed
    · exact onward.opened (unclosed.opened r (List.mem_of_getElem? found)) notDone
  | @deleted owner r after found moved free =>
    refine ⟨orderly, sending_set unclosed.sending ?_, unclosed.alive⟩
    intro _
    obtain ⟨onward, notDone⟩ := Request.delete_onward moved
    exact onward.opened (unclosed.opened r (List.mem_of_getElem? found)) notDone
  | dispatching dispatcher known =>
    refine ⟨orderly, ?_, unclosed.alive⟩
    intro owner r target found
    obtain ⟨kind, id, member⟩ := known owner target
    exact unclosed.listed_open member found
  | sent dispatcher found sent idle =>
    refine ⟨orderly, ?_, unclosed.alive⟩
    intro owner r target
    rw [idle] at target
    cases target
  | failing kind lost free => exact ⟨orderly, unclosed.sending, unclosed.alive⟩
  | signalled loop entry found sent =>
    obtain ⟨-, opened, -⟩ := Channel.send_eq_sent sent
    exact ⟨orderly, sending_set unclosed.sending (fun _ => opened), unclosed.alive⟩
  | dropped loop entry found full => exact ⟨orderly, unclosed.sending, unclosed.alive⟩
  | cleared kind lost loop =>
    refine ⟨orderly, ?_, unclosed.alive⟩
    intro owner r target found
    rw [List.getElem?_mapIdx] at found
    obtain ⟨r', found', rfl⟩ := Option.map_eq_some_iff.mp found
    have opened := unclosed.sending owner r' target found'
    split
    · exact opened
    · exact opened
  | panicked found closed sender =>
    rw [unclosed.not_panicked found sender] at closed
    cases closed

/-- A channel closed between lookup and send is closed when the response is sent. -/
theorem not_unclosed_of_disturbed (target : s.dispatcher.target = some owner)
    (moved : s.step (.move owner .close) = some next) : ¬ next.Unclosed := by
  intro unclosed
  unfold step at moved
  split at moved
  · cases moved
  · simp only [Client.move, Option.bind_eq_bind, Option.bind_eq_some_iff] at moved
    obtain ⟨r, found, after, closes, goes⟩ := moved
    cases goes
    obtain ⟨-, -, closed⟩ := Request.close_onward closes
    have opened := unclosed.sending owner after target (setRequest_self found)
    rw [closed] at opened
    cases opened

theorem Unclosed.step_iff (unclosed : s.Unclosed) {event : Event} (moved : s.step event = some next) :
    next.Unclosed ↔ s.Undisturbed event := by
  constructor
  · intro kept
    unfold Undisturbed
    split
    · exact fun target => not_unclosed_of_disturbed target moved kept
    · trivial
  · exact unclosed.step (step_effect moved)

theorem step_send_closed (alive : s.sentOnClosed = false)
    (target : s.dispatcher.target = some owner) (found : s.requests[owner]? = some r)
    (closed : r.channel.closed = true) : s.step .send = some { s with sentOnClosed := true } := by
  cases sending : s.dispatcher with
  | idle | lookingUp kind response =>
    rw [sending] at target
    cases target
  | sending kind owner' response =>
    rw [sending] at target
    cases target
    have panics := (@Channel.send_eq_panic _ r.channel (some response)).mpr closed
    simp [step, alive, send, sending, found, panics]

theorem Orderly.quiet_iff (orderly : s.Orderly) : s.Quiet ↔ s.Unclosed := by
  constructor
  · rintro ⟨alive, quiet⟩
    refine ⟨orderly, ?_, alive⟩
    intro owner r target found
    by_contra closed
    have crashes := quiet _ (step_send_closed alive target found (by simpa using closed))
    cases crashes
  · intro unclosed
    refine ⟨unclosed.alive, ?_⟩
    intro next moved
    exact (unclosed.step (step_effect moved) trivial).alive

end Client

/- In a run nothing is sent on a closed channel, and nothing would be if the dispatcher moved next, if and
only if no owner closes its channel between the lookup and the send of a response to it. -/
theorem never_sends_on_closed_iff {events : List Event} {final : Client}
    (ran : Runs.run Client.step .init events = some final) :
    Runs.Always Client.step Client.Quiet .init events ↔ Runs.Along Client.step Client.Undisturbed .init events := by
  have unclosed : Client.init.Unclosed := ⟨Client.orderly_init, by rintro owner r ⟨⟩, rfl⟩
  rw [Runs.always_congr Client.Orderly (fun s event next orderly moved => orderly.step (Client.step_effect moved))
    (fun s orderly => orderly.quiet_iff) Client.orderly_init]
  exact Runs.always_iff_along_of_run Client.Unclosed (fun s event next kept moved => kept.step_iff moved) unclosed ran

namespace Sample

def written : ServerResponse := ⟨some ⟨1, .wrDone, [[5]]⟩, none⟩

def enqueued : List Event :=
  [.call .enqueue, .register 0, .move 0 (.request true), .respond written, .lookup, .send,
    .move 0 .receive, .delete 0, .move 0 .close]

/-- The connection breaks when the answer has been looked up and not yet been sent. -/
def disconnected : List Event :=
  [.call .enqueue, .register 0, .move 0 (.request true), .respond written, .lookup, .fail .write,
    .signal .write 0, .clear .write, .move 0 .receive, .delete 0, .move 0 .close, .send]

end Sample

theorem sends_on_closed : ∃ final, Runs.run Client.step .init Sample.disconnected = some final ∧
    final.sentOnClosed = true := by
  have ran : (Runs.run Client.step .init Sample.disconnected).any (fun final => final.sentOnClosed) = true := by
    decide +kernel
  exact (Option.any_eq_true _ _).mp ran

theorem never_sends_on_closed_enqueued :
    Runs.Always Client.step Client.Quiet .init Sample.enqueued := by
  have ran : (Runs.run Client.step .init Sample.enqueued).isSome = true := by decide +kernel
  obtain ⟨final, ran⟩ := Option.isSome_iff_exists.mp ran
  exact (never_sends_on_closed_iff ran).mpr (by decide +kernel)

end NormFS.GoClient
