import NormFS.Reader.Bounded
import NormFS.Server.Writes

/-! The reads of a server. A read sends its start, then what its reader delivers, in that order and without
gaps, then its end. -/
namespace NormFS.Server

open Runs

namespace ReadRequest

end ReadRequest

namespace Sample

def follow : ReadRequest := ⟨5, ['q'], 0, some ⟨none, 0⟩, 0⟩

def entries : List ReadEntry := [⟨.u8 0, ⟨[21], by decide⟩, .memory⟩, ⟨.u8 1, ⟨[22], by decide⟩, .memory⟩]

end Sample

structure State.Reading (s : State) (i conn : Nat) (r : ReadRequest) (phase : Phase) (d : Delivery)
    (sent : List ServerResponse) (queued : List (Nat × ServerResponse)) : Prop where
  task : ∃ call, s.tasks[i]? = some ⟨conn, .read r, phase, call, some d, sent⟩
  connection : ∃ written, s.connections[conn]? = some ⟨queued, written, false⟩

namespace State.Reading

variable (settings : Settings) {s : State} {i conn : Nat} {r : ReadRequest} {phase : Phase}
  {d after : Delivery} {sent : List ServerResponse} {queued : List (Nat × ServerResponse)}

theorem deliver (reading : s.Reading i conn r phase d sent queued) (listens : phase.listens = true)
    (change : Delivery → Option Delivery) (changed : change d = some after) :
    ∃ next, s.deliver i change = some next ∧ next.Reading i conn r phase after sent queued := by
  obtain ⟨⟨call, here⟩, there⟩ := reading
  refine ⟨s.setTask i ⟨conn, .read r, phase, call, some after, sent⟩, ?_,
    ⟨call, Guards.getElem?_set_self here⟩, there⟩
  simp only [State.deliver, here, Option.bind_eq_bind, Option.bind_some, listens, if_true, changed]

theorem turn (reading : s.Reading i conn r phase d sent queued) (phase' : Phase) (after : Delivery)
    (handled : ∀ task, task.phase = phase → task.delivery = some d →
      s.handleRead settings i task r =
        some (s.setTask i { task with phase := phase', delivery := some after })) :
    ∃ next, s.step settings (.advance i) = some next ∧
      next.Reading i conn r phase' after sent queued := by
  obtain ⟨⟨call, here⟩, there⟩ := reading
  refine ⟨s.setTask i ⟨conn, .read r, phase', call, some after, sent⟩, ?_,
    ⟨call, Guards.getElem?_set_self here⟩, there⟩
  simp only [State.step, State.advance, here, Option.bind_eq_bind, Option.bind_some]
  exact handled _ rfl rfl

theorem send (reading : s.Reading i conn r phase d sent []) (response : ServerResponse) (phase' : Phase)
    (handled : ∀ task, task.phase = phase → s.handleRead settings i task r =
      s.sendResponse i task response phase' task.delivery) :
    ∃ next, Runs.run (State.step settings) s [.advance i, .transmit conn] = some next ∧
      next.Reading i conn r phase' d (sent ++ [response]) [] := by
  obtain ⟨⟨call, here⟩, written, there⟩ := reading
  let after : Task := ⟨conn, .read r, phase', call, some d, sent ++ [response]⟩
  let held := (s.setTask i after).setConnection conn ⟨[(i, response)], written, false⟩
  have sends : s.step settings (.advance i) = some held := by
    simp only [State.step, State.advance, here, Option.bind_eq_bind, Option.bind_some]
    rw [handled _ rfl]
    simp [State.sendResponse, there, responseChannelBuffer, held, after]
  have waits : held.connections[conn]? = some ⟨[(i, response)], written, false⟩ :=
    Guards.getElem?_set_self there
  refine ⟨held.setConnection conn ⟨[], written ++ [(i, response)], false⟩,
    run_cons.mpr ⟨held, sends, run_cons.mpr ⟨_, ?_, rfl⟩⟩, ⟨call, Guards.getElem?_set_self here⟩, _,
    Guards.getElem?_set_self waits⟩
  simp [State.step, waits]

section Streaming

variable (reading : s.Reading i conn r .streaming d (r.stream d.produced) [])
  (drained : d.taken = d.produced.length)

include reading drained

theorem entry (sending : d.sending = true) (entry : ReadEntry) :
    ∃ events next, Runs.run (State.step settings) s events = some next ∧
      next.Reading i conn r .streaming
        { d with produced := d.produced ++ [entry], taken := d.taken + 1 }
        (r.stream (d.produced ++ [entry])) [] := by
  have room : d.produce entry = some { d with produced := d.produced ++ [entry] } := by
    rw [Delivery.produce, sending, drained, Nat.sub_self]
    rfl
  have waits : (d.produced ++ [entry])[d.taken]? = some entry := by
    rw [drained]
    exact List.getElem?_concat_length
  obtain ⟨one, produced, reading⟩ := reading.deliver rfl (fun d => d.produce entry) room
  obtain ⟨two, taken, reading⟩ := reading.turn settings (.relaying entry)
    { d with produced := d.produced ++ [entry], taken := d.taken + 1 }
    (fun task phase listening => by
      simp only [State.handleRead, phase, listening, Option.bind_eq_bind, Option.bind_some, waits])
  obtain ⟨three, relayed, reading⟩ := reading.send settings (r.answerEntry entry) .streaming
    (fun task phase => by simp only [State.handleRead, phase])
  refine ⟨.produce i entry :: .advance i :: [.advance i, .transmit conn], three,
    run_cons.mpr ⟨one, produced, run_cons.mpr ⟨two, taken, relayed⟩⟩, ?_⟩
  rw [ReadRequest.stream, List.map_append]
  exact reading

theorem entries (sending : d.sending = true) (more : List ReadEntry) :
    ∃ events next, Runs.run (State.step settings) s events = some next ∧
      next.Reading i conn r .streaming
        { d with produced := d.produced ++ more, taken := d.taken + more.length }
        (r.stream (d.produced ++ more)) [] := by
  induction more generalizing s d with
  | nil => exact ⟨[], s, rfl, by rw [List.append_nil]; exact reading⟩
  | cons first rest ih =>
    obtain ⟨events, middle, ran, reading⟩ := reading.entry settings drained sending first
    obtain ⟨events', next, ran', reading⟩ := ih reading
      (by rw [List.length_append, drained]; rfl) sending
    refine ⟨events ++ events', next, by rw [run_append, ran]; exact ran', ?_⟩
    rw [List.append_assoc, Nat.add_assoc, Nat.add_comm 1] at reading
    exact reading

/-- The read returns. Unless it has become a subscription, its task sends the final result. -/
theorem returns (running : d.result = none) (result : Outcome ReaderError Bool) :
    ∃ events next task, Runs.run (State.step settings) s events = some next ∧
      next.tasks[i]? = some task ∧ (result = .ok true ∨ task.phase = .finished) ∧
      task.sent = r.stream d.produced ++ (finalResult result).toList.map r.answer := by
  obtain ⟨one, finished, reading⟩ := reading.deliver rfl (fun d => d.finish result)
    (by simp only [Delivery.finish, running]; rfl)
  by_cases subscribed : result = .ok true
  · obtain ⟨call, here⟩ := reading.task
    refine ⟨[.finish i result], one, _, run_cons.mpr ⟨one, finished, rfl⟩, here, .inl subscribed, ?_⟩
    rw [subscribed]
    exact (List.append_nil _).symm
  have nothing : d.produced[d.taken]? = none := by
    rw [drained]
    exact List.getElem?_eq_none (Nat.le_refl _)
  have dropped : (d.sending && decide (result = .ok true)) = false := by
    rw [decide_eq_false subscribed, Bool.and_false]
  cases final : finalResult result with
  | none =>
    obtain ⟨two, left, reading⟩ := reading.turn settings .finished _ (fun task phase listening => by
      simp only [State.handleRead, phase, listening, Option.bind_eq_bind, Option.bind_some, nothing,
        dropped, Option.map_some, final]
      rfl)
    obtain ⟨call, here⟩ := reading.task
    refine ⟨[.finish i result, .advance i], two, _,
      run_cons.mpr ⟨one, finished, run_cons.mpr ⟨two, left, rfl⟩⟩, here, .inr rfl, ?_⟩
    exact (List.append_nil _).symm
  | some last =>
    obtain ⟨two, ended, reading⟩ := reading.turn settings (.responding (r.answer last)) _
      (fun task phase listening => by
        simp only [State.handleRead, phase, listening, Option.bind_eq_bind, Option.bind_some, nothing,
          dropped, Option.map_some, final]
        rfl)
    obtain ⟨three, sent, reading⟩ := reading.send settings (r.answer last) .finished
      (fun task phase => by simp only [State.handleRead, phase])
    obtain ⟨call, here⟩ := reading.task
    exact ⟨.finish i result :: .advance i :: [.advance i, .transmit conn], three, _,
      run_cons.mpr ⟨one, finished, run_cons.mpr ⟨two, ended, sent⟩⟩, here, .inr rfl, rfl⟩

end Streaming

end State.Reading

/-- A read that the reader completes can be told to its client in full: the start, the entries that the
reader hands over, and the end. -/
theorem read_reaches_client (settings : Settings) {s : State} {i conn : Nat} {r : ReadRequest}
    {position : ReadPosition} (started : s.Reading i conn r .streaming
      ⟨position, r.limit.toNat, r.stride, [], 0, true, none⟩ (r.stream []) [])
    {env : Env} {world : World} {values : List (Nat × Bytes)}
    (delivers : Delivers env world position r.limit.toNat r.stride values) :
    ∃ events next task entries, Runs.run (State.step settings) s events = some next ∧
      next.tasks[i]? = some task ∧ task.phase = .finished ∧
      task.sent = r.stream entries ++ [r.answer .rrEnd] ∧
      entries.map (fun e => (e.id.toNat, e.data)) = values := by
  obtain ⟨fuel, after, sender, completed, delivered⟩ := delivers
  obtain ⟨events, middle, ran, reading⟩ := started.entries settings rfl rfl sender.delivered
  obtain ⟨events', next, task, ran', here, ended, sent⟩ :=
    reading.returns settings (Nat.zero_add _) rfl (.ok false)
  refine ⟨events ++ events', next, task, sender.delivered, ?_, here, ended.resolve_left (by decide), sent,
    delivered⟩
  rw [run_append, ran]
  exact ran'

end NormFS.Server
