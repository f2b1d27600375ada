import NormFS.Lib.Stride
import NormFS.Wal.CrashPrefix

/-! A range read of a file whose entries are numbered without gaps: what it delivers, and whether it
has reached the last wanted entry. -/
namespace NormFS

open Stride

variable {lo : Nat}

theorem Numbered.congr {as bs : List Entry} (same : as.map valueOf = bs.map valueOf)
    (numbered : Numbered lo as) : Numbered lo bs := by
  have lengths := congrArg List.length same
  have ids := congrArg (List.map Prod.fst) same
  rw [List.length_map, List.length_map] at lengths
  rw [List.map_map, List.map_map] at ids
  rw [Numbered, ← lengths]
  exact ids.symm.trans numbered

def wanted (start step : Nat) (last : Option Nat) (entries : List Entry) : List Entry :=
  entries.filter (fun e => hit start step last e.1.toNat)

theorem wanted_ids (start step : Nat) (last : Option Nat) {entries : List Entry}
    (numbered : Numbered lo entries) :
    (wanted start step last entries).map (fun e => e.1.toNat) =
      picks start step last lo entries.length := by
  rw [wanted, picks, ← numbered, List.filter_map]
  rfl

theorem wanted_values (start step : Nat) (last : Option Nat) {entries : List Entry}
    {payload : Nat → Bytes} (numbered : Numbered lo entries)
    (holds : ∀ e ∈ entries, e.2 = payload e.1.toNat) :
    (wanted start step last entries).map valueOf =
      (picks start step last lo entries.length).map (fun n => (n, payload n)) := by
  rw [← wanted_ids start step last numbered, List.map_map]
  apply List.map_congr_left
  intro e member
  rw [valueOf, holds e (List.mem_filter.mp member).1]
  rfl

section Walk

variable {request : ReadRequest}

def ReadRequest.last (request : ReadRequest) : Option Nat := request.untilId.map UintN.toNat

theorem pastEnd_iff (id : UintN) : pastEnd request id = true ↔ ∃ l ∈ request.last, l < id.toNat := by
  cases until' : request.untilId <;> simp [pastEnd, ReadRequest.last, until', UintN.lt_iff]

def ReadRequest.label (request : ReadRequest) (e : Entry) : ReadEntry := ⟨e.1, e.2, request.source⟩

/-- What follows a send: a receiver that is gone, the last wanted entry, or the entries after it. -/
def ReadRequest.handOver (request : ReadRequest) (id : UintN) (target : Sender) : Option Sender → Delivery
  | none => .closed target
  | some target =>
    if request.last = some id.toNat then .reachedEnd target (some id) else .proceed target (some id)

/- What happens to one entry: a wanted one is sent, and the last wanted one ends the read. -/
theorem deliver_inside (steps : 0 < request.step) (word : request.step < 2 ^ 64) {id : UintN}
    {data : Bytes} (inside : pastEnd request id = false) (lastRead : Option UintN) (target : Sender) :
    (deliver request id data lastRead target : Outcome WalError Delivery) =
      .ok (if hit request.fromId.toNat request.step request.last id.toNat then
        request.handOver id target (target.send (request.label (id, data)))
      else .proceed target lastRead) := by
  have within : ∀ l ∈ request.last, id.toNat ≤ l := by
    intro l member
    by_contra beyond
    rw [(pastEnd_iff id).mpr ⟨l, member, by omega⟩] at inside
    cases inside
  have bound : request.untilId.all (fun until' => decide (id ≤ until')) = true := by
    cases until' : request.untilId with
    | none => rfl
    | some last => simpa [UintN.le_iff] using within last.toNat (by simp [ReadRequest.last, until'])
  have ends : request.untilId.any (fun until' => decide (until' ≤ id)) =
      decide (request.last = some id.toNat) := by
    cases until' : request.untilId with
    | none => simp [ReadRequest.last, until']
    | some last =>
      have := within last.toNat (by simp [ReadRequest.last, until'])
      simp only [Option.any_some, ReadRequest.last, until', Option.map_some, UintN.le_iff, Option.some.injEq,
        decide_eq_decide]
      omega
  by_cases before : request.fromId.toNat ≤ id.toNat
  · have from_le : request.fromId ≤ id := (UintN.le_iff _ _).mpr before
    have grid : hit request.fromId.toNat request.step request.last id.toNat =
        decide (request.step ∣ id.toNat - request.fromId.toNat) := by
      rw [Bool.eq_iff_iff, hit_iff, decide_eq_true_iff]
      exact ⟨fun wanted => wanted.2.2, fun whole => ⟨before, within, whole⟩⟩
    simp only [deliver, from_le, bound, and_self, if_true, UintN.inStep_ok _ _ _ steps word before,
      Outcome.ok_bind, grid, ends, decide_eq_true_eq, ReadRequest.label]
    split
    · cases target.send _ with
      | none => rfl
      | some target =>
        dsimp only [ReadRequest.handOver]
        split <;> rfl
    · rfl
  · have outside : ¬ request.fromId ≤ id := fun le => before ((UintN.le_iff _ _).mp le)
    have miss : hit request.fromId.toNat request.step request.last id.toNat = false := by
      rw [Bool.eq_false_iff]
      intro wanted
      exact before (hit_iff.mp wanted).1
    simp only [deliver, outside, false_and, if_false, miss, Bool.false_eq_true]

variable {entries : List Entry} {lo : Nat} {target : Sender}

theorem wanted_beyond {start step l : Nat}
    (beyond : ∀ e ∈ entries, l < e.1.toNat) : wanted start step (some l) entries = [] := by
  rw [wanted, List.filter_eq_nil_iff]
  intro e member hits
  have above := beyond e member
  have below := (hit_iff.mp hits).2.1 l rfl
  omega

theorem wanted_past {start step l : Nat} (numbered : Numbered lo entries)
    (past : l < lo) : wanted start step (some l) entries = [] := by
  apply wanted_beyond
  intro e member
  have := (numbered.mem member).1
  omega

theorem wanted_cons (start step : Nat) (last : Option Nat) (e : Entry)
    (entries : List Entry) : wanted start step last (e :: entries) =
      if hit start step last e.1.toNat then e :: wanted start step last entries
      else wanted start step last entries := by
  rw [wanted, List.filter_cons]
  rfl

/-- Entries sent one after another until the receiver is gone. -/
def Sender.offer (target : Sender) : List ReadEntry → Sender
  | [] => target
  | entry :: entries =>
    match target.send entry with
    | none => target
    | some target => target.offer entries

theorem Sender.send_closed (closed : target.isClosed = true) (entry : ReadEntry) :
    target.send entry = none := by
  have room : target.room = some 0 := eq_of_beq closed
  rw [send, room]

theorem Sender.send_open (opened : target.isClosed = false) (entry : ReadEntry) :
    ∃ next, target.send entry = some next := by
  unfold isClosed at opened
  unfold send
  split
  · rename_i room
    rw [room] at opened
    cases opened
  · exact ⟨_, rfl⟩
  · exact ⟨_, rfl⟩

theorem Sender.offer_closed (closed : target.isClosed = true) (entries : List ReadEntry) :
    target.offer entries = target := by
  cases entries with
  | nil => rfl
  | cons entry entries => rw [offer, send_closed closed]

theorem Sender.offer_cons {next : Sender} {entry : ReadEntry} (sent : target.send entry = some next)
    (entries : List ReadEntry) : target.offer (entry :: entries) = next.offer entries := by
  rw [offer, sent]

@[simp] theorem Sender.offer_staying (delivered entries : List ReadEntry) :
    (staying delivered).offer entries = staying (delivered ++ entries) := by
  induction entries generalizing delivered with
  | nil => rw [offer, List.append_nil]
  | cons entry entries ih =>
    rw [offer_cons (send_staying delivered entry), ih, List.append_assoc, List.singleton_append]

/-- Entries in the order of their numbers, with gaps. -/
def Increasing (entries : List Entry) : Prop :=
  entries.Pairwise (fun a b => a.1.toNat < b.1.toNat)

/- A walk over increasing entries offers the receiver the wanted ones and nothing else. Once an
entry is at or past the last wanted number, none of those after it is wanted. -/
theorem walk_offer (request : ReadRequest) (steps : 0 < request.step) (word : request.step < 2 ^ 64) (increasing : Increasing entries)
    (torn lastRead lastProcessed : Option UintN) (target : Sender) :
    (walk request entries torn lastRead lastProcessed target).1 = target.offer
      ((wanted request.fromId.toNat request.step request.last entries).map request.label) := by
  induction entries generalizing lastRead lastProcessed target with
  | nil =>
    unfold walk
    split
    · rfl
    · cases torn <;> rfl
  | cons e entries ih =>
    obtain ⟨id, data⟩ := e
    obtain ⟨above, rest⟩ := List.pairwise_cons.mp increasing
    cases closed : target.isClosed with
    | true => rw [walk, if_pos closed, Sender.offer_closed closed]
    | false =>
      rw [walk, if_neg (by simp [closed])]
      cases past : pastEnd request id with
      | true =>
        obtain ⟨l, last, beyond⟩ := (pastEnd_iff id).mp past
        rw [Option.mem_def] at last
        rw [if_pos rfl, last, wanted_beyond]
        · rfl
        · intro e member
          rcases List.mem_cons.mp member with rfl | later
          · exact beyond
          · exact Nat.lt_trans beyond (above e later)
      | false =>
        rw [if_neg (by simp), deliver_inside steps word past, wanted_cons]
        cases hit request.fromId.toNat request.step request.last id.toNat with
        | false => exact ih rest _ _ _
        | true =>
          obtain ⟨next, sent⟩ := Sender.send_open closed (request.label (id, data))
          simp only [if_true, List.map_cons, sent, ReadRequest.handOver, Sender.offer_cons sent]
          by_cases final : request.last = some id.toNat
          · rw [final, wanted_beyond above]
            simp [Sender.offer]
          · simp only [if_neg final]
            exact ih rest _ _ _

/-- Some number seen is at or past the last wanted one. -/
def ReadRequest.reached (request : ReadRequest) (seen : List UintN) : Bool :=
  seen.any (fun id => request.last.any (fun l => decide (l ≤ id.toNat)))

theorem ReadRequest.reached_iff {seen : List UintN} :
    request.reached seen = true ↔ ∃ id ∈ seen, ∃ l ∈ request.last, l ≤ id.toNat := by
  simp [reached, List.any_eq_true, Option.any_eq_true]

/-- The verdict on the numbers of all the entry headers seen. -/
def ReadRequest.verdict (request : ReadRequest) (seen : List UintN) (lastRead : Option UintN) :
    ReadRangeResult :=
  if request.reached seen then .complete
  else .partialRead lastRead (seen.getLast?.getD request.fromId)

theorem ReadRequest.verdict_complete {seen : List UintN} {id : UintN} {l : Nat} (last : request.last = some l)
    (member : id ∈ seen) (le : l ≤ id.toNat) (lastRead : Option UintN) :
    request.verdict seen lastRead = .complete := by
  rw [verdict, if_pos (reached_iff.mpr ⟨id, member, l, last, le⟩)]

theorem ReadRequest.verdict_later {earlier later : List UintN} {id : UintN}
    (increasing : (earlier ++ id :: later).Pairwise (fun a b => a.toNat < b.toNat)) (lastRead : Option UintN) :
    request.verdict (earlier ++ id :: later) lastRead = request.verdict (id :: later) lastRead := by
  have same : request.reached (earlier ++ id :: later) = request.reached (id :: later) := by
    rw [Bool.eq_iff_iff, reached_iff, reached_iff]
    constructor
    · rintro ⟨n, member, l, last, le⟩
      rcases List.mem_append.mp member with before | after
      · have := (List.pairwise_append.mp increasing).2.2 n before id (by simp)
        exact ⟨id, by simp, l, last, by omega⟩
      · exact ⟨n, after, l, last, le⟩
    · rintro ⟨n, member, l, last, le⟩
      exact ⟨n, by simp [List.mem_append.mpr (.inr member)], l, last, le⟩
  rw [verdict, verdict, same, List.getLast?_append_cons]

theorem rangeResult_complete {lastRead lastProcessed : Option UintN} {found : Bool}
    (reached : found = true ∨ ∃ id ∈ lastProcessed, ∃ l ∈ request.last, l ≤ id.toNat) :
    rangeResult request found lastRead lastProcessed = .complete := by
  rw [rangeResult, if_pos]
  rcases reached with found | ⟨id, processed, l, last, le⟩
  · exact .inl found
  · right
    obtain ⟨until', bound, rfl⟩ := Option.map_eq_some_iff.mp last
    rw [Option.mem_def] at processed
    simpa [processed, bound, UintN.le_iff] using le

theorem rangeResult_unfinished {lastProcessed : Option UintN} (lastRead : Option UintN)
    (before : ∀ id ∈ lastProcessed, ∀ l ∈ request.last, id.toNat < l) :
    rangeResult request false lastRead lastProcessed =
      .partialRead lastRead (lastProcessed.getD request.fromId) := by
  rw [rangeResult, if_neg]
  rintro (no | reached)
  · cases no
  · obtain ⟨id, processed, reached⟩ := (Option.any_eq_true ..).mp reached
    obtain ⟨until', bound, le⟩ := (Option.any_eq_true ..).mp reached
    have := before id processed until'.toNat (by simp [ReadRequest.last, bound])
    have := (UintN.le_iff _ _).mp (of_decide_eq_true le)
    omega

theorem rangeResult_verdict (lastRead lastProcessed : Option UintN) :
    rangeResult request false lastRead lastProcessed = request.verdict lastProcessed.toList lastRead := by
  rw [ReadRequest.verdict]
  split
  · rename_i reached
    obtain ⟨id, member, l, last, le⟩ := ReadRequest.reached_iff.mp reached
    exact rangeResult_complete (.inr ⟨id, Option.mem_toList.mp member, l, last, le⟩)
  · rename_i before
    rw [rangeResult_unfinished]
    · cases lastProcessed <;> rfl
    · intro id processed l last
      by_contra le
      exact before (ReadRequest.reached_iff.mpr
        ⟨id, Option.mem_toList.mpr processed, l, last, Nat.le_of_not_lt le⟩)

/- The verdict of a walk with a receiver that stays counts every entry header, also that of a
cropped entry. `lastProcessed` is the number before the first of them. -/
theorem walk_verdict (request : ReadRequest) (steps : 0 < request.step) (word : request.step < 2 ^ 64)
    {entries : List Entry} {torn lastProcessed : Option UintN}
    (increasing : (lastProcessed.toList ++ (entries.map Prod.fst ++ torn.toList)).Pairwise
      (fun a b => a.toNat < b.toNat)) (lastRead : Option UintN) (delivered : List ReadEntry) :
    (walk request entries torn lastRead lastProcessed (.staying delivered)).2 =
      .ok (request.verdict (lastProcessed.toList ++ (entries.map Prod.fst ++ torn.toList))
        (((wanted request.fromId.toNat request.step request.last entries).getLast?.map Prod.fst).or
          lastRead)) := by
  induction entries generalizing lastRead lastProcessed delivered with
  | nil =>
    cases torn with
    | none => simp [walk, wanted, rangeResult_verdict]
    | some id =>
      have later := fun lastRead => @ReadRequest.verdict_later request _ _ _ increasing lastRead
      simp only [List.map_nil, List.nil_append, Option.toList_some] at later ⊢
      rw [later]
      cases past : pastEnd request id with
      | false => simp [walk, past, wanted, rangeResult_verdict]
      | true =>
        obtain ⟨l, last, beyond⟩ := (pastEnd_iff id).mp past
        rw [request.verdict_complete last (List.mem_singleton_self id) (Nat.le_of_lt beyond)]
        simp [walk, past, rangeResult_complete]
  | cons e entries ih =>
    obtain ⟨id, data⟩ := e
    rw [List.map_cons, List.cons_append] at increasing ⊢
    have later := fun lastRead => @ReadRequest.verdict_later request _ _ _ increasing lastRead
    have rest := (List.pairwise_append.mp increasing).2.1
    have next := fun lastRead delivered => @ih (some id) rest lastRead delivered
    simp only [Option.toList_some, List.singleton_append] at next
    rw [later, walk, if_neg (by simp)]
    cases past : pastEnd request id with
    | true =>
      obtain ⟨l, last, beyond⟩ := (pastEnd_iff id).mp past
      rw [if_pos rfl, request.verdict_complete last (List.mem_cons_self ..) (Nat.le_of_lt beyond),
        rangeResult_complete (.inl rfl)]
    | false =>
      rw [if_neg (by simp), deliver_inside steps word past, wanted_cons]
      cases hit request.fromId.toNat request.step request.last id.toNat with
      | false => exact next _ _
      | true =>
        simp only [if_true, Sender.send_staying, ReadRequest.handOver]
        by_cases final : request.last = some id.toNat
        · rw [if_pos final, request.verdict_complete final (List.mem_cons_self ..) (Nat.le_refl _)]
          simp only [rangeResult_complete (.inl rfl)]
        · rw [if_neg final]
          simp only [next, List.getLast?_cons]
          cases (wanted request.fromId.toNat request.step request.last entries).getLast? <;> rfl

theorem Numbered.increasing (numbered : Numbered lo entries) :
    Increasing entries := by
  have ids : (entries.map (fun e => e.1.toNat)).Pairwise (· < ·) := by
    rw [numbered]
    exact List.pairwise_lt_range'
  exact List.pairwise_map.mp ids

theorem walk_numbered (request : ReadRequest) (steps : 0 < request.step) (word : request.step < 2 ^ 64) (numbered : Numbered lo entries) (delivered : List ReadEntry) :
    let sent := wanted request.fromId.toNat request.step request.last entries
    ∃ result, walk request entries none none none (.staying delivered) =
        (.staying (delivered ++ sent.map request.label), .ok result) ∧
      ((∃ l ∈ request.last, l < lo + entries.length) → entries ≠ [] → result = .complete) ∧
      ((∀ l ∈ request.last, lo + entries.length ≤ l) →
        ∃ id, result = .partialRead (sent.getLast?.map Prod.fst) id) := by
  intro sent
  have increasing := numbered.increasing
  have offered := walk_offer request steps word increasing none none none (.staying delivered)
  have ids : (entries.map Prod.fst ++ []).Pairwise (fun a b : UintN => a.toNat < b.toNat) := by
    rw [List.append_nil, List.pairwise_map]
    exact increasing
  have judged := @walk_verdict request steps word entries none none ids none delivered
  rw [Sender.offer_staying] at offered
  rw [Option.toList_none, List.nil_append, List.append_nil, Option.or_none] at judged
  refine ⟨_, Prod.ext offered judged, ?_, ?_⟩
  · rintro ⟨l, last, past⟩ inhabited
    -- The last entry has the largest number, so it is the one to look at.
    obtain ⟨before, e, rfl⟩ := List.eq_nil_or_concat' entries |>.resolve_left inhabited
    have number := (numbered_cons.mp (numbered_append.mp numbered).2).1
    rw [List.length_append, List.length_singleton] at past
    exact request.verdict_complete last (List.mem_map_of_mem (List.mem_append_right _ (List.mem_singleton_self e)))
      (by omega) _
  · intro before
    refine ⟨_, if_neg ?_⟩
    intro reached
    obtain ⟨id, member, l, last, le⟩ := ReadRequest.reached_iff.mp reached
    obtain ⟨e, listed, rfl⟩ := List.mem_map.mp member
    have := (numbered.mem listed).2
    have := before l last
    omega

end Walk

end NormFS
