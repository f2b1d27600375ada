import NormFS.Mem.Handover
import NormFS.Reader.Exact

/-! Reads of every entry, with any receiver: one that stays and one that goes away in the middle. What
one step of the reader hands over are consecutive numbers, from the next wanted one on. -/
namespace NormFS

open Stride

def Sender.ids (target : Sender) : List Nat := target.delivered.map (fun entry => entry.id.toNat)

theorem Sender.ids_send {target after : Sender} {entry : ReadEntry} (sent : target.send entry = some after) :
    after.ids = target.ids ++ [entry.id.toNat] := by
  unfold Sender.send at sent
  split at sent
  · cases sent
  · cases sent
    simp [Sender.ids]
  · cases sent
    simp [Sender.ids]

section Files

variable {request : ReadRequest}

/-- The next wanted number when `lastRead` was the last one handed over. -/
def nextAfter (fromId : UintN) (lastRead : Option UintN) : Nat :=
  match lastRead with
  | some id => id.toNat + 1
  | none => fromId.toNat

/-- What happens to an entry: it lies before the first wanted one, the receiver is gone, or it is handed
over. -/
theorem deliver_single {ε : Type} (single : request.step = 1) {id : UintN} (data : Bytes)
    (lastRead : Option UintN) (target : Sender) (inside : pastEnd request id = false) :
    (¬ request.fromId ≤ id ∧ (deliver request id data lastRead target : Outcome ε Delivery) =
      .ok (.proceed target lastRead)) ∨
    (deliver request id data lastRead target : Outcome ε Delivery) = .ok (.closed target) ∨
    (request.fromId ≤ id ∧ ∃ after, target.send ⟨id, data, request.source⟩ = some after ∧
      ((deliver request id data lastRead target : Outcome ε Delivery) = .ok (.reachedEnd after (some id)) ∨
        (deliver request id data lastRead target : Outcome ε Delivery) = .ok (.proceed after (some id)))) := by
  have within : request.untilId.all (fun until' => decide (id ≤ until')) = true := by
    cases known : request.untilId with
    | none => rfl
    | some until' =>
      simp only [pastEnd, known, Option.any_some, decide_eq_false_iff_not, UintN.lt_iff] at inside
      simpa [UintN.le_iff] using inside
  by_cases begun : request.fromId ≤ id
  · right
    cases sent : target.send ⟨id, data, request.source⟩ with
    | none =>
      left
      simp [deliver, within, UintN.inStep, single, begun, sent]
    | some after =>
      right
      refine ⟨begun, after, rfl, ?_⟩
      by_cases last : request.untilId.any (fun until' => decide (until' ≤ id)) = true
      · left
        simp [deliver, within, UintN.inStep, single, begun, sent, last]
      · right
        simp [deliver, within, UintN.inStep, single, begun, sent, last]
  · left
    exact ⟨begun, by simp [deliver, begun]⟩

theorem rangeResult_lastRead {found : Bool} {lastRead lastProcessed last : Option UintN} {id : UintN}
    (result : rangeResult request found lastRead lastProcessed = .partialRead last id) : last = lastRead := by
  unfold rangeResult at result
  split at result
  · cases result
  · cases result
    rfl

/- The walk is at number `lo` of the file and waits for number `next`. Once something was handed over
it is at the number it waits for. -/
theorem walk_single (single : request.step = 1) {lo : Nat} {entries : List Entry}
    (numbered : Numbered lo entries) {lastRead : Option UintN} (lastProcessed : Option UintN) (target : Sender)
    (reached : lo ≤ nextAfter request.fromId lastRead) (fromOn : request.fromId.toNat ≤ nextAfter request.fromId lastRead)
    (going : lastRead ≠ none → lo = nextAfter request.fromId lastRead) :
    ∃ after result k, walk request entries none lastRead lastProcessed target = (after, .ok result) ∧
      after.ids = target.ids ++ List.range' (nextAfter request.fromId lastRead) k ∧
      ∀ last id, result = .partialRead last id →
        nextAfter request.fromId last = nextAfter request.fromId lastRead + k := by
  induction entries generalizing lo lastRead lastProcessed target with
  | nil =>
    unfold walk
    split
    · exact ⟨_, _, 0, rfl, by simp, by rintro _ _ ⟨⟩⟩
    · refine ⟨_, _, 0, rfl, by simp, ?_⟩
      intro last id result
      rw [rangeResult_lastRead result, Nat.add_zero]
  | cons e entries ih =>
    obtain ⟨id, data⟩ := e
    obtain ⟨number, rest⟩ := numbered_cons.mp numbered
    dsimp only at number
    unfold walk
    split
    · exact ⟨_, _, 0, rfl, by simp, by rintro _ _ ⟨⟩⟩
    · split
      · exact ⟨_, _, 0, rfl, by simp, by rw [rangeResult_complete (.inl rfl)]; rintro _ _ ⟨⟩⟩
      · rename_i inside
        rcases deliver_single single data lastRead target (Bool.eq_false_iff.mpr inside) with
          ⟨before, goes⟩ | goes | ⟨begun, after, sent, goes⟩
        · rw [goes]
          have early : id.toNat < request.fromId.toNat := by
            rw [UintN.le_iff] at before
            omega
          exact ih rest _ target (by omega) fromOn (fun some' => by have := going some'; omega)
        · rw [goes]
          exact ⟨_, _, 0, rfl, by simp, by rintro _ _ ⟨⟩⟩
        · -- with nothing handed over yet the wanted number is the first one of the request
          have here : nextAfter request.fromId lastRead = lo := by
            have first := (UintN.le_iff _ _).mp begun
            cases lastRead with
            | none => exact Nat.le_antisymm (by rw [← number]; exact first) reached
            | some last => exact (going (Option.some_ne_none _)).symm
          have ids : after.ids = target.ids ++ [lo] := by
            rw [Sender.ids_send sent, number]
          rcases goes with goes | goes
          · rw [goes]
            refine ⟨_, _, 1, rfl, ?_, by rw [rangeResult_complete (.inl rfl)]; rintro _ _ ⟨⟩⟩
            rw [ids, here]
            rfl
          · rw [goes]
            have next : nextAfter request.fromId (some id) = lo + 1 := congrArg (· + 1) number
            obtain ⟨final, result, k, walked, more, last⟩ := ih rest (some id) after next.ge (by omega)
              (fun _ => next.symm)
            refine ⟨final, result, k + 1, walked, ?_, ?_⟩
            · rw [more, ids, here, next, List.append_assoc, List.range'_succ]
              rfl
            · intro last' id' ended
              rw [last last' id' ended, next, here]
              omega

/-- What is read of a file that does not start behind the wanted entry. The read ends, or it goes on
behind what it has handed over. -/
theorem parse_single (env : Env) (ctx : ReadContext) (source : DataSource) {s : Segment} {bytes : Bytes}
    (readable : s.header.Readable) (contiguous : s.Contiguous) (content : bytes.data = s.bytes env.xxh64)
    (single : ctx.step = 1) (starts : s.first ≤ ctx.nextId.toNat) (world : World) (step : Nat) :
    ∃ (after : Sender) (k : Nat), after.ids = ctx.sender.ids ++ List.range' ctx.nextId.toNat k ∧
      (transition env step world (.parseWalBytes ctx bytes source) = .next world (.completed after) ∨
      transition env step world (.parseWalBytes ctx bytes source) =
        .next world (.failed .clientDisconnected after) ∨
      ∃ next : UintN, next.toNat = ctx.nextId.toNat + k ∧
        transition env step world (.parseWalBytes ctx bytes source) = .next world
          (.readNextFile ctx.fileId { ctx with nextId := next, sender := after } (prefetchFor ctx))) := by
  have widths := readable.widths
  have reads := readWalBytesRange_cut env.xxh64 readable.addressable (by omega)
    (cut_whole env.xxh64 contiguous.fits) content ⟨ctx.nextId, ctx.lastId, ctx.step, source⟩ ctx.sender
  have one : max ctx.step 1 = 1 := by omega
  simp only [one] at reads
  change _ = walk _ s.read none none none _ at reads
  obtain ⟨after, result, k, walked, ids, last⟩ := @walk_single ⟨ctx.nextId, ctx.lastId, 1, source⟩ rfl _ _
    contiguous.read none none ctx.sender starts (Nat.le_refl _) (fun no => absurd rfl no)
  rw [walked] at reads
  by_cases closed : ctx.sender.isClosed = true
  · refine ⟨ctx.sender, 0, by simp, .inr (.inl ?_)⟩
    simp [transition, handleParseWalBytes, closed]
  · refine ⟨after, k, ids, ?_⟩
    cases result with
    | complete =>
      left
      simp [transition, handleParseWalBytes, closed, reads]
    | channelClosed =>
      right
      left
      simp [transition, handleParseWalBytes, closed, reads]
    | partialRead lastRead lastIdInFile =>
      right
      right
      have value := last lastRead lastIdInFile rfl
      cases lastRead with
      | none =>
        refine ⟨ctx.nextId, value, ?_⟩
        simp [transition, handleParseWalBytes, closed, reads]
      | some id =>
        refine ⟨id.add (.ofU64 (BitVec.ofNat 64 ctx.step)), ?_, ?_⟩
        · rw [single, UintN.toNat_add]
          exact value
        · simp [transition, handleParseWalBytes, closed, reads]

end Files

section Memory

theorem picks_single (start : Nat) (last : Option Nat) {lo : Nat} (reached : start ≤ lo) (len : Nat) :
    ∃ k, picks start 1 last lo len = List.range' lo k := by
  induction len generalizing lo with
  | zero => exact ⟨0, rfl⟩
  | succ len ih =>
    by_cases inside : ∀ l ∈ last, lo ≤ l
    · obtain ⟨k, later⟩ := ih (Nat.le_succ_of_le reached)
      refine ⟨k + 1, ?_⟩
      have hits : hit start 1 last lo = true := hit_iff.mpr ⟨reached, inside, Nat.one_dvd _⟩
      rw [picks, List.range'_succ, List.filter_cons_of_pos hits, List.range'_succ]
      exact congrArg _ later
    · push Not at inside
      obtain ⟨l, known, past⟩ := inside
      rw [Option.mem_def] at known
      rw [known, picks_above past]
      exact ⟨0, rfl⟩

theorem sendAll_numbered {first : Nat} {entries : List Entry} (numbered : Numbered first entries) (target : Sender) :
    ∃ k, (target.sendAll entries).1.ids = target.ids ++ List.range' first k := by
  induction entries generalizing first target with
  | nil => exact ⟨0, by simp [Sender.sendAll]⟩
  | cons e entries ih =>
    obtain ⟨number, rest⟩ := numbered_cons.mp numbered
    unfold Sender.sendAll
    cases sent : target.sendEntry e with
    | none => exact ⟨0, by simp⟩
    | some after =>
      have ids : after.ids = target.ids ++ [first] := by
        rw [← number]
        exact Sender.ids_send sent
      obtain ⟨k, more⟩ := ih rest after
      refine ⟨k + 1, ?_⟩
      dsimp only
      rw [more, ids, List.append_assoc, List.range'_succ]
      rfl

structure MemQueue.Spans (q : MemQueue) (lo count : Nat) : Prop where
  numbered : Numbered lo q.entries
  upTo : lo + q.entries.length = count
  firstId : q.firstId = q.entries.head?.map Prod.fst
  lastId : q.lastId.map UintN.toNat = if count = 0 then none else some (count - 1)

namespace MemQueue.Spans

variable {q : MemQueue} {lo count : Nat}

theorem holds (spans : q.Spans lo count) : ∃ payload, q.Holds lo count payload := by
  refine ⟨fun n => ((q.entries[n - lo]?).map Prod.snd).getD .empty, spans.numbered, spans.upTo, ?_,
    spans.firstId, spans.lastId⟩
  intro e member
  obtain ⟨i, inside, rfl⟩ := List.getElem_of_mem member
  have number := congrArg (fun ids => ids[i]?) spans.numbered
  simp only [List.getElem?_map, List.getElem?_eq_getElem inside, Option.map_some, List.getElem?_range' inside,
    Option.some.injEq] at number
  rw [number]
  simp [inside]

theorem readFull_single (spans : q.Spans lo count) (start endId : UintN) (target : Sender) :
    (∃ after k, q.readFull start endId 1 target = some (⟨true, none, none⟩, after) ∧
      after.ids = target.ids ++ List.range' start.toNat k) ∨
    (start.toNat < lo ∧ q.readFull start endId 1 target = some (.fail, target)) := by
  obtain ⟨payload, holds⟩ := spans.holds
  by_cases beyond : count ≤ start.toNat
  · exact .inl ⟨target, 0, holds.readFull_beyond beyond endId 1 target, by simp⟩
  · by_cases before : start.toNat < lo
    · exact .inr ⟨before, holds.readFull_before before endId 1 target⟩
    · left
      obtain ⟨last, lastId, lastValue⟩ := holds.lastId_some (by omega)
      obtain ⟨first, firstId, firstValue⟩ := holds.firstId_some (by omega)
      have notBeyond : ¬ last < start := by
        rw [UintN.lt_iff]
        omega
      have notBefore : ¬ start < first := by
        rw [UintN.lt_iff]
        omega
      have since : Numbered start.toNat (q.since start) := holds.numbered.since (Nat.le_of_not_lt before)
      have collected := collect_numbered Nat.one_pos (by decide) since start (Nat.le_refl _) (some endId)
      obtain ⟨k, consecutive⟩ := picks_single start.toNat (some endId.toNat) (Nat.le_refl _) (q.since start).length
      have ids := wanted_ids start.toNat 1 (some endId.toNat) since
      have numbered : Numbered start.toNat (wanted start.toNat 1 (some endId.toNat) (q.since start)) := by
        have length := congrArg List.length (ids.trans consecutive)
        rw [List.length_map, List.length_range'] at length
        rw [Numbered, length]
        exact ids.trans consecutive
      obtain ⟨j, sent⟩ := sendAll_numbered numbered target
      refine ⟨_, j, ?_, sent⟩
      simp [readFull, lastId, firstId, notBeyond, notBefore, collected]

theorem nextId (spans : q.Spans lo count) : q.nextId.toNat = count := by
  have last := spans.lastId
  unfold MemQueue.nextId
  cases known : q.lastId with
  | none =>
    rw [known, Option.map_none] at last
    split at last
    · rename_i zero
      rw [zero]
      rfl
    · cases last
  | some id =>
    rw [known, Option.map_some] at last
    split at last
    · cases last
    · dsimp only
      rw [UintN.toNat_increment, Option.some.inj last]
      omega

end MemQueue.Spans

structure MemQueue.Backed (q : MemQueue) (flushed count : Nat) : Prop where
  spans : ∃ lo ≤ flushed, q.Spans lo count
  acked : ∀ id ∈ q.lastAckedId, id.toNat < flushed

namespace MemQueue.Backed

variable {q : MemQueue} {flushed count : Nat}

section

variable (backed : q.Backed flushed count)

include backed

theorem mono {later : Nat} (grows : flushed ≤ later) : q.Backed later count := by
  obtain ⟨lo, low, spans⟩ := backed.spans
  refine ⟨⟨lo, Nat.le_trans low grows, spans⟩, ?_⟩
  intro id known
  exact Nat.lt_of_lt_of_le (backed.acked id known) grows

theorem cleaned {after : MemQueue} (cleaned : Cleaned q after) :
    after.Backed flushed count := by
  obtain ⟨lo, low, spans⟩ := backed.spans
  have numbered := numbered_suffix spans.numbered cleaned.entries
  have shorter := cleaned.entries.length_le
  have upTo := spans.upTo
  refine ⟨⟨_, ?_, numbered, by omega, cleaned.firstId, cleaned.lastId ▸ spans.lastId⟩,
    cleaned.lastAckedId ▸ backed.acked⟩
  -- otherwise the first entry that is not in a file would be gone
  by_contra beyond
  have inside : flushed - lo < q.entries.length := by omega
  have number := congrArg (fun ids => ids[flushed - lo]?) spans.numbered
  simp only [List.getElem?_map, List.getElem?_eq_getElem inside, Option.map_some, List.getElem?_range' inside,
    Option.some.injEq] at number
  have kept := cleaned.keeps _ (List.getElem_mem inside) (fun id known => by
    have := backed.acked id known
    omega)
  have above := (numbered.mem kept).1
  omega

theorem ack {id : UintN} (written : id.toNat < flushed) :
    (q.ack id).Backed flushed count := by
  obtain ⟨lo, low, spans⟩ := backed.spans
  unfold MemQueue.ack
  split
  · have marked : MemQueue.Backed { q with lastAckedId := some id } flushed count := by
      refine ⟨⟨lo, low, spans.numbered, spans.upTo, spans.firstId, spans.lastId⟩, ?_⟩
      rintro acked ⟨⟩
      exact written
    exact marked.cleaned (cleanup_cleaned spans.firstId)
  · exact backed.cleaned (cleanup_cleaned spans.firstId)

theorem appendBatch (batch : List Bytes) :
    (q.appendBatch batch).1.Backed flushed (count + batch.length) := by
  obtain ⟨lo, low, spans⟩ := backed.spans
  have upTo := spans.upTo
  unfold MemQueue.appendBatch
  cases batch with
  | nil => exact backed
  | cons data batch =>
    have added := numbered_numbered q.nextId (data :: batch)
    have length := length_numbered q.nextId (data :: batch)
    rw [spans.nextId] at added
    have numbered : Numbered lo (q.entries ++ MemQueue.numbered q.nextId (data :: batch)) :=
      numbered_append.mpr ⟨spans.numbered, upTo ▸ added⟩
    have firstId := head_grown spans.firstId data batch
    have lastId : ((MemQueue.numbered q.nextId (data :: batch)).getLast?.map Prod.fst).map UintN.toNat =
        some (count + (data :: batch).length - 1) := by
      have last := congrArg List.getLast? added
      rw [List.getLast?_map, length, List.length_cons, List.range'_concat, List.getLast?_concat] at last
      rw [Option.map_map]
      refine last.trans ?_
      simp
    refine cleaned (q := { q with
      firstId := q.firstId.or (some q.nextId)
      lastId := (MemQueue.numbered q.nextId (data :: batch)).getLast?.map Prod.fst
      entries := q.entries ++ MemQueue.numbered q.nextId (data :: batch)
      memoryUsage := q.memoryUsage + ((data :: batch).map Bytes.length).sum })
      ⟨⟨lo, low, numbered, ?_, firstId, ?_⟩, backed.acked⟩ (cleanup_cleaned firstId)
    · rw [List.length_append, length]
      omega
    · rw [lastId, if_neg (by simp)]

end

end MemQueue.Backed

end Memory

end NormFS
