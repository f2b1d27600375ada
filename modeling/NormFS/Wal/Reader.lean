import NormFS.Wal.Entry

/-! The readers of WAL files. Two of them take the file apart as a stream, two as a slice with
a cursor. Each stops without an error at the first entry that is cut or damaged. The file is
`none` when it does not exist. -/
namespace NormFS

open LittleEndian Framing

inductive WalError where
  | ioError
  | walHeaderError (error : WalHeaderError)
  | walEntryError (error : WalEntryError)
  | pathError
  | sendError
  | walNotFound
  | writerNotFound
  | walEmpty (fileId : UintN)
  deriving DecidableEq, Repr

inductive ReadRangeResult where
  | complete
  | partialRead (lastReadId : Option UintN) (lastIdInFile : UintN)
  | channelClosed
  deriving DecidableEq, Repr

structure WalContent where
  entriesBefore : UintN
  numEntries : UintN
  content : Bytes
  deriving DecidableEq

def headerOrEmpty {α : Type} (fileId : UintN) : Outcome WalHeaderError α → Outcome WalError α
  | .ok a => .ok a
  | .err .sliceTooShort => .err (.walEmpty fileId)
  | .err e => .err (.walHeaderError e)
  | .panic => .panic

def readWalHeader (file : Option (List UInt8)) (fileId : UintN) : Outcome WalError WalHeader :=
  match file with
  | none => .err .walNotFound
  | some bytes =>
    if bytes.isEmpty then .err (.walEmpty fileId)
    else do
      let ((walHeader, _), _) ← headerOrEmpty fileId (WalHeader.fromReader (bytes.take 128))
      pure walHeader

section Walkers

variable (xxh64 : Hash)

/- The record after an entry header in a stream. `none` ends the walk: the length is no machine
word, the record is cropped, or its hash is wrong. -/
def streamRecord {ε : Type} (reader : List UInt8) (entry : WalEntryHeader) :
    Outcome ε (Option (List UInt8 × List UInt8)) :=
  match entry.recordSize.toU64 with
  | .error _ => .ok none
  | .ok recordSize => do
    Outcome.allocate recordSize.toNat
    match readExact () reader recordSize.toNat with
    | .ok (record, reader) => if xxh64 record ≠ entry.xxhash then .ok none else .ok (some (record, reader))
    | _ => .ok none

def sliceRecord {ε : Type} (content : List UInt8) (cursor : Nat) (entry : WalEntryHeader) :
    Outcome ε (Option (List UInt8)) :=
  match entry.recordSize.toU64 with
  | .error _ => .ok none
  | .ok recordSize => do
    let stop ← Outcome.addUsize cursor recordSize.toNat
    if content.length < stop then .ok none
    else
      let record := (content.drop cursor).take recordSize.toNat
      if xxh64 record ≠ entry.xxhash then .ok none else .ok (some record)

/- Every iteration takes at least the fixed part of an entry header off the stream, so the
length of the stream bounds the iterations and the first case is never reached. -/
def walRangeLoop (walHeader : WalHeader) :
    Nat → List UInt8 → Option UintN → Option UintN → Outcome WalError (Option UintN × Option UintN)
  | 0, _, firstId, lastId => .ok (firstId, lastId)
  | fuel + 1, reader, firstId, lastId =>
    match WalEntryHeader.fromReader reader walHeader with
    | .panic => .panic
    | .err _ => .ok (firstId, lastId)
    | .ok (entry, reader) => do
      let firstId := firstId.or (some entry.entryId)
      match ← streamRecord xxh64 reader entry with
      | none => .ok (firstId, lastId)
      | some (_, reader) => walRangeLoop walHeader fuel reader firstId (some entry.entryId)

def getWalRange (file : Option (List UInt8)) (fileId : UintN) :
    Outcome WalError (WalHeader × Option (UintN × UintN)) :=
  match file with
  | none => .err .walNotFound
  | some bytes =>
    if bytes.isEmpty then .err (.walEmpty fileId)
    else do
      let ((walHeader, _), reader) ← headerOrEmpty fileId (WalHeader.fromReader bytes)
      let (firstId, lastId) ← walRangeLoop xxh64 walHeader (reader.length + 1) reader none none
      pure (walHeader, firstId.bind (fun first => lastId.map (fun last => (first, last))))

def walContentLoop (walHeader : WalHeader) (content : List UInt8) :
    Nat → Nat → Nat → Outcome WalError Nat
  | 0, _, numEntries => .ok numEntries
  | fuel + 1, cursor, numEntries =>
    let remaining := content.drop cursor
    if remaining.isEmpty then .ok numEntries
    else match WalEntryHeader.fromBytes remaining walHeader with
      | .panic => .panic
      | .err _ => .ok numEntries
      | .ok entry => do
        let cursor := cursor + WalEntryHeader.size walHeader
        match ← sliceRecord xxh64 content cursor entry with
        | none => .ok numEntries
        | some record =>
          walContentLoop walHeader content fuel (cursor + record.length) (numEntries + 1)

def getWalContent (file : Option Bytes) : Outcome WalError WalContent :=
  match file with
  | none => .err .walNotFound
  | some content =>
    if content.data.isEmpty then .err (.walEntryError .sliceTooShort)
    else do
      let (walHeader, headerSize) ← (WalHeader.fromBytes content.data).mapErr .walHeaderError
      let numEntries ←
        walContentLoop xxh64 walHeader content.data (content.length + 1) headerSize 0
      pure ⟨walHeader.numEntriesBefore, .ofU64 (BitVec.ofNat 64 numEntries), content⟩

structure ReadRequest where
  fromId : UintN
  untilId : Option UintN
  step : Nat
  source : DataSource
  deriving DecidableEq, Repr

inductive Delivery where
  | proceed (target : Sender) (lastReadId : Option UintN)
  | reachedEnd (target : Sender) (lastReadId : Option UintN)
  | closed (target : Sender)
  deriving DecidableEq

/- What both range readers do with an undamaged entry. The caller has already replaced a step
of zero by one. -/
def deliver {ε : Type} (request : ReadRequest) (entryId : UintN) (record : Bytes)
    (lastReadId : Option UintN) (target : Sender) : Outcome ε Delivery :=
  if request.fromId ≤ entryId ∧ request.untilId.all (fun until' => decide (entryId ≤ until')) then do
    if ← entryId.inStep request.fromId request.step then
      match target.send ⟨entryId, record, request.source⟩ with
      | none => .ok (.closed target)
      | some target =>
        if request.untilId.any (fun until' => decide (until' ≤ entryId)) then
          .ok (.reachedEnd target (some entryId))
        else .ok (.proceed target (some entryId))
    else .ok (.proceed target lastReadId)
  else .ok (.proceed target lastReadId)

def rangeResult (request : ReadRequest) (foundComplete : Bool)
    (lastReadId lastProcessedId : Option UintN) : ReadRangeResult :=
  if foundComplete ∨ lastProcessedId.any
      (fun last => request.untilId.any (fun until' => decide (until' ≤ last))) then .complete
  else .partialRead lastReadId (lastProcessedId.getD request.fromId)

def pastEnd (request : ReadRequest) (entryId : UintN) : Bool :=
  request.untilId.any (fun until' => decide (until' < entryId))

def walFileLoop (request : ReadRequest) (walHeader : WalHeader) :
    Nat → List UInt8 → Option UintN → Option UintN → Sender → Sender × Outcome WalError ReadRangeResult
  | 0, _, lastRead, lastProcessed, target =>
    (target, .ok (rangeResult request false lastRead lastProcessed))
  | fuel + 1, reader, lastRead, lastProcessed, target =>
    if target.isClosed then (target, .ok .channelClosed)
    else match WalEntryHeader.fromReader reader walHeader with
      | .panic => (target, .panic)
      | .err _ => (target, .ok (rangeResult request false lastRead lastProcessed))
      | .ok (entry, reader) =>
        let lastProcessed := some entry.entryId
        if pastEnd request entry.entryId then
          (target, .ok (rangeResult request true lastRead lastProcessed))
        else match streamRecord xxh64 reader entry with
          | .panic => (target, .panic)
          | .err e => (target, .err e)
          | .ok none => (target, .ok (rangeResult request false lastRead lastProcessed))
          | .ok (some (record, reader)) =>
            match deliver request entry.entryId (.allocated record) lastRead target with
            | .panic => (target, .panic)
            | .err e => (target, .err e)
            | .ok (.closed target) => (target, .ok .channelClosed)
            | .ok (.reachedEnd target lastRead) =>
              (target, .ok (rangeResult request true lastRead lastProcessed))
            | .ok (.proceed target lastRead) =>
              walFileLoop request walHeader fuel reader lastRead lastProcessed target

def readWalFileRange (file : Option (List UInt8)) (request : ReadRequest) (target : Sender) :
    Sender × Outcome WalError ReadRangeResult :=
  match file with
  | none => (target, .err .walNotFound)
  | some bytes =>
    if bytes.isEmpty then (target, .ok (.partialRead none request.fromId))
    else match WalHeader.fromReader bytes with
      | .panic => (target, .panic)
      | .err e => (target, .err (.walHeaderError e))
      | .ok ((walHeader, _), reader) =>
        walFileLoop xxh64 { request with step := max request.step 1 } walHeader (reader.length + 1) reader none
          none target

def walBytesLoop (request : ReadRequest) (walHeader : WalHeader) (content : Bytes) :
    Nat → Nat → Option UintN → Option UintN → Sender → Sender × Outcome WalError ReadRangeResult
  | 0, _, lastRead, lastProcessed, target =>
    (target, .ok (rangeResult request false lastRead lastProcessed))
  | fuel + 1, cursor, lastRead, lastProcessed, target =>
    if target.isClosed then (target, .ok .channelClosed)
    else
      let remaining := content.data.drop cursor
      if remaining.isEmpty then (target, .ok (rangeResult request false lastRead lastProcessed))
      else match WalEntryHeader.fromBytes remaining walHeader with
        | .panic => (target, .panic)
        | .err _ => (target, .ok (rangeResult request false lastRead lastProcessed))
        | .ok entry =>
          let lastProcessed := some entry.entryId
          if pastEnd request entry.entryId then
            (target, .ok (rangeResult request true lastRead lastProcessed))
          else
            let cursor := cursor + WalEntryHeader.size walHeader
            match sliceRecord xxh64 content.data cursor entry with
            | .panic => (target, .panic)
            | .err e => (target, .err e)
            | .ok none => (target, .ok (rangeResult request false lastRead lastProcessed))
            | .ok (some record) =>
              match deliver request entry.entryId (content.slice cursor record.length) lastRead target with
              | .panic => (target, .panic)
              | .err e => (target, .err e)
              | .ok (.closed target) => (target, .ok .channelClosed)
              | .ok (.reachedEnd target lastRead) =>
                (target, .ok (rangeResult request true lastRead lastProcessed))
              | .ok (.proceed target lastRead) =>
                walBytesLoop request walHeader content fuel (cursor + record.length) lastRead
                  lastProcessed target

def readWalBytesRange (content : Bytes) (request : ReadRequest) (target : Sender) :
    Sender × Outcome WalError ReadRangeResult :=
  let nothing := ReadRangeResult.partialRead none request.fromId
  if content.data.isEmpty then (target, .ok nothing)
  else match WalHeader.fromBytes content.data with
    | .panic => (target, .panic)
    | .err .sliceTooShort => (target, .ok nothing)
    | .err e => (target, .err (.walHeaderError e))
    | .ok (walHeader, headerSize) =>
      walBytesLoop xxh64 { request with step := max request.step 1 } walHeader content
        (content.length + 1) headerSize none none target

end Walkers

end NormFS
