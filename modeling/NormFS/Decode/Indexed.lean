import NormFS.Store.Header
import NormFS.Wal.Content

/-! The decoders with every index and every addition of the code written out: a slice that is not
inside its buffer and a sum that is no machine word are panics, and so is a walk that does not end.
Each of them is the decoder the other modules use, in which only the sums can panic. -/
namespace NormFS.Indexed

open LittleEndian Framing

variable {ε : Type}

/-- `u64::from_le_bytes(data[start..stop].try_into().unwrap())`. -/
def u64At (data : List UInt8) (start stop : Nat) : Outcome ε Nat := do
  let bytes ← slice data start stop
  if bytes.length = 8 then .ok (decode bytes) else .panic

def readValueFromSlice (data : List UInt8) (size : Nat) : Outcome UintNError UintN :=
  if data.length < size then .err .sliceTooShort
  else match size with
    | 1 => do
      let first ← slice data 0 1
      .ok (.u8 (BitVec.ofNat 8 (decode first)))
    | size => Outcome.ofExcept (UintN.readValueFromSlice data size)

def readFromSlice (data : List UInt8) : Outcome UintNError (UintN × Nat) :=
  if data.length < 8 then .err .sliceTooShort
  else do
    let len ← u64At data 0 8
    let bytesRead ← Outcome.addUsize 8 len
    if data.length < bytesRead then .err .sliceTooShort
    else do
      let valueSlice ← slice data 8 bytesRead
      let value ← readValueFromSlice valueSlice len
      pure (value, bytesRead)

def walHeaderFromBytes (data : List UInt8) : Outcome WalHeaderError (WalHeader × Nat) :=
  if data.length < walHeaderFixedSize then .err .sliceTooShort
  else do
    let version ← u64At data 0 8
    if version ≠ 0 then .err (.unsupportedVersion version)
    else do
      let dataSizeBytes ← u64At data 8 16
      let idSizeBytes ← u64At data 16 24
      let rest ← slice data walHeaderFixedSize data.length
      let (numEntriesBefore, bytesRead) ← (readFromSlice rest).mapErr WalHeaderError.uintN
      let size ← Outcome.addUsize walHeaderFixedSize bytesRead
      pure (⟨dataSizeBytes, idSizeBytes, numEntriesBefore⟩, size)

def walEntryHeaderFromBytes (data : List UInt8) (walHeader : WalHeader) :
    Outcome WalEntryError WalEntryHeader := do
  let idSize := walHeader.idSizeBytes
  let dataSize := walHeader.dataSizeBytes
  let expected ← WalEntryHeader.expectedSize walHeader
  if data.length < expected then .err .sliceTooShort
  else do
    let version ← u64At data 0 8
    if version ≠ 0 then .err (.unsupportedVersion version)
    else do
      let idStop ← Outcome.addUsize 8 idSize
      let entryIdSlice ← slice data 8 idStop
      let entryId ← (readValueFromSlice entryIdSlice idSize).mapErr WalEntryError.uintN
      let sizeStop ← Outcome.addUsize idStop dataSize
      let recordSizeSlice ← slice data idStop sizeStop
      let recordSize ← (readValueFromSlice recordSizeSlice dataSize).mapErr WalEntryError.uintN
      let xxhash ← u64At data sizeStop expected
      pure ⟨entryId, recordSize, BitVec.ofNat 64 xxhash⟩

def fileAuthenticationFromBytes (data : List UInt8) : Outcome StoreHeaderError (FileAuthentication × Nat) :=
  if data.length < FileAuthentication.size then .err .sliceTooShort
  else do
    let version ← u64At data 0 8
    if version ≠ 0 then .err (.unsupportedVersion version)
    else do
      let headerSignatureType ← u64At data 8 16
      if headerSignatureType ≠ 0 then .err (.unsupportedSignature headerSignatureType)
      else do
        let headerSignature ← slice data 16 80
        let contentSignatureType ← u64At data 80 88
        if contentSignatureType ≠ 0 then .err (.unsupportedSignature contentSignatureType)
        else do
          let contentSignature ← slice data 88 152
          if lengths : headerSignature.length = 64 ∧ contentSignature.length = 64 then
            pure (⟨headerSignature, contentSignature, lengths.1, lengths.2⟩, FileAuthentication.size)
          else .panic

def storeHeaderFromBytes (data : List UInt8) : Outcome StoreHeaderError (StoreHeader × Nat) :=
  if data.length < 24 then .err .sliceTooShort
  else do
    let version ← u64At data 0 8
    if version ≠ 0 then .err (.unsupportedVersion version)
    else do
      let compressionVal ← u64At data 8 16
      let compression ← Outcome.ofExcept (compressionTypeFromU64 compressionVal)
      let encryptionVal ← u64At data 16 24
      let encryption ← Outcome.ofExcept (encryptionTypeFromU64 encryptionVal)
      let before ← slice data 24 data.length
      let (numEntriesBefore, bytesReadBefore) ← (readFromSlice before).mapErr StoreHeaderError.uintN
      let offset ← Outcome.addUsize 24 bytesReadBefore
      let after ← slice data offset data.length
      let (numEntries, bytesReadAfter) ← (readFromSlice after).mapErr StoreHeaderError.uintN
      let size ← Outcome.addUsize offset bytesReadAfter
      pure (⟨compression, encryption, numEntriesBefore, numEntries⟩, size)

section Walks

variable (xxh64 : Hash)

/- The record of an entry whose header ends at the cursor, and the cursor after it. -/
def recordAt (content : List UInt8) (cursor : Nat) (entry : WalEntryHeader) :
    Outcome ε (Option (List UInt8 × Nat)) :=
  match entry.recordSize.toU64 with
  | .error _ => .ok none
  | .ok recordSize => do
    let stop ← Outcome.addUsize cursor recordSize.toNat
    if content.length < stop then .ok none
    else do
      let record ← slice content cursor stop
      if xxh64 record ≠ entry.xxhash then .ok none else .ok (some (record, stop))

def walContentLoop (walHeader : WalHeader) (content : List UInt8) :
    Nat → Nat → Nat → Outcome WalError Nat
  | 0, _, _ => .panic
  | fuel + 1, cursor, numEntries => do
    let remaining ← slice content cursor content.length
    if remaining.isEmpty then .ok numEntries
    else match walEntryHeaderFromBytes remaining walHeader with
      | .panic => .panic
      | .err _ => .ok numEntries
      | .ok entry => do
        let entryHeaderSize ← WalEntryHeader.expectedSize walHeader
        let cursor ← Outcome.addUsize cursor entryHeaderSize
        match ← recordAt xxh64 content cursor entry with
        | none => .ok numEntries
        | some (_, cursor) => do
          let numEntries ← Outcome.addUsize numEntries 1
          walContentLoop walHeader content fuel cursor numEntries

def getWalContent (file : Option Bytes) : Outcome WalError WalContent :=
  match file with
  | none => .err .walNotFound
  | some content =>
    if content.data.isEmpty then .err (.walEntryError .sliceTooShort)
    else do
      let (walHeader, headerSize) ← (walHeaderFromBytes content.data).mapErr .walHeaderError
      let numEntries ← walContentLoop xxh64 walHeader content.data (content.length + 1) headerSize 0
      pure ⟨walHeader.numEntriesBefore, .ofU64 (BitVec.ofNat 64 numEntries), content⟩

def walBytesLoop (request : ReadRequest) (walHeader : WalHeader) (content : Bytes) :
    Nat → Nat → Option UintN → Option UintN → Sender → Sender × Outcome WalError ReadRangeResult
  | 0, _, _, _, target => (target, .panic)
  | fuel + 1, cursor, lastRead, lastProcessed, target =>
    if target.isClosed then (target, .ok .channelClosed)
    else match (slice content.data cursor content.length : Outcome WalError _) with
      | .panic => (target, .panic)
      | .err e => (target, .err e)
      | .ok remaining =>
        if remaining.isEmpty then (target, .ok (rangeResult request false lastRead lastProcessed))
        else match walEntryHeaderFromBytes remaining walHeader with
          | .panic => (target, .panic)
          | .err _ => (target, .ok (rangeResult request false lastRead lastProcessed))
          | .ok entry =>
            let lastProcessed := some entry.entryId
            if pastEnd request entry.entryId then
              (target, .ok (rangeResult request true lastRead lastProcessed))
            else match (do
                let entryHeaderSize ← WalEntryHeader.expectedSize walHeader
                let cursor ← Outcome.addUsize cursor entryHeaderSize
                let record ← recordAt xxh64 content.data cursor entry
                pure (cursor, record) : Outcome WalError _) with
              | .panic => (target, .panic)
              | .err e => (target, .err e)
              | .ok (_, none) => (target, .ok (rangeResult request false lastRead lastProcessed))
              | .ok (start, some (record, stop)) =>
                match deliver request entry.entryId (content.slice start record.length) lastRead target with
                | .panic => (target, .panic)
                | .err e => (target, .err e)
                | .ok (.closed target) => (target, .ok .channelClosed)
                | .ok (.reachedEnd target lastRead) =>
                  (target, .ok (rangeResult request true lastRead lastProcessed))
                | .ok (.proceed target lastRead) =>
                  walBytesLoop request walHeader content fuel stop lastRead lastProcessed target

def readWalBytesRange (content : Bytes) (request : ReadRequest) (target : Sender) :
    Sender × Outcome WalError ReadRangeResult :=
  let nothing := ReadRangeResult.partialRead none request.fromId
  if content.data.isEmpty then (target, .ok nothing)
  else match walHeaderFromBytes content.data with
    | .panic => (target, .panic)
    | .err .sliceTooShort => (target, .ok nothing)
    | .err e => (target, .err (.walHeaderError e))
    | .ok (walHeader, headerSize) =>
      walBytesLoop xxh64 { request with step := max request.step 1 } walHeader content
        (content.length + 1) headerSize none none target

end Walks

variable {data : List UInt8}

theorem u64At_ok {start stop : Nat} (width : start + 8 = stop) (inside : stop ≤ data.length) :
    (u64At data start stop : Outcome ε Nat) = .ok (decode ((data.drop start).take 8)) := by
  have length : ((data.drop start).take 8).length = 8 := by
    rw [List.length_take, List.length_drop]
    omega
  have eight : stop - start = 8 := by omega
  rw [u64At, slice_ok (by omega) inside, eight, Outcome.ok_bind, if_pos length]

theorem u64At_word {start stop : Nat} (width : start + 8 = stop)
    (inside : stop ≤ data.length) : (u64At data start stop : Outcome ε Nat) = .ok (wordAt data start) :=
  u64At_ok width inside

theorem readValueFromSlice_eq (data : List UInt8) (size : Nat) :
    readValueFromSlice data size = Outcome.ofExcept (UintN.readValueFromSlice data size) := by
  unfold readValueFromSlice
  split
  · rename_i short
    unfold UintN.readValueFromSlice
    rw [if_pos short, Outcome.ofExcept_error]
  · rename_i long
    split
    · rw [slice_ok (by omega) (by omega), Outcome.ok_bind, UintN.readValueFromSlice, if_neg long]
      rfl
    · rfl

theorem readFromSlice_eq (data : List UInt8) : readFromSlice data = UintN.readFromSlice data := by
  unfold readFromSlice UintN.readFromSlice
  split
  · rfl
  · rename_i long
    rw [u64At_ok rfl (by omega), Outcome.ok_bind, List.drop_zero]
    apply Outcome.bind_congr
    intro bytesRead added
    obtain ⟨-, rfl⟩ := Outcome.addUsize_eq_ok.mp added
    split
    · rfl
    · rw [slice_ok (by omega) (by omega), Outcome.ok_bind, readValueFromSlice_eq, Nat.add_sub_cancel_left]

theorem readFromSlice_inside {v : UintN} {bytesRead : Nat}
    (read : UintN.readFromSlice data = .ok (v, bytesRead)) : bytesRead ≤ data.length := by
  obtain ⟨bytes, rest, rfl, -, rfl, -⟩ := UintN.readFromSlice_inv read
  rw [List.length_append, UintN.length_lengthPrefixed]
  omega

theorem walHeaderFromBytes_eq (small : data.length < 2 ^ 63) :
    walHeaderFromBytes data = WalHeader.fromBytes data := by
  unfold walHeaderFromBytes WalHeader.fromBytes
  split
  · rfl
  · rename_i long
    rw [walHeaderFixedSize] at long
    rw [u64At_ok rfl (by omega), Outcome.ok_bind, List.drop_zero]
    dsimp only
    split
    · rfl
    · rw [u64At_ok rfl (by omega), Outcome.ok_bind, u64At_ok rfl (by omega), Outcome.ok_bind,
        slice_rest (by rw [walHeaderFixedSize]; omega), Outcome.ok_bind, readFromSlice_eq]
      apply Outcome.bind_congr
      rintro ⟨v, bytesRead⟩ read
      have inside := readFromSlice_inside (Outcome.mapErr_eq_ok.mp read)
      rw [List.length_drop, walHeaderFixedSize] at inside
      dsimp only
      rw [Outcome.addUsize_ok (by rw [walHeaderFixedSize]; omega), Outcome.ok_bind]

theorem walEntryHeaderFromBytes_eq (data : List UInt8) (walHeader : WalHeader) :
    walEntryHeaderFromBytes data walHeader = WalEntryHeader.fromBytes data walHeader := by
  unfold walEntryHeaderFromBytes WalEntryHeader.fromBytes
  apply Outcome.bind_congr
  intro expected sized
  obtain ⟨rfl, word⟩ := expectedSize_eq_ok sized
  split
  · rfl
  · rename_i long
    rw [WalEntryHeader.size, walEntryHeaderFixedOverhead] at long word
    rw [u64At_ok rfl (by omega), Outcome.ok_bind, List.drop_zero]
    dsimp only
    split
    · rfl
    · rw [Outcome.addUsize_ok (by omega), Outcome.ok_bind, slice_ok (by omega) (by omega), Outcome.ok_bind,
        Nat.add_sub_cancel_left, readValueFromSlice_eq]
      apply Outcome.bind_congr
      intro entryId _
      rw [Outcome.addUsize_ok (by omega), Outcome.ok_bind, slice_ok (by omega) (by omega), Outcome.ok_bind,
        Nat.add_sub_cancel_left, readValueFromSlice_eq]
      apply Outcome.bind_congr
      intro recordSize _
      rw [u64At_ok (by rw [WalEntryHeader.size, walEntryHeaderFixedOverhead]; omega)
        (by rw [WalEntryHeader.size, walEntryHeaderFixedOverhead]; omega), Outcome.ok_bind]

theorem fileAuthenticationFromBytes_eq (data : List UInt8) :
    fileAuthenticationFromBytes data = Outcome.ofExcept (FileAuthentication.fromBytes data) := by
  unfold fileAuthenticationFromBytes FileAuthentication.fromBytes
  by_cases short : data.length < FileAuthentication.size
  · rw [if_pos short, dif_pos short, Outcome.ofExcept_error]
  · have long : 152 ≤ data.length := Nat.le_of_not_lt short
    have lengths : ((data.drop 16).take (80 - 16)).length = 64 ∧
        ((data.drop 88).take (152 - 88)).length = 64 := by
      simp only [List.length_take, List.length_drop]
      omega
    rw [if_neg short, dif_neg short, u64At_word rfl (by omega), Outcome.ok_bind]
    split
    · rfl
    · rw [u64At_word rfl (by omega), Outcome.ok_bind]
      split
      · rfl
      · rw [slice_ok (by omega) (by omega), Outcome.ok_bind, u64At_word rfl (by omega), Outcome.ok_bind]
        split
        · rfl
        · rw [slice_ok (by omega) long, Outcome.ok_bind, dif_pos lengths]
          rfl

theorem storeHeaderFromBytes_eq (small : data.length < 2 ^ 63) :
    storeHeaderFromBytes data = StoreHeader.fromBytes data := by
  unfold storeHeaderFromBytes StoreHeader.fromBytes StoreHeader.fixedSize
  split
  · rfl
  · rw [u64At_word rfl (by omega), Outcome.ok_bind]
    split
    · rfl
    · rw [u64At_word rfl (by omega), Outcome.ok_bind]
      apply Outcome.bind_congr
      intro compression _
      rw [u64At_word rfl (by omega), Outcome.ok_bind]
      apply Outcome.bind_congr
      intro encryption _
      rw [slice_rest (by omega), Outcome.ok_bind, readFromSlice_eq]
      apply Outcome.bind_congr
      rintro ⟨before, bytesReadBefore⟩ read
      have inside := readFromSlice_inside (Outcome.mapErr_eq_ok.mp read)
      rw [List.length_drop] at inside
      dsimp only
      rw [Outcome.addUsize_ok (by omega), Outcome.ok_bind, slice_rest (by omega), Outcome.ok_bind, readFromSlice_eq]
      apply Outcome.bind_congr
      rintro ⟨count, bytesReadAfter⟩ read
      have inside' := readFromSlice_inside (Outcome.mapErr_eq_ok.mp read)
      rw [List.length_drop] at inside'
      dsimp only
      rw [Outcome.addUsize_ok (by omega), Outcome.ok_bind]

section Walks

variable (xxh64 : Hash)

variable {content : List UInt8} {cursor : Nat}

theorem recordAt_eq (inside : cursor ≤ content.length)
    (entry : WalEntryHeader) :
    (recordAt xxh64 content cursor entry : Outcome ε _) =
      (sliceRecord xxh64 content cursor entry >>= fun found =>
        .ok (found.map (fun record => (record, cursor + record.length)))) := by
  unfold recordAt sliceRecord
  cases entry.recordSize.toU64 with
  | error e => rfl
  | ok recordSize =>
    dsimp only
    by_cases word : cursor + recordSize.toNat < 2 ^ 64
    · rw [Outcome.addUsize_ok word, Outcome.ok_bind, Outcome.ok_bind]
      split
      · rfl
      · have length : ((content.drop cursor).take recordSize.toNat).length = recordSize.toNat := by
          rw [List.length_take, List.length_drop]
          omega
        rw [slice_ok (by omega) (by omega), Outcome.ok_bind, Nat.add_sub_cancel_left]
        split
        · rfl
        · rw [Outcome.ok_bind, Option.map_some, length]
    · rw [Outcome.addUsize, if_neg word]
      rfl

theorem sliceRecord_inside {record : List UInt8} {entry : WalEntryHeader}
    (inside : cursor ≤ content.length)
    (found : (sliceRecord xxh64 content cursor entry : Outcome ε _) = .ok (some record)) :
    cursor + record.length ≤ content.length := by
  unfold sliceRecord at found
  split at found
  · cases found
  · obtain ⟨stop, -, rest⟩ := Outcome.bind_eq_ok.mp found
    split at rest
    · cases rest
    · dsimp only at rest
      split at rest
      · cases rest
      · cases rest
        rw [List.length_take, List.length_drop]
        omega

/- The cursor stays inside the buffer and the rounds that are left suffice. -/
theorem walContentLoop_eq {walHeader : WalHeader} (small : content.length < 2 ^ 63)
    {fuel : Nat} (inside : cursor ≤ content.length) (enough : content.length < cursor + fuel)
    {numEntries : Nat} (word : numEntries + fuel < 2 ^ 64) :
    walContentLoop xxh64 walHeader content fuel cursor numEntries =
      NormFS.walContentLoop xxh64 walHeader content fuel cursor numEntries := by
  induction fuel generalizing cursor numEntries with
  | zero => omega
  | succ fuel ih =>
    rw [walContentLoop, NormFS.walContentLoop, slice_rest inside, Outcome.ok_bind]
    split
    · rfl
    · rw [walEntryHeaderFromBytes_eq]
      cases decoded : WalEntryHeader.fromBytes (content.drop cursor) walHeader with
      | panic => rfl
      | err e => rfl
      | ok entry =>
        have room := fromBytes_room decoded
        have positive := WalEntryHeader.size_pos walHeader
        rw [List.length_drop] at room
        dsimp only
        rw [expectedSize_ok (by omega), Outcome.ok_bind, Outcome.addUsize_ok (by omega), Outcome.ok_bind,
          recordAt_eq xxh64 (by omega)]
        cases found : (sliceRecord xxh64 content (cursor + WalEntryHeader.size walHeader) entry :
            Outcome WalError _) with
        | panic => rfl
        | err e => rfl
        | ok answer =>
          cases answer with
          | none => rfl
          | some record =>
            have stays := sliceRecord_inside xxh64 (by omega) found
            simp only [Outcome.ok_bind, Option.map_some, Outcome.addUsize_ok (show numEntries + 1 < 2 ^ 64 by omega)]
            exact ih stays (by omega) (by omega)

theorem getWalContent_eq (file : Option Bytes) :
    getWalContent xxh64 file = NormFS.getWalContent xxh64 file := by
  cases file with
  | none => rfl
  | some content =>
    unfold getWalContent NormFS.getWalContent
    dsimp only
    split
    · rfl
    · rw [walHeaderFromBytes_eq content.addressable]
      apply Outcome.bind_congr
      rintro ⟨walHeader, headerSize⟩ decoded
      have small := content.addressable
      have inside := WalHeader.fromBytes_inside (Outcome.mapErr_eq_ok.mp decoded)
      dsimp only
      rw [walContentLoop_eq xxh64 small inside (by rw [Bytes.length]; omega) (by rw [Bytes.length]; omega)]

theorem walBytesLoop_eq {request : ReadRequest} {walHeader : WalHeader} {content : Bytes}
    {fuel : Nat} (inside : cursor ≤ content.length) (enough : content.length < cursor + fuel)
    (lastRead lastProcessed : Option UintN) (target : Sender) :
    walBytesLoop xxh64 request walHeader content fuel cursor lastRead lastProcessed target =
      NormFS.walBytesLoop xxh64 request walHeader content fuel cursor lastRead lastProcessed target := by
  have small := content.addressable
  rw [Bytes.length] at inside enough
  induction fuel generalizing cursor lastRead lastProcessed target with
  | zero => omega
  | succ fuel ih =>
    rw [walBytesLoop, NormFS.walBytesLoop, Bytes.length, slice_rest inside]
    split
    · rfl
    · dsimp only
      split
      · rfl
      · rw [walEntryHeaderFromBytes_eq]
        cases decoded : WalEntryHeader.fromBytes (content.data.drop cursor) walHeader with
        | panic => rfl
        | err e => rfl
        | ok entry =>
          have room := fromBytes_room decoded
          have positive := WalEntryHeader.size_pos walHeader
          rw [List.length_drop] at room
          dsimp only
          split
          · rfl
          · rw [expectedSize_ok (by omega), Outcome.ok_bind, Outcome.addUsize_ok (by omega), Outcome.ok_bind,
              recordAt_eq xxh64 (by omega)]
            cases found : (sliceRecord xxh64 content.data (cursor + WalEntryHeader.size walHeader) entry :
                Outcome WalError _) with
            | panic => rfl
            | err e => rfl
            | ok answer =>
              cases answer with
              | none => rfl
              | some record =>
                have stays := sliceRecord_inside xxh64 (by omega) found
                simp only [Outcome.ok_bind, Option.map_some, Outcome.pure_eq_ok]
                generalize deliver request entry.entryId _ lastRead target = delivered
                rcases delivered with (⟨target, lastRead⟩ | _ | _) | _ | _
                · exact ih stays (show _ < _ + fuel by omega) lastRead _ target
                all_goals rfl

theorem readWalBytesRange_eq (content : Bytes) (request : ReadRequest) (target : Sender) :
    readWalBytesRange xxh64 content request target = NormFS.readWalBytesRange xxh64 content request target := by
  unfold readWalBytesRange NormFS.readWalBytesRange
  dsimp only
  split
  · rfl
  · rw [walHeaderFromBytes_eq content.addressable]
    cases decoded : WalHeader.fromBytes content.data with
    | panic => rfl
    | err e => cases e <;> rfl
    | ok read =>
      obtain ⟨walHeader, headerSize⟩ := read
      have inside := WalHeader.fromBytes_inside decoded
      exact walBytesLoop_eq xxh64 inside (by omega) none none target

end Walks

end NormFS.Indexed
