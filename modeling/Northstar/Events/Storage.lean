import Mathlib.Data.List.AList
import Northstar.Lib.Reader

/-!
# Storage — the event store

`src/events/storage.zig`, with the event header of `types.zig`.  Events are appended to one file, an index
of them is kept in memory and saved to a second file on close.  The structs of a record are copied as they
lie in memory: fields with the larger alignment first, the padding zero.  An index out of bounds, an integer
overflow, a value that `@intCast` or `@enumFromInt` does not take is a panic in a safe build; here they are
the error `panic`.
-/

namespace Northstar.Events

open Bytes

inductive StoreError where
  | panic
  | payloadTooLarge
  | corruptEvent
  | corruptIndex
  | endOfStream
  deriving Repr, DecidableEq

inductive EventType where
  | agentSessionStarted
  | agentSessionEnded
  | agentOperation
  | reviewNote
  | reviewSummary
  | perfSample
  | perfRegression
  | debugSession
  | debugSnapshot
  | vcsCommit
  | vcsBranch
  deriving Repr, DecidableEq

namespace EventType

def toInt : EventType → UInt16
  | agentSessionStarted => 0x1000
  | agentSessionEnded => 0x1001
  | agentOperation => 0x1002
  | reviewNote => 0x2000
  | reviewSummary => 0x2001
  | perfSample => 0x3000
  | perfRegression => 0x3001
  | debugSession => 0x4000
  | debugSnapshot => 0x4001
  | vcsCommit => 0x5000
  | vcsBranch => 0x5001

/-- `@enumFromInt`. -/
def ofInt (v : UInt16) : Except StoreError EventType :=
  if v = 0x1000 then .ok agentSessionStarted
  else if v = 0x1001 then .ok agentSessionEnded
  else if v = 0x1002 then .ok agentOperation
  else if v = 0x2000 then .ok reviewNote
  else if v = 0x2001 then .ok reviewSummary
  else if v = 0x3000 then .ok perfSample
  else if v = 0x3001 then .ok perfRegression
  else if v = 0x4000 then .ok debugSession
  else if v = 0x4001 then .ok debugSnapshot
  else if v = 0x5000 then .ok vcsCommit
  else if v = 0x5001 then .ok vcsBranch
  else .error .panic

end EventType

/-- `private`, `team` and `public`. -/
inductive EventVisibility where
  | privateEvent
  | team
  | publicEvent
  deriving Repr, DecidableEq

namespace EventVisibility

def toInt : EventVisibility → UInt8
  | privateEvent => 0
  | team => 1
  | publicEvent => 2

def ofInt (v : UInt8) : Except StoreError EventVisibility :=
  if v = 0 then .ok privateEvent
  else if v = 1 then .ok team
  else if v = 2 then .ok publicEvent
  else .error .panic

end EventVisibility

structure EventHeader where
  eventId : Nat
  eventType : EventType
  timestamp : Int64
  actorId : UInt64
  sessionId : Option UInt64
  visibility : EventVisibility
  payloadLen : Nat
  deriving Repr, DecidableEq

def maxEventPayloadSize : Nat := 1024 * 1024

def EventHeader.validate (self : EventHeader) : Except StoreError Unit :=
  if self.payloadLen > maxEventPayloadSize then .error .payloadTooLarge else .ok ()

structure EventResult where
  header : EventHeader
  payload : Bytes
  deriving Repr, DecidableEq

structure EventRecordHeader where
  eventId : Nat
  eventType : UInt16
  timestamp : Int64
  actorId : UInt64
  payloadLen : Nat
  deriving Repr, DecidableEq

def eventHeaderSize : Nat := 32
def eventTrailerSize : Nat := 8
def eventMagic : UInt32 := 0x564E5452

def EventRecordHeader.bytes (header : EventRecordHeader) : Bytes :=
  le 8 header.eventId ++ (u64 header.timestamp.toUInt64 ++ (u64 header.actorId ++
    (le 4 header.payloadLen ++ (u16 header.eventType ++ [0, 0]))))

def trailerBytes (totalLen : Nat) : Bytes := u32 eventMagic ++ le 4 totalLen

def headerEventId (header : Bytes) : Nat := toNat (window header 0 8)
def headerPayloadLen (header : Bytes) : Nat := toNat (window header 24 4)
def trailerMagic (trailer : Bytes) : UInt32 := readU32 (window trailer 0 4)

structure EventIndexEntry where
  fileOffset : Nat
  eventType : EventType
  timestamp : Int64
  actorId : UInt64
  sessionId : Option UInt64
  visibility : EventVisibility
  deriving Repr, DecidableEq

/-- The hash map of the index; the order of its entries is that of no iterator and matters nowhere. -/
abbrev EventIndex := AList fun _ : Nat => EventIndexEntry

structure EventStore where
  eventsFile : Bytes
  indexFile : Bytes
  nextEventId : Nat
  index : EventIndex
  maxPayloadSize : UInt32
  deriving DecidableEq

namespace EventStore

/-- `appendEvent`.  The id is taken before the event is validated, and the length of the record is cast when
header and payload have been written. -/
def appendEvent (self : EventStore) (event : EventHeader) (payload : Bytes) :
    Except StoreError Nat × EventStore :=
  if payload.length > self.maxPayloadSize.toNat then (.error .payloadTooLarge, self)
  else if 2 ^ 64 ≤ self.nextEventId + 1 then (.error .panic, self)
  else
    let eventId := self.nextEventId
    let self := { self with nextEventId := self.nextEventId + 1 }
    let event := { event with eventId := eventId }
    match event.validate with
    | .error err => (.error err, self)
    | .ok () =>
      let recordSize := eventHeaderSize + payload.length + eventTrailerSize
      let fileOffset := self.eventsFile.length
      let header : EventRecordHeader :=
        { eventId, eventType := event.eventType.toInt, timestamp := event.timestamp,
          actorId := event.actorId, payloadLen := payload.length }
      let eventsFile := self.eventsFile ++ header.bytes ++ payload
      if 2 ^ 32 ≤ recordSize then (.error .panic, { self with eventsFile })
      else
        let entry : EventIndexEntry :=
          { fileOffset, eventType := event.eventType, timestamp := event.timestamp,
            actorId := event.actorId, sessionId := event.sessionId, visibility := event.visibility }
        (.ok eventId, { self with
          eventsFile := eventsFile ++ trailerBytes recordSize
          index := self.index.insert eventId entry })

def readEventPayload (self : EventStore) (fileOffset : Nat) : Except StoreError Bytes :=
  let header := window self.eventsFile fileOffset eventHeaderSize
  if header.length < eventHeaderSize then .error .corruptEvent
  else
    let payloadLen := headerPayloadLen header
    if payloadLen > self.maxPayloadSize.toNat then .error .payloadTooLarge
    else
      let payload := window self.eventsFile (fileOffset + eventHeaderSize) payloadLen
      if payload.length < payloadLen then .error .corruptEvent
      else
        let trailer := window self.eventsFile (fileOffset + eventHeaderSize + payloadLen) eventTrailerSize
        if trailer.length < eventTrailerSize then .error .corruptEvent
        else if trailerMagic trailer ≠ eventMagic then .error .corruptEvent
        else .ok payload

def getEvent (self : EventStore) (eventId : Nat) : Except StoreError (Option EventResult) :=
  match self.index.lookup eventId with
  | none => .ok none
  | some entry => do
    let payload ← self.readEventPayload entry.fileOffset
    return some
      { header :=
          { eventId, eventType := entry.eventType, timestamp := entry.timestamp,
            actorId := entry.actorId, sessionId := entry.sessionId, visibility := entry.visibility,
            payloadLen := payload.length }
        payload }

/-- The loop of `scanHighestEventId`.  A turn passes 40 bytes at least, so the length of the file is fuel
enough. -/
def scanFrom (file : Bytes) : Nat → Nat → Nat → Except StoreError Nat
  | 0, _, maxId => .ok maxId
  | fuel + 1, filePos, maxId =>
    if filePos < file.length then
      let header := window file filePos eventHeaderSize
      if header.length < eventHeaderSize then .ok maxId
      else
        let payloadLen := headerPayloadLen header
        let trailer := window file (filePos + eventHeaderSize + payloadLen) eventTrailerSize
        if trailer.length ≥ eventTrailerSize ∧ trailerMagic trailer = eventMagic then
          let maxId := if headerEventId header > maxId then headerEventId header else maxId
          let step := eventHeaderSize + payloadLen + eventTrailerSize
          -- the sum is a `u32`
          if 2 ^ 32 ≤ step then .error .panic else scanFrom file fuel (filePos + step) maxId
        else .ok maxId
    else .ok maxId

def scanHighestEventId (file : Bytes) : Except StoreError Nat := do
  let maxId ← scanFrom file file.length 0 0
  if 2 ^ 64 ≤ maxId + 1 then throw .panic
  return maxId + 1

def indexEntrySize : Nat := 43

def loadEntry : Reader StoreError (Nat × EventIndexEntry) := do
  let eventId ← Reader.readU64 .endOfStream
  let fileOffset ← Reader.readU64 .endOfStream
  let eventType ← Reader.readU16 .endOfStream
  let timestamp ← Reader.readU64 .endOfStream
  let actorId ← Reader.readU64 .endOfStream
  let sessionIdRaw ← Reader.readU64 .endOfStream
  let visibility ← Reader.readU8 .endOfStream
  let sessionId := if sessionIdRaw = 0 then none else some sessionIdRaw
  let eventType ← Reader.lift (EventType.ofInt eventType)
  let visibility ← Reader.lift (EventVisibility.ofInt visibility)
  return (eventId.toNat,
    { fileOffset := fileOffset.toNat, eventType, timestamp := timestamp.toInt64, actorId, sessionId,
      visibility })

def loadIndex (file : Bytes) : Except StoreError EventIndex :=
  if file.length = 0 then .ok ∅
  else if file.length % indexEntrySize ≠ 0 then .error .corruptIndex
  else do
    let entries ← Reader.readAll loadEntry file.length file
    return entries.foldl (fun index e => index.insert e.1 e.2) ∅

/-- A write into `entry_buf`, which has room for 31 bytes. -/
def putField (buf : Bytes) (offset : Nat) (field : Bytes) : Except StoreError Bytes :=
  match writeAt buf offset field with
  | some buf => .ok buf
  | none => .error .panic

def entryBuf (eventId : Nat) (entry : EventIndexEntry) : Except StoreError Bytes := do
  let sessionIdRaw := entry.sessionId.getD 0
  let buf := List.replicate 31 0
  let buf ← putField buf 0 (le 8 eventId)
  let buf ← putField buf 8 (le 8 entry.fileOffset)
  let buf ← putField buf 16 (u16 entry.eventType.toInt)
  let buf ← putField buf 18 (u64 entry.timestamp.toUInt64)
  let buf ← putField buf 26 (u64 entry.actorId)
  let buf ← putField buf 34 (u64 sessionIdRaw)
  putField buf 42 [entry.visibility.toInt]

/-- The entries are written one by one: a panic leaves those before it in the file. -/
def saveEntries : List (Σ _ : Nat, EventIndexEntry) → Bytes → Except StoreError Unit × Bytes
  | [], file => (.ok (), file)
  | ⟨eventId, entry⟩ :: entries, file =>
    match entryBuf eventId entry with
    | .error err => (.error err, file)
    | .ok buf => saveEntries entries (file ++ buf)

/-- `saveIndex`, with the index file it leaves. -/
def saveIndex (self : EventStore) : Except StoreError Unit × Bytes := saveEntries self.index.entries []

/-- The index file after `deinit`, whether it returned or panicked. -/
def deinit (self : EventStore) : Bytes := self.saveIndex.2

/-- The next id of a store that is opened on the events file. -/
def firstId (eventsFile : Bytes) : Except StoreError Nat :=
  if eventsFile.length > 0 then scanHighestEventId eventsFile else .ok 0

def openFiles (eventsFile indexFile : Bytes) (maxPayloadSize : UInt32) : Except StoreError EventStore := do
  let index ← loadIndex indexFile
  let nextEventId ← firstId eventsFile
  return { eventsFile, indexFile, nextEventId, index, maxPayloadSize }

end EventStore

end Northstar.Events
