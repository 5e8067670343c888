import Northstar.Lib.File
import Northstar.Wal.Record

/-!
# Log — the write-ahead log file

`wal/wal.rs`: the appender with its 64 KiB buffer, the scanner that `Wal::open` runs, and the replay
iterator.  The two readers are written separately in the source and are kept apart here.  File
positions and LSNs are counters far below `2^64` and are natural numbers.
-/

namespace Northstar

inductive WalState where
  | closed
  | open
  | recovering
  | error
  deriving Repr, DecidableEq

structure Wal where
  file : File
  currentLsn : Nat
  buffer : Bytes
  bufferPos : Nat
  syncNeeded : Bool
  filePos : Nat
  state : WalState
  deriving Repr, DecidableEq

namespace Wal

open Bytes

def defaultBufferSize : Nat := 64 * 1024

/-- The loop of `Wal::scan_highest_lsn`, from the record at `filePos` on. -/
def scanFrom (crc : Crc) (data : Bytes) (filePos currentLsn : Nat) : Except Error (Nat × Nat) :=
  if _ : filePos < data.length then
    -- an incomplete header at the end stops the scan
    if filePos + headerSize > data.length then .ok (currentLsn, filePos)
    else
      match RecordHeader.fromBytes (window data filePos headerSize) with
      | .error e => .error e
      | .ok header =>
        match header.validate crc with
        | .error e => .error e
        | .ok _ =>
          let payloadLen := header.payloadLen.toNat
          let recordSize := headerSize + payloadLen + trailerSize
          -- so does an incomplete record
          if filePos + recordSize > data.length then .ok (currentLsn, filePos)
          else
            let calculated := checksum crc (window data (filePos + headerSize) payloadLen)
            if calculated ≠ header.payloadCrc32c then
              .error (.validation (.checksumMismatch header.payloadCrc32c calculated))
            else
              match RecordTrailer.fromBytes
                  (window data (filePos + headerSize + payloadLen) trailerSize) with
              | .error e => .error e
              | .ok trailer =>
                match trailer.validate crc (UInt32.ofNat recordSize) with
                | .error e => .error e
                | .ok () => scanFrom crc data (filePos + recordSize) (currentLsn + 1)
  else .ok (currentLsn, filePos)
termination_by data.length - filePos
decreasing_by
  simp only [headerSize, trailerSize]
  omega

def scanHighestLsn (crc : Crc) (data : Bytes) : Except Error (Nat × Nat) := scanFrom crc data 0 0

/-- `WalReplayIterator::read_next_commit`: the record at `filePos` and its size, or `none` where
the log ends. -/
def readNextCommit (crc : Crc) (data : Bytes) (filePos : Nat) :
    Except Error (Option (CommitRecord × Nat)) :=
  if filePos + headerSize > data.length then .ok none
  else
    match RecordHeader.fromBytes (window data filePos headerSize) with
    | .error _ => .ok none
    | .ok header =>
      match header.validate crc with
      | .error _ => .ok none
      | .ok _ =>
        match RecordType.fromU16 header.recordType with
        | some .commit =>
          let payloadLen := header.payloadLen.toNat
          let recordSize := headerSize + payloadLen + trailerSize
          if filePos + recordSize > data.length then .ok none
          else
            let payload := window data (filePos + headerSize) payloadLen
            let calculated := checksum crc payload
            if calculated ≠ header.payloadCrc32c then
              .error (.validation (.checksumMismatch header.payloadCrc32c calculated))
            else
              match RecordTrailer.fromBytes
                  (window data (filePos + headerSize + payloadLen) trailerSize) with
              | .error _ => .ok none
              | .ok trailer =>
                match trailer.validate crc (UInt32.ofNat recordSize) with
                | .error _ => .ok none
                | .ok () =>
                  match CommitRecord.deserializePayload crc header.txnId payload with
                  | .error _ => .ok none
                  | .ok record => .ok (some (record, recordSize))
        -- records of another type end the replay
        | _ => .ok none

structure WalReplayIterator where
  data : Bytes
  filePos : Nat
  currentLsn : Nat
  done : Bool
  deriving Repr, DecidableEq

namespace WalReplayIterator

def new (data : Bytes) : WalReplayIterator where
  data := data
  filePos := 0
  currentLsn := 0
  done := false

/-- `Iterator::next`: the item, if any, and the iterator after it. -/
def next (crc : Crc) (it : WalReplayIterator) :
    Option (Except Error CommitRecord) × WalReplayIterator :=
  if it.done then (none, it)
  else if it.filePos ≥ it.data.length then (none, { it with done := true })
  else
    match readNextCommit crc it.data it.filePos with
    | .ok (some (record, recordSize)) =>
      (some (.ok record),
        { it with currentLsn := it.currentLsn + 1, filePos := it.filePos + recordSize })
    | .ok none => (none, { it with done := true })
    | .error (.validation _) => (none, { it with done := true })
    | .error e => (some (.error e), it)

/-- The items of at most `fuel` calls of `next`, and whether the iterator ended within them. -/
def drain (crc : Crc) : Nat → WalReplayIterator → List (Except Error CommitRecord) × Bool
  | 0, _ => ([], false)
  | fuel + 1, it =>
    match it.next crc with
    | (none, _) => ([], true)
    | (some item, it') =>
      let rest := drain crc fuel it'
      (item :: rest.1, rest.2)

end WalReplayIterator

/-- The items `Wal::replay` yields over a file that holds `data`, and whether it ends: a record
takes more than one byte, so it ends within this many calls. -/
def replay (crc : Crc) (data : Bytes) : List (Except Error CommitRecord) × Bool :=
  (WalReplayIterator.new data).drain crc (data.length + 1)

/-- `Wal::create`: an empty file. -/
def create : Wal where
  file := File.create
  currentLsn := 0
  buffer := List.replicate defaultBufferSize 0
  bufferPos := 0
  syncNeeded := false
  filePos := 0
  state := .open

/-- The log over a file that holds `data`, to be continued at `endPos`. -/
def openedAt (data : Bytes) (currentLsn endPos : Nat) : Wal where
  file := { data, pos := endPos }
  currentLsn := currentLsn
  buffer := List.replicate defaultBufferSize 0
  bufferPos := 0
  syncNeeded := false
  filePos := endPos
  state := .open

/-- `Wal::open` on a file that holds `data`. -/
def openFile (crc : Crc) (data : Bytes) : Except Error Wal := do
  let found ← if data.length = 0 then .ok (0, 0) else scanHighestLsn crc data
  return openedAt data found.1 found.2

def flushBuffer (w : Wal) : Wal :=
  if w.bufferPos = 0 then w
  else
    { w with
      file := w.file.writeAll (w.buffer.take w.bufferPos)
      filePos := w.filePos + w.bufferPos
      bufferPos := 0
      syncNeeded := true }

def sync (w : Wal) : Wal :=
  let w := if w.bufferPos > 0 then w.flushBuffer else w
  { w with syncNeeded := false }

def close (w : Wal) : Wal :=
  if w.state ≠ .open then w
  else
    let w := if w.bufferPos > 0 then w.flushBuffer else w
    { w with state := .closed }

/-- `self.buffer[pos..pos + bytes.len()].copy_from_slice(bytes)` and the move of the position. -/
def putBuffer (w : Wal) (bytes : Bytes) : Except Fault Wal :=
  match writeAt w.buffer w.bufferPos bytes with
  | none => .error .panic
  | some buffer => .ok { w with buffer, bufferPos := w.bufferPos + bytes.length }

def writeRecordToBuffer (crc : Crc) (w : Wal) (header : RecordHeader) (payload : Bytes) :
    Except Fault Wal := do
  let w ← w.putBuffer header.toBytes
  let w ← w.putBuffer payload
  let totalLen := UInt32.ofNat (headerSize + payload.length + trailerSize)
  let w ← w.putBuffer (RecordTrailer.new crc totalLen).toBytes
  return { w with syncNeeded := true }

def writeLargeRecord (crc : Crc) (w : Wal) (header : RecordHeader) (payload : Bytes) : Wal × Nat :=
  let w := w.flushBuffer
  let totalLen := UInt32.ofNat (headerSize + payload.length + trailerSize)
  let file := ((w.file.writeAll header.toBytes).writeAll payload).writeAll
    (RecordTrailer.new crc totalLen).toBytes
  -- the returned LSN is one ahead of `current_lsn`, which stays
  ({ w with
      file
      filePos := w.filePos + (headerSize + payload.length + trailerSize)
      syncNeeded := true },
    w.currentLsn + 1)

def ensureOpen (w : Wal) : Except Fault Unit :=
  if w.state ≠ .open then .error (.err (.storage (.wal "WAL is not open"))) else .ok ()

/-- `Wal::append_commit_record`: the log and the LSN it returns. -/
def appendCommitRecord (crc : Crc) (w : Wal) (record : CommitRecord) : Except Fault (Wal × Nat) := do
  w.ensureOpen
  match record.serializePayload with
  | none => .error .panic
  | some payload =>
    let header := commitHeader crc record.txnId (UInt64.ofNat w.currentLsn) payload
    let totalSize := headerSize + header.payloadLen.toNat + trailerSize
    let overflows := w.bufferPos + totalSize > w.buffer.length
    let w := if overflows then w.flushBuffer else w
    if overflows ∧ totalSize > w.buffer.length then
      .ok (w.writeLargeRecord crc header payload)
    else do
      let w ← w.writeRecordToBuffer crc header payload
      let w := { w with currentLsn := w.currentLsn + 1 }
      return (w, w.currentLsn)

end Wal

end Northstar
