import Northstar.Zig.Txn
import Northstar.Lib.File

/-!
# Wal — the write-ahead log

`wal.zig`.  Records are framed by a header of 40 and a trailer of 12 bytes.  They collect in a buffer
of 64 KiB, which is written at `file_pos`; a record that is larger than the buffer is written directly.
The log sequence number of a record is its place in the file, counted from 1.  Reads and writes of the
file succeed.  `sync` changes nothing that can be read back.
-/

namespace Northstar.Zig

open Bytes

structure RecordHeader where
  magic : UInt32 := 0x4C4F4752
  recordVersion : UInt16 := 0
  recordType : UInt16
  headerLen : UInt16 := 40
  flags : UInt16
  txnId : UInt64
  prevLsn : UInt64
  payloadLen : UInt32
  headerCrc32c : UInt32
  payloadCrc32c : UInt32
  deriving Repr, DecidableEq

namespace RecordHeader

/-- `@sizeOf`: the fields take 40 bytes, and no padding. -/
def size : Nat := 40

/-- The fields in the order in which they are written, each with the step of the offset after it. -/
def fields (h : RecordHeader) (headerCrc : UInt32) : List (Bytes × Nat) :=
  [(u32 h.magic, 4), (u16 h.recordVersion, 2), (u16 h.recordType, 2), (u16 h.headerLen, 2),
    (u16 h.flags, 2), (u64 h.txnId, 8), (u64 h.prevLsn, 8), (u32 h.payloadLen, 4),
    (u32 headerCrc, 4), (u32 h.payloadCrc32c, 4)]

end RecordHeader

def recordTrailerSize : Nat := 12

def trailerFields (totalLen trailerCrc : UInt32) : List (Bytes × Nat) :=
  [(u32 0x52474F4C, 4), (u32 totalLen, 4), (u32 trailerCrc, 4)]

def calculateExplicitHeaderChecksum (h : RecordHeader) : UInt32 :=
  ((((((((((Crc32.init.update (u32 h.magic)).update (u16 h.recordVersion)).update
    (u16 h.recordType)).update (u16 h.headerLen)).update (u16 h.flags)).update (u64 h.txnId)).update
    (u64 h.prevLsn)).update (u32 h.payloadLen)).update (u32 0)).update (u32 h.payloadCrc32c)).final

def calculateExplicitTrailerChecksum (totalLen : UInt32) : UInt32 :=
  (((Crc32.init.update (u32 0x52474F4C)).update (u32 totalLen)).update (u32 0)).final

/-- `readExplicitHeader`; `none` is `error.InvalidHeaderSize`, which all callers take for the end. -/
def readExplicitHeader (bytes : Bytes) : Option RecordHeader :=
  if bytes.length < RecordHeader.size then none
  else some {
    magic := readU32 (window bytes 0 4)
    recordVersion := readU16 (window bytes 4 2)
    recordType := readU16 (window bytes 6 2)
    headerLen := readU16 (window bytes 8 2)
    flags := readU16 (window bytes 10 2)
    txnId := readU64 (window bytes 12 8)
    prevLsn := readU64 (window bytes 20 8)
    payloadLen := readU32 (window bytes 28 4)
    headerCrc32c := readU32 (window bytes 32 4)
    payloadCrc32c := readU32 (window bytes 36 4) }

/-- What the three scans start with: `pread` of a header, and its magic number. -/
def headerAt (file : Bytes) (pos : Nat) : Option RecordHeader :=
  let headerBytes := window file pos RecordHeader.size
  if headerBytes.length < RecordHeader.size then none
  else
    match readExplicitHeader headerBytes with
    | none => none
    | some header => if header.magic ≠ 0x4C4F4752 then none else some header

def validHeaderAt (file : Bytes) (pos : Nat) : Option RecordHeader :=
  match headerAt file pos with
  | none => none
  | some header =>
    if header.headerCrc32c ≠ calculateExplicitHeaderChecksum header then none else some header

def RecordHeader.recordSize (h : RecordHeader) : Nat := size + h.payloadLen.toNat + recordTrailerSize

/-- `file.pwriteAll(bytes, offset)`. -/
def pwriteAll (file : Bytes) (offset : Nat) (bytes : Bytes) : Bytes :=
  (File.writeAll ⟨file, offset⟩ bytes).data

/-- `file.setEndPos(length)`. -/
def setEndPos (file : Bytes) (length : Nat) : Bytes :=
  file.take length ++ List.replicate (length - file.length) 0

structure WriteAheadLog where
  file : Bytes
  currentLsn : Nat
  -- `buffer[0..buffer_pos]`
  buffer : Bytes
  syncNeeded : Bool
  filePos : Nat
  deriving Repr, DecidableEq

namespace WriteAheadLog

def bufferSize : Nat := 64 * 1024

def create : WriteAheadLog := ⟨[], 0, [], false, 0⟩

def flush (w : WriteAheadLog) : WriteAheadLog :=
  if w.buffer.length = 0 then w
  else { w with
    file := pwriteAll w.file w.filePos w.buffer
    filePos := w.filePos + w.buffer.length
    buffer := [] }

def sync (w : WriteAheadLog) : WriteAheadLog :=
  { (if w.buffer.length > 0 then w.flush else w) with syncNeeded := false }

def getCurrentLsn (w : WriteAheadLog) : Nat := w.currentLsn

def writeFields (file : Bytes) (offset : Nat) (fields : List (Bytes × Nat)) : Bytes :=
  (fields.foldl (fun acc field => (pwriteAll acc.1 acc.2 field.1, acc.2 + field.2)) (file, offset)).1

/-- The second half of `appendRecordWithTrailer`: a record that does not fit in what is left of the
buffer flushes it, and one that is larger than the buffer is written directly. -/
def writeRecord (w : WriteAheadLog) (recordSize : Nat) (fields : List (Bytes × Nat)) : WriteAheadLog :=
  let w := if w.buffer.length + recordSize > bufferSize then w.flush else w
  if recordSize > bufferSize then
    { w with
      file := writeFields w.file w.filePos fields
      filePos := w.filePos + recordSize
      currentLsn := w.currentLsn + 1
      syncNeeded := true }
  else
    { w with
      buffer := w.buffer ++ (fields.map Prod.fst).flatten
      currentLsn := w.currentLsn + 1
      syncNeeded := true }

def appendRecordWithTrailer (w : WriteAheadLog) (header : RecordHeader) (data : Bytes) :
    Except ZigError (WriteAheadLog × Nat) := do
  let recordSize := RecordHeader.size + data.length + recordTrailerSize
  let headerCrc := calculateExplicitHeaderChecksum header
  let totalLen ← intCastU32 recordSize
  let trailerCrc := calculateExplicitTrailerChecksum totalLen
  let fields := header.fields headerCrc ++ [(data, data.length)] ++ trailerFields totalLen trailerCrc
  let w := w.writeRecord recordSize fields
  return (w, w.currentLsn)

def appendCommitRecord (w : WriteAheadLog) (record : CommitRecord) :
    Except ZigError (WriteAheadLog × Nat) := do
  if ¬ (← record.validateChecksum) then .error .invalidChecksum
  else
    let serialized ← record.serialize
    let payloadCrc32c ← record.calculatePayloadChecksum
    let payloadLen ← intCastU32 serialized.length
    let header : RecordHeader :=
      { recordType := 0
        flags := 0x02
        txnId := record.txnId
        prevLsn := UInt64.ofNat w.currentLsn
        payloadLen
        headerCrc32c := 0
        payloadCrc32c }
    w.appendRecordWithTrailer header serialized

/-- The loop of `scanHighestLsn`.  Every turn moves on by at least 52 bytes, so the size of the file is
enough fuel. -/
def scanLoop (file : Bytes) : Nat → Nat → Nat → Nat
  | 0, _, recordCount => recordCount
  | fuel + 1, pos, recordCount =>
    if pos < file.length then
      match validHeaderAt file pos with
      | none => recordCount
      | some header => scanLoop file fuel (pos + header.recordSize) (recordCount + 1)
    else recordCount

def scanHighestLsn (file : Bytes) : Nat := scanLoop file file.length 0 0

/-- `open`, on a file with these bytes. -/
def openFile (file : Bytes) : WriteAheadLog where
  file := file
  currentLsn := if file.length > 0 then scanHighestLsn file else 0
  buffer := []
  syncNeeded := false
  filePos := file.length

/-- The loop of `truncate`: the position of the record with `keepLsn`, if it is found. -/
def findRecord (file : Bytes) (keepLsn : Nat) : Nat → Nat → Nat → Option Nat
  | 0, _, _ => none
  | fuel + 1, pos, lsn =>
    if pos < file.length then
      match headerAt file pos with
      | none => none
      | some header =>
        if lsn ≥ keepLsn then some pos
        else findRecord file keepLsn fuel (pos + header.recordSize) (lsn + 1)
    else none

/-- `file_pos` stays where it was. -/
def truncate (w : WriteAheadLog) (keepLsn : Nat) : WriteAheadLog :=
  let w := w.flush.sync
  match findRecord w.file keepLsn w.file.length 0 1 with
  | some pos =>
    let file := setEndPos w.file pos
    { w with file, currentLsn := scanHighestLsn file }
  | none => { w with file := setEndPos w.file 0, currentLsn := 0 }

end WriteAheadLog

structure ReplayResult where
  commitRecords : List CommitRecord := []
  lastLsn : Nat := 0
  lastCheckpointTxnId : UInt64 := 0
  truncateLsn : Option UInt64 := none
  deriving Repr, DecidableEq

/-- One record whose checksums are right, by its type. -/
def ReplayResult.take (result : ReplayResult) (header : RecordHeader) (data : Bytes) :
    Except ZigError ReplayResult :=
  if header.recordType = 0 then do
    let record ← CommitRecord.deserialize data
    return { result with commitRecords := result.commitRecords ++ [record] }
  else if header.recordType = 1 then
    if header.payloadLen = 8 then .ok { result with lastCheckpointTxnId := readU64 data }
    else .ok result
  else if header.recordType = 2 then .ok { result with truncateLsn := some header.txnId }
  else .ok result

namespace WriteAheadLog

/-- The loop of `replayFrom`, with the turns that are left of 1000. -/
def replayLoop (file : Bytes) (startLsn : Nat) :
    Nat → Nat → Nat → ReplayResult → Except ZigError ReplayResult
  | 0, _, _, result => .ok result
  | turns + 1, pos, lsn, result =>
    if pos < file.length then
      if pos + RecordHeader.size > file.length then .ok result
      else
        match validHeaderAt file pos with
        | none => .ok result
        | some header =>
          if pos + header.recordSize > file.length then .ok result
          else if lsn < startLsn then
            replayLoop file startLsn turns (pos + header.recordSize) (lsn + 1) result
          else
            let data := window file (pos + RecordHeader.size) header.payloadLen.toNat
            if data.length < header.payloadLen.toNat then .ok result
            else if Crc32.hash data ≠ header.payloadCrc32c then
              replayLoop file startLsn turns (pos + header.recordSize) lsn result
            else do
              let result ← result.take header data
              replayLoop file startLsn turns (pos + header.recordSize) (lsn + 1)
                { result with lastLsn := lsn }
    else .ok result

def maxIterations : Nat := 1000

def replayFrom (w : WriteAheadLog) (startLsn : Nat) : Except ZigError ReplayResult :=
  replayLoop w.file startLsn maxIterations 0 1 {}

end WriteAheadLog

end Northstar.Zig
