import Northstar.Checksum
import Northstar.Error
import Northstar.Lib.Except

/-!
# Header — the fixed-size ends of a WAL record

`wal/header.rs`: the 40-byte record header, the 12-byte trailer, their codecs and their checks in
the order the code makes them.
-/

namespace Northstar.Wal

open Bytes

def recordMagic : UInt32 := 0x4C4F4752
def trailerMagic : UInt32 := 0x52474F4C
def recordVersion : UInt16 := 0
def headerSize : Nat := 40
def trailerSize : Nat := 12
def maxPayloadSize : UInt32 := 16 * 1024 * 1024

inductive RecordType where
  | commit
  | checkpoint
  | cartridgeMeta
  deriving Repr, DecidableEq

def RecordType.fromU16 : UInt16 → Option RecordType
  | 0 => some .commit
  | 1 => some .checkpoint
  | 2 => some .cartridgeMeta
  | _ => none

def RecordType.toU16 : RecordType → UInt16
  | .commit => 0
  | .checkpoint => 1
  | .cartridgeMeta => 2

structure RecordHeader where
  magic : UInt32
  recordVersion : UInt16
  recordType : UInt16
  headerLen : UInt16
  flags : UInt16
  txnId : UInt64
  prevLsn : UInt64
  payloadLen : UInt32
  headerCrc32c : UInt32
  payloadCrc32c : UInt32
  deriving Repr, DecidableEq

namespace RecordHeader

def toBytes (h : RecordHeader) : Bytes :=
  u32 h.magic ++ (u16 h.recordVersion ++ (u16 h.recordType ++ (u16 h.headerLen ++ (u16 h.flags ++
    (u64 h.txnId ++ (u64 h.prevLsn ++ (u32 h.payloadLen ++ (u32 h.headerCrc32c ++
      u32 h.payloadCrc32c))))))))

def fromBytes (data : Bytes) : Except Error RecordHeader :=
  if data.length < headerSize then
    .error (.validation (.invalidHeaderSize headerSize data.length))
  else
    .ok {
      magic := readU32 (window data 0 4)
      recordVersion := readU16 (window data 4 2)
      recordType := readU16 (window data 6 2)
      headerLen := readU16 (window data 8 2)
      flags := readU16 (window data 10 2)
      txnId := readU64 (window data 12 8)
      prevLsn := readU64 (window data 20 8)
      payloadLen := readU32 (window data 28 4)
      headerCrc32c := readU32 (window data 32 4)
      payloadCrc32c := readU32 (window data 36 4) }

def calculateHeaderChecksum (crc : Crc) (h : RecordHeader) : UInt32 :=
  checksum crc { h with headerCrc32c := 0 }.toBytes

def new (crc : Crc) (recordType : RecordType) (flags : UInt16) (txnId prevLsn : UInt64)
    (payloadLen : UInt32) : RecordHeader :=
  let header : RecordHeader := {
    magic := recordMagic
    recordVersion := Wal.recordVersion
    recordType := recordType.toU16
    headerLen := UInt16.ofNat headerSize
    flags, txnId, prevLsn, payloadLen
    headerCrc32c := 0
    payloadCrc32c := 0 }
  { header with headerCrc32c := header.calculateHeaderChecksum crc }

def withPayloadChecksum (crc : Crc) (h : RecordHeader) (payloadChecksum : UInt32) :
    RecordHeader :=
  let header := { h with payloadCrc32c := payloadChecksum }
  { header with headerCrc32c := header.calculateHeaderChecksum crc }

def validateMagic (h : RecordHeader) : Except Error Unit :=
  if h.magic ≠ recordMagic then .error (.validation (.invalidMagic recordMagic h.magic)) else .ok ()

def validateVersion (h : RecordHeader) : Except Error Unit :=
  if h.recordVersion ≠ Wal.recordVersion then
    .error (.validation (.unsupportedVersion h.recordVersion 0 0))
  else .ok ()

def validatePayloadLen (h : RecordHeader) : Except Error Unit :=
  if h.payloadLen > maxPayloadSize then
    .error (.validation (.payloadLengthInvalid h.payloadLen maxPayloadSize))
  else .ok ()

def validateHeaderChecksum (crc : Crc) (h : RecordHeader) : Except Error Unit :=
  let calculated := h.calculateHeaderChecksum crc
  if calculated ≠ h.headerCrc32c then
    .error (.validation (.headerChecksumMismatch h.headerCrc32c calculated))
  else .ok ()

def validateRecordType (h : RecordHeader) : Except Error RecordType :=
  match RecordType.fromU16 h.recordType with
  | some t => .ok t
  | none => .error (.validation (.generic ("Invalid record type: " ++ toString h.recordType)))

def validate (crc : Crc) (h : RecordHeader) : Except Error RecordType := do
  h.validateMagic
  h.validateVersion
  h.validatePayloadLen
  h.validateHeaderChecksum crc
  h.validateRecordType

@[simp] theorem length_toBytes (h : RecordHeader) : h.toBytes.length = headerSize := by
  simp [toBytes, headerSize]

theorem fromBytes_toBytes (h : RecordHeader) : fromBytes h.toBytes = .ok h := by
  rw [fromBytes, if_neg (by rw [length_toBytes]; omega)]
  simp (disch := simp) only [toBytes, window_append_right, window_head, window_zero_length,
    length_u16, length_u32, length_u64, Nat.reduceSub, readU16_u16, readU32_u32, readU64_u64]

theorem validate_eq_ok_iff (crc : Crc) (h : RecordHeader) (t : RecordType) :
    h.validate crc = .ok t ↔
      h.magic = recordMagic ∧ h.recordVersion = Wal.recordVersion ∧
        h.payloadLen ≤ maxPayloadSize ∧ h.calculateHeaderChecksum crc = h.headerCrc32c ∧
          RecordType.fromU16 h.recordType = some t := by
  have htype : h.validateRecordType = .ok t ↔ RecordType.fromU16 h.recordType = some t := by
    unfold validateRecordType
    cases RecordType.fromU16 h.recordType <;> simp
  simp only [validate, validateMagic, validateVersion, validatePayloadLen, validateHeaderChecksum,
    Except.bind_eq_ok_iff, Except.guard_eq_ok_iff, htype, exists_and_left, ne_eq,
    Decidable.not_not, gt_iff_lt, UInt32.not_lt, and_assoc]
  simp

end RecordHeader

/-- The header `append_commit_record` puts in front of a payload. -/
def commitHeader (crc : Crc) (txnId prevLsn : UInt64) (payload : Bytes) : RecordHeader :=
  (RecordHeader.new crc .commit 0 txnId prevLsn (UInt32.ofNat payload.length)).withPayloadChecksum
    crc (checksum crc payload)

theorem commitHeader_validate (crc : Crc) (txnId prevLsn : UInt64) (payload : Bytes)
    (t : RecordType) :
    (commitHeader crc txnId prevLsn payload).validate crc = .ok t ↔
      UInt32.ofNat payload.length ≤ maxPayloadSize ∧ t = .commit := by
  rw [RecordHeader.validate_eq_ok_iff]
  constructor
  · rintro ⟨-, -, hlen, -, htype⟩
    exact ⟨hlen, (Option.some.inj htype).symm⟩
  · rintro ⟨hlen, rfl⟩
    exact ⟨rfl, rfl, hlen, rfl, rfl⟩

structure RecordTrailer where
  magic2 : UInt32
  totalLen : UInt32
  trailerCrc32c : UInt32
  deriving Repr, DecidableEq

namespace RecordTrailer

def toBytes (t : RecordTrailer) : Bytes :=
  u32 t.magic2 ++ (u32 t.totalLen ++ u32 t.trailerCrc32c)

def fromBytes (data : Bytes) : Except Error RecordTrailer :=
  if data.length < trailerSize then
    .error (.validation (.invalidHeaderSize trailerSize data.length))
  else
    .ok {
      magic2 := readU32 (window data 0 4)
      totalLen := readU32 (window data 4 4)
      trailerCrc32c := readU32 (window data 8 4) }

def calculateChecksum (crc : Crc) (t : RecordTrailer) : UInt32 :=
  checksum crc { t with trailerCrc32c := 0 }.toBytes

def new (crc : Crc) (totalLen : UInt32) : RecordTrailer :=
  let trailer : RecordTrailer := { magic2 := trailerMagic, totalLen, trailerCrc32c := 0 }
  { trailer with trailerCrc32c := trailer.calculateChecksum crc }

def validateMagic (t : RecordTrailer) : Except Error Unit :=
  if t.magic2 ≠ trailerMagic then .error (.validation (.invalidMagic trailerMagic t.magic2))
  else .ok ()

def validateChecksum (crc : Crc) (t : RecordTrailer) : Except Error Unit :=
  let calculated := t.calculateChecksum crc
  if calculated ≠ t.trailerCrc32c then
    .error (.validation (.checksumMismatch t.trailerCrc32c calculated))
  else .ok ()

def validateTotalLen (t : RecordTrailer) (expected : UInt32) : Except Error Unit :=
  if t.totalLen ≠ expected then
    .error (.validation (.generic ("Trailer length mismatch: expected " ++ toString expected ++
      ", got " ++ toString t.totalLen)))
  else .ok ()

def validate (crc : Crc) (t : RecordTrailer) (expectedTotalLen : UInt32) : Except Error Unit := do
  t.validateMagic
  t.validateChecksum crc
  t.validateTotalLen expectedTotalLen

@[simp] theorem length_toBytes (t : RecordTrailer) : t.toBytes.length = trailerSize := by
  simp [toBytes, trailerSize]

theorem fromBytes_toBytes (t : RecordTrailer) : fromBytes t.toBytes = .ok t := by
  rw [fromBytes, if_neg (by rw [length_toBytes]; omega)]
  simp (disch := simp) only [toBytes, window_append_right, window_head, window_zero_length,
    length_u32, Nat.reduceSub, readU32_u32]

theorem validate_new (crc : Crc) (totalLen : UInt32) :
    (new crc totalLen).validate crc totalLen = .ok () := by
  have hmagic : (new crc totalLen).validateMagic = .ok () := if_neg (fun h => h rfl)
  have hcrc : (new crc totalLen).validateChecksum crc = .ok () := if_neg (fun h => h rfl)
  have hlen : (new crc totalLen).validateTotalLen totalLen = .ok () := if_neg (fun h => h rfl)
  rw [validate, hmagic, hcrc, hlen]
  rfl

end RecordTrailer

end Northstar.Wal
