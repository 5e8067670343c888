import Northstar.Wal.Header

/-!
# Record — the payload of a commit record

`wal/record.rs`: mutations, their encoded form, and the commit payload that `append_commit_record`
logs and replay decodes.  `encode().unwrap()` makes the serializer panic on a mutation the encoder
refuses; `none` stands for that panic.
-/

namespace Northstar.Wal

open Bytes

def maxKeySize : UInt32 := 4 * 1024
def maxValueSize : UInt32 := 16 * 1024 * 1024
def maxOperationsPerCommit : UInt32 := 10000
def commitMagic : UInt32 := 0x434D4954
def commitHeaderSize : Nat := 32

inductive OperationType where
  | put
  | delete
  deriving Repr, DecidableEq

def OperationType.fromU8 : UInt8 → Option OperationType
  | 0 => some .put
  | 1 => some .delete
  | _ => none

def OperationType.toU8 : OperationType → UInt8
  | .put => 0
  | .delete => 1

structure CommitPayloadHeader where
  commitMagic : UInt32
  txnId : UInt64
  rootPageId : UInt64
  padding : UInt32
  opCount : UInt32
  reserved : UInt32
  deriving Repr, DecidableEq

namespace CommitPayloadHeader

def new (txnId rootPageId : UInt64) (opCount : UInt32) : CommitPayloadHeader where
  commitMagic := Wal.commitMagic
  txnId := txnId
  rootPageId := rootPageId
  padding := 0
  opCount := opCount
  reserved := 0

def toBytes (h : CommitPayloadHeader) : Bytes :=
  u32 h.commitMagic ++ (u64 h.txnId ++ (u64 h.rootPageId ++ (u32 h.padding ++ (u32 h.opCount ++
    u32 h.reserved))))

def fromBytes (data : Bytes) : Except Error CommitPayloadHeader :=
  if data.length < commitHeaderSize then
    .error (.validation (.invalidHeaderSize commitHeaderSize data.length))
  else
    .ok {
      commitMagic := readU32 (window data 0 4)
      txnId := readU64 (window data 4 8)
      rootPageId := readU64 (window data 12 8)
      padding := readU32 (window data 20 4)
      opCount := readU32 (window data 24 4)
      reserved := readU32 (window data 28 4) }

def validate (h : CommitPayloadHeader) : Except Error Unit :=
  if h.commitMagic ≠ Wal.commitMagic then
    .error (.validation (.invalidCommitMagic Wal.commitMagic h.commitMagic))
  else if h.reserved ≠ 0 then
    .error (.validation (.invalidReservedField h.reserved))
  else if h.opCount > maxOperationsPerCommit then
    .error (.validation (.tooManyOperations h.opCount maxOperationsPerCommit))
  else .ok ()

@[simp] theorem length_toBytes (h : CommitPayloadHeader) : h.toBytes.length = commitHeaderSize := by
  simp [toBytes, commitHeaderSize]

theorem fromBytes_toBytes (h : CommitPayloadHeader) (rest : Bytes) :
    fromBytes (h.toBytes ++ rest) = .ok h := by
  rw [fromBytes, if_neg (by rw [List.length_append, length_toBytes]; omega)]
  simp (disch := simp) only [toBytes, List.append_assoc, window_append_right, window_head,
    length_u32, length_u64, Nat.reduceSub, readU32_u32, readU64_u64]

theorem validate_new (txnId rootPageId : UInt64) (opCount : UInt32) :
    (new txnId rootPageId opCount).validate = .ok () ↔ opCount ≤ maxOperationsPerCommit := by
  simp only [validate, new, ne_eq, not_true_eq_false, if_false, Except.guard_eq_ok_iff,
    gt_iff_lt, UInt32.not_lt, and_true]

end CommitPayloadHeader

inductive Mutation where
  | put (key value : Bytes)
  | delete (key : Bytes)
  deriving Repr, DecidableEq

def Mutation.key : Mutation → Bytes
  | .put key _ => key
  | .delete key => key

def Mutation.value : Mutation → Option Bytes
  | .put _ value => some value
  | .delete _ => none

structure EncodedOperation where
  opType : OperationType
  opFlags : UInt8
  keyLen : UInt16
  valLen : UInt32
  keyBytes : Bytes
  valBytes : Option Bytes
  deriving Repr, DecidableEq

namespace EncodedOperation

def newPut (key value : Bytes) : Except Error EncodedOperation :=
  let keyLen := UInt16.ofNat key.length
  let valLen := UInt32.ofNat value.length
  if keyLen.toUInt32 > maxKeySize then
    .error (.sizeLimit (.keyTooLarge keyLen.toNat maxKeySize.toNat))
  else if valLen > maxValueSize then
    .error (.sizeLimit (.valueTooLarge valLen.toNat maxValueSize.toNat))
  else
    .ok {
      opType := .put
      opFlags := 0
      keyLen, valLen
      keyBytes := key
      valBytes := some value }

def newDelete (key : Bytes) : Except Error EncodedOperation :=
  let keyLen := UInt16.ofNat key.length
  if keyLen.toUInt32 > maxKeySize then
    .error (.sizeLimit (.keyTooLarge keyLen.toNat maxKeySize.toNat))
  else
    .ok {
      opType := .delete
      opFlags := 0
      keyLen
      valLen := 0
      keyBytes := key
      valBytes := none }

def toBytes (op : EncodedOperation) : Bytes :=
  [op.opType.toU8, op.opFlags] ++ (u16 op.keyLen ++ (u32 op.valLen ++ (op.keyBytes ++
    op.valBytes.getD [])))

def validate (op : EncodedOperation) : Except Error Unit :=
  if op.opFlags ≠ 0 then
    .error (.validation (.invalidOperationFlags op.opFlags))
  else if op.keyBytes.length ≠ op.keyLen.toNat then
    .error (.validation (.keyLengthMismatch op.keyLen op.keyBytes.length))
  else
    match op.opType with
    | .put =>
      match op.valBytes with
      | some val =>
        if val.length ≠ op.valLen.toNat then
          .error (.validation (.valueLengthMismatch op.valLen val.length))
        else .ok ()
      | none => .error (.validation (.generic "Put operation missing value"))
    | .delete =>
      if op.valLen ≠ 0 ∨ op.valBytes.isSome then .error (.validation .deleteHasValue) else .ok ()

def fromBytes (data : Bytes) : Except Error EncodedOperation :=
  if data.length < 8 then
    .error (.validation (.generic "Operation data too short"))
  else
    match OperationType.fromU8 (data.getD 0 0) with
    | none => .error (.validation (.invalidOperationType (data.getD 0 0)))
    | some opType =>
      let opFlags := data.getD 1 0
      let keyLen := (readU16 (window data 2 2)).toNat
      let valLen := (readU32 (window data 4 4)).toNat
      if opFlags ≠ 0 then
        .error (.validation (.invalidOperationFlags opFlags))
      else if data.length < 8 + keyLen + valLen then
        .error (.validation (.generic "Operation data truncated"))
      else do
        let op : EncodedOperation := {
          opType, opFlags
          keyLen := UInt16.ofNat keyLen
          valLen := UInt32.ofNat valLen
          keyBytes := window data 8 keyLen
          -- a zero length is read as an absent value
          valBytes := if valLen > 0 then some (window data (8 + keyLen) valLen) else none }
        op.validate
        return op

end EncodedOperation

def Mutation.encode : Mutation → Except Error EncodedOperation
  | .put key value => EncodedOperation.newPut key value
  | .delete key => EncodedOperation.newDelete key

/-- `Mutation::try_from(EncodedOperation)`. -/
def Mutation.tryFrom (op : EncodedOperation) : Except Error Mutation :=
  match op.opType with
  | .put =>
    match op.valBytes with
    | some value => .ok (.put op.keyBytes value)
    | none => .error (.validation (.generic "Put operation missing value"))
  | .delete => .ok (.delete op.keyBytes)

structure CommitRecord where
  txnId : UInt64
  rootPageId : UInt64
  mutations : List Mutation
  checksum : UInt32
  deriving Repr, DecidableEq

namespace CommitRecord

def new (txnId rootPageId : UInt64) (mutations : List Mutation) : CommitRecord where
  txnId := txnId
  rootPageId := rootPageId
  mutations := mutations
  checksum := 0

def payloadHeader (r : CommitRecord) : CommitPayloadHeader :=
  .new r.txnId r.rootPageId (UInt32.ofNat r.mutations.length)

/-- The encoded mutations; `none` is the panic of `encode().unwrap()`. -/
def encodeMutations (mutations : List Mutation) : Option (List EncodedOperation) :=
  mutations.mapM (·.encode.toOption)

def calculatePayloadChecksum (crc : Crc) (r : CommitRecord) : Option UInt32 := do
  let ops ← encodeMutations r.mutations
  let h := hasher.update crc r.payloadHeader.toBytes
  return (ops.foldl (fun h op => h.update crc op.toBytes) h).finalize

def validateChecksum (crc : Crc) (r : CommitRecord) : Option Bool := do
  return (← r.calculatePayloadChecksum crc) == r.checksum

def serializePayload (r : CommitRecord) : Option Bytes := do
  let ops ← encodeMutations r.mutations
  return r.payloadHeader.toBytes ++ (ops.map (·.toBytes)).flatten

/-- The operation loop of `deserialize_payload`: `count` operations from `offset` on, and where
they end. -/
def parseOperations (data : Bytes) : Nat → Nat → Except Error (List Mutation × Nat)
  | 0, offset => .ok ([], offset)
  | count + 1, offset =>
    if offset + 8 > data.length then
      .error (.validation (.generic "Operation header truncated"))
    else
      let keyLen := (readU16 (window data (offset + 2) 2)).toNat
      let valLen := (readU32 (window data (offset + 4) 4)).toNat
      let opSize := 8 + keyLen + valLen
      if offset + opSize > data.length then
        .error (.validation (.generic "Operation data truncated"))
      else do
        let encoded ← EncodedOperation.fromBytes (window data offset opSize)
        let mutation ← Mutation.tryFrom encoded
        let parsed ← parseOperations data count (offset + opSize)
        return (mutation :: parsed.1, parsed.2)

def deserializePayload (crc : Crc) (txnId : UInt64) (data : Bytes) : Except Error CommitRecord := do
  let header ← CommitPayloadHeader.fromBytes data
  header.validate
  if header.txnId ≠ txnId then
    .error (.validation (.generic "Transaction ID mismatch"))
  else do
    let parsed ← parseOperations data header.opCount.toNat commitHeaderSize
    return {
      txnId := header.txnId
      rootPageId := header.rootPageId
      mutations := parsed.1
      checksum := (hasher.update crc (data.take parsed.2)).finalize }

end CommitRecord

end Northstar.Wal
