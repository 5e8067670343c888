import Northstar.Checksum
import Northstar.Lib.Except

/-!
# Txn — mutations, commit records and their payloads

`txn.zig`, and the payload codec of `wal.zig`.  `@intCast` of a length that does not fit its field is a
panic in a safe build; here it is the error `intCast`.
-/

namespace Northstar.Zig

open Bytes

inductive ZigError where
  | intCast
  | endOfStream
  | invalidChecksum
  | invalidCommitMagic
  | invalidReservedField
  | tooManyOperations
  | invalidOperationType
  | invalidOperationFlags
  | keyTooLarge
  | valueTooLarge
  | keyLengthMismatch
  | valueLengthMismatch
  | deleteHasValue
  | putHasNoValue
  | payloadTooSmall
  | payloadTruncated
  deriving Repr, DecidableEq

def intCastU16 (n : Nat) : Except ZigError UInt16 :=
  if n < 2 ^ 16 then .ok (UInt16.ofNat n) else .error .intCast

def intCastU32 (n : Nat) : Except ZigError UInt32 :=
  if n < 2 ^ 32 then .ok (UInt32.ofNat n) else .error .intCast

inductive Mutation where
  | put (key value : Bytes)
  | delete (key : Bytes)
  deriving Repr, DecidableEq

def Mutation.getKey : Mutation → Bytes
  | .put key _ => key
  | .delete key => key

structure CommitRecord where
  txnId : UInt64
  rootPageId : UInt64
  mutations : List Mutation
  checksum : UInt32
  deriving Repr, DecidableEq

namespace SizeLimits

def maxKeySize : Nat := 4 * 1024
def maxValueSize : Nat := 16 * 1024 * 1024
def maxOperationsPerCommit : Nat := 1000

end SizeLimits

structure CommitPayloadHeader where
  commitMagic : UInt32 := 0x434D4954
  txnId : UInt64
  rootPageId : UInt64
  opCount : UInt32
  reserved : UInt32
  deriving Repr, DecidableEq

namespace CommitPayloadHeader

/-- `@sizeOf`: 28 bytes of fields, rounded up to the alignment of a `u64`. -/
def size : Nat := 32

def serialize (h : CommitPayloadHeader) : Bytes :=
  u32 h.commitMagic ++ u64 h.txnId ++ u64 h.rootPageId ++ u32 0 ++ u32 h.opCount ++ u32 h.reserved

def validate (h : CommitPayloadHeader) : Except ZigError Unit :=
  if h.reserved ≠ 0 then .error .invalidReservedField
  else if h.opCount.toNat > SizeLimits.maxOperationsPerCommit then .error .tooManyOperations
  else .ok ()

def deserialize (data : Bytes) : Except ZigError CommitPayloadHeader :=
  if data.length < 4 then .error .endOfStream
  else if readU32 (window data 0 4) ≠ 0x434D4954 then .error .invalidCommitMagic
  else if data.length < size then .error .endOfStream
  else do
    let header : CommitPayloadHeader :=
      { commitMagic := readU32 (window data 0 4)
        txnId := readU64 (window data 4 8)
        rootPageId := readU64 (window data 12 8)
        opCount := readU32 (window data 24 4)
        reserved := readU32 (window data 28 4) }
    header.validate
    return header

end CommitPayloadHeader

structure EncodedOperation where
  opType : UInt8
  opFlags : UInt8
  keyLen : UInt16
  valLen : UInt32
  keyBytes : Bytes
  valBytes : Bytes
  deriving Repr, DecidableEq

namespace EncodedOperation

def serialize (op : EncodedOperation) : Bytes :=
  [op.opType, op.opFlags] ++ u16 op.keyLen ++ u32 op.valLen ++ op.keyBytes ++
    if op.opType = 0 then op.valBytes else []

def validate (op : EncodedOperation) : Except ZigError Unit :=
  if op.opFlags ≠ 0 then .error .invalidOperationFlags
  else if op.keyLen.toNat > SizeLimits.maxKeySize then .error .keyTooLarge
  else if op.valLen.toNat > SizeLimits.maxValueSize then .error .valueTooLarge
  else if op.keyBytes.length ≠ op.keyLen.toNat then .error .keyLengthMismatch
  else if op.opType = 0 ∧ op.valBytes.length ≠ op.valLen.toNat then .error .valueLengthMismatch
  else if op.opType = 1 ∧ op.valLen ≠ 0 then .error .deleteHasValue
  else .ok ()

end EncodedOperation

/-- The operation `serializeCommitRecord` writes for a mutation. -/
def Mutation.operation : Mutation → Except ZigError EncodedOperation
  | .put key value => do
    let keyLen ← intCastU16 key.length
    let valLen ← intCastU32 value.length
    return ⟨0, 0, keyLen, valLen, key, value⟩
  | .delete key => do
    let keyLen ← intCastU16 key.length
    return ⟨1, 0, keyLen, 0, key, []⟩

def Mutation.serialize (m : Mutation) : Except ZigError Bytes := do
  let op ← m.operation
  op.validate
  return op.serialize

/-- The part of `calculatePayloadChecksum` for one mutation. -/
def Mutation.hash (h : Crc32) : Mutation → Except ZigError Crc32
  | .put key value => do
    let keyLen ← intCastU16 key.length
    let valLen ← intCastU32 value.length
    return (((((h.update [0]).update [0]).update (u16 keyLen)).update (u32 valLen)).update key).update
      value
  | .delete key => do
    let keyLen ← intCastU16 key.length
    return ((((h.update [1]).update [0]).update (u16 keyLen)).update (u32 0)).update key

namespace CommitRecord

def calculatePayloadChecksum (r : CommitRecord) : Except ZigError UInt32 := do
  let opCount ← intCastU32 r.mutations.length
  let header : CommitPayloadHeader := { txnId := r.txnId, rootPageId := r.rootPageId, opCount, reserved := 0 }
  let h ← r.mutations.foldlM Mutation.hash (Crc32.init.update header.serialize)
  return h.final

def validateChecksum (r : CommitRecord) : Except ZigError Bool := do
  return r.checksum == (← r.calculatePayloadChecksum)

/-- `serializeCommitRecord`. -/
def serialize (r : CommitRecord) : Except ZigError Bytes := do
  let opCount ← intCastU32 r.mutations.length
  let header : CommitPayloadHeader := { txnId := r.txnId, rootPageId := r.rootPageId, opCount, reserved := 0 }
  let ops ← r.mutations.mapM Mutation.serialize
  return header.serialize ++ ops.flatten

/-- The loop of `deserializeCommitRecord` over the operations. -/
def readOperations (data : Bytes) : Nat → Nat → Except ZigError (List Mutation)
  | 0, _ => .ok []
  | count + 1, pos =>
    if pos + 1 + 1 + 2 + 4 > data.length then .error .payloadTruncated
    else
      let opType := data.getD pos 0
      let opFlags := data.getD (pos + 1) 0
      let keyLen := (readU16 (window data (pos + 2) 2)).toNat
      let valLen := (readU32 (window data (pos + 4) 4)).toNat
      let pos := pos + 8
      if opType > 1 then .error .invalidOperationType
      else if opFlags ≠ 0 then .error .invalidOperationFlags
      else if keyLen > SizeLimits.maxKeySize then .error .keyTooLarge
      else if valLen > SizeLimits.maxValueSize then .error .valueTooLarge
      else if pos + keyLen + valLen > data.length then .error .payloadTruncated
      else
        let key := window data pos keyLen
        let pos := pos + keyLen
        if opType = 0 then
          if valLen = 0 then .error .putHasNoValue
          else do
            let rest ← readOperations data count (pos + valLen)
            return .put key (window data pos valLen) :: rest
        else if valLen ≠ 0 then .error .deleteHasValue
        else do
          let rest ← readOperations data count pos
          return .delete key :: rest

/-- `deserializeCommitRecord`. -/
def deserialize (data : Bytes) : Except ZigError CommitRecord :=
  if data.length < CommitPayloadHeader.size then .error .payloadTooSmall
  else do
    let header ← CommitPayloadHeader.deserialize data
    if header.opCount.toNat > SizeLimits.maxOperationsPerCommit then .error .tooManyOperations
    else
      let mutations ← readOperations data header.opCount.toNat CommitPayloadHeader.size
      let record : CommitRecord := ⟨header.txnId, header.rootPageId, mutations, 0⟩
      let checksum ← record.calculatePayloadChecksum
      return { record with checksum }

end CommitRecord

end Northstar.Zig
