import Northstar.Lib.EState
import Northstar.Lib.Heap
import Northstar.Zig.Frames

/-!
# ReplayEngine — a map rebuilt from the log

`replay.zig`.  The engine allocates its copies of keys and values, and frees them; a block that is freed
twice is illegal for every allocator, and is the error `invalidFree` here.  Only the blocks of keys and
values are followed, and a slice without bytes has no block.  Reads of the file succeed; a file that is not
there is `none`.

Both readers of the log are described on runs of frames with a right header and any payload.
-/

namespace Northstar.Zig

open Bytes

structure Slice where
  bytes : Bytes
  block : Nat
  deriving Repr, DecidableEq

inductive ReplayError where
  | log (e : ZigError)
  | invalidFree
  deriving Repr, DecidableEq

/-- The keys of `memtable` differ. -/
structure ReplayEngine where
  heap : Heap
  memtable : List (Slice × Slice)

abbrev EngineM := EStateM ReplayError ReplayEngine

namespace ReplayEngine

def init : ReplayEngine := ⟨.empty, []⟩

/-- `allocator.dupe`. -/
def dupe (bytes : Bytes) : EngineM Slice := fun e =>
  .ok ⟨bytes, e.heap.next⟩ { e with heap := e.heap.alloc }

/-- `allocator.free`; nothing is freed for a slice of length 0. -/
def free (s : Slice) : EngineM Unit := fun e =>
  if s.bytes = [] then .ok () e
  else
    match e.heap.free s.block with
    | some heap => .ok () { e with heap }
    | none => .error .invalidFree e

/-- `get`. -/
def get (e : ReplayEngine) (key : Bytes) : Option Bytes :=
  (e.memtable.find? (·.1.bytes = key)).map (·.2.bytes)

/-- `clearState`; the keys are not freed. -/
def clearState : EngineM Unit := do
  let e ← MonadState.get
  EStateM.forEach (fun entry => free entry.2) e.memtable
  modify fun e => { e with memtable := [] }

end ReplayEngine

inductive OwnedMutation where
  | put (key value : Slice)
  | delete (key : Slice)
  deriving Repr, DecidableEq

structure OwnedRecord where
  txnId : UInt64
  mutations : List OwnedMutation
  deriving Repr, DecidableEq

namespace ReplayEngine

/-- `readCommitRecordFromFile` up to the payload, and the next position. -/
def readPayload (file : Bytes) (pos : Nat) : Option Bytes × Nat :=
  match validHeaderAt file pos with
  | none => (none, pos)
  | some header =>
    -- "Skip non-commit records"
    if header.recordType ≠ 0 then (none, pos + header.recordSize)
    else if pos + header.recordSize > file.length then (none, pos)
    else
      let payload := window file (pos + RecordHeader.size) header.payloadLen.toNat
      if payload.length < header.payloadLen.toNat then (none, pos)
      else if Crc32.hash payload ≠ header.payloadCrc32c then (none, pos + header.recordSize)
      else
        let trailer := window file (pos + RecordHeader.size + header.payloadLen.toNat) recordTrailerSize
        if trailer.length < recordTrailerSize then (none, pos)
        else if readU32 (window trailer 0 4) ≠ 0x52474F4C then (none, pos + header.recordSize)
        else (some payload, pos + header.recordSize)

def dupeMutation : Mutation → EngineM OwnedMutation
  | .put key value => do
    let key ← dupe key
    let value ← dupe value
    return .put key value
  | .delete key => do
    let key ← dupe key
    return .delete key

def dupeMutations : List Mutation → EngineM (List OwnedMutation)
  | [] => return []
  | m :: ms => do
    let m ← dupeMutation m
    let ms ← dupeMutations ms
    return m :: ms

def liftLog {α : Type} : Except ZigError α → Except ReplayError α
  | .ok a => .ok a
  | .error e => .error (.log e)

def readCommitRecordFromFile (file : Bytes) (pos : Nat) : EngineM (Option OwnedRecord × Nat) :=
  match readPayload file pos with
  | (none, nextPos) => return (none, nextPos)
  | (some payload, nextPos) => do
    let record ← EStateM.lift (liftLog (CommitRecord.deserialize payload))
    let mutations ← dupeMutations record.mutations
    return (some ⟨record.txnId, mutations⟩, nextPos)

/-- `memtable.fetchRemove`, with what is freed of the entry. -/
def removeEntry (key : Bytes) : EngineM Unit := do
  let e ← MonadState.get
  match e.memtable.find? (·.1.bytes = key) with
  | some entry =>
    set { e with memtable := e.memtable.eraseP (·.1.bytes = key) }
    free entry.1
    free entry.2
  | none => return ()

def applyMutation : OwnedMutation → EngineM Unit
  | .put key value => do
    removeEntry key.bytes
    let keyCopy ← dupe key.bytes
    let valueCopy ← dupe value.bytes
    modify fun e => { e with memtable := (keyCopy, valueCopy) :: e.memtable }
  | .delete key => do
    removeEntry key.bytes
    -- "Also free the key from the mutation since we won't need it"
    free key

def applyCommitRecord (record : OwnedRecord) : EngineM Unit := EStateM.forEach applyMutation record.mutations

def freeMutation : OwnedMutation → EngineM Unit
  | .put key value => do
    free key
    free value
  | .delete key => free key

def cleanupCommitRecord (record : OwnedRecord) : EngineM Unit :=
  EStateM.forEach freeMutation record.mutations

/-- `ReplayResult` of `replay.zig`. -/
structure Result where
  processedTxns : Nat := 0
  lastTxnId : UInt64 := 0
  keyCount : Nat := 0
  deriving Repr, DecidableEq

/-- The loop of `rebuildToTxnId`; every turn moves on, so that the size of the file is enough fuel. -/
def rebuildLoop (file : Bytes) (targetTxnId : UInt64) : Nat → Nat → Result → EngineM Result
  | 0, _, result => return result
  | fuel + 1, pos, result =>
    if pos < file.length then do
      match ← readCommitRecordFromFile file pos with
      | (none, _) => return result
      | (some record, nextPos) =>
        if record.txnId > targetTxnId then do
          cleanupCommitRecord record
          return result
        else do
          applyCommitRecord record
          let e ← MonadState.get
          cleanupCommitRecord record
          rebuildLoop file targetTxnId fuel nextPos
            ⟨result.processedTxns + 1, record.txnId, e.memtable.length⟩
    else return result

def rebuildToTxnId (file : Option Bytes) (targetTxnId : UInt64) : EngineM Result := do
  clearState
  match file with
  | none => return {}
  | some file => rebuildLoop file targetTxnId file.length 0 {}

def rebuildAll (file : Option Bytes) : EngineM Result := rebuildToTxnId file (UInt64.ofNat (2 ^ 64 - 1))

/-- Rebuilds one after another; an error of the log leaves an engine, an illegal `free` does not. -/
def runCalls : ReplayEngine → List (Option Bytes × UInt64) → Option ReplayEngine
  | e, [] => some e
  | e, (file, targetTxnId) :: calls =>
    match (rebuildToTxnId file targetTxnId).run e with
    | .ok _ e => runCalls e calls
    | .error (.log _) e => runCalls e calls
    | .error .invalidFree _ => none

end ReplayEngine

structure LogFrame where
  header : RecordHeader
  payload : Bytes
  trailer : Bytes
  magic : header.magic = 0x4C4F4752
  payloadLen : header.payloadLen.toNat = payload.length
  trailerLength : trailer.length = recordTrailerSize

namespace LogFrame

def readHeader (f : LogFrame) : RecordHeader :=
  { f.header with headerCrc32c := calculateExplicitHeaderChecksum f.header }

def bytes (f : LogFrame) : Bytes :=
  f.header.bytes (calculateExplicitHeaderChecksum f.header) ++ (f.payload ++ f.trailer)

def file (fs : List LogFrame) : Bytes := fs.flatMap bytes

/-- The payload is the one the header was written for. -/
def Intact (f : LogFrame) : Prop := Crc32.hash f.payload = f.header.payloadCrc32c

instance (f : LogFrame) : Decidable f.Intact := inferInstanceAs (Decidable (_ = _))

/-- A commit record that the engine takes. -/
def Good (f : LogFrame) : Prop :=
  f.header.recordType = 0 ∧ f.Intact ∧ readU32 (window f.trailer 0 4) = 0x52474F4C

instance (f : LogFrame) : Decidable f.Good := inferInstanceAs (Decidable (_ ∧ _ ∧ _))

/-- A well-formed commit record. -/
def Carries (f : LogFrame) (r : CommitRecord) : Prop :=
  f.Good ∧ CommitRecord.deserialize f.payload = .ok r

theorem length_bytes (f : LogFrame) :
    f.bytes.length = RecordHeader.size + f.payload.length + recordTrailerSize := by
  unfold bytes
  rw [List.length_append, List.length_append, RecordHeader.length_bytes, f.trailerLength, Nat.add_assoc]

theorem length_bytes_pos (f : LogFrame) : 0 < f.bytes.length := by
  rw [length_bytes]
  unfold RecordHeader.size
  omega

theorem recordSize_readHeader (f : LogFrame) : f.readHeader.recordSize = f.bytes.length := by
  rw [length_bytes, ← f.payloadLen]
  rfl

theorem length_le_file (fs : List LogFrame) : fs.length ≤ (file fs).length := by
  induction fs with
  | nil => exact Nat.zero_le _
  | cons f fs ih =>
    have hpos := f.length_bytes_pos
    show fs.length + 1 ≤ (f.bytes ++ file fs).length
    rw [List.length_append]
    omega

section Read

variable (f : LogFrame) (pre post : Bytes)

theorem validHeaderAt_bytes : validHeaderAt (pre ++ (f.bytes ++ post)) pre.length = some f.readHeader := by
  have hwindow : window (pre ++ (f.bytes ++ post)) pre.length RecordHeader.size =
      f.header.bytes (calculateExplicitHeaderChecksum f.header) := by
    unfold bytes
    rw [List.append_assoc]
    exact window_append_middle rfl (RecordHeader.length_bytes ..)
  unfold validHeaderAt headerAt
  dsimp only
  rw [hwindow, if_neg (by rw [RecordHeader.length_bytes]; exact Nat.lt_irrefl _),
    RecordHeader.readExplicitHeader_bytes]
  dsimp only
  rw [if_neg fun hno => hno f.magic]
  dsimp only
  rw [if_neg fun hno => hno rfl]
  rfl

theorem window_payload :
    window (pre ++ (f.bytes ++ post)) (pre.length + RecordHeader.size) f.payload.length = f.payload := by
  have hsplit : pre ++ (f.bytes ++ post) = (pre ++ f.header.bytes
      (calculateExplicitHeaderChecksum f.header)) ++ (f.payload ++ (f.trailer ++ post)) := by
    unfold bytes
    simp only [List.append_assoc]
  rw [hsplit]
  apply window_append_middle _ rfl
  rw [List.length_append, RecordHeader.length_bytes]

theorem window_trailer :
    window (pre ++ (f.bytes ++ post)) (pre.length + RecordHeader.size + f.payload.length)
      recordTrailerSize = f.trailer := by
  have hsplit : pre ++ (f.bytes ++ post) = (pre ++ f.header.bytes
      (calculateExplicitHeaderChecksum f.header) ++ f.payload) ++ (f.trailer ++ post) := by
    unfold bytes
    simp only [List.append_assoc]
  rw [hsplit]
  apply window_append_middle _ f.trailerLength
  rw [List.length_append, List.length_append, RecordHeader.length_bytes]

end Read

def ofRecord (lsn : Nat) (r : CommitRecord) (h : r.Accepted) : LogFrame where
  header := r.frameHeader lsn
  payload := r.payload
  trailer := r.frameTrailer
  magic := rfl
  payloadLen := by
    show (UInt32.ofNat r.payload.length).toNat = _
    rw [UInt32.toNat_ofNat', Nat.mod_eq_of_lt (by have := h.2.2.2; omega)]
  trailerLength := r.length_frameTrailer

theorem carries_ofRecord (lsn : Nat) {r : CommitRecord} (h : r.Accepted) (hreadable : r.Readable) :
    (ofRecord lsn r h).Carries r := by
  refine ⟨⟨rfl, rfl, ?_⟩, (CommitRecord.deserialize_payload h.2.2.1 h.2.1 h.1).1 hreadable⟩
  show readU32 (window r.frameTrailer 0 4) = _
  unfold CommitRecord.frameTrailer trailerFields
  simp only [List.map_cons, List.flatten_cons]
  rw [window_head (length_u32 _), readU32_u32]

end LogFrame

namespace ReplayEngine

theorem readPayload_frame (f : LogFrame) (pre post : Bytes) :
    (f.Good → readPayload (pre ++ (f.bytes ++ post)) pre.length =
      (some f.payload, pre.length + f.bytes.length)) ∧
    (¬ f.Good → (readPayload (pre ++ (f.bytes ++ post)) pre.length).1 = none) := by
  have htotal : ¬ pre.length + f.bytes.length > (pre ++ (f.bytes ++ post)).length := by
    rw [List.length_append, List.length_append]
    omega
  have hpayloadLen : f.readHeader.payloadLen.toNat = f.payload.length := f.payloadLen
  have htrailer : ¬ f.trailer.length < recordTrailerSize := by
    rw [f.trailerLength]
    exact Nat.lt_irrefl _
  have hread : readPayload (pre ++ (f.bytes ++ post)) pre.length =
      if f.header.recordType ≠ 0 then (none, pre.length + f.bytes.length)
      else if Crc32.hash f.payload ≠ f.header.payloadCrc32c then (none, pre.length + f.bytes.length)
      else if readU32 (window f.trailer 0 4) ≠ 0x52474F4C then (none, pre.length + f.bytes.length)
      else (some f.payload, pre.length + f.bytes.length) := by
    unfold readPayload
    rw [f.validHeaderAt_bytes]
    dsimp only
    rw [f.recordSize_readHeader, hpayloadLen, f.window_payload, f.window_trailer]
    simp only [htotal, htrailer, Nat.lt_irrefl, if_false]
    rfl
  rw [hread]
  constructor
  · intro hgood
    rw [if_neg (not_not.mpr hgood.1), if_neg (fun hno => hno hgood.2.1), if_neg (not_not.mpr hgood.2.2)]
  · intro hbad
    split
    · rfl
    next htype =>
      split
      · rfl
      next hcrc =>
        split
        · rfl
        next hmagic =>
          exact absurd ⟨not_not.mp htype, not_not.mp hcrc, not_not.mp hmagic⟩ hbad

end ReplayEngine

end Northstar.Zig
