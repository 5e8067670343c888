import Mathlib.Data.List.AList
import Northstar.Cartridge.Format
import Northstar.Zig.Page

/-!
# PendingTasks — the cartridge of pending tasks by type

`src/cartridges/pending_tasks.zig`.  Tasks are collected in memory and written as one file: the header, an
index with the names of the types, the data section with the tasks, and the metadata.  A file that is opened
keeps its data section in memory, and the tasks are read from there when they are asked for.  The order in
which a hash map is iterated is an input.  The file is at least as long as the list of tasks, so the count of
the entries fits its field.
-/

namespace Northstar.Cartridge

open Bytes

structure TaskOffset where
  offset : Nat
  size : Nat
  deriving Repr, DecidableEq

structure CartridgeTaskEntry where
  key : Bytes
  taskType : Bytes
  priority : UInt8
  claimed : Bool
  claimedBy : Option Bytes
  claimTime : Option UInt64
  deriving Repr, DecidableEq

structure CartridgeTypeEntry where
  taskType : Bytes
  tasks : List TaskOffset
  firstTaskOffset : Nat
  lastTaskOffset : Nat
  deriving Repr, DecidableEq

/-- `StringHashMap(CartridgeTypeEntry)`. -/
abbrev TypeIndex := AList fun _ : Bytes => CartridgeTypeEntry

/-- `StringHashMap(TaskOffset)`. -/
abbrev KeyIndex := AList fun _ : Bytes => TaskOffset

structure PendingTasksCartridge where
  header : CartridgeHeader
  metadata : CartridgeMetadata
  typeIndex : TypeIndex
  keyIndex : KeyIndex
  tasks : List CartridgeTaskEntry
  mappedData : Option Bytes
  deriving DecidableEq

/-- Put and delete below `task:`, and the ages. -/
def createTaskInvalidationPolicy : Except CartridgeError InvalidationPolicy := do
  let policy := { InvalidationPolicy.default with maxAgeSeconds := 3600, minNewTxns := 10, maxNewTxns := 1000 }
  let policy ← policy.addPattern
    { keyPrefix := ascii "task:", checkMutationType := true, mutationType := some .put }
  policy.addPattern
    { keyPrefix := ascii "task:", checkMutationType := true, mutationType := some .delete }

/-- `readTaskAt`. -/
def readTaskAt (data : Bytes) (offset : Nat) : Except CartridgeError CartridgeTaskEntry :=
  if offset + 8 > data.length then .error .invalidTaskOffset
  else
    let flags := data.getD offset 0
    let priority := data.getD (offset + 1) 0
    let typeLen := toNat (window data (offset + 2) 2)
    let keyLen := toNat (window data (offset + 4) 4)
    let typeStart := offset + 8
    let keyStart := typeStart + typeLen
    if keyStart + keyLen > data.length then .error .invalidTaskData
    else
      let taskType := window data typeStart typeLen
      let key := window data keyStart keyLen
      let pos := keyStart + keyLen
      if flags &&& 0x01 ≠ 0 ∧ pos + 12 ≤ data.length then
        let claimantLen := toNat (window data pos 2)
        let pos := pos + 2
        if claimantLen > 0 ∧ pos + claimantLen + 8 ≤ data.length then
          .ok { key, taskType, priority, claimed := true, claimedBy := some (window data pos claimantLen),
                claimTime := some (readU64 (window data (pos + claimantLen) 8)) }
        else .ok { key, taskType, priority, claimed := true, claimedBy := none, claimTime := none }
      else .ok { key, taskType, priority, claimed := false, claimedBy := none, claimTime := none }

/-- What a pass over the data section takes from an entry. -/
structure ScannedEntry where
  start : Nat
  typeStr : Bytes
  keyStr : Bytes
  stop : Nat
  deriving Repr, DecidableEq

def ScannedEntry.taskOffset (e : ScannedEntry) : TaskOffset := ⟨e.start, e.stop - e.start⟩

/-- A turn of the loop; `none` is its `break`. -/
def scanEntry (data : Bytes) (offset : Nat) : Except CartridgeError (Option ScannedEntry) :=
  if offset + 8 > data.length then .ok none
  else
    let flags := data.getD offset 0
    let typeLen := toNat (window data (offset + 2) 2)
    let keyLen := toNat (window data (offset + 4) 4)
    let typeStart := offset + 8
    let keyStart := typeStart + typeLen
    if keyStart + keyLen > data.length then .ok none
    else
      let typeStr := window data typeStart typeLen
      let keyStr := window data keyStart keyLen
      let pos := keyStart + keyLen
      if flags &&& 0x01 ≠ 0 ∧ pos + 10 ≤ data.length then
        let claimantLen := toNat (window data pos 2)
        -- the sum is a `u16`
        if 2 ^ 16 ≤ 2 + claimantLen + 8 then .error .panic
        else .ok (some { start := offset, typeStr, keyStr, stop := pos + (2 + claimantLen + 8) })
      else .ok (some { start := offset, typeStr, keyStr, stop := pos })

/-- The loop that both passes run, with the entries it goes through.  A turn passes 8 bytes at least, so the
length of the data is fuel enough. -/
def scanEntries (data : Bytes) : Nat → Nat → Except CartridgeError (List ScannedEntry)
  | 0, _ => .ok []
  | fuel + 1, offset =>
    if offset < data.length then do
      match ← scanEntry data offset with
      | none => return []
      | some e => return e :: (← scanEntries data fuel e.stop)
    else .ok []

/-- First pass: the last entry with a key stays. -/
def putKey (index : KeyIndex) (e : ScannedEntry) : KeyIndex := index.insert e.keyStr e.taskOffset

/-- Second pass: only types of the index are taken. -/
def putTask (index : TypeIndex) (e : ScannedEntry) : TypeIndex :=
  match index.lookup e.typeStr with
  | none => index
  | some entry => index.insert e.typeStr
    { entry with
      tasks := entry.tasks ++ [e.taskOffset]
      firstTaskOffset := if entry.tasks.length = 0 then e.start else entry.firstTaskOffset
      lastTaskOffset := e.start }

namespace CartridgeTaskEntry

def flags (task : CartridgeTaskEntry) : UInt8 := if task.claimed then 0x01 else 0

def claimant (task : CartridgeTaskEntry) : Bytes := task.claimedBy.getD []

/-- A task as `calculateDataSize` counts it. -/
def dataSize (task : CartridgeTaskEntry) : Nat :=
  1 + 1 + 2 + task.taskType.length + 4 + task.key.length +
    if task.claimed then 2 + task.claimant.length + 8 else 0

def writeClaim (task : CartridgeTaskEntry) : Except CartridgeError Bytes :=
  if task.claimed then do
    let claimantLen ← intCast 2 task.claimant.length
    return le 2 claimantLen ++ (task.claimant ++ u64 (task.claimTime.getD 0))
  else .ok []

/-- A task as `writeDataSection` writes it. -/
def write (task : CartridgeTaskEntry) : Except CartridgeError Bytes := do
  let typeLen ← intCast 2 task.taskType.length
  let keyLen ← intCast 4 task.key.length
  let claim ← task.writeClaim
  return [task.flags] ++ ([task.priority] ++ (le 2 typeLen ++ (task.taskType ++ (le 4 keyLen ++
    (task.key ++ claim)))))

end CartridgeTaskEntry

def calculateDataSize (tasks : List CartridgeTaskEntry) : Nat :=
  (tasks.map CartridgeTaskEntry.dataSize).sum

def writeDataSection (tasks : List CartridgeTaskEntry) : Except CartridgeError Bytes := do
  let entries ← tasks.mapM CartridgeTaskEntry.write
  return entries.flatten

namespace CartridgeTypeEntry

def indexSize (entry : CartridgeTypeEntry) : Nat := 2 + entry.taskType.length + (4 + 8 + 8 + 4)

/-- The two offsets and the checksum are placeholders. -/
def write (entry : CartridgeTypeEntry) : Except CartridgeError Bytes := do
  let typeLen ← intCast 2 entry.taskType.length
  let count ← intCast 4 entry.tasks.length
  return le 2 typeLen ++ (entry.taskType ++ (le 4 count ++ (u64 0 ++ (u64 0 ++ u32 0))))

def read : Reader CartridgeError CartridgeTypeEntry := do
  let typeNameLen ← readInt16
  let typeName ← readNoEof typeNameLen.toNat
  let _taskCount ← readInt32
  let firstOffset ← readInt64
  let lastOffset ← readInt64
  let _checksum ← readInt32
  return { taskType := typeName, tasks := [], firstTaskOffset := firstOffset.toNat,
           lastTaskOffset := lastOffset.toNat }

end CartridgeTypeEntry

def calculateIndexSize (entries : List CartridgeTypeEntry) : Nat :=
  4 + (entries.map CartridgeTypeEntry.indexSize).sum

def writeIndexSection (entries : List CartridgeTypeEntry) : Except CartridgeError Bytes := do
  let count ← intCast 4 entries.length
  let written ← entries.mapM CartridgeTypeEntry.write
  return le 4 count ++ written.flatten

def readIndexSection : Reader CartridgeError TypeIndex := do
  let typeCount ← readInt32
  let entries ← Reader.readMany CartridgeTypeEntry.read typeCount.toNat
  return entries.foldl (fun index entry => index.insert entry.taskType entry) ∅

/-- A stream over a buffer of `size` bytes.  What is not written stays undefined. -/
def fixedBuffer (size : Nat) (written : Bytes) : Except CartridgeError Bytes :=
  if written.length ≤ size then .ok (written ++ List.replicate (size - written.length) 0xAA)
  else .error .noSpaceLeft

/-- A buffer that is filled with one read. -/
def pread (file : Bytes) (offset len : Nat) : Bytes :=
  window file offset len ++ List.replicate (len - (window file offset len).length) 0xAA

def checkedSub (a b : Nat) : Except CartridgeError Nat := if b ≤ a then .ok (a - b) else .error .panic

namespace PendingTasksCartridge

def init (sourceTxnId timestamp : UInt64) : Except CartridgeError PendingTasksCartridge := do
  let policy ← createTaskInvalidationPolicy
  return { header := .init .pendingTasksByType sourceTxnId timestamp
           metadata := { CartridgeMetadata.init (ascii "pending_tasks_by_type_v1") with
             invalidationPolicy := policy }
           typeIndex := ∅
           keyIndex := ∅
           tasks := []
           mappedData := none }

def addTask (self : PendingTasksCartridge) (task : CartridgeTaskEntry) : PendingTasksCartridge :=
  let offset : TaskOffset := ⟨0, 0⟩
  let entry := (self.typeIndex.lookup task.taskType).getD ⟨task.taskType, [], 0, 0⟩
  { self with
    tasks := self.tasks ++ [task]
    keyIndex := self.keyIndex.insert task.key offset
    typeIndex := self.typeIndex.insert task.taskType { entry with tasks := entry.tasks ++ [offset] }
    header := { self.header with entryCount := self.header.entryCount + 1 } }

/-- `entries` is the order in which the type index is iterated. -/
def totalSize (self : PendingTasksCartridge) (entries : List CartridgeTypeEntry) : Nat :=
  CartridgeHeader.size + calculateIndexSize entries + calculateDataSize self.tasks +
    self.metadata.serializedSize

def writeToFile (self : PendingTasksCartridge) (entries : List CartridgeTypeEntry) :
    Except CartridgeError Bytes :=
  if 2 ^ 64 ≤ self.totalSize entries then .error .panic
  else do
    let indexOffset := CartridgeHeader.size
    let dataOffset := indexOffset + calculateIndexSize entries
    let metadataOffset := dataOffset + calculateDataSize self.tasks
    let headerBuf ← fixedBuffer CartridgeHeader.size self.header.serialize
    let index ← writeIndexSection entries
    let indexBuf ← fixedBuffer (calculateIndexSize entries) index
    let data ← writeDataSection self.tasks
    let dataBuf ← fixedBuffer (calculateDataSize self.tasks) data
    let metadata ← self.metadata.serialize
    let metadataBuf ← fixedBuffer self.metadata.serializedSize metadata
    let checksum := Zig.crc32c (headerBuf ++ (indexBuf ++ (dataBuf ++ metadataBuf)))
    let header := { self.header with indexOffset, dataOffset, metadataOffset, checksum }
    let headerBuf ← fixedBuffer CartridgeHeader.size header.serialize
    return headerBuf ++ (indexBuf ++ (dataBuf ++ metadataBuf))

def loadIndexFromFile (self : PendingTasksCartridge) (file : Bytes) :
    Except CartridgeError PendingTasksCartridge := do
  let indexSize ← checkedSub self.header.dataOffset self.header.indexOffset
  let (typeIndex, _) ← readIndexSection (pread file self.header.indexOffset indexSize)
  return { self with typeIndex }

def mapDataSection (self : PendingTasksCartridge) (file : Bytes) :
    Except CartridgeError PendingTasksCartridge := do
  let dataSize ← checkedSub self.header.metadataOffset self.header.dataOffset
  let data := window file self.header.dataOffset dataSize
  if dataSize = 0 then return { self with mappedData := none }
  else if data.length ≠ dataSize then throw .ioError
  else
    let entries ← scanEntries data dataSize 0
    return { self with
      keyIndex := entries.foldl putKey self.keyIndex
      typeIndex := entries.foldl putTask self.typeIndex
      mappedData := some data }

def openFile (file : Bytes) : Except CartridgeError PendingTasksCartridge :=
  if file.length < CartridgeHeader.size then .error .fileTooSmall
  else do
    let (header, _) ← CartridgeHeader.deserialize (pread file 0 CartridgeHeader.size)
    header.validate
    if header.cartridgeType ≠ .pendingTasksByType then throw .wrongCartridgeType
    else
      let metadataSize ← checkedSub file.length header.metadataOffset
      let (metadata, _) ← CartridgeMetadata.deserialize (pread file header.metadataOffset metadataSize)
      let cartridge : PendingTasksCartridge :=
        { header, metadata, typeIndex := ∅, keyIndex := ∅, tasks := [], mappedData := none }
      let cartridge ← cartridge.loadIndexFromFile file
      cartridge.mapDataSection file

def getTask (self : PendingTasksCartridge) (key : Bytes) : Except CartridgeError (Option CartridgeTaskEntry) :=
  match self.keyIndex.lookup key, self.mappedData with
  | some offset, some data => do return some (← readTaskAt data offset.offset)
  | _, _ => .ok none

def getTasksByType (self : PendingTasksCartridge) (taskType : Bytes) :
    Except CartridgeError (List CartridgeTaskEntry) :=
  match self.typeIndex.lookup taskType, self.mappedData with
  | some entry, some data => entry.tasks.mapM fun offset => readTaskAt data offset.offset
  | _, _ => .ok []

end PendingTasksCartridge

end Northstar.Cartridge
