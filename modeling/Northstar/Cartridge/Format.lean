import Northstar.Lib.Reader

/-!
# Format — the sections of a cartridge file

`src/cartridges/format.zig`: the header of 64 bytes, and the metadata with its invalidation policy.  Sizes and
offsets are naturals, cut to their width where they become bytes.  A cast that `@intCast` does not take and an
integer overflow are a panic in a safe build; here they are the error `panic`.
-/

namespace Northstar.Cartridge

open Bytes

inductive CartridgeError where
  | panic
  | noSpaceLeft
  | endOfStream
  | invalidMagic
  | unsupportedVersion
  | invalidEnumTag
  | wrongCartridgeType
  | fileTooSmall
  | tooManyPatterns
  | invalidMutationType
  | ioError
  | invalidTaskOffset
  | invalidTaskData
  deriving Repr, DecidableEq

/-- `@intCast` to an unsigned type of `width` bytes. -/
def intCast (width n : Nat) : Except CartridgeError Nat := if n < 256 ^ width then .ok n else .error .panic

/-- The bytes of a string literal of the source. -/
def ascii (s : String) : Bytes := s.toList.map fun c => UInt8.ofNat c.toNat

def readByte : Reader CartridgeError UInt8 := Reader.readU8 .endOfStream
def readInt16 : Reader CartridgeError UInt16 := Reader.readU16 .endOfStream
def readInt32 : Reader CartridgeError UInt32 := Reader.readU32 .endOfStream
def readInt64 : Reader CartridgeError UInt64 := Reader.readU64 .endOfStream
def readNoEof (len : Nat) : Reader CartridgeError Bytes := Reader.readExact .endOfStream len

def cartridgeMagic : UInt32 := 0x4E434152

structure Version where
  major : UInt8
  minor : UInt8
  patch : UInt8
  deriving Repr, DecidableEq

def cartridgeVersion : Version := ⟨1, 0, 0⟩

inductive CartridgeType where
  | pendingTasksByType
  | entityIndex
  | topicIndex
  | relationshipGraph
  | semanticEmbeddings
  | temporalHistory
  | documentHistory
  | custom
  deriving Repr, DecidableEq

namespace CartridgeType

def toInt : CartridgeType → UInt32
  | pendingTasksByType => 0x50544254
  | entityIndex => 0x454E5449
  | topicIndex => 0x544F5049
  | relationshipGraph => 0x52454C47
  | semanticEmbeddings => 0x56454D42
  | temporalHistory => 0x54484953
  | documentHistory => 0x44464849
  | custom => 0x43555354

def fromUint (v : UInt32) : Except CartridgeError CartridgeType :=
  if v = 0x50544254 then .ok pendingTasksByType
  else if v = 0x454E5449 then .ok entityIndex
  else if v = 0x544F5049 then .ok topicIndex
  else if v = 0x52454C47 then .ok relationshipGraph
  else if v = 0x56454D42 then .ok semanticEmbeddings
  else if v = 0x54484953 then .ok temporalHistory
  else if v = 0x44464849 then .ok documentHistory
  else if v = 0x43555354 then .ok custom
  else .error .invalidEnumTag

theorem fromUint_toInt (t : CartridgeType) : fromUint t.toInt = .ok t := by
  cases t <;> rfl

end CartridgeType

structure CartridgeHeader where
  magic : UInt32 := cartridgeMagic
  version : Version := cartridgeVersion
  -- `FeatureFlags`, of which only `checksummed` is set
  flags : UInt8 := 0x04
  cartridgeType : CartridgeType
  createdAt : UInt64
  sourceTxnId : UInt64
  entryCount : Nat
  indexOffset : Nat
  dataOffset : Nat
  metadataOffset : Nat
  checksum : UInt32
  deriving Repr, DecidableEq

namespace CartridgeHeader

def size : Nat := 64

def init (cartridgeType : CartridgeType) (sourceTxnId timestamp : UInt64) : CartridgeHeader where
  cartridgeType := cartridgeType
  createdAt := timestamp
  sourceTxnId := sourceTxnId
  entryCount := 0
  indexOffset := size
  dataOffset := 0
  metadataOffset := 0
  checksum := 0

def serialize (header : CartridgeHeader) : Bytes :=
  u32 header.magic ++ ([header.version.major] ++ ([header.version.minor] ++ ([header.version.patch] ++
    ([header.flags] ++ (u32 header.cartridgeType.toInt ++ (u64 header.createdAt ++ (u64 header.sourceTxnId ++
      (u64 (.ofNat header.entryCount) ++ (u64 (.ofNat header.indexOffset) ++
        (u64 (.ofNat header.dataOffset) ++ (u64 (.ofNat header.metadataOffset) ++
          u32 header.checksum)))))))))))

def deserialize : Reader CartridgeError CartridgeHeader := do
  let magic ← readInt32
  if magic ≠ cartridgeMagic then throw .invalidMagic
  let major ← readByte
  let minor ← readByte
  let patch ← readByte
  let flags ← readByte
  let typeValue ← readInt32
  let createdAt ← readInt64
  let sourceTxnId ← readInt64
  let entryCount ← readInt64
  let indexOffset ← readInt64
  let dataOffset ← readInt64
  let metadataOffset ← readInt64
  let checksum ← readInt32
  let cartridgeType ← Reader.lift (CartridgeType.fromUint typeValue)
  return { magic, version := ⟨major, minor, patch⟩, flags, cartridgeType, createdAt, sourceTxnId,
           entryCount := entryCount.toNat, indexOffset := indexOffset.toNat,
           dataOffset := dataOffset.toNat, metadataOffset := metadataOffset.toNat, checksum }

def validate (header : CartridgeHeader) : Except CartridgeError Unit :=
  if header.magic ≠ cartridgeMagic then .error .invalidMagic
  else if header.version.major > cartridgeVersion.major then .error .unsupportedVersion
  else .ok ()

theorem length_serialize (header : CartridgeHeader) : header.serialize.length = size := by
  simp [serialize, size]

theorem reads_deserialize (header : CartridgeHeader) (hmagic : header.magic = cartridgeMagic)
    (hentry : header.entryCount < 2 ^ 64) (hindex : header.indexOffset < 2 ^ 64)
    (hdata : header.dataOffset < 2 ^ 64) (hmetadata : header.metadataOffset < 2 ^ 64) :
    deserialize.Reads header.serialize header := by
  have hword : ∀ n, n < 2 ^ 64 → (UInt64.ofNat n).toNat = n := by
    intro n hn
    rw [UInt64.toNat_ofNat', Nat.mod_eq_of_lt hn]
  unfold deserialize serialize
  apply (Reader.reads_u32 _ _).bind
  rw [if_neg (not_not.mpr hmagic)]
  apply (Reader.reads_u8 _ _).bind
  apply (Reader.reads_u8 _ _).bind
  apply (Reader.reads_u8 _ _).bind
  apply (Reader.reads_u8 _ _).bind
  apply (Reader.reads_u32 _ _).bind
  apply (Reader.reads_u64 _ _).bind
  apply (Reader.reads_u64 _ _).bind
  apply (Reader.reads_u64 _ _).bind
  apply (Reader.reads_u64 _ _).bind
  apply (Reader.reads_u64 _ _).bind
  apply (Reader.reads_u64 _ _).bind
  apply (Reader.reads_u32 _ _).bind_lift
  rw [hword _ hentry, hword _ hindex, hword _ hdata, hword _ hmetadata]
  show Reader.Reads _ ([] ++ []) header
  apply Reader.Reads.bind
  · exact Reader.Reads.lift (CartridgeType.fromUint_toInt header.cartridgeType)
  · exact Reader.Reads.pure header

end CartridgeHeader

inductive InvalidationMutationType where
  | put
  | delete
  | any
  deriving Repr, DecidableEq

structure InvalidationPattern where
  keyPrefix : Bytes
  checkMutationType : Bool
  mutationType : Option InvalidationMutationType
  deriving Repr, DecidableEq

namespace InvalidationPattern

def serializedSize (self : InvalidationPattern) : Nat :=
  2 + self.keyPrefix.length + 1 + if self.checkMutationType then 1 else 0

def mutationTypeByte : Option InvalidationMutationType → UInt8
  | some .put => 1
  | some .delete => 2
  | some .any => 0
  | none => 0

def serialize (self : InvalidationPattern) : Except CartridgeError Bytes := do
  let length ← intCast 2 self.keyPrefix.length
  let flags : UInt8 := if self.checkMutationType then 0x01 else 0
  return le 2 length ++ (self.keyPrefix ++ ([flags] ++
    if self.checkMutationType then [mutationTypeByte self.mutationType] else []))

def deserialize : Reader CartridgeError InvalidationPattern := do
  let length ← readInt16
  let keyPrefix ← readNoEof length.toNat
  let flags ← readByte
  let checkMutationType := flags &&& 0x01 ≠ 0
  if checkMutationType then
    let value ← readByte
    if value = 1 then return { keyPrefix, checkMutationType, mutationType := some .put }
    else if value = 2 then return { keyPrefix, checkMutationType, mutationType := some .delete }
    else if value = 0 then return { keyPrefix, checkMutationType, mutationType := some .any }
    else throw .invalidMutationType
  else return { keyPrefix, checkMutationType, mutationType := none }

end InvalidationPattern

/-- `pattern_count` is the length of the list of patterns. -/
structure InvalidationPolicy where
  maxAgeSeconds : UInt64
  minNewTxns : UInt64
  maxNewTxns : UInt64
  patterns : List InvalidationPattern
  deriving Repr, DecidableEq

namespace InvalidationPolicy

def maxPatterns : Nat := 16

def default : InvalidationPolicy := ⟨86400, 100, 10000, []⟩

def addPattern (self : InvalidationPolicy) (pattern : InvalidationPattern) :
    Except CartridgeError InvalidationPolicy :=
  if self.patterns.length ≥ maxPatterns then .error .tooManyPatterns
  else .ok { self with patterns := self.patterns ++ [pattern] }

def serializedSize (self : InvalidationPolicy) : Nat :=
  8 + 8 + 8 + 4 + (self.patterns.map InvalidationPattern.serializedSize).sum

def serialize (self : InvalidationPolicy) : Except CartridgeError Bytes := do
  let patterns ← self.patterns.mapM InvalidationPattern.serialize
  return u64 self.maxAgeSeconds ++ (u64 self.minNewTxns ++ (u64 self.maxNewTxns ++
    (u32 (.ofNat self.patterns.length) ++ patterns.flatten)))

def deserialize : Reader CartridgeError InvalidationPolicy := do
  let maxAgeSeconds ← readInt64
  let minNewTxns ← readInt64
  let maxNewTxns ← readInt64
  let patternCount ← readInt32
  if patternCount.toNat > maxPatterns then throw .tooManyPatterns
  let patterns ← Reader.readMany InvalidationPattern.deserialize patternCount.toNat
  return { maxAgeSeconds, minNewTxns, maxNewTxns, patterns }

end InvalidationPolicy

structure SchemaVersion where
  major : UInt32
  minor : UInt32
  patch : UInt32
  deriving Repr, DecidableEq

structure CartridgeMetadata where
  formatName : Bytes
  schemaVersion : SchemaVersion
  buildTimeMs : UInt64
  sourceDbHash : Bytes
  builderVersion : Bytes
  invalidationPolicy : InvalidationPolicy
  deriving Repr, DecidableEq

namespace CartridgeMetadata

def init (formatName : Bytes) : CartridgeMetadata where
  formatName := formatName
  schemaVersion := ⟨1, 0, 0⟩
  buildTimeMs := 0
  sourceDbHash := List.replicate 32 0
  builderVersion := ascii "northstar_db.cartridge.v1"
  invalidationPolicy := .default

def serializedSize (self : CartridgeMetadata) : Nat :=
  32 + 12 + 8 + 32 + 32 + self.invalidationPolicy.serializedSize

def nameField (name : Bytes) : Bytes :=
  name.take 31 ++ List.replicate (32 - (name.take 31).length) 0

def readName : Reader CartridgeError Bytes := do
  let field ← readNoEof 32
  return field.takeWhile (· ≠ 0)

def serialize (self : CartridgeMetadata) : Except CartridgeError Bytes := do
  let policy ← self.invalidationPolicy.serialize
  return nameField self.formatName ++ (u32 self.schemaVersion.major ++ (u32 self.schemaVersion.minor ++
    (u32 self.schemaVersion.patch ++ (u64 self.buildTimeMs ++ (self.sourceDbHash ++
      (nameField self.builderVersion ++ policy))))))

def deserialize : Reader CartridgeError CartridgeMetadata := do
  let formatName ← readName
  let major ← readInt32
  let minor ← readInt32
  let patch ← readInt32
  let buildTimeMs ← readInt64
  let sourceDbHash ← readNoEof 32
  let builderVersion ← readName
  let invalidationPolicy ← InvalidationPolicy.deserialize
  return { formatName, schemaVersion := ⟨major, minor, patch⟩, buildTimeMs, sourceDbHash, builderVersion,
           invalidationPolicy }

end CartridgeMetadata

end Northstar.Cartridge
