import Northstar.Lib.Reader

/-!
# StructuredMemory — the bytes of an entity and of its attributes

`src/cartridges/structured_memory.zig`: `AttributeValue.serialize` and `deserialize`, `Attribute.serializedSize`,
`Entity.serialize` and `serializedSize`.  Floats are their bit patterns.  A length that `@intCast` does not take is
a panic in a safe build; here it is the error `panic`.
-/

namespace Northstar.Cartridge.StructuredMemory

open Bytes Reader

inductive MemoryError where
  | panic
  | endOfStream
  | invalidAttributeType
  deriving Repr, DecidableEq

def readByte : Reader MemoryError UInt8 := readU8 .endOfStream
def readLength : Reader MemoryError UInt16 := readU16 .endOfStream
def readWord : Reader MemoryError UInt64 := readU64 .endOfStream

/-- `writeInt(u16, @intCast(n))`. -/
def writeLength (n : Nat) : Except MemoryError Bytes := if n < 65536 then .ok (u16 (.ofNat n)) else .error .panic

def writeSlice (s : Bytes) : Except MemoryError Bytes := do
  let length ← writeLength s.length
  return length ++ s

def readSlice : Reader MemoryError Bytes := do
  let len ← readLength
  readExact .endOfStream len.toNat

inductive EntityType
  | file
  | person
  | function
  | commit
  | topic
  | project
  | repository
  | issue
  | pullRequest
  | custom
  deriving Repr, DecidableEq

def EntityType.toUint : EntityType → UInt8
  | file => 1
  | person => 2
  | function => 3
  | commit => 4
  | topic => 5
  | project => 6
  | repository => 7
  | issue => 8
  | pullRequest => 9
  | custom => 255

inductive AttributeValue
  | string (s : Bytes)
  | integer (i : Int64)
  | float (bits : UInt64)
  | boolean (b : Bool)
  | stringArray (items : List Bytes)
  | integerArray (items : List Int64)
  deriving Repr, DecidableEq

namespace AttributeValue

def typeByte : AttributeValue → UInt8
  | string _ => 1
  | integer _ => 2
  | float _ => 3
  | boolean _ => 4
  | stringArray _ => 5
  | integerArray _ => 6

def writeInteger (i : Int64) : Bytes := u64 i.toUInt64

def readInteger : Reader MemoryError Int64 := do return (← readWord).toInt64

/-- What stands behind the type byte. -/
def serializeContent : AttributeValue → Except MemoryError Bytes
  | string s => writeSlice s
  | integer i => .ok (writeInteger i)
  | float bits => .ok (u64 bits)
  | boolean b => .ok [if b then 1 else 0]
  | stringArray items => do
    let length ← writeLength items.length
    let bytes ← writeEach writeSlice items
    return length ++ bytes
  | integerArray items => do
    let length ← writeLength items.length
    return length ++ items.flatMap writeInteger

def serialize (self : AttributeValue) : Except MemoryError Bytes := do
  let content ← self.serializeContent
  return [self.typeByte] ++ content

def deserializeContent (valueType : UInt8) : Reader MemoryError AttributeValue :=
  if valueType = 1 then do return string (← readSlice)
  else if valueType = 2 then do return integer (← readInteger)
  else if valueType = 3 then do return float (← readWord)
  else if valueType = 4 then do return boolean ((← readByte) ≠ 0)
  else if valueType = 5 then do
    let len ← readLength
    return stringArray (← readMany readSlice len.toNat)
  else if valueType = 6 then do
    let len ← readLength
    return integerArray (← readMany readInteger len.toNat)
  else throw .invalidAttributeType

def deserialize : Reader MemoryError AttributeValue := do
  let valueType ← readByte
  deserializeContent valueType

/-- Every length fits into its field. -/
def Fits : AttributeValue → Prop
  | string s => s.length ≤ 65535
  | stringArray items => items.length ≤ 65535 ∧ ∀ item ∈ items, item.length ≤ 65535
  | integerArray items => items.length ≤ 65535
  | _ => True

end AttributeValue

structure Attribute where
  key : Bytes
  value : AttributeValue
  confidence : UInt32
  source : Bytes
  deriving Repr, DecidableEq

namespace Attribute

def serializedValueSize (self : Attribute) : Nat :=
  match self.value with
  | .string s => 2 + s.length
  | .integer _ => 8
  | .float _ => 8
  | .boolean _ => 1
  | .stringArray items => 2 + (items.map fun item => 2 + item.length).sum
  | .integerArray items => 2 + 8 * items.length

def serializedSize (self : Attribute) : Nat :=
  -- the single byte is the type of the value
  2 + self.key.length + 1 + self.serializedValueSize + 4 + (2 + self.source.length)

/-- The turn of the loop of `Entity.serialize`. -/
def serialize (self : Attribute) : Except MemoryError Bytes := do
  let key ← writeSlice self.key
  let value ← self.value.serialize
  let source ← writeSlice self.source
  -- the confidence stands between value and source
  return key ++ (value ++ (u32 self.confidence ++ source))

structure Fits (attr : Attribute) : Prop where
  key : attr.key.length ≤ 65535
  value : attr.value.Fits
  source : attr.source.length ≤ 65535

end Attribute

structure EntityId where
  «namespace» : Bytes
  localId : Bytes
  deriving Repr, DecidableEq

structure Entity where
  id : EntityId
  type : EntityType
  attributes : List Attribute
  createdAt : UInt64
  lastModified : UInt64
  confidence : UInt32
  createdBy : Bytes
  deriving Repr, DecidableEq

namespace Entity

def serializedSize (self : Entity) : Nat :=
  2 + 4 + 8 + 8 + (2 + self.id.namespace.length) + (2 + self.id.localId.length) + 2
    + (self.attributes.map Attribute.serializedSize).sum

def serialize (self : Entity) : Except MemoryError Bytes := do
  let «namespace» ← writeSlice self.id.namespace
  let localId ← writeSlice self.id.localId
  let count ← writeLength self.attributes.length
  let attributes ← writeEach Attribute.serialize self.attributes
  return [0, self.type.toUint] ++ (u32 self.confidence ++ (u64 self.createdAt ++ (u64 self.lastModified ++
    («namespace» ++ (localId ++ (count ++ attributes))))))

structure Fits (entity : Entity) : Prop where
  «namespace» : entity.id.namespace.length ≤ 65535
  localId : entity.id.localId.length ≤ 65535
  count : entity.attributes.length ≤ 65535
  attributes : ∀ attr ∈ entity.attributes, attr.Fits

end Entity

variable {n : Nat} {s bytes : Bytes} {v : AttributeValue}

theorem writeLength_of_le (h : n ≤ 65535) : writeLength n = .ok (u16 (.ofNat n)) := if_pos (by omega)

theorem toNat_length (h : n ≤ 65535) : (UInt16.ofNat n).toNat = n := by
  rw [UInt16.toNat_ofNat', Nat.mod_eq_of_lt (by omega)]

theorem roundTrips_slice (h : s.length ≤ 65535) : RoundTrips writeSlice readSlice s := by
  refine ⟨u16 (.ofNat s.length) ++ s, ?_, ?_⟩
  · unfold writeSlice
    rw [writeLength_of_le h]
    rfl
  · apply (reads_u16 _ _).bind
    -- the length comes back out of its 16 bits
    rw [toNat_length h]
    exact reads_exact _ s

theorem RoundTrips.counted {α : Type} {w : α → Except MemoryError Bytes} {r : Reader MemoryError α} {items : List α}
    {f : List α → AttributeValue} (hcount : items.length ≤ 65535) (h : ∀ item ∈ items, RoundTrips w r item) :
    ∃ bytes, writeEach w items = .ok bytes ∧
      Reads (do let len ← readLength; return f (← readMany r len.toNat)) (u16 (.ofNat items.length) ++ bytes) (f items) := by
  obtain ⟨bytes, hbytes, hreads⟩ := RoundTrips.each h
  refine ⟨bytes, hbytes, ?_⟩
  apply (reads_u16 _ _).bind
  rw [toNat_length hcount]
  exact hreads.map f

theorem reads_integer (i : Int64) : Reads AttributeValue.readInteger (AttributeValue.writeInteger i) i := by
  have hread := (reads_u64 MemoryError.endOfStream i.toUInt64).map UInt64.toInt64
  rw [Int64.toInt64_toUInt64] at hread
  exact hread

theorem writeEach_integers (items : List Int64) :
    writeEach (fun i => .ok (AttributeValue.writeInteger i)) items
      = (.ok (items.flatMap AttributeValue.writeInteger) : Except MemoryError Bytes) := by
  induction items with
  | nil => rfl
  | cons i items ih =>
    unfold writeEach
    rw [Except.ok_bind, ih]
    rfl

theorem roundTrips_content (h : v.Fits) :
    RoundTrips AttributeValue.serializeContent (AttributeValue.deserializeContent v.typeByte) v := by
  cases v with
  | string s =>
    obtain ⟨bytes, hbytes, hreads⟩ := roundTrips_slice h
    exact ⟨bytes, hbytes, hreads.map AttributeValue.string⟩
  | integer i => exact ⟨_, rfl, (reads_integer i).map AttributeValue.integer⟩
  | float bits => exact ⟨_, rfl, (reads_u64 _ bits).map AttributeValue.float⟩
  | boolean b =>
    refine ⟨_, rfl, ?_⟩
    -- any byte but zero would be read as true
    have hread := (reads_u8 MemoryError.endOfStream (if b then 1 else 0)).map fun x => AttributeValue.boolean (x ≠ 0)
    cases b with
    | false => exact hread
    | true => exact hread
  | stringArray items =>
    obtain ⟨bytes, hbytes, hreads⟩ := RoundTrips.counted (f := AttributeValue.stringArray) h.1
      fun item hitem => roundTrips_slice (h.2 item hitem)
    refine ⟨_, ?_, hreads⟩
    dsimp only [AttributeValue.serializeContent]
    rw [writeLength_of_le h.1, Except.ok_bind, hbytes]
    rfl
  | integerArray items =>
    obtain ⟨bytes, hbytes, hreads⟩ := RoundTrips.counted (f := AttributeValue.integerArray) h
      fun item _ => ⟨_, rfl, reads_integer item⟩
    -- the source writes the integers in a loop that cannot fail
    rw [writeEach_integers] at hbytes
    cases hbytes
    refine ⟨_, ?_, hreads⟩
    dsimp only [AttributeValue.serializeContent]
    rw [writeLength_of_le h]
    rfl

theorem roundTrips_value (h : v.Fits) : RoundTrips AttributeValue.serialize AttributeValue.deserialize v := by
  obtain ⟨content, hcontent, hreads⟩ := roundTrips_content h
  refine ⟨[v.typeByte] ++ content, ?_, (reads_u8 _ _).bind hreads⟩
  unfold AttributeValue.serialize
  rw [hcontent]
  rfl

theorem length_writeLength (h : writeLength n = .ok bytes) : bytes.length = 2 := by
  unfold writeLength at h
  split at h
  · cases h
    exact length_u16 _
  · cases h

theorem length_writeSlice (h : writeSlice s = .ok bytes) : bytes.length = 2 + s.length := by
  obtain ⟨length, hlength, hbytes⟩ := Except.bind_eq_ok_iff.mp h
  cases hbytes
  rw [List.length_append, length_writeLength hlength]

theorem length_writeInteger (i : Int64) : (AttributeValue.writeInteger i).length = 8 := length_u64 _

theorem length_integers (items : List Int64) : (items.flatMap AttributeValue.writeInteger).length = 8 * items.length := by
  induction items with
  | nil => rfl
  | cons i items ih =>
    rw [List.flatMap_cons, List.length_append, length_writeInteger, ih, List.length_cons]
    omega

variable {attr : Attribute}

theorem length_serializeContent (h : attr.value.serializeContent = .ok bytes) :
    bytes.length = attr.serializedValueSize := by
  unfold Attribute.serializedValueSize
  cases hvalue : attr.value with
  | string s =>
    rw [hvalue] at h
    exact length_writeSlice h
  | integer i =>
    rw [hvalue] at h
    cases h
    exact length_writeInteger i
  | float bits =>
    rw [hvalue] at h
    cases h
    exact length_u64 bits
  | boolean b =>
    rw [hvalue] at h
    cases h
    rfl
  | stringArray items =>
    rw [hvalue] at h
    obtain ⟨length, hlength, hrest⟩ := Except.bind_eq_ok_iff.mp h
    obtain ⟨content, hcontent, hbytes⟩ := Except.bind_eq_ok_iff.mp hrest
    cases hbytes
    rw [List.length_append, length_writeLength hlength, length_writeEach (fun _ _ _ => length_writeSlice) hcontent]
  | integerArray items =>
    rw [hvalue] at h
    obtain ⟨length, hlength, hbytes⟩ := Except.bind_eq_ok_iff.mp h
    cases hbytes
    rw [List.length_append, length_writeLength hlength, length_integers]

theorem length_serializeAttribute (h : attr.serialize = .ok bytes) :
    bytes.length = attr.serializedSize := by
  obtain ⟨key, hkey, hrest⟩ := Except.bind_eq_ok_iff.mp h
  obtain ⟨value, hvalue, hrest⟩ := Except.bind_eq_ok_iff.mp hrest
  obtain ⟨source, hsource, hbytes⟩ := Except.bind_eq_ok_iff.mp hrest
  obtain ⟨content, hcontent, hvalueBytes⟩ := Except.bind_eq_ok_iff.mp hvalue
  cases hbytes
  cases hvalueBytes
  have hlength := length_serializeContent hcontent
  unfold Attribute.serializedSize
  simp only [List.length_append, List.length_singleton, length_writeSlice hkey, length_writeSlice hsource, length_u32,
    hlength]
  omega

theorem length_serializeEntity {entity : Entity} (h : entity.serialize = .ok bytes) :
    bytes.length = entity.serializedSize := by
  obtain ⟨ns, hns, hrest⟩ := Except.bind_eq_ok_iff.mp h
  obtain ⟨localId, hlocal, hrest⟩ := Except.bind_eq_ok_iff.mp hrest
  obtain ⟨count, hcount, hrest⟩ := Except.bind_eq_ok_iff.mp hrest
  obtain ⟨attributes, hattributes, hbytes⟩ := Except.bind_eq_ok_iff.mp hrest
  cases hbytes
  -- the attributes are foretold one by one
  have hsum : attributes.length = (entity.attributes.map Attribute.serializedSize).sum :=
    length_writeEach (fun _ _ _ => length_serializeAttribute) hattributes
  unfold Entity.serializedSize
  simp only [List.length_append, List.length_cons, List.length_nil, length_writeSlice hns, length_writeSlice hlocal,
    length_writeLength hcount, length_u32, length_u64, hsum]
  omega

theorem exists_serializeAttribute (h : attr.Fits) : ∃ bytes, attr.serialize = .ok bytes := by
  obtain ⟨key, hkey, -⟩ := roundTrips_slice h.key
  obtain ⟨value, hvalue, -⟩ := roundTrips_value h.value
  obtain ⟨source, hsource, -⟩ := roundTrips_slice h.source
  unfold Attribute.serialize
  rw [hkey, Except.ok_bind, hvalue, Except.ok_bind, hsource]
  exact ⟨_, rfl⟩

theorem exists_serializeEntity {entity : Entity} (h : entity.Fits) : ∃ bytes, entity.serialize = .ok bytes := by
  obtain ⟨ns, hns, -⟩ := roundTrips_slice h.namespace
  obtain ⟨localId, hlocal, -⟩ := roundTrips_slice h.localId
  obtain ⟨attributes, hattributes⟩ := exists_writeEach fun attr hattr => exists_serializeAttribute (h.attributes attr hattr)
  unfold Entity.serialize
  rw [hns, Except.ok_bind, hlocal, Except.ok_bind, writeLength_of_le h.count, Except.ok_bind, hattributes]
  exact ⟨_, rfl⟩

/-- Every value is read back and what follows it is left; every attribute and every entity has as many bytes as its
    size says. -/
theorem structured_memory_codec : (∀ v : AttributeValue, v.Fits → ∃ bytes, v.serialize = .ok bytes ∧
      ∀ rest, AttributeValue.deserialize (bytes ++ rest) = .ok (v, rest)) ∧
    (∀ attr : Attribute, (attr.Fits → ∃ bytes, attr.serialize = .ok bytes) ∧
      ∀ bytes, attr.serialize = .ok bytes → bytes.length = attr.serializedSize) ∧
    (∀ entity : Entity, (entity.Fits → ∃ bytes, entity.serialize = .ok bytes) ∧
      ∀ bytes, entity.serialize = .ok bytes → bytes.length = entity.serializedSize) :=
  ⟨fun _ h => roundTrips_value h, fun _ => ⟨exists_serializeAttribute, fun _ => length_serializeAttribute⟩,
    fun _ => ⟨exists_serializeEntity, fun _ => length_serializeEntity⟩⟩

theorem structured_memory_codec_array :
    ∃ bytes, (AttributeValue.stringArray [[1, 2], []]).serialize = .ok bytes ∧
      ∀ rest, AttributeValue.deserialize (bytes ++ rest) = .ok (.stringArray [[1, 2], []], rest) :=
  structured_memory_codec.1 (.stringArray [[1, 2], []]) ⟨by decide, by decide⟩

end Northstar.Cartridge.StructuredMemory
