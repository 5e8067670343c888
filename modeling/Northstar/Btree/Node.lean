import Northstar.Lib.SortedEntries
import Northstar.Page

/-!
# Node — headers, leaves, internal nodes and their page image

`btree/header.rs` and `btree/node.rs`.  A node is edited in memory and written to a page of its
own; slices that run past the page are panics.
-/

namespace Northstar.Btree

open Bytes SortedEntries

def nodeMagic : UInt32 := 0x4E535452
def headerSize : Nat := 60
/-- `DEFAULT_PAGE_SIZE - HEADER_SIZE`. -/
def bodySize : Nat := pageSize - headerSize

inductive NodeType where
  | internal
  | leaf
  | rootInternal
  | rootLeaf
  deriving Repr, DecidableEq

namespace NodeType

def fromU8 : UInt8 → Option NodeType
  | 1 => some .internal
  | 2 => some .leaf
  | 3 => some .rootInternal
  | 4 => some .rootLeaf
  | _ => none

def toU8 : NodeType → UInt8
  | .internal => 1
  | .leaf => 2
  | .rootInternal => 3
  | .rootLeaf => 4

def isRoot : NodeType → Bool
  | .rootInternal | .rootLeaf => true
  | _ => false

def isLeaf : NodeType → Bool
  | .leaf | .rootLeaf => true
  | _ => false

def baseType : NodeType → NodeType
  | .rootInternal => .internal
  | .rootLeaf => .leaf
  | other => other

end NodeType

def NodeFlags.dirty : UInt32 := 1
def NodeFlags.underfull : UInt32 := 2

structure NodeHeader where
  magic : UInt32
  nodeType : UInt8
  isRoot : UInt8
  numKeys : UInt16
  parentPageId : UInt64
  rightSiblingPageId : UInt64
  freeSpace : UInt16
  level : UInt16
  checksum : UInt32
  flags : UInt32
  generation : UInt64
  reserved : UInt64
  nodeId : UInt64
  deriving Repr, DecidableEq

namespace NodeHeader

def new (nodeType : NodeType) (pageId : PageId) (level : UInt16) : NodeHeader where
  magic := nodeMagic
  nodeType := nodeType.toU8
  isRoot := if nodeType.isRoot then 1 else 0
  numKeys := 0
  parentPageId := 0
  rightSiblingPageId := 0
  freeSpace := UInt16.ofNat bodySize
  level := level
  checksum := 0
  flags := 0
  generation := 1
  reserved := 0
  nodeId := pageId

-- Root nodes are told apart by their type and by a flag; the two must agree.
def validate (h : NodeHeader) (pageId : PageId) : Except Error Unit :=
  if h.magic ≠ nodeMagic then
    .error (.validation (.invalidMagic nodeMagic h.magic))
  else
    match NodeType.fromU8 h.nodeType with
    | none => .error (.validation (.generic ("Invalid node type: " ++ toString h.nodeType)))
    | some nodeType =>
      if nodeType.isRoot ≠ (h.isRoot != 0) then
        .error (.validation (.generic "Node type is_root flag inconsistency"))
      else if h.isRoot != 0 ∧ h.parentPageId ≠ 0 then
        .error (.validation (.generic "Root node has non-zero parent"))
      else if nodeType.isLeaf ∧ h.level ≠ 0 then
        .error (.validation (.invalidLeafLevel h.level))
      else if h.reserved ≠ 0 then
        .error (.validation (.invalidReservedField h.reserved.toUInt32))
      else if h.nodeId ≠ pageId then
        .error (.validation (.generic ("Node ID mismatch: header=" ++ toString h.nodeId ++
          ", page=" ++ toString pageId)))
      else .ok ()

def getNodeType (h : NodeHeader) : Option NodeType := NodeType.fromU8 h.nodeType

def hasSpace (h : NodeHeader) (entrySize : Nat) : Bool := h.freeSpace.toNat ≥ entrySize

def isUnderfull (h : NodeHeader) (minEntries : UInt16) : Bool :=
  h.isRoot == 0 && h.numKeys < minEntries

def setFlag (h : NodeHeader) (flag : UInt32) : NodeHeader := { h with flags := h.flags ||| flag }

def incrementGeneration (h : NodeHeader) : NodeHeader := { h with generation := h.generation + 1 }

/-- The two lines every edit ends with. -/
def touch (h : NodeHeader) : NodeHeader := (h.setFlag NodeFlags.dirty).incrementGeneration

/-- `free_space.saturating_sub(size)` on `u16`. -/
def takeSpace (h : NodeHeader) (size : UInt16) : NodeHeader :=
  { h with freeSpace := if h.freeSpace < size then 0 else h.freeSpace - size }

/-- `needs_split(0.8)`: the floating-point comparison of `(total - free) / total` with `0.8`, over
integers. -/
def needsSplit (h : NodeHeader) : Bool := 5 * (bodySize - h.freeSpace.toNat) ≥ 4 * bodySize

/-- The fields in front of the checksum, and those behind it. -/
def front (h : NodeHeader) : Bytes :=
  u32 h.magic ++ ([h.nodeType] ++ ([h.isRoot] ++ (u16 h.numKeys ++ (u64 h.parentPageId ++
    (u64 h.rightSiblingPageId ++ (u16 h.freeSpace ++ u16 h.level))))))

def back (h : NodeHeader) : Bytes :=
  u32 h.flags ++ (u64 h.generation ++ (u64 h.reserved ++ u64 h.nodeId))

-- `repr(C, packed)`: no padding.
def toBytes (h : NodeHeader) : Bytes := h.front ++ (u32 h.checksum ++ h.back)

def read (data : Bytes) : NodeHeader where
  magic := readU32 (window data 0 4)
  nodeType := UInt8.ofNat (toNat (window data 4 1))
  isRoot := UInt8.ofNat (toNat (window data 5 1))
  numKeys := readU16 (window data 6 2)
  parentPageId := readU64 (window data 8 8)
  rightSiblingPageId := readU64 (window data 16 8)
  freeSpace := readU16 (window data 24 2)
  level := readU16 (window data 26 2)
  checksum := readU32 (window data 28 4)
  flags := readU32 (window data 32 4)
  generation := readU64 (window data 36 8)
  reserved := readU64 (window data 44 8)
  nodeId := readU64 (window data 52 8)

end NodeHeader

structure Entry where
  key : Bytes
  value : Bytes
  lsn : UInt64
  deriving Repr, DecidableEq

def Entry.serializedSize (e : Entry) : Nat := 1 + e.key.length + 2 + e.value.length + 8

structure LeafNode where
  header : NodeHeader
  entries : List Entry
  nextLeaf : UInt64
  prevLeaf : UInt64
  deriving Repr, DecidableEq

namespace LeafNode

def new (pageId : PageId) : LeafNode where
  header := (NodeHeader.new .leaf pageId 0).takeSpace 16
  entries := []
  nextLeaf := 0
  prevLeaf := 0

/-- Bytes taken by the entries in the page. -/
def used (entries : List Entry) : Nat := (entries.map Entry.serializedSize).sum

/-- The branch of `insert` for a key the leaf does not hold. -/
def insertNew (node : LeafNode) (pos : Nat) (entry : Entry) : LeafNode :=
  let entries := node.entries.insertIdx pos entry
  let header := { node.header with numKeys := UInt16.ofNat entries.length }
  { node with
    entries := entries
    header := (header.takeSpace (UInt16.ofNat entry.serializedSize)).touch }

/-- The branch of `insert` for a key the leaf holds as `old`. -/
def replaceAt (node : LeafNode) (pos : Nat) (old entry : Entry) : LeafNode :=
  -- `size_delta as u16`: for a shrinking entry a large number, so that the free space saturates
  let sizeDelta := UInt16.ofNat entry.serializedSize - UInt16.ofNat old.serializedSize
  { node with
    entries := node.entries.set pos entry
    header := (node.header.takeSpace sizeDelta).touch }

def insert (node : LeafNode) (entry : Entry) : Except Error (Bool × LeafNode) :=
  if ¬ node.header.hasSpace entry.serializedSize then
    .error (.storage (.pager "Leaf node"))
  else
    let pos := position Entry.key entry.key node.entries
    match node.entries[pos]? with
    | some old =>
      if old.key = entry.key then .ok (true, node.replaceAt pos old entry)
      else .ok (false, node.insertNew pos entry)
    | none => .ok (false, node.insertNew pos entry)

def find (node : LeafNode) (key : Bytes) : Option Entry :=
  match binarySearch Entry.key key node.entries with
  | .ok pos => node.entries[pos]?
  | .error _ => none

def remove (node : LeafNode) (key : Bytes) : Option Entry × LeafNode :=
  match binarySearch Entry.key key node.entries with
  | .error _ => (none, node)
  | .ok pos =>
    match node.entries[pos]? with
    | none => (none, node)
    | some entry =>
      let entries := node.entries.eraseIdx pos
      let header := { node.header with
        numKeys := UInt16.ofNat entries.length
        freeSpace := node.header.freeSpace + UInt16.ofNat entry.serializedSize }
      let header := header.touch
      let header :=
        if header.isUnderfull (UInt16.ofNat (bodySize / 100)) then
          header.setFlag NodeFlags.underfull
        else header
      (some entry, { node with entries, header })

-- `usize` subtraction: past the end of the page it wraps, and the cast keeps the low 16 bits.
def calculateFreeSpace (node : LeafNode) : UInt16 :=
  UInt16.ofNat (bodySize - 16) - UInt16.ofNat (used node.entries)

end LeafNode

structure InternalNode where
  header : NodeHeader
  separators : List Bytes
  children : List UInt64
  deriving Repr, DecidableEq

namespace InternalNode

def new (pageId : PageId) (level : UInt16) : InternalNode where
  header := NodeHeader.new .internal pageId level
  separators := []
  children := []

/-- `Vec::insert` panics past the end. -/
def insertAt {α : Type} (xs : List α) (pos : Nat) (x : α) : Except Fault (List α) :=
  if pos ≤ xs.length then .ok (xs.insertIdx pos x) else .error .panic

def insert (node : InternalNode) (separator : Bytes) (childId : UInt64) :
    Except Fault InternalNode := do
  let entrySize := 1 + separator.length + 8
  if ¬ node.header.hasSpace entrySize then
    .error (.err (.storage (.pager "Internal node")))
  else
    let pos := position id separator node.separators
    let separators ← insertAt node.separators pos separator
    let children ← insertAt node.children pos childId
    let header := { node.header with numKeys := UInt16.ofNat separators.length }
    .ok { header := (header.takeSpace (UInt16.ofNat entrySize)).touch, separators, children }

def setRightmostChild (node : InternalNode) (childId : UInt64) : InternalNode :=
  if node.children.length ≤ node.separators.length then
    { node with children := node.children ++ [childId] }
  else
    { node with children := node.children.dropLast ++ [childId] }

/-- A key equal to a separator goes to the right of it. -/
def findChild (node : InternalNode) (key : Bytes) : Except Fault UInt64 :=
  let pos := position id key node.separators
  let pos := if node.separators[pos]? = some key then pos + 1 else pos
  match node.children[pos]? with
  | some child => .ok child
  | none => .error .panic

def calculateFreeSpace (node : InternalNode) : UInt16 :=
  UInt16.ofNat bodySize - UInt16.ofNat
    ((node.separators.map (fun k => 1 + k.length)).sum + node.children.length * 8)

end InternalNode

inductive Node where
  | internal (node : InternalNode)
  | leaf (node : LeafNode)
  deriving Repr, DecidableEq

namespace Node

def header : Node → NodeHeader
  | .internal node => node.header
  | .leaf node => node.header

def setHeader (header : NodeHeader) : Node → Node
  | .internal node => .internal { node with header }
  | .leaf node => .leaf { node with header }

/-- A zeroed page with `data` copied to its front, piece by piece. -/
def fillPage (data : Bytes) : Except Fault Bytes :=
  if data.length ≤ pageSize then .ok (data ++ List.replicate (pageSize - data.length) 0)
  else .error .panic

def copyTo (page : Bytes) (off : Nat) (data : Bytes) : Except Fault Bytes :=
  match writeAt page off data with
  | some page => .ok page
  | none => .error .panic

def entryBytes (e : Entry) : Bytes :=
  UInt8.ofNat e.key.length :: (e.key ++ (u16 (UInt16.ofNat e.value.length) ++
    (e.value ++ u64 e.lsn)))

def branchBytes (sep : Bytes) (child : UInt64) : Bytes :=
  UInt8.ofNat sep.length :: (sep ++ u64 child)

def toBytes (crc : Crc) : Node → Except Fault Bytes
  | .internal node => do
    -- `zip` stops at the shorter list; a child past the separators is the last one
    let branches := (node.separators.zip node.children).flatMap fun b => branchBytes b.1 b.2
    let last :=
      if node.children.length > node.separators.length then u64 (node.children.getLastD 0) else []
    let page ← fillPage (node.header.toBytes ++ (branches ++ last))
    copyTo page 28 (u32 (checksum crc page))
  | .leaf node => do
    let page ← fillPage (node.header.toBytes ++ node.entries.flatMap entryBytes)
    let page ← copyTo page (pageSize - 16) (u64 node.nextLeaf)
    let page ← copyTo page (pageSize - 8) (u64 node.prevLeaf)
    copyTo page 28 (u32 (checksum crc page))

/-- `bytes[offset..offset + n]` and what follows. -/
def slice (n : Nat) (rest : Bytes) : Except Fault (Bytes × Bytes) :=
  if n ≤ rest.length then .ok (rest.take n, rest.drop n) else .error .panic

def readByte : Bytes → Except Fault (UInt8 × Bytes)
  | [] => .error .panic
  | b :: rest => .ok (b, rest)

def readEntry (rest : Bytes) : Except Fault (Entry × Bytes) := do
  let (keyLen, rest) ← readByte rest
  let (key, rest) ← slice keyLen.toNat rest
  let (valueLen, rest) ← slice 2 rest
  let (value, rest) ← slice (readU16 valueLen).toNat rest
  let (lsn, rest) ← slice 8 rest
  .ok (⟨key, value, readU64 lsn⟩, rest)

def readEntries : Nat → Bytes → Except Fault (List Entry)
  | 0, _ => .ok []
  | n + 1, rest => do
    let (entry, rest) ← readEntry rest
    let entries ← readEntries n rest
    .ok (entry :: entries)

def readBranches : Nat → Bytes → Except Fault (List Bytes × List UInt64 × Bytes)
  | 0, rest => .ok ([], [], rest)
  | n + 1, rest => do
    let (keyLen, rest) ← readByte rest
    let (sep, rest) ← slice keyLen.toNat rest
    let (child, rest) ← slice 8 rest
    let (seps, children, rest) ← readBranches n rest
    .ok (sep :: seps, readU64 child :: children, rest)

def fromBytes (bytes : Bytes) : Except Fault Node := do
  if bytes.length < headerSize then
    .error (.err (.validation (.generic ("Node bytes too short: " ++ toString bytes.length ++
      " < " ++ toString headerSize))))
  else
    let header := NodeHeader.read bytes
    (header.validate header.nodeId).mapError .err
    match header.getNodeType.map NodeType.baseType with
    | some .internal =>
      let (separators, children, rest) ← readBranches header.numKeys.toNat (bytes.drop headerSize)
      let last := if 8 ≤ rest.length then [readU64 (rest.take 8)] else []
      .ok (.internal { header, separators, children := children ++ last })
    | some .leaf =>
      let entries ← readEntries header.numKeys.toNat (bytes.drop headerSize)
      let (next, _) ← slice 8 (bytes.drop (pageSize - 16))
      let (prev, _) ← slice 8 (bytes.drop (pageSize - 8))
      .ok (.leaf { header, entries, nextLeaf := readU64 next, prevLeaf := readU64 prev })
    -- a validated header has a type, and a base type is one of the two above
    | _ => .error (.err (.validation (.generic "Unsupported node type")))

end Node

end Northstar.Btree
