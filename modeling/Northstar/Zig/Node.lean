import Northstar.Zig.Page

/-!
# Node — leaves and internal nodes of the B+tree

The payload of a B+tree page starts with a node header of 48 bytes.  A leaf has a slot array behind it,
and its entries grow backwards from the end.  An internal node has its child pointers behind the header,
and separator keys that are read backwards from the end of the payload.

Node headers are pointers into the payload in the source, so a count is read again after every write
that may have changed it.
-/

namespace Northstar.Zig

open Bytes

structure BtreeNodeHeader where
  nodeMagic : UInt32 := 0x42545245
  level : Nat
  keyCount : Nat
  rightSibling : Nat
  deriving Repr, DecidableEq

namespace BtreeNodeHeader

/-- `@sizeOf`: the 32 reserved bytes included. -/
def size : Nat := 48

def encode (h : BtreeNodeHeader) : Bytes :=
  le 8 h.rightSibling ++ u32 h.nodeMagic ++ le 2 h.level ++ le 2 h.keyCount ++ List.replicate 32 0

/-- `std.mem.bytesAsValue(BtreeNodeHeader, payload_bytes[0..SIZE])`. -/
def read (payload : Bytes) : Except PagerError BtreeNodeHeader := do
  let bytes ← slice payload 0 size
  return {
    nodeMagic := readU32 (window bytes 8 4)
    level := (readU16 (window bytes 12 2)).toNat
    keyCount := (readU16 (window bytes 14 2)).toNat
    rightSibling := (readU64 (window bytes 0 8)).toNat }

def setKeyCount (payload : Bytes) (keyCount : Nat) : Except PagerError Bytes :=
  store payload 14 (le 2 keyCount)

def setRightSibling (payload : Bytes) (rightSibling : Nat) : Except PagerError Bytes :=
  store payload 0 (le 8 rightSibling)

end BtreeNodeHeader

structure BtreeLeafEntry where
  key : Bytes
  value : Bytes
  deriving Repr, DecidableEq

namespace BtreeLeafEntry

/-- `key_len(u16) + val_len(u32) + key_bytes + value_bytes`. -/
def bytes (e : BtreeLeafEntry) : Bytes := le 2 e.key.length ++ le 4 e.value.length ++ e.key ++ e.value

def getSize (e : BtreeLeafEntry) : Nat := 2 + 4 + e.key.length + e.value.length

/-- The sum of the lengths is computed in 16 and then in 32 bits. -/
def fromBytes (bytes : Bytes) : Except PagerError BtreeLeafEntry :=
  if bytes.length < 2 + 4 then .error .entryTooShort
  else
    let keyLen := (readU16 (window bytes 0 2)).toNat
    let valLen := (readU32 (window bytes 2 4)).toNat
    if 2 + 4 + keyLen ≥ 2 ^ 16 ∨ 2 + 4 + keyLen + valLen ≥ 2 ^ 32 then .error .panic
    else if bytes.length < 2 + 4 + keyLen + valLen then .error .entryIncomplete
    else .ok ⟨window bytes 6 keyLen, window bytes (6 + keyLen) valLen⟩

end BtreeLeafEntry

namespace BtreeLeafPayload

def maxKeysPerLeaf : Nat := 200

def getSlotArraySize (keyCount : Nat) : Nat := keyCount * 2

/-- The first `count` slots. -/
def readSlots (slotBytes : Bytes) (count : Nat) : List Nat :=
  (List.range count).map fun i => (readU16 (window slotBytes (i * 2) 2)).toNat

/-- `getSlotArray`, with a buffer of the given length. -/
def getSlotArray (payload : Bytes) (bufferLen : Nat) : Except PagerError (List Nat) := do
  let node ← BtreeNodeHeader.read payload
  let slotBytes ← slice payload BtreeNodeHeader.size
    (BtreeNodeHeader.size + getSlotArraySize node.keyCount)
  return readSlots slotBytes (min node.keyCount bufferLen)

/-- `getSlotArrayMut`: there must be room for one slot more, which is not set yet. -/
def getSlotArrayMut (payload : Bytes) (bufferLen : Nat) : Except PagerError (List Nat) := do
  let node ← BtreeNodeHeader.read payload
  let slotBytes ← slice payload BtreeNodeHeader.size
    (BtreeNodeHeader.size + getSlotArraySize (node.keyCount + 1))
  if node.keyCount > bufferLen then .error .panic
  else return readSlots slotBytes node.keyCount

/-- Slots behind the end of the payload are not written. -/
def writeSlotArray (payload : Bytes) (slots : List Nat) : Except PagerError Bytes :=
  store payload BtreeNodeHeader.size
    ((slots.map (le 2)).flatten.take ((payload.length - BtreeNodeHeader.size) / 2 * 2))

def getEntryWithSlots (payload : Bytes) (slotIdx : Nat) (slots : List Nat) :
    Except PagerError BtreeLeafEntry := do
  let node ← BtreeNodeHeader.read payload
  if slotIdx ≥ node.keyCount then .error .slotIndexOutOfBounds
  else
    match slots[slotIdx]? with
    | none => .error .panic
    | some entryOffset =>
      if entryOffset < BtreeNodeHeader.size + getSlotArraySize node.keyCount ∨
          entryOffset ≥ payload.length then .error .invalidEntryOffset
      else BtreeLeafEntry.fromBytes (payload.drop entryOffset)

def getEntry (payload : Bytes) (slotIdx : Nat) : Except PagerError BtreeLeafEntry := do
  let node ← BtreeNodeHeader.read payload
  if slotIdx ≥ node.keyCount then .error .slotIndexOutOfBounds
  else
    let slots ← getSlotArray payload (maxKeysPerLeaf + 1)
    getEntryWithSlots payload slotIdx slots

/-- The binary search of `findKey`.  Every turn makes `right - left` smaller, so that it is enough
fuel. -/
def searchKey (payload : Bytes) (slots : List Nat) (key : Bytes) :
    Nat → Nat → Nat → Except PagerError (Option Nat)
  | 0, _, _ => .ok none
  | fuel + 1, left, right =>
    if left < right then
      let mid := left + (right - left) / 2
      match getEntryWithSlots payload mid slots with
      | .error .panic => .error .panic
      | .error _ => .ok none
      | .ok entry =>
        if key = entry.key then .ok (some mid)
        else if key < entry.key then searchKey payload slots key fuel left mid
        else searchKey payload slots key fuel (mid + 1) right
    else .ok none

def findKey (payload key : Bytes) : Except PagerError (Option Nat) := do
  let node ← BtreeNodeHeader.read payload
  let slots ← getSlotArray payload (maxKeysPerLeaf + 1)
  searchKey payload slots key node.keyCount 0 node.keyCount

def getValue (payload key : Bytes) : Except PagerError (Option Bytes) := do
  match ← findKey payload key with
  | none => return none
  | some slotIdx => orElse ((getEntry payload slotIdx).map fun entry => some entry.value) none

/-- The check of one slot in `validate`, behind the key of the slot before it. -/
def validateSlot (payload : Bytes) (entryDataStart : Nat) (prevKey : Option Bytes) (entryOffset : Nat) :
    Except PagerError (Option Bytes) :=
  if entryOffset < entryDataStart ∨ entryOffset ≥ payload.length then .error .invalidEntryOffset
  else
    match BtreeLeafEntry.fromBytes (payload.drop entryOffset) with
    | .error .panic => .error .panic
    | .error _ => .error .invalidEntryFormat
    | .ok entry =>
      -- `entry_offset + 2 + 4` is a `u16`
      if entryOffset + 6 ≥ 2 ^ 16 then .error .panic
      else if entryOffset + entry.getSize > payload.length then .error .entryExceedsPayload
      else
        match prevKey with
        | none => .ok (some entry.key)
        | some prevKey => if prevKey < entry.key then .ok (some entry.key) else .error .keysNotSorted

def validate (payload : Bytes) : Except PagerError Unit := do
  let node ← BtreeNodeHeader.read payload
  if node.nodeMagic ≠ 0x42545245 then .error .invalidBtreeMagic
  else if node.level ≠ 0 then .error .invalidLeafLevel
  else if node.keyCount > maxKeysPerLeaf then .error .tooManyKeys
  else
    let entryDataStart := BtreeNodeHeader.size + getSlotArraySize node.keyCount
    if entryDataStart > payload.length then .error .slotArrayOutOfBounds
    else
      let slots ← getSlotArray payload (maxKeysPerLeaf + 1)
      discard (slots.foldlM (validateSlot payload entryDataStart) none)

def newEntryOffset (payload : Bytes) (keyCount totalEntrySize : Nat) : Except PagerError Nat :=
  if keyCount > 0 then do
    let slots ← getSlotArray payload maxKeysPerLeaf
    let minSlotOffset := slots.foldl min (← intCast 16 payload.length)
    if minSlotOffset < BtreeNodeHeader.size + getSlotArraySize (keyCount + 1) + totalEntrySize then
      .error .leafFull
    else return minSlotOffset - totalEntrySize
  else if payload.length < totalEntrySize then .error .leafFull
  else intCast 16 (payload.length - totalEntrySize)

/-- The slot in front of which a key belongs; an entry that cannot be read ends the search. -/
def insertPosition (payload key : Bytes) : Nat → Nat → Except PagerError Nat
  | 0, pos => .ok pos
  | remaining + 1, pos =>
    match getEntry payload pos with
    | .error .panic => .error .panic
    | .error _ => .ok pos
    | .ok entry => if key < entry.key then .ok pos else insertPosition payload key remaining (pos + 1)

/-- An equal key is not looked for. -/
def addEntry (payload key value : Bytes) : Except PagerError Bytes := do
  let node ← BtreeNodeHeader.read payload
  if node.keyCount ≥ maxKeysPerLeaf then .error .leafFull
  else
    let entry : BtreeLeafEntry := ⟨key, value⟩
    let offset ← newEntryOffset payload node.keyCount entry.getSize
    let _ ← intCast 16 key.length
    let _ ← intCast 32 value.length
    let payload ← store payload offset entry.bytes
    let node ← BtreeNodeHeader.read payload
    let insertPos ← insertPosition payload key node.keyCount 0
    let payload ←
      if node.keyCount = 0 ∧ BtreeNodeHeader.size + 2 ≤ payload.length then
        store payload BtreeNodeHeader.size [0, 0]
      else .ok payload
    let slots ← getSlotArrayMut payload (maxKeysPerLeaf + 1)
    let payload ← writeSlotArray payload (slots.insertIdx insertPos offset)
    BtreeNodeHeader.setKeyCount payload (node.keyCount + 1)

/-- The slot of a key, from `pos` on. -/
def slotOf (payload key : Bytes) : Nat → Nat → Except PagerError (Option Nat)
  | 0, _ => .ok none
  | remaining + 1, pos =>
    match getEntry payload pos with
    | .error .panic => .error .panic
    | .error _ => .ok none
    | .ok entry => if key = entry.key then .ok (some pos) else slotOf payload key remaining (pos + 1)

/-- The loop of `compactEntryDataArea` that rewrites the entries from the end, from the `i`th on.  The keys
and values it copies are slices of the payload, whose entries have been zeroed by then, and its bound is the
count in the payload. -/
def rewriteEntries : Nat → Nat → List (Nat × BtreeLeafEntry) → Bytes → Except PagerError (Bytes × List Nat)
  | i, _, [], payload => do
    let node ← BtreeNodeHeader.read payload
    if i < node.keyCount then .error .panic else return (payload, [])
  | i, firstEntryOffset, (oldOffset, entry) :: entries, payload => do
    let node ← BtreeNodeHeader.read payload
    if i < node.keyCount then do
      let offset ← checkedSub firstEntryOffset entry.getSize
      let payload ← store payload offset (le 2 entry.key.length ++ le 4 entry.value.length)
      let payload ← memcpy payload (offset + 6) (oldOffset + 6) entry.key.length
      let payload ← memcpy payload (offset + 6 + entry.key.length) (oldOffset + 6 + entry.key.length)
        entry.value.length
      let (payload, slots) ← rewriteEntries (i + 1) offset entries payload
      return (payload, offset :: slots)
    else return (payload, [])

def compactEntryDataArea (payload : Bytes) : Except PagerError Bytes := do
  let node ← BtreeNodeHeader.read payload
  if node.keyCount = 0 then return payload
  else
    let slots ← getSlotArrayMut payload maxKeysPerLeaf
    -- an entry that cannot be read leaves the rest of the array undefined
    let entries ← slots.zipIdx.mapM fun slot =>
      match getEntry payload slot.2 with
      | .ok entry => Except.ok (slot.1, entry)
      | .error _ => .error PagerError.panic
    let entryDataStart := BtreeNodeHeader.size + getSlotArraySize node.keyCount
    let payload := payload.take entryDataStart ++ List.replicate (payload.length - entryDataStart) 0
    let firstEntryOffset ← intCast 16 payload.length
    let (payload, slots) ← rewriteEntries 0 firstEntryOffset entries payload
    let node ← BtreeNodeHeader.read payload
    writeSlotArray payload (slots.take node.keyCount)

/-- `removeEntry`; `none` if the key is not there. -/
def removeEntry (payload key : Bytes) : Except PagerError (Option Bytes) := do
  let node ← BtreeNodeHeader.read payload
  if node.keyCount = 0 then return none
  else
    match ← slotOf payload key node.keyCount 0 with
    | none => return none
    | some pos =>
      let slots ← getSlotArrayMut payload maxKeysPerLeaf
      let payload ← writeSlotArray payload (slots.eraseIdx pos)
      let payload ← BtreeNodeHeader.setKeyCount payload (node.keyCount - 1)
      return some (← compactEntryDataArea payload)

end BtreeLeafPayload

namespace BtreeInternalPayload

def maxKeysPerInternal : Nat := 200

def getChildPageIdsSize (keyCount : Nat) : Nat := (keyCount + 1) * 8

/-- `key_count + 1`, in 16 bits. -/
def childCount (payload : Bytes) : Except PagerError Nat := do
  let node ← BtreeNodeHeader.read payload
  if node.keyCount + 1 ≥ 2 ^ 16 then .error .panic else return node.keyCount + 1

def getChildPageId (payload : Bytes) (childIdx : Nat) : Except PagerError Nat := do
  if childIdx ≥ (← childCount payload) then .error .childIndexOutOfBounds
  else
    let childOffset := BtreeNodeHeader.size + childIdx * 8
    if childOffset + 8 > payload.length then .error .childPageIdOutOfBounds
    else return (readU64 (window payload childOffset 8)).toNat

def setChildPageId (payload : Bytes) (childIdx pageId : Nat) : Except PagerError Bytes := do
  if childIdx ≥ (← childCount payload) then .error .childIndexOutOfBounds
  else
    let childOffset := BtreeNodeHeader.size + childIdx * 8
    if childOffset + 8 > payload.length then .error .childPageIdOutOfBounds
    else store payload childOffset (le 8 pageId)

/-- The length of the separator that ends at `offset`, with the length in its last two bytes.  The sum of
the lengths is computed in 16 bits. -/
def separatorSize (separatorArea : Bytes) (offset : Nat) : Except PagerError Nat :=
  if offset < 2 then .error .corruptSeparatorData
  else
    let keyLen := (readU16 (window separatorArea (offset - 2) 2)).toNat
    if 2 + keyLen ≥ 2 ^ 16 then .error .panic
    else if offset < 2 + keyLen then .error .corruptSeparatorData
    else .ok keyLen

/-- The walk of `getSeparatorKey` from the end: `skipped` separators lie behind the one looked for. -/
def walkSeparators (separatorArea : Bytes) : Nat → Nat → Except PagerError Bytes
  | 0, offset => do
    let keyLen ← separatorSize separatorArea offset
    return window separatorArea (offset - (2 + keyLen)) keyLen
  | skipped + 1, offset => do
    let keyLen ← separatorSize separatorArea offset
    walkSeparators separatorArea skipped (offset - (2 + keyLen))

def getSeparatorKey (payload : Bytes) (separatorIdx : Nat) : Except PagerError Bytes := do
  let node ← BtreeNodeHeader.read payload
  if separatorIdx ≥ node.keyCount then .error .separatorIndexOutOfBounds
  else
    let area ← slice payload (BtreeNodeHeader.size + getChildPageIdsSize node.keyCount) payload.length
    walkSeparators area (node.keyCount - 1 - separatorIdx) area.length

/-- The index of a child and its page, or 0 if it cannot be read. -/
def childAt (payload : Bytes) (childIdx : Nat) : Except PagerError (Nat × Nat) := do
  let pageId ← orElse (getChildPageId payload childIdx) 0
  return (childIdx, pageId)

/-- The binary search of `findChild`. -/
def searchChild (payload key : Bytes) : Nat → Nat → Nat → Except PagerError (Nat × Nat)
  | 0, left, _ => childAt payload left
  | fuel + 1, left, right =>
    if left < right then
      let mid := left + (right - left) / 2
      match getSeparatorKey payload mid with
      | .error .panic => .error .panic
      | .error _ => childAt payload left
      | .ok separatorKey =>
        if key = separatorKey then childAt payload (mid + 1)
        else if key < separatorKey then searchChild payload key fuel left mid
        else searchChild payload key fuel (mid + 1) right
    else childAt payload left

def findChild (payload key : Bytes) : Except PagerError (Nat × Nat) := do
  let node ← BtreeNodeHeader.read payload
  if node.keyCount = 0 then childAt payload 0
  else searchChild payload key node.keyCount 0 node.keyCount

/-! ### Adding a child -/

def separatorPosition (payload key : Bytes) : Nat → Nat → Except PagerError Nat
  | 0, pos => .ok pos
  | remaining + 1, pos => do
    let existing ← getSeparatorKey payload pos
    if key < existing then return pos else separatorPosition payload key remaining (pos + 1)

/-- Children `insertPos + 1 ..` move up by one, the last of them first. -/
def shiftChildren (insertPos : Nat) : Nat → Bytes → Except PagerError Bytes
  | 0, payload => .ok payload
  | childIdx + 1, payload =>
    if childIdx + 1 > insertPos + 1 then do
      let child ← getChildPageId payload childIdx
      let payload ← setChildPageId payload (childIdx + 1) child
      shiftChildren insertPos childIdx payload
    else .ok payload

/-- The sizes of the separators, the first of which is the last that is found. -/
def collectSizes (separatorArea : Bytes) : Nat → Nat → List Nat → Except PagerError (List Nat)
  | 0, _, sizes => .ok sizes
  | remaining + 1, offset, sizes => do
    let keyLen ← separatorSize separatorArea offset
    collectSizes separatorArea remaining (offset - (2 + keyLen)) ((2 + keyLen) :: sizes)

/-- The second pass: separators behind `insertPos` move towards the front.  `oldStart` and `newStart`
are the places of the two areas in the buffer. -/
def moveBehind (oldStart newStart insertPos entrySize : Nat) :
    List Nat → Nat → Nat → Bytes → Except PagerError Bytes
  | [], _, _, buffer => .ok buffer
  | size :: sizes, sepIdx, offset, buffer => do
    let buffer ←
      if sepIdx > insertPos then do
        let dest ← checkedSub offset entrySize
        if dest + size > buffer.length - newStart then .error .insufficientSpace
        else memcpy buffer (newStart + dest) (oldStart + offset) size
      else .ok buffer
    moveBehind oldStart newStart insertPos entrySize sizes (sepIdx + 1) (offset + size) buffer

/-- The third pass: separators in front of `insertPos` are copied. -/
def copyFront (oldStart newStart : Nat) : List Nat → Nat → Bytes → Except PagerError Bytes
  | [], _, buffer => .ok buffer
  | size :: sizes, offset, buffer => do
    let buffer ← memcpy buffer (newStart + offset) (oldStart + offset) size
    copyFront oldStart newStart sizes (offset + size) buffer

/-- `addChildExpand`.  The new separator goes to the end of the buffer, not of the payload, with its
length in front of it. -/
def addChildExpand (buffer : Bytes) (oldPayloadLen : Nat) (separatorKey : Bytes)
    (childPageId payloadGrowth : Nat) : Except PagerError Bytes := do
  let oldPayload ← slice buffer 0 oldPayloadLen
  let newPayloadEnd := oldPayloadLen + payloadGrowth
  let _ ← slice buffer 0 newPayloadEnd
  let node ← BtreeNodeHeader.read oldPayload
  if node.keyCount ≥ maxKeysPerInternal then .error .internalNodeFull
  else
    let entrySize := 2 + separatorKey.length
    let oldStart := BtreeNodeHeader.size + getChildPageIdsSize node.keyCount
    let _ ← slice buffer oldStart oldPayloadLen
    if payloadGrowth < entrySize then .error .insufficientSpace
    else
      let insertPos ← separatorPosition oldPayload separatorKey node.keyCount 0
      -- the children that are copied onto themselves
      let _ ← (List.range (node.keyCount + 1)).mapM (getChildPageId oldPayload)
      let expanded ← BtreeNodeHeader.setKeyCount (buffer.take newPayloadEnd) (node.keyCount + 1)
      let expanded ← shiftChildren insertPos (node.keyCount + 1) expanded
      let expanded ← setChildPageId expanded (insertPos + 1) childPageId
      let buffer := expanded ++ buffer.drop newPayloadEnd
      let newStart := BtreeNodeHeader.size + getChildPageIdsSize (node.keyCount + 1)
      let _ ← slice buffer newStart buffer.length
      let oldArea ← slice buffer oldStart oldPayloadLen
      let sizes ← collectSizes oldArea node.keyCount oldArea.length []
      let buffer ← moveBehind oldStart newStart insertPos entrySize sizes 0 0 buffer
      let buffer ← copyFront oldStart newStart (sizes.take insertPos) 0 buffer
      let newOffset ← checkedSub (buffer.length - newStart) ((sizes.take insertPos).sum + entrySize)
      store buffer (newStart + newOffset) (le 2 separatorKey.length ++ separatorKey)

end BtreeInternalPayload

/-- `createEmptyBtreeLeaf`.  Its header checksum is left out, and set with the first entry. -/
def createEmptyBtreeLeaf (pageId txnId rightSibling : Nat) : Page :=
  let node : BtreeNodeHeader := { level := 0, keyCount := 0, rightSibling }
  let header : PageHeader :=
    { pageType := .btreeLeaf, pageId, txnId, payloadLen := Page.bodySize, headerCrc32c := 0,
      pageCrc32c := 0 }
  let body := node.encode ++ List.replicate (Page.bodySize - BtreeNodeHeader.size) 0
  ⟨{ header with pageCrc32c := calculatePageChecksum header body }, body⟩

def createBtreePage (pageId level keyCount rightSibling txnId : Nat) (payload : Bytes) :
    Except PagerError Page :=
  let node : BtreeNodeHeader := { level, keyCount, rightSibling }
  if BtreeNodeHeader.size + payload.length > Page.bodySize then .error .payloadTooLarge
  else createPage pageId (if level = 0 then .btreeLeaf else .btreeInternal) txnId (node.encode ++ payload)

/-- The payload has a node header of its own, to which `createBtreePage` adds a second one. -/
def createEmptyBtreeInternal (pageId level txnId rightSibling firstChildId : Nat) :
    Except PagerError Page :=
  let node : BtreeNodeHeader := { level, keyCount := 0, rightSibling }
  createBtreePage pageId level 0 rightSibling txnId (node.encode ++ le 8 firstChildId)

def addEntryToBtreeLeaf (page : Page) (key value : Bytes) : Except PagerError Page := do
  let header ← page.header.decode
  if header.pageType ≠ .btreeLeaf then .error .invalidPageType
  else
    let payload ← slice page.body 0 header.payloadLen
    let payload ← BtreeLeafPayload.addEntry payload key value
    return Page.rehash { page with body := payload ++ page.body.drop header.payloadLen }

def getValueFromBtreeLeaf (page : Page) (key : Bytes) : Except PagerError (Option Bytes) :=
  match page.header.decode with
  | .error _ => .ok none
  | .ok header =>
    if header.pageType ≠ .btreeLeaf then .ok none
    else do
      let payload ← slice page.body 0 header.payloadLen
      BtreeLeafPayload.getValue payload key

def findChildInBtreeInternal (page : Page) (key : Bytes) : Except PagerError (Option Nat) :=
  match page.header.decode with
  | .error _ => .ok none
  | .ok header =>
    if header.pageType ≠ .btreeInternal then .ok none
    else do
      let payload ← slice page.body 0 header.payloadLen
      let child ← BtreeInternalPayload.findChild payload key
      return some child.2

end Northstar.Zig
