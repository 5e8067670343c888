import Northstar.Pager.Pager

/-!
# Edits — what puts and deletes do to the nodes

`btree/insert.rs`, and `btree/delete.rs`, `btree/borrow.rs` and `btree/merge.rs` as far as the tree calls
them.  The functions edit the node in memory and hand it back; of a split, only the new
node is written here.
-/

namespace Northstar.Btree

open Pager

inductive InsertResult where
  | success
  | split (newPageId : PageId) (separator : Bytes)
  deriving Repr, DecidableEq

/-- `for entry in entries { node.insert(entry)?; }`. -/
def LeafNode.insertAll (node : LeafNode) : List Entry → Except Error LeafNode
  | [] => .ok node
  | entry :: rest => do
    let (_, node) ← node.insert entry
    node.insertAll rest

/-- What is left of a leaf after its upper half moved away. -/
def LeafNode.truncate (node : LeafNode) (splitPoint : Nat) : LeafNode :=
  let entries := node.entries.take splitPoint
  let header := { node.header with numKeys := UInt16.ofNat entries.length }.touch
  { node with
    entries := entries
    header := { header with freeSpace := { node with entries }.calculateFreeSpace } }

def splitLeafNode (env : Env) (node : LeafNode) : PagerM (LeafNode × Bytes × LeafNode) := do
  let splitPoint := node.entries.length / 2
  let newPageId ← allocatePage env
  let newNode ← liftErr ((LeafNode.new newPageId).insertAll (node.entries.drop splitPoint))
  -- only the new leaf's links are set: the left one keeps its `next_leaf`
  let newNode := { newNode with nextLeaf := node.nextLeaf, prevLeaf := node.header.nodeId }
  writeBtreeNode env newPageId (.leaf newNode)
  match newNode.entries.head? with
  | some first => pure (newNode, first.key, node.truncate splitPoint)
  | none => throw (.err (.validation (.generic "Split leaf has no entries")))

def insertIntoLeaf (env : Env) (node : LeafNode) (entry : Entry) :
    PagerM (InsertResult × LeafNode) := do
  if node.header.hasSpace entry.serializedSize then
    let (isUpdate, node) ← liftErr (node.insert entry)
    if isUpdate then pure (.success, node)
    else if node.header.needsSplit then
      let (newNode, separator, node) ← splitLeafNode env node
      pure (.split newNode.header.nodeId separator, node)
    else pure (.success, node)
  else if node.header.needsSplit then
    let (newNode, separator, node) ← splitLeafNode env node
    if entry.key < separator then
      let (_, node) ← liftErr (node.insert entry)
      pure (.split newNode.header.nodeId separator, node)
    -- the entry belongs to the new leaf, and is not inserted at all
    else pure (.split newNode.header.nodeId separator, node)
  else throw (.err (.storage (.pager "Leaf node full and cannot split")))

/-- `for (sep, child) in ..zip(..) { node.insert(sep, child)?; }`. -/
def InternalNode.insertAll (node : InternalNode) :
    List (Bytes × UInt64) → Except Fault InternalNode
  | [] => .ok node
  | (separator, child) :: rest => do
    let node ← node.insert separator child
    node.insertAll rest

def InternalNode.truncate (node : InternalNode) (splitPoint : Nat) : InternalNode :=
  let separators := node.separators.take splitPoint
  let children := node.children.take (splitPoint + 1)
  let header := { node.header with numKeys := UInt16.ofNat separators.length }.touch
  { separators := separators
    children := children
    header := { header with
      freeSpace := { node with separators, children }.calculateFreeSpace } }

def splitInternalNode (env : Env) (node : InternalNode) :
    PagerM (InternalNode × Bytes × InternalNode) := do
  let splitPoint := node.separators.length / 2
  let newPageId ← allocatePage env
  -- `node.children[split_point + 1..]`, `children.last().unwrap()` and `separators[split_point]`
  match node.children.getLast?, node.separators[splitPoint]? with
  | some last, some separator =>
    if splitPoint + 1 > node.children.length then throw .panic
    else
      let moved := (node.separators.drop splitPoint).zip (node.children.drop (splitPoint + 1))
      let newNode ← EStateM.lift ((InternalNode.new newPageId node.header.level).insertAll moved)
      let newNode := newNode.setRightmostChild last
      writeBtreeNode env newPageId (.internal newNode)
      pure (newNode, separator, node.truncate splitPoint)
  | _, _ => throw .panic

def insertIntoInternal (env : Env) (node : InternalNode) (separator : Bytes) (childId : UInt64) :
    PagerM (InsertResult × InternalNode) := do
  let entrySize := 1 + separator.length + 8
  if node.header.hasSpace entrySize then
    let node ← EStateM.lift (node.insert separator childId)
    if node.header.needsSplit then
      let (newNode, sep, node) ← splitInternalNode env node
      pure (.split newNode.header.nodeId sep, node)
    else pure (.success, node)
  else if node.header.needsSplit then
    let (newNode, sep, node) ← splitInternalNode env node
    if separator < sep then
      let node ← EStateM.lift (node.insert separator childId)
      pure (.split newNode.header.nodeId sep, node)
    else pure (.split newNode.header.nodeId sep, node)
  else throw (.err (.storage (.pager "Internal node full and cannot split")))

def prepareEntryValue (env : Env) (key value : Bytes) (lsn : UInt64) : PagerM Entry := do
  if value.length > maxValueSize then
    throw (.err (.validation (.generic ("Value too large: " ++ toString value.length ++
      " bytes (max " ++ toString maxValueSize ++ ")"))))
  else if OverflowPage.shouldStoreInline value.length then pure ⟨key, value, lsn⟩
  else
    let overflowPageId ← allocateOverflowChain env value
    pure ⟨key, (ValueStorage.overflow overflowPageId).encode, lsn⟩

end Northstar.Btree

namespace Northstar.Btree

open Pager

inductive DeleteResult where
  | success
  | underfull
  deriving Repr, DecidableEq

/-- `((DEFAULT_PAGE_SIZE - HEADER_SIZE) / 100) as f64 * 0.4`, truncated. -/
def calculateMinLeafEntries : UInt16 := 65

/-- `((DEFAULT_PAGE_SIZE - HEADER_SIZE) / 50) as f64 * 0.4`, truncated. -/
def calculateMinKeys : UInt16 := 130

def deleteFromLeaf (node : LeafNode) (key : Bytes) : DeleteResult × LeafNode :=
  let (removed, node) := node.remove key
  if removed.isSome && node.header.isUnderfull calculateMinLeafEntries then (.underfull, node)
  else (.success, node)

/-- `a.saturating_sub(b)`. -/
def saturatingSub (a b : UInt16) : UInt16 := if a < b then 0 else a - b

inductive BorrowDirection where
  | fromRight
  | fromLeft
  deriving Repr, DecidableEq

structure BorrowCandidates where
  leftPageId : Option PageId
  rightPageId : Option PageId
  leftExcess : UInt16
  rightExcess : UInt16
  deriving Repr, DecidableEq

namespace BorrowCandidates

def canBorrow (c : BorrowCandidates) : Bool :=
  (c.leftPageId.isSome && c.leftExcess > 0) || (c.rightPageId.isSome && c.rightExcess > 0)

def recommendedDirection (c : BorrowCandidates) : Option BorrowDirection :=
  match c.leftPageId.isSome, c.rightPageId.isSome with
  | true, true =>
    if c.leftExcess ≥ c.rightExcess ∧ c.leftExcess > 0 then some .fromLeft
    else if c.rightExcess > 0 then some .fromRight
    else none
  | true, false => if c.leftExcess > 0 then some .fromLeft else none
  | false, true => if c.rightExcess > 0 then some .fromRight else none
  | false, false => none

end BorrowCandidates

/-- `if link != 0 { if let Ok(Node::Leaf(sibling)) = pager.read_node(link) { .. } }`. -/
def readSibling (env : Env) (link : UInt64) : PagerM (Option LeafNode) := do
  if link = 0 then pure none
  else
    match ← EStateM.attempt Fault.isErr (readBtreeNode env link) with
    | some (.leaf sibling) => pure (some sibling)
    | _ => pure none

def getLeafBorrowCandidates (env : Env) (leaf : LeafNode) : PagerM BorrowCandidates := do
  let left ← readSibling env leaf.prevLeaf
  let right ← readSibling env leaf.nextLeaf
  let excess (sibling : Option LeafNode) : UInt16 :=
    match sibling with
    | some sibling => saturatingSub sibling.header.numKeys calculateMinKeys
    | none => 0
  pure {
    leftPageId := left.map fun _ => leaf.prevLeaf
    rightPageId := right.map fun _ => leaf.nextLeaf
    leftExcess := excess left
    rightExcess := excess right }

def canBorrowFromSibling (donorNumKeys borrowerNumKeys : UInt16) : Bool :=
  let donorExcess := saturatingSub donorNumKeys calculateMinKeys
  let borrowerNeed := saturatingSub calculateMinKeys borrowerNumKeys
  donorExcess > 0 && donorExcess ≥ borrowerNeed

/-- Moves one entry of the donor over; `none` is `NotPossible`. -/
def borrowFromLeaf (taken : Option Entry) (remaining : List Entry) (underfull donor : LeafNode) :
    Except Error (Option (LeafNode × LeafNode)) := do
  match taken with
  | none => .ok none
  | some entry =>
    if ¬ canBorrowFromSibling donor.header.numKeys underfull.header.numKeys then .ok none
    else
      let (_, underfull) ← underfull.insert entry
      .ok (some (underfull, { donor with
        entries := remaining
        header := { donor.header with numKeys := UInt16.ofNat remaining.length } }))

def borrowFromRightLeaf (underfull donor : LeafNode) :
    Except Error (Option (LeafNode × LeafNode)) :=
  borrowFromLeaf donor.entries.head? donor.entries.tail underfull donor

def borrowFromLeftLeaf (underfull donor : LeafNode) :
    Except Error (Option (LeafNode × LeafNode)) :=
  borrowFromLeaf donor.entries.getLast? donor.entries.dropLast underfull donor

inductive MergeDirection where
  | rightIntoLeft
  | leftIntoRight
  deriving Repr, DecidableEq

structure MergeCandidates where
  leftPageId : Option PageId
  rightPageId : Option PageId
  recommendedDirection : Option MergeDirection
  deriving Repr, DecidableEq

def MergeCandidates.canMerge (c : MergeCandidates) : Bool :=
  c.leftPageId.isSome || c.rightPageId.isSome

def getLeafMergeCandidates (env : Env) (leaf : LeafNode) : PagerM MergeCandidates := do
  let leftPageId := if leaf.prevLeaf ≠ 0 then some leaf.prevLeaf else none
  let rightPageId := if leaf.nextLeaf ≠ 0 then some leaf.nextLeaf else none
  match leftPageId, rightPageId with
  | some _, some _ =>
    -- the right sibling is read only when the left one is a leaf
    match ← readSibling env leaf.prevLeaf with
    | none => pure ⟨leftPageId, rightPageId, none⟩
    | some left =>
      match ← readSibling env leaf.nextLeaf with
      | none => pure ⟨leftPageId, rightPageId, none⟩
      | some right =>
        if left.entries.length ≤ right.entries.length then
          pure ⟨leftPageId, rightPageId, some .leftIntoRight⟩
        else pure ⟨leftPageId, rightPageId, some .rightIntoLeft⟩
  | some _, none => pure ⟨leftPageId, rightPageId, some .leftIntoRight⟩
  | none, some _ => pure ⟨leftPageId, rightPageId, some .rightIntoLeft⟩
  | none, none => pure ⟨leftPageId, rightPageId, none⟩

def canMergeLeaves (left right : LeafNode) : Bool :=
  LeafNode.used left.entries + LeafNode.used right.entries ≤ bodySize &&
    left.entries.length + right.entries.length ≤ 65535

/-- The merged leaf and the freed page; `none` is `CannotMerge`. -/
def mergeLeafRightIntoLeft (env : Env) (left right : LeafNode) :
    PagerM (Option (LeafNode × PageId)) := do
  if ¬ canMergeLeaves left right then pure none
  else
    let left ← liftErr (left.insertAll right.entries)
    let left := { left with nextLeaf := right.nextLeaf }
    match ← readSibling env left.nextLeaf with
    | some next =>
      writeBtreeNode env left.nextLeaf (.leaf { next with prevLeaf := left.header.nodeId })
      pure (some (left, right.header.nodeId))
    | none => pure (some (left, right.header.nodeId))

def mergeLeafLeftIntoRight (env : Env) (left right : LeafNode) :
    PagerM (Option (LeafNode × PageId)) := do
  if ¬ canMergeLeaves left right then pure none
  else
    -- the free space of the header is left as it was
    let entries := left.entries ++ right.entries
    let right := { right with
      entries := entries
      header := { right.header with numKeys := UInt16.ofNat entries.length }
      prevLeaf := left.prevLeaf }
    match ← readSibling env right.prevLeaf with
    | some prev =>
      writeBtreeNode env right.prevLeaf (.leaf { prev with nextLeaf := right.header.nodeId })
      pure (some (right, left.header.nodeId))
    | none => pure (some (right, left.header.nodeId))

end Northstar.Btree
