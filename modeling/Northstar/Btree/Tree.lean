import Northstar.Btree.Edits

/-!
# Tree — the operations on the whole tree

`btree/tree.rs`: descent from the root, insertion with splits and root growth, deletion with
borrowing and merging.  A descent reads nodes without changing them, so one that visits more nodes
than the file has pages has met a page twice and never ends.
-/

namespace Northstar.Btree

open Pager EStateM

structure BTree where
  pager : Pager
  rootPageId : PageId
  height : UInt16
  deriving Repr, DecidableEq

abbrev TreeM := EStateM Fault BTree

namespace BTree

def onPager {α : Type} (x : PagerM α) : TreeM α :=
  EStateM.zoom BTree.pager (fun tree pager => { tree with pager }) x

theorem run_onPager_of_ok {α : Type} {x : PagerM α} {tree : BTree} {pager : Pager} {a : α}
    (h : x.run tree.pager = .ok a pager) : (onPager x).run tree = .ok a { tree with pager } :=
  run_zoom_of_ok h

theorem run_onPager_of_error {α : Type} {x : PagerM α} {tree : BTree} {pager : Pager} {e : Fault}
    (h : x.run tree.pager = .error e pager) : (onPager x).run tree = .error e { tree with pager } :=
  run_zoom_of_error h

/-- `BTree::new`: the height is the level of the root. -/
def new (env : Env) (rootPageId : PageId) : PagerM BTree := do
  let root ← readBtreeNode env rootPageId
  match root.header.getNodeType with
  | some .leaf | some .rootLeaf => pure ⟨← get, rootPageId, 0⟩
  | some .internal | some .rootInternal => pure ⟨← get, rootPageId, root.header.level⟩
  | none => throw (.err (.validation (.generic "Invalid root node type")))

/-- Enough steps for any descent that ends. -/
def descentFuel (pager : Pager) : Nat := pager.storage.pageCount + 1

/-- The answer for an entry of the leaf a descent ends in. -/
def resolve (env : Env) (snapshotLsn : UInt64) : Option Entry → PagerM (Option Bytes)
  | none => pure none
  | some entry => do
    if entry.lsn ≤ snapshotLsn then
      if isOverflowValue entry then
        match ← EStateM.lift (ValueStorage.decode entry.value) with
        | .overflow pageId => some <$> readOverflowChain env pageId
        | .inline _ => pure (some entry.value)
      else pure (some entry.value)
    else pure none

def getFrom (env : Env) (key : Bytes) (snapshotLsn : UInt64) : Nat → PageId → PagerM (Option Bytes)
  | 0, _ => throw .diverge
  | fuel + 1, current => do
    match ← readBtreeNode env current with
    | .internal node =>
      let child ← EStateM.lift (node.findChild key)
      getFrom env key snapshotLsn fuel child
    | .leaf leaf => resolve env snapshotLsn (leaf.find key)

def getWithPages (env : Env) (key : Bytes) (snapshotLsn : UInt64) : TreeM (Option Bytes) := do
  let tree ← get
  onPager (getFrom env key snapshotLsn (descentFuel tree.pager) tree.rootPageId)

/-- A path from the root, the node read last in front. -/
abbrev Path := List (PageId × Node)

def growTree (env : Env) (separator : Bytes) (rightChild : PageId) : TreeM Unit := do
  let newRootId ← onPager (allocatePage env)
  let tree ← get
  let fresh := InternalNode.new newRootId (tree.height + 1)
  -- the two children and the separator are pushed without `insert`: the free space stays
  let newRoot := { fresh with
    children := [tree.rootPageId, rightChild]
    separators := [separator]
    header := { fresh.header with numKeys := 1 } }
  let oldRoot ← onPager (readBtreeNode env tree.rootPageId)
  let oldRoot := oldRoot.setHeader
    { oldRoot.header with isRoot := 0, parentPageId := newRootId }
  onPager (writeBtreeNode env tree.rootPageId oldRoot)
  onPager (writeBtreeNode env newRootId (.internal newRoot))
  modify fun tree => { tree with rootPageId := newRootId, height := tree.height + 1 }

-- The path ends in the leaf that was split, so that the first node popped is a leaf.
def propagateSplit (env : Env) : Path → Bytes → PageId → TreeM Unit
  | [], _, _ => pure ()
  | (pageId, .internal node) :: path, separator, newChildId => do
    let (result, node) ← onPager (insertIntoInternal env node separator newChildId)
    onPager (writeBtreeNode env pageId (.internal node))
    match result with
    | .success => pure ()
    | .split newPageId newSep => propagateSplit env path newSep newPageId
  | (_, .leaf _) :: _, separator, newChildId => growTree env separator newChildId

def putFrom (env : Env) (key : Bytes) (entry : Entry) : Nat → PageId → Path → TreeM Unit
  | 0, _, _ => throw .diverge
  | fuel + 1, current, path => do
    let node ← onPager (readBtreeNode env current)
    let path := (current, node) :: path
    match node with
    | .internal node =>
      let child ← EStateM.lift (node.findChild key)
      putFrom env key entry fuel child path
    | .leaf leaf =>
      let (result, leaf) ← onPager (insertIntoLeaf env leaf entry)
      onPager (writeBtreeNode env current (.leaf leaf))
      match result with
      | .success => pure ()
      | .split newPageId separator => propagateSplit env path separator newPageId

def put (env : Env) (key value : Bytes) (lsn : UInt64) : TreeM Unit := do
  let entry ← onPager (prepareEntryValue env key value lsn)
  let tree ← get
  let descend := putFrom env key entry (descentFuel tree.pager) tree.rootPageId []
  match ← onPager (readBtreeNode env tree.rootPageId) with
  | .leaf leaf =>
    if leaf.entries.isEmpty then
      let (_, leaf) ← liftErr (leaf.insert entry)
      onPager (writeBtreeNode env tree.rootPageId (.leaf leaf))
    else descend
  | .internal _ => descend

def propagateMerge (env : Env) : Path → PageId → TreeM Unit
  | [], _ => pure ()
  | (pageId, .internal node) :: path, freedPageId => do
    match node.children.idxOf? freedPageId with
    | some (pos + 1) =>
      let separators := node.separators.eraseIdx pos
      onPager (writeBtreeNode env pageId (.internal { node with
        separators := separators
        children := node.children.eraseIdx (pos + 1)
        header := { node.header with numKeys := UInt16.ofNat separators.length } }))
    | _ => propagateMerge env path freedPageId
  | (_, .leaf _) :: _, _ => pure ()

/-- The borrow half of `handle_leaf_underflow`: whether an entry was moved. -/
def borrowInto (env : Env) (underfullPageId : PageId) (underfull : LeafNode)
    (donorPageId : Option PageId)
    (borrow : LeafNode → LeafNode → Except Error (Option (LeafNode × LeafNode))) :
    TreeM Bool := do
  match donorPageId with
  | none => pure false
  | some donorPageId =>
    match ← onPager (EStateM.attempt Fault.isErr (readBtreeNode env donorPageId)) with
    | some (.leaf donor) =>
      match borrow underfull donor with
      | .ok (some (underfull, donor)) =>
        onPager (writeBtreeNode env underfullPageId (.leaf underfull))
        onPager (writeBtreeNode env donorPageId (.leaf donor))
        pure true
      | _ => pure false
    | _ => pure false

/-- The merge half: `merge` is given the sibling that was read. -/
def mergeInto (env : Env) (siblingPageId : Option PageId) (path : Path)
    (merge : LeafNode → PagerM (Option (LeafNode × PageId))) : TreeM Unit := do
  match siblingPageId with
  | none => pure ()
  | some siblingPageId =>
    match ← onPager (EStateM.attempt Fault.isErr (readBtreeNode env siblingPageId)) with
    | some (.leaf sibling) =>
      match ← onPager (EStateM.attempt Fault.isErr (merge sibling)) with
      | some (some (merged, freedPageId)) =>
        onPager (writeBtreeNode env siblingPageId (.leaf merged))
        propagateMerge env path freedPageId
      | _ => pure ()
    | _ => pure ()

/-- `handle_leaf_underflow`, first half: whether an entry was borrowed. -/
def borrowHalf (env : Env) (underfullPageId : PageId) (underfull : LeafNode) : TreeM Bool := do
  match ← onPager (EStateM.attempt Fault.isErr (getLeafBorrowCandidates env underfull)) with
  | none => pure false
  | some c =>
    if c.canBorrow then
      match c.recommendedDirection with
      | some .fromRight => borrowInto env underfullPageId underfull c.rightPageId borrowFromRightLeaf
      | some .fromLeft => borrowInto env underfullPageId underfull c.leftPageId borrowFromLeftLeaf
      | none => pure false
    else pure false

/-- Second half: the sibling that is read is never the one of the direction's name. -/
def mergeHalf (env : Env) (underfull : LeafNode) (path : Path) : TreeM Unit := do
  match ← onPager (EStateM.attempt Fault.isErr (getLeafMergeCandidates env underfull)) with
  | none => pure ()
  | some c =>
    if c.canMerge then
      match c.recommendedDirection with
      | some .rightIntoLeft =>
        mergeInto env c.leftPageId path (fun left => mergeLeafRightIntoLeft env left underfull)
      | some .leftIntoRight =>
        mergeInto env c.rightPageId path (fun right => mergeLeafLeftIntoRight env underfull right)
      | none => pure ()
    else pure ()

def handleLeafUnderflow (env : Env) (underfullPageId : PageId) (underfull : LeafNode)
    (path : Path) : TreeM Unit := do
  let borrowed ← borrowHalf env underfullPageId underfull
  if borrowed then pure () else mergeHalf env underfull path

def deleteFrom (env : Env) (key : Bytes) : Nat → PageId → Path → TreeM Unit
  | 0, _, _ => throw .diverge
  | fuel + 1, current, path => do
    let node ← onPager (readBtreeNode env current)
    let path := (current, node) :: path
    match node with
    | .internal node =>
      let child ← EStateM.lift (node.findChild key)
      deleteFrom env key fuel child path
    | .leaf leaf =>
      let (result, leaf) := deleteFromLeaf leaf key
      onPager (writeBtreeNode env current (.leaf leaf))
      match result with
      | .success => pure ()
      | .underfull => handleLeafUnderflow env current leaf path

def delete (env : Env) (key : Bytes) : TreeM Unit := do
  let tree ← get
  deleteFrom env key (descentFuel tree.pager) tree.rootPageId []

end BTree

end Northstar.Btree
