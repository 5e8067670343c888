import Northstar.Zig.Node
import Northstar.Lib.EState

/-!
# Pager — the page file and the B+tree in it

The file is a list of whole pages; bytes behind the last whole page are never read.  An operation that
fails keeps the pages it has written.  The page cache holds copies that every write drops, so it is left
out.  The walks down the tree have no bound in the source: a walk that has used up its fuel is still
`running`.
-/

namespace Northstar.Zig

open Bytes

structure Pager where
  pages : List Page
  currentMeta : MetaState
  -- `page_allocator`
  freePages : List Nat
  lastAllocatedPage : Nat
  deriving Repr, DecidableEq

abbrev PagerM := EStateM PagerError Pager

namespace Pager

def getRootPageId (p : Pager) : Nat := p.currentMeta.payload.rootPageId

def getCommittedTxnId (p : Pager) : Nat := p.currentMeta.payload.committedTxnId

def setRootPageId (p : Pager) (rootPageId : Nat) : Pager :=
  { p with currentMeta := { p.currentMeta with payload := { p.currentMeta.payload with rootPageId } } }

/-- A page written at its place; what lies between the end of the file and the page is a hole. -/
def putPage (p : Pager) (pageId : Nat) (page : Page) : Pager :=
  let pages := p.pages ++ List.replicate (pageId + 1 - p.pages.length) Page.hole
  { p with pages := pages.set pageId page }

def readPage (p : Pager) (pageId : Nat) : Except PagerError Page :=
  match p.pages[pageId]? with
  | none => .error .pageOutOfBounds
  | some page => do
    let header ← validatePage page
    if header.pageId ≠ pageId then .error .pageIdMismatch
    else if header.payloadLen > Page.bodySize then .error .payloadTooLarge
    else return page

def writePage (pageId : Nat) (page : Page) : PagerM Unit := do
  let header ← EStateM.lift (validatePage page)
  if header.pageId ≠ pageId then throw .pageIdMismatch
  let p ← get
  if pageId > p.pages.length then throw .writeBeyondFile
  set (p.putPage pageId page)

def freshPage (pageId : Nat) : Page :=
  let header : PageHeader :=
    { pageType := .freelist, pageId, txnId := 0, payloadLen := 0, headerCrc32c := 0, pageCrc32c := 0 }
  ⟨{ header with headerCrc32c := header.calculateHeaderChecksum }, List.replicate Page.bodySize 0⟩

def allocatePage : PagerM Nat := do
  let p ← get
  match p.freePages with
  | pageId :: freePages =>
    set { p with freePages }
    return pageId
  | [] =>
    let pageId := p.lastAllocatedPage
    set ({ p with lastAllocatedPage := pageId + 1 }.putPage pageId (freshPage pageId))
    return pageId

/-- The page that a walk reads at `pageId`, and where it goes on, if it is not at a leaf. -/
def descend (p : Pager) (key : Bytes) (pageId : Nat) : Except PagerError (Page × Option Nat) := do
  let page ← p.readPage pageId
  let header ← validatePage page
  if header.pageType = .btreeLeaf then return (page, none)
  else if header.pageType = .btreeInternal then
    match ← findChildInBtreeInternal page key with
    | none => .error .corruptBtree
    | some childPageId => if childPageId = 0 then .error .corruptBtree else return (page, some childPageId)
  else .error .invalidPageType

/-- The pages from the leaf up, with `above` those that the walk has come through. -/
def findPathFrom (p : Pager) (key : Bytes) :
    Nat → Nat → List (Nat × Page) → Except PagerError ((Nat × Page) × List (Nat × Page))
  | 0, _, _ => .error .running
  | fuel + 1, pageId, above => do
    match ← p.descend key pageId with
    | (page, none) => return ((pageId, page), above)
    | (page, some child) => p.findPathFrom key fuel child ((pageId, page) :: above)

/-- `findBtreePath`: the leaf, and the pages above it, the nearest first. -/
def findBtreePath (p : Pager) (fuel : Nat) (key : Bytes) :
    Except PagerError ((Nat × Page) × List (Nat × Page)) :=
  if p.getRootPageId = 0 then .error .treeEmpty else p.findPathFrom key fuel p.getRootPageId []

/-- The loop of `getBtreeValueAtRoot`. -/
def getValueFrom (p : Pager) (key : Bytes) (bufferLen : Nat) :
    Nat → Nat → Except PagerError (Option Bytes)
  | 0, _ => .error .running
  | fuel + 1, pageId => do
    match ← p.descend key pageId with
    | (_, some child) => p.getValueFrom key bufferLen fuel child
    | (page, none) =>
      let payload ← slice page.body 0 page.header.payloadLen
      let _ ← slice payload 0 BtreeNodeHeader.size
      match ← getValueFromBtreeLeaf page key with
      | none => return none
      | some value => if value.length > bufferLen then .error .bufferTooSmall else return some value

def getBtreeValueAtRoot (p : Pager) (fuel : Nat) (key : Bytes) (bufferLen rootPageId : Nat) :
    Except PagerError (Option Bytes) :=
  if rootPageId = 0 then .ok none else p.getValueFrom key bufferLen fuel rootPageId

def copyOnWritePage (page : Page) (txnId : Nat) : Except PagerError Page := do
  let header ← page.header.decode
  return Page.rehash { page with header := { header with txnId } }

structure SplitResult where
  leftPageId : Nat
  rightPageId : Nat
  separatorKey : Bytes
  deriving Repr, DecidableEq

/-- All entries, or the error of the first that cannot be read. -/
def leafEntries (payload : Bytes) : Except PagerError (List BtreeLeafEntry) := do
  let node ← BtreeNodeHeader.read payload
  (List.range node.keyCount).mapM (BtreeLeafPayload.getEntry payload)

def addEntries (payload : Bytes) (entries : List BtreeLeafEntry) : Except PagerError Bytes :=
  entries.foldlM (fun payload entry => BtreeLeafPayload.addEntry payload entry.key entry.value) payload

/-- The two halves of a leaf; the left one keeps the page. -/
def splitLeaf (leaf : Page) (rightPageId txnId : Nat) : Except PagerError (Page × Page × Bytes) := do
  let header ← leaf.header.decode
  let right := createEmptyBtreeLeaf rightPageId txnId 0
  let payload ← slice leaf.body 0 header.payloadLen
  let entries ← leafEntries payload
  let splitPoint := entries.length / 2
  match entries[splitPoint]? with
  | none => .error .panic
  | some separator =>
    let cleared := payload.take BtreeNodeHeader.size ++
      List.replicate (payload.length - BtreeNodeHeader.size) 0
    let cleared ← BtreeNodeHeader.setKeyCount cleared 0
    let cleared ← BtreeNodeHeader.setRightSibling cleared rightPageId
    let leftPayload ← addEntries cleared (entries.take splitPoint)
    let rightPayload ← addEntries right.body (entries.drop splitPoint)
    return (Page.rehash { leaf with body := leftPayload ++ leaf.body.drop header.payloadLen },
      Page.rehash { right with body := rightPayload }, separator.key)

def splitLeafNode (leaf : Page) (txnId : Nat) : PagerM SplitResult := do
  let rightPageId ← allocatePage
  let (left, right, separatorKey) ← EStateM.lift (splitLeaf leaf rightPageId txnId)
  writePage left.header.pageId left
  writePage rightPageId right
  return ⟨left.header.pageId, rightPageId, separatorKey⟩

def insertIntoInternalNode (internal : Page) (separatorKey : Bytes) (childPageId : Nat) :
    Except PagerError Page := do
  let header ← internal.header.decode
  let payload ← slice internal.body 0 header.payloadLen
  let node ← BtreeNodeHeader.read payload
  let _ ← BtreeInternalPayload.separatorPosition payload separatorKey node.keyCount 0
  let payloadGrowth := 8 + 2 + separatorKey.length
  let body ← BtreeInternalPayload.addChildExpand internal.body header.payloadLen separatorKey childPageId
    payloadGrowth
  return { internal with
    header := { internal.header with payloadLen := header.payloadLen + payloadGrowth }, body }

/-- `splitInternalNode`, up to the number of keys of the right node.  It is computed as
`internal_node_header.key_count - left_key_count - 1`, but the header is a pointer to the left node,
whose count has been set to `left_key_count` by then: the subtraction overflows on every node, and what
follows is not reached. -/
def splitInternalNode (internal : Page) (txnId : Nat) : PagerM Nat := do
  let rightPageId ← allocatePage
  EStateM.lift do
    let header ← internal.header.decode
    let payload ← slice internal.body 0 header.payloadLen
    let node ← BtreeNodeHeader.read payload
    let _ ← createEmptyBtreeInternal rightPageId node.level txnId 0 0
    let children ← (List.range (← BtreeInternalPayload.childCount payload)).mapM
      (BtreeInternalPayload.getChildPageId payload)
    let separators ← (List.range node.keyCount).mapM (BtreeInternalPayload.getSeparatorKey payload)
    let splitPoint := node.keyCount / 2
    match separators[splitPoint]? with
    | none => .error .panic
    | some _ =>
      let left := payload.take BtreeNodeHeader.size ++
        List.replicate (payload.length - BtreeNodeHeader.size) 0
      let left ← BtreeNodeHeader.setKeyCount left splitPoint
      let left ← BtreeNodeHeader.setRightSibling left rightPageId
      let left ← (children.take (splitPoint + 1)).zipIdx.foldlM
        (fun left child => BtreeInternalPayload.setChildPageId left child.2 child.1) left
      let leftNode ← BtreeNodeHeader.read left
      checkedSub leftNode.keyCount (splitPoint + 1)

/-- Writes the pages again, with the transaction in their headers. -/
def copyUp (txnId : Nat) : List (Nat × Page) → PagerM Unit
  | [] => pure ()
  | (pageId, page) :: rest => do
    let copy ← EStateM.lift (copyOnWritePage page txnId)
    writePage pageId copy
    copyUp txnId rest

/-- The key that did not fit goes to the half it belongs to. -/
def addToHalf (pageId : Nat) (key value : Bytes) : PagerM Unit := do
  let half ← EStateM.lift ((← get).readPage pageId)
  let half ← EStateM.lift (addEntryToBtreeLeaf half key value)
  writePage pageId half.rehash

/-- A new root over the two halves of the old one. -/
def growRoot (split : SplitResult) (txnId : Nat) : PagerM Unit := do
  let newRootId ← allocatePage
  let root ← EStateM.lift do
    let empty ← createEmptyBtreeInternal newRootId 1 txnId 0 split.leftPageId
    let payloadGrowth := 8 + 2 + split.separatorKey.length
    let body ← BtreeInternalPayload.addChildExpand empty.body empty.header.payloadLen split.separatorKey
      split.rightPageId payloadGrowth
    return Page.rehash
      { empty with header := { empty.header with payloadLen := empty.header.payloadLen + payloadGrowth },
                   body }
  writePage newRootId root
  modify (·.setRootPageId newRootId)

/-- The first child that points to `pageId`, from `childIdx` on; a child that cannot be read ends the
search. -/
def childPointingTo (payload : Bytes) (pageId : Nat) : Nat → Nat → Except PagerError (Option Nat)
  | 0, _ => .ok none
  | remaining + 1, childIdx =>
    match BtreeInternalPayload.getChildPageId payload childIdx with
    | .error .panic => .error .panic
    | .error _ => .ok none
    | .ok child =>
      if child = pageId then .ok (some childIdx) else childPointingTo payload pageId remaining (childIdx + 1)

/-- The parent, with the pointer to the leaf replaced by one to its left half. -/
def relinkParent (parent : Page) (leafPageId leftPageId : Nat) : Except PagerError Page := do
  let header ← parent.header.decode
  let payload ← slice parent.body 0 header.payloadLen
  let first ← BtreeInternalPayload.findChild payload []
  let node ← BtreeNodeHeader.read payload
  let found ← childPointingTo payload leafPageId (node.keyCount + 1) 0
  let payload ← BtreeInternalPayload.setChildPageId payload (found.getD first.1) leftPageId
  return Page.rehash { parent with body := payload ++ parent.body.drop header.payloadLen }

/-- The separator goes to the parent, which may be full. -/
def insertIntoParent (split : SplitResult) (leafPageId txnId : Nat) (parent : Nat × Page)
    (rest : List (Nat × Page)) : PagerM Unit := do
  let copy ← EStateM.lift (copyOnWritePage parent.2 txnId)
  match insertIntoInternalNode copy split.separatorKey split.rightPageId with
  | .ok copy =>
    let copy ← EStateM.lift (relinkParent copy leafPageId split.leftPageId)
    writePage parent.1 copy
    copyUp txnId rest
  | .error .internalNodeFull => discard (splitInternalNode copy txnId)
  | .error .panic => throw .panic
  -- the error of the leaf is returned in place of this one
  | .error _ => throw .leafFull

def splitAndPut (key value : Bytes) (txnId : Nat) (leaf : Nat × Page) (leafCopy : Page)
    (above : List (Nat × Page)) : PagerM Unit := do
  let split ← splitLeafNode leafCopy txnId
  if key < split.separatorKey then addToHalf split.leftPageId key value
  else addToHalf split.rightPageId key value
  match above with
  | [] => growRoot split txnId
  | parent :: rest => insertIntoParent split leaf.1 txnId parent rest

def putBtreeValue (fuel : Nat) (key value : Bytes) (txnId : Nat) : PagerM Unit := do
  let p ← get
  if p.getRootPageId = 0 then
    let newRootId ← allocatePage
    let page ← EStateM.lift (addEntryToBtreeLeaf (createEmptyBtreeLeaf newRootId txnId 0) key value)
    writePage newRootId page
    modify (·.setRootPageId newRootId)
  else
    let (leaf, above) ← EStateM.lift (p.findBtreePath fuel key)
    let leafCopy ← EStateM.lift (copyOnWritePage leaf.2 txnId)
    match addEntryToBtreeLeaf leafCopy key value with
    | .ok page =>
      writePage leaf.1 page
      copyUp txnId above
    | .error .leafFull => splitAndPut key value txnId leaf leafCopy above
    | .error e => throw e

/-- A leaf without the key; `none` if it is not there. -/
def removeFromLeaf (leaf : Page) (key : Bytes) : Except PagerError (Option Page) := do
  let header ← leaf.header.decode
  if header.pageType ≠ .btreeLeaf then .error .invalidPageType
  else
    let payload ← slice leaf.body 0 header.payloadLen
    BtreeLeafPayload.validate payload
    match ← BtreeLeafPayload.removeEntry payload key with
    | none => return none
    | some payload =>
      return some (Page.rehash { leaf with body := payload ++ leaf.body.drop header.payloadLen })

/-- Underflow of the leaf is noticed, and nothing is merged. -/
def deleteBtreeValue (fuel : Nat) (key : Bytes) (txnId : Nat) : PagerM Bool := do
  let p ← get
  if p.getRootPageId = 0 then return false
  else
    let (leaf, above) ← EStateM.lift (p.findBtreePath fuel key)
    match ← EStateM.lift (getValueFromBtreeLeaf leaf.2 key) with
    | none => return false
    | some _ =>
      let leafCopy ← EStateM.lift (copyOnWritePage leaf.2 txnId)
      match ← EStateM.lift (removeFromLeaf leafCopy key) with
      | none => return false
      | some page =>
        writePage leaf.1 page
        copyUp txnId above
        return true

end Pager

end Northstar.Zig
