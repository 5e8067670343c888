import Northstar.Zig.InternalNode
import Northstar.Zig.RootLeaf

/-!
# RangeReads — range scans and point reads

`BtreeIterator`, whose buffer is a page it has read.  It looks for node headers, slots and entries from the first byte
of that buffer on, where the page header is; only `getValueFromBtreeLeaf` and `findChildInBtreeInternal` skip it.

A point read goes down the tree by its key.  A range scan should give what point reads give, key by key.  It takes
the header of a page for the header of its node, though: the id of the page for its right sibling, and the upper
sixteen bits of the transaction for the number of its keys.
-/

namespace Northstar.Zig

open Bytes

structure BtreeIterator where
  currentPageId : Nat
  currentPageBuffer : Page
  currentSlotIndex : Nat
  startKey : Option Bytes
  endKey : Option Bytes
  atEnd : Bool
  deriving Repr, DecidableEq

namespace BtreeIterator

/-- The lengths of `key_buffer` and `value_buffer`. -/
def keyBufferLen : Nat := 256
def valueBufferLen : Nat := 1024

/-- The binary search of `findInsertPosition`. -/
def searchInsertPosition (buffer : Bytes) (slots : List Nat) (key : Bytes) :
    Nat → Nat → Nat → Except PagerError Nat
  | 0, left, _ => .ok left
  | fuel + 1, left, right =>
    if left < right then do
      let mid := left + (right - left) / 2
      let entry ← BtreeLeafPayload.getEntryWithSlots buffer mid slots
      if entry.key < key then searchInsertPosition buffer slots key fuel (mid + 1) right
      else searchInsertPosition buffer slots key fuel left mid
    else .ok left

/-- The sibling's id is read from the buffer before the sibling is read into it. -/
def moveToNextPage (p : Pager) (it : BtreeIterator) : Except PagerError BtreeIterator := do
  let node ← BtreeNodeHeader.read it.currentPageBuffer.bytes
  if node.rightSibling = 0 then return { it with atEnd := true }
  else
    let page ← p.readPage node.rightSibling
    return { it with
      currentPageBuffer := page, currentPageId := node.rightSibling, currentSlotIndex := 0 }

def findInsertPosition (p : Pager) (key : Bytes) (it : BtreeIterator) : Except PagerError BtreeIterator := do
  let buffer := it.currentPageBuffer.bytes
  let node ← BtreeNodeHeader.read buffer
  let slots ← BtreeLeafPayload.getSlotArray buffer (BtreeLeafPayload.maxKeysPerLeaf + 1)
  let left ← searchInsertPosition buffer slots key node.keyCount 0 node.keyCount
  let it := { it with currentSlotIndex := left }
  if left ≥ node.keyCount then moveToNextPage p it else return it

/-- The loop of `seekToFirstLeaf`. -/
def seekToFirstLeaf (p : Pager) : Nat → Nat → BtreeIterator → Except PagerError BtreeIterator
  | 0, _, _ => .error .running
  | fuel + 1, pageId, it => do
    let page ← p.readPage pageId
    let header ← validatePage page
    let it := { it with currentPageBuffer := page }
    if header.pageType = .btreeLeaf then
      let it := { it with currentPageId := pageId, currentSlotIndex := 0 }
      match it.startKey with
      | none => return it
      | some startKey =>
        match ← BtreeLeafPayload.findKey page.bytes startKey with
        | some slotIdx => return { it with currentSlotIndex := slotIdx }
        | none => findInsertPosition p startKey it
    else if header.pageType = .btreeInternal then
      let child ← BtreeInternalPayload.getChildPageId page.bytes 0
      seekToFirstLeaf p fuel child it
    else .error .invalidPageType

/-- The loop of `seekToKeyAtRoot`. -/
def seekToKeyAtRoot (p : Pager) (key : Bytes) : Nat → Nat → BtreeIterator → Except PagerError BtreeIterator
  | 0, _, _ => .error .running
  | fuel + 1, pageId, it => do
    let page ← p.readPage pageId
    let header ← validatePage page
    let it := { it with currentPageBuffer := page }
    if header.pageType = .btreeLeaf then
      let it := { it with currentPageId := pageId }
      match ← getValueFromBtreeLeaf page key with
      | some _ =>
        let slotIdx ← BtreeLeafPayload.findKey page.bytes key
        return { it with currentSlotIndex := slotIdx.getD 0 }
      | none => findInsertPosition p key it
    else if header.pageType = .btreeInternal then
      match ← findChildInBtreeInternal page key with
      | none => .error .corruptBtree
      | some child => seekToKeyAtRoot p key fuel child it
    else .error .invalidPageType

/-- The buffer is zeroed until a page has been read into it. -/
def initWithRangeAtRoot (p : Pager) (fuel : Nat) (startKey endKey : Option Bytes) (rootPageId : Nat) :
    Except PagerError BtreeIterator :=
  if rootPageId = 0 then .error .treeEmpty
  else
    let it : BtreeIterator :=
      { currentPageId := 0, currentPageBuffer := Page.hole, currentSlotIndex := 0, startKey, endKey,
        atEnd := false }
    match startKey with
    | some key => seekToKeyAtRoot p key fuel rootPageId it
    | none => seekToFirstLeaf p fuel rootPageId it

/-- The loop of `next` over the pages that have no more slots. -/
def skipPages (p : Pager) : Nat → BtreeIterator → Except PagerError BtreeIterator
  | 0, _ => .error .running
  | fuel + 1, it => do
    let node ← BtreeNodeHeader.read it.currentPageBuffer.bytes
    if it.currentSlotIndex ≥ node.keyCount then
      let it ← moveToNextPage p it
      if it.atEnd then return it else skipPages p fuel it
    else return it

def next (p : Pager) (fuel : Nat) (it : BtreeIterator) :
    Except PagerError (Option (Bytes × Bytes) × BtreeIterator) :=
  if it.atEnd then .ok (none, it)
  else do
    let it ← skipPages p fuel it
    if it.atEnd then return (none, it)
    else
      let entry ← BtreeLeafPayload.getEntry it.currentPageBuffer.bytes it.currentSlotIndex
      if ∃ endKey ∈ it.endKey, endKey < entry.key then return (none, { it with atEnd := true })
      else if entry.key.length > keyBufferLen then .error .keyTooLong
      else if entry.value.length > valueBufferLen then .error .valueTooLong
      else return (some (entry.key, entry.value), { it with currentSlotIndex := it.currentSlotIndex + 1 })

/-- `next`, call after call until there is nothing more. -/
inductive Yields (p : Pager) : BtreeIterator → List (Bytes × Bytes) → Prop
  | done {fuel : Nat} {it it' : BtreeIterator} (h : next p fuel it = .ok (none, it')) : Yields p it []
  | more {fuel : Nat} {it it' : BtreeIterator} {pair : Bytes × Bytes} {pairs : List (Bytes × Bytes)}
      (h : next p fuel it = .ok (some pair, it')) (rest : Yields p it' pairs) : Yields p it (pair :: pairs)

end BtreeIterator

open BtreeLeafPayload SortedEntries

/-- A leaf of a tree, with the page it is read from and the entries of its payload. -/
structure TreeLeaf where
  pageId : Nat
  page : Page
  es : List (Nat × BtreeLeafEntry)

def TreeLeaf.pairs (leaf : TreeLeaf) : List (Bytes × Bytes) := leaf.es.map fun e => (e.2.key, e.2.value)

structure TreeLeaf.Valid (p : Pager) (leaf : TreeLeaf) : Prop where
  read : p.readPage leaf.pageId = .ok leaf.page
  pageType : leaf.page.header.pageType = .btreeLeaf
  fits : leaf.page.header.Fits
  length : leaf.page.body.length = Page.bodySize
  lays : Lays leaf.page.payload leaf.es

/-- Every right sibling is the next leaf, and the last one has none. -/
def Linked : List TreeLeaf → Prop
  | [] => True
  | [leaf] => window leaf.page.payload 0 8 = le 8 0
  | leaf :: next :: rest => window leaf.page.payload 0 8 = le 8 next.pageId ∧ Linked (next :: rest)

/-- The separators send a key to a leaf with smaller keys before it and larger ones behind it. -/
structure RoutedTo (p : Pager) (rootPageId : Nat) (key : Bytes) (before : List TreeLeaf) (leaf : TreeLeaf)
    (behind : List TreeLeaf) : Prop where
  path : ∃ fuel above, p.findPathFrom key fuel rootPageId [] = .ok ((leaf.pageId, leaf.page), above)
  smaller : ∀ x ∈ before, ∀ pair ∈ x.pairs, pair.1 < key
  larger : ∀ x ∈ behind, ∀ pair ∈ x.pairs, key < pair.1

/-- A tree with the given leaves. -/
structure WellFormed (p : Pager) (rootPageId : Nat) (leaves : List TreeLeaf) : Prop where
  root : rootPageId ≠ 0
  valid : ∀ leaf ∈ leaves, leaf.Valid p
  linked : Linked leaves
  sorted : (leaves.flatMap TreeLeaf.pairs).Pairwise (fun a b => a.1 < b.1)
  routed : ∀ key, ∃ before leaf behind, leaves = before ++ leaf :: behind ∧
    RoutedTo p rootPageId key before leaf behind

def PointRead (p : Pager) (rootPageId : Nat) (key value : Bytes) : Prop :=
  ∃ fuel bufferLen, p.getBtreeValueAtRoot fuel key bufferLen rootPageId = .ok (some value)

/-- The scan ends, and has given exactly the pairs of the range, in ascending order. -/
def Agrees (p : Pager) (rootPageId : Nat) (startKey endKey : Bytes) : Prop :=
  ∃ fuel it pairs, BtreeIterator.initWithRangeAtRoot p fuel (some startKey) (some endKey) rootPageId = .ok it ∧
    it.Yields p pairs ∧ pairs.Pairwise (fun a b => a.1 < b.1) ∧
    ∀ pair, pair ∈ pairs ↔ startKey ≤ pair.1 ∧ pair.1 < endKey ∧ PointRead p rootPageId pair.1 pair.2

variable {value : Bytes} {leafId slot : Nat} {path above : List (Nat × Page)}

namespace TreeLeaf.Valid

variable {p : Pager} {leaf : TreeLeaf} (h : leaf.Valid p)

include h

theorem valid : validatePage leaf.page = .ok leaf.page.header := (Pager.readPage_eq_ok h.read).2.1

theorem id : leaf.page.header.pageId = leaf.pageId := (Pager.readPage_eq_ok h.read).2.2

theorem descend_eq (key : Bytes) : p.descend key leaf.pageId = .ok (leaf.page, none) := by
  unfold Pager.descend
  rw [h.read, Except.ok_bind, h.valid, Except.ok_bind, if_pos h.pageType]
  rfl

theorem slice_eq : slice leaf.page.body 0 leaf.page.header.payloadLen = .ok leaf.page.payload := by
  have hlen := (validatePage_eq_ok h.valid).2
  rw [slice_of_le (Nat.zero_le _) hlen, Nat.sub_zero]
  rfl

theorem getValueFromBtreeLeaf_eq (key : Bytes) :
    getValueFromBtreeLeaf leaf.page key = .ok ((lookup slotKey key leaf.es).map (·.2.value)) := by
  have hdecode : leaf.page.header.decode = .ok leaf.page.header := by
    have hvalid := h.valid
    unfold validatePage at hvalid
    rcases Except.bind_eq_ok_iff.mp hvalid with ⟨header, hdecode, -⟩
    rw [(decode_eq_ok hdecode).1] at hdecode
    exact hdecode
  unfold getValueFromBtreeLeaf
  rw [hdecode]
  dsimp only
  rw [if_neg (not_not.mpr h.pageType), h.slice_eq, Except.ok_bind, h.lays.getValue_eq]

theorem lookup_iff {key : Bytes} :
    (lookup slotKey key leaf.es).map (·.2.value) = some value ↔ (key, value) ∈ leaf.pairs := by
  unfold TreeLeaf.pairs
  rw [Option.map_eq_some_iff, List.mem_map]
  constructor
  · intro hfound
    rcases hfound with ⟨e, he, rfl⟩
    rcases mem_of_lookup he with ⟨hmem, rfl⟩
    exact ⟨e, hmem, rfl⟩
  · intro hpair
    rcases hpair with ⟨e, hmem, heq⟩
    have hkey : slotKey e = key := congrArg Prod.fst heq
    exact ⟨e, lookup_eq_some h.lays.sorted hmem hkey, congrArg Prod.snd heq⟩

theorem getValueFrom_eq (key : Bytes) (bufferLen fuel : Nat) :
    p.getValueFrom key bufferLen (fuel + 1) leaf.pageId =
      match (lookup slotKey key leaf.es).map (·.2.value) with
      | none => .ok none
      | some value => if value.length > bufferLen then .error .bufferTooSmall else .ok (some value) := by
  have hheader : slice leaf.page.payload 0 BtreeNodeHeader.size = .ok (window leaf.page.payload 0 48) := by
    have hroom := h.lays.room
    refine slice_of_le (Nat.zero_le _) ?_
    show 48 ≤ leaf.page.payload.length
    omega
  unfold Pager.getValueFrom
  rw [h.descend_eq, Except.ok_bind]
  dsimp only
  rw [h.slice_eq, Except.ok_bind, hheader, Except.ok_bind, h.getValueFromBtreeLeaf_eq, Except.ok_bind]
  cases (lookup slotKey key leaf.es).map (·.2.value) with
  | none => rfl
  | some value => rfl

end TreeLeaf.Valid

variable {page : Page} {fuel pageId : Nat} {entry : BtreeLeafEntry} {pairs : List (Bytes × Bytes)}

section

variable {p : Pager} {key : Bytes}

/-- Walks take a key to one leaf; with less fuel they go on. -/
theorem getValueFrom_of_path {bufferLen : Nat}
    (h : p.findPathFrom key fuel pageId path = .ok ((leafId, page), above)) :
    p.getValueFrom key bufferLen fuel pageId = p.getValueFrom key bufferLen 1 leafId ∧
      ∀ fuel', p.getValueFrom key bufferLen fuel' pageId = .error .running ∨
        p.getValueFrom key bufferLen fuel' pageId = p.getValueFrom key bufferLen 1 leafId := by
  induction fuel generalizing pageId path with
  | zero => cases h
  | succ fuel ih =>
    unfold Pager.findPathFrom at h
    rcases Except.bind_eq_ok_iff.mp h with ⟨⟨found, next⟩, hdescend, h⟩
    cases next with
    | none =>
      cases h
      have hsame : ∀ fuel', p.getValueFrom key bufferLen (fuel' + 1) leafId =
          p.getValueFrom key bufferLen 1 leafId := by
        intro fuel'
        unfold Pager.getValueFrom
        rw [hdescend, Except.ok_bind, Except.ok_bind]
      refine ⟨hsame fuel, ?_⟩
      intro fuel'
      cases fuel' with
      | zero => exact Or.inl rfl
      | succ fuel' => exact Or.inr (hsame fuel')
    | some child =>
      rcases ih h with ⟨hrest, hall⟩
      have hstep : ∀ fuel', p.getValueFrom key bufferLen (fuel' + 1) pageId =
          p.getValueFrom key bufferLen fuel' child := by
        intro fuel'
        conv_lhs => unfold Pager.getValueFrom
        rw [hdescend, Except.ok_bind]
      refine ⟨(hstep fuel).trans hrest, ?_⟩
      intro fuel'
      cases fuel' with
      | zero => exact Or.inl rfl
      | succ fuel' =>
        rw [hstep fuel']
        exact hall fuel'

variable {rootPageId : Nat} {leaves : List TreeLeaf}

theorem WellFormed.pointRead_iff (h : WellFormed p rootPageId leaves) :
    PointRead p rootPageId key value ↔ (key, value) ∈ leaves.flatMap TreeLeaf.pairs := by
  rcases h.routed key with ⟨before, leaf, behind, hleaves, hrouted⟩
  rcases hrouted.path with ⟨fuel, above, hpath⟩
  have hvalid : leaf.Valid p := h.valid leaf (hleaves ▸ List.mem_append_right _ (List.mem_cons_self ..))
  have hhere : (key, value) ∈ leaves.flatMap TreeLeaf.pairs ↔ (key, value) ∈ leaf.pairs := by
    rw [hleaves, List.flatMap_append, List.flatMap_cons, List.mem_append, List.mem_append, List.mem_flatMap,
      List.mem_flatMap]
    constructor
    · intro hmem
      rcases hmem with ⟨x, hx, hpair⟩ | hpair | ⟨x, hx, hpair⟩
      · exact absurd (hrouted.smaller x hx _ hpair) (lt_irrefl key)
      · exact hpair
      · exact absurd (hrouted.larger x hx _ hpair) (lt_irrefl key)
    · intro hpair
      exact Or.inr (Or.inl hpair)
  have hend := hvalid.getValueFrom_eq key
  rw [hhere, ← hvalid.lookup_iff]
  constructor
  · intro hread
    rcases hread with ⟨fuel', bufferLen, hread⟩
    unfold Pager.getBtreeValueAtRoot at hread
    rw [if_neg h.root] at hread
    rcases (getValueFrom_of_path hpath).2 fuel' with hrunning | hdone
    · rw [hrunning] at hread
      cases hread
    · rw [hdone, hend] at hread
      cases hfound : (lookup slotKey key leaf.es).map (·.2.value) with
      | none =>
        rw [hfound] at hread
        cases hread
      | some found =>
        rw [hfound] at hread
        exact congrArg some (Option.some.inj (Except.ok.inj (Except.guard_eq_ok_iff.mp hread).2))
  · intro hfound
    refine ⟨fuel, value.length, ?_⟩
    unfold Pager.getBtreeValueAtRoot
    rw [if_neg h.root, (getValueFrom_of_path hpath).1, hend, hfound]
    exact if_neg (Nat.lt_irrefl _)

end

theorem take_le (a b n : Nat) : (le (a + b) n).take a = le a n := by
  induction a generalizing n with
  | zero => rw [List.take_zero, le]
  | succ a ih => rw [Nat.succ_add, le, le, List.take_succ_cons, ih]

theorem drop_le (a b n : Nat) : (le (a + b) n).drop a = le b (n / 256 ^ a) := by
  induction a generalizing n with
  | zero => rw [Nat.zero_add, List.drop_zero, Nat.pow_zero, Nat.div_one]
  | succ a ih => rw [Nat.succ_add, le, List.drop_succ_cons, ih, Nat.div_div_eq_div_mul, ← Nat.pow_succ']

theorem window_le (a b c n : Nat) : window (le (a + (b + c)) n) a b = le b (n / 256 ^ a) := by
  rw [window, drop_le, take_le]

namespace TreeLeaf.Valid

variable {p : Pager} {leaf : TreeLeaf} (h : leaf.Valid p)

include h

theorem length_bytes : leaf.page.bytes.length = 16384 := Page.length_bytes h.length

theorem read_bytes : ∃ node, BtreeNodeHeader.read leaf.page.bytes = .ok node ∧
    node.keyCount = leaf.page.header.txnId / 2 ^ 48 ∧ node.rightSibling = leaf.pageId := by
  have hsplit : leaf.page.bytes = le 8 leaf.page.header.pageId ++ (le 8 leaf.page.header.txnId ++
      (leaf.page.bytes.drop 16)) := by
    unfold Page.bytes PageHeader.encode PageHeader.checkedBytes
    simp only [List.append_assoc]
    rw [← List.append_assoc (le 8 leaf.page.header.pageId) (le 8 leaf.page.header.txnId)]
    rw [List.drop_left' (by rw [List.length_append, length_le, length_le]), List.append_assoc]
  have hslice : slice leaf.page.bytes 0 BtreeNodeHeader.size = .ok (window leaf.page.bytes 0 48) := by
    refine slice_of_le (Nat.zero_le _) ?_
    rw [h.length_bytes]
    decide
  have hpageId : window leaf.page.bytes 0 8 = le 8 leaf.page.header.pageId := by
    rw [hsplit]
    exact window_head (length_le 8 _)
  have htxnId : window leaf.page.bytes 14 2 = le 2 (leaf.page.header.txnId / 256 ^ 6) := by
    rw [hsplit, window_append_right (by rw [length_le]; decide), length_le,
      window_append_left (by rw [length_le]), ← window_le 6 2 0]
  have hsmall : leaf.page.header.txnId / 256 ^ 6 < 2 ^ 16 := by
    have hfits := h.fits.txnId
    omega
  unfold BtreeNodeHeader.read
  rw [hslice, Except.ok_bind]
  refine ⟨_, rfl, ?_, ?_⟩
  · show (readU16 (window (window leaf.page.bytes 0 48) 14 2)).toNat = _
    rw [window_window (by decide), Nat.zero_add, htxnId, readU16_le hsmall, (by norm_num : 256 ^ 6 = 2 ^ 48)]
  · show (readU64 (window (window leaf.page.bytes 0 48) 0 8)).toNat = _
    rw [window_window (by decide), Nat.zero_add, hpageId, readU64_le h.fits.pageId, h.id]

theorem moveToNextPage_eq (hid : leaf.pageId ≠ 0) {it : BtreeIterator} (hit : it.currentPageBuffer = leaf.page) :
    BtreeIterator.moveToNextPage p it =
      .ok { it with currentPageBuffer := leaf.page, currentPageId := leaf.pageId, currentSlotIndex := 0 } := by
  rcases h.read_bytes with ⟨node, hread, -, hright⟩
  unfold BtreeIterator.moveToNextPage
  rw [hit, hread, Except.ok_bind, hright, if_neg hid, h.read]
  rfl

theorem getEntry_zero (entry : BtreeLeafEntry) : getEntry leaf.page.bytes 0 ≠ .ok entry := by
  intro hentry
  rcases h.read_bytes with ⟨node, hread, -, -⟩
  unfold getEntry at hentry
  rw [hread, Except.ok_bind, Except.guard_eq_ok_iff] at hentry
  rcases hentry with ⟨hcount, hentry⟩
  rcases Except.bind_eq_ok_iff.mp hentry with ⟨slots, hslots, hentry⟩
  have hmagic : window leaf.page.bytes 48 2 = [0x45, 0x52] := by
    have hbody : window leaf.page.bytes 48 2 = window (window leaf.page.payload 8 4) 0 2 := by
      unfold Page.bytes Page.payload
      have hroom := h.lays.room
      rw [Page.payload, List.length_take] at hroom
      rw [window_append_right (by rw [PageHeader.length_encode]; decide), PageHeader.length_encode,
        window_window (by decide), window_take (by omega)]
      rfl
    rw [hbody, h.lays.magic]
    decide
  have hfirst : slots[0]? = some 0x5245 := by
    unfold getSlotArray at hslots
    rw [hread, Except.ok_bind] at hslots
    rcases Except.bind_eq_ok_iff.mp hslots with ⟨slotBytes, hslice, hslots⟩
    rw [← Except.ok.inj hslots, (slice_inv hslice).2]
    unfold readSlots
    have hpos : 0 < min node.keyCount (maxKeysPerLeaf + 1) := by
      unfold maxKeysPerLeaf
      omega
    rw [List.getElem?_map, List.getElem?_range hpos, Option.map_some]
    unfold BtreeNodeHeader.size getSlotArraySize
    rw [window_window (by omega), hmagic]
    decide
  unfold getEntryWithSlots at hentry
  rw [hread, Except.ok_bind, Except.guard_eq_ok_iff, hfirst] at hentry
  dsimp only at hentry
  rw [Except.guard_eq_ok_iff, h.length_bytes] at hentry
  exact hentry.2.1 (Or.inr (by decide))

end TreeLeaf.Valid

theorem lt_of_getEntry {payload : Bytes} {node : BtreeNodeHeader} {i : Nat}
    (hread : BtreeNodeHeader.read payload = .ok node) (h : getEntry payload i = .ok entry) : i < node.keyCount := by
  unfold getEntry at h
  rw [hread, Except.ok_bind, Except.guard_eq_ok_iff] at h
  exact Nat.not_le.mp h.1

def firstSlot (page : Page) (key : Bytes) : Except PagerError Nat := do
  match ← getValueFromBtreeLeaf page key with
  | some _ => return (← findKey page.bytes key).getD 0
  | none =>
    let node ← BtreeNodeHeader.read page.bytes
    let slots ← getSlotArray page.bytes (maxKeysPerLeaf + 1)
    BtreeIterator.searchInsertPosition page.bytes slots key node.keyCount 0 node.keyCount

theorem descend_inv {p : Pager} {key : Bytes} {next : Option Nat}
    (h : p.descend key pageId = .ok (page, next)) :
    p.readPage pageId = .ok page ∧ validatePage page = .ok page.header ∧
      (page.header.pageType = .btreeLeaf ∧ next = none ∨
        page.header.pageType = .btreeInternal ∧ ∃ child, next = some child ∧ child ≠ 0 ∧
          findChildInBtreeInternal page key = .ok (some child)) := by
  unfold Pager.descend at h
  rcases Except.bind_eq_ok_iff.mp h with ⟨page', hread, h⟩
  rcases Except.bind_eq_ok_iff.mp h with ⟨header, hvalid, h⟩
  have hheader := (validatePage_eq_ok hvalid).1
  rw [hheader] at hvalid h
  by_cases hleaf : page'.header.pageType = .btreeLeaf
  · rw [if_pos hleaf] at h
    cases h
    exact ⟨hread, hvalid, Or.inl ⟨hleaf, rfl⟩⟩
  · rw [if_neg hleaf, Except.unless_eq_ok_iff] at h
    rcases h with ⟨hinternal, h⟩
    rcases Except.bind_eq_ok_iff.mp h with ⟨found, hfound, h⟩
    cases found with
    | none => cases h
    | some child =>
      dsimp only at h
      rw [Except.guard_eq_ok_iff] at h
      rcases h with ⟨hchild, h⟩
      cases h
      exact ⟨hread, hvalid, Or.inr ⟨hinternal, child, rfl, hchild, hfound⟩⟩

theorem ne_zero_of_path {p : Pager} {key : Bytes}
    (h : p.findPathFrom key fuel pageId path = .ok ((leafId, page), above))
    (hstart : pageId ≠ 0) : leafId ≠ 0 := by
  induction fuel generalizing pageId path with
  | zero => cases h
  | succ fuel ih =>
    unfold Pager.findPathFrom at h
    rcases Except.bind_eq_ok_iff.mp h with ⟨⟨found, next⟩, hdescend, h⟩
    rcases descend_inv hdescend with ⟨-, -, ⟨-, rfl⟩ | ⟨-, child, rfl, hchild, -⟩⟩
    · cases h
      exact hstart
    · exact ih h hchild

section

variable {p : Pager} {key : Bytes}

theorem seekToKeyAtRoot_buffer (fuel pageId : Nat) (it : BtreeIterator) (page : Page) :
    BtreeIterator.seekToKeyAtRoot p key fuel pageId { it with currentPageBuffer := page } =
      BtreeIterator.seekToKeyAtRoot p key fuel pageId it := by
  cases fuel with
  | zero => rfl
  | succ fuel =>
    unfold BtreeIterator.seekToKeyAtRoot
    rfl

theorem seekToKeyAtRoot_of_path
    (h : p.findPathFrom key fuel pageId path = .ok ((leafId, page), above)) (it : BtreeIterator) :
    it.seekToKeyAtRoot p key fuel pageId = it.seekToKeyAtRoot p key 1 leafId ∧
      ∀ fuel', it.seekToKeyAtRoot p key fuel' pageId = .error .running ∨
        it.seekToKeyAtRoot p key fuel' pageId = it.seekToKeyAtRoot p key 1 leafId := by
  induction fuel generalizing pageId path with
  | zero => cases h
  | succ fuel ih =>
    unfold Pager.findPathFrom at h
    rcases Except.bind_eq_ok_iff.mp h with ⟨⟨found, next⟩, hdescend, h⟩
    rcases descend_inv hdescend with ⟨hread, hvalid, ⟨hleaf, rfl⟩ | ⟨hinternal, child, rfl, -, hfound⟩⟩
    · cases h
      have hsame : ∀ fuel', it.seekToKeyAtRoot p key (fuel' + 1) leafId = it.seekToKeyAtRoot p key 1 leafId := by
        intro fuel'
        unfold BtreeIterator.seekToKeyAtRoot
        rw [hread, Except.ok_bind, Except.ok_bind, hvalid, Except.ok_bind, Except.ok_bind]
        dsimp only
        rw [if_pos hleaf, if_pos hleaf]
      refine ⟨hsame fuel, ?_⟩
      intro fuel'
      cases fuel' with
      | zero => exact Or.inl rfl
      | succ fuel' => exact Or.inr (hsame fuel')
    · rcases ih h with ⟨hrest, hall⟩
      have hnot : ¬ found.header.pageType = .btreeLeaf := by
        rw [hinternal]
        decide
      have hstep : ∀ fuel', it.seekToKeyAtRoot p key (fuel' + 1) pageId =
          it.seekToKeyAtRoot p key fuel' child := by
        intro fuel'
        conv_lhs => unfold BtreeIterator.seekToKeyAtRoot
        rw [hread, Except.ok_bind, hvalid, Except.ok_bind]
        dsimp only
        rw [if_neg hnot, if_pos hinternal, hfound, Except.ok_bind]
        exact seekToKeyAtRoot_buffer fuel' child it found
      refine ⟨(hstep fuel).trans hrest, ?_⟩
      intro fuel'
      cases fuel' with
      | zero => exact Or.inl rfl
      | succ fuel' =>
        rw [hstep fuel']
        exact hall fuel'

end

/-- From a slot on, the page taken for a payload holds the pairs, and behind them an entry past the range. -/
def HoldsFrom (page : Page) (endKey : Bytes) : Nat → List (Bytes × Bytes) → Prop
  | slot, [] => ∃ entry, getEntry page.bytes slot = .ok entry ∧ endKey < entry.key
  | slot, pair :: pairs => getEntry page.bytes slot = .ok ⟨pair.1, pair.2⟩ ∧ pair.1.length ≤ 256 ∧
      pair.2.length ≤ 1024 ∧ HoldsFrom page endKey (slot + 1) pairs

/-- A page of a late transaction that happens to hold the pairs where its header and its payload are read as one. -/
structure Misread (page : Page) (startKey endKey : Bytes) (pairs : List (Bytes × Bytes)) : Prop where
  late : 2 ^ 48 ≤ page.header.txnId
  holds : ∃ slot, firstSlot page startKey = .ok slot ∧ HoldsFrom page endKey slot pairs

/-- The iterator has the leaf in its buffer, and its range is open to the next entry. -/
structure BtreeIterator.OnLeaf (it : BtreeIterator) (leaf : TreeLeaf) (endKey : Bytes) : Prop where
  buffer : it.currentPageBuffer = leaf.page
  notAtEnd : it.atEnd = false
  endKey : it.endKey = some endKey

namespace TreeLeaf.Valid

variable {p : Pager} {leaf : TreeLeaf} (h : leaf.Valid p) (hid : leaf.pageId ≠ 0) {key endKey : Bytes}
  {it it' : BtreeIterator}

include h

theorem seek_found (hvalue : getValueFromBtreeLeaf leaf.page key = .ok (some value))
    (it : BtreeIterator) : it.seekToKeyAtRoot p key 1 leaf.pageId = findKey leaf.page.bytes key >>= fun slotIdx =>
      .ok { it with
        currentPageBuffer := leaf.page, currentPageId := leaf.pageId, currentSlotIndex := slotIdx.getD 0 } := by
  unfold BtreeIterator.seekToKeyAtRoot
  rw [h.read, Except.ok_bind, h.valid, Except.ok_bind]
  dsimp only
  rw [if_pos h.pageType, hvalue, Except.ok_bind]
  rfl

theorem seek_missing (hvalue : getValueFromBtreeLeaf leaf.page key = .ok none) (it : BtreeIterator) :
    it.seekToKeyAtRoot p key 1 leaf.pageId = BtreeIterator.findInsertPosition p key
      { it with currentPageBuffer := leaf.page, currentPageId := leaf.pageId } := by
  unfold BtreeIterator.seekToKeyAtRoot
  rw [h.read, Except.ok_bind, h.valid, Except.ok_bind]
  dsimp only
  rw [if_pos h.pageType, hvalue, Except.ok_bind]

include hid

/-- The slot is the one at which the search has ended; behind the last slot there is the same leaf again. -/
theorem seek_inv (hseek : it.seekToKeyAtRoot p key 1 leaf.pageId = .ok it') (hnot : it.atEnd = false)
    (hend : it.endKey = some endKey) :
    it'.OnLeaf leaf endKey ∧ ∃ slot, firstSlot leaf.page key = .ok slot ∧
      (it'.currentSlotIndex = slot ∨ it'.currentSlotIndex = 0) := by
  have hvalue := h.getValueFromBtreeLeaf_eq key
  unfold firstSlot
  rw [hvalue, Except.ok_bind]
  cases hfound : (lookup slotKey key leaf.es).map (·.2.value) with
  | some value =>
    rw [hfound] at hvalue
    rw [h.seek_found hvalue, Except.bind_eq_ok_iff] at hseek
    rcases hseek with ⟨slotIdx, hfind, hseek⟩
    cases hseek
    dsimp only
    rw [hfind]
    exact ⟨⟨rfl, hnot, hend⟩, _, rfl, Or.inl rfl⟩
  | none =>
    rw [hfound] at hvalue
    rw [h.seek_missing hvalue] at hseek
    rcases h.read_bytes with ⟨node, hread, -, -⟩
    dsimp only
    unfold BtreeIterator.findInsertPosition at hseek
    dsimp only at hseek
    rw [hread, Except.ok_bind] at hseek
    rcases Except.bind_eq_ok_iff.mp hseek with ⟨slots, hslots, hseek⟩
    rcases Except.bind_eq_ok_iff.mp hseek with ⟨left, hleft, hseek⟩
    rw [hread, Except.ok_bind, hslots, Except.ok_bind]
    by_cases hpast : left ≥ node.keyCount
    · rw [if_pos hpast, h.moveToNextPage_eq hid rfl] at hseek
      cases hseek
      exact ⟨⟨rfl, hnot, hend⟩, left, hleft, Or.inr rfl⟩
    · rw [if_neg hpast] at hseek
      cases hseek
      exact ⟨⟨rfl, hnot, hend⟩, left, hleft, Or.inl rfl⟩

omit hid in
theorem seek_of_firstSlot (hslot : firstSlot leaf.page key = .ok slot)
    (hentry : getEntry leaf.page.bytes slot = .ok entry) (it : BtreeIterator) :
    it.seekToKeyAtRoot p key 1 leaf.pageId = .ok { it with
      currentPageBuffer := leaf.page, currentPageId := leaf.pageId, currentSlotIndex := slot } := by
  unfold firstSlot at hslot
  rcases Except.bind_eq_ok_iff.mp hslot with ⟨value, hvalue, hslot⟩
  cases value with
  | some value =>
    rcases Except.bind_eq_ok_iff.mp hslot with ⟨slotIdx, hfind, hslot⟩
    cases hslot
    rw [h.seek_found hvalue, hfind, Except.ok_bind]
  | none =>
    rcases Except.bind_eq_ok_iff.mp hslot with ⟨node, hread, hslot⟩
    rcases Except.bind_eq_ok_iff.mp hslot with ⟨slots, hslots, hslot⟩
    have hinside := lt_of_getEntry hread hentry
    rw [h.seek_missing hvalue]
    unfold BtreeIterator.findInsertPosition
    dsimp only
    rw [hread, Except.ok_bind, hslots, Except.ok_bind, hslot, Except.ok_bind, if_neg (Nat.not_le.mpr hinside)]
    rfl

/-- The loop of `next` never comes out of a leaf behind its last slot. -/
theorem skipPages_eq {node : BtreeNodeHeader} (hread : BtreeNodeHeader.read leaf.page.bytes = .ok node)
    (hon : it.OnLeaf leaf endKey) (hskip : it.skipPages p fuel = .ok it') :
    it'.OnLeaf leaf endKey ∧ (it' = it ∨ it'.currentSlotIndex = 0) := by
  induction fuel generalizing it with
  | zero => cases hskip
  | succ fuel ih =>
    unfold BtreeIterator.skipPages at hskip
    rw [hon.buffer, hread, Except.ok_bind] at hskip
    by_cases hpast : it.currentSlotIndex ≥ node.keyCount
    · rw [if_pos hpast, h.moveToNextPage_eq hid hon.buffer, Except.ok_bind, if_neg (by rw [hon.notAtEnd]; decide)]
        at hskip
      have hagain : BtreeIterator.OnLeaf
          { it with currentPageBuffer := leaf.page, currentPageId := leaf.pageId, currentSlotIndex := 0 }
          leaf endKey := ⟨rfl, hon.notAtEnd, hon.endKey⟩
      rcases ih hagain hskip with ⟨hon', rfl | hzero⟩
      · exact ⟨hon', Or.inr rfl⟩
      · exact ⟨hon', Or.inr hzero⟩
    · rw [if_neg hpast] at hskip
      cases hskip
      exact ⟨hon, Or.inl rfl⟩

theorem next_inv {result : Option (Bytes × Bytes)} (hon : it.OnLeaf leaf endKey)
    (hnext : it.next p fuel = .ok (result, it')) :
    ∃ entry, getEntry leaf.page.bytes it.currentSlotIndex = .ok entry ∧
      (endKey < entry.key ∧ result = none ∨
        entry.key.length ≤ 256 ∧ entry.value.length ≤ 1024 ∧ result = some (entry.key, entry.value) ∧
          it'.OnLeaf leaf endKey ∧ it'.currentSlotIndex = it.currentSlotIndex + 1) := by
  rcases h.read_bytes with ⟨node, hread, -, -⟩
  unfold BtreeIterator.next at hnext
  rw [if_neg (by rw [hon.notAtEnd]; decide)] at hnext
  rcases Except.bind_eq_ok_iff.mp hnext with ⟨skipped, hskip, hfound⟩
  rcases h.skipPages_eq hid hread hon hskip with ⟨hon', hplace⟩
  rw [if_neg (by rw [hon'.notAtEnd]; decide), hon'.buffer] at hfound
  rcases Except.bind_eq_ok_iff.mp hfound with ⟨entry, hentry, hresult⟩
  clear hnext hfound
  rcases hplace with rfl | hzero
  · refine ⟨entry, hentry, ?_⟩
    by_cases hover : endKey < entry.key
    · rw [if_pos ⟨endKey, hon.endKey, hover⟩] at hresult
      cases hresult
      exact Or.inl ⟨hover, rfl⟩
    · have hin : ¬ ∃ stop ∈ skipped.endKey, stop < entry.key := by
        intro hstop
        rcases hstop with ⟨stop, hstop, hlt⟩
        rw [hon.endKey] at hstop
        exact hover (Option.some.inj hstop ▸ hlt)
      rw [if_neg hin, Except.guard_eq_ok_iff, Except.guard_eq_ok_iff] at hresult
      rcases hresult with ⟨hkey, hvalue, hresult⟩
      cases hresult
      exact Or.inr ⟨Nat.not_lt.mp hkey, Nat.not_lt.mp hvalue, rfl, ⟨rfl, hon.notAtEnd, hon.endKey⟩, rfl⟩
  · rw [hzero] at hentry
    exact absurd hentry (h.getEntry_zero entry)

omit hid in
theorem next_of_getEntry (hon : it.OnLeaf leaf endKey)
    (hentry : getEntry leaf.page.bytes it.currentSlotIndex = .ok entry) :
    it.next p 1 = if endKey < entry.key then .ok (none, { it with atEnd := true })
      else if entry.key.length > 256 then .error .keyTooLong
      else if entry.value.length > 1024 then .error .valueTooLong
      else .ok (some (entry.key, entry.value), { it with currentSlotIndex := it.currentSlotIndex + 1 }) := by
  rcases h.read_bytes with ⟨node, hread, -, -⟩
  have hinside := lt_of_getEntry hread hentry
  have hskip : it.skipPages p 1 = .ok it := by
    unfold BtreeIterator.skipPages
    rw [hon.buffer, hread, Except.ok_bind, if_neg (Nat.not_le.mpr hinside)]
    rfl
  have hstop : (∃ stop ∈ it.endKey, stop < entry.key) ↔ endKey < entry.key := by
    rw [hon.endKey]
    simp
  unfold BtreeIterator.next
  rw [if_neg (by rw [hon.notAtEnd]; decide), hskip, Except.ok_bind, if_neg (by rw [hon.notAtEnd]; decide), hon.buffer,
    hentry, Except.ok_bind]
  simp only [hstop]
  rfl

theorem holdsFrom_of_yields (hon : it.OnLeaf leaf endKey) (hyields : it.Yields p pairs) :
    HoldsFrom leaf.page endKey it.currentSlotIndex pairs := by
  induction hyields with
  | done hnext =>
    rcases h.next_inv hid hon hnext with ⟨entry, hentry, ⟨hover, -⟩ | ⟨-, -, hresult, -⟩⟩
    · exact ⟨entry, hentry, hover⟩
    · cases hresult
  | more hnext _ ih =>
    rcases h.next_inv hid hon hnext with ⟨entry, hentry, ⟨-, hresult⟩ | ⟨hkey, hvalue, hresult, hon', hslot⟩⟩
    · cases hresult
    · rw [Option.some.inj hresult]
      have hrest := ih hon'
      rw [hslot] at hrest
      exact ⟨hentry, hkey, hvalue, hrest⟩

omit hid in
theorem yields_of_holdsFrom (hon : it.OnLeaf leaf endKey)
    (hbelow : ∀ pair ∈ pairs, pair.1 < endKey) (hholds : HoldsFrom leaf.page endKey it.currentSlotIndex pairs) :
    it.Yields p pairs := by
  induction pairs generalizing it with
  | nil =>
    rcases hholds with ⟨entry, hentry, hover⟩
    have hnext := h.next_of_getEntry hon hentry
    rw [if_pos hover] at hnext
    exact .done hnext
  | cons pair pairs ih =>
    rcases hholds with ⟨hentry, hkey, hvalue, hrest⟩
    have hnext := h.next_of_getEntry hon hentry
    rw [if_neg (not_lt_of_gt (hbelow pair (List.mem_cons_self ..))), if_neg (Nat.not_lt.mpr hkey),
      if_neg (Nat.not_lt.mpr hvalue)] at hnext
    have hon' : BtreeIterator.OnLeaf { it with currentSlotIndex := it.currentSlotIndex + 1 } leaf endKey :=
      ⟨hon.buffer, hon.notAtEnd, hon.endKey⟩
    exact .more hnext (ih hon' (fun x hx => hbelow x (List.mem_cons_of_mem _ hx)) hrest)

end TreeLeaf.Valid

theorem first_of_holdsFrom {endKey : Bytes}
    (h : HoldsFrom page endKey slot pairs) : ∃ entry, getEntry page.bytes slot = .ok entry := by
  cases pairs with
  | nil =>
    rcases h with ⟨entry, hentry, -⟩
    exact ⟨entry, hentry⟩
  | cons pair pairs => exact ⟨_, h.1⟩

theorem over_of_holdsFrom {endKey : Bytes} (h : HoldsFrom page endKey slot pairs) :
    ∃ last entry, getEntry page.bytes last = .ok entry ∧ endKey < entry.key := by
  induction pairs generalizing slot with
  | nil => exact ⟨slot, h⟩
  | cons pair pairs ih => exact ih h.2.2.2

def wanted (leaves : List TreeLeaf) (startKey endKey : Bytes) : List (Bytes × Bytes) :=
  (leaves.flatMap TreeLeaf.pairs).filter fun pair => startKey ≤ pair.1 ∧ pair.1 < endKey

theorem length_key_of_getEntry {payload : Bytes} {i : Nat}
    (h : getEntry payload i = .ok entry) : entry.key.length ≤ payload.length := by
  unfold getEntry at h
  rcases Except.bind_eq_ok_iff.mp h with ⟨node, -, h⟩
  rw [Except.guard_eq_ok_iff] at h
  rcases Except.bind_eq_ok_iff.mp h.2 with ⟨slots, -, h⟩
  unfold getEntryWithSlots at h
  rcases Except.bind_eq_ok_iff.mp h with ⟨node, -, h⟩
  rw [Except.guard_eq_ok_iff] at h
  cases hslot : slots[i]? with
  | none =>
    rw [hslot] at h
    cases h.2
  | some offset =>
    rw [hslot] at h
    have hentry := (Except.guard_eq_ok_iff.mp h.2).2
    unfold BtreeLeafEntry.fromBytes at hentry
    rw [Except.guard_eq_ok_iff] at hentry
    dsimp only at hentry
    rw [Except.guard_eq_ok_iff, Except.guard_eq_ok_iff] at hentry
    rw [← Except.ok.inj hentry.2.2.2, length_window, List.length_drop]
    omega

theorem not_replicate_lt {n : Nat} {key : Bytes} (h : key.length ≤ n) : ¬ List.replicate n 0xFF < key := by
  induction key generalizing n with
  | nil => exact List.not_lt_nil _
  | cons b key ih =>
    rcases Nat.exists_eq_add_of_le' (Nat.one_le_of_lt h) with ⟨m, rfl⟩
    have hrest : key.length ≤ m := Nat.le_of_succ_le_succ h
    intro hlt
    rw [List.replicate_succ, List.cons_lt_cons_iff] at hlt
    rcases hlt with hlt | ⟨-, hlt⟩
    · exact absurd hlt (not_lt_of_ge (Bytes.le_max b))
    · exact ih hrest hlt

section

variable {p : Pager} {rootPageId : Nat} {leaves : List TreeLeaf} (hwf : WellFormed p rootPageId leaves)
  {startKey endKey : Bytes}

include hwf

theorem mem_wanted_iff {pair : Bytes × Bytes} : pair ∈ wanted leaves startKey endKey ↔
    startKey ≤ pair.1 ∧ pair.1 < endKey ∧ PointRead p rootPageId pair.1 pair.2 := by
  unfold wanted
  rw [List.mem_filter, hwf.pointRead_iff, decide_eq_true_iff]
  exact ⟨fun h => ⟨h.2.1, h.2.2, h.1⟩, fun h => ⟨h.2.2, h.1, h.2.1⟩⟩

theorem eq_wanted (hsorted : pairs.Pairwise (fun a b => a.1 < b.1))
    (hmem : ∀ pair, pair ∈ pairs ↔ startKey ≤ pair.1 ∧ pair.1 < endKey ∧ PointRead p rootPageId pair.1 pair.2) :
    pairs = wanted leaves startKey endKey := by
  have hirrefl : Std.Irrefl (fun a b : Bytes × Bytes => a.1 < b.1) := ⟨fun a => lt_irrefl a.1⟩
  have hantisymm : Std.Antisymm (fun a b : Bytes × Bytes => a.1 < b.1) :=
    ⟨fun _ _ hlt hgt => absurd hgt (lt_asymm hlt)⟩
  apply hsorted.eq_of_mem_iff (hwf.sorted.filter _)
  intro pair
  exact (hmem pair).trans (mem_wanted_iff hwf).symm

theorem agrees_iff {before behind : List TreeLeaf} {leaf : TreeLeaf} (hleaves : leaves = before ++ leaf :: behind)
    (hrouted : RoutedTo p rootPageId startKey before leaf behind) :
    Agrees p rootPageId startKey endKey ↔ Misread leaf.page startKey endKey (wanted leaves startKey endKey) := by
  have hvalid : leaf.Valid p := hwf.valid leaf (hleaves ▸ List.mem_append_right _ (List.mem_cons_self ..))
  rcases hrouted.path with ⟨fuel, above, hpath⟩
  have hid := ne_zero_of_path hpath hwf.root
  let it : BtreeIterator :=
    { currentPageId := 0, currentPageBuffer := Page.hole, currentSlotIndex := 0, startKey := some startKey,
      endKey := some endKey, atEnd := false }
  have hinit : ∀ fuel', BtreeIterator.initWithRangeAtRoot p fuel' (some startKey) (some endKey) rootPageId =
      it.seekToKeyAtRoot p startKey fuel' rootPageId := fun _ => if_neg hwf.root
  constructor
  · intro hagrees
    rcases hagrees with ⟨fuel', it', pairs, hok, hyields, hsorted, hmem⟩
    rw [hinit] at hok
    rcases (seekToKeyAtRoot_of_path hpath it).2 fuel' with hrunning | hdone
    · rw [hrunning] at hok
      cases hok
    · rw [hdone] at hok
      rcases hvalid.seek_inv hid hok rfl rfl with ⟨hon, slot, hslot, hplace⟩
      have hholds := hvalid.holdsFrom_of_yields hid hon hyields
      rw [eq_wanted hwf hsorted hmem] at hholds
      rcases first_of_holdsFrom hholds with ⟨entry, hentry⟩
      rcases hvalid.read_bytes with ⟨node, hread, hcount, -⟩
      have hinside := lt_of_getEntry hread hentry
      refine ⟨?_, slot, hslot, ?_⟩
      · rw [hcount] at hinside
        omega
      · rcases hplace with hplace | hzero
        · rw [← hplace]
          exact hholds
        · rw [hzero] at hentry
          exact absurd hentry (hvalid.getEntry_zero entry)
  · intro hmisread
    rcases hmisread.holds with ⟨slot, hslot, hholds⟩
    rcases first_of_holdsFrom hholds with ⟨entry, hentry⟩
    have hseek := hvalid.seek_of_firstSlot hslot hentry it
    rw [← (seekToKeyAtRoot_of_path hpath it).1, ← hinit] at hseek
    refine ⟨fuel, _, wanted leaves startKey endKey, hseek, ?_, hwf.sorted.filter _, fun _ => mem_wanted_iff hwf⟩
    exact hvalid.yields_of_holdsFrom ⟨rfl, rfl, rfl⟩ (fun pair hpair => ((mem_wanted_iff hwf).mp hpair).2.1) hholds

/-- A scan gives what point reads give only where the page of the start key is misread in a lucky way.  There is no
tree for all of whose ranges that is so. -/
theorem range_reads_iff : (∀ startKey endKey, Agrees p rootPageId startKey endKey ↔
      ∃ before leaf behind, leaves = before ++ leaf :: behind ∧ RoutedTo p rootPageId startKey before leaf behind ∧
        Misread leaf.page startKey endKey (wanted leaves startKey endKey)) ∧
    ¬ ∀ startKey endKey, Agrees p rootPageId startKey endKey := by
  constructor
  · intro startKey endKey
    constructor
    · intro hagrees
      rcases hwf.routed startKey with ⟨before, leaf, behind, hleaves, hrouted⟩
      exact ⟨before, leaf, behind, hleaves, hrouted, (agrees_iff hwf hleaves hrouted).mp hagrees⟩
    · intro hlucky
      rcases hlucky with ⟨before, leaf, behind, hleaves, hrouted, hmisread⟩
      exact (agrees_iff hwf hleaves hrouted).mpr hmisread
  · intro hall
    -- an end key that no entry of a page is above
    rcases hwf.routed [] with ⟨before, leaf, behind, hleaves, hrouted⟩
    have hvalid : leaf.Valid p := hwf.valid leaf (hleaves ▸ List.mem_append_right _ (List.mem_cons_self ..))
    rcases ((agrees_iff hwf hleaves hrouted).mp (hall [] (List.replicate 16384 0xFF))).holds with ⟨slot, -, hholds⟩
    rcases over_of_holdsFrom hholds with ⟨last, entry, hentry, hover⟩
    have hlength := length_key_of_getEntry hentry
    rw [hvalid.length_bytes] at hlength
    exact not_replicate_lt hlength hover

end

/-- A leaf with one entry, behind its only slot. -/
def leafOf (pageId rightSibling : Nat) (e : BtreeLeafEntry) : TreeLeaf :=
  let payload := BtreeNodeHeader.encode { level := 0, keyCount := 1, rightSibling } ++ le 2 50 ++ e.bytes
  let header : PageHeader := ⟨0x4E534442, 0, .btreeLeaf, 0, pageId, 1, payload.length, 0, 0⟩
  ⟨pageId, Page.rehash ⟨header, payload ++ List.replicate (Page.bodySize - payload.length) 0⟩, [(50, e)]⟩

def linkedLeaves : List TreeLeaf := [leafOf 3 4 ⟨[97], [1]⟩, leafOf 4 0 ⟨[109], [2]⟩]

def linkedFile : Pager :=
  { Pager.twoLeafFile with pages := [Page.hole, Page.hole, Pager.twoChildren] ++ linkedLeaves.map TreeLeaf.page }

theorem valid_linkedLeaves : ∀ leaf ∈ linkedLeaves, leaf.Valid linkedFile := by
  intro leaf hleaf
  rcases List.mem_pair.mp hleaf with rfl | rfl
  all_goals exact {
    read := Pager.readPage_of_valid rfl (validatePage_rehash rfl rfl (by decide +kernel)) rfl (by decide)
    pageType := rfl
    fits := ⟨by decide, by decide, by decide, rfl⟩
    length := by decide +kernel
    lays := {
      room := by decide +kernel
      magic := by decide +kernel
      level := by decide +kernel
      count := by decide +kernel
      few := by decide
      slots := by rintro (_ | i) e he <;> cases he; decide +kernel
      entries := by decide +kernel
      inside := by decide +kernel
      fits := by decide
      sorted := List.pairwise_singleton _ _ } }

open BtreeInternalPayload in
theorem descend_linkedFile (key : Bytes) :
    linkedFile.descend key 2 = .ok (Pager.twoChildren, some (if key < [109] then 3 else 4)) := by
  have hinternal : IsInternal Pager.twoChildren := isInternal_rehash rfl rfl rfl (by decide +kernel)
  have hseparator : getSeparatorKey Pager.twoChildren.payload 0 = .ok [109] := by decide +kernel
  have hleft : getChildPageId Pager.twoChildren.payload 0 = .ok 3 := by decide +kernel
  have hright : getChildPageId Pager.twoChildren.payload 1 = .ok 4 := by decide +kernel
  have hchild := findChild_one Pager.read_twoChildren rfl hseparator hleft hright key
  unfold Pager.descend
  rw [Pager.readPage_twoChildren rfl, Except.ok_bind, Pager.validatePage_twoChildren, Except.ok_bind,
    if_neg (by decide), if_pos hinternal.pageType, hinternal.findChild_eq hchild, Except.ok_bind]
  by_cases hlt : key < [109] <;> simp only [hlt, if_true, if_false] <;> rfl

theorem wellFormed_linkedFile : WellFormed linkedFile 2 linkedLeaves where
  root := by decide
  valid := valid_linkedLeaves
  linked := ⟨by decide +kernel, show window _ 0 8 = _ by decide +kernel⟩
  sorted := by decide
  routed := by
    intro key
    have hpath : ∀ leaf ∈ linkedLeaves, (if key < [109] then 3 else 4) = leaf.pageId →
        ∃ fuel above, linkedFile.findPathFrom key fuel 2 [] = .ok ((leaf.pageId, leaf.page), above) := by
      intro leaf hleaf hchild
      refine ⟨2, [(2, Pager.twoChildren)], ?_⟩
      rw [Pager.findPathFrom, descend_linkedFile, hchild, Except.ok_bind]
      dsimp only
      rw [Pager.findPathFrom, (valid_linkedLeaves leaf hleaf).descend_eq key]
      rfl
    -- smaller keys than the separator belong to page 3, all others to page 4
    by_cases hlt : key < [109]
    · exact ⟨[], _, _, rfl, hpath _ (by simp [linkedLeaves]) (if_pos hlt), by simp,
        by simpa [TreeLeaf.pairs, leafOf] using hlt⟩
    · have hsmaller : [97] < key := lt_of_lt_of_le (by decide) (not_lt.mp hlt)
      exact ⟨[_], _, [], rfl, hpath _ (by simp [linkedLeaves]) (if_neg hlt),
        by simpa [TreeLeaf.pairs, leafOf] using hsmaller, by simp⟩

/-- A tree of two linked leaves is well formed, and its scans can be told from its point reads. -/
theorem range_reads_of_two_leaves : (∀ startKey endKey, Agrees linkedFile 2 startKey endKey ↔
      ∃ before leaf behind, linkedLeaves = before ++ leaf :: behind ∧
        RoutedTo linkedFile 2 startKey before leaf behind ∧
        Misread leaf.page startKey endKey (wanted linkedLeaves startKey endKey)) ∧
    ¬ ∀ startKey endKey, Agrees linkedFile 2 startKey endKey :=
  range_reads_iff wellFormed_linkedFile

theorem valid_emptyLeaf : TreeLeaf.Valid Pager.oneLeafFile ⟨2, Pager.emptyLeaf 2, []⟩ where
  read := Pager.readPage_emptyLeaf rfl
  pageType := rfl
  fits := ⟨by decide, by decide, by decide, rfl⟩
  length := Pager.length_emptyLeaf_body 2
  lays := by
    rw [show (Pager.emptyLeaf 2).payload = (createEmptyBtreeLeaf 2 1 0).body from
      List.take_of_length_le (Pager.length_emptyLeaf_body 2).le]
    exact (leaf_createEmptyBtreeLeaf 2 1).holds.lays

theorem wellFormed_oneLeafFile : WellFormed Pager.oneLeafFile 2 [⟨2, Pager.emptyLeaf 2, []⟩] where
  root := by decide
  valid := by
    intro leaf hleaf
    rw [List.mem_singleton.mp hleaf]
    exact valid_emptyLeaf
  linked := show window _ 0 8 = le 8 0 by decide +kernel
  sorted := List.Pairwise.nil
  routed := by
    intro key
    refine ⟨[], _, [], rfl, ⟨1, [], ?_⟩, fun _ hx => absurd hx List.not_mem_nil, fun _ hx => absurd hx List.not_mem_nil⟩
    have hdescend := valid_emptyLeaf.descend_eq key
    unfold Pager.findPathFrom
    rw [hdescend]
    rfl

/-- A scan from `a` to `b` over a leaf without entries does not end. -/
theorem empty_leaf_is_not_scanned :
    WellFormed Pager.oneLeafFile 2 [⟨2, Pager.emptyLeaf 2, []⟩] ∧ ¬ Agrees Pager.oneLeafFile 2 [97] [98] := by
  refine ⟨wellFormed_oneLeafFile, ?_⟩
  intro hagrees
  rcases wellFormed_oneLeafFile.routed [97] with ⟨before, leaf, behind, hleaves, hrouted⟩
  have hlate := ((agrees_iff wellFormed_oneLeafFile hleaves hrouted).mp hagrees).late
  have hmem : leaf ∈ [(⟨2, Pager.emptyLeaf 2, []⟩ : TreeLeaf)] :=
    hleaves ▸ List.mem_append_right _ (List.mem_cons_self ..)
  rw [List.mem_singleton.mp hmem] at hlate
  exact absurd hlate (by decide)

end Northstar.Zig
