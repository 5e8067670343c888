import Northstar.Btree.Codec
import Northstar.Btree.Edits

/-!
# Leaf — edits of a leaf as edits of a finite map

A leaf in use is sorted, counts its entries and never claims more free space than it has: an entry
that shrinks is charged as if the page were full, and only a removal gives space back.  Under that
invariant an insertion that finds space stores its entry, and nothing is written past the page.
-/

namespace Northstar.Btree

open SortedEntries Node

def leafCapacity : Nat := bodySize - 16

structure LeafOk (pageId : PageId) (node : LeafNode) : Prop where
  header : node.header.IsLeaf
  id : node.header.nodeId = pageId
  count : node.header.numKeys.toNat = node.entries.length
  sorted : Sorted Entry.key node.entries
  encodable : ∀ e ∈ node.entries, Encodable e
  fits : LeafNode.used node.entries + node.header.freeSpace.toNat ≤ leafCapacity
  last : node.nextLeaf = 0

namespace LeafNode

@[simp] theorem used_nil : used [] = 0 := rfl

@[simp] theorem used_cons (e : Entry) (es : List Entry) :
    used (e :: es) = e.serializedSize + used es := List.sum_cons

@[simp] theorem used_append (xs ys : List Entry) : used (xs ++ ys) = used xs + used ys := by
  rw [used, List.map_append, List.sum_append]
  rfl

theorem used_le_of_sublist {xs ys : List Entry} (h : xs.Sublist ys) : used xs ≤ used ys := by
  induction h with
  | slnil => exact Nat.le_refl 0
  | cons e _ ih => rw [used_cons]; omega
  | cons_cons e _ ih => rw [used_cons, used_cons]; omega

theorem length_le_used (es : List Entry) : es.length ≤ used es := by
  induction es with
  | nil => exact Nat.le_refl 0
  | cons e es ih =>
    rw [List.length_cons, used_cons, Entry.serializedSize]
    omega

theorem used_middle (pre suf : List Entry) (entry : Entry) :
    used (pre ++ entry :: suf) = used (pre ++ suf) + entry.serializedSize := by
  rw [used_append, used_append, used_cons]
  omega

theorem entries_insertNew {node : LeafNode} {pre suf : List Entry} (hentries : node.entries = pre ++ suf)
    (entry : Entry) : (node.insertNew pre.length entry).entries = pre ++ entry :: suf := by
  show node.entries.insertIdx pre.length entry = _
  rw [hentries, insertIdx_middle]

theorem entries_replaceAt {node : LeafNode} {pre suf : List Entry} {old : Entry}
    (hentries : node.entries = pre ++ old :: suf) (entry : Entry) :
    (node.replaceAt pre.length old entry).entries = pre ++ entry :: suf := by
  show node.entries.set pre.length entry = _
  rw [hentries, set_middle]

-- The links of a leaf survive every edit of its entries.
theorem insertNew_links (node : LeafNode) (pos : Nat) (entry : Entry) :
    (node.insertNew pos entry).nextLeaf = node.nextLeaf ∧
      (node.insertNew pos entry).prevLeaf = node.prevLeaf := by
  cases node
  exact ⟨rfl, rfl⟩

theorem replaceAt_links (node : LeafNode) (pos : Nat) (old entry : Entry) :
    (node.replaceAt pos old entry).nextLeaf = node.nextLeaf ∧
      (node.replaceAt pos old entry).prevLeaf = node.prevLeaf := by
  cases node
  exact ⟨rfl, rfl⟩

end LeafNode

variable {pageId : PageId} {node : LeafNode} {entry : Entry}

theorem LeafOk.used_le (h : LeafOk pageId node) : LeafNode.used node.entries ≤ leafCapacity := by
  have hfits := h.fits
  omega

theorem toNat_ofNat_of_le_capacity {n : Nat} (h : n ≤ leafCapacity) : (UInt16.ofNat n).toNat = n := by
  apply UInt16.toNat_ofNat_of_lt'
  exact Nat.lt_of_le_of_lt h (by decide)

theorem toNat_ofNat_length {es : List Entry} (h : LeafNode.used es ≤ leafCapacity) :
    (UInt16.ofNat es.length).toNat = es.length :=
  toNat_ofNat_of_le_capacity ((LeafNode.length_le_used es).trans h)

theorem NodeHeader.takeSpace_toNat (h : NodeHeader) (size : UInt16) :
    (h.takeSpace size).freeSpace.toNat = h.freeSpace.toNat - size.toNat := by
  show (if h.freeSpace < size then 0 else h.freeSpace - size).toNat = _
  by_cases hlt : h.freeSpace < size
  · have hlt' := UInt16.lt_iff_toNat_lt.mp hlt
    rw [if_pos hlt]
    show 0 = _
    omega
  · have hle : size ≤ h.freeSpace := UInt16.not_lt.mp hlt
    rw [if_neg hlt, UInt16.toNat_sub_of_le _ _ hle]

structure NodeHeader.Edits (h h' : NodeHeader) : Prop where
  magic : h'.magic = h.magic
  nodeType : h'.nodeType = h.nodeType
  isRoot : h'.isRoot = h.isRoot
  level : h'.level = h.level
  reserved : h'.reserved = h.reserved
  nodeId : h'.nodeId = h.nodeId

namespace NodeHeader

theorem Edits.trans {h₁ h₂ h₃ : NodeHeader} (h : h₁.Edits h₂) (h' : h₂.Edits h₃) : h₁.Edits h₃ :=
  ⟨h'.magic.trans h.magic, h'.nodeType.trans h.nodeType, h'.isRoot.trans h.isRoot,
    h'.level.trans h.level, h'.reserved.trans h.reserved, h'.nodeId.trans h.nodeId⟩

-- The fields are compared on a header taken apart: else Lean compares the counters first.
theorem edits_touch (h : NodeHeader) : h.Edits h.touch := by
  cases h
  exact ⟨rfl, rfl, rfl, rfl, rfl, rfl⟩

theorem edits_takeSpace (h : NodeHeader) (size : UInt16) : h.Edits (h.takeSpace size) := by
  cases h
  exact ⟨rfl, rfl, rfl, rfl, rfl, rfl⟩

theorem edits_space (h : NodeHeader) (numKeys freeSpace : UInt16) :
    h.Edits { h with numKeys, freeSpace } := ⟨rfl, rfl, rfl, rfl, rfl, rfl⟩

theorem edits_setFlag (h : NodeHeader) (flag : UInt32) : h.Edits (h.setFlag flag) := by
  cases h
  exact ⟨rfl, rfl, rfl, rfl, rfl, rfl⟩

@[simp] theorem touch_numKeys (h : NodeHeader) : h.touch.numKeys = h.numKeys := by cases h; rfl

@[simp] theorem touch_freeSpace (h : NodeHeader) : h.touch.freeSpace = h.freeSpace := by
  cases h; rfl

@[simp] theorem takeSpace_numKeys (h : NodeHeader) (size : UInt16) :
    (h.takeSpace size).numKeys = h.numKeys := by cases h; rfl

end NodeHeader

theorem NodeHeader.Edits.isLeaf {h h' : NodeHeader} (hedit : h.Edits h') (hleaf : h.IsLeaf) :
    h'.IsLeaf :=
  ⟨hedit.magic.trans hleaf.magic, hedit.nodeType.trans hleaf.nodeType,
    hedit.isRoot.trans hleaf.isRoot, hedit.level.trans hleaf.level,
    hedit.reserved.trans hleaf.reserved⟩

theorem freeSpace_insertNew (node : LeafNode) (pos : Nat) (entry : Entry)
    (hsize : entry.serializedSize ≤ leafCapacity) :
    (node.insertNew pos entry).header.freeSpace.toNat = node.header.freeSpace.toNat - entry.serializedSize := by
  show (NodeHeader.touch _).freeSpace.toNat = _
  rw [NodeHeader.touch_freeSpace, NodeHeader.takeSpace_toNat, toNat_ofNat_of_le_capacity hsize]

variable {node' : LeafNode}

theorem LeafOk.edit (h : LeafOk pageId node) (hheader : node.header.Edits node'.header)
    (hcount : node'.header.numKeys.toNat = node'.entries.length)
    (hsorted : Sorted Entry.key node'.entries) (hencodable : ∀ e ∈ node'.entries, Encodable e)
    (hfits : LeafNode.used node'.entries + node'.header.freeSpace.toNat ≤ leafCapacity)
    (hlast : node'.nextLeaf = node.nextLeaf) : LeafOk pageId node' :=
  ⟨hheader.isLeaf h.header, hheader.nodeId.trans h.id, hcount, hsorted, hencodable, hfits,
    hlast.trans h.last⟩

/-- What the entries take and what the header claims to be left. -/
def LeafNode.claimed (node : LeafNode) : Nat :=
  LeafNode.used node.entries + node.header.freeSpace.toNat

/-- What holds of a leaf whatever was done to it. -/
structure Weighed (node : LeafNode) : Prop where
  sorted : Sorted Entry.key node.entries
  count : node.header.numKeys.toNat = node.entries.length
  claimed : node.claimed ≤ leafCapacity

/-- A step on the books: the total stays, or falls short of the capacity. -/
structure Booked (node node' : LeafNode) (covers : Prop) : Prop where
  weighed : Weighed node'
  kept : covers → node'.claimed = node.claimed
  short : ¬ covers → node'.claimed < leafCapacity

/-- What an insertion that finds space leaves. -/
structure Inserted (pageId : PageId) (node node' : LeafNode) (entry : Entry) : Prop where
  ok : LeafOk pageId node'
  prev : node'.prevLeaf = node.prevLeaf
  lookup : ∀ k, lookup Entry.key k node'.entries =
    if k = entry.key then some entry else lookup Entry.key k node.entries

section middle

variable {pre suf : List Entry} {old : Entry}

theorem Weighed.insertNew (h : Weighed node) (hentries : node.entries = pre ++ suf)
    (hpre : ∀ p ∈ pre, p.key < entry.key) (hsuf : ∀ s ∈ suf, entry.key < s.key)
    (hspace : entry.serializedSize ≤ node.header.freeSpace.toNat) :
    Weighed (node.insertNew pre.length entry) ∧
      (node.insertNew pre.length entry).claimed = node.claimed := by
  have hclaimed := h.claimed
  unfold LeafNode.claimed at hclaimed
  have hnew := LeafNode.entries_insertNew hentries entry
  have hused : LeafNode.used (pre ++ entry :: suf) = LeafNode.used node.entries + entry.serializedSize := by
    rw [hentries, LeafNode.used_middle]
  have hfree := freeSpace_insertNew node pre.length entry (by omega)
  have htotal : (node.insertNew pre.length entry).claimed = node.claimed := by
    unfold LeafNode.claimed
    rw [hnew, hfree, hused]
    omega
  refine ⟨⟨?_, ?_, htotal.trans_le h.claimed⟩, htotal⟩
  · rw [hnew]
    exact sorted_insert (hentries ▸ h.sorted) hpre hsuf
  · show (NodeHeader.touch _).numKeys.toNat = _
    rw [NodeHeader.touch_numKeys, NodeHeader.takeSpace_numKeys]
    show (UInt16.ofNat (node.insertNew pre.length entry).entries.length).toNat = _
    rw [hnew]
    exact toNat_ofNat_length (by omega)

theorem Weighed.replaceAt (h : Weighed node) (hentries : node.entries = pre ++ old :: suf)
    (hkey : entry.key = old.key) (hspace : entry.serializedSize ≤ node.header.freeSpace.toNat) :
    Booked node (node.replaceAt pre.length old entry) (old.serializedSize ≤ entry.serializedSize) := by
  have hclaimed := h.claimed
  unfold LeafNode.claimed at hclaimed
  have hnew := LeafNode.entries_replaceAt hentries entry
  have hused := LeafNode.used_middle pre suf entry
  have hold := LeafNode.used_middle pre suf old
  rw [← hentries] at hold
  have hsize : (UInt16.ofNat entry.serializedSize).toNat = entry.serializedSize :=
    toNat_ofNat_of_le_capacity (by omega)
  have hsizeOld : (UInt16.ofNat old.serializedSize).toNat = old.serializedSize :=
    toNat_ofNat_of_le_capacity (by omega)
  have hheader : (node.replaceAt pre.length old entry).header = (node.header.takeSpace
      (UInt16.ofNat entry.serializedSize - UInt16.ofNat old.serializedSize)).touch := rfl
  have hfree : (node.replaceAt pre.length old entry).header.freeSpace.toNat =
      node.header.freeSpace.toNat -
        (UInt16.ofNat entry.serializedSize - UInt16.ofNat old.serializedSize).toNat := by
    rw [hheader, NodeHeader.touch_freeSpace, NodeHeader.takeSpace_toNat]
  rw [UInt16.toNat_sub, hsize, hsizeOld] at hfree
  have hgrow : old.serializedSize ≤ entry.serializedSize →
      (node.replaceAt pre.length old entry).claimed = node.claimed := by
    intro hle
    unfold LeafNode.claimed
    simp only [leafCapacity, bodySize, pageSize, headerSize] at hclaimed
    rw [hnew, hfree]
    omega
  -- the wrapped difference is larger than any page, and what is claimed is what is stored
  have hshrink : ¬ old.serializedSize ≤ entry.serializedSize →
      (node.replaceAt pre.length old entry).claimed < leafCapacity := by
    intro hlt
    unfold LeafNode.claimed
    simp only [leafCapacity, bodySize, pageSize, headerSize] at hclaimed ⊢
    rw [hnew, hfree]
    omega
  refine ⟨⟨?_, ?_, ?_⟩, hgrow, hshrink⟩
  · rw [hnew]
    have hsorted := h.sorted
    rw [hentries] at hsorted
    exact sorted_replace hsorted hkey
  · rw [hnew, hheader, NodeHeader.touch_numKeys, NodeHeader.takeSpace_numKeys, h.count, hentries]
    simp
  · by_cases hle : old.serializedSize ≤ entry.serializedSize
    · exact (hgrow hle).trans_le h.claimed
    · exact (hshrink hle).le

theorem LeafOk.weighed (h : LeafOk pageId node) : Weighed node := ⟨h.sorted, h.count, h.fits⟩

theorem LeafOk.insertNew (h : LeafOk pageId node) (hentries : node.entries = pre ++ suf)
    (hpre : ∀ p ∈ pre, p.key < entry.key) (hsuf : ∀ s ∈ suf, entry.key < s.key)
    (hspace : entry.serializedSize ≤ node.header.freeSpace.toNat) (hentry : Encodable entry) :
    Inserted pageId node (node.insertNew pre.length entry) entry := by
  have hnew := LeafNode.entries_insertNew hentries entry
  have hweighed := (h.weighed.insertNew hentries hpre hsuf hspace).1
  constructor
  · refine h.edit ?_ hweighed.count hweighed.sorted ?_ hweighed.claimed (node.insertNew_links _ _).1
    · exact ((node.header.edits_space _ _).trans (NodeHeader.edits_takeSpace _ _)).trans
        (NodeHeader.edits_touch _)
    · intro e he
      rw [hnew] at he
      rcases List.mem_append.mp he with he | he
      · exact h.encodable e (hentries ▸ List.mem_append_left _ he)
      · rcases List.mem_cons.mp he with rfl | he
        · exact hentry
        · exact h.encodable e (hentries ▸ List.mem_append_right _ he)
  · exact (node.insertNew_links _ _).2
  · intro k
    rw [hnew, lookup_insert suf hpre, hentries]

theorem LeafOk.replaceAt (h : LeafOk pageId node) (hentries : node.entries = pre ++ old :: suf)
    (hkey : entry.key = old.key) (hspace : entry.serializedSize ≤ node.header.freeSpace.toNat)
    (hentry : Encodable entry) :
    Inserted pageId node (node.replaceAt pre.length old entry) entry := by
  have hnew := LeafNode.entries_replaceAt hentries entry
  have hweighed := (h.weighed.replaceAt hentries hkey hspace).weighed
  constructor
  · refine h.edit ?_ hweighed.count hweighed.sorted ?_ hweighed.claimed (node.replaceAt_links _ _ _).1
    · exact (node.header.edits_takeSpace _).trans (NodeHeader.edits_touch _)
    · intro e he
      rw [hnew] at he
      rcases List.mem_append.mp he with he | he
      · exact h.encodable e (hentries ▸ List.mem_append_left _ he)
      · rcases List.mem_cons.mp he with rfl | he
        · exact hentry
        · exact h.encodable e (hentries ▸ List.mem_append_right _ (List.mem_cons_of_mem _ he))
  · exact (node.replaceAt_links _ _ _).2
  · intro k
    have hsorted := h.sorted
    rw [hentries] at hsorted
    rw [hnew, hentries, lookup_replace hsorted hkey]

end middle

theorem LeafOk.insert {pageId : PageId} {node : LeafNode} {entry : Entry} (h : LeafOk pageId node)
    (hspace : node.header.hasSpace entry.serializedSize = true) (hentry : Encodable entry) :
    ∃ isUpdate node', node.insert entry = .ok (isUpdate, node') ∧
      Inserted pageId node node' entry := by
  have hfree : entry.serializedSize ≤ node.header.freeSpace.toNat := by
    simpa [NodeHeader.hasSpace] using hspace
  unfold LeafNode.insert
  rw [if_neg (not_not.mpr hspace)]
  unfold position
  rcases binarySearch_cases h.sorted entry.key with
    ⟨pre, old, suf, hentries, hkey, hsearch⟩ | ⟨pre, suf, hentries, hpre, hsuf, hsearch⟩
  · have hget : node.entries[pre.length]? = some old := by rw [hentries, getElem?_middle]
    simp only [hsearch, hget, if_pos hkey]
    exact ⟨true, _, rfl, h.replaceAt hentries hkey.symm hfree hentry⟩
  · have hinserted := h.insertNew hentries hpre hsuf hfree hentry
    cases hget : node.entries[pre.length]? with
    | none =>
      simp only [hsearch, hget]
      exact ⟨false, _, rfl, hinserted⟩
    | some s =>
      have hne : s.key ≠ entry.key := by
        apply ne_of_gt
        apply hsuf
        rw [hentries, List.getElem?_append_right (Nat.le_refl _), Nat.sub_self] at hget
        exact List.mem_of_getElem? hget
      simp only [hsearch, hget, if_neg hne]
      exact ⟨false, _, rfl, hinserted⟩

theorem insert_eq_error (hspace : node.header.hasSpace entry.serializedSize = false) :
    node.insert entry = .error (.storage (.pager "Leaf node")) := by
  unfold LeafNode.insert
  rw [if_pos (by simp [hspace])]

theorem Inserted.mem {e : Entry} (h : Inserted pageId node node' entry) (he : e ∈ node'.entries) :
    e = entry ∨ e ∈ node.entries := by
  have hlookup := lookup_eq_some h.ok.sorted he rfl
  rw [h.lookup] at hlookup
  by_cases hkey : e.key = entry.key
  · rw [if_pos hkey] at hlookup
    exact Or.inl (Option.some.inj hlookup).symm
  · rw [if_neg hkey] at hlookup
    exact Or.inr (mem_of_lookup hlookup).1

theorem leafOk_new (pageId : PageId) : LeafOk pageId (LeafNode.new pageId) where
  header := ⟨rfl, rfl, rfl, rfl, rfl⟩
  id := rfl
  count := rfl
  sorted := List.Pairwise.nil
  encodable := fun _ he => absurd he List.not_mem_nil
  fits := by
    show 0 + ((NodeHeader.new .leaf pageId 0).takeSpace 16).freeSpace.toNat ≤ leafCapacity
    rw [NodeHeader.takeSpace_toNat]
    show 0 + ((UInt16.ofNat bodySize).toNat - (16 : UInt16).toNat) ≤ leafCapacity
    decide
  last := rfl

theorem LeafOk.insert_last (h : LeafOk pageId node) (hlast : ∀ p ∈ node.entries, p.key < entry.key)
    (hspace : entry.serializedSize ≤ node.header.freeSpace.toNat) :
    node.insert entry = .ok (false, node.insertNew node.entries.length entry) := by
  have hhas : node.header.hasSpace entry.serializedSize = true := by
    simpa [NodeHeader.hasSpace] using hspace
  have hsearch : binarySearch Entry.key entry.key node.entries = .error node.entries.length := by
    rcases binarySearch_cases h.sorted entry.key with
      ⟨pre, old, suf, hentries, hkey, -⟩ | ⟨pre, suf, hentries, -, hsuf, hsearch⟩
    · have hold : old ∈ node.entries := by
        rw [hentries]
        exact List.mem_append_right _ (List.mem_cons_self ..)
      exact absurd hkey (hlast old hold).ne
    · have hnil : suf = [] := by
        apply List.eq_nil_iff_forall_not_mem.mpr
        intro s hs
        have hmem : s ∈ node.entries := hentries ▸ List.mem_append_right _ hs
        exact absurd (hsuf s hs) (hlast s hmem).not_gt
      rw [hsearch, hentries, hnil, List.append_nil]
  have hnone : node.entries[node.entries.length]? = none := List.getElem?_eq_none (Nat.le_refl _)
  unfold LeafNode.insert position
  rw [if_neg (not_not.mpr hhas)]
  simp only [hsearch, hnone]

theorem freeSpace_new (pageId : PageId) :
    (LeafNode.new pageId).header.freeSpace.toNat = leafCapacity := by
  show ((NodeHeader.new .leaf pageId 0).takeSpace 16).freeSpace.toNat = leafCapacity
  rw [NodeHeader.takeSpace_toNat]
  rfl

theorem LeafOk.insertAll {xs : List Entry}
    (h : LeafOk pageId node) (hsorted : Sorted Entry.key (node.entries ++ xs))
    (hxs : ∀ e ∈ xs, Encodable e) (hspace : LeafNode.used xs ≤ node.header.freeSpace.toNat) :
    ∃ node', node.insertAll xs = .ok node' ∧ LeafOk pageId node' ∧
      node'.entries = node.entries ++ xs := by
  induction xs generalizing node with
  | nil => exact ⟨node, rfl, h, (List.append_nil _).symm⟩
  | cons e xs ih =>
    rw [LeafNode.used_cons] at hspace
    have hfirst : ∀ p ∈ node.entries, p.key < e.key := (sorted_around hsorted).1
    have hinsert := h.insert_last hfirst (by omega)
    have hinserted := h.insertNew (List.append_nil _).symm hfirst (fun _ hs => nomatch hs)
      (by omega) (hxs e (List.mem_cons_self ..))
    let node₁ := node.insertNew node.entries.length e
    have hentries : node₁.entries = node.entries ++ [e] := List.insertIdx_length_self
    have hfits := h.fits
    have hfree : node₁.header.freeSpace.toNat = node.header.freeSpace.toNat - e.serializedSize :=
      freeSpace_insertNew node _ e (by omega)
    have hsorted₁ : Sorted Entry.key (node₁.entries ++ xs) := by
      rw [hentries, List.append_assoc]
      exact hsorted
    have hspace₁ : LeafNode.used xs ≤ node₁.header.freeSpace.toNat := by
      rw [hfree]
      omega
    rcases ih hinserted.ok hsorted₁ (fun x hx => hxs x (List.mem_cons_of_mem _ hx)) hspace₁
      with ⟨node', hrest, hok, hall⟩
    refine ⟨node', ?_, hok, ?_⟩
    · rw [LeafNode.insertAll, hinsert]
      exact hrest
    · rw [hall, hentries, List.append_assoc]
      rfl

namespace LeafNode

def lowerHalf (node : LeafNode) : LeafNode := node.truncate (node.entries.length / 2)

def upperHalf (node : LeafNode) : List Entry := node.entries.drop (node.entries.length / 2)

/-- A split that frees the space for an entry which belongs to the new leaf: the entry is lost. -/
def drops (node : LeafNode) (entry : Entry) : Bool :=
  !node.header.hasSpace entry.serializedSize && node.header.needsSplit &&
    match node.upperHalf with
    | [] => false
    | first :: _ => !decide (entry.key < first.key)

/-- The leaf a put leaves in place and the entries it moves to a new one, or `none` if it is
refused. -/
def planInsert (node : LeafNode) (entry : Entry) : Option (LeafNode × List Entry) :=
  if node.header.hasSpace entry.serializedSize then
    match node.insert entry with
    | .error _ => none
    | .ok (isUpdate, node) =>
      if isUpdate then some (node, [])
      else if node.header.needsSplit then some (node.lowerHalf, node.upperHalf)
      else some (node, [])
  else if node.header.needsSplit then
    match node.upperHalf with
    | [] => none
    | first :: rest =>
      if entry.key < first.key then
        match node.lowerHalf.insert entry with
        | .error _ => none
        | .ok (_, left) => some (left, first :: rest)
      else some (node.lowerHalf, first :: rest)
  else none

theorem lowerHalf_entries (node : LeafNode) :
    node.lowerHalf.entries = node.entries.take (node.entries.length / 2) := rfl

theorem halves (node : LeafNode) : node.lowerHalf.entries ++ node.upperHalf = node.entries :=
  List.take_append_drop ..

end LeafNode

theorem LeafOk.lowerHalf (h : LeafOk pageId node) : LeafOk pageId node.lowerHalf := by
  have hused : LeafNode.used node.lowerHalf.entries ≤ leafCapacity :=
    (LeafNode.used_le_of_sublist (List.take_sublist _ _)).trans h.used_le
  let counted := { node.header with numKeys := UInt16.ofNat node.lowerHalf.entries.length }
  have hcount : node.lowerHalf.header.numKeys = UInt16.ofNat node.lowerHalf.entries.length :=
    counted.touch_numKeys
  have hfree : node.lowerHalf.header.freeSpace =
      UInt16.ofNat leafCapacity - UInt16.ofNat (LeafNode.used node.lowerHalf.entries) := rfl
  refine h.edit ?_ ?_ ?_ ?_ ?_ rfl
  · exact ((node.header.edits_space _ node.header.freeSpace).trans counted.edits_touch).trans
      (NodeHeader.edits_space counted.touch counted.touch.numKeys _)
  · rw [hcount]
    exact toNat_ofNat_length hused
  · exact h.sorted.sublist (List.take_sublist _ _)
  · intro e he
    exact h.encodable e (List.mem_of_mem_take he)
  · rw [hfree, UInt16.toNat_sub, toNat_ofNat_of_le_capacity (Nat.le_refl _),
      toNat_ofNat_of_le_capacity hused]
    simp only [leafCapacity, bodySize, pageSize, headerSize] at hused ⊢
    omega

/-- The outcome of a put on a leaf: what stays and what moves is sorted together, and binds what the
leaf bound, with the new entry unless it is dropped. -/
structure Planned (pageId : PageId) (node : LeafNode) (entry : Entry) (left : LeafNode)
    (moved : List Entry) : Prop where
  ok : LeafOk pageId left
  prev : left.prevLeaf = node.prevLeaf
  sorted : Sorted Entry.key (left.entries ++ moved)
  encodable : ∀ e ∈ moved, Encodable e
  fits : LeafNode.used moved ≤ leafCapacity
  lookup : ∀ k, lookup Entry.key k (left.entries ++ moved) =
    if k = entry.key ∧ node.drops entry = false then some entry
    else lookup Entry.key k node.entries

theorem LeafOk.upperHalf (h : LeafOk pageId node) :
    (∀ e ∈ node.upperHalf, Encodable e) ∧ LeafNode.used node.upperHalf ≤ leafCapacity :=
  ⟨fun e he => h.encodable e (List.mem_of_mem_drop he),
    (LeafNode.used_le_of_sublist (List.drop_sublist _ _)).trans h.used_le⟩

theorem Inserted.planned
    (h : Inserted pageId node node' entry) (hspace : node.header.hasSpace entry.serializedSize = true) :
    Planned pageId node entry node' [] ∧
      Planned pageId node entry node'.lowerHalf node'.upperHalf := by
  have hdrops : node.drops entry = false := by rw [LeafNode.drops, hspace]; rfl
  have hlookup : ∀ k, SortedEntries.lookup Entry.key k node'.entries =
      if k = entry.key ∧ node.drops entry = false then some entry
      else SortedEntries.lookup Entry.key k node.entries := by
    intro k
    rw [h.lookup]
    simp only [hdrops, and_true]
  constructor
  · refine ⟨h.ok, h.prev, ?_, (fun _ he => nomatch he), Nat.zero_le _, ?_⟩
    · rw [List.append_nil]
      exact h.ok.sorted
    · rw [List.append_nil]
      exact hlookup
  · refine ⟨h.ok.lowerHalf, h.prev, ?_, h.ok.upperHalf.1, h.ok.upperHalf.2, ?_⟩
    · rw [node'.halves]
      exact h.ok.sorted
    · rw [node'.halves]
      exact hlookup

variable {left : LeafNode}

theorem Inserted.plannedLeft {first : Entry} {rest : List Entry} (h : LeafOk pageId node)
    (hinserted : Inserted pageId node.lowerHalf left entry)
    (hupper : node.upperHalf = first :: rest) (hlt : entry.key < first.key) :
    Planned pageId node entry left (first :: rest) := by
  have hhalves := node.halves
  rw [hupper] at hhalves
  have hsorted := h.sorted
  rw [← hhalves] at hsorted
  rcases List.pairwise_append.mp hsorted with ⟨-, hright, hcross⟩
  have hfirst : ∀ r ∈ first :: rest, entry.key < r.key := by
    intro r hr
    rcases List.mem_cons.mp hr with rfl | hr
    · exact hlt
    · exact hlt.trans ((List.pairwise_cons.mp hright).1 r hr)
  have hdrops : node.drops entry = false := by
    simp [LeafNode.drops, hupper, hlt]
  refine ⟨hinserted.ok, hinserted.prev, ?_, hupper ▸ h.upperHalf.1, hupper ▸ h.upperHalf.2, ?_⟩
  · apply List.pairwise_append.mpr
    refine ⟨hinserted.ok.sorted, hright, ?_⟩
    intro l hl r hr
    rcases hinserted.mem hl with rfl | hl
    · exact hfirst r hr
    · exact hcross l hl r hr
  · intro k
    have hwhole : SortedEntries.lookup Entry.key k node.entries =
        (SortedEntries.lookup Entry.key k node.lowerHalf.entries).or
          (SortedEntries.lookup Entry.key k (first :: rest)) := by
      rw [← hhalves, lookup_append]
    rw [lookup_append, hinserted.lookup, hwhole]
    by_cases hk : k = entry.key
    · simp [hk, hdrops]
    · simp [hk]

theorem LeafOk.plannedDropped {first : Entry}
    {rest : List Entry} (h : LeafOk pageId node)
    (hspace : node.header.hasSpace entry.serializedSize = false)
    (hsplit : node.header.needsSplit = true) (hupper : node.upperHalf = first :: rest)
    (hge : ¬ entry.key < first.key) : Planned pageId node entry node.lowerHalf (first :: rest) := by
  have hhalves := node.halves
  rw [hupper] at hhalves
  have hdrops : node.drops entry = true := by
    simp [LeafNode.drops, hspace, hsplit, hupper, hge]
  refine ⟨h.lowerHalf, rfl, ?_, hupper ▸ h.upperHalf.1, hupper ▸ h.upperHalf.2, ?_⟩
  · rw [hhalves]
    exact h.sorted
  · intro k
    rw [hhalves, if_neg (by simp [hdrops])]

/-- The entry is in the leaf, which may have been split behind it; or the leaf is split first, and the entry is in
the lower half or left out. -/
theorem LeafOk.planInsert_cases {moved : List Entry}
    (h : LeafOk pageId node) (hentry : Encodable entry) (hplan : node.planInsert entry = some (left, moved)) :
    (node.header.hasSpace entry.serializedSize = true ∧ ∃ isUpdate node',
        node.insert entry = .ok (isUpdate, node') ∧ Inserted pageId node node' entry ∧
        (((isUpdate = true ∨ ¬ node'.header.needsSplit = true) ∧ left = node' ∧ moved = []) ∨
          (¬ isUpdate = true ∧ node'.header.needsSplit = true ∧ left = node'.lowerHalf ∧ moved = node'.upperHalf))) ∨
      (¬ node.header.hasSpace entry.serializedSize = true ∧ node.header.needsSplit = true ∧ ∃ first rest,
        node.upperHalf = first :: rest ∧ moved = first :: rest ∧
        ((entry.key < first.key ∧ ∃ isUpdate, node.lowerHalf.insert entry = .ok (isUpdate, left) ∧
            Inserted pageId node.lowerHalf left entry) ∨
          (¬ entry.key < first.key ∧ left = node.lowerHalf))) := by
  unfold LeafNode.planInsert at hplan
  by_cases hspace : node.header.hasSpace entry.serializedSize = true
  · rcases h.insert hspace hentry with ⟨isUpdate, node', hinsert, hinserted⟩
    rw [if_pos hspace, hinsert] at hplan
    refine .inl ⟨hspace, isUpdate, node', hinsert, hinserted, ?_⟩
    dsimp only at hplan
    split at hplan
    next hupdate =>
      cases hplan
      exact .inl ⟨.inl hupdate, rfl, rfl⟩
    next hupdate =>
      split at hplan
      next hsplit =>
        cases hplan
        exact .inr ⟨hupdate, hsplit, rfl, rfl⟩
      next hwhole =>
        cases hplan
        exact .inl ⟨.inr hwhole, rfl, rfl⟩
  · rw [if_neg hspace] at hplan
    split at hplan
    case isFalse => cases hplan
    case isTrue hsplit =>
      cases hupper : node.upperHalf with
      | nil => simp [hupper] at hplan
      | cons first rest =>
        rw [hupper] at hplan
        dsimp only at hplan
        by_cases hlt : entry.key < first.key
        · rw [if_pos hlt] at hplan
          by_cases hroom : node.lowerHalf.header.hasSpace entry.serializedSize = true
          · rcases h.lowerHalf.insert hroom hentry with ⟨isUpdate, left', hinsert, hinserted⟩
            rw [hinsert] at hplan
            cases hplan
            exact .inr ⟨hspace, hsplit, first, rest, rfl, rfl, .inl ⟨hlt, isUpdate, hinsert, hinserted⟩⟩
          · rw [insert_eq_error (by simpa using hroom)] at hplan
            cases hplan
        · rw [if_neg hlt] at hplan
          cases hplan
          exact .inr ⟨hspace, hsplit, first, rest, rfl, rfl, .inr ⟨hlt, rfl⟩⟩

theorem LeafOk.planned {moved : List Entry} (h : LeafOk pageId node) (hentry : Encodable entry)
    (hplan : node.planInsert entry = some (left, moved)) : Planned pageId node entry left moved := by
  rcases h.planInsert_cases hentry hplan with
    ⟨hspace, _, _, -, hinserted, ⟨-, rfl, rfl⟩ | ⟨-, -, rfl, rfl⟩⟩ |
      ⟨hspace, hsplit, first, rest, hupper, rfl, ⟨hlt, _, -, hinserted⟩ | ⟨hge, rfl⟩⟩
  · exact (hinserted.planned hspace).1
  · exact (hinserted.planned hspace).2
  · exact Inserted.plannedLeft h hinserted hupper hlt
  · exact h.plannedDropped (by simpa using hspace) hsplit hupper hge

structure Removed (pageId : PageId) (node node' : LeafNode) (key : Bytes) : Prop where
  ok : LeafOk pageId node'
  prev : node'.prevLeaf = node.prevLeaf
  lookup : ∀ k, lookup Entry.key k node'.entries =
    if k = key then none else lookup Entry.key k node.entries

/-- The header `remove` leaves. -/
def NodeHeader.afterRemove (h : NodeHeader) (count : Nat) (size : Nat) : NodeHeader :=
  let header := { h with
    numKeys := UInt16.ofNat count
    freeSpace := h.freeSpace + UInt16.ofNat size }
  let header := header.touch
  if header.isUnderfull (UInt16.ofNat (bodySize / 100)) then header.setFlag NodeFlags.underfull
  else header

theorem NodeHeader.edits_afterRemove (h : NodeHeader) (count size : Nat) :
    h.Edits (h.afterRemove count size) := by
  have htouch := (h.edits_space (UInt16.ofNat count) (h.freeSpace + UInt16.ofNat size)).trans
    (NodeHeader.edits_touch _)
  unfold afterRemove
  dsimp only
  split
  · exact htouch.trans (NodeHeader.edits_setFlag _ _)
  · exact htouch

theorem NodeHeader.afterRemove_numKeys (h : NodeHeader) (count size : Nat) :
    (h.afterRemove count size).numKeys = UInt16.ofNat count := by
  unfold afterRemove
  dsimp only
  split
  · exact NodeHeader.touch_numKeys _
  · exact NodeHeader.touch_numKeys _

theorem NodeHeader.afterRemove_freeSpace (h : NodeHeader) (count size : Nat) :
    (h.afterRemove count size).freeSpace = h.freeSpace + UInt16.ofNat size := by
  unfold afterRemove
  dsimp only
  split
  · exact NodeHeader.touch_freeSpace _
  · exact NodeHeader.touch_freeSpace _

theorem LeafOk.remove {pageId : PageId} {node : LeafNode} (h : LeafOk pageId node) (key : Bytes) :
    ∃ removed node', node.remove key = (removed, node') ∧ Removed pageId node node' key ∧
      (removed = none → node' = node) := by
  unfold LeafNode.remove
  rcases binarySearch_cases h.sorted key with
    ⟨pre, x, suf, hentries, hkey, hsearch⟩ | ⟨pre, suf, hentries, hpre, hsuf, hsearch⟩
  · have hget : node.entries[pre.length]? = some x := by rw [hentries, getElem?_middle]
    simp only [hsearch, hget]
    refine ⟨some x, _, rfl, ?_, fun hnone => nomatch hnone⟩
    have hsorted := h.sorted
    rw [hentries] at hsorted
    have herase : node.entries.eraseIdx pre.length = pre ++ suf := by
      rw [hentries, eraseIdx_middle]
    have hused : LeafNode.used node.entries =
        LeafNode.used (pre ++ suf) + x.serializedSize := by
      rw [hentries, LeafNode.used_append, LeafNode.used_append, LeafNode.used_cons]
      omega
    have hfits := h.fits
    have hsize : (UInt16.ofNat x.serializedSize).toNat = x.serializedSize :=
      toNat_ofNat_of_le_capacity (by omega)
    constructor
    · refine h.edit (node.header.edits_afterRemove (node.entries.eraseIdx pre.length).length
        x.serializedSize) ?_ ?_ ?_ ?_ rfl
      · show (node.header.afterRemove (node.entries.eraseIdx pre.length).length
          x.serializedSize).numKeys.toNat = (node.entries.eraseIdx pre.length).length
        rw [NodeHeader.afterRemove_numKeys, herase]
        exact toNat_ofNat_length (by omega)
      · show Sorted Entry.key (node.entries.eraseIdx pre.length)
        rw [herase]
        exact sorted_erase hsorted
      · intro e he
        exact h.encodable e (List.mem_of_mem_eraseIdx he)
      · show LeafNode.used (node.entries.eraseIdx pre.length) + (node.header.afterRemove
          (node.entries.eraseIdx pre.length).length x.serializedSize).freeSpace.toNat ≤ _
        rw [NodeHeader.afterRemove_freeSpace, herase, UInt16.toNat_add, hsize]
        simp only [leafCapacity, bodySize, pageSize, headerSize] at hfits ⊢
        omega
    · rfl
    · intro k
      show lookup Entry.key k (node.entries.eraseIdx pre.length) = _
      subst hkey
      rw [herase, hentries, lookup_erase hsorted]
  · simp only [hsearch]
    refine ⟨none, node, rfl, ⟨h, rfl, ?_⟩, fun _ => rfl⟩
    intro k
    by_cases hk : k = key
    · rw [if_pos hk, hk]
      apply lookup_eq_none
      intro y hy
      rw [hentries] at hy
      rcases List.mem_append.mp hy with hy | hy
      · exact (hpre y hy).ne
      · exact (hsuf y hy).ne'
    · rw [if_neg hk]

/-- The two leaves after the last entry of the left sibling moved over, if it does. -/
def planBorrow (underfull donor : LeafNode) : Option (LeafNode × LeafNode) :=
  match borrowFromLeftLeaf underfull donor with
  | .ok moved => moved
  | .error _ => none

/-- What a borrow does: the last entry of the donor is inserted into the underfull leaf. -/
structure Borrowed (pageId donorId : PageId) (underfull donor underfull' donor' : LeafNode)
    (entry : Entry) : Prop where
  taken : donor.entries.getLast? = some entry
  inserted : Inserted pageId underfull underfull' entry
  lender : LeafOk donorId donor'
  prev : donor'.prevLeaf = donor.prevLeaf
  rest : donor'.entries = donor.entries.dropLast

theorem borrowed_of_plan {donorId : PageId} {underfull donor underfull' donor' : LeafNode}
    (h : LeafOk pageId underfull) (hdonor : LeafOk donorId donor)
    (hplan : planBorrow underfull donor = some (underfull', donor')) :
    ∃ entry, Borrowed pageId donorId underfull donor underfull' donor' entry := by
  unfold planBorrow borrowFromLeftLeaf borrowFromLeaf at hplan
  cases htaken : donor.entries.getLast? with
  | none => simp [htaken] at hplan
  | some entry =>
    have hentry : Encodable entry := hdonor.encodable entry (List.mem_of_getLast? htaken)
    rw [htaken] at hplan
    dsimp only at hplan
    by_cases hcan : canBorrowFromSibling donor.header.numKeys underfull.header.numKeys = true
    · rw [if_neg (not_not.mpr hcan)] at hplan
      by_cases hspace : underfull.header.hasSpace entry.serializedSize = true
      · rcases h.insert hspace hentry with ⟨isUpdate, node', hinsert, hinserted⟩
        rw [hinsert, Except.ok_bind] at hplan
        cases hplan
        refine ⟨entry, htaken, hinserted, ?_, rfl, rfl⟩
        have hsub : donor.entries.dropLast.Sublist donor.entries := List.dropLast_sublist _
        have hused := LeafNode.used_le_of_sublist hsub
        have hfits := hdonor.fits
        refine hdonor.edit (donor.header.edits_space (UInt16.ofNat donor.entries.dropLast.length)
          donor.header.freeSpace) ?_ ?_ ?_ ?_ rfl
        · exact toNat_ofNat_length (by omega)
        · exact hdonor.sorted.sublist hsub
        · exact fun e he => hdonor.encodable e (hsub.subset he)
        · show LeafNode.used donor.entries.dropLast + donor.header.freeSpace.toNat ≤ leafCapacity
          omega
      · rw [insert_eq_error (by simpa using hspace), Except.error_bind] at hplan
        cases hplan
    · rw [if_pos hcan] at hplan
      cases hplan

end Northstar.Btree
