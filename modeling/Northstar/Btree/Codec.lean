import Northstar.Btree.Node

/-!
# Codec — a node is read back from the page it was written to

The only difference is the checksum field of the header: `to_bytes` computes it over the finished
page and puts it there, and nothing compares it on the way back.
-/

namespace Northstar.Btree

open Bytes

namespace NodeHeader

@[simp] theorem length_front (h : NodeHeader) : h.front.length = 28 := by simp [front]

@[simp] theorem length_back (h : NodeHeader) : h.back.length = 28 := by simp [back]

@[simp] theorem length_toBytes (h : NodeHeader) : h.toBytes.length = headerSize := by
  simp [toBytes, headerSize]

theorem read_toBytes_append (h : NodeHeader) (rest : Bytes) : read (h.toBytes ++ rest) = h := by
  have hbyte (b : UInt8) : UInt8.ofNat (toNat [b]) = b := by simp [Bytes.toNat]
  simp (disch := simp) only [read, toBytes, front, back, List.append_assoc, window_append_right,
    window_head, length_u16, length_u32, length_u64, List.length_singleton, Nat.reduceSub,
    readU16_u16, readU32_u32, readU64_u64, hbyte]

theorem writeAt_checksum (h : NodeHeader) (rest : Bytes) (c : UInt32) :
    writeAt (h.toBytes ++ rest) 28 (u32 c) = some ({ h with checksum := c }.toBytes ++ rest) := by
  have hsplit : h.toBytes ++ rest = h.front ++ (u32 h.checksum ++ (h.back ++ rest)) := by
    simp only [toBytes, List.append_assoc]
  have hjoin : ({ h with checksum := c } : NodeHeader).toBytes ++ rest =
      h.front ++ (u32 c ++ (h.back ++ rest)) := by
    simp only [toBytes, List.append_assoc]
    rfl
  rw [hsplit, hjoin]
  exact writeAt_middle (length_front h) (by simp)

/-- The header of a leaf, as `LeafNode::new` sets it up and no edit changes it. -/
structure IsLeaf (h : NodeHeader) : Prop where
  magic : h.magic = nodeMagic
  nodeType : h.nodeType = NodeType.leaf.toU8
  isRoot : h.isRoot = 0
  level : h.level = 0
  reserved : h.reserved = 0

/-- The header of an internal node, as `grow_tree` sets it up. -/
structure IsInternal (h : NodeHeader) : Prop where
  magic : h.magic = nodeMagic
  nodeType : h.nodeType = NodeType.internal.toU8
  isRoot : h.isRoot = 0
  reserved : h.reserved = 0

variable {h : NodeHeader}

theorem IsLeaf.validate (hleaf : h.IsLeaf) : h.validate h.nodeId = .ok () := by
  have htype : NodeType.fromU8 h.nodeType = some .leaf := by rw [hleaf.nodeType]; rfl
  rw [NodeHeader.validate, if_neg (fun hne => hne hleaf.magic)]
  simp only [htype, hleaf.isRoot, hleaf.level, hleaf.reserved, NodeType.isRoot, NodeType.isLeaf]
  simp

theorem IsInternal.validate (hinternal : h.IsInternal) : h.validate h.nodeId = .ok () := by
  have htype : NodeType.fromU8 h.nodeType = some .internal := by rw [hinternal.nodeType]; rfl
  rw [NodeHeader.validate, if_neg (fun hne => hne hinternal.magic)]
  simp only [htype, hinternal.isRoot, hinternal.reserved, NodeType.isRoot, NodeType.isLeaf]
  simp

theorem IsLeaf.setChecksum (hleaf : h.IsLeaf) (c : UInt32) : IsLeaf { h with checksum := c } :=
  ⟨hleaf.magic, hleaf.nodeType, hleaf.isRoot, hleaf.level, hleaf.reserved⟩

end NodeHeader

namespace Node

theorem slice_append {a : Bytes} {n : Nat} (h : a.length = n) (b : Bytes) :
    slice n (a ++ b) = .ok (a, b) := by
  subst h
  rw [slice, if_pos (by rw [List.length_append]; omega), List.take_left' rfl, List.drop_left' rfl]

@[simp] theorem length_entryBytes (e : Entry) : (entryBytes e).length = e.serializedSize := by
  simp only [entryBytes, List.length_cons, List.length_append, length_u16, length_u64,
    Entry.serializedSize]
  omega

theorem length_flatMap_entryBytes (entries : List Entry) :
    (entries.flatMap entryBytes).length = LeafNode.used entries := by
  rw [List.length_flatMap, LeafNode.used]
  congr 1
  exact List.map_congr_left fun e _ => length_entryBytes e

/-- The one-byte key length and the two-byte value length hold the lengths. -/
def Encodable (e : Entry) : Prop := e.key.length ≤ 255 ∧ e.value.length ≤ 65535

theorem readEntry_entryBytes {e : Entry} (h : Encodable e) (rest : Bytes) :
    readEntry (entryBytes e ++ rest) = .ok (e, rest) := by
  have hkey : (UInt8.ofNat e.key.length).toNat = e.key.length :=
    UInt8.toNat_ofNat_of_lt' (Nat.lt_of_le_of_lt h.1 (by decide))
  have hvalue : (UInt16.ofNat e.value.length).toNat = e.value.length :=
    UInt16.toNat_ofNat_of_lt' (Nat.lt_of_le_of_lt h.2 (by decide))
  have hbytes : entryBytes e ++ rest = UInt8.ofNat e.key.length ::
      (e.key ++ (u16 (UInt16.ofNat e.value.length) ++ (e.value ++ (u64 e.lsn ++ rest)))) := by
    simp only [entryBytes, List.cons_append, List.append_assoc]
  rw [hbytes]
  simp only [readEntry, readByte, Except.ok_bind, hkey, slice_append rfl,
    slice_append (length_u16 _), readU16_u16, hvalue, slice_append (length_u64 _), readU64_u64]

theorem readEntries_flatMap {entries : List Entry} (h : ∀ e ∈ entries, Encodable e) (rest : Bytes) :
    readEntries entries.length (entries.flatMap entryBytes ++ rest) = .ok entries := by
  induction entries with
  | nil => rfl
  | cons e entries ih =>
    have htail := ih fun x hx => h x (List.mem_cons_of_mem _ hx)
    rw [List.flatMap_cons, List.append_assoc, List.length_cons, readEntries,
      readEntry_entryBytes (h e (List.mem_cons_self ..)), Except.ok_bind]
    simp only [htail, Except.ok_bind]

/-- The bytes between the entries of a leaf and its links. -/
def leafPage (header : NodeHeader) (entries : List Entry) (next prev : UInt64) : Bytes :=
  header.toBytes ++ (entries.flatMap entryBytes ++
    (List.replicate (bodySize - 16 - LeafNode.used entries) 0 ++ (u64 next ++ u64 prev)))

variable {header : NodeHeader} {separator : Bytes}

theorem length_leafPage {entries : List Entry} (next prev : UInt64)
    (h : LeafNode.used entries ≤ bodySize - 16) :
    (leafPage header entries next prev).length = pageSize := by
  simp only [leafPage, List.length_append, NodeHeader.length_toBytes, length_flatMap_entryBytes,
    List.length_replicate, length_u64]
  simp only [headerSize, bodySize, pageSize] at h ⊢
  omega

/-- The checksum `to_bytes` stores for a leaf. -/
def leafChecksum (crc : Crc) (node : LeafNode) : UInt32 :=
  checksum crc (leafPage node.header node.entries node.nextLeaf node.prevLeaf)

variable {node : LeafNode} {separators : List Bytes} {children : List UInt64}

theorem toBytes_leaf (crc : Crc) (h : LeafNode.used node.entries ≤ bodySize - 16) :
    toBytes crc (.leaf node) = .ok (leafPage { node.header with checksum := leafChecksum crc node }
      node.entries node.nextLeaf node.prevLeaf) := by
  let entries := node.entries.flatMap entryBytes
  let gap := bodySize - 16 - LeafNode.used node.entries
  have hentries : entries.length = LeafNode.used node.entries := length_flatMap_entryBytes _
  have hnums : gap + LeafNode.used node.entries + headerSize + 16 = pageSize := by
    simp only [gap, headerSize, bodySize, pageSize] at h ⊢
    omega
  -- the zeros behind the entries are the gap and the room for the two links
  have hfill : fillPage (node.header.toBytes ++ entries) =
      .ok (node.header.toBytes ++ (entries ++ (List.replicate gap 0 ++
        (List.replicate 8 0 ++ List.replicate 8 0)))) := by
    have hlen : (node.header.toBytes ++ entries).length = headerSize + LeafNode.used node.entries := by
      rw [List.length_append, NodeHeader.length_toBytes, hentries]
    have hrest : pageSize - (headerSize + LeafNode.used node.entries) = gap + (8 + 8) := by omega
    rw [fillPage, if_pos (by rw [hlen]; omega), hlen, hrest, List.append_assoc,
      List.replicate_add, List.replicate_add]
  have hfront : (node.header.toBytes ++ (entries ++ List.replicate gap (0 : UInt8))).length =
      pageSize - 16 := by
    simp only [List.length_append, NodeHeader.length_toBytes, hentries, List.length_replicate]
    omega
  have hnext : writeAt (node.header.toBytes ++ (entries ++ (List.replicate gap 0 ++
      (List.replicate 8 0 ++ List.replicate 8 0)))) (pageSize - 16) (u64 node.nextLeaf) =
        some (node.header.toBytes ++ (entries ++ (List.replicate gap 0 ++
          (u64 node.nextLeaf ++ List.replicate 8 0)))) := by
    have hwrite := @writeAt_middle _ (List.replicate 8 0) (List.replicate 8 0) (u64 node.nextLeaf)
      _ hfront (by simp)
    simpa only [List.append_assoc] using hwrite
  have hprev : writeAt (node.header.toBytes ++ (entries ++ (List.replicate gap 0 ++
      (u64 node.nextLeaf ++ List.replicate 8 0)))) (pageSize - 8) (u64 node.prevLeaf) =
        some (leafPage node.header node.entries node.nextLeaf node.prevLeaf) := by
    have hlen : (node.header.toBytes ++ (entries ++ (List.replicate gap 0 ++
        u64 node.nextLeaf))).length = pageSize - 8 := by
      have hsame : (node.header.toBytes ++ (entries ++ (List.replicate gap 0 ++
          u64 node.nextLeaf))).length = pageSize - 16 + 8 := by
        rw [← hfront, ← length_u64 node.nextLeaf, ← List.length_append]
        simp only [List.append_assoc]
      rw [hsame]
      rfl
    have hwrite := @writeAt_middle _ (List.replicate 8 0) [] (u64 node.prevLeaf) _ hlen (by simp)
    simpa only [List.append_assoc, List.append_nil, leafPage] using hwrite
  simp only [toBytes, copyTo]
  rw [hfill]
  simp only [Except.ok_bind, hnext, hprev]
  rw [leafPage, NodeHeader.writeAt_checksum]
  rfl

/-- The node a page of this leaf decodes to. -/
def stampLeaf (crc : Crc) (node : LeafNode) : LeafNode :=
  { node with header := { node.header with checksum := leafChecksum crc node } }

section

variable (hcount : node.header.numKeys.toNat = node.entries.length)
  (hentries : ∀ e ∈ node.entries, Encodable e)
  (hfits : LeafNode.used node.entries ≤ bodySize - 16)

include hcount hentries hfits

theorem fromBytes_leafPage_of_valid (hvalid : node.header.validate node.header.nodeId = .ok ())
    (htype : node.header.getNodeType.map NodeType.baseType = some .leaf) :
    fromBytes (leafPage node.header node.entries node.nextLeaf node.prevLeaf) =
      .ok (.leaf node) := by
  let page := leafPage node.header node.entries node.nextLeaf node.prevLeaf
  have hlen : page.length = pageSize := length_leafPage _ _ hfits
  have hread : NodeHeader.read page = node.header := NodeHeader.read_toBytes_append _ _
  have hdrop : page.drop headerSize = node.entries.flatMap entryBytes ++
      (List.replicate (bodySize - 16 - LeafNode.used node.entries) 0 ++
        (u64 node.nextLeaf ++ u64 node.prevLeaf)) :=
    List.drop_left' (NodeHeader.length_toBytes _)
  -- the links are the last sixteen bytes
  have hbefore : (node.header.toBytes ++ (node.entries.flatMap entryBytes ++
      List.replicate (bodySize - 16 - LeafNode.used node.entries) (0 : UInt8))).length =
        pageSize - 16 := by
    simp only [List.length_append, NodeHeader.length_toBytes, length_flatMap_entryBytes,
      List.length_replicate]
    simp only [headerSize, bodySize, pageSize] at hfits ⊢
    omega
  have hpage : page = (node.header.toBytes ++ (node.entries.flatMap entryBytes ++
      List.replicate (bodySize - 16 - LeafNode.used node.entries) 0)) ++
        (u64 node.nextLeaf ++ u64 node.prevLeaf) := by
    simp only [page, leafPage, List.append_assoc]
  have hlinks : page.drop (pageSize - 16) = u64 node.nextLeaf ++ u64 node.prevLeaf := by
    rw [hpage, List.drop_left' hbefore]
  have hprev : page.drop (pageSize - 8) = u64 node.prevLeaf ++ [] := by
    rw [show pageSize - 8 = pageSize - 16 + 8 from rfl, ← List.drop_drop, hlinks,
      List.drop_left' (length_u64 _), List.append_nil]
  show fromBytes page = _
  rw [fromBytes, if_neg (by rw [hlen]; decide)]
  simp only [hread, hvalid, Except.mapError, Except.ok_bind, htype, hcount, hdrop,
    readEntries_flatMap hentries, hlinks, hprev, slice_append (length_u64 _), readU64_u64]

theorem fromBytes_leafPage (hheader : node.header.IsLeaf) :
    fromBytes (leafPage node.header node.entries node.nextLeaf node.prevLeaf) =
      .ok (.leaf node) := by
  have htype : node.header.getNodeType.map NodeType.baseType = some .leaf := by
    rw [NodeHeader.getNodeType, hheader.nodeType]
    rfl
  exact fromBytes_leafPage_of_valid hcount hentries hfits hheader.validate htype

theorem fromBytes_toBytes_leaf (crc : Crc) (hheader : node.header.IsLeaf) :
    ∃ page, toBytes crc (.leaf node) = .ok page ∧ page.length = pageSize ∧
      fromBytes page = .ok (.leaf (stampLeaf crc node)) := by
  refine ⟨_, toBytes_leaf crc hfits, length_leafPage _ _ hfits, ?_⟩
  exact @fromBytes_leafPage (stampLeaf crc node) hcount hentries hfits (hheader.setChecksum _)

end

/-- The separators with the children to their left. -/
def branches (separators : List Bytes) (children : List UInt64) : Bytes :=
  (separators.zip children).flatMap fun b => branchBytes b.1 b.2

/-- Bytes taken by the separators and the children to their left. -/
def branchesSize (separators : List Bytes) : Nat := (separators.map fun s => s.length + 9).sum

def internalPage (header : NodeHeader) (separators : List Bytes) (children : List UInt64)
    (last : UInt64) : Bytes :=
  header.toBytes ++ (branches separators children ++ (u64 last ++
    List.replicate (bodySize - (branchesSize separators + 8)) 0))

theorem length_branchBytes (separator : Bytes) (child : UInt64) :
    (branchBytes separator child).length = separator.length + 9 := by
  simp only [branchBytes, List.length_cons, List.length_append, length_u64]

theorem length_branches (h : children.length = separators.length) :
    (branches separators children).length = branchesSize separators := by
  induction separators generalizing children with
  | nil => rfl
  | cons s separators ih =>
    cases children with
    | nil => exact absurd h (Nat.succ_ne_zero _).symm
    | cons c children =>
      have htail := ih (Nat.succ.inj h)
      unfold branches at htail ⊢
      rw [List.zip_cons_cons, List.flatMap_cons, List.length_append, length_branchBytes, htail]
      rfl

theorem length_internalPage (last : UInt64) (hcount : children.length = separators.length)
    (h : branchesSize separators + 8 ≤ bodySize) :
    (internalPage header separators children last).length = pageSize := by
  simp only [internalPage, List.length_append, NodeHeader.length_toBytes, length_branches hcount,
    length_u64, List.length_replicate]
  simp only [headerSize, bodySize, pageSize] at h ⊢
  omega

theorem toBytes_internal (crc : Crc) (header : NodeHeader) {separators : List Bytes}
    {children : List UInt64} (last : UInt64) (hcount : children.length = separators.length)
    (h : branchesSize separators + 8 ≤ bodySize) :
    toBytes crc (.internal ⟨header, separators, children ++ [last]⟩) =
      .ok (internalPage { header with
        checksum := checksum crc (internalPage header separators children last) }
        separators children last) := by
  have hzip : separators.zip (children ++ [last]) = separators.zip children := by
    have hleft := @List.zip_append _ _ separators [] children [last] hcount.symm
    rw [List.append_nil, List.zip_nil_left, List.append_nil] at hleft
    exact hleft
  have hfill : fillPage (header.toBytes ++ (branches separators children ++ u64 last)) =
      .ok (internalPage header separators children last) := by
    have hlen : (header.toBytes ++ (branches separators children ++ u64 last)).length =
        headerSize + (branchesSize separators + 8) := by
      simp only [List.length_append, NodeHeader.length_toBytes, length_branches hcount, length_u64]
    have hrest : pageSize - (headerSize + (branchesSize separators + 8)) =
        bodySize - (branchesSize separators + 8) := by
      simp only [bodySize, Nat.sub_sub]
    have hle : headerSize + (branchesSize separators + 8) ≤ pageSize := by
      simp only [headerSize, bodySize, pageSize] at h ⊢
      omega
    rw [fillPage, if_pos (by rw [hlen]; exact hle), hlen, hrest]
    simp only [internalPage, List.append_assoc]
  have hmore : (children ++ [last]).length > separators.length := by
    rw [List.length_append, hcount]
    exact Nat.lt_succ_self _
  simp only [toBytes, hzip, copyTo]
  rw [if_pos hmore, List.getLastD_concat]
  show (fillPage (header.toBytes ++ (branches separators children ++ u64 last)) >>= _) = _
  rw [hfill, Except.ok_bind, internalPage, NodeHeader.writeAt_checksum]
  rfl

theorem readBranches_branches
    (hcount : children.length = separators.length) (h : ∀ s ∈ separators, s.length ≤ 255)
    (rest : Bytes) :
    readBranches separators.length (branches separators children ++ rest) =
      .ok (separators, children, rest) := by
  induction separators generalizing children with
  | nil =>
    rw [List.eq_nil_of_length_eq_zero hcount]
    rfl
  | cons s separators ih =>
    cases children with
    | nil => exact absurd hcount (Nat.succ_ne_zero _).symm
    | cons c children =>
      have htail := ih (Nat.succ.inj hcount) fun x hx => h x (List.mem_cons_of_mem _ hx)
      have hkey : (UInt8.ofNat s.length).toNat = s.length :=
        UInt8.toNat_ofNat_of_lt' (Nat.lt_of_le_of_lt (h s (List.mem_cons_self ..)) (by decide))
      have hbytes : branches (s :: separators) (c :: children) ++ rest =
          UInt8.ofNat s.length :: (s ++ (u64 c ++ (branches separators children ++ rest))) := by
        simp only [branches, List.zip_cons_cons, List.flatMap_cons, branchBytes, List.cons_append,
          List.append_assoc]
      rw [hbytes, List.length_cons]
      simp only [readBranches, readByte, Except.ok_bind, hkey, slice_append rfl,
        slice_append (length_u64 _), readU64_u64, htail]

theorem fromBytes_internalPage {header : NodeHeader} {separators : List Bytes}
    {children : List UInt64} (last : UInt64) (hvalid : header.validate header.nodeId = .ok ())
    (htype : header.getNodeType.map NodeType.baseType = some .internal)
    (hnum : header.numKeys.toNat = separators.length)
    (hcount : children.length = separators.length) (hshort : ∀ s ∈ separators, s.length ≤ 255)
    (hfits : branchesSize separators + 8 ≤ bodySize) :
    fromBytes (internalPage header separators children last) =
      .ok (.internal ⟨header, separators, children ++ [last]⟩) := by
  let page := internalPage header separators children last
  let zeros := List.replicate (bodySize - (branchesSize separators + 8)) (0 : UInt8)
  have hlen : page.length = pageSize := length_internalPage last hcount hfits
  have hread : NodeHeader.read page = header := NodeHeader.read_toBytes_append _ _
  have hdrop : page.drop headerSize = branches separators children ++ (u64 last ++ zeros) :=
    List.drop_left' (NodeHeader.length_toBytes _)
  have hlast : (u64 last ++ zeros).take 8 = u64 last := List.take_left' (length_u64 _)
  show fromBytes page = _
  rw [fromBytes, if_neg (by rw [hlen]; decide)]
  simp only [hread, hvalid, Except.mapError, Except.ok_bind, htype, hnum, hdrop,
    readBranches_branches hcount hshort, hlast, readU64_u64]
  rw [if_pos (by rw [List.length_append, length_u64]; omega)]

def branchPage (header : NodeHeader) (separator : Bytes) (left right : UInt64) : Bytes :=
  header.toBytes ++ (branchBytes separator left ++ (u64 right ++
    List.replicate (bodySize - (separator.length + 17)) 0))

def branchChecksum (crc : Crc) (header : NodeHeader) (separator : Bytes) (left right : UInt64) :
    UInt32 :=
  checksum crc (branchPage header separator left right)

theorem branchPage_eq (header : NodeHeader) (separator : Bytes) (left right : UInt64) :
    branchPage header separator left right = internalPage header [separator] [left] right := by
  simp only [branchPage, internalPage, branches, branchesSize, List.zip_cons_cons,
    List.zip_nil_left, List.flatMap_cons, List.flatMap_nil, List.append_nil, List.map_cons,
    List.map_nil, List.sum_cons, List.sum_nil, Nat.add_zero]

theorem branchesSize_le (h : separator.length ≤ 255) : branchesSize [separator] + 8 ≤ bodySize := by
  simp only [branchesSize, List.map_cons, List.map_nil, List.sum_cons, List.sum_nil, bodySize,
    headerSize, pageSize]
  omega

theorem length_branchPage (left right : UInt64) (h : separator.length ≤ 255) :
    (branchPage header separator left right).length = pageSize := by
  rw [branchPage_eq]
  exact length_internalPage right rfl (branchesSize_le h)

theorem toBytes_branch (crc : Crc) (header : NodeHeader) (left right : UInt64)
    (h : separator.length ≤ 255) :
    toBytes crc (.internal ⟨header, [separator], [left, right]⟩) =
      .ok (branchPage { header with checksum := branchChecksum crc header separator left right }
        separator left right) := by
  rw [branchPage_eq, branchChecksum, branchPage_eq]
  exact @toBytes_internal crc header [separator] [left] right rfl (branchesSize_le h)

theorem fromBytes_branchPage (left right : UInt64)
    (hheader : header.IsInternal) (hcount : header.numKeys = 1) (h : separator.length ≤ 255) :
    fromBytes (branchPage header separator left right) =
      .ok (.internal ⟨header, [separator], [left, right]⟩) := by
  have htype : header.getNodeType.map NodeType.baseType = some .internal := by
    rw [NodeHeader.getNodeType, hheader.nodeType]
    rfl
  have hshort : ∀ s ∈ [separator], s.length ≤ 255 := by
    intro s hs
    rw [List.mem_singleton.mp hs]
    exact h
  rw [branchPage_eq]
  exact @fromBytes_internalPage header [separator] [left] right hheader.validate htype
    (by rw [hcount]; rfl) rfl hshort (branchesSize_le h)

end Node

end Northstar.Btree
