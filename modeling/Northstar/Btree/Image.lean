import Mathlib.Data.UInt
import Northstar.Btree.Leaf

/-!
# Image — nodes and page images

`Node::to_bytes` and `Node::from_bytes` on every node whose header is valid, of a root or not.  A page
image is the header, the body and zeros; the checksum is put in last, over bytes that are not read for
anything else.  So a node is what its image says, up to the checksum, and two nodes with one image
differ in nothing but the checksum.
-/

namespace Northstar.Btree

open Bytes

def NodeHeader.kind (h : NodeHeader) : Option NodeType := h.getNodeType.map NodeType.baseType

theorem NodeHeader.validate_nodeId {h : NodeHeader} {pageId : PageId}
    (hvalid : h.validate pageId = .ok ()) : h.validate h.nodeId = .ok () := by
  unfold NodeHeader.validate at hvalid ⊢
  rcases Except.guard_eq_ok_iff.mp hvalid with ⟨hmagic, hrest⟩
  rw [if_neg hmagic]
  cases htype : NodeType.fromU8 h.nodeType with
  | none => simp [htype] at hrest
  | some nodeType =>
    simp only [htype, Except.guard_eq_ok_iff] at hrest ⊢
    rcases hrest with ⟨hroot, hparent, hlevel, hreserved, -, -⟩
    exact ⟨hroot, hparent, hlevel, hreserved, not_not.mpr rfl, trivial⟩

namespace Node

/-- The counts agree, the lengths fit their fields, and the body fits the page. -/
def Counted : Node → Prop
  | .leaf node => node.header.numKeys.toNat = node.entries.length ∧
      (∀ e ∈ node.entries, e.key.length ≤ 255) ∧ LeafNode.used node.entries + 16 ≤ bodySize
  | .internal node => node.header.numKeys.toNat = node.separators.length ∧
      node.children.length = node.separators.length + 1 ∧
      (∀ s ∈ node.separators, s.length ≤ 255) ∧ branchesSize node.separators + 8 ≤ bodySize

/-- The type a header of this node has to name. -/
def ownKind : Node → NodeType
  | .leaf _ => .leaf
  | .internal _ => .internal

structure Storable (n : Node) : Prop where
  valid : ∃ pageId, n.header.validate pageId = .ok ()
  kind : n.header.kind = some n.ownKind
  counted : n.Counted

def withChecksum (c : UInt32) (n : Node) : Node := n.setHeader { n.header with checksum := c }

/-- What follows the header in the page of a node. -/
def body : Node → Bytes
  | .leaf node => node.entries.flatMap entryBytes ++
      (List.replicate (bodySize - 16 - LeafNode.used node.entries) 0 ++
        (u64 node.nextLeaf ++ u64 node.prevLeaf))
  | .internal node => branches node.separators node.children.dropLast ++
      (u64 (node.children.getLastD 0) ++
        List.replicate (bodySize - (branchesSize node.separators + 8)) 0)

/-- The page of a node with the checksum its header has. -/
def image (n : Node) : Bytes := n.header.toBytes ++ n.body

/-- The node is read back from the page it is written to, with the checksum of the page. -/
def RoundTrips (crc : Crc) (n : Node) : Prop :=
  ∃ page c, toBytes crc n = .ok page ∧ fromBytes page = .ok (n.withChecksum c)

def SameButChecksum (page page' : Bytes) : Prop :=
  page.take 28 = page'.take 28 ∧ page.drop 32 = page'.drop 32

@[simp] theorem withChecksum_withChecksum (c c' : UInt32) (n : Node) :
    (n.withChecksum c).withChecksum c' = n.withChecksum c' := by
  cases n
  · rfl
  · rfl

variable {n : Node}

theorem Storable.withChecksum (h : Storable n) (c : UInt32) : Storable (n.withChecksum c) := by
  rcases h with ⟨hvalid, hkind, hcounted⟩
  cases n with
  | leaf node => exact ⟨hvalid, hkind, hcounted⟩
  | internal node => exact ⟨hvalid, hkind, hcounted⟩

theorem body_withChecksum (n : Node) (c : UInt32) : (n.withChecksum c).body = n.body := by
  cases n
  · rfl
  · rfl

theorem header_withChecksum (n : Node) (c : UInt32) :
    (n.withChecksum c).header = { n.header with checksum := c } := by
  cases n
  · rfl
  · rfl

theorem image_eq (n : Node) :
    n.image = n.header.front ++ (u32 n.header.checksum ++ (n.header.back ++ n.body)) := by
  unfold image
  simp only [NodeHeader.toBytes, List.append_assoc]

theorem take_image (n : Node) : n.image.take 28 = n.header.front := by
  rw [image_eq, List.take_left' (NodeHeader.length_front _)]

theorem drop_image (n : Node) : n.image.drop 32 = n.header.back ++ n.body := by
  rw [image_eq, show 32 = 28 + 4 from rfl, ← List.drop_drop,
    List.drop_left' (NodeHeader.length_front _), List.drop_left' (length_u32 _)]

theorem sameButChecksum_withChecksum (n : Node) (c : UInt32) :
    SameButChecksum (n.withChecksum c).image n.image := by
  constructor
  · rw [take_image, take_image, header_withChecksum]
    rfl
  · rw [drop_image, drop_image, header_withChecksum, body_withChecksum]
    rfl

theorem image_withChecksum (n : Node) (c : UInt32) :
    (n.withChecksum c).image = n.image.take 28 ++ (u32 c ++ n.image.drop 32) := by
  rw [image_eq, take_image, drop_image, header_withChecksum, body_withChecksum]
  rfl

theorem image_eq_of_same {m : Node} (h : SameButChecksum n.image m.image) (c : UInt32) :
    (n.withChecksum c).image = (m.withChecksum c).image := by
  rw [image_withChecksum, image_withChecksum, h.1, h.2]

theorem encodable_of_used {entries : List Entry} (hkeys : ∀ e ∈ entries, e.key.length ≤ 255)
    (hfits : LeafNode.used entries + 16 ≤ bodySize) : ∀ e ∈ entries, Encodable e := by
  intro e he
  refine ⟨hkeys e he, ?_⟩
  have hone := LeafNode.used_le_of_sublist (List.singleton_sublist.mpr he)
  rw [LeafNode.used_cons, LeafNode.used_nil, Entry.serializedSize] at hone
  simp only [bodySize, pageSize, headerSize] at hfits
  omega

theorem exists_children {children : List UInt64} {n : Nat} (h : children.length = n + 1) :
    children.dropLast.length = n ∧ children.dropLast ++ [children.getLastD 0] = children := by
  have hne : children ≠ [] := List.ne_nil_of_length_pos (by omega)
  refine ⟨by rw [List.length_dropLast, h]; rfl, ?_⟩
  rw [List.getLastD_eq_getLast?, List.getLast?_eq_some_getLast hne]
  exact List.dropLast_append_getLast hne

theorem toBytes_eq_image (crc : Crc) (h : n.Counted) :
    toBytes crc n = .ok (n.withChecksum (checksum crc n.image)).image := by
  cases n with
  | leaf node => exact toBytes_leaf crc (Nat.le_sub_of_add_le h.2.2)
  | internal node =>
    rcases h with ⟨-, hchildren, -, hfits⟩
    rcases exists_children hchildren with ⟨hcount, hsplit⟩
    have hwrite := toBytes_internal crc node.header (node.children.getLastD 0) hcount hfits
    rw [hsplit] at hwrite
    exact hwrite

theorem Storable.fromBytes_image (h : Storable n) : fromBytes n.image = .ok n := by
  rcases h.valid with ⟨pageId, hvalid⟩
  have hown := NodeHeader.validate_nodeId hvalid
  have hkind := h.kind
  have hcounted := h.counted
  cases n with
  | leaf node =>
    rcases hcounted with ⟨hcount, hkeys, hfits⟩
    exact fromBytes_leafPage_of_valid hcount (encodable_of_used hkeys hfits) (Nat.le_sub_of_add_le hfits) hown hkind
  | internal node =>
    rcases hcounted with ⟨hnum, hchildren, hshort, hfits⟩
    rcases exists_children hchildren with ⟨hcount, hsplit⟩
    have hread := fromBytes_internalPage (node.children.getLastD 0) hown hkind hnum hcount hshort
      hfits
    rw [hsplit] at hread
    exact hread

/-- A node comes back from its page as it was but for the checksum, and two nodes with pages that are
the same but for the checksum are the same but for the checksum. -/
theorem page_codec (crc : Crc) : (∀ n : Node, Storable n → RoundTrips crc n) ∧
    ∀ (n m : Node) (page page' : Bytes), Storable n → Storable m →
      toBytes crc n = .ok page → toBytes crc m = .ok page' → SameButChecksum page page' →
      n.withChecksum 0 = m.withChecksum 0 := by
  constructor
  · intro n h
    exact ⟨_, _, toBytes_eq_image crc h.counted, (h.withChecksum _).fromBytes_image⟩
  · intro n m page page' hn hm hpage hpage' hsame
    rw [toBytes_eq_image crc hn.counted] at hpage
    rw [toBytes_eq_image crc hm.counted] at hpage'
    cases hpage
    cases hpage'
    have himage := image_eq_of_same hsame 0
    rw [withChecksum_withChecksum, withChecksum_withChecksum] at himage
    have hread := (hn.withChecksum 0).fromBytes_image
    rw [himage, (hm.withChecksum 0).fromBytes_image] at hread
    exact (Except.ok.inj hread).symm

/-- A sum that depends on every byte and on its place. -/
def placeSum : Crc := fun start data => data.foldl (fun crc byte => crc * 31 + byte.toUInt32) start

def twoEntryLeaf : LeafNode :=
  ⟨{ (LeafNode.new 3).header with numKeys := 2 }, [⟨[1], [9], 5⟩, ⟨[2], [], 6⟩], 4, 0⟩

theorem page_codec_two_nodes : RoundTrips placeSum (.leaf twoEntryLeaf) ∧
      RoundTrips placeSum (.internal ⟨{ NodeHeader.new .internal 5 1 with numKeys := 1 }, [[2]], [3, 4]⟩) :=
  ⟨(page_codec placeSum).1 _ ⟨⟨3, rfl⟩, rfl, rfl, by decide, by decide⟩,
    (page_codec placeSum).1 _ ⟨⟨5, rfl⟩, rfl, rfl, rfl, by decide, by decide⟩⟩

theorem readBranches_short {n : Nat} {rest rest' : Bytes} {separators : List Bytes}
    {children : List UInt64} (h : readBranches n rest = .ok (separators, children, rest')) :
    ∀ s ∈ separators, s.length ≤ 255 := by
  induction n generalizing rest rest' separators children with
  | zero =>
    cases h
    exact fun s hs => nomatch hs
  | succ n ih =>
    rcases Except.bind_eq_ok_iff.mp h with ⟨⟨len, r₁⟩, -, h⟩
    rcases Except.bind_eq_ok_iff.mp h with ⟨⟨sep, r₂⟩, hsep, h⟩
    rcases Except.bind_eq_ok_iff.mp h with ⟨⟨child, r₃⟩, -, h⟩
    rcases Except.bind_eq_ok_iff.mp h with ⟨⟨seps, cs, r₄⟩, htail, h⟩
    cases h
    have hlen : sep.length ≤ 255 := by
      unfold slice at hsep
      by_cases hle : len.toNat ≤ r₁.length
      · rw [if_pos hle] at hsep
        cases hsep
        rw [List.length_take]
        have hbyte := len.toNat_lt
        omega
      · rw [if_neg hle] at hsep
        cases hsep
    intro s hs
    rcases List.mem_cons.mp hs with rfl | hs
    · exact hlen
    · exact ih htail s hs

/-- The reader has checked the header and its type, and a length of one byte is at most 255. -/
theorem of_fromBytes {page : Bytes} (h : fromBytes page = .ok n) :
    n.header.validate n.header.nodeId = .ok () ∧ n.header.kind = some n.ownKind ∧
      ∀ node, n = .internal node → ∀ s ∈ node.separators, s.length ≤ 255 := by
  unfold fromBytes at h
  rcases Except.guard_eq_ok_iff.mp h with ⟨-, h⟩
  rcases Except.bind_eq_ok_iff.mp h with ⟨_, hvalid, h⟩
  have hvalid : (NodeHeader.read page).validate (NodeHeader.read page).nodeId = .ok () := by
    cases hcheck : (NodeHeader.read page).validate (NodeHeader.read page).nodeId with
    | ok _ => rfl
    | error e =>
      rw [hcheck] at hvalid
      cases hvalid
  cases hkind : (NodeHeader.read page).getNodeType.map NodeType.baseType with
  | none => simp [hkind] at h
  | some kind =>
    cases kind with
    | internal =>
      simp only [hkind] at h
      rcases Except.bind_eq_ok_iff.mp h with ⟨⟨separators, children, rest⟩, hbranches, h⟩
      cases h
      refine ⟨hvalid, hkind, ?_⟩
      intro node hnode
      cases hnode
      exact readBranches_short hbranches
    | leaf =>
      simp only [hkind] at h
      rcases Except.bind_eq_ok_iff.mp h with ⟨entries, -, h⟩
      rcases Except.bind_eq_ok_iff.mp h with ⟨_, -, h⟩
      rcases Except.bind_eq_ok_iff.mp h with ⟨_, -, h⟩
      cases h
      exact ⟨hvalid, hkind, fun node hnode => nomatch hnode⟩
    | rootInternal => simp [hkind] at h
    | rootLeaf => simp [hkind] at h

theorem RoundTrips.header {crc : Crc} (h : RoundTrips crc n) :
    n.header.validate n.header.nodeId = .ok () ∧ n.header.kind = some n.ownKind ∧
      ∀ node, n = .internal node → ∀ s ∈ node.separators, s.length ≤ 255 := by
  rcases h with ⟨page, c, -, hread⟩
  rcases of_fromBytes hread with ⟨hvalid, hkind, hshort⟩
  cases n with
  | leaf node => exact ⟨hvalid, hkind, fun node hnode => nomatch hnode⟩
  | internal node =>
    refine ⟨hvalid, hkind, ?_⟩
    intro node' hnode
    cases hnode
    exact hshort { node with header := { node.header with checksum := c } } rfl

/-- Without one of the conditions there are nodes that do not come back: a leaf whose header names an
internal node, an internal node whose header is not valid or names a leaf, a separator of 256 bytes.
Two nodes with different stored checksums have one page. -/
theorem page_codec_conditions :
    (¬ ∀ (crc : Crc) (node : LeafNode), (∃ pageId, node.header.validate pageId = .ok ()) →
      Counted (.leaf node) → RoundTrips crc (.leaf node)) ∧
    (¬ ∀ (crc : Crc) (node : InternalNode), Counted (.internal node) →
      RoundTrips crc (.internal node)) ∧
    (¬ ∀ (crc : Crc) (node : InternalNode), (∃ pageId, node.header.validate pageId = .ok ()) →
      Counted (.internal node) → RoundTrips crc (.internal node)) ∧
    (¬ ∀ (crc : Crc) (node : InternalNode), (∃ pageId, node.header.validate pageId = .ok ()) →
      node.header.kind = some .internal → node.header.numKeys.toNat = node.separators.length →
      node.children.length = node.separators.length + 1 →
      branchesSize node.separators + 8 ≤ bodySize → RoundTrips crc (.internal node)) ∧
    ¬ ∀ (crc : Crc) (n m : Node) (page page' : Bytes), Storable n → Storable m →
      toBytes crc n = .ok page → toBytes crc m = .ok page' → SameButChecksum page page' →
      n = m := by
  have hcounted : ∀ header : NodeHeader, header.numKeys = 0 → Counted (.internal ⟨header, [], [5]⟩) := by
    intro header hnum
    refine ⟨by show header.numKeys.toNat = 0; rw [hnum]; rfl, rfl, (fun s hs => absurd hs List.not_mem_nil), ?_⟩
    show 0 + 8 ≤ bodySize
    decide
  refine ⟨fun h => ?_, fun h => ?_, fun h => ?_, fun h => ?_, fun h => ?_⟩
  · have htrip := h (fun _ => 0) ⟨NodeHeader.new .internal 3 0, [], 0, 0⟩ ⟨3, rfl⟩
      ⟨rfl, (fun e he => absurd he List.not_mem_nil), by show 0 + 16 ≤ bodySize; decide⟩
    exact absurd htrip.header.2.1 (by decide)
  · have htrip := h (fun _ => 0) ⟨{ NodeHeader.new .internal 3 1 with magic := 0 }, [], [5]⟩
      (hcounted _ rfl)
    exact absurd htrip.header.1 (by decide)
  · have htrip := h (fun _ => 0) ⟨NodeHeader.new .leaf 3 0, [], [5]⟩ ⟨3, rfl⟩ (hcounted _ rfl)
    exact absurd htrip.header.2.1 (by decide)
  · have hsize (n : Nat) : branchesSize [List.replicate n (0 : UInt8)] = n + 9 := by
      simp [branchesSize]
    have htrip := h (fun _ => 0) ⟨{ NodeHeader.new .internal 3 1 with numKeys := 1 },
      [List.replicate 256 0], [5, 6]⟩ ⟨3, rfl⟩ rfl rfl rfl (by rw [hsize]; decide)
    have hshort := htrip.header.2.2 _ rfl _ (List.mem_singleton.mpr rfl)
    rw [List.length_replicate] at hshort
    omega
  · let n : Node := .leaf (LeafNode.new 3)
    have hn : Storable n := by
      refine ⟨⟨3, rfl⟩, rfl, rfl, (fun e he => absurd he List.not_mem_nil), ?_⟩
      show 0 + 16 ≤ bodySize
      decide
    have hstamped := (hn.withChecksum 1)
    have hwrite := toBytes_eq_image (fun _ => 0) hn.counted
    have hwrite' := toBytes_eq_image (fun _ => 0) hstamped.counted
    have hsame : SameButChecksum (n.withChecksum (checksum (fun _ => 0) n.image)).image
        ((n.withChecksum 1).withChecksum (checksum (fun _ => 0) (n.withChecksum 1).image)).image := by
      rw [withChecksum_withChecksum]
      have hleft := sameButChecksum_withChecksum n (checksum (fun _ => 0) n.image)
      have hright := sameButChecksum_withChecksum n (checksum (fun _ => 0) (n.withChecksum 1).image)
      exact ⟨hleft.1.trans hright.1.symm, hleft.2.trans hright.2.symm⟩
    have heq := h (fun _ => 0) n (n.withChecksum 1) _ _ hn hstamped hwrite hwrite' hsame
    have hsum := congrArg (fun n => n.header.checksum) heq
    exact absurd hsum (by decide)

end Node

end Northstar.Btree
