import Northstar.Btree.Chain
import Northstar.Btree.Leaf
import Northstar.Btree.Tree

/-!
# Spine — the shape of the trees this code builds

A split always ends in `grow_tree`: the first node popped from the path is the leaf that was split.
So every internal node has one separator and two children, the old root on the left and the new leaf
on the right, and a tree is a chain of such nodes down to page 2.  `Sound` says that every node page
is well formed, `Extends` what a change of the table keeps for all trees in it, and `Spine` names
the chain under a root.
-/

namespace Northstar.Btree

open SortedEntries
open Node (stampLeaf)

def IsLeafAt (d : Disk) (pageId : PageId) : Prop := ∃ leaf, nodeAt d pageId = some (.leaf leaf)

def entriesAt (d : Disk) (pageId : PageId) : List Entry :=
  match nodeAt d pageId with
  | some (.leaf leaf) => leaf.entries
  | _ => []

variable {pageId : PageId} {d : Disk}

theorem entriesAt_eq {leaf : LeafNode}
    (h : nodeAt d pageId = some (.leaf leaf)) : entriesAt d pageId = leaf.entries := by
  rw [entriesAt, h]

variable {d' : Disk}

theorem entriesAt_congr (h : d'.pages pageId = d.pages pageId) :
    entriesAt d' pageId = entriesAt d pageId := by
  rw [entriesAt, entriesAt, nodeAt_congr h]

structure BranchOk (pageId : PageId) (node : InternalNode) : Prop where
  header : node.header.IsInternal
  id : node.header.nodeId = pageId
  count : node.header.numKeys = 1
  shape : ∃ sep left right, node.separators = [sep] ∧ node.children = [left, right] ∧
    sep.length ≤ 255

/-- The left link of a leaf leads to a leaf written before it. -/
def PrevOk (d : Disk) (pageId : PageId) (leaf : LeafNode) : Prop :=
  leaf.prevLeaf = 0 ∨ (d.Owns leaf.prevLeaf ∧ leaf.prevLeaf.toNat < pageId.toNat ∧
    IsLeafAt d leaf.prevLeaf)

inductive NodeOk (d : Disk) (pageId : PageId) : Node → Prop
  | leaf {leaf : LeafNode} (ok : LeafOk pageId leaf) (prev : PrevOk d pageId leaf) :
      NodeOk d pageId (.leaf leaf)
  | internal {node : InternalNode} (ok : BranchOk pageId node) : NodeOk d pageId (.internal node)

/-- Every page of the table that holds a node holds a well-formed one. -/
def Sound (d : Disk) : Prop :=
  ∀ pageId node, d.Owns pageId → nodeAt d pageId = some node → NodeOk d pageId node

theorem Sound.leaf (h : Sound d) {leaf : LeafNode}
    (howns : d.Owns pageId) (hleaf : nodeAt d pageId = some (.leaf leaf)) :
    LeafOk pageId leaf ∧ PrevOk d pageId leaf := by
  cases h pageId _ howns hleaf with
  | leaf ok prev => exact ⟨ok, prev⟩

theorem Sound.internal {d : Disk} (h : Sound d) {node : InternalNode}
    (howns : d.Owns pageId) (hnode : nodeAt d pageId = some (.internal node)) :
    BranchOk pageId node := by
  cases h pageId _ howns hnode with
  | internal ok => exact ok

/-- A node may change its header, and a leaf its entries. -/
inductive SameShape : Node → Node → Prop
  | leaf (a b : LeafNode) : SameShape (.leaf a) (.leaf b)
  | internal (header header' : NodeHeader) (separators : List Bytes) (children : List UInt64) :
      SameShape (.internal ⟨header, separators, children⟩)
        (.internal ⟨header', separators, children⟩)

theorem SameShape.refl (node : Node) : SameShape node node := by
  cases node with
  | internal node => exact .internal ..
  | leaf node => exact .leaf ..

theorem SameShape.trans {a b c : Node} (h : SameShape a b) (h' : SameShape b c) :
    SameShape a c := by
  cases h with
  | leaf => cases h' with | leaf => exact .leaf ..
  | internal => cases h' with | internal => exact .internal ..

structure Extends (d d' : Disk) : Prop where
  grows : d.next.toNat ≤ d'.next.toNat
  overflow : ∀ pageId, d.Owns pageId → nodeAt d pageId = none → d'.pages pageId = d.pages pageId
  nodes : ∀ pageId node, d.Owns pageId → nodeAt d pageId = some node →
    ∃ node', nodeAt d' pageId = some node' ∧ SameShape node node'

namespace Extends

theorem keepsOverflow (h : Extends d d') : KeepsOverflow d d' := ⟨h.grows, h.overflow⟩

theorem owns (h : Extends d d') (howns : d.Owns pageId) :
    d'.Owns pageId := ⟨howns.1, howns.2.trans_le h.grows⟩

theorem isLeafAt (h : Extends d d') (howns : d.Owns pageId)
    (hleaf : IsLeafAt d pageId) : IsLeafAt d' pageId := by
  rcases hleaf with ⟨leaf, hleaf⟩
  rcases h.nodes pageId _ howns hleaf with ⟨node', hnode', hshape⟩
  cases hshape with
  | leaf _ b => exact ⟨b, hnode'⟩

theorem trans {d₁ d₂ d₃ : Disk} (h : Extends d₁ d₂) (h' : Extends d₂ d₃) : Extends d₁ d₃ where
  grows := h.grows.trans h'.grows
  overflow := by
    intro pageId howns hnone
    have hsame := h.overflow pageId howns hnone
    rw [h'.overflow pageId (h.owns howns) (by rw [nodeAt_congr hsame]; exact hnone), hsame]
  nodes := by
    intro pageId node howns hnode
    rcases h.nodes pageId node howns hnode with ⟨node₂, hnode₂, hshape₂⟩
    rcases h'.nodes pageId node₂ (h.owns howns) hnode₂ with ⟨node₃, hnode₃, hshape₃⟩
    exact ⟨node₃, hnode₃, hshape₂.trans hshape₃⟩

theorem of_pages (hgrows : d.next.toNat ≤ d'.next.toNat)
    (hpages : ∀ pageId, d.Owns pageId → d'.pages pageId = d.pages pageId) : Extends d d' where
  grows := hgrows
  overflow := fun pageId howns _ => hpages pageId howns
  nodes := fun pageId node howns hnode =>
    ⟨node, by rw [nodeAt_congr (hpages pageId howns)]; exact hnode, .refl node⟩

end Extends

/-- One page written: `Writes d d' pageId node` is what a node write does to the table. -/
structure Writes (d d' : Disk) (pageId : PageId) (node : Node) : Prop where
  next : d'.next = d.next
  others : ∀ other, other ≠ pageId → d'.pages other = d.pages other
  node : nodeAt d' pageId = some node

theorem Writes.owns {node : Node} (h : Writes d d' pageId node)
    {other : PageId} : d'.Owns other ↔ d.Owns other := by
  rw [Disk.Owns, Disk.Owns, h.next]

theorem Writes.extend {d d' : Disk} {node old : Node}
    (h : Writes d d' pageId node) (hold : nodeAt d pageId = some old)
    (hshape : SameShape old node) : Extends d d' where
  grows := by rw [h.next]
  overflow := by
    intro other _ hnone
    apply h.others
    intro heq
    rw [heq, hold] at hnone
    cases hnone
  nodes := by
    intro other node' _ hnode'
    by_cases heq : other = pageId
    · rw [heq, hold] at hnode'
      cases hnode'
      exact ⟨node, heq ▸ h.node, hshape⟩
    · exact ⟨node', by rw [nodeAt_congr (h.others other heq)]; exact hnode', .refl node'⟩

theorem Writes.extend_fresh {d₀ d d' : Disk} {node : Node}
    (h : Writes d d' pageId node) (hext : Extends d₀ d) (hfresh : ¬ d₀.Owns pageId) :
    Extends d₀ d' where
  grows := by rw [h.next]; exact hext.grows
  overflow := by
    intro other howns hnone
    have hne : other ≠ pageId := fun heq => hfresh (heq ▸ howns)
    rw [h.others other hne, hext.overflow other howns hnone]
  nodes := by
    intro other node' howns hnode'
    have hne : other ≠ pageId := fun heq => hfresh (heq ▸ howns)
    rw [nodeAt_congr (h.others other hne)]
    exact hext.nodes other node' howns hnode'

theorem Sound.write {node : Node} (h : Sound d)
    (hwrite : Writes d d' pageId node) (hok : NodeOk d pageId node)
    (hkind : IsLeafAt d pageId → IsLeafAt d' pageId) : Sound d' := by
  have hleaf : ∀ other, IsLeafAt d other → IsLeafAt d' other := by
    intro other hother
    by_cases heq : other = pageId
    · exact heq ▸ hkind (heq ▸ hother)
    · rcases hother with ⟨leaf, hother⟩
      exact ⟨leaf, by rw [nodeAt_congr (hwrite.others other heq)]; exact hother⟩
  have hkeep : ∀ other node', NodeOk d other node' → NodeOk d' other node' := by
    intro other node' hok'
    cases hok' with
    | internal ok => exact .internal ok
    | leaf ok prev =>
      refine .leaf ok (prev.imp_right fun hprev => ?_)
      exact ⟨hwrite.owns.mpr hprev.1, hprev.2.1, hleaf _ hprev.2.2⟩
  intro other node' howns hnode'
  by_cases heq : other = pageId
  · subst heq
    rw [hwrite.node] at hnode'
    cases hnode'
    exact hkeep _ _ hok
  · rw [nodeAt_congr (hwrite.others other heq)] at hnode'
    exact hkeep _ _ (h other node' (hwrite.owns.mp howns) hnode')

theorem Sound.grow {n : Nat} (h : Sound d) (hgrows : Grows d d' n) : Sound d' := by
  intro pageId node howns hnode
  by_cases hold : d.Owns pageId
  · rw [nodeAt_congr (hgrows.pages pageId hold)] at hnode
    cases h pageId node hold hnode with
    | internal ok => exact .internal ok
    | leaf ok prev =>
      refine .leaf ok (prev.imp_right fun hprev => ?_)
      rcases hprev.2.2 with ⟨leaf, hleaf⟩
      exact ⟨hgrows.owns hprev.1, hprev.2.1, leaf,
        by rw [nodeAt_congr (hgrows.pages _ hprev.1)]; exact hleaf⟩
  · rw [hgrows.fresh pageId howns hold] at hnode
    cases hnode

theorem Grows.extend {d d' : Disk} {n : Nat} (h : Grows d d' n) : Extends d d' :=
  .of_pages (by have := h.next; omega) h.pages

section calls

variable {env : Env} {pager : Pager} {m : MetaState}

theorem run_writeLeaf (h : Shows env pager d m) {leaf : LeafNode}
    (howns : d.Owns pageId) (hok : LeafOk pageId leaf) :
    ∃ pager' d', (Pager.writeBtreeNode env pageId (.leaf leaf)).run pager = .ok () pager' ∧
      Shows env pager' d' m ∧ Writes d d' pageId (.leaf (stampLeaf env.crc leaf)) := by
  rcases Node.fromBytes_toBytes_leaf hok.count hok.encodable hok.used_le env.crc hok.header
    with ⟨bytes, hbytes, hlen, hread⟩
  rcases run_writeBtreeNode h howns hbytes hlen with ⟨pager', hrun, hshows⟩
  refine ⟨pager', _, hrun, hshows, putNode_next .., fun other hne => putNode_pages_ne _ _ _ hne, ?_⟩
  rw [putNode, hbytes]
  exact nodeAt_write_self d hread

theorem LeafOk.stamp {leaf : LeafNode} (h : LeafOk pageId leaf) (crc : Crc) :
    LeafOk pageId (stampLeaf crc leaf) :=
  ⟨h.header.setChecksum _, h.id, h.count, h.sorted, h.encodable, h.fits, h.last⟩

theorem run_writeBranch_header (h : Shows env pager d m) (header : NodeHeader)
    {sep : Bytes} (left right : PageId) (howns : d.Owns pageId) (hheader : header.IsInternal)
    (hcount : header.numKeys = 1) (hsep : sep.length ≤ 255) :
    ∃ pager' d',
      (Pager.writeBtreeNode env pageId (.internal ⟨header, [sep], [left, right]⟩)).run pager =
        .ok () pager' ∧ Shows env pager' d' m ∧
      Writes d d' pageId (.internal
        ⟨{ header with checksum := Node.branchChecksum env.crc header sep left right }, [sep], [left, right]⟩) := by
  have hheader' : ({ header with checksum := Node.branchChecksum env.crc header sep left right }).IsInternal :=
    ⟨hheader.magic, hheader.nodeType, hheader.isRoot, hheader.reserved⟩
  have hbytes := Node.toBytes_branch env.crc header left right hsep
  rcases run_writeBtreeNode h howns hbytes (Node.length_branchPage _ _ hsep)
    with ⟨pager', hrun, hshows⟩
  refine ⟨pager', _, hrun, hshows, putNode_next .., fun other hne => putNode_pages_ne _ _ _ hne, ?_⟩
  rw [putNode, hbytes]
  exact nodeAt_write_self d (Node.fromBytes_branchPage left right hheader' hcount hsep)

theorem run_writeBranch (h : Shows env pager d m) (header : NodeHeader)
    {sep : Bytes} (left right : PageId) (howns : d.Owns pageId) (hheader : header.IsInternal)
    (hid : header.nodeId = pageId) (hcount : header.numKeys = 1) (hsep : sep.length ≤ 255) :
    ∃ pager' d' header',
      (Pager.writeBtreeNode env pageId (.internal ⟨header, [sep], [left, right]⟩)).run pager =
        .ok () pager' ∧ Shows env pager' d' m ∧
      Writes d d' pageId (.internal ⟨header', [sep], [left, right]⟩) ∧
      BranchOk pageId ⟨header', [sep], [left, right]⟩ := by
  rcases run_writeBranch_header h header left right howns hheader hcount hsep
    with ⟨pager', d', hrun, hshows, hwrites⟩
  exact ⟨pager', d', _, hrun, hshows, hwrites,
    ⟨hheader.magic, hheader.nodeType, hheader.isRoot, hheader.reserved⟩, hid, hcount, sep, left, right, rfl, rfl, hsep⟩

end calls

/-- One `grow_tree`: the new root, its separator and the leaf to the right of it. -/
structure Rung where
  root : PageId
  sep : Bytes
  page : PageId
  deriving Repr, DecidableEq

/-- `Spine d root rungs`: the nodes under `root`, from the top.  The pages of a rung are younger than
everything below it. -/
inductive Spine (d : Disk) : PageId → List Rung → Prop
  | base (owns : d.Owns PageId.firstData) (leaf : IsLeafAt d PageId.firstData) :
      Spine d PageId.firstData []
  | rung {rung : Rung} {below : PageId} {header : NodeHeader} {rungs : List Rung}
      (owns : d.Owns rung.root)
      (node : nodeAt d rung.root = some (.internal ⟨header, [rung.sep], [below, rung.page]⟩))
      (leaf : IsLeafAt d rung.page) (older : below.toNat < rung.page.toNat)
      (above : rung.page.toNat < rung.root.toNat) (tail : Spine d below rungs) :
      Spine d rung.root (rung :: rungs)

/-- The leaf the keys are looked up in: the first separator from the top that is not above the
key decides. -/
def route : List Rung → Bytes → PageId
  | [], _ => PageId.firstData
  | rung :: rungs, key => if rung.sep ≤ key then rung.page else route rungs key

namespace Spine

variable {rungs : List Rung} {root : PageId}

theorem owns_root (h : Spine d root rungs) : d.Owns root := by
  cases h with
  | base owns _ => exact owns
  | rung owns _ _ _ _ _ => exact owns

theorem nodeAt_root (h : Spine d root rungs) : ∃ node, nodeAt d root = some node := by
  cases h with
  | base _ leaf =>
    rcases leaf with ⟨leaf, hleaf⟩
    exact ⟨_, hleaf⟩
  | rung _ node _ _ _ _ => exact ⟨_, node⟩

theorem route_leaf (h : Spine d root rungs)
    (key : Bytes) : d.Owns (route rungs key) ∧ IsLeafAt d (route rungs key) := by
  induction h with
  | base owns leaf => exact ⟨owns, leaf⟩
  | @rung rung below header rungs owns node leaf older above tail ih =>
    show d.Owns (if rung.sep ≤ key then rung.page else route rungs key) ∧ _
    rw [route]
    by_cases hle : rung.sep ≤ key
    · rw [if_pos hle]
      have hbelow := tail.owns_root.1
      exact ⟨⟨by omega, above.trans owns.2⟩, leaf⟩
    · rw [if_neg hle]
      exact ih

theorem of_leaf (h : Spine d root rungs)
    (hleaf : IsLeafAt d root) : rungs = [] ∧ root = PageId.firstData := by
  cases h with
  | base _ _ => exact ⟨rfl, rfl⟩
  | rung _ node _ _ _ _ =>
    rcases hleaf with ⟨leaf, hleaf⟩
    rw [node] at hleaf
    cases hleaf

theorem length_lt (h : Spine d root rungs) : rungs.length < root.toNat := by
  induction h with
  | base owns leaf => exact Nat.lt_of_lt_of_le (by decide : 0 < 2) owns.1
  | rung owns node leaf older above tail ih =>
    rw [List.length_cons]
    omega

theorem extend {d d' : Disk} (hext : Extends d d')
    (h : Spine d root rungs) : Spine d' root rungs := by
  induction h with
  | base owns leaf => exact .base (hext.owns owns) (hext.isLeafAt owns leaf)
  | @rung rung below header rungs owns node leaf older above tail ih =>
    have hpage : d.Owns rung.page :=
      ⟨by have := tail.owns_root.1; omega, above.trans owns.2⟩
    rcases hext.nodes _ _ owns node with ⟨node', hnode', hshape⟩
    cases hshape with
    | internal =>
      exact .rung (hext.owns owns) hnode' (hext.isLeafAt hpage leaf) older above ih

end Spine

theorem findChild_branch (header : NodeHeader) (sep key : Bytes) (left right : PageId) :
    (InternalNode.mk header [sep] [left, right]).findChild key =
      .ok (if sep ≤ key then right else left) := by
  unfold InternalNode.findChild position binarySearch
  rcases lt_trichotomy sep key with hlt | heq | hgt
  · simp [hlt, hlt.le]
  · simp [heq]
  · simp [hgt.not_gt, hgt.ne', hgt.not_ge]

/-- What holds at the leaf that a descent leads to holds at the root, if it passes from the chosen child of a
node to the node.  The descent goes right where `right` holds of the separator. -/
theorem Spine.descent {root : PageId} {rungs : List Rung} (h : Spine d root rungs) (right : Bytes → Prop)
    [DecidablePred right] (dest : List Rung → PageId) {σ : Type} (Good : σ → Prop) (Q : Nat → PageId → σ → Prop)
    (hbase : dest [] = PageId.firstData)
    (hrung : ∀ rung rungs, dest (rung :: rungs) = if right rung.sep then rung.page else dest rungs)
    (hleaf : ∀ fuel s, Good s → d.Owns (dest rungs) → IsLeafAt d (dest rungs) → Q (fuel + 1) (dest rungs) s)
    (hstep : ∀ fuel s pageId header sep below page, Good s → d.Owns pageId →
      nodeAt d pageId = some (.internal ⟨header, [sep], [below, page]⟩) →
      ∃ t, Good t ∧ (Q fuel (if right sep then page else below) t → Q (fuel + 1) pageId s))
    {fuel : Nat} (hfuel : rungs.length < fuel) {s : σ} (hs : Good s) : Q fuel root s := by
  induction h generalizing fuel s with
  | base owns leaf =>
    cases fuel with
    | zero => exact absurd hfuel (Nat.not_lt_zero _)
    | succ fuel =>
      rw [hbase] at hleaf
      exact hleaf fuel s hs owns leaf
  | @rung rung below header rungs owns node leaf older above tail ih =>
    cases fuel with
    | zero => exact absurd hfuel (Nat.not_lt_zero _)
    | succ fuel =>
      rw [List.length_cons] at hfuel
      rcases hstep fuel s _ _ _ _ _ hs owns node with ⟨t, ht, hlift⟩
      apply hlift
      rw [hrung] at hleaf
      by_cases hright : right rung.sep
      · rw [if_pos hright] at hleaf ⊢
        have hpage : d.Owns rung.page := ⟨by have := tail.owns_root.1; omega, above.trans owns.2⟩
        cases fuel with
        | zero => omega
        | succ fuel => exact hleaf fuel t ht hpage leaf
      · rw [if_neg hright] at hleaf ⊢
        exact ih hleaf (by omega) ht

/-- The leaf page a descent ends in, read off the table. -/
def descend (d : Disk) (key : Bytes) : Nat → PageId → Option PageId
  | 0, _ => none
  | fuel + 1, current =>
    match nodeAt d current with
    | some (.internal node) =>
      match node.findChild key with
      | .ok child => descend d key fuel child
      | .error _ => none
    | some (.leaf _) => some current
    | none => none

/-- `descend` with the fuel of the tree operations. -/
def leafPage (d : Disk) (root : PageId) (key : Bytes) : Option PageId :=
  descend d key d.next.toNat root

theorem Spine.descend {root : PageId} {rungs : List Rung} (h : Spine d root rungs)
    (key : Bytes) {fuel : Nat} (hfuel : rungs.length < fuel) :
    descend d key fuel root = some (route rungs key) := by
  refine h.descent (· ≤ key) (route · key) (fun _ : Unit => True)
    (fun fuel pageId _ => Northstar.Btree.descend d key fuel pageId = some (route rungs key)) rfl (fun _ _ => rfl)
    ?_ ?_ hfuel (s := ()) trivial
  · intro fuel _ _ _ ⟨leaf, hleaf⟩
    rw [Northstar.Btree.descend, hleaf]
  · intro fuel _ pageId header sep below page _ _ hnode
    refine ⟨(), trivial, fun hchild => ?_⟩
    rw [Northstar.Btree.descend, hnode]
    simp only [findChild_branch]
    exact hchild

theorem Spine.leafPage {root : PageId} {rungs : List Rung} (h : Spine d root rungs)
    (key : Bytes) : leafPage d root key = some (route rungs key) := by
  apply h.descend
  exact h.length_lt.trans h.owns_root.2

end Northstar.Btree
