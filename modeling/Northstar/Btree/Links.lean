import Northstar.Btree.Search

/-!
# Links — trees whose leaves name their siblings

No operation links a leaf to its right sibling, but the nodes have room for both links, and deletion follows them.
So this is about every tree with keys in order along its links, and not only about the spines that puts make.
-/

namespace Northstar.Btree

open SortedEntries EStateM
open Node (stampLeaf Encodable)

/-- The leaf as it would be at the end of the tree: what is known of such leaves is known of its entries. -/
def LeafNode.unlinked (node : LeafNode) : LeafNode := { node with nextLeaf := 0 }

namespace LeafNode

theorem remove_unlinked (node : LeafNode) (key : Bytes) :
    node.unlinked.remove key = ((node.remove key).1, (node.remove key).2.unlinked) ∧
      (node.remove key).2.nextLeaf = node.nextLeaf := by
  show (LeafNode.remove ⟨node.header, node.entries, 0, node.prevLeaf⟩ key) = _ ∧ _
  unfold LeafNode.remove
  dsimp only
  cases binarySearch Entry.key key node.entries with
  | error pos => exact ⟨rfl, rfl⟩
  | ok pos =>
    dsimp only
    cases node.entries[pos]? with
    | none => exact ⟨rfl, rfl⟩
    | some entry => exact ⟨rfl, rfl⟩

theorem insert_unlinked (node : LeafNode) (entry : Entry) :
    node.unlinked.insert entry = (node.insert entry).map fun r => (r.1, r.2.unlinked) := by
  show (LeafNode.insert ⟨node.header, node.entries, 0, node.prevLeaf⟩ entry) = _
  unfold LeafNode.insert
  dsimp only
  by_cases hspace : ¬ node.header.hasSpace entry.serializedSize = true
  · rw [if_pos hspace, if_pos hspace]
    rfl
  · rw [if_neg hspace, if_neg hspace]
    cases node.entries[position Entry.key entry.key node.entries]? with
    | none => rfl
    | some old =>
      dsimp only
      by_cases hkey : old.key = entry.key
      · rw [if_pos hkey, if_pos hkey]
        rfl
      · rw [if_neg hkey, if_neg hkey]
        rfl

theorem insertAll_unlinked (node : LeafNode) (xs : List Entry) :
    node.unlinked.insertAll xs = (node.insertAll xs).map LeafNode.unlinked := by
  induction xs generalizing node with
  | nil => rfl
  | cons e xs ih =>
    rw [LeafNode.insertAll, LeafNode.insertAll, insert_unlinked]
    cases node.insert e with
    | error e => rfl
    | ok r => exact ih r.2

theorem deleteFromLeaf_unlinked (node : LeafNode) (key : Bytes) :
    deleteFromLeaf node.unlinked key = ((deleteFromLeaf node key).1, (deleteFromLeaf node key).2.unlinked) ∧
      (deleteFromLeaf node key).2.nextLeaf = node.nextLeaf := by
  obtain ⟨hremove, hnext⟩ := node.remove_unlinked key
  unfold deleteFromLeaf
  rw [hremove]
  cases hremoved : node.remove key with
  | mk removed left =>
    rw [hremoved] at hnext
    dsimp only at hnext ⊢
    by_cases hunder : (removed.isSome && left.header.isUnderfull calculateMinLeafEntries) = true
    · rw [if_pos hunder]
      exact ⟨if_pos hunder, hnext⟩
    · rw [if_neg hunder]
      exact ⟨if_neg hunder, hnext⟩

end LeafNode

variable {pageId : PageId}

theorem deleteFromLeaf_linked {node : LeafNode} (h : LeafOk pageId node.unlinked) (key : Bytes) :
    ∃ result left, deleteFromLeaf node key = (result, left) ∧ left.nextLeaf = node.nextLeaf ∧
      Removed pageId node.unlinked left.unlinked key := by
  obtain ⟨hunlinked, hnext⟩ := node.deleteFromLeaf_unlinked key
  obtain ⟨result', left', hdelete, hremoved⟩ := deleteFromLeaf_removed h key
  rw [hdelete] at hunlinked
  cases hcall : deleteFromLeaf node key with
  | mk result left =>
    rw [hcall] at hunlinked hnext
    cases hunlinked
    exact ⟨result, left, rfl, hnext, hremoved⟩

theorem LeafOk.find_unlinked {node : LeafNode} (h : LeafOk pageId node.unlinked) (key : Bytes) :
    node.find key = lookup Entry.key key node.entries := find_eq_lookup h key

variable {leaf : LeafNode}

theorem LeafOk.stamp_linked (h : LeafOk pageId leaf.unlinked) (crc : Crc) :
    LeafOk pageId (stampLeaf crc leaf).unlinked :=
  ⟨h.header.setChecksum _, h.id, h.count, h.sorted, h.encodable, h.fits, rfl⟩

/-- What `to_bytes` needs of a leaf to be read back. -/
structure Writable (leaf : LeafNode) : Prop where
  header : leaf.header.IsLeaf
  count : leaf.header.numKeys.toNat = leaf.entries.length
  encodable : ∀ e ∈ leaf.entries, Encodable e
  fits : LeafNode.used leaf.entries ≤ leafCapacity

theorem LeafOk.writable (h : LeafOk pageId leaf.unlinked) : Writable leaf :=
  ⟨h.header, h.count, h.encodable, h.used_le⟩

theorem Writable.relink (h : Writable leaf) (nextLeaf prevLeaf : PageId) :
    Writable { leaf with nextLeaf, prevLeaf } :=
  ⟨h.header, h.count, h.encodable, h.fits⟩

/-- An insertion that works keeps the leaf well formed; entries that come in order go to the end. -/
theorem LeafOk.insertAll_eq_ok {xs : List Entry} {node node' : LeafNode} (h : LeafOk pageId node)
    (hsorted : Sorted Entry.key (node.entries ++ xs)) (hxs : ∀ e ∈ xs, Encodable e)
    (hcall : node.insertAll xs = .ok node') : LeafOk pageId node' ∧ node'.entries = node.entries ++ xs := by
  induction xs generalizing node with
  | nil =>
    cases hcall
    exact ⟨h, (List.append_nil _).symm⟩
  | cons e xs ih =>
    rw [LeafNode.insertAll] at hcall
    by_cases hspace : node.header.hasSpace e.serializedSize = true
    · have hfirst : ∀ p ∈ node.entries, p.key < e.key := (sorted_around hsorted).1
      have hfree : e.serializedSize ≤ node.header.freeSpace.toNat := by simpa [NodeHeader.hasSpace] using hspace
      have hinserted := h.insertNew (List.append_nil _).symm hfirst (fun _ hs => absurd hs List.not_mem_nil) hfree
        (hxs e (List.mem_cons_self ..))
      have hentries : (node.insertNew node.entries.length e).entries = node.entries ++ [e] :=
        List.insertIdx_length_self
      rw [h.insert_last hfirst hfree] at hcall
      have hrest := ih hinserted.ok (by rw [hentries, List.append_assoc]; exact hsorted)
        (fun x hx => hxs x (List.mem_cons_of_mem _ hx)) hcall
      rw [hentries, List.append_assoc] at hrest
      exact hrest
    · rw [insert_eq_error (by simpa using hspace)] at hcall
      cases hcall

/-- Leaves may change and stay leaves; no other page does. -/
structure LeafWrites (d d' : Disk) : Prop where
  next : d'.next = d.next
  others : ∀ pageId, ¬ IsLeafAt d pageId → d'.pages pageId = d.pages pageId
  leaves : ∀ pageId, IsLeafAt d pageId → IsLeafAt d' pageId

theorem Writes.leafWrites {d d' : Disk} (h : Writes d d' pageId (.leaf leaf))
    (hleaf : IsLeafAt d pageId) : LeafWrites d d' where
  next := h.next
  others := fun other hother => h.others other fun heq => hother (heq ▸ hleaf)
  leaves := by
    intro other hother
    by_cases heq : other = pageId
    · exact ⟨leaf, heq ▸ h.node⟩
    · obtain ⟨old, hold⟩ := hother
      exact ⟨old, by rw [nodeAt_congr (h.others other heq)]; exact hold⟩

namespace LeafWrites

variable {d d' d'' : Disk}

theorem refl (d : Disk) : LeafWrites d d := ⟨rfl, fun _ _ => rfl, fun _ h => h⟩

theorem isLeafAt_iff (h : LeafWrites d d') : IsLeafAt d' pageId ↔ IsLeafAt d pageId := by
  constructor
  · intro hleaf
    by_contra hnot
    obtain ⟨leaf, hleaf⟩ := hleaf
    apply hnot
    exact ⟨leaf, by rw [← nodeAt_congr (h.others pageId hnot)]; exact hleaf⟩
  · exact h.leaves pageId

theorem trans (h : LeafWrites d d') (h' : LeafWrites d' d'') : LeafWrites d d'' where
  next := h'.next.trans h.next
  others := by
    intro pageId hnot
    rw [h'.others pageId fun hleaf => hnot (h.isLeafAt_iff.mp hleaf), h.others pageId hnot]
  leaves := fun pageId hleaf => h'.leaves pageId (h.leaves pageId hleaf)

theorem owns (h : LeafWrites d d') : d'.Owns pageId ↔ d.Owns pageId := by
  rw [Disk.Owns, Disk.Owns, h.next]

theorem nodeAt_internal (h : LeafWrites d d') {node : InternalNode} :
    nodeAt d' pageId = some (.internal node) ↔ nodeAt d pageId = some (.internal node) := by
  have hnot : ∀ {e : Disk}, nodeAt e pageId = some (.internal node) → ¬ IsLeafAt e pageId := by
    rintro e hnode ⟨leaf, hleaf⟩
    rw [hnode] at hleaf
    cases hleaf
  constructor
  · intro hnode
    have hpage := h.others pageId fun hleaf => hnot hnode (h.isLeafAt_iff.mpr hleaf)
    rw [← nodeAt_congr hpage]
    exact hnode
  · intro hnode
    rw [nodeAt_congr (h.others pageId (hnot hnode))]
    exact hnode

theorem keepsOverflow (h : LeafWrites d d') : KeepsOverflow d d' where
  grows := by rw [h.next]
  pages := by
    intro pageId _ hnone
    apply h.others
    rintro ⟨leaf, hleaf⟩
    rw [hnone] at hleaf
    cases hleaf

theorem descend (h : LeafWrites d d') (key : Bytes) (fuel : Nat) (root : PageId) :
    descend d' key fuel root = descend d key fuel root := by
  induction fuel generalizing root with
  | zero => rfl
  | succ fuel ih =>
    rw [Northstar.Btree.descend, Northstar.Btree.descend]
    by_cases hleaf : IsLeafAt d root
    · obtain ⟨leaf', hleaf'⟩ := h.leaves root hleaf
      obtain ⟨leaf, hleaf⟩ := hleaf
      rw [hleaf', hleaf]
    · rw [nodeAt_congr (h.others root hleaf)]
      cases hnode : nodeAt d root with
      | none => rfl
      | some node =>
        cases node with
        | leaf leaf => exact absurd ⟨leaf, hnode⟩ hleaf
        | internal node =>
          dsimp only
          cases node.findChild key with
          | error e => rfl
          | ok child => exact ih child

theorem leafPage (h : LeafWrites d d') (root : PageId) (key : Bytes) : leafPage d' root key = leafPage d root key := by
  rw [Northstar.Btree.leafPage, Northstar.Btree.leafPage, h.next]
  exact h.descend key _ root

theorem reachable (h : LeafWrites d d') {root pageId : PageId} (hreach : Reachable d' root pageId) :
    Reachable d root pageId := by
  induction hreach with
  | root => exact .root
  | child _ hnode hchild ih => exact .child ih (h.nodeAt_internal.mp hnode) hchild

end LeafWrites

variable {fuel : Nat} {root : PageId} {key : Bytes} {d : Disk}

theorem descend_mono {more : Nat} (hle : fuel ≤ more)
    (h : descend d key fuel root = some pageId) : descend d key more root = some pageId := by
  induction fuel generalizing root more with
  | zero => cases h
  | succ fuel ih =>
    cases more with
    | zero => omega
    | succ more =>
      rw [descend] at h ⊢
      cases hnode : nodeAt d root with
      | none =>
        rw [hnode] at h
        cases h
      | some node =>
        rw [hnode] at h
        cases node with
        | leaf leaf => exact h
        | internal node =>
          dsimp only at h ⊢
          cases hchild : node.findChild key with
          | error e =>
            rw [hchild] at h
            cases h
          | ok child =>
            rw [hchild] at h
            exact ih (Nat.le_of_succ_le_succ hle) h

theorem mem_children_of_findChild {node : InternalNode} {child : PageId}
    (h : node.findChild key = .ok child) : child ∈ node.children := by
  unfold InternalNode.findChild at h
  dsimp only at h
  split at h
  · next hget =>
    cases h
    exact List.mem_of_getElem? hget
  · cases h

theorem descend_succ (h : descend d key (fuel + 1) root = some pageId) :
    (pageId = root ∧ IsLeafAt d root) ∨ ∃ node child, nodeAt d root = some (.internal node) ∧
      node.findChild key = .ok child ∧ descend d key fuel child = some pageId := by
  rw [descend] at h
  cases hnode : nodeAt d root with
  | none =>
    rw [hnode] at h
    cases h
  | some node =>
    rw [hnode] at h
    cases node with
    | leaf leaf =>
      cases h
      exact Or.inl ⟨rfl, leaf, hnode⟩
    | internal node =>
      dsimp only at h
      cases hchild : node.findChild key with
      | error e =>
        rw [hchild] at h
        cases h
      | ok child =>
        rw [hchild] at h
        exact Or.inr ⟨node, child, rfl, hchild, h⟩

theorem reachable_of_descend
    (h : descend d key fuel root = some pageId) : Reachable d root pageId ∧ IsLeafAt d pageId := by
  induction fuel generalizing root with
  | zero => cases h
  | succ fuel ih =>
    rcases descend_succ h with ⟨rfl, hleaf⟩ | ⟨node, child, hnode, hchild, hrest⟩
    · exact ⟨.root, hleaf⟩
    · obtain ⟨hreach, hleaf⟩ := ih hrest
      exact ⟨hreach.of_child hnode (mem_children_of_findChild hchild), hleaf⟩

theorem leafFor_eq_some : leafFor d root key = some (pageId, leaf) ↔
      leafPage d root key = some pageId ∧ nodeAt d pageId = some (.leaf leaf) := by
  unfold leafFor
  cases hpage : leafPage d root key with
  | none => exact ⟨nofun, fun h => nomatch h.1⟩
  | some page =>
    dsimp only
    obtain ⟨leaf', hleaf'⟩ := (reachable_of_descend hpage).2
    rw [hleaf']
    constructor
    · intro heq
      cases heq
      exact ⟨rfl, hleaf'⟩
    · rintro ⟨heq, hleaf⟩
      cases heq
      rw [hleaf'] at hleaf
      cases hleaf
      rfl

section calls

variable {env : Env} {m : MetaState}

variable {pager : Pager}

theorem Writable.run_write (h : Shows env pager d m) (howns : d.Owns pageId)
    (hleaf : Writable leaf) :
    ∃ pager' d', (Pager.writeBtreeNode env pageId (.leaf leaf)).run pager = .ok () pager' ∧
      Shows env pager' d' m ∧ Writes d d' pageId (.leaf (stampLeaf env.crc leaf)) := by
  obtain ⟨bytes, hbytes, hlen, hread⟩ :=
    Node.fromBytes_toBytes_leaf hleaf.count hleaf.encodable hleaf.fits env.crc hleaf.header
  obtain ⟨pager', hrun, hshows⟩ := run_writeBtreeNode h howns hbytes hlen
  refine ⟨pager', _, hrun, hshows, putNode_next .., fun other hne => putNode_pages_ne _ _ _ hne, ?_⟩
  rw [putNode, hbytes]
  exact nodeAt_write_self d hread

theorem le_descentFuel (h : Shows env pager d m) : d.next.toNat ≤ BTree.descentFuel pager := by
  have hcount : d.next.toNat ≤ pager.storage.pageCount :=
    (Nat.le_div_iff_mul_le (by decide)).mpr h.filled
  unfold BTree.descentFuel
  omega

theorem run_getFrom_of_descend (h : Shows env pager d m)
    (howned : ∀ page, Reachable d root page → d.Owns page)
    (hdescend : descend d key fuel root = some pageId) (hleaf : nodeAt d pageId = some (.leaf leaf))
    {snapshotLsn : UInt64} {answer : Option Bytes}
    (hanswer : Answers env.crc d snapshotLsn (leaf.find key) answer) :
    ∃ pager', (BTree.getFrom env key snapshotLsn fuel root).run pager = .ok answer pager' ∧
      Shows env pager' d m := by
  induction fuel generalizing root pager with
  | zero => cases hdescend
  | succ fuel ih =>
    rcases descend_succ hdescend with ⟨rfl, -⟩ | ⟨node, child, hnode, hchild, hrest⟩
    · obtain ⟨pager₁, hread, hshows₁⟩ := run_readBtreeNode h (howned _ .root) hleaf
      obtain ⟨pager₂, hresolve, hshows₂⟩ := run_resolve hshows₁ hanswer
      refine ⟨pager₂, ?_, hshows₂⟩
      unfold BTree.getFrom
      rw [run_bind_of_ok hread]
      exact hresolve
    · obtain ⟨pager₁, hread, hshows₁⟩ := run_readBtreeNode h (howned _ .root) hnode
      have hbelow : ∀ page, Reachable d child page → d.Owns page := fun page hreach =>
        howned page (hreach.of_child hnode (mem_children_of_findChild hchild))
      obtain ⟨pager₂, hrun, hshows₂⟩ := ih hshows₁ hbelow hrest
      refine ⟨pager₂, ?_, hshows₂⟩
      unfold BTree.getFrom
      rw [run_bind_of_ok hread]
      dsimp only
      rw [hchild, run_bind_of_ok (run_lift_ok _ _)]
      exact hrun

theorem run_deleteFrom_of_descend {tree : BTree} (h : Shows env tree.pager d m)
    (howned : ∀ page, Reachable d root page → d.Owns page)
    (hdescend : descend d key fuel root = some pageId) (hleaf : nodeAt d pageId = some (.leaf leaf))
    (path : BTree.Path) :
    ∃ pager' above, Shows env pager' d m ∧ (BTree.deleteFrom env key fuel root path).run tree =
      (deleteLeaf env key pageId leaf ((pageId, .leaf leaf) :: above)).run { tree with pager := pager' } := by
  induction fuel generalizing root tree path with
  | zero => cases hdescend
  | succ fuel ih =>
    rcases descend_succ hdescend with ⟨rfl, -⟩ | ⟨node, child, hnode, hchild, hrest⟩
    · obtain ⟨pager₁, hread, hshows₁⟩ := run_readBtreeNode h (howned _ .root) hleaf
      refine ⟨pager₁, path, hshows₁, ?_⟩
      unfold BTree.deleteFrom
      rw [run_bind_of_ok (BTree.run_onPager_of_ok hread)]
      rfl
    · obtain ⟨pager₁, hread, hshows₁⟩ := run_readBtreeNode h (howned _ .root) hnode
      have hbelow : ∀ page, Reachable d child page → d.Owns page := fun page hreach =>
        howned page (hreach.of_child hnode (mem_children_of_findChild hchild))
      obtain ⟨pager₂, above, hshows₂, hrun⟩ :=
        @ih child { tree with pager := pager₁ } hshows₁ hbelow hrest ((root, .internal node) :: path)
      refine ⟨pager₂, above, hshows₂, ?_⟩
      conv_lhs => unfold BTree.deleteFrom
      rw [run_bind_of_ok (BTree.run_onPager_of_ok hread)]
      dsimp only
      rw [hchild, run_bind_of_ok (run_lift_ok _ _)]
      exact hrun

theorem run_getWithPages_of_leafFor {tree : BTree} (h : Shows env tree.pager d m)
    (howned : ∀ page, Reachable d tree.rootPageId page → d.Owns page)
    (hleaf : leafFor d tree.rootPageId key = some (pageId, leaf)) {snapshotLsn : UInt64} {answer : Option Bytes}
    (hanswer : Answers env.crc d snapshotLsn (leaf.find key) answer) :
    ∃ tree', (BTree.getWithPages env key snapshotLsn).run tree = .ok answer tree' := by
  obtain ⟨hpage, hnode⟩ := leafFor_eq_some.mp hleaf
  obtain ⟨pager', hrun, -⟩ :=
    run_getFrom_of_descend h howned (descend_mono (le_descentFuel h) hpage) hnode hanswer
  refine ⟨{ tree with pager := pager' }, ?_⟩
  unfold BTree.getWithPages
  rw [run_bind_of_ok (run_get tree)]
  exact BTree.run_onPager_of_ok hrun

end calls

structure LeafUnder (d : Disk) (root pageId : PageId) (leaf : LeafNode) : Prop where
  reachable : Reachable d root pageId
  node : nodeAt d pageId = some (.leaf leaf)

/-- `Linked crc d root`: the leaves under `root` are sorted, every key leads to a leaf and the key of every entry to
the leaf it is in, every value can be read, and a link leads to another leaf with the keys on its side. -/
structure Linked (crc : Crc) (d : Disk) (root : PageId) : Prop where
  owned : ∀ pageId, Reachable d root pageId → d.Owns pageId
  descends : ∀ key, ∃ pageId, leafPage d root key = some pageId
  leaf : ∀ pageId leaf, LeafUnder d root pageId leaf → LeafOk pageId leaf.unlinked
  placed : ∀ pageId leaf, LeafUnder d root pageId leaf → ∀ e ∈ leaf.entries, leafPage d root e.key = some pageId
  values : ∀ pageId leaf, LeafUnder d root pageId leaf → ∀ e ∈ leaf.entries, ∃ value, Reads crc d e value
  next : ∀ pageId leaf, LeafUnder d root pageId leaf → leaf.nextLeaf ≠ 0 → leaf.nextLeaf ≠ pageId ∧
    ∃ right, LeafUnder d root leaf.nextLeaf right ∧ ∀ a ∈ leaf.entries, ∀ b ∈ right.entries, a.key < b.key
  prev : ∀ pageId leaf, LeafUnder d root pageId leaf → leaf.prevLeaf ≠ 0 → leaf.prevLeaf ≠ pageId ∧
    ∃ left, LeafUnder d root leaf.prevLeaf left ∧ ∀ a ∈ left.entries, ∀ b ∈ leaf.entries, a.key < b.key

def bindingOf (d : Disk) (root : PageId) (key : Bytes) : Option Entry :=
  match leafFor d root key with
  | none => none
  | some (_, leaf) => leaf.find key

namespace Linked

variable {crc : Crc}

theorem leafFor (h : Linked crc d root) (key : Bytes) :
    ∃ pageId leaf, leafFor d root key = some (pageId, leaf) ∧ LeafUnder d root pageId leaf := by
  obtain ⟨pageId, hpage⟩ := h.descends key
  obtain ⟨hreach, leaf, hleaf⟩ := reachable_of_descend hpage
  exact ⟨pageId, leaf, leafFor_eq_some.mpr ⟨hpage, hleaf⟩, hreach, hleaf⟩

theorem find (h : Linked crc d root) (hleaf : LeafUnder d root pageId leaf) (key : Bytes) :
    leaf.find key = lookup Entry.key key leaf.entries := (h.leaf pageId leaf hleaf).find_unlinked key

theorem exists_answers (h : Linked crc d root) (snapshotLsn : UInt64) (key : Bytes) :
    ∃ answer, Answers crc d snapshotLsn (bindingOf d root key) answer := by
  obtain ⟨pageId, leaf, hfor, hleaf⟩ := h.leafFor key
  have hbinding : bindingOf d root key = lookup Entry.key key leaf.entries := by
    rw [bindingOf, hfor]
    exact h.find hleaf key
  rw [hbinding]
  cases hfound : lookup Entry.key key leaf.entries with
  | none => exact ⟨none, .missing⟩
  | some e =>
    by_cases hvisible : e.lsn ≤ snapshotLsn
    · obtain ⟨value, hreads⟩ := h.values pageId leaf hleaf e (mem_of_lookup hfound).1
      exact ⟨some value, .found hvisible hreads⟩
    · exact ⟨none, .hidden hvisible⟩

end Linked

end Northstar.Btree
