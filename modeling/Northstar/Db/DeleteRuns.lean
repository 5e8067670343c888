import Northstar.Btree.DeleteFrame
import Northstar.Db.PutRun

/-!
# DeleteRuns — when a deletion keeps the other keys

The condition under which it does, with a tree of two leaves that name each other: in the one the deletion takes one
key out, in the other it takes a second key along.
-/

namespace Northstar.Btree

open SortedEntries
open Node (stampLeaf Encodable)

/-- Entries that a leaf can hold, none of which looks like a reference. -/
structure Storable (entries : List Entry) : Prop where
  sorted : Sorted Entry.key entries
  encodable : ∀ e ∈ entries, Encodable e
  fits : LeafNode.used entries ≤ leafCapacity
  plain : ∀ e ∈ entries, looksLikeReference e.value = false

def linkedLeaf (pageId : PageId) (entries : List Entry) (nextLeaf prevLeaf : PageId) : LeafNode where
  header := { NodeHeader.new .leaf pageId 0 with
    numKeys := UInt16.ofNat entries.length
    freeSpace := UInt16.ofNat (leafCapacity - LeafNode.used entries) }
  entries := entries
  nextLeaf := nextLeaf
  prevLeaf := prevLeaf

theorem leafOk_linkedLeaf {entries : List Entry} (h : Storable entries) (pageId nextLeaf prevLeaf : PageId) :
    LeafOk pageId (linkedLeaf pageId entries nextLeaf prevLeaf).unlinked where
  header := ⟨rfl, rfl, rfl, rfl, rfl⟩
  id := rfl
  count := toNat_ofNat_length h.fits
  sorted := h.sorted
  encodable := h.encodable
  fits := by
    show LeafNode.used entries + (UInt16.ofNat (leafCapacity - LeafNode.used entries)).toNat ≤ leafCapacity
    rw [toNat_ofNat_of_le_capacity (Nat.sub_le ..)]
    have hfits := h.fits
    omega
  last := rfl

structure TwoLeaves (crc : Crc) (d : Disk) (sep : Bytes) (xs ys : List Entry) : Prop where
  next : d.next.toNat = 5
  root : ∃ header, nodeAt d 4 = some (.internal ⟨header, [sep], [2, 3]⟩)
  left : nodeAt d 2 = some (.leaf (stampLeaf crc (linkedLeaf 2 xs 3 0)))
  right : nodeAt d 3 = some (.leaf (stampLeaf crc (linkedLeaf 3 ys 0 2)))

theorem exists_twoLeaves (env : Env) {sep : Bytes} (hsep : sep.length ≤ 255) {xs ys : List Entry} (hxs : Storable xs)
    (hys : Storable ys) :
    ∃ (tree : BTree) (m : MetaState) (d : Disk), Shows env tree.pager d m ∧ tree.rootPageId = 4 ∧
      TwoLeaves env.crc d sep xs ys := by
  obtain ⟨tree₀, -, hfilled⟩ := exists_emptyTree env
  obtain ⟨m, hshows₀⟩ := hfilled.shows
  have hmax : 5 ≤ PageCache.maxEntries := by decide
  have hnext₀ : tree₀.pager.table.next = 3 := UInt64.toNat_inj.mp hfilled.next
  obtain ⟨pager₁, -, hshows₁⟩ := hshows₀.run_allocatePage (room_of_le env (by rw [hnext₀]; exact hmax.trans' (by decide)))
  have hnext₁ : (tree₀.pager.table.allocate env.crc).next = 4 := by
    show tree₀.pager.table.next + 1 = 4
    rw [hnext₀]
    rfl
  obtain ⟨pager₂, -, hshows₂⟩ := hshows₁.run_allocatePage (room_of_le env (by rw [hnext₁]; exact hmax))
  have hnext₂ : ((tree₀.pager.table.allocate env.crc).allocate env.crc).next = 5 := by
    show (tree₀.pager.table.allocate env.crc).next + 1 = 5
    rw [hnext₁]
    rfl
  have howns : ∀ {d : Disk} (pageId : PageId), d.next = 5 → 2 ≤ pageId.toNat → pageId.toNat < 5 → d.Owns pageId := by
    intro d pageId hnext hlow hhigh
    refine ⟨hlow, ?_⟩
    rw [hnext]
    exact hhigh
  obtain ⟨pager₃, d₃, -, hshows₃, hwrites₃⟩ :=
    (leafOk_linkedLeaf hxs 2 3 0).writable.run_write hshows₂ (howns 2 hnext₂ (by decide) (by decide))
  have hnext₃ := hwrites₃.next.trans hnext₂
  obtain ⟨pager₄, d₄, -, hshows₄, hwrites₄⟩ :=
    (leafOk_linkedLeaf hys 3 0 2).writable.run_write hshows₃ (howns 3 hnext₃ (by decide) (by decide))
  have hnext₄ := hwrites₄.next.trans hnext₃
  let header : NodeHeader := { (InternalNode.new 4 1).header with numKeys := 1 }
  obtain ⟨pager₅, d₅, header', -, hshows₅, hwrites₅, -⟩ :=
    run_writeBranch hshows₄ header 2 3 (howns 4 hnext₄ (by decide) (by decide)) ⟨rfl, rfl, rfl, rfl⟩ rfl rfl hsep
  refine ⟨⟨pager₅, 4, 1⟩, m, d₅, hshows₅, rfl, ?_, ⟨header', hwrites₅.node⟩, ?_, ?_⟩
  · rw [hwrites₅.next, hnext₄]
    rfl
  · rw [nodeAt_congr (hwrites₅.others 2 (by decide)), nodeAt_congr (hwrites₄.others 2 (by decide))]
    exact hwrites₃.node
  · rw [nodeAt_congr (hwrites₅.others 3 (by decide))]
    exact hwrites₄.node

variable {pageId : PageId} {key : Bytes}

namespace TwoLeaves

variable {crc : Crc} {d : Disk} {sep : Bytes} {xs ys : List Entry} (h : TwoLeaves crc d sep xs ys)
include h

theorem owns (hlow : 2 ≤ pageId.toNat) (hhigh : pageId.toNat < 5) :
    d.Owns pageId := ⟨hlow, by rw [h.next]; exact hhigh⟩

theorem leafPage (key : Bytes) :
    leafPage d 4 key = some (if sep ≤ key then 3 else 2) := by
  obtain ⟨header, hroot⟩ := h.root
  rw [Northstar.Btree.leafPage, h.next, descend, hroot]
  dsimp only
  rw [findChild_branch]
  dsimp only
  by_cases hle : sep ≤ key
  · rw [if_pos hle, descend, h.right]
  · rw [if_neg hle, descend, h.left]

theorem reachable (hreach : Reachable d 4 pageId) : pageId = 4 ∨ pageId = 2 ∨ pageId = 3 := by
  obtain ⟨header, hroot⟩ := h.root
  induction hreach with
  | root => exact Or.inl rfl
  | @child parent child node _ hnode hchild ih =>
    rcases ih with rfl | rfl | rfl
    · rw [hroot] at hnode
      cases hnode
      simpa using Or.inr hchild
    · rw [h.left] at hnode
      cases hnode
    · rw [h.right] at hnode
      cases hnode

theorem under {leaf : LeafNode} (hunder : LeafUnder d 4 pageId leaf) :
    (pageId = 2 ∧ leaf = stampLeaf crc (linkedLeaf 2 xs 3 0)) ∨
      (pageId = 3 ∧ leaf = stampLeaf crc (linkedLeaf 3 ys 0 2)) := by
  obtain ⟨header, hroot⟩ := h.root
  have hnode := hunder.node
  rcases h.reachable hunder.reachable with rfl | rfl | rfl
  · rw [hroot] at hnode
    cases hnode
  · rw [h.left] at hnode
    cases hnode
    exact Or.inl ⟨rfl, rfl⟩
  · rw [h.right] at hnode
    cases hnode
    exact Or.inr ⟨rfl, rfl⟩

theorem under_left : LeafUnder d 4 2 (stampLeaf crc (linkedLeaf 2 xs 3 0)) := by
  obtain ⟨header, hroot⟩ := h.root
  exact ⟨.child .root hroot (List.mem_cons_self ..), h.left⟩

theorem under_right : LeafUnder d 4 3 (stampLeaf crc (linkedLeaf 3 ys 0 2)) := by
  obtain ⟨header, hroot⟩ := h.root
  exact ⟨.child .root hroot (List.mem_cons_of_mem _ (List.mem_cons_self ..)), h.right⟩

theorem linked (hxs : Storable xs) (hys : Storable ys)
    (hbelow : ∀ e ∈ xs, e.key < sep) (habove : ∀ e ∈ ys, sep ≤ e.key) : Linked crc d 4 where
  owned := by
    intro pageId hreach
    rcases h.reachable hreach with rfl | rfl | rfl
    · exact h.owns (by decide) (by decide)
    · exact h.owns (by decide) (by decide)
    · exact h.owns (by decide) (by decide)
  descends := fun key => ⟨_, h.leafPage key⟩
  leaf := by
    intro pageId leaf hunder
    rcases h.under hunder with ⟨rfl, rfl⟩ | ⟨rfl, rfl⟩
    · exact (leafOk_linkedLeaf hxs 2 3 0).stamp_linked crc
    · exact (leafOk_linkedLeaf hys 3 0 2).stamp_linked crc
  placed := by
    intro pageId leaf hunder e he
    rw [h.leafPage]
    rcases h.under hunder with ⟨rfl, rfl⟩ | ⟨rfl, rfl⟩
    · rw [if_neg (not_le.mpr (hbelow e he))]
    · rw [if_pos (habove e he)]
  values := by
    intro pageId leaf hunder e he
    rcases h.under hunder with ⟨rfl, rfl⟩ | ⟨rfl, rfl⟩
    · exact ⟨_, .inline (hxs.plain e he)⟩
    · exact ⟨_, .inline (hys.plain e he)⟩
  next := by
    intro pageId leaf hunder hnext
    rcases h.under hunder with ⟨rfl, rfl⟩ | ⟨rfl, rfl⟩
    · exact ⟨(by decide : (3 : PageId) ≠ 2), _, h.under_right, fun a ha b hb => (hbelow a ha).trans_le (habove b hb)⟩
    · exact absurd rfl hnext
  prev := by
    intro pageId leaf hunder hprev
    rcases h.under hunder with ⟨rfl, rfl⟩ | ⟨rfl, rfl⟩
    · exact absurd rfl hprev
    · exact ⟨(by decide : (2 : PageId) ≠ 3), _, h.under_left, fun a ha b hb => (hbelow a ha).trans_le (habove b hb)⟩

theorem leafFor (hkey : sep ≤ key) :
    leafFor d 4 key = some (3, stampLeaf crc (linkedLeaf 3 ys 0 2)) := by
  apply leafFor_eq_some.mpr
  rw [h.leafPage, if_pos hkey]
  exact ⟨rfl, h.right⟩

theorem mergesInside (hys : Storable ys) (hkey : sep ≤ key) : MergesInside d 4 key := by
  intro pageId leaf left hfor hdelete _ right _ hright
  rw [h.leafFor hkey] at hfor
  cases hfor
  obtain ⟨result, left', hdelete', hnext, -⟩ :=
    deleteFromLeaf_linked ((leafOk_linkedLeaf hys 3 0 2).stamp_linked crc) key
  rw [hdelete] at hdelete'
  cases hdelete'
  rw [hnext] at hright
  exact absurd rfl (siblingAt_eq_some hright).1

end TwoLeaves

/-- **Delete** keeps every other key unless an entry is borrowed, or a merge to the right runs into the links. -/
theorem delete_frame_iff {env : Env} {m : MetaState} {d : Disk} {tree tree' : BTree} {key : Bytes}
    (h : Shows env tree.pager d m) (hlinked : Linked env.crc d tree.rootPageId)
    (hrun : (BTree.delete env key).run tree = .ok () tree') :
    (Borrows d tree.rootPageId key → ¬ DeleteFrame env tree tree' key) ∧
      (MergesInside d tree.rootPageId key → (DeleteFrame env tree tree' key ↔ ¬ Borrows d tree.rootPageId key)) := by
  have hbreaks : Borrows d tree.rootPageId key → ¬ DeleteFrame env tree tree' key := by
    intro hborrows
    obtain ⟨after, hrun', hnot⟩ := not_deleteFrame_of_borrows h hlinked hborrows
    rw [hrun] at hrun'
    cases hrun'
    exact hnot
  refine ⟨hbreaks, fun hinside => ⟨fun hframe hborrows => hbreaks hborrows hframe, ?_⟩⟩
  intro hborrows
  obtain ⟨after, hrun', hframe⟩ := deleteFrame_of_not_borrows h hlinked hborrows hinside
  rw [hrun] at hrun'
  cases hrun'
  exact hframe

theorem deleteFromLeaf_underfull {node : LeafNode} (h : LeafOk pageId node) {e : Entry}
    (hmem : e ∈ node.entries) (hkey : e.key = key) (hfew : node.entries.length ≤ 65) :
    ∃ left, deleteFromLeaf node key = (.underfull, left) ∧
      left.header.numKeys = UInt16.ofNat (node.entries.length - 1) ∧
      node.header.freeSpace.toNat ≤ left.header.freeSpace.toNat ∧ left.prevLeaf = node.prevLeaf ∧
      left.nextLeaf = node.nextLeaf := by
  rcases binarySearch_cases h.sorted key with
    ⟨pre, x, suf, hentries, hx, hsearch⟩ | ⟨pre, suf, hentries, hpre, hsuf, hsearch⟩
  · have hget : node.entries[pre.length]? = some x := by rw [hentries, getElem?_middle]
    have hcount : (node.entries.eraseIdx pre.length).length = node.entries.length - 1 := by
      rw [hentries, eraseIdx_middle, List.length_append, List.length_append, List.length_cons]
      omega
    let header := node.header.afterRemove (node.entries.eraseIdx pre.length).length x.serializedSize
    let left : LeafNode := { node with entries := node.entries.eraseIdx pre.length, header }
    have hremove : node.remove key = (some x, left) := by
      unfold LeafNode.remove
      simp only [hsearch, hget]
      rfl
    have hkeys : left.header.numKeys = UInt16.ofNat (node.entries.length - 1) := by
      rw [← hcount]
      exact NodeHeader.afterRemove_numKeys ..
    have hunder : left.header.isUnderfull calculateMinLeafEntries = true := by
      have hroot : left.header.isRoot = 0 := ((node.header.edits_afterRemove _ _).isLeaf h.header).isRoot
      have hlt : UInt16.ofNat (node.entries.length - 1) < calculateMinLeafEntries := by
        apply UInt16.lt_iff_toNat_lt.mpr
        rw [UInt16.toNat_ofNat_of_lt' (by show _ < 2 ^ 16; omega)]
        show node.entries.length - 1 < 65
        have hpos := List.length_pos_of_mem hmem
        omega
      unfold NodeHeader.isUnderfull
      rw [hroot, hkeys]
      simpa using hlt
    refine ⟨left, ?_, hkeys, ?_, rfl, rfl⟩
    · unfold deleteFromLeaf
      rw [hremove]
      dsimp only
      rw [hunder]
      rfl
    · have hused : LeafNode.used node.entries = LeafNode.used (pre ++ suf) + x.serializedSize := by
        rw [hentries, LeafNode.used_append, LeafNode.used_append, LeafNode.used_cons]
        omega
      have hfits := h.fits
      show _ ≤ (node.header.afterRemove _ x.serializedSize).freeSpace.toNat
      rw [NodeHeader.afterRemove_freeSpace, UInt16.toNat_add, toNat_ofNat_of_le_capacity (by omega)]
      simp only [leafCapacity, bodySize, pageSize, headerSize] at hfits ⊢
      omega
  · rw [hentries] at hmem
    rcases List.mem_append.mp hmem with he | he
    · exact absurd hkey (hpre e he).ne
    · exact absurd hkey (hsuf e he).ne'

def blankEntries (first : UInt8) (n : Nat) : List Entry :=
  (List.range n).map fun i => ⟨[first, UInt8.ofNat i], [], 1⟩

variable {n : Nat}

theorem storable_blankEntries (first : UInt8) (hn : n ≤ 256) : Storable (blankEntries first n) where
  sorted := by
    apply List.pairwise_map.mpr
    apply List.pairwise_lt_range.imp_of_mem
    intro i j hi hj hlt
    have hj := List.mem_range.mp hj
    show [first, UInt8.ofNat i] < [first, UInt8.ofNat j]
    have hbyte : UInt8.ofNat i < UInt8.ofNat j := by
      rw [UInt8.lt_iff_toNat_lt, UInt8.toNat_ofNat_of_lt' (by show _ < 256; omega),
        UInt8.toNat_ofNat_of_lt' (by show _ < 256; omega)]
      exact hlt
    exact List.cons_lt_cons_iff.mpr (Or.inr ⟨rfl, List.cons_lt_cons_iff.mpr (Or.inl hbyte)⟩)
  encodable := by
    intro e he
    obtain ⟨i, -, rfl⟩ := List.mem_map.mp he
    exact ⟨show 2 ≤ 255 by decide, Nat.zero_le _⟩
  fits := by
    have hused : LeafNode.used (blankEntries first n) = n * 13 := by
      show (((List.range n).map _).map Entry.serializedSize).sum = _
      rw [List.map_map]
      show ((List.range n).map fun _ => 13).sum = _
      simp
    rw [hused]
    exact (Nat.mul_le_mul_right 13 hn).trans (by decide)
  plain := by
    intro e he
    obtain ⟨i, -, rfl⟩ := List.mem_map.mp he
    rfl

theorem length_blankEntries (first : UInt8) (n : Nat) : (blankEntries first n).length = n := by
  rw [blankEntries, List.length_map, List.length_range]

theorem getLast?_blankEntries (first : UInt8) (n : Nat) :
    (blankEntries first (n + 1)).getLast? = some ⟨[first, UInt8.ofNat n], [], 1⟩ := by
  rw [blankEntries, List.range_succ, List.map_append]
  exact List.getLast?_concat

theorem blankEntries_below : ∀ e ∈ blankEntries 0 n, e.key < [1] := by
  intro e he
  obtain ⟨i, -, rfl⟩ := List.mem_map.mp he
  exact List.cons_lt_cons_iff.mpr (Or.inl (by decide))

theorem blankEntries_above : ∀ e ∈ blankEntries 1 n, [1] ≤ e.key := by
  intro e he
  obtain ⟨i, -, rfl⟩ := List.mem_map.mp he
  exact (List.cons_lt_cons_iff.mpr (Or.inr ⟨rfl, List.nil_lt_cons ..⟩)).le

namespace TwoLeaves

variable {crc : Crc} {d : Disk} {sep : Bytes} {xs ys : List Entry}

theorem not_borrows (h : TwoLeaves crc d sep xs ys) (hys : Storable ys) (hkey : sep ≤ key)
    (hfew : saturatingSub (UInt16.ofNat xs.length) calculateMinKeys = 0) : ¬ Borrows d 4 key := by
  rintro ⟨pageId, leaf, left, side, donor, entry, hfor, hdelete, hlends⟩
  rw [h.leafFor hkey] at hfor
  cases hfor
  obtain ⟨result, left', hdelete', hnext, hremoved⟩ :=
    deleteFromLeaf_linked ((leafOk_linkedLeaf hys 3 0 2).stamp_linked crc) key
  rw [hdelete] at hdelete'
  cases hdelete'
  obtain ⟨hzero, hdonor⟩ := siblingAt_eq_some hlends.stands
  cases side with
  | fromRight => exact hzero hnext
  | fromLeft =>
    have hprev : left.prevLeaf = 2 := hremoved.prev
    rw [show BorrowDirection.fromLeft.link left = 2 from hprev, h.left] at hdonor
    cases hdonor
    have hpos := excess_pos_of_canBorrow hlends.enough
    rw [show saturatingSub (stampLeaf crc (linkedLeaf 2 xs 3 0)).header.numKeys calculateMinKeys = 0 from hfew] at hpos
    exact not_pos_zero hpos

theorem borrows (h : TwoLeaves crc d sep xs ys) (hys : Storable ys) (hkey : sep ≤ key) {e last : Entry}
    (he : e ∈ ys) (hekey : e.key = key) (hfew : ys.length ≤ 65) (hlast : xs.getLast? = some last)
    (henough : canBorrowFromSibling (UInt16.ofNat xs.length) (UInt16.ofNat (ys.length - 1)) = true)
    (hspace : last.serializedSize ≤ leafCapacity - LeafNode.used ys) : Borrows d 4 key := by
  obtain ⟨left, hdelete, hkeys, hfree, hprev, hnext⟩ :=
    deleteFromLeaf_underfull ((leafOk_linkedLeaf hys 3 0 2).stamp_linked crc) he hekey hfew
  have hprev : left.prevLeaf = 2 := hprev
  have hnext : left.nextLeaf = 0 := hnext
  have hdonor : siblingAt d left.prevLeaf = some (stampLeaf crc (linkedLeaf 2 xs 3 0)) := by
    rw [hprev]
    exact siblingAt_eq (by decide) h.left
  have hexcess : saturatingSub (UInt16.ofNat xs.length) calculateMinKeys > 0 := excess_pos_of_canBorrow henough
  refine ⟨3, _, left, .fromLeft, _, last, h.leafFor hkey, hdelete, ?_, hdonor, hlast, ?_, ?_⟩
  · unfold lendingSide
    rw [hdonor, hnext, siblingAt_zero]
    dsimp only
    rw [if_pos ⟨UInt16.zero_le, hexcess⟩]
  · rw [hkeys]
    exact henough
  · have hroom : leafCapacity - LeafNode.used ys ≤ left.header.freeSpace.toNat := by
      apply hfree.trans'
      show _ ≤ (UInt16.ofNat (leafCapacity - LeafNode.used ys)).toNat
      rw [toNat_ofNat_of_le_capacity (Nat.sub_le ..)]
    unfold NodeHeader.hasSpace
    simpa using hspace.trans hroom

end TwoLeaves

theorem delete_frame_one : ∃ (tree tree' : BTree) (m : MetaState) (d : Disk),
    Shows ⟨crc32cAppend, fun _ => 0⟩ tree.pager d m ∧ tree.rootPageId = 4 ∧
      TwoLeaves crc32cAppend d [1] (blankEntries 0 1) (blankEntries 1 2) ∧
      (BTree.delete ⟨crc32cAppend, fun _ => 0⟩ [1, 1]).run tree = .ok () tree' ∧
      DeleteFrame ⟨crc32cAppend, fun _ => 0⟩ tree tree' [1, 1] := by
  have hxs : Storable (blankEntries 0 1) := storable_blankEntries 0 (by decide)
  have hys : Storable (blankEntries 1 2) := storable_blankEntries 1 (by decide)
  have hkey : ([1] : Bytes) ≤ [1, 1] := by decide
  obtain ⟨tree, m, d, hshows, hroot, htwo⟩ :=
    exists_twoLeaves ⟨crc32cAppend, fun _ => 0⟩ (by decide : ([1] : Bytes).length ≤ 255) hxs hys
  have hlinked := htwo.linked hxs hys blankEntries_below blankEntries_above
  have hborrows : ¬ Borrows d 4 [1, 1] := htwo.not_borrows hys hkey (by rw [length_blankEntries]; decide)
  have hinside := htwo.mergesInside hys hkey
  rw [← hroot] at hlinked hborrows hinside
  obtain ⟨tree', hrun, -⟩ := deleteFrame_of_not_borrows hshows hlinked hborrows hinside
  exact ⟨tree, tree', m, d, hshows, hroot, htwo, hrun, ((delete_frame_iff hshows hlinked hrun).2 hinside).mpr hborrows⟩

/-- The key [0, 255] moves to the right leaf, and the separator still sends it to the left. -/
theorem delete_loses_borrowed_key : ∃ (tree tree' : BTree) (m : MetaState) (d : Disk),
    Shows ⟨crc32cAppend, fun _ => 0⟩ tree.pager d m ∧ tree.rootPageId = 4 ∧ Linked crc32cAppend d 4 ∧
      TwoLeaves crc32cAppend d [1] (blankEntries 0 256) (blankEntries 1 5) ∧
      (BTree.delete ⟨crc32cAppend, fun _ => 0⟩ [1, 4]).run tree = .ok () tree' ∧
      ¬ DeleteFrame ⟨crc32cAppend, fun _ => 0⟩ tree tree' [1, 4] := by
  have hxs : Storable (blankEntries 0 256) := storable_blankEntries 0 (Nat.le_refl _)
  have hys : Storable (blankEntries 1 5) := storable_blankEntries 1 (by decide)
  have hkey : ([1] : Bytes) ≤ [1, 4] := by decide
  obtain ⟨tree, m, d, hshows, hroot, htwo⟩ :=
    exists_twoLeaves ⟨crc32cAppend, fun _ => 0⟩ (by decide : ([1] : Bytes).length ≤ 255) hxs hys
  have hlinked := htwo.linked hxs hys blankEntries_below blankEntries_above
  have hmem : (⟨[1, 4], [], 1⟩ : Entry) ∈ blankEntries 1 5 := List.mem_map.mpr ⟨4, by decide, rfl⟩
  have hborrows : Borrows d 4 [1, 4] := by
    apply htwo.borrows hys hkey hmem rfl
    · rw [length_blankEntries]
      decide
    · exact getLast?_blankEntries 0 255
    · rw [length_blankEntries, length_blankEntries]
      decide
    · decide
  rw [← hroot] at hlinked hborrows
  obtain ⟨tree', hrun, hnot⟩ := not_deleteFrame_of_borrows hshows hlinked hborrows
  exact ⟨tree, tree', m, d, hshows, hroot, hroot ▸ hlinked, htwo, hrun, hnot⟩

end Northstar.Btree
