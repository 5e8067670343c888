import Northstar.Btree.Links

/-!
# DeleteFrame — what a deletion does to the other keys

A deletion that leaves its leaf underfull borrows an entry from a sibling or merges with one.  No separator is ever
changed for that: an entry that is borrowed is not found any more, and a merge copies the entries of the underfull
leaf to a sibling, which no key of theirs leads to.
-/

namespace Northstar.Btree

open SortedEntries EStateM
open Node (stampLeaf Encodable)

/-- The leaf behind a link. -/
def siblingAt (d : Disk) (link : PageId) : Option LeafNode :=
  if link = 0 then none
  else
    match nodeAt d link with
    | some (.leaf sibling) => some sibling
    | _ => none

theorem siblingAt_zero (d : Disk) : siblingAt d 0 = none := if_pos rfl

variable {sibling donor : LeafNode} {side : BorrowDirection} {entry : Entry} {tree : BTree}

theorem siblingAt_eq {d : Disk} {link : PageId} (hlink : link ≠ 0)
    (h : nodeAt d link = some (.leaf sibling)) : siblingAt d link = some sibling := by
  rw [siblingAt, if_neg hlink, h]

theorem siblingAt_eq_some {d : Disk} {link : PageId} (h : siblingAt d link = some sibling) :
    link ≠ 0 ∧ nodeAt d link = some (.leaf sibling) := by
  by_cases hlink : link = 0
  · rw [hlink, siblingAt_zero] at h
    cases h
  · rw [siblingAt, if_neg hlink] at h
    refine ⟨hlink, ?_⟩
    split at h
    · next leaf hleaf =>
      cases h
      exact hleaf
    · cases h

theorem siblingAt_congr {d d' : Disk} {link : PageId} (h : d'.pages link = d.pages link) :
    siblingAt d' link = siblingAt d link := by
  rw [siblingAt, siblingAt, nodeAt_congr h]

/-- The siblings of a leaf are well formed, and their keys are on their side of its own. -/
structure Beside (d : Disk) (leaf : LeafNode) : Prop where
  prev : leaf.prevLeaf ≠ 0 → d.Owns leaf.prevLeaf ∧ ∃ left, nodeAt d leaf.prevLeaf = some (.leaf left) ∧
    LeafOk leaf.prevLeaf left.unlinked ∧ ∀ a ∈ left.entries, ∀ b ∈ leaf.entries, a.key < b.key
  next : leaf.nextLeaf ≠ 0 → d.Owns leaf.nextLeaf ∧ ∃ right, nodeAt d leaf.nextLeaf = some (.leaf right) ∧
    LeafOk leaf.nextLeaf right.unlinked ∧ ∀ a ∈ leaf.entries, ∀ b ∈ right.entries, a.key < b.key

section calls

variable {env : Env} {m : MetaState} {d : Disk} {leaf : LeafNode}

variable {pager : Pager}

theorem run_readSibling_at (h : Shows env pager d m) {link : PageId}
    (hlink : link ≠ 0 → d.Owns link ∧ IsLeafAt d link) :
    ∃ pager', (readSibling env link).run pager = .ok (siblingAt d link) pager' ∧ Shows env pager' d m := by
  by_cases hzero : link = 0
  · subst hzero
    refine ⟨pager, ?_, h⟩
    rw [siblingAt_zero]
    exact run_readSibling_zero pager
  · obtain ⟨howns, sibling, hsibling⟩ := hlink hzero
    rw [siblingAt_eq hzero hsibling]
    exact run_readSibling h hzero howns hsibling

theorem Beside.run_readPrev (hbeside : Beside d leaf) (h : Shows env pager d m) :
    ∃ pager', (readSibling env leaf.prevLeaf).run pager = .ok (siblingAt d leaf.prevLeaf) pager' ∧
      Shows env pager' d m := by
  apply run_readSibling_at h
  intro hlink
  obtain ⟨howns, left, hleft, -⟩ := hbeside.prev hlink
  exact ⟨howns, left, hleft⟩

theorem Beside.run_readNext (hbeside : Beside d leaf) (h : Shows env pager d m) :
    ∃ pager', (readSibling env leaf.nextLeaf).run pager = .ok (siblingAt d leaf.nextLeaf) pager' ∧
      Shows env pager' d m := by
  apply run_readSibling_at h
  intro hlink
  obtain ⟨howns, right, hright, -⟩ := hbeside.next hlink
  exact ⟨howns, right, hright⟩

/-- What a sibling could give away. -/
def excessOf : Option LeafNode → UInt16
  | some sibling => saturatingSub sibling.header.numKeys calculateMinKeys
  | none => 0

def lendingSide (d : Disk) (leaf : LeafNode) : Option BorrowDirection :=
  let left := excessOf (siblingAt d leaf.prevLeaf)
  let right := excessOf (siblingAt d leaf.nextLeaf)
  if left ≥ right ∧ left > 0 then some .fromLeft
  else if right > 0 then some .fromRight
  else none

namespace BorrowDirection

def link (leaf : LeafNode) : BorrowDirection → PageId
  | .fromRight => leaf.nextLeaf
  | .fromLeft => leaf.prevLeaf

def moved (donor : LeafNode) : BorrowDirection → Option Entry
  | .fromRight => donor.entries.head?
  | .fromLeft => donor.entries.getLast?

def rest (donor : LeafNode) : BorrowDirection → List Entry
  | .fromRight => donor.entries.tail
  | .fromLeft => donor.entries.dropLast

def borrow : BorrowDirection → LeafNode → LeafNode → Except Error (Option (LeafNode × LeafNode))
  | .fromRight => borrowFromRightLeaf
  | .fromLeft => borrowFromLeftLeaf

theorem borrow_eq (side : BorrowDirection) (leaf donor : LeafNode) :
    side.borrow leaf donor = borrowFromLeaf (side.moved donor) (side.rest donor) leaf donor := by
  cases side with
  | fromRight => rfl
  | fromLeft => rfl

theorem rest_sublist (side : BorrowDirection) (donor : LeafNode) : (side.rest donor).Sublist donor.entries := by
  cases side with
  | fromRight => exact List.tail_sublist _
  | fromLeft => exact List.dropLast_sublist _

theorem mem_of_moved (h : side.moved donor = some entry) : entry ∈ donor.entries := by
  cases side with
  | fromRight => exact List.mem_of_head? h
  | fromLeft => exact List.mem_of_getLast? h

theorem entries_eq (h : side.moved donor = some entry) :
    donor.entries = entry :: side.rest donor ∨ donor.entries = side.rest donor ++ [entry] := by
  cases side with
  | fromRight => exact Or.inl (List.eq_cons_of_mem_head? h)
  | fromLeft => exact Or.inr (List.dropLast_append_getLast? entry h).symm

theorem rest_ne (h : side.moved donor = some entry)
    (hsorted : Sorted Entry.key donor.entries) : ∀ e ∈ side.rest donor, e.key ≠ entry.key := by
  intro e he
  rcases entries_eq h with hentries | hentries
  · rw [hentries] at hsorted
    exact (List.rel_of_pairwise_cons hsorted he).ne'
  · rw [hentries] at hsorted
    exact ((sorted_around hsorted).1 e he).ne

end BorrowDirection

/-- An entry of `donor` moves to `leaf`. -/
structure Lends (d : Disk) (leaf : LeafNode) (side : BorrowDirection) (donor : LeafNode) (entry : Entry) : Prop where
  turns : lendingSide d leaf = some side
  stands : siblingAt d (side.link leaf) = some donor
  moved : side.moved donor = some entry
  enough : canBorrowFromSibling donor.header.numKeys leaf.header.numKeys = true
  space : leaf.header.hasSpace entry.serializedSize = true

/-- The donor without the entry. -/
def LeafNode.lent (donor : LeafNode) (rest : List Entry) : LeafNode :=
  { donor with
    entries := rest
    header := { donor.header with numKeys := UInt16.ofNat rest.length } }

theorem not_pos_zero : ¬ (0 : UInt16) > 0 := by decide

def candidatesOf (d : Disk) (leaf : LeafNode) : BorrowCandidates where
  leftPageId := (siblingAt d leaf.prevLeaf).map fun _ => leaf.prevLeaf
  rightPageId := (siblingAt d leaf.nextLeaf).map fun _ => leaf.nextLeaf
  leftExcess := excessOf (siblingAt d leaf.prevLeaf)
  rightExcess := excessOf (siblingAt d leaf.nextLeaf)

theorem direction_eq (d : Disk) (leaf : LeafNode) :
    (if (candidatesOf d leaf).canBorrow then (candidatesOf d leaf).recommendedDirection else none) =
      lendingSide d leaf := by
  unfold lendingSide candidatesOf BorrowCandidates.canBorrow BorrowCandidates.recommendedDirection
  dsimp only
  cases siblingAt d leaf.prevLeaf with
  | none =>
    have hleft : ¬ (excessOf none ≥ excessOf (siblingAt d leaf.nextLeaf) ∧ excessOf none > 0) :=
      fun hboth => not_pos_zero hboth.2
    rw [if_neg hleft]
    cases siblingAt d leaf.nextLeaf with
    | none => rfl
    | some right =>
      by_cases hright : excessOf (some right) > 0
      · simp [hright]
      · simp [hright]
  | some left =>
    cases siblingAt d leaf.nextLeaf with
    | none =>
      have hle : excessOf (some left) ≥ excessOf none := UInt16.zero_le
      by_cases hleft : excessOf (some left) > 0
      · simp [hleft, hle]
      · simp [hleft, show ¬ excessOf none > 0 from not_pos_zero]
    | some right =>
      by_cases hleft : excessOf (some left) > 0
      · simp [hleft]
      · by_cases hright : excessOf (some right) > 0
        · simp [hleft, hright]
        · simp [hleft, hright]

theorem lendingSide_eq_some (h : lendingSide d leaf = some side) :
    ∃ donor, siblingAt d (side.link leaf) = some donor := by
  have hsome : ∀ {sibling : Option LeafNode}, excessOf sibling > 0 → ∃ donor, sibling = some donor := by
    intro sibling hpos
    cases sibling with
    | none => exact absurd hpos not_pos_zero
    | some donor => exact ⟨donor, rfl⟩
  unfold lendingSide at h
  dsimp only at h
  split at h
  · next hleft =>
    cases h
    exact hsome hleft.2
  · split at h
    · next hright =>
      cases h
      exact hsome hright
    · cases h

theorem Beside.run_borrowHalf (hbeside : Beside d leaf) {tree : BTree} (h : Shows env tree.pager d m)
    (pageId : PageId) :
    ∃ pager', Shows env pager' d m ∧ (BTree.borrowHalf env pageId leaf).run tree =
      (match lendingSide d leaf with
        | some side => BTree.borrowInto env pageId leaf (some (side.link leaf)) side.borrow
        | none => pure false : TreeM Bool).run { tree with pager := pager' } := by
  obtain ⟨pager₁, hprev, hshows₁⟩ := hbeside.run_readPrev h
  obtain ⟨pager₂, hnext, hshows₂⟩ := hbeside.run_readNext hshows₁
  refine ⟨pager₂, hshows₂, ?_⟩
  have hcandidates : (getLeafBorrowCandidates env leaf).run tree.pager = .ok (candidatesOf d leaf) pager₂ := by
    unfold getLeafBorrowCandidates
    rw [run_bind_of_ok hprev, run_bind_of_ok hnext, run_pure]
    rfl
  unfold BTree.borrowHalf
  rw [run_bind_of_ok (BTree.run_onPager_of_ok (run_attempt_of_ok hcandidates))]
  dsimp only
  have hdirection := direction_eq d leaf
  by_cases hcan : (candidatesOf d leaf).canBorrow = true
  · rw [if_pos hcan] at hdirection ⊢
    rw [hdirection]
    cases hside : lendingSide d leaf with
    | none => rfl
    | some side =>
      obtain ⟨donor, hdonor⟩ := lendingSide_eq_some hside
      cases side with
      | fromRight =>
        have hpage : (candidatesOf d leaf).rightPageId = some leaf.nextLeaf := by
          show (siblingAt d leaf.nextLeaf).map _ = _
          rw [show siblingAt d leaf.nextLeaf = some donor from hdonor]
          rfl
        dsimp only
        rw [hpage]
        rfl
      | fromLeft =>
        have hpage : (candidatesOf d leaf).leftPageId = some leaf.prevLeaf := by
          show (siblingAt d leaf.prevLeaf).map _ = _
          rw [show siblingAt d leaf.prevLeaf = some donor from hdonor]
          rfl
        dsimp only
        rw [hpage]
        rfl
  · rw [if_neg hcan] at hdirection ⊢
    rw [← hdirection]

theorem Beside.link (hbeside : Beside d leaf) {side : BorrowDirection} {donor : LeafNode}
    (h : siblingAt d (side.link leaf) = some donor) :
    d.Owns (side.link leaf) ∧ nodeAt d (side.link leaf) = some (.leaf donor) ∧
      LeafOk (side.link leaf) donor.unlinked := by
  obtain ⟨hzero, hnode⟩ := siblingAt_eq_some h
  cases side with
  | fromRight =>
    obtain ⟨howns, right, hright, hok, -⟩ := hbeside.next hzero
    rw [show nodeAt d leaf.nextLeaf = _ from hnode] at hright
    cases hright
    exact ⟨howns, hnode, hok⟩
  | fromLeft =>
    obtain ⟨howns, left, hleft, hok, -⟩ := hbeside.prev hzero
    rw [show nodeAt d leaf.prevLeaf = _ from hnode] at hleft
    cases hleft
    exact ⟨howns, hnode, hok⟩

theorem Beside.run_borrowHalf_from (hbeside : Beside d leaf) (h : Shows env tree.pager d m)
    (hside : lendingSide d leaf = some side) (hdonor : siblingAt d (side.link leaf) = some donor) (pageId : PageId) :
    ∃ pager', Shows env pager' d m ∧ (BTree.borrowHalf env pageId leaf).run tree =
      (match side.borrow leaf donor with
        | .ok (some (borrower, lender)) => do
          BTree.onPager (Pager.writeBtreeNode env pageId (.leaf borrower))
          BTree.onPager (Pager.writeBtreeNode env (side.link leaf) (.leaf lender))
          pure true
        | _ => pure false : TreeM Bool).run { tree with pager := pager' } := by
  obtain ⟨pager₁, hshows₁, hrun⟩ := hbeside.run_borrowHalf h pageId
  obtain ⟨howns, hnode, -⟩ := hbeside.link hdonor
  obtain ⟨pager₂, hread, hshows₂⟩ := run_readBtreeNode hshows₁ howns hnode
  refine ⟨pager₂, hshows₂, ?_⟩
  rw [hrun, hside]
  dsimp only
  unfold BTree.borrowInto
  exact (run_bind_of_ok (BTree.run_onPager_of_ok (run_attempt_of_ok hread))).trans rfl

theorem Beside.run_borrowHalf_none (hbeside : Beside d leaf) (h : Shows env tree.pager d m)
    (hnone : ∀ side donor entry, ¬ Lends d leaf side donor entry) (pageId : PageId) :
    ∃ pager', Shows env pager' d m ∧
      (BTree.borrowHalf env pageId leaf).run tree = .ok false { tree with pager := pager' } := by
  cases hside : lendingSide d leaf with
  | none =>
    obtain ⟨pager', hshows, hrun⟩ := hbeside.run_borrowHalf h pageId
    rw [hside] at hrun
    exact ⟨pager', hshows, hrun⟩
  | some side =>
    obtain ⟨donor, hdonor⟩ := lendingSide_eq_some hside
    obtain ⟨pager', hshows, hrun⟩ := hbeside.run_borrowHalf_from h hside hdonor pageId
    refine ⟨pager', hshows, ?_⟩
    rw [hrun, side.borrow_eq]
    unfold borrowFromLeaf
    cases hmoved : side.moved donor with
    | none => rfl
    | some entry =>
      dsimp only
      by_cases henough : canBorrowFromSibling donor.header.numKeys leaf.header.numKeys = true
      · have hspace : leaf.header.hasSpace entry.serializedSize = false := by
          by_contra hspace
          exact hnone side donor entry ⟨hside, hdonor, hmoved, henough, by simpa using hspace⟩
        rw [if_neg (not_not.mpr henough), insert_eq_error hspace]
        rfl
      · rw [if_pos henough]
        rfl

theorem Beside.run_borrowHalf_some (hbeside : Beside d leaf) (h : Shows env tree.pager d m)
    (hlends : Lends d leaf side donor entry)
    {isUpdate : Bool} {borrower : LeafNode} (hinsert : leaf.insert entry = .ok (isUpdate, borrower))
    (pageId : PageId) :
    ∃ pager', Shows env pager' d m ∧ (BTree.borrowHalf env pageId leaf).run tree = (do
      BTree.onPager (Pager.writeBtreeNode env pageId (.leaf borrower))
      BTree.onPager (Pager.writeBtreeNode env (side.link leaf) (.leaf (donor.lent (side.rest donor))))
      pure true : TreeM Bool).run { tree with pager := pager' } := by
  obtain ⟨pager', hshows, hrun⟩ := hbeside.run_borrowHalf_from h hlends.turns hlends.stands pageId
  refine ⟨pager', hshows, ?_⟩
  rw [hrun, side.borrow_eq]
  unfold borrowFromLeaf
  rw [hlends.moved]
  dsimp only
  rw [if_neg (not_not.mpr hlends.enough), hinsert]
  rfl

/-- Only leaf pages change, and the entries of no page do. -/
structure Relinked (d d' : Disk) : Prop where
  writes : LeafWrites d d'
  entries : ∀ page, entriesAt d' page = entriesAt d page

theorem run_relink (h : Shows env pager d m) {link : PageId} (howns : d.Owns link)
    (hsibling : nodeAt d link = some (.leaf sibling)) (hok : Writable sibling)
    (nextLeaf prevLeaf : PageId) :
    ∃ pager' d', (Pager.writeBtreeNode env link (.leaf { sibling with nextLeaf, prevLeaf })).run pager =
      .ok () pager' ∧ Shows env pager' d' m ∧ Relinked d d' := by
  obtain ⟨pager', d', hrun, hshows, hwrites⟩ := (hok.relink nextLeaf prevLeaf).run_write h howns
  refine ⟨pager', d', hrun, hshows, hwrites.leafWrites ⟨sibling, hsibling⟩, ?_⟩
  intro page
  by_cases heq : page = link
  · rw [heq, entriesAt_eq hwrites.node, entriesAt_eq hsibling]
    rfl
  · exact entriesAt_congr (hwrites.others page heq)

theorem run_mergeInto_none (h : Shows env tree.pager d m) {link : PageId} (howns : d.Owns link)
    (hsibling : nodeAt d link = some (.leaf sibling)) (path : BTree.Path)
    (merge : LeafNode → PagerM (Option (LeafNode × PageId)))
    (hmerge : ∀ pager, (merge sibling).run pager = .ok none pager ∨
      ∃ e, (merge sibling).run pager = .error (.err e) pager) :
    ∃ pager', (BTree.mergeInto env (some link) path merge).run tree = .ok () { tree with pager := pager' } ∧
      Shows env pager' d m := by
  obtain ⟨pager₁, hread, hshows₁⟩ := run_readBtreeNode h howns hsibling
  refine ⟨pager₁, ?_, hshows₁⟩
  unfold BTree.mergeInto
  rw [run_bind_of_ok (BTree.run_onPager_of_ok (run_attempt_of_ok hread))]
  dsimp only
  rcases hmerge pager₁ with hnone | ⟨e, herror⟩
  · rw [run_bind_of_ok (@BTree.run_onPager_of_ok _ _ { tree with pager := pager₁ } _ _
      (run_attempt_of_ok hnone))]
    rfl
  · rw [run_bind_of_ok (@BTree.run_onPager_of_ok _ _ { tree with pager := pager₁ } _ _
      (run_attempt_of_error herror rfl))]
    rfl

/-- And with one that is made: nothing is propagated, because the path starts with the leaf. -/
theorem run_mergeInto_some (h : Shows env tree.pager d m) {link : PageId} (howns : d.Owns link)
    (hsibling : nodeAt d link = some (.leaf sibling)) (pageId : PageId) (node : LeafNode)
    (above : BTree.Path) (merge : LeafNode → PagerM (Option (LeafNode × PageId))) {merged : LeafNode} {freed : PageId}
    (hmerge : ∀ pager, Shows env pager d m → ∃ pager' d', (merge sibling).run pager = .ok (some (merged, freed)) pager' ∧
      Shows env pager' d' m ∧ Relinked d d')
    (hmerged : Writable merged) :
    ∃ tree' d', (BTree.mergeInto env (some link) ((pageId, .leaf node) :: above) merge).run tree = .ok () tree' ∧
      Shows env tree'.pager d' m ∧ tree'.rootPageId = tree.rootPageId ∧ LeafWrites d d' ∧
      entriesAt d' link = merged.entries ∧ ∀ page, page ≠ link → entriesAt d' page = entriesAt d page := by
  obtain ⟨pager₁, hread, hshows₁⟩ := run_readBtreeNode h howns hsibling
  obtain ⟨pager₂, d₂, hrun, hshows₂, hrelinked⟩ := hmerge pager₁ hshows₁
  obtain ⟨pager₃, d₃, hwrite, hshows₃, hwrites⟩ :=
    hmerged.run_write hshows₂ (hrelinked.writes.owns.mpr howns)
  refine ⟨{ tree with pager := pager₃ }, d₃, ?_, hshows₃, rfl, ?_, ?_, ?_⟩
  · unfold BTree.mergeInto
    rw [run_bind_of_ok (BTree.run_onPager_of_ok (run_attempt_of_ok hread))]
    dsimp only
    rw [run_bind_of_ok (@BTree.run_onPager_of_ok _ _ { tree with pager := pager₁ } _ _
      (run_attempt_of_ok hrun))]
    dsimp only
    rw [run_bind_of_ok (@BTree.run_onPager_of_ok _ _ { tree with pager := pager₂ } _ _ hwrite)]
    rfl
  · exact hrelinked.writes.trans (hwrites.leafWrites (hrelinked.writes.leaves link ⟨sibling, hsibling⟩))
  · rw [entriesAt_eq hwrites.node]
    rfl
  · intro page hne
    rw [entriesAt_congr (hwrites.others page hne), hrelinked.entries page]

/-- The leaf `merge_leaf_left_into_right` writes. -/
def mergedRight (left right : LeafNode) : LeafNode :=
  { right with
    entries := left.entries ++ right.entries
    header := { right.header with numKeys := UInt16.ofNat (left.entries ++ right.entries).length }
    prevLeaf := left.prevLeaf }

variable {right : LeafNode}

theorem Beside.run_mergeRight (hbeside : Beside d leaf) (hprev : leaf.prevLeaf ≠ 0)
    (hcan : canMergeLeaves leaf right = true) (h : Shows env pager d m) :
    ∃ pager' d', (mergeLeafLeftIntoRight env leaf right).run pager =
      .ok (some (mergedRight leaf right, leaf.header.nodeId)) pager' ∧ Shows env pager' d' m ∧ Relinked d d' := by
  obtain ⟨howns, left, hleft, hok, -⟩ := hbeside.prev hprev
  obtain ⟨pager₁, hread, hshows₁⟩ := run_readSibling h hprev howns hleft
  obtain ⟨pager₂, d₂, hwrite, hshows₂, hrelinked⟩ :=
    run_relink hshows₁ howns hleft hok.writable right.header.nodeId left.prevLeaf
  refine ⟨pager₂, d₂, ?_, hshows₂, hrelinked⟩
  unfold mergeLeafLeftIntoRight
  rw [if_neg (not_not.mpr hcan)]
  show EStateM.run (readSibling env leaf.prevLeaf >>= _) pager = _
  rw [run_bind_of_ok hread]
  dsimp only
  show EStateM.run (Pager.writeBtreeNode env leaf.prevLeaf _ >>= _) pager₁ = _
  rw [run_bind_of_ok hwrite]
  rfl

theorem Beside.run_mergeLeft (hbeside : Beside d leaf) (hnext : leaf.nextLeaf ≠ 0) {left left' : LeafNode}
    (hcan : canMergeLeaves left leaf = true) (hinsert : left.insertAll leaf.entries = .ok left')
    (h : Shows env pager d m) :
    ∃ pager' d', (mergeLeafRightIntoLeft env left leaf).run pager =
      .ok (some ({ left' with nextLeaf := leaf.nextLeaf }, leaf.header.nodeId)) pager' ∧
      Shows env pager' d' m ∧ Relinked d d' := by
  obtain ⟨howns, right, hright, hok, -⟩ := hbeside.next hnext
  obtain ⟨pager₁, hread, hshows₁⟩ := run_readSibling h hnext howns hright
  obtain ⟨pager₂, d₂, hwrite, hshows₂, hrelinked⟩ :=
    run_relink hshows₁ howns hright hok.writable right.nextLeaf left'.header.nodeId
  refine ⟨pager₂, d₂, ?_, hshows₂, hrelinked⟩
  unfold mergeLeafRightIntoLeft
  rw [if_neg (not_not.mpr hcan), run_bind_of_ok (run_liftErr_of_ok hinsert pager)]
  show EStateM.run (readSibling env leaf.nextLeaf >>= _) pager = _
  rw [run_bind_of_ok hread]
  dsimp only
  show EStateM.run (Pager.writeBtreeNode env leaf.nextLeaf _ >>= _) pager₁ = _
  rw [run_bind_of_ok hwrite]
  rfl

/-- A merge into the right sibling is taken only where the entries end in front of the links. -/
def MergeRoom (d : Disk) (leaf : LeafNode) : Prop :=
  ∀ left right, siblingAt d leaf.prevLeaf = some left → siblingAt d leaf.nextLeaf = some right →
    left.entries.length ≤ right.entries.length → canMergeLeaves leaf right = true →
      LeafNode.used leaf.entries + LeafNode.used right.entries ≤ leafCapacity

/-- The entries of the leaf may have been copied to one of its siblings. -/
structure Copied (d d' : Disk) (leaf : LeafNode) : Prop where
  writes : LeafWrites d d'
  entries : ∀ page, entriesAt d' page = entriesAt d page ∨
    (page ≠ 0 ∧ page = leaf.nextLeaf ∧ entriesAt d' page = leaf.entries ++ entriesAt d page) ∨
    (page ≠ 0 ∧ page = leaf.prevLeaf ∧ entriesAt d' page = entriesAt d page ++ leaf.entries)

theorem Copied.refl (d : Disk) (leaf : LeafNode) : Copied d d leaf := ⟨.refl d, fun _ => Or.inl rfl⟩

theorem writable_mergedRight {link : PageId} (hleaf : Writable leaf)
    (hright : LeafOk link right.unlinked)
    (hfits : LeafNode.used leaf.entries + LeafNode.used right.entries ≤ leafCapacity) :
    Writable (mergedRight leaf right) := by
  have hused : LeafNode.used (leaf.entries ++ right.entries) ≤ leafCapacity := by
    rw [LeafNode.used_append]
    exact hfits
  have hheader : right.header.IsLeaf := hright.header
  refine ⟨(right.header.edits_space _ _).isLeaf hheader, toNat_ofNat_length hused, ?_, hused⟩
  intro e he
  rcases List.mem_append.mp he with he | he
  · exact hleaf.encodable e he
  · exact hright.encodable e he

theorem run_mergeHalf_first (hnext : leaf.nextLeaf ≠ 0) (hprev : leaf.prevLeaf = 0) (path : BTree.Path)
    (tree : BTree) : (BTree.mergeHalf env leaf path).run tree = .ok () tree := by
  have hcandidates : (getLeafMergeCandidates env leaf).run tree.pager =
      .ok ⟨none, some leaf.nextLeaf, some .rightIntoLeft⟩ tree.pager := by
    unfold getLeafMergeCandidates
    simp only [hprev, ne_eq, not_true_eq_false, if_false, if_pos hnext, run_pure]
  unfold BTree.mergeHalf
  rw [run_bind_of_ok (BTree.run_onPager_of_ok (run_attempt_of_ok hcandidates))]
  rfl

theorem run_mergeHalf_both (h : Shows env tree.pager d m) {left : LeafNode}
    (hprev : leaf.prevLeaf ≠ 0) (hnext : leaf.nextLeaf ≠ 0) (hownsLeft : d.Owns leaf.prevLeaf)
    (hownsRight : d.Owns leaf.nextLeaf) (hleft : nodeAt d leaf.prevLeaf = some (.leaf left))
    (hright : nodeAt d leaf.nextLeaf = some (.leaf right)) (path : BTree.Path) :
    ∃ pager', Shows env pager' d m ∧ (BTree.mergeHalf env leaf path).run tree =
      (if left.entries.length ≤ right.entries.length then
        BTree.mergeInto env (some leaf.nextLeaf) path fun right => mergeLeafLeftIntoRight env leaf right
      else BTree.mergeInto env (some leaf.prevLeaf) path fun left => mergeLeafRightIntoLeft env left leaf).run
        { tree with pager := pager' } := by
  obtain ⟨pager₁, hreadLeft, hshows₁⟩ := run_readSibling h hprev hownsLeft hleft
  obtain ⟨pager₂, hreadRight, hshows₂⟩ := run_readSibling hshows₁ hnext hownsRight hright
  refine ⟨pager₂, hshows₂, ?_⟩
  have hcandidates : (getLeafMergeCandidates env leaf).run tree.pager = .ok ⟨some leaf.prevLeaf, some leaf.nextLeaf,
      some (if left.entries.length ≤ right.entries.length then .leftIntoRight else .rightIntoLeft)⟩ pager₂ := by
    unfold getLeafMergeCandidates
    simp only [ne_eq, hprev, hnext, not_false_eq_true, if_true]
    rw [run_bind_of_ok hreadLeft]
    dsimp only
    rw [run_bind_of_ok hreadRight]
    dsimp only
    by_cases hle : left.entries.length ≤ right.entries.length
    · rw [if_pos hle, if_pos hle]
      rfl
    · rw [if_neg hle, if_neg hle]
      rfl
  unfold BTree.mergeHalf
  rw [run_bind_of_ok (BTree.run_onPager_of_ok (run_attempt_of_ok hcandidates))]
  by_cases hle : left.entries.length ≤ right.entries.length
  · rw [if_pos hle, if_pos hle]
    rfl
  · rw [if_neg hle, if_neg hle]
    rfl

variable {pageId : PageId}

theorem Beside.run_mergeIntoRight (hbeside : Beside d leaf) {pageId : PageId} (hok : LeafOk pageId leaf.unlinked)
    (hprev : leaf.prevLeaf ≠ 0) (hnext : leaf.nextLeaf ≠ 0) {right : LeafNode}
    (hright : nodeAt d leaf.nextLeaf = some (.leaf right))
    (hfits : canMergeLeaves leaf right = true →
      LeafNode.used leaf.entries + LeafNode.used right.entries ≤ leafCapacity)
    {tree : BTree} (h : Shows env tree.pager d m) (node : LeafNode) (above : BTree.Path) :
    ∃ tree' d', (BTree.mergeInto env (some leaf.nextLeaf) ((pageId, .leaf node) :: above) fun right =>
        mergeLeafLeftIntoRight env leaf right).run tree = .ok () tree' ∧
      Shows env tree'.pager d' m ∧ tree'.rootPageId = tree.rootPageId ∧ Copied d d' leaf := by
  obtain ⟨howns, right', hright', hrightOk, -⟩ := hbeside.next hnext
  rw [hright] at hright'
  cases hright'
  by_cases hcan : canMergeLeaves leaf right = true
  · have hmerged := writable_mergedRight hok.writable hrightOk (hfits hcan)
    obtain ⟨tree₁, d₁, hrun, hshows₁, hroot₁, hwrites, hentries, hothers⟩ :=
      run_mergeInto_some h howns hright pageId node above (fun right => mergeLeafLeftIntoRight env leaf right)
        (fun pager hpager => hbeside.run_mergeRight hprev hcan hpager) hmerged
    refine ⟨tree₁, d₁, hrun, hshows₁, hroot₁, hwrites, ?_⟩
    intro page
    by_cases heq : page = leaf.nextLeaf
    · refine Or.inr (Or.inl ⟨heq ▸ hnext, heq, ?_⟩)
      rw [heq, hentries, entriesAt_eq hright]
      rfl
    · exact Or.inl (hothers page heq)
  · have hrefused : ∀ pager, (mergeLeafLeftIntoRight env leaf right).run pager = .ok none pager := by
      intro pager
      unfold mergeLeafLeftIntoRight
      rw [if_pos hcan]
      rfl
    obtain ⟨pager₁, hrun, hshows₁⟩ := run_mergeInto_none h howns hright ((pageId, .leaf node) :: above)
      (fun right => mergeLeafLeftIntoRight env leaf right) fun pager => Or.inl (hrefused pager)
    exact ⟨_, d, hrun, hshows₁, rfl, .refl d leaf⟩

/-- Merging into the left sibling, which takes the entries only if its header promises the space. -/
theorem Beside.run_mergeIntoLeft (hbeside : Beside d leaf) {pageId : PageId} (hok : LeafOk pageId leaf.unlinked)
    (hprev : leaf.prevLeaf ≠ 0) (hnext : leaf.nextLeaf ≠ 0) {tree : BTree} (h : Shows env tree.pager d m)
    (node : LeafNode) (above : BTree.Path) :
    ∃ tree' d', (BTree.mergeInto env (some leaf.prevLeaf) ((pageId, .leaf node) :: above) fun left =>
        mergeLeafRightIntoLeft env left leaf).run tree = .ok () tree' ∧
      Shows env tree'.pager d' m ∧ tree'.rootPageId = tree.rootPageId ∧ Copied d d' leaf := by
  obtain ⟨howns, left, hleft, hleftOk, hbefore⟩ := hbeside.prev hprev
  have hrefused : (∀ pager, (mergeLeafRightIntoLeft env left leaf).run pager = .ok none pager ∨
      ∃ e, (mergeLeafRightIntoLeft env left leaf).run pager = .error (.err e) pager) →
      ∃ tree' d', (BTree.mergeInto env (some leaf.prevLeaf) ((pageId, .leaf node) :: above) fun left =>
        mergeLeafRightIntoLeft env left leaf).run tree = .ok () tree' ∧
        Shows env tree'.pager d' m ∧ tree'.rootPageId = tree.rootPageId ∧ Copied d d' leaf := by
    intro hmerge
    obtain ⟨pager₁, hrun, hshows₁⟩ := run_mergeInto_none h howns hleft ((pageId, .leaf node) :: above)
      (fun left => mergeLeafRightIntoLeft env left leaf) hmerge
    exact ⟨_, d, hrun, hshows₁, rfl, .refl d leaf⟩
  by_cases hcan : canMergeLeaves left leaf = true
  · cases hinsert : left.insertAll leaf.entries with
    | error e =>
      apply hrefused
      intro pager
      refine Or.inr ⟨e, ?_⟩
      unfold mergeLeafRightIntoLeft
      rw [if_neg (not_not.mpr hcan)]
      exact run_bind_of_error (run_liftErr_of_error hinsert pager)
    | ok left' =>
      have hunlinked : left.unlinked.insertAll leaf.entries = .ok left'.unlinked := by
        rw [LeafNode.insertAll_unlinked, hinsert]
        rfl
      have hsorted : Sorted Entry.key (left.entries ++ leaf.entries) :=
        List.pairwise_append.mpr ⟨hleftOk.sorted, hok.sorted, hbefore⟩
      obtain ⟨hmergedOk, hmergedEntries⟩ := hleftOk.insertAll_eq_ok hsorted hok.encodable hunlinked
      have hmerged : Writable { left' with nextLeaf := leaf.nextLeaf } :=
        hmergedOk.writable.relink leaf.nextLeaf left'.prevLeaf
      obtain ⟨tree₁, d₁, hrun, hshows₁, hroot₁, hwrites, hentries, hothers⟩ :=
        run_mergeInto_some h howns hleft pageId node above (fun left => mergeLeafRightIntoLeft env left leaf)
          (fun pager hpager => hbeside.run_mergeLeft hnext hcan hinsert hpager) hmerged
      refine ⟨tree₁, d₁, hrun, hshows₁, hroot₁, hwrites, ?_⟩
      intro page
      by_cases heq : page = leaf.prevLeaf
      · refine Or.inr (Or.inr ⟨heq ▸ hprev, heq, ?_⟩)
        rw [heq, hentries, entriesAt_eq hleft]
        exact hmergedEntries
      · exact Or.inl (hothers page heq)
  · apply hrefused
    intro pager
    left
    unfold mergeLeafRightIntoLeft
    rw [if_pos hcan]
    rfl

theorem Beside.run_mergeHalf (hbeside : Beside d leaf) {pageId : PageId} (hok : LeafOk pageId leaf.unlinked)
    (hroom : MergeRoom d leaf) {tree : BTree} (h : Shows env tree.pager d m) (node : LeafNode) (above : BTree.Path) :
    ∃ tree' d', (BTree.mergeHalf env leaf ((pageId, .leaf node) :: above)).run tree = .ok () tree' ∧
      Shows env tree'.pager d' m ∧ tree'.rootPageId = tree.rootPageId ∧ Copied d d' leaf := by
  by_cases hnext : leaf.nextLeaf = 0
  · exact ⟨tree, d, Northstar.Btree.run_mergeHalf hnext _ tree, h, rfl, .refl d leaf⟩
  by_cases hprev : leaf.prevLeaf = 0
  · exact ⟨tree, d, run_mergeHalf_first hnext hprev _ tree, h, rfl, .refl d leaf⟩
  obtain ⟨hownsLeft, left, hleft, -, -⟩ := hbeside.prev hprev
  obtain ⟨hownsRight, right, hright, -, -⟩ := hbeside.next hnext
  obtain ⟨pager₁, hshows₁, hrun⟩ := run_mergeHalf_both h hprev hnext hownsLeft hownsRight hleft hright
    ((pageId, .leaf node) :: above)
  rw [hrun]
  by_cases hle : left.entries.length ≤ right.entries.length
  · rw [if_pos hle]
    have hfits := hroom left right (siblingAt_eq hprev hleft) (siblingAt_eq hnext hright) hle
    exact @Beside.run_mergeIntoRight env m d leaf hbeside pageId hok hprev hnext right hright hfits
      { tree with pager := pager₁ } hshows₁ node above
  · rw [if_neg hle]
    exact @Beside.run_mergeIntoLeft env m d leaf hbeside pageId hok hprev hnext { tree with pager := pager₁ } hshows₁
      node above

end calls

section delete

variable {crc : Crc} {d d' : Disk} {root pageId : PageId} {key : Bytes} {leaf left : LeafNode}

theorem lends_congr (hprev : siblingAt d' leaf.prevLeaf = siblingAt d leaf.prevLeaf)
    (hnext : siblingAt d' leaf.nextLeaf = siblingAt d leaf.nextLeaf)
    : Lends d' leaf side donor entry ↔ Lends d leaf side donor entry := by
  have hside : lendingSide d' leaf = lendingSide d leaf := by
    unfold lendingSide
    rw [hprev, hnext]
  have hlink : siblingAt d' (side.link leaf) = siblingAt d (side.link leaf) := by
    cases side with
    | fromRight => exact hnext
    | fromLeft => exact hprev
  constructor
  · intro h
    exact ⟨hside.symm.trans h.turns, hlink.symm.trans h.stands, h.moved, h.enough, h.space⟩
  · intro h
    exact ⟨hside.trans h.turns, hlink.trans h.stands, h.moved, h.enough, h.space⟩

/-- The deletion leaves its leaf underfull and moves an entry of a sibling to it. -/
def Borrows (d : Disk) (root : PageId) (key : Bytes) : Prop :=
  ∃ pageId leaf left side donor entry, leafFor d root key = some (pageId, leaf) ∧
    deleteFromLeaf leaf key = (.underfull, left) ∧ Lends d left side donor entry

/-- If it leaves its leaf underfull and merges it to the right, the page has room for all entries. -/
def MergesInside (d : Disk) (root : PageId) (key : Bytes) : Prop :=
  ∀ pageId leaf left, leafFor d root key = some (pageId, leaf) → deleteFromLeaf leaf key = (.underfull, left) →
    MergeRoom d left

/-- The key is not found any more, and no other lookup changes. -/
structure DeleteFrame (env : Env) (tree tree' : BTree) (key : Bytes) : Prop where
  gone : ∀ snapshotLsn, ∃ after, (BTree.getWithPages env key snapshotLsn).run tree' = .ok none after
  others : ∀ other, other ≠ key → ∀ snapshotLsn answer,
    (∃ after, (BTree.getWithPages env other snapshotLsn).run tree = .ok answer after) ↔
      ∃ after, (BTree.getWithPages env other snapshotLsn).run tree' = .ok answer after

theorem find_of_sorted (h : Sorted Entry.key leaf.entries) (key : Bytes) :
    leaf.find key = lookup Entry.key key leaf.entries := getElem?_of_binarySearch h key

/-- The leaf with its entry removed, in the table. -/
structure Taken (d d' : Disk) (root pageId : PageId) (leaf left : LeafNode) (key : Bytes) : Prop where
  under : LeafUnder d root pageId leaf
  page : leafPage d root key = some pageId
  writes : LeafWrites d d'
  others : ∀ page, page ≠ pageId → d'.pages page = d.pages page
  entries : entriesAt d' pageId = left.entries
  removed : Removed pageId leaf.unlinked left.unlinked key
  next : left.nextLeaf = leaf.nextLeaf

namespace Taken

variable (h : Taken d d' root pageId leaf left key)
include h

theorem mem {e : Entry} (he : e ∈ left.entries) : e ∈ leaf.entries :=
  h.removed.mem he

theorem prev : left.prevLeaf = leaf.prevLeaf := h.removed.prev

variable (hlinked : Linked crc d root)
include hlinked

theorem nextLeaf_ne (hnext : left.nextLeaf ≠ 0) : left.nextLeaf ≠ pageId := by
  rw [h.next] at hnext ⊢
  exact (hlinked.next pageId leaf h.under hnext).1

theorem prevLeaf_ne (hprev : left.prevLeaf ≠ 0) : left.prevLeaf ≠ pageId := by
  rw [h.prev] at hprev ⊢
  exact (hlinked.prev pageId leaf h.under hprev).1

theorem siblings :
    siblingAt d' left.prevLeaf = siblingAt d left.prevLeaf ∧ siblingAt d' left.nextLeaf = siblingAt d left.nextLeaf := by
  constructor
  · by_cases hprev : left.prevLeaf = 0
    · rw [hprev, siblingAt_zero, siblingAt_zero]
    · exact siblingAt_congr (h.others _ (h.prevLeaf_ne hlinked hprev))
  · by_cases hnext : left.nextLeaf = 0
    · rw [hnext, siblingAt_zero, siblingAt_zero]
    · exact siblingAt_congr (h.others _ (h.nextLeaf_ne hlinked hnext))

theorem beside : Beside d' left where
  prev := by
    intro hprev
    have hne := h.prevLeaf_ne hlinked hprev
    rw [h.prev] at hprev hne ⊢
    obtain ⟨-, before, hunder, hkeys⟩ := hlinked.prev pageId leaf h.under hprev
    refine ⟨h.writes.owns.mpr (hlinked.owned _ hunder.reachable), before, ?_, hlinked.leaf _ _ hunder,
      fun a ha b hb => hkeys a ha b (h.mem hb)⟩
    rw [nodeAt_congr (h.others _ hne)]
    exact hunder.node
  next := by
    intro hnext
    have hne := h.nextLeaf_ne hlinked hnext
    rw [h.next] at hnext hne ⊢
    obtain ⟨-, behind, hunder, hkeys⟩ := hlinked.next pageId leaf h.under hnext
    refine ⟨h.writes.owns.mpr (hlinked.owned _ hunder.reachable), behind, ?_, hlinked.leaf _ _ hunder,
      fun a ha b hb => hkeys a (h.mem ha) b hb⟩
    rw [nodeAt_congr (h.others _ hne)]
    exact hunder.node

theorem donor_under (hstands : siblingAt d (side.link left) = some donor) :
    LeafUnder d root (side.link left) donor ∧ side.link left ≠ pageId := by
  obtain ⟨hzero, hnode⟩ := siblingAt_eq_some hstands
  cases side with
  | fromRight =>
    have hzero : left.nextLeaf ≠ 0 := hzero
    refine ⟨⟨?_, hnode⟩, h.nextLeaf_ne hlinked hzero⟩
    rw [h.next] at hzero
    obtain ⟨-, right, hunder, -⟩ := hlinked.next pageId leaf h.under hzero
    show Reachable d root left.nextLeaf
    rw [h.next]
    exact hunder.reachable
  | fromLeft =>
    have hzero : left.prevLeaf ≠ 0 := hzero
    refine ⟨⟨?_, hnode⟩, h.prevLeaf_ne hlinked hzero⟩
    rw [h.prev] at hzero
    obtain ⟨-, before, hunder, -⟩ := hlinked.prev pageId leaf h.under hzero
    show Reachable d root left.prevLeaf
    rw [h.prev]
    exact hunder.reachable

theorem lookup_none {other : Bytes}
    {page : PageId} (hpage : leafPage d root other = some page) (hne : page ≠ pageId) :
    lookup Entry.key other left.entries = none := by
  apply lookup_eq_none
  intro e he heq
  have hplaced := hlinked.placed pageId leaf h.under e (h.mem he)
  rw [heq, hpage] at hplaced
  exact hne (Option.some.inj hplaced)

theorem lookup_copied {d'' : Disk}
    (hcopied : Copied d' d'' left) {other : Bytes} {page : PageId} {old : LeafNode}
    (hpage : leafPage d root other = some page) (hunder : LeafUnder d root page old) :
    Sorted Entry.key (entriesAt d'' page) ∧ lookup Entry.key other (entriesAt d'' page) =
      if other = key then none else lookup Entry.key other old.entries := by
  by_cases hsame : page = pageId
  · subst hsame
    have hold : old = leaf := by
      have hnode := hunder.node
      rw [h.under.node] at hnode
      cases hnode
      rfl
    have hentries : entriesAt d'' page = left.entries := by
      rcases hcopied.entries page with hkept | ⟨hzero, hnext, -⟩ | ⟨hzero, hprev, -⟩
      · rw [hkept, h.entries]
      · exact absurd hnext.symm (h.nextLeaf_ne hlinked (hnext ▸ hzero))
      · exact absurd hprev.symm (h.prevLeaf_ne hlinked (hprev ▸ hzero))
    rw [hentries, hold]
    exact ⟨h.removed.ok.sorted, h.removed.lookup other⟩
  · have hne : other ≠ key := by
      rintro rfl
      exact hsame (Option.some.inj (hpage.symm.trans h.page))
    have hnode : nodeAt d' page = some (.leaf old) := by
      rw [nodeAt_congr (h.others page hsame)]
      exact hunder.node
    have hsorted : Sorted Entry.key old.entries := (hlinked.leaf page old hunder).sorted
    have hmissing := h.lookup_none hlinked hpage hsame
    have hbeside := h.beside hlinked
    rw [if_neg hne]
    rcases hcopied.entries page with hkept | ⟨hzero, hnext, hentries⟩ | ⟨hzero, hprev, hentries⟩
    · rw [hkept, entriesAt_eq hnode]
      exact ⟨hsorted, rfl⟩
    · obtain ⟨-, right, hright, -, hkeys⟩ := hbeside.next (hnext ▸ hzero)
      rw [← hnext, hnode] at hright
      cases hright
      rw [hentries, entriesAt_eq hnode]
      refine ⟨List.pairwise_append.mpr ⟨h.removed.ok.sorted, hsorted, hkeys⟩, ?_⟩
      rw [lookup_append, hmissing, Option.none_or]
    · obtain ⟨-, before, hbefore, -, hkeys⟩ := hbeside.prev (hprev ▸ hzero)
      rw [← hprev, hnode] at hbefore
      cases hbefore
      rw [hentries, entriesAt_eq hnode]
      refine ⟨List.pairwise_append.mpr ⟨hsorted, h.removed.ok.sorted, hkeys⟩, ?_⟩
      rw [lookup_append, hmissing, Option.or_none]

theorem bindingOf_copied {d'' : Disk} (hcopied : Copied d' d'' left) (other : Bytes) :
    bindingOf d'' root other = if other = key then none else bindingOf d root other := by
  have hwrites := h.writes.trans hcopied.writes
  obtain ⟨page, old, hfor, hunder⟩ := hlinked.leafFor other
  have hpage := (leafFor_eq_some.mp hfor).1
  obtain ⟨new, hnew⟩ := hwrites.leaves page ⟨old, hunder.node⟩
  have hfor' : leafFor d'' root other = some (page, new) :=
    leafFor_eq_some.mpr ⟨(hwrites.leafPage root other).trans hpage, hnew⟩
  have hbefore : bindingOf d root other = lookup Entry.key other old.entries := by
    rw [bindingOf, hfor]
    exact hlinked.find hunder other
  have hafter : bindingOf d'' root other = new.find other := by rw [bindingOf, hfor']
  obtain ⟨hsorted, hlookup⟩ := h.lookup_copied hlinked hcopied hpage hunder
  rw [entriesAt_eq hnew] at hsorted hlookup
  rw [hbefore, hafter, find_of_sorted hsorted, hlookup]

end Taken

end delete

section runs

variable {env : Env} {m : MetaState} {d : Disk} {key : Bytes}

theorem run_get_binding {root : PageId} (h : Shows env tree.pager d m) (hroot : tree.rootPageId = root)
    {d₀ : Disk} (hlinked : Linked env.crc d₀ root) (hwrites : LeafWrites d₀ d) {snapshotLsn : UInt64}
    {answer : Option Bytes} (hanswer : Answers env.crc d₀ snapshotLsn (bindingOf d root key) answer) :
    ∃ after, (BTree.getWithPages env key snapshotLsn).run tree = .ok answer after := by
  subst hroot
  have howned : ∀ page, Reachable d tree.rootPageId page → d.Owns page := fun page hreach =>
    hwrites.owns.mpr (hlinked.owned page (hwrites.reachable hreach))
  obtain ⟨page, old, hfor, hunder⟩ := hlinked.leafFor key
  obtain ⟨new, hnew⟩ := hwrites.leaves page ⟨old, hunder.node⟩
  have hfor' : leafFor d tree.rootPageId key = some (page, new) :=
    leafFor_eq_some.mpr ⟨(hwrites.leafPage _ key).trans (leafFor_eq_some.mp hfor).1, hnew⟩
  have hbinding : bindingOf d tree.rootPageId key = new.find key := by rw [bindingOf, hfor']
  rw [hbinding] at hanswer
  exact run_getWithPages_of_leafFor h howned hfor' (hanswer.keep hwrites.keepsOverflow)

theorem deleteFrame_of_bindings {d' : Disk} {tree' : BTree} (h : Shows env tree.pager d m)
    (h' : Shows env tree'.pager d' m) (hroot : tree'.rootPageId = tree.rootPageId)
    (hlinked : Linked env.crc d tree.rootPageId) (hwrites : LeafWrites d d')
    (hbindings : ∀ other, bindingOf d' tree.rootPageId other =
      if other = key then none else bindingOf d tree.rootPageId other) : DeleteFrame env tree tree' key where
  gone := by
    intro snapshotLsn
    apply run_get_binding h' hroot hlinked hwrites
    rw [hbindings, if_pos rfl]
    exact .missing
  others := by
    intro other hne snapshotLsn answer
    obtain ⟨expected, hexpected⟩ := hlinked.exists_answers snapshotLsn other
    obtain ⟨before, hbefore⟩ := run_get_binding h rfl hlinked (.refl d) hexpected
    obtain ⟨after, hafter⟩ : ∃ after, (BTree.getWithPages env other snapshotLsn).run tree' = .ok expected after := by
      apply run_get_binding h' hroot hlinked hwrites
      rw [hbindings, if_neg hne]
      exact hexpected
    rw [hbefore, hafter]
    constructor
    · rintro ⟨_, heq⟩
      cases heq
      exact ⟨after, rfl⟩
    · rintro ⟨_, heq⟩
      cases heq
      exact ⟨before, rfl⟩

theorem run_delete_front (h : Shows env tree.pager d m) (hlinked : Linked env.crc d tree.rootPageId)
    (key : Bytes) :
    ∃ pageId leaf result left above tree₁ d₁, leafFor d tree.rootPageId key = some (pageId, leaf) ∧
      deleteFromLeaf leaf key = (result, left) ∧ Taken d d₁ tree.rootPageId pageId leaf left key ∧
      Shows env tree₁.pager d₁ m ∧ tree₁.rootPageId = tree.rootPageId ∧ (BTree.delete env key).run tree =
        (afterDelete env pageId left ((pageId, .leaf leaf) :: above) result).run tree₁ := by
  obtain ⟨pageId, leaf, hfor, hunder⟩ := hlinked.leafFor key
  have hpage := (leafFor_eq_some.mp hfor).1
  obtain ⟨pager₁, above, hshows₁, hdescend⟩ :=
    run_deleteFrom_of_descend h hlinked.owned (descend_mono (le_descentFuel h) hpage) hunder.node []
  obtain ⟨result, left, hdelete, hnext, hremoved⟩ := deleteFromLeaf_linked (hlinked.leaf _ _ hunder) key
  obtain ⟨pager₂, d₂, hwrite, hshows₂, hwrites⟩ :=
    hremoved.ok.writable.run_write hshows₁ (hlinked.owned _ hunder.reachable)
  refine ⟨pageId, leaf, result, left, above, { tree with pager := pager₂ }, d₂, hfor, hdelete, ?_, hshows₂, rfl, ?_⟩
  · refine ⟨hunder, hpage, hwrites.leafWrites ⟨leaf, hunder.node⟩, hwrites.others, ?_, hremoved, hnext⟩
    rw [entriesAt_eq hwrites.node]
    rfl
  · unfold BTree.delete
    rw [run_bind_of_ok (run_get tree), hdescend]
    unfold deleteLeaf
    rw [hdelete]
    exact run_bind_of_ok (@BTree.run_onPager_of_ok _ _ { tree with pager := pager₁ } _ _ hwrite)

theorem deleteFrame_of_not_borrows (h : Shows env tree.pager d m)
    (hlinked : Linked env.crc d tree.rootPageId) (hborrows : ¬ Borrows d tree.rootPageId key)
    (hinside : MergesInside d tree.rootPageId key) :
    ∃ tree', (BTree.delete env key).run tree = .ok () tree' ∧ DeleteFrame env tree tree' key := by
  obtain ⟨pageId, leaf, result, left, above, tree₁, d₁, hfor, hdelete, htaken, hshows₁, hroot₁, hrun⟩ :=
    run_delete_front h hlinked key
  obtain ⟨hprev, hnext⟩ := htaken.siblings hlinked
  have hbeside := htaken.beside hlinked
  have hcopied : ∃ tree' d', (afterDelete env pageId left ((pageId, .leaf leaf) :: above) result).run tree₁ =
      .ok () tree' ∧ Shows env tree'.pager d' m ∧ tree'.rootPageId = tree₁.rootPageId ∧ Copied d₁ d' left := by
    cases result with
    | success => exact ⟨tree₁, d₁, rfl, hshows₁, rfl, .refl d₁ left⟩
    | underfull =>
      have hnone : ∀ side donor entry, ¬ Lends d₁ left side donor entry := fun side donor entry hlends =>
        hborrows ⟨pageId, leaf, left, side, donor, entry, hfor, hdelete, (lends_congr hprev hnext).mp hlends⟩
      have hroom : MergeRoom d₁ left := by
        intro before behind hbefore hbehind
        rw [hprev] at hbefore
        rw [hnext] at hbehind
        exact hinside pageId leaf left hfor hdelete before behind hbefore hbehind
      obtain ⟨pager₂, hshows₂, hborrow⟩ := hbeside.run_borrowHalf_none hshows₁ hnone pageId
      obtain ⟨tree₃, d₃, hmerge, hshows₃, hroot₃, hcopied⟩ := @Beside.run_mergeHalf env m d₁ left hbeside pageId
        htaken.removed.ok hroom { tree₁ with pager := pager₂ } hshows₂ leaf above
      refine ⟨tree₃, d₃, ?_, hshows₃, hroot₃, hcopied⟩
      show (BTree.handleLeafUnderflow env pageId left _).run tree₁ = _
      unfold BTree.handleLeafUnderflow
      rw [run_bind_of_ok hborrow]
      exact hmerge
  obtain ⟨tree', d', hafter, hshows', hroot', hcopied⟩ := hcopied
  refine ⟨tree', hrun.trans hafter, ?_⟩
  apply deleteFrame_of_bindings h hshows' (hroot'.trans hroot₁) hlinked (htaken.writes.trans hcopied.writes)
  exact htaken.bindingOf_copied hlinked hcopied

/-- The table after a borrow. -/
structure Lent (d d' : Disk) (link : PageId) (rest : List Entry) : Prop where
  writes : LeafWrites d d'
  entries : entriesAt d' link = rest

theorem Beside.run_borrow {leaf : LeafNode} (hbeside : Beside d leaf) {pageId : PageId}
    (hok : LeafOk pageId leaf.unlinked) (howns : d.Owns pageId) (hleaf : IsLeafAt d pageId)
    (h : Shows env tree.pager d m)
    (hlends : Lends d leaf side donor entry) :
    ∃ tree' d', (BTree.borrowHalf env pageId leaf).run tree = .ok true tree' ∧ Shows env tree'.pager d' m ∧
      tree'.rootPageId = tree.rootPageId ∧ Lent d d' (side.link leaf) (side.rest donor) := by
  obtain ⟨hownsDonor, hdonor, hdonorOk⟩ := hbeside.link hlends.stands
  have hentry : Encodable entry := hdonorOk.encodable entry (BorrowDirection.mem_of_moved hlends.moved)
  obtain ⟨isUpdate, node', hinsert, hinserted⟩ := hok.insert hlends.space hentry
  rw [LeafNode.insert_unlinked] at hinsert
  cases hcall : leaf.insert entry with
  | error e =>
    rw [hcall] at hinsert
    cases hinsert
  | ok r =>
    rw [hcall] at hinsert
    cases hinsert
    obtain ⟨pager₁, hshows₁, hrun⟩ := hbeside.run_borrowHalf_some h hlends hcall pageId
    obtain ⟨pager₂, d₂, hwrite₂, hshows₂, hwrites₂⟩ := hinserted.ok.writable.run_write hshows₁ howns
    have hleaves₂ := hwrites₂.leafWrites hleaf
    have hsub := side.rest_sublist donor
    have hused := (LeafNode.used_le_of_sublist hsub).trans hdonorOk.used_le
    have hlent : Writable (donor.lent (side.rest donor)) :=
      ⟨(donor.header.edits_space _ _).isLeaf hdonorOk.header, toNat_ofNat_length hused,
        fun e he => hdonorOk.encodable e (hsub.subset he), hused⟩
    obtain ⟨pager₃, d₃, hwrite₃, hshows₃, hwrites₃⟩ := hlent.run_write hshows₂ (hwrites₂.owns.mpr hownsDonor)
    refine ⟨{ tree with pager := pager₃ }, d₃, ?_, hshows₃, rfl, ?_, ?_⟩
    · rw [hrun, run_bind_of_ok (@BTree.run_onPager_of_ok _ _ { tree with pager := pager₁ } _ _ hwrite₂),
        run_bind_of_ok (@BTree.run_onPager_of_ok _ _ { tree with pager := pager₂ } _ _ hwrite₃)]
      rfl
    · exact hleaves₂.trans (hwrites₃.leafWrites (hleaves₂.leaves _ ⟨donor, hdonor⟩))
    · rw [entriesAt_eq hwrites₃.node]
      rfl

theorem not_deleteFrame_of_borrows (h : Shows env tree.pager d m)
    (hlinked : Linked env.crc d tree.rootPageId) (hborrows : Borrows d tree.rootPageId key) :
    ∃ tree', (BTree.delete env key).run tree = .ok () tree' ∧ ¬ DeleteFrame env tree tree' key := by
  obtain ⟨pageId, leaf, left, side, donor, entry, hfor, hdelete, hlends⟩ := hborrows
  obtain ⟨pageId', leaf', result, left', above, tree₁, d₁, hfor', hdelete', htaken, hshows₁, hroot₁, hrun⟩ :=
    run_delete_front h hlinked key
  rw [hfor] at hfor'
  cases hfor'
  rw [hdelete] at hdelete'
  cases hdelete'
  obtain ⟨hprev, hnext⟩ := htaken.siblings hlinked
  have hlends₁ : Lends d₁ left side donor entry := (lends_congr hprev hnext).mpr hlends
  obtain ⟨tree₂, d₂, hborrow, hshows₂, hroot₂, hlent⟩ := (htaken.beside hlinked).run_borrow htaken.removed.ok
    (htaken.writes.owns.mpr (hlinked.owned _ htaken.under.reachable))
    (htaken.writes.leaves _ ⟨leaf, htaken.under.node⟩) hshows₁ hlends₁
  have hwrites := htaken.writes.trans hlent.writes
  have hdone : (BTree.delete env key).run tree = .ok () tree₂ :=
    hrun.trans (run_handleLeafUnderflow_some _ hborrow)
  -- where the entry was
  obtain ⟨hunder, hne⟩ := htaken.donor_under hlinked hlends.stands
  have hmem := BorrowDirection.mem_of_moved hlends.moved
  have hpage := hlinked.placed _ _ hunder entry hmem
  have hkey : entry.key ≠ key := by
    intro heq
    rw [heq, htaken.page] at hpage
    exact hne (Option.some.inj hpage).symm
  have hsorted : Sorted Entry.key donor.entries := (hlinked.leaf _ _ hunder).sorted
  have hbefore : bindingOf d tree.rootPageId entry.key = some entry := by
    rw [bindingOf, leafFor_eq_some.mpr ⟨hpage, hunder.node⟩]
    dsimp only
    rw [find_of_sorted hsorted]
    exact lookup_eq_some hsorted hmem rfl
  have hafter : bindingOf d₂ tree.rootPageId entry.key = none := by
    obtain ⟨new, hnew⟩ := hwrites.leaves _ ⟨donor, hunder.node⟩
    have hentries := hlent.entries
    rw [entriesAt_eq hnew] at hentries
    rw [bindingOf, leafFor_eq_some.mpr ⟨(hwrites.leafPage _ _).trans hpage, hnew⟩]
    dsimp only
    rw [find_of_sorted (by rw [hentries]; exact hsorted.sublist (side.rest_sublist donor)), hentries]
    exact lookup_eq_none (BorrowDirection.rest_ne hlends.moved hsorted)
  refine ⟨tree₂, hdone, fun hframe => ?_⟩
  obtain ⟨value, hreads⟩ := hlinked.values _ _ hunder entry hmem
  obtain ⟨t, hfound⟩ : ∃ after, (BTree.getWithPages env entry.key entry.lsn).run tree = .ok (some value) after := by
    apply run_get_binding h rfl hlinked (.refl d)
    rw [hbefore]
    exact .found (UInt64.le_refl entry.lsn) hreads
  obtain ⟨t', hgone⟩ : ∃ after, (BTree.getWithPages env entry.key entry.lsn).run tree₂ = .ok none after := by
    apply run_get_binding hshows₂ (hroot₂.trans hroot₁) hlinked hwrites
    rw [hafter]
    exact .missing
  obtain ⟨t'', hsame⟩ := (hframe.others entry.key hkey entry.lsn (some value)).mp ⟨t, hfound⟩
  rw [hgone] at hsame
  cases hsame

end runs

end Northstar.Btree
