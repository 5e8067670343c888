import Northstar.Btree.Put

/-!
# Remove — what a deletion does to the table

A deletion takes the entry out of its leaf.  When that leaves the leaf underfull, the last entry of
the left sibling may move over; a merge never happens, because no leaf has a right sibling.
-/

namespace Northstar.Btree

open SortedEntries EStateM
open Node (stampLeaf Encodable)

/-- The leaf after a deletion and, if an entry was borrowed for it, the donor. -/
def planDelete (d : Disk) (leaf : LeafNode) (key : Bytes) : LeafNode × Option (PageId × LeafNode) :=
  match deleteFromLeaf leaf key with
  | (.success, leaf) => (leaf, none)
  | (.underfull, leaf) =>
    if leaf.prevLeaf = 0 then (leaf, none)
    else
      match nodeAt d leaf.prevLeaf with
      | some (.leaf donor) =>
        match planBorrow leaf donor with
        | some (borrower, donor) => (borrower, some (leaf.prevLeaf, donor))
        | none => (leaf, none)
      | _ => (leaf, none)

/-- What a delete will do: the leaf it writes, its new content and the donor. -/
def deletePlan (d : Disk) (root : PageId) (key : Bytes) :
    Option (PageId × LeafNode × Option (PageId × LeafNode)) :=
  match leafFor d root key with
  | none => none
  | some (pageId, leaf) => some (pageId, planDelete d leaf key)

structure DeleteDone (d d' : Disk) (pageId : PageId) (left : List Entry)
    (donor : Option (PageId × LeafNode)) : Prop where
  sound : Sound d'
  ext : Extends d d'
  carries : Carries d d' []
  leaf : entriesAt d' pageId = left
  lender : ∀ donorId node, donor = some (donorId, node) → entriesAt d' donorId = node.entries
  others : ∀ other, d.Owns other → other ≠ pageId → (∀ node, donor ≠ some (other, node)) →
    entriesAt d' other = entriesAt d other

variable {pageId : PageId}

theorem deleteFromLeaf_removed {node : LeafNode} (h : LeafOk pageId node)
    (key : Bytes) : ∃ result node', deleteFromLeaf node key = (result, node') ∧
      Removed pageId node node' key := by
  rcases h.remove key with ⟨removed, node', hremove, hremoved, -⟩
  refine ⟨(deleteFromLeaf node key).1, node', ?_, hremoved⟩
  unfold deleteFromLeaf
  rw [hremove]
  dsimp only
  split <;> rfl

theorem Removed.mem {node node' : LeafNode} {key : Bytes} {e : Entry}
    (h : Removed pageId node node' key) (he : e ∈ node'.entries) : e ∈ node.entries := by
  have hlookup := lookup_eq_some h.ok.sorted he rfl
  rw [h.lookup] at hlookup
  split at hlookup
  · cases hlookup
  · exact (mem_of_lookup hlookup).1

section calls

variable {env : Env} {m : MetaState}

theorem run_readSibling_zero (pager : Pager) : (readSibling env 0).run pager = .ok none pager := by
  unfold readSibling
  rw [if_pos rfl, run_pure]

variable {d : Disk}

theorem run_readSibling {pager : Pager} (h : Shows env pager d m) {link : PageId}
    (hlink : link ≠ 0) (howns : d.Owns link) {donor : LeafNode}
    (hdonor : nodeAt d link = some (.leaf donor)) :
    ∃ pager', (readSibling env link).run pager = .ok (some donor) pager' ∧
      Shows env pager' d m := by
  rcases run_readBtreeNode h howns hdonor with ⟨pager', hread, hshows⟩
  refine ⟨pager', ?_, hshows⟩
  unfold readSibling
  rw [if_neg hlink, run_bind_of_ok (run_attempt_of_ok hread)]
  rfl

variable {underfull : LeafNode}

theorem run_mergeHalf (hlast : underfull.nextLeaf = 0) (path : BTree.Path)
    (tree : BTree) : (BTree.mergeHalf env underfull path).run tree = .ok () tree := by
  have hcandidates : ∃ c : MergeCandidates,
      (getLeafMergeCandidates env underfull).run tree.pager = .ok c tree.pager ∧
      c.rightPageId = none ∧ c.recommendedDirection ≠ some .rightIntoLeft := by
    unfold getLeafMergeCandidates
    by_cases hprev : underfull.prevLeaf ≠ 0
    · refine ⟨⟨some underfull.prevLeaf, none, some .leftIntoRight⟩, ?_, rfl, (nomatch ·)⟩
      simp only [if_pos hprev, hlast, ne_eq, not_true_eq_false, if_false, run_pure]
    · refine ⟨⟨none, none, none⟩, ?_, rfl, by decide⟩
      simp only [if_neg hprev, hlast, ne_eq, not_true_eq_false, if_false, run_pure]
  rcases hcandidates with ⟨c, hrun, hright, hdirection⟩
  unfold BTree.mergeHalf
  rw [run_bind_of_ok (BTree.run_onPager_of_ok (run_attempt_of_ok hrun))]
  dsimp only
  by_cases hcan : c.canMerge = true
  · rw [if_pos hcan]
    cases hrec : c.recommendedDirection with
    | none => rfl
    | some direction =>
      cases direction with
      | rightIntoLeft => exact absurd hrec hdirection
      | leftIntoRight =>
        dsimp only
        rw [hright]
        rfl
  · rw [if_neg hcan]
    rfl

theorem run_borrowHalf_alone (hlast : underfull.nextLeaf = 0)
    (hprev : underfull.prevLeaf = 0) (pageId : PageId) (tree : BTree) :
    (BTree.borrowHalf env pageId underfull).run tree = .ok false tree := by
  have hcandidates : (getLeafBorrowCandidates env underfull).run tree.pager =
      .ok ⟨none, none, 0, 0⟩ tree.pager := by
    unfold getLeafBorrowCandidates
    rw [hprev, hlast, run_bind_of_ok (run_readSibling_zero _),
      run_bind_of_ok (run_readSibling_zero _), run_pure]
    rfl
  unfold BTree.borrowHalf
  rw [run_bind_of_ok (BTree.run_onPager_of_ok (run_attempt_of_ok hcandidates))]
  rfl

theorem excess_pos_of_canBorrow {donor borrower : UInt16}
    (h : canBorrowFromSibling donor borrower = true) : saturatingSub donor calculateMinKeys > 0 := by
  unfold canBorrowFromSibling at h
  simpa using (Bool.and_eq_true_iff.mp h).1

theorem run_borrowHalf {d : Disk} {tree : BTree} (h : Shows env tree.pager d m)
    {pageId : PageId} (hlast : underfull.nextLeaf = 0)
    (hprev : underfull.prevLeaf ≠ 0) (howns : d.Owns underfull.prevLeaf) {donor : LeafNode}
    (hdonor : nodeAt d underfull.prevLeaf = some (.leaf donor)) :
    ∃ pager', Shows env pager' d m ∧ (BTree.borrowHalf env pageId underfull).run tree =
      (match planBorrow underfull donor with
        | some (underfull', donor') => do
          BTree.onPager (Pager.writeBtreeNode env pageId (.leaf underfull'))
          BTree.onPager (Pager.writeBtreeNode env underfull.prevLeaf (.leaf donor'))
          pure true
        | none => pure false : TreeM Bool).run { tree with pager := pager' } := by
  rcases run_readSibling h hprev howns hdonor with ⟨pager₁, hread₁, hshows₁⟩
  let excess := saturatingSub donor.header.numKeys calculateMinKeys
  let c : BorrowCandidates := ⟨some underfull.prevLeaf, none, excess, 0⟩
  have hcandidates : (getLeafBorrowCandidates env underfull).run tree.pager = .ok c pager₁ := by
    unfold getLeafBorrowCandidates
    rw [run_bind_of_ok hread₁, hlast, run_bind_of_ok (run_readSibling_zero _),
      run_pure]
    rfl
  -- the outcome of a call whose candidates are known
  have hfront {r} (hrest : EStateM.run _ { tree with pager := pager₁ } = r) :
      (BTree.borrowHalf env pageId underfull).run tree = r :=
    (run_bind_of_ok (BTree.run_onPager_of_ok (run_attempt_of_ok hcandidates))).trans hrest
  by_cases hexcess : excess > 0
  · have hcan : c.canBorrow = true := by simp [c, BorrowCandidates.canBorrow, hexcess]
    have hdirection : c.recommendedDirection = some .fromLeft := by
      simp [c, BorrowCandidates.recommendedDirection, hexcess]
    rcases run_readBtreeNode hshows₁ howns hdonor with ⟨pager₂, hread₂, hshows₂⟩
    refine ⟨pager₂, hshows₂, ?_⟩
    apply hfront
    dsimp only
    rw [if_pos hcan, hdirection]
    dsimp only
    unfold BTree.borrowInto
    show EStateM.run (BTree.onPager (EStateM.attempt Fault.isErr
      (Pager.readBtreeNode env underfull.prevLeaf)) >>= _) _ = _
    rw [run_bind_of_ok (@BTree.run_onPager_of_ok _ _ { tree with pager := pager₁ } _ _
      (run_attempt_of_ok hread₂))]
    dsimp only
    unfold planBorrow
    cases borrowFromLeftLeaf underfull donor with
    | error e => rfl
    | ok moved =>
      cases moved with
      | none => rfl
      | some moved => rfl
  · have hcan : c.canBorrow = false := by simp [c, BorrowCandidates.canBorrow, hexcess]
    have hnone : planBorrow underfull donor = none := by
      unfold planBorrow borrowFromLeftLeaf borrowFromLeaf
      cases donor.entries.getLast? with
      | none => rfl
      | some entry =>
        have hcannot : ¬ canBorrowFromSibling donor.header.numKeys underfull.header.numKeys = true :=
          fun hcan => hexcess (excess_pos_of_canBorrow hcan)
        simp only [if_pos hcannot]
    refine ⟨pager₁, hshows₁, ?_⟩
    apply hfront
    dsimp only
    rw [hcan, hnone]
    rfl

variable {tree : BTree}

theorem run_handleLeafUnderflow_none (hlast : underfull.nextLeaf = 0) (path : BTree.Path) {tree' : BTree}
    (hborrow : (BTree.borrowHalf env pageId underfull).run tree = .ok false tree') :
    (BTree.handleLeafUnderflow env pageId underfull path).run tree = .ok () tree' := by
  unfold BTree.handleLeafUnderflow
  rw [run_bind_of_ok hborrow]
  exact run_mergeHalf hlast path tree'

theorem run_handleLeafUnderflow_some (path : BTree.Path)
    {tree' : BTree} (hborrow : (BTree.borrowHalf env pageId underfull).run tree = .ok true tree') :
    (BTree.handleLeafUnderflow env pageId underfull path).run tree = .ok () tree' := by
  unfold BTree.handleLeafUnderflow
  rw [run_bind_of_ok hborrow]
  rfl

/-- What `delete` does once the leaf is written. -/
def afterDelete (env : Env) (current : PageId) (leaf : LeafNode) (path : BTree.Path) :
    DeleteResult → TreeM Unit
  | .success => pure ()
  | .underfull => BTree.handleLeafUnderflow env current leaf path

/-- The leaf branch of `delete`. -/
def deleteLeaf (env : Env) (key : Bytes) (current : PageId) (leaf : LeafNode) (path : BTree.Path) :
    TreeM Unit := do
  let (result, leaf) := deleteFromLeaf leaf key
  BTree.onPager (Pager.writeBtreeNode env current (.leaf leaf))
  afterDelete env current leaf path result

theorem run_writeRemoved {d : Disk} {tree : BTree} (h : Shows env tree.pager d m) (hsound : Sound d)
    {pageId : PageId} (howns : d.Owns pageId) {node left : LeafNode} {key : Bytes}
    (hnode : nodeAt d pageId = some (.leaf node)) (hremoved : Removed pageId node left key) :
    ∃ tree' d', (BTree.onPager (Pager.writeBtreeNode env pageId (.leaf left))).run tree =
        .ok () tree' ∧ Shows env tree'.pager d' m ∧ tree'.rootPageId = tree.rootPageId ∧
      Writes d d' pageId (.leaf (stampLeaf env.crc left)) ∧
      DeleteDone d d' pageId left.entries none := by
  rcases run_writeLeaf h howns hremoved.ok with ⟨pager', d', hrun, hshows, hwrites⟩
  have hentries : entriesAt d' pageId = left.entries := by
    rw [entriesAt_eq hwrites.node]
    rfl
  refine ⟨{ tree with pager := pager' }, d', BTree.run_onPager_of_ok hrun, hshows, rfl, hwrites, ?_⟩
  constructor
  · apply hsound.write hwrites
    · apply NodeOk.leaf (hremoved.ok.stamp env.crc)
      unfold PrevOk
      rw [show (stampLeaf env.crc left).prevLeaf = node.prevLeaf from hremoved.prev]
      exact (hsound.leaf howns hnode).2
    · exact fun _ => ⟨_, hwrites.node⟩
  · exact hwrites.extend hnode (.leaf ..)
  · apply hwrites.carries
    intro e he
    rw [hentries] at he
    exact Or.inr ⟨pageId, howns, by rw [entriesAt_eq hnode]; exact hremoved.mem he⟩
  · exact hentries
  · intro donorId node' hdonor
    cases hdonor
  · exact fun other _ hne _ => entriesAt_congr (hwrites.others other hne)

theorem run_writeBorrowed {d₀ d : Disk} {tree : BTree} (h : Shows env tree.pager d m)
    {pageId donorId : PageId} {removed : List Entry} (hdone : DeleteDone d₀ d pageId removed none)
    (howns : d₀.Owns pageId) (hdonorOwns : d₀.Owns donorId) (hne : donorId ≠ pageId)
    {old donor : LeafNode} (hnode : nodeAt d pageId = some (.leaf old))
    (hdonor : nodeAt d donorId = some (.leaf donor)) {left left' donor' : LeafNode} {entry : Entry}
    (hleft : left.entries = old.entries) (hprev : left.prevLeaf = old.prevLeaf)
    (hborrowed : Borrowed pageId donorId left donor left' donor' entry) :
    ∃ tree' d', (do
        BTree.onPager (Pager.writeBtreeNode env pageId (.leaf left'))
        BTree.onPager (Pager.writeBtreeNode env donorId (.leaf donor'))
        pure true : TreeM Bool).run tree = .ok true tree' ∧
      Shows env tree'.pager d' m ∧ tree'.rootPageId = tree.rootPageId ∧
      DeleteDone d₀ d' pageId left'.entries (some (donorId, donor')) := by
  have hsound := hdone.sound
  have howns₁ := hdone.ext.owns howns
  have hdonorOwns₁ := hdone.ext.owns hdonorOwns
  rcases run_writeLeaf h howns₁ hborrowed.inserted.ok with ⟨pager₁, d₁, hrun₁, hshows₁, hwrites₁⟩
  have hsound₁ : Sound d₁ := by
    apply hsound.write hwrites₁
    · apply NodeOk.leaf (hborrowed.inserted.ok.stamp env.crc)
      unfold PrevOk
      rw [show (stampLeaf env.crc left').prevLeaf = old.prevLeaf from
        hborrowed.inserted.prev.trans hprev]
      exact (hsound.leaf howns₁ hnode).2
    · exact fun _ => ⟨_, hwrites₁.node⟩
  have hdonor₁ : nodeAt d₁ donorId = some (.leaf donor) := by
    rw [nodeAt_congr (hwrites₁.others donorId hne)]
    exact hdonor
  rcases run_writeLeaf hshows₁ (hwrites₁.owns.mpr hdonorOwns₁) hborrowed.lender
    with ⟨pager₂, d₂, hrun₂, hshows₂, hwrites₂⟩
  have hentries : entriesAt d₂ pageId = left'.entries := by
    rw [entriesAt_congr (hwrites₂.others pageId hne.symm), entriesAt_eq hwrites₁.node]
    rfl
  have hlent : entriesAt d₂ donorId = donor'.entries := by
    rw [entriesAt_eq hwrites₂.node]
    rfl
  have holdDonor : ∀ e ∈ donor.entries, ∃ other, d.Owns other ∧ e ∈ entriesAt d other :=
    fun e he => ⟨donorId, hdonorOwns₁, by rw [entriesAt_eq hdonor]; exact he⟩
  have hcarries₁ : Carries d d₁ [] := by
    apply hwrites₁.carries
    intro e he
    rw [entriesAt_eq hwrites₁.node] at he
    rcases hborrowed.inserted.mem he with rfl | hold
    · exact Or.inr (holdDonor e (List.mem_of_getLast? hborrowed.taken))
    · exact Or.inr ⟨pageId, howns₁, by rw [entriesAt_eq hnode, ← hleft]; exact hold⟩
  have hcarries₂ : Carries d₁ d₂ [] := by
    apply hwrites₂.carries
    intro e he
    rw [hlent, hborrowed.rest] at he
    refine Or.inr ⟨donorId, hwrites₁.owns.mpr hdonorOwns₁, ?_⟩
    rw [entriesAt_eq hdonor₁]
    exact (List.dropLast_sublist _).subset he
  refine ⟨{ tree with pager := pager₂ }, d₂, ?_, hshows₂, rfl, ?_⟩
  · rw [run_bind_of_ok (BTree.run_onPager_of_ok hrun₁),
      run_bind_of_ok (@BTree.run_onPager_of_ok _ _ { tree with pager := pager₁ } _ _ hrun₂)]
    rfl
  · constructor
    · apply hsound₁.write hwrites₂
      · apply NodeOk.leaf (hborrowed.lender.stamp env.crc)
        unfold PrevOk
        rw [show (stampLeaf env.crc donor').prevLeaf = donor.prevLeaf from hborrowed.prev]
        exact (hsound₁.leaf (hwrites₁.owns.mpr hdonorOwns₁) hdonor₁).2
      · exact fun _ => ⟨_, hwrites₂.node⟩
    · exact hdone.ext.trans ((hwrites₁.extend hnode (.leaf ..)).trans
        (hwrites₂.extend hdonor₁ (.leaf ..)))
    · exact (hdone.carries.trans hcarries₁).trans hcarries₂
    · exact hentries
    · intro donorId' node' heq
      cases heq
      exact hlent
    · intro other hother hne' hnot
      have hother' : other ≠ donorId := fun heq => hnot donor' (by rw [heq])
      rw [entriesAt_congr (hwrites₂.others other hother'),
        entriesAt_congr (hwrites₁.others other hne'), hdone.others other hother hne' (fun _ => nofun)]

/-- **Delete** always succeeds, and does to the leaves what `deletePlan` says. -/
theorem run_delete (h : Shows env tree.pager d m) (hsound : Sound d)
    {rungs : List Rung} (hspine : Spine d tree.rootPageId rungs) (key : Bytes) :
    ∃ tree' d' left donor, (BTree.delete env key).run tree = .ok () tree' ∧
      Shows env tree'.pager d' m ∧ tree'.rootPageId = tree.rootPageId ∧
      deletePlan d tree.rootPageId key = some (route rungs key, left, donor) ∧
      DeleteDone d d' (route rungs key) left.entries donor := by
  rcases @run_walk env m d tree.rootPageId rungs hspine key (BTree.deleteFrom env key) (deleteLeaf env key)
    (by intro _ _ _; rw [BTree.deleteFrom]; rfl) _ (descentFuel_gt h hspine) tree h
    with ⟨pager₁, node, above, hshows₁, hnode, hdescend⟩
  have howns := (hspine.route_leaf key).1
  rcases hsound.leaf howns hnode with ⟨hok, hprevOk⟩
  rcases deleteFromLeaf_removed hok key with ⟨result, left, hdelete, hremoved⟩
  rcases @run_writeRemoved env m d { tree with pager := pager₁ } hshows₁ hsound _ howns node left
    key hnode hremoved with ⟨tree₂, d₂, hwrite, hshows₂, hroot₂, hwrites₂, hdone⟩
  have hrun : (BTree.delete env key).run tree =
      (afterDelete env (route rungs key) left ((route rungs key, .leaf node) :: above) result).run tree₂ := by
    unfold BTree.delete
    rw [run_bind_of_ok (run_get tree), hdescend]
    unfold deleteLeaf
    rw [hdelete]
    exact run_bind_of_ok hwrite
  have hplan : deletePlan d tree.rootPageId key = some (route rungs key, planDelete d node key) := by
    unfold deletePlan
    rw [hspine.leafFor hnode]
  have hlast : left.nextLeaf = 0 := hremoved.ok.last
  rw [hplan]
  unfold planDelete
  rw [hdelete]
  cases result with
  | success => exact ⟨tree₂, d₂, left, none, hrun, hshows₂, hroot₂, rfl, hdone⟩
  | underfull =>
    dsimp only at hrun ⊢
    rcases hprevOk with hzero | ⟨hprevOwns, hlt, donor, hdonor⟩
    · have hzero : left.prevLeaf = 0 := hremoved.prev.trans hzero
      rw [if_pos hzero]
      have hborrow := @run_borrowHalf_alone env left hlast hzero (route rungs key) tree₂
      exact ⟨tree₂, d₂, left, none, hrun.trans (run_handleLeafUnderflow_none hlast _ hborrow),
        hshows₂, hroot₂, rfl, hdone⟩
    · rw [← hremoved.prev] at hprevOwns hlt hdonor
      have hne : left.prevLeaf ≠ route rungs key := fun heq => by
        rw [heq] at hlt
        exact Nat.lt_irrefl _ hlt
      have hnonzero : left.prevLeaf ≠ 0 := fun hzero => by
        have hfirst := hprevOwns.1
        rw [hzero] at hfirst
        exact absurd hfirst (by decide)
      have hdonor₂ : nodeAt d₂ left.prevLeaf = some (.leaf donor) := by
        rw [nodeAt_congr (hwrites₂.others _ hne)]
        exact hdonor
      rcases @run_borrowHalf env m left d₂ tree₂ hshows₂ (route rungs key) hlast hnonzero
        (hdone.ext.owns hprevOwns) donor hdonor₂ with ⟨pager₃, hshows₃, hborrow⟩
      rw [if_neg hnonzero, hdonor]
      dsimp only
      cases hplanBorrow : planBorrow left donor with
      | none =>
        rw [hplanBorrow] at hborrow
        exact ⟨{ tree₂ with pager := pager₃ }, d₂, left, none,
          hrun.trans (run_handleLeafUnderflow_none hlast _ hborrow), hshows₃, hroot₂, rfl, hdone⟩
      | some plan =>
        rcases plan with ⟨left', donor'⟩
        rw [hplanBorrow] at hborrow
        dsimp only at hborrow ⊢
        have hdonorOk := (hsound.leaf hprevOwns hdonor).1
        rcases borrowed_of_plan hremoved.ok hdonorOk hplanBorrow with ⟨entry, hborrowed⟩
        rcases @run_writeBorrowed env m d d₂ { tree₂ with pager := pager₃ } hshows₃ _ _ _ hdone howns
          hprevOwns hne _ donor hwrites₂.node hdonor₂ left left' donor' entry rfl rfl hborrowed
          with ⟨tree₄, d₄, hwrite₄, hshows₄, hroot₄, hdone₄⟩
        refine ⟨tree₄, d₄, left', some (left.prevLeaf, donor'), ?_, hshows₄, hroot₄.trans hroot₂, rfl,
          hdone₄⟩
        exact hrun.trans (run_handleLeafUnderflow_some _ (hborrow.trans hwrite₄))

end calls

end Northstar.Btree
