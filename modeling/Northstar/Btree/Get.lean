import Northstar.Btree.Spine

/-!
# Get — what a lookup returns

A lookup descends along the spine, finds the entry of the key in the leaf, and answers with its value
if the entry is not younger than the snapshot.  None of it changes the table.
-/

namespace Northstar.Btree

open SortedEntries EStateM

theorem find_eq_lookup {pageId : PageId} {leaf : LeafNode} (h : LeafOk pageId leaf) (key : Bytes) :
    leaf.find key = lookup Entry.key key leaf.entries := getElem?_of_binarySearch h.sorted key

/-- The answer at a snapshot for what the leaf binds to the key. -/
inductive Answers (crc : Crc) (d : Disk) (snapshotLsn : UInt64) :
    Option Entry → Option Bytes → Prop
  | missing : Answers crc d snapshotLsn none none
  | hidden {e : Entry} (young : ¬ e.lsn ≤ snapshotLsn) : Answers crc d snapshotLsn (some e) none
  | found {e : Entry} {value : Bytes} (visible : e.lsn ≤ snapshotLsn)
      (reads : Reads crc d e value) : Answers crc d snapshotLsn (some e) (some value)

variable {answer : Option Bytes}

theorem Answers.keep {crc : Crc} {d d' : Disk} (hkeep : KeepsOverflow d d') {snapshotLsn : UInt64}
    {found : Option Entry} (h : Answers crc d snapshotLsn found answer) :
    Answers crc d' snapshotLsn found answer := by
  cases h with
  | missing => exact .missing
  | hidden young => exact .hidden young
  | found visible reads => exact .found visible (reads.keep hkeep)

/-- A binding that is seen: `Answers` without the hidden case. -/
inductive Bound (crc : Crc) (d : Disk) (snapshotLsn : UInt64) : Option Entry → Option Bytes → Prop
  | missing : Bound crc d snapshotLsn none none
  | found {e : Entry} {value : Bytes} (visible : e.lsn ≤ snapshotLsn)
      (reads : Reads crc d e value) : Bound crc d snapshotLsn (some e) (some value)

namespace Bound

variable {crc : Crc} {d : Disk} {snapshotLsn : UInt64} {found : Option Entry} {value : Option Bytes}

theorem answers (h : Bound crc d snapshotLsn found value) :
    Answers crc d snapshotLsn found value := by
  cases h with
  | missing => exact .missing
  | found visible reads => exact .found visible reads

theorem keep {d' : Disk} (hkeep : KeepsOverflow d d') (h : Bound crc d snapshotLsn found value) :
    Bound crc d' snapshotLsn found value := by
  cases h with
  | missing => exact .missing
  | found visible reads => exact .found visible (reads.keep hkeep)

theorem mono {later : UInt64} (hle : snapshotLsn ≤ later) (h : Bound crc d snapshotLsn found value) :
    Bound crc d later found value := by
  cases h with
  | missing => exact .missing
  | found visible reads => exact .found (UInt64.le_trans visible hle) reads

end Bound

section calls

variable {env : Env} {d : Disk} {m : MetaState}

variable {pager : Pager} {root : PageId} {rungs : List Rung}

theorem run_resolve (h : Shows env pager d m) {snapshotLsn : UInt64}
    {found : Option Entry}
    (hanswer : Answers env.crc d snapshotLsn found answer) :
    ∃ pager', (BTree.resolve env snapshotLsn found).run pager = .ok answer pager' ∧
      Shows env pager' d m := by
  cases hanswer with
  | missing => exact ⟨pager, rfl, h⟩
  | hidden young =>
    refine ⟨pager, ?_, h⟩
    unfold BTree.resolve
    dsimp only
    rw [if_neg young, run_pure]
  | @found e value visible reads =>
    unfold BTree.resolve
    dsimp only
    rw [if_pos visible]
    cases reads with
    | inline plain =>
      refine ⟨pager, ?_, h⟩
      have hplain : isOverflowValue e = false := plain
      rw [if_neg (by simp [hplain]), run_pure]
    | @chain n pageId value reference decodes short pages =>
      have hvisited : ∀ v ∈ ([] : List PageId), v.toNat < pageId.toNat := fun _ hv => nomatch hv
      rcases run_readChain pages h [] (short.trans (by decide : 2000 ≤ 2001)) hvisited
        (by rw [List.length_nil]; omega) with ⟨pager', hread, hshows⟩
      refine ⟨pager', ?_, hshows⟩
      have hreference : isOverflowValue e = true := reference
      rw [if_pos hreference, decodes, run_bind_of_ok (run_lift_ok _ pager)]
      show EStateM.run (some <$> Pager.readChain env 2001 [] _ []) pager = _
      rw [map_eq_pure_bind, run_bind_of_ok hread]
      rfl

theorem run_resolve_dangling (h : Shows env pager d m) {snapshotLsn : UInt64}
    {e : Entry} (hvisible : e.lsn ≤ snapshotLsn) (hreference : looksLikeReference e.value = true)
    {pageId : PageId} (hdecode : ValueStorage.decode e.value = .ok (.overflow pageId))
    (hpage : d.pages pageId = none) :
    ∃ err, (BTree.resolve env snapshotLsn (some e)).run pager = .error (.err err) pager := by
  rcases h.run_readThrough_missing (Pager.validatePageBuffer env.crc pageId) hpage with ⟨err, hread⟩
  have hchain : (Pager.readOverflowChain env pageId).run pager = .error (.err err) pager := by
    unfold Pager.readOverflowChain Pager.readChain
    rw [if_neg List.not_mem_nil, if_neg (by decide)]
    apply run_bind_of_error
    exact run_bind_of_error hread
  refine ⟨err, ?_⟩
  unfold BTree.resolve
  dsimp only
  rw [if_pos hvisible, if_pos (show isOverflowValue e = true from hreference), hdecode,
    run_bind_of_ok (run_lift_ok _ pager)]
  dsimp only
  rw [map_eq_pure_bind, run_bind_of_error hchain]

theorem descentFuel_gt (h : Shows env pager d m) (hspine : Spine d root rungs) :
    rungs.length < BTree.descentFuel pager := by
  have hlength := hspine.length_lt
  have howns := hspine.owns_root.2
  have hcount : d.next.toNat ≤ pager.storage.pageCount := by
    apply (Nat.le_div_iff_mul_le (by decide)).mpr
    exact h.filled
  unfold BTree.descentFuel
  omega

theorem run_getFrom (hspine : Spine d root rungs)
    (hsound : Sound d) (key : Bytes) (snapshotLsn : UInt64) {fuel : Nat}
    (hfuel : rungs.length < fuel) (h : Shows env pager d m)
    (hanswer : Answers env.crc d snapshotLsn
      (lookup Entry.key key (entriesAt d (route rungs key))) answer) :
    ∃ pager', (BTree.getFrom env key snapshotLsn fuel root).run pager = .ok answer pager' ∧
      Shows env pager' d m := by
  refine hspine.descent (· ≤ key) (route · key) (fun pager => Shows env pager d m)
    (fun fuel pageId pager => ∃ pager', (BTree.getFrom env key snapshotLsn fuel pageId).run pager =
      .ok answer pager' ∧ Shows env pager' d m) rfl (fun _ _ => rfl) ?_ ?_ hfuel h
  · intro fuel pager h howns ⟨leaf, hleaf⟩
    rcases run_readBtreeNode h howns hleaf with ⟨pager₁, hread, hshows₁⟩
    rw [entriesAt_eq hleaf, ← find_eq_lookup (hsound.leaf howns hleaf).1] at hanswer
    rcases run_resolve hshows₁ hanswer with ⟨pager₂, hresolve, hshows₂⟩
    refine ⟨pager₂, ?_, hshows₂⟩
    unfold BTree.getFrom
    rw [run_bind_of_ok hread]
    exact hresolve
  · intro fuel pager pageId header sep below page h howns hnode
    rcases run_readBtreeNode h howns hnode with ⟨pager₁, hread, hshows₁⟩
    refine ⟨pager₁, hshows₁, fun hchild => ?_⟩
    unfold BTree.getFrom
    rw [run_bind_of_ok hread]
    dsimp only
    rw [findChild_branch, run_bind_of_ok (run_lift_ok _ _)]
    exact hchild

theorem run_getWithPages (hspine : Spine d root rungs)
    (hsound : Sound d) {tree : BTree} (hroot : tree.rootPageId = root)
    (h : Shows env tree.pager d m) (key : Bytes) (snapshotLsn : UInt64)
    (hanswer : Answers env.crc d snapshotLsn
      (lookup Entry.key key (entriesAt d (route rungs key))) answer) :
    ∃ pager', (BTree.getWithPages env key snapshotLsn).run tree =
      .ok answer { tree with pager := pager' } ∧ Shows env pager' d m := by
  rcases run_getFrom hspine hsound key snapshotLsn (descentFuel_gt h hspine) h hanswer
    with ⟨pager', hrun, hshows⟩
  refine ⟨pager', ?_, hshows⟩
  unfold BTree.getWithPages
  rw [run_bind_of_ok (run_get tree), hroot]
  have hcall := BTree.run_onPager_of_ok hrun
  rw [hroot] at hcall
  exact hcall

theorem run_new (hspine : Spine d root rungs) (hsound : Sound d) (h : Shows env pager d m) :
    ∃ pager' height, (BTree.new env root).run pager = .ok ⟨pager', root, height⟩ pager' ∧
      Shows env pager' d m := by
  cases hspine with
  | base owns leaf =>
    rcases leaf with ⟨leaf, hleaf⟩
    rcases run_readBtreeNode h owns hleaf with ⟨pager', hread, hshows⟩
    have htype : (Node.leaf leaf).header.getNodeType = some .leaf := by
      show NodeType.fromU8 leaf.header.nodeType = _
      rw [(hsound.leaf owns hleaf).1.header.nodeType]
      rfl
    refine ⟨pager', 0, ?_, hshows⟩
    unfold BTree.new
    rw [run_bind_of_ok hread, htype]
    rfl
  | @rung rung below header rungs owns node leaf older above tail =>
    rcases run_readBtreeNode h owns node with ⟨pager', hread, hshows⟩
    refine ⟨pager', header.level, ?_, hshows⟩
    have htype : (Node.internal ⟨header, [rung.sep], [below, rung.page]⟩).header.getNodeType =
        some .internal := by
      show NodeType.fromU8 header.nodeType = _
      rw [(hsound.internal owns node).header.nodeType]
      rfl
    unfold BTree.new
    rw [run_bind_of_ok hread, htype]
    rfl

end calls

end Northstar.Btree
