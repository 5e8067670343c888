import Northstar.Btree.Search

/-!
# Scan — the items of a key range

`btree/tree.rs`: a scan descends to one leaf and follows the links to the right from there.  No split sets a link,
so it never leaves the leaf it starts in, and it hands out the value fields as they are stored.
-/

namespace Northstar.Btree

open Pager SortedEntries EStateM

structure ScanItem where
  key : Bytes
  value : Bytes
  lsn : UInt64
  deriving Repr, DecidableEq

def Entry.scanItem (entry : Entry) : ScanItem := ⟨entry.key, entry.value, entry.lsn⟩

def scanEntries (start stop : Option Bytes) (snapshotLsn : UInt64) : List Entry → List ScanItem
  | [] => []
  | entry :: entries =>
    if start.any (fun startKey => entry.key < startKey) then scanEntries start stop snapshotLsn entries
    else if stop.any (fun endKey => endKey ≤ entry.key) then []
    else if entry.lsn ≤ snapshotLsn then entry.scanItem :: scanEntries start stop snapshotLsn entries
    else scanEntries start stop snapshotLsn entries

namespace BTree

/-- The descent to a leaf, `childOf` being the choice of a child. -/
def findLeafBy (env : Env) (childOf : InternalNode → Except Fault PageId) : Nat → PageId → PagerM PageId
  | 0, _ => throw .diverge
  | fuel + 1, current => do
    match ← readBtreeNode env current with
    | .internal node =>
      let child ← EStateM.lift (childOf node)
      findLeafBy env childOf fuel child
    | .leaf _ => pure current

def findLeafForKey (env : Env) (key : Bytes) : TreeM PageId := do
  let tree ← get
  onPager (findLeafBy env (fun node => node.findChild key) (descentFuel tree.pager) tree.rootPageId)

def leftmostChild (node : InternalNode) : Except Fault PageId :=
  match node.children.head? with
  | some child => .ok child
  | none => .error (.err (.validation (.generic "Internal node has no children")))

def findLeftmostLeaf (env : Env) : TreeM PageId := do
  let tree ← get
  onPager (findLeafBy env leftmostChild (descentFuel tree.pager) tree.rootPageId)

/-- The walk along the links to the right. -/
def scanFrom (env : Env) (start stop : Option Bytes) (snapshotLsn : UInt64) :
    Nat → PageId → List ScanItem → PagerM (List ScanItem)
  | 0, current, items => if current = 0 then pure items else throw .diverge
  | fuel + 1, current, items =>
    if current = 0 then pure items
    else do
      match ← readBtreeNode env current with
      | .internal _ => pure items
      | .leaf leaf =>
        -- the end key stops the loop over the entries only: the page id it sets is overwritten by the link
        scanFrom env start stop snapshotLsn fuel leaf.nextLeaf
          (items ++ scanEntries start stop snapshotLsn leaf.entries)

def findStartPage (env : Env) : Option Bytes → TreeM PageId
  | some startKey => findLeafForKey env startKey
  | none => findLeftmostLeaf env

def scanWithPages (env : Env) (start stop : Option Bytes) (snapshotLsn : UInt64) : TreeM (List ScanItem) := do
  let startPage ← findStartPage env start
  let tree ← get
  onPager (scanFrom env start stop snapshotLsn (descentFuel tree.pager) startPage [])

end BTree

/-- The keys between the two ends, where they are given. -/
def InRange (start stop : Option Bytes) (key : Bytes) : Prop :=
  (∀ startKey ∈ start, startKey ≤ key) ∧ ∀ endKey ∈ stop, key < endKey

section entries

variable {start stop : Option Bytes} {snapshotLsn : UInt64} {entries : List Entry}

theorem scanEntries_sublist (start stop : Option Bytes) (snapshotLsn : UInt64) (entries : List Entry) :
    (scanEntries start stop snapshotLsn entries).Sublist (entries.map Entry.scanItem) := by
  induction entries with
  | nil => exact List.Sublist.refl _
  | cons entry entries ih =>
    unfold scanEntries
    rw [List.map_cons]
    split
    · exact ih.cons _
    · split
      · exact List.nil_sublist _
      · split
        · exact ih.cons_cons _
        · exact ih.cons _

theorem pairwise_scanEntries (h : Sorted Entry.key entries) :
    (scanEntries start stop snapshotLsn entries).Pairwise fun a b => a.key < b.key := by
  apply List.Pairwise.sublist (scanEntries_sublist start stop snapshotLsn entries)
  exact List.pairwise_map.mpr h

theorem mem_scanEntries (h : Sorted Entry.key entries) {item : ScanItem} :
    item ∈ scanEntries start stop snapshotLsn entries ↔
      ∃ e ∈ entries, InRange start stop e.key ∧ e.lsn ≤ snapshotLsn ∧ item = e.scanItem := by
  induction entries with
  | nil => simp [scanEntries]
  | cons entry entries ih =>
    rcases List.pairwise_cons.mp h with ⟨habove, hrest⟩
    have ih := ih hrest
    rw [List.exists_mem_cons_iff]
    unfold scanEntries
    by_cases hbelow : start.any (fun startKey => entry.key < startKey)
    · rw [if_pos hbelow, ih]
      have hout : ¬ InRange start stop entry.key := by
        rintro ⟨hstart, -⟩
        rcases Option.any_eq_true _ _ |>.mp hbelow with ⟨startKey, hmem, hlt⟩
        exact (hstart startKey hmem).not_gt (of_decide_eq_true hlt)
      simp [hout]
    · rw [if_neg hbelow]
      by_cases hstop : stop.any (fun endKey => endKey ≤ entry.key)
      · -- every entry from here on is too large
        rw [if_pos hstop]
        rcases Option.any_eq_true _ _ |>.mp hstop with ⟨endKey, hmem, hle⟩
        have hle : endKey ≤ entry.key := of_decide_eq_true hle
        constructor
        · exact fun hitem => nomatch hitem
        · rintro (⟨⟨-, hend⟩, -⟩ | ⟨e, he, ⟨-, hend⟩, -⟩)
          · exact absurd (hend endKey hmem) hle.not_gt
          · exact absurd (hend endKey hmem) (hle.trans (habove e he).le).not_gt
      · rw [if_neg hstop]
        have hin : InRange start stop entry.key := by
          constructor
          · intro startKey hmem
            by_contra hlt
            exact hbelow (Option.any_eq_true _ _ |>.mpr ⟨startKey, hmem, decide_eq_true (not_le.mp hlt)⟩)
          · intro endKey hmem
            by_contra hle
            exact hstop (Option.any_eq_true _ _ |>.mpr ⟨endKey, hmem, decide_eq_true (not_lt.mp hle)⟩)
        by_cases hvisible : entry.lsn ≤ snapshotLsn
        · rw [if_pos hvisible, List.mem_cons, ih]
          simp [hin, hvisible]
        · rw [if_neg hvisible, ih]
          simp [hvisible]

end entries

/-- The leftmost leaf, read off the table. -/
def descendLeft (d : Disk) : Nat → PageId → Option PageId
  | 0, _ => none
  | fuel + 1, current =>
    match nodeAt d current with
    | some (.internal node) =>
      match BTree.leftmostChild node with
      | .ok child => descendLeft d fuel child
      | .error _ => none
    | some (.leaf _) => some current
    | none => none

def scanPage (d : Disk) (root : PageId) : Option Bytes → Option PageId
  | some startKey => leafPage d root startKey
  | none => descendLeft d d.next.toNat root

/-- The same along a spine. -/
def scanRoute (rungs : List Rung) : Option Bytes → PageId
  | some startKey => route rungs startKey
  | none => PageId.firstData

variable {rungs : List Rung}

theorem Spine.descendLeft {d : Disk} {root : PageId} (h : Spine d root rungs) {fuel : Nat}
    (hfuel : rungs.length < fuel) : descendLeft d fuel root = some PageId.firstData := by
  induction h generalizing fuel with
  | base owns leaf =>
    rcases leaf with ⟨leaf, hleaf⟩
    cases fuel with
    | zero => exact absurd hfuel (Nat.not_lt_zero _)
    | succ fuel => rw [Northstar.Btree.descendLeft, hleaf]
  | @rung rung below header rungs owns node leaf older above tail ih =>
    cases fuel with
    | zero => exact absurd hfuel (Nat.not_lt_zero _)
    | succ fuel =>
      rw [Northstar.Btree.descendLeft, node]
      exact ih (Nat.lt_of_succ_lt_succ hfuel)

theorem Spine.scanPage {d : Disk} {root : PageId} (h : Spine d root rungs)
    (start : Option Bytes) : scanPage d root start = some (scanRoute rungs start) := by
  cases start with
  | some startKey => exact h.leafPage startKey
  | none => exact h.descendLeft (h.length_lt.trans h.owns_root.2)

theorem scanRoute_mem_leaves (rungs : List Rung) (start : Option Bytes) : scanRoute rungs start ∈ leaves rungs := by
  cases start with
  | some startKey => exact route_mem_leaves rungs startKey
  | none =>
    induction rungs with
    | nil => exact List.mem_singleton_self _
    | cons rung rungs ih => exact List.mem_cons_of_mem _ ih

theorem Spine.scanRoute_leaf {d : Disk} {root : PageId} (h : Spine d root rungs)
    (start : Option Bytes) : d.Owns (scanRoute rungs start) ∧ IsLeafAt d (scanRoute rungs start) := by
  obtain ⟨howns, hleaf, -⟩ := h.leaf_of_mem (scanRoute_mem_leaves rungs start)
  exact ⟨howns, hleaf⟩

variable {pageId : PageId}

section calls

variable {env : Env} {d : Disk} {m : MetaState} {root : PageId}

theorem run_findLeafBy (hspine : Spine d root rungs) {childOf : InternalNode → Except Fault PageId}
    {right : Bytes → Bool} {dest : List Rung → PageId}
    (hchild : ∀ header sep below page,
      childOf ⟨header, [sep], [below, page]⟩ = .ok (if right sep then page else below))
    (hbase : dest [] = PageId.firstData)
    (hrung : ∀ rung rungs, dest (rung :: rungs) = if right rung.sep then rung.page else dest rungs)
    {fuel : Nat} (hfuel : rungs.length < fuel) {pager : Pager} (h : Shows env pager d m) :
    ∃ pager', (BTree.findLeafBy env childOf fuel root).run pager = .ok (dest rungs) pager' ∧
      Shows env pager' d m := by
  refine hspine.descent (fun sep => right sep) dest (fun pager => Shows env pager d m)
    (fun fuel pageId pager => ∃ pager', (BTree.findLeafBy env childOf fuel pageId).run pager =
      .ok (dest rungs) pager' ∧ Shows env pager' d m) hbase hrung ?_ ?_ hfuel h
  · intro fuel pager h howns ⟨leaf, hleaf⟩
    rcases run_readBtreeNode h howns hleaf with ⟨pager₁, hread, hshows₁⟩
    refine ⟨pager₁, ?_, hshows₁⟩
    unfold BTree.findLeafBy
    rw [run_bind_of_ok hread, run_pure]
  · intro fuel pager pageId header sep below page h howns hnode
    rcases run_readBtreeNode h howns hnode with ⟨pager₁, hread, hshows₁⟩
    refine ⟨pager₁, hshows₁, fun found => ?_⟩
    unfold BTree.findLeafBy
    rw [run_bind_of_ok hread]
    dsimp only
    rw [hchild, run_bind_of_ok (run_lift_ok _ _)]
    exact found

theorem run_scanFrom (howns : d.Owns pageId) {leaf : LeafNode}
    (hleaf : nodeAt d pageId = some (.leaf leaf)) (hok : LeafOk pageId leaf) (start stop : Option Bytes)
    (snapshotLsn : UInt64) {fuel : Nat} (hfuel : 0 < fuel) {pager : Pager} (h : Shows env pager d m) :
    ∃ pager', (BTree.scanFrom env start stop snapshotLsn fuel pageId []).run pager =
        .ok (scanEntries start stop snapshotLsn leaf.entries) pager' ∧ Shows env pager' d m := by
  cases fuel with
  | zero => exact absurd hfuel (Nat.lt_irrefl 0)
  | succ fuel =>
    rcases run_readBtreeNode h howns hleaf with ⟨pager₁, hread, hshows₁⟩
    refine ⟨pager₁, ?_, hshows₁⟩
    have hne : pageId ≠ 0 := by
      rintro rfl
      exact absurd howns.1 (by decide)
    unfold BTree.scanFrom
    rw [if_neg hne, run_bind_of_ok hread]
    dsimp only
    rw [hok.last, List.nil_append]
    cases fuel with
    | zero => rw [BTree.scanFrom, if_pos rfl, run_pure]
    | succ fuel => rw [BTree.scanFrom, if_pos rfl, run_pure]

theorem run_findStartPage {tree : BTree} (hspine : Spine d tree.rootPageId rungs) (h : Shows env tree.pager d m)
    (start : Option Bytes) :
    ∃ pager', (BTree.findStartPage env start).run tree =
        .ok (scanRoute rungs start) { tree with pager := pager' } ∧ Shows env pager' d m := by
  have hfuel := descentFuel_gt h hspine
  cases start with
  | some startKey =>
    have hchild : ∀ header sep below page, InternalNode.findChild ⟨header, [sep], [below, page]⟩ startKey =
        .ok (if decide (sep ≤ startKey) then page else below) := by
      intro header sep below page
      simp only [findChild_branch, decide_eq_true_eq]
    have hrung : ∀ rung rungs, route (rung :: rungs) startKey =
        if decide (rung.sep ≤ startKey) then rung.page else route rungs startKey := by
      intro rung rungs
      simp only [route, decide_eq_true_eq]
    rcases @run_findLeafBy rungs env d m _ hspine (fun node => node.findChild startKey)
      (fun sep => decide (sep ≤ startKey)) (fun rungs => route rungs startKey) hchild rfl hrung _ hfuel _ h
      with ⟨pager', hrun, hshows⟩
    refine ⟨pager', ?_, hshows⟩
    unfold BTree.findStartPage BTree.findLeafForKey
    rw [run_bind_of_ok (run_get tree)]
    exact BTree.run_onPager_of_ok hrun
  | none =>
    rcases @run_findLeafBy rungs env d m _ hspine BTree.leftmostChild (fun _ => false) (fun _ => PageId.firstData)
      (fun _ _ _ _ => rfl) rfl (fun _ _ => rfl) _ hfuel _ h with ⟨pager', hrun, hshows⟩
    refine ⟨pager', ?_, hshows⟩
    unfold BTree.findStartPage BTree.findLeftmostLeaf
    rw [run_bind_of_ok (run_get tree)]
    exact BTree.run_onPager_of_ok hrun

/-- `scan_with_pages`: the entries of the leaf it starts in, and of no other. -/
theorem run_scanWithPages (hsound : Sound d) {tree : BTree} (hspine : Spine d tree.rootPageId rungs)
    (h : Shows env tree.pager d m) (start stop : Option Bytes) (snapshotLsn : UInt64) :
    ∃ pager', (BTree.scanWithPages env start stop snapshotLsn).run tree =
        .ok (scanEntries start stop snapshotLsn (entriesAt d (scanRoute rungs start)))
          { tree with pager := pager' } ∧ Shows env pager' d m := by
  rcases run_findStartPage hspine h start with ⟨pager₁, hstart, hshows₁⟩
  rcases hspine.scanRoute_leaf start with ⟨howns, leaf, hleaf⟩
  rcases run_scanFrom howns hleaf (hsound.leaf howns hleaf).1 start stop snapshotLsn
    (Nat.succ_pos _ : 0 < BTree.descentFuel pager₁) hshows₁ with ⟨pager₂, hscan, hshows₂⟩
  refine ⟨pager₂, ?_, hshows₂⟩
  unfold BTree.scanWithPages
  rw [run_bind_of_ok hstart, run_bind_of_ok (run_get _), entriesAt_eq hleaf]
  exact @BTree.run_onPager_of_ok _ _ { tree with pager := pager₁ } _ _ hscan

end calls

/-- The value field a reader at a snapshot finds for a key in a leaf. -/
def storedAt (d : Disk) (snapshotLsn : UInt64) (key : Bytes) (pageId : PageId) : Option Bytes :=
  ((lookup Entry.key key (entriesAt d pageId)).filter fun e => e.lsn ≤ snapshotLsn).map Entry.value

theorem storedAt_eq_some_iff {d : Disk} {snapshotLsn : UInt64} {key value : Bytes} :
    storedAt d snapshotLsn key pageId = some value ↔
      ∃ e, lookup Entry.key key (entriesAt d pageId) = some e ∧ e.lsn ≤ snapshotLsn ∧ e.value = value := by
  simp [storedAt, Option.filter_eq_some_iff, and_assoc]

/-- The items of the scan are the bindings a lookup at the snapshot returns for the keys of the range. -/
def ScanAgrees (env : Env) (tree : BTree) (start stop : Option Bytes) (snapshotLsn : UInt64) : Prop :=
  ∃ items tree', (BTree.scanWithPages env start stop snapshotLsn).run tree = .ok items tree' ∧
    (items.Pairwise fun a b => a.key < b.key) ∧
      ∀ key value, (∃ item ∈ items, item.key = key ∧ item.value = value) ↔
        InRange start stop key ∧
          ∃ tree', (BTree.getWithPages env key snapshotLsn).run tree = .ok (some value) tree'

/-- Every key of the range is bound in the leaf the scan starts in as it is in the leaf of the key, to a value
kept in the entry. -/
def OneLeafRange (d : Disk) (root : PageId) (start stop : Option Bytes) (snapshotLsn : UInt64) : Prop :=
  ∀ key, InRange start stop key →
    (scanPage d root start).bind (storedAt d snapshotLsn key) = (leafPage d root key).bind (storedAt d snapshotLsn key) ∧
      ∀ value, (leafPage d root key).bind (storedAt d snapshotLsn key) = some value → looksLikeReference value = false

def ShortOrLong (crc : Crc) (d : Disk) (e : Entry) : Prop :=
  e.value.length ≤ inlineThreshold ∧
    (looksLikeReference e.value = true → ∃ value, Reads crc d e value ∧ inlineThreshold < value.length)

section agreement

variable {env : Env} {d : Disk} {m : MetaState} {tree : BTree} {start stop : Option Bytes}
  {snapshotLsn : UInt64} {key value : Bytes}

theorem run_getWithPages_eq (hsound : Sound d) (hspine : Spine d tree.rootPageId rungs)
    (h : Shows env tree.pager d m) {answer : Option Bytes}
    (hanswer : Answers env.crc d snapshotLsn (lookup Entry.key key (entriesAt d (route rungs key))) answer) :
    (∃ tree', (BTree.getWithPages env key snapshotLsn).run tree = .ok (some value) tree') ↔ answer = some value := by
  rcases run_getWithPages hspine hsound rfl h key snapshotLsn hanswer with ⟨pager', hrun, -⟩
  constructor
  · rintro ⟨tree', hget⟩
    rw [hrun] at hget
    cases hget
    rfl
  · rintro rfl
    exact ⟨_, hrun⟩

theorem answers_of_storedAt_none (h : storedAt d snapshotLsn key pageId = none) :
    Answers env.crc d snapshotLsn (lookup Entry.key key (entriesAt d pageId)) none := by
  cases hfound : lookup Entry.key key (entriesAt d pageId) with
  | none => exact .missing
  | some e =>
    apply Answers.hidden
    intro hvisible
    have hstored := storedAt_eq_some_iff.mpr ⟨e, hfound, hvisible, rfl⟩
    rw [h] at hstored
    cases hstored

theorem answers_of_storedAt_some (h : storedAt d snapshotLsn key pageId = some value)
    (hplain : looksLikeReference value = false) :
    Answers env.crc d snapshotLsn (lookup Entry.key key (entriesAt d pageId)) (some value) := by
  rcases storedAt_eq_some_iff.mp h with ⟨e, hfound, hvisible, rfl⟩
  rw [hfound]
  exact .found hvisible (.inline hplain)

theorem exists_item_iff (hsound : Sound d) (howns : d.Owns pageId) (hleaf : IsLeafAt d pageId) :
    (∃ item ∈ scanEntries start stop snapshotLsn (entriesAt d pageId), item.key = key ∧ item.value = value) ↔
      InRange start stop key ∧ storedAt d snapshotLsn key pageId = some value := by
  rcases hleaf with ⟨leaf, hleaf⟩
  have hsorted := (hsound.leaf howns hleaf).1.sorted
  rw [← entriesAt_eq hleaf] at hsorted
  rw [storedAt_eq_some_iff]
  constructor
  · rintro ⟨item, hitem, rfl, rfl⟩
    rcases (mem_scanEntries hsorted).mp hitem with ⟨e, he, hin, hvisible, rfl⟩
    exact ⟨hin, e, lookup_eq_some hsorted he rfl, hvisible, rfl⟩
  · rintro ⟨hin, e, hfound, hvisible, rfl⟩
    rcases mem_of_lookup hfound with ⟨he, rfl⟩
    exact ⟨e.scanItem, (mem_scanEntries hsorted).mpr ⟨e, he, hin, hvisible, rfl⟩, rfl, rfl⟩

theorem scanAgrees_iff_answers (hsound : Sound d) (hspine : Spine d tree.rootPageId rungs)
    (h : Shows env tree.pager d m) : ScanAgrees env tree start stop snapshotLsn ↔
      ∀ key, InRange start stop key → ∀ value, storedAt d snapshotLsn key (scanRoute rungs start) = some value ↔
        ∃ tree', (BTree.getWithPages env key snapshotLsn).run tree = .ok (some value) tree' := by
  rcases hspine.scanRoute_leaf start with ⟨howns, hleaf⟩
  rcases run_scanWithPages hsound hspine h start stop snapshotLsn with ⟨pager', hrun, -⟩
  constructor
  · rintro ⟨items, tree', hscan, -, hagree⟩ key hin value
    rw [hrun] at hscan
    cases hscan
    have hbinding := hagree key value
    rw [exists_item_iff hsound howns hleaf] at hbinding
    exact ⟨fun hstored => (hbinding.mp ⟨hin, hstored⟩).2, fun hget => (hbinding.mpr ⟨hin, hget⟩).2⟩
  · intro hagree
    refine ⟨_, _, hrun, ?_, ?_⟩
    · rcases hleaf with ⟨leaf, hleaf⟩
      apply pairwise_scanEntries
      rw [entriesAt_eq hleaf]
      exact (hsound.leaf howns hleaf).1.sorted
    · intro key value
      rw [exists_item_iff hsound howns hleaf]
      exact and_congr_right fun hin => hagree key hin value

theorem OneLeafRange.scanAgrees (hsound : Sound d) (hspine : Spine d tree.rootPageId rungs)
    (h : Shows env tree.pager d m) (hrange : OneLeafRange d tree.rootPageId start stop snapshotLsn) :
    ScanAgrees env tree start stop snapshotLsn := by
  apply (scanAgrees_iff_answers hsound hspine h).mpr
  intro key hin value
  rcases hrange key hin with ⟨hsame, hplain⟩
  rw [hspine.scanPage, hspine.leafPage] at hsame
  rw [hspine.leafPage] at hplain
  rw [show storedAt d snapshotLsn key (scanRoute rungs start) = storedAt d snapshotLsn key (route rungs key) from hsame]
  cases hstored : storedAt d snapshotLsn key (route rungs key) with
  | none => exact (run_getWithPages_eq hsound hspine h (answers_of_storedAt_none hstored)).symm
  | some stored => exact (run_getWithPages_eq hsound hspine h (answers_of_storedAt_some hstored (hplain stored hstored))).symm

theorem ScanAgrees.oneLeafRange (hsound : Sound d) (hspine : Spine d tree.rootPageId rungs)
    (h : Shows env tree.pager d m) (hentries : ∀ pageId ∈ leaves rungs, ∀ e ∈ entriesAt d pageId, ShortOrLong env.crc d e)
    (hagree : ScanAgrees env tree start stop snapshotLsn) :
    OneLeafRange d tree.rootPageId start stop snapshotLsn := by
  have hagree := (scanAgrees_iff_answers hsound hspine h).mp hagree
  intro key hin
  rw [hspine.scanPage, hspine.leafPage]
  show storedAt d snapshotLsn key (scanRoute rungs start) = storedAt d snapshotLsn key (route rungs key) ∧ _
  have hlookup := hagree key hin
  cases hstored : storedAt d snapshotLsn key (route rungs key) with
  | none =>
    refine ⟨?_, fun value hvalue => ?_⟩
    · apply Option.eq_none_iff_forall_ne_some.mpr
      intro value hvalue
      have hget := (hlookup value).mp hvalue
      rw [run_getWithPages_eq hsound hspine h (answers_of_storedAt_none hstored)] at hget
      cases hget
    · rw [show storedAt d snapshotLsn key (route rungs key) = some value from hvalue] at hstored
      cases hstored
  | some stored =>
    rcases storedAt_eq_some_iff.mp hstored with ⟨e, hfound, hvisible, rfl⟩
    have hplain : looksLikeReference e.value = false := by
      by_contra hreference
      have hentry := hentries _ (route_mem_leaves rungs key) e (mem_of_lookup hfound).1
      rcases hentry.2 (Bool.eq_true_of_not_eq_false hreference) with ⟨long, hreads, hlong⟩
      have hanswer : Answers env.crc d snapshotLsn (lookup Entry.key key (entriesAt d (route rungs key))) (some long) := by
        rw [hfound]
        exact .found hvisible hreads
      -- the scan would have to hold the long value
      have hscan := (hlookup long).mpr ((run_getWithPages_eq hsound hspine h hanswer).mpr rfl)
      rcases storedAt_eq_some_iff.mp hscan with ⟨e', hfound', -, rfl⟩
      have hshort := (hentries _ (scanRoute_mem_leaves rungs start) e' (mem_of_lookup hfound').1).1
      omega
    refine ⟨?_, fun value hvalue => ?_⟩
    · apply (hlookup e.value).mpr
      exact (run_getWithPages_eq hsound hspine h (answers_of_storedAt_some hstored hplain)).mpr rfl
    · rw [show storedAt d snapshotLsn key (route rungs key) = some value from hvalue] at hstored
      cases hstored
      exact hplain

end agreement

/-- The search for the smallest next item: the index of its iterator and its key.  An iterator is what it still has
to give. -/
def findSmallest : Nat → Option (Nat × Bytes) → List (List ScanItem) → Option (Nat × Bytes)
  | _, smallest, [] => smallest
  | i, smallest, iter :: iterators =>
    match iter.head? with
    | none => findSmallest (i + 1) smallest iterators
    | some item =>
      -- strictly smaller: among equal keys the first iterator stays
      if smallest.all fun found => item.key < found.2 then findSmallest (i + 1) (some (i, item.key)) iterators
      else findSmallest (i + 1) smallest iterators

/-- The loop on fuel; `none` is a loop that has not ended, or an index out of range. -/
def mergeLoop : Nat → List ScanItem → List (List ScanItem) → Option (List ScanItem)
  | 0, _, _ => none
  | fuel + 1, result, iterators =>
    match findSmallest 0 none iterators with
    | none => some result
    | some (index, _) =>
      match iterators[index]? with
      | some (item :: rest) => mergeLoop fuel (result ++ [item]) (iterators.set index rest)
      | some [] => mergeLoop fuel result iterators
      | none => none

def mergeSortedItems (fuel : Nat) (itemVectors : List (List ScanItem)) : Option (List ScanItem) :=
  match itemVectors with
  | [] => some []
  | [items] => some items
  | _ => mergeLoop fuel [] itemVectors

/-- What the search has found among the iterators seen so far. -/
def Smallest (seen : List (List ScanItem)) : Option (Nat × Bytes) → Prop
  | none => ∀ iter ∈ seen, iter = []
  | some (index, key) => ∃ before item rest after, seen = before ++ (item :: rest) :: after ∧
      index = before.length ∧ key = item.key ∧ Leads ScanItem.key before item.key after

section merge

variable {seen iterators : List (List ScanItem)} {smallest : Option (Nat × Bytes)}

theorem Smallest.skip (h : Smallest seen smallest) {iter : List ScanItem}
    (hiter : ∀ item ∈ iter.head?, ∃ found ∈ smallest, found.2 ≤ item.key) : Smallest (seen ++ [iter]) smallest := by
  cases smallest with
  | none =>
    have hnil : iter = [] := by
      apply List.head?_eq_none_iff.mp
      apply Option.eq_none_iff_forall_ne_some.mpr
      intro item hitem
      rcases hiter item hitem with ⟨found, hfound, -⟩
      cases hfound
    intro iter' hiter'
    rcases List.mem_append.mp hiter' with hold | hnew
    · exact h iter' hold
    · exact (List.mem_singleton.mp hnew).trans hnil
  | some found =>
    rcases h with ⟨before, item, rest, after, hseen, hindex, hkey, hleads⟩
    refine ⟨before, item, rest, after ++ [iter], ?_, hindex, hkey, hleads.above, ?_⟩
    · rw [hseen, List.append_assoc, List.cons_append]
    · intro iter' hiter' y hy
      rcases List.mem_append.mp hiter' with hold | hnew
      · exact hleads.least iter' hold y hy
      · obtain rfl := List.mem_singleton.mp hnew
        rcases hiter y hy with ⟨_, hfound, hle⟩
        cases hfound
        exact hkey.ge.trans hle

theorem Smallest.lower (h : Smallest seen smallest) {item : ScanItem} (rest : List ScanItem)
    (hlower : ∀ found ∈ smallest, item.key < found.2) :
    Smallest (seen ++ [item :: rest]) (some (seen.length, item.key)) := by
  refine ⟨seen, item, rest, [], rfl, rfl, rfl, ?_, nofun⟩
  intro iter hiter y hy
  cases smallest with
  | none =>
    rw [h iter hiter] at hy
    cases hy
  | some found =>
    -- the item found before is the smallest of those seen
    rcases h with ⟨before, least, rest', after, rfl, -, hkey, hleads⟩
    have hlt : item.key < least.key := hkey ▸ hlower found rfl
    rcases List.mem_append.mp hiter with hin | hin
    · exact hlt.trans (hleads.above iter hin y hy)
    · rcases List.mem_cons.mp hin with rfl | hin
      · cases hy
        exact hlt
      · exact hlt.trans_le (hleads.least iter hin y hy)

theorem smallest_findSmallest (h : Smallest seen smallest) :
    Smallest (seen ++ iterators) (findSmallest seen.length smallest iterators) := by
  induction iterators generalizing seen smallest with
  | nil => rwa [List.append_nil, findSmallest]
  | cons iter iterators ih =>
    have hlength : (seen ++ [iter]).length = seen.length + 1 := List.length_append
    rw [List.append_cons]
    unfold findSmallest
    cases iter with
    | nil =>
      show Smallest _ (findSmallest (seen.length + 1) smallest iterators)
      rw [← hlength]
      exact ih (h.skip nofun)
    | cons item rest =>
      show Smallest _ (if smallest.all (fun found => item.key < found.2) then _ else _)
      by_cases hlower : smallest.all fun found => item.key < found.2
      · rw [if_pos hlower, ← hlength]
        apply ih
        apply h.lower rest
        intro found hfound
        exact of_decide_eq_true (Option.all_eq_true _ _ |>.mp hlower found hfound)
      · rw [if_neg hlower, ← hlength]
        apply ih
        apply h.skip
        intro item' hitem'
        cases hitem'
        cases smallest with
        | none => exact absurd rfl hlower
        | some found => exact ⟨found, rfl, not_lt.mp fun hlt => hlower (decide_eq_true hlt)⟩

/-- A turn takes the first of the smallest items, so the loop ends after one turn for each item and one more. -/
theorem mergeLoop_merges (iterators : List (List ScanItem)) : ∃ out, Merges ScanItem.key iterators out ∧
    ∀ fuel result, iterators.flatten.length < fuel → mergeLoop fuel result iterators = some (result ++ out) := by
  induction hcount : iterators.flatten.length using Nat.strong_induction_on generalizing iterators with
  | h count ih =>
    have hsmallest : Smallest iterators (findSmallest 0 none iterators) := @smallest_findSmallest [] iterators none nofun
    cases hfound : findSmallest 0 none iterators with
    | none =>
      rw [hfound] at hsmallest
      refine ⟨[], .done hsmallest, ?_⟩
      intro fuel result hfuel
      cases fuel with
      | zero => exact absurd hfuel (Nat.not_lt_zero _)
      | succ fuel => rw [mergeLoop, hfound, List.append_nil]
    | some found =>
      rcases found with ⟨index, key⟩
      rw [hfound] at hsmallest
      rcases hsmallest with ⟨before, item, rest, after, rfl, rfl, -, hleads⟩
      have hshorter : (before ++ (item :: rest) :: after).flatten.length =
          (before ++ rest :: after).flatten.length + 1 := by
        simp only [List.flatten_append, List.flatten_cons, List.length_append, List.length_cons]
        omega
      rcases ih (before ++ rest :: after).flatten.length (by omega) _ rfl with ⟨out, hout, hrun⟩
      refine ⟨item :: out, .take hleads hout, ?_⟩
      intro fuel result hfuel
      cases fuel with
      | zero => exact absurd hfuel (Nat.not_lt_zero _)
      | succ fuel =>
        simp only [mergeLoop, hfound, getElem?_middle, set_middle]
        rw [hrun fuel _ (by omega), List.append_assoc]
        rfl

theorem mergeSortedItems_merges (itemVectors : List (List ScanItem)) :
    ∃ result, Merges ScanItem.key itemVectors result ∧
      ∀ fuel, itemVectors.flatten.length < fuel → mergeSortedItems fuel itemVectors = some result := by
  match itemVectors with
  | [] => exact ⟨[], .done nofun, fun _ _ => rfl⟩
  | [items] => exact ⟨items, merges_singleton items, fun _ _ => rfl⟩
  | first :: second :: others =>
    rcases mergeLoop_merges (first :: second :: others) with ⟨out, hout, hrun⟩
    exact ⟨out, hout, fun fuel hfuel => hrun fuel [] hfuel⟩

/-- The merge ends, with all the items in the order of their keys; items with one key are in the order of the
vectors, and of each vector. -/
theorem mergeSortedItems_stable (itemVectors : List (List ScanItem))
    (h : ∀ items ∈ itemVectors, items.Pairwise fun a b => a.key ≤ b.key) :
    ∃ result, (∀ fuel, itemVectors.flatten.length < fuel → mergeSortedItems fuel itemVectors = some result) ∧
      (result.Pairwise fun a b => a.key ≤ b.key) ∧ result.Perm itemVectors.flatten ∧
      ∀ key, result.filter (fun item => item.key = key) = itemVectors.flatten.filter fun item => item.key = key := by
  rcases mergeSortedItems_merges itemVectors with ⟨result, hmerges, hrun⟩
  exact ⟨result, hrun, hmerges.ascending h, hmerges.perm, fun key => hmerges.filter_key h key⟩

/-- A tie between the first vector and the last. -/
theorem mergeSortedItems_tie :
    ∃ result, (∀ fuel, 3 < fuel → mergeSortedItems fuel [[⟨[1], [10], 1⟩, ⟨[2], [20], 1⟩], [], [⟨[1], [11], 2⟩]] =
        some result) ∧
      result.filter (fun item => item.key = [1]) = [⟨[1], [10], 1⟩, ⟨[1], [11], 2⟩] := by
  rcases mergeSortedItems_stable [[⟨[1], [10], 1⟩, ⟨[2], [20], 1⟩], [], [⟨[1], [11], 2⟩]] (by decide)
    with ⟨result, hrun, -, -, hties⟩
  exact ⟨result, hrun, hties [1]⟩

end merge

end Northstar.Btree
