import Northstar.Btree.Search
import Northstar.Db.OneLeaf

/-!
# PutRun — trees built by puts

A tree that starts as an empty leaf stays searchable exactly as long as only its last leaf is split.
-/

namespace Northstar.Btree

open Runs SortedEntries EStateM
open Txn (Live)
open Node (stampLeaf)

/-- A call of `put`. -/
structure PutCall where
  key : Bytes
  value : Bytes
  lsn : UInt64

/-- The tree after the call, whether it returned `Ok` or `Err`. -/
def putStep (env : Env) (tree : BTree) (call : PutCall) : Option BTree :=
  match (BTree.put env call.key call.value call.lsn).run tree with
  | .ok _ tree' => some tree'
  | .error (.err _) tree' => some tree'
  | .error _ _ => none

def putCall (env : Env) (call : PutCall) : TreeM Unit := BTree.put env call.key call.value call.lsn

/-- A key has one byte for its length, and the file does not outgrow the cache. -/
def PutFits (env : Env) (tree : BTree) (call : PutCall) : Prop :=
  call.key.length ≤ 255 ∧ Room env (tree.pager.table.next.toNat +
    putPages tree.pager.table tree.rootPageId call.key call.value call.lsn)

def PutSplitsLast (tree : BTree) (call : PutCall) : Prop :=
  SplitsLast tree.pager.table tree.rootPageId call.key call.value call.lsn

structure EmptyTree (env : Env) (tree : BTree) : Prop where
  shows : Shows env tree.pager tree.pager.table tree.pager.currentMeta
  sound : Sound tree.pager.table
  root : tree.rootPageId = PageId.firstData
  owns : tree.pager.table.Owns PageId.firstData
  leaf : ∃ leaf, nodeAt tree.pager.table PageId.firstData = some (.leaf leaf) ∧ leaf.entries = []

variable {env : Env} {m : MetaState} {tree tree' : BTree} {rungs : List Rung}

theorem EmptyTree.live (h : EmptyTree env tree) : Live env tree.pager.currentMeta tree [] where
  shows := h.shows
  sound := h.sound
  spine := by
    obtain ⟨leaf, hleaf, -⟩ := h.leaf
    rw [h.root]
    exact .base h.owns ⟨leaf, hleaf⟩

theorem EmptyTree.searchable (h : EmptyTree env tree) : Searchable tree.pager.table tree.rootPageId := by
  apply (h.live.spine.searchable_iff h.sound).mpr
  intro pageId hmem e he
  obtain ⟨leaf, hleaf, hempty⟩ := h.leaf
  rw [List.mem_singleton.mp hmem, entriesAt_eq hleaf, hempty] at he
  exact absurd he List.not_mem_nil

variable {call : PutCall}

theorem putStep_of_ok (h : (putCall env call).run tree = .ok () tree') :
    putStep env tree call = some tree' := by
  unfold putCall at h
  unfold putStep
  rw [h]

variable {calls : List PutCall}

theorem run_of_forEach (h : (EStateM.forEach (putCall env) calls).run tree = .ok () tree') :
    run (putStep env) tree calls = some tree' := by
  induction calls generalizing tree with
  | nil =>
    cases h
    rfl
  | cons call calls ih =>
    obtain ⟨_, between, hcall, hrest⟩ := run_bind_eq_ok_iff.mp h
    exact run_cons.mpr ⟨between, putStep_of_ok hcall, ih hrest⟩

theorem meets_of_forEach {C D : BTree → PutCall → Prop}
    (h : EStateM.Meets (putCall env) C calls tree) (hD : ∀ t call, C t call → D t call)
    (hrun : (EStateM.forEach (putCall env) calls).run tree = .ok () tree') : Runs.Meets (putStep env) D tree calls := by
  induction calls generalizing tree with
  | nil => trivial
  | cons call calls ih =>
    obtain ⟨_, between, hcall, hrest⟩ := run_bind_eq_ok_iff.mp hrun
    refine ⟨hD tree call h.1, fun t ht => ?_⟩
    rw [putStep_of_ok hcall] at ht
    cases ht
    exact ih (h.2 between hcall) hrest

theorem putStep_cases (h : Live env m tree rungs) (hfits : PutFits env tree call)
    (hstep : putStep env tree call = some tree') :
    Shows env tree'.pager tree'.pager.table m ∧
      ((putPlan tree.pager.table tree.rootPageId call.key call.value call.lsn = none ∧
          tree'.rootPageId = tree.rootPageId ∧ Sound tree'.pager.table ∧
          tree.pager.table.next.toNat ≤ tree'.pager.table.next.toNat ∧
          ∀ other, tree.pager.table.Owns other → tree'.pager.table.pages other = tree.pager.table.pages other) ∨
        ∃ pageId left moved,
          putPlan tree.pager.table tree.rootPageId call.key call.value call.lsn = some (pageId, left, moved) ∧
          PutDone tree.pager.table tree'.pager.table tree.rootPageId tree'.rootPageId rungs pageId left.entries moved
            (preparedEntry tree.pager.table call.key call.value call.lsn) ∧
          (looksLikeReference call.value = false → Reads env.crc tree'.pager.table
            (preparedEntry tree.pager.table call.key call.value call.lsn) call.value)) := by
  unfold putStep at hstep
  cases hplan : putPlan tree.pager.table tree.rootPageId call.key call.value call.lsn with
  | none =>
    obtain ⟨e, refused, d', hrun, hroot, hshows, hsound, -, hgrows, hpages⟩ :=
      run_put_refused h.shows h.sound h.spine hfits.1 hplan hfits.2
    rw [hrun] at hstep
    cases hstep
    obtain rfl := hshows.table
    exact ⟨hshows, Or.inl ⟨rfl, hroot, hsound, hgrows, hpages⟩⟩
  | some plan =>
    obtain ⟨pageId, left, moved⟩ := plan
    obtain ⟨done, d', hrun, hshows, hdone, hreads, -⟩ := run_put_done h.shows h.sound h.spine hfits.1 hplan hfits.2
    rw [hrun] at hstep
    cases hstep
    obtain rfl := hshows.table
    exact ⟨hshows, Or.inr ⟨pageId, left, moved, rfl, hdone, hreads⟩⟩

/-- One call: the nodes stay in order, and the entries can be found as long as a split is one of the last leaf. -/
theorem putStep_spec (h : Live env m tree rungs) (hfits : PutFits env tree call)
    (hstep : putStep env tree call = some tree') :
    (∃ rungs', Live env m tree' rungs') ∧ (Searchable tree.pager.table tree.rootPageId →
      (Searchable tree'.pager.table tree'.rootPageId ↔ PutSplitsLast tree call)) := by
  obtain ⟨hshows, ⟨hplan, hroot, hsound, hgrows, hpages⟩ | ⟨pageId, left, moved, hplan, hdone, -⟩⟩ :=
    putStep_cases h hfits hstep
  · have hspine := h.spine.extend (.of_pages hgrows hpages)
    rw [hroot]
    refine ⟨⟨rungs, hshows, hsound, by rw [hroot]; exact hspine⟩, ?_⟩
    intro hsearch
    constructor
    · intro _ pageId left first rest hsplit
      rw [hplan] at hsplit
      cases hsplit
    · exact fun _ => searchable_of_pages h.sound h.spine hsearch hsound hgrows hpages
  · refine ⟨?_, fun hsearch => hdone.searchable_iff h.sound h.spine hsearch hfits.1 hplan⟩
    cases moved with
    | nil =>
      refine ⟨rungs, hshows, hdone.sound, ?_⟩
      rw [hdone.whole rfl]
      exact h.spine.extend hdone.ext
    | cons first rest =>
      obtain ⟨newPage, -, -, hspine⟩ := hdone.split first rest rfl
      exact ⟨_, hshows, hdone.sound, hspine⟩

/-- **Search.**  In a run of puts from an empty leaf every entry of every state on the way is found by a descent
from the root exactly when every leaf that is split is the one with the largest keys. -/
theorem puts_searchable (env : Env) (es : List PutCall) (tree tree' : BTree) (hempty : EmptyTree env tree)
    (hfits : Meets (putStep env) (PutFits env) tree es) (hrun : run (putStep env) tree es = some tree') :
    Meets (putStep env) PutSplitsLast tree es ↔
      ∀ before t, before <+: es → run (putStep env) tree before = some t →
        Searchable t.pager.table t.rootPageId := by
  apply meets_iff (I := fun t => ∃ rungs, Live env tree.pager.currentMeta t rungs)
  · rintro s e t ⟨rungs, hs⟩ hfits hstep
    exact (putStep_spec hs hfits hstep).1
  · rintro s e t ⟨rungs, hs⟩ hsearch hfits hstep
    exact (putStep_spec hs hfits hstep).2 hsearch
  · exact ⟨[], hempty.live⟩
  · exact hempty.searchable
  · exact hfits
  · exact hrun

def PutCall.entry (call : PutCall) : Entry := ⟨call.key, call.value, call.lsn⟩

/-- The tree is one leaf with these entries and this much free space, in a file of three pages. -/
structure Filled (env : Env) (tree : BTree) (entries : List Entry) (free : Nat) : Prop where
  shows : ∃ m, Shows env tree.pager tree.pager.table m
  next : tree.pager.table.next.toNat = 3
  root : tree.rootPageId = PageId.firstData
  leaf : ∃ leaf, RootLeaf tree.pager.table leaf ∧ leaf.entries = entries ∧ leaf.header.freeSpace.toNat = free

/-- Keys and entry sizes that go behind each other into the leaf, without a split. -/
def Fills (keys : List Bytes) (free : Nat) : List (Bytes × Nat) → Prop
  | [] => True
  | (key, size) :: rest => (∀ k ∈ keys, k < key) ∧ 5 * size + bodySize < 5 * free ∧
      Fills (keys ++ [key]) (free - size) rest

instance decidableFills (keys : List Bytes) (free : Nat) (plan : List (Bytes × Nat)) :
    Decidable (Fills keys free plan) :=
  match plan with
  | [] => inferInstanceAs (Decidable True)
  | (key, size) :: rest =>
    have := decidableFills (keys ++ [key]) (free - size) rest
    inferInstanceAs (Decidable (_ ∧ _ ∧ _))

/-- A value that is stored in the entry itself. -/
def PutCall.Inline (call : PutCall) : Prop := call.key.length ≤ 255 ∧ call.value.length ≤ inlineThreshold

theorem room_of_le (env : Env) {n : Nat} (h : n ≤ PageCache.maxEntries) : Room env n where
  addressable := by
    have hsize : PageCache.maxEntries * pageSize ≤ 2 ^ 63 := by decide
    exact (Nat.mul_le_mul_right _ h).trans hsize
  shards := by
    intro shard
    apply List.countP_le_length.trans
    rw [List.length_range]
    exact h

theorem Filled.step {entries : List Entry} {free : Nat} (h : Filled env tree entries free) {call : PutCall}
    (hinline : call.Inline) (hlast : ∀ e ∈ entries, e.key < call.key)
    (hspace : 5 * call.entry.serializedSize + bodySize < 5 * free) :
    ∃ tree', (putCall env call).run tree = .ok () tree' ∧
      Filled env tree' (entries ++ [call.entry]) (free - call.entry.serializedSize) := by
  obtain ⟨m, hshows⟩ := h.shows
  obtain ⟨leaf, hleaf, rfl, rfl⟩ := h.leaf
  have hentry : preparedEntry tree.pager.table call.key call.value call.lsn = call.entry :=
    preparedEntry_inline hinline.2 ..
  have hnone : overflowPages call.value.length = 0 := if_pos (by simpa [OverflowPage.shouldStoreInline] using hinline.2)
  have hroom : HasRoom leaf (preparedEntry tree.pager.table call.key call.value call.lsn) := by
    rw [hentry]
    exact ⟨hlast, hspace⟩
  have hmax : inlineThreshold ≤ Btree.maxValueSize := by decide
  have hpages : Room env (tree.pager.table.next.toNat + overflowPages call.value.length) := by
    rw [h.next, hnone]
    exact room_of_le env (by decide)
  obtain ⟨tree', d₁, d', hrun, hshows', hroot', hgrows, hwrites, hleaf', -⟩ :=
    hroom.run_put hshows h.root hleaf hinline.1 (hinline.2.trans hmax) hpages
  obtain rfl := hshows'.table
  rw [hentry] at hleaf'
  refine ⟨tree', hrun, ⟨m, hshows'⟩, ?_, hroot', _, hleaf', ?_, ?_⟩
  · rw [hwrites.next, hgrows.next, h.next, hnone]
  · exact appended_entries leaf call.entry
  · show (appended leaf call.entry).header.freeSpace.toNat = _
    have hfits := hleaf.ok.fits
    exact freeSpace_insertNew leaf _ call.entry (by omega)

variable {entries : List Entry} {free : Nat} {leaf : LeafNode} {C : BTree → PutCall → Prop}

/-- Puts without a split, and a condition that each of them meets in the leaf it finds. -/
theorem Filled.run (h : Filled env tree entries free) (hinline : ∀ call ∈ calls, call.Inline)
    (hfills : Fills (entries.map Entry.key) free (calls.map fun call => (call.key, call.entry.serializedSize)))
    (hC : ∀ t t' es fr call, Filled env t es fr → call ∈ calls → call.entry.serializedSize ≤ fr →
      (putCall env call).run t = .ok () t' → C t call) :
    ∃ tree', (EStateM.forEach (putCall env) calls).run tree = .ok () tree' ∧
      Filled env tree' (entries ++ calls.map PutCall.entry)
        (free - (calls.map fun call => call.entry.serializedSize).sum) ∧ EStateM.Meets (putCall env) C calls tree := by
  induction calls generalizing tree entries free with
  | nil =>
    refine ⟨tree, rfl, ?_, trivial⟩
    rw [List.map_nil, List.append_nil]
    exact h
  | cons call calls ih =>
    obtain ⟨hlast, hspace, hrest⟩ := hfills
    have hlast' : ∀ e ∈ entries, e.key < call.key := fun e he => hlast e.key (List.mem_map_of_mem he)
    obtain ⟨tree₁, hstep, h₁⟩ := h.step (hinline call List.mem_cons_self) hlast' hspace
    rw [show entries.map Entry.key ++ [call.key] = (entries ++ [call.entry]).map Entry.key by
      rw [List.map_append]; rfl] at hrest
    obtain ⟨tree', hrun, h', hmeets⟩ := ih h₁ (fun c hc => hinline c (List.mem_cons_of_mem _ hc)) hrest
      fun t t' es fr c hf hc => hC t t' es fr c hf (List.mem_cons_of_mem _ hc)
    refine ⟨tree', (run_bind_of_ok hstep).trans hrun, ?_, hC _ _ _ _ _ h List.mem_cons_self (by omega) hstep, ?_⟩
    · rw [List.append_assoc, List.singleton_append, Nat.sub_sub] at h'
      exact h'
    · intro t ht
      rw [hstep] at ht
      cases ht
      exact hmeets

theorem planInsert_halves {pageId : PageId} {entry : Entry} (hok : LeafOk pageId leaf)
    (hlast : ∀ e ∈ leaf.entries, e.key < entry.key)
    (hspace : entry.serializedSize ≤ leaf.header.freeSpace.toNat)
    (hfull : 5 * (leaf.header.freeSpace.toNat - entry.serializedSize) ≤ bodySize) :
    leaf.planInsert entry = some ((appended leaf entry).lowerHalf, (appended leaf entry).upperHalf) := by
  have hhas : leaf.header.hasSpace entry.serializedSize = true := by
    simpa [NodeHeader.hasSpace] using hspace
  have hfits := hok.fits
  have hfree : (appended leaf entry).header.freeSpace.toNat =
      leaf.header.freeSpace.toNat - entry.serializedSize := freeSpace_insertNew leaf _ entry (by omega)
  have hsplit : (appended leaf entry).header.needsSplit = true := by
    simp only [NodeHeader.needsSplit, hfree, decide_eq_true_eq, ge_iff_le]
    omega
  unfold LeafNode.planInsert
  rw [if_pos hhas, show leaf.insert entry = .ok (false, appended leaf entry) from hok.insert_last hlast hspace]
  dsimp only
  rw [if_neg Bool.false_ne_true, if_pos hsplit]

theorem planInsert_splits {pageId : PageId} {entry : Entry} (hok : LeafOk pageId leaf)
    (hlast : ∀ e ∈ leaf.entries, e.key < entry.key) (hne : leaf.entries ≠ [])
    (hsize : 5 * entry.serializedSize ≤ bodySize)
    (hfull : 4 * bodySize ≤ 5 * (LeafNode.used leaf.entries + entry.serializedSize)) :
    ∃ left first rest, leaf.planInsert entry = some (left, first :: rest) := by
  have hfits := hok.fits
  unfold leafCapacity at hfits
  by_cases hspace : entry.serializedSize ≤ leaf.header.freeSpace.toNat
  · have hplan := planInsert_halves hok hlast hspace (by omega)
    cases hupper : (appended leaf entry).upperHalf with
    | nil =>
      apply absurd hupper
      apply upperHalf_ne_nil
      rw [appended_entries]
      exact List.append_ne_nil_of_right_ne_nil _ (List.cons_ne_nil _ _)
    | cons first rest =>
      rw [hupper] at hplan
      exact ⟨_, first, rest, hplan⟩
  · have hhas : ¬ leaf.header.hasSpace entry.serializedSize = true := by
      simpa [NodeHeader.hasSpace] using hspace
    have hsplit : leaf.header.needsSplit = true := by
      simp only [NodeHeader.needsSplit, decide_eq_true_eq, ge_iff_le]
      omega
    unfold LeafNode.planInsert
    rw [if_neg hhas, if_pos hsplit]
    cases hupper : leaf.upperHalf with
    | nil => exact absurd hupper (upperHalf_ne_nil hne)
    | cons first rest =>
      have hfirst : first ∈ leaf.entries := by
        apply List.mem_of_mem_drop (i := leaf.entries.length / 2)
        rw [show leaf.entries.drop (leaf.entries.length / 2) = first :: rest from hupper]
        exact List.mem_cons_self ..
      dsimp only
      rw [if_neg (hlast first hfirst).not_gt]
      exact ⟨_, first, rest, rfl⟩

theorem putPlan_eq {d : Disk} {root : PageId} (hspine : Spine d root rungs)
    (hnode : nodeAt d (route rungs call.key) = some (.leaf leaf)) (hne : leaf.entries ≠ [])
    (hinline : call.Inline) : putPlan d root call.key call.value call.lsn =
      (leaf.planInsert call.entry).map fun plan => (route rungs call.key, plan.1, plan.2) := by
  have hmax : inlineThreshold ≤ Btree.maxValueSize := by decide
  unfold Btree.putPlan Btree.planLeaf
  rw [hspine.leafFor hnode, preparedEntry_inline hinline.2]
  dsimp only
  have hempty : ¬ ((route rungs call.key == root) && leaf.entries.isEmpty) = true := by
    simp [hne]
  rw [if_pos (hinline.2.trans hmax), if_neg hempty]
  unfold PutCall.entry
  cases leaf.planInsert ⟨call.key, call.value, call.lsn⟩ with
  | none => rfl
  | some plan => rfl

theorem putPages_le {d : Disk} {root : PageId} (hinline : call.Inline) :
    putPages d root call.key call.value call.lsn ≤ 2 := by
  have hnone : overflowPages call.value.length = 0 :=
    if_pos (by simpa [OverflowPage.shouldStoreInline] using hinline.2)
  unfold Btree.putPages LeafNode.splitPages
  rw [hnone]
  repeat' split
  all_goals omega

theorem Filled.spine (h : Filled env tree entries free) : Spine tree.pager.table tree.rootPageId [] := by
  obtain ⟨leaf, hleaf, -⟩ := h.leaf
  rw [h.root]
  exact hleaf.spine

/-- There is no other leaf. -/
theorem Filled.splitsLast (h : Filled env tree entries free) (hinline : call.Inline) : PutSplitsLast tree call := by
  obtain ⟨leaf, hleaf, -⟩ := h.leaf
  intro pageId left first rest hplan
  apply (h.spine.others_iff (p := fun e => e.key < call.key)).mpr
  intro other hmem hother
  have hpage := (planned_of_putPlan h.spine hleaf.sound hinline.1 hplan).1
  exact absurd ((List.mem_singleton.mp hmem).trans hpage.symm) hother

theorem Filled.fits (h : Filled env tree entries free)
    (hinline : call.Inline) : PutFits env tree call := by
  have hpages : putPages tree.pager.table tree.rootPageId call.key call.value call.lsn ≤ 2 := putPages_le hinline
  have hmax : 5 ≤ PageCache.maxEntries := by decide
  refine ⟨hinline.1, room_of_le env ?_⟩
  rw [h.next]
  omega

theorem Filled.split (h : Filled env tree entries free)
    (hinline : call.Inline) (hlast : ∀ e ∈ entries, e.key < call.key) (hne : entries ≠ [])
    (hspace : call.entry.serializedSize ≤ free) (hfull : 5 * (free - call.entry.serializedSize) ≤ bodySize)
    {first : Entry} {rest : List Entry}
    (hupper : (entries ++ [call.entry]).drop ((entries ++ [call.entry]).length / 2) = first :: rest) :
    ∃ tree' newPage m, (putCall env call).run tree = .ok () tree' ∧
      Live env m tree' [⟨tree'.rootPageId, first.key, newPage⟩] ∧ tree'.pager.table.next.toNat ≤ 5 ∧
      Searchable tree'.pager.table tree'.rootPageId ∧ entriesAt tree'.pager.table newPage = first :: rest ∧
      entriesAt tree'.pager.table PageId.firstData =
        (entries ++ [call.entry]).take ((entries ++ [call.entry]).length / 2) := by
  obtain ⟨m, hshows⟩ := h.shows
  obtain ⟨leaf, hleaf, rfl, rfl⟩ := h.leaf
  have hspine := h.spine
  have hentries := appended_entries leaf call.entry
  have hlower : (appended leaf call.entry).lowerHalf.entries =
      (leaf.entries ++ [call.entry]).take ((leaf.entries ++ [call.entry]).length / 2) := by
    rw [LeafNode.lowerHalf_entries, hentries]
  have hmoved : (appended leaf call.entry).upperHalf = first :: rest := by
    rw [LeafNode.upperHalf, hentries]
    exact hupper
  have hplan : putPlan tree.pager.table tree.rootPageId call.key call.value call.lsn =
      some (PageId.firstData, (appended leaf call.entry).lowerHalf, first :: rest) := by
    rw [putPlan_eq hspine hleaf.node hne hinline, planInsert_halves hleaf.ok hlast hspace hfull, hmoved]
    rfl
  have hpages : putPages tree.pager.table tree.rootPageId call.key call.value call.lsn ≤ 2 := putPages_le hinline
  obtain ⟨tree', d', hrun, hshows', hdone, -, hnext⟩ :=
    run_put_done hshows hleaf.sound hspine hinline.1 hplan (h.fits hinline).2
  obtain rfl := hshows'.table
  obtain ⟨newPage, -, hnew, hspine'⟩ := hdone.split first rest rfl
  have hsearch : Searchable tree.pager.table tree.rootPageId := by
    apply (hspine.searchable_iff hleaf.sound).mpr
    intro pageId hmem e _
    exact (List.mem_singleton.mp hmem).symm
  refine ⟨tree', newPage, m, hrun, ⟨hshows', hdone.sound, hspine'⟩, ?_, ?_, hnew, ?_⟩
  · rw [hnext, h.next]
    omega
  · exact (hdone.searchable_iff hleaf.sound hspine hsearch hinline.1 hplan).mpr (h.splitsLast hinline)
  · rw [hdone.leaf, hlower]

theorem split_lower {newPage : PageId} {first : Entry} (h : Live env m tree [⟨tree.rootPageId, first.key, newPage⟩])
    (hsearch : Searchable tree.pager.table tree.rootPageId) (hnext : tree.pager.table.next.toNat ≤ 5)
    (hfirst : first ∈ entriesAt tree.pager.table newPage) (hinline : call.Inline)
    (hlt : call.key < first.key)
    (hlast : ∀ e ∈ entriesAt tree.pager.table PageId.firstData, e.key < call.key)
    (hne : entriesAt tree.pager.table PageId.firstData ≠ [])
    (hsize : 5 * call.entry.serializedSize ≤ bodySize)
    (hfull : 4 * bodySize ≤
      5 * (LeafNode.used (entriesAt tree.pager.table PageId.firstData) + call.entry.serializedSize)) :
    ∃ tree', putStep env tree call = some tree' ∧ ¬ Searchable tree'.pager.table tree'.rootPageId := by
  have hroute : route [⟨tree.rootPageId, first.key, newPage⟩] call.key = PageId.firstData :=
    if_neg (not_le.mpr hlt)
  obtain ⟨howns, leaf, hleaf⟩ := h.spine.route_leaf call.key
  have hentries := entriesAt_eq hleaf
  rw [hroute] at hentries
  rw [hentries] at hlast hne hfull
  obtain ⟨left, first', rest', hinsert⟩ := planInsert_splits (h.sound.leaf howns hleaf).1 hlast hne hsize hfull
  have hplan : putPlan tree.pager.table tree.rootPageId call.key call.value call.lsn =
      some (PageId.firstData, left, first' :: rest') := by
    rw [putPlan_eq h.spine hleaf hne hinline, hinsert, hroute]
    rfl
  have hfits : PutFits env tree call := by
    have hpages : putPages tree.pager.table tree.rootPageId call.key call.value call.lsn ≤ 2 := putPages_le hinline
    have hmax : 7 ≤ PageCache.maxEntries := by decide
    exact ⟨hinline.1, room_of_le env (by omega)⟩
  obtain ⟨tree', d', hrun, -⟩ := run_put_done h.shows h.sound h.spine hinline.1 hplan hfits.2
  have hstep : putStep env tree call = some tree' := by
    unfold putStep
    rw [hrun]
  refine ⟨tree', hstep, ?_⟩
  rw [(putStep_spec h hfits hstep).2 hsearch]
  intro hsplits
  have hpage : newPage ∈ leaves [⟨tree.rootPageId, first.key, newPage⟩] := List.mem_cons_self ..
  have hother : newPage ≠ PageId.firstData := by
    intro heq
    rw [heq, hentries] at hfirst
    exact (hlast first hfirst).not_gt hlt
  exact (h.spine.others_iff.mp (hsplits _ _ _ _ hplan) newPage hpage hother first hfirst).not_gt hlt

theorem exists_emptyTree (env : Env) : ∃ tree, EmptyTree env tree ∧ Filled env tree [] leafCapacity := by
  obtain ⟨pager, -, hrestarted, hnode, -, -⟩ := createFile_restarted env
  have howns := hrestarted.owns.mpr rfl
  obtain ⟨pager', height, hnew, hshows⟩ := run_new hrestarted.spine hrestarted.sound hrestarted.shows
  have htable := hshows.table
  have hmeta := hshows.current
  refine ⟨⟨pager', PageId.firstData, height⟩, ?_, ?_⟩
  · refine ⟨?_, ?_, rfl, ?_, ?_⟩
    · show Shows env pager' pager'.table pager'.currentMeta
      rw [htable, hmeta]
      exact hshows
    · show Sound pager'.table
      rw [htable]
      exact hrestarted.sound
    · show pager'.table.Owns PageId.firstData
      rw [htable]
      exact howns
    · show ∃ leaf, nodeAt pager'.table PageId.firstData = some (.leaf leaf) ∧ leaf.entries = []
      rw [htable]
      exact ⟨_, hnode, rfl⟩
  · refine ⟨⟨pager.currentMeta, ?_⟩, ?_, rfl, ?_⟩
    · show Shows env pager' pager'.table _
      rw [htable]
      exact hshows
    · show pager'.table.next.toNat = 3
      rw [htable, hrestarted.next]
      rfl
    · show ∃ leaf, RootLeaf pager'.table leaf ∧ _
      rw [htable]
      exact ⟨_, ⟨hrestarted.sound, howns, hnode⟩, rfl, freeSpace_new _⟩

def largePut (key : UInt8) : PutCall := ⟨[key], List.replicate 2000 0, 1⟩

def smallPut (key : UInt8) : PutCall := ⟨[key], [], 1⟩

theorem smallPut_inline (key : UInt8) : (smallPut key).Inline := by
  constructor
  · show 1 ≤ 255
    decide
  · exact Nat.zero_le _

theorem largePut_inline (key : UInt8) : (largePut key).Inline := by
  refine ⟨(smallPut_inline key).1, ?_⟩
  show (List.replicate 2000 (0 : UInt8)).length ≤ _
  rw [List.length_replicate]
  decide

theorem smallPut_plain (key : UInt8) : looksLikeReference (smallPut key).value = false := rfl

theorem largePut_plain (key : UInt8) : looksLikeReference (largePut key).value = false := by
  unfold looksLikeReference largePut
  rw [List.length_replicate]
  rfl

theorem size_largePut (key : UInt8) : (largePut key).entry.serializedSize = 2012 := by
  show 1 + 1 + 2 + (List.replicate 2000 (0 : UInt8)).length + 8 = 2012
  rw [List.length_replicate]

/-- Eleven puts that fit into one leaf. -/
def firstPuts : List PutCall :=
  [largePut 1, largePut 2, largePut 3, largePut 4, largePut 5, largePut 6, smallPut 11, smallPut 12, smallPut 13,
    smallPut 14, smallPut 15]

theorem firstPuts_sizes : firstPuts.map (fun call => (call.key, call.entry.serializedSize)) =
    [([1], 2012), ([2], 2012), ([3], 2012), ([4], 2012), ([5], 2012), ([6], 2012), ([11], 12), ([12], 12),
      ([13], 12), ([14], 12), ([15], 12)] := by
  unfold firstPuts
  simp only [List.map_cons, List.map_nil, size_largePut]
  rfl

theorem firstPuts_inline : ∀ call ∈ firstPuts, call.Inline := by
  unfold firstPuts
  simp only [List.forall_mem_cons, largePut_inline, smallPut_inline, true_and]
  exact fun _ hcall => nomatch hcall

theorem firstPuts_plain : ∀ call ∈ firstPuts ++ [largePut 16], looksLikeReference call.value = false := by
  unfold firstPuts
  simp only [List.cons_append, List.nil_append, List.forall_mem_cons, largePut_plain, smallPut_plain, true_and]
  exact fun _ hcall => nomatch hcall

theorem firstPuts_keys : ∀ call ∈ firstPuts ++ [largePut 16], call.key ≠ [] := by
  unfold firstPuts
  simp only [List.cons_append, List.nil_append, List.forall_mem_cons, largePut, smallPut]
  decide

theorem firstPuts_lsn : ∀ call ∈ firstPuts ++ [largePut 16], call.lsn = 1 := by
  unfold firstPuts
  simp only [List.cons_append, List.nil_append, List.forall_mem_cons, largePut, smallPut]
  decide

theorem firstPuts_fills :
    Fills [] leafCapacity (firstPuts.map fun call => (call.key, call.entry.serializedSize)) := by
  rw [firstPuts_sizes]
  decide

theorem firstPuts_sum : (firstPuts.map fun call => call.entry.serializedSize).sum = 12132 := by
  have hsizes := congrArg (List.map Prod.snd) firstPuts_sizes
  rw [List.map_map] at hsizes
  exact congrArg List.sum hsizes

theorem Filled.twoLeaves {C : BTree → PutCall → Prop} (h : Filled Env.oneShard tree [] leafCapacity)
    (hC : ∀ t t' es fr call, Filled Env.oneShard t es fr → call ∈ firstPuts ++ [largePut 16] →
      call.entry.serializedSize ≤ fr → (putCall Env.oneShard call).run t = .ok () t' → C t call) :
    ∃ tree' newPage m,
      (EStateM.forEach (putCall Env.oneShard) (firstPuts ++ [largePut 16])).run tree = .ok () tree' ∧
      EStateM.Meets (putCall Env.oneShard) C (firstPuts ++ [largePut 16]) tree ∧
      Live Env.oneShard m tree' [⟨tree'.rootPageId, [11], newPage⟩] ∧ tree'.pager.table.next.toNat ≤ 5 ∧
      Searchable tree'.pager.table tree'.rootPageId ∧
      entriesAt tree'.pager.table newPage = [(smallPut 11).entry, (smallPut 12).entry, (smallPut 13).entry,
        (smallPut 14).entry, (smallPut 15).entry, (largePut 16).entry] ∧
      entriesAt tree'.pager.table PageId.firstData = [(largePut 1).entry, (largePut 2).entry, (largePut 3).entry,
        (largePut 4).entry, (largePut 5).entry, (largePut 6).entry] := by
  obtain ⟨tree₁, hrun₁, hfilled₁, hmeets⟩ := h.run firstPuts_inline firstPuts_fills
    fun t t' es fr call hf hcall => hC t t' es fr call hf (List.mem_append_left _ hcall)
  rw [firstPuts_sum, List.nil_append] at hfilled₁
  have hspace : (largePut 16).entry.serializedSize ≤ leafCapacity - 12132 := by
    rw [size_largePut]
    decide
  obtain ⟨tree₂, newPage, m, hstep₂, hlive₂, hnext₂, hsearch₂, hupper₂, hlower₂⟩ :=
    hfilled₁.split (largePut_inline 16) (by decide) (by decide) hspace (by rw [size_largePut]; decide)
      (show _ = (smallPut 11).entry :: [(smallPut 12).entry, (smallPut 13).entry, (smallPut 14).entry,
        (smallPut 15).entry, (largePut 16).entry] from rfl)
  have hlast := hC _ _ _ _ _ hfilled₁ (List.mem_append_right _ List.mem_cons_self) hspace hstep₂
  exact ⟨tree₂, newPage, m, run_forEach_append hrun₁ (run_bind_of_ok hstep₂), meets_snoc hmeets hrun₁ hlast, hlive₂,
    hnext₂, hsearch₂, hupper₂, hlower₂⟩

theorem call_inline (h : call ∈ firstPuts ++ [largePut 16]) : call.Inline := by
  rcases List.mem_append.mp h with h | h
  · exact firstPuts_inline call h
  · rw [List.mem_singleton.mp h]
    exact largePut_inline 16

theorem fits_and_splitsLast (t t' : BTree) (es : List Entry) (fr : Nat) (call : PutCall)
    (h : Filled Env.oneShard t es fr) (hcall : call ∈ firstPuts ++ [largePut 16])
    (_ : call.entry.serializedSize ≤ fr) (_ : (putCall Env.oneShard call).run t = .ok () t') :
    PutFits Env.oneShard t call ∧ PutSplitsLast t call :=
  ⟨h.fits (call_inline hcall), h.splitsLast (call_inline hcall)⟩

/-- The last of twelve puts splits the only leaf. -/
theorem puts_searchable_split : ∃ tree tree' newPage, EmptyTree Env.oneShard tree ∧
    run (putStep Env.oneShard) tree (firstPuts ++ [largePut 16]) = some tree' ∧
      Spine tree'.pager.table tree'.rootPageId [⟨tree'.rootPageId, [11], newPage⟩] ∧
      Searchable tree'.pager.table tree'.rootPageId := by
  obtain ⟨tree, hempty, hfilled⟩ := exists_emptyTree Env.oneShard
  obtain ⟨tree', newPage, m, hrun, hmeets, hlive, -⟩ := hfilled.twoLeaves fits_and_splitsLast
  have hfits := meets_of_forEach hmeets (fun _ _ => And.left) hrun
  have hlast := meets_of_forEach hmeets (fun _ _ => And.right) hrun
  have hrun := run_of_forEach hrun
  refine ⟨tree, tree', newPage, hempty, hrun, hlive.spine, ?_⟩
  exact (puts_searchable Env.oneShard (firstPuts ++ [largePut 16]) tree tree' hempty hfits hrun).mp hlast
    _ _ List.prefix_rfl hrun

/-- The next put splits the lower half, and the leaf it fills takes over the keys of the upper half. -/
theorem lower_split_hides_keys : ∃ tree tree', EmptyTree Env.oneShard tree ∧
    run (putStep Env.oneShard) tree (firstPuts ++ [largePut 16, largePut 7]) = some tree' ∧
      ¬ Searchable tree'.pager.table tree'.rootPageId := by
  obtain ⟨tree, hempty, hfilled⟩ := exists_emptyTree Env.oneShard
  obtain ⟨tree₂, newPage, m, hrun₂, -, hlive₂, hnext₂, hsearch₂, hupper₂, hlower₂⟩ :=
    hfilled.twoLeaves fits_and_splitsLast
  have hused : LeafNode.used (entriesAt tree₂.pager.table PageId.firstData) = 12072 := by
    rw [hlower₂]
    unfold LeafNode.used
    simp only [List.map_cons, List.map_nil, size_largePut]
    rfl
  have hfirst : (smallPut 11).entry ∈ entriesAt tree₂.pager.table newPage := by
    rw [hupper₂]
    exact List.mem_cons_self ..
  obtain ⟨tree₃, hstep₃, hlost⟩ := split_lower hlive₂ hsearch₂ hnext₂ hfirst (largePut_inline 7) (by decide)
    (by rw [hlower₂]; decide) (by rw [hlower₂]; exact List.cons_ne_nil _ _)
    (by rw [size_largePut]; decide) (by rw [hused, size_largePut]; decide)
  refine ⟨tree, tree₃, hempty, ?_, hlost⟩
  rw [show firstPuts ++ [largePut 16, largePut 7] = (firstPuts ++ [largePut 16]) ++ [largePut 7] from
    (List.append_assoc firstPuts [largePut 16] [largePut 7]).symm]
  exact run_append.mpr ⟨tree₂, run_of_forEach hrun₂, run_cons.mpr ⟨tree₃, hstep₃, rfl⟩⟩

end Northstar.Btree
