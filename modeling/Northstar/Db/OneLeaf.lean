import Northstar.Db.Open

/-!
# OneLeaf — databases whose tree is a single leaf

While everything fits into page 2 the outcome of a commit can be written down: a put of a new largest
key appends an entry, a delete takes one out.
-/

namespace Northstar

open Btree Txn EStateM SortedEntries
open Node (stampLeaf)
open Wal (Mutation)

structure RootLeaf (d : Disk) (leaf : LeafNode) : Prop where
  sound : Sound d
  owns : d.Owns PageId.firstData
  node : nodeAt d PageId.firstData = some (.leaf leaf)

namespace RootLeaf

variable {d : Disk} {leaf : LeafNode}

theorem spine (h : RootLeaf d leaf) : Spine d PageId.firstData [] := .base h.owns ⟨leaf, h.node⟩

theorem ok (h : RootLeaf d leaf) : LeafOk PageId.firstData leaf := (h.sound.leaf h.owns h.node).1

theorem entries (h : RootLeaf d leaf) : entriesAt d PageId.firstData = leaf.entries :=
  entriesAt_eq h.node

theorem prevLeaf (h : RootLeaf d leaf) : leaf.prevLeaf = 0 := by
  rcases (h.sound.leaf h.owns h.node).2 with hzero | ⟨howns, hlt, -⟩
  · exact hzero
  · exact absurd hlt (Nat.not_lt.mpr howns.1)

end RootLeaf

/-- The leaf with an entry behind all others. -/
def appended (leaf : LeafNode) (entry : Entry) : LeafNode :=
  leaf.insertNew leaf.entries.length entry

/-- There is room for the entry behind all others, and the leaf is not to be split after it. -/
structure HasRoom (leaf : LeafNode) (entry : Entry) : Prop where
  last : ∀ e ∈ leaf.entries, e.key < entry.key
  space : 5 * entry.serializedSize + bodySize < 5 * leaf.header.freeSpace.toNat

theorem appended_entries (leaf : LeafNode) (entry : Entry) :
    (appended leaf entry).entries = leaf.entries ++ [entry] := List.insertIdx_length_self

theorem HasRoom.planLeaf {pageId : PageId} {leaf : LeafNode} {entry : Entry}
    (h : HasRoom leaf entry) (hok : LeafOk pageId leaf) (isRoot : Bool) :
    planLeaf isRoot leaf entry = some (appended leaf entry, []) := by
  have hspace : entry.serializedSize ≤ leaf.header.freeSpace.toNat := by
    have := h.space
    omega
  have hinsert : leaf.insert entry = .ok (false, appended leaf entry) :=
    hok.insert_last h.last hspace
  have hhas : leaf.header.hasSpace entry.serializedSize = true := by
    simpa [NodeHeader.hasSpace] using hspace
  have hwhole : ¬ (appended leaf entry).header.needsSplit = true := by
    have hfits := hok.fits
    have hfree : (appended leaf entry).header.freeSpace.toNat =
        leaf.header.freeSpace.toNat - entry.serializedSize := freeSpace_insertNew leaf _ entry (by omega)
    have := h.space
    simp only [NodeHeader.needsSplit, hfree, decide_eq_true_eq, ge_iff_le, not_le, leafCapacity]
      at hfits ⊢
    omega
  unfold Btree.planLeaf
  split
  · rw [hinsert]
  · unfold LeafNode.planInsert
    rw [if_pos hhas, hinsert]
    dsimp only
    rw [if_neg Bool.false_ne_true, if_neg hwhole]

variable {key value : Bytes}

variable {lsn : UInt64}

theorem HasRoom.of_new (crc : Crc) (pageId : PageId) {entry : Entry}
    (h : 5 * entry.serializedSize + bodySize < 5 * leafCapacity) :
    HasRoom (stampLeaf crc (LeafNode.new pageId)) entry where
  last := fun _ he => absurd he List.not_mem_nil
  space := by
    show _ < 5 * (LeafNode.new pageId).header.freeSpace.toNat
    rw [freeSpace_new]
    exact h

theorem HasRoom.run_put {env : Env} {m : MetaState} {tree : BTree} {d : Disk} {leaf : LeafNode}
    (hshows : Shows env tree.pager d m) (hroot : tree.rootPageId = PageId.firstData)
    (hleaf : RootLeaf d leaf) (hkey : key.length ≤ 255)
    (hsize : value.length ≤ Btree.maxValueSize)
    (h : HasRoom leaf (preparedEntry d key value lsn))
    (hroom : Room env (d.next.toNat + overflowPages value.length)) :
    ∃ tree' d₁ d', (BTree.put env key value lsn).run tree = .ok () tree' ∧
      Shows env tree'.pager d' m ∧ tree'.rootPageId = PageId.firstData ∧
      Grows d d₁ (overflowPages value.length) ∧
      Writes d₁ d' PageId.firstData
        (.leaf (stampLeaf env.crc (appended leaf (preparedEntry d key value lsn)))) ∧
      RootLeaf d' (stampLeaf env.crc (appended leaf (preparedEntry d key value lsn))) ∧
      (looksLikeReference value = false →
        Reads env.crc d₁ (preparedEntry d key value lsn) value) := by
  have hspine : Spine d tree.rootPageId [] := by
    rw [hroot]
    exact hleaf.spine
  have hentry := encodable_preparedEntry hkey d value lsn
  have hplanned := hleaf.ok.planned_of_planLeaf hentry (h.planLeaf hleaf.ok false)
  rcases run_put_descends hshows hspine key lsn hsize hroom hleaf.node
    with ⟨pager₁, d₁, path, hshows₁, hgrows, hreads, -, hrun⟩
  have howns₁ := hgrows.owns hleaf.owns
  have hsound₁ := hleaf.sound.grow hgrows
  rcases run_writeLeaf hshows₁ howns₁ hplanned.ok with ⟨pager₂, d₂, hwrite, hshows₂, hwrites⟩
  have hrootLeaf : RootLeaf d₂ (stampLeaf env.crc (appended leaf (preparedEntry d key value lsn))) := by
    refine ⟨?_, hwrites.owns.mpr howns₁, hwrites.node⟩
    apply hsound₁.write hwrites
    · refine .leaf (hplanned.ok.stamp env.crc) (Or.inl ?_)
      exact hplanned.prev.trans hleaf.prevLeaf
    · exact fun _ => ⟨_, hwrites.node⟩
  refine ⟨{ tree with pager := pager₂ }, d₁, d₂, ?_, hshows₂, hroot, hgrows, hwrites, hrootLeaf,
    hreads⟩
  rw [hrun]
  by_cases hempty : ((route [] key == tree.rootPageId) && leaf.entries.isEmpty) = true
  · have hspace : (preparedEntry d key value lsn).serializedSize ≤ leaf.header.freeSpace.toNat := by
      have := h.space
      omega
    have hinsert : leaf.insert (preparedEntry d key value lsn) =
        .ok (false, appended leaf (preparedEntry d key value lsn)) :=
      hleaf.ok.insert_last h.last hspace
    have hwrite' := @BTree.run_onPager_of_ok _ _ { tree with pager := pager₁ } _ _ hwrite
    rw [if_pos hempty, run_bind_of_ok (run_liftErr_of_ok hinsert _)]
    rw [← hroot] at hwrite'
    exact hwrite'
  · rw [if_neg hempty]
    have hstored := @run_insertIntoLeaf_stored env pager₁ _ leaf _ hleaf.ok _ hentry
      (h.planLeaf hleaf.ok false)
    unfold putLeaf
    rw [run_bind_of_ok (@BTree.run_onPager_of_ok _ _ { tree with pager := pager₁ } _ _ hstored)]
    dsimp only
    rw [route, run_bind_of_ok (@BTree.run_onPager_of_ok _ _ { tree with pager := pager₁ } _ _ hwrite)]
    rfl

def Env.oneShard : Env := ⟨crc32cAppend, fun _ => 0⟩

namespace Db

variable {env : Env}

/-- A database without a log whose transactions were all committed and whose tree is one leaf. -/
structure OneLeaf (env : Env) (t : UInt64) (leaf : LeafNode) (db : Db) : Prop where
  notClosed : db.isClosed = false
  noWal : db.wal = none
  ordered : db.Ordered
  current : db.currentTxnId = t
  latest : db.Latest t PageId.firstData
  shows : Shows env db.pager db.pager.table db.pager.currentMeta
  leaf : RootLeaf db.pager.table leaf
  consistent : db.pager.Consistent env.crc t PageId.firstData

variable {db : Db}

theorem oneLeaf_new {walFile : Option Bytes}
    (h : openWithConfig env ⟨false⟩ none walFile = .ok db) :
    db.OneLeaf env 0 (stampLeaf env.crc (LeafNode.new PageId.firstData)) ∧
      db.pager.table.next = 3 := by
  rcases opened_new h with ⟨hopened, hrestarted, hnode, htxn, hroot, hwal⟩
  have hlatest := hopened.latest
  have hconsistent := hrestarted.consistent
  rw [htxn, hroot] at hlatest hconsistent
  refine ⟨⟨hopened.notClosed, hwal, hopened.ordered, ?_, hlatest, hrestarted.shows,
    ⟨hrestarted.sound, hrestarted.owns.mpr rfl, hnode⟩, hconsistent⟩, hrestarted.next⟩
  rw [hopened.current, htxn]

theorem run_land_one {db : Db} {tree tree' : BTree} {mu : Mutation} {txnId : UInt64}
    (hstarts : db.Starts env tree) (hrun : (applyMutation env txnId mu).run tree = .ok () tree') :
    (land env txnId [mu]).run db =
      (registerSnapshot env txnId tree'.rootPageId).run (db.setPager tree'.pager) := by
  have happly : (applyAll env txnId [mu]).run tree = .ok () tree' := run_bind_of_ok hrun
  rw [run_land hstarts, happly]

theorem run_write_one {db' : Db} {mu : Mutation} (hopen : db.isClosed = false)
    (hwal : db.wal = none) (hid : db.currentTxnId.toNat + 1 < 2 ^ 64)
    (hmu : TransactionContext.Accepted mu)
    (hland : (land env (db.currentTxnId + 1) [mu]).run
      { db with currentTxnId := db.currentTxnId + 1 } = .ok () db') :
    (write env [mu]).run db = .ok () db' := by
  have hbegin := run_beginWrite_of_open hopen hid
  let ctx : TransactionContext := ⟨db.currentTxnId + 1, .active, [mu], 1⟩
  have hadd : (TransactionContext.new (db.currentTxnId + 1)).addAll [mu] = .ok ctx :=
    TransactionContext.addAll_of_accepted rfl (by decide : 1 ≤ maxOperationsPerCommit) (List.forall_mem_singleton.mpr hmu)
  have hlog : (logMutations env ctx.txnId ctx.mutations).run
      { db with currentTxnId := db.currentTxnId + 1 } =
      .ok () { db with currentTxnId := db.currentTxnId + 1 } := by
    unfold logMutations
    rw [run_bind_of_ok (run_get _), hwal]
    rfl
  unfold write
  rw [run_bind_of_ok hbegin, run_bind_of_ok (run_liftErr_of_ok hadd _),
    run_commit_active env rfl rfl, run_bind_of_ok hlog]
  exact hland

variable {t : UInt64} {leaf : LeafNode}

theorem OneLeaf.starts (h : db.OneLeaf env t leaf) :
    ∃ tree, db.Starts env tree ∧ Live env db.pager.currentMeta tree [] ∧
      tree.pager.table = db.pager.table ∧ tree.rootPageId = PageId.firstData := by
  rcases exists_tree h.shows h.leaf.sound h.leaf.spine with ⟨tree, pager, hnew, hlive⟩
  exact ⟨tree, ⟨t, PageId.firstData, pager, h.latest, hnew⟩, hlive⟩

theorem OneLeaf.register {db : Db} {t : UInt64} {leaf leaf' : LeafNode}
    (h : db.OneLeaf env t leaf) (hlt : t < t + 1) {tree : BTree} {d : Disk}
    (hshows : Shows env tree.pager d db.pager.currentMeta)
    (hroot : tree.rootPageId = PageId.firstData) (hleaf : RootLeaf d leaf') :
    ∃ db', (registerSnapshot env (t + 1) tree.rootPageId).run
        (({ db with currentTxnId := t + 1 } : Db).setPager tree.pager) = .ok () db' ∧
      db'.OneLeaf env (t + 1) leaf' ∧ Grows d db'.pager.table 0 := by
  rcases @run_registerSnapshot env (({ db with currentTxnId := t + 1 } : Db).setPager tree.pager) d _
    hshows h.ordered (t + 1) tree.rootPageId (by rw [hroot]; decide)
    (by show db.snapRegistry.concurrency.currentTxnId < t + 1; rw [h.latest.1]; exact hlt)
    with ⟨pager, d', hregister, hcommit, hshows', hgrows⟩
  have hcurrent : (db.snapRegistry.concurrency.register (t + 1) tree.rootPageId).currentTxnId = t + 1 :=
    RegistryData.currentTxnId_register (by rw [h.latest.1]; exact hlt) _
  obtain rfl := hshows'.table
  refine ⟨_, hregister, ?_, hgrows⟩
  constructor
  · exact h.notClosed
  · exact h.noWal
  · intro snapshot hmem
    show snapshot.1 ≤ (db.snapRegistry.concurrency.register (t + 1) tree.rootPageId).currentTxnId
    rw [hcurrent]
    rcases List.mem_cons.mp hmem with rfl | hmem
    · exact UInt64.le_refl _
    · have hle := h.ordered snapshot hmem
      rw [h.latest.1] at hle
      exact UInt64.le_trans hle (UInt64.le_of_lt hlt)
  · rfl
  · refine ⟨hcurrent, ?_⟩
    rw [← hroot]
    exact RegistryData.getSnapshotRoot_register ..
  · show Shows env pager pager.table pager.currentMeta
    rw [hshows'.current]
    exact hshows'
  · refine ⟨hleaf.sound.grow hgrows, hgrows.owns hleaf.owns, ?_⟩
    show nodeAt pager.table PageId.firstData = _
    rw [nodeAt_congr (hgrows.pages _ hleaf.owns)]
    exact hleaf.node
  · rw [← hroot]
    apply Pager.consistent_of_commitTransaction _ _ hcommit
    · show tree.pager.currentMeta.WellFormed
      rw [hshows.current]
      exact h.consistent.current
    · show tree.pager.currentMeta.payload.pageSize.toNat = _
      rw [hshows.current]
      exact h.consistent.size

theorem OneLeaf.write_put (h : db.OneLeaf env t leaf)
    (hid : t.toNat + 1 < 2 ^ 64) (hne : key ≠ []) (hkey : key.length ≤ 255)
    (hsize : value.length ≤ Btree.maxValueSize)
    (hroom : HasRoom leaf (preparedEntry db.pager.table key value (t + 1)))
    (hpages : Room env (db.pager.table.next.toNat + overflowPages value.length)) :
    ∃ db' d₁, (write env [.put key value]).run db = .ok () db' ∧
      db'.OneLeaf env (t + 1)
        (stampLeaf env.crc (appended leaf (preparedEntry db.pager.table key value (t + 1)))) ∧
      Grows db.pager.table d₁ (overflowPages value.length) ∧
      (∀ pageId, d₁.Owns pageId → pageId ≠ PageId.firstData →
        db'.pager.table.pages pageId = d₁.pages pageId) ∧
      db'.pager.table.next.toNat = d₁.next.toNat ∧
      (looksLikeReference value = false →
        Reads env.crc d₁ (preparedEntry db.pager.table key value (t + 1)) value) := by
  have hlt : t < t + 1 := by
    have hsucc : (t + 1).toNat = t.toNat + 1 := by
      rw [UInt64.toNat_add]
      exact Nat.mod_eq_of_lt hid
    rw [UInt64.lt_iff_toNat_lt, hsucc]
    exact Nat.lt_succ_self _
  rcases h.starts with ⟨tree, hstarts, hlive, htable, hroot⟩
  have hshows : Shows env tree.pager db.pager.table db.pager.currentMeta := htable ▸ hlive.shows
  rcases HasRoom.run_put hshows hroot h.leaf hkey hsize hroom hpages
    with ⟨tree', d₁, d₂, hput, hshows₂, hroot₂, hgrows, hwrites, hleaf, hreads⟩
  rcases h.register hlt hshows₂ hroot₂ hleaf with ⟨db', hregister, hone, hgrows'⟩
  refine ⟨db', d₁, ?_, hone, hgrows, ?_, ?_, hreads⟩
  · apply run_write_one h.notClosed h.noWal (by rw [h.current]; exact hid)
    · refine ⟨hne, hkey.trans (by decide), ?_⟩
      intro v hv
      cases hv
      exact hsize.trans (by decide)
    · rw [h.current]
      have hstarts' : ({ db with currentTxnId := t + 1 } : Db).Starts env tree := hstarts
      rw [@run_land_one env _ tree tree' (.put key value) (t + 1) hstarts' hput]
      exact hregister
  · intro pageId howns hother
    rw [hgrows'.pages pageId (hwrites.owns.mpr howns), hwrites.others pageId hother]
  · rw [hgrows'.next, hwrites.next, Nat.add_zero]

theorem OneLeaf.read_dangling (h : db.OneLeaf env t leaf)
    {e : Entry} (hfound : lookup Entry.key key leaf.entries = some e)
    (hvisible : e.lsn ≤ t) (hreference : looksLikeReference e.value = true) {pageId : PageId}
    (hdecode : ValueStorage.decode e.value = .ok (.overflow pageId))
    (hpage : db.pager.table.pages pageId = none) :
    ∃ err db', (Db.read env key).run db = .error (.err err) db' := by
  rcases exists_tree h.shows h.leaf.sound h.leaf.spine
    with ⟨tree, pager, hnew, hlive, htable, hroot⟩
  have hshows : Shows env tree.pager db.pager.table db.pager.currentMeta := htable ▸ hlive.shows
  rcases run_readBtreeNode hshows h.leaf.owns h.leaf.node with ⟨pager₁, hnode, hshows₁⟩
  rcases run_resolve_dangling hshows₁ hvisible hreference hdecode hpage with ⟨err, hresolve⟩
  have hfrom : (BTree.getFrom env key t (BTree.descentFuel tree.pager) tree.rootPageId).run
      tree.pager = .error (.err err) pager₁ := by
    unfold BTree.descentFuel BTree.getFrom
    rw [hroot, run_bind_of_ok hnode]
    dsimp only
    rw [find_eq_lookup h.leaf.ok, hfound]
    exact hresolve
  have hget : (BTree.getWithPages env key t).run tree =
      .error (.err err) { tree with pager := pager₁ } := by
    unfold BTree.getWithPages
    rw [run_bind_of_ok (run_get tree)]
    exact BTree.run_onPager_of_error hfrom
  refine ⟨err, db.setPager pager₁, ?_⟩
  unfold Db.read
  rw [run_bind_of_ok (run_beginRead h.notClosed h.latest)]
  unfold ReadTxn.get
  exact run_bind_of_error (run_onPager_of_error (run_withBtree_of_error hnew hget))

end Db

end Northstar
