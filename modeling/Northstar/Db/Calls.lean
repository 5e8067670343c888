import Northstar.Db.Db

/-!
# Calls — what the calls of a database do to its table

A read leaves the table alone.  A commit that gets past the log applies its mutations to the tree of
the latest snapshot (`land`); only when all of them are applied does it ask the registry, which may
still refuse the transaction.
-/

namespace Northstar

open Btree Txn EStateM

variable {db : Db} {txnId : UInt64} {rootPageId : PageId} {tree : BTree}

namespace Db

def setPager (db : Db) (pager : Pager) : Db :=
  { db with snapRegistry := { db.snapRegistry with pager } }

theorem run_onPager_of_ok {α : Type} {x : PagerM α} {db : Db} {pager : Pager} {a : α}
    (h : x.run db.pager = .ok a pager) : (onPager x).run db = .ok a (db.setPager pager) :=
  run_zoom_of_ok h

theorem run_onPager_of_error {α : Type} {x : PagerM α} {db : Db} {pager : Pager} {e : Fault}
    (h : x.run db.pager = .error e pager) : (onPager x).run db = .error e (db.setPager pager) :=
  run_zoom_of_error h

def Latest (db : Db) (txnId : UInt64) (rootPageId : PageId) : Prop :=
  db.snapRegistry.concurrency.currentTxnId = txnId ∧
    db.snapRegistry.concurrency.getSnapshotRoot txnId = some rootPageId

theorem Latest.latest (h : db.Latest txnId rootPageId) : db.snapRegistry.latest = .ok (txnId, rootPageId) := by
  unfold SnapshotRegistry.latest RegistryData.getLatestSnapshot
  rw [h.1, h.2]
  rfl

/-- The tree the mutations of a commit are applied to. -/
def Starts (env : Env) (db : Db) (tree : BTree) : Prop :=
  ∃ txnId rootPageId pager, db.Latest txnId rootPageId ∧
    (BTree.new env rootPageId).run db.pager = .ok tree pager

end Db

section reads

variable {env : Env} {d : Disk} {m : MetaState} {rungs : List Rung}

theorem run_withBtree_of_ok {α : Type} {f : TreeM α} {pager pager' : Pager}
    {tree' : BTree} {a : α} (hnew : (BTree.new env rootPageId).run pager = .ok tree pager')
    (hf : f.run tree = .ok a tree') :
    (SnapshotRegistry.withBtree env rootPageId f).run pager =
      .ok (a, tree'.rootPageId) tree'.pager := by
  show SnapshotRegistry.withBtree env rootPageId f pager = _
  unfold SnapshotRegistry.withBtree
  rw [hnew]
  dsimp only
  rw [hf]

theorem run_withBtree_of_error {α : Type} {f : TreeM α} {pager pager' : Pager}
    {tree' : BTree} {e : Fault} (hnew : (BTree.new env rootPageId).run pager = .ok tree pager')
    (hf : f.run tree = .error e tree') :
    (SnapshotRegistry.withBtree env rootPageId f).run pager = .error e tree'.pager := by
  show SnapshotRegistry.withBtree env rootPageId f pager = _
  unfold SnapshotRegistry.withBtree
  rw [hnew]
  dsimp only
  rw [hf]

theorem exists_tree {pager : Pager} (h : Shows env pager d m) (hsound : Sound d)
    (hspine : Spine d rootPageId rungs) :
    ∃ tree pager', (BTree.new env rootPageId).run pager = .ok tree pager' ∧
      Live env m tree rungs ∧ tree.pager.table = d ∧ tree.rootPageId = rootPageId := by
  rcases run_new hspine hsound h with ⟨pager', height, hnew, hshows⟩
  have htable := hshows.table
  refine ⟨_, pager', hnew, ?_, htable, rfl⟩
  constructor
  · show Shows env pager' pager'.table m
    rw [htable]
    exact hshows
  · show Sound pager'.table
    rw [htable]
    exact hsound
  · show Spine pager'.table rootPageId rungs
    rw [htable]
    exact hspine

theorem Db.Starts.live (hstarts : db.Starts env tree) {t : UInt64}
    {root : PageId} (hlatest : db.Latest t root) (h : Shows env db.pager d m) (hsound : Sound d)
    (hspine : Spine d root rungs) :
    Live env m tree rungs ∧ tree.pager.table = d ∧ tree.rootPageId = root := by
  rcases hstarts with ⟨t', root', pager, hlatest', hnew⟩
  rcases exists_tree h hsound hspine with ⟨tree', pager', hnew', hlive⟩
  have hroot : root' = root := by
    have ht : t' = t := hlatest'.1.symm.trans hlatest.1
    rw [ht] at hlatest'
    exact Option.some.inj (hlatest'.2.symm.trans hlatest.2)
  rw [hroot, hnew'] at hnew
  cases hnew
  exact hlive

theorem run_readTxn_get (h : Shows env db.pager d m) (hsound : Sound d) (r : ReadTxn)
    (hspine : Spine d r.rootPageId rungs) {key : Bytes} {answer : Option Bytes}
    (hanswer : Answers env.crc d r.txnId (entryFor d rungs key) answer) :
    ∃ pager, (r.get env key).run db = .ok answer (db.setPager pager) ∧ Shows env pager d m := by
  rcases exists_tree h hsound hspine with ⟨tree, pager₁, hnew, hlive, htable, hroot⟩
  have hshows : Shows env tree.pager d m := htable ▸ hlive.shows
  rcases run_getWithPages hspine hsound hroot hshows key r.txnId hanswer with ⟨pager₂, hget, hshows₂⟩
  refine ⟨pager₂, ?_, hshows₂⟩
  unfold ReadTxn.get
  rw [run_bind_of_ok (Db.run_onPager_of_ok (run_withBtree_of_ok hnew hget))]
  rfl

theorem run_beginRead (hopen : db.isClosed = false) (hlatest : db.Latest txnId rootPageId) :
    Db.beginRead.run db = .ok ⟨txnId, rootPageId⟩ db := by
  have hensure : db.ensureOpen = .ok () := by
    unfold Db.ensureOpen
    rw [hopen]
    rfl
  unfold Db.beginRead
  rw [run_bind_of_ok (run_get db), run_bind_of_ok (run_liftErr_of_ok hensure db),
    run_bind_of_ok (run_liftErr_of_ok hlatest.latest db)]
  rfl

theorem run_read (hopen : db.isClosed = false)
    (hlatest : db.Latest txnId rootPageId) (h : Shows env db.pager d m) (hsound : Sound d)
    (hspine : Spine d rootPageId rungs) {key : Bytes} {answer : Option Bytes}
    (hanswer : Answers env.crc d txnId (entryFor d rungs key) answer) :
    ∃ pager, (Db.read env key).run db = .ok answer (db.setPager pager) ∧ Shows env pager d m := by
  rcases run_readTxn_get h hsound ⟨txnId, rootPageId⟩ hspine hanswer with ⟨pager, hget, hshows⟩
  refine ⟨pager, ?_, hshows⟩
  unfold Db.read
  rw [run_bind_of_ok (run_beginRead hopen hlatest)]
  exact hget

end reads

namespace Db

/-- `commit` once the record is logged. -/
def land (env : Env) (txnId : UInt64) (ms : List Wal.Mutation) : DbM Unit := do
  let newRootPageId ← applyMutations env (applyAll env txnId ms)
  registerSnapshot env txnId newRootPageId

variable {ctx : TransactionContext} {env : Env} {txn : WriteTxn}

theorem run_commit_of_ok (h : (WriteTxn.commit env).run ⟨db, ctx⟩ = .ok () txn) :
    (commit env ctx).run db = .ok () txn.db := by
  show commit env ctx db = _
  unfold commit
  rw [h]

theorem run_commit_of_error {e : Fault} (h : (WriteTxn.commit env).run ⟨db, ctx⟩ = .error e txn) :
    (commit env ctx).run db = .error e txn.db := by
  show commit env ctx db = _
  unfold commit
  rw [h]

theorem run_prepare_empty (env : Env) {txn : WriteTxn} (h : txn.ctx.hasMutations = false) :
    (WriteTxn.prepare env).run txn = .ok () txn := by
  unfold WriteTxn.prepare
  rw [run_bind_of_ok (run_get txn), h]
  rfl

theorem run_commit_empty (env : Env) (h : ctx.hasMutations = false) (db : Db) :
    (commit env ctx).run db = .ok () db ∨ ∃ e, (commit env ctx).run db = .error (.err e) db := by
  have hcommit : (WriteTxn.commit env).run ⟨db, ctx⟩ =
      (WriteTxn.transition TransactionState.transitionToCommitted).run ⟨db, ctx⟩ := by
    have hfinish : (WriteTxn.finish env).run ⟨db, ctx⟩ =
        (WriteTxn.transition TransactionState.transitionToCommitted).run ⟨db, ctx⟩ := by
      unfold WriteTxn.finish
      rw [run_bind_of_ok (run_get _), h]
      rfl
    unfold WriteTxn.commit
    rw [run_bind_of_ok (run_get _)]
    by_cases hstate : ctx.state = .preparing
    · rw [if_pos hstate]
      exact hfinish
    · rw [if_neg hstate, run_bind_of_ok (@run_prepare_empty env ⟨db, ctx⟩ h)]
      exact hfinish
  rcases ctx with ⟨txnId, state, mutations, count⟩
  cases state with
  | preparing => exact Or.inl (run_commit_of_ok (hcommit.trans rfl))
  | active => exact Or.inr ⟨_, run_commit_of_error (hcommit.trans rfl)⟩
  | committed => exact Or.inr ⟨_, run_commit_of_error (hcommit.trans rfl)⟩
  | aborted => exact Or.inr ⟨_, run_commit_of_error (hcommit.trans rfl)⟩

theorem run_onDb_of_ok {α : Type} {x : DbM α} {txn : WriteTxn} {db : Db} {a : α}
    (h : x.run txn.db = .ok a db) : (WriteTxn.onDb x).run txn = .ok a { txn with db } :=
  run_zoom_of_ok h

theorem run_onDb_of_error {α : Type} {x : DbM α} {txn : WriteTxn} {db : Db} {e : Fault}
    (h : x.run txn.db = .error e db) : (WriteTxn.onDb x).run txn = .error e { txn with db } :=
  run_zoom_of_error h

theorem run_finish (env : Env) {txn : WriteTxn} (hmutations : txn.ctx.hasMutations = true)
    (hstate : txn.ctx.state = .preparing) :
    (∃ txn', (WriteTxn.finish env).run txn = .ok () txn' ∧
      (land env txn.ctx.txnId txn.ctx.mutations).run txn.db = .ok () txn'.db) ∨
    ∃ e txn', (WriteTxn.finish env).run txn = .error e txn' ∧
      (land env txn.ctx.txnId txn.ctx.mutations).run txn.db = .error e txn'.db := by
  unfold WriteTxn.finish land
  rw [run_bind_of_ok (run_get txn), hmutations]
  rw [if_neg (by decide)]
  cases happly : (applyMutations env (applyAll env txn.ctx.txnId txn.ctx.mutations)).run txn.db with
  | error e db =>
    right
    rw [run_bind_of_error (run_onDb_of_error happly), run_bind_of_error happly]
    exact ⟨e, _, rfl, rfl⟩
  | ok newRootPageId db =>
    rw [run_bind_of_ok (run_onDb_of_ok happly), run_bind_of_ok happly]
    cases hregister : (registerSnapshot env txn.ctx.txnId newRootPageId).run db with
    | error e db' =>
      right
      rw [run_bind_of_error (@run_onDb_of_error _ _ { txn with db } _ _ hregister)]
      exact ⟨e, _, rfl, rfl⟩
    | ok _ db' =>
      left
      rw [run_bind_of_ok (@run_onDb_of_ok _ _ { txn with db } _ _ hregister)]
      have htransition : txn.ctx.state.transitionToCommitted = .ok .committed := by
        rw [hstate]
        rfl
      refine ⟨⟨db', { txn.ctx with state := .committed }⟩, ?_, rfl⟩
      unfold WriteTxn.transition
      rw [run_bind_of_ok (run_get _), run_bind_of_ok (run_liftErr_of_ok htransition _)]
      rfl

theorem run_commit_prepared (env : Env)
    (hmutations : ctx.hasMutations = true) (hstate : ctx.state = .preparing) (db : Db) :
    (commit env ctx).run db = (land env ctx.txnId ctx.mutations).run db := by
  have hcommit : (WriteTxn.commit env).run ⟨db, ctx⟩ = (WriteTxn.finish env).run ⟨db, ctx⟩ := by
    unfold WriteTxn.commit
    rw [run_bind_of_ok (run_get _), if_pos hstate]
  rcases @run_finish env ⟨db, ctx⟩ hmutations hstate with ⟨txn, hfinish, hland⟩ | ⟨e, txn, hfinish, hland⟩
  · rw [run_commit_of_ok (hcommit.trans hfinish), hland]
  · rw [run_commit_of_error (hcommit.trans hfinish), hland]

theorem run_commit_active (env : Env)
    (hmutations : ctx.hasMutations = true) (hstate : ctx.state = .active) (db : Db) :
    (commit env ctx).run db =
      (do logMutations env ctx.txnId ctx.mutations
          land env ctx.txnId ctx.mutations : DbM Unit).run db := by
  have hprepare : (WriteTxn.prepare env).run ⟨db, ctx⟩ =
      (WriteTxn.onDb (logMutations env ctx.txnId ctx.mutations)).run
        ⟨db, { ctx with state := .preparing }⟩ := by
    have htransition : ctx.state.transitionToPreparing = .ok .preparing := by
      rw [hstate]
      rfl
    unfold WriteTxn.prepare
    rw [run_bind_of_ok (run_get _)]
    dsimp only
    rw [hmutations]
    rw [if_neg (by decide)]
    apply run_bind_of_ok
    unfold WriteTxn.transition
    rw [run_bind_of_ok (run_get _), run_bind_of_ok (run_liftErr_of_ok htransition _)]
    rfl
  have hcommit : (WriteTxn.commit env).run ⟨db, ctx⟩ =
      (do WriteTxn.prepare env
          WriteTxn.finish env : TxnM Unit).run ⟨db, ctx⟩ := by
    unfold WriteTxn.commit
    rw [run_bind_of_ok (run_get _), if_neg (by rw [hstate]; decide)]
  cases hlog : (logMutations env ctx.txnId ctx.mutations).run db with
  | error e db' =>
    have hrun := hprepare.trans (@run_onDb_of_error _ _ ⟨db, _⟩ _ _ hlog)
    rw [run_commit_of_error (hcommit.trans (run_bind_of_error hrun)), run_bind_of_error hlog]
  | ok _ db' =>
    have hrun := hprepare.trans (@run_onDb_of_ok _ _ ⟨db, _⟩ _ _ hlog)
    have hcommit := hcommit.trans (run_bind_of_ok hrun)
    rw [run_bind_of_ok hlog]
    rcases @run_finish env ⟨db', { ctx with state := .preparing }⟩ hmutations rfl
      with ⟨txn, hfinish, hland⟩ | ⟨e, txn, hfinish, hland⟩
    · rw [run_commit_of_ok (hcommit.trans hfinish)]
      exact hland.symm
    · rw [run_commit_of_error (hcommit.trans hfinish)]
      exact hland.symm

theorem run_logMutations (env : Env) (txnId : UInt64) (ms : List Wal.Mutation) (db : Db) :
    (∃ wal, (logMutations env txnId ms).run db = .ok () { db with wal }) ∨
      ∃ e, (logMutations env txnId ms).run db = .error e db := by
  unfold logMutations
  rw [run_bind_of_ok (run_get db)]
  cases hwal : db.wal with
  | none =>
    rcases db with ⟨registry, wal, isClosed, current⟩
    obtain rfl : wal = none := hwal
    exact Or.inl ⟨none, rfl⟩
  | some wal =>
    dsimp only
    cases happend : wal.appendCommitRecord env.crc (Wal.CommitRecord.new txnId 0 ms) with
    | error e => exact Or.inr ⟨e, by rw [run_bind_of_error (run_lift_error e db)]⟩
    | ok result =>
      rw [run_bind_of_ok (run_lift_ok result db)]
      exact Or.inl ⟨_, rfl⟩

theorem ends_commit {P : Unit → Db → Prop}
    {Q : Fault → Db → Prop} (hstate : ctx.state = .active ∨ ctx.state = .preparing)
    (hempty : ctx.hasMutations = false → P () db) (hfailed : ∀ e, Q e db)
    (hland : ctx.hasMutations = true → ∀ wal,
      Ends (land env ctx.txnId ctx.mutations) { db with wal } P Q) :
    Ends (commit env ctx) db P Q := by
  cases hmutations : ctx.hasMutations with
  | false =>
    rcases run_commit_empty env hmutations db with hrun | ⟨e, hrun⟩
    · exact ends_of_ok hrun (hempty hmutations)
    · exact ends_of_error hrun (hfailed _)
  | true =>
    rcases hstate with hactive | hpreparing
    · rw [Ends, run_commit_active env hmutations hactive]
      rcases run_logMutations env ctx.txnId ctx.mutations db with ⟨wal, hlog⟩ | ⟨e, hlog⟩
      · rw [run_bind_of_ok hlog]
        exact hland hmutations wal
      · rw [run_bind_of_error hlog]
        exact hfailed e
    · rw [Ends, run_commit_prepared env hmutations hpreparing]
      exact hland hmutations db.wal

theorem run_beginWrite (db : Db) : (∃ e, beginWrite.run db = .error (.err e) db) ∨
      (db.currentTxnId < db.currentTxnId + 1 ∧ beginWrite.run db =
        .ok (TransactionContext.new (db.currentTxnId + 1))
          { db with currentTxnId := db.currentTxnId + 1 }) := by
  unfold beginWrite
  rw [run_bind_of_ok (run_get db)]
  cases hensure : db.ensureOpen with
  | error e =>
    rw [run_bind_of_error (run_liftErr_of_error rfl db)]
    exact Or.inl ⟨e, rfl⟩
  | ok _ =>
    rw [run_bind_of_ok (run_liftErr_of_ok rfl db)]
    by_cases hlt : db.currentTxnId.toNat + 1 < 2 ^ 64
    · rw [if_pos hlt]
      refine Or.inr ⟨?_, rfl⟩
      have hsucc : (db.currentTxnId + 1).toNat = db.currentTxnId.toNat + 1 := by
        rw [UInt64.toNat_add]
        exact Nat.mod_eq_of_lt hlt
      rw [UInt64.lt_iff_toNat_lt, hsucc]
      exact Nat.lt_succ_self _
    · rw [if_neg hlt]
      exact Or.inl ⟨_, rfl⟩

theorem run_beginWrite_of_open (hopen : db.isClosed = false) (hid : db.currentTxnId.toNat + 1 < 2 ^ 64) :
    beginWrite.run db =
      .ok (TransactionContext.new (db.currentTxnId + 1)) { db with currentTxnId := db.currentTxnId + 1 } := by
  have hensure : db.ensureOpen = .ok () := by
    unfold ensureOpen
    rw [hopen]
    rfl
  unfold beginWrite
  rw [run_bind_of_ok (run_get db), run_bind_of_ok (run_liftErr_of_ok hensure db), if_pos hid]
  rfl

theorem run_land (hstart : db.Starts env tree) (txnId : UInt64) (ms : List Wal.Mutation) :
    (land env txnId ms).run db =
      match (applyAll env txnId ms).run tree with
      | .ok _ tree' => (registerSnapshot env txnId tree'.rootPageId).run (db.setPager tree'.pager)
      | .error e tree' => .error e (db.setPager tree'.pager) := by
  rcases hstart with ⟨current, rootPageId, pager, hlatest, hnew⟩
  unfold land applyMutations
  rw [bind_assoc, run_bind_of_ok (run_get db), bind_assoc,
    run_bind_of_ok (run_liftErr_of_ok hlatest.latest db)]
  dsimp only
  cases happly : (applyAll env txnId ms).run tree with
  | ok a tree' =>
    rw [bind_assoc, run_bind_of_ok (run_onPager_of_ok (run_withBtree_of_ok hnew happly))]
    rfl
  | error e tree' =>
    rw [bind_assoc, run_bind_of_error (run_onPager_of_error (run_withBtree_of_error hnew happly))]

/-- No snapshot is younger than the current one. -/
def Ordered (db : Db) : Prop :=
  ∀ snapshot ∈ db.snapRegistry.concurrency.snapshots,
    snapshot.1 ≤ db.snapRegistry.concurrency.currentTxnId

def setRegistry (db : Db) (concurrency : RegistryData) : Db :=
  { db with snapRegistry := { db.snapRegistry with concurrency } }

theorem run_registerSnapshot_of_error
    {e : Error} (h : db.snapRegistry.registerSnapshot txnId rootPageId = .error e) :
    (registerSnapshot env txnId rootPageId).run db = .error (.err e) db := by
  unfold registerSnapshot
  rw [run_bind_of_ok (run_get db), run_bind_of_error (run_liftErr_of_error h db)]

theorem run_registerSnapshot {env : Env} {db : Db} {d : Disk} {m : MetaState}
    (h : Shows env db.pager d m) (hordered : db.Ordered) {txnId : UInt64} {rootPageId : PageId}
    (hroot : 2 ≤ rootPageId.toNat)
    (hnewer : db.snapRegistry.concurrency.currentTxnId < txnId) :
    ∃ pager d', (registerSnapshot env txnId rootPageId).run db = .ok () ((db.setRegistry
        (db.snapRegistry.concurrency.register txnId rootPageId)).setPager pager) ∧
      (Pager.commitTransaction env.crc txnId rootPageId).run db.pager = .ok () pager ∧
      Shows env pager d' (Pager.updateMeta env.crc txnId rootPageId m) ∧ Grows d d' 0 := by
  have hfresh : db.snapRegistry.concurrency.getSnapshotRoot txnId = none := by
    apply List.lookup_eq_none_iff.mpr
    intro snapshot hmem
    have hle := hordered snapshot hmem
    apply bne_iff_ne.mpr
    intro heq
    rw [← heq] at hle
    exact absurd hnewer (UInt64.not_lt.mpr hle)
  have hregister : db.snapRegistry.registerSnapshot txnId rootPageId = .ok { db.snapRegistry with
      concurrency := db.snapRegistry.concurrency.register txnId rootPageId } := by
    unfold SnapshotRegistry.registerSnapshot
    rw [if_neg (by rw [UInt64.lt_iff_toNat_lt]; exact Nat.not_lt.mpr hroot), hfresh,
      if_neg (by simp), if_neg (UInt64.not_le.mpr hnewer)]
  rcases h.run_commitTransaction txnId rootPageId with ⟨pager, d', hcommit, hshows, hnext, hpages⟩
  refine ⟨pager, d', ?_, hcommit, hshows, ?_⟩
  · unfold registerSnapshot
    rw [run_bind_of_ok (run_get db), run_bind_of_ok (run_liftErr_of_ok hregister db),
      run_bind_of_ok (run_set _ db)]
    exact @run_onPager_of_ok _ _ (db.setRegistry _) _ _ hcommit
  · constructor
    · rw [hnext, Nat.add_zero]
    · exact fun pageId howns => hpages pageId howns.1
    · intro pageId howns hnot
      exact absurd ⟨howns.1, hnext ▸ howns.2⟩ hnot

theorem registerSnapshot_refused {registry : SnapshotRegistry} {txnId : UInt64}
    (h : ¬ registry.concurrency.currentTxnId < txnId) (rootPageId : PageId) :
    ∃ e, registry.registerSnapshot txnId rootPageId = .error e := by
  have hle : txnId ≤ registry.concurrency.currentTxnId := UInt64.not_lt.mp h
  unfold SnapshotRegistry.registerSnapshot
  simp only [if_pos hle]
  split
  · exact ⟨_, rfl⟩
  · split
    · exact ⟨_, rfl⟩
    · exact ⟨_, rfl⟩

/-- **The rule for a commit.**  An invariant of the loop over the mutations holds of the tree that is
registered, and of the tree that is left behind when the registry refuses it. -/
theorem ends_land {m : MetaState} {t : UInt64} {root : PageId}
    {rungs : List Rung} (hlatest : db.Latest t root) (hordered : db.Ordered)
    (hshows : Shows env db.pager db.pager.table m) (hsound : Sound db.pager.table)
    (hspine : Spine db.pager.table root rungs) {ms : List Wal.Mutation}
    {C : BTree → Wal.Mutation → Prop} {P : List Wal.Mutation → BTree → Prop}
    {Q : Fault → BTree → Prop}
    (hlive : ∀ done tree, P done tree → ∃ rungs, Live env m tree rungs)
    (hinit : ∀ tree, Live env m tree rungs → tree.pager.table = db.pager.table →
      tree.rootPageId = root → P [] tree)
    (hstep : ∀ done mu tree, P done tree → C tree mu →
      Ends (applyMutation env txnId mu) tree (fun _ => P (done ++ [mu])) Q)
    (hmeets : ∀ tree, db.Starts env tree → Meets (applyMutation env txnId) C ms tree) :
    Ends (land env txnId ms) db
      (fun _ db' => t < txnId ∧ ∃ tree pager, P ms tree ∧ db' = (db.setRegistry
          (db.snapRegistry.concurrency.register txnId tree.rootPageId)).setPager pager ∧
        (Pager.commitTransaction env.crc txnId tree.rootPageId).run tree.pager = .ok () pager ∧
        Shows env pager pager.table (Pager.updateMeta env.crc txnId tree.rootPageId m) ∧
        Grows tree.pager.table pager.table 0)
      (fun e db' => ∃ tree, db' = db.setPager tree.pager ∧
        (Q e tree ∨ (P ms tree ∧ e.isErr ∧ ¬ t < txnId))) := by
  rcases exists_tree hshows hsound hspine with ⟨tree, pager, hnew, htree, htable, hroot⟩
  have hstarts : db.Starts env tree := ⟨t, root, pager, hlatest, hnew⟩
  have hloop := ends_forEach hstep (hinit tree htree htable hroot) (hmeets tree hstarts)
  have hrun := run_land hstarts txnId ms
  cases happly : (applyAll env txnId ms).run tree with
  | error e tree' =>
    rw [happly] at hrun
    exact ends_of_error hrun ⟨tree', rfl, Or.inl (hloop.of_run_error happly)⟩
  | ok _ tree' =>
    rw [happly] at hrun
    have hp : P ms tree' := hloop.of_run_ok happly
    rcases hlive ms tree' hp with ⟨rungs', hlive'⟩
    by_cases hnewer : t < txnId
    · have hcurrent : db.snapRegistry.concurrency.currentTxnId < txnId := by
        rw [hlatest.1]
        exact hnewer
      rcases @run_registerSnapshot env (db.setPager tree'.pager) _ m hlive'.shows hordered txnId
        tree'.rootPageId hlive'.spine.owns_root.1 hcurrent
        with ⟨pager', d', hregister, hcommit, hshows', hgrows⟩
      obtain rfl := hshows'.table
      exact ends_of_ok (hrun.trans hregister) ⟨hnewer, tree', pager', hp, rfl, hcommit, hshows', hgrows⟩
    · have hcurrent : ¬ db.snapRegistry.concurrency.currentTxnId < txnId := by
        rw [hlatest.1]
        exact hnewer
      rcases @registerSnapshot_refused (db.setPager tree'.pager).snapRegistry txnId hcurrent
        tree'.rootPageId with ⟨e, hrefused⟩
      refine ends_of_error (hrun.trans (run_registerSnapshot_of_error hrefused)) ?_
      exact ⟨tree', rfl, Or.inr ⟨hp, rfl, hnewer⟩⟩

end Db

theorem RegistryData.getSnapshotRoot_register (data : RegistryData) (txnId : UInt64)
    (rootPageId : PageId) : (data.register txnId rootPageId).getSnapshotRoot txnId = some rootPageId := by
  unfold RegistryData.register RegistryData.getSnapshotRoot
  rw [List.lookup_cons_self]

theorem RegistryData.currentTxnId_register {data : RegistryData}
    (h : data.currentTxnId < txnId) (rootPageId : PageId) :
    (data.register txnId rootPageId).currentTxnId = txnId := if_pos h

end Northstar
