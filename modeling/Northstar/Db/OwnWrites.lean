import Mathlib.Data.List.Induction
import Northstar.Db.Refine

/-!
# OwnWrites — what a write transaction reads

`WriteTxn::get` looks for a buffered mutation of the key.  Where there is none it goes to the tree, and asks the
database for its current id while it holds the lock of the database itself.
-/

namespace Northstar

open Btree Txn EStateM

/-- `RwLock::read` by a thread: if it holds the lock for writing itself, the call blocks for ever or panics. -/
def rwRead {α : Type} (writing : Bool) (a : α) : Except Fault α :=
  if writing then .error .diverge else .ok a

/-- `WriteTxn::get`. -/
def WriteTxn.get (env : Env) (key : Bytes) : TxnM (Option Bytes) := do
  let txn ← MonadState.get
  match txn.ctx.findMutation key with
  | some mutation => pure mutation.value
  | none =>
    let currentTxnId ← EStateM.lift (rwRead false txn.db.currentTxnId)
    let root ← EStateM.lift (rwRead false (txn.db.snapRegistry.concurrency.getSnapshotRoot currentTxnId))
    let (value, _) ← onDb (Db.onPager (SnapshotRegistry.withBtree env (root.getD PageId.firstData) do
      -- `with_btree` runs the closure under the guard for writing
      let snapshotLsn ← EStateM.lift (rwRead true txn.db.currentTxnId)
      BTree.getWithPages env key snapshotLsn))
    pure value

theorem lastPut_eq_findMutation (ctx : TransactionContext) (key : Bytes) (before : Option Bytes) :
    lastPut key ctx.mutations before =
      match ctx.findMutation key with
      | some mutation => mutation.value
      | none => before := by
  unfold TransactionContext.findMutation
  induction ctx.mutations using List.reverseRecOn with
  | nil => rfl
  | append_singleton ms mu ih =>
    rw [lastPut_append, List.reverse_append, List.reverse_singleton, List.singleton_append]
    by_cases heq : mu.key = key
    · rw [List.find?_cons_of_pos (by simpa using heq)]
      exact if_pos heq
    · rw [List.find?_cons_of_neg (by simpa using heq), ← ih]
      exact if_neg heq

theorem findMutation_eq_none_iff {ctx : TransactionContext} {key : Bytes} :
    ctx.findMutation key = none ↔ ∀ mu ∈ ctx.mutations, mu.key ≠ key := by
  simp [TransactionContext.findMutation]

namespace WriteTxn

variable {env : Env} {txn : WriteTxn} {key : Bytes}

theorem run_get_of_mutation {mutation : Wal.Mutation} (h : txn.ctx.findMutation key = some mutation) :
    (get env key).run txn = .ok mutation.value txn := by
  unfold get
  rw [run_bind_of_ok (run_get txn), h]
  rfl

def readRoot (txn : WriteTxn) : PageId :=
  (txn.db.snapRegistry.concurrency.getSnapshotRoot txn.db.currentTxnId).getD PageId.firstData

/-- Without a mutation of the key the call returns no value: it asks for the lock it holds, or has no tree. -/
theorem run_get_of_none (h : txn.ctx.findMutation key = none) :
    ∃ e txn', (get env key).run txn = .error e txn' ∧
      ∀ tree pager, (BTree.new env txn.readRoot).run txn.db.pager = .ok tree pager → e = .diverge := by
  let closure : TreeM (Option Bytes) := do
    let snapshotLsn ← EStateM.lift (rwRead true txn.db.currentTxnId)
    BTree.getWithPages env key snapshotLsn
  have hfails : ∀ {e pager}, (SnapshotRegistry.withBtree env txn.readRoot closure).run txn.db.pager = .error e pager →
      ∃ txn', (get env key).run txn = .error e txn' := by
    intro e pager hcall
    unfold get
    rw [run_bind_of_ok (run_get txn), h]
    have hfree : ∀ {α : Type} (a : α), (EStateM.lift (rwRead false a) : TxnM α).run txn = .ok a txn :=
      fun _ => rfl
    exact ⟨_, (run_bind_of_ok (hfree _)).trans ((run_bind_of_ok (hfree _)).trans
      (run_bind_of_error (Db.run_onDb_of_error (Db.run_onPager_of_error hcall))))⟩
  cases hnew : (BTree.new env txn.readRoot).run txn.db.pager with
  | ok tree pager =>
    have hclosure : closure.run tree = .error .diverge tree := rfl
    rcases hfails (run_withBtree_of_error hnew hclosure) with ⟨txn', herror⟩
    exact ⟨_, txn', herror, fun _ _ _ => rfl⟩
  | error e pager =>
    have hcall : (SnapshotRegistry.withBtree env txn.readRoot closure).run txn.db.pager = .error e pager := by
      show SnapshotRegistry.withBtree env txn.readRoot closure txn.db.pager = _
      unfold SnapshotRegistry.withBtree
      rw [hnew]
    rcases hfails hcall with ⟨txn', herror⟩
    refine ⟨e, txn', herror, fun tree pager' hok => ?_⟩
    cases hok

end WriteTxn

/-- The root the call would read from is that of no snapshot: the id a transaction is begun with is not registered. -/
theorem begun_is_unregistered {db db' : Db} {ctx : TransactionContext} (hordered : db.Ordered)
    (hids : db.snapRegistry.concurrency.currentTxnId ≤ db.currentTxnId)
    (hbegin : Db.beginWrite.run db = .ok ctx db') :
    db'.snapRegistry.concurrency.getSnapshotRoot db'.currentTxnId = none := by
  rcases Db.run_beginWrite db with ⟨e, hrun⟩ | ⟨hlt, hrun⟩
  · rw [hrun] at hbegin
    cases hbegin
  · rw [hrun] at hbegin
    cases hbegin
    apply List.lookup_eq_none_iff.mpr
    intro snapshot hmem
    have hle := UInt64.le_trans (hordered snapshot hmem) hids
    apply bne_iff_ne.mpr
    intro heq
    rw [← heq] at hle
    exact absurd hlt (UInt64.not_lt.mpr hle)

/-- **Own writes.**  A write transaction returns what its mutations make of the latest map exactly for the keys they
mention. -/
theorem own_writes_iff (env : Env) (txn : WriteTxn) (latest : Bytes → Option Bytes) (key : Bytes) :
    (∃ txn', (WriteTxn.get env key).run txn = .ok (lastPut key txn.ctx.mutations (latest key)) txn') ↔
      ∃ mu ∈ txn.ctx.mutations, mu.key = key := by
  rw [lastPut_eq_findMutation]
  cases hfound : txn.ctx.findMutation key with
  | none =>
    have hall := findMutation_eq_none_iff.mp hfound
    constructor
    · rintro ⟨txn', hget⟩
      rcases WriteTxn.run_get_of_none hfound with ⟨e, failed, herror, -⟩
      rw [herror] at hget
      cases hget
    · rintro ⟨mu, hmem, hkey⟩
      exact absurd hkey (hall mu hmem)
  | some mutation =>
    refine ⟨fun _ => ?_, fun _ => ⟨txn, WriteTxn.run_get_of_mutation hfound⟩⟩
    by_contra hnone
    have hall : txn.ctx.findMutation key = none :=
      findMutation_eq_none_iff.mpr fun mu hmem hkey => hnone ⟨mu, hmem, hkey⟩
    rw [hall] at hfound
    cases hfound

/-- The first transaction of a new database asks for a key it has not written. -/
theorem get_in_new_database_hangs : ∃ db db' ctx txn,
    Db.openWithConfig Env.oneShard ⟨false⟩ none none = .ok db ∧ Db.beginWrite.run db = .ok ctx db' ∧
      ctx.mutations = [] ∧ (WriteTxn.get Env.oneShard [1]).run ⟨db', ctx⟩ = .error .diverge txn := by
  rcases exists_opened_new Env.oneShard ⟨false⟩ none with ⟨db, hopen⟩
  rcases Db.oneLeaf_new hopen with ⟨hone, -⟩
  have hid : db.currentTxnId.toNat + 1 < 2 ^ 64 := by
    rw [hone.current]
    decide
  have hbegin := Db.run_beginWrite_of_open hone.notClosed hid
  let txn : WriteTxn := ⟨{ db with currentTxnId := db.currentTxnId + 1 }, TransactionContext.new (db.currentTxnId + 1)⟩
  have hroot : txn.readRoot = PageId.firstData := by
    unfold WriteTxn.readRoot
    rw [show txn.db.snapRegistry.concurrency.getSnapshotRoot txn.db.currentTxnId = none from
      begun_is_unregistered hone.ordered (by rw [hone.latest.1, hone.current]; exact UInt64.le_refl _) hbegin]
    rfl
  rcases exists_tree hone.shows hone.leaf.sound hone.leaf.spine with ⟨tree, pager, hnew, -⟩
  rcases @WriteTxn.run_get_of_none Env.oneShard txn [1] rfl with ⟨e, txn', herror, hhangs⟩
  rw [hroot] at hhangs
  rw [hhangs tree pager hnew] at herror
  exact ⟨db, _, _, txn', hopen, hbegin, rfl, herror⟩

end Northstar
