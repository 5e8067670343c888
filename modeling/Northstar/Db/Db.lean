import Northstar.Txn.Transaction
import Northstar.Wal.Log

/-!
# Db — the database handle and its transactions

`db/mod.rs` with `snap/registry.rs`, `txn/write_txn.rs` and `txn/read_txn.rs`.  The query cache is
left out: every call of `query_cache` clones it, and a clone starts empty, so no lookup hits.
-/

namespace Northstar

open Btree Txn EStateM

/-- `RegistryData`; the latest binding of a transaction id stands in front. -/
structure RegistryData where
  snapshots : List (UInt64 × PageId)
  currentTxnId : UInt64
  deriving Repr, DecidableEq

namespace RegistryData

def withTxnId (genesisPageId : PageId) (currentTxnId : UInt64) : RegistryData where
  snapshots := [(currentTxnId, genesisPageId)]
  currentTxnId := currentTxnId

def getSnapshotRoot (data : RegistryData) (txnId : UInt64) : Option PageId :=
  data.snapshots.lookup txnId

def getLatestSnapshot (data : RegistryData) : Option (UInt64 × PageId) :=
  (data.getSnapshotRoot data.currentTxnId).map fun rootPageId => (data.currentTxnId, rootPageId)

def register (data : RegistryData) (txnId : UInt64) (rootPageId : PageId) : RegistryData where
  snapshots := (txnId, rootPageId) :: data.snapshots
  currentTxnId := if txnId > data.currentTxnId then txnId else data.currentTxnId

end RegistryData

structure SnapshotRegistry where
  concurrency : RegistryData
  pager : Pager
  deriving Repr, DecidableEq

namespace SnapshotRegistry

def withTxnId (pager : Pager) (genesisPageId : PageId) (currentTxnId : UInt64) :
    SnapshotRegistry where
  concurrency := RegistryData.withTxnId genesisPageId currentTxnId
  pager := pager

def registerSnapshot (registry : SnapshotRegistry) (txnId : UInt64) (rootPageId : PageId) :
    Except Error SnapshotRegistry :=
  let current := registry.concurrency.currentTxnId
  if rootPageId < 2 then
    .error (.validation (.invalidChildPageId rootPageId))
  else if (registry.concurrency.getSnapshotRoot txnId).isSome then
    .error (.validation (.generic ("Snapshot already exists for txn_id " ++ toString txnId)))
  else if txnId ≤ current then
    .error (.validation (.generic ("txn_id " ++ toString txnId ++ " is not greater than current " ++
      toString current)))
  else .ok { registry with concurrency := registry.concurrency.register txnId rootPageId }

/-- The latest snapshot, which `snapshot` and `apply_mutations` start from. -/
def latest (registry : SnapshotRegistry) : Except Error (UInt64 × PageId) :=
  match registry.concurrency.getLatestSnapshot with
  | some snapshot => .ok snapshot
  | none => .error (.transaction (.snapshotNotFound 0))

/-- A tree that borrows the pager for one call: what the call did to the pager stays, also when it
fails.  Returned with the root the tree has at the end. -/
def withBtree {α : Type} (env : Env) (rootPageId : PageId) (f : TreeM α) : PagerM (α × PageId) :=
  fun pager =>
    match (BTree.new env rootPageId).run pager with
    | .error e pager => .error e pager
    | .ok tree _ =>
      match f.run tree with
      | .ok a tree => .ok (a, tree.rootPageId) tree.pager
      | .error e tree => .error e tree.pager

end SnapshotRegistry

/-- `DbConfig`: the other options are never read. -/
structure DbConfig where
  enableWal : Bool
  deriving Repr, DecidableEq

structure Db where
  snapRegistry : SnapshotRegistry
  wal : Option Wal
  isClosed : Bool
  currentTxnId : UInt64
  deriving Repr, DecidableEq

abbrev DbM := EStateM Fault Db

structure ReadTxn where
  txnId : UInt64
  rootPageId : PageId
  deriving Repr, DecidableEq

namespace Db

def pager (db : Db) : Pager := db.snapRegistry.pager

def onPager {α : Type} (x : PagerM α) : DbM α :=
  EStateM.zoom Db.pager
    (fun db pager => { db with snapRegistry := { db.snapRegistry with pager } }) x

/-- The log `open_with_config` starts with. -/
def openWal (env : Env) (config : DbConfig) (file walFile : Option Bytes) :
    Except Error (Option Wal) :=
  if config.enableWal then
    match file, walFile with
    | some _, some data => (Wal.openFile env.crc data).map some
    | _, _ => .ok (some Wal.create)
  else .ok none

/-- A file that exists is opened, one that does not is created. -/
def openPager (env : Env) : Option Bytes → Except Fault Pager
  | some data => (Pager.openFile env.crc ⟨data⟩).mapError .err
  | none => Pager.createFile env []

/-- `open_with_config`, given what the database file and the log file hold, if they exist. -/
def openWithConfig (env : Env) (config : DbConfig) (file walFile : Option Bytes) :
    Except Fault Db := do
  let pager ← openPager env file
  let wal ← (openWal env config file walFile).mapError .err
  return {
    snapRegistry := SnapshotRegistry.withTxnId pager pager.rootPageId pager.committedTxnId
    wal := wal
    isClosed := false
    currentTxnId := pager.committedTxnId }

def ensureOpen (db : Db) : Except Error Unit :=
  if db.isClosed then .error (.transaction .databaseClosed) else .ok ()

def beginRead : DbM ReadTxn := do
  let db ← get
  liftErr db.ensureOpen
  let (txnId, rootPageId) ← liftErr db.snapRegistry.latest
  pure ⟨txnId, rootPageId⟩

/-- `begin_write`: the id of the new transaction. -/
def beginWrite : DbM TransactionContext := do
  let db ← get
  liftErr db.ensureOpen
  if db.currentTxnId.toNat + 1 < 2 ^ 64 then
    let txnId := db.currentTxnId + 1
    set { db with currentTxnId := txnId }
    pure (TransactionContext.new txnId)
  else throw (.err (.transaction (.generic "Transaction ID overflow")))

def applyMutations (env : Env) (f : TreeM Unit) : DbM PageId := do
  let db ← get
  let (_, rootPageId) ← liftErr db.snapRegistry.latest
  let (_, newRootPageId) ← onPager (SnapshotRegistry.withBtree env rootPageId f)
  pure newRootPageId

def registerSnapshot (env : Env) (txnId : UInt64) (rootPageId : PageId) : DbM Unit := do
  let db ← get
  let snapRegistry ← liftErr (db.snapRegistry.registerSnapshot txnId rootPageId)
  set { db with snapRegistry }
  onPager (Pager.commitTransaction env.crc txnId rootPageId)

/-- The part of `prepare` inside `with_wal`. -/
def logMutations (env : Env) (txnId : UInt64) (mutations : List Wal.Mutation) : DbM Unit := do
  let db ← get
  match db.wal with
  | none => pure ()
  | some wal =>
    -- the new root page is not known yet
    let record := Wal.CommitRecord.new txnId 0 mutations
    let (wal, _) ← EStateM.lift (wal.appendCommitRecord env.crc record)
    let wal := if wal.syncNeeded then wal.sync else wal
    set { db with wal := some wal }

def close : DbM Unit :=
  modify fun db =>
    if db.isClosed then db
    else
      { db with
        wal := db.wal.map Wal.close
        snapRegistry := { db.snapRegistry with pager := db.pager.close }
        isClosed := true }

end Db

def ReadTxn.get (env : Env) (r : ReadTxn) (key : Bytes) : DbM (Option Bytes) := do
  let (value, _) ← Db.onPager
    (SnapshotRegistry.withBtree env r.rootPageId (BTree.getWithPages env key r.txnId))
  pure value

/-- A write transaction beside the database it refers to.  `original_root_page_id` is never read. -/
structure WriteTxn where
  db : Db
  ctx : TransactionContext
  deriving Repr, DecidableEq

abbrev TxnM := EStateM Fault WriteTxn

namespace WriteTxn

def onDb {α : Type} (x : DbM α) : TxnM α :=
  EStateM.zoom WriteTxn.db (fun txn db => { txn with db }) x

/-- A change of state, which may be refused. -/
def transition (step : TransactionState → Except Error TransactionState) : TxnM Unit := do
  let txn ← get
  let state ← liftErr (step txn.ctx.state)
  set { txn with ctx := { txn.ctx with state } }

def prepare (env : Env) : TxnM Unit := do
  let txn ← get
  if !txn.ctx.hasMutations then pure ()
  else
    transition TransactionState.transitionToPreparing
    onDb (Db.logMutations env txn.ctx.txnId txn.ctx.mutations)

/-- The part of `commit` after `prepare`. -/
def finish (env : Env) : TxnM Unit := do
  let txn ← get
  if !txn.ctx.hasMutations then transition TransactionState.transitionToCommitted
  else
    let newRootPageId ← onDb
      (Db.applyMutations env (applyAll env txn.ctx.txnId txn.ctx.mutations))
    onDb (Db.registerSnapshot env txn.ctx.txnId newRootPageId)
    transition TransactionState.transitionToCommitted

def commit (env : Env) : TxnM Unit := do
  let txn ← get
  if txn.ctx.state = .preparing then finish env
  else
    prepare env
    finish env

end WriteTxn

namespace Db

/-- A commit as the database sees it: the transaction is used up. -/
def commit (env : Env) (ctx : TransactionContext) : DbM Unit := fun db =>
  match (WriteTxn.commit env).run ⟨db, ctx⟩ with
  | .ok _ txn => .ok () txn.db
  | .error e txn => .error e txn.db

/-- A whole write transaction: begin, buffer every mutation, commit. -/
def write (env : Env) (ms : List Wal.Mutation) : DbM Unit := do
  let ctx ← beginWrite
  let ctx ← liftErr (ctx.addAll ms)
  commit env ctx

/-- A read transaction begun now, asked for one key. -/
def read (env : Env) (key : Bytes) : DbM (Option Bytes) := do
  let r ← beginRead
  r.get env key

end Db

end Northstar
