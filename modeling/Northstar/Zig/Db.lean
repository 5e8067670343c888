import Northstar.Zig.Pager
import Northstar.Zig.Wal

/-!
# Db — transactions, with a file or in memory

`db.zig`, `snapshot.zig` and `ref_model.zig`.  A hash map is a function to options.  Without a file, a
snapshot is a map of its own; with one, it is the page id of a root.  A transaction is committed once.
Plugins run after the commit and do not fail it, so they are left out.
-/

namespace Northstar.Zig

open Bytes EStateM

structure SnapshotRegistry where
  snapshots : Nat → Option Nat
  currentTxnId : Nat
  currentRootPageId : Nat

namespace SnapshotRegistry

/-- The genesis snapshot is the root that is there, under transaction 0. -/
def init (initialTxnId initialRootPageId : Nat) : SnapshotRegistry where
  snapshots := Function.update (fun _ => none) 0 (some initialRootPageId)
  currentTxnId := initialTxnId
  currentRootPageId := initialRootPageId

def registerSnapshot (r : SnapshotRegistry) (txnId rootPageId : Nat) : SnapshotRegistry :=
  if txnId ≤ r.currentTxnId then r
  else {
    snapshots := Function.update r.snapshots txnId (some rootPageId)
    currentTxnId := txnId
    currentRootPageId := rootPageId }

def getSnapshotRoot (r : SnapshotRegistry) (txnId : Nat) : Option Nat :=
  if txnId > r.currentTxnId then some r.currentRootPageId else r.snapshots txnId

def getLatestSnapshot (r : SnapshotRegistry) : Nat := r.currentRootPageId

def getCurrentTxnId (r : SnapshotRegistry) : Nat := r.currentTxnId

end SnapshotRegistry

abbrev SnapshotState := Bytes → Option Bytes

structure Model where
  currentTxnId : Nat
  history : Nat → Option SnapshotState

namespace Model

def init : Model := ⟨0, Function.update (fun _ => none) 0 (some fun _ => none)⟩

def beginRead (m : Model) (txnId : Nat) : Except PagerError SnapshotState :=
  match m.history txnId with
  | some snapshot => .ok snapshot
  | none => .error .snapshotNotFound

/-- A write set: `some none` is a key that is deleted. -/
abbrev Writes := Bytes → Option (Option Bytes)

def applyWrites (base : SnapshotState) (writes : Writes) : SnapshotState := fun key =>
  match writes key with
  | some value => value
  | none => base key

def commit (m : Model) (writes : Writes) : Except PagerError (Model × Nat) := do
  let base ← m.beginRead m.currentTxnId
  let newId := m.currentTxnId + 1
  return (⟨newId, Function.update m.history newId (some (applyWrites base writes))⟩, newId)

theorem commit_eq {m : Model} {base : SnapshotState} (hbase : m.history m.currentTxnId = some base)
    (writes : Writes) :
    m.commit writes = .ok (⟨m.currentTxnId + 1,
      Function.update m.history (m.currentTxnId + 1) (some (applyWrites base writes))⟩,
      m.currentTxnId + 1) := by
  unfold commit beginRead
  rw [hbase]
  rfl

end Model

/-- What a database with a file has besides: the pager, the registry and the `.log` file. -/
structure FileState where
  pager : Pager
  registry : SnapshotRegistry
  log : Bytes

structure Db where
  model : Model
  file : Option FileState
  nextTxnId : Nat
  writerActive : Bool

abbrev FileM := EStateM PagerError FileState
abbrev DbM := EStateM PagerError Db

/-- `Pager.create`; the page allocator finds two pages and no root. -/
def Pager.create : Pager :=
  let payload : MetaPayload :=
    { committedTxnId := 0, rootPageId := 0, freelistHeadPageId := 0, logTailLsn := 0, metaCrc32c := 0 }
  let pageA := encodeMetaPage metaAPageId payload
  { pages := [pageA, encodeMetaPage metaBPageId payload]
    currentMeta := ⟨metaAPageId, pageA.header, { payload with metaCrc32c := payload.calculateChecksum }⟩
    freePages := []
    lastAllocatedPage := 2 }

namespace Db

/-- `open`: a database in memory. -/
def openInMemory : Db := ⟨.init, none, 1, false⟩

/-- `openWithFile`, over the pager of a file that has been created or opened. -/
def openWithPager (pager : Pager) (log : Bytes) : Db where
  model := .init
  file := some ⟨pager, .init pager.getCommittedTxnId pager.getRootPageId, log⟩
  nextTxnId := pager.getCommittedTxnId + 1
  writerActive := false

end Db

structure ReadTxn where
  snapshot : SnapshotState
  txnId : Nat
  rootPageId : Nat

namespace Db

def beginReadLatest (db : Db) : Except PagerError ReadTxn :=
  match db.file with
  | some file => .ok ⟨fun _ => none, file.registry.getCurrentTxnId, file.registry.getLatestSnapshot⟩
  | none => do
    let snapshot ← db.model.beginRead db.model.currentTxnId
    return ⟨snapshot, db.model.currentTxnId, 0⟩

def beginReadAt (db : Db) (txnId : Nat) : Except PagerError ReadTxn :=
  match db.file with
  | some file =>
    match file.registry.getSnapshotRoot txnId with
    | some rootPageId => .ok ⟨fun _ => none, txnId, rootPageId⟩
    | none => .error .snapshotNotFound
  | none => do
    let snapshot ← db.model.beginRead txnId
    return ⟨snapshot, txnId, 0⟩

end Db

/-- `ReadTxn.get`.  With a file, every error is a key that is not there; the value has to fit in 4096
bytes. -/
def ReadTxn.get (txn : ReadTxn) (db : Db) (fuel : Nat) (key : Bytes) : Except PagerError (Option Bytes) :=
  match db.file with
  | some file => orElse (file.pager.getBtreeValueAtRoot fuel key 4096 txn.rootPageId) none
  | none => .ok (txn.snapshot key)

structure WriteTxn where
  txnId : Nat
  -- `txn_ctx.mutations`
  mutations : List Mutation
  -- `inner.writes`
  writes : Model.Writes

namespace WriteTxn

def put (txn : WriteTxn) (key value : Bytes) : WriteTxn :=
  { txn with
    mutations := txn.mutations ++ [.put key value]
    writes := Function.update txn.writes key (some (some value)) }

def del (txn : WriteTxn) (key : Bytes) : WriteTxn :=
  { txn with
    mutations := txn.mutations ++ [.delete key]
    writes := Function.update txn.writes key (some none) }

def mutate (txn : WriteTxn) : Mutation → WriteTxn
  | .put key value => txn.put key value
  | .delete key => txn.del key

end WriteTxn

def Db.beginWrite : DbM WriteTxn := do
  let db ← get
  if db.writerActive then throw .writeBusy
  set { db with nextTxnId := db.nextTxnId + 1, writerActive := true }
  return ⟨db.nextTxnId, [], fun _ => none⟩

namespace FileState

def onPager {α : Type} (x : PagerM α) : FileM α :=
  EStateM.zoom FileState.pager (fun file pager => { file with pager }) x

/-- One mutation of a commit; whether a deleted key was there is not looked at. -/
def applyMutation (fuel txnId : Nat) : Mutation → PagerM Unit
  | .put key value => Pager.putBtreeValue fuel key value txnId
  | .delete key => discard (Pager.deleteBtreeValue fuel key txnId)

/-- `createCommitRecord`. -/
def createCommitRecord (txnId rootPageId : Nat) (mutations : List Mutation) :
    Except PagerError CommitRecord :=
  let record : CommitRecord := ⟨UInt64.ofNat txnId, UInt64.ofNat rootPageId, mutations, 0⟩
  match record.calculatePayloadChecksum with
  | .ok checksum => .ok { record with checksum }
  | .error e => .error (.log e)

/-- `writeCommitRecordToLog`: the record is framed by a write-ahead log of its own. -/
def framedRecord (record : CommitRecord) : Except PagerError Bytes :=
  match WriteAheadLog.create.appendCommitRecord record with
  | .ok (wal, _) => .ok wal.flush.file
  | .error e => .error (.log e)

/-- The new meta page, and the state of the pager that goes with it. -/
def writeMeta (txnId : Nat) : PagerM Unit := do
  let p ← get
  let payload := { p.currentMeta.payload with committedTxnId := txnId }
  let oppositeMetaId ← EStateM.lift (getOppositeMetaId p.currentMeta.pageId)
  let page := encodeMetaPage oppositeMetaId payload
  Pager.writePage oppositeMetaId page
  modify fun p => { p with currentMeta := ⟨oppositeMetaId, page.header, payload⟩ }

/-- `executeTwoPhaseCommit`. -/
def executeTwoPhaseCommit (fuel txnId : Nat) (mutations : List Mutation) : FileM Nat := do
  onPager (EStateM.forEach (applyMutation fuel txnId) mutations)
  let file ← get
  let record ← EStateM.lift (createCommitRecord txnId file.pager.getRootPageId mutations)
  let frame ← EStateM.lift (framedRecord record)
  set { file with log := file.log ++ frame }
  onPager (writeMeta txnId)
  modify fun file => { file with
    registry := file.registry.registerSnapshot txnId file.pager.getRootPageId }
  return txnId

theorem run_executeTwoPhaseCommit_eq_ok_iff {fuel txnId lsn : Nat} {mutations : List Mutation}
    {file file' : FileState} :
    (executeTwoPhaseCommit fuel txnId mutations).run file = .ok lsn file' ↔
      ∃ applied record frame written,
        (EStateM.forEach (applyMutation fuel txnId) mutations).run file.pager = .ok () applied ∧
        createCommitRecord txnId applied.getRootPageId mutations = .ok record ∧
        framedRecord record = .ok frame ∧ (writeMeta txnId).run applied = .ok () written ∧ lsn = txnId ∧
        file' = ⟨written, file.registry.registerSnapshot txnId written.getRootPageId, file.log ++ frame⟩ := by
  unfold executeTwoPhaseCommit onPager
  rw [run_bind_eq_ok_iff]
  constructor
  · rintro ⟨_, _, hzoom, h⟩
    rcases run_zoom_eq_ok_iff.mp hzoom with ⟨applied, happly, rfl⟩
    rw [run_bind_of_ok (run_get _), run_bind_eq_ok_iff] at h
    rcases h with ⟨record, _, hlift, h⟩
    rcases run_lift_eq_ok_iff.mp hlift with ⟨hrecord, rfl⟩
    rw [run_bind_eq_ok_iff] at h
    rcases h with ⟨frame, _, hlift', h⟩
    rcases run_lift_eq_ok_iff.mp hlift' with ⟨hframe, rfl⟩
    rw [run_bind_of_ok (run_set _ _), run_bind_eq_ok_iff] at h
    rcases h with ⟨_, _, hzoom', h⟩
    rcases run_zoom_eq_ok_iff.mp hzoom' with ⟨written, hmeta, rfl⟩
    cases h
    exact ⟨applied, record, frame, written, happly, hrecord, hframe, hmeta, rfl, rfl⟩
  · rintro ⟨applied, record, frame, written, happly, hrecord, hframe, hmeta, rfl, rfl⟩
    refine ⟨(), { file with pager := applied }, run_zoom_of_ok happly, ?_⟩
    rw [run_bind_of_ok (run_get _),
      run_bind_of_ok (run_lift_eq_ok_iff.mpr ⟨hrecord, rfl⟩),
      run_bind_of_ok (run_lift_eq_ok_iff.mpr ⟨hframe, rfl⟩),
      run_bind_of_ok (run_set _ _),
      run_bind_of_ok (run_zoom_of_ok hmeta)]
    rfl

end FileState

/-- The writer lock is released whatever the outcome. -/
def WriteTxn.commit (txn : WriteTxn) (fuel : Nat) : DbM Nat := fun db =>
  let db := { db with writerActive := false }
  match db.file with
  | none =>
    match db.model.commit txn.writes with
    | .ok (model, txnId) => .ok txnId { db with model }
    | .error e => .error e db
  | some file =>
    match (FileState.executeTwoPhaseCommit fuel txn.txnId txn.mutations).run file with
    | .error e file => .error e { db with file := some file }
    | .ok lsn file =>
      match db.model.commit txn.writes with
      | .ok (model, _) => .ok lsn { db with model, file := some file }
      | .error e => .error e { db with file := some file }

theorem WriteTxn.mutations_foldl (txn : WriteTxn) (mutations : List Mutation) :
    (mutations.foldl WriteTxn.mutate txn).mutations = txn.mutations ++ mutations ∧
      (mutations.foldl WriteTxn.mutate txn).txnId = txn.txnId := by
  induction mutations generalizing txn with
  | nil => exact ⟨(List.append_nil _).symm, rfl⟩
  | cons mutation mutations ih =>
    have hhead : (txn.mutate mutation).mutations = txn.mutations ++ [mutation] ∧
        (txn.mutate mutation).txnId = txn.txnId := by
      cases mutation with
      | put key value => exact ⟨rfl, rfl⟩
      | delete key => exact ⟨rfl, rfl⟩
    rw [List.foldl_cons, (ih _).1, (ih _).2, hhead.1, hhead.2, List.append_assoc]
    exact ⟨rfl, rfl⟩

variable {db : Db}

theorem WriteTxn.run_commit_file {file : FileState} (hfile : db.file = some file)
    (txn : WriteTxn) (fuel : Nat) :
    (txn.commit fuel).run db =
      match (FileState.executeTwoPhaseCommit fuel txn.txnId txn.mutations).run file with
      | .error e file => .error e { db with writerActive := false, file := some file }
      | .ok lsn file =>
        match db.model.commit txn.writes with
        | .ok (model, _) => .ok lsn { db with writerActive := false, model, file := some file }
        | .error e => .error e { db with writerActive := false, file := some file } := by
  unfold EStateM.run WriteTxn.commit
  dsimp only
  rw [hfile]
  rfl

theorem WriteTxn.run_commit_memory {base : SnapshotState} (hfile : db.file = none)
    (hbase : db.model.history db.model.currentTxnId = some base) (txn : WriteTxn) (fuel : Nat) :
    (txn.commit fuel).run db = .ok (db.model.currentTxnId + 1)
      { db with
        writerActive := false
        model := ⟨db.model.currentTxnId + 1, Function.update db.model.history (db.model.currentTxnId + 1)
          (some (Model.applyWrites base txn.writes))⟩ } := by
  unfold EStateM.run WriteTxn.commit
  dsimp only
  rw [hfile]
  dsimp only
  rw [Model.commit_eq hbase]

theorem Db.run_beginWrite_busy (hbusy : db.writerActive = true) :
    Db.beginWrite.run db = .error .writeBusy db := by
  unfold Db.beginWrite
  rw [run_bind_of_ok (run_get db), if_pos hbusy]
  rfl

theorem Db.run_beginWrite_free (hfree : db.writerActive = false) :
    Db.beginWrite.run db = .ok ⟨db.nextTxnId, [], fun _ => none⟩
      { db with nextTxnId := db.nextTxnId + 1, writerActive := true } := by
  unfold Db.beginWrite
  rw [run_bind_of_ok (run_get db), if_neg (by simp [hfree])]
  rfl

/-- A transaction from begin to commit. -/
def Db.transact (fuel : Nat) (mutations : List Mutation) : DbM Nat := do
  let txn ← Db.beginWrite
  (mutations.foldl WriteTxn.mutate txn).commit fuel

/-- Transactions one after another, up to the first that fails. -/
def Db.runTxns (fuel : Nat) (txns : List (List Mutation)) : DbM Unit :=
  EStateM.forEach (fun mutations => discard (Db.transact fuel mutations)) txns

end Northstar.Zig
