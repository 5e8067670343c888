import Northstar.Zig.Reference
import Northstar.Zig.Stops

/-!
# Isolation — what a snapshot sees of later commits

A snapshot is the page id of a root.  Pages are written in place, so a later commit shows in it as soon
as it writes a page that lookups from that root read; a run that writes none of them is not seen.
-/

namespace Northstar.Zig

open Bytes EStateM SortedEntries BtreeLeafPayload

namespace Db

open Zig.Pager

/-- The state a transaction leaves, committed or not. -/
def afterTransact (fuel : Nat) (db : Db) (mutations : List Mutation) : Db :=
  match (Db.transact fuel mutations).run db with
  | .ok _ db => db
  | .error _ db => db

variable {S : Nat → Prop} {fuel : Nat} {db : Db} {file : FileState}

theorem spares_commit {txn : WriteTxn} (hfile : db.file = some file)
    (hmeta : ∀ pageId, S pageId → 2 ≤ pageId) (hout : OutOfReach S file.pager)
    (hmeets : Meets (FileState.applyMutation fuel txn.txnId) (Avoids S fuel) txn.mutations file.pager) :
    Ends (txn.commit fuel) db
      (fun _ db' => ∃ file', db'.file = some file' ∧ Spares S file.pager file'.pager)
      (fun _ db' => ∃ file', db'.file = some file' ∧ Spares S file.pager file'.pager) := by
  have hcommit := FileState.ends_executeTwoPhaseCommit hmeta hout hmeets
  unfold Ends
  rw [txn.run_commit_file hfile fuel]
  cases hrun : (FileState.executeTwoPhaseCommit fuel txn.txnId txn.mutations).run file with
  | error e file' => exact ⟨file', rfl, hcommit.of_run_error hrun⟩
  | ok lsn file' =>
    dsimp only
    cases db.model.commit txn.writes with
    | ok model => exact ⟨file', rfl, hcommit.of_run_ok hrun⟩
    | error e => exact ⟨file', rfl, hcommit.of_run_ok hrun⟩

theorem spares_transact {mutations : List Mutation} (hfile : db.file = some file)
    (hmeta : ∀ pageId, S pageId → 2 ≤ pageId) (hout : OutOfReach S file.pager)
    (hmeets : Meets (FileState.applyMutation fuel db.nextTxnId) (Avoids S fuel) mutations file.pager) :
    ∃ file', (db.afterTransact fuel mutations).file = some file' ∧ Spares S file.pager file'.pager := by
  have hends : Ends (Db.transact fuel mutations) db
      (fun _ db' => ∃ file', db'.file = some file' ∧ Spares S file.pager file'.pager)
      (fun _ db' => ∃ file', db'.file = some file' ∧ Spares S file.pager file'.pager) := by
    cases hbusy : db.writerActive with
    | true =>
      exact ends_of_error (run_bind_of_error (run_beginWrite_busy hbusy)) ⟨file, hfile, .refl S _⟩
    | false =>
      let txn := mutations.foldl WriteTxn.mutate ⟨db.nextTxnId, [], fun _ => none⟩
      have hcommit : Ends (txn.commit fuel) { db with nextTxnId := db.nextTxnId + 1, writerActive := true }
          (fun _ db' => ∃ file', db'.file = some file' ∧ Spares S file.pager file'.pager)
          (fun _ db' => ∃ file', db'.file = some file' ∧ Spares S file.pager file'.pager) := by
        have hbegun : { db with nextTxnId := db.nextTxnId + 1, writerActive := true }.file = some file :=
          hfile
        apply spares_commit hbegun hmeta hout
        rw [(WriteTxn.mutations_foldl _ _).1, (WriteTxn.mutations_foldl _ _).2]
        exact hmeets
      unfold Ends Db.transact at *
      rw [run_bind_of_ok (run_beginWrite_free hbusy)]
      exact hcommit
  unfold afterTransact
  cases hrun : (Db.transact fuel mutations).run db with
  | ok a db' => exact hends.of_run_ok hrun
  | error e db' => exact hends.of_run_error hrun

/-- Every mutation of every transaction avoids the set, in the state it is applied to. -/
def RunAvoids (S : Nat → Prop) (fuel : Nat) : List (List Mutation) → Db → Prop
  | [], _ => True
  | mutations :: txns, db =>
    (∀ file, db.file = some file →
      Meets (FileState.applyMutation fuel db.nextTxnId) (Avoids S fuel) mutations file.pager) ∧
    RunAvoids S fuel txns (db.afterTransact fuel mutations)

theorem spares_run {txns : List (List Mutation)} (hfile : db.file = some file)
    (hmeta : ∀ pageId, S pageId → 2 ≤ pageId) (hout : OutOfReach S file.pager)
    (havoids : RunAvoids S fuel txns db) :
    ∃ file', (txns.foldl (afterTransact fuel) db).file = some file' ∧
      Spares S file.pager file'.pager := by
  induction txns generalizing db file with
  | nil => exact ⟨file, hfile, .refl S _⟩
  | cons mutations txns ih =>
    rcases spares_transact hfile hmeta hout (havoids.1 file hfile) with ⟨reached, hreached, hspares⟩
    rcases ih hreached (hspares.outOfReach hout) havoids.2 with ⟨last, hlast, hspares'⟩
    exact ⟨last, hlast, hspares.trans hspares'⟩

theorem get_of_spares {txn : ReadTxn} {db' : Db} {file' : FileState} (hfile : db.file = some file)
    (hfile' : db'.file = some file')
    (hspares : Spares (file.pager.Reads txn.rootPageId) file.pager file'.pager) (fuel : Nat) (key : Bytes) :
    txn.get db' fuel key = txn.get db fuel key := by
  unfold ReadTxn.get
  rw [hfile, hfile']
  dsimp only
  unfold getBtreeValueAtRoot
  by_cases hroot : txn.rootPageId = 0
  · rw [if_pos hroot, if_pos hroot]
  · rw [if_neg hroot, if_neg hroot]
    rw [getValueFrom_congr]
    intro pageId hwalk
    exact hspares.pages pageId ⟨hroot, key, fuel, hwalk⟩

/-- A snapshot keeps its contents as long as the transactions behind it write none of the pages that its
lookups read, neither on the way to their keys nor as pages that the allocator gives out. -/
theorem snapshot_isolated (db : Db) (file : FileState) (hfile : db.file = some file) (txn : ReadTxn)
    (hmeta : ∀ pageId, file.pager.Reads txn.rootPageId pageId → 2 ≤ pageId)
    (hout : OutOfReach (file.pager.Reads txn.rootPageId) file.pager)
    (fuel : Nat) (txns : List (List Mutation))
    (havoids : RunAvoids (file.pager.Reads txn.rootPageId) fuel txns db) (fuel' : Nat) (key : Bytes) :
    txn.get (txns.foldl (afterTransact fuel) db) fuel' key = txn.get db fuel' key := by
  rcases spares_run hfile hmeta hout havoids with ⟨file', hfile', hspares⟩
  exact get_of_spares hfile hfile' hspares fuel' key

/-- After one put, the databases in a file and in memory, and what a reader of the file holds. -/
theorem exists_onePut : ∃ (db inMemory : Db) (file : FileState) (es : List (Nat × BtreeLeafEntry)),
      (Db.runTxns 1 [[.put [1] [10]]]).run (Db.openWithPager Pager.create []) = .ok () db ∧
      Agree db inMemory file es [([1], [10])] := by
  have hplain : Contents.PlainRun [] [[Mutation.put [1] [10]]].flatten := by decide
  have hlog : ∀ ms ∈ [[Mutation.put [1] [10]]], Loggable ms := by decide
  rcases agree_empty with ⟨file₀, hempty⟩
  rcases hempty.exists_runTxns hplain hlog 0 with ⟨db, inMemory, hrun, hrun'⟩
  rcases hempty.runTxns hrun hrun' hplain with ⟨file, es, h⟩
  exact ⟨db, inMemory, file, es, hrun, h⟩

/-- A snapshot of the empty database sees no later put, and one that has read a key no delete of a key that is
not there. -/
theorem snapshot_isolated_put_and_delete :
    (∃ (db : Db) (read : ReadTxn), db.beginReadLatest = .ok read ∧ ∀ fuel key,
      read.get ([[.put [1] [10], .put [2] [20]], [.delete [1]]].foldl (afterTransact 1) db) fuel key =
        read.get db fuel key) ∧
    ∃ (db : Db) (read : ReadTxn), db.beginReadLatest = .ok read ∧
      read.get db 1 [1] = .ok (some [10]) ∧
      ∀ fuel key, read.get ([[Mutation.delete [5]]].foldl (afterTransact 1) db) fuel key =
        read.get db fuel key := by
  constructor
  · have hnone : ∀ pageId, ¬ Pager.create.Reads 0 pageId := fun _ hread => hread.1 rfl
    let txn : ReadTxn := ⟨fun _ => none, 0, 0⟩
    refine ⟨.openWithPager Pager.create [], txn, rfl, ?_⟩
    apply snapshot_isolated (.openWithPager Pager.create []) _ rfl txn
      (fun _ hread => absurd hread (hnone _)) (fun _ hread => absurd hread (hnone _)) 1
    exact ⟨fun _ _ => ⟨fun _ _ _ _ _ => hnone _, fun _ _ => ⟨fun _ _ _ _ _ => hnone _, fun _ _ => trivial⟩⟩,
      fun _ _ => ⟨.inr fun _ _ _ _ _ => hnone _, fun _ _ => trivial⟩, trivial⟩
  rcases exists_onePut with ⟨db, inMemory, file, es, _, h⟩
  have hmap : leafMap es [1] = some [10] :=
    h.packed.leafMap_of_mem h.oneLeaf.sorted (List.mem_singleton_self _)
  have hroot : file.pager.getRootPageId ≠ 0 := by
    rcases h.oneLeaf.tree with ⟨_, rfl, _⟩ | ⟨htwo, _⟩
    · cases hmap
    · omega
  have hleaf := h.oneLeaf.rootLeaf hroot
  have hreads : ∀ pageId, file.pager.Reads file.pager.getRootPageId pageId →
      pageId = file.pager.getRootPageId := by
    rintro pageId ⟨_, key, fuel, hwalk⟩
    exact hleaf.leaf.eq_of_mem_walk hwalk
  have htwo : file.pager.getRootPageId = 2 := by
    rcases h.oneLeaf.tree with ⟨hzero, _⟩ | ⟨htwo, _⟩
    · exact absurd hzero hroot
    · exact htwo
  have hmeta : ∀ pageId, file.pager.Reads file.pager.getRootPageId pageId → 2 ≤ pageId := by
    intro pageId hread
    rw [hreads pageId hread, htwo]
  have hout : OutOfReach (file.pager.Reads file.pager.getRootPageId) file.pager := by
    intro pageId hread
    rw [hreads pageId hread, h.oneLeaf.free, h.oneLeaf.last]
    exact ⟨List.not_mem_nil, hleaf.lt_length, hleaf.lt_length⟩
  have habsent : ∀ e ∈ es, e.2.key ≠ [5] := h.packed.absent (by decide)
  have havoids : RunAvoids (file.pager.Reads file.pager.getRootPageId) 1 [[Mutation.delete [5]]] db := by
    refine ⟨fun file' hfile' => ?_, trivial⟩
    rw [h.has_file] at hfile'
    cases hfile'
    exact ⟨.inl (hleaf.keyAbsent habsent 0), fun _ _ => trivial⟩
  refine ⟨db, _, h.beginReadLatest_eq.1, ?_, fun fuel key => ?_⟩
  · rw [h.get_eq, hmap]
    rfl
  · exact snapshot_isolated db file h.has_file
      ⟨fun _ => none, file.registry.currentTxnId, file.pager.getRootPageId⟩ hmeta hout 1
      [[Mutation.delete [5]]] havoids fuel key

/-- A later put is seen by a snapshot that was begun before it. -/
theorem later_put_is_seen : ∃ (db db' : Db) (read : ReadTxn),
      (Db.runTxns 1 [[.put [1] [10]]]).run (Db.openWithPager Pager.create []) = .ok () db ∧
      db.beginReadLatest = .ok read ∧ (∃ lsn, (Db.transact 1 [.put [2] [20]]).run db = .ok lsn db') ∧
      read.get db 1 [2] = .ok none ∧ read.get db' 1 [2] = .ok (some [20]) := by
  rcases exists_onePut with ⟨db, inMemory, file, es, hrun, h⟩
  have hplain : Contents.PlainRun [([1], [10])] [Mutation.put [2] [20]] := by decide
  rcases h.exists_transact hplain (by decide) 0 0 with ⟨lsn, lsn', db', inMemory', hput, hput'⟩
  rcases h.transact hput hput' hplain with ⟨file', es', h'⟩
  have hmap : leafMap es [1] = some [10] :=
    h.packed.leafMap_of_mem h.oneLeaf.sorted (List.mem_singleton_self _)
  have habsent : leafMap es [2] = none := by
    unfold leafMap
    rw [lookup_eq_none (h.packed.absent (by decide))]
    rfl
  have hmap' : leafMap es' [2] = some [20] :=
    h'.packed.leafMap_of_mem h'.oneLeaf.sorted (by decide)
  -- the root has stayed where it was
  have hsame : file.pager.getRootPageId = file'.pager.getRootPageId := by
    rcases h.oneLeaf.tree with ⟨_, rfl, _⟩ | ⟨htwo, _⟩
    · cases hmap
    · rcases h'.oneLeaf.tree with ⟨_, rfl, _⟩ | ⟨htwo', _⟩
      · cases hmap'
      · rw [htwo, htwo']
  refine ⟨db, db', _, hrun, h.beginReadLatest_eq.1, ⟨lsn, hput⟩, ?_, ?_⟩
  · rw [h.get_eq, habsent]
    rfl
  · rw [hsame, h'.get_eq, hmap']
    rfl

end Db

end Northstar.Zig
