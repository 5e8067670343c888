import Northstar.Db.PutRun

/-!
# Refine — the database as a map

A run of write transactions, one after another, stands for the list of their mutations.  As long as
every mutation is faithful (`Faithful`), a reader finds for each key the value of the last put that
no delete follows.  The invariant is kept for any set of keys, so that it also says what happens to
the keys a run does not mention.
-/

namespace Northstar

open Btree Txn EStateM
open Node (stampLeaf)
open Wal (Mutation)

/-- The value of the last put of `key` that no delete of it follows; `before` if the list does not
mention the key. -/
def lastPut (key : Bytes) (ms : List Mutation) (before : Option Bytes) : Option Bytes :=
  ms.foldl (fun found mu => if mu.key = key then mu.value else found) before

theorem lastPut_append (key : Bytes) (ms ms' : List Mutation) (before : Option Bytes) :
    lastPut key (ms ++ ms') before = lastPut key ms' (lastPut key ms before) :=
  List.foldl_append

/-- What the code gets right.  For keys that are read later, also the value has to be one that can
be read back. -/
structure Faithful (env : Env) (keys : Set Bytes) (lsn : UInt64) (tree : BTree) (mu : Mutation) :
    Prop where
  fits : Fits env lsn tree mu
  order : InOrder lsn tree mu
  recorded : mu.key ∈ keys → Recorded lsn tree mu

/-- The tree binds every key of `keys` to its value in `f`. -/
structure MapsTo (env : Env) (m : MetaState) (keys : Set Bytes) (lsn : UInt64)
    (f : Bytes → Option Bytes) (tree : BTree) (rungs : List Rung) : Prop where
  live : Live env m tree rungs
  routed : Routed tree.pager.table rungs
  bound : ∀ key ∈ keys, Bound env.crc tree.pager.table lsn (entryFor tree.pager.table rungs key) (f key)

variable {env : Env} {m : MetaState} {keys : Set Bytes} {f : Bytes → Option Bytes} {rungs : List Rung}
  {tree : BTree}

theorem MapsTo.stepBefore {lsn top : UInt64}
    (h : MapsTo env m keys top f tree rungs) (hle : lsn ≤ top) {mu : Mutation}
    (hmu : Faithful env keys lsn tree mu) :
    Ends (applyMutation env lsn mu) tree
      (fun _ tree' => ∃ rungs', MapsTo env m keys top
        (fun key => if mu.key = key then mu.value else f key) tree' rungs')
      (fun _ _ => ¬ Taken lsn tree mu) := by
  apply (ends_applyMutation h.live hmu.fits).mono _ fun _ _ hrefused => hrefused.1
  rintro _ tree' ⟨-, ⟨_, hlive'⟩, heffect⟩
  rcases heffect.changes h.live.sound h.live.spine h.routed hmu.order
    with ⟨rungs', found, hspine', hchanges, hfound⟩
  refine ⟨rungs', ⟨hlive'.shows, hlive'.sound, hspine'⟩, hchanges.routed, ?_⟩
  intro key hkey
  by_cases heq : mu.key = key
  · subst heq
    rw [hchanges.self, if_pos rfl]
    exact (hfound (hmu.recorded hkey)).mono hle
  · rw [if_neg heq, hchanges.others key fun h => heq h.symm]
    exact (h.bound key hkey).keep heffect.ext.keepsOverflow

theorem MapsTo.step {lsn : UInt64} {tree : BTree} {rungs : List Rung}
    (h : MapsTo env m keys lsn f tree rungs) {mu : Mutation} (hmu : Faithful env keys lsn tree mu) :
    Ends (applyMutation env lsn mu) tree
      (fun _ tree' => ∃ rungs', MapsTo env m keys lsn
        (fun key => if mu.key = key then mu.value else f key) tree' rungs')
      (fun _ _ => ¬ Taken lsn tree mu) := h.stepBefore (UInt64.le_refl lsn) hmu

/-- The database, read now, binds every key of `keys` to its value in `f`. -/
structure Db.Holds (env : Env) (keys : Set Bytes) (f : Bytes → Option Bytes) (db : Db) : Prop where
  notClosed : db.isClosed = false
  ordered : db.Ordered
  ids : db.snapRegistry.concurrency.currentTxnId ≤ db.currentTxnId
  shows : Shows env db.pager db.pager.table db.pager.currentMeta
  sound : Sound db.pager.table
  tree : ∃ t root rungs, db.Latest t root ∧ Spine db.pager.table root rungs ∧
    Routed db.pager.table rungs ∧
    ∀ key ∈ keys, Bound env.crc db.pager.table t (entryFor db.pager.table rungs key) (f key)
  consistent : db.pager.currentMeta.WellFormed ∧
    db.pager.currentMeta.payload.pageSize.toNat = pageSize

/-- Every mutation of the transaction is faithful in the tree it finds. -/
def FaithfulTxn (env : Env) (keys : Set Bytes) (db : Db) (ms : List Mutation) : Prop :=
  ∀ tree, db.Starts env tree →
    Meets (applyMutation env (db.currentTxnId + 1)) (Faithful env keys (db.currentTxnId + 1)) ms tree

theorem entryFor_grows {d d' : Disk} {n : Nat} (h : Grows d d' n) {root : PageId}
    (hspine : Spine d root rungs) (key : Bytes) :
    entryFor d' rungs key = entryFor d rungs key := by
  rw [entryFor, entryFor, entriesAt_congr (h.pages _ (hspine.route_leaf key).1)]

theorem Routed.grows {d d' : Disk} {n : Nat} (h : Grows d d' n) {root : PageId}
    (hspine : Spine d root rungs) (hrouted : Routed d rungs) :
    Routed d' rungs := by
  intro key e he
  rw [entriesAt_congr (h.pages _ (hspine.route_leaf key).1)] at he
  exact hrouted key e he

variable {db : Db}

theorem Db.Holds.read (h : db.Holds env keys f) {key : Bytes}
    (hkey : key ∈ keys) : ∃ db', (Db.read env key).run db = .ok (f key) db' := by
  rcases h.tree with ⟨t, root, rungs, hlatest, hspine, -, hbound⟩
  rcases run_read h.notClosed hlatest h.shows h.sound hspine (hbound key hkey).answers
    with ⟨pager, hread, -⟩
  exact ⟨_, hread⟩

variable {ms : List Mutation} {C : BTree → Mutation → Prop}

theorem Db.Holds.land (h : db.Holds env keys f)
    {txnId : UInt64} (hnewest : txnId ≤ db.currentTxnId)
    (hnewer : db.snapRegistry.concurrency.currentTxnId < txnId)
    {Failed : Prop}
    (hfaithful : ∀ tree mu, C tree mu → Faithful env keys txnId tree mu)
    (hfailed : ∀ tree mu, C tree mu → ¬ Taken txnId tree mu → Failed)
    (hms : ∀ tree, db.Starts env tree → Meets (applyMutation env txnId) C ms tree) :
    Ends (Db.land env txnId ms) db
      (fun _ db' => db'.Holds env keys fun key => lastPut key ms (f key)) (fun _ _ => Failed) := by
  rcases h.tree with ⟨t, root, rungs, hlatest, hspine, hrouted, hbound⟩
  have hle : t ≤ txnId := by
    rw [← hlatest.1]
    exact UInt64.le_of_lt hnewer
  let P := fun done tree => ∃ rungs, MapsTo env db.pager.currentMeta keys txnId
    (fun key => lastPut key done (f key)) tree rungs
  have hinit : ∀ tree, Live env db.pager.currentMeta tree rungs →
      tree.pager.table = db.pager.table → tree.rootPageId = root → P [] tree := by
    intro tree hlive htable _
    refine ⟨rungs, hlive, ?_, ?_⟩
    · rw [htable]
      exact hrouted
    · intro key hkey
      rw [htable]
      exact (hbound key hkey).mono hle
  have hstep : ∀ done mu tree, P done tree → C tree mu →
      Ends (applyMutation env txnId mu) tree (fun _ => P (done ++ [mu])) (fun _ _ => Failed) := by
    rintro done mu tree ⟨rungs, hmaps⟩ hmu
    apply (hmaps.step (hfaithful tree mu hmu)).mono _ fun _ _ => hfailed tree mu hmu
    rintro _ tree' ⟨rungs', hmaps'⟩
    refine ⟨rungs', ?_⟩
    simp only [lastPut_append]
    exact hmaps'
  apply (Db.ends_land hlatest h.ordered h.shows h.sound hspine
    (fun done tree ⟨rungs, hmaps⟩ => ⟨rungs, hmaps.live⟩) hinit hstep hms).mono
  rotate_left
  · rintro e db' ⟨tree, -, hfailed | ⟨-, -, holder⟩⟩
    · exact hfailed
    · rw [hlatest.1] at hnewer
      exact absurd hnewer holder
  rintro _ db' ⟨hnewer', tree, pager, ⟨rungs', hmaps⟩, rfl, hcommit, hshows, hgrows⟩
  have hcurrent := RegistryData.currentTxnId_register hnewer tree.rootPageId
  rcases Pager.commitImage_of_commitTransaction hcommit with ⟨-, hmeta⟩
  constructor
  · exact h.notClosed
  · intro snapshot hmem
    show snapshot.1 ≤ (db.snapRegistry.concurrency.register txnId tree.rootPageId).currentTxnId
    rw [hcurrent]
    rcases List.mem_cons.mp hmem with rfl | hmem
    · exact UInt64.le_refl _
    · exact UInt64.le_trans (h.ordered snapshot hmem) (UInt64.le_of_lt hnewer)
  · show (db.snapRegistry.concurrency.register txnId tree.rootPageId).currentTxnId ≤ db.currentTxnId
    rw [hcurrent]
    exact hnewest
  · show Shows env pager pager.table pager.currentMeta
    rw [hshows.current]
    exact hshows
  · exact hmaps.live.sound.grow hgrows
  · refine ⟨txnId, tree.rootPageId, rungs', ⟨hcurrent, RegistryData.getSnapshotRoot_register ..⟩,
      hmaps.live.spine.extend hgrows.extend, Routed.grows hgrows hmaps.live.spine hmaps.routed, ?_⟩
    intro key hkey
    show Bound env.crc pager.table txnId (entryFor pager.table rungs' key) _
    rw [entryFor_grows hgrows hmaps.live.spine]
    exact (hmaps.bound key hkey).keep hgrows.extend.keepsOverflow
  · show pager.currentMeta.WellFormed ∧ pager.currentMeta.payload.pageSize.toNat = pageSize
    rw [hshows.current]
    exact ⟨Pager.wellFormed_updateMeta env.crc h.consistent.1 txnId tree.rootPageId, h.consistent.2⟩

theorem Db.Holds.commit (h : db.Holds env keys f)
    (hlt : db.currentTxnId < db.currentTxnId + 1) {ctx : TransactionContext}
    (hadd : (TransactionContext.new (db.currentTxnId + 1)).addAll ms = .ok ctx)
    {Failed : Prop}
    (hfaithful : ∀ tree mu, C tree mu → Faithful env keys (db.currentTxnId + 1) tree mu)
    (hfailed : ∀ tree mu, C tree mu → ¬ Taken (db.currentTxnId + 1) tree mu → Failed)
    (hlogged : Failed ∨ db.wal = none ∧ ms ≠ [])
    (hms : ∀ tree, db.Starts env tree →
      Meets (applyMutation env (db.currentTxnId + 1)) C ms tree) :
    Ends (Db.commit env ctx) { db with currentTxnId := db.currentTxnId + 1 }
      (fun _ db' => db'.Holds env keys fun key => lastPut key ms (f key)) (fun _ _ => Failed) := by
  rcases TransactionContext.addAll_eq_ok hadd rfl with ⟨hid, hstate, hmutations, hcount, -⟩
  have hmutations : ctx.mutations = ms := hmutations
  have hid : ctx.txnId = db.currentTxnId + 1 := hid
  have hbegun : ∀ wal, ({ db with currentTxnId := db.currentTxnId + 1, wal } : Db).Holds
      env keys f := fun wal =>
    { h with ids := UInt64.le_trans h.ids (UInt64.le_of_lt hlt) }
  have hland : ∀ wal, Ends (Db.land env ctx.txnId ctx.mutations)
      { db with currentTxnId := db.currentTxnId + 1, wal }
      (fun _ db' => db'.Holds env keys fun key => lastPut key ms (f key)) (fun _ _ => Failed) := by
    intro wal
    rw [hid, hmutations]
    apply (hbegun wal).land (UInt64.le_refl _) _ hfaithful hfailed hms
    exact UInt64.lt_of_le_of_lt h.ids hlt
  rcases hlogged with hany | ⟨hwal, hne⟩
  · apply Db.ends_commit (Or.inl hstate)
    · intro hempty
      have hnil : ms = [] := by
        rw [← hmutations, ← List.length_eq_zero_iff, ← hcount]
        simpa [TransactionContext.hasMutations] using hempty
      rw [hnil]
      exact hbegun db.wal
    · exact fun _ => hany
    · exact fun _ => hland
  · have hmany : ctx.hasMutations = true := by
      have hpos := List.length_pos_iff.mpr hne
      rw [← hmutations, ← hcount] at hpos
      simpa [TransactionContext.hasMutations] using hpos
    have hlog : (Db.logMutations env ctx.txnId ctx.mutations).run
        { db with currentTxnId := db.currentTxnId + 1 } =
        .ok () { db with currentTxnId := db.currentTxnId + 1 } := by
      unfold Db.logMutations
      rw [run_bind_of_ok (run_get _), hwal]
      rfl
    rw [Ends, Db.run_commit_active env hmany hstate, run_bind_of_ok hlog]
    exact hland db.wal

theorem Db.Holds.write (h : db.Holds env keys f) (hms : FaithfulTxn env keys db ms) :
    Ends (Db.write env ms) db
      (fun _ db' => db'.Holds env keys fun key => lastPut key ms (f key)) (fun _ _ => True) := by
  unfold Db.write
  rcases Db.run_beginWrite db with ⟨e, hbegin⟩ | ⟨hlt, hbegin⟩
  · exact ends_of_error (run_bind_of_error hbegin) trivial
  · rw [Ends, run_bind_of_ok hbegin]
    cases hadd : (TransactionContext.new (db.currentTxnId + 1)).addAll ms with
    | error e =>
      rw [run_bind_of_error (run_liftErr_of_error rfl _)]
      trivial
    | ok ctx =>
      rw [run_bind_of_ok (run_liftErr_of_ok rfl _)]
      exact h.commit hlt hadd (fun _ _ hmu => hmu) (fun _ _ _ _ => trivial) (Or.inl trivial) hms

theorem holds_new {config : DbConfig} {walFile : Option Bytes}
    (h : Db.openWithConfig env config none walFile = .ok db) :
    db.Holds env keys fun _ => none := by
  rcases opened_new h with ⟨hopened, hrestarted, hnode, -, hroot, -⟩
  have hspine : Spine db.pager.table db.pager.rootPageId [] := by
    rw [hroot]
    exact hrestarted.spine
  have hnone : ∀ key, entriesAt db.pager.table (route [] key) = [] := fun _ => by
    rw [route, entriesAt_eq hnode]
    rfl
  constructor
  · exact hopened.notClosed
  · exact hopened.ordered
  · rw [hopened.latest.1, hopened.current]
    exact UInt64.le_refl _
  · exact hrestarted.shows
  · exact hrestarted.sound
  · refine ⟨_, _, [], hopened.latest, hspine, ?_, ?_⟩
    · intro key e he
      rw [hnone] at he
      exact absurd he List.not_mem_nil
    · intro key _
      rw [entryFor, hnone]
      exact .missing
  · exact ⟨hrestarted.consistent.current, hrestarted.consistent.size⟩

theorem lastPut_flatten_snoc (key : Bytes) (done : List (List Mutation)) (ms : List Mutation)
    (before : Option Bytes) :
    lastPut key (done ++ [ms]).flatten before = lastPut key ms (lastPut key done.flatten before) := by
  rw [List.flatten_append, lastPut_append, List.flatten_singleton]

theorem Db.Holds.run {db' : Db} (h : db.Holds env keys f)
    {txns : List (List Mutation)} (hmeets : Meets (Db.write env) (FaithfulTxn env keys) txns db)
    (hrun : (forEach (Db.write env) txns).run db = .ok () db') :
    db'.Holds env keys fun key => lastPut key txns.flatten (f key) := by
  have hloop := @ends_forEach Fault Db (List Mutation) (Db.write env) (FaithfulTxn env keys)
    (fun done db => db.Holds env keys fun key => lastPut key done.flatten (f key)) (fun _ _ => True)
    (by
      intro done ms db hdb hms
      apply (hdb.write hms).mono _ fun _ _ _ => trivial
      intro _ db' hdb'
      simp only [lastPut_flatten_snoc]
      exact hdb') txns [] db h hmeets
  exact hloop.of_run_ok hrun

/-- **The database refines a map.**  After any run of faithful transactions on a new database, a
reader finds for every key the value of the last put that no delete follows. -/
theorem read_after_run {config : DbConfig} {walFile : Option Bytes} {db db' : Db}
    (hopen : Db.openWithConfig env config none walFile = .ok db) {txns : List (List Mutation)}
    (hrun : (forEach (Db.write env) txns).run db = .ok () db')
    (hfaithful : Meets (Db.write env) (FaithfulTxn env Set.univ) txns db) (key : Bytes) :
    ∃ db'', (Db.read env key).run db' = .ok (lastPut key txns.flatten none) db'' :=
  ((holds_new hopen).run hfaithful hrun).read (Set.mem_univ key)

theorem Db.Holds.run_write (h : db.Holds env keys f) (hwal : db.wal = none)
    (hid : db.currentTxnId.toNat + 1 < 2 ^ 64) (hne : ms ≠ []) (hcount : ms.length ≤ maxOperationsPerCommit)
    (haccepted : ∀ mu ∈ ms, TransactionContext.Accepted mu)
    (hms : ∀ tree, db.Starts env tree → Meets (applyMutation env (db.currentTxnId + 1))
      (fun tree mu => Faithful env keys (db.currentTxnId + 1) tree mu ∧ Taken (db.currentTxnId + 1) tree mu) ms tree) :
    ∃ db', (Db.write env ms).run db = .ok () db' := by
  have hlt : db.currentTxnId < db.currentTxnId + 1 := by
    rw [UInt64.lt_iff_toNat_lt, UInt64.toNat_add]
    exact (Nat.lt_succ_self _).trans_eq (Nat.mod_eq_of_lt hid).symm
  have hadd := @TransactionContext.addAll_of_accepted (.new (db.currentTxnId + 1)) ms rfl
    (by rw [show (TransactionContext.new (db.currentTxnId + 1)).mutationCount = 0 from rfl, Nat.zero_add]; exact hcount)
    haccepted
  have hlogged : False ∨ db.wal = none ∧ ms ≠ [] := Or.inr ⟨hwal, hne⟩
  have hcommit := h.commit hlt hadd (fun _ _ hmu => hmu.1) (fun _ _ hmu hnot => hnot hmu.2) hlogged hms
  unfold Db.write
  rw [run_bind_of_ok (Db.run_beginWrite_of_open h.notClosed hid), run_bind_of_ok (run_liftErr_of_ok hadd _)]
  unfold Ends at hcommit
  split at hcommit
  next db' hrun => exact ⟨db', hrun⟩
  next => exact hcommit.elim

def Btree.PutCall.mutation (call : PutCall) : Mutation := .put call.key call.value

theorem meets_mutations {lsn : UInt64} {calls : List PutCall} (hlsn : ∀ call ∈ calls, call.lsn = lsn)
    (h : Meets (putCall env) (fun tree call => C tree call.mutation) calls tree) :
    Meets (applyMutation env lsn) C (calls.map PutCall.mutation) tree := by
  induction calls generalizing tree with
  | nil => trivial
  | cons call calls ih =>
    obtain rfl := hlsn call (List.mem_cons_self ..)
    exact ⟨h.1, fun tree' hput => ih (fun c hc => hlsn c (List.mem_cons_of_mem _ hc)) (h.2 tree' hput)⟩

theorem Btree.Filled.faithful {tree tree' : BTree} {entries : List Entry} {free : Nat} {call : PutCall}
    (h : Filled env tree entries free) (hinline : call.Inline) (hplain : looksLikeReference call.value = false)
    (hspace : call.entry.serializedSize ≤ free) (hrun : (putCall env call).run tree = .ok () tree') :
    Faithful env keys call.lsn tree call.mutation ∧ Txn.Taken call.lsn tree call.mutation := by
  obtain ⟨m, hshows⟩ := h.shows
  obtain ⟨leaf, hleaf, -, rfl⟩ := h.leaf
  refine ⟨⟨h.fits hinline, ?_, fun _ => ⟨hplain, ?_⟩⟩, ?_⟩
  · intro pageId left first rest hplan k other _ hpage hother
    rw [h.spine.leafPage] at hpage
    have hsame := (planned_of_putPlan h.spine hleaf.sound hinline.1 hplan).1
    exact absurd ((Option.some.inj hpage).symm.trans hsame.symm) hother
  · intro pageId leaf' hfor
    rw [h.root, hleaf.spine.leafFor hleaf.node] at hfor
    cases hfor
    rw [preparedEntry_inline hinline.2]
    have hhas : leaf.header.hasSpace call.entry.serializedSize = true := by
      simpa [NodeHeader.hasSpace] using hspace
    change leaf.drops call.entry = false
    unfold LeafNode.drops
    rw [hhas]
    rfl
  · intro hnone
    obtain ⟨e, refused, d', herror, -⟩ :=
      run_put_refused hshows hleaf.sound h.spine hinline.1 hnone (h.fits hinline).2
    cases herror.symm.trans hrun

theorem Db.OneLeaf.filled (h : db.OneLeaf env 0 (stampLeaf env.crc (LeafNode.new PageId.firstData)))
    (hnext : db.pager.table.next = 3) (hstarts : db.Starts env tree) : Filled env tree [] leafCapacity := by
  rcases hstarts.live h.latest h.shows h.leaf.sound h.leaf.spine with ⟨hlive, htable, hroot⟩
  refine ⟨⟨_, hlive.shows⟩, ?_, hroot, ?_⟩
  · rw [htable, hnext]
    rfl
  · rw [htable]
    exact ⟨_, h.leaf, rfl, freeSpace_new _⟩

/-- A transaction of twelve puts, the last of which splits the leaf. -/
theorem read_after_run_split : ∃ db db', Db.openWithConfig Env.oneShard ⟨false⟩ none none = .ok db ∧
    (forEach (Db.write Env.oneShard) [(firstPuts ++ [largePut 16]).map PutCall.mutation]).run db = .ok () db' ∧
      ∀ key, ∃ db'', (Db.read Env.oneShard key).run db' =
        .ok (lastPut key ((firstPuts ++ [largePut 16]).map PutCall.mutation) none) db'' := by
  rcases exists_opened_new Env.oneShard ⟨false⟩ none with ⟨db, hopen⟩
  rcases Db.oneLeaf_new hopen with ⟨hone, hnext⟩
  have hmeets : ∀ C : BTree → Mutation → Prop,
      (∀ tree mu, Faithful Env.oneShard Set.univ 1 tree mu ∧ Taken 1 tree mu → C tree mu) →
      ∀ tree, db.Starts Env.oneShard tree →
        Meets (applyMutation Env.oneShard 1) C ((firstPuts ++ [largePut 16]).map PutCall.mutation) tree := by
    intro C hC tree hstarts
    obtain ⟨-, -, -, -, hmeets, -⟩ := @Filled.twoLeaves _ (fun tree call => C tree call.mutation)
      (hone.filled hnext hstarts) fun t t' es fr call hf hc hspace hput => by
        have hmu := @Filled.faithful _ Set.univ _ _ _ _ _ hf (call_inline hc) (firstPuts_plain call hc) hspace hput
        rw [firstPuts_lsn call hc] at hmu
        exact hC t call.mutation hmu
    exact meets_mutations firstPuts_lsn hmeets
  have haccepted : ∀ mu ∈ (firstPuts ++ [largePut 16]).map PutCall.mutation, TransactionContext.Accepted mu := by
    intro mu hmu
    rcases List.mem_map.mp hmu with ⟨call, hcall, rfl⟩
    have hinline := call_inline hcall
    refine ⟨firstPuts_keys call hcall, hinline.1.trans (by decide), fun value hvalue => ?_⟩
    cases hvalue
    exact hinline.2.trans (by decide)
  have hid : db.currentTxnId = 0 := hone.current
  have hholds := @holds_new Env.oneShard Set.univ db _ _ hopen
  rcases hholds.run_write hone.noWal (by rw [hid]; decide) (List.cons_ne_nil _ _) (by decide) haccepted
    (by rw [hid]; exact hmeets _ fun _ _ => id) with ⟨db', hwrite⟩
  have hrun : (forEach (Db.write Env.oneShard) [(firstPuts ++ [largePut 16]).map PutCall.mutation]).run db =
      .ok () db' := run_bind_of_ok hwrite
  refine ⟨db, db', hopen, hrun, fun key => ?_⟩
  have hfaithful : FaithfulTxn Env.oneShard Set.univ db ((firstPuts ++ [largePut 16]).map PutCall.mutation) := by
    intro tree hstarts
    rw [hid]
    exact hmeets _ (fun _ _ => And.left) tree hstarts
  exact read_after_run hopen hrun ⟨hfaithful, fun _ _ => trivial⟩ key

/-- Ten bytes that start with the marker of a reference are stored as they are, and read as one. -/
theorem reference_value_is_not_read_back : ∃ db db',
    Db.openWithConfig Env.oneShard ⟨false⟩ none none = .ok db ∧
      (forEach (Db.write Env.oneShard) [[.put [1] (List.replicate 10 0xFF)]]).run db = .ok () db' ∧
      lastPut [1] [.put [1] (List.replicate 10 0xFF)] none = some (List.replicate 10 0xFF) ∧
      ∃ e db'', (Db.read Env.oneShard [1]).run db' = .error (.err e) db'' := by
  rcases exists_opened_new Env.oneShard ⟨false⟩ none with ⟨db, hopen⟩
  rcases Db.oneLeaf_new hopen with ⟨hone, hnext⟩
  have hroom : HasRoom (stampLeaf Env.oneShard.crc (LeafNode.new PageId.firstData))
      (preparedEntry db.pager.table [1] (List.replicate 10 0xFF) (0 + 1)) := by
    rw [preparedEntry_inline (by decide)]
    exact .of_new Env.oneShard.crc PageId.firstData (by decide)
  have hpages : Room Env.oneShard
      (db.pager.table.next.toNat + overflowPages (List.replicate 10 0xFF : Bytes).length) := by
    rw [hnext]
    exact room_three Env.oneShard
  rcases hone.write_put (by decide) (by decide) (by decide) (by decide) hroom hpages
    with ⟨db', -, hwrite, hone', -⟩
  refine ⟨db, db', hopen, run_bind_of_ok hwrite, rfl, ?_⟩
  rw [preparedEntry_inline (by decide)] at hone'
  have hfound : SortedEntries.lookup Entry.key [1]
      (stampLeaf Env.oneShard.crc (appended (stampLeaf Env.oneShard.crc (LeafNode.new 2))
        ⟨[1], List.replicate 10 0xFF, 0 + 1⟩)).entries =
      some ⟨[1], List.replicate 10 0xFF, 0 + 1⟩ := rfl
  -- the eight bytes behind the marker name page 2 ^ 64 - 1
  have hdecode : ValueStorage.decode (List.replicate 10 0xFF) =
      .ok (.overflow 0xFFFFFFFFFFFFFFFF) := by decide
  have hpage : db'.pager.table.pages 0xFFFFFFFFFFFFFFFF = none := by
    rw [Pager.table_pages]
    cases hread : db'.pager.storage.readPage 0xFFFFFFFFFFFFFFFF with
    | error e => rfl
    | ok bytes => exact absurd (FileStorage.readPage_eq_ok_iff.mp hread).1 (by decide)
  exact hone'.read_dangling hfound (by decide) (by decide) hdecode hpage

end Northstar
