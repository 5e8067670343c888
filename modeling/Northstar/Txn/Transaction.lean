import Northstar.Wal.Record
import Northstar.Btree.Content

/-!
# Transaction — one write transaction, and its mutations on a tree

`txn/state.rs` and `txn/context.rs`: the lifecycle of a transaction and the mutations it has
buffered.  The two mutation types of the source, one of the transaction and one of the log, have the
same constructors and are one type here.
-/

namespace Northstar.Txn

open Wal (Mutation)

inductive TransactionState where
  | active
  | preparing
  | committed
  | aborted
  deriving Repr, DecidableEq

namespace TransactionState

/-- `{:?}`. -/
def debug : TransactionState → String
  | .active => "Active"
  | .preparing => "Preparing"
  | .committed => "Committed"
  | .aborted => "Aborted"

def allowsMutations (s : TransactionState) : Bool := s = .active
def allowsPrepare (s : TransactionState) : Bool := s = .active
def allowsCommit (s : TransactionState) : Bool := s = .preparing
def allowsAbort (s : TransactionState) : Bool := s = .active || s = .preparing

/-- The `validate_*` methods differ in the predicate and the verb of the message. -/
def require (allows : TransactionState → Bool) (verb : String) (s : TransactionState) :
    Except Error Unit :=
  if !allows s then
    .error (.validation (.generic ("Cannot " ++ verb ++ " in " ++ s.debug ++ " state")))
  else .ok ()

def validateMutation (s : TransactionState) : Except Error Unit := s.require allowsMutations "mutate"
def validatePrepare (s : TransactionState) : Except Error Unit := s.require allowsPrepare "prepare"
def validateCommit (s : TransactionState) : Except Error Unit := s.require allowsCommit "commit"
def validateAbort (s : TransactionState) : Except Error Unit := s.require allowsAbort "abort"

def transitionToPreparing (s : TransactionState) : Except Error TransactionState := do
  s.validatePrepare
  return .preparing

def transitionToCommitted (s : TransactionState) : Except Error TransactionState := do
  s.validateCommit
  return .committed

def transitionToAborted (s : TransactionState) : Except Error TransactionState := do
  s.validateAbort
  return .aborted

end TransactionState

def maxKeySize : Nat := 4096
def maxValueSize : Nat := 16 * 1024 * 1024
def maxOperationsPerCommit : Nat := 10000

structure TransactionContext where
  txnId : UInt64
  state : TransactionState
  mutations : List Mutation
  mutationCount : Nat
  deriving Repr, DecidableEq

namespace TransactionContext

def new (txnId : UInt64) : TransactionContext where
  txnId := txnId
  state := .active
  mutations := []
  mutationCount := 0

def hasMutations (ctx : TransactionContext) : Bool := ctx.mutationCount > 0

def checkValue (m : Mutation) : Except Error Unit :=
  match m.value with
  | some value =>
    if value.length > maxValueSize then
      .error (.sizeLimit (.valueTooLarge value.length maxValueSize))
    else .ok ()
  | none => .ok ()

/-- `put` and `delete` make the same checks; a delete has no value to check. -/
def add (ctx : TransactionContext) (m : Mutation) : Except Error TransactionContext := do
  ctx.state.validateMutation
  if ctx.mutationCount ≥ maxOperationsPerCommit then
    .error (.validation (.generic ("Too many mutations: " ++ toString ctx.mutationCount ++
      " (max: " ++ toString maxOperationsPerCommit ++ ")")))
  else if m.key.isEmpty then
    .error (.validation (.generic "Key cannot be empty"))
  else if m.key.length > maxKeySize then
    .error (.sizeLimit (.keyTooLarge m.key.length maxKeySize))
  else do
    checkValue m
    return { ctx with mutations := ctx.mutations ++ [m], mutationCount := ctx.mutationCount + 1 }

def put (ctx : TransactionContext) (key value : Bytes) : Except Error TransactionContext :=
  ctx.add (.put key value)

def delete (ctx : TransactionContext) (key : Bytes) : Except Error TransactionContext :=
  ctx.add (.delete key)

/-- A list of mutations buffered one after another, each of which has to be accepted. -/
def addAll : TransactionContext → List Mutation → Except Error TransactionContext
  | ctx, [] => .ok ctx
  | ctx, .put key value :: ms => do (← ctx.put key value).addAll ms
  | ctx, .delete key :: ms => do (← ctx.delete key).addAll ms

def findMutation (ctx : TransactionContext) (key : Bytes) : Option Mutation :=
  ctx.mutations.reverse.find? fun m => m.key = key

def Accepted (m : Mutation) : Prop :=
  m.key ≠ [] ∧ m.key.length ≤ maxKeySize ∧ ∀ value, m.value = some value → value.length ≤ maxValueSize

theorem checkValue_eq_ok_iff {m : Mutation} :
    checkValue m = .ok () ↔ ∀ value, m.value = some value → value.length ≤ maxValueSize := by
  unfold checkValue
  cases m.value with
  | none => simp
  | some value =>
    dsimp only
    rw [Except.guard_eq_ok_iff]
    simp

theorem add_eq_ok_iff {ctx ctx' : TransactionContext} {m : Mutation} :
    ctx.add m = .ok ctx' ↔ ctx.state = .active ∧ ctx.mutationCount < maxOperationsPerCommit ∧
      Accepted m ∧ ctx' = { ctx with
        mutations := ctx.mutations ++ [m]
        mutationCount := ctx.mutationCount + 1 } := by
  unfold add
  have hstate : ctx.state.validateMutation = .ok () ↔ ctx.state = .active := by
    unfold TransactionState.validateMutation TransactionState.require
    rw [Except.guard_eq_ok_iff]
    simp [TransactionState.allowsMutations]
  rw [Except.bind_eq_ok_iff]
  simp only [Except.guard_eq_ok_iff, Except.bind_eq_ok_iff, hstate]
  constructor
  · rintro ⟨_, hactive, hcount, hkey, hlen, _, hvalue, hctx⟩
    exact ⟨hactive, not_le.mp hcount,
      ⟨by simpa using hkey, not_lt.mp hlen, checkValue_eq_ok_iff.mp hvalue⟩,
      (Except.ok.inj hctx).symm⟩
  · rintro ⟨hactive, hcount, ⟨hkey, hlen, hvalue⟩, rfl⟩
    exact ⟨(), hactive, not_le.mpr hcount, by simpa using hkey, not_lt.mpr hlen, (),
      checkValue_eq_ok_iff.mpr hvalue, rfl⟩

theorem addAll_eq_ok {ctx ctx' : TransactionContext} {ms : List Mutation}
    (h : ctx.addAll ms = .ok ctx') (hcount : ctx.mutationCount = ctx.mutations.length) :
    ctx'.txnId = ctx.txnId ∧ ctx'.state = ctx.state ∧ ctx'.mutations = ctx.mutations ++ ms ∧
      ctx'.mutationCount = ctx'.mutations.length ∧ ∀ m ∈ ms, Accepted m := by
  induction ms generalizing ctx with
  | nil =>
    cases h
    simp [hcount]
  | cons m ms ih =>
    have hadd : ∃ ctx₁, ctx.add m = .ok ctx₁ ∧ ctx₁.addAll ms = .ok ctx' := by
      cases m with
      | put key value => exact Except.bind_eq_ok_iff.mp h
      | delete key => exact Except.bind_eq_ok_iff.mp h
    rcases hadd with ⟨ctx₁, hadd, hrest⟩
    rcases add_eq_ok_iff.mp hadd with ⟨-, -, haccepted, rfl⟩
    rcases ih hrest (by simp [hcount]) with ⟨hid, hstate, hmutations, hlength, hall⟩
    refine ⟨hid, hstate, ?_, hlength, ?_⟩
    · rw [hmutations, List.append_assoc, List.singleton_append]
    · intro m' hm'
      rcases List.mem_cons.mp hm' with rfl | hm'
      · exact haccepted
      · exact hall m' hm'

theorem addAll_of_accepted {ctx : TransactionContext} {ms : List Mutation} (hactive : ctx.state = .active)
    (hcount : ctx.mutationCount + ms.length ≤ maxOperationsPerCommit) (haccepted : ∀ m ∈ ms, Accepted m) :
    ctx.addAll ms = .ok { ctx with
      mutations := ctx.mutations ++ ms
      mutationCount := ctx.mutationCount + ms.length } := by
  induction ms generalizing ctx with
  | nil =>
    rw [List.append_nil]
    rfl
  | cons m ms ih =>
    rw [List.length_cons] at hcount
    have hadd := add_eq_ok_iff.mpr ⟨hactive, by omega, haccepted m (List.mem_cons_self ..), rfl⟩
    have hrest := @ih { ctx with mutations := ctx.mutations ++ [m], mutationCount := ctx.mutationCount + 1 } hactive
      (by dsimp only; omega) fun m' hm' => haccepted m' (List.mem_cons_of_mem _ hm')
    rw [List.append_assoc, Nat.add_assoc, Nat.add_comm 1] at hrest
    cases m with
    | put key value => exact Except.bind_eq_ok_iff.mpr ⟨_, hadd, hrest⟩
    | delete key => exact Except.bind_eq_ok_iff.mpr ⟨_, hadd, hrest⟩

end TransactionContext

end Northstar.Txn

/-! ## 3. A list of mutations on a tree

The loop in which `commit` and the recovery apply mutations.  `Effect` is what one of them does to the
table; every invariant of a run is derived from it.
-/

namespace Northstar.Txn

open Btree SortedEntries EStateM
open Wal (Mutation)

def applyMutation (env : Env) (lsn : UInt64) : Mutation → TreeM Unit
  | .put key value => BTree.put env key value lsn
  | .delete key => BTree.delete env key

def applyAll (env : Env) (lsn : UInt64) (ms : List Mutation) : TreeM Unit :=
  forEach (applyMutation env lsn) ms

/-- A tree over a sound table, with the nodes under its root. -/
structure Live (env : Env) (m : MetaState) (tree : BTree) (rungs : List Rung) : Prop where
  shows : Shows env tree.pager tree.pager.table m
  sound : Sound tree.pager.table
  spine : Spine tree.pager.table tree.rootPageId rungs

/-- A key has one byte for its length, and the file does not outgrow the cache. -/
def Fits (env : Env) (lsn : UInt64) (tree : BTree) : Mutation → Prop
  | .put key value => key.length ≤ 255 ∧
      Room env (tree.pager.table.next.toNat +
        putPages tree.pager.table tree.rootPageId key value lsn)
  | .delete _ => True

/-- The mutation is not refused. -/
def Taken (lsn : UInt64) (tree : BTree) : Mutation → Prop
  | .put key value => putPlan tree.pager.table tree.rootPageId key value lsn ≠ none
  | .delete _ => True

/-- What a mutation that is not refused does. -/
inductive Effect (env : Env) (lsn : UInt64) (d d' : Disk) (root root' : PageId)
    (rungs : List Rung) : Mutation → Prop
  | put {key value : Bytes} {pageId : PageId} {left : LeafNode} {moved : List Entry}
      (short : key.length ≤ 255)
      (plan : putPlan d root key value lsn = some (pageId, left, moved))
      (done : PutDone d d' root root' rungs pageId left.entries moved
        (preparedEntry d key value lsn))
      (reads : looksLikeReference value = false →
        Reads env.crc d' (preparedEntry d key value lsn) value) :
      Effect env lsn d d' root root' rungs (.put key value)
  | delete {key : Bytes} {left : LeafNode} {donor : Option (PageId × LeafNode)}
      (plan : deletePlan d root key = some (route rungs key, left, donor)) (same : root' = root)
      (done : DeleteDone d d' (route rungs key) left.entries donor) :
      Effect env lsn d d' root root' rungs (.delete key)

/-- What a refused put leaves: no page in use has changed. -/
structure Untouched (env : Env) (m : MetaState) (d : Disk) (pager : Pager) : Prop where
  shows : Shows env pager pager.table m
  sound : Sound pager.table
  carries : Carries d pager.table []
  grows : d.next.toNat ≤ pager.table.next.toNat
  pages : ∀ pageId, d.Owns pageId → pager.table.pages pageId = d.pages pageId

namespace Effect

variable {env : Env} {lsn : UInt64} {d d' : Disk} {root root' : PageId} {rungs : List Rung}
  {mu : Mutation}

theorem ext (h : Effect env lsn d d' root root' rungs mu) : Extends d d' := by
  cases h with
  | put _ _ done _ => exact done.ext
  | delete _ _ done => exact done.ext

theorem spine (h : Effect env lsn d d' root root' rungs mu) (hspine : Spine d root rungs) :
    ∃ rungs', Spine d' root' rungs' := by
  cases h with
  | @put _ _ _ _ moved _ _ done _ =>
    cases moved with
    | nil => exact ⟨rungs, by rw [done.whole rfl]; exact hspine.extend done.ext⟩
    | cons first rest =>
      rcases done.split first rest rfl with ⟨newPage, -, -, hspine'⟩
      exact ⟨_, hspine'⟩
  | delete _ same done => exact ⟨rungs, by rw [same]; exact hspine.extend done.ext⟩

end Effect

theorem ends_applyMutation {env : Env} {m : MetaState} {tree : BTree} {rungs : List Rung}
    (h : Live env m tree rungs) {lsn : UInt64} {mu : Mutation} (hfits : Fits env lsn tree mu) :
    Ends (applyMutation env lsn mu) tree
      (fun _ tree' => Taken lsn tree mu ∧ (∃ rungs', Live env m tree' rungs') ∧
        Effect env lsn tree.pager.table tree'.pager.table tree.rootPageId tree'.rootPageId rungs mu)
      (fun e tree' => ¬ Taken lsn tree mu ∧ e.isErr ∧ Untouched env m tree.pager.table tree'.pager) := by
  cases mu with
  | put key value =>
    cases hplan : putPlan tree.pager.table tree.rootPageId key value lsn with
    | none =>
      rcases run_put_refused h.shows h.sound h.spine hfits.1 hplan hfits.2
        with ⟨e, tree', d', hrun, -, hshows, hsound, hcarries, hgrows, hpages⟩
      obtain rfl := hshows.table
      exact ends_of_error hrun ⟨fun htaken => htaken hplan, rfl, hshows, hsound, hcarries, hgrows, hpages⟩
    | some plan =>
      rcases plan with ⟨pageId, left, moved⟩
      rcases run_put_done h.shows h.sound h.spine hfits.1 hplan hfits.2
        with ⟨tree', d', hrun, hshows, hdone, hreads, -⟩
      obtain rfl := hshows.table
      have heffect : Effect env lsn _ _ _ _ rungs (.put key value) :=
        .put hfits.1 hplan hdone hreads
      rcases heffect.spine h.spine with ⟨rungs', hspine⟩
      refine ends_of_ok hrun ⟨?_, ⟨rungs', hshows, hdone.sound, hspine⟩, heffect⟩
      intro hnone
      rw [hplan] at hnone
      cases hnone
  | delete key =>
    rcases run_delete h.shows h.sound h.spine key
      with ⟨tree', d', left, donor, hrun, hshows, hroot, hplan, hdone⟩
    obtain rfl := hshows.table
    have heffect : Effect env lsn _ _ _ _ rungs (.delete key) := .delete hplan hroot hdone
    rcases heffect.spine h.spine with ⟨rungs', hspine⟩
    exact ends_of_ok hrun ⟨trivial, ⟨rungs', hshows, hdone.sound, hspine⟩, heffect⟩

/-- The mutation changes the binding of its own key at most. -/
def InOrder (lsn : UInt64) (tree : BTree) : Mutation → Prop
  | .put key value => SplitsInOrder tree.pager.table tree.rootPageId key value lsn
  | .delete key => BorrowsNothing tree.pager.table tree.rootPageId key

/-- The value of a put can be read back. -/
def Recorded (lsn : UInt64) (tree : BTree) : Mutation → Prop
  | .put key value => looksLikeReference value = false ∧
      StoresEntry tree.pager.table tree.rootPageId key value lsn
  | .delete _ => True

theorem Effect.changes {env : Env} {lsn : UInt64} {tree tree' : BTree} {rungs : List Rung}
    {mu : Mutation} (h : Effect env lsn tree.pager.table tree'.pager.table tree.rootPageId
      tree'.rootPageId rungs mu)
    (hsound : Sound tree.pager.table) (hspine : Spine tree.pager.table tree.rootPageId rungs)
    (hrouted : Routed tree.pager.table rungs) (horder : InOrder lsn tree mu) :
    ∃ rungs' found, Spine tree'.pager.table tree'.rootPageId rungs' ∧
      Changes tree.pager.table tree'.pager.table rungs rungs' mu.key found ∧
      (Recorded lsn tree mu → Bound env.crc tree'.pager.table lsn found mu.value) := by
  cases h with
  | put short plan done reads =>
    rcases done.changes hsound hspine hrouted short plan horder
      with ⟨rungs', found, hspine', hchanges, hfound⟩
    refine ⟨rungs', found, hspine', hchanges, ?_⟩
    intro hrecorded
    rw [hfound hrecorded.2]
    refine .found ?_ (reads hrecorded.1)
    rw [preparedEntry_lsn]
    exact UInt64.le_refl _
  | @delete key left donor plan same done =>
    obtain rfl := horder _ _ _ plan
    refine ⟨rungs, none, ?_, done.changes hsound hspine hrouted plan, fun _ => .missing⟩
    rw [same]
    exact hspine.extend done.ext

end Northstar.Txn
