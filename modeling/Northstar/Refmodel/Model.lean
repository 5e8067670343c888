import Northstar.Error
import Northstar.Lib.BinarySearch
import Northstar.Lib.Runs
import Mathlib.Logic.Function.Basic
import Mathlib.Order.Nat

/-!
# Model — version chains, the reference model and its transactions

`refmodel/tree.rs`, `refmodel/mod.rs` and `refmodel/ops.rs`.  A chain is ordered by LSN, and its last version is the
current one.  A version whose LSN is in the chain already is inserted in front of that version, and a tombstone has
the largest LSN there is.  A commit applies the mutations of the transaction to the tree, one
by one and with one LSN, and only then asks the manager whether the transaction was committed before.
-/

namespace Northstar.Refmodel

open Bytes

abbrev Lsn := UInt64

def Lsn.max : Lsn := 0xFFFFFFFFFFFFFFFF

structure VersionedValue where
  value : Bytes
  lsn : Lsn
  isTombstone : Bool
  deriving Repr, DecidableEq

def VersionedValue.new (value : Bytes) (lsn : Lsn) : VersionedValue := ⟨value, lsn, false⟩

def VersionedValue.tombstone (lsn : Lsn) : VersionedValue := ⟨[], lsn, true⟩

def VersionedValue.order (v : VersionedValue) : Nat := v.lsn.toNat

abbrev VersionChain := List VersionedValue

variable {chain : VersionChain}

namespace VersionChain

variable (S : BinarySearch Nat)

def addVersion (chain : VersionChain) (version : VersionedValue) : VersionChain :=
  let versions := S.insertAt VersionedValue.order chain version
  -- "Keep only recent versions"
  if versions.length > 100 then versions.tail else versions

def latest (chain : VersionChain) : Option VersionedValue := chain.getLast?

def delete (chain : VersionChain) (lsn : Lsn) : VersionChain := addVersion S chain (.tombstone lsn)

def Sorted (chain : VersionChain) : Prop := (chain.map VersionedValue.order).Pairwise (· ≤ ·)

theorem sorted_addVersion (h : chain.Sorted) (version : VersionedValue) :
    (addVersion S chain version).Sorted := by
  have hsorted : VersionChain.Sorted (S.insertAt VersionedValue.order chain version) :=
    BinarySearch.sorted_insertAt h
  unfold addVersion
  dsimp only
  split
  · unfold Sorted at hsorted ⊢
    rw [List.map_tail]
    exact hsorted.sublist (List.tail_sublist _)
  · exact hsorted

/-- A version becomes the current one only if its LSN is larger. -/
def supersede (latest : Option VersionedValue) (version : VersionedValue) : VersionedValue :=
  match latest with
  | none => version
  | some current => if current.order < version.order then version else current

theorem latest_addVersion (h : chain.Sorted) (version : VersionedValue) :
    (addVersion S chain version).latest = some (supersede chain.latest version) := by
  have hlast : (S.insertAt VersionedValue.order chain version).getLast? =
      some (supersede chain.latest version) := by
    rw [BinarySearch.getLast?_insertAt h]
    unfold supersede latest
    cases chain.getLast? with
    | none => rfl
    | some current =>
      show (if _ then _ else _) = some (if _ then _ else _)
      split <;> rfl
  unfold addVersion latest
  dsimp only
  split
  next hlong =>
    -- the version that is pruned is not the last one
    rw [← List.drop_one, List.getLast?_drop, if_neg (by omega)]
    exact hlast
  next => exact hlast

end VersionChain

/-- The chains by key. -/
structure RefTree where
  chains : Bytes → Option VersionChain

namespace RefTree

variable (S : BinarySearch Nat)

def new : RefTree := ⟨fun _ => none⟩

def get (tree : RefTree) (key : Bytes) : Option Bytes :=
  (((tree.chains key).bind VersionChain.latest).filter (!·.isTombstone)).map (·.value)

def put (tree : RefTree) (key value : Bytes) (lsn : Lsn) : RefTree :=
  let chain := (tree.chains key).getD []
  ⟨Function.update tree.chains key (some (chain.addVersion S (.new value lsn)))⟩

/-- "Use a high LSN for the tombstone (will be set during commit)": it is not. -/
def delete (tree : RefTree) (key : Bytes) : RefTree :=
  match tree.chains key with
  | some chain => ⟨Function.update tree.chains key (some (chain.delete S Lsn.max))⟩
  | none => tree

/-- The current version of a key. -/
def latest (tree : RefTree) (key : Bytes) : Option VersionedValue := (tree.chains key).bind VersionChain.latest

/-- Every chain is sorted, and has a version. -/
structure Sound (tree : RefTree) : Prop where
  sorted : ∀ key chain, tree.chains key = some chain → chain.Sorted
  nonempty : ∀ key chain, tree.chains key = some chain → chain.latest.isSome

theorem sound_new : new.Sound := ⟨fun _ _ h => (nomatch h), fun _ _ h => (nomatch h)⟩

variable {tree : RefTree}

theorem Sound.update (h : tree.Sound) (hsorted : chain.Sorted)
    (key : Bytes) (version : VersionedValue) :
    Sound ⟨Function.update tree.chains key (some (chain.addVersion S version))⟩ := by
  constructor
  · intro other chain' hother
    have hother : Function.update tree.chains key _ other = some chain' := hother
    rw [Function.update_apply] at hother
    split at hother
    · cases hother
      exact VersionChain.sorted_addVersion S hsorted version
    · exact h.sorted other chain' hother
  · intro other chain' hother
    have hother : Function.update tree.chains key _ other = some chain' := hother
    rw [Function.update_apply] at hother
    split at hother
    · cases hother
      rw [VersionChain.latest_addVersion S hsorted version]
      rfl
    · exact h.nonempty other chain' hother

theorem latest_update (hsorted : chain.Sorted) (key : Bytes)
    (version : VersionedValue) (other : Bytes) :
    latest ⟨Function.update tree.chains key (some (chain.addVersion S version))⟩ other =
      if other = key then some (VersionChain.supersede chain.latest version) else tree.latest other := by
  unfold latest
  dsimp only
  rw [Function.update_apply]
  split
  · exact VersionChain.latest_addVersion S hsorted version
  · rfl

theorem sound_put (h : tree.Sound) (key value : Bytes) (lsn : Lsn) :
    (tree.put S key value lsn).Sound ∧ ∀ other, (tree.put S key value lsn).latest other =
      if other = key then some (VersionChain.supersede (tree.latest key) (.new value lsn))
      else tree.latest other := by
  have hsorted : VersionChain.Sorted ((tree.chains key).getD []) := by
    cases hchain : tree.chains key with
    | none => exact List.Pairwise.nil
    | some chain => exact h.sorted key chain hchain
  have hlatest : VersionChain.latest ((tree.chains key).getD []) = tree.latest key := by
    unfold latest
    cases tree.chains key <;> rfl
  refine ⟨h.update S hsorted key _, ?_⟩
  intro other
  rw [← hlatest]
  exact latest_update S hsorted key _ other

theorem sound_delete (h : tree.Sound) (key : Bytes) :
    (tree.delete S key).Sound ∧ ∀ other, (tree.delete S key).latest other =
      if other = key then (tree.latest key).map fun current =>
        VersionChain.supersede (some current) (.tombstone Lsn.max)
      else tree.latest other := by
  unfold delete
  cases hchain : tree.chains key with
  | none =>
    refine ⟨h, ?_⟩
    intro other
    by_cases heq : other = key
    · rw [if_pos heq, heq]
      unfold latest
      rw [hchain]
      rfl
    · rw [if_neg heq]
  | some chain =>
    have hsorted := h.sorted key chain hchain
    refine ⟨h.update S hsorted key _, ?_⟩
    intro other
    have hlatest : tree.latest key = chain.latest := by
      unfold latest
      rw [hchain]
      rfl
    rcases Option.isSome_iff_exists.mp (h.nonempty key chain hchain) with ⟨current, hcurrent⟩
    show latest ⟨Function.update tree.chains key (some (chain.addVersion S _))⟩ other = _
    rw [latest_update S hsorted, hlatest, hcurrent]
    rfl

theorem get_eq (tree : RefTree) (key : Bytes) :
    tree.get key = ((tree.latest key).filter (!·.isTombstone)).map (·.value) := rfl

end RefTree

open Runs

inductive PendingMutation where
  | put (key value : Bytes)
  | delete (key : Bytes)
  deriving Repr, DecidableEq

def PendingMutation.key : PendingMutation → Bytes
  | put key _ | delete key => key

structure PendingTransaction where
  id : UInt64
  mutations : List PendingMutation
  startLsn : Lsn
  committed : Bool
  deriving Repr, DecidableEq

structure TransactionManager where
  activeTransactions : List PendingTransaction
  nextTxnId : UInt64
  deriving Repr, DecidableEq

/-- `next().unwrap_or(self)`, of an LSN and of a transaction id. -/
def nextOrSame (x : UInt64) : UInt64 := if x = 0xFFFFFFFFFFFFFFFF then x else x + 1

def notFound (txnId : UInt64) : Error :=
  .transaction (.generic ("Transaction " ++ toString txnId ++ " not found"))

def alreadyCommitted (txnId : UInt64) : Error :=
  .transaction (.generic ("Transaction " ++ toString txnId ++ " already committed"))

namespace TransactionManager

def new : TransactionManager := ⟨[], 1⟩

def beginTxn (m : TransactionManager) (currentLsn : Lsn) : TransactionManager × UInt64 :=
  ({ activeTransactions := m.activeTransactions ++ [⟨m.nextTxnId, [], currentLsn, false⟩]
     nextTxnId := nextOrSame m.nextTxnId }, m.nextTxnId)

def getTxn (m : TransactionManager) (txnId : UInt64) : Except Error PendingTransaction :=
  match m.activeTransactions.find? (·.id = txnId) with
  | some txn => .ok txn
  | none => .error (notFound txnId)

/-- The first transaction with this id is changed: what `get_txn_mut` borrows. -/
def modifyTxn (txnId : UInt64) (f : PendingTransaction → PendingTransaction) :
    List PendingTransaction → List PendingTransaction
  | [] => []
  | txn :: txns => if txn.id = txnId then f txn :: txns else txn :: modifyTxn txnId f txns

def change (m : TransactionManager) (txnId : UInt64) (f : PendingTransaction → PendingTransaction) :
    Except Error TransactionManager := do
  let txn ← m.getTxn txnId
  if txn.committed then .error (alreadyCommitted txnId)
  else return { m with activeTransactions := modifyTxn txnId f m.activeTransactions }

def put (m : TransactionManager) (txnId : UInt64) (key value : Bytes) : Except Error TransactionManager :=
  m.change txnId fun txn => { txn with mutations := txn.mutations ++ [.put key value] }

def delete (m : TransactionManager) (txnId : UInt64) (key : Bytes) : Except Error TransactionManager :=
  m.change txnId fun txn => { txn with mutations := txn.mutations ++ [.delete key] }

def commit (m : TransactionManager) (txnId : UInt64) : Except Error TransactionManager :=
  m.change txnId fun txn => { txn with committed := true }

def rollback (m : TransactionManager) (txnId : UInt64) : Except Error TransactionManager := do
  let txn ← m.getTxn txnId
  if txn.committed then .error (alreadyCommitted txnId)
  else return { m with activeTransactions := m.activeTransactions.eraseP (·.id = txnId) }

end TransactionManager

/-- The snapshots are left out: no call below reads them. -/
structure RefModel where
  tree : RefTree
  transactions : TransactionManager
  lsn : Lsn

def PendingMutation.apply (S : BinarySearch Nat) (lsn : Lsn) (tree : RefTree) : PendingMutation → RefTree
  | put key value => tree.put S key value lsn
  | delete key => tree.delete S key

namespace RefModel

def new : RefModel := ⟨.new, .new, 0⟩

def get (m : RefModel) (key : Bytes) : Option Bytes := m.tree.get key

end RefModel

inductive Call where
  | beginTxn
  | put (txnId : UInt64) (key value : Bytes)
  | delete (txnId : UInt64) (key : Bytes)
  | rollback (txnId : UInt64)
  | commit (txnId : UInt64)
  deriving Repr, DecidableEq

inductive Outcome where
  | begun (txnId : UInt64)
  | done
  | failed (e : Error)
  deriving Repr, DecidableEq

namespace RefModel

/-- A commit: what it leaves behind, also where it fails. -/
def commit (S : BinarySearch Nat) (m : RefModel) (txnId : UInt64) : RefModel × Outcome :=
  match m.transactions.getTxn txnId with
  | .error e => (m, .failed e)
  | .ok txn =>
    let tree := txn.mutations.foldl (PendingMutation.apply S m.lsn) m.tree
    let lsn := nextOrSame m.lsn
    match m.transactions.commit txnId with
    | .ok transactions => (⟨tree, transactions, lsn⟩, .done)
    | .error e => (⟨tree, m.transactions, lsn⟩, .failed e)

def withTransactions (m : RefModel) (result : Except Error TransactionManager) : RefModel × Outcome :=
  match result with
  | .ok transactions => ({ m with transactions }, .done)
  | .error e => (m, .failed e)

def call (S : BinarySearch Nat) (m : RefModel) : Call → RefModel × Outcome
  | .beginTxn =>
    let (transactions, txnId) := m.transactions.beginTxn m.lsn
    ({ m with transactions }, .begun txnId)
  | .put txnId key value => m.withTransactions (m.transactions.put txnId key value)
  | .delete txnId key => m.withTransactions (m.transactions.delete txnId key)
  | .rollback txnId => m.withTransactions (m.transactions.rollback txnId)
  | .commit txnId => m.commit S txnId

end RefModel

/-- What a mutation does to a map. -/
def mutate (state : Bytes → Option Bytes) : PendingMutation → Bytes → Option Bytes
  | .put key value => Function.update state key (some value)
  | .delete key => Function.update state key none

/-- What a caller knows: the mutations that each transaction has accepted, and those of the commits that have
succeeded, in order. -/
structure Journal where
  pending : UInt64 → List PendingMutation
  committed : List (List PendingMutation)

namespace Journal

def empty : Journal := ⟨fun _ => [], []⟩

def observe (j : Journal) : Call → Outcome → Journal
  | .beginTxn, .begun txnId => { j with pending := Function.update j.pending txnId [] }
  | .put txnId key value, .done =>
    { j with pending := Function.update j.pending txnId (j.pending txnId ++ [.put key value]) }
  | .delete txnId key, .done =>
    { j with pending := Function.update j.pending txnId (j.pending txnId ++ [.delete key]) }
  | .commit txnId, .done => { j with committed := j.committed ++ [j.pending txnId] }
  | _, _ => j

/-- The committed mutations, applied to an empty map. -/
def state (j : Journal) : Bytes → Option Bytes := j.committed.flatten.foldl mutate fun _ => none

end Journal

structure Observed where
  model : RefModel
  journal : Journal

namespace Observed

def start : Observed := ⟨.new, .empty⟩

def step (S : BinarySearch Nat) (o : Observed) (c : Call) : Option Observed :=
  some ⟨(o.model.call S c).1, o.journal.observe c (o.model.call S c).2⟩

end Observed

end Northstar.Refmodel
