import Northstar.Refmodel.Snapshots

/-!
# Failures — what a call that fails leaves behind

A call that fails has changed nothing, unless it is the commit of a transaction that has been committed before:
its mutations are applied once more, and the LSN moves on, before the manager is asked.
-/

namespace Northstar.Refmodel

open Bytes

namespace TransactionManager

def activeTxnIds (m : TransactionManager) : List UInt64 :=
  (m.activeTransactions.filter (!·.committed)).map PendingTransaction.id

end TransactionManager

/-- The calls of a reader, and the active transactions, answer as before. -/
structure Unchanged (m m' : SnapshotModel) : Prop where
  get : ∀ key, m'.get key = m.get key
  currentLsn : m'.currentLsn = m.currentLsn
  snapshots : m'.snapshots = m.snapshots
  active : m'.model.transactions.activeTxnIds = m.model.transactions.activeTxnIds

theorem Unchanged.refl (m : SnapshotModel) : Unchanged m m := ⟨fun _ => rfl, rfl, rfl, rfl⟩

theorem nextOrSame_eq_self_iff {lsn : Lsn} : nextOrSame lsn = lsn ↔ lsn = Lsn.max := by
  constructor
  · intro hsame
    by_contra hne
    have hlt : lsn < Lsn.max := by
      have hbound := lsn.toNat_lt
      have hne' : lsn.toNat ≠ Lsn.max.toNat := fun heq => hne (UInt64.toNat_inj.mp heq)
      rw [UInt64.lt_iff_toNat_lt]
      have hmax : Lsn.max.toNat = 2 ^ 64 - 1 := rfl
      omega
    have hnext := (toNat_nextOrSame lsn).2 hlt
    rw [hsame] at hnext
    omega
  · exact fun hmax => hmax ▸ rfl

def PendingMutation.outcome : PendingMutation → Option Bytes
  | put _ value => some value
  | delete _ => none

/-- The mutation of a key that has an effect at the largest LSN: the first one, or the first put if there is no
chain.  A version at this LSN is not superseded any more. -/
def deciding (latest : Option VersionedValue) (ops : List PendingMutation) : Option PendingMutation :=
  match latest with
  | none => ops.find? (!·.isDelete)
  | some current => if current.lsn < Lsn.max then ops.head? else none

theorem foldl_at_max {current : VersionedValue} (h : current.lsn = Lsn.max) (ops : List PendingMutation) :
    ops.foldl (applyLatest Lsn.max) (some current) = some current := by
  have hnot : ¬ current.order < Lsn.max.toNat := by
    unfold VersionedValue.order
    rw [h]
    exact Nat.lt_irrefl _
  induction ops with
  | nil => rfl
  | cons op ops ih =>
    have hop : applyLatest Lsn.max (some current) op = some current := by
      cases op with
      | put key value => exact congrArg some (if_neg hnot)
      | delete key => exact congrArg some (if_neg hnot)
    rw [List.foldl_cons, hop, ih]

theorem visible_foldl_max (latest : Option VersionedValue) (ops : List PendingMutation) :
    visible (ops.foldl (applyLatest Lsn.max) latest) =
      match deciding latest ops with
      | none => visible latest
      | some op => op.outcome := by
  cases latest with
  | some current =>
    unfold deciding
    dsimp only
    by_cases hlt : current.lsn < Lsn.max
    · rw [if_pos hlt]
      have hlt' : current.order < Lsn.max.toNat := UInt64.lt_iff_toNat_lt.mp hlt
      cases ops with
      | nil => rfl
      | cons op ops =>
        rw [List.foldl_cons]
        cases op with
        | put key value =>
          have hput : applyLatest Lsn.max (some current) (.put key value) = some (.new value Lsn.max) :=
            congrArg some (if_pos hlt')
          rw [hput, foldl_at_max rfl]
          rfl
        | delete key =>
          have hdelete : applyLatest Lsn.max (some current) (.delete key) = some (.tombstone Lsn.max) :=
            congrArg some (if_pos hlt')
          rw [hdelete, foldl_at_max rfl]
          rfl
    · rw [if_neg hlt]
      have hmax : current.lsn = Lsn.max := by
        have hbound := current.lsn.toNat_lt
        rw [UInt64.lt_iff_toNat_lt] at hlt
        apply UInt64.toNat_inj.mp
        have hmax : Lsn.max.toNat = 2 ^ 64 - 1 := rfl
        omega
      rw [foldl_at_max hmax]
  | none =>
    unfold deciding
    dsimp only
    induction ops with
    | nil => rfl
    | cons op ops ih =>
      rw [List.foldl_cons]
      cases op with
      | put key value =>
        have hput : applyLatest Lsn.max none (.put key value) = some (.new value Lsn.max) := rfl
        rw [hput, foldl_at_max rfl]
        rfl
      | delete key => exact ih

/-- A transaction is committed again, with an LSN that can still grow, or with a mutation that says something
else of its key than what is read. -/
def Recommits (m : RefModel) : Call → Prop
  | .commit txnId => ∃ txn, m.transactions.getTxn txnId = .ok txn ∧ txn.committed = true ∧
      (m.lsn ≠ Lsn.max ∨ ∃ key op, deciding (m.tree.latest key) (ofKey key txn.mutations) = some op ∧
        op.outcome ≠ m.get key)
  | _ => False

variable (S : BinarySearch Nat) {m : SnapshotModel}

theorem sound_step (h : m.model.tree.Sound) (c : SnapshotCall) : (m.step S c).model.tree.Sound := by
  cases c with
  | createSnapshot => exact h
  | call c =>
    show (m.model.call S c).1.tree.Sound
    cases c with
    | beginTxn => exact h
    | put txnId key value => exact (withTransactions_frame m.model _).1 ▸ h
    | delete txnId key => exact (withTransactions_frame m.model _).1 ▸ h
    | rollback txnId => exact (withTransactions_frame m.model _).1 ▸ h
    | commit txnId =>
      show (m.model.commit S txnId).1.tree.Sound
      unfold RefModel.commit
      cases m.model.transactions.getTxn txnId with
      | error e => exact h
      | ok txn =>
        have hfold := (sound_foldl S h m.model.lsn txn.mutations).1
        dsimp only
        cases m.model.transactions.commit txnId with
        | ok transactions => exact hfold
        | error e => exact hfold

theorem sound_run (calls : List SnapshotCall) (h : m.model.tree.Sound) : (m.run S calls).model.tree.Sound := by
  induction calls generalizing m with
  | nil => exact h
  | cons c calls ih => exact ih (sound_step S h c)

theorem change_of_getTxn {m : TransactionManager} {txnId : UInt64} {txn : PendingTransaction}
    (h : m.getTxn txnId = .ok txn) (f : PendingTransaction → PendingTransaction) :
    m.change txnId f = if txn.committed then .error (alreadyCommitted txnId)
      else .ok { m with activeTransactions := TransactionManager.modifyTxn txnId f m.activeTransactions } := by
  unfold TransactionManager.change
  rw [h]
  rfl

theorem commit_failed {txnId : UInt64} {e : Error} (h : (m.model.commit S txnId).2 = .failed e) :
    (m.model.transactions.getTxn txnId = .error e ∧ (m.model.commit S txnId).1 = m.model) ∨
      ∃ txn, m.model.transactions.getTxn txnId = .ok txn ∧ txn.committed = true ∧
        (m.model.commit S txnId).1 = ⟨txn.mutations.foldl (PendingMutation.apply S m.model.lsn) m.model.tree,
          m.model.transactions, nextOrSame m.model.lsn⟩ := by
  unfold RefModel.commit at h ⊢
  cases hget : m.model.transactions.getTxn txnId with
  | error found =>
    rw [hget] at h
    cases h
    exact .inl ⟨rfl, rfl⟩
  | ok txn =>
    rw [hget] at h
    unfold TransactionManager.commit at h ⊢
    rw [change_of_getTxn hget] at h ⊢
    cases hcommitted : txn.committed with
    | true => exact .inr ⟨txn, rfl, hcommitted, rfl⟩
    | false =>
      rw [hcommitted] at h
      cases h

theorem withTransactions_failed {result : Except Error TransactionManager} {e : Error}
    (h : (m.model.withTransactions result).2 = .failed e) : (m.model.withTransactions result).1 = m.model := by
  cases result with
  | ok transactions => cases h
  | error found => rfl

/-- Committing again changes nothing exactly if the LSN is the largest one and every key reads what the
mutations that have an effect say. -/
theorem unchanged_recommit_iff {txn : PendingTransaction} (h : m.model.tree.Sound) :
    Unchanged m { m with model := ⟨txn.mutations.foldl (PendingMutation.apply S m.model.lsn) m.model.tree,
        m.model.transactions, nextOrSame m.model.lsn⟩ } ↔
      m.model.lsn = Lsn.max ∧ ∀ key op,
        deciding (m.model.tree.latest key) (ofKey key txn.mutations) = some op → op.outcome = m.model.get key := by
  have hread : m.model.lsn = Lsn.max → ∀ key,
      (txn.mutations.foldl (PendingMutation.apply S m.model.lsn) m.model.tree).get key =
        match deciding (m.model.tree.latest key) (ofKey key txn.mutations) with
        | none => m.model.get key
        | some op => op.outcome := by
    intro hmax key
    rw [RefTree.get_eq, (sound_foldl S h m.model.lsn txn.mutations).2 key, hmax]
    exact visible_foldl_max _ _
  constructor
  · intro hsame
    have hmax : m.model.lsn = Lsn.max := nextOrSame_eq_self_iff.mp hsame.currentLsn
    refine ⟨hmax, ?_⟩
    intro key op hop
    have hget := hsame.get key
    have hkey := hread hmax key
    rw [hop] at hkey
    exact hkey.symm.trans hget
  · rintro ⟨hmax, hkeys⟩
    refine ⟨?_, nextOrSame_eq_self_iff.mpr hmax, rfl, rfl⟩
    intro key
    show RefTree.get _ key = m.model.get key
    rw [hread hmax key]
    split
    next => rfl
    next op hop => exact hkeys key op hop

/-- A call that fails changes nothing, exactly if it does not commit a transaction again. -/
theorem unchanged_of_failed_iff (calls : List SnapshotCall) (c : Call) {e : Error}
    (hfailed : ((SnapshotModel.new.run S calls).model.call S c).2 = .failed e) :
    Unchanged (SnapshotModel.new.run S calls) ((SnapshotModel.new.run S calls).step S (.call c)) ↔
      ¬ Recommits (SnapshotModel.new.run S calls).model c := by
  have hsound : (SnapshotModel.new.run S calls).model.tree.Sound := sound_run S calls RefTree.sound_new
  generalize SnapshotModel.new.run S calls = m at hfailed hsound ⊢
  have hstay : (m.model.call S c).1 = m.model → Unchanged m (m.step S (.call c)) := by
    intro hmodel
    show Unchanged m { m with model := (m.model.call S c).1 }
    rw [hmodel]
    exact Unchanged.refl m
  cases c with
  | beginTxn => cases hfailed
  | put txnId key value =>
    exact ⟨fun _ hnot => hnot, fun _ => hstay (withTransactions_failed hfailed)⟩
  | delete txnId key =>
    exact ⟨fun _ hnot => hnot, fun _ => hstay (withTransactions_failed hfailed)⟩
  | rollback txnId =>
    exact ⟨fun _ hnot => hnot, fun _ => hstay (withTransactions_failed hfailed)⟩
  | commit txnId =>
    rcases commit_failed S hfailed with ⟨hget, hmodel⟩ | ⟨txn, hget, hcommitted, hmodel⟩
    · constructor
      · rintro - ⟨txn, hfound, -⟩
        rw [hget] at hfound
        cases hfound
      · exact fun _ => hstay hmodel
    · have hstep : m.step S (.call (.commit txnId)) =
          { m with model := ⟨txn.mutations.foldl (PendingMutation.apply S m.model.lsn) m.model.tree,
            m.model.transactions, nextOrSame m.model.lsn⟩ } := by
        rw [← hmodel]
        rfl
      rw [hstep, unchanged_recommit_iff S hsound]
      constructor
      · rintro ⟨hmax, hkeys⟩ ⟨found, hfound, -, hbad⟩
        rw [hget] at hfound
        cases hfound
        rcases hbad with hlsn | ⟨key, op, hop, hne⟩
        · exact hlsn hmax
        · exact hne (hkeys key op hop)
      · intro hnot
        have hmax : m.model.lsn = Lsn.max := by
          by_contra hlsn
          exact hnot ⟨txn, hget, hcommitted, .inl hlsn⟩
        refine ⟨hmax, ?_⟩
        intro key op hop
        by_contra hne
        exact hnot ⟨txn, hget, hcommitted, .inr ⟨key, op, hop, hne⟩⟩

def committedOnce : List SnapshotCall := [.call .beginTxn, .call (.put 1 [107] [1]), .call (.commit 1)]

/-- After a commit and a snapshot, a put without a transaction. -/
theorem unchanged_of_unknown_txn :
    Unchanged (SnapshotModel.new.run (.linear Nat) (committedOnce ++ [.createSnapshot]))
      ((SnapshotModel.new.run (.linear Nat) (committedOnce ++ [.createSnapshot])).step (.linear Nat)
        (.call (.put 7 [107] [2]))) :=
  (unchanged_of_failed_iff (.linear Nat) (committedOnce ++ [.createSnapshot]) (.put 7 [107] [2]) rfl).mpr fun h => h

/-- The second commit fails, and moves the LSN from 1 to 2. -/
theorem recommit_moves_lsn :
    ¬ ∃ S : BinarySearch Nat, ∀ (calls : List SnapshotCall) (c : Call) (e : Error),
      ((SnapshotModel.new.run S calls).model.call S c).2 = .failed e →
        Unchanged (SnapshotModel.new.run S calls) ((SnapshotModel.new.run S calls).step S (.call c)) := by
  rintro ⟨S, hclaim⟩
  have hsame := hclaim committedOnce (.commit 1) (alreadyCommitted 1) rfl
  have hlsn : (2 : UInt64) = 1 := hsame.currentLsn
  exact absurd hlsn (by decide)

end Northstar.Refmodel
