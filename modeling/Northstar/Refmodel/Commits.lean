import Northstar.Refmodel.Model
import Mathlib.Data.List.Induction
import Mathlib.Data.List.Nodup
import Mathlib.Data.List.TakeWhile

/-!
# Commits — what the versions of a commit come to

All versions of one commit have one LSN, so the first put of a key wins over the later ones, and a key that
has been deleted stays so, since no LSN is larger than that of the tombstone.
-/

namespace Northstar.Refmodel

open Bytes Runs

def PendingMutation.isDelete : PendingMutation → Bool
  | put _ _ => false
  | delete _ => true

/-- What a mutation of a key does to its current version. -/
def applyLatest (lsn : Lsn) (latest : Option VersionedValue) : PendingMutation → Option VersionedValue
  | .put _ value => some (VersionChain.supersede latest (.new value lsn))
  | .delete _ => latest.map fun current => VersionChain.supersede (some current) (.tombstone Lsn.max)

/-- The value that is read. -/
def visible (latest : Option VersionedValue) : Option Bytes := (latest.filter (!·.isTombstone)).map (·.value)

/-- A tombstone has the largest LSN, and a value one below the bound. -/
def Dated (bound : Nat) (latest : Option VersionedValue) : Prop :=
  ∀ current ∈ latest, (current.isTombstone → current.lsn = Lsn.max) ∧
    (¬ current.isTombstone → current.lsn.toNat < bound)

/-- The mutations of the key end with a delete; or the key is not deleted, no delete comes after it exists,
and the first of its puts has the value of the last. -/
def KeyFits (latest : Option VersionedValue) (ops : List PendingMutation) : Prop :=
  ∀ key value, ops.getLast? = some (.put key value) →
    (∀ current ∈ latest, current.isTombstone = false) ∧
    (∀ op ∈ (if latest.isSome then ops else ops.dropWhile PendingMutation.isDelete), op.isDelete = false) ∧
    (if latest.isSome then ops else ops.dropWhile PendingMutation.isDelete).head? = some (.put key value)

variable {latest : Option VersionedValue} {value : Bytes} {lsn : Lsn} {ops : List PendingMutation}

theorem dated_supersede {version : VersionedValue} {bound : Nat}
    (h : Dated bound latest) (hversion : Dated bound (some version)) :
    Dated bound (some (VersionChain.supersede latest version)) := by
  unfold VersionChain.supersede
  cases latest with
  | none => exact hversion
  | some current =>
    dsimp only
    split
    · exact hversion
    · exact h

theorem dated_new : Dated (lsn.toNat + 1) (some (.new value lsn)) := by
  intro current hcurrent
  cases hcurrent
  exact ⟨fun htombstone => (nomatch htombstone), fun _ => Nat.lt_succ_self _⟩

theorem dated_tombstone {bound : Nat} : Dated bound (some (.tombstone Lsn.max)) := by
  intro current hcurrent
  cases hcurrent
  exact ⟨fun _ => rfl, fun hvalue => absurd rfl hvalue⟩

theorem dated_applyLatest (h : Dated (lsn.toNat + 1) latest)
    (op : PendingMutation) : Dated (lsn.toNat + 1) (applyLatest lsn latest op) := by
  cases op with
  | put key value => exact dated_supersede h dated_new
  | delete key =>
    cases latest with
    | none => exact h
    | some current => exact dated_supersede h dated_tombstone

theorem dated_foldl
    (h : Dated (lsn.toNat + 1) latest) : Dated (lsn.toNat + 1) (ops.foldl (applyLatest lsn) latest) :=
  List.foldlRecOn ops (applyLatest lsn) h fun _ hb op _ => dated_applyLatest hb op

theorem foldl_deletes (h : ∀ op ∈ ops, op.isDelete = true) :
    ops.foldl (applyLatest lsn) none = none := by
  apply List.foldlRecOn (motive := (· = none)) ops (applyLatest lsn) rfl
  rintro _ rfl op hop
  cases op with
  | put key value => cases h _ hop
  | delete key => rfl

theorem foldl_puts (h : ∀ op ∈ ops, op.isDelete = false) :
    ops.foldl (applyLatest lsn) (some (.new value lsn)) = some (.new value lsn) := by
  apply List.foldlRecOn (motive := (· = some (.new value lsn))) ops (applyLatest lsn) rfl
  rintro _ rfl op hop
  cases op with
  | delete key => cases h _ hop
  | put key other =>
    show some (if lsn.toNat < lsn.toNat then _ else _) = _
    rw [if_neg (Nat.lt_irrefl _)]

theorem foldl_first_put {key : Bytes} (hlatest : ∀ current ∈ latest, current.lsn.toNat < lsn.toNat)
    (hops : ∀ op ∈ ops, op.isDelete = false) (hfirst : ops.head? = some (.put key value)) :
    ops.foldl (applyLatest lsn) latest = some (.new value lsn) := by
  cases ops with
  | nil => cases hfirst
  | cons op ops =>
    cases hfirst
    have hput : applyLatest lsn latest (.put key value) = some (.new value lsn) := by
      cases latest with
      | none => rfl
      | some current =>
        show some (if current.lsn.toNat < lsn.toNat then _ else _) = _
        rw [if_pos (hlatest current rfl)]
    rw [List.foldl_cons, hput]
    exact foldl_puts fun op hop => hops op (List.mem_cons_of_mem _ hop)

theorem visible_delete (hlsn : lsn < Lsn.max)
    (h : Dated (lsn.toNat + 1) latest) (key : Bytes) : visible (applyLatest lsn latest (.delete key)) = none := by
  cases latest with
  | none => rfl
  | some current =>
    have hcurrent := h current rfl
    show visible (some (if current.lsn.toNat < Lsn.max.toNat then _ else _)) = none
    by_cases htombstone : current.isTombstone = true
    · rw [hcurrent.1 htombstone, if_neg (Nat.lt_irrefl _)]
      unfold visible
      simp [htombstone]
    · have hlt := hcurrent.2 htombstone
      have hlsn : lsn.toNat < Lsn.max.toNat := UInt64.lt_iff_toNat_lt.mp hlsn
      rw [if_pos (by omega)]
      rfl

theorem visible_foldl (hlsn : lsn < Lsn.max) (hdated : Dated lsn.toNat latest) (hfits : KeyFits latest ops) :
    visible (ops.foldl (applyLatest lsn) latest) =
      match ops.getLast? with
      | none => visible latest
      | some (.put _ value) => some value
      | some (.delete _) => none := by
  have hdated' : Dated (lsn.toNat + 1) latest := by
    intro current hcurrent
    have hboth := hdated current hcurrent
    exact ⟨hboth.1, fun hvalue => Nat.lt_succ_of_lt (hboth.2 hvalue)⟩
  cases hlast : ops.getLast? with
  | none =>
    rw [List.getLast?_eq_none_iff.mp hlast]
    rfl
  | some op =>
    cases op with
    | delete key =>
      rcases List.getLast?_eq_some_iff.mp hlast with ⟨front, hfront⟩
      rw [hfront, List.foldl_append]
      exact visible_delete hlsn (dated_foldl hdated') key
    | put key value =>
      have hfits := hfits key value hlast
      -- the current version is a value, and older than this commit
      have holder : ∀ current ∈ latest, current.lsn.toNat < lsn.toNat := by
        intro current hcurrent
        apply (hdated current hcurrent).2
        rw [hfits.1 current hcurrent]
        exact Bool.false_ne_true
      have hresult : ops.foldl (applyLatest lsn) latest = some (.new value lsn) := by
        cases latest with
        | some current => exact foldl_first_put holder hfits.2.1 hfits.2.2
        | none =>
          rw [← List.takeWhile_append_dropWhile (p := PendingMutation.isDelete) (l := ops), List.foldl_append,
            foldl_deletes fun op hop => List.mem_takeWhile_imp hop]
          exact foldl_first_put (fun _ hnone => (nomatch hnone)) hfits.2.1 hfits.2.2
      rw [hresult]
      rfl

def ofKey (key : Bytes) (ms : List PendingMutation) : List PendingMutation := ms.filter (·.key = key)

theorem sound_apply (S : BinarySearch Nat) {tree : RefTree} (h : tree.Sound) (lsn : Lsn) (m : PendingMutation) :
    (m.apply S lsn tree).Sound ∧ ∀ key, (m.apply S lsn tree).latest key =
      if m.key = key then applyLatest lsn (tree.latest key) m else tree.latest key := by
  cases m with
  | put key value =>
    have hput := RefTree.sound_put S h key value lsn
    refine ⟨hput.1, ?_⟩
    intro other
    show (tree.put S key value lsn).latest other = if key = other then _ else _
    rw [hput.2]
    by_cases heq : other = key
    · rw [if_pos heq, if_pos heq.symm, heq]
      rfl
    · rw [if_neg heq, if_neg (Ne.symm heq)]
  | delete key =>
    have hdelete := RefTree.sound_delete S h key
    refine ⟨hdelete.1, ?_⟩
    intro other
    show (tree.delete S key).latest other = if key = other then _ else _
    rw [hdelete.2]
    by_cases heq : other = key
    · rw [if_pos heq, if_pos heq.symm, heq]
      rfl
    · rw [if_neg heq, if_neg (Ne.symm heq)]

theorem sound_foldl (S : BinarySearch Nat) {tree : RefTree} (h : tree.Sound) (lsn : Lsn)
    (ms : List PendingMutation) :
    (ms.foldl (PendingMutation.apply S lsn) tree).Sound ∧
      ∀ key, (ms.foldl (PendingMutation.apply S lsn) tree).latest key =
        (ofKey key ms).foldl (applyLatest lsn) (tree.latest key) := by
  induction ms generalizing tree with
  | nil => exact ⟨h, fun _ => rfl⟩
  | cons m ms ih =>
    have hm := sound_apply S h lsn m
    have hrest := ih hm.1
    refine ⟨hrest.1, ?_⟩
    intro key
    rw [List.foldl_cons, hrest.2, hm.2]
    unfold ofKey
    by_cases heq : m.key = key
    · rw [if_pos heq, List.filter_cons_of_pos (by simpa using heq)]
      rfl
    · rw [if_neg heq, List.filter_cons_of_neg (by simpa using heq)]

theorem foldl_mutate (ms : List PendingMutation) (state : Bytes → Option Bytes) (key : Bytes) :
    ms.foldl mutate state key =
      match (ofKey key ms).getLast? with
      | none => state key
      | some (.put _ value) => some value
      | some (.delete _) => none := by
  induction ms using List.reverseRecOn with
  | nil => rfl
  | append_singleton ms m ih =>
    rw [List.foldl_append]
    show mutate (ms.foldl mutate state) m key = _
    unfold ofKey at ih ⊢
    rw [List.filter_append]
    by_cases heq : m.key = key
    · rw [List.filter_cons_of_pos (by simpa using heq), List.filter_nil, List.getLast?_append,
        List.getLast?_singleton]
      cases m with
      | put other value =>
        have heq : other = key := heq
        rw [heq]
        exact Function.update_self ..
      | delete other =>
        have heq : other = key := heq
        rw [heq]
        exact Function.update_self ..
    · rw [List.filter_cons_of_neg (by simpa using heq), List.filter_nil, List.append_nil, ← ih]
      cases m with
      | put other value => exact Function.update_of_ne (fun hkey => heq hkey.symm) ..
      | delete other => exact Function.update_of_ne (fun hkey => heq hkey.symm) ..

/-- A transaction that has not been committed, with mutations that fit, and an id that is free. -/
def CallFits (o : Observed) : Call → Prop
  | .beginTxn => ∀ txn ∈ o.model.transactions.activeTransactions, txn.id ≠ o.model.transactions.nextTxnId
  | .commit txnId => ∀ txn, o.model.transactions.getTxn txnId = .ok txn → txn.mutations ≠ [] →
      txn.committed = false ∧ o.model.lsn < Lsn.max ∧
        ∀ key, KeyFits (o.model.tree.latest key) (ofKey key txn.mutations)
  | _ => True

/-- The tree has the committed state, and the manager the pending mutations. -/
structure Faithful (o : Observed) : Prop where
  tree : o.model.tree.Sound
  dated : ∀ key, Dated o.model.lsn.toNat (o.model.tree.latest key)
  state : ∀ key, o.model.get key = o.journal.state key
  ids : (o.model.transactions.activeTransactions.map PendingTransaction.id).Nodup
  pending : ∀ txn ∈ o.model.transactions.activeTransactions, txn.committed = false →
    o.journal.pending txn.id = txn.mutations

theorem faithful_start : Faithful .start where
  tree := RefTree.sound_new
  dated := fun _ _ hcurrent => (nomatch hcurrent)
  state := fun _ => rfl
  ids := List.nodup_nil
  pending := fun _ hmem => (nomatch hmem)

namespace TransactionManager

variable {m m' : TransactionManager} {txnId : UInt64} {txn : PendingTransaction}
  {f : PendingTransaction → PendingTransaction}

theorem getTxn_ok (h : m.getTxn txnId = .ok txn) :
    m.activeTransactions.find? (·.id = txnId) = some txn ∧ txn ∈ m.activeTransactions ∧ txn.id = txnId := by
  unfold getTxn at h
  cases hfind : m.activeTransactions.find? (·.id = txnId) with
  | none =>
    rw [hfind] at h
    cases h
  | some found =>
    rw [hfind] at h
    cases h
    exact ⟨rfl, List.mem_of_find?_eq_some hfind, by simpa using List.find?_some hfind⟩

theorem change_ok (h : m.change txnId f = .ok m') :
    ∃ txn, m.getTxn txnId = .ok txn ∧ txn.committed = false ∧
      m' = { m with activeTransactions := modifyTxn txnId f m.activeTransactions } := by
  unfold change at h
  cases hget : m.getTxn txnId with
  | error e =>
    rw [hget] at h
    cases h
  | ok txn =>
    rw [hget] at h
    change (if txn.committed then _ else _) = _ at h
    cases hcommitted : txn.committed with
    | true =>
      rw [hcommitted, if_pos rfl] at h
      cases h
    | false =>
      rw [hcommitted, if_neg Bool.false_ne_true] at h
      cases h
      exact ⟨txn, rfl, hcommitted, rfl⟩

theorem map_id_modifyTxn (hf : ∀ txn, (f txn).id = txn.id) (txns : List PendingTransaction) :
    (modifyTxn txnId f txns).map PendingTransaction.id = txns.map PendingTransaction.id := by
  induction txns with
  | nil => rfl
  | cons txn txns ih =>
    unfold modifyTxn
    split
    · rw [List.map_cons, List.map_cons, hf]
    · rw [List.map_cons, List.map_cons, ih]

theorem mem_modifyTxn {txns : List PendingTransaction} (hids : (txns.map PendingTransaction.id).Nodup)
    (hfind : txns.find? (·.id = txnId) = some txn) {other : PendingTransaction}
    (hother : other ∈ modifyTxn txnId f txns) : other = f txn ∨ (other ∈ txns ∧ other.id ≠ txnId) := by
  induction txns with
  | nil => cases hfind
  | cons first txns ih =>
    have hnodup := List.nodup_cons.mp (show (first.id :: txns.map PendingTransaction.id).Nodup from hids)
    unfold modifyTxn at hother
    by_cases heq : first.id = txnId
    · rw [List.find?_cons_of_pos (by simpa using heq)] at hfind
      cases hfind
      rw [if_pos heq] at hother
      rcases List.mem_cons.mp hother with hother | hother
      · exact .inl hother
      · refine .inr ⟨List.mem_cons_of_mem _ hother, ?_⟩
        intro hid
        apply hnodup.1
        rw [heq, ← hid]
        exact List.mem_map_of_mem hother
    · rw [List.find?_cons_of_neg (by simpa using heq)] at hfind
      rw [if_neg heq] at hother
      rcases List.mem_cons.mp hother with hother | hother
      · rw [hother]
        exact .inr ⟨List.mem_cons_self .., heq⟩
      · cases ih hnodup.2 hfind hother with
        | inl hnew => exact .inl hnew
        | inr hold => exact .inr ⟨List.mem_cons_of_mem _ hold.1, hold.2⟩

end TransactionManager

variable {o : Observed}

variable {transactions : TransactionManager}

theorem Faithful.withTransactions (h : Faithful o)
    {pending : UInt64 → List PendingMutation}
    (hids : (transactions.activeTransactions.map PendingTransaction.id).Nodup)
    (hpending : ∀ txn ∈ transactions.activeTransactions, txn.committed = false → pending txn.id = txn.mutations) :
    Faithful ⟨{ o.model with transactions }, { o.journal with pending }⟩ where
  tree := h.tree
  dated := h.dated
  state := h.state
  ids := hids
  pending := hpending

theorem faithful_beginTxn (S : BinarySearch Nat) (h : Faithful o) (hfits : CallFits o .beginTxn) :
    Faithful ⟨(o.model.call S .beginTxn).1, o.journal.observe .beginTxn (o.model.call S .beginTxn).2⟩ := by
  show Faithful ⟨{ o.model with transactions := (o.model.transactions.beginTxn o.model.lsn).1 },
    { o.journal with pending := Function.update o.journal.pending o.model.transactions.nextTxnId [] }⟩
  apply h.withTransactions
  · show ((o.model.transactions.activeTransactions ++ [_]).map PendingTransaction.id).Nodup
    rw [List.map_append, List.nodup_append]
    refine ⟨h.ids, List.nodup_singleton _, ?_⟩
    intro id hid other hother
    rcases List.mem_map.mp hid with ⟨txn, htxn, rfl⟩
    rw [List.mem_singleton.mp hother]
    exact hfits txn htxn
  · intro txn htxn hcommitted
    rcases List.mem_append.mp htxn with htxn | htxn
    · rw [Function.update_of_ne (hfits txn htxn)]
      exact h.pending txn htxn hcommitted
    · rw [List.mem_singleton.mp htxn]
      exact Function.update_self ..

variable {txnId : UInt64}

theorem faithful_append (h : Faithful o) {op : PendingMutation}
    (hok : o.model.transactions.change txnId (fun txn => { txn with mutations := txn.mutations ++ [op] }) =
      .ok transactions) :
    Faithful ⟨{ o.model with transactions }, { o.journal with
      pending := Function.update o.journal.pending txnId (o.journal.pending txnId ++ [op]) }⟩ := by
  rcases TransactionManager.change_ok hok with ⟨txn, hget, hopen, rfl⟩
  have hfound := TransactionManager.getTxn_ok hget
  apply h.withTransactions
  · show ((TransactionManager.modifyTxn txnId _ _).map PendingTransaction.id).Nodup
    rw [TransactionManager.map_id_modifyTxn]
    · exact h.ids
    · exact fun _ => rfl
  · intro other hother hcommitted
    cases TransactionManager.mem_modifyTxn h.ids hfound.1 hother with
    | inl hnew =>
      rw [hnew]
      show Function.update o.journal.pending txnId _ txn.id = txn.mutations ++ [op]
      rw [hfound.2.2, Function.update_self, ← hfound.2.2, h.pending txn hfound.2.1 hopen]
    | inr hold =>
      rw [Function.update_of_ne hold.2]
      exact h.pending other hold.1 hcommitted

theorem faithful_rollback (h : Faithful o)
    (hok : o.model.transactions.rollback txnId = .ok transactions) :
    Faithful ⟨{ o.model with transactions }, o.journal⟩ := by
  unfold TransactionManager.rollback at hok
  cases hget : o.model.transactions.getTxn txnId with
  | error e =>
    rw [hget] at hok
    cases hok
  | ok txn =>
    rw [hget] at hok
    change (if txn.committed then _ else _) = _ at hok
    split at hok
    · cases hok
    · cases hok
      have hsub : (o.model.transactions.activeTransactions.eraseP (·.id = txnId)).Sublist
          o.model.transactions.activeTransactions := List.eraseP_sublist
      apply h.withTransactions
      · exact h.ids.sublist (hsub.map _)
      · exact fun other hother => h.pending other (hsub.subset hother)

theorem toNat_nextOrSame (lsn : Lsn) :
    lsn.toNat ≤ (nextOrSame lsn).toNat ∧ (lsn < Lsn.max → (nextOrSame lsn).toNat = lsn.toNat + 1) := by
  unfold nextOrSame
  have hbound := lsn.toNat_lt
  by_cases hmax : lsn = 0xFFFFFFFFFFFFFFFF
  · rw [if_pos hmax]
    refine ⟨Nat.le_refl _, ?_⟩
    intro hlt
    rw [hmax] at hlt
    exact absurd hlt (by decide)
  · rw [if_neg hmax]
    have hne : lsn.toNat ≠ 18446744073709551615 := fun heq => hmax (UInt64.toNat_inj.mp heq)
    have hadd : (lsn + 1).toNat = lsn.toNat + 1 := by
      rw [UInt64.toNat_add]
      show (lsn.toNat + 1) % 2 ^ 64 = _
      omega
    rw [hadd]
    exact ⟨Nat.le_succ _, fun _ => rfl⟩

theorem faithful_commit (S : BinarySearch Nat) (h : Faithful o) (hfits : CallFits o (.commit txnId)) :
    Faithful ⟨(o.model.commit S txnId).1, o.journal.observe (.commit txnId) (o.model.commit S txnId).2⟩ := by
  unfold RefModel.commit
  cases hget : o.model.transactions.getTxn txnId with
  | error e => exact h
  | ok txn =>
    have hfound := TransactionManager.getTxn_ok hget
    have hlsn := toNat_nextOrSame o.model.lsn
    have hfold := sound_foldl S h.tree o.model.lsn txn.mutations
    dsimp only
    -- the versions are older than the next commit
    have hdated : ∀ key, Dated (nextOrSame o.model.lsn).toNat
        ((txn.mutations.foldl (PendingMutation.apply S o.model.lsn) o.model.tree).latest key) := by
      intro key
      rw [hfold.2 key]
      by_cases hempty : txn.mutations = []
      · rw [hempty]
        intro current hcurrent
        have hboth := h.dated key current hcurrent
        exact ⟨hboth.1, fun hvalue => Nat.lt_of_lt_of_le (hboth.2 hvalue) hlsn.1⟩
      · rw [hlsn.2 (hfits txn hget hempty).2.1]
        apply dated_foldl
        intro current hcurrent
        have hboth := h.dated key current hcurrent
        exact ⟨hboth.1, fun hvalue => Nat.lt_succ_of_lt (hboth.2 hvalue)⟩
    cases hcommit : o.model.transactions.commit txnId with
    | error e =>
      -- a transaction that is committed already, and without mutations
      have hempty : txn.mutations = [] := by
        by_contra hne
        have hopen := (hfits txn hget hne).1
        unfold TransactionManager.commit TransactionManager.change at hcommit
        rw [hget] at hcommit
        change (if txn.committed then _ else _) = _ at hcommit
        rw [hopen, if_neg Bool.false_ne_true] at hcommit
        cases hcommit
      rw [hempty] at hdated hfold ⊢
      exact ⟨hfold.1, hdated, h.state, h.ids, h.pending⟩
    | ok transactions =>
      rcases TransactionManager.change_ok hcommit with ⟨txn', hget', hopen, rfl⟩
      rw [hget] at hget'
      cases hget'
      have hmutations : o.journal.pending txnId = txn.mutations := by
        rw [← hfound.2.2]
        exact h.pending txn hfound.2.1 hopen
      constructor
      · exact hfold.1
      · exact hdated
      · intro key
        show visible ((txn.mutations.foldl (PendingMutation.apply S o.model.lsn) o.model.tree).latest key) =
          (o.journal.committed ++ [o.journal.pending txnId]).flatten.foldl mutate (fun _ => none) key
        have hbefore : visible (o.model.tree.latest key) = o.journal.state key := h.state key
        rw [hfold.2 key, List.flatten_append, List.foldl_append, List.flatten_singleton, hmutations,
          foldl_mutate]
        by_cases hempty : txn.mutations = []
        · rw [hempty]
          exact hbefore
        · have hfit := hfits txn hget hempty
          rw [visible_foldl hfit.2.1 (h.dated key) (hfit.2.2 key), hbefore]
          rfl
      · show ((TransactionManager.modifyTxn txnId _ _).map PendingTransaction.id).Nodup
        rw [TransactionManager.map_id_modifyTxn]
        · exact h.ids
        · exact fun _ => rfl
      · intro other hother hcommitted
        cases TransactionManager.mem_modifyTxn h.ids hfound.1 hother with
        | inl hnew =>
          rw [hnew] at hcommitted
          cases hcommitted
        | inr hold => exact h.pending other hold.1 hcommitted

theorem faithful_step (S : BinarySearch Nat) {o' : Observed} {c : Call} (h : Faithful o) (hfits : CallFits o c)
    (hstep : o.step S c = some o') : Faithful o' := by
  cases hstep
  cases c with
  | beginTxn => exact faithful_beginTxn S h hfits
  | put txnId key value =>
    cases hput : o.model.transactions.put txnId key value with
    | error e =>
      show Faithful ⟨(o.model.withTransactions _).1, o.journal.observe _ (o.model.withTransactions _).2⟩
      rw [hput]
      exact h
    | ok transactions =>
      show Faithful ⟨(o.model.withTransactions _).1, o.journal.observe _ (o.model.withTransactions _).2⟩
      rw [hput]
      exact faithful_append h hput
  | delete txnId key =>
    cases hdelete : o.model.transactions.delete txnId key with
    | error e =>
      show Faithful ⟨(o.model.withTransactions _).1, o.journal.observe _ (o.model.withTransactions _).2⟩
      rw [hdelete]
      exact h
    | ok transactions =>
      show Faithful ⟨(o.model.withTransactions _).1, o.journal.observe _ (o.model.withTransactions _).2⟩
      rw [hdelete]
      exact faithful_append h hdelete
  | rollback txnId =>
    cases hrollback : o.model.transactions.rollback txnId with
    | error e =>
      show Faithful ⟨(o.model.withTransactions _).1, o.journal.observe _ (o.model.withTransactions _).2⟩
      rw [hrollback]
      exact h
    | ok transactions =>
      show Faithful ⟨(o.model.withTransactions _).1, o.journal.observe _ (o.model.withTransactions _).2⟩
      rw [hrollback]
      exact faithful_rollback h hrollback
  | commit txnId => exact faithful_commit S h hfits

/-- In every run whose commits fit, every key has the value that the mutations of the successful commits give
it, applied in order to an empty map. -/
theorem get_eq_state (S : BinarySearch Nat) (calls : List Call) {o : Observed}
    (hmeets : Meets (Observed.step S) CallFits .start calls)
    (hrun : run (Observed.step S) .start calls = some o) (key : Bytes) :
    o.model.get key = o.journal.state key :=
  (invariant (fun _ _ _ h hfits hstep => faithful_step S h hfits hstep) faithful_start hmeets hrun).state key

/-- A key is put, and put again by the next transaction. -/
def overwrite : List Call :=
  [.beginTxn, .put 1 [107] [1], .commit 1, .beginTxn, .put 2 [107] [2], .commit 2]

theorem ofKey_singleton (key : Bytes) (m : PendingMutation) :
    ofKey key [m] = if m.key = key then [m] else [] := by
  unfold ofKey
  by_cases heq : m.key = key
  · simp [heq]
  · simp [heq]

theorem keyFits_put (h : ∀ current ∈ latest, current.isTombstone = false)
    (key key' value : Bytes) : KeyFits latest (ofKey key' [.put key value]) := by
  intro other value' hlast
  rw [ofKey_singleton] at hlast ⊢
  by_cases heq : (PendingMutation.put key value).key = key'
  · rw [if_pos heq] at hlast ⊢
    cases hlast
    refine ⟨h, ?_, ?_⟩
    · intro op hop
      have hop : op ∈ [PendingMutation.put key value] := by
        split at hop
        · exact hop
        · exact hop
      rw [List.mem_singleton.mp hop]
      rfl
    · split <;> rfl
  · rw [if_neg heq] at hlast
    cases hlast

theorem callFits_commit {txn : PendingTransaction} {key : Bytes}
    (hget : o.model.transactions.getTxn txnId = .ok txn) (hmutations : txn.mutations = [.put key value])
    (hopen : txn.committed = false) (hlsn : o.model.lsn < Lsn.max)
    (hvalues : ∀ key, ∀ current ∈ o.model.tree.latest key, current.isTombstone = false) :
    CallFits o (.commit txnId) := by
  intro txn' hget' _
  rw [hget] at hget'
  cases hget'
  refine ⟨hopen, hlsn, ?_⟩
  intro key'
  rw [hmutations]
  exact keyFits_put (hvalues key') key key' value

theorem meets_overwrite : Meets (Observed.step (.linear Nat)) CallFits .start overwrite := by
  refine ⟨fun _ hmem => (nomatch hmem), fun o₁ h₁ => ⟨trivial, fun o₂ h₂ => ⟨?_, fun o₃ h₃ => ⟨?_,
    fun o₄ h₄ => ⟨trivial, fun o₅ h₅ => ⟨?_, fun _ _ => trivial⟩⟩⟩⟩⟩⟩
  · cases h₁
    cases h₂
    exact callFits_commit rfl rfl rfl (by decide) fun _ _ hcurrent => (nomatch hcurrent)
  · cases h₁
    cases h₂
    cases h₃
    intro txn htxn
    rw [List.mem_singleton.mp htxn]
    decide
  · cases h₁
    cases h₂
    cases h₃
    cases h₄
    cases h₅
    refine callFits_commit rfl rfl rfl (by decide) ?_
    intro key current hcurrent
    have hput := (RefTree.sound_put (.linear Nat) RefTree.sound_new [107] [1] 0).2 key
    have hcurrent : (RefTree.new.put (.linear Nat) [107] [1] 0).latest key = some current := hcurrent
    rw [hput] at hcurrent
    split at hcurrent <;> cases hcurrent
    rfl

/-- The second value is read. -/
theorem get_eq_state_overwrite : ∃ o, run (Observed.step (.linear Nat)) .start overwrite = some o ∧
    o.model.get [107] = some [2] ∧ o.model.get [107] = o.journal.state [107] :=
  ⟨_, rfl, rfl, get_eq_state (.linear Nat) overwrite meets_overwrite rfl [107]⟩

def putTwice : List Call := [.beginTxn, .put 1 [107] [1], .put 1 [107] [2], .commit 1]

/-- The value of the first put stays, whichever of equal keys the search finds. -/
theorem first_put_wins : ¬ ∃ S : BinarySearch Nat, ∀ (calls : List Call) (o : Observed),
      run (Observed.step S) .start calls = some o → ∀ key, o.model.get key = o.journal.state key := by
  rintro ⟨S, hclaim⟩
  let puts : List PendingMutation := [.put [107] [1], .put [107] [2]]
  have hget : visible ((puts.foldl (PendingMutation.apply S 0) .new).latest [107]) = some [2] :=
    hclaim putTwice _ rfl [107]
  rw [(sound_foldl S RefTree.sound_new 0 puts).2] at hget
  exact absurd hget (by decide)

end Northstar.Refmodel
