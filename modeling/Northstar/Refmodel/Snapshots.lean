import Northstar.Lib.HashMap
import Northstar.Lib.Greatest
import Northstar.Refmodel.Commits
import Mathlib.Data.List.MinMax

/-!
# Snapshots — copies of the tree by LSN

`refmodel/snapshot.rs`, and the calls of `refmodel/mod.rs` that use it.  A snapshot is stored under the LSN it
was made at, and one that is made again at this LSN takes its place.  Only the 100 with the highest LSNs are
kept.
-/

namespace Northstar.Refmodel

open Bytes HashMap Highest

structure SnapshotRegistry where
  snapshots : AList fun _ : Lsn => RefTree
  maxSnapshots : Nat

variable {called : Finset Nat}

namespace SnapshotRegistry

def new : SnapshotRegistry := ⟨∅, 100⟩

/-- The loop of `add_snapshot`.  Every turn removes the snapshot with the smallest LSN, so that their number is
enough fuel. -/
def prune (max : Nat) : Nat → (AList fun _ : Lsn => RefTree) → AList fun _ : Lsn => RefTree
  | 0, snapshots => snapshots
  | fuel + 1, snapshots =>
    if snapshots.entries.length > max then
      match snapshots.keys.argmin UInt64.toNat with
      | none => snapshots
      | some oldest => prune max fuel (snapshots.erase oldest)
    else snapshots

def addSnapshot (r : SnapshotRegistry) (lsn : Lsn) (state : RefTree) : SnapshotRegistry :=
  let snapshots := r.snapshots.insert lsn state
  { r with snapshots := prune r.maxSnapshots snapshots.entries.length snapshots }

def getStateAt (r : SnapshotRegistry) (lsn : Lsn) : Option RefTree := r.snapshots.lookup lsn

def lsns (snapshots : AList fun _ : Lsn => RefTree) : Finset Nat := (snapshots.keys.map UInt64.toNat).toFinset

variable {snapshots : AList fun _ : Lsn => RefTree} {max fuel : Nat} {lsn other : Lsn} {state state' : RefTree}

theorem mem_lsns : lsn.toNat ∈ lsns snapshots ↔ lsn ∈ snapshots := by
  unfold lsns
  rw [List.mem_toFinset, List.mem_map]
  constructor
  · rintro ⟨other, hother, heq⟩
    rwa [← UInt64.toNat_inj.mp heq]
  · exact fun hmem => ⟨lsn, hmem, rfl⟩

theorem exists_of_mem_lsns {l : Nat} (h : l ∈ lsns snapshots) : ∃ lsn ∈ snapshots, lsn.toNat = l := by
  unfold lsns at h
  rw [List.mem_toFinset, List.mem_map] at h
  exact h

theorem card_lsns : (lsns snapshots).card = snapshots.entries.length := by
  unfold lsns
  rw [List.toFinset_card_of_nodup]
  · rw [List.length_map]
    exact List.length_map _
  · exact snapshots.keys_nodup.map fun a b hab => UInt64.toNat_inj.mp hab

theorem lsns_insert : lsns (snapshots.insert lsn state) = insert lsn.toNat (lsns snapshots) := by
  ext l
  rw [Finset.mem_insert]
  constructor
  · intro hl
    rcases exists_of_mem_lsns hl with ⟨found, hfound, rfl⟩
    rw [AList.mem_insert] at hfound
    exact hfound.imp (congrArg UInt64.toNat) mem_lsns.mpr
  · rintro (rfl | hl)
    · exact mem_lsns.mpr (AList.mem_insert _ |>.mpr (.inl rfl))
    · rcases exists_of_mem_lsns hl with ⟨found, hfound, rfl⟩
      exact mem_lsns.mpr (AList.mem_insert _ |>.mpr (.inr hfound))

theorem lsns_erase : lsns (snapshots.erase lsn) = (lsns snapshots).erase lsn.toNat := by
  ext l
  rw [Finset.mem_erase]
  constructor
  · intro hl
    rcases exists_of_mem_lsns hl with ⟨found, hfound, rfl⟩
    rw [AList.mem_erase] at hfound
    exact ⟨fun heq => hfound.1 (UInt64.toNat_inj.mp heq), mem_lsns.mpr hfound.2⟩
  · rintro ⟨hne, hl⟩
    rcases exists_of_mem_lsns hl with ⟨found, hfound, rfl⟩
    exact mem_lsns.mpr (AList.mem_erase.mpr ⟨fun heq => hne (congrArg UInt64.toNat heq), hfound⟩)

theorem prune_of_le (h : snapshots.entries.length ≤ max) : prune max fuel snapshots = snapshots := by
  cases fuel with
  | zero => rfl
  | succ fuel => exact if_neg (Nat.not_lt.mpr h)

theorem prune_of_eq_succ (h : snapshots.entries.length = max + 1) :
    ∃ oldest ∈ snapshots, (∀ l ∈ lsns snapshots, oldest.toNat ≤ l) ∧
      prune max snapshots.entries.length snapshots = snapshots.erase oldest := by
  have hsome : snapshots.keys.argmin UInt64.toNat ≠ none := by
    intro hnone
    rw [List.argmin_eq_none] at hnone
    have hlength : snapshots.entries.length = 0 := by
      have hkeys := congrArg List.length hnone
      rwa [show snapshots.keys.length = snapshots.entries.length from List.length_map _] at hkeys
    omega
  rcases Option.ne_none_iff_exists'.mp hsome with ⟨oldest, holdest⟩
  have hmem : oldest ∈ snapshots := List.argmin_mem holdest
  refine ⟨oldest, hmem, ?_, ?_⟩
  · intro l hl
    rcases exists_of_mem_lsns hl with ⟨lsn, hlsn, rfl⟩
    exact List.le_of_mem_argmin hlsn holdest
  · rcases Option.isSome_iff_exists.mp (AList.lookup_isSome.mpr hmem) with ⟨state, hstate⟩
    have hlength := length_erase hstate
    rw [h]
    show (if snapshots.entries.length > max then _ else _) = _
    rw [if_pos (by omega), holdest]
    exact prune_of_le (by omega)

theorem lookup_prune (h : (prune max fuel snapshots).lookup lsn = some state) :
    snapshots.lookup lsn = some state := by
  induction fuel generalizing snapshots with
  | zero => exact h
  | succ fuel ih =>
    unfold prune at h
    split at h
    · split at h
      · exact h
      next oldest _ =>
        have hkept := ih h
        by_cases heq : lsn = oldest
        · rw [heq, AList.lookup_erase] at hkept
          cases hkept
        · rwa [AList.lookup_erase_ne heq] at hkept
    · exact h

variable {r : SnapshotRegistry}

theorem getStateAt_addSnapshot (h : (r.addSnapshot lsn state).getStateAt other = some state') :
    (other = lsn ∧ state' = state) ∨ (other ≠ lsn ∧ r.getStateAt other = some state') := by
  have hinserted := lookup_prune h
  by_cases heq : other = lsn
  · rw [heq, AList.lookup_insert] at hinserted
    exact .inl ⟨heq, (Option.some.inj hinserted).symm⟩
  · rw [AList.lookup_insert_ne heq] at hinserted
    exact .inr ⟨heq, hinserted⟩

/-- The registry holds the highest of the LSNs it has been given, as long as no lower one follows. -/
theorem lsns_addSnapshot {n : Nat} (hmax : r.maxSnapshots = n + 1)
    (hheld : lsns r.snapshots = highest (n + 1) called) (hle : ∀ l ∈ called, l ≤ lsn.toNat) :
    lsns (r.addSnapshot lsn state).snapshots = highest (n + 1) (insert lsn.toNat called) := by
  have hcard : (highest (n + 1) called).card ≤ n + 1 := card_highest_le
  have hinsert : lsns (r.snapshots.insert lsn state) = insert lsn.toNat (highest (n + 1) called) := by
    rw [lsns_insert, hheld]
  unfold addSnapshot
  dsimp only
  rw [hmax]
  by_cases hagain : lsn.toNat ∈ called
  · -- a snapshot at this LSN is there, and is replaced
    have hmem : lsn.toNat ∈ highest (n + 1) called := by
      have hnone : {b ∈ called | lsn.toNat < b} = ∅ := Finset.filter_eq_empty_iff.mpr fun b hb => (hle b hb).not_gt
      rw [mem_highest, hnone, Finset.card_empty]
      exact ⟨hagain, n.succ_pos⟩
    rw [Finset.insert_eq_of_mem hmem] at hinsert
    rw [Finset.insert_eq_of_mem hagain, prune_of_le, hinsert]
    rw [← card_lsns, hinsert]
    exact hcard
  · have habove : ∀ l ∈ called, l < lsn.toNat := by
      intro l hl
      exact lt_of_le_of_ne (hle l hl) fun heq => hagain (heq ▸ hl)
    have hnew : lsn.toNat ∉ highest (n + 1) called := fun hmem => hagain (mem_highest.mp hmem).1
    have hlength : (r.snapshots.insert lsn state).entries.length = (highest (n + 1) called).card + 1 := by
      rw [← card_lsns, hinsert, Finset.card_insert_of_notMem hnew]
    rw [highest_insert habove]
    by_cases hroom : (highest (n + 1) called).card ≤ n
    · rw [prune_of_le (by omega), hinsert, highest_of_card_le hroom]
    · have hfull : (highest (n + 1) called).card = n + 1 := by omega
      have hover : (r.snapshots.insert lsn state).entries.length = n + 1 + 1 := by omega
      rcases prune_of_eq_succ hover with ⟨oldest, holdest, hmin, hprune⟩
      rw [hinsert] at hmin
      have hlower : ∀ l ∈ highest (n + 1) called, oldest.toNat ≤ l := fun l hl => hmin l (Finset.mem_insert_of_mem hl)
      -- the new LSN is not the smallest: the registry was full
      have hne : lsn.toNat ≠ oldest.toNat := by
        intro heq
        rcases Finset.card_pos.mp (show 0 < (highest (n + 1) called).card by omega) with ⟨l, hl⟩
        have h₁ := hlower l hl
        have h₂ := habove l (mem_highest.mp hl).1
        omega
      have hmem : oldest.toNat ∈ highest (n + 1) called := by
        have hin := mem_lsns.mpr holdest
        rw [hinsert, Finset.mem_insert] at hin
        exact hin.resolve_left hne.symm
      rw [hprune, lsns_erase, hinsert, highest_erase hfull hmem hlower, Finset.erase_insert_of_ne hne]

end SnapshotRegistry

/-- `RefModel` with the field that is left out there. -/
structure SnapshotModel where
  model : RefModel
  snapshots : SnapshotRegistry

inductive SnapshotCall where
  | call (c : Call)
  | createSnapshot
  deriving Repr, DecidableEq

def SnapshotCall.isCommit : SnapshotCall → Bool
  | .call (.commit _) => true
  | _ => false

namespace SnapshotModel

variable (S : BinarySearch Nat)

def new : SnapshotModel := ⟨.new, .new⟩

def get (m : SnapshotModel) (key : Bytes) : Option Bytes := m.model.get key

def getAt (m : SnapshotModel) (key : Bytes) (lsn : Lsn) : Option Bytes :=
  match m.snapshots.getStateAt lsn with
  | some snapshot => snapshot.get key
  | none => none

def currentLsn (m : SnapshotModel) : Lsn := m.model.lsn

def createSnapshot (m : SnapshotModel) : SnapshotModel × Lsn :=
  ({ m with snapshots := m.snapshots.addSnapshot m.model.lsn m.model.tree }, m.model.lsn)

def step (m : SnapshotModel) : SnapshotCall → SnapshotModel
  | .call c => { m with model := (m.model.call S c).1 }
  | .createSnapshot => m.createSnapshot.1

def run (m : SnapshotModel) (calls : List SnapshotCall) : SnapshotModel := calls.foldl (step S) m

/-- The LSNs that the calls of `create_snapshot` return. -/
def createdAt (m : SnapshotModel) : List SnapshotCall → List Lsn
  | [] => []
  | c :: calls =>
    match c with
    | .call _ => createdAt (m.step S c) calls
    | .createSnapshot => m.createSnapshot.2 :: createdAt (m.step S c) calls

end SnapshotModel

theorem withTransactions_frame (m : RefModel) (result : Except Error TransactionManager) :
    (m.withTransactions result).1.tree = m.tree ∧ (m.withTransactions result).1.lsn = m.lsn := by
  cases result with
  | ok transactions => exact ⟨rfl, rfl⟩
  | error e => exact ⟨rfl, rfl⟩

theorem call_cases (S : BinarySearch Nat) (m : RefModel) (c : Call) :
    ((m.call S c).1.tree = m.tree ∧ (m.call S c).1.lsn = m.lsn) ∨
      ((∃ txnId, c = .commit txnId) ∧ (m.call S c).1.lsn = nextOrSame m.lsn) := by
  cases c with
  | beginTxn => exact .inl ⟨rfl, rfl⟩
  | put txnId key value => exact .inl (withTransactions_frame m _)
  | delete txnId key => exact .inl (withTransactions_frame m _)
  | rollback txnId => exact .inl (withTransactions_frame m _)
  | commit txnId =>
    show ((m.commit S txnId).1.tree = _ ∧ (m.commit S txnId).1.lsn = _) ∨ _ ∧ (m.commit S txnId).1.lsn = _
    unfold RefModel.commit
    cases m.transactions.getTxn txnId with
    | error e => exact .inl ⟨rfl, rfl⟩
    | ok txn =>
      right
      dsimp only
      cases m.transactions.commit txnId with
      | ok transactions => exact ⟨⟨txnId, rfl⟩, rfl⟩
      | error e => exact ⟨⟨txnId, rfl⟩, rfl⟩

/-- What a snapshot at `s` must read: `g`, now if this is the LSN, and in the registry if it is there. -/
structure Frozen (s : Lsn) (g : Bytes → Option Bytes) (m : SnapshotModel) : Prop where
  le : s.toNat ≤ m.model.lsn.toNat
  now : s = m.model.lsn → ∀ key, m.get key = g key
  stored : ∀ state, m.snapshots.getStateAt s = some state → ∀ key, state.get key = g key

/-- What the registry holds after `create_snapshot` has been called at these LSNs. -/
structure Holds (called : Finset Nat) (m : SnapshotModel) : Prop where
  max : m.snapshots.maxSnapshots = 100
  held : SnapshotRegistry.lsns m.snapshots.snapshots = highest 100 called
  le : ∀ l ∈ called, l ≤ m.model.lsn.toNat

variable (S : BinarySearch Nat) {m : SnapshotModel}

theorem toNat_lsn_step (c : SnapshotCall) :
    m.model.lsn.toNat ≤ (m.step S c).model.lsn.toNat ∧ (m.model.lsn < Lsn.max →
      (m.step S c).model.lsn.toNat ≤ m.model.lsn.toNat + (if c.isCommit then 1 else 0)) := by
  cases c with
  | createSnapshot => exact ⟨Nat.le_refl _, fun _ => Nat.le_add_right _ _⟩
  | call c =>
    show _ ≤ (m.model.call S c).1.lsn.toNat ∧ (_ → (m.model.call S c).1.lsn.toNat ≤ _)
    rcases call_cases S m.model c with ⟨-, hlsn⟩ | ⟨⟨txnId, rfl⟩, hlsn⟩
    · rw [hlsn]
      exact ⟨Nat.le_refl _, fun _ => Nat.le_add_right _ _⟩
    · rw [hlsn]
      have hnext := toNat_nextOrSame m.model.lsn
      exact ⟨hnext.1, fun hlt => (hnext.2 hlt).le⟩

theorem frozen_step {s : Lsn} {g : Bytes → Option Bytes} {c : SnapshotCall} (h : Frozen s g m)
    (hlsn : m.model.lsn < Lsn.max) : Frozen s g (m.step S c) := by
  cases c with
  | createSnapshot =>
    refine ⟨h.le, h.now, ?_⟩
    intro state hstate
    rcases SnapshotRegistry.getStateAt_addSnapshot hstate with ⟨heq, rfl⟩ | ⟨-, hold⟩
    · exact h.now heq
    · exact h.stored state hold
  | call c =>
    have hle := (toNat_lsn_step (m := m) S (.call c)).1
    refine ⟨h.le.trans hle, ?_, h.stored⟩
    intro heq key
    rcases call_cases S m.model c with ⟨htree, hsame⟩ | ⟨-, hnext⟩
    · show (m.model.call S c).1.tree.get key = g key
      rw [htree]
      exact h.now (heq.trans hsame) key
    · -- the LSN is past that of the snapshot
      have hbelow := h.le
      rw [show s = (m.model.call S c).1.lsn from heq, hnext, (toNat_nextOrSame m.model.lsn).2 hlsn] at hbelow
      omega

theorem holds_step {c : SnapshotCall} (h : Holds called m) :
    Holds (match c with | .call _ => called | .createSnapshot => insert m.model.lsn.toNat called) (m.step S c) := by
  cases c with
  | createSnapshot =>
    refine ⟨h.max, SnapshotRegistry.lsns_addSnapshot h.max h.held h.le, ?_⟩
    intro l hl
    rcases Finset.mem_insert.mp hl with rfl | hl
    · exact Nat.le_refl _
    · exact h.le l hl
  | call c =>
    refine ⟨h.max, h.held, ?_⟩
    intro l hl
    exact (h.le l hl).trans (toNat_lsn_step S (.call c)).1

namespace SnapshotModel

theorem run_append (calls calls' : List SnapshotCall) :
    m.run S (calls ++ calls') = (m.run S calls).run S calls' := List.foldl_append

variable {calls : List SnapshotCall}

theorem toNat_lsn_run
    (hfew : m.model.lsn.toNat + calls.countP SnapshotCall.isCommit < Lsn.max.toNat) :
    (m.run S calls).model.lsn.toNat ≤ m.model.lsn.toNat + calls.countP SnapshotCall.isCommit := by
  induction calls generalizing m with
  | nil => exact Nat.le_add_right _ _
  | cons c calls ih =>
    rw [List.countP_cons] at hfew ⊢
    have hlsn : m.model.lsn < Lsn.max := UInt64.lt_iff_toNat_lt.mpr (by omega)
    have hstep := (toNat_lsn_step S c).2 hlsn
    have hrest := ih (m := m.step S c) (by omega)
    show ((m.step S c).run S calls).model.lsn.toNat ≤ _
    omega

theorem frozen_run {s : Lsn} {g : Bytes → Option Bytes} (h : Frozen s g m)
    (hfew : m.model.lsn.toNat + calls.countP SnapshotCall.isCommit < Lsn.max.toNat) :
    Frozen s g (m.run S calls) := by
  induction calls generalizing m with
  | nil => exact h
  | cons c calls ih =>
    rw [List.countP_cons] at hfew
    have hlsn : m.model.lsn < Lsn.max := UInt64.lt_iff_toNat_lt.mpr (by omega)
    have hstep := (toNat_lsn_step S c).2 hlsn
    exact ih (frozen_step S h hlsn) (by omega)

theorem holds_run (h : Holds called m) :
    Holds (called ∪ ((m.createdAt S calls).map UInt64.toNat).toFinset) (m.run S calls) := by
  induction calls generalizing m called with
  | nil =>
    show Holds (called ∪ ∅) m
    rwa [Finset.union_empty]
  | cons c calls ih =>
    have hstep := ih (holds_step S (c := c) h)
    cases c with
    | call c => exact hstep
    | createSnapshot =>
      show Holds (called ∪ (m.model.lsn.toNat :: (createdAt S _ calls).map UInt64.toNat).toFinset) _
      rwa [List.toFinset_cons, Finset.union_insert, ← Finset.insert_union]

theorem holds_new : Holds ∅ new := ⟨rfl, rfl, fun _ hl => absurd hl (Finset.notMem_empty _)⟩

theorem isSome_getStateAt (calls : List SnapshotCall) (lsn : Lsn) :
    ((run S new calls).snapshots.getStateAt lsn).isSome ↔
      lsn.toNat ∈ highest 100 ((createdAt S new calls).map UInt64.toNat).toFinset := by
  have hholds : Holds _ (run S new calls) := holds_run S holds_new
  rw [Finset.empty_union] at hholds
  rw [← hholds.held, SnapshotRegistry.mem_lsns]
  exact AList.lookup_isSome

end SnapshotModel

/-- A snapshot reads what the model read when it was made, until 100 higher ones have been made. -/
theorem getAt_eq (calls : List SnapshotCall) (hfew : calls.countP SnapshotCall.isCommit < 2 ^ 64 - 1) :
    (∀ lsn, ((SnapshotModel.new.run S calls).snapshots.getStateAt lsn).isSome ↔
      lsn.toNat ∈ highest 100 ((SnapshotModel.new.createdAt S calls).map UInt64.toNat).toFinset) ∧
    ∀ before after, calls = before ++ .createSnapshot :: after → ∀ key,
      (SnapshotModel.new.run S calls).getAt key (SnapshotModel.new.run S before).createSnapshot.2 =
        if (SnapshotModel.new.run S before).createSnapshot.2.toNat ∈
            highest 100 ((SnapshotModel.new.createdAt S calls).map UInt64.toNat).toFinset then
          (SnapshotModel.new.run S before).get key
        else none := by
  have hholds := SnapshotModel.isSome_getStateAt S calls
  refine ⟨hholds, ?_⟩
  rintro before after rfl key
  rw [List.countP_append, List.countP_cons] at hfew
  let made := SnapshotModel.new.run S before
  have hmade : made.model.lsn.toNat ≤ 0 + before.countP SnapshotCall.isCommit :=
    SnapshotModel.toNat_lsn_run S (show 0 + _ < 2 ^ 64 - 1 by omega)
  -- what the snapshot must read is fixed when it is made
  have hfrozen : Frozen made.createSnapshot.2 made.get made.createSnapshot.1 := by
    refine ⟨Nat.le_refl _, fun _ _ => rfl, ?_⟩
    intro state hstate
    rcases SnapshotRegistry.getStateAt_addSnapshot hstate with ⟨-, rfl⟩ | ⟨hne, -⟩
    · exact fun _ => rfl
    · exact absurd rfl hne
  have hlater : Frozen made.createSnapshot.2 made.get (made.createSnapshot.1.run S after) :=
    SnapshotModel.frozen_run S hfrozen (show made.model.lsn.toNat + _ < 2 ^ 64 - 1 by omega)
  have hrun : SnapshotModel.new.run S (before ++ .createSnapshot :: after) = made.createSnapshot.1.run S after :=
    SnapshotModel.run_append S before _
  rw [hrun] at hholds ⊢
  unfold SnapshotModel.getAt
  split
  next state hstate =>
    rw [if_pos ((hholds _).mp (by rw [hstate]; rfl))]
    exact hlater.stored state hstate key
  next hstate => rw [if_neg (mt (hholds _).mpr (by rw [hstate]; exact Bool.false_ne_true))]

def overwrittenAfter : List SnapshotCall :=
  [.call .beginTxn, .call (.put 1 [107] [1]), .call (.commit 1), .createSnapshot, .call .beginTxn,
    .call (.put 2 [107] [2]), .call (.commit 2)]

theorem getAt_overwrittenAfter :
    (SnapshotModel.new.run (.linear Nat) overwrittenAfter).getAt [107] 1 = some [1] ∧
      (SnapshotModel.new.run (.linear Nat) overwrittenAfter).get [107] = some [2] := by
  have hcalls : overwrittenAfter = overwrittenAfter.take 3 ++ .createSnapshot :: overwrittenAfter.drop 4 := rfl
  have hget := (getAt_eq (.linear Nat) overwrittenAfter (by decide)).2 _ _ hcalls [107]
  rw [if_pos (by decide)] at hget
  exact ⟨hget, rfl⟩

end Northstar.Refmodel
