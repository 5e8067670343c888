import Northstar.Lib.Greatest
import Northstar.Snap.Validation

/-!
# Cleanup — which snapshots may go

`snap/cleanup.rs`.  Every snapshot is looked at by itself, against the whole map.  That the map would become
smaller than `min_snapshots_to_keep` is only noticed when it is no larger before.
-/

namespace Northstar

open HashMap Highest

structure CleanupConfig where
  minSnapshotsToKeep : Nat
  minTxnIdGap : UInt64
  aggressive : Bool
  deriving Repr, DecidableEq

def CleanupConfig.custom (minSnapshotsToKeep : Nat) (minTxnIdGap : UInt64) : CleanupConfig where
  minSnapshotsToKeep := minSnapshotsToKeep
  minTxnIdGap := minTxnIdGap
  aggressive := false

/-- `HashMap<TransactionId, usize>`. -/
abbrev RefCounts := AList fun _ : UInt64 => Nat

/-- `ref_counts.get(&txn_id).copied().unwrap_or(0)`. -/
def RefCounts.count (refCounts : RefCounts) (txnId : UInt64) : Nat := (refCounts.lookup txnId).getD 0

def saturatingSub (a b : UInt64) : UInt64 := if b ≤ a then a - b else 0

namespace SnapshotCleanup

variable (config : CleanupConfig) (snapshots : Snapshots) (refCounts : RefCounts) (currentTxnId : UInt64)

def shouldKeepSnapshot (txnId : UInt64) : Bool :=
  if txnId = 0 then true
  else if refCounts.count txnId > 0 then true
  -- "Keep if within minimum snapshot count"
  else if snapshots.entries.length ≤ config.minSnapshotsToKeep then true
  else if saturatingSub currentTxnId txnId < config.minTxnIdGap then true
  else false

def identifyCleanupCandidates (order : Iteration UInt64 PageId) : List UInt64 :=
  ((order.order snapshots).map Sigma.fst).filter fun txnId =>
    !shouldKeepSnapshot config snapshots refCounts currentTxnId txnId

def removeAll (snapshots : Snapshots) (candidates : List UInt64) : Snapshots :=
  candidates.foldl (fun m txnId => m.erase txnId) snapshots

/-- The map that is left. -/
def remaining (order : Iteration UInt64 PageId) : Snapshots :=
  removeAll snapshots (identifyCleanupCandidates config snapshots refCounts currentTxnId order)

variable {config snapshots refCounts currentTxnId} {order : Iteration UInt64 PageId} {txnId : UInt64}

theorem toNat_saturatingSub (a b : UInt64) : (saturatingSub a b).toNat = a.toNat - b.toNat := by
  unfold saturatingSub
  split
  next hle => exact UInt64.toNat_sub_of_le a b hle
  next hlt =>
    have hlt := UInt64.lt_iff_toNat_lt.mp (UInt64.not_le.mp hlt)
    exact (Nat.sub_eq_zero_of_le (Nat.le_of_lt hlt)).symm

/-- The rules that look at the snapshot itself. -/
def Protected (config : CleanupConfig) (refCounts : RefCounts) (currentTxnId txnId : UInt64) : Prop :=
  txnId = 0 ∨ 0 < refCounts.count txnId ∨ currentTxnId.toNat - txnId.toNat < config.minTxnIdGap.toNat

theorem shouldKeepSnapshot_iff : shouldKeepSnapshot config snapshots refCounts currentTxnId txnId = true ↔
    snapshots.entries.length ≤ config.minSnapshotsToKeep ∨ Protected config refCounts currentTxnId txnId := by
  have hgap : saturatingSub currentTxnId txnId < config.minTxnIdGap ↔
      currentTxnId.toNat - txnId.toNat < config.minTxnIdGap.toNat := by
    rw [UInt64.lt_iff_toNat_lt, toNat_saturatingSub]
  unfold shouldKeepSnapshot Protected
  by_cases hgenesis : txnId = 0
  · simp [hgenesis]
  by_cases hcount : refCounts.count txnId > 0
  · simp [hcount]
  by_cases hsize : snapshots.entries.length ≤ config.minSnapshotsToKeep
  · simp [hsize]
  · simp only [hgenesis, hcount, hsize, if_false, hgap, false_or]
    split <;> simp [*]

theorem lookup_removeAll (snapshots : Snapshots) (candidates : List UInt64) (txnId : UInt64) :
    (removeAll snapshots candidates).lookup txnId = if txnId ∈ candidates then none else snapshots.lookup txnId := by
  unfold removeAll
  induction candidates generalizing snapshots with
  | nil => rfl
  | cons candidate candidates ih =>
    rw [List.foldl_cons, ih]
    by_cases heq : txnId = candidate
    · rw [heq, AList.lookup_erase, if_pos (List.mem_cons_self ..), ite_self]
    · rw [AList.lookup_erase_ne heq]
      simp only [List.mem_cons, heq, false_or]

theorem mem_remaining : txnId ∈ remaining config snapshots refCounts currentTxnId order ↔
    txnId ∈ snapshots ∧ shouldKeepSnapshot config snapshots refCounts currentTxnId txnId = true := by
  have hcandidate : txnId ∈ identifyCleanupCandidates config snapshots refCounts currentTxnId order ↔
      txnId ∈ snapshots ∧ shouldKeepSnapshot config snapshots refCounts currentTxnId txnId ≠ true := by
    unfold identifyCleanupCandidates
    rw [List.mem_filter, ((order.perm snapshots).map Sigma.fst).mem_iff, Bool.not_eq_true', Bool.eq_false_iff]
    rfl
  rw [← AList.lookup_isSome, ← AList.lookup_isSome]
  unfold remaining
  rw [lookup_removeAll]
  split
  next hgone => exact iff_of_false Bool.false_ne_true fun h => (hcandidate.mp hgone).2 h.2
  next hstays =>
    constructor
    · exact fun h => ⟨h, not_not.mp fun hne => hstays (hcandidate.mpr ⟨AList.lookup_isSome.mp h, hne⟩)⟩
    · exact fun h => h.1

def ids (snapshots : Snapshots) : Finset Nat := (snapshots.keys.map UInt64.toNat).toFinset

theorem mem_ids : txnId.toNat ∈ ids snapshots ↔ txnId ∈ snapshots := by
  unfold ids
  rw [List.mem_toFinset, List.mem_map]
  constructor
  · rintro ⟨txnId', hmem, heq⟩
    rw [← UInt64.toNat_inj.mp heq]
    exact AList.mem_keys.mpr hmem
  · exact fun hmem => ⟨txnId, AList.mem_keys.mp hmem, rfl⟩

theorem exists_of_mem_ids {n : Nat} (h : n ∈ ids snapshots) : ∃ txnId, txnId ∈ snapshots ∧ txnId.toNat = n := by
  rcases List.mem_map.mp (List.mem_toFinset.mp h) with ⟨txnId, hmem, heq⟩
  exact ⟨txnId, AList.mem_keys.mpr hmem, heq⟩

theorem card_ids (snapshots : Snapshots) : (ids snapshots).card = snapshots.entries.length := by
  have hnodup : (snapshots.keys.map UInt64.toNat).Nodup :=
    snapshots.keys_nodup.map fun _ _ heq => UInt64.toNat_inj.mp heq
  unfold ids
  rw [List.toFinset_card_of_nodup hnodup, List.length_map]
  exact List.length_map _

/-- The genesis snapshot stays, every snapshot with references, every snapshot within the gap, and at least
`min_snapshots_to_keep` snapshots, the most recent ones. -/
structure KeepsPromises (config : CleanupConfig) (snapshots : Snapshots) (refCounts : RefCounts)
    (currentTxnId : UInt64) (left : Snapshots) : Prop where
  genesis : 0 ∈ snapshots → 0 ∈ left
  referenced : ∀ txnId ∈ snapshots, 0 < refCounts.count txnId → txnId ∈ left
  withinGap : ∀ txnId ∈ snapshots, currentTxnId.toNat - txnId.toNat < config.minTxnIdGap.toNat → txnId ∈ left
  count : min config.minSnapshotsToKeep snapshots.entries.length ≤ left.entries.length
  recent : ∀ txnId ∈ snapshots,
    txnId.toNat ∈ highest (min config.minSnapshotsToKeep snapshots.entries.length) (ids snapshots) → txnId ∈ left

theorem count_of_recent {n : Nat} {left : Snapshots} (hn : n ≤ snapshots.entries.length)
    (h : ∀ txnId ∈ snapshots, txnId.toNat ∈ highest n (ids snapshots) → txnId ∈ left) :
    n ≤ left.entries.length := by
  have hsub : highest n (ids snapshots) ⊆ ids left := by
    intro m hm
    rcases exists_of_mem_ids (mem_highest.mp hm).1 with ⟨txnId, hmem, rfl⟩
    exact mem_ids.mpr (h txnId hmem hm)
  have hle := Finset.card_le_card hsub
  rw [card_highest, card_ids, card_ids, Nat.min_eq_left hn] at hle
  exact hle

/-- The promises are kept exactly if the map is small enough to stay as it is, or each of the most recent
snapshots stays by a rule of its own. -/
theorem promises_kept_iff (order : Iteration UInt64 PageId) (config : CleanupConfig) (snapshots : Snapshots)
    (refCounts : RefCounts) (currentTxnId : UInt64) :
    KeepsPromises config snapshots refCounts currentTxnId (remaining config snapshots refCounts currentTxnId order) ↔
      snapshots.entries.length ≤ config.minSnapshotsToKeep ∨
        ∀ txnId ∈ snapshots, txnId.toNat ∈ highest config.minSnapshotsToKeep (ids snapshots) →
          Protected config refCounts currentTxnId txnId := by
  have hleft : ∀ {txnId}, txnId ∈ snapshots → Protected config refCounts currentTxnId txnId →
      txnId ∈ remaining config snapshots refCounts currentTxnId order :=
    fun hmem hprotected => mem_remaining.mpr ⟨hmem, shouldKeepSnapshot_iff.mpr (.inr hprotected)⟩
  constructor
  · intro h
    by_cases hsize : snapshots.entries.length ≤ config.minSnapshotsToKeep
    · exact .inl hsize
    · right
      intro txnId hmem hrecent
      rw [← Nat.min_eq_left (Nat.le_of_not_le hsize)] at hrecent
      have hkeep := (mem_remaining.mp (h.recent txnId hmem hrecent)).2
      exact (shouldKeepSnapshot_iff.mp hkeep).resolve_left hsize
  · intro h
    have hrecent : ∀ txnId ∈ snapshots,
        txnId.toNat ∈ highest (min config.minSnapshotsToKeep snapshots.entries.length) (ids snapshots) →
          txnId ∈ remaining config snapshots refCounts currentTxnId order := by
      intro txnId hmem hhighest
      rcases h with hsize | hall
      · exact mem_remaining.mpr ⟨hmem, shouldKeepSnapshot_iff.mpr (.inl hsize)⟩
      · exact hleft hmem (hall txnId hmem (highest_mono (Nat.min_le_left _ _) hhighest))
    exact {
      genesis := fun hmem => hleft hmem (.inl rfl)
      referenced := fun txnId hmem hcount => hleft hmem (.inr (.inl hcount))
      withinGap := fun txnId hmem hgap => hleft hmem (.inr (.inr hgap))
      count := count_of_recent (Nat.min_le_right _ _) hrecent
      recent := hrecent }

def fourSnapshots : Snapshots := collect [(0, 2), (1, 3), (2, 4), (30, 5)]

theorem promises_not_kept :
    ¬ ∀ (order : Iteration UInt64 PageId) (config : CleanupConfig) (snapshots : Snapshots) (refCounts : RefCounts)
      (currentTxnId : UInt64), snapshots.keys.max? = some currentTxnId →
        KeepsPromises config snapshots refCounts currentTxnId
          (remaining config snapshots refCounts currentTxnId order) := by
  intro hclaim
  have hkept := hclaim SnapshotRegistry.inOrder (.custom 3 10) fourSnapshots ∅ 30 rfl
  have hcount : 3 ≤ (remaining (.custom 3 10) fourSnapshots ∅ 30 SnapshotRegistry.inOrder).entries.length := hkept.count
  exact absurd hcount (by decide)

end SnapshotCleanup

end Northstar
