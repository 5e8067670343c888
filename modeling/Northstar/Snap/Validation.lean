import Northstar.Db.Concurrency
import Northstar.Lib.HashMap
import Mathlib.Data.UInt

/-!
# Validation — the checks of a snapshot registry

`snap/validation.rs` over `snap/registry.rs`, for calls one after another.  The validator wants a snapshot with
id 0; a registry of a database that is reopened has only the latest one.
-/

namespace Northstar

open HashMap

/-- `HashMap<TransactionId, PageId>`. -/
abbrev Snapshots := AList fun _ : UInt64 => PageId

namespace SnapshotValidator

def validateGenesisExists (snapshots : Snapshots) : Except Error Unit :=
  match snapshots.lookup 0 with
  | none => .error (.validation (.generic "Genesis snapshot (txn_id 0) does not exist"))
  | some genesisPageId =>
    if ¬ genesisPageId.isDataPage then .error (.validation (.invalidChildPageId genesisPageId)) else .ok ()

/-- "HashMap guarantees no duplicate keys, so this is always valid". -/
def validateNoDuplicates (_snapshots : Snapshots) : Except Error Unit := .ok ()

def validatePageId (e : Sigma fun _ : UInt64 => PageId) : Except Error Unit :=
  if ¬ e.2.isDataPage then
    .error (.validation (.generic ("Invalid page ID " ++ toString e.2 ++ " for txn_id " ++ toString e.1 ++
      " (must be >= 2)")))
  else .ok ()

def validatePageIds (order : Iteration UInt64 PageId) (snapshots : Snapshots) : Except Error Unit :=
  (order.order snapshots).forM validatePageId

def validateMonotonicCurrent (snapshots : Snapshots) (currentTxnId : UInt64) : Except Error Unit :=
  match snapshots.keys.max? with
  | none => .error (.validation (.generic "Snapshot registry is empty"))
  | some maxTxnId =>
    if currentTxnId ≠ maxTxnId then
      .error (.validation (.generic ("Current txn_id " ++ toString currentTxnId ++
        " is not equal to maximum txn_id " ++ toString maxTxnId)))
    else .ok ()

/-- The ids are sorted, and gaps are allowed. -/
def validateOrdering (_snapshots : Snapshots) : Except Error Unit := .ok ()

def validateRegistry (order : Iteration UInt64 PageId) (snapshots : Snapshots) (currentTxnId : UInt64) :
    Except Error Unit := do
  validateGenesisExists snapshots
  validateNoDuplicates snapshots
  validatePageIds order snapshots
  validateMonotonicCurrent snapshots currentTxnId
  validateOrdering snapshots

variable {order : Iteration UInt64 PageId} {snapshots : Snapshots} {currentTxnId : UInt64}

theorem validateGenesisExists_eq_ok : validateGenesisExists snapshots = .ok () ↔
    ∃ genesisPageId, snapshots.lookup 0 = some genesisPageId ∧ genesisPageId.isDataPage := by
  unfold validateGenesisExists
  cases snapshots.lookup 0 with
  | none => simp
  | some genesisPageId => by_cases hpage : genesisPageId.isDataPage <;> simp [hpage]

theorem validatePageIds_eq_ok : validatePageIds order snapshots = .ok () ↔
    ∀ txnId pageId, snapshots.lookup txnId = some pageId → pageId.isDataPage := by
  unfold validatePageIds
  rw [Except.forM_eq_ok_iff]
  have hentry : ∀ e : Sigma fun _ : UInt64 => PageId, validatePageId e = .ok () ↔ e.2.isDataPage := by
    intro e
    unfold validatePageId
    by_cases hpage : e.2.isDataPage <;> simp [hpage]
  constructor
  · intro h txnId pageId hlookup
    exact (hentry ⟨txnId, pageId⟩).mp (h _ ((order.perm snapshots).mem_iff.mpr (mem_of_lookup hlookup)))
  · intro h e he
    exact (hentry e).mpr (h e.1 e.2 (lookup_of_mem ((order.perm snapshots).mem_iff.mp he)))

theorem lawfulOrderMax : Std.LawfulOrderMax UInt64 where
  max_le_iff a b c := by
    show (if a ≤ b then b else a) ≤ c ↔ _
    split
    next hle => exact ⟨fun hb => ⟨UInt64.le_trans hle hb, hb⟩, fun h => h.2⟩
    next hlt => exact ⟨fun ha => ⟨ha, UInt64.le_trans (UInt64.le_of_lt (UInt64.not_le.mp hlt)) ha⟩, fun h => h.1⟩
  max_eq_or a b := by
    show (if a ≤ b then b else a) = a ∨ (if a ≤ b then b else a) = b
    split
    · exact .inr rfl
    · exact .inl rfl

theorem max?_keys_eq_some {maxTxnId : UInt64} : snapshots.keys.max? = some maxTxnId ↔
    (snapshots.lookup maxTxnId).isSome ∧ ∀ txnId, (snapshots.lookup txnId).isSome → txnId ≤ maxTxnId := by
  have := lawfulOrderMax
  rw [List.max?_eq_some_iff]
  simp only [AList.lookup_isSome, AList.mem_keys]

theorem validateMonotonicCurrent_eq_ok : validateMonotonicCurrent snapshots currentTxnId = .ok () ↔
    (snapshots.lookup currentTxnId).isSome ∧ ∀ txnId, (snapshots.lookup txnId).isSome → txnId ≤ currentTxnId := by
  rw [← max?_keys_eq_some]
  unfold validateMonotonicCurrent
  cases snapshots.keys.max? with
  | none => simp
  | some maxTxnId => by_cases heq : currentTxnId = maxTxnId <;> simp [heq, eq_comm]

theorem validateRegistry_eq_ok : validateRegistry order snapshots currentTxnId = .ok () ↔
    (snapshots.lookup 0).isSome ∧ (∀ txnId pageId, snapshots.lookup txnId = some pageId → pageId.isDataPage) ∧
      (snapshots.lookup currentTxnId).isSome ∧
      ∀ txnId, (snapshots.lookup txnId).isSome → txnId ≤ currentTxnId := by
  unfold validateRegistry
  simp only [Except.check_bind_eq_ok_iff, validateGenesisExists_eq_ok, validatePageIds_eq_ok,
    validateMonotonicCurrent_eq_ok, validateNoDuplicates, validateOrdering, true_and, and_true]
  constructor
  · rintro ⟨⟨genesisPageId, hgenesis, -⟩, hpages, hcurrent, hgreatest⟩
    rw [hgenesis]
    exact ⟨rfl, hpages, hcurrent, hgreatest⟩
  · rintro ⟨hgenesis, hpages, hcurrent, hgreatest⟩
    rcases Option.isSome_iff_exists.mp hgenesis with ⟨genesisPageId, hgenesis⟩
    exact ⟨⟨genesisPageId, hgenesis, hpages 0 genesisPageId hgenesis⟩, hpages, hcurrent, hgreatest⟩

end SnapshotValidator

namespace RegistryData

/-- The map behind the bindings. -/
def getAllSnapshots (data : RegistryData) : Snapshots := data.snapshots.foldr (fun e m => m.insert e.1 e.2) ∅

theorem lookup_getAllSnapshots (data : RegistryData) (txnId : UInt64) :
    data.getAllSnapshots.lookup txnId = data.getSnapshotRoot txnId := by
  unfold getAllSnapshots getSnapshotRoot
  induction data.snapshots with
  | nil => rfl
  | cons e snapshots ih =>
    rw [List.foldr_cons, List.lookup_cons]
    by_cases heq : txnId = e.1
    · rw [heq, AList.lookup_insert, beq_self_eq_true]
    · rw [AList.lookup_insert_ne heq, ih, beq_false_of_ne heq]

theorem Consistent.validateRegistry_eq_ok {data : RegistryData} (h : data.Consistent) (order : Iteration UInt64 PageId) :
    SnapshotValidator.validateRegistry order data.getAllSnapshots data.currentTxnId = .ok () ↔
      (data.getSnapshotRoot 0).isSome := by
  rw [SnapshotValidator.validateRegistry_eq_ok]
  simp only [lookup_getAllSnapshots]
  exact ⟨fun h => h.1, fun hgenesis => ⟨hgenesis, h.dataPages, h.registered, h.greatest⟩⟩

end RegistryData

namespace SnapshotRegistry

def new (pager : Pager) : SnapshotRegistry where
  concurrency := RegistryData.withTxnId PageId.firstData 0
  pager := pager

def withGenesis (pager : Pager) (genesisPageId : PageId) : SnapshotRegistry := withTxnId pager genesisPageId 0

def getAllSnapshots (registry : SnapshotRegistry) : Snapshots := registry.concurrency.getAllSnapshots

def getCurrentTxnId (registry : SnapshotRegistry) : UInt64 := registry.concurrency.currentTxnId

/-- The ways to create a registry. -/
inductive Creation where
  | new
  | withGenesis (genesisPageId : PageId)
  | withTxnId (genesisPageId : PageId) (currentTxnId : UInt64)
  deriving Repr, DecidableEq

def create (pager : Pager) : Creation → SnapshotRegistry
  | .new => new pager
  | .withGenesis genesisPageId => withGenesis pager genesisPageId
  | .withTxnId genesisPageId currentTxnId => withTxnId pager genesisPageId currentTxnId

def Creation.rootPageId : Creation → PageId
  | new => PageId.firstData
  | withGenesis genesisPageId | withTxnId genesisPageId _ => genesisPageId

def Creation.currentTxnId : Creation → UInt64
  | new | withGenesis _ => 0
  | withTxnId _ currentTxnId => currentTxnId

/-- A call that returns an error leaves the registry as it is. -/
def call (registry : SnapshotRegistry) (snapshot : UInt64 × PageId) : SnapshotRegistry :=
  match registry.registerSnapshot snapshot.1 snapshot.2 with
  | .ok registry' => registry'
  | .error _ => registry

/-- One `register_snapshot` after another. -/
def registerAll (registry : SnapshotRegistry) (calls : List (UInt64 × PageId)) : SnapshotRegistry :=
  calls.foldl call registry

variable {registry : SnapshotRegistry}

theorem create_eq (pager : Pager) (creation : Creation) :
    create pager creation = withTxnId pager creation.rootPageId creation.currentTxnId := by
  cases creation <;> rfl

theorem call_cases (registry : SnapshotRegistry) (snapshot : UInt64 × PageId) :
    registry.call snapshot = registry ∨
      snapshot.2.isDataPage ∧ registry.getCurrentTxnId < snapshot.1 ∧
        (registry.call snapshot).concurrency = registry.concurrency.register snapshot.1 snapshot.2 := by
  unfold call registerSnapshot
  by_cases hpage : snapshot.2 < 2
  · rw [if_pos hpage]
    exact .inl rfl
  rw [if_neg hpage]
  by_cases hsome : (registry.concurrency.getSnapshotRoot snapshot.1).isSome
  · rw [if_pos hsome]
    exact .inl rfl
  rw [if_neg hsome]
  by_cases hle : snapshot.1 ≤ registry.concurrency.currentTxnId
  · rw [if_pos hle]
    exact .inl rfl
  rw [if_neg hle]
  exact .inr ⟨decide_eq_true (UInt64.not_lt.mp hpage), UInt64.not_le.mp hle, rfl⟩

/-- The registry is consistent, and its genesis snapshot is the one it was created with. -/
structure Follows (registry : SnapshotRegistry) (currentTxnId : UInt64) : Prop where
  consistent : registry.concurrency.Consistent
  genesis : (registry.concurrency.getSnapshotRoot 0).isSome ↔ currentTxnId = 0

variable {currentTxnId : UInt64}

theorem Follows.call (h : registry.Follows currentTxnId) (snapshot : UInt64 × PageId) :
    (registry.call snapshot).Follows currentTxnId := by
  rcases call_cases registry snapshot with hsame | ⟨hpage, hlt, hregister⟩
  · rw [hsame]
    exact h
  · constructor
    · rw [hregister]
      exact (h.consistent.register hpage).1
    · -- an id above the current one is not 0
      have hne : (0 : UInt64) ≠ snapshot.1 := by
        intro heq
        rw [← heq, UInt64.lt_iff_toNat_lt] at hlt
        exact absurd hlt (Nat.not_lt_zero _)
      rw [hregister, RegistryData.getSnapshotRoot_register_eq, if_neg hne]
      exact h.genesis

theorem Follows.registerAll (h : registry.Follows currentTxnId)
    (calls : List (UInt64 × PageId)) : (registry.registerAll calls).Follows currentTxnId := by
  induction calls generalizing registry with
  | nil => exact h
  | cons snapshot calls ih => exact ih (h.call snapshot)

theorem follows_create (pager : Pager) {creation : Creation} (hpage : creation.rootPageId.isDataPage) :
    (create pager creation).Follows creation.currentTxnId := by
  rw [create_eq]
  refine ⟨RegistryData.consistent_withTxnId hpage _, ?_⟩
  show (List.lookup 0 [(creation.currentTxnId, creation.rootPageId)]).isSome ↔ _
  rw [List.lookup_cons]
  by_cases heq : (0 : UInt64) = creation.currentTxnId
  · rw [← heq]
    exact iff_of_true rfl rfl
  · rw [beq_false_of_ne heq]
    exact iff_of_false Bool.false_ne_true (Ne.symm heq)

theorem Follows.validateRegistry_eq_ok (h : registry.Follows currentTxnId)
    (order : Iteration UInt64 PageId) :
    SnapshotValidator.validateRegistry order registry.getAllSnapshots registry.getCurrentTxnId = .ok () ↔
      currentTxnId = 0 :=
  (h.consistent.validateRegistry_eq_ok order).trans h.genesis

/-- The validator accepts a registry after any calls exactly if it was created with id 0. -/
theorem validated_iff (order : Iteration UInt64 PageId) (pager : Pager) (creation : Creation)
    (hpage : creation.rootPageId.isDataPage) (calls : List (UInt64 × PageId)) :
    SnapshotValidator.validateRegistry order ((create pager creation).registerAll calls).getAllSnapshots
        ((create pager creation).registerAll calls).getCurrentTxnId = .ok () ↔
      creation.currentTxnId = 0 :=
  ((follows_create pager hpage).registerAll calls).validateRegistry_eq_ok order

def emptyPager : Pager := Pager.initial (fun _ => 0) []

/-- The entries as the map has them. -/
def inOrder : Iteration UInt64 PageId := ⟨fun m => m.entries, fun _ => List.Perm.refl _⟩

theorem validated_new : SnapshotValidator.validateRegistry inOrder
    ((create emptyPager .new).registerAll [(1, 10), (5, 11)]).getAllSnapshots
      ((create emptyPager .new).registerAll [(1, 10), (5, 11)]).getCurrentTxnId = .ok () :=
  (validated_iff inOrder emptyPager .new (by decide) [(1, 10), (5, 11)]).mpr rfl

/-- A database that is reopened at id 5: its registry has no snapshot with id 0. -/
theorem reopened_not_validated :
    ¬ ∀ (order : Iteration UInt64 PageId) (pager : Pager) (creation : Creation), creation.rootPageId.isDataPage →
      ∀ calls, SnapshotValidator.validateRegistry order ((create pager creation).registerAll calls).getAllSnapshots
        ((create pager creation).registerAll calls).getCurrentTxnId = .ok () := by
  intro hclaim
  have hreopened := hclaim inOrder emptyPager (.withTxnId 2 5) (by decide) []
  have hfollows : (create emptyPager (.withTxnId 2 5)).Follows 5 := follows_create emptyPager (by decide)
  exact absurd ((hfollows.validateRegistry_eq_ok inOrder).mp hreopened) (by decide)

end SnapshotRegistry

end Northstar
