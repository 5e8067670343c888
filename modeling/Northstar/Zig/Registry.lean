import Northstar.Zig.Db

/-!
# Registry — the snapshots that can still be read

`snapshot.zig`.  Every id in the registry is at most the current one, so its keys are found below that.
A cleanup measures how old a snapshot is by the distance of its id from the current one, not by how many
snapshots came after it.
-/

namespace Northstar.Zig

namespace SnapshotRegistry

/-- The ids that have a snapshot, in ascending order. -/
def ids (r : SnapshotRegistry) : List Nat :=
  (List.range (r.currentTxnId + 1)).filter fun txnId => (r.snapshots txnId).isSome

def removes (r : SnapshotRegistry) (keepTxns keepCount txnId : Nat) : Prop :=
  let cutoffTxnId := if r.currentTxnId > keepTxns then r.currentTxnId - keepTxns else 0
  -- genesis is never removed
  txnId ≠ 0 ∧ r.currentTxnId - txnId ≥ keepCount ∧ (keepTxns = 0 ∨ txnId < cutoffTxnId)

instance (r : SnapshotRegistry) (keepTxns keepCount txnId : Nat) :
    Decidable (r.removes keepTxns keepCount txnId) :=
  inferInstanceAs (Decidable (_ ∧ _ ∧ _))

def cleanupOldSnapshots (r : SnapshotRegistry) (keepTxns keepCount : Nat) : SnapshotRegistry × Nat :=
  if r.ids.length ≤ keepCount then (r, 0)
  else
    let toRemove := r.ids.filter fun txnId => r.removes keepTxns keepCount txnId
    ({ r with snapshots := fun txnId => if txnId ∈ toRemove then none else r.snapshots txnId },
      toRemove.length)

inductive Call where
  | register (txnId rootPageId : Nat)
  | cleanup (keepTxns keepCount : Nat)

def call (r : SnapshotRegistry) : Call → SnapshotRegistry
  | .register txnId rootPageId => r.registerSnapshot txnId rootPageId
  | .cleanup keepTxns keepCount => (r.cleanupOldSnapshots keepTxns keepCount).1

variable {r : SnapshotRegistry} {txnId : Nat}

theorem mem_ids : txnId ∈ r.ids ↔ txnId ≤ r.currentTxnId ∧ (r.snapshots txnId).isSome := by
  unfold ids
  rw [List.mem_filter, List.mem_range, Nat.lt_succ_iff]

/-- Where the ids are bounded by the current one, `ids` has all keys of the map. -/
def Bounded (r : SnapshotRegistry) : Prop :=
  ∀ txnId, (r.snapshots txnId).isSome → txnId ≤ r.currentTxnId

theorem mem_ids_of_bounded (h : r.Bounded) : txnId ∈ r.ids ↔ (r.snapshots txnId).isSome := by
  rw [mem_ids]
  exact ⟨fun hmem => hmem.2, fun hsome => ⟨h txnId hsome, hsome⟩⟩

theorem currentTxnId_le_call (r : SnapshotRegistry) (c : Call) :
    r.currentTxnId ≤ (r.call c).currentTxnId := by
  cases c with
  | register txnId rootPageId =>
    show r.currentTxnId ≤ (r.registerSnapshot txnId rootPageId).currentTxnId
    unfold registerSnapshot
    by_cases hold : txnId ≤ r.currentTxnId
    · rw [if_pos hold]
    · rw [if_neg hold]
      exact Nat.le_of_not_le hold
  | cleanup keepTxns keepCount =>
    show r.currentTxnId ≤ (r.cleanupOldSnapshots keepTxns keepCount).1.currentTxnId
    unfold cleanupOldSnapshots
    split
    · exact Nat.le_refl _
    · exact Nat.le_refl _

theorem snapshots_cleanup (r : SnapshotRegistry) (keepTxns keepCount txnId : Nat) :
    (r.call (.cleanup keepTxns keepCount)).snapshots txnId =
      if keepCount < r.ids.length ∧ txnId ∈ r.ids ∧ r.removes keepTxns keepCount txnId then none
      else r.snapshots txnId := by
  show (r.cleanupOldSnapshots keepTxns keepCount).1.snapshots txnId = _
  unfold cleanupOldSnapshots
  by_cases hfew : r.ids.length ≤ keepCount
  · rw [if_pos hfew, if_neg (fun h => absurd h.1 (Nat.not_lt.mpr hfew))]
  · rw [if_neg hfew]
    dsimp only
    have hmany : keepCount < r.ids.length := Nat.lt_of_not_le hfew
    have hfilter : (txnId ∈ r.ids.filter fun txnId => r.removes keepTxns keepCount txnId) ↔
        txnId ∈ r.ids ∧ r.removes keepTxns keepCount txnId := by
      rw [List.mem_filter, decide_eq_true_iff]
    by_cases hmem : txnId ∈ r.ids ∧ r.removes keepTxns keepCount txnId
    · rw [if_pos (hfilter.mpr hmem), if_pos ⟨hmany, hmem⟩]
    · rw [if_neg (fun h => hmem (hfilter.mp h)), if_neg (fun h => hmem h.2)]

theorem snapshots_call (hold : txnId ≤ r.currentTxnId) (c : Call) :
    (r.call c).snapshots txnId = r.snapshots txnId ∨ (r.call c).snapshots txnId = none := by
  cases c with
  | register newTxnId rootPageId =>
    left
    show (r.registerSnapshot newTxnId rootPageId).snapshots txnId = _
    unfold registerSnapshot
    by_cases hnew : newTxnId ≤ r.currentTxnId
    · rw [if_pos hnew]
    · rw [if_neg hnew]
      exact Function.update_of_ne (by omega) _ _
  | cleanup keepTxns keepCount =>
    rw [snapshots_cleanup]
    by_cases hremoved : keepCount < r.ids.length ∧ txnId ∈ r.ids ∧ r.removes keepTxns keepCount txnId
    · rw [if_pos hremoved]
      exact .inr rfl
    · rw [if_neg hremoved]
      exact .inl rfl

theorem bounded_call (h : r.Bounded) (c : Call) : (r.call c).Bounded := by
  cases c with
  | register newTxnId rootPageId =>
    show (r.registerSnapshot newTxnId rootPageId).Bounded
    unfold registerSnapshot
    by_cases hold : newTxnId ≤ r.currentTxnId
    · rw [if_pos hold]
      exact h
    · rw [if_neg hold]
      intro txnId hsome
      by_cases hsame : txnId = newTxnId
      · exact hsame.le
      · have hle := h txnId (by simpa [Function.update_of_ne hsame] using hsome)
        exact hle.trans (Nat.le_of_not_le hold)
  | cleanup keepTxns keepCount =>
    intro txnId hsome
    rw [snapshots_cleanup] at hsome
    split at hsome
    · cases hsome
    · exact (h txnId hsome).trans (r.currentTxnId_le_call _)

/-- The current snapshot can be looked up under the current id. -/
def HasCurrent (r : SnapshotRegistry) : Prop := r.snapshots r.currentTxnId = some r.currentRootPageId

theorem hasCurrent_call (h : r.HasCurrent) {c : Call}
    (hkeep : ∀ keepTxns keepCount, c = .cleanup keepTxns keepCount → 1 ≤ keepCount) :
    (r.call c).HasCurrent := by
  cases c with
  | register txnId rootPageId =>
    show (r.registerSnapshot txnId rootPageId).HasCurrent
    unfold registerSnapshot
    by_cases hold : txnId ≤ r.currentTxnId
    · rw [if_pos hold]
      exact h
    · rw [if_neg hold]
      exact Function.update_self ..
  | cleanup keepTxns keepCount =>
    have hpos := hkeep keepTxns keepCount rfl
    have hcurrent : (r.call (.cleanup keepTxns keepCount)).currentTxnId = r.currentTxnId ∧
        (r.call (.cleanup keepTxns keepCount)).currentRootPageId = r.currentRootPageId := by
      show (r.cleanupOldSnapshots keepTxns keepCount).1.currentTxnId = _ ∧
        (r.cleanupOldSnapshots keepTxns keepCount).1.currentRootPageId = _
      unfold cleanupOldSnapshots
      split
      · exact ⟨rfl, rfl⟩
      · exact ⟨rfl, rfl⟩
    unfold HasCurrent
    rw [hcurrent.1, hcurrent.2, snapshots_cleanup, if_neg]
    · exact h
    · rintro ⟨_, _, _, hfar, _⟩
      omega

def run (initialTxnId initialRootPageId : Nat) (calls : List Call) : SnapshotRegistry :=
  calls.foldl call (.init initialTxnId initialRootPageId)

def highest (r : SnapshotRegistry) (count : Nat) : List Nat := r.ids.reverse.take count

/-- What a registry promises over a run: the latest snapshot is found under the current id, a root that
has been returned is not replaced by another one, and a cleanup keeps the highest `keepCount` ids. -/
structure Sound (initialTxnId initialRootPageId : Nat) (calls : List Call) : Prop where
  latest : ∀ pre post, calls = pre ++ post →
    (run initialTxnId initialRootPageId pre).getSnapshotRoot
        (run initialTxnId initialRootPageId pre).getCurrentTxnId =
      some (run initialTxnId initialRootPageId pre).getLatestSnapshot
  stable : ∀ pre mid post txnId root root', calls = pre ++ mid ++ post →
    txnId ≤ (run initialTxnId initialRootPageId pre).getCurrentTxnId →
    (run initialTxnId initialRootPageId pre).getSnapshotRoot txnId = some root →
    (run initialTxnId initialRootPageId (pre ++ mid)).getSnapshotRoot txnId = some root' → root' = root
  kept : ∀ pre keepTxns keepCount post, calls = pre ++ .cleanup keepTxns keepCount :: post →
    ∀ txnId ∈ (run initialTxnId initialRootPageId pre).highest keepCount,
      (((run initialTxnId initialRootPageId pre).cleanupOldSnapshots keepTxns keepCount).1.getSnapshotRoot
        txnId).isSome

/-- The id is genesis, or close enough to the current one. -/
def Near (r : SnapshotRegistry) (keepTxns keepCount txnId : Nat) : Prop :=
  txnId = 0 ∨ r.currentTxnId < txnId + keepCount ∨ keepTxns ≠ 0 ∧ r.currentTxnId ≤ txnId + keepTxns

/-- A cleanup that does not remove any of the highest ids. -/
def Dense (r : SnapshotRegistry) (keepTxns keepCount : Nat) : Prop :=
  r.ids.length ≤ keepCount ∨ ∀ txnId ∈ r.highest keepCount, r.Near keepTxns keepCount txnId

theorem not_removes_iff {keepTxns keepCount : Nat} (hold : txnId ≤ r.currentTxnId) :
    ¬ r.removes keepTxns keepCount txnId ↔ r.Near keepTxns keepCount txnId := by
  unfold removes Near
  dsimp only
  by_cases hcutoff : r.currentTxnId > keepTxns
  · rw [if_pos hcutoff]
    omega
  · rw [if_neg hcutoff]
    omega

theorem getSnapshotRoot_of_le (hold : txnId ≤ r.currentTxnId) :
    r.getSnapshotRoot txnId = r.snapshots txnId := by
  unfold getSnapshotRoot
  rw [if_neg (Nat.not_lt.mpr hold)]

theorem kept_iff (r : SnapshotRegistry) (keepTxns keepCount : Nat) : (∀ txnId ∈ r.highest keepCount,
        ((r.cleanupOldSnapshots keepTxns keepCount).1.getSnapshotRoot txnId).isSome) ↔
      r.Dense keepTxns keepCount := by
  have hmem : ∀ txnId ∈ r.highest keepCount, txnId ∈ r.ids := fun txnId hhigh =>
    List.mem_reverse.mp (List.mem_of_mem_take hhigh)
  have hkept : ∀ txnId ∈ r.highest keepCount,
      (((r.cleanupOldSnapshots keepTxns keepCount).1.getSnapshotRoot txnId).isSome ↔
        ¬ (keepCount < r.ids.length ∧ r.removes keepTxns keepCount txnId)) := by
    intro txnId hhigh
    rcases mem_ids.mp (hmem txnId hhigh) with ⟨hold, hsome⟩
    have hold' : txnId ≤ (r.call (.cleanup keepTxns keepCount)).currentTxnId :=
      hold.trans (r.currentTxnId_le_call _)
    have hroot := getSnapshotRoot_of_le hold'
    rw [snapshots_cleanup] at hroot
    show ((r.call (.cleanup keepTxns keepCount)).getSnapshotRoot txnId).isSome ↔ _
    rw [hroot]
    by_cases hremoved : keepCount < r.ids.length ∧ r.removes keepTxns keepCount txnId
    · rw [if_pos ⟨hremoved.1, hmem txnId hhigh, hremoved.2⟩]
      exact ⟨(nomatch ·), fun h => absurd hremoved h⟩
    · rw [if_neg fun h => hremoved ⟨h.1, h.2.2⟩]
      exact ⟨fun _ => hremoved, fun _ => hsome⟩
  constructor
  · intro h
    by_cases hfew : r.ids.length ≤ keepCount
    · exact .inl hfew
    · refine .inr fun txnId hhigh => ?_
      apply (not_removes_iff (mem_ids.mp (hmem txnId hhigh)).1).mp
      intro hremoves
      exact (hkept txnId hhigh).mp (h txnId hhigh) ⟨Nat.lt_of_not_le hfew, hremoves⟩
  · intro hdense txnId hhigh
    apply (hkept txnId hhigh).mpr
    rintro ⟨hmany, hremoves⟩
    rcases hdense with hfew | hnear
    · omega
    · exact (not_removes_iff (mem_ids.mp (hmem txnId hhigh)).1).mpr (hnear txnId hhigh) hremoves

theorem snapshots_foldl (hold : txnId ≤ r.currentTxnId) (calls : List Call) :
    txnId ≤ (calls.foldl call r).currentTxnId ∧
      ((calls.foldl call r).snapshots txnId = r.snapshots txnId ∨
        (calls.foldl call r).snapshots txnId = none) := by
  induction calls generalizing r with
  | nil => exact ⟨hold, .inl rfl⟩
  | cons c calls ih =>
    rw [List.foldl_cons]
    rcases ih (hold.trans (r.currentTxnId_le_call c)) with ⟨hlast, hsnapshots⟩
    refine ⟨hlast, ?_⟩
    rcases hsnapshots with hsame | hnone
    · rw [hsame]
      exact snapshots_call hold c
    · exact .inr hnone

theorem snapshots_init (initialTxnId initialRootPageId txnId : Nat) :
    (init initialTxnId initialRootPageId).snapshots txnId =
      if txnId = 0 then some initialRootPageId else none := by
  show Function.update (fun _ => none) 0 (some initialRootPageId) txnId = _
  by_cases hzero : txnId = 0
  · rw [if_pos hzero, hzero, Function.update_self]
  · rw [if_neg hzero, Function.update_of_ne hzero]

theorem getSnapshotRoot_current (r : SnapshotRegistry) :
    r.getSnapshotRoot r.getCurrentTxnId = r.snapshots r.currentTxnId :=
  getSnapshotRoot_of_le (Nat.le_refl _)

theorem bounded_run (initialTxnId initialRootPageId : Nat) (calls : List Call) :
    (run initialTxnId initialRootPageId calls).Bounded := by
  have hinit : (init initialTxnId initialRootPageId).Bounded := by
    intro txnId hsome
    by_cases hzero : txnId = 0
    · rw [hzero]
      exact Nat.zero_le _
    · rw [snapshots_init, if_neg hzero] at hsome
      cases hsome
  exact List.foldlRecOn calls call hinit fun _ hr c _ => bounded_call hr c

theorem mem_ids_run {initialTxnId initialRootPageId : Nat} {calls : List Call} :
    txnId ∈ (run initialTxnId initialRootPageId calls).ids ↔
      ((run initialTxnId initialRootPageId calls).snapshots txnId).isSome :=
  mem_ids_of_bounded (bounded_run initialTxnId initialRootPageId calls)

theorem hasCurrent_run {initialRootPageId : Nat} {calls : List Call}
    (hkeep : ∀ keepTxns keepCount, .cleanup keepTxns keepCount ∈ calls → 1 ≤ keepCount) :
    (run 0 initialRootPageId calls).HasCurrent := by
  have hinit : (init 0 initialRootPageId).HasCurrent := snapshots_init 0 initialRootPageId 0
  apply List.foldlRecOn calls call hinit
  rintro r hr c hc
  apply hasCurrent_call hr
  rintro keepTxns keepCount rfl
  exact hkeep keepTxns keepCount hc

/-- A registry keeps its promises over a run if and only if it starts at transaction 0 and every cleanup
finds the highest ids near enough to the current one. -/
theorem sound_iff (initialTxnId initialRootPageId : Nat) (calls : List Call)
    (hkeep : ∀ keepTxns keepCount, .cleanup keepTxns keepCount ∈ calls → 1 ≤ keepCount) :
    Sound initialTxnId initialRootPageId calls ↔
      initialTxnId = 0 ∧ ∀ pre keepTxns keepCount post,
        calls = pre ++ .cleanup keepTxns keepCount :: post →
        (run initialTxnId initialRootPageId pre).Dense keepTxns keepCount := by
  constructor
  · intro hsound
    refine ⟨?_, fun pre keepTxns keepCount post hcalls =>
      (kept_iff _ keepTxns keepCount).mp (hsound.kept pre keepTxns keepCount post hcalls)⟩
    -- before the first call, only id 0 has a snapshot
    by_contra hne
    have hlatest := hsound.latest [] calls rfl
    have hnone : (run initialTxnId initialRootPageId []).getSnapshotRoot
        (run initialTxnId initialRootPageId []).getCurrentTxnId = none := by
      rw [getSnapshotRoot_current]
      exact (snapshots_init ..).trans (if_neg hne)
    rw [hnone] at hlatest
    cases hlatest
  · rintro ⟨rfl, hdense⟩
    constructor
    · rintro pre post rfl
      rw [getSnapshotRoot_current]
      apply hasCurrent_run
      intro keepTxns keepCount hmem
      exact hkeep keepTxns keepCount (List.mem_append_left _ hmem)
    · rintro pre mid post txnId root root' rfl hold hroot hroot'
      have hrun : run 0 initialRootPageId (pre ++ mid) =
          mid.foldl call (run 0 initialRootPageId pre) := List.foldl_append ..
      rcases snapshots_foldl hold mid with ⟨hlast, hsnapshots⟩
      rw [getSnapshotRoot_of_le hold] at hroot
      rw [hrun, getSnapshotRoot_of_le hlast] at hroot'
      rcases hsnapshots with hsame | hnone
      · rw [hsame, hroot] at hroot'
        exact (Option.some.inj hroot').symm
      · rw [hnone] at hroot'
        cases hroot'
    · intro pre keepTxns keepCount post hcalls
      exact (kept_iff _ keepTxns keepCount).mpr (hdense pre keepTxns keepCount post hcalls)

theorem sound_of_consecutive : Sound 0 7 [.register 1 8, .register 2 9, .cleanup 0 2] := by
  have hkeep : ∀ keepTxns keepCount,
      .cleanup keepTxns keepCount ∈ [Call.register 1 8, .register 2 9, .cleanup 0 2] → 1 ≤ keepCount := by
    intro keepTxns keepCount hmem
    simp only [List.mem_cons, reduceCtorEq, Call.cleanup.injEq, List.not_mem_nil, or_false,
      false_or] at hmem
    omega
  apply (sound_iff 0 7 [.register 1 8, .register 2 9, .cleanup 0 2] hkeep).mpr
  refine ⟨rfl, fun pre keepTxns keepCount post hcalls => ?_⟩
  rcases pre with _ | ⟨first, _ | ⟨second, _ | ⟨third, pre⟩⟩⟩
  · cases hcalls
  · cases hcalls
  · cases hcalls
    show _ ∨ ∀ txnId ∈ _, _ ∨ _
    decide
  · simp at hcalls

/-- With gaps between the ids, the second highest of them is removed although two are to be kept; and a
registry that starts at transaction 3 does not find its root under that id. -/
theorem second_highest_is_removed :
    ((run 0 4 [.register 1 5, .register 5 6, .register 10 7]).highest 2 = [10, 5] ∧
      (run 0 4 [.register 1 5, .register 5 6, .register 10 7, .cleanup 0 2]).getSnapshotRoot 5 = none) ∧
    (run 3 7 []).getSnapshotRoot (run 3 7 []).getCurrentTxnId ≠ some (run 3 7 []).getLatestSnapshot := by
  decide

end SnapshotRegistry

end Northstar.Zig
