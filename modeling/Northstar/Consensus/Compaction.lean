import Northstar.Consensus.Append

/-!
# Compaction — lookups in a log that was cut

A log is looked up by absolute index, and the list in memory is cut at its front by the leader and at
its end by a follower.  Neither leaves the entries beyond the snapshot where they are looked up.
-/

namespace Northstar.Consensus

open RaftPersistentState

/-- The entries beyond `s` are found as before, and the last index is that of the log, or `s`. -/
structure LookupsKept (before after : RaftPersistentState) (s : Nat) : Prop where
  entries : ∀ i, s < i → i ≤ before.log.length → after.getEntry i = before.getEntry i
  last : after.lastLogIndex = max before.log.length s

variable {s : Nat}

theorem LookupsKept.refl {p : RaftPersistentState} (hlog : Contiguous p.log)
    (hs : s ≤ p.log.length) : LookupsKept p p s := by
  constructor
  · exact fun _ _ _ => rfl
  · rw [hlog.lastLogIndex]
    omega

theorem LookupsKept.congr {before after after' : RaftPersistentState}
    (h : LookupsKept before after s) (hlog : after.log = after'.log) :
    LookupsKept before after' s := by
  constructor
  · intro i hi hle
    rw [← getEntry_congr hlog]
    exact h.entries i hi hle
  · rw [← h.last]
    unfold lastLogIndex
    rw [hlog]

theorem LookupsKept.length_le {before after : RaftPersistentState}
    (h : LookupsKept before after s) (hs : s < before.log.length) :
    before.log.length ≤ after.log.length := by
  rcases exists_getEntry (show 0 < before.log.length by omega) (le_refl _) with ⟨e, he⟩
  rw [← h.entries before.log.length hs (le_refl _)] at he
  exact (getEntry_bounds he).2

namespace Raft

variable {r : Raft}

theorem persistent_truncateLogAfterSnapshot {snap : Snapshot} (h : r.currentSnapshot = some snap) :
    r.truncateLogAfterSnapshot.persistent =
      { r.persistent with log := r.persistent.log.drop snap.lastIncludedIndex } := by
  unfold truncateLogAfterSnapshot
  rw [h]
  dsimp only
  by_cases hzero : snap.lastIncludedIndex = 0
  · rw [if_pos hzero, hzero]
    rfl
  · rw [if_neg hzero]

theorem lookupsKept_truncate_iff {snap : Snapshot} (hlog : Contiguous r.persistent.log)
    (hsnap : r.currentSnapshot = some snap)
    (hs : snap.lastIncludedIndex ≤ r.persistent.log.length) :
    LookupsKept r.persistent r.truncateLogAfterSnapshot.persistent snap.lastIncludedIndex ↔
      snap.lastIncludedIndex = 0 := by
  rw [persistent_truncateLogAfterSnapshot hsnap]
  constructor
  · intro h
    by_contra hzero
    by_cases hall : snap.lastIncludedIndex = r.persistent.log.length
    · have hlast := h.last
      rw [hall, List.drop_length] at hlast
      have hempty : max r.persistent.log.length r.persistent.log.length = 0 := hlast.symm
      omega
    · have hlength := h.length_le (by omega)
      rw [List.length_drop] at hlength
      omega
  · intro hzero
    rw [hzero]
    exact LookupsKept.refl hlog (Nat.zero_le _)

/-- The follower turns the snapshot down: the leader is behind in term, or the index is covered. -/
def Declines (r : Raft) (args : InstallSnapshotArgs) : Prop :=
  args.term < r.persistent.currentTerm ∨
    ∃ snap, r.currentSnapshot = some snap ∧
      args.snapshot.lastIncludedIndex ≤ snap.lastIncludedIndex

theorem currentSnapshot_observeTerm (r : Raft) (term : Nat) :
    (r.observeTerm term).currentSnapshot = r.currentSnapshot := by
  unfold observeTerm becomeFollower
  split
  · rfl
  · rfl

theorem covers_iff (r : Raft) (index : Nat) :
    (r.currentSnapshot.map (·.covers index)).getD false = true ↔
      ∃ snap, r.currentSnapshot = some snap ∧ index ≤ snap.lastIncludedIndex := by
  cases r.currentSnapshot with
  | none =>
    constructor
    · intro h
      cases h
    · rintro ⟨snap, h, -⟩
      cases h
  | some snap =>
    show decide (index ≤ snap.lastIncludedIndex) = true ↔ _
    rw [decide_eq_true_eq]
    constructor
    · exact fun h => ⟨snap, rfl, h⟩
    · rintro ⟨snap', h, hle⟩
      cases h
      exact hle

theorem log_handleInstallSnapshot (r : Raft) (args : InstallSnapshotArgs) :
    (r.Declines args ∧ (r.handleInstallSnapshot args).1.persistent.log = r.persistent.log) ∨
      (¬ r.Declines args ∧ (r.handleInstallSnapshot args).1.persistent.log =
        if args.snapshot.lastIncludedIndex > 0 then
          truncateFrom r.persistent.log args.snapshot.lastIncludedIndex
        else r.persistent.log) := by
  have hcovers := covers_iff r args.snapshot.lastIncludedIndex
  have hsame := log_observeTerm r args.term
  unfold handleInstallSnapshot
  by_cases hterm : args.term < r.persistent.currentTerm
  · rw [if_pos hterm]
    exact Or.inl ⟨Or.inl hterm, rfl⟩
  · rw [if_neg hterm]
    dsimp only
    rw [currentSnapshot_observeTerm]
    by_cases hcovered : (r.currentSnapshot.map (·.covers args.snapshot.lastIncludedIndex)).getD false =
        true
    · rw [if_pos hcovered]
      exact Or.inl ⟨Or.inr (hcovers.mp hcovered), hsame⟩
    · rw [if_neg hcovered]
      refine Or.inr ⟨?_, ?_⟩
      · rintro (hbehind | hold)
        · exact hterm hbehind
        · exact hcovered (hcovers.mpr hold)
      · rw [persistent_raiseCounters]
        dsimp only
        rw [hsame]

theorem lookupsKept_install_iff {args : InstallSnapshotArgs} (hlog : Contiguous r.persistent.log)
    (hs : args.snapshot.lastIncludedIndex < r.persistent.log.length) :
    LookupsKept r.persistent (r.handleInstallSnapshot args).1.persistent
        args.snapshot.lastIncludedIndex ↔
      r.Declines args ∨ args.snapshot.lastIncludedIndex = 0 := by
  rcases log_handleInstallSnapshot r args with ⟨hdeclines, hsame⟩ | ⟨htakes, hcut⟩
  · constructor
    · exact fun _ => Or.inl hdeclines
    · exact fun _ => (LookupsKept.refl hlog (le_of_lt hs)).congr hsame.symm
  · by_cases hzero : args.snapshot.lastIncludedIndex = 0
    · rw [if_neg (by omega)] at hcut
      constructor
      · exact fun _ => Or.inr hzero
      · exact fun _ => (LookupsKept.refl hlog (le_of_lt hs)).congr hcut.symm
    · rw [if_pos (Nat.pos_of_ne_zero hzero)] at hcut
      unfold truncateFrom at hcut
      rw [if_neg (Nat.not_le.mpr hs)] at hcut
      constructor
      · intro h
        -- the entries beyond the snapshot are the ones that are gone
        have hlength := h.length_le hs
        rw [hcut, List.length_take] at hlength
        omega
      · rintro (hdeclines | hnone)
        · exact absurd hdeclines htakes
        · exact absurd hnone hzero

/-- **Compaction.**  A leader that truncates its log behind a snapshot, and a follower that installs one
in front of its last entry, keep their lookups exactly if the snapshot is empty or turned down. -/
theorem compaction_keeps_lookups_iff {r : Raft} (hlog : Contiguous r.persistent.log) :
    (∀ snap, r.currentSnapshot = some snap → snap.lastIncludedIndex ≤ r.persistent.log.length →
      (LookupsKept r.persistent r.truncateLogAfterSnapshot.persistent snap.lastIncludedIndex ↔
        snap.lastIncludedIndex = 0)) ∧
    (∀ args : InstallSnapshotArgs,
      args.snapshot.lastIncludedIndex < r.persistent.log.length →
      (LookupsKept r.persistent (r.handleInstallSnapshot args).1.persistent
          args.snapshot.lastIncludedIndex ↔
        r.Declines args ∨ args.snapshot.lastIncludedIndex = 0)) :=
  ⟨fun _ hsnap hs => lookupsKept_truncate_iff hlog hsnap hs,
    fun _ hs => lookupsKept_install_iff hlog hs⟩

end Raft

def nodeOf (role : RaftState) (ids : List UInt64) (snap : Option Snapshot) : Raft where
  config := threeNodes 1 2 3
  role := role
  persistent := { currentTerm := 1, log := entriesOf ids }
  leaderState := if role = .leader then some (.init [2, 3] ids.length) else none
  currentSnapshot := snap
  clusterConfig := .initSingle [1, 2, 3]

/-- A snapshot of the entries up to `index`, and the request of leader 2 for it. -/
def snapshotTo (index : Nat) : Snapshot := ⟨index, 1, 7, 2⟩

def installTo (index : Nat) : InstallSnapshotArgs where
  term := 1
  leaderId := 2
  lastIncludedIndex := index
  lastIncludedTerm := 1
  snapshot := snapshotTo index

namespace Raft

/-- A snapshot of no entries cuts nothing, and neither does one that is covered. -/
theorem empty_snapshot_keeps_lookups :
    LookupsKept (nodeOf .leader [7, 9] (some (snapshotTo 0))).persistent
        (nodeOf .leader [7, 9] (some (snapshotTo 0))).truncateLogAfterSnapshot.persistent 0 ∧
      LookupsKept (nodeOf .follower [7, 9] (some (snapshotTo 1))).persistent
        ((nodeOf .follower [7, 9] (some (snapshotTo 1))).handleInstallSnapshot
          (installTo 1)).1.persistent 1 := by
  have hlog := contiguous_entriesOf [7, 9]
  constructor
  · exact ((@compaction_keeps_lookups_iff (nodeOf .leader [7, 9] _) hlog).1 (snapshotTo 0) rfl (by decide)).mpr rfl
  · exact ((@compaction_keeps_lookups_iff (nodeOf .follower [7, 9] _) hlog).2 (installTo 1) (by decide)).mpr
      (Or.inl (Or.inr ⟨snapshotTo 1, rfl, le_refl 1⟩))

/-- Entry 2 behind a snapshot of entry 1: the leader has it at position 0 and does not find it, the
follower has dropped it. -/
theorem compaction_loses_entry :
    Contiguous (nodeOf .leader [7, 9] (some (snapshotTo 1))).persistent.log ∧
      ((nodeOf .leader [7, 9] (some (snapshotTo 1))).truncateLogAfterSnapshot.persistent.log.map
        LogEntry.index) = [2] ∧
      (nodeOf .leader [7, 9] (some (snapshotTo 1))).truncateLogAfterSnapshot.persistent.getEntry 2 =
        none ∧
      ((nodeOf .follower [7, 9] none).handleInstallSnapshot (installTo 1)).1.persistent.getEntry 2 =
        none ∧
      ((nodeOf .follower [7, 9] none).handleInstallSnapshot (installTo 1)).1.persistent.lastLogIndex =
        1 := by
  exact ⟨contiguous_entriesOf [7, 9], by decide, by decide, by decide, by decide⟩

end Raft

end Northstar.Consensus
