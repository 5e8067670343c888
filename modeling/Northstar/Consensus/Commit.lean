import Northstar.Consensus.Cluster

/-!
# Commit — what committing, applying and sending do to a node

The loops of `updateCommitIndex`, `applyCommittedEntries` and `leaderLoop` on a numbered log without
configuration entries.
-/

namespace Northstar.Consensus

/-- No configuration changes. -/
def AllNormal (log : List LogEntry) : Prop := ∀ e ∈ log, ∃ record, e.command = .normal record

variable {r : Raft}

namespace Raft

theorem applyFrom_eq (hnormal : AllNormal r.persistent.log) {lastApplied n : Nat}
    (hle : lastApplied + n ≤ r.persistent.log.length) :
    r.applyFrom lastApplied n =
      { r with applied := r.applied ++ (r.persistent.log.drop lastApplied).take n } := by
  induction n generalizing r lastApplied with
  | zero =>
    show r = _
    rw [List.take_zero, List.append_nil]
  | succ n ih =>
    have hlt : lastApplied < r.persistent.log.length := by omega
    have hentry := List.getElem?_eq_getElem hlt
    rcases hnormal _ (List.getElem_mem hlt) with ⟨record, hrecord⟩
    have hone : r.applyEntry (lastApplied + 1) =
        { r with applied := r.applied ++ [r.persistent.log[lastApplied]] } := by
      unfold applyEntry
      rw [RaftPersistentState.getEntry_succ, hentry]
      dsimp only
      rw [hrecord]
    have hrest := @ih { r with applied := r.applied ++ [r.persistent.log[lastApplied]] } hnormal
      (lastApplied + 1) (by show lastApplied + 1 + n ≤ r.persistent.log.length; omega)
    unfold applyFrom
    rw [hone, hrest]
    dsimp only
    rw [List.append_assoc, List.singleton_append, List.drop_eq_getElem_cons hlt, List.take_succ_cons]

/-- What `applyCommittedEntries` passes on when the counter has kept up with what was passed on. -/
theorem take_append_drop {log applied : List LogEntry} (hpre : applied <+: log) {n : Nat}
    (hle : applied.length ≤ n) :
    applied ++ (log.drop applied.length).take (n - applied.length) = log.take n := by
  rcases hpre with ⟨rest, rfl⟩
  rw [List.drop_left, List.take_append, List.take_of_length_le hle]

theorem applyCommittedEntries_follower (hrole : r.role ≠ .leader)
    (hnormal : AllNormal r.persistent.log)
    (hle : r.followerState.lastApplied < r.followerState.commitIndex →
      r.followerState.commitIndex ≤ r.persistent.log.length) :
    r.applyCommittedEntries =
      { r with
        applied := r.applied ++ (r.persistent.log.drop r.followerState.lastApplied).take
          (r.followerState.commitIndex - r.followerState.lastApplied)
        followerState := { r.followerState with
          lastApplied := max r.followerState.lastApplied r.followerState.commitIndex } } := by
  unfold applyCommittedEntries
  split
  · next hleader _ => exact absurd hleader hrole
  · dsimp only
    by_cases hlt : r.followerState.lastApplied < r.followerState.commitIndex
    · have hle := hle hlt
      rw [applyFrom_eq hnormal (by omega)]
    · have hzero : r.followerState.commitIndex - r.followerState.lastApplied = 0 := by omega
      rw [hzero, List.take_zero, List.append_nil]
      rfl

theorem applyCommittedEntries_leader {ls : LeaderVolatileState} (hrole : r.role = .leader)
    (hls : r.leaderState = some ls) (hnormal : AllNormal r.persistent.log)
    (happlied : ls.lastApplied ≤ ls.commitIndex) (hle : ls.commitIndex ≤ r.persistent.log.length) :
    r.applyCommittedEntries =
      { r with
        applied := r.applied ++
          (r.persistent.log.drop ls.lastApplied).take (ls.commitIndex - ls.lastApplied)
        leaderState := some { ls with lastApplied := ls.commitIndex } } := by
  unfold applyCommittedEntries
  split
  · next ls' _ hsome =>
    have hsame : ls' = ls := Option.some.inj (hsome.symm.trans hls)
    rw [hsame, applyFrom_eq hnormal (by omega), Nat.max_eq_right happlied]
    rfl
  · next hnone => exact absurd hls (hnone ls hrole)

theorem followCommit_eq {leaderCommit : Nat} (h : leaderCommit ≤ r.persistent.lastLogIndex) :
    r.followCommit leaderCommit =
      { r with followerState := { r.followerState with
          commitIndex := max r.followerState.commitIndex leaderCommit } } := by
  unfold followCommit
  by_cases hlt : leaderCommit > r.followerState.commitIndex
  · rw [if_pos hlt, Nat.min_eq_left h, Nat.max_eq_right (le_of_lt hlt)]
  · rw [if_neg hlt, Nat.max_eq_left (Nat.le_of_not_lt hlt)]

/-- A follower that has counted what it applied takes over a log and the leader's commit index. -/
theorem acceptEntries_eq {r : Raft} {args : AppendEntriesArgs} {log : List LogEntry}
    (hrole : r.role ≠ .leader)
    (hstore : storeEntries r.persistent.log args.prevLogIndex args.entries = log)
    (hlog : Contiguous log) (hnormal : AllNormal log)
    (hcounters : r.followerState.lastApplied = r.followerState.commitIndex)
    (hcommit : args.leaderCommit ≤ log.length) (happlied : r.applied <+: log)
    (hcounted : r.followerState.commitIndex < args.leaderCommit →
      r.followerState.lastApplied = r.applied.length) :
    ∃ fs applied, r.acceptEntries args = { r.setLog log with followerState := fs, applied := applied } ∧
      fs.lastApplied = fs.commitIndex ∧
      (applied = r.applied ∨ applied = log.take args.leaderCommit) := by
  have hset : (r.setLog log).persistent.lastLogIndex = log.length := Contiguous.lastLogIndex hlog
  unfold acceptEntries
  rw [hstore]
  dsimp only
  rw [followCommit_eq (hset ▸ hcommit), applyCommittedEntries_follower]
  · refine ⟨_, _, rfl, ?_, ?_⟩
    · show max r.followerState.lastApplied (max r.followerState.commitIndex args.leaderCommit) =
        max r.followerState.commitIndex args.leaderCommit
      omega
    · show r.applied ++ (log.drop r.followerState.lastApplied).take
          (max r.followerState.commitIndex args.leaderCommit - r.followerState.lastApplied) = _ ∨
        r.applied ++ (log.drop r.followerState.lastApplied).take
          (max r.followerState.commitIndex args.leaderCommit - r.followerState.lastApplied) = _
      by_cases hlt : r.followerState.commitIndex < args.leaderCommit
      · right
        rw [hcounted hlt, Nat.max_eq_right (le_of_lt hlt)]
        exact take_append_drop happlied (by rw [← hcounted hlt]; omega)
      · left
        rw [Nat.max_eq_left (Nat.le_of_not_lt hlt), hcounters, Nat.sub_self, List.take_zero,
          List.append_nil]
  · exact hrole
  · exact hnormal
  · intro hlt
    show max r.followerState.commitIndex args.leaderCommit ≤ log.length
    have hlt : r.followerState.lastApplied <
      max r.followerState.commitIndex args.leaderCommit := hlt
    omega

end Raft

namespace IndexMap

theorem mem_put {m : IndexMap} {id p : NodeId} {value v : Nat} :
    (p, v) ∈ (m.put id value).entries ↔ p = id ∧ v = value ∨ p ≠ id ∧ (p, v) ∈ m.entries := by
  unfold put
  simp only [List.mem_cons, Prod.mk.injEq, List.mem_filter, decide_eq_true_eq]
  constructor
  · rintro (hnew | ⟨hold, hne⟩)
    · exact Or.inl hnew
    · exact Or.inr ⟨hne, hold⟩
  · rintro (hnew | ⟨hne, hold⟩)
    · exact Or.inl hnew
    · exact Or.inr ⟨hold, hne⟩

theorem nodup_put {m : IndexMap} (h : (m.entries.map Prod.fst).Nodup) (id : NodeId) (value : Nat) :
    ((m.put id value).entries.map Prod.fst).Nodup := by
  unfold put
  rw [List.map_cons, List.nodup_cons]
  constructor
  · intro hmem
    rcases List.mem_map.mp hmem with ⟨e, he, heq⟩
    have hne := (List.mem_filter.mp he).2
    rw [decide_eq_true_eq] at hne
    exact hne heq
  · exact h.sublist (List.filter_sublist.map Prod.fst)

end IndexMap

namespace LeaderVolatileState

theorem advanceCommit_eq (majority : Nat) (log : List LogEntry) (ls : LeaderVolatileState) :
    ∃ index, ls.advanceCommit majority log = { ls with commitIndex := index } ∧
      ls.commitIndex ≤ index ∧
      (index = ls.commitIndex ∨
        ∃ e ∈ log, e.index = index ∧ majority ≤ ls.replicatedCount index) ∧
      ∀ e ∈ log, majority ≤ ls.replicatedCount e.index → e.index ≤ index := by
  induction log generalizing ls with
  | nil =>
    exact ⟨ls.commitIndex, rfl, le_refl _, Or.inl rfl, fun e he => absurd he List.not_mem_nil⟩
  | cons entry log ih =>
    unfold advanceCommit
    rw [List.foldl_cons]
    by_cases hmoves : ¬ entry.index ≤ ls.commitIndex ∧ ls.replicatedCount entry.index ≥ majority
    · rcases hmoves with ⟨hnew, hcounted⟩
      rw [if_neg hnew, if_pos hcounted]
      -- the count does not look at the commit index
      rcases ih { ls with commitIndex := entry.index } with ⟨index, heq, hle, hlast, hall⟩
      have hle : entry.index ≤ index := hle
      refine ⟨index, heq, by omega, Or.inr ?_, ?_⟩
      · rcases hlast with hsame | ⟨e, he, hindex, hcount⟩
        · have hsame : index = entry.index := hsame
          exact ⟨entry, List.mem_cons_self .., hsame.symm, hsame ▸ hcounted⟩
        · exact ⟨e, List.mem_cons_of_mem _ he, hindex, hcount⟩
      · intro e he hcount
        rcases List.mem_cons.mp he with rfl | he
        · exact hle
        · exact hall e he hcount
    · have hstays : (if entry.index ≤ ls.commitIndex then ls
          else if ls.replicatedCount entry.index ≥ majority then { ls with commitIndex := entry.index }
          else ls) = ls := by
        split
        · rfl
        next hnew => exact if_neg fun hcounted => hmoves ⟨hnew, hcounted⟩
      rw [hstays]
      rcases ih ls with ⟨index, heq, hle, hlast, hall⟩
      refine ⟨index, heq, hle, ?_, ?_⟩
      · rcases hlast with hsame | ⟨e, he, hindex, hcount⟩
        · exact Or.inl hsame
        · exact Or.inr ⟨e, List.mem_cons_of_mem _ he, hindex, hcount⟩
      · intro e he hcount
        rcases List.mem_cons.mp he with rfl | he
        · exact (not_not.mp fun hnew => hmoves ⟨hnew, hcount⟩).trans hle
        · exact hall e he hcount

end LeaderVolatileState

namespace Raft

theorem checkConfigCommitment_normal (hnormal : AllNormal r.persistent.log) :
    r.checkConfigCommitment = (r, none) := by
  unfold checkConfigCommitment
  split
  · dsimp only
    split
    · rfl
    · next index change rest hfound =>
      exfalso
      have hmem := hfound ▸ List.mem_cons_self (a := (index, change)) (l := rest)
      rcases List.mem_filterMap.mp hmem with ⟨e, he, hsome⟩
      rcases hnormal e he with ⟨record, hrecord⟩
      rw [hrecord] at hsome
      cases hsome
  · rfl

/-- Without configuration entries, a leader commits up to the last entry a majority has replicated,
and applies what is new. -/
theorem updateCommitIndex_leader {ls : LeaderVolatileState} (hrole : r.role = .leader)
    (hls : r.leaderState = some ls) (hlog : Contiguous r.persistent.log)
    (hnormal : AllNormal r.persistent.log) (hcounters : ls.lastApplied = ls.commitIndex)
    (hbound : ls.commitIndex ≤ r.persistent.log.length) :
    ∃ index, r.updateCommitIndex.1 =
        { r with
          applied := r.applied ++
            (r.persistent.log.drop ls.lastApplied).take (index - ls.lastApplied)
          leaderState := some { ls with commitIndex := index, lastApplied := index } } ∧
      ls.commitIndex ≤ index ∧ index ≤ r.persistent.log.length ∧
      (index = ls.commitIndex ∨
        ∃ e ∈ r.persistent.log, e.index = index ∧
          r.clusterConfig.majority ≤ ls.replicatedCount index) ∧
      ∀ e ∈ r.persistent.log, r.clusterConfig.majority ≤ ls.replicatedCount e.index →
        e.index ≤ index := by
  rcases ls.advanceCommit_eq r.clusterConfig.majority r.persistent.log
    with ⟨index, hadvance, hle, hlast, hall⟩
  have hlength : index ≤ r.persistent.log.length := by
    rcases hlast with hsame | ⟨e, he, hindex, -⟩
    · omega
    · rcases List.mem_iff_getElem?.mp he with ⟨k, hk⟩
      have hk' := hlog k e hk
      have hlt := (List.getElem?_eq_some_iff.mp hk).1
      omega
  refine ⟨index, ?_, hle, hlength, hlast, hall⟩
  have hset : (r.setLeaderState { ls with commitIndex := index }).role = .leader := hrole
  have hnormal' : AllNormal (r.setLeaderState { ls with commitIndex := index }).persistent.log :=
    hnormal
  have hcheck := checkConfigCommitment_normal hnormal'
  have happly := applyCommittedEntries_leader hset rfl hnormal' (by dsimp only; omega) hlength
  unfold updateCommitIndex
  split
  · next ls' _ hls' =>
    rw [Option.some.inj (hls'.symm.trans hls)]
    dsimp only
    rw [hadvance, hcheck]
    dsimp only
    rw [happly]
    rfl
  · next hnone => exact absurd hls (hnone ls hrole)

theorem filterMap_getEntry (p : RaftPersistentState) (n k : Nat) :
    (List.range' (n + 1) k).filterMap p.getEntry = (p.log.drop n).take k := by
  induction k generalizing n with
  | zero => rw [List.take_zero]; rfl
  | succ k ih =>
    rw [List.range'_succ]
    by_cases hlt : n < p.log.length
    · have hentry : p.getEntry (n + 1) = some p.log[n] := by
        rw [RaftPersistentState.getEntry_succ]
        exact List.getElem?_eq_getElem hlt
      rw [List.filterMap_cons_some hentry, ih, List.drop_eq_getElem_cons hlt, List.take_succ_cons]
    · have hentry : p.getEntry (n + 1) = none := by
        rw [RaftPersistentState.getEntry_succ]
        exact List.getElem?_eq_none_iff.mpr (Nat.le_of_not_lt hlt)
      rw [List.filterMap_cons_none hentry, ih]
      rw [List.drop_eq_nil_iff.mpr (by omega), List.drop_eq_nil_iff.mpr (by omega), List.take_nil,
        List.take_nil]

theorem entries_appendEntriesArgs (hlog : Contiguous r.persistent.log)
    (nextIdx leaderCommit : Nat) :
    (r.appendEntriesArgs nextIdx leaderCommit).entries =
      r.persistent.log.drop (r.appendEntriesArgs nextIdx leaderCommit).prevLogIndex := by
  show (List.range' nextIdx (r.persistent.lastLogIndex + 1 - nextIdx)).filterMap _ =
    r.persistent.log.drop (if nextIdx > 1 then nextIdx - 1 else 0)
  rw [hlog.lastLogIndex]
  cases nextIdx with
  | zero =>
    -- there is no entry 0
    have hzero : r.persistent.getEntry 0 = none := rfl
    rw [if_neg (by omega), Nat.sub_zero, List.range'_succ, List.filterMap_cons_none hzero,
      filterMap_getEntry, List.drop_zero, List.take_length]
  | succ n =>
    have hprev : (if n + 1 > 1 then n + 1 - 1 else 0) = n := by
      split
      · omega
      · omega
    rw [hprev, filterMap_getEntry]
    apply List.take_of_length_le
    rw [List.length_drop]
    omega

end Raft

end Northstar.Consensus
