import Northstar.Consensus.Replication

/-!
# Safety — what nodes apply

State machine safety of the runs in which no request reaches into a log, no entry of an earlier term is
committed by counting, and no counter is used after a change of role.
-/

namespace Northstar.Consensus

open ReplicatedLog

namespace Refines

variable {S : Setup} {H : LogHistory} {V : Set Vote} {c : Cluster}

theorem initial (S : Setup) : Refines S (History.initial _ _) ∅ (.initial S) where
  elections := Elections.initial S
  ok := ok_initial
  node i hi := by
    have hlength : (S.config i).getClusterNodes.length = 2 * S.half + 1 := by
      rw [← List.toFinset_card_of_nodup (RaftConfig.nodup_of_validate (S.valid i hi)), S.nodes i hi]
      exact S.odd
    refine ⟨rfl, rfl, Contiguous.nil, fun e he => absurd he List.not_mem_nil, ?_, ?_, rfl,
      ⟨List.nil_prefix, Or.inl rfl⟩, ?_⟩
    · show (S.config i).getClusterNodes.length / 2 + 1 = S.half + 1
      omega
    · exact fun hrole => absurd rfl hrole
    · intro hrole
      cases hrole
  serving i _ peer hpeer := absurd hpeer List.not_mem_nil
  sent m hm := absurd hm List.not_mem_nil
  votes v hv := absurd hv (Set.notMem_empty _)
  leaders t ht := absurd ht (Set.notMem_empty _)

theorem careful_event (h : Refines S H V c) {i : NodeId} (hi : i ∈ S.members) {e : Event}
    (henabled : (c.node i).Enabled c.sent e) (hcareful : Careful (c.node i) e) :
    ∃ H' V', Refines S H' V' (c.after i e) := by
  cases e with
  | startElection => exact h.startElection hi
  | askPeer =>
    rcases h.askPeer hi with ⟨H', h'⟩
    exact ⟨H', V, h'⟩
  | handleRequestVote args => exact h.handleRequestVote hi henabled
  | handleRequestVoteReply peer args reply =>
    rcases h.handleRequestVoteReply hi henabled with ⟨H', h'⟩
    exact ⟨H', V, h'⟩
  | handleAppendEntries args =>
    rcases h.handleAppendEntries hi henabled hcareful with ⟨H', h'⟩
    exact ⟨H', V, h'⟩
  | handleAppendEntriesReply peer args reply =>
    rcases h.handleAppendEntriesReply hi henabled with ⟨H', h'⟩
    exact ⟨H', V, h'⟩
  | propose record =>
    rcases h.propose hi record with ⟨H', h'⟩
    exact ⟨H', V, h'⟩
  | beginPass =>
    rcases h.beginPass hi with ⟨H', h'⟩
    exact ⟨H', V, h'⟩
  | servePeer stale =>
    rcases h.servePeer hi hcareful with ⟨H', h'⟩
    exact ⟨H', V, h'⟩
  | updateCommitIndex =>
    rcases h.updateCommitIndex hi hcareful with ⟨H', h'⟩
    exact ⟨H', V, h'⟩
  | restart => exact absurd hcareful id

theorem of_reaches (hrun : Cluster.Reaches S Careful (.initial S) c) :
    ∃ H V, Refines S H V c :=
  hrun.preserves (P := fun c => ∃ H V, Refines S H V c)
    (fun _ _ _ ⟨_, _, h⟩ hi henabled hcareful => h.careful_event hi henabled hcareful)
    ⟨_, _, initial S⟩

end Refines

theorem Contiguous.map_index {log : List LogEntry} (h : Contiguous log) :
    log.map LogEntry.index = List.range' 1 log.length := by
  apply List.ext_getElem?
  intro k
  rw [List.getElem?_map]
  by_cases hlt : k < log.length
  · have hentry := List.getElem?_eq_getElem hlt
    rw [hentry, List.getElem?_range' hlt, Option.map_some, h k _ hentry]
    congr 1
    omega
  · have hle := Nat.le_of_not_lt hlt
    rw [List.getElem?_eq_none_iff.mpr hle, List.getElem?_eq_none_iff.mpr]
    · rfl
    · rw [List.length_range']
      exact hle

/-- Nodes apply the same entry at an index, and each applies the indices 1, 2, 3, … in order. -/
def StateMachineSafety (S : Setup) (c : Cluster) : Prop :=
  (∀ i ∈ S.members, ∀ j ∈ S.members, ∀ e ∈ (c.node i).raft.applied, ∀ e' ∈ (c.node j).raft.applied,
    e.index = e'.index → e.term = e'.term ∧ e.command = e'.command) ∧
  ∀ i ∈ S.members, (c.node i).raft.applied.map LogEntry.index =
    List.range' 1 (c.node i).raft.applied.length

/-- **State machine safety** of careful runs, over all elections, partitions and changes of role. -/
theorem state_machine_safety {S : Setup} {c : Cluster}
    (hrun : Cluster.Reaches S Careful (.initial S) c) : StateMachineSafety S c := by
  rcases Refines.of_reaches hrun with ⟨H, V, h⟩
  have hnumbered : ∀ i ∈ S.members, Contiguous (c.node i).raft.applied :=
    fun i hi => (h.node i hi).contiguous.of_isPrefix (h.node i hi).applied.1
  refine ⟨?_, fun i hi => (hnumbered i hi).map_index⟩
  intro i hi j hj e he e' he' hindex
  rcases List.mem_iff_getElem?.mp he with ⟨k, hk⟩
  rcases List.mem_iff_getElem?.mp he' with ⟨k', hk'⟩
  have hplace := hnumbered i hi k e hk
  have hplace' := hnumbered j hj k' e' hk'
  have hsame : k' = k := by omega
  rw [hsame] at hk'
  -- what two nodes have applied is one line of chosen logs
  have heq : e = e' := by
    rcases (h.node i hi).applied.2.comparable h.ok (h.node j hj).applied.2 with hle | hle
    · exact Option.some.inj ((prefix_getElem? hle hk).symm.trans hk')
    · exact Option.some.inj (hk.symm.trans (prefix_getElem? hle hk'))
  rw [heq]
  exact ⟨rfl, rfl⟩

/-- **Log matching.**  Where two nodes have entries of one term, their logs are the same up to them. -/
theorem logs_match {S : Setup} {c : Cluster} (hrun : Cluster.Reaches S Careful (.initial S) c) {i j : NodeId}
    (hi : i ∈ S.members) (hj : j ∈ S.members) {k : Nat} {e e' : LogEntry}
    (he : (c.node i).raft.persistent.log[k]? = some e) (he' : (c.node j).raft.persistent.log[k]? = some e')
    (hterm : e.term = e'.term) :
    (c.node i).raft.persistent.log.take (k + 1) = (c.node j).raft.persistent.log.take (k + 1) := by
  rcases Refines.of_reaches hrun with ⟨H, V, h⟩
  rw [(h.node i hi).log] at he ⊢
  rw [(h.node j hj).log] at he' ⊢
  exact (h.ok.log i).matching (h.ok.log j) he he' hterm

theorem Refines.committed_le_leader {S : Setup} {H : LogHistory} {V : Set Vote} {c : Cluster} (h : Refines S H V c)
    {j : NodeId} (hj : j ∈ S.members) (hleader : (c.node j).raft.role = .leader)
    (hlatest : ∀ v ∈ S.members, H.term v ≤ H.term j) {log : List LogEntry} (hlog : Committed S H log) :
    log <+: H.log j := by
  rcases hlog with rfl | ⟨t, k, hchosen, hpre⟩
  · exact List.nil_prefix
  rcases (h.node j hj).leads hleader with ⟨ls, -, hleads⟩
  apply hpre.trans
  rw [← hleads.own]
  -- the term was elected by members, and none of them is in a later term than the leader
  have hle : t ≤ H.term j := by
    have helected : t ∈ H.elected := by
      apply h.ok.elected_of_ne_nil
      intro hnil
      rcases hchosen.1 with ⟨e, he, -⟩
      rw [hnil] at he
      cases he
    rcases h.ok.elected t helected with ⟨A, hA, hballots⟩
    rcases S.quorums_meet A A hA hA with ⟨v, hv, -⟩
    rcases hballots v hv with ⟨b, hb, rfl, rfl, -⟩
    exact (h.ok.ballots b hb).1.trans (hlatest b.voter (hA.1 hv))
  rcases hle.lt_or_eq with hlt | rfl
  · exact h.ok.complete S.quorums_meet hchosen hlt hleads.elected
  · exact List.take_prefix _ _

/-- **Leader completeness.**  A leader that no member is ahead of in term has everything that anyone has
applied, in this order. -/
theorem leader_holds_applied {S : Setup} {c : Cluster} (hrun : Cluster.Reaches S Careful (.initial S) c) {i j : NodeId}
    (hi : i ∈ S.members) (hj : j ∈ S.members) (hleader : (c.node j).raft.role = .leader)
    (hlatest : ∀ v ∈ S.members,
      (c.node v).raft.persistent.currentTerm ≤ (c.node j).raft.persistent.currentTerm) :
    (c.node i).raft.applied <+: (c.node j).raft.persistent.log := by
  rcases Refines.of_reaches hrun with ⟨H, V, h⟩
  rw [(h.node j hj).log]
  apply h.committed_le_leader hj hleader _ (h.node i hi).applied.2
  intro v hv
  rw [← (h.node v hv).term, ← (h.node j hj).term]
  exact hlatest v hv

def leaderRequest (prev : Nat) (entries : List LogEntry) (commit : Nat) : AppendEntriesArgs where
  term := 1
  leaderId := 1
  prevLogIndex := prev
  prevLogTerm := if prev = 0 then 0 else 1
  entries := entries
  leaderCommit := commit

/-- Node 1 is elected, commits an entry with node 2 and tells it. -/
def committedRun : List (NodeId × Event) :=
  firstElection ++
    [(1, .propose ⟨7, 2, [], 0⟩), (1, .beginPass), (1, .servePeer ⟨0, 0, {}, {}⟩),
      (2, .handleAppendEntries (leaderRequest 0 firstEntry.entries 0)),
      (1, .handleAppendEntriesReply 2 (leaderRequest 0 firstEntry.entries 0) ⟨1, true, none, none⟩),
      (1, .updateCommitIndex), (1, .beginPass), (1, .servePeer ⟨0, 0, {}, {}⟩),
      (2, .handleAppendEntries (leaderRequest 1 [] 1))]

theorem state_machine_safety_of_two_nodes :
    (∀ i, i = 1 ∨ i = 2 → (((Cluster.initial threeSetup).play committedRun).node i).raft.applied =
        firstEntry.entries) ∧
      StateMachineSafety threeSetup ((Cluster.initial threeSetup).play committedRun) := by
  have hlegal : (Cluster.initial threeSetup).Legal threeSetup Careful committedRun := by decide +kernel
  refine ⟨?_, state_machine_safety (Cluster.reaches_play hlegal)⟩
  rintro i (rfl | rfl)
  · decide +kernel
  · decide +kernel

theorem logs_match_of_two_nodes :
    (((Cluster.initial threeSetup).play committedRun).node 1).raft.persistent.log.take 1 =
      (((Cluster.initial threeSetup).play committedRun).node 2).raft.persistent.log.take 1 := by
  have hfirst : ∀ i, i = 1 ∨ i = 2 → (((Cluster.initial threeSetup).play committedRun).node i).raft.persistent.log[0]? =
      some ⟨1, 1, .normal ⟨7, 2, [], 0⟩⟩ := by
    rintro i (rfl | rfl)
    · decide +kernel
    · decide +kernel
  exact logs_match (Cluster.reaches_play (by decide +kernel)) (by decide) (by decide) (hfirst 1 (.inl rfl))
    (hfirst 2 (.inr rfl)) rfl

theorem leader_holds_applied_of_two_nodes :
    (((Cluster.initial threeSetup).play committedRun).node 2).raft.applied <+:
      (((Cluster.initial threeSetup).play committedRun).node 1).raft.persistent.log :=
  leader_holds_applied (Cluster.reaches_play (by decide +kernel)) (by decide) (by decide) (by decide +kernel)
    (forall_three (by decide +kernel) (by decide +kernel) (by decide +kernel))

def secondEntry : LogEntry := ⟨1, 2, .normal ⟨8, 3, [], 0⟩⟩

/-- The leader sends its first entry, and then both, before node 2 has answered. -/
def overtakenRun : List (NodeId × Event) :=
  firstElection ++
    [(1, .propose ⟨7, 2, [], 0⟩), (1, .beginPass), (1, .servePeer ⟨0, 0, {}, {}⟩),
      (1, .propose ⟨8, 3, [], 0⟩), (1, .beginPass), (1, .servePeer ⟨0, 0, {}, {}⟩),
      (2, .handleAppendEntries (leaderRequest 0 firstEntry.entries 0)),
      (2, .handleAppendEntries (leaderRequest 0 (firstEntry.entries ++ [secondEntry]) 0)),
      (1, .handleAppendEntriesReply 2 (leaderRequest 0 (firstEntry.entries ++ [secondEntry]) 0)
        ⟨1, true, none, none⟩),
      (1, .updateCommitIndex), (1, .beginPass), (1, .servePeer ⟨0, 0, {}, {}⟩),
      (2, .handleAppendEntries (leaderRequest 2 [] 2))]

/-- Both entries are committed, and node 2 applies the first one twice. -/
theorem entry_applied_twice : Cluster.Reaches threeSetup Up (.initial threeSetup)
        ((Cluster.initial threeSetup).play overtakenRun) ∧
      (((Cluster.initial threeSetup).play overtakenRun).node 1).raft.applied =
        firstEntry.entries ++ [secondEntry] ∧
      (((Cluster.initial threeSetup).play overtakenRun).node 2).raft.applied =
        firstEntry.entries ++ firstEntry.entries ∧
      ¬ StateMachineSafety threeSetup ((Cluster.initial threeSetup).play overtakenRun) := by
  have hlegal : (Cluster.initial threeSetup).Legal threeSetup Up overtakenRun := by decide +kernel
  have happlied : (((Cluster.initial threeSetup).play overtakenRun).node 2).raft.applied =
      firstEntry.entries ++ firstEntry.entries := by decide +kernel
  refine ⟨Cluster.reaches_play hlegal, by decide +kernel, happlied, ?_⟩
  rintro ⟨-, horder⟩
  have hindices := horder 2 (by decide)
  rw [happlied] at hindices
  revert hindices
  decide

end Northstar.Consensus
