import Northstar.Consensus.Commit
import Northstar.Consensus.Election
import Northstar.Consensus.LeaderOnly

/-!
# Membership — what becomes of a configuration change

`addNode` and `removeNode` put the joint entry into the log, and `checkConfigCommitment` is to apply it when
it is committed.  `updateCommitIndex` calls it after its own loop, which has already taken the commit index
past every entry that enough peers have; among the entries beyond it there is none left to commit.
-/

namespace Northstar.Consensus

namespace Raft

/-- A change to these nodes has been accepted. -/
def Accepts (r r' : Raft) (newNodes : List NodeId) : Prop :=
  ∃ id, (r.addNode id = .ok r' ∧ newNodes = r.clusterConfig.getNodes ++ [id]) ∨
    (r.removeNode id = .ok r' ∧ newNodes = r.clusterConfig.getNodes.filter (· ≠ id))

def jointEntry (r : Raft) (newNodes : List NodeId) : LogEntry :=
  .fromConfigChange r.persistent.currentTerm (r.persistent.lastLogIndex + 1) r.clusterConfig.getNodes
    newNodes true

/-- The joint configuration is installed, and the entry of the new one is in the log. -/
structure Completes (change : ConfigChange) (r r' : Raft) : Prop where
  installs : r'.clusterConfig = .initJoint change.oldNodes change.newNodes ∨
    r'.clusterConfig = .initSingle change.newNodes
  appends : r'.persistent.log = r.persistent.log ++ [.fromConfigChange r.persistent.currentTerm
    (r.persistent.lastLogIndex + 1) change.newNodes change.newNodes false]

/-- The configuration is the old one, and the change is pending. -/
structure Waits (old : ClusterConfig) (change : ConfigChange) (r : Raft) : Prop where
  clusterConfig : r.clusterConfig = old
  pendingConfigChange : r.pendingConfigChange = some change

/-- The node leads before and after the call, and the change is not completed by hand. -/
def Leads (r : Raft) (c : Call) : Prop :=
  r.role = .leader ∧ (r.call c).1.role = .leader ∧ c ≠ .completeConfigChange

variable {r : Raft}

theorem proposeJoint_of_accepts {r' : Raft} {newNodes : List NodeId} (h : r.Accepts r' newNodes) :
    r' = r.proposeJoint newNodes := by
  rcases h with ⟨id, ⟨hadd, rfl⟩ | ⟨hremove, rfl⟩⟩
  · unfold addNode at hadd
    repeat' split at hadd
    all_goals cases hadd
    rfl
  · unfold removeNode at hremove
    repeat' split at hremove
    all_goals cases hremove
    rfl

def SameChange (r r' : Raft) : Prop :=
  r'.clusterConfig = r.clusterConfig ∧ r'.pendingConfigChange = r.pendingConfigChange

theorem applyFrom_leader (hrole : r.role = .leader) (lastApplied n : Nat) :
    ∃ applied, r.applyFrom lastApplied n = { r with applied := applied } := by
  induction n generalizing r lastApplied with
  | zero => exact ⟨r.applied, rfl⟩
  | succ n ih =>
    have hentry : ∃ applied, r.applyEntry (lastApplied + 1) = { r with applied := applied } := by
      unfold applyEntry
      split
      · exact ⟨r.applied, rfl⟩
      · next entry _ =>
        refine ⟨r.applied ++ [entry], ?_⟩
        dsimp only
        split
        · rw [if_neg (by simpa using hrole)]
        · rfl
    rcases hentry with ⟨applied, hentry⟩
    rcases ih (r := { r with applied := applied }) hrole (lastApplied + 1) with ⟨all, hall⟩
    refine ⟨all, ?_⟩
    unfold applyFrom
    rw [hentry, hall]

variable {ls : LeaderVolatileState}

theorem applyCommittedEntries_of_leader (hrole : r.role = .leader) (hls : r.leaderState = some ls) :
    ∃ applied, r.applyCommittedEntries =
      { r with
        applied := applied
        leaderState := some { ls with lastApplied := max ls.lastApplied ls.commitIndex } } := by
  rcases applyFrom_leader hrole ls.lastApplied (ls.commitIndex - ls.lastApplied) with ⟨applied, happlied⟩
  refine ⟨applied, ?_⟩
  unfold applyCommittedEntries
  split
  · next ls' _ hls' =>
    cases hls'.symm.trans hls
    rw [happlied]
    rfl
  · next hnone => exact absurd hls (hnone ls hrole)

theorem checkConfigCommitment_of_advanced {r : Raft} {ls : LeaderVolatileState}
    (hall : ∀ e ∈ r.persistent.log, r.clusterConfig.majority ≤ ls.replicatedCount e.index →
      e.index ≤ ls.commitIndex) (hls : r.leaderState = some ls) :
    r.checkConfigCommitment = (r, none) := by
  unfold checkConfigCommitment
  split
  · next ls' _ hls' =>
    cases hls'.symm.trans hls
    dsimp only
    split
    · rfl
    · next index change rest hfound =>
      have hmem := hfound ▸ List.mem_cons_self (a := (index, change)) (l := rest)
      rcases List.mem_filterMap.mp hmem with ⟨e, he, hsome⟩
      have hbeyond : ls.commitIndex < index ∧ e.index = index := by
        split at hsome
        · split at hsome
          · cases hsome
          · next hlt =>
            cases hsome
            exact ⟨Nat.lt_of_not_le hlt, rfl⟩
        · cases hsome
      rw [if_neg]
      intro hcount
      have hle := hall e he (hbeyond.2.symm ▸ hcount)
      omega
  · rfl

theorem updateCommitIndex_of_leader (hrole : r.role = .leader) (hls : r.leaderState = some ls) :
    ∃ applied ls', r.updateCommitIndex = ({ r with applied := applied, leaderState := some ls' }, none) ∧
      ∀ e ∈ r.persistent.log, r.clusterConfig.majority ≤ ls.replicatedCount e.index →
        e.index ≤ ls'.commitIndex := by
  rcases ls.advanceCommit_eq r.clusterConfig.majority r.persistent.log
    with ⟨index, hadvance, hle, hlast, hall⟩
  have hcheck : (r.setLeaderState { ls with commitIndex := index }).checkConfigCommitment =
      (r.setLeaderState { ls with commitIndex := index }, none) :=
    @checkConfigCommitment_of_advanced _ { ls with commitIndex := index } hall rfl
  rcases applyCommittedEntries_of_leader (r := r.setLeaderState { ls with commitIndex := index }) hrole rfl
    with ⟨applied, happlied⟩
  refine ⟨applied, { ls with commitIndex := index, lastApplied := max ls.lastApplied index }, ?_, hall⟩
  unfold updateCommitIndex
  split
  · next ls' _ hls' =>
    cases hls'.symm.trans hls
    dsimp only
    rw [hadvance, hcheck]
    dsimp only
    rw [happlied]
    rfl
  · next hnone => exact absurd hls (hnone ls hrole)

theorem sameChange_updateCommitIndex (r : Raft) : r.SameChange r.updateCommitIndex.1 := by
  cases hrole : r.role with
  | leader =>
    cases hls : r.leaderState with
    | some ls =>
      rcases updateCommitIndex_of_leader hrole hls with ⟨applied, ls', hupdate, -⟩
      rw [hupdate]
      exact ⟨rfl, rfl⟩
    | none =>
      unfold updateCommitIndex
      rw [hls]
      split
      · next h => cases h
      · exact ⟨rfl, rfl⟩
  | _ =>
    unfold updateCommitIndex
    rw [hrole]
    exact ⟨rfl, rfl⟩

theorem sameChange_becomeFollower (r : Raft) (term : Nat) : r.SameChange (r.becomeFollower term) := by
  unfold becomeFollower
  dsimp only
  split
  · exact ⟨rfl, rfl⟩
  · exact ⟨rfl, rfl⟩

theorem sameChange_observeTerm (r : Raft) (term : Nat) : r.SameChange (r.observeTerm term) := by
  unfold observeTerm
  split
  · exact sameChange_becomeFollower ..
  · exact ⟨rfl, rfl⟩

theorem sameChange_handleRequestVoteReply (r : Raft) (peer : NodeId) (args : RequestVoteArgs)
    (reply : RequestVoteReply) : r.SameChange (r.handleRequestVoteReply peer args reply) := by
  unfold handleRequestVoteReply
  dsimp only
  repeat' split
  all_goals exact ⟨rfl, rfl⟩

theorem sameChange_askPeers (ask : NodeId → RequestVoteArgs → Option RequestVoteReply)
    (peers : List NodeInfo) (r : Raft) : r.SameChange (askPeers ask peers r) := by
  induction peers generalizing r with
  | nil => exact ⟨rfl, rfl⟩
  | cons peer peers ih =>
    unfold askPeers
    dsimp only
    split
    · exact ih r
    · next reply _ =>
      have hone := sameChange_handleRequestVoteReply r peer.id r.requestVoteArgs reply
      have hrest := ih (r.handleRequestVoteReply peer.id r.requestVoteArgs reply)
      exact ⟨hrest.1.trans hone.1, hrest.2.trans hone.2⟩

theorem sameChange_handleRequestVote (r : Raft) (args : RequestVoteArgs) :
    r.SameChange (r.handleRequestVote args).1 := by
  have hobserve := sameChange_observeTerm r args.term
  unfold handleRequestVote
  dsimp only
  repeat' split
  all_goals first | exact ⟨rfl, rfl⟩ | exact hobserve

theorem sameChange_handleAppendEntriesReply (r : Raft) (peer : NodeId) (args : AppendEntriesArgs)
    (reply : AppendEntriesReply) : r.SameChange (r.handleAppendEntriesReply peer args reply) := by
  unfold handleAppendEntriesReply
  dsimp only
  repeat' split
  all_goals exact ⟨rfl, rfl⟩

theorem sameChange_servePeer (pass : Pass) (r : Raft) (peer : NodeInfo) :
    r.SameChange (servePeer pass r peer).1 := by
  unfold servePeer
  dsimp only
  repeat' split
  all_goals first
    | exact ⟨rfl, rfl⟩
    | exact sameChange_becomeFollower ..
    | exact sameChange_handleAppendEntriesReply ..

theorem sameChange_servePeers (pass : Pass) (peers : List NodeInfo) (r : Raft) :
    r.SameChange (servePeers pass peers r).1 := by
  induction peers generalizing r with
  | nil => exact ⟨rfl, rfl⟩
  | cons peer peers ih =>
    have hone := sameChange_servePeer pass r peer
    unfold servePeers
    split
    · next r' sent heq =>
      rw [heq] at hone
      exact hone
    · next r' sent heq =>
      rw [heq] at hone
      have hrest := ih r'
      exact ⟨hrest.1.trans hone.1, hrest.2.trans hone.2⟩

theorem sameChange_leaderLoop (pass : Pass) (r : Raft) : r.SameChange (r.leaderLoop pass).1 := by
  have hpeers := sameChange_servePeers pass r.config.peers r
  unfold leaderLoop
  split
  · exact ⟨rfl, rfl⟩
  · split
    · next r' sent heq =>
      rw [heq] at hpeers
      exact hpeers
    · next r' sent heq =>
      rw [heq] at hpeers
      have hupdate := sameChange_updateCommitIndex r'
      exact ⟨hupdate.1.trans hpeers.1, hupdate.2.trans hpeers.2⟩

theorem sameChange_acceptEntries {r : Raft} {args : AppendEntriesArgs} (hrole : r.role = .leader) :
    r.SameChange (r.acceptEntries args) := by
  have hfollow : ∀ leaderCommit, ∃ fs, (r.setLog (storeEntries r.persistent.log args.prevLogIndex
      args.entries)).followCommit leaderCommit =
        { r.setLog (storeEntries r.persistent.log args.prevLogIndex args.entries) with
          followerState := fs } := by
    intro leaderCommit
    unfold followCommit
    split
    · exact ⟨_, rfl⟩
    · exact ⟨r.followerState, rfl⟩
  rcases hfollow args.leaderCommit with ⟨fs, hfs⟩
  unfold acceptEntries
  dsimp only
  rw [hfs]
  cases hls : r.leaderState with
  | some ls =>
    rcases applyCommittedEntries_of_leader
      (r := { r.setLog (storeEntries r.persistent.log args.prevLogIndex args.entries) with
        followerState := fs }) hrole hls with ⟨applied, happlied⟩
    rw [happlied]
    exact ⟨rfl, rfl⟩
  | none =>
    -- the counters are then the follower's, and the role is still that of a leader
    rcases applyFrom_leader
      (r := { r.setLog (storeEntries r.persistent.log args.prevLogIndex args.entries) with
        followerState := fs }) hrole fs.lastApplied (fs.commitIndex - fs.lastApplied)
      with ⟨applied, happlied⟩
    unfold applyCommittedEntries
    split
    · next h => cases hls.symm.trans h
    · dsimp only
      rw [happlied]
      exact ⟨rfl, rfl⟩

theorem sameChange_handleAppendEntries {args : AppendEntriesArgs}
    (hrole : (r.handleAppendEntries args).1.role = .leader) :
    r.SameChange (r.handleAppendEntries args).1 := by
  have hobserve := sameChange_observeTerm r args.term
  unfold handleAppendEntries at hrole ⊢
  dsimp only at hrole ⊢
  split at hrole
  case isTrue hterm =>
    rw [if_pos hterm]
    exact ⟨rfl, rfl⟩
  case isFalse hterm =>
    rw [if_neg hterm]
    split at hrole
    case isTrue hmismatch =>
      rw [if_pos hmismatch]
      exact hobserve
    case isFalse hmismatch =>
      rw [if_neg hmismatch]
      have hleads : (r.observeTerm args.term).role = .leader := by
        rw [← hrole]
        exact (sameOffice_acceptEntries { r.observeTerm args.term with
          currentLeaderId := some args.leaderId } args).role.symm
      have haccept := @sameChange_acceptEntries { r.observeTerm args.term with
        currentLeaderId := some args.leaderId } args hleads
      exact ⟨haccept.1.trans hobserve.1, haccept.2.trans hobserve.2⟩

theorem sameChange_handleInstallSnapshot (r : Raft) (args : InstallSnapshotArgs) :
    r.SameChange (r.handleInstallSnapshot args).1 := by
  have hobserve := sameChange_observeTerm r args.term
  have hraise : ∀ (r : Raft) (index : Nat), r.SameChange (r.raiseCounters index) := by
    intro r index
    unfold raiseCounters
    split
    · exact ⟨rfl, rfl⟩
    · exact ⟨rfl, rfl⟩
  unfold handleInstallSnapshot
  dsimp only
  split
  · exact ⟨rfl, rfl⟩
  · split
    · exact hobserve
    · exact ⟨(hraise _ _).1.trans hobserve.1, (hraise _ _).2.trans hobserve.2⟩

theorem Waits.call {old : ClusterConfig} {change : ConfigChange} {c : Call}
    (h : Waits old change r) (hleads : r.Leads c) : Waits old change (r.call c).1 := by
  have hsame : ∀ {r' : Raft}, r.SameChange r' → Waits old change r' := fun hsame =>
    ⟨hsame.1.trans h.clusterConfig, hsame.2.trans h.pendingConfigChange⟩
  rcases hleads with ⟨hrole, hafter, hcomplete⟩
  cases c with
  | tick expired ask =>
    change Waits old change (r.tick expired ask)
    unfold tick
    split
    · exact hsame (sameChange_askPeers ask r.config.peers r.becomeCandidate)
    · exact h
  | startElection ask => exact hsame (sameChange_askPeers ask r.config.peers r.becomeCandidate)
  | handleRequestVote args => exact hsame (sameChange_handleRequestVote r args)
  | handleRequestVoteReply peer args reply => exact hsame (sameChange_handleRequestVoteReply r peer args reply)
  | handleAppendEntries args => exact hsame (sameChange_handleAppendEntries hafter)
  | handleAppendEntriesReply peer args reply =>
    exact hsame (sameChange_handleAppendEntriesReply r peer args reply)
  | propose record =>
    change Waits old change (r.orElse ((r.propose record).map Prod.fst))
    unfold propose
    rw [if_neg (by simpa using hrole)]
    exact hsame ⟨rfl, rfl⟩
  | updateCommitIndex => exact hsame (sameChange_updateCommitIndex r)
  | leaderLoop pass => exact hsame (sameChange_leaderLoop pass r)
  | addNode id =>
    change Waits old change (r.orElse (r.addNode id))
    unfold addNode
    rw [h.pendingConfigChange]
    repeat' split
    · exact h
    · exact h
    · exact h
    · next hnone => exact absurd (Option.some_ne_none change) hnone
  | removeNode id =>
    change Waits old change (r.orElse (r.removeNode id))
    unfold removeNode
    rw [h.pendingConfigChange]
    repeat' split
    · exact h
    · exact h
    · exact h
    · exact h
    · next hnone => exact absurd (Option.some_ne_none change) hnone
  | completeConfigChange => exact absurd rfl hcomplete
  | createSnapshot txnId rootPageId =>
    change Waits old change (r.orElse (r.createSnapshot txnId rootPageId))
    unfold createSnapshot
    repeat' split
    all_goals exact hsame ⟨rfl, rfl⟩
  | truncateLogAfterSnapshot =>
    change Waits old change r.truncateLogAfterSnapshot
    unfold truncateLogAfterSnapshot
    repeat' split
    all_goals exact hsame ⟨rfl, rfl⟩
  | handleInstallSnapshot args => exact hsame (sameChange_handleInstallSnapshot r args)
  | sendSnapshotToFollower peer => exact h

/-- The entry is committed, and the call has completed nothing.  If the node has led since the change was
accepted, the old configuration is still in force and the change is pending. -/
theorem change_stays_pending (r accepted : Raft) (newNodes : List NodeId)
    (haccepts : r.Accepts accepted newNodes) (calls : List Call) (ls : LeaderVolatileState)
    (hrole : (accepted.run calls).1.role = .leader)
    (hls : (accepted.run calls).1.leaderState = some ls)
    (hmem : r.jointEntry newNodes ∈ (accepted.run calls).1.persistent.log)
    (hmajority : (accepted.run calls).1.clusterConfig.majority ≤
      ls.replicatedCount (r.jointEntry newNodes).index) :
    (∃ ls', (accepted.run calls).1.updateCommitIndex.1.leaderState = some ls' ∧
      (r.jointEntry newNodes).index ≤ ls'.commitIndex) ∧
    ¬ Completes ⟨r.clusterConfig.getNodes, newNodes, true⟩ (accepted.run calls).1
      (accepted.run calls).1.updateCommitIndex.1 ∧
    (accepted.RunMeets Leads calls →
      Waits r.clusterConfig ⟨r.clusterConfig.getNodes, newNodes, true⟩
        (accepted.run calls).1.updateCommitIndex.1) := by
  rcases updateCommitIndex_of_leader hrole hls with ⟨applied, ls', hupdate, hall⟩
  rw [hupdate]
  refine ⟨⟨ls', rfl, hall _ hmem hmajority⟩, ?_, ?_⟩
  · intro hcompletes
    have hlength := congrArg List.length hcompletes.appends
    rw [List.length_append, List.length_singleton] at hlength
    exact absurd hlength (Nat.ne_of_lt (Nat.lt_succ_self _))
  · intro hleads
    have hwaits : Waits r.clusterConfig ⟨r.clusterConfig.getNodes, newNodes, true⟩ accepted := by
      rw [proposeJoint_of_accepts haccepts]
      exact ⟨rfl, rfl⟩
    have hrun := run_preserves (fun _ _ h hleads => h.call hleads) hwaits hleads
    exact ⟨hrun.clusterConfig, hrun.pendingConfigChange⟩

def electedNode : Raft := ((start (threeNodes 1 2 3)).run [.startElection granted]).1

/-- Peer 2 has stored the joint entry. -/
def jointAcknowledged : List Call :=
  [.handleAppendEntriesReply 2 (((electedNode.run [.addNode 4]).1).appendEntriesArgs 1 0)
    { term := 1, success := true }]

theorem change_stays_pending_node_added :
    Waits electedNode.clusterConfig ⟨[1, 2, 3], [1, 2, 3, 4], true⟩
      ((electedNode.run [.addNode 4]).1.run jointAcknowledged).1.updateCommitIndex.1 := by
  have haccepts : electedNode.Accepts (electedNode.run [.addNode 4]).1 [1, 2, 3, 4] :=
    ⟨4, .inl ⟨rfl, rfl⟩⟩
  exact (change_stays_pending electedNode _ [1, 2, 3, 4] haccepts jointAcknowledged _ rfl rfl (by decide)
    (by decide)).2.2 ⟨⟨rfl, rfl, nofun⟩, trivial⟩

/-- Node 4 is added, and peer 2 has the joint entry: it is committed, and the configuration is the old
one. -/
theorem joint_entry_committed_in_vain :
    ¬ ∀ (r accepted : Raft) (newNodes : List NodeId), r.Accepts accepted newNodes →
      ∀ (calls : List Call) (ls : LeaderVolatileState), (accepted.run calls).1.role = .leader →
        (accepted.run calls).1.leaderState = some ls →
        r.jointEntry newNodes ∈ (accepted.run calls).1.persistent.log →
        (accepted.run calls).1.clusterConfig.majority ≤
          ls.replicatedCount (r.jointEntry newNodes).index →
        Completes ⟨r.clusterConfig.getNodes, newNodes, true⟩ (accepted.run calls).1
          (accepted.run calls).1.updateCommitIndex.1 := by
  intro hclaim
  have hcompletes := hclaim electedNode (electedNode.run [.addNode 4]).1 [1, 2, 3, 4]
    ⟨4, .inl ⟨rfl, rfl⟩⟩ jointAcknowledged _ rfl rfl (by decide) (by decide)
  exact absurd hcompletes.installs (by decide)

end Raft

end Northstar.Consensus
