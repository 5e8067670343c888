import Northstar.Consensus.Raft

/-!
# Calls — a node and the calls made on it

A run of one node: any list of calls with any arguments and any answers of the callbacks.  What the
cluster around it can really send plays no role here.
-/

namespace Northstar.Consensus

open Zig (CommitRecord)

inductive Call where
  | tick (expired : Bool) (ask : NodeId → RequestVoteArgs → Option RequestVoteReply)
  | startElection (ask : NodeId → RequestVoteArgs → Option RequestVoteReply)
  | handleRequestVote (args : RequestVoteArgs)
  | handleRequestVoteReply (peer : NodeId) (args : RequestVoteArgs) (reply : RequestVoteReply)
  | handleAppendEntries (args : AppendEntriesArgs)
  | handleAppendEntriesReply (peer : NodeId) (args : AppendEntriesArgs) (reply : AppendEntriesReply)
  | propose (record : CommitRecord)
  | updateCommitIndex
  | leaderLoop (pass : Pass)
  | addNode (id : NodeId)
  | removeNode (id : NodeId)
  | completeConfigChange
  | createSnapshot (lastCommittedTxnId rootPageId : UInt64)
  | truncateLogAfterSnapshot
  | handleInstallSnapshot (args : InstallSnapshotArgs)
  | sendSnapshotToFollower (peer : NodeId)

namespace Raft

/-- A call that returns an error early has not changed the node. -/
def orElse (r : Raft) : Except RaftError Raft → Raft
  | .ok r' => r'
  | .error _ => r

/-- The node after a call, and the replication requests the call has sent. -/
def call (r : Raft) : Call → Raft × List Sending
  | .tick expired ask => (r.tick expired ask, [])
  | .startElection ask => (r.startElection ask, [])
  | .handleRequestVote args => ((r.handleRequestVote args).1, [])
  | .handleRequestVoteReply peer args reply => (r.handleRequestVoteReply peer args reply, [])
  | .handleAppendEntries args => ((r.handleAppendEntries args).1, [])
  | .handleAppendEntriesReply peer args reply => (r.handleAppendEntriesReply peer args reply, [])
  | .propose record => (r.orElse ((r.propose record).map Prod.fst), [])
  | .updateCommitIndex => (r.updateCommitIndex.1, [])
  | .leaderLoop pass => r.leaderLoop pass
  | .addNode id => (r.orElse (r.addNode id), [])
  | .removeNode id => (r.orElse (r.removeNode id), [])
  | .completeConfigChange => (r.orElse r.completeConfigChange, [])
  | .createSnapshot txnId rootPageId => (r.orElse (r.createSnapshot txnId rootPageId), [])
  | .truncateLogAfterSnapshot => (r.truncateLogAfterSnapshot, [])
  | .handleInstallSnapshot args => ((r.handleInstallSnapshot args).1, [])
  | .sendSnapshotToFollower peer => (r, ((r.sendSnapshotToFollower peer).toOption).getD [])

def run (r : Raft) : List Call → Raft × List Sending
  | [] => (r, [])
  | c :: calls =>
    let (r, sent) := r.call c
    let (r, later) := r.run calls
    (r, sent ++ later)

def RunMeets (C : Raft → Call → Prop) (r : Raft) : List Call → Prop
  | [] => True
  | c :: calls => C r c ∧ (r.call c).1.RunMeets C calls

theorem run_preserves {C : Raft → Call → Prop} {P : Raft → Prop}
    (hstep : ∀ r c, P r → C r c → P (r.call c).1) {calls : List Call} {r : Raft} (h : P r)
    (hmeets : r.RunMeets C calls) : P (r.run calls).1 := by
  induction calls generalizing r with
  | nil => exact h
  | cons c calls ih => exact ih (hstep r c h hmeets.1) hmeets.2

theorem run_sends {C : Raft → Call → Prop} {Q : Sending → Prop}
    (hstep : ∀ r c, C r c → ∀ s ∈ (r.call c).2, Q s) {calls : List Call} {r : Raft}
    (hmeets : r.RunMeets C calls) : ∀ s ∈ (r.run calls).2, Q s := by
  induction calls generalizing r with
  | nil =>
    intro s hs
    exact absurd hs List.not_mem_nil
  | cons c calls ih =>
    intro s hs
    rcases List.mem_append.mp hs with hs | hs
    · exact hstep r c hmeets.1 s hs
    · exact ih hmeets.2 s hs

@[simp] theorem log_becomeFollower (r : Raft) (term : Nat) :
    (r.becomeFollower term).persistent.log = r.persistent.log := by
  unfold becomeFollower
  dsimp only
  split
  · rfl
  · rfl

@[simp] theorem log_observeTerm (r : Raft) (term : Nat) :
    (r.observeTerm term).persistent.log = r.persistent.log := by
  unfold observeTerm
  split
  · exact log_becomeFollower ..
  · rfl

@[simp] theorem log_handleRequestVoteReply (r : Raft) (peer : NodeId) (args : RequestVoteArgs)
    (reply : RequestVoteReply) :
    (r.handleRequestVoteReply peer args reply).persistent.log = r.persistent.log := by
  unfold handleRequestVoteReply
  dsimp only
  repeat' split
  all_goals first | rfl | exact log_becomeFollower ..

theorem log_askPeers (ask : NodeId → RequestVoteArgs → Option RequestVoteReply)
    (peers : List NodeInfo) (r : Raft) :
    (askPeers ask peers r).persistent.log = r.persistent.log := by
  induction peers generalizing r with
  | nil => rfl
  | cons peer peers ih =>
    unfold askPeers
    dsimp only
    split
    · exact ih r
    · rw [ih, log_handleRequestVoteReply]

@[simp] theorem log_startElection (ask : NodeId → RequestVoteArgs → Option RequestVoteReply)
    (r : Raft) : (r.startElection ask).persistent.log = r.persistent.log :=
  log_askPeers ask r.config.peers r.becomeCandidate

@[simp] theorem log_handleRequestVote (r : Raft) (args : RequestVoteArgs) :
    (r.handleRequestVote args).1.persistent.log = r.persistent.log := by
  unfold handleRequestVote
  dsimp only
  repeat' split
  all_goals first | rfl | exact log_observeTerm ..

@[simp] theorem log_handleAppendEntriesReply (r : Raft) (peer : NodeId) (args : AppendEntriesArgs)
    (reply : AppendEntriesReply) :
    (r.handleAppendEntriesReply peer args reply).persistent.log = r.persistent.log := by
  unfold handleAppendEntriesReply
  repeat' split
  all_goals first | rfl | exact log_becomeFollower ..

@[simp] theorem persistent_applyConfigChange (r : Raft) (change : ConfigChange) :
    (r.applyConfigChange change).persistent = r.persistent := by
  unfold applyConfigChange
  split
  · rfl
  · rfl

@[simp] theorem persistent_applyEntry (r : Raft) (index : Nat) :
    (r.applyEntry index).persistent = r.persistent := by
  unfold applyEntry
  split
  · rfl
  · dsimp only
    repeat' split
    all_goals first | rfl | exact persistent_applyConfigChange ..

@[simp] theorem persistent_applyFrom (r : Raft) (lastApplied n : Nat) :
    (r.applyFrom lastApplied n).persistent = r.persistent := by
  induction n generalizing r lastApplied with
  | zero => rfl
  | succ n ih =>
    unfold applyFrom
    rw [ih, persistent_applyEntry]

@[simp] theorem persistent_applyCommittedEntries (r : Raft) :
    r.applyCommittedEntries.persistent = r.persistent := by
  unfold applyCommittedEntries
  split
  · exact persistent_applyFrom ..
  · exact persistent_applyFrom ..

/-- A call that proposes puts one entry behind the log, numbered from the last one. -/
def Appends (r r' : Raft) : Prop :=
  r'.persistent.log = r.persistent.log ∨
    ∃ e, r'.persistent.log = r.persistent.log ++ [e] ∧ e.index = r.persistent.lastLogIndex + 1

theorem appends_completeConfigChange {r r' : Raft} (h : r.completeConfigChange = .ok r') :
    r.Appends r' := by
  unfold completeConfigChange at h
  split at h
  · cases h
  · split at h
    · cases h
    · cases h
      exact Or.inr ⟨_, rfl, rfl⟩

theorem appends_checkConfigCommitment (r : Raft) : r.Appends r.checkConfigCommitment.1 := by
  unfold checkConfigCommitment
  split
  · next ls _ _ =>
    dsimp only
    split
    · exact Or.inl rfl
    · next index change rest _ =>
      have hsame := persistent_applyConfigChange (r.setLeaderState { ls with commitIndex := index }) change
      split
      · split
        · split
          · next r' hcomplete =>
            have happends := appends_completeConfigChange hcomplete
            unfold Appends at happends ⊢
            rw [hsame] at happends
            exact happends
          · exact Or.inl (congrArg RaftPersistentState.log hsame)
        · exact Or.inl (congrArg RaftPersistentState.log hsame)
      · exact Or.inl rfl
  · exact Or.inl rfl

theorem appends_updateCommitIndex (r : Raft) : r.Appends r.updateCommitIndex.1 := by
  unfold updateCommitIndex
  split
  · next ls _ _ =>
    dsimp only
    have hcheck := appends_checkConfigCommitment
      (r.setLeaderState (ls.advanceCommit r.clusterConfig.majority r.persistent.log))
    split
    · next r' e heq =>
      rw [heq] at hcheck
      exact hcheck
    · next r' heq =>
      rw [heq] at hcheck
      unfold Appends at hcheck ⊢
      rw [persistent_applyCommittedEntries]
      exact hcheck
  · exact Or.inl rfl

@[simp] theorem persistent_servePeer (pass : Pass) (r : Raft) (peer : NodeInfo) :
    (servePeer pass r peer).1.persistent.log = r.persistent.log := by
  unfold servePeer
  dsimp only
  repeat' split
  all_goals first | rfl | exact log_becomeFollower .. | exact log_handleAppendEntriesReply ..

theorem log_servePeers (pass : Pass) (peers : List NodeInfo) (r : Raft) :
    (servePeers pass peers r).1.persistent.log = r.persistent.log := by
  induction peers generalizing r with
  | nil => rfl
  | cons peer peers ih =>
    have hone := persistent_servePeer pass r peer
    unfold servePeers
    split
    · next r' sent heq =>
      rw [heq] at hone
      exact hone
    · next r' sent heq =>
      rw [heq] at hone
      dsimp only
      rw [ih, ← hone]

theorem appends_leaderLoop (pass : Pass) (r : Raft) : r.Appends (r.leaderLoop pass).1 := by
  have hlog := log_servePeers pass r.config.peers r
  unfold leaderLoop
  split
  · exact Or.inl rfl
  · split
    · next r' sent heq =>
      rw [heq] at hlog
      exact Or.inl hlog
    · next r' sent heq =>
      rw [heq] at hlog
      have happends := appends_updateCommitIndex r'
      unfold Appends RaftPersistentState.lastLogIndex at happends ⊢
      rw [hlog] at happends
      exact happends

theorem appends_proposeJoint (r : Raft) (newNodes : List NodeId) :
    r.Appends (r.proposeJoint newNodes) :=
  Or.inr ⟨_, rfl, rfl⟩

theorem logMismatch_congr {p p' : RaftPersistentState} (h : p.log = p'.log)
    (args : AppendEntriesArgs) : logMismatch p args = logMismatch p' args := by
  unfold logMismatch RaftPersistentState.getEntry
  rw [h]

@[simp] theorem persistent_followCommit (r : Raft) (leaderCommit : Nat) :
    (r.followCommit leaderCommit).persistent = r.persistent := by
  unfold followCommit
  split
  · rfl
  · rfl

theorem persistent_acceptEntries (r : Raft) (args : AppendEntriesArgs) :
    (r.acceptEntries args).persistent =
      { r.persistent with log := storeEntries r.persistent.log args.prevLogIndex args.entries } := by
  unfold acceptEntries
  rw [persistent_applyCommittedEntries, persistent_followCommit]
  rfl

theorem log_acceptEntries (r : Raft) (args : AppendEntriesArgs) :
    (r.acceptEntries args).persistent.log =
      storeEntries r.persistent.log args.prevLogIndex args.entries := by
  rw [persistent_acceptEntries]

theorem handleAppendEntries_cases (r : Raft) (args : AppendEntriesArgs) :
    (r.persistent.currentTerm ≤ args.term ∧ logMismatch r.persistent args = false ∧
      (r.handleAppendEntries args).2.success = true ∧
      (r.handleAppendEntries args).1 =
        { r.observeTerm args.term with currentLeaderId := some args.leaderId }.acceptEntries args) ∨
    ((r.handleAppendEntries args).2.success = false ∧
      (r.handleAppendEntries args).1.persistent.log = r.persistent.log ∧
      ¬ (r.persistent.currentTerm ≤ args.term ∧ logMismatch r.persistent args = false)) := by
  have hmismatch := logMismatch_congr (log_observeTerm r args.term) args
  unfold handleAppendEntries
  by_cases hterm : args.term < r.persistent.currentTerm
  · rw [if_pos hterm]
    exact Or.inr ⟨rfl, rfl, fun h => absurd h.1 (Nat.not_le.mpr hterm)⟩
  · rw [if_neg hterm]
    dsimp only
    by_cases hm : logMismatch (r.observeTerm args.term).persistent args = true
    · rw [if_pos hm]
      rw [hmismatch] at hm
      refine Or.inr ⟨rfl, log_observeTerm .., ?_⟩
      rintro ⟨-, hno⟩
      rw [hm] at hno
      cases hno
    · rw [if_neg hm]
      rw [hmismatch, Bool.not_eq_true] at hm
      exact Or.inl ⟨Nat.le_of_not_lt hterm, hm, rfl, rfl⟩

theorem log_handleAppendEntries {r : Raft} {args : AppendEntriesArgs}
    (h : (r.handleAppendEntries args).2.success = true) :
    (r.handleAppendEntries args).1.persistent.log =
      storeEntries r.persistent.log args.prevLogIndex args.entries := by
  rcases handleAppendEntries_cases r args with ⟨-, -, -, heq⟩ | ⟨hno, -⟩
  · rw [heq, log_acceptEntries]
    show storeEntries (r.observeTerm args.term).persistent.log _ _ = _
    rw [log_observeTerm]
  · rw [h] at hno
    cases hno

end Raft

end Northstar.Consensus
