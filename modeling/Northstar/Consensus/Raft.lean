import Northstar.Consensus.Config
import Northstar.Zig.Txn

/-!
# Raft — the state of a node and its calls

`consensus/raft.zig`.  Terms, indices and counters are `u64` in the source; an addition that overflows
is a panic there, and here they are natural numbers.  Timeouts are inputs: the clock says when `tick`
finds the deadline passed.  `applied` records what is passed to `on_apply_entry`, in order; the callback
is one that returns no error, so that `applyEntry` never ends at its `try`.  The lists that `leaderLoop` and
`truncateLogAfterSnapshot` make by `std.ArrayList(..).init` are read as managed lists, as the log is.
-/

namespace Northstar.Consensus

open Zig (CommitRecord)

inductive RaftState where
  | follower
  | candidate
  | leader
  deriving Repr, DecidableEq

structure ConfigChange where
  oldNodes : List NodeId
  newNodes : List NodeId
  isJoint : Bool
  deriving Repr, DecidableEq

inductive Command where
  | normal (record : CommitRecord)
  | config (change : ConfigChange)
  deriving Repr, DecidableEq

structure LogEntry where
  term : Nat
  index : Nat
  command : Command
  deriving Repr, DecidableEq

def LogEntry.fromCommitRecord (term index : Nat) (record : CommitRecord) : LogEntry :=
  ⟨term, index, .normal record⟩

def LogEntry.fromConfigChange (term index : Nat) (oldNodes newNodes : List NodeId)
    (isJoint : Bool) : LogEntry :=
  ⟨term, index, .config ⟨oldNodes, newNodes, isJoint⟩⟩

structure RaftPersistentState where
  currentTerm : Nat := 0
  votedFor : Option NodeId := none
  log : List LogEntry := []
  deriving Repr, DecidableEq

namespace RaftPersistentState

def lastLogIndex (p : RaftPersistentState) : Nat :=
  match p.log.getLast? with
  | none => 0
  | some entry => entry.index

def lastLogTerm (p : RaftPersistentState) : Nat :=
  match p.log.getLast? with
  | none => 0
  | some entry => entry.term

def getEntry (p : RaftPersistentState) (index : Nat) : Option LogEntry :=
  if index = 0 then none
  else if index > p.log.length then none
  else p.log[index - 1]?

def appendEntry (p : RaftPersistentState) (entry : LogEntry) : RaftPersistentState :=
  { p with log := p.log ++ [entry] }

end RaftPersistentState

-- Keeps `index` entries, so that the entry at `index` itself survives.
def truncateFrom (log : List LogEntry) (index : Nat) : List LogEntry :=
  if index ≥ log.length then log else log.take index

structure IndexMap where
  entries : List (NodeId × Nat) := []
  deriving Repr, DecidableEq

namespace IndexMap

def get (m : IndexMap) (id : NodeId) : Option Nat := m.entries.lookup id

def put (m : IndexMap) (id : NodeId) (value : Nat) : IndexMap :=
  ⟨(id, value) :: m.entries.filter (fun e => e.1 ≠ id)⟩

def values (m : IndexMap) : List Nat := m.entries.map Prod.snd

end IndexMap

structure LeaderVolatileState where
  commitIndex : Nat := 0
  lastApplied : Nat := 0
  nextIndex : IndexMap
  matchIndex : IndexMap
  deriving Repr, DecidableEq

def LeaderVolatileState.init (peerIds : List NodeId) (lastLogIndex : Nat) : LeaderVolatileState where
  nextIndex := peerIds.foldl (fun m id => m.put id (lastLogIndex + 1)) {}
  matchIndex := peerIds.foldl (fun m id => m.put id 0) {}

structure FollowerVolatileState where
  commitIndex : Nat := 0
  lastApplied : Nat := 0
  deriving Repr, DecidableEq

structure Snapshot where
  lastIncludedIndex : Nat
  lastIncludedTerm : Nat
  lastCommittedTxnId : UInt64
  rootPageId : UInt64
  deriving Repr, DecidableEq

def Snapshot.covers (snap : Snapshot) (index : Nat) : Bool := index ≤ snap.lastIncludedIndex

structure Raft where
  config : RaftConfig
  role : RaftState := .follower
  persistent : RaftPersistentState := {}
  leaderState : Option LeaderVolatileState := none
  followerState : FollowerVolatileState := {}
  currentLeaderId : Option NodeId := none
  votesReceived : Finset NodeId := ∅
  currentSnapshot : Option Snapshot := none
  clusterConfig : ClusterConfig
  pendingConfigChange : Option ConfigChange := none
  applied : List LogEntry := []

structure RequestVoteArgs where
  term : Nat
  candidateId : NodeId
  lastLogIndex : Nat
  lastLogTerm : Nat
  deriving Repr, DecidableEq

structure RequestVoteReply where
  term : Nat
  voteGranted : Bool
  deriving Repr, DecidableEq

structure AppendEntriesArgs where
  term : Nat
  leaderId : NodeId
  prevLogIndex : Nat
  prevLogTerm : Nat
  entries : List LogEntry
  leaderCommit : Nat
  deriving Repr, DecidableEq

structure AppendEntriesReply where
  term : Nat
  success : Bool
  conflictIndex : Option Nat := none
  conflictTerm : Option Nat := none
  deriving Repr, DecidableEq

structure InstallSnapshotArgs where
  term : Nat
  leaderId : NodeId
  lastIncludedIndex : Nat
  lastIncludedTerm : Nat
  snapshot : Snapshot
  deriving Repr, DecidableEq

structure InstallSnapshotReply where
  term : Nat
  deriving Repr, DecidableEq

namespace Raft

def start (cfg : RaftConfig) : Raft where
  config := cfg
  clusterConfig := .initSingle cfg.getClusterNodes

def init (cfg : RaftConfig) : Except RaftError Raft := do
  cfg.validate
  .ok (start cfg)

def becomeFollower (r : Raft) (newTerm : Nat) : Raft :=
  { r with
    role := .follower
    persistent :=
      if newTerm > r.persistent.currentTerm then
        { r.persistent with currentTerm := newTerm, votedFor := none }
      else r.persistent
    leaderState := none
    votesReceived := ∅ }

def becomeCandidate (r : Raft) : Raft :=
  { r with
    role := .candidate
    persistent :=
      { r.persistent with
        currentTerm := r.persistent.currentTerm + 1
        votedFor := some r.config.nodeId }
    votesReceived := {r.config.nodeId} }

def becomeLeader (r : Raft) : Raft :=
  { r with
    role := .leader
    leaderState :=
      some (.init (r.config.peers.map NodeInfo.id) r.persistent.lastLogIndex) }

/-- "If term > current_term, become follower": the three request handlers start with it. -/
def observeTerm (r : Raft) (term : Nat) : Raft :=
  if term > r.persistent.currentTerm then r.becomeFollower term else r

def setLeaderState (r : Raft) (ls : LeaderVolatileState) : Raft := { r with leaderState := some ls }

def requestVoteArgs (r : Raft) : RequestVoteArgs where
  term := r.persistent.currentTerm
  candidateId := r.config.nodeId
  lastLogIndex := r.persistent.lastLogIndex
  lastLogTerm := r.persistent.lastLogTerm

def handleRequestVoteReply (r : Raft) (peerId : NodeId) (args : RequestVoteArgs)
    (reply : RequestVoteReply) : Raft :=
  if reply.term > r.persistent.currentTerm then r.becomeFollower reply.term
  else if r.role ≠ .candidate then r
  else if r.persistent.currentTerm ≠ args.term then r
  else if reply.voteGranted then
    let r := { r with votesReceived := insert peerId r.votesReceived }
    if r.votesReceived.card ≥ r.config.majority then r.becomeLeader else r
  else r

/-- The loop of `startElection`.  `ask` is the callback; `none` stands for an error it returns.  The
arguments are built anew for every peer. -/
def askPeers (ask : NodeId → RequestVoteArgs → Option RequestVoteReply) :
    List NodeInfo → Raft → Raft
  | [], r => r
  | peer :: peers, r =>
    let args := r.requestVoteArgs
    match ask peer.id args with
    | none => askPeers ask peers r
    | some reply => askPeers ask peers (r.handleRequestVoteReply peer.id args reply)

def startElection (ask : NodeId → RequestVoteArgs → Option RequestVoteReply) (r : Raft) : Raft :=
  askPeers ask r.config.peers r.becomeCandidate

def tick (expired : Bool) (ask : NodeId → RequestVoteArgs → Option RequestVoteReply) (r : Raft) :
    Raft :=
  if expired ∧ r.role ≠ .leader then startElection ask r else r

/-- `log_ok and vote_ok` of `handleRequestVote`. -/
def grants (r : Raft) (args : RequestVoteArgs) : Bool :=
  let logOk := args.lastLogTerm > r.persistent.lastLogTerm ∨
    (args.lastLogTerm = r.persistent.lastLogTerm ∧ args.lastLogIndex ≥ r.persistent.lastLogIndex)
  let voteOk := r.persistent.votedFor = none ∨ r.persistent.votedFor = some args.candidateId
  voteOk ∧ logOk

def handleRequestVote (r : Raft) (args : RequestVoteArgs) : Raft × RequestVoteReply :=
  if args.term < r.persistent.currentTerm then (r, ⟨r.persistent.currentTerm, false⟩)
  else
    let r := r.observeTerm args.term
    if r.grants args then
      ({ r with persistent := { r.persistent with votedFor := some args.candidateId } },
        ⟨r.persistent.currentTerm, true⟩)
    else (r, ⟨r.persistent.currentTerm, false⟩)

def applyConfigChange (r : Raft) (change : ConfigChange) : Raft :=
  if change.isJoint then
    { r with clusterConfig := .initJoint change.oldNodes change.newNodes }
  else
    { r with
      clusterConfig := r.clusterConfig.transitionTo change.newNodes
      pendingConfigChange := none }

def completeConfigChange (r : Raft) : Except RaftError Raft :=
  if r.role ≠ .leader then .error .notLeader
  else
    match r.pendingConfigChange with
    | none => .error .noPendingConfigChange
    | some pending =>
      let entry := LogEntry.fromConfigChange r.persistent.currentTerm
        (r.persistent.lastLogIndex + 1) pending.newNodes pending.newNodes false
      .ok { r with
        persistent := r.persistent.appendEntry entry
        clusterConfig := r.clusterConfig.transitionTo pending.newNodes
        pendingConfigChange := none }

/-- What `addNode` and `removeNode` share: the entry C_old,new and the pending change. -/
def proposeJoint (r : Raft) (newNodes : List NodeId) : Raft :=
  let currentNodes := r.clusterConfig.getNodes
  { r with
    persistent := r.persistent.appendEntry
      (.fromConfigChange r.persistent.currentTerm (r.persistent.lastLogIndex + 1) currentNodes
        newNodes true)
    pendingConfigChange := some ⟨currentNodes, newNodes, true⟩ }

def addNode (r : Raft) (nodeId : NodeId) : Except RaftError Raft :=
  if r.role ≠ .leader then .error .notLeader
  else if r.clusterConfig.contains nodeId then .error .nodeAlreadyExists
  else if r.pendingConfigChange ≠ none then .error .configChangeInProgress
  else .ok (r.proposeJoint (r.clusterConfig.getNodes ++ [nodeId]))

def removeNode (r : Raft) (nodeId : NodeId) : Except RaftError Raft :=
  if r.role ≠ .leader then .error .notLeader
  else if ¬ r.clusterConfig.contains nodeId then .error .nodeNotFound
  else if nodeId = r.config.nodeId then .error .cannotRemoveLeader
  else if r.pendingConfigChange ≠ none then .error .configChangeInProgress
  else .ok (r.proposeJoint (r.clusterConfig.getNodes.filter (· ≠ nodeId)))

def propose (r : Raft) (record : CommitRecord) : Except RaftError (Raft × Nat) :=
  if r.role ≠ .leader then .error .notLeader
  else
    let index := r.persistent.lastLogIndex + 1
    let entry := LogEntry.fromCommitRecord r.persistent.currentTerm index record
    .ok ({ r with persistent := r.persistent.appendEntry entry }, index)

end Raft

/-- The leader and the peers whose `match_index` has reached `index`. -/
def LeaderVolatileState.replicatedCount (ls : LeaderVolatileState) (index : Nat) : Nat :=
  1 + ls.matchIndex.values.countP (fun value => index ≤ value)

/-- The loop of `updateCommitIndex` over the log. -/
def LeaderVolatileState.advanceCommit (majority : Nat) (log : List LogEntry)
    (ls : LeaderVolatileState) : LeaderVolatileState :=
  log.foldl
    (fun ls entry =>
      if entry.index ≤ ls.commitIndex then ls
      else if ls.replicatedCount entry.index ≥ majority then { ls with commitIndex := entry.index }
      else ls)
    ls

namespace Raft

/-- `checkConfigCommitment`: the first configuration entry beyond `commit_index`.  An error comes from
`completeConfigChange`, after the entry has been applied. -/
def checkConfigCommitment (r : Raft) : Raft × Option RaftError :=
  match r.role, r.leaderState with
  | .leader, some ls =>
    let uncommitted := r.persistent.log.filterMap fun entry =>
      match entry.command with
      | .config change => if entry.index ≤ ls.commitIndex then none else some (entry.index, change)
      | .normal _ => none
    match uncommitted with
    | [] => (r, none)
    | (index, change) :: _ =>
      if ls.replicatedCount index ≥ r.clusterConfig.majority then
        let r := (r.setLeaderState { ls with commitIndex := index }).applyConfigChange change
        if change.isJoint then
          match r.completeConfigChange with
          | .ok r => (r, none)
          | .error e => (r, some e)
        else (r, none)
      else (r, none)
  | _, _ => (r, none)

/-- One turn of `applyCommittedEntries`. -/
def applyEntry (r : Raft) (index : Nat) : Raft :=
  match r.persistent.getEntry index with
  | none => r
  | some entry =>
    let r :=
      match entry.command with
      | .config change => if r.role ≠ RaftState.leader then r.applyConfigChange change else r
      | .normal _ => r
    { r with applied := r.applied ++ [entry] }

def applyFrom (r : Raft) : Nat → Nat → Raft
  | _, 0 => r
  | lastApplied, n + 1 => applyFrom (r.applyEntry (lastApplied + 1)) (lastApplied + 1) n

/-- The counters are those of the leader while the node leads, and of the follower otherwise. -/
def applyCommittedEntries (r : Raft) : Raft :=
  match r.role, r.leaderState with
  | .leader, some ls =>
    (r.applyFrom ls.lastApplied (ls.commitIndex - ls.lastApplied)).setLeaderState
      { ls with lastApplied := max ls.lastApplied ls.commitIndex }
  | _, _ =>
    let fs := r.followerState
    let r := r.applyFrom fs.lastApplied (fs.commitIndex - fs.lastApplied)
    { r with followerState := { fs with lastApplied := max fs.lastApplied fs.commitIndex } }

def updateCommitIndex (r : Raft) : Raft × Option RaftError :=
  match r.role, r.leaderState with
  | .leader, some ls =>
    let ls := ls.advanceCommit r.clusterConfig.majority r.persistent.log
    match (r.setLeaderState ls).checkConfigCommitment with
    | (r, some e) => (r, some e)
    | (r, none) => (r.applyCommittedEntries, none)
  | _, _ => (r, none)

/-- The last entry of a term, looked for from `i` down. -/
def findConflict (p : RaftPersistentState) (term : Nat) : Nat → Option Nat
  | 0 => none
  | i + 1 =>
    match p.getEntry (i + 1) with
    | some entry => if entry.term = term then some (i + 1) else findConflict p term i
    | none => findConflict p term i

/-- The conflict scan of `handleAppendEntries`, at `newIndex`. -/
def truncateConflicts (log : List LogEntry) : Nat → List LogEntry → List LogEntry
  | _, [] => log
  | newIndex, entry :: entries =>
    match log[newIndex - 1]? with
    | some old =>
      if log.length > newIndex ∧ old.term ≠ entry.term then truncateFrom log newIndex
      else truncateConflicts log (newIndex + 1) entries
    | none => truncateConflicts log (newIndex + 1) entries

/-- What `handleAppendEntries` does to the log.  The entries are appended whether the log has them or
not. -/
def storeEntries (log : List LogEntry) (prevLogIndex : Nat) (entries : List LogEntry) :
    List LogEntry :=
  if entries.isEmpty then log else truncateConflicts log (prevLogIndex + 1) entries ++ entries

/-- `prev_entry == null or prev_entry.?.term != args.prev_log_term`. -/
def logMismatch (p : RaftPersistentState) (args : AppendEntriesArgs) : Bool :=
  decide (args.prevLogIndex > 0) &&
    match p.getEntry args.prevLogIndex with
    | none => true
    | some entry => entry.term != args.prevLogTerm

def conflictReply (p : RaftPersistentState) (args : AppendEntriesArgs) : AppendEntriesReply :=
  let conflictTerm := match p.getEntry args.prevLogIndex with
    | some entry => entry.term
    | none => 0
  { term := p.currentTerm
    success := false
    conflictIndex := if conflictTerm > 0 then findConflict p conflictTerm p.lastLogIndex else none
    conflictTerm := if conflictTerm > 0 then some conflictTerm else none }

def setLog (r : Raft) (log : List LogEntry) : Raft :=
  { r with persistent := { r.persistent with log := log } }

/-- "Update commit index" of `handleAppendEntries`. -/
def followCommit (r : Raft) (leaderCommit : Nat) : Raft :=
  if leaderCommit > r.followerState.commitIndex then
    { r with followerState := { r.followerState with
        commitIndex := min leaderCommit r.persistent.lastLogIndex } }
  else r

/-- The accepted case: the log, then the commit index, then the state machine. -/
def acceptEntries (r : Raft) (args : AppendEntriesArgs) : Raft :=
  let r := r.setLog (storeEntries r.persistent.log args.prevLogIndex args.entries)
  (r.followCommit args.leaderCommit).applyCommittedEntries

def handleAppendEntries (r : Raft) (args : AppendEntriesArgs) : Raft × AppendEntriesReply :=
  if args.term < r.persistent.currentTerm then
    (r, { term := r.persistent.currentTerm, success := false })
  else
    let r := { r.observeTerm args.term with currentLeaderId := some args.leaderId }
    if logMismatch r.persistent args then (r, conflictReply r.persistent args)
    else
      let r := r.acceptEntries args
      (r, { term := r.persistent.currentTerm, success := true })

/-- The request for a peer whose next entry is `nextIdx`. -/
def appendEntriesArgs (r : Raft) (nextIdx leaderCommit : Nat) : AppendEntriesArgs :=
  let prevIdx := if nextIdx > 1 then nextIdx - 1 else 0
  { term := r.persistent.currentTerm
    leaderId := r.config.nodeId
    prevLogIndex := prevIdx
    prevLogTerm := match r.persistent.getEntry prevIdx with
      | some entry => entry.term
      | none => 0
    entries := (List.range' nextIdx (r.persistent.lastLogIndex + 1 - nextIdx)).filterMap
      r.persistent.getEntry
    leaderCommit := leaderCommit }

/-- The request `leaderLoop` builds for a peer.  `stale` is what the memory behind `leader_state` reads
as once `becomeFollower` has released it. -/
def appendRequest (r : Raft) (stale : LeaderVolatileState) (peerId : NodeId) : AppendEntriesArgs :=
  let ls := r.leaderState.getD stale
  r.appendEntriesArgs ((ls.nextIndex.get peerId).getD 1) ls.commitIndex

def handleAppendEntriesReply (r : Raft) (peerId : NodeId) (args : AppendEntriesArgs)
    (reply : AppendEntriesReply) : Raft :=
  match r.role, r.leaderState with
  | .leader, some ls =>
    if reply.term > r.persistent.currentTerm then r.becomeFollower reply.term
    else if reply.success then
      match args.entries.getLast? with
      | some last =>
        r.setLeaderState { ls with
          nextIndex := ls.nextIndex.put peerId (last.index + 1)
          matchIndex := ls.matchIndex.put peerId last.index }
      | none => r
    else
      match reply.conflictIndex with
      | some conflictIdx =>
        r.setLeaderState { ls with nextIndex := ls.nextIndex.put peerId conflictIdx }
      | none =>
        let nextIdx := (ls.nextIndex.get peerId).getD 1
        r.setLeaderState { ls with nextIndex := ls.nextIndex.put peerId (max 1 (nextIdx - 1)) }
  | _, _ => r

end Raft

inductive Request where
  | appendEntries (args : AppendEntriesArgs)
  | installSnapshot (args : InstallSnapshotArgs)
  deriving Repr, DecidableEq

def Request.term : Request → Nat
  | .appendEntries args => args.term
  | .installSnapshot args => args.term

/-- A request, and what the node was when it called the callback. -/
structure Sending where
  peer : NodeId
  request : Request
  role : RaftState
  currentTerm : Nat
  deriving Repr, DecidableEq

/-- What a pass of the leader loop gets from outside: the callbacks that are set, with one answer per
peer (`none` is an error), and what released memory reads as. -/
structure Pass where
  appendEntries : Option (NodeId → Option AppendEntriesReply)
  installSnapshot : Option (NodeId → Option InstallSnapshotReply)
  stale : LeaderVolatileState

namespace Raft

def sending (r : Raft) (peer : NodeId) (request : Request) : Sending :=
  ⟨peer, request, r.role, r.persistent.currentTerm⟩

def installSnapshotArgs (r : Raft) (snap : Snapshot) : InstallSnapshotArgs where
  term := r.persistent.currentTerm
  leaderId := r.config.nodeId
  lastIncludedIndex := snap.lastIncludedIndex
  lastIncludedTerm := snap.lastIncludedTerm
  snapshot := snap

/-- The snapshot a follower at `nextIdx` needs, with the callback for it. -/
def snapshotFor (r : Raft) (pass : Pass) (nextIdx : Nat) :
    Option (Snapshot × (NodeId → Option InstallSnapshotReply)) :=
  match r.currentSnapshot, pass.installSnapshot with
  | some snap, some call => if nextIdx ≤ snap.lastIncludedIndex then some (snap, call) else none
  | _, _ => none

/-- One turn of `leaderLoop`; `false` if the loop returns. -/
def servePeer (pass : Pass) (r : Raft) (peer : NodeInfo) : Raft × List Sending × Bool :=
  let ls := r.leaderState.getD pass.stale
  let nextIdx := (ls.nextIndex.get peer.id).getD 1
  match r.snapshotFor pass nextIdx with
  | some (snap, call) =>
    let sent := [r.sending peer.id (.installSnapshot (r.installSnapshotArgs snap))]
    match call peer.id with
    | none => (r, sent, true)
    | some reply =>
      if reply.term > r.persistent.currentTerm then (r.becomeFollower reply.term, sent, false)
      else
        ({ r with leaderState := r.leaderState.map fun ls => { ls with
            nextIndex := ls.nextIndex.put peer.id (snap.lastIncludedIndex + 1)
            matchIndex := ls.matchIndex.put peer.id snap.lastIncludedIndex } }, sent, true)
  | none =>
    let args := r.appendRequest pass.stale peer.id
    match pass.appendEntries with
    | none => (r, [], true)
    | some call =>
      let sent := [r.sending peer.id (.appendEntries args)]
      match call peer.id with
      | none => (r, sent, true)
      | some reply => (r.handleAppendEntriesReply peer.id args reply, sent, true)

def servePeers (pass : Pass) : List NodeInfo → Raft → Raft × List Sending × Bool
  | [], r => (r, [], true)
  | peer :: peers, r =>
    match servePeer pass r peer with
    | (r, sent, false) => (r, sent, false)
    | (r, sent, true) =>
      let (r, later, finished) := servePeers pass peers r
      (r, sent ++ later, finished)

def leaderLoop (pass : Pass) (r : Raft) : Raft × List Sending :=
  if r.role ≠ .leader then (r, [])
  else
    match servePeers pass r.config.peers r with
    | (r, sent, false) => (r, sent)
    | (r, sent, true) => (r.updateCommitIndex.1, sent)

def createSnapshot (r : Raft) (lastCommittedTxnId rootPageId : UInt64) : Except RaftError Raft :=
  match r.role, r.leaderState with
  | .leader, some ls =>
    if ls.lastApplied = 0 then .ok r
    else
      match r.persistent.getEntry ls.lastApplied with
      | none => .ok r
      | some last =>
        let snap : Snapshot := ⟨last.index, last.term, lastCommittedTxnId, rootPageId⟩
        .ok { r with currentSnapshot := some snap }
  | _, _ => .error .notLeader

def truncateLogAfterSnapshot (r : Raft) : Raft :=
  match r.currentSnapshot with
  | none => r
  | some snap =>
    if snap.lastIncludedIndex = 0 then r
    else
      let skip (ls : LeaderVolatileState) (peer : NodeInfo) : LeaderVolatileState :=
        match ls.nextIndex.get peer.id with
        | none => ls
        | some nextIdx =>
          if nextIdx ≤ snap.lastIncludedIndex then
            { ls with nextIndex := ls.nextIndex.put peer.id (snap.lastIncludedIndex + 1) }
          else ls
      { r with
        persistent := { r.persistent with log := r.persistent.log.drop snap.lastIncludedIndex }
        leaderState := r.leaderState.map fun ls =>
          if r.role = .leader then r.config.peers.foldl skip ls else ls }

/-- `commit_idx` and `last_applied` are raised in the structure of the role. -/
def raiseCounters (r : Raft) (index : Nat) : Raft :=
  match r.role, r.leaderState with
  | .leader, some ls =>
    r.setLeaderState { ls with
      commitIndex := max ls.commitIndex index
      lastApplied := max ls.lastApplied index }
  | _, _ =>
    { r with followerState := { r.followerState with
        commitIndex := max r.followerState.commitIndex index
        lastApplied := max r.followerState.lastApplied index } }

def handleInstallSnapshot (r : Raft) (args : InstallSnapshotArgs) : Raft × InstallSnapshotReply :=
  if args.term < r.persistent.currentTerm then (r, ⟨r.persistent.currentTerm⟩)
  else
    let r := { r.observeTerm args.term with currentLeaderId := some args.leaderId }
    let snap := args.snapshot
    if (r.currentSnapshot.map (·.covers snap.lastIncludedIndex)).getD false then
      (r, ⟨r.persistent.currentTerm⟩)
    else
      let r := { r with
        currentSnapshot := some snap
        persistent := { r.persistent with
          log :=
            if snap.lastIncludedIndex > 0 then truncateFrom r.persistent.log snap.lastIncludedIndex
            else r.persistent.log } }
      (r.raiseCounters snap.lastIncludedIndex, ⟨r.persistent.currentTerm⟩)

def sendSnapshotToFollower (r : Raft) (peerId : NodeId) : Except RaftError (List Sending) :=
  if r.role ≠ .leader then .error .notLeader
  else
    match r.currentSnapshot with
    | none => .error .noSnapshot
    | some snap => .ok [r.sending peerId (.installSnapshot (r.installSnapshotArgs snap))]

end Raft

end Northstar.Consensus
