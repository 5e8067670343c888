import Northstar.Consensus.Append

/-!
# Cluster — nodes that exchange messages

An odd number of nodes, each configured with all others as peers, and a network that may delay, lose,
repeat and reorder messages: whatever was sent can be delivered at any later time, any number of
times.  `startElection` and `leaderLoop` call out once per peer; here they are cut at these calls, so
that anything can happen in between.
-/

namespace Northstar.Consensus

open Zig (CommitRecord)

structure Setup where
  members : Finset NodeId
  config : NodeId → RaftConfig
  half : Nat
  own : ∀ i ∈ members, (config i).nodeId = i
  nodes : ∀ i ∈ members, (config i).getClusterNodes.toFinset = members
  valid : ∀ i ∈ members, (config i).validate = .ok ()
  odd : members.card = 2 * half + 1

inductive Message where
  | requestVote (dest : NodeId) (args : RequestVoteArgs)
  | requestVoteReply (voter : NodeId) (args : RequestVoteArgs) (reply : RequestVoteReply)
  | appendEntries (dest : NodeId) (args : AppendEntriesArgs)
  | appendEntriesReply (peer : NodeId) (args : AppendEntriesArgs) (reply : AppendEntriesReply)
  deriving Repr, DecidableEq

/-- A node with the peers its election loop has still to ask and its leader loop has still to
serve. -/
structure Node where
  raft : Raft
  asking : List NodeInfo := []
  serving : List NodeInfo := []

def Node.id (n : Node) : NodeId := n.raft.config.nodeId

inductive Event where
  | startElection
  | askPeer
  | handleRequestVote (args : RequestVoteArgs)
  | handleRequestVoteReply (peer : NodeId) (args : RequestVoteArgs) (reply : RequestVoteReply)
  | handleAppendEntries (args : AppendEntriesArgs)
  | handleAppendEntriesReply (peer : NodeId) (args : AppendEntriesArgs) (reply : AppendEntriesReply)
  | propose (record : CommitRecord)
  | beginPass
  | servePeer (stale : LeaderVolatileState)
  | updateCommitIndex
  | restart

namespace Node

/-- A handler runs on a message that was sent to the node. -/
def Enabled (sent : List Message) (n : Node) : Event → Prop
  | .handleRequestVote args => .requestVote n.id args ∈ sent
  | .handleRequestVoteReply peer args reply =>
    .requestVoteReply peer args reply ∈ sent ∧ args.candidateId = n.id
  | .handleAppendEntries args => .appendEntries n.id args ∈ sent
  | .handleAppendEntriesReply peer args reply =>
    .appendEntriesReply peer args reply ∈ sent ∧ args.leaderId = n.id
  | _ => True

instance (sent : List Message) (n : Node) : DecidablePred (n.Enabled sent)
  | .handleRequestVote _ | .handleAppendEntries _ => inferInstanceAs (Decidable (_ ∈ _))
  | .handleRequestVoteReply .. | .handleAppendEntriesReply .. => inferInstanceAs (Decidable (_ ∧ _))
  | .startElection | .askPeer | .propose _ | .beginPass | .servePeer _ | .updateCommitIndex
  | .restart => .isTrue trivial

def restarted (r : Raft) : Raft := { Raft.start r.config with persistent := r.persistent }

/-- The node after an event, and the messages it sends. -/
def step (n : Node) : Event → Node × List Message
  | .startElection => ({ n with raft := n.raft.becomeCandidate, asking := n.raft.config.peers }, [])
  | .askPeer =>
    match n.asking with
    | [] => (n, [])
    | peer :: peers =>
      ({ n with asking := peers }, [.requestVote peer.id n.raft.requestVoteArgs])
  | .handleRequestVote args =>
    ({ n with raft := (n.raft.handleRequestVote args).1 },
      [.requestVoteReply n.id args (n.raft.handleRequestVote args).2])
  | .handleRequestVoteReply peer args reply =>
    ({ n with raft := n.raft.handleRequestVoteReply peer args reply }, [])
  | .handleAppendEntries args =>
    ({ n with raft := (n.raft.handleAppendEntries args).1 },
      [.appendEntriesReply n.id args (n.raft.handleAppendEntries args).2])
  | .handleAppendEntriesReply peer args reply =>
    ({ n with raft := n.raft.handleAppendEntriesReply peer args reply }, [])
  | .propose record =>
    ({ n with raft := n.raft.orElse ((n.raft.propose record).map Prod.fst) }, [])
  | .beginPass =>
    (if n.raft.role = .leader then { n with serving := n.raft.config.peers } else n, [])
  | .servePeer stale =>
    match n.serving with
    | [] => (n, [])
    | peer :: peers =>
      ({ n with serving := peers }, [.appendEntries peer.id (n.raft.appendRequest stale peer.id)])
  | .updateCommitIndex => ({ n with raft := n.raft.updateCommitIndex.1 }, [])
  | .restart => (⟨restarted n.raft, [], []⟩, [])

end Node

structure Cluster where
  node : NodeId → Node
  sent : List Message

namespace Cluster

def initial (S : Setup) : Cluster where
  node i := { raft := .start (S.config i) }
  sent := []

def after (c : Cluster) (i : NodeId) (e : Event) : Cluster where
  node := Function.update c.node i ((c.node i).step e).1
  sent := c.sent ++ ((c.node i).step e).2

/-- The clusters a run leads to whose events all meet a condition. -/
inductive Reaches (S : Setup) (C : Node → Event → Prop) (c : Cluster) : Cluster → Prop
  | refl : Reaches S C c c
  | step {c' : Cluster} {i : NodeId} {e : Event} (before : Reaches S C c c') (member : i ∈ S.members)
      (enabled : (c'.node i).Enabled c'.sent e) (meets : C (c'.node i) e) :
      Reaches S C c (c'.after i e)

variable {c : Cluster} {i j : NodeId} {e : Event}

@[simp] theorem node_after_self : (c.after i e).node i = ((c.node i).step e).1 :=
  Function.update_self ..

theorem node_after_ne (h : j ≠ i) : (c.after i e).node j = c.node j :=
  Function.update_of_ne h ..

theorem mem_sent_after {m : Message} :
    m ∈ (c.after i e).sent ↔ m ∈ c.sent ∨ m ∈ ((c.node i).step e).2 :=
  List.mem_append

variable {S : Setup} {C : Node → Event → Prop}

theorem Reaches.preserves {P : Cluster → Prop}
    (hstep : ∀ c i e, P c → i ∈ S.members → (c.node i).Enabled c.sent e → C (c.node i) e →
      P (c.after i e))
    {c c' : Cluster} (h : Reaches S C c c') (hc : P c) : P c' := by
  induction h with
  | refl => exact hc
  | step _ member enabled meets ih => exact hstep _ _ _ ih member enabled meets

def play (c : Cluster) : List (NodeId × Event) → Cluster
  | [] => c
  | (i, e) :: events => (c.after i e).play events

/-- The events can happen in this order, and meet the condition. -/
def Legal (S : Setup) (C : Node → Event → Prop) (c : Cluster) : List (NodeId × Event) → Prop
  | [] => True
  | (i, e) :: events =>
    (i ∈ S.members ∧ (c.node i).Enabled c.sent e ∧ C (c.node i) e) ∧ (c.after i e).Legal S C events

instance decidableLegal {S : Setup} {C : Node → Event → Prop} [∀ n e, Decidable (C n e)]
    (c : Cluster) (events : List (NodeId × Event)) : Decidable (c.Legal S C events) :=
  match events with
  | [] => .isTrue trivial
  | (i, e) :: events =>
    have := decidableLegal (S := S) (C := C) (c.after i e) events
    inferInstanceAs (Decidable ((i ∈ S.members ∧ (c.node i).Enabled c.sent e ∧ C (c.node i) e) ∧
      (c.after i e).Legal S C events))

theorem Reaches.trans {c c' c'' : Cluster}
    (h : Reaches S C c c') (h' : Reaches S C c' c'') : Reaches S C c c'' := by
  induction h' with
  | refl => exact h
  | step _ member enabled meets ih => exact .step ih member enabled meets

theorem reaches_play
    {events : List (NodeId × Event)} (h : c.Legal S C events) : Reaches S C c (c.play events) := by
  induction events generalizing c with
  | nil => exact .refl
  | cons event events ih =>
    have hfirst : Reaches S C c (c.after event.1 event.2) :=
      .step .refl h.1.1 h.1.2.1 h.1.2.2
    exact hfirst.trans (ih h.2)

end Cluster

theorem forall_three {P : NodeId → Prop} (h₁ : P 1) (h₂ : P 2) (h₃ : P 3) :
    ∀ i ∈ ({1, 2, 3} : Finset NodeId), P i := by
  intro i hi
  simp only [Finset.mem_insert, Finset.mem_singleton] at hi
  rcases hi with rfl | rfl | rfl
  · exact h₁
  · exact h₂
  · exact h₃

/-- Nodes 1, 2 and 3. -/
def threeSetup : Setup where
  members := {1, 2, 3}
  config i := if i = 1 then threeNodes 1 2 3 else if i = 2 then threeNodes 2 1 3 else threeNodes 3 1 2
  half := 1
  own := forall_three (by decide) (by decide) (by decide)
  nodes := forall_three (by decide) (by decide) (by decide)
  valid := forall_three (by decide) (by decide) (by decide)
  odd := rfl

end Northstar.Consensus
