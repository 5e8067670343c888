import Northstar.Lib.ReplicatedLog
import Mathlib.Data.List.Dedup
import Mathlib.Data.Finset.Dedup
import Mathlib.Algebra.Group.Nat.Even

/-!
# Config — cluster configurations and their quorums

`consensus/config.zig`.  A node counts the votes of an election against `RaftConfig.majority`, and the
copies of a log entry against `ClusterConfig.majority`.
-/

namespace Northstar.Consensus

abbrev NodeId := UInt64

structure NodeInfo where
  id : NodeId
  address : String
  deriving Repr, DecidableEq

/-- The errors of `config.zig` and `raft.zig`. -/
inductive RaftError where
  | duplicateNodeId
  | invalidElectionTimeout
  | heartbeatTooLarge
  | tooFewPeers
  | notLeader
  | nodeAlreadyExists
  | nodeNotFound
  | cannotRemoveLeader
  | configChangeInProgress
  | noPendingConfigChange
  | noSnapshot
  deriving Repr, DecidableEq

inductive ClusterConfig where
  | single (nodes : List NodeId)
  | joint (old new : List NodeId)
  deriving Repr, DecidableEq

namespace ClusterConfig

def initSingle (nodes : List NodeId) : ClusterConfig := .single nodes

def initJoint (oldNodes newNodes : List NodeId) : ClusterConfig := .joint oldNodes newNodes

def getNodes : ClusterConfig → List NodeId
  | .single nodes => nodes
  | .joint _ new => new

def majority : ClusterConfig → Nat
  | .single nodes => nodes.length / 2 + 1
  | .joint old new => max (old.length / 2 + 1) (new.length / 2 + 1)

def contains : ClusterConfig → NodeId → Bool
  | .single nodes, nodeId => nodes.contains nodeId
  | .joint old new, nodeId => old.contains nodeId || new.contains nodeId

def transitionTo (_ : ClusterConfig) (newNodes : List NodeId) : ClusterConfig := .single newNodes

end ClusterConfig

structure RaftConfig where
  nodeId : NodeId
  peers : List NodeInfo
  electionTimeoutMinMs : Nat := 150
  electionTimeoutMaxMs : Nat := 300
  heartbeatIntervalMs : Nat := 50
  snapshotEntryThreshold : Nat := 10000
  deriving Repr, DecidableEq

variable {cfg : RaftConfig}

namespace RaftConfig

def getClusterNodes (cfg : RaftConfig) : List NodeId := cfg.nodeId :: cfg.peers.map NodeInfo.id

-- `peers` leaves out the node itself.
def majority (cfg : RaftConfig) : Nat := cfg.peers.length / 2 + 1

/-- The loop of `validate` over the peers, with the ids it has seen. -/
def checkDuplicates (seen : List NodeId) : List NodeInfo → Except RaftError Unit
  | [] => .ok ()
  | peer :: peers =>
    if peer.id ∈ seen then .error .duplicateNodeId else checkDuplicates (peer.id :: seen) peers

def validate (cfg : RaftConfig) : Except RaftError Unit := do
  checkDuplicates [cfg.nodeId] cfg.peers
  if cfg.electionTimeoutMinMs ≥ cfg.electionTimeoutMaxMs then .error .invalidElectionTimeout
  else if cfg.heartbeatIntervalMs ≥ cfg.electionTimeoutMinMs then .error .heartbeatTooLarge
  else if cfg.peers.length < 2 then .error .tooFewPeers
  else .ok ()

theorem nodup_of_checkDuplicates {seen : List NodeId} {peers : List NodeInfo}
    (h : checkDuplicates seen peers = .ok ()) :
    (peers.map NodeInfo.id).Nodup ∧ ∀ id ∈ peers.map NodeInfo.id, id ∉ seen := by
  induction peers generalizing seen with
  | nil => exact ⟨List.nodup_nil, fun _ hid => absurd hid List.not_mem_nil⟩
  | cons peer peers ih =>
    unfold checkDuplicates at h
    by_cases hseen : peer.id ∈ seen
    · rw [if_pos hseen] at h
      cases h
    · rw [if_neg hseen] at h
      have hrest := ih h
      constructor
      · apply List.nodup_cons.mpr
        refine ⟨?_, hrest.1⟩
        intro hmem
        exact hrest.2 _ hmem (List.mem_cons_self ..)
      · intro id hid
        rcases List.mem_cons.mp hid with rfl | hid
        · exact hseen
        · exact fun hmem => hrest.2 id hid (List.mem_cons_of_mem _ hmem)

theorem nodup_of_validate (h : cfg.validate = .ok ()) : cfg.getClusterNodes.Nodup := by
  unfold validate at h
  cases hdup : checkDuplicates [cfg.nodeId] cfg.peers with
  | error e =>
    rw [hdup] at h
    cases h
  | ok _ =>
    have hnodup := nodup_of_checkDuplicates hdup
    apply List.nodup_cons.mpr
    exact ⟨fun hmem => hnodup.2 _ hmem (List.mem_singleton_self _), hnodup.1⟩

end RaftConfig

/-- Any two sets of nodes that reach the majority share a node. -/
def RaftConfig.QuorumsMeet (cfg : RaftConfig) : Prop :=
  ∀ S T : Finset NodeId, S ⊆ cfg.getClusterNodes.toFinset → T ⊆ cfg.getClusterNodes.toFinset →
    cfg.majority ≤ S.card → cfg.majority ≤ T.card → (S ∩ T).Nonempty

/-- More than half of the nodes are in `S`. -/
def HasMajority (S : Finset NodeId) (nodes : List NodeId) : Prop :=
  nodes.toFinset.card / 2 + 1 ≤ (S ∩ nodes.toFinset).card

/-- A set of nodes that reaches the joint majority has a majority of both configurations. -/
def ClusterConfig.JointMajorities (old new : List NodeId) : Prop :=
  ∀ S : Finset NodeId, S ⊆ (old ++ new).toFinset →
    (ClusterConfig.initJoint old new).majority ≤ S.card → HasMajority S old ∧ HasMajority S new

/-- The joint majority is large enough to leave neither configuration short: with all nodes of the
other one outside, the count still has to reach into this one far enough. -/
def ClusterConfig.Overlapping (old new : List NodeId) : Prop :=
  (old.toFinset ∪ new.toFinset).card < max (old.length / 2 + 1) (new.length / 2 + 1) ∨
    (new.toFinset \ old.toFinset).card + (old.toFinset.card / 2 + 1) ≤
        max (old.length / 2 + 1) (new.length / 2 + 1) ∧
      (old.toFinset \ new.toFinset).card + (new.toFinset.card / 2 + 1) ≤
        max (old.length / 2 + 1) (new.length / 2 + 1)

theorem ClusterConfig.jointMajorities_iff (old new : List NodeId) :
    JointMajorities old new ↔ Overlapping old new := by
  have hold : Quorum.Forces (old.toFinset ∪ new.toFinset) (initJoint old new).majority old.toFinset
      (old.toFinset.card / 2 + 1) ↔ _ := Quorum.forces_iff (Nat.succ_pos _)
  have hnew : Quorum.Forces (old.toFinset ∪ new.toFinset) (initJoint old new).majority new.toFinset
      (new.toFinset.card / 2 + 1) ↔ _ := Quorum.forces_iff (Nat.succ_pos _)
  rw [Finset.union_sdiff_left] at hold
  rw [Finset.union_sdiff_right] at hnew
  have hboth : JointMajorities old new ↔
      Quorum.Forces (old.toFinset ∪ new.toFinset) (initJoint old new).majority old.toFinset
        (old.toFinset.card / 2 + 1) ∧
      Quorum.Forces (old.toFinset ∪ new.toFinset) (initJoint old new).majority new.toFinset
        (new.toFinset.card / 2 + 1) := by
    unfold JointMajorities
    rw [List.toFinset_append]
    constructor
    · intro h
      exact ⟨fun S hsub hcard => (h S hsub hcard).1, fun S hsub hcard => (h S hsub hcard).2⟩
    · intro h S hsub hcard
      exact ⟨h.1 S hsub hcard, h.2 S hsub hcard⟩
  rw [hboth, hold, hnew, ← or_and_left]
  rfl

namespace RaftConfig

theorem card_clusterNodes (h : cfg.validate = .ok ()) :
    cfg.getClusterNodes.toFinset.card = cfg.peers.length + 1 := by
  rw [List.toFinset_card_of_nodup (nodup_of_validate h)]
  show (cfg.peers.map NodeInfo.id).length + 1 = _
  rw [List.length_map]

theorem quorumsMeet_of_even (h : cfg.validate = .ok ())
    (heven : Even cfg.peers.length) : cfg.QuorumsMeet := by
  intro S T hS hT hcardS hcardT
  apply Finset.inter_nonempty_of_card_lt_card_add_card hS hT
  rcases heven with ⟨m, hm⟩
  rw [card_clusterNodes h]
  unfold majority at hcardS hcardT
  omega

theorem majority_eq_single_iff (cfg : RaftConfig) :
    cfg.majority = (ClusterConfig.initSingle cfg.getClusterNodes).majority ↔
      Even cfg.peers.length := by
  have hlen : cfg.getClusterNodes.length = cfg.peers.length + 1 := by
    show (cfg.peers.map NodeInfo.id).length + 1 = _
    rw [List.length_map]
  show cfg.peers.length / 2 + 1 = cfg.getClusterNodes.length / 2 + 1 ↔ _
  rw [hlen, Nat.even_iff]
  omega

/-- **Quorums.**  What elections and commits rely on holds exactly for an even number of peers and
overlapping joint configurations. -/
theorem quorums_sound_iff {cfg : RaftConfig} (h : cfg.validate = .ok ()) (old new : List NodeId) :
    (cfg.QuorumsMeet ∧
      cfg.majority = (ClusterConfig.initSingle cfg.getClusterNodes).majority ∧
      ClusterConfig.JointMajorities old new) ↔
    (Even cfg.peers.length ∧ ClusterConfig.Overlapping old new) := by
  rw [majority_eq_single_iff, ClusterConfig.jointMajorities_iff]
  constructor
  · rintro ⟨-, heven, hoverlap⟩
    exact ⟨heven, hoverlap⟩
  · rintro ⟨heven, hoverlap⟩
    exact ⟨quorumsMeet_of_even h heven, heven, hoverlap⟩

theorem quorums_sound_three_nodes :
    (⟨1, [⟨2, "b"⟩, ⟨3, "c"⟩], 150, 300, 50, 10000⟩ : RaftConfig).validate = .ok () ∧
      ((⟨1, [⟨2, "b"⟩, ⟨3, "c"⟩], 150, 300, 50, 10000⟩ : RaftConfig).QuorumsMeet ∧
        (⟨1, [⟨2, "b"⟩, ⟨3, "c"⟩], 150, 300, 50, 10000⟩ : RaftConfig).majority =
          (ClusterConfig.initSingle [1, 2, 3]).majority ∧
        ClusterConfig.JointMajorities [1, 2, 3] [1, 2, 3, 4]) := by
  have hvalid : (⟨1, [⟨2, "b"⟩, ⟨3, "c"⟩], 150, 300, 50, 10000⟩ : RaftConfig).validate = .ok () := by
    decide
  refine ⟨hvalid, (quorums_sound_iff hvalid [1, 2, 3] [1, 2, 3, 4]).mpr ⟨⟨1, rfl⟩, ?_⟩⟩
  right
  decide

/-- Four nodes are enough for two disjoint quorums, and two of five acknowledgements can all come from
the old configuration. -/
theorem quorums_do_not_meet :
    (⟨1, [⟨2, "b"⟩, ⟨3, "c"⟩, ⟨4, "d"⟩], 150, 300, 50, 10000⟩ : RaftConfig).validate = .ok () ∧
      ¬ (⟨1, [⟨2, "b"⟩, ⟨3, "c"⟩, ⟨4, "d"⟩], 150, 300, 50, 10000⟩ : RaftConfig).QuorumsMeet ∧
      ¬ ClusterConfig.JointMajorities [1, 2, 3] [3, 4, 5] := by
  refine ⟨by decide, ?_, ?_⟩
  · intro hmeet
    have hnone := hmeet {1, 2} {3, 4} (by decide) (by decide) (by decide) (by decide)
    revert hnone
    decide
  · intro hjoint
    have hnone := hjoint {1, 2} (by decide) (by decide)
    revert hnone
    unfold HasMajority
    decide

end RaftConfig

end Northstar.Consensus
