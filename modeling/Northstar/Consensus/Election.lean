import Northstar.Consensus.Cluster

/-!
# Election — one leader per term

A node votes once per term, a candidate counts only votes that were cast for it in its own term, and
two majorities share a voter.  The votes cast so far are kept as a history beside the cluster: it only
grows, so that two leaders of one term are compared even if they never are in office together.
-/

namespace Northstar.Consensus

variable {term : Nat}

namespace Raft

/-- Role, term and votes are as before. -/
structure SameOffice (r r' : Raft) : Prop where
  config : r'.config = r.config
  role : r'.role = r.role
  term : r'.persistent.currentTerm = r.persistent.currentTerm
  vote : r'.persistent.votedFor = r.persistent.votedFor
  votes : r'.votesReceived = r.votesReceived

/-- The node is a follower; its vote is kept, or given up with the term. -/
structure Retires (r r' : Raft) : Prop where
  config : r'.config = r.config
  role : r'.role = .follower
  term : r'.persistent.currentTerm = r.persistent.currentTerm ∧
      r'.persistent.votedFor = r.persistent.votedFor ∨
    r.persistent.currentTerm < r'.persistent.currentTerm ∧ r'.persistent.votedFor = none

def Moves (r r' : Raft) : Prop := SameOffice r r' ∨ Retires r r'

theorem SameOffice.refl (r : Raft) : SameOffice r r := ⟨rfl, rfl, rfl, rfl, rfl⟩

variable {r : Raft}

variable {r' : Raft}

theorem SameOffice.trans {r'' : Raft} (h : SameOffice r r') (h' : SameOffice r' r'') :
    SameOffice r r'' :=
  ⟨h'.config.trans h.config, h'.role.trans h.role, h'.term.trans h.term, h'.vote.trans h.vote,
    h'.votes.trans h.votes⟩

theorem Moves.then_same {r'' : Raft} (h : Moves r r') (h' : SameOffice r' r'') : Moves r r'' := by
  rcases h with hsame | hretires
  · exact Or.inl (hsame.trans h')
  · right
    refine ⟨h'.config.trans hretires.config, h'.role.trans hretires.role, ?_⟩
    rw [h'.term, h'.vote]
    exact hretires.term

theorem retires_becomeFollower (h : r.persistent.currentTerm < term) :
    Retires r (r.becomeFollower term) := by
  refine ⟨rfl, rfl, Or.inr ?_⟩
  unfold becomeFollower
  dsimp only
  rw [if_pos h]
  exact ⟨h, rfl⟩

theorem moves_observeTerm (r : Raft) (term : Nat) : Moves r (r.observeTerm term) := by
  unfold observeTerm
  split
  · next h => exact Or.inr (retires_becomeFollower h)
  · exact Or.inl (SameOffice.refl r)

theorem sameOffice_applyConfigChange (r : Raft) (change : ConfigChange) :
    SameOffice r (r.applyConfigChange change) := by
  unfold applyConfigChange
  split
  · exact ⟨rfl, rfl, rfl, rfl, rfl⟩
  · exact ⟨rfl, rfl, rfl, rfl, rfl⟩

theorem sameOffice_applyEntry (r : Raft) (index : Nat) : SameOffice r (r.applyEntry index) := by
  have hconfig := sameOffice_applyConfigChange r
  unfold applyEntry
  split
  · exact SameOffice.refl r
  · dsimp only
    split
    · next change _ =>
      split
      · exact (hconfig change).trans ⟨rfl, rfl, rfl, rfl, rfl⟩
      · exact ⟨rfl, rfl, rfl, rfl, rfl⟩
    · exact ⟨rfl, rfl, rfl, rfl, rfl⟩

theorem sameOffice_applyFrom (r : Raft) (lastApplied n : Nat) :
    SameOffice r (r.applyFrom lastApplied n) := by
  induction n generalizing r lastApplied with
  | zero => exact SameOffice.refl r
  | succ n ih =>
    unfold applyFrom
    exact (sameOffice_applyEntry r _).trans (ih _ _)

theorem sameOffice_applyCommittedEntries (r : Raft) : SameOffice r r.applyCommittedEntries := by
  unfold applyCommittedEntries
  split
  · exact (sameOffice_applyFrom r _ _).trans ⟨rfl, rfl, rfl, rfl, rfl⟩
  · exact (sameOffice_applyFrom r _ _).trans ⟨rfl, rfl, rfl, rfl, rfl⟩

theorem sameOffice_completeConfigChange (h : r.completeConfigChange = .ok r') :
    SameOffice r r' := by
  unfold completeConfigChange at h
  split at h
  · cases h
  · split at h
    · cases h
    · cases h
      exact ⟨rfl, rfl, rfl, rfl, rfl⟩

theorem sameOffice_checkConfigCommitment (r : Raft) : SameOffice r r.checkConfigCommitment.1 := by
  unfold checkConfigCommitment
  split
  · next ls _ _ =>
    dsimp only
    split
    · exact SameOffice.refl r
    · next index change rest _ =>
      have hset : SameOffice r (r.setLeaderState { ls with commitIndex := index }) :=
        ⟨rfl, rfl, rfl, rfl, rfl⟩
      have happly := hset.trans (sameOffice_applyConfigChange _ change)
      split
      · split
        · split
          · next r' hcomplete => exact happly.trans (sameOffice_completeConfigChange hcomplete)
          · exact happly
        · exact happly
      · exact SameOffice.refl r
  · exact SameOffice.refl r

theorem sameOffice_updateCommitIndex (r : Raft) : SameOffice r r.updateCommitIndex.1 := by
  unfold updateCommitIndex
  split
  · next ls _ _ =>
    dsimp only
    have hset : SameOffice r
        (r.setLeaderState (ls.advanceCommit r.clusterConfig.majority r.persistent.log)) :=
      ⟨rfl, rfl, rfl, rfl, rfl⟩
    have hcheck := hset.trans (sameOffice_checkConfigCommitment _)
    split
    · next r' e heq =>
      rw [heq] at hcheck
      exact hcheck
    · next r' heq =>
      rw [heq] at hcheck
      exact hcheck.trans (sameOffice_applyCommittedEntries r')
  · exact SameOffice.refl r

theorem sameOffice_propose (r : Raft) (record : Zig.CommitRecord) :
    SameOffice r (r.orElse ((r.propose record).map Prod.fst)) := by
  unfold propose
  split
  · exact SameOffice.refl r
  · exact ⟨rfl, rfl, rfl, rfl, rfl⟩

theorem sameOffice_followCommit (r : Raft) (leaderCommit : Nat) :
    SameOffice r (r.followCommit leaderCommit) := by
  unfold followCommit
  split
  · exact ⟨rfl, rfl, rfl, rfl, rfl⟩
  · exact SameOffice.refl r

theorem sameOffice_acceptEntries (r : Raft) (args : AppendEntriesArgs) :
    SameOffice r (r.acceptEntries args) := by
  have hlog : SameOffice r
      (r.setLog (storeEntries r.persistent.log args.prevLogIndex args.entries)) :=
    ⟨rfl, rfl, rfl, rfl, rfl⟩
  unfold acceptEntries
  exact (hlog.trans (sameOffice_followCommit _ _)).trans (sameOffice_applyCommittedEntries _)

theorem moves_handleAppendEntries (r : Raft) (args : AppendEntriesArgs) :
    Moves r (r.handleAppendEntries args).1 := by
  have hleader : SameOffice (r.observeTerm args.term)
      { r.observeTerm args.term with currentLeaderId := some args.leaderId } :=
    ⟨rfl, rfl, rfl, rfl, rfl⟩
  have hobserve := (moves_observeTerm r args.term).then_same hleader
  unfold handleAppendEntries
  split
  · exact Or.inl (SameOffice.refl r)
  · dsimp only
    split
    · exact hobserve
    · exact hobserve.then_same (sameOffice_acceptEntries _ args)

theorem moves_handleAppendEntriesReply (r : Raft) (peer : NodeId) (args : AppendEntriesArgs)
    (reply : AppendEntriesReply) : Moves r (r.handleAppendEntriesReply peer args reply) := by
  unfold handleAppendEntriesReply
  split
  · split
    · next h => exact Or.inr (retires_becomeFollower h)
    · repeat' split
      all_goals exact Or.inl ⟨rfl, rfl, rfl, rfl, rfl⟩
  · exact Or.inl (SameOffice.refl r)

theorem handleRequestVoteReply_cases (r : Raft) (peer : NodeId) (args : RequestVoteArgs)
    (reply : RequestVoteReply) :
    Moves r (r.handleRequestVoteReply peer args reply) ∨
      r.role = .candidate ∧ r.persistent.currentTerm = args.term ∧ reply.voteGranted = true ∧
        (r.handleRequestVoteReply peer args reply).config = r.config ∧
        (r.handleRequestVoteReply peer args reply).persistent = r.persistent ∧
        (r.handleRequestVoteReply peer args reply).votesReceived = insert peer r.votesReceived ∧
        ((r.handleRequestVoteReply peer args reply).role = .candidate ∨
          (r.handleRequestVoteReply peer args reply).role = .leader ∧
            r.config.majority ≤ (insert peer r.votesReceived).card) := by
  unfold handleRequestVoteReply
  dsimp only
  split
  · next h => exact Or.inl (Or.inr (retires_becomeFollower h))
  · split
    · exact Or.inl (Or.inl (SameOffice.refl r))
    · next hrole =>
      split
      · exact Or.inl (Or.inl (SameOffice.refl r))
      · next hterm =>
        split
        · next hgranted =>
          right
          refine ⟨Decidable.not_not.mp hrole, Decidable.not_not.mp hterm, hgranted, ?_⟩
          split
          · next hmajority => exact ⟨rfl, rfl, rfl, Or.inr ⟨rfl, hmajority⟩⟩
          · exact ⟨rfl, rfl, rfl, Or.inl (Decidable.not_not.mp hrole)⟩
        · exact Or.inl (Or.inl (SameOffice.refl r))

theorem handleRequestVote_cases (r : Raft) (args : RequestVoteArgs) :
    Moves r (r.handleRequestVote args).1 ∧ (r.handleRequestVote args).2.voteGranted = false ∨
      (r.handleRequestVote args).2.voteGranted = true ∧
      ∃ r', Moves r r' ∧ r'.persistent.currentTerm = args.term ∧
        (r'.persistent.votedFor = none ∨ r'.persistent.votedFor = some args.candidateId) ∧
        (r.handleRequestVote args).1 =
          { r' with persistent := { r'.persistent with votedFor := some args.candidateId } } := by
  unfold handleRequestVote
  split
  · exact Or.inl ⟨Or.inl (SameOffice.refl r), rfl⟩
  · next hterm =>
    dsimp only
    split
    · next hgrants =>
      refine Or.inr ⟨rfl, r.observeTerm args.term, moves_observeTerm r args.term, ?_, ?_, rfl⟩
      · rw [currentTerm_observeTerm]
        omega
      · unfold grants at hgrants
        simp only [decide_eq_true_eq] at hgrants
        exact hgrants.1
    · exact Or.inl ⟨moves_observeTerm r args.term, rfl⟩

end Raft

namespace Node

theorem raft_askPeer (n : Node) : (n.step .askPeer).1.raft = n.raft := by
  unfold step
  dsimp only
  split
  · rfl
  · rfl

theorem sent_askPeer (n : Node) (voter : NodeId) (args : RequestVoteArgs) (reply : RequestVoteReply) :
    Message.requestVoteReply voter args reply ∉ (n.step .askPeer).2 := by
  unfold step
  dsimp only
  split
  · exact List.not_mem_nil
  · intro hmem
    cases List.mem_singleton.mp hmem

theorem raft_beginPass (n : Node) : (n.step .beginPass).1.raft = n.raft := by
  unfold step
  dsimp only
  split
  · rfl
  · rfl

theorem raft_servePeer (n : Node) (stale : LeaderVolatileState) :
    (n.step (.servePeer stale)).1.raft = n.raft := by
  unfold step
  dsimp only
  split
  · rfl
  · rfl

theorem sent_servePeer (n : Node) (stale : LeaderVolatileState) (voter : NodeId)
    (args : RequestVoteArgs) (reply : RequestVoteReply) :
    Message.requestVoteReply voter args reply ∉ (n.step (.servePeer stale)).2 := by
  unfold step
  dsimp only
  split
  · exact List.not_mem_nil
  · intro hmem
    cases List.mem_singleton.mp hmem

end Node

structure Vote where
  voter : NodeId
  term : Nat
  candidate : NodeId

/-- A majority has voted for the node in the term. -/
def Won (S : Setup) (V : Set Vote) (term : Nat) (i : NodeId) : Prop :=
  ∃ Q : Finset NodeId, Q ⊆ S.members ∧ S.half + 1 ≤ Q.card ∧ ∀ v ∈ Q, ⟨v, term, i⟩ ∈ V

/-- The cluster beside the votes that have been cast in it. -/
structure Elections (S : Setup) (V : Set Vote) (c : Cluster) : Prop where
  config : ∀ i ∈ S.members, (c.node i).raft.config = S.config i
  single : ∀ v ∈ V, ∀ w ∈ V, v.voter = w.voter → v.term = w.term → v.candidate = w.candidate
  voters : ∀ v ∈ V, v.voter ∈ S.members
  current : ∀ v ∈ V, v.term ≤ (c.node v.voter).raft.persistent.currentTerm ∧
    (v.term = (c.node v.voter).raft.persistent.currentTerm →
      (c.node v.voter).raft.persistent.votedFor = some v.candidate)
  recorded : ∀ i ∈ S.members, ∀ a, (c.node i).raft.persistent.votedFor = some a →
    ⟨i, (c.node i).raft.persistent.currentTerm, a⟩ ∈ V
  replies : ∀ voter args reply, .requestVoteReply voter args reply ∈ c.sent →
    reply.voteGranted = true → ⟨voter, args.term, args.candidateId⟩ ∈ V
  counted : ∀ i ∈ S.members, (c.node i).raft.role = .candidate →
    ∀ v ∈ (c.node i).raft.votesReceived, ⟨v, (c.node i).raft.persistent.currentTerm, i⟩ ∈ V
  leaders : ∀ i ∈ S.members, (c.node i).raft.role = .leader →
    Won S V (c.node i).raft.persistent.currentTerm i

variable {i : NodeId}

theorem Won.mono {S : Setup} {V V' : Set Vote} (h : Won S V term i)
    (hsub : V ⊆ V') : Won S V' term i := by
  rcases h with ⟨Q, hQ, hcard, hvotes⟩
  exact ⟨Q, hQ, hcard, fun v hv => hsub (hvotes v hv)⟩

theorem Setup.majority_eq (S : Setup) (hi : i ∈ S.members) :
    (S.config i).majority = S.half + 1 := by
  have hcard := RaftConfig.card_clusterNodes (S.valid i hi)
  rw [S.nodes i hi, S.odd] at hcard
  unfold RaftConfig.majority
  omega

namespace Elections

variable {S : Setup} {V : Set Vote} {c : Cluster}

theorem won_unique (h : Elections S V c) {j : NodeId} (hi : Won S V term i)
    (hj : Won S V term j) : i = j := by
  rcases hi with ⟨Q, hQ, hQcard, hQvotes⟩
  rcases hj with ⟨R, hR, hRcard, hRvotes⟩
  have hodd := S.odd
  have hmeet : (Q ∩ R).Nonempty :=
    Finset.inter_nonempty_of_card_lt_card_add_card hQ hR (by omega)
  rcases hmeet with ⟨v, hv⟩
  have hboth := Finset.mem_inter.mp hv
  exact h.single _ (hQvotes v hboth.1) _ (hRvotes v hboth.2) rfl rfl

theorem initial (S : Setup) : Elections S ∅ (.initial S) where
  config _ _ := rfl
  single _ hv := absurd hv (Set.notMem_empty _)
  voters _ hv := absurd hv (Set.notMem_empty _)
  current _ hv := absurd hv (Set.notMem_empty _)
  recorded _ _ _ hvote := by cases hvote
  replies _ _ _ hmem := absurd hmem List.not_mem_nil
  counted _ _ hrole := by cases hrole
  leaders _ _ hrole := by cases hrole

variable {e : Event}

/-- An event after which the node is in the same office or has retired, and which casts no vote. -/
theorem move (h : Elections S V c) (hi : i ∈ S.members)
    (hmoves : Raft.Moves (c.node i).raft ((c.node i).step e).1.raft)
    (hsent : ∀ voter args reply, Message.requestVoteReply voter args reply ∈ ((c.node i).step e).2 →
      reply.voteGranted = false) :
    Elections S V (c.after i e) := by
  have hconfig : ((c.node i).step e).1.raft.config = (c.node i).raft.config := by
    rcases hmoves with hsame | hretires
    · exact hsame.config
    · exact hretires.config
  -- the term grows, and in the same term the vote is the same
  have hterm : (c.node i).raft.persistent.currentTerm ≤
      ((c.node i).step e).1.raft.persistent.currentTerm := by
    rcases hmoves with hsame | hretires
    · exact le_of_eq hsame.term.symm
    · rcases hretires.term with ⟨heq, -⟩ | ⟨hlt, -⟩
      · exact le_of_eq heq.symm
      · exact le_of_lt hlt
  have hvote : ∀ a, ((c.node i).step e).1.raft.persistent.votedFor = some a →
      ((c.node i).step e).1.raft.persistent.currentTerm = (c.node i).raft.persistent.currentTerm ∧
        (c.node i).raft.persistent.votedFor = some a := by
    intro a ha
    rcases hmoves with hsame | hretires
    · exact ⟨hsame.term, hsame.vote ▸ ha⟩
    · rcases hretires.term with ⟨heq, hkept⟩ | ⟨-, hnone⟩
      · exact ⟨heq, hkept ▸ ha⟩
      · rw [hnone] at ha
        cases ha
  have hkept : ((c.node i).step e).1.raft.persistent.currentTerm =
      (c.node i).raft.persistent.currentTerm →
      ((c.node i).step e).1.raft.persistent.votedFor = (c.node i).raft.persistent.votedFor := by
    intro heq
    rcases hmoves with hsame | hretires
    · exact hsame.vote
    · rcases hretires.term with ⟨-, hkept⟩ | ⟨hlt, -⟩
      · exact hkept
      · omega
  refine ⟨?_, h.single, h.voters, ?_, ?_, ?_, ?_, ?_⟩
  · intro j hj
    by_cases hij : j = i
    · subst hij
      rw [Cluster.node_after_self, hconfig]
      exact h.config j hj
    · rw [Cluster.node_after_ne hij]
      exact h.config j hj
  · intro v hv
    by_cases hij : v.voter = i
    · rw [hij, Cluster.node_after_self]
      have hcurrent := h.current v hv
      rw [hij] at hcurrent
      refine ⟨hcurrent.1.trans hterm, ?_⟩
      intro heq
      have hsame : ((c.node i).step e).1.raft.persistent.currentTerm =
          (c.node i).raft.persistent.currentTerm := by omega
      rw [hkept hsame]
      exact hcurrent.2 (heq.trans hsame)
    · rw [Cluster.node_after_ne hij]
      exact h.current v hv
  · intro j hj a ha
    by_cases hij : j = i
    · subst hij
      rw [Cluster.node_after_self] at ha ⊢
      rcases hvote a ha with ⟨heq, hbefore⟩
      rw [heq]
      exact h.recorded j hj a hbefore
    · rw [Cluster.node_after_ne hij] at ha ⊢
      exact h.recorded j hj a ha
  · intro voter args reply hmem hgranted
    rcases Cluster.mem_sent_after.mp hmem with hmem | hmem
    · exact h.replies voter args reply hmem hgranted
    · rw [hsent voter args reply hmem] at hgranted
      cases hgranted
  · intro j hj hrole v hv
    by_cases hij : j = i
    · subst hij
      rw [Cluster.node_after_self] at hrole hv ⊢
      rcases hmoves with hsame | hretires
      · rw [hsame.role] at hrole
        rw [hsame.votes] at hv
        rw [hsame.term]
        exact h.counted j hj hrole v hv
      · rw [hretires.role] at hrole
        cases hrole
    · rw [Cluster.node_after_ne hij] at hrole hv ⊢
      exact h.counted j hj hrole v hv
  · intro j hj hrole
    by_cases hij : j = i
    · subst hij
      rw [Cluster.node_after_self] at hrole ⊢
      rcases hmoves with hsame | hretires
      · rw [hsame.role] at hrole
        rw [hsame.term]
        exact h.leaders j hj hrole
      · rw [hretires.role] at hrole
        cases hrole
    · rw [Cluster.node_after_ne hij] at hrole ⊢
      exact h.leaders j hj hrole

theorem cast (h : Elections S V c) {i : NodeId} (hi : i ∈ S.members) {e : Event} {a : NodeId}
    (hconfig : ((c.node i).step e).1.raft.config = (c.node i).raft.config)
    (hterm : (c.node i).raft.persistent.currentTerm ≤
      ((c.node i).step e).1.raft.persistent.currentTerm)
    (hvote : ((c.node i).step e).1.raft.persistent.votedFor = some a)
    (hfree : ((c.node i).step e).1.raft.persistent.currentTerm =
      (c.node i).raft.persistent.currentTerm →
      (c.node i).raft.persistent.votedFor = none ∨ (c.node i).raft.persistent.votedFor = some a)
    (hcandidate : ((c.node i).step e).1.raft.role = .candidate →
      ∀ v ∈ ((c.node i).step e).1.raft.votesReceived,
        Vote.mk v ((c.node i).step e).1.raft.persistent.currentTerm i ∈
          insert ⟨i, ((c.node i).step e).1.raft.persistent.currentTerm, a⟩ V)
    (hleader : ((c.node i).step e).1.raft.role = .leader →
      Won S V ((c.node i).step e).1.raft.persistent.currentTerm i)
    (hsent : ∀ voter args reply, Message.requestVoteReply voter args reply ∈ ((c.node i).step e).2 →
      voter = i ∧ args.term = ((c.node i).step e).1.raft.persistent.currentTerm ∧
        args.candidateId = a) :
    Elections S (insert ⟨i, ((c.node i).step e).1.raft.persistent.currentTerm, a⟩ V) (c.after i e) := by
  -- a vote of this node in this term is for the same candidate
  have hagree : ∀ v ∈ V, v.voter = i →
      v.term = ((c.node i).step e).1.raft.persistent.currentTerm → v.candidate = a := by
    intro v hv hvoter heq
    have hcurrent := h.current v hv
    rw [hvoter] at hcurrent
    have hsame : ((c.node i).step e).1.raft.persistent.currentTerm =
        (c.node i).raft.persistent.currentTerm := by omega
    have hbefore := hcurrent.2 (heq.trans hsame)
    rcases hfree hsame with hnone | hsome
    · rw [hnone] at hbefore
      cases hbefore
    · rw [hsome] at hbefore
      exact (Option.some.inj hbefore).symm
  have hsub : V ⊆ insert ⟨i, ((c.node i).step e).1.raft.persistent.currentTerm, a⟩ V :=
    Set.subset_insert _ _
  refine ⟨?_, ?_, ?_, ?_, ?_, ?_, ?_, ?_⟩
  · intro j hj
    by_cases hij : j = i
    · subst hij
      rw [Cluster.node_after_self, hconfig]
      exact h.config j hj
    · rw [Cluster.node_after_ne hij]
      exact h.config j hj
  · intro v hv w hw hvoter heq
    rcases Set.mem_insert_iff.mp hv with rfl | hv
    · rcases Set.mem_insert_iff.mp hw with rfl | hw
      · rfl
      · exact (hagree w hw hvoter.symm heq.symm).symm
    · rcases Set.mem_insert_iff.mp hw with rfl | hw
      · exact hagree v hv hvoter heq
      · exact h.single v hv w hw hvoter heq
  · intro v hv
    rcases Set.mem_insert_iff.mp hv with rfl | hv
    · exact hi
    · exact h.voters v hv
  · intro v hv
    by_cases hij : v.voter = i
    · rw [hij, Cluster.node_after_self]
      rcases Set.mem_insert_iff.mp hv with rfl | hv
      · exact ⟨le_refl _, fun _ => hvote⟩
      · have hcurrent := h.current v hv
        rw [hij] at hcurrent
        refine ⟨hcurrent.1.trans hterm, ?_⟩
        intro heq
        rw [hagree v hv hij heq]
        exact hvote
    · rw [Cluster.node_after_ne hij]
      rcases Set.mem_insert_iff.mp hv with rfl | hv
      · exact absurd rfl hij
      · exact h.current v hv
  · intro j hj b hb
    by_cases hij : j = i
    · subst hij
      rw [Cluster.node_after_self] at hb ⊢
      rw [hvote] at hb
      cases hb
      exact Set.mem_insert _ _
    · rw [Cluster.node_after_ne hij] at hb ⊢
      exact hsub (h.recorded j hj b hb)
  · intro voter args reply hmem hgranted
    rcases Cluster.mem_sent_after.mp hmem with hmem | hmem
    · exact hsub (h.replies voter args reply hmem hgranted)
    · rcases hsent voter args reply hmem with ⟨rfl, hargs, rfl⟩
      rw [hargs]
      exact Set.mem_insert _ _
  · intro j hj hrole v hv
    by_cases hij : j = i
    · subst hij
      rw [Cluster.node_after_self] at hrole hv ⊢
      exact hcandidate hrole v hv
    · rw [Cluster.node_after_ne hij] at hrole hv ⊢
      exact hsub (h.counted j hj hrole v hv)
  · intro j hj hrole
    by_cases hij : j = i
    · subst hij
      rw [Cluster.node_after_self] at hrole ⊢
      exact (hleader hrole).mono hsub
    · rw [Cluster.node_after_ne hij] at hrole ⊢
      exact (h.leaders j hj hrole).mono hsub

theorem id_eq (h : Elections S V c) (hi : i ∈ S.members) : (c.node i).id = i := by
  unfold Node.id
  rw [h.config i hi, S.own i hi]

theorem count (h : Elections S V c) (hi : i ∈ S.members) {peer : NodeId}
    {args : RequestVoteArgs} {reply : RequestVoteReply}
    (henabled : (c.node i).Enabled c.sent (.handleRequestVoteReply peer args reply)) :
    Elections S V (c.after i (.handleRequestVoteReply peer args reply)) := by
  rcases Raft.handleRequestVoteReply_cases (c.node i).raft peer args reply
    with hmoves | ⟨hrole, hterm, hgranted, hconfig, hpersistent, hvotes, hwon⟩
  · exact h.move hi hmoves fun _ _ _ hmem => absurd hmem List.not_mem_nil
  · have hcounted : ∀ v ∈ insert peer (c.node i).raft.votesReceived,
        Vote.mk v (c.node i).raft.persistent.currentTerm i ∈ V := by
      intro v hv
      rcases Finset.mem_insert.mp hv with rfl | hv
      · have hcast := h.replies _ args reply henabled.1 hgranted
        rw [henabled.2, h.id_eq hi, ← hterm] at hcast
        exact hcast
      · exact h.counted i hi hrole v hv
    have hnode : ((c.node i).step (.handleRequestVoteReply peer args reply)).1.raft.persistent =
        (c.node i).raft.persistent := hpersistent
    refine ⟨?_, h.single, h.voters, ?_, ?_, ?_, ?_, ?_⟩
    · intro j hj
      by_cases hij : j = i
      · subst hij
        rw [Cluster.node_after_self]
        exact hconfig.trans (h.config j hj)
      · rw [Cluster.node_after_ne hij]
        exact h.config j hj
    · intro v hv
      by_cases hij : v.voter = i
      · have hcurrent := h.current v hv
        rw [hij] at hcurrent ⊢
        rw [Cluster.node_after_self, hnode]
        exact hcurrent
      · rw [Cluster.node_after_ne hij]
        exact h.current v hv
    · intro j hj a ha
      by_cases hij : j = i
      · subst hij
        rw [Cluster.node_after_self, hnode] at ha ⊢
        exact h.recorded j hj a ha
      · rw [Cluster.node_after_ne hij] at ha ⊢
        exact h.recorded j hj a ha
    · intro voter args' reply' hmem
      rcases Cluster.mem_sent_after.mp hmem with hmem | hmem
      · exact h.replies voter args' reply' hmem
      · exact absurd hmem List.not_mem_nil
    · intro j hj hrole' v hv
      by_cases hij : j = i
      · subst hij
        rw [Cluster.node_after_self] at hv ⊢
        rw [hnode]
        exact hcounted v (hvotes ▸ hv)
      · rw [Cluster.node_after_ne hij] at hrole' hv ⊢
        exact h.counted j hj hrole' v hv
    · intro j hj hrole'
      by_cases hij : j = i
      · subst hij
        rw [Cluster.node_after_self] at hrole' ⊢
        rw [hnode]
        rcases hwon with hcandidate | ⟨-, hmajority⟩
        · have hboth := hcandidate.symm.trans hrole'
          cases hboth
        · refine ⟨insert peer (c.node j).raft.votesReceived, ?_, ?_, hcounted⟩
          · exact fun v hv => h.voters _ (hcounted v hv)
          · rw [h.config j hj, S.majority_eq hj] at hmajority
            exact hmajority
      · rw [Cluster.node_after_ne hij] at hrole' ⊢
        exact h.leaders j hj hrole'

theorem startElection (h : Elections S V c) (hi : i ∈ S.members) :
    Elections S (insert ⟨i, (c.node i).raft.persistent.currentTerm + 1, i⟩ V)
      (c.after i .startElection) := by
  have hid : (c.node i).raft.config.nodeId = i := h.id_eq hi
  refine h.cast hi (e := .startElection) rfl (Nat.le_succ _) ?_ ?_ ?_ ?_ ?_
  · show some (c.node i).raft.config.nodeId = some i
    rw [hid]
  · exact fun heq => absurd heq (Nat.succ_ne_self _)
  · intro _ v hv
    have hself : v = (c.node i).raft.config.nodeId := Finset.mem_singleton.mp hv
    rw [hself, hid]
    exact Set.mem_insert _ _
  · intro hrole
    cases hrole
  · exact fun _ _ _ hmem => absurd hmem List.not_mem_nil

theorem vote (h : Elections S V c) (hi : i ∈ S.members) (args : RequestVoteArgs) :
    ((c.node i).raft.handleRequestVote args).2.voteGranted = false ∧
      Elections S V (c.after i (.handleRequestVote args)) ∨
    ((c.node i).raft.handleRequestVote args).2.voteGranted = true ∧
      Elections S (insert ⟨i, args.term, args.candidateId⟩ V)
        (c.after i (.handleRequestVote args)) := by
  rcases Raft.handleRequestVote_cases (c.node i).raft args
    with ⟨hmoves, hrefused⟩ | ⟨hgranted, r', hmoves, hterm, hfree, heq⟩
  · refine Or.inl ⟨hrefused, h.move hi hmoves ?_⟩
    intro voter args' reply hmem
    cases List.mem_singleton.mp hmem
    exact hrefused
  · refine Or.inr ⟨hgranted, ?_⟩
    have hstep : ((c.node i).step (.handleRequestVote args)).1.raft =
        { r' with persistent := { r'.persistent with votedFor := some args.candidateId } } := heq
    have hconfig : r'.config = (c.node i).raft.config := by
      rcases hmoves with hsame | hretires
      · exact hsame.config
      · exact hretires.config
    have hnew : ((c.node i).step (.handleRequestVote args)).1.raft.persistent.currentTerm =
        args.term := by
      rw [hstep]
      exact hterm
    rw [← hnew]
    refine @cast S V c h i hi _ args.candidateId ?_ ?_ ?_ ?_ ?_ ?_ ?_
    · rw [hstep]
      exact hconfig
    · rw [hstep]
      show _ ≤ r'.persistent.currentTerm
      rcases hmoves with hsame | hretires
      · exact le_of_eq hsame.term.symm
      · rcases hretires.term with ⟨heq', -⟩ | ⟨hlt, -⟩
        · exact le_of_eq heq'.symm
        · exact le_of_lt hlt
    · rw [hstep]
    · rw [hstep]
      intro hsameTerm
      have hsameTerm : r'.persistent.currentTerm = (c.node i).raft.persistent.currentTerm := hsameTerm
      rcases hmoves with hsame | hretires
      · rw [← hsame.vote]
        exact hfree
      · rcases hretires.term with ⟨-, hkept⟩ | ⟨hlt, -⟩
        · rw [← hkept]
          exact hfree
        · omega
    · rw [hstep]
      intro hrole v hv
      rcases hmoves with hsame | hretires
      · right
        show Vote.mk v r'.persistent.currentTerm i ∈ V
        rw [hsame.term]
        exact h.counted i hi (hsame.role ▸ hrole) v (hsame.votes ▸ hv)
      · have hfollower : r'.role = .candidate := hrole
        rw [hretires.role] at hfollower
        cases hfollower
    · rw [hstep]
      intro hrole
      have hrole : r'.role = .leader := hrole
      show Won S V r'.persistent.currentTerm i
      rcases hmoves with hsame | hretires
      · rw [hsame.term]
        exact h.leaders i hi (hsame.role ▸ hrole)
      · rw [hretires.role] at hrole
        cases hrole
    · intro voter args' reply hmem
      cases List.mem_singleton.mp hmem
      exact ⟨h.id_eq hi, hnew.symm, rfl⟩

theorem quiet (h : Elections S V c) (hi : i ∈ S.members)
    (hraft : ((c.node i).step e).1.raft = (c.node i).raft)
    (hsent : ∀ voter args reply, Message.requestVoteReply voter args reply ∉ ((c.node i).step e).2) :
    Elections S V (c.after i e) := by
  apply h.move hi
  · rw [hraft]
    exact Or.inl (Raft.SameOffice.refl _)
  · exact fun voter args reply hmem => absurd hmem (hsent voter args reply)

theorem step (h : Elections S V c) {i : NodeId} (hi : i ∈ S.members) {e : Event}
    (henabled : (c.node i).Enabled c.sent e) :
    ∃ V', V ⊆ V' ∧ Elections S V' (c.after i e) := by
  cases e with
  | startElection => exact ⟨_, Set.subset_insert _ _, h.startElection hi⟩
  | askPeer => exact ⟨V, le_refl V, h.quiet hi (Node.raft_askPeer _) (Node.sent_askPeer _)⟩
  | handleRequestVote args =>
    rcases h.vote hi args with ⟨-, hrefused⟩ | ⟨-, hgranted⟩
    · exact ⟨V, le_refl V, hrefused⟩
    · exact ⟨_, Set.subset_insert _ _, hgranted⟩
  | handleRequestVoteReply peer args reply => exact ⟨V, le_refl V, h.count hi henabled⟩
  | handleAppendEntries args =>
    refine ⟨V, le_refl V, h.move hi (Raft.moves_handleAppendEntries _ args) ?_⟩
    intro voter args' reply hmem
    cases List.mem_singleton.mp hmem
  | handleAppendEntriesReply peer args reply =>
    refine ⟨V, le_refl V, h.move hi (Raft.moves_handleAppendEntriesReply _ peer args reply) ?_⟩
    exact fun _ _ _ hmem => absurd hmem List.not_mem_nil
  | propose record =>
    refine ⟨V, le_refl V, h.move hi (Or.inl (Raft.sameOffice_propose _ record)) ?_⟩
    exact fun _ _ _ hmem => absurd hmem List.not_mem_nil
  | beginPass =>
    exact ⟨V, le_refl V, h.quiet hi (Node.raft_beginPass _) fun _ _ _ => List.not_mem_nil⟩
  | servePeer stale =>
    exact ⟨V, le_refl V, h.quiet hi (Node.raft_servePeer _ stale) (Node.sent_servePeer _ stale)⟩
  | updateCommitIndex =>
    refine ⟨V, le_refl V, h.move hi (Or.inl (Raft.sameOffice_updateCommitIndex _)) ?_⟩
    exact fun _ _ _ hmem => absurd hmem List.not_mem_nil
  | restart =>
    refine ⟨V, le_refl V, h.move hi (Or.inr ⟨rfl, rfl, Or.inl ⟨rfl, rfl⟩⟩) ?_⟩
    exact fun _ _ _ hmem => absurd hmem List.not_mem_nil

theorem reaches (h : Elections S V c) {C : Node → Event → Prop} {c' : Cluster}
    (hrun : Cluster.Reaches S C c c') : ∃ V', V ⊆ V' ∧ Elections S V' c' := by
  induction hrun with
  | refl => exact ⟨V, le_refl V, h⟩
  | step _ member enabled _ ih =>
    rcases ih with ⟨V', hsub, h'⟩
    rcases h'.step member enabled with ⟨V'', hsub', h''⟩
    exact ⟨V'', hsub.trans hsub', h''⟩

end Elections

/-- **Election safety.**  Whatever the network does and whichever nodes restart, a node that leads a
term is the only one that ever leads it. -/
theorem one_leader_per_term {S : Setup} {C : Node → Event → Prop} {c c' : Cluster}
    (hrun : Cluster.Reaches S C (.initial S) c) (hrun' : Cluster.Reaches S C c c') {i j : NodeId}
    (hi : i ∈ S.members) (hj : j ∈ S.members) (hleader : (c.node i).raft.role = .leader)
    (hleader' : (c'.node j).raft.role = .leader)
    (hterm : (c.node i).raft.persistent.currentTerm = (c'.node j).raft.persistent.currentTerm) :
    i = j := by
  rcases (Elections.initial S).reaches hrun with ⟨V, -, h⟩
  rcases h.reaches hrun' with ⟨V', hsub, h'⟩
  have hwon := (h.leaders i hi hleader).mono hsub
  rw [hterm] at hwon
  exact h'.won_unique hwon (h'.leaders j hj hleader')

/-- A vote stays until the voter is in a later term. -/
def Cluster.KeepsVote (c : Cluster) (v : NodeId) (term : Nat) (i : NodeId) : Prop :=
  term < (c.node v).raft.persistent.currentTerm ∨
    term = (c.node v).raft.persistent.currentTerm ∧ (c.node v).raft.persistent.votedFor = some i

/-- **A leader keeps its majority**: one and the same, whatever happens later. -/
theorem leader_keeps_votes {S : Setup} {C : Node → Event → Prop} {c : Cluster}
    (hrun : Cluster.Reaches S C (.initial S) c) {i : NodeId} (hi : i ∈ S.members)
    (hleader : (c.node i).raft.role = .leader) :
    ∃ Q ⊆ S.members, S.half + 1 ≤ Q.card ∧ ∀ c', Cluster.Reaches S C c c' →
      ∀ v ∈ Q, c'.KeepsVote v (c.node i).raft.persistent.currentTerm i := by
  rcases (Elections.initial S).reaches hrun with ⟨V, -, h⟩
  -- the majority that has elected the node
  rcases h.leaders i hi hleader with ⟨Q, hQ, hcard, hvotes⟩
  refine ⟨Q, hQ, hcard, ?_⟩
  intro c' hrun' v hv
  rcases h.reaches hrun' with ⟨V', hsub, h'⟩
  have hcurrent := h'.current _ (hsub (hvotes v hv))
  exact hcurrent.1.lt_or_eq.imp_right fun heq => ⟨heq, hcurrent.2 heq⟩

/-- Node 1 asks node 2 for its vote and wins. -/
def firstElection : List (NodeId × Event) :=
  [(1, .startElection), (1, .askPeer), (2, .handleRequestVote ⟨1, 1, 0, 0⟩),
    (1, .handleRequestVoteReply 2 ⟨1, 1, 0, 0⟩ ⟨1, true⟩)]

theorem one_leader_of_first_term :
    (((Cluster.initial threeSetup).play firstElection).node 1).raft.role = .leader ∧
      ∀ c', Cluster.Reaches threeSetup (fun _ _ => True)
          ((Cluster.initial threeSetup).play firstElection) c' →
        ∀ j ∈ threeSetup.members, (c'.node j).raft.role = .leader →
          1 = (c'.node j).raft.persistent.currentTerm → 1 = j := by
  have hlegal : (Cluster.initial threeSetup).Legal threeSetup (fun _ _ => True) firstElection :=
    ⟨⟨by decide, trivial, trivial⟩, ⟨by decide, trivial, trivial⟩, ⟨by decide, by decide, trivial⟩,
      ⟨by decide, by decide, trivial⟩, trivial⟩
  have hleader : (((Cluster.initial threeSetup).play firstElection).node 1).raft.role = .leader := by
    decide
  refine ⟨hleader, ?_⟩
  intro c' hrun j hj hleader' hterm
  exact one_leader_per_term (Cluster.reaches_play hlegal) hrun (by decide) hj hleader hleader' hterm

/-- Node 3 asks node 1 for its vote in the same term, then node 2 restarts and stands for the next one. -/
def lateCandidates : List (NodeId × Event) :=
  [(3, .startElection), (3, .askPeer), (1, .handleRequestVote ⟨1, 3, 0, 0⟩), (2, .restart), (2, .startElection)]

theorem leader_keeps_votes_of_first_term :
    ∃ c c' : Cluster, (c.node 1).raft.role = .leader ∧ (c'.node 2).raft.persistent.currentTerm = 2 ∧
      ∃ Q ⊆ threeSetup.members, 2 ≤ Q.card ∧
        ∀ v ∈ Q, c'.KeepsVote v (c.node 1).raft.persistent.currentTerm 1 := by
  have hwon : Cluster.Reaches threeSetup (fun _ _ => True) _ ((Cluster.initial threeSetup).play firstElection) :=
    Cluster.reaches_play (by decide +kernel)
  have hlater : Cluster.Reaches threeSetup (fun _ _ => True) _
      (((Cluster.initial threeSetup).play firstElection).play lateCandidates) :=
    Cluster.reaches_play (by decide +kernel)
  have hleader : (((Cluster.initial threeSetup).play firstElection).node 1).raft.role = .leader := by decide
  rcases leader_keeps_votes hwon (by decide) hleader with ⟨Q, hQ, hcard, hkeeps⟩
  exact ⟨_, _, hleader, by decide +kernel, Q, hQ, hcard, hkeeps _ hlater⟩

end Northstar.Consensus
