import Northstar.Consensus.Refinement

/-!
# Offices — events that change term, vote and office

Elections against the history: terms go up, ballots are filed, and a candidate with a majority of them
becomes the leader of a term that has none.
-/

namespace Northstar.Consensus

open ReplicatedLog

variable {r : Raft} {args : RequestVoteArgs}

namespace Raft

/-- Nothing but term, vote and office changes, and an office is left only for a later term. -/
structure Steady (r r' : Raft) : Prop where
  log : r'.persistent.log = r.persistent.log
  cluster : r'.clusterConfig = r.clusterConfig
  follower : r'.followerState = r.followerState
  applied : r'.applied = r.applied
  term : r.persistent.currentTerm ≤ r'.persistent.currentTerm
  office : r'.role ≠ .follower → r.role ≠ .follower ∨ 1 ≤ r'.persistent.currentTerm
  leader : r'.role = .leader → r.role = .leader ∧
    r'.persistent.currentTerm = r.persistent.currentTerm ∧ r'.leaderState = r.leaderState
  leaves : r.role = .leader → r'.role = .leader ∨
    r.persistent.currentTerm < r'.persistent.currentTerm

theorem Steady.refl (r : Raft) : Steady r r :=
  ⟨rfl, rfl, rfl, rfl, le_refl _, Or.inl, fun hrole => ⟨hrole, rfl, rfl⟩, Or.inl⟩

theorem steady_becomeFollower {term : Nat} (h : r.persistent.currentTerm < term) :
    Steady r (r.becomeFollower term) := by
  have hterm : (r.becomeFollower term).persistent.currentTerm = term := by
    unfold becomeFollower
    dsimp only
    rw [if_pos h]
  refine ⟨log_becomeFollower r term, rfl, rfl, rfl, ?_, ?_, ?_, ?_⟩
  · omega
  · exact fun hrole => absurd rfl hrole
  · intro hrole
    cases hrole
  · exact fun _ => Or.inr (by omega)

theorem steady_observeTerm (r : Raft) (term : Nat) : Steady r (r.observeTerm term) := by
  unfold observeTerm
  by_cases h : term > r.persistent.currentTerm
  · rw [if_pos h]
    exact steady_becomeFollower h
  · rw [if_neg h]
    exact Steady.refl r

theorem steady_becomeCandidate (r : Raft) : Steady r r.becomeCandidate := by
  refine ⟨rfl, rfl, rfl, rfl, Nat.le_succ _, ?_, ?_, ?_⟩
  · exact fun _ => Or.inr (Nat.succ_le_succ (Nat.zero_le _))
  · intro hrole
    cases hrole
  · exact fun _ => Or.inr (Nat.lt_succ_self _)

theorem steady_handleRequestVote (r : Raft) (args : RequestVoteArgs) :
    Steady r (r.handleRequestVote args).1 := by
  have hobserve := steady_observeTerm r args.term
  unfold handleRequestVote
  split
  · exact Steady.refl r
  · dsimp only
    split
    · exact ⟨hobserve.log, hobserve.cluster, hobserve.follower, hobserve.applied, hobserve.term,
        hobserve.office, hobserve.leader, hobserve.leaves⟩
    · exact hobserve

theorem logOk_of_granted (h : (r.handleRequestVote args).2.voteGranted = true) :
    (r.handleRequestVote args).1.persistent.currentTerm = args.term ∧
      (args.lastLogTerm > r.persistent.lastLogTerm ∨
        args.lastLogTerm = r.persistent.lastLogTerm ∧
          args.lastLogIndex ≥ r.persistent.lastLogIndex) := by
  unfold handleRequestVote at h ⊢
  split at h
  · cases h
  · next hterm =>
    rw [if_neg hterm]
    dsimp only at h ⊢
    split at h
    · next hgrants =>
      rw [if_pos hgrants]
      refine ⟨?_, ?_⟩
      · show (r.observeTerm args.term).persistent.currentTerm = args.term
        rw [currentTerm_observeTerm]
        omega
      · unfold grants at hgrants
        simp only [decide_eq_true_eq] at hgrants
        unfold RaftPersistentState.lastLogTerm RaftPersistentState.lastLogIndex at hgrants ⊢
        rw [log_observeTerm] at hgrants
        exact hgrants.2
    · cases h

theorem handleRequestVoteReply_steady (r : Raft) (peer : NodeId) (args : RequestVoteArgs)
    (reply : RequestVoteReply) :
    Steady r (r.handleRequestVoteReply peer args reply) ∨
      r.role = .candidate ∧ r.handleRequestVoteReply peer args reply =
        { r with votesReceived := insert peer r.votesReceived }.becomeLeader := by
  unfold handleRequestVoteReply
  dsimp only
  split
  · next h => exact Or.inl (steady_becomeFollower h)
  · split
    · exact Or.inl (Steady.refl r)
    · next hrole =>
      split
      · exact Or.inl (Steady.refl r)
      · split
        · split
          · exact Or.inr ⟨Decidable.not_not.mp hrole, rfl⟩
          · have hrefl := Steady.refl r
            exact Or.inl ⟨rfl, rfl, rfl, rfl, le_refl _, hrefl.office, hrefl.leader, hrefl.leaves⟩
        · exact Or.inl (Steady.refl r)

end Raft

/-- What a change of term does to the history.  A ballot that nobody counts does no harm, so one is
filed at every such event. -/
def turn (H : LogHistory) (i : NodeId) (term : Nat) : LogHistory := (H.observe i term).vote i

variable {i : NodeId}

theorem grows_turn {H : LogHistory} {term : Nat} (h : H.term i ≤ term) : Grows H (turn H i term) :=
  (grows_observe h).trans (grows_vote _ i)

theorem term_turn (H : LogHistory) (i : NodeId) (term : Nat) : (turn H i term).term i = term :=
  Function.update_self ..

theorem term_turn_ne (H : LogHistory) {j : NodeId} (hne : j ≠ i) (term : Nat) :
    (turn H i term).term j = H.term j :=
  Function.update_of_ne hne ..

theorem NodeOk.steady {S : Setup} {H : LogHistory} {V V' : Set Vote} (hV : V ⊆ V')
    {r' : Raft} (h : NodeOk S H V i r) (hsteady : Raft.Steady r r') :
    NodeOk S (turn H i r'.persistent.currentTerm) V' i r' := by
  have hterm := term_turn H i r'.persistent.currentTerm
  have hle : H.term i ≤ r'.persistent.currentTerm := h.term ▸ hsteady.term
  have hgrows := grows_turn hle
  refine ⟨hsteady.log.trans h.log, hterm.symm, h.contiguous, h.normal, ?_, ?_, ?_, ?_, ?_⟩
  · rw [hsteady.cluster]
    exact h.majority
  · intro hrole
    rw [hterm]
    rcases hsteady.office hrole with hbefore | hpos
    · exact (h.office hbefore).trans hle
    · exact hpos
  · rw [hsteady.follower]
    exact h.counters
  · rw [hsteady.applied]
    exact ⟨h.applied.1, h.applied.2.grow hgrows⟩
  · intro hrole
    rcases hsteady.leader hrole with ⟨hbefore, hsame, hls'⟩
    rcases h.leads hbefore with ⟨ls, hls, hleads⟩
    refine ⟨ls, hls'.trans hls, hleads.grow hgrows hV rfl ?_ rfl⟩
    rw [hterm, hsame, h.term]

namespace Refines

variable {S : Setup} {H : LogHistory} {V : Set Vote} {c : Cluster}

theorem steady (h : Refines S H V c) (hi : i ∈ S.members) {e : Event} {V' : Set Vote}
    (helections : Elections S V' (c.after i e)) (hV : V ⊆ V')
    (hsteady : Raft.Steady (c.node i).raft ((c.node i).step e).1.raft)
    (hserving : ∀ peer ∈ ((c.node i).step e).1.serving, peer ∈ (S.config i).peers)
    (hsent : ∀ m ∈ ((c.node i).step e).2, MessageOk S H V m)
    (hvotes : ∀ v ∈ V', v ∉ V → v.voter = i ∧
      v.term = ((c.node i).step e).1.raft.persistent.currentTerm ∧
      ∃ la, la <+: H.log v.candidate ∧ UpToDate LogEntry.term la (H.log i)) :
    ∃ H', Refines S H' V' (c.after i e) := by
  have hle : H.term i ≤ ((c.node i).step e).1.raft.persistent.currentTerm :=
    (h.node i hi).term ▸ hsteady.term
  have hgrows := grows_turn hle
  have hterm := term_turn H i ((c.node i).step e).1.raft.persistent.currentTerm
  refine ⟨turn H i ((c.node i).step e).1.raft.persistent.currentTerm, ?_⟩
  apply h.step hi helections hV hgrows ((h.ok.observe hle).vote i)
  · exact fun j hij => ⟨rfl, term_turn_ne H hij _⟩
  · exact fun t _ _ => rfl
  · exact (h.node i hi).steady hV hsteady
  · exact hserving
  · exact fun m hm => (hsent m hm).grow hgrows hV
  · intro v hv hnew
    rcases hvotes v hv hnew with ⟨hvoter, hvterm, la, hla, hdate⟩
    refine ⟨_, Set.mem_insert _ _, hvoter.symm, ?_, la, hla, hdate⟩
    exact hterm.trans hvterm.symm
  · intro t ht hpresides
    rcases hpresides ht with ⟨hwon, hpre, hoffice⟩
    refine ⟨hwon.mono hV, hpre, ?_⟩
    rw [hterm]
    rcases hoffice with hlt | ⟨heq, hrole⟩
    · exact Or.inl (by omega)
    · rcases hsteady.leaves hrole with hstays | hlater
      · refine Or.inr ⟨?_, hstays⟩
        rw [(hsteady.leader hstays).2.1, (h.node i hi).term]
        exact heq
      · rw [(h.node i hi).term] at hlater
        exact Or.inl (by omega)

theorem lastLogTerm_eq (p : RaftPersistentState) :
    p.lastLogTerm = lastTerm LogEntry.term p.log := by
  unfold RaftPersistentState.lastLogTerm lastTerm
  cases p.log.getLast? with
  | none => rfl
  | some e => rfl

theorem peer_of_config (S : Setup) (hi : i ∈ S.members) {id : NodeId}
    (h : id ∈ (S.config i).peers.map NodeInfo.id) : id ∈ S.members ∧ id ≠ i := by
  constructor
  · rw [← S.nodes i hi]
    exact List.mem_toFinset.mpr (List.mem_cons_of_mem _ h)
  · rintro rfl
    have hnodup := RaftConfig.nodup_of_validate (S.valid id hi)
    unfold RaftConfig.getClusterNodes at hnodup
    rw [S.own id hi] at hnodup
    exact (List.nodup_cons.mp hnodup).1 h

theorem startElection (h : Refines S H V c) (hi : i ∈ S.members) :
    ∃ H' V', Refines S H' V' (c.after i .startElection) := by
  have hsteady := h.steady hi (h.elections.startElection hi) (Set.subset_insert _ _)
    (Raft.steady_becomeCandidate _) (h.serving i hi) (fun m hm => absurd hm List.not_mem_nil) ?_
  · rcases hsteady with ⟨H', h'⟩
    exact ⟨H', _, h'⟩
  · intro v hv hnew
    rcases Set.mem_insert_iff.mp hv with rfl | hold
    · exact ⟨rfl, rfl, H.log i, List.prefix_refl _, Or.inr ⟨rfl, le_refl _⟩⟩
    · exact absurd hold hnew

theorem askPeer (h : Refines S H V c) (hi : i ∈ S.members) :
    ∃ H', Refines S H' V (c.after i .askPeer) := by
  have hnode := h.node i hi
  apply h.steady hi (h.elections.quiet hi (Node.raft_askPeer _) (Node.sent_askPeer _)) (le_refl V)
  · rw [Node.raft_askPeer]
    exact Raft.Steady.refl _
  · unfold Node.step
    dsimp only
    split
    · exact h.serving i hi
    · exact h.serving i hi
  · unfold Node.step
    dsimp only
    split
    · exact fun m hm => absurd hm List.not_mem_nil
    · intro m hm
      rw [List.mem_singleton.mp hm]
      have hid : (c.node i).raft.config.nodeId = i := h.elections.id_eq hi
      refine ⟨H.log i, ?_, ?_, ?_⟩
      · show H.log i <+: H.log (c.node i).raft.config.nodeId
        rw [hid]
      · show (c.node i).raft.persistent.lastLogTerm = _
        rw [lastLogTerm_eq, hnode.log]
      · show (c.node i).raft.persistent.lastLogIndex = _
        rw [Contiguous.lastLogIndex (hnode.log ▸ hnode.contiguous), hnode.log]
  · exact fun v hv hnew => absurd hv hnew

theorem handleRequestVote (h : Refines S H V c) (hi : i ∈ S.members)
    (henabled : (c.node i).Enabled c.sent (.handleRequestVote args)) :
    ∃ H' V', Refines S H' V' (c.after i (.handleRequestVote args)) := by
  have hnode := h.node i hi
  have hmessage : ∀ m ∈ ((c.node i).step (.handleRequestVote args)).2, MessageOk S H V m := by
    intro m hm
    rw [List.mem_singleton.mp hm]
    trivial
  have hsteady := Raft.steady_handleRequestVote (c.node i).raft args
  rcases h.elections.vote hi args with ⟨-, hrefused⟩ | ⟨hgranted, hcast⟩
  · rcases h.steady hi hrefused (le_refl V) hsteady (h.serving i hi) hmessage
      (fun v hv hnew => absurd hv hnew) with ⟨H', h'⟩
    exact ⟨H', V, h'⟩
  · rcases h.sent _ henabled with ⟨la, hla, hlastTerm, hlastIndex⟩
    rcases Raft.logOk_of_granted hgranted with ⟨hterm, hdate⟩
    rw [lastLogTerm_eq, hnode.log, Contiguous.lastLogIndex (hnode.log ▸ hnode.contiguous), hnode.log,
      hlastTerm, hlastIndex] at hdate
    have hnext := h.steady hi hcast (Set.subset_insert _ _) hsteady (h.serving i hi) hmessage ?_
    · rcases hnext with ⟨H', h'⟩
      exact ⟨H', _, h'⟩
    · intro v hv hnew
      rcases Set.mem_insert_iff.mp hv with rfl | hold
      · exact ⟨rfl, hterm.symm, la, hla, hdate⟩
      · exact absurd hold hnew

end Refines

theorem matchIndex_init (peerIds : List NodeId) (lastLogIndex : Nat) :
    ((LeaderVolatileState.init peerIds lastLogIndex).matchIndex.entries.map Prod.fst).Nodup ∧
      ∀ p v, (p, v) ∈ (LeaderVolatileState.init peerIds lastLogIndex).matchIndex.entries →
        p ∈ peerIds ∧ v = 0 := by
  have hfold : ∀ (ids : List NodeId) (m : IndexMap), (m.entries.map Prod.fst).Nodup →
      (∀ p v, (p, v) ∈ m.entries → p ∈ peerIds ∧ v = 0) → (∀ id ∈ ids, id ∈ peerIds) →
      ((ids.foldl (fun m id => m.put id 0) m).entries.map Prod.fst).Nodup ∧
        ∀ p v, (p, v) ∈ (ids.foldl (fun m id => m.put id 0) m).entries → p ∈ peerIds ∧ v = 0 := by
    intro ids
    induction ids with
    | nil => exact fun m hnodup hall _ => ⟨hnodup, hall⟩
    | cons id ids ih =>
      intro m hnodup hall hids
      rw [List.foldl_cons]
      apply ih
      · exact IndexMap.nodup_put hnodup id 0
      · intro p v hmem
        rcases IndexMap.mem_put.mp hmem with ⟨rfl, rfl⟩ | ⟨-, hold⟩
        · exact ⟨hids p (List.mem_cons_self ..), rfl⟩
        · exact hall p v hold
      · exact fun id' hid' => hids id' (List.mem_cons_of_mem _ hid')
  exact hfold peerIds {} List.nodup_nil (fun _ _ hmem => absurd hmem List.not_mem_nil)
    (fun _ hid => hid)

namespace Refines

variable {S : Setup} {H : LogHistory} {V : Set Vote} {c : Cluster}

theorem elect (h : Refines S H V c) (hi : i ∈ S.members) {e : Event}
    (helections : Elections S V (c.after i e)) (hrole : (c.node i).raft.role = .candidate)
    {votes : Finset NodeId}
    (hstep : ((c.node i).step e).1.raft = { (c.node i).raft with votesReceived := votes }.becomeLeader)
    (hserving : ((c.node i).step e).1.serving = (c.node i).serving)
    (hsent : ((c.node i).step e).2 = []) : Refines S (H.elect i) V (c.after i e) := by
  have hnode := h.node i hi
  have hwon : Won S V (H.term i) i := by
    have hleader := helections.leaders i hi (by rw [Cluster.node_after_self, hstep]; rfl)
    rw [Cluster.node_after_self, hstep] at hleader
    rw [← hnode.term]
    exact hleader
  -- the term has no leader yet: it would be this node, which is a candidate
  have hvacant : H.term i ∉ H.elected := by
    intro hmem
    rcases h.leaders _ hmem with ⟨j, -, hwon', -, hoffice⟩
    have hji : j = i := h.elections.won_unique hwon' hwon
    subst hji
    rcases hoffice with hlt | ⟨-, hleader⟩
    · exact absurd hlt (Nat.lt_irrefl _)
    · rw [hrole] at hleader
      cases hleader
  have hgrows := grows_elect h.ok hvacant
  have hself : (H.elect i).leaderLog (H.term i) = H.log i := Function.update_self ..
  have hother : ∀ t ∈ H.elected, (H.elect i).leaderLog t = H.leaderLog t := by
    intro t ht
    have hne : t ≠ H.term i := fun heq => hvacant (heq ▸ ht)
    exact Function.update_of_ne hne ..
  apply h.step hi helections (le_refl V) hgrows
  · rcases hwon with ⟨Q, hQ, hcard, hvotes⟩
    apply h.ok.elect hvacant (A := Q) ⟨hQ, hcard⟩
    intro v hv
    exact h.votes _ (hvotes v hv)
  · exact fun j _ => ⟨rfl, rfl⟩
  · exact fun t ht _ => hother t ht
  · rw [hstep]
    refine ⟨hnode.log, hnode.term, hnode.contiguous, hnode.normal, hnode.majority, ?_,
      hnode.counters, ⟨hnode.applied.1, hnode.applied.2.grow hgrows⟩, ?_⟩
    · intro _
      exact hnode.office (by rw [hrole]; exact fun hno => by cases hno)
    · intro _
      refine ⟨_, rfl, Set.mem_insert _ _, hself, rfl, Nat.zero_le _, Or.inl (List.take_zero ..), ?_, ?_⟩
      · exact (matchIndex_init _ _).1
      · intro p v hmem
        rcases (matchIndex_init _ _).2 p v hmem with ⟨hp, hzero⟩
        have hp : p ∈ (c.node i).raft.config.peers.map NodeInfo.id := hp
        rw [h.elections.config i hi] at hp
        rcases peer_of_config S hi hp with ⟨hmember, hne⟩
        exact ⟨hmember, hne, Or.inl hzero⟩
  · rw [hserving]
    exact h.serving i hi
  · rw [hsent]
    exact fun m hm => absurd hm List.not_mem_nil
  · exact fun v hv hnew => absurd hv hnew
  · intro t ht hpresides
    by_cases hold : t ∈ H.elected
    · rcases hpresides hold with ⟨hwon', hpre, hoffice⟩
      refine ⟨hwon', ?_, ?_⟩
      · rw [hother t hold]
        exact hpre
      · rcases hoffice with hlt | ⟨-, hleader⟩
        · exact Or.inl hlt
        · rw [hrole] at hleader
          cases hleader
    · have heq : t = H.term i := (Set.mem_insert_iff.mp ht).resolve_right hold
      rw [heq]
      refine ⟨hwon, ?_, Or.inr ⟨rfl, ?_⟩⟩
      · rw [hself]
        exact List.prefix_refl _
      · rw [hstep]
        rfl

theorem handleRequestVoteReply (h : Refines S H V c) (hi : i ∈ S.members) {peer : NodeId}
    {reply : RequestVoteReply}
    (henabled : (c.node i).Enabled c.sent (.handleRequestVoteReply peer args reply)) :
    ∃ H', Refines S H' V (c.after i (.handleRequestVoteReply peer args reply)) := by
  have helections := h.elections.count hi henabled
  rcases Raft.handleRequestVoteReply_steady (c.node i).raft peer args reply
    with hsteady | ⟨hrole, hwins⟩
  · exact h.steady hi helections (le_refl V) hsteady (h.serving i hi)
      (fun m hm => absurd hm List.not_mem_nil) (fun v hv hnew => absurd hv hnew)
  · exact ⟨_, h.elect hi helections hrole hwins rfl rfl⟩

end Refines

end Northstar.Consensus
