import Northstar.Consensus.Append

/-!
# LeaderOnly — who sends replication requests

`leaderLoop` handles the answer of a peer before it turns to the next one, and an answer with a higher
term makes the node a follower.  After an `InstallSnapshot` the loop returns then; after an
`AppendEntries` it goes on.
-/

namespace Northstar.Consensus

def Sending.Leads (s : Sending) : Prop := s.role = .leader ∧ s.currentTerm = s.request.term

namespace Raft

/-- No `AppendEntries` answer but that of the last peer carries a higher term. -/
def QuietPass (r : Raft) (pass : Pass) : Prop :=
  ∀ peer ∈ r.config.peers.dropLast, ∀ answer reply, pass.appendEntries = some answer →
    answer peer.id = some reply → reply.term ≤ r.persistent.currentTerm

theorem servePeer_sends (pass : Pass) (r : Raft) (peer : NodeInfo) :
    ∀ s ∈ (servePeer pass r peer).2.1, s.role = r.role ∧ s.currentTerm = s.request.term := by
  unfold servePeer
  dsimp only
  repeat' split
  all_goals
    intro s hs
    first
    | exact absurd hs List.not_mem_nil
    | rw [List.mem_singleton.mp hs]; exact ⟨rfl, rfl⟩

theorem handleAppendEntriesReply_leads {r : Raft} (hrole : r.role = .leader) (peer : NodeId)
    (args : AppendEntriesArgs) {reply : AppendEntriesReply}
    (hterm : reply.term ≤ r.persistent.currentTerm) :
    (r.handleAppendEntriesReply peer args reply).role = .leader ∧
      (r.handleAppendEntriesReply peer args reply).persistent = r.persistent := by
  unfold handleAppendEntriesReply
  split
  · rw [if_neg (Nat.not_lt.mpr hterm)]
    repeat' split
    all_goals exact ⟨hrole, rfl⟩
  · exact ⟨hrole, rfl⟩

theorem servePeer_leads {pass : Pass} {r r' : Raft} {peer : NodeInfo} {sent : List Sending}
    (hrole : r.role = .leader)
    (hquiet : ∀ answer reply, pass.appendEntries = some answer → answer peer.id = some reply →
      reply.term ≤ r.persistent.currentTerm)
    (h : servePeer pass r peer = (r', sent, true)) :
    r'.role = .leader ∧ r'.persistent = r.persistent := by
  unfold servePeer at h
  dsimp only at h
  split at h
  · split at h
    · cases h
      exact ⟨hrole, rfl⟩
    · split at h
      · cases h
      · cases h
        exact ⟨hrole, rfl⟩
  · split at h
    · cases h
      exact ⟨hrole, rfl⟩
    · next answer hanswer =>
      split at h
      · cases h
        exact ⟨hrole, rfl⟩
      · next reply hreply =>
        cases h
        exact handleAppendEntriesReply_leads hrole _ _ (hquiet answer reply hanswer hreply)

theorem servePeers_leads {pass : Pass} {peers : List NodeInfo} {r : Raft} (hrole : r.role = .leader)
    (hquiet : ∀ peer ∈ peers.dropLast, ∀ answer reply, pass.appendEntries = some answer →
      answer peer.id = some reply → reply.term ≤ r.persistent.currentTerm) :
    ∀ s ∈ (servePeers pass peers r).2.1, s.Leads := by
  induction peers generalizing r with
  | nil =>
    intro s hs
    exact absurd hs List.not_mem_nil
  | cons peer peers ih =>
    have hfirst : ∀ s ∈ (servePeer pass r peer).2.1, s.Leads := by
      intro s hs
      have hsent := servePeer_sends pass r peer s hs
      exact ⟨hsent.1.trans hrole, hsent.2⟩
    intro s hs
    unfold servePeers at hs
    split at hs
    · next r' sent heq =>
      rw [heq] at hfirst
      exact hfirst s hs
    · next r' sent heq =>
      rw [heq] at hfirst
      rcases List.mem_append.mp hs with hs | hs
      · exact hfirst s hs
      · -- there is a later peer, so this one is not the last
        cases peers with
        | nil => exact absurd hs List.not_mem_nil
        | cons next rest =>
          have hpeer := hquiet peer (List.mem_cons_self ..)
          have hleads := servePeer_leads hrole hpeer heq
          apply ih hleads.1 _ s hs
          intro q hq answer reply hanswer hreply
          rw [hleads.2]
          exact hquiet q (List.mem_cons_of_mem _ hq) answer reply hanswer hreply

theorem leaderLoop_leads {pass : Pass} {r : Raft} (hquiet : r.QuietPass pass) :
    ∀ s ∈ (r.leaderLoop pass).2, s.Leads := by
  intro s hs
  unfold leaderLoop at hs
  split at hs
  · exact absurd hs List.not_mem_nil
  · next hrole =>
    have hleads := @servePeers_leads pass r.config.peers r (Decidable.not_not.mp hrole) hquiet
    split at hs
    · next r' sent heq =>
      rw [heq] at hleads
      exact hleads s hs
    · next r' sent heq =>
      rw [heq] at hleads
      exact hleads s hs

theorem sendSnapshotToFollower_leads (r : Raft) (peer : NodeId) :
    ∀ s ∈ ((r.sendSnapshotToFollower peer).toOption).getD [], s.Leads := by
  intro s hs
  unfold sendSnapshotToFollower at hs
  split at hs
  · exact absurd hs List.not_mem_nil
  · next hrole =>
    split at hs
    · exact absurd hs List.not_mem_nil
    · rw [List.mem_singleton.mp hs]
      exact ⟨Decidable.not_not.mp hrole, rfl⟩

def QuietCall (r : Raft) : Call → Prop
  | .leaderLoop pass => r.QuietPass pass
  | _ => True

/-- **Leader-only replication.**  In every run with quiet passes, every request is sent by the leader
of its term. -/
theorem requests_sent_by_leader {cfg : RaftConfig} {calls : List Call}
    (h : (start cfg).RunMeets QuietCall calls) :
    ∀ s ∈ ((start cfg).run calls).2, s.Leads := by
  refine @run_sends QuietCall Sending.Leads ?_ calls (start cfg) h
  intro r c hc s hs
  cases c with
  | leaderLoop pass => exact leaderLoop_leads hc s hs
  | sendSnapshotToFollower peer => exact sendSnapshotToFollower_leads r peer s hs
  | _ => exact absurd hs List.not_mem_nil

/-- Both peers vote for the node. -/
def granted : NodeId → RequestVoteArgs → Option RequestVoteReply := fun _ args => some ⟨args.term, true⟩

/-- A pass in which peer 2 answers with the given term and peer 3 does not answer. -/
def passWith (term : Nat) : Pass where
  appendEntries := some fun id => if id = 2 then some { term := term, success := false } else none
  installSnapshot := none
  stale := { nextIndex := {}, matchIndex := {} }

theorem requests_sent_by_leader_of_two_peers :
    (((start (threeNodes 1 2 3)).run [.startElection granted, .leaderLoop (passWith 1)]).2.map
        Sending.peer = [2, 3]) ∧
      ∀ s ∈ ((start (threeNodes 1 2 3)).run [.startElection granted, .leaderLoop (passWith 1)]).2,
        s.Leads := by
  refine ⟨by decide, requests_sent_by_leader ⟨trivial, ?_, trivial⟩⟩
  intro peer hpeer answer reply hanswer hreply
  cases hanswer
  rw [List.mem_singleton.mp hpeer] at hreply
  cases hreply
  decide

/-- Peer 2 answers with term 5, and the follower of term 5 sends peer 3 an `AppendEntries`. -/
theorem follower_sends_appendEntries :
    ∃ s ∈ ((start (threeNodes 1 2 3)).run [.startElection granted, .leaderLoop (passWith 5)]).2,
      s.peer = 3 ∧ s.request.term = 5 ∧ s.role = .follower ∧ ¬ s.Leads := by
  refine ⟨⟨3, .appendEntries ⟨5, 1, 0, 0, [], 0⟩, .follower, 5⟩, by decide, rfl, rfl, rfl, ?_⟩
  intro hleads
  exact absurd hleads.1 (by decide)

end Raft

end Northstar.Consensus
