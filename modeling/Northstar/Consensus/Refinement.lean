import Northstar.Consensus.Commit
import Northstar.Consensus.Election

/-!
# Refinement — the cluster beside a history of append-only logs

`Refines` ties a cluster to a history of `Lib/ReplicatedLog`: the logs and terms are the same, every
message quotes the history, and what a node has committed or applied is chosen there.  It is an
invariant of runs whose requests extend logs at their end, which is where the history's logs grow.
-/

namespace Northstar.Consensus

open ReplicatedLog

abbrev LogHistory := History NodeId LogEntry

/-- A majority of the members. -/
def Setup.IsQuorum (S : Setup) (A : Finset NodeId) : Prop := A ⊆ S.members ∧ S.half + 1 ≤ A.card

theorem Setup.quorums_meet (S : Setup) (A B : Finset NodeId) (hA : S.IsQuorum A)
    (hB : S.IsQuorum B) : ∃ v ∈ A, v ∈ B := by
  have hodd := S.odd
  have hmeet : (A ∩ B).Nonempty :=
    Finset.inter_nonempty_of_card_lt_card_add_card hA.1 hB.1 (by have := hA.2; have := hB.2; omega)
  rcases hmeet with ⟨v, hv⟩
  exact ⟨v, (Finset.mem_inter.mp hv).1, (Finset.mem_inter.mp hv).2⟩

/-- A log that is part of something chosen. -/
def Committed (S : Setup) (H : LogHistory) (log : List LogEntry) : Prop :=
  log = [] ∨ ∃ t k, Chosen LogEntry.term S.IsQuorum H t k ∧ log <+: (H.leaderLog t).take (k + 1)

def Led (S : Setup) (H : LogHistory) (V : Set Vote) (term : Nat) (i : NodeId) : Prop :=
  term ∈ H.elected ∧ Won S V term i

/-- A leader in office. -/
structure Leads (S : Setup) (H : LogHistory) (V : Set Vote) (i : NodeId) (ls : LeaderVolatileState) :
    Prop where
  elected : H.term i ∈ H.elected
  own : H.leaderLog (H.term i) = H.log i
  counters : ls.lastApplied = ls.commitIndex
  bound : ls.commitIndex ≤ (H.log i).length
  committed : Committed S H ((H.log i).take ls.commitIndex)
  peers : (ls.matchIndex.entries.map Prod.fst).Nodup
  -- a peer counts for what it has acknowledged, to this leader in this or an earlier term
  matched : ∀ p v, (p, v) ∈ ls.matchIndex.entries → p ∈ S.members ∧ p ≠ i ∧
    (v = 0 ∨ ∃ t ≤ H.term i, Led S H V t i ∧ ⟨p, t, v⟩ ∈ H.acks)

structure NodeOk (S : Setup) (H : LogHistory) (V : Set Vote) (i : NodeId) (r : Raft) : Prop where
  log : r.persistent.log = H.log i
  term : r.persistent.currentTerm = H.term i
  contiguous : Contiguous (H.log i)
  normal : AllNormal (H.log i)
  majority : r.clusterConfig.majority = S.half + 1
  office : r.role ≠ .follower → 1 ≤ H.term i
  counters : r.followerState.lastApplied = r.followerState.commitIndex
  applied : r.applied <+: H.log i ∧ Committed S H r.applied
  leads : r.role = .leader → ∃ ls, r.leaderState = some ls ∧ Leads S H V i ls

/-- A request quotes the log of the leader of its term as it was, to its end. -/
structure Quotes (S : Setup) (H : LogHistory) (V : Set Vote) (args : AppendEntriesArgs) : Prop where
  led : Led S H V args.term args.leaderId
  quoted : ∃ n, n ≤ (H.leaderLog args.term).length ∧ args.leaderCommit ≤ n ∧
    args.entries = ((H.leaderLog args.term).take n).drop args.prevLogIndex ∧
    (args.prevLogTerm = 0 ∨ 0 < args.prevLogIndex ∧
      ∃ e, ((H.leaderLog args.term).take n)[args.prevLogIndex - 1]? = some e ∧
        e.term = args.prevLogTerm)
  committed : Committed S H ((H.leaderLog args.term).take args.leaderCommit)

def MessageOk (S : Setup) (H : LogHistory) (V : Set Vote) : Message → Prop
  | .requestVote _ args => ∃ la, la <+: H.log args.candidateId ∧
      args.lastLogTerm = lastTerm LogEntry.term la ∧ args.lastLogIndex = la.length
  | .requestVoteReply _ _ _ => True
  | .appendEntries dest args => Quotes S H V args ∧ dest ≠ args.leaderId
  | .appendEntriesReply peer args reply => Quotes S H V args ∧ peer ≠ args.leaderId ∧
      peer ∈ S.members ∧
      (reply.success = true → args.entries ≠ [] →
        ⟨peer, args.term, args.prevLogIndex + args.entries.length⟩ ∈ H.acks)

/-- The vote was cast for a log that was not behind. -/
def Backed (H : LogHistory) (v : Vote) : Prop :=
  ∃ b ∈ H.ballots, b.voter = v.voter ∧ b.term = v.term ∧
    ∃ la, la <+: H.log v.candidate ∧ UpToDate LogEntry.term la b.log

/-- The leader of a term: still in office, or already in a later term. -/
def Presides (S : Setup) (H : LogHistory) (V : Set Vote) (term : Nat) (i : NodeId) (r : Raft) :
    Prop :=
  Won S V term i ∧ H.leaderLog term <+: H.log i ∧
    (term < H.term i ∨ term = H.term i ∧ r.role = .leader)

structure Refines (S : Setup) (H : LogHistory) (V : Set Vote) (c : Cluster) : Prop where
  elections : Elections S V c
  ok : Ok LogEntry.term S.IsQuorum H
  node : ∀ i ∈ S.members, NodeOk S H V i (c.node i).raft
  serving : ∀ i ∈ S.members, ∀ peer ∈ (c.node i).serving, peer ∈ (S.config i).peers
  sent : ∀ m ∈ c.sent, MessageOk S H V m
  votes : ∀ v ∈ V, Backed H v
  leaders : ∀ t ∈ H.elected, ∃ j ∈ S.members, Presides S H V t j (c.node j).raft

variable {i : NodeId}

section growth

variable {S : Setup} {H H' : LogHistory} {V V' : Set Vote}

theorem Committed.grow (hgrows : Grows H H') {log : List LogEntry} (h : Committed S H log) :
    Committed S H' log := by
  rcases h with rfl | ⟨t, k, hchosen, hpre⟩
  · exact Or.inl rfl
  · exact Or.inr ⟨t, k, hchosen.grow hgrows, hpre.trans ((hgrows.leaderLog t).take _)⟩

theorem Committed.comparable (hok : Ok LogEntry.term S.IsQuorum H) {log log' : List LogEntry}
    (h : Committed S H log) (h' : Committed S H log') : log <+: log' ∨ log' <+: log := by
  rcases h with rfl | ⟨t, k, hchosen, hpre⟩
  · exact Or.inl List.nil_prefix
  rcases h' with rfl | ⟨t', k', hchosen', hpre'⟩
  · exact Or.inr List.nil_prefix
  rcases hok.comparable S.quorums_meet hchosen hchosen' with hle | hle
  · exact List.prefix_or_prefix_of_prefix (hpre.trans hle) hpre'
  · exact List.prefix_or_prefix_of_prefix hpre (hpre'.trans hle)

theorem Led.grow (hgrows : Grows H H') (hV : V ⊆ V') {t : Nat} (h : Led S H V t i) :
    Led S H' V' t i :=
  ⟨hgrows.elected h.1, h.2.mono hV⟩

theorem Quotes.grow (hgrows : Grows H H') (hV : V ⊆ V') {args : AppendEntriesArgs}
    (h : Quotes S H V args) : Quotes S H' V' args := by
  rcases h with ⟨hled, ⟨n, hn, hcommit, hentries, hprev⟩, hcommitted⟩
  have htake : (H'.leaderLog args.term).take n = (H.leaderLog args.term).take n :=
    take_of_isPrefix (hgrows.leaderLog _) hn
  refine ⟨hled.grow hgrows hV, ⟨n, hn.trans (hgrows.leaderLog _).length_le, hcommit, ?_, ?_⟩, ?_⟩
  · rw [htake]
    exact hentries
  · rw [htake]
    exact hprev
  · rw [take_of_isPrefix (hgrows.leaderLog _) (hcommit.trans hn)]
    exact hcommitted.grow hgrows

theorem MessageOk.grow (hgrows : Grows H H') (hV : V ⊆ V') {m : Message} (h : MessageOk S H V m) :
    MessageOk S H' V' m := by
  cases m with
  | requestVote dest args =>
    rcases h with ⟨la, hla, hrest⟩
    exact ⟨la, hla.trans (hgrows.log _), hrest⟩
  | requestVoteReply voter args reply => trivial
  | appendEntries dest args => exact ⟨h.1.grow hgrows hV, h.2⟩
  | appendEntriesReply peer args reply =>
    exact ⟨h.1.grow hgrows hV, h.2.1, h.2.2.1, fun hs hne => hgrows.acks (h.2.2.2 hs hne)⟩

theorem Backed.grow (hgrows : Grows H H') {v : Vote} (h : Backed H v) : Backed H' v := by
  rcases h with ⟨b, hb, hvoter, hterm, la, hla, hdate⟩
  exact ⟨b, hgrows.ballots hb, hvoter, hterm, la, hla.trans (hgrows.log _), hdate⟩

theorem Leads.grow (hgrows : Grows H H') (hV : V ⊆ V') {ls : LeaderVolatileState}
    (h : Leads S H V i ls) (hlog : H'.log i = H.log i) (hterm : H'.term i = H.term i)
    (hown : H'.leaderLog (H.term i) = H.leaderLog (H.term i)) : Leads S H' V' i ls where
  elected := hterm ▸ hgrows.elected h.elected
  own := by
    rw [hterm, hlog, hown]
    exact h.own
  counters := h.counters
  bound := hlog ▸ h.bound
  committed := hlog ▸ h.committed.grow hgrows
  peers := h.peers
  matched p v hmem := by
    rcases h.matched p v hmem with ⟨hp, hne, hzero | ⟨t, ht, hled, hack⟩⟩
    · exact ⟨hp, hne, Or.inl hzero⟩
    · exact ⟨hp, hne, Or.inr ⟨t, hterm ▸ ht, hled.grow hgrows hV, hgrows.acks hack⟩⟩

theorem NodeOk.grow (hgrows : Grows H H') (hV : V ⊆ V') {r : Raft}
    (h : NodeOk S H V i r) (hlog : H'.log i = H.log i) (hterm : H'.term i = H.term i)
    (hown : r.role = .leader → H'.leaderLog (H.term i) = H.leaderLog (H.term i)) :
    NodeOk S H' V' i r where
  log := h.log.trans hlog.symm
  term := h.term.trans hterm.symm
  contiguous := hlog ▸ h.contiguous
  normal := hlog ▸ h.normal
  majority := h.majority
  office hrole := hterm ▸ h.office hrole
  counters := h.counters
  applied := ⟨hlog ▸ h.applied.1, h.applied.2.grow hgrows⟩
  leads hrole := by
    rcases h.leads hrole with ⟨ls, hls, hleads⟩
    exact ⟨ls, hls, hleads.grow hgrows hV hlog hterm (hown hrole)⟩

end growth

namespace Refines

variable {S : Setup} {H : LogHistory} {V : Set Vote} {c : Cluster}

theorem prefix_of_led (h : Refines S H V c) {t : Nat} (hled : Led S H V t i) :
    H.leaderLog t <+: H.log i := by
  rcases h.leaders t hled.1 with ⟨j, -, hwon, hpre, -⟩
  rw [h.elections.won_unique hled.2 hwon]
  exact hpre

/-- **One event.**  Only the node it happens at, the terms this node has led, and what is new have to
be looked at. -/
theorem step (h : Refines S H V c) {i : NodeId} (hi : i ∈ S.members) {e : Event} {H' : LogHistory}
    {V' : Set Vote} (helections : Elections S V' (c.after i e)) (hV : V ⊆ V') (hgrows : Grows H H')
    (hok : Ok LogEntry.term S.IsQuorum H')
    (hothers : ∀ j, j ≠ i → H'.log j = H.log j ∧ H'.term j = H.term j)
    (hterms : ∀ t ∈ H.elected, ¬ Won S V t i → H'.leaderLog t = H.leaderLog t)
    (hnode : NodeOk S H' V' i ((c.node i).step e).1.raft)
    (hserving : ∀ peer ∈ ((c.node i).step e).1.serving, peer ∈ (S.config i).peers)
    (hsent : ∀ m ∈ ((c.node i).step e).2, MessageOk S H' V' m)
    (hvotes : ∀ v ∈ V', v ∉ V → Backed H' v)
    (hleaders : ∀ t ∈ H'.elected, (t ∈ H.elected → Presides S H V t i (c.node i).raft) →
      Presides S H' V' t i ((c.node i).step e).1.raft) :
    Refines S H' V' (c.after i e) := by
  refine ⟨helections, hok, ?_, ?_, ?_, ?_, ?_⟩
  · intro j hj
    by_cases hij : j = i
    · subst hij
      rw [Cluster.node_after_self]
      exact hnode
    · rw [Cluster.node_after_ne hij]
      apply (h.node j hj).grow hgrows hV (hothers j hij).1 (hothers j hij).2
      intro hrole
      rcases (h.node j hj).leads hrole with ⟨ls, -, hleads⟩
      apply hterms _ hleads.elected
      intro hwon
      have hlead := h.elections.leaders j hj hrole
      rw [(h.node j hj).term] at hlead
      exact hij (h.elections.won_unique hlead hwon)
  · intro j hj
    by_cases hij : j = i
    · subst hij
      rw [Cluster.node_after_self]
      exact hserving
    · rw [Cluster.node_after_ne hij]
      exact h.serving j hj
  · intro m hm
    rcases Cluster.mem_sent_after.mp hm with hold | hnew
    · exact (h.sent m hold).grow hgrows hV
    · exact hsent m hnew
  · intro v hv
    by_cases hold : v ∈ V
    · exact (h.votes v hold).grow hgrows
    · exact hvotes v hv hold
  · intro t ht
    by_cases hold : t ∈ H.elected
    · rcases h.leaders t hold with ⟨j, hj, hpresides⟩
      refine ⟨j, hj, ?_⟩
      by_cases hij : j = i
      · subst hij
        rw [Cluster.node_after_self]
        exact hleaders t ht fun _ => hpresides
      · rcases hpresides with ⟨hwon, hpre, hoffice⟩
        have hsame : H'.leaderLog t = H.leaderLog t :=
          hterms t hold fun hwon' => hij (h.elections.won_unique hwon hwon')
        unfold Presides
        rw [Cluster.node_after_ne hij, (hothers j hij).1, (hothers j hij).2, hsame]
        exact ⟨hwon.mono hV, hpre, hoffice⟩
    · refine ⟨i, hi, ?_⟩
      rw [Cluster.node_after_self]
      exact hleaders t ht fun hmem => absurd hmem hold

end Refines

end Northstar.Consensus
