import Northstar.Consensus.Offices

/-!
# Replication — events that change logs and counters

A leader writes, sends and commits; a follower accepts.  The history's logs only grow, so these events
follow it as long as they are careful.
-/

namespace Northstar.Consensus

open ReplicatedLog

/-- An event that stays clear of four slips.  A request that brings entries is accepted only where the
log ends, since the entries are appended behind whatever is there.  An entry of an earlier term is
committed only together with one of the leader's own.  A pass of the leader loop ends with the
leadership.  Entries are applied only while `last_applied` of the present role counts what the node
has applied, since leader and follower have a counter each. -/
def Careful (n : Node) : Event → Prop
  | .handleAppendEntries args =>
    n.raft.persistent.currentTerm ≤ args.term → Raft.logMismatch n.raft.persistent args = false →
      (args.entries ≠ [] → args.prevLogIndex = n.raft.persistent.log.length) ∧
      (n.raft.followerState.commitIndex < args.leaderCommit →
        n.raft.followerState.lastApplied = n.raft.applied.length)
  | .updateCommitIndex => n.raft.role = .leader → ∀ ls ∈ n.raft.leaderState,
    ∀ e ∈ n.raft.persistent.log, ls.commitIndex < e.index →
      n.raft.clusterConfig.majority ≤ ls.replicatedCount e.index →
      ls.lastApplied = n.raft.applied.length ∧
        ∃ e' ∈ n.raft.persistent.log, e.index ≤ e'.index ∧
          n.raft.clusterConfig.majority ≤ ls.replicatedCount e'.index ∧
          e'.term = n.raft.persistent.currentTerm
  | .servePeer _ => n.serving ≠ [] → n.raft.role = .leader
  | .restart => False
  | _ => True

instance (n : Node) : DecidablePred (Careful n)
  | .handleAppendEntries _ => inferInstanceAs (Decidable (_ → _ → _))
  | .updateCommitIndex => inferInstanceAs (Decidable (_ → ∀ ls ∈ _, ∀ e ∈ _, _ → _ → _ ∧ ∃ e' ∈ _, _))
  | .servePeer _ => inferInstanceAs (Decidable (_ → _))
  | .restart => .isFalse id
  | .startElection | .askPeer | .handleRequestVote _ | .handleRequestVoteReply ..
  | .handleAppendEntriesReply .. | .propose _ | .beginPass => .isTrue trivial

/-- Every event but a restart. -/
def Up (_ : Node) : Event → Prop
  | .restart => False
  | _ => True

instance (n : Node) : DecidablePred (Up n)
  | .restart => .isFalse id
  | .startElection | .askPeer | .handleRequestVote _ | .handleRequestVoteReply .. | .handleAppendEntries _
  | .handleAppendEntriesReply .. | .propose _ | .beginPass | .servePeer _ | .updateCommitIndex =>
    .isTrue trivial

variable {i : NodeId} {args : AppendEntriesArgs}

namespace Refines

variable {S : Setup} {H : LogHistory} {V : Set Vote} {c : Cluster}

theorem beginPass (h : Refines S H V c) (hi : i ∈ S.members) :
    ∃ H', Refines S H' V (c.after i .beginPass) := by
  apply h.steady hi (h.elections.quiet hi (Node.raft_beginPass _) fun _ _ _ => List.not_mem_nil)
    (le_refl V)
  · rw [Node.raft_beginPass]
    exact Raft.Steady.refl _
  · unfold Node.step
    dsimp only
    split
    · intro peer hpeer
      rw [← h.elections.config i hi]
      exact hpeer
    · exact h.serving i hi
  · exact fun m hm => absurd hm List.not_mem_nil
  · exact fun v hv hnew => absurd hv hnew

theorem extend (h : Refines S H V c) {i : NodeId} (hi : i ∈ S.members) {e : Event}
    (helections : Elections S V (c.after i e)) (hrole : (c.node i).raft.role = .leader)
    {entry : LogEntry} (hterm : entry.term = H.term i) (hindex : entry.index = (H.log i).length + 1)
    (hnormal : ∃ record, entry.command = .normal record)
    (hstep : ((c.node i).step e).1 = { c.node i with raft := { (c.node i).raft with
      persistent := (c.node i).raft.persistent.appendEntry entry } })
    (hsent : ((c.node i).step e).2 = []) : Refines S (H.extend i entry) V (c.after i e) := by
  have hnode := h.node i hi
  rcases hnode.leads hrole with ⟨ls, hls, hleads⟩
  have hpos : 1 ≤ H.term i := hnode.office (by rw [hrole]; decide)
  have hwon := h.elections.leaders i hi hrole
  rw [hnode.term] at hwon
  have hgrows := grows_extend H i entry
  have hself : (H.extend i entry).log i = H.log i ++ [entry] := Function.update_self ..
  have hlead : (H.extend i entry).leaderLog (H.term i) = H.log i ++ [entry] := by
    rw [← hleads.own]
    exact Function.update_self ..
  have hother : ∀ t, t ≠ H.term i → (H.extend i entry).leaderLog t = H.leaderLog t :=
    fun t ht => Function.update_of_ne ht ..
  apply h.step hi helections (le_refl V) hgrows (h.ok.extend hleads.elected hleads.own hterm hpos)
  · exact fun j hij => ⟨Function.update_of_ne hij .., rfl⟩
  · exact fun t _ hnot => hother t fun heq => hnot (heq ▸ hwon)
  · rw [hstep]
    refine ⟨?_, hnode.term, ?_, ?_, hnode.majority, fun _ => hpos, hnode.counters, ?_, fun _ => ?_⟩
    · rw [hself, ← hnode.log]
      rfl
    · rw [hself]
      apply hnode.contiguous.append
      intro k e hk
      cases k with
      | zero =>
        cases hk
        exact hindex
      | succ k => cases hk
    · rw [hself]
      intro e he
      rcases List.mem_append.mp he with hold | hnew
      · exact hnode.normal e hold
      · rw [List.mem_singleton.mp hnew]
        exact hnormal
    · exact ⟨hnode.applied.1.trans (hgrows.log i), hnode.applied.2.grow hgrows⟩
    · refine ⟨ls, hls, hleads.elected, hlead.trans hself.symm, hleads.counters, ?_, ?_,
        hleads.peers, ?_⟩
      · exact hleads.bound.trans (hgrows.log i).length_le
      · rw [hself, List.take_append_of_le_length hleads.bound]
        exact hleads.committed.grow hgrows
      · intro p v hmem
        rcases hleads.matched p v hmem with ⟨hp, hne, hzero | ⟨t, ht, hled, hack⟩⟩
        · exact ⟨hp, hne, Or.inl hzero⟩
        · exact ⟨hp, hne, Or.inr ⟨t, ht, hled.grow hgrows (le_refl V), hack⟩⟩
  · rw [hstep]
    exact h.serving i hi
  · rw [hsent]
    exact fun m hm => absurd hm List.not_mem_nil
  · exact fun v hv hnew => absurd hv hnew
  · intro t ht hpresides
    rcases hpresides ht with ⟨hwon', hpre, hoffice⟩
    refine ⟨hwon', ?_, ?_⟩
    · by_cases heq : t = H.term i
      · rw [heq, hlead, hself]
      · rw [hother t heq]
        exact hpre.trans (hgrows.log i)
    · rw [hstep]
      exact hoffice

theorem propose (h : Refines S H V c) (hi : i ∈ S.members) (record : Zig.CommitRecord) :
    ∃ H', Refines S H' V (c.after i (.propose record)) := by
  have hnode := h.node i hi
  have helections : Elections S V (c.after i (.propose record)) :=
    h.elections.move hi (Or.inl (Raft.sameOffice_propose _ record))
      fun _ _ _ hmem => absurd hmem List.not_mem_nil
  by_cases hrole : (c.node i).raft.role = .leader
  · have hindex : (c.node i).raft.persistent.lastLogIndex = (H.log i).length := by
      rw [Contiguous.lastLogIndex (hnode.log ▸ hnode.contiguous), hnode.log]
    refine ⟨_, @extend S H V c h i hi _ helections hrole (LogEntry.fromCommitRecord
      (c.node i).raft.persistent.currentTerm ((c.node i).raft.persistent.lastLogIndex + 1) record)
      hnode.term (congrArg Nat.succ hindex) ⟨record, rfl⟩ ?_ rfl⟩
    unfold Node.step Raft.propose
    dsimp only
    rw [if_neg (not_not.mpr hrole)]
    rfl
  · have hstep : ((c.node i).step (.propose record)).1.raft = (c.node i).raft := by
      unfold Node.step Raft.propose
      dsimp only
      rw [if_pos hrole]
      rfl
    apply h.steady hi helections (le_refl V)
    · rw [hstep]
      exact Raft.Steady.refl _
    · exact h.serving i hi
    · exact fun m hm => absurd hm List.not_mem_nil
    · exact fun v hv hnew => absurd hv hnew

theorem quotes (h : Refines S H V c) (hi : i ∈ S.members)
    (hrole : (c.node i).raft.role = .leader) (stale : LeaderVolatileState) (peer : NodeId) :
    Quotes S H V ((c.node i).raft.appendRequest stale peer) := by
  have hnode := h.node i hi
  rcases hnode.leads hrole with ⟨ls, hls, hleads⟩
  have hlog : Contiguous (c.node i).raft.persistent.log := hnode.log ▸ hnode.contiguous
  have hown : H.leaderLog (c.node i).raft.persistent.currentTerm = H.log i := by
    rw [hnode.term]
    exact hleads.own
  have hrequest : (c.node i).raft.appendRequest stale peer =
      (c.node i).raft.appendEntriesArgs ((ls.nextIndex.get peer).getD 1) ls.commitIndex := by
    unfold Raft.appendRequest
    rw [hls]
    rfl
  have hid : (c.node i).raft.config.nodeId = i := h.elections.id_eq hi
  have hentries := Raft.entries_appendEntriesArgs hlog ((ls.nextIndex.get peer).getD 1) ls.commitIndex
  rw [hrequest]
  generalize (ls.nextIndex.get peer).getD 1 = nextIdx at hentries
  refine ⟨?_, ⟨(H.log i).length, ?_, hleads.bound, ?_, ?_⟩, ?_⟩
  · show Led S H V (c.node i).raft.persistent.currentTerm (c.node i).raft.config.nodeId
    rw [hid]
    refine ⟨?_, h.elections.leaders i hi hrole⟩
    rw [hnode.term]
    exact hleads.elected
  · show _ ≤ (H.leaderLog (c.node i).raft.persistent.currentTerm).length
    rw [hown]
  · show _ = ((H.leaderLog (c.node i).raft.persistent.currentTerm).take _).drop _
    rw [hown, List.take_length, hentries, hnode.log]
  · show _ ∨ _ ∧ ∃ e, ((H.leaderLog (c.node i).raft.persistent.currentTerm).take _)[_]? = some e ∧ _
    rw [hown, List.take_length, ← hnode.log]
    unfold Raft.appendEntriesArgs
    dsimp only
    cases hprev : (if nextIdx > 1 then nextIdx - 1 else 0) with
    | zero => exact Or.inl rfl
    | succ k =>
      rw [RaftPersistentState.getEntry_succ, Nat.add_sub_cancel]
      cases hentry : (c.node i).raft.persistent.log[k]? with
      | none => exact Or.inl rfl
      | some e => exact Or.inr ⟨Nat.succ_pos k, e, rfl, rfl⟩
  · show Committed S H ((H.leaderLog (c.node i).raft.persistent.currentTerm).take ls.commitIndex)
    rw [hown]
    exact hleads.committed

theorem servePeer (h : Refines S H V c) (hi : i ∈ S.members)
    {stale : LeaderVolatileState} (hcareful : Careful (c.node i) (.servePeer stale)) :
    ∃ H', Refines S H' V (c.after i (.servePeer stale)) := by
  apply h.steady hi
    (h.elections.quiet hi (Node.raft_servePeer _ stale) (Node.sent_servePeer _ stale)) (le_refl V)
  · rw [Node.raft_servePeer]
    exact Raft.Steady.refl _
  · have hserving := h.serving i hi
    unfold Node.step
    dsimp only
    split
    · exact hserving
    · next peer peers hpeers =>
      rw [hpeers] at hserving
      exact fun p hp => hserving p (List.mem_cons_of_mem _ hp)
  · have hserving := h.serving i hi
    unfold Node.step
    dsimp only
    split
    · exact fun m hm => absurd hm List.not_mem_nil
    · next peer peers hpeers =>
      intro m hm
      rw [List.mem_singleton.mp hm]
      have hrole := hcareful (by rw [hpeers]; exact List.cons_ne_nil _ _)
      have hpeer : peer ∈ (S.config i).peers :=
        hserving peer (by rw [hpeers]; exact List.mem_cons_self ..)
      refine ⟨h.quotes hi hrole stale peer.id, ?_⟩
      show peer.id ≠ (c.node i).raft.config.nodeId
      have hid : (c.node i).raft.config.nodeId = i := h.elections.id_eq hi
      rw [hid]
      exact (peer_of_config S hi (List.mem_map_of_mem hpeer)).2
  · exact fun v hv hnew => absurd hv hnew

end Refines

theorem Raft.handleAppendEntriesReply_cases (r : Raft) (peer : NodeId) (args : AppendEntriesArgs)
    (reply : AppendEntriesReply) :
    Steady r (r.handleAppendEntriesReply peer args reply) ∨
      ∃ ls ls', r.role = .leader ∧ r.leaderState = some ls ∧
        r.handleAppendEntriesReply peer args reply = r.setLeaderState ls' ∧
        ls'.commitIndex = ls.commitIndex ∧ ls'.lastApplied = ls.lastApplied ∧
        (ls'.matchIndex = ls.matchIndex ∨ reply.success = true ∧
          ∃ last, args.entries.getLast? = some last ∧
            ls'.matchIndex = ls.matchIndex.put peer last.index) := by
  unfold handleAppendEntriesReply
  split
  · next ls hrole hls =>
    split
    · next hlater => exact Or.inl (steady_becomeFollower hlater)
    · split
      · next hsuccess =>
        split
        · next last hlast =>
          exact Or.inr ⟨ls, _, hrole, hls, rfl, rfl, rfl, Or.inr ⟨hsuccess, last, hlast, rfl⟩⟩
        · exact Or.inl (Steady.refl r)
      · split
        · exact Or.inr ⟨ls, _, hrole, hls, rfl, rfl, rfl, Or.inl rfl⟩
        · exact Or.inr ⟨ls, _, hrole, hls, rfl, rfl, rfl, Or.inl rfl⟩
  · exact Or.inl (Steady.refl r)

namespace Refines

variable {S : Setup} {H : LogHistory} {V : Set Vote} {c : Cluster}

theorem last_index (h : Refines S H V c) (hquotes : Quotes S H V args)
    {last : LogEntry} (hlast : args.entries.getLast? = some last) :
    last.index = args.prevLogIndex + args.entries.length := by
  rcases hquotes.quoted with ⟨n, hn, -, hentries, -⟩
  rcases h.leaders _ hquotes.led.1 with ⟨j, hj, -, hpre, -⟩
  have hcontiguous : Contiguous (H.leaderLog args.term) := (h.node j hj).contiguous.of_isPrefix hpre
  have hget := getLast?_getElem? hlast
  have hpos : args.entries.length ≠ 0 := by
    intro hzero
    rw [List.length_eq_zero_iff.mp hzero] at hlast
    cases hlast
  rw [hentries, List.getElem?_drop, ← hentries] at hget
  have hindex := (hcontiguous.of_isPrefix (List.take_prefix _ _)) _ last hget
  omega

theorem handleAppendEntriesReply (h : Refines S H V c) (hi : i ∈ S.members)
    {peer : NodeId} {reply : AppendEntriesReply}
    (henabled : (c.node i).Enabled c.sent (.handleAppendEntriesReply peer args reply)) :
    ∃ H', Refines S H' V (c.after i (.handleAppendEntriesReply peer args reply)) := by
  have hnode := h.node i hi
  have helections : Elections S V (c.after i (.handleAppendEntriesReply peer args reply)) :=
    h.elections.move hi (Raft.moves_handleAppendEntriesReply _ peer args reply)
      fun _ _ _ hmem => absurd hmem List.not_mem_nil
  rcases Raft.handleAppendEntriesReply_cases (c.node i).raft peer args reply
    with hsteady | ⟨ls, ls', hrole, hls, hset, hcommit, happlied, hmatch⟩
  · exact h.steady hi helections (le_refl V) hsteady (h.serving i hi)
      (fun m hm => absurd hm List.not_mem_nil) (fun v hv hnew => absurd hv hnew)
  · have hstep : ((c.node i).step (.handleAppendEntriesReply peer args reply)).1.raft =
        (c.node i).raft.setLeaderState ls' := hset
    rcases hnode.leads hrole with ⟨ls₀, hls₀, hleads⟩
    have hsame : ls₀ = ls := Option.some.inj (hls₀.symm.trans hls)
    subst hsame
    refine ⟨H, h.step hi helections (le_refl V) (Grows.refl H) h.ok (fun _ _ => ⟨rfl, rfl⟩)
      (fun _ _ _ => rfl) ?_ (h.serving i hi) (fun m hm => absurd hm List.not_mem_nil)
      (fun v hv hnew => absurd hv hnew) ?_⟩
    · rw [hstep]
      refine ⟨hnode.log, hnode.term, hnode.contiguous, hnode.normal, hnode.majority, hnode.office,
        hnode.counters, hnode.applied, fun _ => ⟨ls', rfl, hleads.elected, hleads.own, ?_, ?_, ?_, ?_, ?_⟩⟩
      · rw [hcommit, happlied]
        exact hleads.counters
      · rw [hcommit]
        exact hleads.bound
      · rw [hcommit]
        exact hleads.committed
      · rcases hmatch with hsame | ⟨-, last, -, hput⟩
        · rw [hsame]
          exact hleads.peers
        · rw [hput]
          exact IndexMap.nodup_put hleads.peers _ _
      · intro p v hmem
        rcases hmatch with hsame | ⟨hsuccess, last, hlast, hput⟩
        · rw [hsame] at hmem
          exact hleads.matched p v hmem
        · rw [hput] at hmem
          rcases IndexMap.mem_put.mp hmem with ⟨rfl, rfl⟩ | ⟨-, hold⟩
          · rcases h.sent _ henabled.1 with ⟨hquotes, hne, hmember, hacked⟩
            have hid : args.leaderId = i := henabled.2.trans (h.elections.id_eq hi)
            have hled := hquotes.led
            rw [hid] at hled hne
            have hnonempty : args.entries ≠ [] := by
              intro hnil
              rw [hnil] at hlast
              cases hlast
            have hack := hacked hsuccess hnonempty
            rw [← h.last_index hquotes hlast] at hack
            refine ⟨hmember, hne, Or.inr ⟨args.term, ?_, hled, hack⟩⟩
            -- a term this node has led is not after its present one
            rcases h.leaders _ hled.1 with ⟨j, -, hwon, -, hoffice⟩
            have hji : j = i := h.elections.won_unique hwon hled.2
            rw [hji] at hoffice
            rcases hoffice with hlt | ⟨heq, -⟩
            · exact le_of_lt hlt
            · exact le_of_eq heq
          · exact hleads.matched p v hold
    · intro t ht hpresides
      rw [hstep]
      exact hpresides ht

/-- What a majority has replicated, with an entry of the leader's term at its end, is chosen once the
leader has acknowledged its own log. -/
theorem chosen (h : Refines S H V c) (hi : i ∈ S.members) {ls : LeaderVolatileState}
    (hleads : Leads S H V i ls) {k : Nat} {e : LogEntry} (hk : (H.log i)[k]? = some e)
    (hterm : e.term = H.term i) (hcount : S.half + 1 ≤ ls.replicatedCount (k + 1)) :
    Chosen LogEntry.term S.IsQuorum (H.accept i (H.log i) (H.log i).length) (H.term i) k := by
  have hlt : k < (H.log i).length := (List.getElem?_eq_some_iff.mp hk).1
  refine ⟨⟨e, ?_, hterm⟩, insert i
    ((ls.matchIndex.entries.filter (fun m => k + 1 ≤ m.2)).map Prod.fst).toFinset, ⟨?_, ?_⟩, ?_⟩
  · show (H.leaderLog (H.term i))[k]? = some e
    rw [hleads.own]
    exact hk
  · intro v hv
    rcases Finset.mem_insert.mp hv with rfl | hv
    · exact hi
    · rcases List.mem_map.mp (List.mem_toFinset.mp hv) with ⟨m, hm, rfl⟩
      exact (hleads.matched m.1 m.2 (List.mem_filter.mp hm).1).1
  · rw [Finset.card_insert_of_notMem, List.toFinset_card_of_nodup, List.length_map]
    · unfold LeaderVolatileState.replicatedCount IndexMap.values at hcount
      rw [List.countP_map, List.countP_eq_length_filter] at hcount
      rw [Nat.add_comm 1] at hcount
      exact hcount
    · exact hleads.peers.sublist (List.filter_sublist.map Prod.fst)
    · intro hmem
      rcases List.mem_map.mp (List.mem_toFinset.mp hmem) with ⟨m, hm, heq⟩
      exact (hleads.matched m.1 m.2 (List.mem_filter.mp hm).1).2.1 heq
  · intro v hv
    show ∃ a ∈ insert ⟨i, H.term i, (H.log i).length⟩ H.acks, a.node = v ∧ a.term ≤ H.term i ∧
      (H.leaderLog (H.term i)).take (k + 1) <+: (H.leaderLog a.term).take a.length
    rcases Finset.mem_insert.mp hv with rfl | hv
    · refine ⟨_, Set.mem_insert _ _, rfl, le_refl _, ?_⟩
      exact List.take_prefix_take_left hlt
    · rcases List.mem_map.mp (List.mem_toFinset.mp hv) with ⟨⟨p, n⟩, hm, rfl⟩
      have hn : k + 1 ≤ n := of_decide_eq_true (List.mem_filter.mp hm).2
      rcases hleads.matched p n (List.mem_filter.mp hm).1 with ⟨-, -, hzero | ⟨t, ht, hled, hack⟩⟩
      · omega
      · refine ⟨_, Set.mem_insert_of_mem _ hack, rfl, ht, ?_⟩
        show (H.leaderLog (H.term i)).take (k + 1) <+: (H.leaderLog t).take n
        -- the leader still holds what it had sent in the earlier term
        have hlength : n ≤ (H.leaderLog t).length := (h.ok.acks _ hack).2.1
        rw [hleads.own, ← take_of_isPrefix (h.prefix_of_led hled) hlength]
        exact List.take_prefix_take_left hn

theorem updateCommitIndex (h : Refines S H V c) (hi : i ∈ S.members)
    (hcareful : Careful (c.node i) .updateCommitIndex) :
    ∃ H', Refines S H' V (c.after i .updateCommitIndex) := by
  have hnode := h.node i hi
  have helections : Elections S V (c.after i .updateCommitIndex) :=
    h.elections.move hi (Or.inl (Raft.sameOffice_updateCommitIndex _))
      fun _ _ _ hmem => absurd hmem List.not_mem_nil
  by_cases hrole : (c.node i).raft.role = .leader
  · rcases hnode.leads hrole with ⟨ls, hls, hleads⟩
    have hcounters := hleads.counters
    rcases Raft.updateCommitIndex_leader hrole hls (hnode.log ▸ hnode.contiguous)
      (hnode.log ▸ hnode.normal) hleads.counters (hnode.log ▸ hleads.bound)
      with ⟨index, hstep, hle, hbound, hlast, hall⟩
    rw [hnode.log] at hbound
    have hstep : ((c.node i).step .updateCommitIndex).1.raft = _ := hstep
    -- the leader acknowledges its own log
    have hgrows : Grows H (H.accept i (H.log i) (H.log i).length) :=
      grows_accept (List.prefix_refl _) _
    have hself : (H.accept i (H.log i) (H.log i).length).log i = H.log i := Function.update_self ..
    have hok := h.ok.accept (List.prefix_refl (H.log i)) (n := (H.log i).length) (h.ok.log i)
      (by rw [hleads.own]) (by rw [hleads.own]; exact List.take_prefix _ _)
    have hnew : index = ls.commitIndex ∨
        ls.lastApplied = (c.node i).raft.applied.length ∧
          Committed S (H.accept i (H.log i) (H.log i).length) ((H.log i).take index) := by
      rcases hlast with hsame | ⟨e, he, hei, hcount⟩
      · exact Or.inl hsame
      · by_cases hsame : index = ls.commitIndex
        · exact Or.inl hsame
        · rcases hcareful hrole ls hls e he (by omega) (by rw [hei]; exact hcount)
            with ⟨hcounted, e', he', hge, hcount', hterm⟩
          have hle' := hall e' he' hcount'
          rw [hnode.log] at he'
          rcases List.mem_iff_getElem?.mp he' with ⟨k, hk⟩
          have hkindex := hnode.contiguous k e' hk
          have hindex : index = k + 1 := by omega
          refine Or.inr ⟨hcounted, Or.inr ⟨H.term i, k, ?_, ?_⟩⟩
          · apply h.chosen hi hleads hk
            · rw [← hnode.term]
              exact hterm
            · rw [← hnode.majority, ← hindex]
              exact hcount
          · show _ <+: (H.leaderLog (H.term i)).take (k + 1)
            rw [hleads.own, hindex]
    have hcommitted : Committed S (H.accept i (H.log i) (H.log i).length) ((H.log i).take index) := by
      rcases hnew with hsame | ⟨-, hcommitted⟩
      · rw [hsame]
        exact hleads.committed.grow hgrows
      · exact hcommitted
    have happlied : (c.node i).raft.applied ++ ((H.log i).drop ls.lastApplied).take
          (index - ls.lastApplied) = (c.node i).raft.applied ∨
        (c.node i).raft.applied ++ ((H.log i).drop ls.lastApplied).take
          (index - ls.lastApplied) = (H.log i).take index := by
      rcases hnew with hsame | ⟨hcounted, -⟩
      · left
        have hzero : index - ls.lastApplied = 0 := by omega
        rw [hzero, List.take_zero, List.append_nil]
      · right
        rw [hcounted]
        exact Raft.take_append_drop hnode.applied.1 (by omega)
    refine ⟨_, h.step hi helections (le_refl V) hgrows hok ?_ (fun _ _ _ => rfl) ?_ (h.serving i hi)
      (fun m hm => absurd hm List.not_mem_nil) (fun v hv hnew => absurd hv hnew) ?_⟩
    · exact fun j hij => ⟨Function.update_of_ne hij .., rfl⟩
    · rw [hstep]
      refine ⟨?_, hnode.term, ?_, ?_, hnode.majority, hnode.office, hnode.counters, ?_, fun _ => ?_⟩
      · rw [hself]
        exact hnode.log
      · rw [hself]
        exact hnode.contiguous
      · rw [hself]
        exact hnode.normal
      · rw [hself]
        show (c.node i).raft.applied ++ ((c.node i).raft.persistent.log.drop ls.lastApplied).take
          (index - ls.lastApplied) <+: H.log i ∧ _
        rw [hnode.log]
        rcases happlied with heq | heq
        · rw [heq]
          exact ⟨hnode.applied.1, hnode.applied.2.grow hgrows⟩
        · rw [heq]
          exact ⟨List.take_prefix _ _, hcommitted⟩
      · refine ⟨_, rfl, hleads.elected, ?_, rfl, ?_, ?_, hleads.peers, ?_⟩
        · rw [hself]
          exact hleads.own
        · rw [hself]
          exact hbound
        · rw [hself]
          exact hcommitted
        · intro p v hmem
          rcases hleads.matched p v hmem with ⟨hp, hne, hzero | ⟨t, ht, hled, hack⟩⟩
          · exact ⟨hp, hne, Or.inl hzero⟩
          · exact ⟨hp, hne, Or.inr ⟨t, ht, hled, Set.mem_insert_of_mem _ hack⟩⟩
    · intro t ht hpresides
      rcases hpresides ht with ⟨hwon, hpre, hoffice⟩
      refine ⟨hwon, ?_, ?_⟩
      · rw [hself]
        exact hpre
      · rw [hstep]
        exact hoffice
  · have hstep : ((c.node i).step .updateCommitIndex).1.raft = (c.node i).raft := by
      show (c.node i).raft.updateCommitIndex.1 = _
      unfold Raft.updateCommitIndex
      split
      · next hleader _ => exact absurd hleader hrole
      · rfl
    apply h.steady hi helections (le_refl V)
    · rw [hstep]
      exact Raft.Steady.refl _
    · exact h.serving i hi
    · exact fun m hm => absurd hm List.not_mem_nil
    · exact fun v hv hnew => absurd hv hnew

theorem agrees (h : Refines S H V c) (hi : i ∈ S.members) (hquotes : Quotes S H V args)
    (hmatch : Raft.logMismatch (c.node i).raft.persistent args = false) :
    ∃ n, n ≤ (H.leaderLog args.term).length ∧ args.leaderCommit ≤ n ∧
      args.entries = ((H.leaderLog args.term).take n).drop args.prevLogIndex ∧
      args.prevLogIndex ≤ n ∧ args.prevLogIndex ≤ (H.log i).length ∧
      (H.log i).take args.prevLogIndex = (H.leaderLog args.term).take args.prevLogIndex := by
  have hnode := h.node i hi
  rcases hquotes.quoted with ⟨n, hn, hcommit, hentries, hprev⟩
  refine ⟨n, hn, hcommit, hentries, ?_⟩
  unfold Raft.logMismatch at hmatch
  cases hindex : args.prevLogIndex with
  | zero => exact ⟨Nat.zero_le _, Nat.zero_le _, by rw [List.take_zero, List.take_zero]⟩
  | succ k =>
    rw [hindex, RaftPersistentState.getEntry_succ, hnode.log] at hmatch
    rw [hindex, Nat.add_sub_cancel] at hprev
    cases hentry : (H.log i)[k]? with
    | none =>
      rw [hentry] at hmatch
      cases hmatch
    | some e =>
      rw [hentry] at hmatch
      have hterm : e.term = args.prevLogTerm := by
        by_contra hne
        have hmatch : (decide (k + 1 > 0) && (e.term != args.prevLogTerm)) = false := hmatch
        rw [bne_iff_ne.mpr hne] at hmatch
        cases hmatch
      have hpos := ((h.ok.log i).bounded e (List.mem_of_getElem? hentry)).1
      rcases hprev with hzero | ⟨-, e', he', hterm'⟩
      · omega
      · -- the entries in front have one term, so everything before them is the same
        have hfounded := (h.ok.leaderLog args.term).of_isPrefix (List.take_prefix n _)
        have hsame := (h.ok.log i).matching hfounded hentry he' (hterm.trans hterm'.symm)
        have hlt := (List.getElem?_eq_some_iff.mp he').1
        rw [List.length_take] at hlt
        have hlt' := (List.getElem?_eq_some_iff.mp hentry).1
        refine ⟨by omega, hlt', ?_⟩
        rw [hsame, List.take_take, Nat.min_eq_left (by omega)]

theorem accepted_log (h : Refines S H V c) (hi : i ∈ S.members) (hquotes : Quotes S H V args)
    (hterm : (c.node i).raft.persistent.currentTerm ≤ args.term)
    (hmatch : Raft.logMismatch (c.node i).raft.persistent args = false)
    (hend : args.entries ≠ [] → args.prevLogIndex = (c.node i).raft.persistent.log.length) :
    ∃ log n, Raft.storeEntries (c.node i).raft.persistent.log args.prevLogIndex args.entries = log ∧
      H.log i <+: log ∧ Founded LogEntry.term H args.term log ∧ Contiguous log ∧ AllNormal log ∧
      n ≤ (H.leaderLog args.term).length ∧ (H.leaderLog args.term).take n <+: log ∧
      args.leaderCommit ≤ n ∧
      (args.entries ≠ [] → n = args.prevLogIndex + args.entries.length) := by
  have hnode := h.node i hi
  rcases h.agrees hi hquotes hmatch with ⟨n, hn, hcommit, hentries, hle, hle', hsame⟩
  have hlength : args.entries.length = n - args.prevLogIndex := by
    rw [hentries, List.length_drop, List.length_take, Nat.min_eq_left hn]
  by_cases hnone : args.entries = []
  · have hprev : args.prevLogIndex = n := by
      rw [hnone, List.length_nil] at hlength
      omega
    refine ⟨H.log i, n, ?_, List.prefix_refl _, ?_, hnode.contiguous, hnode.normal, hn, ?_, hcommit,
      fun hno => absurd hnone hno⟩
    · rw [hnone, hnode.log]
      rfl
    · exact (h.ok.log i).mono (hnode.term ▸ hterm)
    · rw [← hprev, ← hsame]
      exact List.take_prefix _ _
  · have hprev : args.prevLogIndex = (H.log i).length := by
      rw [hend hnone, hnode.log]
    have hwhole : H.log i ++ args.entries = (H.leaderLog args.term).take n := by
      have hfront : H.log i = ((H.leaderLog args.term).take n).take args.prevLogIndex := by
        rw [List.take_take, Nat.min_eq_left hle, ← hsame, hprev, List.take_length]
      rw [hentries]
      nth_rewrite 1 [hfront]
      exact List.take_append_drop _ _
    rcases h.leaders _ hquotes.led.1 with ⟨j, hj, -, hpre, -⟩
    have hquoted : (H.leaderLog args.term).take n <+: H.log j := (List.take_prefix _ _).trans hpre
    refine ⟨(H.leaderLog args.term).take n, n, ?_, ⟨args.entries, hwhole⟩,
      (h.ok.leaderLog _).of_isPrefix (List.take_prefix _ _), (h.node j hj).contiguous.of_isPrefix hquoted,
      ?_, hn, List.prefix_refl _, hcommit, fun _ => by omega⟩
    · rw [hnode.log, hprev, Raft.storeEntries_at_end]
      exact hwhole
    · exact fun e he => (h.node j hj).normal e (hquoted.subset he)

end Refines

theorem Raft.steady_of_refused {r : Raft} (h : (r.handleAppendEntries args).2.success = false) :
    Steady r (r.handleAppendEntries args).1 := by
  have hobserve := steady_observeTerm r args.term
  unfold handleAppendEntries at h ⊢
  split
  · exact Steady.refl r
  · next hterm =>
    rw [if_neg hterm] at h
    dsimp only at h ⊢
    split
    · exact ⟨hobserve.log, hobserve.cluster, hobserve.follower, hobserve.applied, hobserve.term,
        hobserve.office, hobserve.leader, hobserve.leaves⟩
    · next hmatch =>
      rw [if_neg hmatch] at h
      cases h

namespace Refines

variable {S : Setup} {H : LogHistory} {V : Set Vote} {c : Cluster}

theorem not_leader (h : Refines S H V c) (hi : i ∈ S.members)
    (hled : Led S H V args.term args.leaderId) (hne : i ≠ args.leaderId)
    (hterm : (c.node i).raft.persistent.currentTerm ≤ args.term) :
    ((c.node i).raft.observeTerm args.term).role ≠ .leader := by
  intro hrole
  rcases (Raft.steady_observeTerm (c.node i).raft args.term).leader hrole with ⟨hbefore, hsame, -⟩
  rw [Raft.currentTerm_observeTerm] at hsame
  have heq : (c.node i).raft.persistent.currentTerm = args.term := by omega
  have hwon := h.elections.leaders i hi hbefore
  rw [heq] at hwon
  exact hne (h.elections.won_unique hwon hled.2)

theorem handleAppendEntries (h : Refines S H V c) (hi : i ∈ S.members)
    (henabled : (c.node i).Enabled c.sent (.handleAppendEntries args))
    (hcareful : Careful (c.node i) (.handleAppendEntries args)) :
    ∃ H', Refines S H' V (c.after i (.handleAppendEntries args)) := by
  have hnode := h.node i hi
  have hid : (c.node i).id = i := h.elections.id_eq hi
  have helections : Elections S V (c.after i (.handleAppendEntries args)) := by
    apply h.elections.move hi (Raft.moves_handleAppendEntries _ args)
    intro voter args' reply hmem
    cases List.mem_singleton.mp hmem
  rcases h.sent _ henabled with ⟨hquotes, hne⟩
  rw [hid] at hne
  rcases Raft.handleAppendEntries_cases (c.node i).raft args
    with ⟨hterm, hmatch, -, heq⟩ | ⟨hrefused, -⟩
  · rcases hcareful hterm hmatch with ⟨hend, hcounted⟩
    rcases h.accepted_log hi hquotes hterm hmatch hend
      with ⟨log, n, hstore, hpre, hfounded, hlog, hnormal, hn, hholds, hcommit, hlength⟩
    have hobserve := Raft.steady_observeTerm (c.node i).raft args.term
    have hrole := h.not_leader hi hquotes.led hne hterm
    have hnew : ((c.node i).raft.observeTerm args.term).persistent.currentTerm = args.term := by
      rw [Raft.currentTerm_observeTerm]
      omega
    have hbound : args.leaderCommit ≤ log.length := by
      have hle := hholds.length_le
      rw [List.length_take, Nat.min_eq_left hn] at hle
      omega
    rcases @Raft.acceptEntries_eq
        { (c.node i).raft.observeTerm args.term with currentLeaderId := some args.leaderId } args log
        hrole (by dsimp only; rw [hobserve.log]; exact hstore) hlog hnormal
        (by dsimp only; rw [hobserve.follower]; exact hnode.counters) hbound
        (by dsimp only; rw [hobserve.applied]; exact hnode.applied.1.trans hpre)
        (by dsimp only; rw [hobserve.follower, hobserve.applied]; exact hcounted)
      with ⟨fs, applied, haccept, hcounters, happlied⟩
    rw [haccept] at heq
    have hstep : ((c.node i).step (.handleAppendEntries args)).1.raft = _ := heq
    -- the node learns the term, and takes over the log
    have hle : H.term i ≤ args.term := hnode.term ▸ hterm
    have hat : (H.observe i args.term).term i = args.term := Function.update_self ..
    have hgrows : Grows H ((H.observe i args.term).accept i log n) :=
      (grows_observe hle).trans (grows_accept (H := H.observe i args.term) hpre n)
    have hself : ((H.observe i args.term).accept i log n).log i = log := Function.update_self ..
    have hterm' : ((H.observe i args.term).accept i log n).term i = args.term := hat
    have hok : Ok LogEntry.term S.IsQuorum ((H.observe i args.term).accept i log n) := by
      apply (h.ok.observe hle).accept hpre
      · rw [hat]
        exact hfounded.grow fun _ => List.prefix_refl _
      · rw [hat]
        exact hn
      · rw [hat]
        exact hholds
    refine ⟨_, h.step hi helections (le_refl V) hgrows hok ?_ (fun _ _ _ => rfl) ?_ (h.serving i hi)
      ?_ (fun v hv hnew => absurd hv hnew) ?_⟩
    · exact fun j hij => ⟨Function.update_of_ne hij .., Function.update_of_ne hij ..⟩
    · rw [hstep]
      refine ⟨hself.symm, hnew.trans hterm'.symm, ?_, ?_, ?_, ?_, hcounters, ?_,
        fun hleader => absurd hleader hrole⟩
      · rw [hself]
        exact hlog
      · rw [hself]
        exact hnormal
      · show ((c.node i).raft.observeTerm args.term).clusterConfig.majority = _
        rw [hobserve.cluster]
        exact hnode.majority
      · intro hoffice
        rw [hterm']
        rcases hobserve.office hoffice with hbefore | hpos
        · exact (hnode.office hbefore).trans hle
        · rw [← hnew]
          exact hpos
      · rw [hself]
        rcases happlied with rfl | rfl
        · show ((c.node i).raft.observeTerm args.term).applied <+: log ∧
            Committed S _ ((c.node i).raft.observeTerm args.term).applied
          rw [hobserve.applied]
          exact ⟨hnode.applied.1.trans hpre, hnode.applied.2.grow hgrows⟩
        · refine ⟨List.take_prefix _ _, ?_⟩
          show Committed S _ (log.take args.leaderCommit)
          have hsame : log.take args.leaderCommit =
              (H.leaderLog args.term).take args.leaderCommit := by
            have hshort : args.leaderCommit ≤ ((H.leaderLog args.term).take n).length := by
              rw [List.length_take]
              omega
            rw [take_of_isPrefix hholds hshort, List.take_take, Nat.min_eq_left hcommit]
          rw [hsame]
          exact hquotes.committed.grow hgrows
    · intro m hm
      rw [List.mem_singleton.mp hm, hid]
      refine ⟨hquotes.grow hgrows (le_refl V), hne, hi, fun _ hsome => ?_⟩
      rw [← hlength hsome]
      show _ ∈ insert (⟨i, (H.observe i args.term).term i, n⟩ : Ack NodeId) H.acks
      rw [hat]
      exact Set.mem_insert _ _
    · intro t ht hpresides
      rcases hpresides ht with ⟨hwon, hpre', hoffice⟩
      refine ⟨hwon, ?_, ?_⟩
      · rw [hself]
        exact hpre'.trans hpre
      · rw [hterm']
        rcases hoffice with hlt | ⟨heq', hleader⟩
        · exact Or.inl (by omega)
        · rcases hobserve.leaves hleader with hstays | hlater
          · exact absurd hstays hrole
          · rw [hnew, hnode.term] at hlater
            exact Or.inl (by omega)
  · apply h.steady hi helections (le_refl V) (Raft.steady_of_refused hrefused) (h.serving i hi)
    · intro m hm
      rw [List.mem_singleton.mp hm, hid]
      refine ⟨hquotes, hne, hi, fun hsuccess => ?_⟩
      rw [hrefused] at hsuccess
      cases hsuccess
    · exact fun v hv hnew => absurd hv hnew

end Refines

end Northstar.Consensus
