import Northstar.Consensus.Calls

/-!
# Append — the log of a follower

`handleAppendEntries` appends the entries of a request behind whatever the log holds, so a request
that brings entries is only ever right once, and only when it starts where the log ends.  The results
here are for one node and every run of calls on it.
-/

namespace Northstar.Consensus

/-- Entry `i` is stored at position `i - 1`. -/
def Contiguous (log : List LogEntry) : Prop := ∀ i e, log[i]? = some e → e.index = i + 1

theorem Contiguous.nil : Contiguous [] := by
  intro i e h
  rw [List.getElem?_nil] at h
  cases h

variable {log : List LogEntry}

theorem Contiguous.append {entries : List LogEntry} (h : Contiguous log)
    (hentries : ∀ k e, entries[k]? = some e → e.index = log.length + k + 1) :
    Contiguous (log ++ entries) := by
  intro i e hi
  by_cases hlt : i < log.length
  · rw [List.getElem?_append_left hlt] at hi
    exact h i e hi
  · have hle : log.length ≤ i := Nat.le_of_not_lt hlt
    rw [List.getElem?_append_right hle] at hi
    have hindex := hentries (i - log.length) e hi
    omega

theorem Contiguous.of_isPrefix {log' : List LogEntry} (h : Contiguous log) (hpre : log' <+: log) :
    Contiguous log' := by
  intro i e hi
  apply h i e
  rcases hpre with ⟨rest, rfl⟩
  have hlt : i < log'.length := (List.getElem?_eq_some_iff.mp hi).1
  rw [List.getElem?_append_left hlt]
  exact hi

variable {p : RaftPersistentState}

theorem Contiguous.lastLogIndex (h : Contiguous p.log) : p.lastLogIndex = p.log.length := by
  unfold RaftPersistentState.lastLogIndex
  rw [List.getLast?_eq_getElem?]
  cases hlast : p.log[p.log.length - 1]? with
  | none =>
    have hle := List.getElem?_eq_none_iff.mp hlast
    show 0 = p.log.length
    omega
  | some e =>
    have hlt := (List.getElem?_eq_some_iff.mp hlast).1
    have hindex := h _ e hlast
    show e.index = p.log.length
    omega

namespace RaftPersistentState

theorem getEntry_succ (p : RaftPersistentState) (i : Nat) : p.getEntry (i + 1) = p.log[i]? := by
  unfold getEntry
  rw [if_neg (Nat.succ_ne_zero i)]
  by_cases h : i + 1 > p.log.length
  · rw [if_pos h]
    exact (List.getElem?_eq_none_iff.mpr (by omega)).symm
  · rw [if_neg h]
    rfl

theorem getEntry_congr {p' : RaftPersistentState} (h : p.log = p'.log) (i : Nat) :
    p.getEntry i = p'.getEntry i := by
  unfold getEntry
  rw [h]

variable {i : Nat}

theorem getEntry_eq_some_iff {e : LogEntry} :
    p.getEntry i = some e ↔ 0 < i ∧ p.log[i - 1]? = some e := by
  cases i with
  | zero =>
    constructor
    · intro h
      cases h
    · intro h
      exact absurd h.1 (lt_irrefl 0)
  | succ i =>
    rw [getEntry_succ]
    exact ⟨fun h => ⟨Nat.succ_pos i, h⟩, fun h => h.2⟩

theorem getEntry_bounds {e : LogEntry} (h : p.getEntry i = some e) : 0 < i ∧ i ≤ p.log.length := by
  have hsome := getEntry_eq_some_iff.mp h
  have hlt := (List.getElem?_eq_some_iff.mp hsome.2).1
  omega

theorem exists_getEntry (hpos : 0 < i) (hle : i ≤ p.log.length) : ∃ e, p.getEntry i = some e := by
  have hlt : i - 1 < p.log.length := by omega
  exact ⟨p.log[i - 1], getEntry_eq_some_iff.mpr ⟨hpos, List.getElem?_eq_getElem hlt⟩⟩

end RaftPersistentState

theorem truncateFrom_prefix (log : List LogEntry) (index : Nat) : truncateFrom log index <+: log := by
  unfold truncateFrom
  split
  · exact List.prefix_refl log
  · exact List.take_prefix index log

namespace Raft

theorem truncateConflicts_of_agrees {entries : List LogEntry} {n : Nat}
    (h : ∀ k e, entries[k]? = some e → log[n + k]? = some e) :
    truncateConflicts log (n + 1) entries = log := by
  induction entries generalizing n with
  | nil => rfl
  | cons entry entries ih =>
    have hhead : log[n]? = some entry := h 0 entry rfl
    have hrest : truncateConflicts log (n + 1 + 1) entries = log := by
      apply ih
      intro k e hk
      have htail := h (k + 1) e hk
      rw [show n + (k + 1) = n + 1 + k by omega] at htail
      exact htail
    unfold truncateConflicts
    rw [Nat.add_sub_cancel, hhead]
    dsimp only
    rw [if_neg fun hconflict => hconflict.2 rfl]
    exact hrest

theorem storeEntries_at_end (log entries : List LogEntry) :
    storeEntries log log.length entries = log ++ entries := by
  have hnone : ∀ (entries : List LogEntry) (n : Nat), log.length ≤ n →
      truncateConflicts log (n + 1) entries = log := by
    intro entries
    induction entries with
    | nil => exact fun _ _ => rfl
    | cons entry entries ih =>
      intro n hle
      unfold truncateConflicts
      rw [Nat.add_sub_cancel, List.getElem?_eq_none_iff.mpr hle]
      exact ih (n + 1) (by omega)
  unfold storeEntries
  cases entries with
  | nil => exact (List.append_nil log).symm
  | cons entry entries =>
    rw [hnone (entry :: entries) log.length (le_refl _)]
    rfl

/-- What log replication promises of one request that is answered with success. -/
structure KeptBy (r : Raft) (args : AppendEntriesArgs) : Prop where
  contiguous : Contiguous (r.handleAppendEntries args).1.persistent.log
  agrees : ∀ k e, args.entries[k]? = some e →
    (r.handleAppendEntries args).1.persistent.log[args.prevLogIndex + k]? = some e
  unchanged : ∀ i, i < args.prevLogIndex →
    (r.handleAppendEntries args).1.persistent.log[i]? = r.persistent.log[i]?
  twice : ((r.handleAppendEntries args).1.handleAppendEntries args).1.persistent.log =
    (r.handleAppendEntries args).1.persistent.log

theorem currentTerm_observeTerm (r : Raft) (term : Nat) :
    (r.observeTerm term).persistent.currentTerm = max r.persistent.currentTerm term := by
  unfold observeTerm becomeFollower
  by_cases h : term > r.persistent.currentTerm
  · rw [if_pos h, if_pos h]
    show term = max r.persistent.currentTerm term
    omega
  · rw [if_neg h]
    omega

theorem currentTerm_acceptEntries (r : Raft) (args : AppendEntriesArgs) :
    (r.acceptEntries args).persistent.currentTerm = r.persistent.currentTerm := by
  rw [persistent_acceptEntries]

variable {r : Raft}

variable {args : AppendEntriesArgs}

theorem success_twice (h : (r.handleAppendEntries args).2.success = true)
    (hunchanged : ∀ i, i < args.prevLogIndex →
      (r.handleAppendEntries args).1.persistent.log[i]? = r.persistent.log[i]?) :
    ((r.handleAppendEntries args).1.handleAppendEntries args).2.success = true := by
  rcases handleAppendEntries_cases r args with ⟨hterm, hmatch, -, heq⟩ | ⟨hno, -⟩
  · rcases handleAppendEntries_cases (r.handleAppendEntries args).1 args
      with ⟨-, -, hsuccess, -⟩ | ⟨-, -, hrefused⟩
    · exact hsuccess
    · exfalso
      apply hrefused
      constructor
      · rw [heq, currentTerm_acceptEntries]
        show (r.observeTerm args.term).persistent.currentTerm ≤ args.term
        rw [currentTerm_observeTerm]
        omega
      · rw [← hmatch]
        unfold logMismatch
        cases hprev : args.prevLogIndex with
        | zero => rfl
        | succ i =>
          rw [RaftPersistentState.getEntry_succ, RaftPersistentState.getEntry_succ,
            hunchanged i (by omega)]
  · rw [h] at hno
    cases hno

theorem keptBy_iff (hlog : Contiguous r.persistent.log)
    (h : (r.handleAppendEntries args).2.success = true) :
    r.KeptBy args ↔ args.entries = [] := by
  have hstore := log_handleAppendEntries h
  constructor
  · intro hkept
    have htwice := log_handleAppendEntries (success_twice h hkept.unchanged)
    rw [hkept.twice] at htwice
    cases hentries : args.entries with
    | nil => rfl
    | cons entry entries =>
      -- the second time every entry is found in its place, and appended once more
      rw [hentries] at htwice
      have hagrees := hkept.agrees
      rw [hentries] at hagrees
      unfold storeEntries at htwice
      have hne : ¬ (entry :: entries).isEmpty = true := Bool.false_ne_true
      rw [if_neg hne, truncateConflicts_of_agrees hagrees] at htwice
      have hlength := congrArg List.length htwice
      rw [List.length_append, List.length_cons] at hlength
      omega
  · intro hentries
    have hsame : (r.handleAppendEntries args).1.persistent.log = r.persistent.log := by
      rw [hstore, hentries]
      rfl
    constructor
    · rw [hsame]
      exact hlog
    · intro k e hk
      rw [hentries, List.getElem?_nil] at hk
      cases hk
    · intro i _
      rw [hsame]
    · have hunchanged : ∀ i, i < args.prevLogIndex →
          (r.handleAppendEntries args).1.persistent.log[i]? = r.persistent.log[i]? := by
        intro i _
        rw [hsame]
      rw [log_handleAppendEntries (success_twice h hunchanged), hentries]
      rfl

/-- The calls that leave a numbered log numbered: new entries come right behind the log, and
compaction drops all of it or nothing. -/
def KeepsIndices (r : Raft) : Call → Prop
  | .handleAppendEntries args =>
    args.term < r.persistent.currentTerm ∨ logMismatch r.persistent args = true ∨
      args.entries = [] ∨
      (args.prevLogIndex = r.persistent.log.length ∧
        ∀ k e, args.entries[k]? = some e → e.index = args.prevLogIndex + k + 1)
  | .truncateLogAfterSnapshot => ∀ snap, r.currentSnapshot = some snap →
    snap.lastIncludedIndex = 0 ∨ r.persistent.log.length ≤ snap.lastIncludedIndex
  | _ => True

theorem Appends.contiguous {r' : Raft} (h : r.Appends r') (hlog : Contiguous r.persistent.log) :
    Contiguous r'.persistent.log := by
  rcases h with hsame | ⟨e, happend, hindex⟩
  · rw [hsame]
    exact hlog
  · rw [happend]
    apply hlog.append
    intro k e' hk
    cases k with
    | zero =>
      cases hk
      rw [hindex, hlog.lastLogIndex]
    | succ k => cases hk

theorem orElse_contiguous {result : Except RaftError Raft}
    (h : ∀ r', result = .ok r' → r.Appends r') (hlog : Contiguous r.persistent.log) :
    Contiguous (r.orElse result).persistent.log := by
  cases result with
  | error e => exact hlog
  | ok r' => exact (h r' rfl).contiguous hlog

theorem contiguous_handleAppendEntries (hlog : Contiguous r.persistent.log)
    (h : r.KeepsIndices (.handleAppendEntries args)) :
    Contiguous (r.handleAppendEntries args).1.persistent.log := by
  rcases handleAppendEntries_cases r args with ⟨hterm, hmatch, hsuccess, -⟩ | ⟨-, hsame, -⟩
  · rw [log_handleAppendEntries hsuccess]
    rcases h with hold | hmismatch | hnone | ⟨hend, hindex⟩
    · omega
    · rw [hmatch] at hmismatch
      cases hmismatch
    · rw [hnone]
      exact hlog
    · rw [hend, storeEntries_at_end]
      apply hlog.append
      intro k e hk
      rw [hindex k e hk, hend]
  · rw [hsame]
    exact hlog

theorem persistent_raiseCounters (r : Raft) (index : Nat) :
    (r.raiseCounters index).persistent = r.persistent := by
  unfold raiseCounters
  split
  · rfl
  · rfl

theorem handleInstallSnapshot_isPrefix (r : Raft) (args : InstallSnapshotArgs) :
    (r.handleInstallSnapshot args).1.persistent.log <+: r.persistent.log := by
  unfold handleInstallSnapshot
  split
  · exact List.prefix_refl _
  · dsimp only
    split
    · exact (log_observeTerm r args.term).symm ▸ List.prefix_refl _
    · rw [persistent_raiseCounters]
      dsimp only
      rw [log_observeTerm]
      split
      · exact truncateFrom_prefix ..
      · exact List.prefix_refl _

theorem contiguous_call {c : Call} (hlog : Contiguous r.persistent.log)
    (h : r.KeepsIndices c) : Contiguous (r.call c).1.persistent.log := by
  cases c with
  | tick expired ask =>
    show Contiguous (r.tick expired ask).persistent.log
    unfold tick
    split
    · rw [log_startElection]
      exact hlog
    · exact hlog
  | startElection ask =>
    show Contiguous (r.startElection ask).persistent.log
    rw [log_startElection]
    exact hlog
  | handleRequestVote args =>
    show Contiguous (r.handleRequestVote args).1.persistent.log
    rw [log_handleRequestVote]
    exact hlog
  | handleRequestVoteReply peer args reply =>
    show Contiguous (r.handleRequestVoteReply peer args reply).persistent.log
    rw [log_handleRequestVoteReply]
    exact hlog
  | handleAppendEntries args => exact contiguous_handleAppendEntries hlog h
  | handleAppendEntriesReply peer args reply =>
    show Contiguous (r.handleAppendEntriesReply peer args reply).persistent.log
    rw [log_handleAppendEntriesReply]
    exact hlog
  | propose record =>
    apply orElse_contiguous _ hlog
    intro r' hr'
    unfold propose at hr'
    split at hr'
    · cases hr'
    · cases hr'
      exact Or.inr ⟨_, rfl, rfl⟩
  | updateCommitIndex => exact (appends_updateCommitIndex r).contiguous hlog
  | leaderLoop pass => exact (appends_leaderLoop pass r).contiguous hlog
  | addNode id =>
    apply orElse_contiguous _ hlog
    intro r' hr'
    unfold addNode at hr'
    split at hr'
    · cases hr'
    · split at hr'
      · cases hr'
      · split at hr'
        · cases hr'
        · cases hr'
          exact appends_proposeJoint ..
  | removeNode id =>
    apply orElse_contiguous _ hlog
    intro r' hr'
    unfold removeNode at hr'
    split at hr'
    · cases hr'
    · split at hr'
      · cases hr'
      · split at hr'
        · cases hr'
        · split at hr'
          · cases hr'
          · cases hr'
            exact appends_proposeJoint ..
  | completeConfigChange =>
    apply orElse_contiguous _ hlog
    exact fun r' hr' => appends_completeConfigChange hr'
  | createSnapshot txnId rootPageId =>
    apply orElse_contiguous _ hlog
    intro r' hr'
    unfold createSnapshot at hr'
    split at hr'
    · split at hr'
      · cases hr'
        exact Or.inl rfl
      · split at hr'
        · cases hr'
          exact Or.inl rfl
        · cases hr'
          exact Or.inl rfl
    · cases hr'
  | truncateLogAfterSnapshot =>
    show Contiguous r.truncateLogAfterSnapshot.persistent.log
    unfold truncateLogAfterSnapshot
    split
    · exact hlog
    · next snap hsnap =>
      split
      · exact hlog
      · next hne =>
        rcases h snap hsnap with hzero | hall
        · exact absurd hzero hne
        · show Contiguous (r.persistent.log.drop snap.lastIncludedIndex)
          rw [List.drop_eq_nil_iff.mpr hall]
          exact Contiguous.nil
  | handleInstallSnapshot args =>
    exact hlog.of_isPrefix (handleInstallSnapshot_isPrefix r args)
  | sendSnapshotToFollower peer => exact hlog

theorem contiguous_run {cfg : RaftConfig} {calls : List Call}
    (h : (start cfg).RunMeets KeepsIndices calls) :
    Contiguous ((start cfg).run calls).1.persistent.log :=
  @run_preserves KeepsIndices (fun r => Contiguous r.persistent.log)
    (fun _ _ hlog hc => contiguous_call hlog hc) calls (start cfg) Contiguous.nil h

/-- **Log replication.**  In every state a run of such calls reaches, a request answered with success
keeps the log exactly if it brings no entries. -/
theorem append_keeps_log_iff {cfg : RaftConfig} {calls : List Call}
    (hcalls : (start cfg).RunMeets KeepsIndices calls) {args : AppendEntriesArgs}
    (h : (((start cfg).run calls).1.handleAppendEntries args).2.success = true) :
    ((start cfg).run calls).1.KeptBy args ↔ args.entries = [] :=
  keptBy_iff (contiguous_run hcalls) h

end Raft

def threeNodes (id a b : NodeId) : RaftConfig where
  nodeId := id
  peers := [⟨a, "a"⟩, ⟨b, "b"⟩]

def entriesOf (ids : List UInt64) : List LogEntry :=
  ids.zipIdx.map fun e => ⟨1, e.2 + 1, .normal ⟨e.1, 2, [], 0⟩⟩

theorem contiguous_entriesOf (ids : List UInt64) : Contiguous (entriesOf ids) := by
  intro i e h
  unfold entriesOf at h
  rw [List.getElem?_map, List.getElem?_zipIdx] at h
  cases hid : ids[i]? with
  | none =>
    rw [hid] at h
    cases h
  | some id =>
    rw [hid] at h
    cases h
    show 0 + i + 1 = i + 1
    omega

def firstEntry : AppendEntriesArgs where
  term := 1
  leaderId := 1
  prevLogIndex := 0
  prevLogTerm := 0
  entries := [⟨1, 1, .normal ⟨7, 2, [], 0⟩⟩]
  leaderCommit := 0

namespace Raft

/-- After its first entry has arrived, a node takes heartbeats without harm. -/
theorem heartbeat_keeps_log :
    ((start (threeNodes 2 1 3)).run [.handleAppendEntries firstEntry]).1.KeptBy
      { firstEntry with prevLogIndex := 1, prevLogTerm := 1, entries := [] } := by
  have hcalls : (start (threeNodes 2 1 3)).RunMeets KeepsIndices
      [.handleAppendEntries firstEntry] := by
    refine ⟨Or.inr (Or.inr (Or.inr ⟨rfl, ?_⟩)), trivial⟩
    intro k e hk
    cases k with
    | zero => cases hk; rfl
    | succ k => cases hk
  exact (append_keeps_log_iff hcalls (by decide)).mpr rfl

/-- The same request, delivered twice: the entry is in the log twice. -/
theorem append_twice_duplicates :
    ((start (threeNodes 2 1 3)).handleAppendEntries firstEntry).2.success = true ∧
      ((start (threeNodes 2 1 3)).handleAppendEntries firstEntry).1.persistent.log =
        firstEntry.entries ∧
      (((start (threeNodes 2 1 3)).handleAppendEntries firstEntry).1.handleAppendEntries
        firstEntry).1.persistent.log = firstEntry.entries ++ firstEntry.entries ∧
      ¬ (start (threeNodes 2 1 3)).KeptBy firstEntry := by
  have hsuccess : ((start (threeNodes 2 1 3)).handleAppendEntries firstEntry).2.success = true := by
    decide
  refine ⟨hsuccess, by decide, by decide, ?_⟩
  intro hkept
  have hnone := (keptBy_iff Contiguous.nil hsuccess).mp hkept
  cases hnone

end Raft

end Northstar.Consensus
