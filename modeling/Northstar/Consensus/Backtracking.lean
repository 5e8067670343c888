import Northstar.Consensus.Append

/-!
# Backtracking — rejected requests and the next index

A follower that has an entry of another term at `prev_log_index` answers with the last entry of that
term, and the leader continues from there.  The scan for it starts at the end of the follower's log, so
the hint lies behind the entry that did not match whenever the entry after it has the same term.
-/

namespace Northstar.Consensus

/-- Terms never decrease from an entry to a later one. -/
def Sorted (log : List LogEntry) : Prop := log.Pairwise fun a b => a.term ≤ b.term

instance (log : List LogEntry) : Decidable (Sorted log) := by
  unfold Sorted
  infer_instance

namespace RaftPersistentState

theorem term_mono {p : RaftPersistentState} (hsorted : Sorted p.log) {i j : Nat} {a b : LogEntry}
    (hij : i ≤ j) (ha : p.getEntry i = some a) (hb : p.getEntry j = some b) : a.term ≤ b.term := by
  have hi := getEntry_eq_some_iff.mp ha
  have hj := getEntry_eq_some_iff.mp hb
  by_cases heq : i = j
  · rw [heq, hb] at ha
    cases ha
    exact le_refl _
  · have hia := List.getElem?_eq_some_iff.mp hi.2
    have hjb := List.getElem?_eq_some_iff.mp hj.2
    have hle := List.pairwise_iff_getElem.mp hsorted (i - 1) (j - 1) hia.1 hjb.1 (by omega)
    rw [hia.2, hjb.2] at hle
    exact hle

/-- The entry after the one in front of `n` has the same term, and it is not 0. -/
def Repeats (p : RaftPersistentState) (n : Nat) : Prop :=
  ∃ e e', p.getEntry (n - 1) = some e ∧ p.getEntry n = some e' ∧ e'.term = e.term ∧ 0 < e.term

theorem Repeats.congr {p p' : RaftPersistentState} (h : p.log = p'.log) {n : Nat}
    (hrepeats : p.Repeats n) : p'.Repeats n := by
  rcases hrepeats with ⟨e, e', he, he', hterm⟩
  rw [getEntry_congr h] at he he'
  exact ⟨e, e', he, he', hterm⟩

end RaftPersistentState

theorem IndexMap.get_put (m : IndexMap) (id : NodeId) (value : Nat) :
    (m.put id value).get id = some value := by
  unfold get put
  rw [List.lookup_cons_self]

open RaftPersistentState

namespace Raft

variable {p : RaftPersistentState}

theorem findConflict_spec {term i j : Nat}
    (h : findConflict p term i = some j) : ∃ e, p.getEntry j = some e ∧ e.term = term := by
  induction i with
  | zero => cases h
  | succ i ih =>
    unfold findConflict at h
    cases hentry : p.getEntry (i + 1) with
    | none =>
      rw [hentry] at h
      exact ih h
    | some e =>
      rw [hentry] at h
      dsimp only at h
      by_cases hterm : e.term = term
      · rw [if_pos hterm] at h
        cases h
        exact ⟨e, hentry, hterm⟩
      · rw [if_neg hterm] at h
        exact ih h

/-- The scan goes down from `i`, so it does not pass an entry of the term. -/
theorem le_findConflict {e : LogEntry} {k i : Nat} (hk : p.getEntry k = some e) (hki : k ≤ i) :
    ∃ j, k ≤ j ∧ findConflict p e.term i = some j := by
  induction i with
  | zero =>
    have hpos := (getEntry_bounds hk).1
    omega
  | succ i ih =>
    unfold findConflict
    by_cases heq : k = i + 1
    · rw [← heq, hk]
      dsimp only
      rw [if_pos rfl]
      exact ⟨k, le_refl k, rfl⟩
    · have hfound := ih (by omega)
      cases hentry : p.getEntry (i + 1) with
      | none => exact hfound
      | some e' =>
        dsimp only
        by_cases hterm : e'.term = e.term
        · rw [if_pos hterm]
          exact ⟨i + 1, hki, rfl⟩
        · rw [if_neg hterm]
          exact hfound

/-- The next index after a request from `n` that a follower with this log rejected. -/
def backtracked (p : RaftPersistentState) (n : Nat) : Nat :=
  match p.getEntry (n - 1) with
  | some e => if 0 < e.term then (findConflict p e.term p.lastLogIndex).getD (max 1 (n - 1))
    else max 1 (n - 1)
  | none => max 1 (n - 1)

theorem backtracked_of_repeats (hlog : Contiguous p.log) {n : Nat}
    (h : p.Repeats n) : n ≤ backtracked p n := by
  rcases h with ⟨e, e', he, he', hterm, hpos⟩
  have hlast : n ≤ p.lastLogIndex := by
    rw [hlog.lastLogIndex]
    exact (getEntry_bounds he').2
  rcases le_findConflict he' hlast with ⟨j, hle, hfound⟩
  rw [hterm] at hfound
  unfold backtracked
  rw [he]
  dsimp only
  rw [if_pos hpos, hfound]
  exact hle

theorem backtracked_of_not_repeats (hlog : Contiguous p.log)
    (hsorted : Sorted p.log) {n : Nat} (hn : 2 ≤ n) (h : ¬ p.Repeats n) :
    backtracked p n = n - 1 := by
  have hmax : max 1 (n - 1) = n - 1 := by omega
  unfold backtracked
  cases he : p.getEntry (n - 1) with
  | none => exact hmax
  | some e =>
    dsimp only
    by_cases hpos : 0 < e.term
    · rw [if_pos hpos]
      have hlast : n - 1 ≤ p.lastLogIndex := by
        rw [hlog.lastLogIndex]
        exact (getEntry_bounds he).2
      rcases le_findConflict he hlast with ⟨j, hle, hfound⟩
      rcases findConflict_spec hfound with ⟨last, hj, hterm⟩
      rw [hfound]
      show j = n - 1
      by_contra hne
      -- everything from `n - 1` to `j` has the term of `e`
      apply h
      have hbound := (getEntry_bounds hj).2
      rcases exists_getEntry (show 0 < n by omega) (show n ≤ p.log.length by omega) with ⟨e', he'⟩
      have hlower := term_mono hsorted (show n - 1 ≤ n by omega) he he'
      have hupper := term_mono hsorted (show n ≤ j by omega) he' hj
      exact ⟨e, e', he, he', by omega, hpos⟩
    · rw [if_neg hpos]
      exact hmax

theorem findConflict_congr {p p' : RaftPersistentState} (h : p.log = p'.log) (term i : Nat) :
    findConflict p term i = findConflict p' term i := by
  induction i with
  | zero => rfl
  | succ i ih =>
    unfold findConflict
    rw [getEntry_congr h, ih]

theorem backtracked_congr {p p' : RaftPersistentState} (h : p.log = p'.log) (n : Nat) :
    backtracked p n = backtracked p' n := by
  have hlast : p.lastLogIndex = p'.lastLogIndex := by
    unfold lastLogIndex
    rw [h]
  unfold backtracked
  rw [getEntry_congr h, hlast]
  cases p'.getEntry (n - 1) with
  | none => rfl
  | some e =>
    dsimp only
    rw [findConflict_congr h]

theorem getD_conflictIndex (p : RaftPersistentState) {args : AppendEntriesArgs} {n : Nat}
    (h : args.prevLogIndex = n - 1) :
    (conflictReply p args).conflictIndex.getD (max 1 (n - 1)) = backtracked p n := by
  unfold conflictReply backtracked
  rw [h]
  dsimp only
  cases p.getEntry (n - 1) with
  | none => rfl
  | some e =>
    dsimp only
    by_cases hpos : e.term > 0
    · rw [if_pos hpos, if_pos hpos]
    · rw [if_neg hpos, if_neg hpos]
      rfl

/-- What the leader reads as a peer's `next_index`. -/
def nextIdx (r : Raft) (stale : LeaderVolatileState) (peer : NodeId) : Nat :=
  ((r.leaderState.getD stale).nextIndex.get peer).getD 1

/-- A turn of the leader loop: the request, the answer of the follower, and what the leader makes of
it. -/
def round (stale : LeaderVolatileState) (peer : NodeId) (r f : Raft) :
    Raft × Raft × AppendEntriesReply :=
  let args := r.appendRequest stale peer
  let (f, reply) := f.handleAppendEntries args
  (r.handleAppendEntriesReply peer args reply, f, reply)

/-- A rejection by a follower that is not ahead in term moves `next_index` back, and not below 1. -/
def BacksOff (stale : LeaderVolatileState) (peer : NodeId) (r f : Raft) : Prop :=
  (round stale peer r f).2.2.success = false →
    (round stale peer r f).2.2.term ≤ r.persistent.currentTerm →
    1 ≤ (round stale peer r f).1.nextIdx stale peer ∧
      (round stale peer r f).1.nextIdx stale peer < r.nextIdx stale peer

/-- Rounds one after the other: every rejection moves `next_index` back, until a request is accepted,
or a term comes back that ends the leadership. -/
inductive Converges (stale : LeaderVolatileState) (peer : NodeId) : Raft → Raft → Prop where
  | accepted {r f : Raft} (h : (round stale peer r f).2.2.success = true) : Converges stale peer r f
  | outvoted {r f : Raft} (h : r.persistent.currentTerm < (round stale peer r f).2.2.term) :
    Converges stale peer r f
  | rejected {r f : Raft} (h : (round stale peer r f).2.2.success = false)
    (hback : BacksOff stale peer r f)
    (hrest : Converges stale peer (round stale peer r f).1 (round stale peer r f).2.1) :
    Converges stale peer r f

end Raft

/-- The two logs have the same term in front of `n`. -/
def PrevAgrees (leader follower : RaftPersistentState) (n : Nat) : Prop :=
  n ≤ 1 ∨ ∃ e, follower.getEntry (n - 1) = some e ∧
    e.term = match leader.getEntry (n - 1) with
      | some entry => entry.term
      | none => 0

theorem PrevAgrees.congr {leader leader' follower follower' : RaftPersistentState}
    (hleader : leader.log = leader'.log) (hfollower : follower.log = follower'.log) {n : Nat}
    (h : PrevAgrees leader follower n) : PrevAgrees leader' follower' n := by
  unfold PrevAgrees at h ⊢
  rw [← getEntry_congr hleader, ← getEntry_congr hfollower]
  exact h

namespace Raft

theorem logMismatch_appendEntriesArgs (r : Raft) (p : RaftPersistentState) (n leaderCommit : Nat) :
    logMismatch p (r.appendEntriesArgs n leaderCommit) = false ↔ PrevAgrees r.persistent p n := by
  unfold logMismatch appendEntriesArgs PrevAgrees
  dsimp only
  by_cases hn : n > 1
  · rw [if_pos hn, show decide (n - 1 > 0) = true from decide_eq_true (by omega), Bool.true_and]
    cases hentry : p.getEntry (n - 1) with
    | none =>
      constructor
      · intro h
        cases h
      · rintro (hle | ⟨e, he, -⟩)
        · omega
        · cases he
    | some entry =>
      dsimp only
      rw [bne_eq_false_iff_eq]
      constructor
      · exact fun h => Or.inr ⟨entry, rfl, h⟩
      · rintro (hle | ⟨e, he, hterm⟩)
        · omega
        · cases he
          exact hterm
  · rw [if_neg hn]
    exact ⟨fun _ => Or.inl (Nat.le_of_not_lt hn), fun _ => rfl⟩

theorem term_handleAppendEntries (f : Raft) (args : AppendEntriesArgs) :
    (f.handleAppendEntries args).2.term = max f.persistent.currentTerm args.term := by
  have hobserve := currentTerm_observeTerm f args.term
  unfold handleAppendEntries
  split
  · show f.persistent.currentTerm = _
    omega
  · dsimp only
    split
    · exact hobserve
    · show (acceptEntries _ args).persistent.currentTerm = _
      rw [currentTerm_acceptEntries]
      exact hobserve

section

variable {r f : Raft} {stale : LeaderVolatileState} {peer : NodeId}

theorem success_round : (round stale peer r f).2.2.success = true ↔
    f.persistent.currentTerm ≤ r.persistent.currentTerm ∧
      PrevAgrees r.persistent f.persistent (r.nextIdx stale peer) := by
  have hagrees := logMismatch_appendEntriesArgs r f.persistent (r.nextIdx stale peer)
    (r.leaderState.getD stale).commitIndex
  show (f.handleAppendEntries (r.appendRequest stale peer)).2.success = true ↔ _
  rcases handleAppendEntries_cases f (r.appendRequest stale peer) with
    ⟨hterm, hmatch, hsuccess, -⟩ | ⟨hno, -, hrefused⟩
  · exact ⟨fun _ => ⟨hterm, hagrees.mp hmatch⟩, fun _ => hsuccess⟩
  · constructor
    · intro h
      rw [h] at hno
      cases hno
    · exact fun h => absurd ⟨h.1, hagrees.mpr h.2⟩ hrefused

theorem term_round : (round stale peer r f).2.2.term =
    max f.persistent.currentTerm r.persistent.currentTerm :=
  term_handleAppendEntries f (r.appendRequest stale peer)

theorem currentTerm_round : (round stale peer r f).2.1.persistent.currentTerm =
    (round stale peer r f).2.2.term := by
  show (f.handleAppendEntries (r.appendRequest stale peer)).1.persistent.currentTerm =
    (f.handleAppendEntries (r.appendRequest stale peer)).2.term
  unfold handleAppendEntries
  split
  · rfl
  · dsimp only
    split
    · rfl
    · rfl

theorem log_round_rejected (h : (round stale peer r f).2.2.success = false) :
    (round stale peer r f).2.1.persistent.log = f.persistent.log := by
  rcases handleAppendEntries_cases f (r.appendRequest stale peer) with
    ⟨-, -, hsuccess, -⟩ | ⟨-, hsame, -⟩
  · exact Bool.noConfusion (h.symm.trans hsuccess)
  · exact hsame

theorem reply_round_rejected (hterm : f.persistent.currentTerm ≤ r.persistent.currentTerm)
    (hno : ¬ PrevAgrees r.persistent f.persistent (r.nextIdx stale peer)) :
    ∃ p, p.log = f.persistent.log ∧
      (round stale peer r f).2.2 = conflictReply p (r.appendRequest stale peer) := by
  have hlog := log_observeTerm f r.persistent.currentTerm
  have hagrees := logMismatch_appendEntriesArgs r
    (f.observeTerm r.persistent.currentTerm).persistent (r.nextIdx stale peer)
    (r.leaderState.getD stale).commitIndex
  refine ⟨(f.observeTerm r.persistent.currentTerm).persistent, hlog, ?_⟩
  show (f.handleAppendEntries (r.appendRequest stale peer)).2 = _
  unfold handleAppendEntries
  rw [if_neg (show ¬ (r.appendRequest stale peer).term < f.persistent.currentTerm from
    Nat.not_lt.mpr hterm)]
  dsimp only
  by_cases hm : logMismatch (f.observeTerm r.persistent.currentTerm).persistent
      (r.appendRequest stale peer) = true
  · exact congrArg Prod.snd (if_pos hm)
  · exact absurd ((hagrees.mp (Bool.not_eq_true _ ▸ hm)).congr rfl hlog) hno

theorem prevLogIndex_appendRequest (hn : 1 < r.nextIdx stale peer) :
    (r.appendRequest stale peer).prevLogIndex = r.nextIdx stale peer - 1 := if_pos hn

variable {ls : LeaderVolatileState}

theorem round_rejected (hrole : r.role = .leader) (hls : r.leaderState = some ls)
    (hterm : f.persistent.currentTerm ≤ r.persistent.currentTerm)
    (hno : ¬ PrevAgrees r.persistent f.persistent (r.nextIdx stale peer)) :
    ∃ ls', (round stale peer r f).1 = r.setLeaderState ls' ∧
      (ls'.nextIndex.get peer).getD 1 = backtracked f.persistent (r.nextIdx stale peer) := by
  have hn : 1 < r.nextIdx stale peer := Nat.lt_of_not_le fun hle => hno (Or.inl hle)
  have hnext : r.nextIdx stale peer = (ls.nextIndex.get peer).getD 1 := by
    unfold nextIdx
    rw [hls]
    rfl
  rcases reply_round_rejected hterm hno with ⟨p, hlog, hreply⟩
  have hpast : ¬ (conflictReply p (r.appendRequest stale peer)).term > r.persistent.currentTerm := by
    rw [← hreply, term_round]
    omega
  have hlead : (round stale peer r f).1 =
      r.handleAppendEntriesReply peer (r.appendRequest stale peer)
        (conflictReply p (r.appendRequest stale peer)) := by
    rw [← hreply]
    rfl
  rw [hlead]
  unfold handleAppendEntriesReply
  rw [hrole, hls]
  dsimp only
  rw [if_neg hpast, if_neg (show ¬ (conflictReply p (r.appendRequest stale peer)).success = true from
    Bool.false_ne_true)]
  rw [← backtracked_congr hlog, ← getD_conflictIndex p (prevLogIndex_appendRequest hn)]
  -- the follower names an index, or the leader goes back by one
  cases (conflictReply p (r.appendRequest stale peer)).conflictIndex with
  | some conflictIdx =>
    refine ⟨_, rfl, ?_⟩
    rw [IndexMap.get_put]
    rfl
  | none =>
    refine ⟨_, rfl, ?_⟩
    rw [IndexMap.get_put, hnext]
    rfl

theorem rejected_of_not_agrees
    (hno : ¬ PrevAgrees r.persistent f.persistent (r.nextIdx stale peer)) :
    1 < r.nextIdx stale peer ∧ (round stale peer r f).2.2.success = false :=
  ⟨Nat.lt_of_not_le fun hle => hno (Or.inl hle),
    Bool.eq_false_iff.mpr fun hyes => hno (success_round.mp hyes).2⟩

/-- The follower is ahead in term, or the request is accepted, or the hint stays below. -/
def StepsBack (r f : Raft) (n : Nat) : Prop :=
  r.persistent.currentTerm < f.persistent.currentTerm ∨
    PrevAgrees r.persistent f.persistent n ∨ ¬ f.persistent.Repeats n

theorem backsOff_iff (hrole : r.role = .leader)
    (hls : r.leaderState = some ls) (hlog : Contiguous f.persistent.log)
    (hsorted : Sorted f.persistent.log) :
    BacksOff stale peer r f ↔ StepsBack r f (r.nextIdx stale peer) := by
  unfold BacksOff StepsBack
  rw [term_round]
  by_cases hterm : r.persistent.currentTerm < f.persistent.currentTerm
  · constructor
    · exact fun _ => Or.inl hterm
    · intro _ _ hle
      omega
  · by_cases hagrees : PrevAgrees r.persistent f.persistent (r.nextIdx stale peer)
    · constructor
      · exact fun _ => Or.inr (Or.inl hagrees)
      · intro _ hno
        rw [success_round.mpr ⟨Nat.le_of_not_lt hterm, hagrees⟩] at hno
        cases hno
    · rcases rejected_of_not_agrees hagrees with ⟨hn, hno⟩
      rcases round_rejected hrole hls (Nat.le_of_not_lt hterm) hagrees with ⟨ls', hlead, hnext⟩
      have hnext' : (round stale peer r f).1.nextIdx stale peer =
          backtracked f.persistent (r.nextIdx stale peer) := by
        rw [hlead]
        exact hnext
      rw [hnext']
      constructor
      · intro h
        refine Or.inr (Or.inr fun hrepeats => ?_)
        -- an entry of the term in front of the request: the reply names the request's own place
        have hback := h hno (by omega)
        have hstays := backtracked_of_repeats hlog hrepeats
        omega
      · rintro (hahead | hprev | hbelow)
        · exact absurd hahead hterm
        · exact absurd hprev hagrees
        · intro _ _
          rw [backtracked_of_not_repeats hlog hsorted hn hbelow]
          omega

theorem round_back (hrole : r.role = .leader)
    (hls : r.leaderState = some ls) (hlog : Contiguous f.persistent.log)
    (hsorted : Sorted f.persistent.log)
    (hterm : ¬ r.persistent.currentTerm < f.persistent.currentTerm)
    (hno : ¬ PrevAgrees r.persistent f.persistent (r.nextIdx stale peer))
    (hbelow : ¬ f.persistent.Repeats (r.nextIdx stale peer)) :
    ∃ ls', (round stale peer r f).1 = r.setLeaderState ls' ∧
      (round stale peer r f).1.nextIdx stale peer = r.nextIdx stale peer - 1 ∧
      (round stale peer r f).2.1.persistent.log = f.persistent.log := by
  have hrejected := rejected_of_not_agrees hno
  rcases round_rejected hrole hls (Nat.le_of_not_lt hterm) hno with ⟨ls', hlead, hnext⟩
  rw [backtracked_of_not_repeats hlog hsorted hrejected.1 hbelow] at hnext
  refine ⟨ls', hlead, ?_, log_round_rejected hrejected.2⟩
  rw [hlead]
  exact hnext

end

/-- Down from `n`, every request that is reached before one is accepted steps back. -/
def StepsDown (r f : Raft) (n : Nat) : Prop :=
  r.persistent.currentTerm < f.persistent.currentTerm ∨
    ∀ m, 1 ≤ m → m ≤ n →
      (∃ k, m ≤ k ∧ k ≤ n ∧ PrevAgrees r.persistent f.persistent k) ∨ ¬ f.persistent.Repeats m

variable {stale : LeaderVolatileState}

theorem converges_of_stepsDown {peer : NodeId} {r f : Raft}
    {ls : LeaderVolatileState} (hrole : r.role = .leader) (hls : r.leaderState = some ls)
    (hlog : Contiguous f.persistent.log) (hsorted : Sorted f.persistent.log)
    (h : StepsDown r f (r.nextIdx stale peer)) : Converges stale peer r f := by
  -- each rejection leaves one request less below
  induction hn : r.nextIdx stale peer generalizing r f ls with
  | zero =>
    by_cases hterm : r.persistent.currentTerm < f.persistent.currentTerm
    · exact .outvoted (by rw [term_round]; omega)
    · exact .accepted (success_round.mpr ⟨Nat.le_of_not_lt hterm, Or.inl (by omega)⟩)
  | succ n ih =>
    by_cases hterm : r.persistent.currentTerm < f.persistent.currentTerm
    · exact .outvoted (by rw [term_round]; omega)
    · by_cases hagrees : PrevAgrees r.persistent f.persistent (r.nextIdx stale peer)
      · exact .accepted (success_round.mpr ⟨Nat.le_of_not_lt hterm, hagrees⟩)
      · have hrejected := rejected_of_not_agrees hagrees
        have hdown := h.resolve_left hterm
        have hbelow : ¬ f.persistent.Repeats (r.nextIdx stale peer) := by
          rcases hdown _ (by omega) (le_refl _) with ⟨k, hle, hge, hk⟩ | hbelow
          · rw [show k = r.nextIdx stale peer by omega] at hk
            exact absurd hk hagrees
          · exact hbelow
        rcases round_back hrole hls hlog hsorted hterm hagrees hbelow with ⟨ls', hlead, hnext, hsame⟩
        have hlater : (round stale peer r f).1.nextIdx stale peer = n := by
          rw [hnext, hn]
          rfl
        refine .rejected hrejected.2 ((backsOff_iff hrole hls hlog hsorted).mpr (Or.inr (Or.inr hbelow))) ?_
        -- neither the role nor the follower's log is touched by a rejection
        apply @ih (round stale peer r f).1 (round stale peer r f).2.1 ls'
        · rw [hlead]
          exact hrole
        · rw [hlead]
          rfl
        · rw [hsame]
          exact hlog
        · rw [hsame]
          exact hsorted
        · rw [hlater]
          refine Or.inr fun m hm hle => ?_
          rcases hdown m hm (by omega) with ⟨k, hmk, hkn, hk⟩ | hrepeats
          · have hne : k ≠ r.nextIdx stale peer := fun heq => hagrees (heq ▸ hk)
            refine Or.inl ⟨k, hmk, by omega, ?_⟩
            rw [hlead]
            exact hk.congr rfl hsame.symm
          · exact Or.inr fun hagain => hrepeats (hagain.congr hsame)
        · exact hlater

theorem Converges.stepsDown {peer : NodeId} {r f : Raft}
    (h : Converges stale peer r f) {ls : LeaderVolatileState} (hrole : r.role = .leader)
    (hls : r.leaderState = some ls) (hlog : Contiguous f.persistent.log)
    (hsorted : Sorted f.persistent.log) : StepsDown r f (r.nextIdx stale peer) := by
  induction h generalizing ls with
  | @accepted r f h =>
    exact Or.inr fun m _ hle => Or.inl ⟨r.nextIdx stale peer, hle, le_refl _, (success_round.mp h).2⟩
  | @outvoted r f h =>
    rw [term_round] at h
    exact Or.inl (by omega)
  | @rejected r f hno hback hrest ih =>
    by_cases hterm : r.persistent.currentTerm < f.persistent.currentTerm
    · exact Or.inl hterm
    · have hagrees : ¬ PrevAgrees r.persistent f.persistent (r.nextIdx stale peer) := by
        intro hagrees
        rw [success_round.mpr ⟨Nat.le_of_not_lt hterm, hagrees⟩] at hno
        cases hno
      have hbelow : ¬ f.persistent.Repeats (r.nextIdx stale peer) :=
        (((backsOff_iff hrole hls hlog hsorted).mp hback).resolve_left hterm).resolve_left hagrees
      rcases round_back hrole hls hlog hsorted hterm hagrees hbelow with ⟨ls', hlead, hlater, hsame⟩
      have hrest := ih (by rw [hlead]; exact hrole) (by rw [hlead]; rfl) (by rw [hsame]; exact hlog)
        (by rw [hsame]; exact hsorted)
      rw [hlater] at hrest
      have hcatches : ¬ (round stale peer r f).1.persistent.currentTerm <
          (round stale peer r f).2.1.persistent.currentTerm := by
        rw [hlead, currentTerm_round, term_round]
        show ¬ r.persistent.currentTerm < _
        omega
      refine Or.inr fun m hm hle => ?_
      -- the request itself steps down, and those below are the rest's
      by_cases heq : m = r.nextIdx stale peer
      · exact Or.inr (heq ▸ hbelow)
      · rcases hrest.resolve_left hcatches m hm (by omega) with ⟨k, hmk, hkn, hk⟩ | hrepeats
        · rw [hlead] at hk
          exact Or.inl ⟨k, hmk, by omega, hk.congr rfl hsame⟩
        · exact Or.inr fun hagain => hrepeats (hagain.congr hsame.symm)

/-- **Backtracking.**  A rejection moves the next index of the peer back, and rejections one after the
other lead to a request that is accepted, exactly as long as the follower's log has no two entries of
one term around the next index. -/
theorem backtracks_iff {r f : Raft} {stale : LeaderVolatileState} {peer : NodeId}
    {ls : LeaderVolatileState} (hrole : r.role = .leader) (hls : r.leaderState = some ls)
    (hlog : Contiguous f.persistent.log) (hsorted : Sorted f.persistent.log) :
    (BacksOff stale peer r f ↔ StepsBack r f (r.nextIdx stale peer)) ∧
      (Converges stale peer r f ↔ StepsDown r f (r.nextIdx stale peer)) := by
  refine ⟨backsOff_iff hrole hls hlog hsorted, ?_⟩
  constructor
  · exact fun h => h.stepsDown hrole hls hlog hsorted
  · exact converges_of_stepsDown hrole hls hlog hsorted

end Raft

/-- The leader of term 3, whose only entry is of term 2; it is going to send peer 2 the entries from
`next` on. -/
def leaderAt (next : Nat) : Raft where
  config := threeNodes 1 2 3
  role := .leader
  persistent := { currentTerm := 3, votedFor := some 1, log := [⟨2, 1, .normal ⟨8, 2, [], 0⟩⟩] }
  leaderState := some { nextIndex := ⟨[(2, next)]⟩, matchIndex := ⟨[(2, 0)]⟩ }
  clusterConfig := .initSingle [1, 2, 3]

def followerOf (ids : List UInt64) : Raft where
  config := threeNodes 2 1 3
  persistent := { currentTerm := 1, log := entriesOf ids }
  clusterConfig := .initSingle [1, 2, 3]

def noState : LeaderVolatileState where
  nextIndex := {}
  matchIndex := {}

namespace Raft

/-- With one entry in the follower's log the leader gets back to the start. -/
theorem backtracks_one_entry : BacksOff noState 2 (leaderAt 2) (followerOf [7]) ∧
      Converges noState 2 (leaderAt 2) (followerOf [7]) := by
  have hlog := contiguous_entriesOf [7]
  have hbelow : ∀ m, 1 ≤ m → m ≤ 2 → ¬ (followerOf [7]).persistent.Repeats m := by
    rintro m hlower hupper ⟨e, e', he, he', -⟩
    have hfirst := (getEntry_bounds he).1
    have hsecond : m ≤ 1 := (getEntry_bounds he').2
    omega
  have hiff := @backtracks_iff (leaderAt 2) (followerOf [7]) noState 2 _ rfl rfl hlog (by decide)
  constructor
  · exact hiff.1.mpr (Or.inr (Or.inr (hbelow 2 (by decide) (le_refl 2))))
  · exact hiff.2.mpr (Or.inr fun m hlower hupper => Or.inr (hbelow m hlower hupper))

/-- With two entries of term 1 the hint for next index 2 is 2 again, and so in every later round. -/
theorem backtracking_stalls :
    Contiguous (followerOf [7, 9]).persistent.log ∧ Sorted (followerOf [7, 9]).persistent.log ∧
      (leaderAt 2).nextIdx noState 2 = 2 ∧
      (round noState 2 (leaderAt 2) (followerOf [7, 9])).2.2 = ⟨3, false, some 2, some 1⟩ ∧
      (round noState 2 (leaderAt 2) (followerOf [7, 9])).1.nextIdx noState 2 = 2 ∧
      ¬ BacksOff noState 2 (leaderAt 2) (followerOf [7, 9]) ∧
      ¬ Converges noState 2 (leaderAt 2) (followerOf [7, 9]) := by
  have hlog := contiguous_entriesOf [7, 9]
  have hsorted : Sorted (followerOf [7, 9]).persistent.log := by decide
  have hback : ¬ BacksOff noState 2 (leaderAt 2) (followerOf [7, 9]) := by
    intro h
    have hlt := (h (by decide) (by decide)).2
    revert hlt
    decide
  refine ⟨hlog, hsorted, by decide, by decide, by decide, hback, ?_⟩
  intro h
  cases h with
  | accepted h => exact absurd h (by decide)
  | outvoted h => exact absurd h (by decide)
  | rejected hno h hrest => exact hback h

end Raft

end Northstar.Consensus
