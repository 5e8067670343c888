import Northstar.Zig.ModelLog

/-!
# ModelV2 — the two reference models

`ref_model_v2.zig`.  The second model keeps the operations of each transaction in its log, and builds the
snapshot of a commit by replaying the whole log.  It agrees with the first as long as the replay uses no key
that it has freed; after that the behaviour of the program is undefined.
-/

namespace Northstar.Zig

open Bytes Runs Writers EStateM

structure ModelV2 where
  currentTxnId : Nat
  snapshots : Nat → Option SnapshotState
  commitLog : List (LogRecord Mutation)

namespace ModelV2

def init : ModelV2 := ⟨0, Function.update (fun _ => none) 0 (some fun _ => none), []⟩

inductive ReadError where
  | invalidTxnId
  | snapshotNotFound
  deriving Repr, DecidableEq

def beginRead (m : ModelV2) (txnId : Nat) : Except ReadError SnapshotState :=
  if txnId > m.currentTxnId then .error .invalidTxnId
  else
    match m.snapshots txnId with
    | some snapshot => .ok snapshot
    | none => .error .snapshotNotFound

/-- A replay frees only what it has allocated itself. -/
def createSnapshotFromLog (m : ModelV2) (txnId : Nat) : Except MemoryFault SnapshotState :=
  Zig.createSnapshotFromLog Mutation.replay .empty m.commitLog txnId

def commit (m : ModelV2) (operations : List Mutation) : Except MemoryFault (ModelV2 × Nat) := do
  let newTxnId := m.currentTxnId + 1
  let m := { m with currentTxnId := newTxnId, commitLog := m.commitLog ++ [LogRecord.mk newTxnId operations] }
  let newSnapshot ← m.createSnapshotFromLog newTxnId
  return ({ m with snapshots := Function.update m.snapshots newTxnId (some newSnapshot) }, newTxnId)

/-- `WriteTxn` of `ref_model_v2.zig`; once a commit has used memory that was freed, nothing is known of the
model. -/
def store : Store (Except MemoryFault ModelV2) (List Mutation) Mutation where
  empty := []
  mutate := fun operations op => operations ++ [op]
  commit := fun m operations => some (m.bind fun m => (m.commit operations).map Prod.fst)

def recordsOf (committed : List (List Mutation)) : List (LogRecord Mutation) :=
  committed.zipIdx.map fun ops => ⟨ops.2 + 1, ops.1⟩

structure Represents (m : ModelV2) (committed : List (List Mutation)) : Prop where
  current : m.currentTxnId = committed.length
  snapshots : ∀ txnId, m.snapshots txnId =
    if txnId ≤ committed.length then some (stateAt committed txnId) else none
  log : m.commitLog = recordsOf committed
  freesNone : FreesNone (fun _ => none) committed.flatten

theorem run_replayToTxn {m : OwnedSnapshot} (h : m.Intact) (records : List (LogRecord Mutation))
    (targetTxnId : Nat) (hall : ∀ record ∈ records, record.txnId ≤ targetTxnId) :
    (FreesNone m.state (records.flatMap LogRecord.operations) →
      ∃ m', (replayToTxn Mutation.replay targetTxnId records).run m = .ok () m' ∧
        m'.state = (records.flatMap LogRecord.operations).foldl Model.mutate m.state) ∧
    (¬ FreesNone m.state (records.flatMap LogRecord.operations) →
      ∃ e m', (replayToTxn Mutation.replay targetTxnId records).run m = .error e m') := by
  induction records generalizing m with
  | nil => exact ⟨fun _ => ⟨m, rfl, rfl⟩, fun hnot => absurd trivial hnot⟩
  | cons record records ih =>
    have hle : ¬ record.txnId > targetTxnId := Nat.not_lt.mpr (hall record (List.mem_cons_self ..))
    have hrun : (replayToTxn Mutation.replay targetTxnId (record :: records)).run m =
        (EStateM.forEach Mutation.replay record.operations >>= fun _ =>
          replayToTxn Mutation.replay targetTxnId records).run m := by
      show (if record.txnId > targetTxnId then _ else _ : SnapshotM Unit).run m = _
      rw [if_neg hle]
    have hrecord := OwnedSnapshot.run_replay_forEach h record.operations
    rw [hrun, List.flatMap_cons, freesNone_append, List.foldl_append]
    by_cases hnone : FreesNone m.state record.operations
    · rcases hrecord.1 hnone with ⟨m', hforEach, hintact, hstate⟩
      have hrest := ih hintact fun other hother => hall other (List.mem_cons_of_mem _ hother)
      rw [hstate] at hrest
      rw [run_bind_of_ok hforEach]
      constructor
      · exact fun hboth => hrest.1 hboth.2
      · exact fun hnot => hrest.2 fun hlater => hnot ⟨hnone, hlater⟩
    · rcases hrecord.2 hnone with ⟨e, m', hforEach⟩
      constructor
      · exact fun hboth => absurd hboth.1 hnone
      · exact fun _ => ⟨e, m', run_bind_of_error hforEach⟩

theorem recordsOf_append (committed : List (List Mutation)) (ops : List Mutation) :
    recordsOf (committed ++ [ops]) = recordsOf committed ++ [⟨committed.length + 1, ops⟩] := by
  unfold recordsOf
  rw [List.zipIdx_append, List.map_append]
  show _ ++ [(⟨0 + committed.length + 1, ops⟩ : LogRecord Mutation)] = _
  rw [Nat.zero_add]

theorem operations_recordsOf (committed : List (List Mutation)) :
    (recordsOf committed).flatMap LogRecord.operations = committed.flatten := by
  unfold recordsOf
  rw [List.flatMap_map]
  show (committed.zipIdx).flatMap (fun ops => ops.1) = _
  rw [List.flatMap_def, List.zipIdx_map_fst]

variable {committed : List (List Mutation)}

theorem txnId_recordsOf {record : LogRecord Mutation}
    (h : record ∈ recordsOf committed) : record.txnId ≤ committed.length := by
  rcases List.mem_map.mp h with ⟨ops, hops, rfl⟩
  have hlt := (List.mem_zipIdx hops).2.1
  show ops.2 + 1 ≤ committed.length
  omega

theorem stateAt_length (committed : List (List Mutation)) :
    stateAt committed committed.length = committed.flatten.foldl Model.mutate fun _ => none := by
  unfold stateAt
  rw [List.take_length]

theorem state_init (heap : Heap) : (OwnedSnapshot.init heap).state = fun _ => none := rfl

/-- A commit whose operations free no key adds the next snapshot; any other uses memory it has freed. -/
theorem commit_cases {m : ModelV2} (h : m.Represents committed) (ops : List Mutation) :
    (FreesNone (stateAt committed committed.length) ops →
      ∃ n newId, m.commit ops = .ok (n, newId) ∧ n.Represents (committed ++ [ops])) ∧
    (¬ FreesNone (stateAt committed committed.length) ops → ∃ fault, m.commit ops = .error fault) := by
  have hlength : (committed ++ [ops]).length = committed.length + 1 := List.length_append
  have hlog : m.commitLog ++ [⟨m.currentTxnId + 1, ops⟩] = recordsOf (committed ++ [ops]) := by
    rw [h.log, h.current, recordsOf_append]
  have hids : ∀ record ∈ recordsOf (committed ++ [ops]), record.txnId ≤ m.currentTxnId + 1 := by
    intro record hrecord
    rw [h.current, ← hlength]
    exact txnId_recordsOf hrecord
  have hreplay := run_replayToTxn (OwnedSnapshot.intact_init .empty) (recordsOf (committed ++ [ops]))
    (m.currentTxnId + 1) hids
  rw [operations_recordsOf, state_init] at hreplay
  have hfrees : FreesNone (fun _ => none) (committed ++ [ops]).flatten ↔
      FreesNone (stateAt committed committed.length) ops := by
    rw [List.flatten_append, freesNone_append, ← stateAt_length, List.flatten_singleton]
    exact and_iff_right h.freesNone
  constructor
  · intro hnone
    rcases hreplay.1 (hfrees.mpr hnone) with ⟨snapshot, hrun, hstate⟩
    have hcommit : m.commit ops = .ok (⟨m.currentTxnId + 1,
        Function.update m.snapshots (m.currentTxnId + 1) (some snapshot.state),
        recordsOf (committed ++ [ops])⟩, m.currentTxnId + 1) := by
      unfold commit createSnapshotFromLog Zig.createSnapshotFromLog
      dsimp only
      rw [hlog, hrun]
      rfl
    refine ⟨_, _, hcommit, ?_⟩
    constructor
    · show m.currentTxnId + 1 = _
      rw [h.current, hlength]
    · intro txnId
      show Function.update m.snapshots _ _ txnId = _
      rw [Function.update_apply, h.current, hlength]
      by_cases hnew : txnId = committed.length + 1
      · rw [if_pos hnew, if_pos (Nat.le_of_eq hnew), hstate, hnew, ← hlength, stateAt_length]
      · rw [if_neg hnew, h.snapshots]
        by_cases hle : txnId ≤ committed.length
        · rw [if_pos hle, if_pos (Nat.le_succ_of_le hle), stateAt_append hle]
        · rw [if_neg hle, if_neg (by omega)]
    · rfl
    · exact hfrees.mpr hnone
  · intro hnot
    rcases hreplay.2 (fun hnone => hnot (hfrees.mp hnone)) with ⟨e, snapshot, hrun⟩
    refine ⟨e, ?_⟩
    unfold commit createSnapshotFromLog Zig.createSnapshotFromLog
    dsimp only
    rw [hlog, hrun]
    rfl

/-- The model has the history of the journal, or nothing is known of it. -/
def Follows (m : Except MemoryFault ModelV2) (committed : List (List Mutation)) : Prop :=
  (∃ n, m = .ok n ∧ n.Represents committed) ∨ ∃ fault, m = .error fault

theorem simulates_journal : Simulates store (journal Mutation) Follows (fun operations ops => operations = ops)
    where
  empty := rfl
  mutate := by
    intro operations ops op h
    rw [h]
    rfl
  commit := by
    intro m committed operations ops h hops
    refine ⟨_, _, rfl, rfl, ?_⟩
    rw [hops]
    cases h with
    | inl hok =>
      rcases hok with ⟨n, rfl, hrepresents⟩
      have hcases := commit_cases hrepresents ops
      show Follows ((n.commit ops).map Prod.fst) _
      by_cases hnone : FreesNone (stateAt committed committed.length) ops
      · rcases hcases.1 hnone with ⟨n', newId, hcommit, hrepresents'⟩
        rw [hcommit]
        exact .inl ⟨n', rfl, hrepresents'⟩
      · rcases hcases.2 hnone with ⟨fault, hcommit⟩
        rw [hcommit]
        exact .inr ⟨fault, rfl⟩
    | inr herror =>
      rcases herror with ⟨fault, rfl⟩
      exact .inr ⟨fault, rfl⟩

/-- The operations of a commit, each on what the latest snapshot has become, delete no key that is there, but
for the empty key. -/
def DeletesAbsent (s : Writers.Session (Except MemoryFault ModelV2) (List Mutation)) (e : Event Mutation) : Prop :=
  ∀ handle operations m snapshot, e = .commit handle → s.handles handle = .opened operations →
    s.model = .ok m → m.snapshots m.currentTxnId = some snapshot → FreesNone snapshot operations

/-- The current ids are equal, and every id up to it has the same contents in both. -/
def Agree (m : LoggedModel) (m' : Except MemoryFault ModelV2) : Prop :=
  ∃ n, m' = .ok n ∧ m.currentTxnId = n.currentTxnId ∧
    ∀ txnId ≤ m.currentTxnId, ∃ snapshot, m.beginRead txnId = .ok snapshot ∧ n.beginRead txnId = .ok snapshot

variable {s t : Writers.Session (Except MemoryFault ModelV2) (List Mutation)} {e : Event Mutation}

def Sound (s : Writers.Session (Except MemoryFault ModelV2) (List Mutation)) : Prop :=
  ∃ committed, Follows s.model committed

theorem sound_step (h : Sound s) (hstep : store.step s e = some t) : Sound t := by
  rcases h with ⟨committed, hfollows⟩
  rcases step_model hstep with hsame | ⟨handle, operations, _, _, hcommit⟩
  · exact ⟨committed, hsame ▸ hfollows⟩
  · rcases simulates_journal.commit _ _ _ _ hfollows rfl with ⟨n, committed', hn, _, hfollows'⟩
    rw [hcommit] at hn
    cases hn
    exact ⟨committed', hfollows'⟩

theorem represents_latest {m : ModelV2} (h : m.Represents committed) :
    m.snapshots m.currentTxnId = some (stateAt committed committed.length) := by
  rw [h.snapshots, h.current, if_pos (Nat.le_refl _)]

theorem known_step (h : Sound s) (hdeletes : DeletesAbsent s e) (hknown : ∃ m, s.model = .ok m)
    (hstep : store.step s e = some t) : ∃ m, t.model = .ok m := by
  rcases hknown with ⟨m, hm⟩
  rcases step_model hstep with hsame | ⟨handle, operations, he, hhandle, hcommit⟩
  · exact ⟨m, hsame.trans hm⟩
  · rcases h with ⟨committed, ⟨n, hn, hrepresents⟩ | ⟨fault, hfault⟩⟩
    · rw [hm] at hn
      cases hn
      have hnone := hdeletes handle operations m _ he hhandle hm (represents_latest hrepresents)
      rcases (commit_cases hrepresents operations).1 hnone with ⟨n', newId, hn', _⟩
      rw [hm] at hcommit
      have hcommit : some ((m.commit operations).map Prod.fst) = some t.model := hcommit
      rw [hn'] at hcommit
      exact ⟨n', (Option.some.inj hcommit).symm⟩
    · rw [hm] at hfault
      cases hfault

theorem unknown_step (h : Sound s) (hdeletes : ¬ DeletesAbsent s e) (hstep : store.step s e = some t) :
    ∃ fault, t.model = .error fault := by
  by_contra hknown
  apply hdeletes
  intro handle operations m snapshot he hhandle hm hsnapshot
  by_contra hnot
  apply hknown
  rcases h with ⟨committed, ⟨n, hn, hrepresents⟩ | ⟨fault, hfault⟩⟩
  · rw [hm] at hn
    cases hn
    rw [represents_latest hrepresents] at hsnapshot
    cases hsnapshot
    rcases (commit_cases hrepresents operations).2 hnot with ⟨fault, hfault⟩
    have hcommit : store.commit s.model operations = some (.error fault) := by
      rw [hm]
      show some ((m.commit operations).map Prod.fst) = _
      rw [hfault]
      rfl
    subst he
    rw [step_commit hhandle hcommit] at hstep
    cases hstep
    exact ⟨fault, rfl⟩
  · rw [hm] at hfault
    cases hfault

theorem unknown_stays (hunknown : ∃ fault, s.model = .error fault) (hstep : store.step s e = some t) :
    ∃ fault, t.model = .error fault := by
  rcases hunknown with ⟨fault, hfault⟩
  rcases step_model hstep with hsame | ⟨handle, operations, _, _, hcommit⟩
  · exact ⟨fault, hsame.trans hfault⟩
  · rw [hfault] at hcommit
    exact ⟨fault, (Option.some.inj hcommit).symm⟩

/-- For all runs of transactions: the two models agree exactly where no commit has deleted a key that was
there, but for the empty key. -/
theorem models_agree_iff (es : List (Event Mutation)) {s : Writers.Session LoggedModel Model.Writes}
    {s' : Writers.Session (Except MemoryFault ModelV2) (List Mutation)}
    (hrun : run LoggedModel.store.step (.init LoggedModel.init) es = some s)
    (hrun' : run store.step (.init (.ok init)) es = some s') :
    Agree s.model s'.model ↔ Meets store.step DeletesAbsent (.init (.ok init)) es := by
  have hinit : init.Represents [] := by
    constructor
    · rfl
    · exact LoggedModel.represents_init.history
    · rfl
    · trivial
  have hfollows : Follows (.ok init) [] := .inl ⟨init, rfl, hinit⟩
  rcases simulate_run LoggedModel.simulates_journal (related_init LoggedModel.represents_init) hrun with
    ⟨j, hj, hfirst⟩
  rcases simulate_run simulates_journal (related_init hfollows) hrun' with ⟨j', hj', hsecond⟩
  rw [hj] at hj'
  cases hj'
  have hstart : Sound (.init (.ok init)) := ⟨[], hfollows⟩
  have hknown : Agree s.model s'.model ↔ ∃ m, s'.model = .ok m := by
    constructor
    · rintro ⟨n, hn, _⟩
      exact ⟨n, hn⟩
    · rintro ⟨m, hm⟩
      rcases hsecond.model with ⟨n, hn, hrepresents⟩ | ⟨fault, hfault⟩
      · have hrepresents' : s.model.Represents j.model := hfirst.model
        refine ⟨n, hn, ?_, ?_⟩
        · rw [hrepresents'.current, hrepresents.current]
        · intro txnId hle
          rw [hrepresents'.current] at hle
          refine ⟨stateAt j.model txnId, ?_, ?_⟩
          · apply LoggedModel.beginRead_eq_ok
            rw [hrepresents'.history, if_pos hle]
          · unfold beginRead
            rw [hrepresents.current, if_neg (Nat.not_lt.mpr hle), hrepresents.snapshots, if_pos hle]
      · rw [hm] at hfault
        cases hfault
  rw [hknown]
  constructor
  · rintro ⟨m, hm⟩
    apply meets_of_not (I := Sound) (B := fun s => ∃ fault, s.model = .error fault) ?_ ?_ ?_ hstart hrun'
    · rintro ⟨fault, hfault⟩
      rw [hm] at hfault
      cases hfault
    · exact fun _ _ _ hs hstep => sound_step hs hstep
    · exact fun _ _ _ hs hstep hdeletes => unknown_step hs hdeletes hstep
    · exact fun _ _ _ _ hunknown hstep => unknown_stays hunknown hstep
  · intro hmeets
    have hinv : Sound s' ∧ ∃ m, s'.model = .ok m := by
      apply invariant (I := fun s => Sound s ∧ ∃ m, s.model = .ok m) ?_ ⟨hstart, init, rfl⟩ hmeets hrun'
      exact fun _ _ _ hs hdeletes hstep =>
        ⟨sound_step hs.1 hstep, known_step hs.1 hdeletes hs.2 hstep⟩
    exact hinv.2

/-- The transaction of the first test that deletes a key. -/
def putThenDelete : List (Event Mutation) :=
  [.beginWrite 0, .mutate 0 (.put [107] [118]), .commit 0, .beginWrite 1, .mutate 1 (.delete [107]), .commit 1]

theorem meets_oneCommit : Meets store.step DeletesAbsent (.init (.ok init)) LoggedModel.oneCommit := by
  refine ⟨nofun, fun s hs => ⟨nofun, fun t ht => ⟨?_, fun _ _ => trivial⟩⟩⟩
  cases hs
  cases ht
  intro handle operations m snapshot he hhandle _ _
  cases he
  cases hhandle
  exact ⟨not_false, trivial⟩

/-- Without a delete the models agree. -/
theorem models_agree_put : ∃ s s',
    run LoggedModel.store.step (.init LoggedModel.init) LoggedModel.oneCommit = some s ∧
      run store.step (.init (.ok init)) LoggedModel.oneCommit = some s' ∧ Agree s.model s'.model :=
  ⟨_, _, rfl, rfl, (models_agree_iff LoggedModel.oneCommit rfl rfl).mpr meets_oneCommit⟩

/-- The delete of a key that is there. -/
theorem models_disagree :
    ¬ ∀ (es : List (Event Mutation)) (s : Writers.Session LoggedModel Model.Writes)
      (s' : Writers.Session (Except MemoryFault ModelV2) (List Mutation)),
        run LoggedModel.store.step (.init LoggedModel.init) es = some s →
          run store.step (.init (.ok init)) es = some s' → Agree s.model s'.model := by
  intro hclaim
  rcases hclaim putThenDelete _ _ rfl rfl with ⟨n, hn, _⟩
  cases hn

end ModelV2

end Northstar.Zig
