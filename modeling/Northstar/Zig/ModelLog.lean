import Northstar.Lib.Writers
import Northstar.Zig.CommitLog

/-!
# ModelLog — the histories of the reference model

`ref_model.zig`.  The model keeps a snapshot for every committed transaction, and has a commit log besides.
Transactions are open at once, each with a write set of its own; a commit applies its write set to the latest
snapshot.  It does not append to the log.
-/

namespace Northstar.Zig

open Bytes Runs Writers

structure LoggedModel extends Model where
  heap : Heap
  commitLog : List (LogRecord OwnedMutation)

namespace LoggedModel

def init : LoggedModel := { Model.init with heap := .empty, commitLog := [] }

def commit (m : LoggedModel) (writes : Model.Writes) : Except PagerError (LoggedModel × Nat) := do
  let (model, newId) ← m.toModel.commit writes
  return ({ m with toModel := model }, newId)

def createSnapshotFromLog (m : LoggedModel) (txnId : Nat) : Except MemoryFault SnapshotState :=
  Zig.createSnapshotFromLog OwnedMutation.replay m.heap m.commitLog txnId

end LoggedModel

/-- `put` and `del` of a write set. -/
def Model.Writes.mutate (writes : Model.Writes) : Mutation → Model.Writes
  | .put key value => Function.update writes key (some (some value))
  | .delete key => Function.update writes key (some none)

/-- `WriteTxn` of `ref_model.zig`. -/
def LoggedModel.store : Store LoggedModel Model.Writes Mutation where
  empty := fun _ => none
  mutate := Model.Writes.mutate
  commit := fun m writes =>
    match m.commit writes with
    | .ok (m, _) => some m
    | .error _ => none

/-- The contents after the first transactions of a journal. -/
def stateAt (committed : List (List Mutation)) (txnId : Nat) : SnapshotState :=
  (committed.take txnId).flatten.foldl Model.mutate fun _ => none

variable {txnId : Nat}

theorem stateAt_append {committed : List (List Mutation)} (h : txnId ≤ committed.length)
    (ops : List Mutation) : stateAt (committed ++ [ops]) txnId = stateAt committed txnId := by
  unfold stateAt
  rw [List.take_append_of_le_length h]

theorem stateAt_succ {committed : List (List Mutation)} {txnId : Nat} {ops : List Mutation}
    (h : committed[txnId]? = some ops) :
    stateAt committed (txnId + 1) = ops.foldl Model.mutate (stateAt committed txnId) := by
  unfold stateAt
  rw [List.take_add_one, h]
  show ((committed.take txnId) ++ [ops]).flatten.foldl _ _ = _
  rw [List.flatten_append, List.foldl_append, List.flatten_singleton]

namespace LoggedModel

structure Represents (m : LoggedModel) (committed : List (List Mutation)) : Prop where
  current : m.currentTxnId = committed.length
  history : ∀ txnId, m.history txnId =
    if txnId ≤ committed.length then some (stateAt committed txnId) else none
  log : m.commitLog = []

/-- A write set stands for its operations, whatever they are applied to. -/
def Collects (writes : Model.Writes) (ops : List Mutation) : Prop :=
  ∀ base, Model.applyWrites base writes = ops.foldl Model.mutate base

variable {m : LoggedModel} {snapshot : SnapshotState}

theorem store_commit {base : SnapshotState} (hbase : m.history m.currentTxnId = some base)
    (writes : Model.Writes) :
    store.commit m writes = some { m with
      currentTxnId := m.currentTxnId + 1
      history := Function.update m.history (m.currentTxnId + 1)
        (some (Model.applyWrites base writes)) } := by
  show (match m.commit writes with | .ok (m, _) => some m | .error _ => none) = _
  unfold LoggedModel.commit
  rw [Model.commit_eq hbase]
  rfl

theorem represents_init : init.Represents [] := by
  constructor
  · rfl
  · intro txnId
    show Function.update (fun _ => none) 0 (some fun _ => none) txnId = if txnId ≤ 0 then _ else _
    rw [Function.update_apply]
    by_cases hzero : txnId = 0
    · rw [if_pos hzero, if_pos (Nat.le_of_eq hzero), hzero]
      rfl
    · rw [if_neg hzero, if_neg (by omega)]
  · rfl

theorem simulates_journal : Simulates store (journal Mutation) Represents Collects where
  empty := fun _ => rfl
  mutate := by
    intro writes ops op h base
    have hmutate := Model.applyWrites_mutate base ⟨0, [], writes⟩ op
    have hwrites : (WriteTxn.mutate ⟨0, [], writes⟩ op).writes = Model.Writes.mutate writes op := by
      cases op <;> rfl
    rw [hwrites] at hmutate
    show Model.applyWrites base (writes.mutate op) = (ops ++ [op]).foldl Model.mutate base
    rw [hmutate, List.foldl_append]
    show Model.mutate (Model.applyWrites base writes) op = Model.mutate (ops.foldl Model.mutate base) op
    rw [h base]
  commit := by
    intro m committed writes ops h hops
    have hbase : m.history m.currentTxnId = some (stateAt committed committed.length) := by
      rw [h.history, h.current, if_pos (Nat.le_refl _)]
    have hlength : (committed ++ [ops]).length = committed.length + 1 := List.length_append
    refine ⟨_, committed ++ [ops], store_commit hbase writes, rfl, ?_⟩
    constructor
    · show m.currentTxnId + 1 = _
      rw [h.current, hlength]
    · intro txnId
      show Function.update m.history _ _ txnId = _
      rw [Function.update_apply, h.current, hlength]
      by_cases hnew : txnId = committed.length + 1
      · rw [if_pos hnew, if_pos (Nat.le_of_eq hnew), hops, hnew, @stateAt_succ _ _ ops (by simp),
          stateAt_append (Nat.le_refl _)]
      · rw [if_neg hnew, h.history]
        by_cases hle : txnId ≤ committed.length
        · rw [if_pos hle, if_pos (Nat.le_succ_of_le hle), stateAt_append hle]
        · rw [if_neg hle, if_neg (by omega)]
    · exact h.log

theorem beginRead_eq_ok {m : Model}
    (h : m.history txnId = some snapshot) : m.beginRead txnId = .ok snapshot := by
  unfold Model.beginRead
  rw [h]

theorem history_of_beginRead {m : Model}
    (h : m.beginRead txnId = .ok snapshot) : m.history txnId = some snapshot := by
  unfold Model.beginRead at h
  split at h
  next hsnapshot =>
    cases h
    exact hsnapshot
  next => cases h


/-- There is a snapshot for every transaction, and nothing in the log. -/
structure Sound (m : LoggedModel) : Prop where
  history : ∀ txnId, (m.history txnId).isSome ↔ txnId ≤ m.currentTxnId
  log : m.commitLog = []

theorem Represents.sound {committed : List (List Mutation)} (h : m.Represents committed) :
    m.Sound := by
  constructor
  · intro txnId
    rw [h.history, h.current]
    by_cases hle : txnId ≤ committed.length
    · rw [if_pos hle]
      exact ⟨fun _ => hle, fun _ => rfl⟩
    · rw [if_neg hle]
      exact ⟨fun hsome => (nomatch hsome), fun hle' => absurd hle' hle⟩
  · exact h.log

variable {s t : Writers.Session LoggedModel Model.Writes} {e : Event Mutation}

theorem model_step (h : s.model.Sound) (hstep : store.step s e = some t) :
    t.model = s.model ∨ ∃ handle writes base, e = .commit handle ∧ s.handles handle = .opened writes ∧
      s.model.history s.model.currentTxnId = some base ∧
      t.model = { s.model with
        currentTxnId := s.model.currentTxnId + 1
        history := Function.update s.model.history (s.model.currentTxnId + 1)
          (some (Model.applyWrites base writes)) } := by
  cases step_model hstep with
  | inl hsame => exact .inl hsame
  | inr hcommit =>
    rcases hcommit with ⟨handle, writes, he, hhandle, hcommit⟩
    have hsome := (h.history s.model.currentTxnId).mpr (Nat.le_refl _)
    rcases Option.isSome_iff_exists.mp hsome with ⟨base, hbase⟩
    rw [store_commit hbase] at hcommit
    exact .inr ⟨handle, writes, base, he, hhandle, hbase, (Option.some.inj hcommit).symm⟩

theorem sound_step (h : s.model.Sound) (hstep : store.step s e = some t) : t.model.Sound := by
  rcases model_step h hstep with hsame | ⟨handle, writes, base, _, _, _, hmodel⟩
  · rw [hsame]
    exact h
  · rw [hmodel]
    constructor
    · intro txnId
      show (Function.update s.model.history _ _ txnId).isSome ↔ txnId ≤ s.model.currentTxnId + 1
      rw [Function.update_apply]
      by_cases hnew : txnId = s.model.currentTxnId + 1
      · rw [if_pos hnew]
        exact ⟨fun _ => Nat.le_of_eq hnew, fun _ => rfl⟩
      · rw [if_neg hnew, h.history]
        omega
    · exact h.log

theorem history_step (h : s.model.Sound) (hstep : store.step s e = some t)
    (hsnapshot : s.model.history txnId = some snapshot) :
    t.model.history txnId = some snapshot := by
  rcases model_step h hstep with hsame | ⟨handle, writes, base, _, _, _, hmodel⟩
  · rw [hsame]
    exact hsnapshot
  · have hle : txnId ≤ s.model.currentTxnId := (h.history txnId).mp (by rw [hsnapshot]; rfl)
    rw [hmodel]
    show Function.update s.model.history _ _ txnId = _
    rw [Function.update_of_ne (by omega)]
    exact hsnapshot

/-- A commit whose write set binds no key to a value. -/
def PutsNone (s : Writers.Session LoggedModel Model.Writes) (e : Event Mutation) : Prop :=
  ∀ handle writes, e = .commit handle → s.handles handle = .opened writes →
    ∀ key value, writes key ≠ some (some value)

theorem createSnapshotFromLog_eq (h : m.Sound) (txnId : Nat) :
    m.createSnapshotFromLog txnId = .ok fun _ => none := by
  unfold createSnapshotFromLog
  rw [h.log]
  rfl

def Empty (m : LoggedModel) : Prop := ∀ txnId snapshot, m.history txnId = some snapshot → snapshot = fun _ => none

theorem empty_step (h : s.model.Sound) (hputs : PutsNone s e) (hempty : s.model.Empty)
    (hstep : store.step s e = some t) : t.model.Empty := by
  rcases model_step h hstep with hsame | ⟨handle, writes, base, he, hhandle, hbase, hmodel⟩
  · rw [hsame]
    exact hempty
  · intro txnId snapshot hsnapshot
    rw [hmodel] at hsnapshot
    have hsnapshot : Function.update s.model.history (s.model.currentTxnId + 1)
        (some (Model.applyWrites base writes)) txnId = some snapshot := hsnapshot
    rw [Function.update_apply] at hsnapshot
    split at hsnapshot
    · cases hsnapshot
      funext key
      unfold Model.applyWrites
      cases hkey : writes key with
      | none =>
        rw [hempty _ _ hbase]
      | some value =>
        cases value with
        | none => rfl
        | some value => exact absurd hkey (hputs handle writes he hhandle key value)
    · exact hempty txnId snapshot hsnapshot

theorem not_empty_step (h : s.model.Sound) (hputs : ¬ PutsNone s e) (hstep : store.step s e = some t) :
    ¬ t.model.Empty := by
  intro hempty
  apply hputs
  intro handle writes he hhandle key value hkey
  have hsome := (h.history s.model.currentTxnId).mpr (Nat.le_refl _)
  rcases Option.isSome_iff_exists.mp hsome with ⟨base, hbase⟩
  subst he
  rw [step_commit hhandle (store_commit hbase writes)] at hstep
  cases hstep
  have hnew : Function.update s.model.history (s.model.currentTxnId + 1)
      (some (Model.applyWrites base writes)) (s.model.currentTxnId + 1) =
        some (Model.applyWrites base writes) := Function.update_self ..
  have happly := congrFun (hempty _ _ hnew) key
  unfold Model.applyWrites at happly
  rw [hkey] at happly
  cases happly

/-- For all runs of transactions: the snapshots are those up to the current id, a snapshot that exists stays
as it is, each applies the operations of its transaction to the one before it, and the commit log gives the
same states exactly where no transaction has bound a key to a value. -/
theorem time_travel (es es' : List (Event Mutation)) {p q : Writers.Session LoggedModel Model.Writes}
    {committed : Writers.Session (List (List Mutation)) (List Mutation)}
    (hrun : run store.step (.init init) es = some p) (hrest : run store.step p es' = some q)
    (hjournal : run (journal Mutation).step (.init []) (es ++ es') = some committed) :
    (∀ txnId, (q.model.history txnId).isSome ↔ txnId ≤ q.model.currentTxnId) ∧
    (∀ txnId snapshot, p.model.beginRead txnId = .ok snapshot → q.model.beginRead txnId = .ok snapshot) ∧
    committed.model.length = q.model.currentTxnId ∧
    (∀ txnId ops, committed.model[txnId]? = some ops → ∃ base, q.model.beginRead txnId = .ok base ∧
      q.model.beginRead (txnId + 1) = .ok (ops.foldl Model.mutate base)) ∧
    ((∀ txnId ≤ q.model.currentTxnId, ∃ snapshot, q.model.beginRead txnId = .ok snapshot ∧
        q.model.createSnapshotFromLog txnId = .ok snapshot) ↔
      Meets store.step PutsNone (.init init) (es ++ es')) := by
  have hall := run_append.mpr ⟨p, hrun, hrest⟩
  rcases simulate_run simulates_journal (related_init represents_init) hall with ⟨j, hj, hrelated⟩
  rw [hjournal] at hj
  cases hj
  have hrepresents : q.model.Represents committed.model := hrelated.model
  have hstart : Sound (Writers.Session.init init : Writers.Session LoggedModel Model.Writes).model := represents_init.sound
  have hsound : p.model.Sound :=
    invariant_of_forall (I := fun s => s.model.Sound) (fun _ _ _ hs hstep => sound_step hs hstep) hstart hrun
  refine ⟨hrepresents.sound.history, ?_, hrepresents.current.symm, ?_, ?_⟩
  · intro txnId snapshot hread
    have hkept : ∀ txnId snapshot, p.model.history txnId = some snapshot →
        q.model.history txnId = some snapshot := by
      apply related (I := fun s : Writers.Session LoggedModel Model.Writes => s.model.Sound)
        (R := fun s t => ∀ txnId snapshot, s.model.history txnId = some snapshot →
          t.model.history txnId = some snapshot) ?_ ?_ ?_ hsound meets_true hrest
      · exact fun _ _ _ hsnapshot => hsnapshot
      · exact fun _ _ _ h h' txnId snapshot hsnapshot => h' txnId snapshot (h txnId snapshot hsnapshot)
      · exact fun _ _ _ hs _ hstep => ⟨sound_step hs hstep, fun _ _ => history_step hs hstep⟩
    exact beginRead_eq_ok (hkept txnId snapshot (history_of_beginRead hread))
  · intro txnId ops hops
    have hlt : txnId < committed.model.length := (List.getElem?_eq_some_iff.mp hops).1
    refine ⟨stateAt committed.model txnId, ?_, ?_⟩
    · apply beginRead_eq_ok
      rw [hrepresents.history, if_pos (Nat.le_of_lt hlt)]
    · apply beginRead_eq_ok
      rw [hrepresents.history, if_pos (Nat.succ_le_of_lt hlt), stateAt_succ hops]
  · have hempty : (∀ txnId ≤ q.model.currentTxnId, ∃ snapshot, q.model.beginRead txnId = .ok snapshot ∧
        q.model.createSnapshotFromLog txnId = .ok snapshot) ↔ q.model.Empty := by
      constructor
      · intro hlog txnId snapshot hsnapshot
        have hle := (hrepresents.sound.history txnId).mp (by rw [hsnapshot]; rfl)
        rcases hlog txnId hle with ⟨snapshot', hread, hreplay⟩
        rw [createSnapshotFromLog_eq hrepresents.sound] at hreplay
        rw [beginRead_eq_ok hsnapshot] at hread
        cases hread
        cases hreplay
        rfl
      · intro hempty txnId hle
        have hsome := (hrepresents.sound.history txnId).mpr hle
        rcases Option.isSome_iff_exists.mp hsome with ⟨snapshot, hsnapshot⟩
        refine ⟨snapshot, beginRead_eq_ok hsnapshot, ?_⟩
        rw [createSnapshotFromLog_eq hrepresents.sound, hempty txnId snapshot hsnapshot]
    rw [hempty]
    constructor
    · intro hend
      apply meets_of_not (I := fun s : Writers.Session LoggedModel Model.Writes => s.model.Sound)
        (B := fun s => ¬ s.model.Empty) ?_ ?_ ?_ hstart hall (not_not_intro hend)
      · exact fun _ _ _ hs hstep => sound_step hs hstep
      · exact fun _ _ _ hs hstep hputs => not_empty_step hs hputs hstep
      · intro s e t hs hnot hstep hnext
        exact hnot fun txnId snapshot hsnapshot => hnext txnId snapshot (history_step hs hstep hsnapshot)
    · intro hmeets
      have hinv : q.model.Sound ∧ q.model.Empty := by
        apply invariant (I := fun s : Writers.Session LoggedModel Model.Writes => s.model.Sound ∧ s.model.Empty) ?_ ?_
          hmeets hall
        · exact fun _ _ _ hs hputs hstep => ⟨sound_step hs.1 hstep, empty_step hs.1 hputs hs.2 hstep⟩
        · refine ⟨hstart, ?_⟩
          intro txnId snapshot hsnapshot
          have hsnapshot : Function.update (fun _ => none) 0 (some fun _ => none) txnId = some snapshot := hsnapshot
          rw [Function.update_apply] at hsnapshot
          split at hsnapshot <;> cases hsnapshot
          rfl
      exact hinv.2

/-- A transaction that binds a key. -/
def oneCommit : List (Event Mutation) := [.beginWrite 0, .mutate 0 (.put [107] [118]), .commit 0]

/-- Two handles at once; the one that is committed first has begun last. -/
def overlapping : List (Event Mutation) :=
  [.beginWrite 1, .mutate 1 (.put [107] [119]), .beginWrite 2, .mutate 2 (.delete [107]), .commit 2, .commit 1]

theorem time_travel_overlapping :
    ∃ p q, run store.step (.init init) oneCommit = some p ∧ run store.step p overlapping = some q ∧
      q.model.currentTxnId = 3 ∧ ∀ txnId, (q.model.history txnId).isSome ↔ txnId ≤ 3 :=
  ⟨_, _, rfl, rfl, rfl, (@time_travel oneCommit overlapping _ _ _ rfl rfl rfl).1⟩

/-- The log has not heard of the transaction. -/
theorem log_stays_empty :
    ¬ ∀ (es : List (Event Mutation)) (q : Writers.Session LoggedModel Model.Writes),
      run store.step (.init init) es = some q →
        ∀ txnId ≤ q.model.currentTxnId, ∃ snapshot, q.model.beginRead txnId = .ok snapshot ∧
          q.model.createSnapshotFromLog txnId = .ok snapshot := by
  intro hclaim
  rcases hclaim oneCommit _ rfl 1 (Nat.le_refl 1) with ⟨snapshot, hread, hreplay⟩
  have hbound : snapshot [107] = some [118] := by
    cases hread
    rfl
  cases hreplay
  cases hbound

end LoggedModel

end Northstar.Zig
