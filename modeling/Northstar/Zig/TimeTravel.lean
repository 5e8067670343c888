import Northstar.Zig.Rebuild

/-!
# TimeTravel — the state at a target

A log of well-formed commit records is rebuilt up to a target as the fold of the records that do not lie
behind it, whatever the engine held before, unless one of them deletes a key with bytes.
-/

namespace Northstar.Zig

open Bytes EStateM

/-- What a rebuild shows. -/
structure Rebuilt where
  state : SnapshotState := fun _ => none
  processedTxns : Nat := 0
  lastTxnId : UInt64 := 0

namespace Rebuilt

def apply (m : Rebuilt) (r : CommitRecord) : Rebuilt where
  state := r.mutations.foldl Model.mutate m.state
  processedTxns := m.processedTxns + 1
  lastTxnId := r.txnId

theorem foldl_apply (m : Rebuilt) (rs : List CommitRecord) :
    (rs.foldl apply m).state = (rs.flatMap CommitRecord.mutations).foldl Model.mutate m.state ∧
      (rs.foldl apply m).processedTxns = m.processedTxns + rs.length ∧
      (rs.foldl apply m).lastTxnId = (rs.getLast?.map CommitRecord.txnId).getD m.lastTxnId := by
  induction rs generalizing m with
  | nil => exact ⟨rfl, rfl, rfl⟩
  | cons r rs ih =>
    rcases ih (m.apply r) with ⟨hstate, hcount, hlast⟩
    rw [List.foldl_cons]
    refine ⟨?_, ?_, ?_⟩
    · rw [hstate, List.flatMap_cons, List.foldl_append]
      rfl
    · rw [hcount, List.length_cons]
      show m.processedTxns + 1 + rs.length = _
      omega
    · rw [hlast, List.getLast?_cons]
      cases rs.getLast? <;> rfl

end Rebuilt

/-- The loop over frames, without the engine. -/
def LogFrame.rebuilt (target : UInt64) : List LogFrame → Rebuilt → Except ReplayError Rebuilt
  | [], m => .ok m
  | f :: fs, m =>
    if f.Good then
      match CommitRecord.deserialize f.payload with
      | .error err => .error (.log err)
      | .ok record =>
        if record.txnId > target then .ok m
        else if record.Harmless then rebuilt target fs (m.apply record)
        else .error .invalidFree
    else .ok m

/-- The engine is left with what the loop over frames computes, or fails as it does. -/
def Shows (run : EStateM.Result ReplayError ReplayEngine ReplayEngine.Result) :
    Except ReplayError Rebuilt → Prop
  | .ok m => ∃ result e', run = .ok result e' ∧ e'.Keeps [] ∧ e'.state = m.state ∧
      result.processedTxns = m.processedTxns ∧ result.lastTxnId = m.lastTxnId
  | .error err => ∃ e', run = .error err e'

namespace ReplayEngine

variable {e : ReplayEngine}

theorem Keeps.shows_rebuildLoop (h : Keeps e []) (target : UInt64) (fs : List LogFrame) (pre : Bytes)
    {fuel : Nat} (hfuel : fs.length ≤ fuel) (result : Result) :
    Shows ((rebuildLoop (pre ++ LogFrame.file fs) target fuel pre.length result).run e)
      (LogFrame.rebuilt target fs ⟨e.state, result.processedTxns, result.lastTxnId⟩) := by
  induction fs generalizing e pre fuel result with
  | nil =>
    refine ⟨result, e, ?_, h, rfl, rfl, rfl⟩
    cases fuel with
    | zero => rfl
    | succ fuel =>
      have hend : ¬ pre.length < (pre ++ LogFrame.file []).length := by
        rw [LogFrame.file, List.flatMap_nil, List.append_nil]
        exact Nat.lt_irrefl _
      rw [rebuildLoop, if_neg hend]
      rfl
  | cons f fs ih =>
    rw [List.length_cons] at hfuel
    cases fuel with
    | zero => omega
    | succ fuel =>
      have hfile : pre ++ LogFrame.file (f :: fs) = pre ++ (f.bytes ++ LogFrame.file fs) := rfl
      have hnext : pre ++ (f.bytes ++ LogFrame.file fs) = pre ++ f.bytes ++ LogFrame.file fs :=
        (List.append_assoc ..).symm
      have hpos : pre.length < (pre ++ (f.bytes ++ LogFrame.file fs)).length := by
        have hframe := f.length_bytes_pos
        rw [List.length_append, List.length_append]
        omega
      rcases readPayload_frame f pre (LogFrame.file fs) with ⟨hgood, hbad⟩
      rw [hfile, LogFrame.rebuilt]
      by_cases hf : f.Good
      · rw [if_pos hf]
        cases hrecord : CommitRecord.deserialize f.payload with
        | error err =>
          refine ⟨e, ?_⟩
          unfold rebuildLoop readCommitRecordFromFile
          rw [if_pos hpos, hgood hf]
          dsimp only
          rw [hrecord]
          rfl
        | ok record =>
          rcases h.run_turn hpos (hgood hf) hrecord target fuel result with ⟨hbehind, happly, hfail⟩
          dsimp only
          by_cases htarget : record.txnId > target
          · rw [if_pos htarget]
            rcases hbehind htarget with ⟨e', hrun, hrest, hstate⟩
            exact ⟨result, e', hrun, hrest, hstate, rfl, rfl⟩
          · rw [if_neg htarget]
            by_cases hharmless : record.Harmless
            · rw [if_pos hharmless]
              rcases happly htarget hharmless with ⟨e', keyCount, hrun, hrest, hstate⟩
              have hloop := ih hrest (pre ++ f.bytes) (Nat.le_of_succ_le_succ hfuel)
                ⟨result.processedTxns + 1, record.txnId, keyCount⟩
              rw [hrun, hnext, ← List.length_append]
              rw [hstate] at hloop
              exact hloop
            · rw [if_neg hharmless]
              exact hfail htarget hharmless
      · rw [if_neg hf]
        refine ⟨result, e, ?_, h, rfl, rfl, rfl⟩
        have hnone := hbad hf
        rcases hread : readPayload (pre ++ (f.bytes ++ LogFrame.file fs)) pre.length with ⟨payload, nextPos⟩
        rw [hread] at hnone
        cases hnone
        unfold rebuildLoop readCommitRecordFromFile
        rw [if_pos hpos, hread]
        rfl

theorem Keeps.shows_rebuildToTxnId (h : Keeps e []) (target : UInt64) (fs : List LogFrame) :
    Shows ((rebuildToTxnId (some (LogFrame.file fs)) target).run e) (LogFrame.rebuilt target fs {}) := by
  rcases h.run_clearState with ⟨heap, hclear⟩
  unfold rebuildToTxnId
  rw [run_bind_of_ok hclear]
  exact (keeps_cleared heap).shows_rebuildLoop target fs [] (LogFrame.length_le_file fs) {}

end ReplayEngine

def CommitRecord.upTo (target : UInt64) (rs : List CommitRecord) : List CommitRecord :=
  rs.filter (·.txnId ≤ target)

theorem CommitRecord.mem_upTo {target : UInt64} {rs : List CommitRecord} {r : CommitRecord} :
    r ∈ CommitRecord.upTo target rs ↔ r ∈ rs ∧ r.txnId ≤ target := by
  unfold CommitRecord.upTo
  rw [List.mem_filter, decide_eq_true_iff]

theorem LogFrame.rebuilt_carries (target : UInt64) {fs : List LogFrame} {rs : List CommitRecord}
    (hcarries : List.Forall₂ LogFrame.Carries fs rs)
    (hsorted : rs.Pairwise fun r r' => r.txnId ≤ r'.txnId) (m : Rebuilt) :
    ((∀ r ∈ CommitRecord.upTo target rs, r.Harmless) →
      LogFrame.rebuilt target fs m = .ok ((CommitRecord.upTo target rs).foldl Rebuilt.apply m)) ∧
    ((¬ ∀ r ∈ CommitRecord.upTo target rs, r.Harmless) →
      LogFrame.rebuilt target fs m = .error .invalidFree) := by
  induction hcarries generalizing m with
  | nil => exact ⟨fun _ => rfl, fun hno => absurd (fun _ hmem => absurd hmem List.not_mem_nil) hno⟩
  | @cons f r fs rs hf hrest ih =>
    have hsorted := List.pairwise_cons.mp hsorted
    rw [LogFrame.rebuilt, if_pos hf.1, hf.2]
    dsimp only
    by_cases htarget : r.txnId > target
    · -- all further records lie behind the target as well
      have hnone : CommitRecord.upTo target (r :: rs) = [] := by
        apply List.filter_eq_nil_iff.mpr
        intro r' hr'
        rw [decide_eq_true_iff, UInt64.not_le]
        rcases List.mem_cons.mp hr' with rfl | hr'
        · exact htarget
        · exact UInt64.lt_of_lt_of_le htarget (hsorted.1 r' hr')
      rw [if_pos htarget, hnone]
      exact ⟨fun _ => rfl, fun hno => absurd (fun _ hmem => absurd hmem List.not_mem_nil) hno⟩
    · have hcons : CommitRecord.upTo target (r :: rs) = r :: CommitRecord.upTo target rs :=
        List.filter_cons_of_pos (decide_eq_true (UInt64.not_lt.mp htarget))
      rw [if_neg htarget, hcons, List.forall_mem_cons]
      by_cases hharmless : r.Harmless
      · rw [if_pos hharmless]
        refine ⟨fun hall => (ih hsorted.2 (m.apply r)).1 hall.2, fun hno => ?_⟩
        exact (ih hsorted.2 (m.apply r)).2 fun hall => hno ⟨hharmless, hall⟩
      · rw [if_neg hharmless]
        exact ⟨fun hall => absurd hall.1 hharmless, fun _ => rfl⟩

namespace ReplayEngine

/-- The engine is left with the map of the records up to the target, and reports these. -/
def RebuildsTo (e : ReplayEngine) (log : Bytes) (target : UInt64) (rs : List CommitRecord) : Prop :=
  ∃ result e', (rebuildToTxnId (some log) target).run e = .ok result e' ∧
    (∀ key, e'.get key =
      ((CommitRecord.upTo target rs).flatMap CommitRecord.mutations).foldl Model.mutate (fun _ => none) key) ∧
    result.processedTxns = (CommitRecord.upTo target rs).length ∧
    result.lastTxnId = ((CommitRecord.upTo target rs).getLast?.map CommitRecord.txnId).getD 0

/-- **Time travel.**  A rebuild to a target leaves the map of the records up to it, on any engine, exactly
if none of these deletes a key with bytes; such a key is freed twice. -/
theorem rebuildsTo_iff {calls : List (Option Bytes × UInt64)} {e : ReplayEngine}
    (hreached : runCalls init calls = some e) {fs : List LogFrame} {rs : List CommitRecord}
    (hcarries : List.Forall₂ LogFrame.Carries fs rs)
    (hsorted : rs.Pairwise fun r r' => r.txnId ≤ r'.txnId) (target : UInt64) :
    e.RebuildsTo (LogFrame.file fs) target rs ↔
      ∀ r ∈ rs, r.txnId ≤ target → ∀ m ∈ r.mutations, ∀ key, m = .delete key → key = [] := by
  have hshows := (keeps_init.runCalls hreached).shows_rebuildToTxnId target fs
  have hharmless : (∀ r ∈ CommitRecord.upTo target rs, r.Harmless) ↔
      ∀ r ∈ rs, r.txnId ≤ target → ∀ m ∈ r.mutations, ∀ key, m = .delete key → key = [] := by
    constructor
    · intro hall r hr htarget m hm key hkey
      have hm' := hall r (CommitRecord.mem_upTo.mpr ⟨hr, htarget⟩) m hm
      rw [hkey] at hm'
      exact hm'
    · intro hall r hr m hm
      have hr := CommitRecord.mem_upTo.mp hr
      cases m with
      | put key value => trivial
      | delete key => exact hall r hr.1 hr.2 _ hm key rfl
  rcases LogFrame.rebuilt_carries target hcarries hsorted {} with ⟨hok, herror⟩
  rw [← hharmless]
  constructor
  · rintro ⟨result, e', hrun, -⟩
    by_contra hno
    rw [herror hno, hrun] at hshows
    rcases hshows with ⟨e'', hrun'⟩
    cases hrun'
  · intro hall
    rw [hok hall] at hshows
    rcases hshows with ⟨result, e', hrun, -, hstate, hcount, hlast⟩
    rcases Rebuilt.foldl_apply {} (CommitRecord.upTo target rs) with ⟨hstate', hcount', hlast'⟩
    refine ⟨result, e', hrun, fun key => ?_, ?_, ?_⟩
    · rw [← hstate']
      exact congrFun hstate key
    · rw [hcount, hcount', Nat.zero_add]
    · rw [hlast, hlast']

def firstPut : CommitRecord :=
  { txnId := 1, rootPageId := 2, mutations := [.put [7] [8]], checksum := 0x06D1A4B9 }

def secondPuts : CommitRecord :=
  { txnId := 2, rootPageId := 2, mutations := [.put [7] [9], .put [1] [2]], checksum := 0xF4273608 }

theorem firstPut_accepted : firstPut.Accepted := by decide +kernel

theorem secondPuts_accepted : secondPuts.Accepted := by decide +kernel

def twoPuts : List LogFrame := [.ofRecord 0 firstPut firstPut_accepted, .ofRecord 1 secondPuts secondPuts_accepted]

/-- On an engine that holds both transactions, the first is rebuilt. -/
theorem rebuildsTo_first_put : ∃ e, runCalls init [(some (LogFrame.file twoPuts), 2)] = some e ∧
      e.RebuildsTo (LogFrame.file twoPuts) 1 [firstPut, secondPuts] := by
  have hcarries : List.Forall₂ LogFrame.Carries twoPuts [firstPut, secondPuts] :=
    .cons (LogFrame.carries_ofRecord 0 firstPut_accepted (by decide +kernel))
      (.cons (LogFrame.carries_ofRecord 1 secondPuts_accepted (by decide +kernel)) .nil)
  have hsome : (runCalls init [(some (LogFrame.file twoPuts), 2)]).isSome := by decide +kernel
  rcases Option.isSome_iff_exists.mp hsome with ⟨e, he⟩
  refine ⟨e, he, (rebuildsTo_iff he hcarries (by decide) 1).mpr ?_⟩
  intro r hr htarget m hm key hkey
  have hr : r = firstPut := by
    rcases List.mem_cons.mp hr with rfl | hr
    · rfl
    · rw [List.mem_singleton.mp hr] at htarget
      exact absurd htarget (by decide)
  rw [hr] at hm
  rw [List.mem_singleton.mp hm] at hkey
  cases hkey

def deletingRecord : CommitRecord :=
  { txnId := 1, rootPageId := 2, mutations := [.delete [7]], checksum := 0x4260EB98 }

theorem deletingRecord_accepted : deletingRecord.Accepted := by decide +kernel

/-- The log takes the record, and rebuilding it frees the key twice. -/
theorem delete_is_freed_twice :
    List.Forall₂ LogFrame.Carries [.ofRecord 0 deletingRecord deletingRecord_accepted] [deletingRecord] ∧
      runCalls init [] = some init ∧
      runCalls init [(some (LogFrame.file [.ofRecord 0 deletingRecord deletingRecord_accepted]), 1)] = none ∧
      ¬ init.RebuildsTo (LogFrame.file [.ofRecord 0 deletingRecord deletingRecord_accepted]) 1
        [deletingRecord] := by
  have hnone : runCalls init
      [(some (LogFrame.file [.ofRecord 0 deletingRecord deletingRecord_accepted]), 1)] = none :=
    Option.isNone_iff_eq_none.mp (by decide +kernel)
  refine ⟨.cons (LogFrame.carries_ofRecord 0 deletingRecord_accepted (by decide +kernel)) .nil, rfl, hnone,
    ?_⟩
  rintro ⟨result, e', hrun, -⟩
  rw [runCalls, hrun] at hnone
  cases hnone

end ReplayEngine

end Northstar.Zig
