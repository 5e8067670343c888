import Northstar.Zig.Rebuild

/-!
# CommitLog — the logs of the two reference models

`CommitLog.replayToTxn` of `ref_model.zig` and of `ref_model_v2.zig`.  Both free a key before they ask the map
to remove it.  The first frees the key of the operation, which belongs to the log, and hashes it afterwards;
the second frees the key that the map has, and the map compares with it afterwards.  Only the blocks of keys
and values are followed, and a slice without bytes has no block.
-/

namespace Northstar.Zig

open Bytes EStateM

inductive MemoryFault where
  | invalidFree
  | useAfterFree
  deriving Repr, DecidableEq

/-- A `StringHashMap`; the keys of the entries differ. -/
structure OwnedSnapshot where
  heap : Heap
  entries : List (Slice × Slice)

abbrev SnapshotM := EStateM MemoryFault OwnedSnapshot

namespace OwnedSnapshot

def init (heap : Heap) : OwnedSnapshot := ⟨heap, []⟩

/-- The contents, as a map. -/
def state (m : OwnedSnapshot) : SnapshotState := fun key =>
  (m.entries.find? (·.1.bytes = key)).map (·.2.bytes)

/-- `allocator.dupe`. -/
def dupe (bytes : Bytes) : SnapshotM Slice := fun m =>
  .ok ⟨bytes, m.heap.next⟩ { m with heap := m.heap.alloc }

/-- `allocator.free`; nothing is freed for a slice of length 0. -/
def free (s : Slice) : SnapshotM Unit := fun m =>
  if s.bytes = [] then .ok () m
  else
    match m.heap.free s.block with
    | some heap => .ok () { m with heap }
    | none => .error .invalidFree m

def read (s : Slice) : SnapshotM Bytes := fun m =>
  if s.bytes = [] ∨ m.heap.Live s.block then .ok s.bytes m else .error .useAfterFree m

/-- The entry that has the hash of the key; its key is compared. -/
def find (key : Bytes) : SnapshotM (Option (Slice × Slice)) := do
  let m ← MonadState.get
  match m.entries.find? (·.1.bytes = key) with
  | some entry => do
    let _ ← read entry.1
    return some entry
  | none => return none

/-- An entry that is there keeps its key. -/
def put (key value : Slice) : SnapshotM Unit := do
  match ← find key.bytes with
  | some _ =>
    modify fun m =>
      { m with entries := m.entries.map fun e => if e.1.bytes = key.bytes then (e.1, value) else e }
  | none => modify fun m => { m with entries := m.entries ++ [(key, value)] }

def remove (key : Bytes) : SnapshotM Unit := do
  match ← find key with
  | some _ => modify fun m => { m with entries := m.entries.eraseP (·.1.bytes = key) }
  | none => return ()

end OwnedSnapshot

/-- `CommitRecord`, with the operations as one of the models keeps them. -/
structure LogRecord (Op : Type) where
  txnId : Nat
  operations : List Op

open OwnedSnapshot in
/-- An operation of `ref_model.zig`; the slices belong to the log. -/
def OwnedMutation.replay : OwnedMutation → SnapshotM Unit
  | .put key value => do
    let keyCopy ← dupe (← read key)
    let valueCopy ← dupe (← read value)
    OwnedSnapshot.put keyCopy valueCopy
  | .delete key => do
    match ← find (← read key) with
    | none => return ()
    | some entry =>
      free entry.2
      free key
      remove (← read key)

open OwnedSnapshot in
/-- An operation of `ref_model_v2.zig`. -/
def Mutation.replay : Mutation → SnapshotM Unit
  | .put key value => do
    let keyCopy ← dupe key
    let valueCopy ← dupe value
    OwnedSnapshot.put keyCopy valueCopy
  | .delete key => do
    match ← find key with
    | none => return ()
    | some entry =>
      free entry.1
      remove key

/-- `replayToTxn`. -/
def replayToTxn {Op : Type} (replay : Op → SnapshotM Unit) (targetTxnId : Nat) :
    List (LogRecord Op) → SnapshotM Unit
  | [] => return ()
  | record :: records => do
    if record.txnId > targetTxnId then return ()
    else
      EStateM.forEach replay record.operations
      replayToTxn replay targetTxnId records

/-- What a replay builds, from an empty map. -/
def createSnapshotFromLog {Op : Type} (replay : Op → SnapshotM Unit) (heap : Heap)
    (records : List (LogRecord Op)) (targetTxnId : Nat) : Except MemoryFault SnapshotState :=
  match (replayToTxn replay targetTxnId records).run (.init heap) with
  | .ok _ m => .ok m.state
  | .error e _ => .error e

/-- The delete of a key that is there frees the key, and the map compares with it. -/
def Mutation.Frees (state : SnapshotState) : Mutation → Prop
  | .put _ _ => False
  | .delete key => key ≠ [] ∧ state key ≠ none

def FreesNone : SnapshotState → List Mutation → Prop
  | _, [] => True
  | state, m :: ms => ¬ m.Frees state ∧ FreesNone (Model.mutate state m) ms

theorem freesNone_append {state : SnapshotState} {ms ms' : List Mutation} :
    FreesNone state (ms ++ ms') ↔ FreesNone state ms ∧ FreesNone (ms.foldl Model.mutate state) ms' := by
  induction ms generalizing state with
  | nil => exact (true_and _).symm.to_iff
  | cons m ms ih =>
    show ¬ m.Frees state ∧ FreesNone _ (ms ++ ms') ↔ (¬ m.Frees state ∧ FreesNone _ ms) ∧ _
    rw [ih, and_assoc]
    rfl

namespace OwnedSnapshot

variable {m m' : OwnedSnapshot}

/-- The keys of the entries differ, and are in use. -/
structure Intact (m : OwnedSnapshot) : Prop where
  keys : (m.entries.map (·.1.bytes)).Nodup
  live : ∀ e ∈ m.entries, e.1.bytes = [] ∨ m.heap.Live e.1.block

theorem intact_init (heap : Heap) : (init heap).Intact := ⟨List.nodup_nil, fun _ hmem => nomatch hmem⟩

theorem Intact.alloc (h : m.Intact) : { m with heap := m.heap.alloc }.Intact := by
  refine ⟨h.keys, ?_⟩
  intro e he
  cases h.live e he with
  | inl hbytes => exact .inl hbytes
  | inr hlive => exact .inr ⟨Nat.lt_succ_of_lt hlive.1, hlive.2⟩

theorem run_read {s : Slice} (h : s.bytes = [] ∨ m.heap.Live s.block) : (read s).run m = .ok s.bytes m :=
  if_pos h

theorem state_eq_none {key : Bytes} (h : m.entries.find? (·.1.bytes = key) = none) : m.state key = none := by
  unfold state
  rw [h]
  rfl

theorem run_find (h : m.Intact) (key : Bytes) :
    (find key).run m = .ok (m.entries.find? (·.1.bytes = key)) m := by
  unfold find
  rw [run_bind_of_ok (run_get m)]
  cases hfound : m.entries.find? (·.1.bytes = key) with
  | none => rfl
  | some entry =>
    have hlive := h.live entry (List.mem_of_find?_eq_some hfound)
    show (read entry.1 >>= _).run m = _
    rw [run_bind_of_ok (run_read hlive)]
    rfl

theorem run_put (h : m.Intact) {key value : Slice} (hkey : key.bytes = [] ∨ m.heap.Live key.block) :
    ∃ m', (put key value).run m = .ok () m' ∧ m'.Intact ∧
      m'.state = Function.update m.state key.bytes (some value.bytes) := by
  unfold put
  rw [run_bind_of_ok (run_find h key.bytes)]
  cases hfound : m.entries.find? (·.1.bytes = key.bytes) with
  | none =>
    have habsent : ∀ e ∈ m.entries, e.1.bytes ≠ key.bytes := by simpa using List.find?_eq_none.mp hfound
    refine ⟨{ m with entries := m.entries ++ [(key, value)] }, rfl, ⟨?_, ?_⟩, ?_⟩
    · show ((m.entries ++ [(key, value)]).map (·.1.bytes)).Nodup
      rw [List.map_append, List.nodup_append]
      refine ⟨h.keys, List.nodup_singleton _, ?_⟩
      intro bytes hbytes other hother
      rcases List.mem_map.mp hbytes with ⟨e, he, rfl⟩
      rw [List.mem_singleton.mp hother]
      exact habsent e he
    · intro e he
      rcases List.mem_append.mp he with he | he
      · exact h.live e he
      · rw [List.mem_singleton.mp he]
        exact hkey
    · funext other
      rw [Function.update_apply]
      show ((m.entries ++ [(key, value)]).find? (·.1.bytes = other)).map (·.2.bytes) = _
      rw [List.find?_append]
      by_cases heq : other = key.bytes
      · rw [if_pos heq, heq, hfound]
        simp
      · rw [if_neg heq]
        have hother : [(key, value)].find? (fun e => decide (e.1.bytes = other)) = none := by
          simpa using Ne.symm heq
        rw [hother, Option.or_none]
        rfl
  | some entry =>
    let f : Slice × Slice → Slice × Slice := fun e => if e.1.bytes = key.bytes then (e.1, value) else e
    have hf : ∀ e, (f e).1 = e.1 := by
      intro e
      show (if e.1.bytes = key.bytes then (e.1, value) else e).1 = e.1
      split <;> rfl
    refine ⟨{ m with entries := m.entries.map f }, rfl, ⟨?_, ?_⟩, ?_⟩
    · show ((m.entries.map f).map (·.1.bytes)).Nodup
      have hmap : (m.entries.map f).map (·.1.bytes) = m.entries.map (·.1.bytes) := by
        rw [List.map_map]
        apply List.map_congr_left
        intro e _
        exact congrArg Slice.bytes (hf e)
      rw [hmap]
      exact h.keys
    · intro e he
      rcases List.mem_map.mp he with ⟨old, hold, rfl⟩
      rw [hf old]
      exact h.live old hold
    · funext other
      rw [Function.update_apply]
      show ((m.entries.map f).find? (·.1.bytes = other)).map (·.2.bytes) = _
      have hcomp : ((fun e : Slice × Slice => decide (e.1.bytes = other)) ∘ f) =
          fun e => decide (e.1.bytes = other) := by
        funext e
        show decide ((f e).1.bytes = other) = _
        rw [hf e]
      rw [List.find?_map, hcomp]
      by_cases heq : other = key.bytes
      · have hbytes : entry.1.bytes = key.bytes := by simpa using List.find?_some hfound
        rw [if_pos heq, heq, hfound]
        show some (f entry).2.bytes = _
        show some (if entry.1.bytes = key.bytes then (entry.1, value) else entry).2.bytes = _
        rw [if_pos hbytes]
      · rw [if_neg heq]
        unfold state
        cases hother : m.entries.find? (fun e => decide (e.1.bytes = other)) with
        | none => rfl
        | some e =>
          have hbytes : e.1.bytes = other := by simpa using List.find?_some hother
          show some (if e.1.bytes = key.bytes then (e.1, value) else e).2.bytes = _
          rw [if_neg (by rw [hbytes]; exact heq)]
          rfl

theorem run_remove (h : m.Intact) (key : Bytes) :
    ∃ m', (remove key).run m = .ok () m' ∧ m'.Intact ∧ m'.state = Function.update m.state key none := by
  unfold remove
  rw [run_bind_of_ok (run_find h key)]
  cases hfound : m.entries.find? (·.1.bytes = key) with
  | none =>
    refine ⟨m, rfl, h, ?_⟩
    rw [← state_eq_none hfound, Function.update_eq_self]
  | some entry =>
    have hsub : (m.entries.eraseP (·.1.bytes = key)).Sublist m.entries := List.eraseP_sublist
    refine ⟨{ m with entries := m.entries.eraseP (·.1.bytes = key) }, rfl, ⟨?_, ?_⟩, ?_⟩
    · exact h.keys.sublist (hsub.map _)
    · intro e he
      exact h.live e (hsub.subset he)
    · rcases @ReplayEngine.memtable_split ⟨m.heap, m.entries⟩ key entry hfound with
        ⟨front, back, hsplit, herase, hbytes⟩
      have hsplit : m.entries = front ++ entry :: back := hsplit
      have herase : m.entries.eraseP (·.1.bytes = key) = front ++ back := herase
      funext other
      rw [Function.update_apply]
      show ((m.entries.eraseP (·.1.bytes = key)).find? (·.1.bytes = other)).map (·.2.bytes) = _
      rw [herase]
      by_cases heq : other = key
      · rw [if_pos heq]
        have hkeys := h.keys
        rw [hsplit, List.map_append, List.map_cons] at hkeys
        have hnodup := List.nodup_middle.mp hkeys
        rw [← List.map_append] at hnodup
        have habsent : (front ++ back).find? (fun e => decide (e.1.bytes = other)) = none := by
          apply List.find?_eq_none.mpr
          intro e he hdecide
          apply (List.nodup_cons.mp hnodup).1
          rw [hbytes, ← heq, ← of_decide_eq_true hdecide]
          exact List.mem_map_of_mem he
        rw [habsent]
        rfl
      · rw [if_neg heq]
        unfold state
        rw [hsplit, List.find?_append, List.find?_append,
          List.find?_cons_of_neg (by rw [hbytes]; simpa using Ne.symm heq)]

/-- An operation that frees nothing does what it says; one that frees a key reads it afterwards. -/
theorem run_replay (h : m.Intact) (op : Mutation) :
    (¬ op.Frees m.state → ∃ m', op.replay.run m = .ok () m' ∧ m'.Intact ∧
      m'.state = Model.mutate m.state op) ∧
    (op.Frees m.state → ∃ e m', op.replay.run m = .error e m') := by
  cases op with
  | put key value =>
    refine ⟨fun _ => ?_, fun hfrees => hfrees.elim⟩
    have hkey : (⟨key, m.heap.next⟩ : Slice).bytes = [] ∨ m.heap.alloc.alloc.Live m.heap.next := by
      refine .inr ⟨Nat.lt_succ_of_lt (Nat.lt_succ_self _), ?_⟩
      exact fun hfreed => Nat.lt_irrefl _ (m.heap.below _ hfreed)
    exact run_put (h.alloc.alloc) hkey
  | delete key =>
    have hrun : (Mutation.replay (.delete key)).run m =
        (match m.entries.find? (fun e : Slice × Slice => decide (e.1.bytes = key)) with
          | none => (return () : SnapshotM Unit)
          | some entry => free entry.1 >>= fun _ => remove key).run m := by
      show (find key >>= _).run m = _
      rw [run_bind_of_ok (run_find h key)]
    rw [hrun]
    cases hfound : m.entries.find? (·.1.bytes = key) with
    | none =>
      have hnone := state_eq_none hfound
      constructor
      · intro _
        refine ⟨m, rfl, h, ?_⟩
        show m.state = Function.update m.state key none
        rw [← hnone, Function.update_eq_self]
      · exact fun hfrees => absurd hnone hfrees.2
    | some entry =>
      have hbytes : entry.1.bytes = key := by simpa using List.find?_some hfound
      constructor
      · intro hfrees
        have hempty : key = [] := by
          by_contra hne
          apply hfrees
          refine ⟨hne, ?_⟩
          unfold state
          rw [hfound]
          exact Option.some_ne_none _
        have hfree : (free entry.1).run m = .ok () m := if_pos (hbytes.trans hempty)
        show ∃ m', (free entry.1 >>= fun _ => remove key).run m = .ok () m' ∧ _
        rw [run_bind_of_ok hfree]
        exact run_remove h key
      · intro hfrees
        have hne : entry.1.bytes ≠ [] := by
          rw [hbytes]
          exact hfrees.1
        show ∃ e m', (free entry.1 >>= fun _ => remove key).run m = .error e m'
        have hlive := (h.live entry (List.mem_of_find?_eq_some hfound)).resolve_left hne
        cases hheap : m.heap.free entry.1.block with
        | none =>
          have hfree : (free entry.1).run m = .error .invalidFree m := by
            show (if entry.1.bytes = [] then _ else _) = _
            rw [if_neg hne, hheap]
          exact ⟨_, _, run_bind_of_error hfree⟩
        | some heap =>
          have hfree : (free entry.1).run m = .ok () { m with heap } := by
            show (if entry.1.bytes = [] then _ else _) = _
            rw [if_neg hne, hheap]
          -- the key of the entry is compared after it is freed
          have hdead : ¬ (entry.1.bytes = [] ∨ heap.Live entry.1.block) := by
            rintro (hnil | halive)
            · exact hne hnil
            · apply halive.2
              rw [(Heap.mem_freed_of_free hheap).1]
              exact List.mem_cons_self ..
          refine ⟨.useAfterFree, { m with heap }, ?_⟩
          rw [run_bind_of_ok hfree]
          have hread : (read entry.1).run { m with heap } = .error .useAfterFree { m with heap } :=
            if_neg hdead
          have hfind : (find key).run { m with heap } = .error .useAfterFree { m with heap } := by
            unfold find
            rw [run_bind_of_ok (run_get _)]
            show (match m.entries.find? (fun e : Slice × Slice => decide (e.1.bytes = key)) with
              | some entry => _
              | none => _ : SnapshotM (Option (Slice × Slice))).run _ = _
            rw [hfound]
            exact run_bind_of_error hread
          unfold remove
          exact run_bind_of_error hfind

theorem run_replay_forEach (h : m.Intact) (ops : List Mutation) :
    (FreesNone m.state ops → ∃ m', (EStateM.forEach Mutation.replay ops).run m = .ok () m' ∧ m'.Intact ∧
      m'.state = ops.foldl Model.mutate m.state) ∧
    (¬ FreesNone m.state ops → ∃ e m', (EStateM.forEach Mutation.replay ops).run m = .error e m') := by
  induction ops generalizing m with
  | nil => exact ⟨fun _ => ⟨m, rfl, h, rfl⟩, fun hnot => absurd trivial hnot⟩
  | cons op ops ih =>
    have hop := run_replay h op
    by_cases hfrees : op.Frees m.state
    · rcases hop.2 hfrees with ⟨e, m', hrun⟩
      constructor
      · exact fun hnone => absurd hfrees hnone.1
      · exact fun _ => ⟨e, m', run_bind_of_error hrun⟩
    · rcases hop.1 hfrees with ⟨m', hrun, hintact, hstate⟩
      have hrest := ih hintact
      rw [hstate] at hrest
      rw [show (EStateM.forEach Mutation.replay (op :: ops)).run m =
        (EStateM.forEach Mutation.replay ops).run m' from run_bind_of_ok hrun]
      constructor
      · exact fun hnone => hrest.1 hnone.2
      · exact fun hnot => hrest.2 fun hnone => hnot ⟨hfrees, hnone⟩

end OwnedSnapshot

end Northstar.Zig
