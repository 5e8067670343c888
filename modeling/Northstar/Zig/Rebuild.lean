import Mathlib.Data.List.Flatten
import Northstar.Zig.ReplayEngine
import Northstar.Zig.Reference

/-!
# Rebuild — what a rebuild frees, and what it builds

A rebuild applies the commit records in front, up to the target, and each is a left fold over the map.  The
key of a delete is freed when the delete is applied, and again with the record; only a delete of the empty
key survives it.
-/

namespace Northstar.Zig

open Bytes EStateM

def Slice.blocks (s : Slice) : List Nat := if s.bytes = [] then [] else [s.block]

namespace OwnedMutation

def slices : OwnedMutation → List Slice
  | .put key value => [key, value]
  | .delete key => [key]

/-- What applying the mutation leaves of its slices. -/
def kept : OwnedMutation → List Slice
  | .put key value => [key, value]
  | .delete _ => []

def mutation : OwnedMutation → Mutation
  | .put key value => .put key.bytes value.bytes
  | .delete key => .delete key.bytes

end OwnedMutation

/-- Not a delete of a key with bytes. -/
def Mutation.Harmless : Mutation → Prop
  | .put _ _ => True
  | .delete key => key = []

instance : DecidablePred Mutation.Harmless
  | .put _ _ => .isTrue trivial
  | .delete _ => inferInstanceAs (Decidable (_ = _))

/-- No mutation deletes a key with bytes. -/
def CommitRecord.Harmless (r : CommitRecord) : Prop := ∀ m ∈ r.mutations, m.Harmless

instance (r : CommitRecord) : Decidable r.Harmless := inferInstanceAs (Decidable (∀ m ∈ _, _))

/-- The slices are in use, each block once. -/
def Holds (h : Heap) (slices : List Slice) : Prop := h.Owns (slices.flatMap Slice.blocks)

variable {s : Slice}

section Holds

variable {h : Heap} {slices slices' : List Slice}

theorem Holds.perm (hholds : Holds h slices) (hperm : slices.Perm slices') : Holds h slices' :=
  Heap.Owns.perm hholds (hperm.flatMap_right Slice.blocks)

theorem Holds.sublist (hholds : Holds h slices) (hsub : slices'.Sublist slices) : Holds h slices' :=
  Heap.Owns.sublist hholds (hsub.flatMap Slice.blocks)

theorem Holds.cons_nil (hholds : Holds h slices) (hbytes : s.bytes = []) :
    Holds h (s :: slices) := by
  unfold Holds
  rw [List.flatMap_cons, Slice.blocks, if_pos hbytes]
  exact hholds

theorem Holds.alloc (hholds : Holds h slices) (bytes : Bytes) :
    Holds h.alloc (⟨bytes, h.next⟩ :: slices) := by
  have hall : h.alloc.Owns (h.next :: slices.flatMap Slice.blocks) := Heap.Owns.alloc hholds
  unfold Holds
  rw [List.flatMap_cons, Slice.blocks]
  split
  · exact hall.sublist (List.sublist_cons_self ..)
  · exact hall

theorem Holds.free (hholds : Holds h (s :: slices)) (hbytes : s.bytes ≠ []) :
    ∃ h', h.free s.block = some h' ∧ Holds h' slices := by
  unfold Holds at hholds
  rw [List.flatMap_cons, Slice.blocks, if_neg hbytes] at hholds
  exact Heap.Owns.free hholds

end Holds

namespace ReplayEngine

variable {e e' : ReplayEngine} {extra extra' : List Slice}

def slices (e : ReplayEngine) : List Slice := e.memtable.flatMap fun entry => [entry.1, entry.2]

/-- The map that `get` reads. -/
def state (e : ReplayEngine) : SnapshotState := e.get

/-- The entries and the slices beside them are in use, and the keys differ. -/
structure Keeps (e : ReplayEngine) (extra : List Slice) : Prop where
  holds : Holds e.heap (e.slices ++ extra)
  keys : (e.memtable.map (·.1.bytes)).Nodup

theorem keeps_init : Keeps init [] := ⟨Heap.owns_nil _, List.nodup_nil⟩

theorem Keeps.perm (h : Keeps e extra) (hperm : extra.Perm extra') : Keeps e extra' :=
  ⟨h.holds.perm (hperm.append_left e.slices), h.keys⟩

theorem Keeps.cons_nil (h : Keeps e extra) (hbytes : s.bytes = []) : Keeps e (s :: extra) :=
  ⟨(h.holds.cons_nil hbytes).perm List.perm_middle.symm, h.keys⟩

theorem Keeps.dupe (h : Keeps e extra) (bytes : Bytes) :
    Keeps { e with heap := e.heap.alloc } (⟨bytes, e.heap.next⟩ :: extra) :=
  ⟨(h.holds.alloc bytes).perm List.perm_middle.symm, h.keys⟩

theorem run_dupe (bytes : Bytes) (e : ReplayEngine) :
    (dupe bytes).run e = .ok ⟨bytes, e.heap.next⟩ { e with heap := e.heap.alloc } := rfl

theorem run_free_nil (hbytes : s.bytes = []) (e : ReplayEngine) : (free s).run e = .ok () e := by
  show (if s.bytes = [] then _ else _) = _
  rw [if_pos hbytes]

theorem run_free_eq (hbytes : s.bytes ≠ []) (e : ReplayEngine) :
    (free s).run e = match e.heap.free s.block with
      | some heap => .ok () { e with heap }
      | none => .error .invalidFree e :=
  if_neg hbytes

theorem run_free {rest : List Slice} (h : Holds e.heap (s :: rest)) :
    ∃ heap, (free s).run e = .ok () { e with heap } ∧ Holds heap rest ∧
      e.heap.freed ⊆ heap.freed ∧ (s.bytes ≠ [] → s.block ∈ heap.freed) := by
  by_cases hbytes : s.bytes = []
  · refine ⟨e.heap, run_free_nil hbytes e, h.sublist (List.sublist_cons_self ..), fun _ hmem => hmem, ?_⟩
    exact fun hno => absurd hbytes hno
  · rcases h.free hbytes with ⟨heap, hfree, hrest⟩
    have hfreed := (Heap.mem_freed_of_free hfree).1
    refine ⟨heap, ?_, hrest, ?_, ?_⟩
    · rw [run_free_eq hbytes, hfree]
    · rw [hfreed]
      exact List.subset_cons_self ..
    · intro _
      rw [hfreed]
      exact List.mem_cons_self ..

theorem run_free_dead (hbytes : s.bytes ≠ []) (hdead : s.block ∈ e.heap.freed) :
    (free s).run e = .error .invalidFree e := by
  rw [run_free_eq hbytes, Heap.free_eq_none fun hlive => hlive.2 hdead]

theorem Keeps.run_free (h : Keeps e (s :: extra)) :
    ∃ heap, (free s).run e = .ok () { e with heap } ∧ Keeps { e with heap } extra ∧
      e.heap.freed ⊆ heap.freed ∧ (s.bytes ≠ [] → s.block ∈ heap.freed) := by
  have hholds : Holds e.heap (s :: (e.slices ++ extra)) := h.holds.perm List.perm_middle
  rcases ReplayEngine.run_free hholds with ⟨heap, hfree, hrest, hfreed, hblock⟩
  exact ⟨heap, hfree, ⟨hrest, h.keys⟩, hfreed, hblock⟩

theorem state_cons (entry : Slice × Slice) (memtable : List (Slice × Slice)) (heap : Heap) :
    state ⟨heap, entry :: memtable⟩ =
      Function.update (state ⟨heap, memtable⟩) entry.1.bytes (some entry.2.bytes) := by
  funext key
  unfold state get
  rw [Function.update_apply]
  dsimp only
  by_cases hkey : entry.1.bytes = key
  · rw [List.find?_cons_of_pos (by simpa using hkey), if_pos hkey.symm]
    rfl
  · rw [List.find?_cons_of_neg (by simpa using hkey), if_neg (Ne.symm hkey)]

theorem state_congr (h : e'.memtable = e.memtable) : e'.state = e.state := by
  funext key
  unfold state get
  rw [h]

theorem state_eq_none {key : Bytes} (h : ∀ entry ∈ e.memtable, entry.1.bytes ≠ key) :
    e.state key = none := by
  unfold state get
  rw [List.find?_eq_none.mpr (by simpa using h)]
  rfl

theorem memtable_split {key : Bytes} {entry : Slice × Slice}
    (hfound : e.memtable.find? (·.1.bytes = key) = some entry) :
    ∃ front back, e.memtable = front ++ entry :: back ∧
      e.memtable.eraseP (·.1.bytes = key) = front ++ back ∧ entry.1.bytes = key := by
  rcases List.find?_eq_some_iff_append.mp hfound with ⟨hkey, front, back, hsplit, hfront⟩
  have hkey : entry.1.bytes = key := by simpa using hkey
  have hfront : ∀ other ∈ front, other.1.bytes ≠ key := by simpa using hfront
  refine ⟨front, back, hsplit, ?_, hkey⟩
  rw [hsplit, List.eraseP_append_right _ (by simpa using hfront),
    List.eraseP_cons_of_pos (by simpa using hkey)]

theorem Keeps.run_removeEntry (h : Keeps e extra) (key : Bytes) :
    ∃ e', (removeEntry key).run e = .ok () e' ∧ Keeps e' extra ∧ e.heap.freed ⊆ e'.heap.freed ∧
      e'.state = Function.update e.state key none ∧ ∀ entry ∈ e'.memtable, entry.1.bytes ≠ key := by
  unfold removeEntry
  rw [run_bind_of_ok (run_get e)]
  cases hfound : e.memtable.find? (·.1.bytes = key) with
  | none =>
    have habsent : ∀ entry ∈ e.memtable, entry.1.bytes ≠ key := by
      simpa using List.find?_eq_none.mp hfound
    refine ⟨e, rfl, h, fun _ hmem => hmem, ?_, habsent⟩
    rw [← state_eq_none habsent, Function.update_eq_self]
  | some entry =>
    rcases memtable_split hfound with ⟨front, back, hsplit, herase, hkey⟩
    have hkeys := h.keys
    rw [hsplit, List.map_append, List.map_cons] at hkeys
    have hnodup := List.nodup_middle.mp hkeys
    rw [← List.map_append] at hnodup
    have habsent : ∀ other ∈ front ++ back, other.1.bytes ≠ key := by
      intro other hother heq
      apply (List.nodup_cons.mp hnodup).1
      rw [hkey, ← heq]
      exact List.mem_map_of_mem hother
    -- the two slices of the entry are beside the entries that stay
    have hremoved : Keeps { e with memtable := front ++ back } (entry.1 :: entry.2 :: extra) := by
      refine ⟨h.holds.perm ?_, (List.nodup_cons.mp hnodup).2⟩
      unfold slices
      rw [hsplit, List.flatMap_append, List.flatMap_cons, List.flatMap_append, List.append_assoc,
        List.append_assoc, List.append_assoc]
      apply List.Perm.append_left
      show (entry.1 :: entry.2 :: (_ ++ extra)).Perm (_ ++ entry.1 :: entry.2 :: extra)
      exact ((List.Perm.cons _ List.perm_middle.symm).trans List.perm_middle.symm)
    rcases hremoved.run_free with ⟨heap, hfree, hfirst, hfreed, -⟩
    rcases hfirst.run_free with ⟨heap', hfree', hsecond, hfreed', -⟩
    refine ⟨_, ?_, hsecond, fun _ hmem => hfreed' (hfreed hmem), ?_, habsent⟩
    · dsimp only
      rw [herase, run_bind_of_ok (run_set _ _), run_bind_of_ok hfree, hfree']
    · funext other
      rw [Function.update_apply]
      split
      next heq =>
        subst heq
        exact state_eq_none habsent
      next hne =>
        unfold state get
        dsimp only
        rw [hsplit, List.find?_append, List.find?_append,
          List.find?_cons_of_neg (by rw [hkey]; simpa using Ne.symm hne)]

theorem Keeps.run_applyMutation {m : OwnedMutation} (h : Keeps e (m.slices ++ extra)) :
    ∃ e', (applyMutation m).run e = .ok () e' ∧ Keeps e' (m.kept ++ extra) ∧
      e.heap.freed ⊆ e'.heap.freed ∧ e'.state = Model.mutate e.state m.mutation ∧
      (∀ key, m = .delete key → key.bytes ≠ [] → key.block ∈ e'.heap.freed) := by
  cases m with
  | put key value =>
    rcases h.run_removeEntry key.bytes with ⟨e₁, hrun, hkeeps, hfreed, hstate, habsent⟩
    have hcopies := (hkeeps.dupe key.bytes).dupe value.bytes
    refine ⟨⟨e₁.heap.alloc.alloc,
      (⟨key.bytes, e₁.heap.next⟩, ⟨value.bytes, e₁.heap.alloc.next⟩) :: e₁.memtable⟩, ?_, ?_, hfreed,
      ?_, fun _ hno => nomatch hno⟩
    · unfold applyMutation
      rw [run_bind_of_ok hrun, run_bind_of_ok (run_dupe _ _),
        run_bind_of_ok (run_dupe _ _)]
      rfl
    · refine ⟨hcopies.holds.perm ?_, List.nodup_cons.mpr ⟨?_, hkeeps.keys⟩⟩
      · show (e₁.slices ++ _ :: _ :: _).Perm (_ :: _ :: (e₁.slices ++ _))
        exact List.perm_middle.trans ((List.Perm.cons _ List.perm_middle).trans (List.Perm.swap ..))
      · intro hmem
        rcases List.mem_map.mp hmem with ⟨entry, hentry, hkey⟩
        exact habsent entry hentry hkey
    · rw [state_cons]
      show Function.update e₁.state _ _ = Function.update e.state _ _
      rw [hstate, Function.update_idem]
  | delete key =>
    rcases h.run_removeEntry key.bytes with ⟨e₁, hrun, hkeeps, hfreed, hstate, -⟩
    have hkeeps : Keeps e₁ (key :: extra) := hkeeps
    rcases hkeeps.run_free with ⟨heap, hfree, hrest, hfreed', hblock⟩
    refine ⟨{ e₁ with heap }, ?_, hrest, fun _ hmem => hfreed' (hfreed hmem), hstate, ?_⟩
    · unfold applyMutation
      rw [run_bind_of_ok hrun, hfree]
    · intro key' hkey'
      cases hkey'
      exact hblock

variable {ms : List OwnedMutation}

theorem Keeps.run_applyMutations (h : Keeps e (ms.flatMap OwnedMutation.slices)) :
    ∃ e', (EStateM.forEach applyMutation ms).run e = .ok () e' ∧
      Keeps e' (ms.flatMap OwnedMutation.kept) ∧ e.heap.freed ⊆ e'.heap.freed ∧
      e'.state = (ms.map OwnedMutation.mutation).foldl Model.mutate e.state ∧
      (∀ key, .delete key ∈ ms → key.bytes ≠ [] → key.block ∈ e'.heap.freed) := by
  suffices hloop : ∀ kept, Keeps e (ms.flatMap OwnedMutation.slices ++ kept) →
      ∃ e', (EStateM.forEach applyMutation ms).run e = .ok () e' ∧
        Keeps e' (ms.flatMap OwnedMutation.kept ++ kept) ∧ e.heap.freed ⊆ e'.heap.freed ∧
        e'.state = (ms.map OwnedMutation.mutation).foldl Model.mutate e.state ∧
        (∀ key, .delete key ∈ ms → key.bytes ≠ [] → key.block ∈ e'.heap.freed) by
    have hall := hloop [] (by rwa [List.append_nil])
    rwa [List.append_nil] at hall
  clear h
  induction ms generalizing e with
  | nil =>
    intro kept h
    exact ⟨e, rfl, h, fun _ hmem => hmem, rfl, fun _ hmem => absurd hmem List.not_mem_nil⟩
  | cons m ms ih =>
    intro kept h
    rw [List.flatMap_cons, List.append_assoc] at h
    rcases h.run_applyMutation with ⟨e₁, hrun, hkeeps, hfreed, hstate, hdead⟩
    have hkeeps : Keeps e₁ (ms.flatMap OwnedMutation.slices ++ (m.kept ++ kept)) :=
      hkeeps.perm (List.perm_append_comm_assoc ..)
    rcases ih _ hkeeps with ⟨e₂, hrun₂, hkeeps₂, hfreed₂, hstate₂, hdead₂⟩
    refine ⟨e₂, ?_, ?_, fun _ hmem => hfreed₂ (hfreed hmem), ?_, ?_⟩
    · rw [EStateM.forEach, run_bind_of_ok hrun, hrun₂]
    · rw [List.flatMap_cons, List.append_assoc]
      exact hkeeps₂.perm (List.perm_append_comm_assoc ..)
    · rw [hstate₂, hstate]
      rfl
    · intro key hmem hbytes
      rcases List.mem_cons.mp hmem with heq | hmem
      · exact hfreed₂ (hdead key heq.symm hbytes)
      · exact hdead₂ key hmem hbytes

theorem Keeps.run_cleanup (h : Keeps e (ms.flatMap OwnedMutation.slices)) :
    ∃ e', (EStateM.forEach freeMutation ms).run e = .ok () e' ∧ Keeps e' [] ∧
      e'.memtable = e.memtable := by
  induction ms generalizing e with
  | nil => exact ⟨e, rfl, h, rfl⟩
  | cons m ms ih =>
    cases m with
    | put key value =>
      have h : Keeps e (key :: value :: ms.flatMap OwnedMutation.slices) := h
      rcases h.run_free with ⟨heap, hfree, hkeeps, -, -⟩
      rcases hkeeps.run_free with ⟨heap', hfree', hkeeps', -, -⟩
      rcases ih hkeeps' with ⟨e', hrun, hrest, hmemtable⟩
      refine ⟨e', ?_, hrest, hmemtable⟩
      rw [EStateM.forEach, freeMutation, run_bind_of_ok (by
        rw [run_bind_of_ok hfree, hfree']), hrun]
    | delete key =>
      have h : Keeps e (key :: ms.flatMap OwnedMutation.slices) := h
      rcases h.run_free with ⟨heap, hfree, hkeeps, -, -⟩
      rcases ih hkeeps with ⟨e', hrun, hrest, hmemtable⟩
      refine ⟨e', ?_, hrest, hmemtable⟩
      rw [EStateM.forEach, freeMutation, run_bind_of_ok hfree, hrun]

theorem ends_free (s : Slice) (e : ReplayEngine) :
    EStateM.Ends (free s) e (fun _ e' => e.heap.freed ⊆ e'.heap.freed) (fun err _ => err = .invalidFree) := by
  by_cases hbytes : s.bytes = []
  · exact EStateM.ends_of_ok (run_free_nil hbytes e) fun _ hmem => hmem
  · have hrun := run_free_eq hbytes e
    cases hfree : e.heap.free s.block with
    | none =>
      rw [hfree] at hrun
      exact EStateM.ends_of_error hrun rfl
    | some heap =>
      rw [hfree] at hrun
      apply EStateM.ends_of_ok hrun
      show e.heap.freed ⊆ heap.freed
      rw [(Heap.mem_freed_of_free hfree).1]
      exact List.subset_cons_self ..

theorem cleanup_invalidFree {key : Slice} (hmem : .delete key ∈ ms)
    (hbytes : key.bytes ≠ []) (hdead : key.block ∈ e.heap.freed) :
    ∃ e', (EStateM.forEach freeMutation ms).run e = .error .invalidFree e' := by
  induction ms generalizing e with
  | nil => exact absurd hmem List.not_mem_nil
  | cons m ms ih =>
    have hone : EStateM.Ends (freeMutation m) e (fun _ e' => e.heap.freed ⊆ e'.heap.freed)
        (fun err _ => err = .invalidFree) := by
      cases m with
      | put key value =>
        apply (ends_free key e).bind
        intro _ e₁ _ hfreed
        exact (ends_free value e₁).mono (fun _ _ hfreed' _ hin => hfreed' (hfreed hin)) (fun _ _ herr => herr)
      | delete key => exact ends_free key e
    cases hrun : (freeMutation m).run e with
    | error err e₁ =>
      refine ⟨e₁, ?_⟩
      rw [EStateM.forEach, run_bind_of_error hrun, hone.of_run_error hrun]
    | ok _ e₁ =>
      rw [EStateM.forEach, run_bind_of_ok hrun]
      rcases List.mem_cons.mp hmem with heq | hmem
      · rw [← heq, freeMutation, run_free_dead hbytes hdead] at hrun
        cases hrun
      · exact ih hmem (hone.of_run_ok hrun hdead)

theorem Keeps.run_dupeMutations (ms : List Mutation) (h : Keeps e []) :
    ∃ owned heap, (dupeMutations ms).run e = .ok owned { e with heap } ∧
      Keeps { e with heap } (owned.flatMap OwnedMutation.slices) ∧ owned.map OwnedMutation.mutation = ms := by
  suffices hloop : ∀ extra, Keeps e extra → ∃ owned heap,
      (dupeMutations ms).run e = .ok owned { e with heap } ∧
        Keeps { e with heap } (owned.flatMap OwnedMutation.slices ++ extra) ∧
          owned.map OwnedMutation.mutation = ms by
    have hall := hloop [] h
    simpa only [List.append_nil] using hall
  clear h
  induction ms generalizing e with
  | nil => exact fun extra h => ⟨[], e.heap, rfl, h, rfl⟩
  | cons m ms ih =>
    intro extra h
    cases m with
    | put key value =>
      rcases ih _ ((h.dupe key).dupe value) with ⟨owned, heap, hrun, hkeeps, hmutations⟩
      refine ⟨.put ⟨key, e.heap.next⟩ ⟨value, e.heap.alloc.next⟩ :: owned, heap, ?_, hkeeps.perm ?_, ?_⟩
      · rw [dupeMutations, dupeMutation]
        simp only [bind_assoc]
        rw [run_bind_of_ok (run_dupe _ _), run_bind_of_ok (run_dupe _ _), pure_bind,
          run_bind_of_ok hrun]
        rfl
      · show (_ ++ _ :: _ :: extra).Perm (_ :: _ :: (_ ++ extra))
        exact List.perm_middle.trans ((List.Perm.cons _ List.perm_middle).trans (List.Perm.swap ..))
      · rw [List.map_cons, hmutations]
        rfl
    | delete key =>
      rcases ih _ (h.dupe key) with ⟨owned, heap, hrun, hkeeps, hmutations⟩
      refine ⟨.delete ⟨key, e.heap.next⟩ :: owned, heap, ?_, hkeeps.perm List.perm_middle, ?_⟩
      · rw [dupeMutations, dupeMutation]
        simp only [bind_assoc]
        rw [run_bind_of_ok (run_dupe _ _), pure_bind, run_bind_of_ok hrun]
        rfl
      · rw [List.map_cons, hmutations]
        rfl

theorem kept_of_harmless (h : ∀ m ∈ ms, m.mutation.Harmless)
    (hkeeps : Keeps e (ms.flatMap OwnedMutation.kept)) : Keeps e (ms.flatMap OwnedMutation.slices) := by
  suffices hloop : ∀ extra, Keeps e (ms.flatMap OwnedMutation.kept ++ extra) →
      Keeps e (ms.flatMap OwnedMutation.slices ++ extra) by
    have hall := hloop []
    rw [List.append_nil, List.append_nil] at hall
    exact hall hkeeps
  clear hkeeps
  induction ms with
  | nil => exact fun extra hkeeps => hkeeps
  | cons m ms ih =>
    intro extra hkeeps
    have hrest : ∀ m ∈ ms, m.mutation.Harmless := fun m' hmem => h m' (List.mem_cons_of_mem _ hmem)
    have hm : m.mutation.Harmless := h m (List.mem_cons_self ..)
    cases m with
    | put key value =>
      have hmoved : Keeps e (ms.flatMap OwnedMutation.kept ++ (key :: value :: extra)) :=
        hkeeps.perm (List.perm_append_comm_assoc [key, value] _ extra)
      exact (ih hrest _ hmoved).perm (List.perm_append_comm_assoc _ [key, value] extra)
    | delete key => exact (ih hrest extra hkeeps).cons_nil hm

theorem Keeps.run_turn {file payload : Bytes} {pos nextPos : Nat} {record : CommitRecord} (h : Keeps e [])
    (hpos : pos < file.length) (hread : readPayload file pos = (some payload, nextPos))
    (hrecord : CommitRecord.deserialize payload = .ok record) (target : UInt64) (fuel : Nat)
    (result : Result) :
    (record.txnId > target → ∃ e', (rebuildLoop file target (fuel + 1) pos result).run e = .ok result e' ∧
      Keeps e' [] ∧ e'.state = e.state) ∧
    (¬ record.txnId > target → record.Harmless → ∃ e' keyCount,
      (rebuildLoop file target (fuel + 1) pos result).run e =
        (rebuildLoop file target fuel nextPos ⟨result.processedTxns + 1, record.txnId, keyCount⟩).run e' ∧
      Keeps e' [] ∧ e'.state = record.mutations.foldl Model.mutate e.state) ∧
    (¬ record.txnId > target → ¬ record.Harmless →
      ∃ e', (rebuildLoop file target (fuel + 1) pos result).run e = .error .invalidFree e') := by
  rcases h.run_dupeMutations record.mutations with ⟨owned, heap, hdupe, hkeeps, hmutations⟩
  have hone : (readCommitRecordFromFile file pos).run e =
      .ok (some ⟨record.txnId, owned⟩, nextPos) { e with heap } := by
    unfold readCommitRecordFromFile
    rw [hread]
    dsimp only
    rw [hrecord, liftLog, run_bind_of_ok (run_lift_ok _ _), run_bind_of_ok hdupe]
    rfl
  rw [rebuildLoop, if_pos hpos, run_bind_of_ok hone]
  dsimp only [cleanupCommitRecord, applyCommitRecord]
  constructor
  · intro hbehind
    rcases hkeeps.run_cleanup with ⟨e₁, hcleanup, hrest, hmemtable⟩
    refine ⟨e₁, ?_, hrest, ?_⟩
    · rw [if_pos hbehind, run_bind_of_ok hcleanup]
      rfl
    · exact state_congr hmemtable
  · rcases hkeeps.run_applyMutations with ⟨e₁, happly, hkept, -, hstate, hdead⟩
    rw [hmutations] at hstate
    constructor
    · intro hbefore hharmless
      have hslices : Keeps e₁ (owned.flatMap OwnedMutation.slices) := by
        apply kept_of_harmless _ hkept
        intro m hmem
        apply hharmless
        rw [← hmutations]
        exact List.mem_map_of_mem hmem
      rcases hslices.run_cleanup with ⟨e₂, hcleanup, hrest, hmemtable⟩
      refine ⟨e₂, e₁.memtable.length, ?_, hrest, ?_⟩
      · rw [if_neg hbefore, run_bind_of_ok happly, run_bind_of_ok (run_get _),
          run_bind_of_ok hcleanup]
      · exact (state_congr hmemtable).trans hstate
    · intro hbefore hharmful
      have hdelete : ∃ key, .delete key ∈ owned ∧ key.bytes ≠ [] := by
        by_contra hno
        apply hharmful
        intro m hmem
        rw [← hmutations] at hmem
        rcases List.mem_map.mp hmem with ⟨m', hmem', rfl⟩
        cases m' with
        | put key value => trivial
        | delete key => exact not_not.mp fun hbytes => hno ⟨key, hmem', hbytes⟩
      rcases hdelete with ⟨key, hmem, hbytes⟩
      rcases cleanup_invalidFree hmem hbytes (hdead key hmem hbytes) with ⟨e₂, hcleanup⟩
      refine ⟨e₂, ?_⟩
      rw [if_neg hbefore, run_bind_of_ok happly, run_bind_of_ok (run_get _),
        run_bind_of_error hcleanup]

theorem Keeps.run_clearState (h : Keeps e []) : ∃ heap, clearState.run e = .ok () ⟨heap, []⟩ := by
  suffices hloop : ∀ entries : List (Slice × Slice), ∀ e : ReplayEngine,
      Holds e.heap (entries.flatMap fun entry => [entry.1, entry.2]) →
        ∃ heap, (EStateM.forEach (fun entry : Slice × Slice => free entry.2) entries).run e =
          .ok () { e with heap } by
    have hholds := h.holds
    rw [List.append_nil] at hholds
    rcases hloop e.memtable e hholds with ⟨heap, hrun⟩
    refine ⟨heap, ?_⟩
    unfold clearState
    rw [run_bind_of_ok (run_get e), run_bind_of_ok hrun]
    rfl
  intro entries
  induction entries with
  | nil => exact fun e _ => ⟨e.heap, rfl⟩
  | cons entry entries ih =>
    intro e hholds
    have hvalue : Holds e.heap (entry.2 :: entries.flatMap fun entry => [entry.1, entry.2]) :=
      hholds.sublist (List.sublist_cons_self ..)
    rcases ReplayEngine.run_free hvalue with ⟨heap, hfree, hrest, -, -⟩
    rcases ih { e with heap } hrest with ⟨heap', hrun⟩
    refine ⟨heap', ?_⟩
    rw [EStateM.forEach, run_bind_of_ok hfree, hrun]

theorem keeps_cleared (heap : Heap) : Keeps ⟨heap, []⟩ [] := ⟨Heap.owns_nil _, List.nodup_nil⟩

theorem Keeps.ends_rebuildLoop (h : Keeps e []) (file : Bytes) (target : UInt64) (fuel pos : Nat)
    (result : Result) :
    EStateM.Ends (rebuildLoop file target fuel pos result) e (fun _ e' => Keeps e' [])
      (fun err e' => err ≠ .invalidFree → Keeps e' []) := by
  induction fuel generalizing e pos result with
  | zero => exact EStateM.ends_of_ok rfl h
  | succ fuel ih =>
    by_cases hpos : pos < file.length
    · rcases hread : readPayload file pos with ⟨payload, nextPos⟩
      cases payload with
      | none =>
        have hrun : (rebuildLoop file target (fuel + 1) pos result).run e = .ok result e := by
          unfold rebuildLoop readCommitRecordFromFile
          rw [if_pos hpos, hread]
          rfl
        exact EStateM.ends_of_ok hrun h
      | some payload =>
        cases hrecord : CommitRecord.deserialize payload with
        | error err =>
          have hrun : (rebuildLoop file target (fuel + 1) pos result).run e = .error (.log err) e := by
            unfold rebuildLoop readCommitRecordFromFile
            rw [if_pos hpos, hread]
            dsimp only
            rw [hrecord]
            rfl
          exact EStateM.ends_of_error hrun fun _ => h
        | ok record =>
          rcases h.run_turn hpos hread hrecord target fuel result with ⟨hbehind, happly, hfail⟩
          by_cases htarget : record.txnId > target
          · rcases hbehind htarget with ⟨e', hrun, hrest, -⟩
            exact EStateM.ends_of_ok hrun hrest
          · by_cases hharmless : record.Harmless
            · rcases happly htarget hharmless with ⟨e', keyCount, hrun, hrest, -⟩
              unfold EStateM.Ends
              rw [hrun]
              exact ih hrest _ _
            · rcases hfail htarget hharmless with ⟨e', hrun⟩
              exact EStateM.ends_of_error hrun fun hno => absurd rfl hno
    · have hrun : (rebuildLoop file target (fuel + 1) pos result).run e = .ok result e := by
        rw [rebuildLoop, if_neg hpos]
        rfl
      exact EStateM.ends_of_ok hrun h

theorem Keeps.runCalls {calls : List (Option Bytes × UInt64)} (h : Keeps e [])
    (hrun : runCalls e calls = some e') : Keeps e' [] := by
  induction calls generalizing e with
  | nil =>
    cases hrun
    exact h
  | cons call calls ih =>
    rcases call with ⟨file, target⟩
    have hends : EStateM.Ends (rebuildToTxnId file target) e (fun _ e' => Keeps e' [])
        (fun err e' => err ≠ .invalidFree → Keeps e' []) := by
      rcases h.run_clearState with ⟨heap, hclear⟩
      unfold EStateM.Ends rebuildToTxnId
      rw [run_bind_of_ok hclear]
      cases file with
      | none => exact keeps_cleared heap
      | some file => exact (keeps_cleared heap).ends_rebuildLoop file target _ _ _
    rw [ReplayEngine.runCalls] at hrun
    cases hone : (rebuildToTxnId file target).run e with
    | ok result e₁ =>
      rw [hone] at hrun
      exact ih (hends.of_run_ok hone) hrun
    | error err e₁ =>
      rw [hone] at hrun
      cases err with
      | log err => exact ih (hends.of_run_error hone fun hno => nomatch hno) hrun
      | invalidFree => cases hrun

end ReplayEngine

end Northstar.Zig
