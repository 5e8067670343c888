import Northstar.Zig.Frames

/-!
# Replay — what comes back from the log

`replayFrom` takes 1000 turns at most, and stops with an error at the first record from `start_lsn` on
that its reader does not take.  Otherwise it gives back what was appended.
-/

namespace Northstar.Zig

open Bytes
open CommitRecord (frame frames)

namespace WriteAheadLog

theorem replayLoop_frame {r : CommitRecord} (h : r.Accepted) (pre post : Bytes) (k start turns lsn : Nat)
    (result : ReplayResult) :
    replayLoop (pre ++ (r.frame k ++ post)) start (turns + 1) pre.length lsn result =
      if lsn < start then
        replayLoop (pre ++ (r.frame k ++ post)) start turns (pre.length + (r.frame k).length) (lsn + 1)
          result
      else CommitRecord.deserialize r.payload >>= fun record =>
        replayLoop (pre ++ (r.frame k ++ post)) start turns (pre.length + (r.frame k).length) (lsn + 1)
          { result with commitRecords := result.commitRecords ++ [record], lastLsn := lsn } := by
  have hlength := CommitRecord.length_frame k r
  have hsize : RecordHeader.size = 40 := rfl
  have htrailer : recordTrailerSize = 12 := rfl
  have htotal : (pre ++ (r.frame k ++ post)).length = pre.length + (r.frame k).length + post.length := by
    rw [List.length_append, List.length_append, Nat.add_assoc]
  have hrecord := CommitRecord.recordSize_frameHeader h k
    (calculateExplicitHeaderChecksum (r.frameHeader k))
  have hlen : (r.frameHeader k).payloadLen.toNat = r.payload.length := by
    show (UInt32.ofNat r.payload.length).toNat = _
    rw [UInt32.toNat_ofNat', Nat.mod_eq_of_lt (by have := h.2.2.2; omega)]
  have hdata : window (pre ++ (r.frame k ++ post)) (pre.length + RecordHeader.size) r.payload.length =
      r.payload := by
    have hsplit : pre ++ (r.frame k ++ post) = (pre ++ (r.frameHeader k).bytes
        (calculateExplicitHeaderChecksum (r.frameHeader k))) ++ (r.payload ++ (r.frameTrailer ++ post)) := by
      unfold CommitRecord.frame
      simp only [List.append_assoc]
    rw [hsplit]
    apply window_append_middle _ rfl
    rw [List.length_append, RecordHeader.length_bytes]
  rw [replayLoop, if_pos (by omega), if_neg (by omega), CommitRecord.validHeaderAt_frame]
  dsimp only
  rw [hrecord, if_neg (by omega)]
  by_cases hskip : lsn < start
  · rw [if_pos hskip, if_pos hskip]
  · rw [if_neg hskip, if_neg hskip]
    have hcrc : ¬ (Crc32.hash r.payload ≠ (r.frameHeader k).payloadCrc32c) :=
      not_not.mpr (by unfold CommitRecord.frameHeader; rfl)
    rw [hlen, hdata, if_neg (Nat.lt_irrefl _), if_neg hcrc]
    unfold ReplayResult.take
    show ((if (0 : UInt16) = 0 then _ else _) >>= _) = _
    rw [if_pos rfl, bind_assoc]
    rfl

/-- The loop over a list of records, without the file. -/
def replayed (start : Nat) : Nat → Nat → List CommitRecord → ReplayResult → Except ZigError ReplayResult
  | 0, _, _, result => .ok result
  | _ + 1, _, [], result => .ok result
  | turns + 1, lsn, r :: rs, result =>
    if lsn < start then replayed start turns (lsn + 1) rs result
    else do
      let record ← CommitRecord.deserialize r.payload
      replayed start turns (lsn + 1) rs
        { result with commitRecords := result.commitRecords ++ [record], lastLsn := lsn }

variable {rs : List CommitRecord}

theorem replayLoop_frames (h : ∀ r ∈ rs, r.Accepted) (pre tail : Bytes)
    (k start turns lsn : Nat) (result : ReplayResult)
    (hstop : ∀ turns lsn result, replayLoop (pre ++ (frames k rs ++ tail)) start turns
      (pre.length + (frames k rs).length) lsn result = .ok result) :
    replayLoop (pre ++ (frames k rs ++ tail)) start turns pre.length lsn result =
      replayed start turns lsn rs result := by
  induction rs generalizing pre k turns lsn result with
  | nil =>
    have hnone := hstop turns lsn result
    cases turns with
    | zero => rfl
    | succ turns => exact hnone
  | cons r rs ih =>
    cases turns with
    | zero => rfl
    | succ turns =>
      rcases CommitRecord.append_frames_cons pre tail k r rs with ⟨hfile, hfile'⟩
      have hnext : ∀ result, replayLoop (pre ++ (frames k (r :: rs) ++ tail)) start turns
          (pre.length + (r.frame k).length) (lsn + 1) result =
            replayed start turns (lsn + 1) rs result := by
        intro result
        rw [hfile', ← List.length_append]
        apply ih (fun r' hr' => h r' (List.mem_cons_of_mem _ hr'))
        intro turns lsn result
        have hstop' := hstop turns lsn result
        rw [hfile', frames, List.length_append, ← Nat.add_assoc, ← List.length_append] at hstop'
        exact hstop'
      rw [hfile, replayLoop_frame (h r (List.mem_cons_self ..)), ← hfile, replayed]
      by_cases hskip : lsn < start
      · rw [if_pos hskip, if_pos hskip]
        exact hnext result
      · rw [if_neg hskip, if_neg hskip]
        cases CommitRecord.deserialize r.payload with
        | error e => rfl
        | ok record => exact hnext _

theorem replayLoop_end (file : Bytes) (start turns lsn : Nat) (result : ReplayResult) :
    replayLoop file start turns file.length lsn result = .ok result := by
  cases turns with
  | zero => rfl
  | succ turns =>
    unfold replayLoop
    rw [if_neg (Nat.lt_irrefl _)]

theorem readable_of_deserialize {r record : CommitRecord} (h : r.Accepted)
    (hok : CommitRecord.deserialize r.payload = .ok record) : r.Readable := by
  by_contra hno
  rcases (CommitRecord.deserialize_payload h.2.2.1 h.2.1 h.1).2 hno with ⟨e, herror⟩
  rw [herror] at hok
  cases hok

theorem replayed_skip (start turns lsn : Nat) (rs : List CommitRecord) (result : ReplayResult)
    (h : lsn + rs.length ≤ start) : replayed start turns lsn rs result = .ok result := by
  induction rs generalizing turns lsn with
  | nil => cases turns <;> rfl
  | cons r rs ih =>
    rw [List.length_cons] at h
    cases turns with
    | zero => rfl
    | succ turns =>
      rw [replayed, if_pos (by omega)]
      exact ih turns (lsn + 1) (by omega)

theorem replayed_skip_append (start turns lsn : Nat) (skipped rs : List CommitRecord)
    (result : ReplayResult) (h : skipped = [] ∨ lsn + skipped.length ≤ start) :
    replayed start (skipped.length + turns) lsn (skipped ++ rs) result =
      replayed start turns (lsn + skipped.length) rs result := by
  induction skipped generalizing lsn with
  | nil =>
    rw [List.length_nil, Nat.zero_add, Nat.add_zero]
    rfl
  | cons r skipped ih =>
    have hle : lsn + (skipped.length + 1) ≤ start := by
      rcases h with hnil | hle
      · cases hnil
      · exact hle
    rw [List.length_cons, List.cons_append, Nat.add_right_comm, replayed, if_pos (by omega),
      ih (lsn + 1) (Or.inr (by omega))]
    congr 1
    omega

variable {start turns lsn : Nat}

theorem replayed_readable {start turns lsn : Nat} {rs : List CommitRecord} (result : ReplayResult)
    (haccepted : ∀ r ∈ rs, r.Accepted) (hreadable : ∀ r ∈ rs, r.Readable) (hstart : start ≤ lsn)
    (hturns : rs.length ≤ turns) :
    ∃ res, replayed start turns lsn rs result = .ok res ∧
      res.commitRecords = result.commitRecords ++ rs ∧
      res.lastLsn = if rs = [] then result.lastLsn else lsn + rs.length - 1 := by
  induction rs generalizing turns lsn result with
  | nil =>
    refine ⟨result, by cases turns <;> rfl, (List.append_nil _).symm, ?_⟩
    rw [if_pos rfl]
  | cons r rs ih =>
    rw [List.length_cons] at hturns
    cases turns with
    | zero => omega
    | succ turns =>
      have hr := haccepted r (List.mem_cons_self ..)
      have hok := (CommitRecord.deserialize_payload hr.2.2.1 hr.2.1 hr.1).1
        (hreadable r (List.mem_cons_self ..))
      rcases ih { result with commitRecords := result.commitRecords ++ [r], lastLsn := lsn }
        (fun r' hr' => haccepted r' (List.mem_cons_of_mem _ hr'))
        (fun r' hr' => hreadable r' (List.mem_cons_of_mem _ hr')) (by omega : start ≤ lsn + 1)
        (by omega : rs.length ≤ turns) with ⟨res, hres, hrecords, hlast⟩
      refine ⟨res, ?_, ?_, ?_⟩
      · rw [replayed, if_neg (by omega), hok, Except.ok_bind]
        exact hres
      · rw [hrecords, List.append_assoc]
        rfl
      · rw [hlast, if_neg (List.cons_ne_nil r rs), List.length_cons]
        by_cases hnil : rs = []
        · rw [if_pos hnil, hnil]
          rfl
        · rw [if_neg hnil]
          omega

theorem readable_of_replayed
    {result res : ReplayResult} (haccepted : ∀ r ∈ rs, r.Accepted) (hstart : start ≤ lsn)
    (hturns : rs.length ≤ turns) (h : replayed start turns lsn rs result = .ok res) :
    ∀ r ∈ rs, r.Readable := by
  induction rs generalizing turns lsn result with
  | nil => exact fun r hr => absurd hr List.not_mem_nil
  | cons r rs ih =>
    rw [List.length_cons] at hturns
    cases turns with
    | zero => omega
    | succ turns =>
      rw [replayed, if_neg (by omega)] at h
      rcases Except.bind_eq_ok_iff.mp h with ⟨record, hrecord, h⟩
      intro r' hr'
      rcases List.mem_cons.mp hr' with rfl | hr'
      · exact readable_of_deserialize (haccepted r' (List.mem_cons_self ..)) hrecord
      · exact ih (fun r'' hr'' => haccepted r'' (List.mem_cons_of_mem _ hr'')) (by omega) (by omega) h
          r' hr'

theorem lastLsn_le_of_replayed {result res : ReplayResult} (hlast : result.lastLsn < lsn + turns)
    (h : replayed start turns lsn rs result = .ok res) : res.lastLsn < lsn + turns := by
  induction rs generalizing turns lsn result with
  | nil =>
    cases turns with
    | zero =>
      cases h
      exact hlast
    | succ turns =>
      cases h
      exact hlast
  | cons r rs ih =>
    cases turns with
    | zero =>
      cases h
      exact hlast
    | succ turns =>
      rw [replayed] at h
      by_cases hskip : lsn < start
      · rw [if_pos hskip] at h
        have hle := ih (by omega) h
        omega
      · rw [if_neg hskip] at h
        rcases Except.bind_eq_ok_iff.mp h with ⟨record, -, h⟩
        have hle := @ih turns (lsn + 1) { result with
          commitRecords := result.commitRecords ++ [record], lastLsn := lsn } (by dsimp only; omega) h
        omega

/-- The records `rs` come back from `start_lsn` on. -/
def ReplaysFrom (w : WriteAheadLog) (rs : List CommitRecord) (start : Nat) : Prop :=
  ∃ res, w.replayFrom start = .ok res ∧ res.commitRecords = rs.drop (max start 1 - 1) ∧
    (start ≤ rs.length → res.lastLsn = rs.length)

theorem placed_nil (bytes : Bytes) : placed [] 0 bytes = bytes := by
  unfold placed
  by_cases hnil : bytes = []
  · rw [if_pos hnil, hnil]
  · rw [if_neg hnil]
    rfl

theorem replayFrom_frames {w : WriteAheadLog} {k : Nat}
    (hfile : w.file = frames k rs) (haccepted : ∀ r ∈ rs, r.Accepted) (start : Nat) :
    w.replayFrom start = replayed start maxIterations 1 rs {} := by
  have hframes := replayLoop_frames haccepted [] [] k start maxIterations 1 {} (by
    intro turns lsn result
    rw [List.nil_append, List.append_nil, List.length_nil, Nat.zero_add]
    exact replayLoop_end ..)
  rw [List.nil_append, List.append_nil] at hframes
  unfold replayFrom
  rw [hfile]
  exact hframes

theorem replaysFrom_iff {w : WriteAheadLog} {k : Nat}
    (hfile : w.file = frames k rs) (haccepted : ∀ r ∈ rs, r.Accepted) (start : Nat) :
    w.ReplaysFrom rs start ↔
      rs.length < start ∨
        rs.length ≤ maxIterations ∧ ∀ r ∈ rs.drop (max start 1 - 1), r.Readable := by
  unfold ReplaysFrom
  rw [replayFrom_frames hfile haccepted]
  by_cases hall : rs.length < start
  · refine ⟨fun _ => Or.inl hall, fun _ => ⟨{}, replayed_skip _ _ _ _ _ (by omega), ?_, ?_⟩⟩
    · rw [List.drop_eq_nil_of_le (by omega)]
    · intro hle
      omega
  · -- the records in front of `start` are stepped over
    have hskipped : (rs.take (max start 1 - 1)).length = max start 1 - 1 := by
      rw [List.length_take]
      omega
    have hsplit := replayed_skip_append start (maxIterations - (max start 1 - 1)) 1
      (rs.take (max start 1 - 1)) (rs.drop (max start 1 - 1)) {} (by
        by_cases hzero : max start 1 - 1 = 0
        · rw [hzero, List.take_zero]
          exact Or.inl rfl
        · right
          omega)
    rw [List.take_append_drop, hskipped] at hsplit
    have hkept : (rs.drop (max start 1 - 1)).length = rs.length - (max start 1 - 1) :=
      List.length_drop
    have haccepted' : ∀ r ∈ rs.drop (max start 1 - 1), r.Accepted :=
      fun r hr => haccepted r (List.mem_of_mem_drop hr)
    constructor
    · rintro ⟨res, hres, -, hlast⟩
      right
      have hbound := lastLsn_le_of_replayed (by decide) hres
      have hlast := hlast (by omega)
      have hle : rs.length ≤ maxIterations := by omega
      refine ⟨hle, ?_⟩
      rw [show max start 1 - 1 + (maxIterations - (max start 1 - 1)) = maxIterations by omega, hres]
        at hsplit
      exact readable_of_replayed haccepted' (by omega) (by omega) hsplit.symm
    · rintro (hno | ⟨hle, hreadable⟩)
      · exact absurd hno hall
      · rw [show max start 1 - 1 + (maxIterations - (max start 1 - 1)) = maxIterations by omega]
          at hsplit
        rw [hsplit]
        rcases @replayed_readable start (maxIterations - (max start 1 - 1)) (1 + (max start 1 - 1))
          (rs.drop (max start 1 - 1)) {} haccepted' hreadable (by omega) (by omega)
          with ⟨res, hres, hrecords, hlast⟩
        refine ⟨res, hres, hrecords, ?_⟩
        intro hstart
        rw [hlast]
        by_cases hnone : rs.drop (max start 1 - 1) = []
        · rw [hnone, List.length_nil] at hkept
          rw [if_pos hnone]
          show 0 = rs.length
          omega
        · rw [if_neg hnone, hkept]
          have hpos := List.length_pos_iff.mpr hnone
          omega

/-- **Replay.**  Over any mix of appends, flushes and syncs, the accepted records come back after a
final `sync` exactly if there are at most 1000 of them and the reader takes those from `start_lsn`
on. -/
theorem replay_complete_iff (calls : List WalCall) (start : Nat) :
    (create.run calls).sync.ReplaysFrom (acceptedRecords calls) start ↔
      (acceptedRecords calls).length < start ∨
        (acceptedRecords calls).length ≤ 1000 ∧
          ∀ r ∈ (acceptedRecords calls).drop (max start 1 - 1), r.Readable := by
  have hfile := (pending_create.run_sync (le_refl 0) calls).1
  rw [List.nil_append, placed_nil] at hfile
  exact replaysFrom_iff hfile (fun r hr => accepted_of_mem hr) start

def emptyValue : CommitRecord :=
  { txnId := 1, rootPageId := 2, mutations := [.put [7] []], checksum := 0x551BFFDB }

/-- The record is accepted, and replay fails on it. -/
theorem empty_value_is_not_replayed : acceptedRecords [.append emptyValue] = [emptyValue] ∧
      (create.run [.append emptyValue]).sync.replayFrom 1 = .error .putHasNoValue ∧
      ¬ (create.run [.append emptyValue]).sync.ReplaysFrom [emptyValue] 1 := by
  have hreplay : (create.run [.append emptyValue]).sync.replayFrom 1 = .error .putHasNoValue := by
    decide +kernel
  refine ⟨by decide +kernel, hreplay, ?_⟩
  rintro ⟨res, hres, -⟩
  rw [hreplay] at hres
  cases hres

end WriteAheadLog

end Northstar.Zig
