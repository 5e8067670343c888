import Northstar.Zig.Replay

/-!
# Tail — appending after a cut

`truncate` leaves `file_pos` where it was, and `open` puts it behind whatever bytes a torn record has
left.  Either way the next records do not follow the surviving ones.
-/

namespace Northstar.Zig

open Bytes
open CommitRecord (frame frames)

namespace WriteAheadLog

variable {rs : List CommitRecord}

theorem scanLoop_frames (h : ∀ r ∈ rs, r.Accepted) (pre tail : Bytes) (k fuel count : Nat) :
    scanLoop (pre ++ (frames k rs ++ tail)) (rs.length + fuel) pre.length count =
      scanLoop (pre ++ (frames k rs ++ tail)) fuel (pre.length + (frames k rs).length)
        (count + rs.length) := by
  induction rs generalizing pre k count with
  | nil =>
    rw [List.length_nil, Nat.zero_add]
    rfl
  | cons r rs ih =>
    rcases CommitRecord.append_frames_cons pre tail k r rs with ⟨hfile, hfile'⟩
    have hnext := ih (fun r' hr' => h r' (List.mem_cons_of_mem _ hr')) (pre ++ r.frame k) (k + 1)
      (count + 1)
    rw [← hfile', List.length_append] at hnext
    have hlt : pre.length < (pre ++ (frames k (r :: rs) ++ tail)).length := by
      rw [hfile, List.length_append, List.length_append, CommitRecord.length_frame]
      unfold RecordHeader.size
      omega
    have hheader := CommitRecord.validHeaderAt_frame pre (frames (k + 1) rs ++ tail) k r
    rw [← hfile] at hheader
    rw [List.length_cons, Nat.add_right_comm, scanLoop, if_pos hlt, hheader]
    dsimp only
    rw [CommitRecord.recordSize_frameHeader (h r (List.mem_cons_self ..)), hnext, frames,
      List.length_append]
    congr 1
    · omega
    · omega

theorem length_le_frames (k : Nat) (rs : List CommitRecord) : rs.length ≤ (frames k rs).length := by
  induction rs generalizing k with
  | nil => exact Nat.zero_le _
  | cons r rs ih =>
    have hrest := ih (k + 1)
    rw [frames, List.length_append, CommitRecord.length_frame, List.length_cons]
    unfold RecordHeader.size
    omega

theorem scanHighestLsn_frames (h : ∀ r ∈ rs, r.Accepted) (k : Nat) (tail : Bytes) :
    ∃ fuel, scanHighestLsn (frames k rs ++ tail) =
        scanLoop (frames k rs ++ tail) fuel (frames k rs).length rs.length ∧
      tail.length ≤ fuel := by
  have hle := length_le_frames k rs
  have hloop := scanLoop_frames h [] tail k ((frames k rs ++ tail).length - rs.length) 0
  have hlength : (frames k rs ++ tail).length = (frames k rs).length + tail.length :=
    List.length_append
  rw [List.nil_append, List.length_nil, Nat.zero_add, Nat.zero_add,
    Nat.add_sub_cancel' (by omega)] at hloop
  exact ⟨_, hloop, by omega⟩

theorem scanHighestLsn_exact (h : ∀ r ∈ rs, r.Accepted) (k : Nat) :
    scanHighestLsn (frames k rs) = rs.length := by
  rcases scanHighestLsn_frames h k [] with ⟨fuel, hscan, -⟩
  rw [List.append_nil] at hscan
  rw [hscan]
  cases fuel with
  | zero => rfl
  | succ fuel =>
    unfold scanLoop
    rw [if_neg (Nat.lt_irrefl _)]

theorem findRecord_frames (h : ∀ r ∈ rs, r.Accepted) (pre : Bytes)
    (k keepLsn fuel lsn : Nat) (hkeep : lsn ≤ keepLsn) (hlt : keepLsn < lsn + rs.length)
    (hfuel : rs.length ≤ fuel) :
    findRecord (pre ++ frames k rs) keepLsn fuel pre.length lsn =
      some (pre.length + (frames k (rs.take (keepLsn - lsn))).length) := by
  induction rs generalizing pre k fuel lsn with
  | nil =>
    rw [List.length_nil] at hlt
    omega
  | cons r rs ih =>
    rw [List.length_cons] at hlt hfuel
    cases fuel with
    | zero => omega
    | succ fuel =>
      have hpos : pre.length < (pre ++ frames k (r :: rs)).length := by
        rw [frames, List.length_append, List.length_append, CommitRecord.length_frame]
        unfold RecordHeader.size
        omega
      have hheader := CommitRecord.headerAt_frame pre (frames (k + 1) rs) k r
      rw [findRecord, if_pos hpos]
      rw [frames, hheader]
      dsimp only
      by_cases hfound : lsn ≥ keepLsn
      · have hzero : keepLsn - lsn = 0 := by omega
        rw [if_pos hfound, hzero, List.take_zero]
        rfl
      · have hrest := ih (fun r' hr' => h r' (List.mem_cons_of_mem _ hr')) (pre ++ r.frame k) (k + 1)
          fuel (lsn + 1) (by omega) (by omega) (by omega)
        have hone : keepLsn - lsn = (keepLsn - (lsn + 1)) + 1 := by omega
        rw [List.append_assoc, List.length_append] at hrest
        rw [if_neg hfound, CommitRecord.recordSize_frameHeader (h r (List.mem_cons_self ..)), hrest,
          hone, List.take_succ_cons, frames, List.length_append, Nat.add_assoc]

theorem length_of_replayed {start turns lsn : Nat} {result res : ReplayResult}
    (h : replayed start turns lsn rs result = .ok res) :
    res.commitRecords.length ≤ result.commitRecords.length + min turns rs.length := by
  induction rs generalizing turns lsn result with
  | nil =>
    cases turns with
    | zero =>
      cases h
      omega
    | succ turns =>
      cases h
      omega
  | cons r rs ih =>
    cases turns with
    | zero =>
      cases h
      omega
    | succ turns =>
      rw [List.length_cons]
      rw [replayed] at h
      by_cases hskip : lsn < start
      · rw [if_pos hskip] at h
        have hle := ih h
        omega
      · rw [if_neg hskip] at h
        rcases Except.bind_eq_ok_iff.mp h with ⟨record, -, h⟩
        have hle := ih h
        simp only [List.length_append, List.length_singleton] at hle
        omega

/-- The records that replay returns are `records`, and the sequence number counts them. -/
def Usable (w : WriteAheadLog) (records : List CommitRecord) : Prop :=
  ∃ res, w.replayFrom 1 = .ok res ∧ res.commitRecords = records ∧
    w.getCurrentLsn = res.commitRecords.length

/-- Records that come back, if replay stops behind them. -/
def Survive (rs : List CommitRecord) : Prop :=
  rs.length ≤ maxIterations ∧ ∀ r ∈ rs, r.Readable

instance (rs : List CommitRecord) : Decidable (Survive rs) := inferInstanceAs (Decidable (_ ∧ _))

theorem usable_iff_of_stop {w : WriteAheadLog} {new : List CommitRecord} {tail : Bytes} {k : Nat}
    (hfile : w.file = frames k rs ++ tail) (haccepted : ∀ r ∈ rs, r.Accepted)
    (hstop : ∀ turns lsn result, replayLoop (frames k rs ++ tail) 1 turns (frames k rs).length lsn
      result = .ok result)
    (hlsn : w.getCurrentLsn = rs.length + new.length) :
    w.Usable (rs ++ new) ↔ new = [] ∧ Survive rs := by
  have hreplay : w.replayFrom 1 = replayed 1 maxIterations 1 rs {} := by
    have hframes := replayLoop_frames haccepted [] tail k 1 maxIterations 1 {} (by
      intro turns lsn result
      rw [List.nil_append, List.length_nil, Nat.zero_add]
      exact hstop turns lsn result)
    unfold replayFrom
    rw [hfile]
    exact hframes
  unfold Usable
  rw [hreplay]
  constructor
  · rintro ⟨res, hres, hrecords, -⟩
    have hlength := length_of_replayed hres
    rw [hrecords, List.length_append] at hlength
    have hlength : rs.length + new.length ≤ 0 + min maxIterations rs.length := hlength
    have hnone : new = [] := List.length_eq_zero_iff.mp (by omega)
    exact ⟨hnone, by omega, readable_of_replayed haccepted (le_refl 1) (by omega) hres⟩
  · rintro ⟨rfl, hle, hreadable⟩
    rcases replayed_readable {} haccepted hreadable (le_refl 1) hle with ⟨res, hres, hrecords, -⟩
    have hrecords : res.commitRecords = rs := hrecords
    refine ⟨res, hres, ?_, ?_⟩
    · rw [hrecords, List.append_nil]
    · rw [hrecords, hlsn]
      rfl

theorem replayLoop_zeros (pre tail : Bytes) {gap : Nat} (hgap : RecordHeader.size ≤ gap)
    (turns lsn : Nat) (result : ReplayResult) :
    replayLoop (pre ++ (List.replicate gap 0 ++ tail)) 1 turns pre.length lsn result = .ok result := by
  have hwindow : window (pre ++ (List.replicate gap 0 ++ tail)) pre.length RecordHeader.size =
      List.replicate RecordHeader.size 0 := by
    rw [window_append_right (le_refl _), Nat.sub_self, window_append_left (by simpa using hgap)]
    unfold window
    rw [List.drop_zero, List.take_replicate, Nat.min_eq_left hgap]
  have hnone : validHeaderAt (pre ++ (List.replicate gap 0 ++ tail)) pre.length = none := by
    unfold validHeaderAt headerAt
    rw [hwindow]
    rfl
  cases turns with
  | zero => rfl
  | succ turns =>
    unfold replayLoop
    rw [hnone]
    dsimp only
    split
    · split
      · rfl
      · rfl
    · rfl

/-- The file ends in front of the record, but `file_pos` does not move. -/
theorem truncate_pending {w : WriteAheadLog} (h : Pending [] 0 0 rs w)
    (haccepted : ∀ r ∈ rs, r.Accepted) {keepLsn : Nat} (hpos : 1 ≤ keepLsn)
    (hle : keepLsn ≤ rs.length) :
    Pending (frames 0 (rs.take (keepLsn - 1))) (frames 0 rs).length (keepLsn - 1) []
      (w.truncate keepLsn) := by
  have hsync := (h.flush (le_refl 0)).1.sync (le_refl 0)
  rcases hsync.1.file_eq hsync.2 with ⟨hfile, hfilePos, -⟩
  rw [placed_nil] at hfile
  rw [Nat.zero_add] at hfilePos
  have hfind := findRecord_frames haccepted [] 0 keepLsn (frames 0 rs).length 1 hpos (by omega)
    (length_le_frames 0 rs)
  rw [List.nil_append, List.length_nil, Nat.zero_add] at hfind
  have hsplit : frames 0 rs = frames 0 (rs.take (keepLsn - 1)) ++
      frames (0 + (rs.take (keepLsn - 1)).length) (rs.drop (keepLsn - 1)) := by
    rw [← CommitRecord.frames_append, List.take_append_drop]
  have hcut : setEndPos (frames 0 rs) (frames 0 (rs.take (keepLsn - 1))).length =
      frames 0 (rs.take (keepLsn - 1)) := by
    have hshort : (frames 0 (rs.take (keepLsn - 1))).length - (frames 0 rs).length = 0 := by
      rw [hsplit, List.length_append]
      omega
    unfold setEndPos
    rw [hshort, List.replicate_zero, List.append_nil, hsplit]
    exact List.take_left' rfl
  unfold truncate
  dsimp only
  rw [hfile, hfind]
  dsimp only
  rw [hcut, scanHighestLsn_exact fun r hr => haccepted r (List.mem_of_mem_take hr)]
  refine ⟨[], ?_, ?_, ?_, ?_⟩
  · rw [List.nil_append]
    exact hsync.2
  · unfold placed
    rw [if_pos rfl]
  · exact hfilePos
  · show (rs.take (keepLsn - 1)).length = keepLsn - 1 + 0
    rw [List.length_take]
    omega

theorem truncate_usable_iff (calls calls' : List WalCall) {keepLsn : Nat} (hpos : 1 ≤ keepLsn)
    (hle : keepLsn ≤ (acceptedRecords calls).length) :
    (((create.run calls).truncate keepLsn).run calls').sync.Usable
        ((acceptedRecords calls).take (keepLsn - 1) ++ acceptedRecords calls') ↔
      acceptedRecords calls' = [] ∧ Survive ((acceptedRecords calls).take (keepLsn - 1)) := by
  have haccepted : ∀ r ∈ acceptedRecords calls, r.Accepted := fun r hr => accepted_of_mem hr
  have hpending := pending_create.run (le_refl 0) calls
  rw [List.nil_append] at hpending
  have hsplit : frames 0 (acceptedRecords calls) =
      frames 0 ((acceptedRecords calls).take (keepLsn - 1)) ++
        frames (0 + ((acceptedRecords calls).take (keepLsn - 1)).length)
          ((acceptedRecords calls).drop (keepLsn - 1)) := by
    rw [← CommitRecord.frames_append, List.take_append_drop]
  -- the record that was cut off leaves a gap
  have hgap : (frames 0 ((acceptedRecords calls).take (keepLsn - 1))).length + RecordHeader.size ≤
      (frames 0 (acceptedRecords calls)).length := by
    have hne : (acceptedRecords calls).drop (keepLsn - 1) ≠ [] := by
      intro hnil
      have hlength := congrArg List.length hnil
      rw [List.length_drop, List.length_nil] at hlength
      omega
    rcases List.exists_cons_of_ne_nil hne with ⟨r, rest, hcons⟩
    rw [hsplit, hcons, frames, List.length_append, List.length_append, CommitRecord.length_frame]
    omega
  have hrun := (truncate_pending hpending haccepted hpos hle).run_sync (by omega) calls'
  rw [List.nil_append] at hrun
  rcases hrun with ⟨hfile, -, hlsn, -⟩
  have hcount : ((acceptedRecords calls).take (keepLsn - 1)).length = keepLsn - 1 := by
    rw [List.length_take]
    omega
  by_cases hnone : acceptedRecords calls' = []
  · rw [hnone] at hfile hlsn ⊢
    have hfile : (((create.run calls).truncate keepLsn).run calls').sync.file =
        frames 0 ((acceptedRecords calls).take (keepLsn - 1)) ++ [] := by
      rw [hfile, List.append_nil]
      exact if_pos rfl
    apply usable_iff_of_stop hfile (fun r hr => haccepted r (List.mem_of_mem_take hr))
    · intro turns lsn result
      rw [List.append_nil]
      exact replayLoop_end ..
    · rw [hlsn, hcount]
  · have hfile : (((create.run calls).truncate keepLsn).run calls').sync.file =
        frames 0 ((acceptedRecords calls).take (keepLsn - 1)) ++
          (List.replicate ((frames 0 (acceptedRecords calls)).length -
            (frames 0 ((acceptedRecords calls).take (keepLsn - 1))).length) 0 ++
              frames (keepLsn - 1) (acceptedRecords calls')) := by
      rw [hfile]
      unfold placed
      rw [if_neg (CommitRecord.frames_ne_nil hnone), List.append_assoc]
    apply usable_iff_of_stop hfile (fun r hr => haccepted r (List.mem_of_mem_take hr))
    · exact fun turns lsn result => replayLoop_zeros _ _ (by omega) turns lsn result
    · rw [hlsn, hcount]

end WriteAheadLog

end Northstar.Zig
