import Mathlib.Algebra.Order.BigOperators.Group.List
import Northstar.Wal.Appender

/-!
# TornTail — logs cut at an arbitrary byte

A log of commit frames cut anywhere still scans and replays to the frames before the cut.  Writing
on overwrites the torn record in place and never truncates the file, so whether the log can be
opened again depends on what is left of the torn record behind the new ones.
-/

namespace Northstar.Wal

open Bytes FrameLog

def logBytes {crc : Crc} (fs : List (CommitFrame crc)) : Bytes := (fs.map (·.bytes)).flatten

/-- How many records of a log lie completely in its first `n` bytes. -/
def completeRecords {crc : Crc} (fs : List (CommitFrame crc)) (n : Nat) : Nat :=
  complete (fs.map (·.bytes)) n

variable {crc : Crc}

theorem isFrame_scan_log (fs : List (CommitFrame crc)) :
    List.Forall₂ (IsFrame (scanStep crc)) (fs.map (·.bytes)) (fs.map fun _ => ()) := by
  induction fs with
  | nil => exact .nil
  | cons f fs ih => exact .cons f.isFrame_scan ih

theorem isFrame_replay_log (fs : List (CommitFrame crc)) :
    List.Forall₂ (IsFrame (replayStep crc)) (fs.map (·.bytes)) (fs.map (·.record)) := by
  induction fs with
  | nil => exact .nil
  | cons f fs ih => exact .cons f.isFrame_replay ih

theorem reads_scan_cut (fs : List (CommitFrame crc)) (n : Nat) :
    Reads (scanStep crc) ((logBytes fs).take n)
      ((fs.take (completeRecords fs n)).map fun _ => ())
      (logBytes (fs.take (completeRecords fs n))).length := by
  have hcut : ∀ f ∈ fs.map (·.bytes), StopsInside (scanStep crc) f := by
    intro f hf
    obtain ⟨frame, -, rfl⟩ := List.mem_map.mp hf
    exact frame.stopsInside_scan
  have hreads := Reads.take (isFrame_scan_log fs) hcut
    (scanStep_eq_stop_iff.mpr (torn_nil crc)) n
  rw [← List.map_take, ← List.map_take] at hreads
  exact hreads

theorem reads_replay_cut (fs : List (CommitFrame crc)) (n : Nat) :
    Reads (replayStep crc) ((logBytes fs).take n)
      ((fs.take (completeRecords fs n)).map (·.record))
      (logBytes (fs.take (completeRecords fs n))).length := by
  have hcut : ∀ f ∈ fs.map (·.bytes), StopsInside (replayStep crc) f := by
    intro f hf
    obtain ⟨frame, -, rfl⟩ := List.mem_map.mp hf
    exact frame.stopsInside_replay
  have hreads := Reads.take (isFrame_replay_log fs) hcut
    (replayStep_eq_stop_of_torn (torn_nil crc)) n
  rw [← List.map_take, ← List.map_take] at hreads
  exact hreads

theorem length_take_completeRecords (fs : List (CommitFrame crc)) (n : Nat) :
    (fs.take (completeRecords fs n)).length = completeRecords fs n := by
  have hle := complete_le_length (fs.map (·.bytes)) n
  rw [List.length_map] at hle
  rw [List.length_take]
  exact Nat.min_eq_left hle

theorem scanHighestLsn_cut (fs : List (CommitFrame crc)) (n : Nat) :
    scanHighestLsn crc ((logBytes fs).take n) =
      .ok (completeRecords fs n, (logBytes (fs.take (completeRecords fs n))).length) := by
  have hscan := scanFrom_of_reads 0 0 (reads_scan_cut fs n)
  rw [List.length_map, length_take_completeRecords, Nat.zero_add, Nat.zero_add] at hscan
  exact hscan

/-- Cutting a log at any byte: the scanner counts the records before the cut and ends behind the
last of them, and replay yields exactly these and ends. -/
theorem cut_log_reads_complete_records {crc : Crc} (fs : List (CommitFrame crc)) (n : Nat) :
    scanHighestLsn crc ((logBytes fs).take n) =
        .ok (completeRecords fs n, (logBytes (fs.take (completeRecords fs n))).length) ∧
      replay crc ((logBytes fs).take n) =
        ((fs.take (completeRecords fs n)).map (fun f => .ok f.record), true) := by
  refine ⟨scanHighestLsn_cut fs n, ?_⟩
  have hreplay := replay_of_reads (reads_replay_cut fs n)
  rw [List.map_map] at hreplay
  exact hreplay

namespace CommitRecord

/-- What a record says, without the checksum field, which only decoding fills in. -/
def content (r : CommitRecord) : UInt64 × UInt64 × List Mutation := (r.txnId, r.rootPageId, r.mutations)

/-- The record as replay returns it. -/
def logged (crc : Crc) (r : CommitRecord) : CommitRecord :=
  { r with checksum := Northstar.checksum crc r.payload }

end CommitRecord

theorem length_value_lt {r : CommitRecord} (h : r.payload.length ≤ maxPayloadSize.toNat) :
    ∀ m ∈ r.mutations, (m.value.getD []).length < 2 ^ 32 := by
  intro m hm
  have hsum : m.size ≤ (r.mutations.map (·.size)).sum :=
    List.le_sum_of_mem (List.mem_map_of_mem hm)
  have hmax : maxPayloadSize.toNat = 16777216 := by decide
  rw [CommitRecord.length_payload, hmax] at h
  rw [Mutation.size] at hsum
  omega

def CommitFrame.ofRecord (crc : Crc) (lsn : Nat) (r : CommitRecord)
    (h : r.payload.length ≤ maxPayloadSize.toNat) (hdec : r.Decodable) : CommitFrame crc where
  toFrame := Frame.ofRecord crc lsn r h
  record := r.logged crc
  is_commit := rfl
  decodes := CommitRecord.deserializePayload_payload crc hdec (length_value_lt h)

theorem CommitFrame.length_ofRecord (crc : Crc) (lsn : Nat) (r : CommitRecord)
    (h : r.payload.length ≤ maxPayloadSize.toNat) (hdec : r.Decodable) :
    (CommitFrame.ofRecord crc lsn r h hdec).bytes.length =
      headerSize + r.payload.length + trailerSize := Frame.length_bytes _

theorem isFrame_replay_framesFrom {rs : List CommitRecord}
    (h : ∀ r ∈ rs, r.payload.length ≤ maxPayloadSize.toNat ∧ r.Decodable) (lsn : Nat) :
    List.Forall₂ (IsFrame (replayStep crc)) (framesFrom crc lsn rs) (rs.map (·.logged crc)) := by
  induction rs generalizing lsn with
  | nil => exact .nil
  | cons r rs ih =>
    obtain ⟨hlen, hdec⟩ := h r List.mem_cons_self
    apply List.Forall₂.cons
    · exact (CommitFrame.ofRecord crc lsn r hlen hdec).isFrame_replay
    · exact ih (fun r' hr' => h r' (List.mem_cons_of_mem _ hr')) _

theorem limits_of_replayStep {lsn size : Nat} {r x : CommitRecord} {rest : Bytes}
    (h : replayStep crc (frameBytes crc lsn r ++ rest) = .frame x size)
    (hcontent : x.content = r.content) :
    r.payload.length ≤ maxPayloadSize.toNat ∧ r.Decodable := by
  obtain ⟨header, hrec, hdecode⟩ := hasRecord_of_replayStep h
  have hparse := hrec.parses
  rw [frameBytes, List.append_assoc, window_head (RecordHeader.length_toBytes _),
    RecordHeader.fromBytes_toBytes] at hparse
  cases hparse
  obtain ⟨t, hvalid⟩ := hrec.valid
  have hmax := UInt32.le_iff_toNat_le.mp ((commitHeader_validate ..).mp hvalid).1
  have hms : x.mutations = r.mutations := congrArg (·.2.2) hcontent
  obtain ⟨hdec, -, hsize⟩ := CommitRecord.deserializePayload_eq_ok hdecode
  rw [CommitRecord.Decodable, hms] at hdec
  rw [hms, ← CommitRecord.length_payload, length_window] at hsize
  have hshort : r.payload.length ≤ (UInt32.ofNat r.payload.length).toNat :=
    hsize.trans (Nat.min_le_left _ _)
  exact ⟨hshort.trans hmax, hdec⟩

theorem limits_of_reads {lsn n : Nat} {rs xs : List CommitRecord} {left : Bytes}
    (h : Reads (replayStep crc) ((framesFrom crc lsn rs).flatten ++ left) xs n)
    (hcontent : xs.map (·.content) = rs.map (·.content)) :
    ∀ r ∈ rs, r.payload.length ≤ maxPayloadSize.toNat ∧ r.Decodable := by
  induction rs generalizing lsn xs n with
  | nil => exact fun r hr => nomatch hr
  | cons r rs ih =>
    rw [framesFrom, List.flatten_cons, List.append_assoc] at h
    cases h with
    | stop _ => cases hcontent
    | @frame _ x size xs n hframe hrest =>
      obtain ⟨hx, hxs⟩ := List.cons.inj hcontent
      have hr := limits_of_replayStep hframe hx
      have hread := (CommitFrame.ofRecord crc lsn r hr.1 hr.2).isFrame_replay.reads
        ((framesFrom crc (nextLsn lsn r) rs).flatten ++ left)
      have hsize : size = (frameBytes crc lsn r).length := by
        have heq := hframe.symm.trans hread
        cases heq
        rfl
      rw [hsize, List.drop_left] at hrest
      intro r' hr'
      rcases List.mem_cons.mp hr' with rfl | hmem
      · exact hr
      · exact ih hrest hxs r' hmem

/-- The log opens again, counts `old` and the appended records, and replays `old` and then the
appended records. -/
def Continues (crc : Crc) (old appended : List CommitRecord) (data : Bytes) : Prop :=
  ∃ w new, Wal.openFile crc data = .ok w ∧ w.currentLsn = old.length + appended.length ∧
    replay crc w.file.data = ((old ++ new).map .ok, true) ∧
      new.map (·.content) = appended.map (·.content)

theorem openFile_eq (crc : Crc) (data : Bytes) : Wal.openFile crc data =
      scanHighestLsn crc data >>= fun found => .ok (Wal.openedAt data found.1 found.2) := by
  unfold Wal.openFile
  by_cases hempty : data.length = 0
  · have hscan : scanHighestLsn crc [] = .ok (0, 0) :=
      @scanFrom_of_reads crc [] 0 0 0 [] (.stop (scanStep_eq_stop_iff.mpr (torn_nil crc)))
    rw [if_pos hempty, List.length_eq_zero_iff.mp hempty, hscan]
    rfl
  · rw [if_neg hempty]
    rfl

theorem continues_iff (fs : List (CommitFrame crc)) (lsn : Nat)
    (rs : List CommitRecord) (left : Bytes) :
    Continues crc (fs.map (·.record)) rs (logBytes fs ++ ((framesFrom crc lsn rs).flatten ++ left)) ↔
      (∀ r ∈ rs, r.payload.length ≤ maxPayloadSize.toNat ∧ r.Decodable) ∧ Torn crc left := by
  constructor
  · rintro ⟨w, new, hopen, hlsn, hreplay, hcontent⟩
    rw [openFile_eq, Except.bind_eq_ok_iff] at hopen
    obtain ⟨⟨found, stop⟩, hscan, hw⟩ := hopen
    cases hw
    -- replay tells that the appended frames are frames
    obtain ⟨xs, n, hreads, hitems⟩ := reads_of_replay crc
      (logBytes fs ++ ((framesFrom crc lsn rs).flatten ++ left))
    have hsame := hitems.symm.trans hreplay
    have hxs : xs = fs.map (·.record) ++ new :=
      List.map_injective_iff.mpr (fun _ _ h => Except.ok.inj h) (congrArg Prod.fst hsame)
    obtain ⟨ts, m, htail, hts, -⟩ := Reads.of_append (isFrame_replay_log fs) hreads
    rw [hxs] at hts
    obtain rfl := List.append_cancel_left hts
    have hlimits := limits_of_reads htail hcontent
    refine ⟨hlimits, ?_⟩
    -- and the count of the scanner leaves no room for another one
    obtain ⟨us, n', hscanned, hus, -⟩ := reads_of_scanFrom hscan
    rw [List.drop_zero] at hscanned
    obtain ⟨us₁, n₁, h₁, hus₁, -⟩ := Reads.of_append (isFrame_scan_log fs) hscanned
    obtain ⟨us₂, n₂, h₂, hus₂, -⟩ :=
      Reads.of_append (isFrame_framesFrom (fun r hr => (hlimits r hr).1) lsn) h₁
    have hnone : us₂ = [] := by
      apply List.eq_nil_of_length_eq_zero
      change found = _ at hlsn
      rw [hus, hus₁, hus₂] at hlsn
      simp only [List.length_append, List.length_map] at hlsn
      omega
    rw [hnone] at h₂
    cases h₂ with
    | stop hstop => exact scanStep_eq_stop_iff.mp hstop
  · rintro ⟨hlimits, htorn⟩
    have hscanned := Reads.append (isFrame_scan_log fs)
      (Reads.append (isFrame_framesFrom (fun r hr => (hlimits r hr).1) lsn)
        (.stop (scanStep_eq_stop_iff.mpr htorn)))
    have hreads := Reads.append (isFrame_replay_log fs)
      (Reads.append (isFrame_replay_framesFrom hlimits lsn)
        (.stop (replayStep_eq_stop_of_torn htorn)))
    have hscan := scanFrom_of_reads 0 0 hscanned
    simp only [List.length_append, List.length_map, List.length_nil, Nat.zero_add, Nat.add_zero]
      at hscan
    have hopen := openFile_eq crc (logBytes fs ++ ((framesFrom crc lsn rs).flatten ++ left))
    rw [scanHighestLsn, logBytes, hscan, Except.ok_bind] at hopen
    have hreplay := replay_of_reads hreads
    rw [List.append_nil] at hreplay
    refine ⟨_, rs.map (CommitRecord.logged crc), hopen, ?_, hreplay, ?_⟩
    · rw [List.length_map]
      rfl
    · rw [List.map_map]
      exact List.map_congr_left fun r _ => rfl

/-- The bytes the frames of appended records take. -/
def appendedLength (rs : List CommitRecord) : Nat :=
  (rs.map fun r => headerSize + r.payload.length + trailerSize).sum

theorem length_framesFrom_flatten (crc : Crc) (lsn : Nat) (rs : List CommitRecord) :
    (framesFrom crc lsn rs).flatten.length = appendedLength rs := by
  induction rs generalizing lsn with
  | nil => rfl
  | cons r rs ih =>
    rw [framesFrom, List.flatten_cons, List.length_append, length_frameBytes, ih]
    rfl

theorem cut_eq_append (fs : List (CommitFrame crc)) (n : Nat) :
    (logBytes fs).take n = logBytes (fs.take (completeRecords fs n)) ++
      ((logBytes fs).take n).drop (logBytes (fs.take (completeRecords fs n))).length := by
  have hsplit : logBytes fs = logBytes (fs.take (completeRecords fs n)) ++
      logBytes (fs.drop (completeRecords fs n)) := by
    rw [logBytes, logBytes, logBytes, ← List.flatten_append, ← List.map_append,
      List.take_append_drop]
  have hle : (logBytes (fs.take (completeRecords fs n))).length ≤ n := by
    have hflat := complete_flatten_le (fs.map (·.bytes)) n
    rw [← List.map_take] at hflat
    exact hflat
  rw [hsplit, List.take_append, List.take_of_length_le hle, List.drop_left]

/-- The log `Wal::open` finds in a cut file is continued behind the last complete record. -/
theorem appended_openedAt (fs : List (CommitFrame crc)) (n : Nat) :
    Appended (logBytes (fs.take (completeRecords fs n)))
      (((logBytes fs).take n).drop (logBytes (fs.take (completeRecords fs n))).length) []
      (Wal.openedAt ((logBytes fs).take n) (completeRecords fs n)
        (logBytes (fs.take (completeRecords fs n))).length) where
  state := rfl
  buffer_len := List.length_replicate
  pos_le := Nat.zero_le _
  frames := by
    refine ⟨[], ?_, rfl, rfl⟩
    rw [List.append_nil, List.length_nil, List.drop_zero, Nat.add_zero, ← cut_eq_append]
    rfl

theorem openFile_cut (fs : List (CommitFrame crc)) (n : Nat) :
    Wal.openFile crc ((logBytes fs).take n) =
      .ok (Wal.openedAt ((logBytes fs).take n) (completeRecords fs n)
        (logBytes (fs.take (completeRecords fs n))).length) := by
  rw [openFile_eq, scanHighestLsn_cut]
  rfl

theorem WalOp.records_appends (rs : List CommitRecord) : WalOp.records (rs.map .append) = rs := by
  induction rs with
  | nil => rfl
  | cons r rs ih => exact congrArg (r :: ·) ih

/-- A log cut at any byte, opened, written on and synced: it continues exactly when every appended
record is within the decoder's limits and the rest of the old file behind the new records, if it
still holds a whole header, is a valid header of a record that does not fit. -/
theorem reopened_log_continues_iff {crc : Crc} (fs : List (CommitFrame crc)) (n : Nat)
    (rs : List CommitRecord) {w w' : Wal}
    (hopen : Wal.openFile crc ((logBytes fs).take n) = .ok w)
    (hrun : WalOp.run crc w (rs.map .append) = .ok w') :
    Continues crc ((fs.take (completeRecords fs n)).map (·.record)) rs w'.sync.file.data ↔
      (∀ r ∈ rs, r.payload.length ≤ maxPayloadSize.toNat ∧ r.Decodable) ∧
        Torn crc (((logBytes fs).take n).drop
          ((logBytes (fs.take (completeRecords fs n))).length + appendedLength rs)) := by
  rw [openFile_cut] at hopen
  cases hopen
  have hdata := ((appended_openedAt fs n).run hrun).sync.1.data
  rw [WalOp.records_appends, List.nil_append, List.drop_drop, length_framesFrom_flatten,
    List.append_assoc] at hdata
  rw [hdata]
  exact continues_iff _ _ _ _

def longRecord : CommitRecord := .new 1 2 [.put [7] (List.replicate 100 0)]

def shortRecord : CommitRecord := .new 2 2 [.delete [8]]

theorem longRecord_decodable : longRecord.Decodable := by
  refine ⟨by decide, ?_⟩
  intro m hm
  obtain rfl := List.mem_singleton.mp hm
  exact ⟨by decide, by decide⟩

theorem shortRecord_decodable : shortRecord.Decodable := by
  refine ⟨by decide, ?_⟩
  intro m hm
  obtain rfl := List.mem_singleton.mp hm
  exact ⟨by decide, by decide⟩

theorem length_longRecord_payload : longRecord.payload.length = 141 := by
  rw [CommitRecord.length_payload]
  rfl

theorem length_shortRecord_payload : shortRecord.payload.length = 41 := by
  rw [CommitRecord.length_payload]
  rfl

def longFrame : CommitFrame crc32cAppend :=
  .ofRecord crc32cAppend 0 longRecord (by rw [length_longRecord_payload]; decide)
    longRecord_decodable

theorem length_longFrame : longFrame.bytes.length = 193 := by
  rw [longFrame, CommitFrame.length_ofRecord, length_longRecord_payload]
  rfl

theorem completeRecords_longFrame {n : Nat} (h : n < 193) : completeRecords [longFrame] n = 0 := by
  rw [completeRecords, List.map_cons, complete, if_neg (by rw [length_longFrame]; omega)]

theorem shortRecord_limits : ∀ r ∈ [shortRecord],
    r.payload.length ≤ maxPayloadSize.toNat ∧ r.Decodable := by
  intro r hr
  obtain rfl := List.mem_singleton.mp hr
  rw [length_shortRecord_payload]
  exact ⟨by decide, shortRecord_decodable⟩

theorem appendedLength_shortRecord : appendedLength [shortRecord] = 93 := by
  change headerSize + shortRecord.payload.length + trailerSize = 93
  rw [length_shortRecord_payload]
  rfl

theorem reopen_log (fs : List (CommitFrame crc32cAppend)) (n : Nat) :
    ∃ w w', Wal.openFile crc32cAppend ((logBytes fs).take n) = .ok w ∧
      WalOp.run crc32cAppend w ([shortRecord].map .append) = .ok w' := by
  have happended := appended_openedAt fs n
  obtain ⟨w', hrun⟩ := happended.run_ok crc32cAppend ([shortRecord].map .append)
    (fun r hr => by
      obtain rfl := List.mem_singleton.mp hr
      rw [length_shortRecord_payload]
      exact ⟨rfl, by decide⟩)
  exact ⟨_, w', openFile_cut fs n, hrun⟩

/-- Cut in the second of two records, with only a few bytes left behind the new one. -/
theorem reopened_log_continues :
    ∃ w w', Wal.openFile crc32cAppend ((logBytes [longFrame, longFrame]).take 293) = .ok w ∧
      WalOp.run crc32cAppend w ([shortRecord].map .append) = .ok w' ∧
        Continues crc32cAppend [longFrame.record] [shortRecord] w'.sync.file.data := by
  obtain ⟨w, w', hopen, hrun⟩ := reopen_log [longFrame, longFrame] 293
  refine ⟨w, w', hopen, hrun, ?_⟩
  have hiff := reopened_log_continues_iff [longFrame, longFrame] 293 [shortRecord] hopen hrun
  have hone : completeRecords [longFrame, longFrame] 293 = 1 := by
    rw [completeRecords, List.map_cons, List.map_cons, complete, complete, length_longFrame]
    rfl
  have hold : logBytes ([longFrame, longFrame].take 1) = longFrame.bytes := List.append_nil _
  have hrecord : ([longFrame, longFrame].take 1).map (·.record) = [longFrame.record] := by
    rw [List.take_succ_cons, List.take_zero, List.map_singleton]
  rw [hone, hold, hrecord, length_longFrame] at hiff
  refine hiff.mpr ⟨shortRecord_limits, .inl ?_⟩
  rw [List.length_drop, List.length_take, appendedLength_shortRecord, headerSize]
  omega

theorem window_longFrame :
    window (((logBytes [longFrame]).take 192).drop 93) 0 headerSize = List.replicate 40 0 := by
  have hpayload : window longRecord.payload 53 40 = List.replicate 40 0 := by decide +kernel
  have hbytes : logBytes [longFrame] = frameBytes crc32cAppend 0 longRecord := List.append_nil _
  have hcut : (logBytes [longFrame]).take 192 = window (logBytes [longFrame]) 0 192 := rfl
  rw [window_drop, hcut, window_window (by decide), hbytes, frameBytes,
    window_append_right (by rw [RecordHeader.length_toBytes]; decide),
    RecordHeader.length_toBytes,
    window_append_left (by rw [length_longRecord_payload]; decide)]
  exact hpayload

/-- Cut after 192 bytes, it leaves 99 bytes of the old value: the log does not open again. -/
theorem reopened_log_does_not_continue :
    ∃ w w', Wal.openFile crc32cAppend ((logBytes [longFrame]).take 192) = .ok w ∧
      WalOp.run crc32cAppend w ([shortRecord].map .append) = .ok w' ∧
        ¬ Continues crc32cAppend [] [shortRecord] w'.sync.file.data := by
  obtain ⟨w, w', hopen, hrun⟩ := reopen_log [longFrame] 192
  refine ⟨w, w', hopen, hrun, ?_⟩
  rw [openFile_cut] at hopen
  cases hopen
  have hdata := ((appended_openedAt [longFrame] 192).run hrun).sync.1.data
  rw [WalOp.records_appends, List.nil_append, List.drop_drop, length_framesFrom_flatten,
    List.append_assoc, completeRecords_longFrame (by decide), appendedLength_shortRecord] at hdata
  rw [hdata]
  intro hcontinues
  have hlen : (((logBytes [longFrame]).take 192).drop 93).length = 99 := by
    have hbytes : (logBytes [longFrame]).length = 193 := by
      rw [logBytes, List.map_cons, List.map_nil, List.flatten_singleton, length_longFrame]
    rw [List.length_drop, List.length_take, hbytes]
    rfl
  rcases ((continues_iff [] 0 [shortRecord] _).mp hcontinues).2 with hshort | ⟨header, t, hparse, hvalid, -⟩
  · rw [List.take_zero, logBytes, List.map_nil, List.flatten_nil, List.length_nil, Nat.zero_add,
      hlen] at hshort
    exact absurd hshort (by decide)
  · rw [List.take_zero, logBytes, List.map_nil, List.flatten_nil, List.length_nil, Nat.zero_add,
      window_longFrame] at hparse
    have hmagic := ((RecordHeader.validate_eq_ok_iff crc32cAppend header t).mp hvalid).1
    cases hparse
    exact absurd hmagic (by decide)

end Northstar.Wal
