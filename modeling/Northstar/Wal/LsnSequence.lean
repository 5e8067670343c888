import Northstar.Wal.TornTail
import Mathlib.Data.List.Range

/-!
# LsnSequence — the LSNs of records appended one after the other

The counter of the log, the LSNs that the calls return, the headers in the file and the count of a scan agree
as long as every record fits the buffer.  A record that is written past the buffer does not move the counter.
-/

namespace Northstar.Wal

open Bytes FrameLog

variable {crc : Crc} {w : Wal} {rs done : List CommitRecord} {results : List (Wal × Nat)}

def appendAll (crc : Crc) (w : Wal) : List CommitRecord → Except Fault (List (Wal × Nat))
  | [] => .ok []
  | r :: rs => do
    let result ← w.appendCommitRecord crc r
    let rest ← appendAll crc result.1 rs
    return result :: rest

/-- After the append that returned `n` the log is at LSN `n`, the file behind the buffer has `n` records whose
headers count from 0, and a scan of it comes to the same LSN. -/
structure AtLsn (crc : Crc) (n : Nat) (result : Wal × Nat) : Prop where
  returned : result.2 = n
  current : result.1.currentLsn = n
  stored : ∃ frames : List (Frame crc), result.1.sync.file.data = (frames.map Frame.bytes).flatten ∧
    frames.map (·.header.prevLsn) = (List.range n).map UInt64.ofNat
  reopened : ∃ w, Wal.openFile crc result.1.sync.file.data = .ok w ∧ w.currentLsn = result.1.currentLsn

/-- The appends after the first `n` continue the sequence. -/
def SequencedFrom (crc : Crc) (n : Nat) (results : List (Wal × Nat)) : Prop :=
  ∀ i result, results[i]? = some result → AtLsn crc (n + i + 1) result

/-- The record with its header and trailer is no larger than the buffer. -/
def FitsBuffer (r : CommitRecord) : Prop := headerSize + r.payload.length + trailerSize ≤ defaultBufferSize

theorem FitsBuffer.payload_le {r : CommitRecord} (h : FitsBuffer r) : r.payload.length ≤ maxPayloadSize.toNat := by
  have hmax : defaultBufferSize ≤ maxPayloadSize.toNat := by decide
  unfold FitsBuffer at h
  omega

theorem FitsBuffer.nextLsn_eq {r : CommitRecord} (h : FitsBuffer r) (lsn : Nat) : nextLsn lsn r = lsn + 1 := by
  apply if_neg
  have hle := totalSize_le r
  unfold FitsBuffer at h
  omega

theorem framesFrom_concat (h : ∀ r ∈ done, FitsBuffer r) (lsn : Nat) (r : CommitRecord) :
    framesFrom crc lsn (done ++ [r]) = framesFrom crc lsn done ++ [frameBytes crc (lsn + done.length) r] := by
  induction done generalizing lsn with
  | nil => rfl
  | cons d done ih =>
    have hd := h d List.mem_cons_self
    rw [List.cons_append, framesFrom, framesFrom, hd.nextLsn_eq,
      ih (fun r hr => h r (List.mem_cons_of_mem _ hr)), List.cons_append, List.length_cons]
    rw [Nat.add_assoc, Nat.add_comm 1]

theorem frames_framesFrom (h : ∀ r ∈ done, FitsBuffer r) (lsn : Nat) :
    ∃ frames : List (Frame crc), frames.map Frame.bytes = framesFrom crc lsn done ∧
      frames.map (·.header.prevLsn) = (List.range' lsn done.length).map UInt64.ofNat := by
  induction done generalizing lsn with
  | nil => exact ⟨[], rfl, rfl⟩
  | cons d done ih =>
    have hd := h d List.mem_cons_self
    obtain ⟨frames, hbytes, hlsns⟩ := ih (fun r hr => h r (List.mem_cons_of_mem _ hr)) (lsn + 1)
    refine ⟨Frame.ofRecord crc lsn d hd.payload_le :: frames, ?_, ?_⟩
    · rw [List.map_cons, hbytes, Frame.bytes_ofRecord, framesFrom, hd.nextLsn_eq]
    · rw [List.map_cons, hlsns, List.length_cons, List.range'_succ, List.map_cons]
      rfl

theorem atLsn_of_appended (h : Appended [] [] (framesFrom crc 0 done) w) (hlsn : w.currentLsn = done.length)
    (hdone : ∀ r ∈ done, FitsBuffer r) : AtLsn crc done.length (w, done.length) where
  returned := rfl
  current := hlsn
  stored := by
    obtain ⟨frames, hbytes, hlsns⟩ := @frames_framesFrom crc _ hdone 0
    refine ⟨frames, ?_, ?_⟩
    · rw [hbytes]
      exact h.sync_data
    · rw [hlsns, List.range_eq_range']
  reopened := by
    have hscan := @scanHighestLsn_framesFrom crc _ (fun r hr => (hdone r hr).payload_le) 0
    rw [openFile_eq, h.sync_data, hscan]
    exact ⟨_, rfl, hlsn.symm⟩

theorem sequencedFrom_cons {n : Nat} {result : Wal × Nat} :
    SequencedFrom crc n (result :: results) ↔ AtLsn crc (n + 1) result ∧ SequencedFrom crc (n + 1) results := by
  constructor
  · intro h
    refine ⟨h 0 result rfl, ?_⟩
    intro i later hlater
    have hnext := h (i + 1) later hlater
    rw [show n + (i + 1) + 1 = n + 1 + i + 1 by omega] at hnext
    exact hnext
  · rintro ⟨hfirst, hrest⟩ i later hlater
    cases i with
    | zero =>
      cases hlater
      exact hfirst
    | succ i =>
      rw [show n + (i + 1) + 1 = n + 1 + i + 1 by omega]
      exact hrest i later hlater

theorem sequencedFrom_iff (h : Appended [] [] (framesFrom crc 0 done) w) (hlsn : w.currentLsn = done.length)
    (hdone : ∀ r ∈ done, FitsBuffer r) (hrun : appendAll crc w rs = .ok results) :
    SequencedFrom crc done.length results ↔ ∀ r ∈ rs, FitsBuffer r := by
  induction rs generalizing w done results with
  | nil =>
    cases hrun
    exact ⟨fun _ _ hr => (nomatch hr), fun _ _ _ hresult => (nomatch hresult)⟩
  | cons r rs ih =>
    rw [appendAll, Except.bind_eq_ok_iff] at hrun
    obtain ⟨⟨w', lsn⟩, happend, hrun⟩ := hrun
    rw [Except.bind_eq_ok_iff] at hrun
    obtain ⟨rest, hrest, hresults⟩ := hrun
    cases hresults
    obtain ⟨hstep, hreturned, hcases⟩ := h.append_cases happend
    rw [sequencedFrom_cons, List.forall_mem_cons]
    rcases hcases with ⟨hlarge, hsame⟩ | ⟨hfits, hnext⟩
    · -- the counter stays where the sequence goes on
      have hnot : ¬ FitsBuffer r := by
        have hle := totalSize_le r
        unfold FitsBuffer
        omega
      constructor
      · intro hseq
        have hcurrent := hseq.1.current
        dsimp only at hcurrent
        omega
      · exact fun hall => absurd hall.1 hnot
    · have hdone' : ∀ r' ∈ done ++ [r], FitsBuffer r' := by
        intro r' hr'
        rcases List.mem_append.mp hr' with hr' | hr'
        · exact hdone r' hr'
        · rw [List.mem_singleton.mp hr']
          exact hfits
      have hlength : (done ++ [r]).length = done.length + 1 := by
        rw [List.length_append, List.length_singleton]
      have hstep' : Appended [] [] (framesFrom crc 0 (done ++ [r])) w' := by
        rw [framesFrom_concat hdone, Nat.zero_add, ← hlsn]
        exact hstep
      have hcurrent : w'.currentLsn = (done ++ [r]).length := by
        rw [hlength, hnext, hlsn]
      have hfirst := atLsn_of_appended hstep' hcurrent hdone'
      have hlater := ih hstep' hcurrent hdone' hrest
      rw [hlength] at hfirst hlater
      rw [hlsn] at hreturned
      subst hreturned
      rw [hlater]
      exact ⟨fun hseq => ⟨hfits, hseq.2⟩, fun hall => ⟨hfirst, hall.2⟩⟩

/-- Appends to a fresh log count their records, in the results, in the log, in the headers and in a scan of
the synced file, exactly when every record fits the buffer. -/
theorem lsns_in_sequence (crc : Crc) (rs : List CommitRecord) (results : List (Wal × Nat))
    (hrun : appendAll crc Wal.create rs = .ok results) :
    SequencedFrom crc 0 results ↔ ∀ r ∈ rs, headerSize + r.payload.length + trailerSize ≤ defaultBufferSize :=
  @sequencedFrom_iff crc Wal.create rs [] results appended_create rfl (fun _ hr => nomatch hr) hrun

theorem appendAll_ok {fs : List Bytes} (h : Appended [] [] fs w)
    (hrs : ∀ r ∈ rs, r.serializePayload = some r.payload ∧ r.payload.length < 2 ^ 32) :
    ∃ results, appendAll crc w rs = .ok results := by
  induction rs generalizing w fs with
  | nil => exact ⟨[], rfl⟩
  | cons r rs ih =>
    obtain ⟨hser, hlen⟩ := hrs r List.mem_cons_self
    obtain ⟨w', lsn, happend⟩ := h.append_ok crc hser hlen
    obtain ⟨rest, hrest⟩ := ih (h.append happend).1 fun r' hr' => hrs r' (List.mem_cons_of_mem _ hr')
    refine ⟨(w', lsn) :: rest, ?_⟩
    rw [appendAll, happend, Except.ok_bind, hrest]
    rfl

/-- A record with a value of `n` bytes. -/
def recordOfSize (n : Nat) : CommitRecord := .new 1 2 [.put [7] (List.replicate n 0)]

theorem length_recordOfSize_payload (n : Nat) : (recordOfSize n).payload.length = 41 + n := by
  rw [CommitRecord.length_payload]
  show 32 + (8 + 1 + (List.replicate n (0 : UInt8)).length + 0) = 41 + n
  rw [List.length_replicate]
  omega

theorem recordOfSize_serialized {n : Nat} (h : n ≤ 16 * 1024 * 1024) :
    (recordOfSize n).serializePayload = some (recordOfSize n).payload ∧
      (recordOfSize n).payload.length < 2 ^ 32 := by
  constructor
  · apply CommitRecord.serializePayload_of_fits
    intro m hm
    rw [List.mem_singleton.mp hm]
    show [7].length ≤ 4096 ∧ (List.replicate n (0 : UInt8)).length ≤ 16 * 1024 * 1024
    rw [List.length_replicate]
    exact ⟨by decide, h⟩
  · rw [length_recordOfSize_payload]
    omega

theorem shortRecord_serialized : shortRecord.serializePayload = some shortRecord.payload ∧
    shortRecord.payload.length < 2 ^ 32 := by
  constructor
  · apply CommitRecord.serializePayload_of_fits
    intro m hm
    rw [List.mem_singleton.mp hm]
    decide
  · rw [length_shortRecord_payload]
    decide

theorem lsns_in_sequence_two : ∃ results,
    appendAll crc32cAppend Wal.create [recordOfSize 100, shortRecord] = .ok results ∧
      SequencedFrom crc32cAppend 0 results := by
  have hserialized : ∀ r ∈ [recordOfSize 100, shortRecord],
      r.serializePayload = some r.payload ∧ r.payload.length < 2 ^ 32 := by
    rw [List.forall_mem_cons, List.forall_mem_singleton]
    exact ⟨recordOfSize_serialized (by decide), shortRecord_serialized⟩
  obtain ⟨results, hrun⟩ := @appendAll_ok crc32cAppend _ _ _ appended_create hserialized
  refine ⟨results, hrun, (lsns_in_sequence crc32cAppend _ results hrun).mpr ?_⟩
  rw [List.forall_mem_cons, List.forall_mem_singleton, length_recordOfSize_payload, length_shortRecord_payload]
  decide

/-- After a large record `current_lsn` is still 0, and the next append returns LSN 1 again. -/
theorem large_record_keeps_lsn : ∃ w w',
    appendAll crc32cAppend Wal.create [recordOfSize 70000, shortRecord] = .ok [(w, 1), (w', 1)] ∧
      w.currentLsn = 0 ∧ ¬ SequencedFrom crc32cAppend 0 [(w, 1), (w', 1)] := by
  have hserialized := recordOfSize_serialized (n := 70000) (by decide)
  obtain ⟨w, lsn, hlarge⟩ := appended_create.append_ok crc32cAppend hserialized.1 hserialized.2
  obtain ⟨hw, hreturned, hcurrent | hcurrent⟩ := appended_create.append_cases hlarge
  · obtain ⟨w', lsn', hshort⟩ := hw.append_ok crc32cAppend shortRecord_serialized.1 shortRecord_serialized.2
    have hzero : w.currentLsn = 0 := hcurrent.2
    have hreturned' := (hw.append_cases hshort).2.1
    rw [hzero] at hreturned'
    subst hreturned hreturned'
    refine ⟨w, w', ?_, hzero, ?_⟩
    · rw [appendAll, hlarge, Except.ok_bind, appendAll, hshort, Except.ok_bind]
      rfl
    · intro hseq
      have hone : w.currentLsn = 1 := (hseq 0 (w, 1) rfl).current
      omega
  · have hfits := hcurrent.1
    rw [length_recordOfSize_payload] at hfits
    exact absurd hfits (by decide)

end Northstar.Wal
