import Northstar.Wal.Log

/-!
# Readers — the scanner and the replay iterator as frame readers

Both readers look only at the bytes from the current position on.  Each is one `FrameLog` reader,
and its loop is the run of that reader; what a frame is to them is then a fact about one step.
-/

namespace Northstar.Wal

open Bytes FrameLog

/-- One turn of the loop of `scan_highest_lsn`. -/
def scanStep (crc : Crc) (rest : Bytes) : Step Unit Error :=
  if rest.length < headerSize then .stop
  else
    match RecordHeader.fromBytes (window rest 0 headerSize) with
    | .error e => .fail e
    | .ok header =>
      match header.validate crc with
      | .error e => .fail e
      | .ok _ =>
        let payloadLen := header.payloadLen.toNat
        let recordSize := headerSize + payloadLen + trailerSize
        if recordSize > rest.length then .stop
        else
          let calculated := checksum crc (window rest headerSize payloadLen)
          if calculated ≠ header.payloadCrc32c then
            .fail (.validation (.checksumMismatch header.payloadCrc32c calculated))
          else
            match RecordTrailer.fromBytes (window rest (headerSize + payloadLen) trailerSize) with
            | .error e => .fail e
            | .ok trailer =>
              match trailer.validate crc (UInt32.ofNat recordSize) with
              | .error e => .fail e
              | .ok () => .frame () recordSize

/-- What one call of the replay iterator makes of the bytes that are left. -/
def replayStep (crc : Crc) (rest : Bytes) : Step CommitRecord Error :=
  match readNextCommit crc rest 0 with
  | .ok (some (record, recordSize)) => .frame record recordSize
  | _ => .stop

/-- `rest` starts with a complete record that passes every check the two readers share. -/
structure HasRecord (crc : Crc) (rest : Bytes) (header : RecordHeader) (size : Nat) : Prop where
  parses : RecordHeader.fromBytes (window rest 0 headerSize) = .ok header
  valid : ∃ t, header.validate crc = .ok t
  size_eq : size = headerSize + header.payloadLen.toNat + trailerSize
  fits : size ≤ rest.length
  payload_crc : checksum crc (window rest headerSize header.payloadLen.toNat) = header.payloadCrc32c
  trailer : ∃ trailer,
    RecordTrailer.fromBytes (window rest (headerSize + header.payloadLen.toNat) trailerSize) =
      .ok trailer ∧ trailer.validate crc (UInt32.ofNat size) = .ok ()

/-- `rest` is too short for a header, or starts with a valid header whose record is cut off. -/
def Torn (crc : Crc) (rest : Bytes) : Prop :=
  rest.length < headerSize ∨
    ∃ header t, RecordHeader.fromBytes (window rest 0 headerSize) = .ok header ∧
      header.validate crc = .ok t ∧
        rest.length < headerSize + header.payloadLen.toNat + trailerSize

variable {crc : Crc} {rest data : Bytes} {size : Nat}

theorem scanStep_of_hasRecord {header : RecordHeader}
    (h : HasRecord crc rest header size) : scanStep crc rest = .frame () size := by
  obtain ⟨hparse, ⟨t, hvalid⟩, hsize, hfits, hcrc, trailer, htrailer, hcheck⟩ := h
  subst hsize
  simp only [scanStep, hparse, hvalid, htrailer, hcrc]
  rw [if_neg (by omega), if_neg (by omega), if_neg (fun h => h rfl), hcheck]

theorem scanStep_cases (crc : Crc) (rest : Bytes) : (scanStep crc rest = .stop ∧ Torn crc rest) ∨
      (∃ header size, scanStep crc rest = .frame () size ∧ HasRecord crc rest header size) ∨
      ∃ e, scanStep crc rest = .fail e := by
  unfold scanStep
  by_cases hshort : rest.length < headerSize
  · exact .inl ⟨if_pos hshort, .inl hshort⟩
  · rw [if_neg hshort]
    cases hparse : RecordHeader.fromBytes (window rest 0 headerSize) with
    | error e => exact .inr (.inr ⟨e, rfl⟩)
    | ok header =>
      dsimp only
      cases hvalid : header.validate crc with
      | error e => exact .inr (.inr ⟨e, rfl⟩)
      | ok t =>
        dsimp only
        split
        next hcut => exact .inl ⟨rfl, .inr ⟨header, t, hparse, hvalid, hcut⟩⟩
        next hfits =>
          right
          split
          · exact .inr ⟨_, rfl⟩
          next hcrc =>
            cases htrailer : RecordTrailer.fromBytes
                (window rest (headerSize + header.payloadLen.toNat) trailerSize) with
            | error e => exact .inr ⟨e, rfl⟩
            | ok trailer =>
              dsimp only
              cases hcheck : trailer.validate crc
                  (UInt32.ofNat (headerSize + header.payloadLen.toNat + trailerSize)) with
              | error e => exact .inr ⟨e, rfl⟩
              | ok _ => exact .inl ⟨header, _, rfl, hparse, ⟨t, hvalid⟩, rfl, Nat.not_lt.mp hfits, not_ne_iff.mp hcrc,
                  trailer, htrailer, hcheck⟩

theorem hasRecord_of_scanStep {u : Unit}
    (h : scanStep crc rest = .frame u size) : ∃ header, HasRecord crc rest header size := by
  rcases scanStep_cases crc rest with ⟨hstop, -⟩ | ⟨header, size', hframe, hrecord⟩ | ⟨e, hfail⟩
  · cases hstop.symm.trans h
  · cases hframe.symm.trans h
    exact ⟨header, hrecord⟩
  · cases hfail.symm.trans h

theorem scanStep_eq_stop_iff : scanStep crc rest = .stop ↔ Torn crc rest := by
  constructor
  · intro h
    rcases scanStep_cases crc rest with ⟨-, htorn⟩ | ⟨header, size, hframe, -⟩ | ⟨e, hfail⟩
    · exact htorn
    · cases hframe.symm.trans h
    · cases hfail.symm.trans h
  · rintro (hshort | ⟨header, t, hparse, hvalid, hcut⟩)
    · exact if_pos hshort
    · by_cases hshort : rest.length < headerSize
      · exact if_pos hshort
      · simp only [scanStep, hparse, hvalid]
        rw [if_neg hshort, if_pos hcut]

variable {r : CommitRecord} {filePos : Nat}

theorem replayStep_of_hasRecord {header : RecordHeader} (h : HasRecord crc rest header size)
    (htype : RecordType.fromU16 header.recordType = some .commit)
    (hdecode : CommitRecord.deserializePayload crc header.txnId
      (window rest headerSize header.payloadLen.toNat) = .ok r) :
    replayStep crc rest = .frame r size := by
  obtain ⟨hparse, ⟨t, hvalid⟩, hsize, hfits, hcrc, trailer, htrailer, hcheck⟩ := h
  subst hsize
  simp only [replayStep, readNextCommit, Nat.zero_add, hparse, hvalid, htype, hcrc, htrailer,
    hcheck, hdecode]
  rw [if_neg (by omega), if_neg (by omega), if_neg (fun h => h rfl)]

/-- The replay iterator yields a record only where the scanner steps over one of type commit whose
payload decodes. -/
theorem hasRecord_of_replayStep (h : replayStep crc rest = .frame r size) :
    ∃ header, HasRecord crc rest header size ∧
      CommitRecord.deserializePayload crc header.txnId
        (window rest headerSize header.payloadLen.toNat) = .ok r := by
  simp only [replayStep, readNextCommit, Nat.zero_add] at h
  by_cases hshort : headerSize > rest.length
  · simp only [if_pos hshort, reduceCtorEq] at h
  · rw [if_neg hshort] at h
    cases hparse : RecordHeader.fromBytes (window rest 0 headerSize) with
    | error e => simp only [hparse, reduceCtorEq] at h
    | ok header =>
      cases hvalid : header.validate crc with
      | error e => simp only [hparse, hvalid, reduceCtorEq] at h
      | ok t =>
        by_cases htype : RecordType.fromU16 header.recordType = some .commit
        · by_cases hcut : headerSize + header.payloadLen.toNat + trailerSize > rest.length
          · simp only [hparse, hvalid, htype, if_pos hcut, reduceCtorEq] at h
          · by_cases hcrc : checksum crc (window rest headerSize header.payloadLen.toNat) =
                header.payloadCrc32c
            · cases htrailer : RecordTrailer.fromBytes
                  (window rest (headerSize + header.payloadLen.toNat) trailerSize) with
              | error e =>
                simp only [hparse, hvalid, htype, if_neg hcut, hcrc, htrailer, ne_eq,
                  not_true_eq_false, if_false, reduceCtorEq] at h
              | ok trailer =>
                cases hcheck : trailer.validate crc
                    (UInt32.ofNat (headerSize + header.payloadLen.toNat + trailerSize)) with
                | error e =>
                  simp only [hparse, hvalid, htype, if_neg hcut, hcrc, htrailer, hcheck, ne_eq,
                    not_true_eq_false, if_false, reduceCtorEq] at h
                | ok _ =>
                  cases hdecode : CommitRecord.deserializePayload crc header.txnId
                      (window rest headerSize header.payloadLen.toNat) with
                  | error e =>
                    simp only [hparse, hvalid, htype, if_neg hcut, hcrc, htrailer, hcheck, hdecode,
                      ne_eq, not_true_eq_false, if_false, reduceCtorEq] at h
                  | ok record =>
                    simp only [hparse, hvalid, htype, if_neg hcut, hcrc, htrailer, hcheck, hdecode,
                      ne_eq, not_true_eq_false, if_false] at h
                    cases h
                    exact ⟨header, ⟨hparse, ⟨t, hvalid⟩, rfl, Nat.not_lt.mp hcut, hcrc, trailer,
                      htrailer, hcheck⟩, hdecode⟩
            · simp only [hparse, hvalid, htype, if_neg hcut, if_pos hcrc, ne_eq, reduceCtorEq] at h
        · rcases htype' : RecordType.fromU16 header.recordType with _ | (_ | _ | _)
          · simp only [hparse, hvalid, htype', reduceCtorEq] at h
          · exact absurd htype' htype
          · simp only [hparse, hvalid, htype', reduceCtorEq] at h
          · simp only [hparse, hvalid, htype', reduceCtorEq] at h

theorem replayStep_eq_stop_of_torn (h : Torn crc rest) : replayStep crc rest = .stop := by
  cases hreplay : replayStep crc rest with
  | stop => rfl
  | fail e =>
    unfold replayStep at hreplay
    split at hreplay <;> cases hreplay
  | frame r size =>
    obtain ⟨header, hrec, -⟩ := hasRecord_of_replayStep hreplay
    have hscan := scanStep_of_hasRecord hrec
    rw [scanStep_eq_stop_iff.mpr h] at hscan
    cases hscan

theorem scanFrom_eq_step (crc : Crc) (data : Bytes) (filePos currentLsn : Nat) :
    scanFrom crc data filePos currentLsn =
      match scanStep crc (data.drop filePos) with
      | .stop => .ok (currentLsn, filePos)
      | .fail e => .error e
      | .frame _ size => scanFrom crc data (filePos + size) (currentLsn + 1) := by
  have hlen : (data.drop filePos).length = data.length - filePos := List.length_drop
  rw [scanFrom, scanStep]
  by_cases hpos : filePos < data.length
  · rw [dif_pos hpos]
    by_cases hhead : filePos + headerSize > data.length
    · rw [if_pos hhead, if_pos (by omega)]
    · rw [if_neg hhead, if_neg (by omega), window_drop, Nat.add_zero]
      cases RecordHeader.fromBytes (window data filePos headerSize) with
      | error e => rfl
      | ok header =>
        dsimp only
        cases header.validate crc with
        | error e => rfl
        | ok _ =>
          dsimp only
          have hguard : filePos + (headerSize + header.payloadLen.toNat + trailerSize) >
              data.length ↔
                headerSize + header.payloadLen.toNat + trailerSize > (data.drop filePos).length := by
            omega
          simp only [hguard, window_drop]
          rw [← Nat.add_assoc filePos headerSize header.payloadLen.toNat]
          split
          · rfl
          · split
            · rfl
            · cases RecordTrailer.fromBytes (window data (filePos + headerSize +
                  header.payloadLen.toNat) trailerSize) with
              | error e => rfl
              | ok trailer =>
                dsimp only
                cases trailer.validate crc
                  (UInt32.ofNat (headerSize + header.payloadLen.toNat + trailerSize)) <;> rfl
  · rw [dif_neg hpos, if_pos (by rw [hlen, headerSize]; omega)]

/-- The replay iterator reads the same whether it stands at `filePos` or the bytes before it are
cut off. -/
theorem readNextCommit_drop (crc : Crc) (data : Bytes) (filePos : Nat)
    (hpos : filePos ≤ data.length) :
    readNextCommit crc data filePos = readNextCommit crc (data.drop filePos) 0 := by
  have hlen : (data.drop filePos).length = data.length - filePos := List.length_drop
  have hguard (n : Nat) : filePos + n > data.length ↔ 0 + n > (data.drop filePos).length := by
    rw [hlen]
    omega
  unfold readNextCommit
  simp only [window_drop, hguard, Nat.add_zero, Nat.zero_add, Nat.add_assoc]

theorem scanFrom_of_reads {crc : Crc} {data : Bytes} (filePos currentLsn : Nat) {n : Nat}
    {us : List Unit} (h : Reads (scanStep crc) (data.drop filePos) us n) :
    scanFrom crc data filePos currentLsn = .ok (currentLsn + us.length, filePos + n) := by
  generalize hrest : data.drop filePos = rest at h
  induction h generalizing filePos currentLsn with
  | stop hstop =>
    subst hrest
    rw [scanFrom_eq_step, hstop]
    rfl
  | @frame rest u size us n hframe _ ih =>
    subst hrest
    have hloop : scanFrom crc data filePos currentLsn =
        scanFrom crc data (filePos + size) (currentLsn + 1) := by
      rw [scanFrom_eq_step, hframe]
    rw [hloop, ih _ _ (List.drop_drop ..).symm, List.length_cons]
    congr 2 <;> omega

theorem reads_of_scanFrom {currentLsn lsn stop : Nat}
    (h : scanFrom crc data filePos currentLsn = .ok (lsn, stop)) :
    ∃ us n, Reads (scanStep crc) (data.drop filePos) us n ∧ lsn = currentLsn + us.length ∧
      stop = filePos + n := by
  induction hlen : data.length - filePos using Nat.strongRecOn generalizing filePos currentLsn with
  | ind len ih =>
    rw [scanFrom_eq_step] at h
    cases hstep : scanStep crc (data.drop filePos) with
    | stop =>
      rw [hstep] at h
      cases h
      exact ⟨[], 0, .stop hstep, rfl, rfl⟩
    | fail e =>
      rw [hstep] at h
      cases h
    | frame u size =>
      rw [hstep] at h
      obtain ⟨header, hrec⟩ := hasRecord_of_scanStep hstep
      have hfits := hrec.fits
      have hsize := hrec.size_eq
      rw [List.length_drop] at hfits
      rw [headerSize] at hsize
      obtain ⟨us, n, hreads, hlsn, hstop⟩ :=
        ih (data.length - (filePos + size)) (by omega) h rfl
      refine ⟨u :: us, size + n, .frame hstep (by rwa [List.drop_drop]), ?_, by omega⟩
      rw [hlsn, List.length_cons]
      omega

theorem readNextCommit_error {e : Error}
    (h : readNextCommit crc data filePos = .error e) : ∃ v, e = .validation v := by
  simp only [readNextCommit] at h
  repeat' split at h
  all_goals cases h
  exact ⟨_, rfl⟩

theorem next_eq_step (crc : Crc) (data : Bytes) (filePos currentLsn : Nat) :
    WalReplayIterator.next crc ⟨data, filePos, currentLsn, false⟩ =
      match replayStep crc (data.drop filePos) with
      | .frame r size => (some (.ok r), ⟨data, filePos + size, currentLsn + 1, false⟩)
      | _ => (none, ⟨data, filePos, currentLsn, true⟩) := by
  unfold WalReplayIterator.next
  rw [if_neg Bool.false_ne_true]
  by_cases hpos : filePos ≥ data.length
  · have htorn : Torn crc (data.drop filePos) := by
      rw [List.drop_eq_nil_of_le hpos]
      exact .inl (by decide)
    rw [if_pos hpos, replayStep_eq_stop_of_torn htorn]
  · rw [if_neg hpos]
    dsimp only
    rw [readNextCommit_drop crc data filePos (by omega), replayStep]
    cases hread : readNextCommit crc (data.drop filePos) 0 with
    | error e =>
      obtain ⟨v, rfl⟩ := readNextCommit_error hread
      rfl
    | ok found =>
      cases found with
      | none => rfl
      | some p => rfl

/-- A run of the iterator's steps is what draining it gives, once the fuel exceeds the number of
records. -/
theorem drain_of_reads {currentLsn n : Nat}
    {rs : List CommitRecord} (h : Reads (replayStep crc) (data.drop filePos) rs n)
    {fuel : Nat} (hfuel : rs.length < fuel) :
    WalReplayIterator.drain crc fuel ⟨data, filePos, currentLsn, false⟩ = (rs.map .ok, true) := by
  generalize hrest : data.drop filePos = rest at h
  induction h generalizing filePos currentLsn fuel with
  | stop hstop =>
    subst hrest
    obtain ⟨fuel, rfl⟩ : ∃ k, fuel = k + 1 := ⟨fuel - 1, by omega⟩
    rw [WalReplayIterator.drain, next_eq_step, hstop]
    rfl
  | @frame rest r size rs n hframe _ ih =>
    subst hrest
    rw [List.length_cons] at hfuel
    obtain ⟨fuel, rfl⟩ : ∃ k, fuel = k + 1 := ⟨fuel - 1, by omega⟩
    rw [WalReplayIterator.drain, next_eq_step, hframe]
    dsimp only
    rw [ih (by omega) (List.drop_drop ..).symm, List.map_cons]

theorem replayStep_frame_size
    (h : replayStep crc rest = .frame r size) : 0 < size ∧ size ≤ rest.length := by
  obtain ⟨header, hrec, -⟩ := hasRecord_of_replayStep h
  have hsize := hrec.size_eq
  rw [headerSize] at hsize
  exact ⟨by omega, hrec.fits⟩

theorem replay_of_reads {rs : List CommitRecord} {n : Nat}
    (h : Reads (replayStep crc) data rs n) : replay crc data = (rs.map .ok, true) := by
  have hlen : rs.length ≤ data.length :=
    h.length_le (fun _ _ _ hframe => replayStep_frame_size hframe)
  exact drain_of_reads (by rwa [List.drop_zero]) (Nat.lt_succ_of_le hlen)

theorem reads_of_replay (crc : Crc) (data : Bytes) :
    ∃ rs n, Reads (replayStep crc) data rs n ∧ replay crc data = (rs.map .ok, true) := by
  have hfail (rest : Bytes) (e : Error) : replayStep crc rest ≠ .fail e := by
    unfold replayStep
    split <;> exact fun h => nomatch h
  obtain ⟨rs, n, hreads⟩ := Reads.exists_of_total hfail
    (fun _ _ _ hframe => replayStep_frame_size hframe) data
  exact ⟨rs, n, hreads, replay_of_reads hreads⟩

end Northstar.Wal
