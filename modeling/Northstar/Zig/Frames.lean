import Northstar.Zig.Wal
import Northstar.Zig.Payload

/-!
# Frames — what the log writes

Whatever the mix of buffered and direct writes, the accepted records end up as one run of frames,
placed where `file_pos` stood.
-/

namespace Northstar.Zig

open Bytes

namespace RecordHeader

def bytes (h : RecordHeader) (headerCrc : UInt32) : Bytes := ((h.fields headerCrc).map Prod.fst).flatten

theorem bytes_eq (h : RecordHeader) (headerCrc : UInt32) :
    h.bytes headerCrc = u32 h.magic ++ (u16 h.recordVersion ++ (u16 h.recordType ++
      (u16 h.headerLen ++ (u16 h.flags ++ (u64 h.txnId ++ (u64 h.prevLsn ++ (u32 h.payloadLen ++
        (u32 headerCrc ++ u32 h.payloadCrc32c)))))))) := by
  unfold bytes fields
  simp only [List.map_cons, List.map_nil, List.flatten_cons, List.flatten_nil, List.append_nil]

theorem length_bytes (h : RecordHeader) (headerCrc : UInt32) : (h.bytes headerCrc).length = size := by
  rw [bytes_eq]
  simp only [List.length_append, length_u16, length_u32, length_u64]
  rfl

theorem readExplicitHeader_bytes (h : RecordHeader) (headerCrc : UInt32) :
    readExplicitHeader (h.bytes headerCrc) = some { h with headerCrc32c := headerCrc } := by
  unfold readExplicitHeader
  rw [if_neg (by rw [length_bytes]; exact Nat.lt_irrefl _), bytes_eq]
  simp (disch := simp) only [window_append_right, window_head, window_zero_length, length_u16,
    length_u32, length_u64, Nat.reduceSub, readU16_u16, readU32_u32, readU64_u64]

end RecordHeader

variable {r : CommitRecord}

namespace CommitRecord

/-- The records `appendCommitRecord` takes. -/
def Accepted (r : CommitRecord) : Prop :=
  r.checksum = Crc32.hash r.payload ∧ (∀ m ∈ r.mutations, m.Fits) ∧ r.mutations.length < 2 ^ 32 ∧
    RecordHeader.size + r.payload.length + recordTrailerSize < 2 ^ 32

instance (r : CommitRecord) : Decidable r.Accepted :=
  inferInstanceAs (Decidable (_ ∧ _ ∧ _ ∧ _))

def frameHeader (lsn : Nat) (r : CommitRecord) : RecordHeader where
  recordType := 0
  flags := 0x02
  txnId := r.txnId
  prevLsn := UInt64.ofNat lsn
  payloadLen := UInt32.ofNat r.payload.length
  headerCrc32c := 0
  payloadCrc32c := Crc32.hash r.payload

def frameTrailer (r : CommitRecord) : Bytes :=
  ((trailerFields (UInt32.ofNat (RecordHeader.size + r.payload.length + recordTrailerSize))
    (calculateExplicitTrailerChecksum
      (UInt32.ofNat (RecordHeader.size + r.payload.length + recordTrailerSize)))).map
        Prod.fst).flatten

/-- A record behind `lsn` others. -/
def frame (lsn : Nat) (r : CommitRecord) : Bytes :=
  (r.frameHeader lsn).bytes (calculateExplicitHeaderChecksum (r.frameHeader lsn)) ++
    (r.payload ++ r.frameTrailer)

def frameFields (lsn : Nat) (r : CommitRecord) : List (Bytes × Nat) :=
  (r.frameHeader lsn).fields (calculateExplicitHeaderChecksum (r.frameHeader lsn)) ++
    [(r.payload, r.payload.length)] ++
    trailerFields (UInt32.ofNat (RecordHeader.size + r.payload.length + recordTrailerSize))
      (calculateExplicitTrailerChecksum
        (UInt32.ofNat (RecordHeader.size + r.payload.length + recordTrailerSize)))

def frames : Nat → List CommitRecord → Bytes
  | _, [] => []
  | lsn, r :: rs => r.frame lsn ++ frames (lsn + 1) rs

theorem append_frames_cons (pre tail : Bytes) (lsn : Nat) (r : CommitRecord) (rs : List CommitRecord) :
    pre ++ (frames lsn (r :: rs) ++ tail) = pre ++ (r.frame lsn ++ (frames (lsn + 1) rs ++ tail)) ∧
      pre ++ (frames lsn (r :: rs) ++ tail) = (pre ++ r.frame lsn) ++ (frames (lsn + 1) rs ++ tail) := by
  rw [frames, List.append_assoc, List.append_assoc]
  exact ⟨rfl, rfl⟩

theorem length_frameTrailer (r : CommitRecord) : r.frameTrailer.length = recordTrailerSize := by
  unfold frameTrailer trailerFields
  simp only [List.map_cons, List.map_nil, List.flatten_cons, List.flatten_nil, List.length_append,
    length_u32, List.length_nil]
  rfl

theorem length_frame (lsn : Nat) (r : CommitRecord) :
    (r.frame lsn).length = RecordHeader.size + r.payload.length + recordTrailerSize := by
  unfold frame
  rw [List.length_append, List.length_append, RecordHeader.length_bytes, length_frameTrailer]
  omega

theorem flatten_frameFields (lsn : Nat) (r : CommitRecord) :
    ((r.frameFields lsn).map Prod.fst).flatten = r.frame lsn := by
  unfold frameFields frame frameTrailer RecordHeader.bytes
  rw [List.map_append, List.map_append, List.flatten_append, List.flatten_append, List.append_assoc]
  rw [List.map_singleton, List.flatten_singleton]

theorem payload_ne_nil (r : CommitRecord) : r.payload ≠ [] := by
  intro hnil
  have hlength := congrArg List.length hnil
  unfold payload at hlength
  rw [List.length_append, length_payloadHeader, List.length_nil] at hlength
  unfold CommitPayloadHeader.size at hlength
  omega

theorem frameFields_step {lsn : Nat} (r : CommitRecord) :
    ∀ f ∈ r.frameFields lsn, f.2 = f.1.length := by
  unfold frameFields RecordHeader.fields trailerFields
  simp only [List.cons_append, List.nil_append, List.forall_mem_cons, length_u16, length_u32,
    length_u64, List.not_mem_nil, false_implies, implies_true, and_self]

theorem frameFields_ne_nil {lsn : Nat} (r : CommitRecord) : ∀ f ∈ r.frameFields lsn, f.1 ≠ [] := by
  have hpayload : 0 < r.payload.length := List.length_pos_iff.mpr r.payload_ne_nil
  have hpos : ∀ f ∈ r.frameFields lsn, 0 < f.2 := by
    unfold frameFields RecordHeader.fields trailerFields
    simp only [List.cons_append, List.nil_append, List.forall_mem_cons, Nat.ofNat_pos, hpayload,
      List.not_mem_nil, false_implies, implies_true, and_self]
  intro f hf
  apply List.length_pos_iff.mp
  rw [← r.frameFields_step f hf]
  exact hpos f hf

theorem frames_append (lsn : Nat) (rs rs' : List CommitRecord) :
    frames lsn (rs ++ rs') = frames lsn rs ++ frames (lsn + rs.length) rs' := by
  induction rs generalizing lsn with
  | nil => rfl
  | cons r rs ih =>
    have hlsn : lsn + 1 + rs.length = lsn + (r :: rs).length := by
      rw [List.length_cons]
      omega
    rw [List.cons_append, frames, frames, ih, hlsn, List.append_assoc]

theorem frames_ne_nil {lsn : Nat} {rs : List CommitRecord} (h : rs ≠ []) : frames lsn rs ≠ [] := by
  cases rs with
  | nil => exact absurd rfl h
  | cons r rs =>
    intro hnil
    have hlength := congrArg List.length hnil
    rw [frames, List.length_append, length_frame, List.length_nil] at hlength
    unfold RecordHeader.size at hlength
    omega

theorem recordSize_frameHeader (h : r.Accepted) (lsn : Nat) (crc : UInt32) :
    RecordHeader.recordSize { r.frameHeader lsn with headerCrc32c := crc } = (r.frame lsn).length := by
  have hlt := h.2.2.2
  rw [length_frame]
  unfold RecordHeader.recordSize
  show RecordHeader.size + (UInt32.ofNat r.payload.length).toNat + _ = _
  rw [UInt32.toNat_ofNat', Nat.mod_eq_of_lt (by omega)]

theorem headerAt_frame (pre post : Bytes) (lsn : Nat) (r : CommitRecord) :
    headerAt (pre ++ (r.frame lsn ++ post)) pre.length =
      some { r.frameHeader lsn with
        headerCrc32c := calculateExplicitHeaderChecksum (r.frameHeader lsn) } := by
  have hwindow : window (pre ++ (r.frame lsn ++ post)) pre.length RecordHeader.size =
      (r.frameHeader lsn).bytes (calculateExplicitHeaderChecksum (r.frameHeader lsn)) := by
    unfold frame
    rw [List.append_assoc]
    exact window_append_middle rfl (RecordHeader.length_bytes ..)
  unfold headerAt
  dsimp only
  rw [hwindow, if_neg (by rw [RecordHeader.length_bytes]; exact Nat.lt_irrefl _),
    RecordHeader.readExplicitHeader_bytes]
  dsimp only
  rw [if_neg fun hno => hno rfl]

theorem validHeaderAt_frame (pre post : Bytes) (lsn : Nat) (r : CommitRecord) :
    validHeaderAt (pre ++ (r.frame lsn ++ post)) pre.length =
      some { r.frameHeader lsn with
        headerCrc32c := calculateExplicitHeaderChecksum (r.frameHeader lsn) } := by
  unfold validHeaderAt
  rw [headerAt_frame]
  dsimp only
  rw [if_neg fun hno => hno rfl]

end CommitRecord

open CommitRecord (frame frames)

theorem pwriteAll_behind {file : Bytes} {offset : Nat} (h : file.length ≤ offset) (bytes : Bytes) :
    pwriteAll file offset bytes = file ++ List.replicate (offset - file.length) 0 ++ bytes := by
  unfold pwriteAll File.writeAll
  dsimp only
  rw [List.take_of_length_le h, List.drop_eq_nil_of_le (by omega), List.append_nil]

theorem pwriteAll_end (file bytes : Bytes) : pwriteAll file file.length bytes = file ++ bytes := by
  rw [pwriteAll_behind (le_refl _), Nat.sub_self, List.replicate_zero, List.append_nil]

/-- `bytes`, written into a file from `start` on, which is not before its end. -/
def placed (base : Bytes) (start : Nat) (bytes : Bytes) : Bytes :=
  if bytes = [] then base else base ++ List.replicate (start - base.length) 0 ++ bytes

theorem pwriteAll_placed {base : Bytes} {start : Nat} (hstart : base.length ≤ start)
    (written : Bytes) {bytes : Bytes} (hne : bytes ≠ []) :
    pwriteAll (placed base start written) (start + written.length) bytes =
      placed base start (written ++ bytes) := by
  have hboth : written ++ bytes ≠ [] := fun hno => hne (List.append_eq_nil_iff.mp hno).2
  unfold placed
  rw [if_neg hboth]
  by_cases hnone : written = []
  · rw [if_pos hnone, hnone, List.length_nil, Nat.add_zero, pwriteAll_behind hstart, List.nil_append]
  · rw [if_neg hnone]
    have hlength : (base ++ List.replicate (start - base.length) (0 : UInt8) ++ written).length =
        start + written.length := by
      rw [List.length_append, List.length_append, List.length_replicate]
      omega
    rw [← hlength, pwriteAll_end, List.append_assoc _ written bytes]

theorem writeFields_placed {base : Bytes} {start : Nat} (hstart : base.length ≤ start)
    (written : Bytes) (fields : List (Bytes × Nat)) (hne : ∀ f ∈ fields, f.1 ≠ [])
    (hstep : ∀ f ∈ fields, f.2 = f.1.length) :
    WriteAheadLog.writeFields (placed base start written) (start + written.length) fields =
      placed base start (written ++ (fields.map Prod.fst).flatten) := by
  unfold WriteAheadLog.writeFields
  induction fields generalizing written with
  | nil =>
    rw [List.map_nil, List.flatten_nil, List.append_nil]
    rfl
  | cons f fields ih =>
    rw [List.foldl_cons, pwriteAll_placed hstart written (hne f (List.mem_cons_self ..)),
      hstep f (List.mem_cons_self ..), Nat.add_assoc, ← List.length_append,
      ih (written ++ f.1) (fun g hg => hne g (List.mem_cons_of_mem _ hg))
        (fun g hg => hstep g (List.mem_cons_of_mem _ hg)), List.map_cons, List.flatten_cons,
      List.append_assoc]

/-- The log has taken the records `rs` behind `lsn` others, and writes them into `base` from `start`
on; the last of them may still be in the buffer. -/
def Pending (base : Bytes) (start lsn : Nat) (rs : List CommitRecord) (w : WriteAheadLog) : Prop :=
  ∃ written, written ++ w.buffer = frames lsn rs ∧ w.file = placed base start written ∧
    w.filePos = start + written.length ∧ w.currentLsn = lsn + rs.length

namespace Pending

variable {base : Bytes} {start lsn : Nat} {rs : List CommitRecord} {w : WriteAheadLog}

theorem flush (hstart : base.length ≤ start) (h : Pending base start lsn rs w) :
    Pending base start lsn rs w.flush ∧ w.flush.buffer = [] := by
  rcases h with ⟨written, hbuffer, hfile, hpos, hlsn⟩
  unfold WriteAheadLog.flush
  by_cases hempty : w.buffer.length = 0
  · rw [if_pos hempty]
    exact ⟨⟨written, hbuffer, hfile, hpos, hlsn⟩, List.length_eq_zero_iff.mp hempty⟩
  · rw [if_neg hempty]
    refine ⟨⟨written ++ w.buffer, ?_, ?_, ?_, hlsn⟩, rfl⟩
    · rw [List.append_nil]
      exact hbuffer
    · show pwriteAll w.file w.filePos w.buffer = _
      rw [hfile, hpos, pwriteAll_placed hstart]
      exact fun hno => hempty (by rw [hno]; rfl)
    · show w.filePos + w.buffer.length = _
      rw [hpos, List.length_append, Nat.add_assoc]

theorem sync (hstart : base.length ≤ start) (h : Pending base start lsn rs w) :
    Pending base start lsn rs w.sync ∧ w.sync.buffer = [] := by
  unfold WriteAheadLog.sync
  by_cases hsome : w.buffer.length > 0
  · rw [if_pos hsome]
    exact h.flush hstart
  · rw [if_neg hsome]
    refine ⟨h, List.length_eq_zero_iff.mp ?_⟩
    show w.buffer.length = 0
    omega

theorem file_eq (h : Pending base start lsn rs w) (hbuffer : w.buffer = []) :
    w.file = placed base start (frames lsn rs) ∧ w.filePos = start + (frames lsn rs).length ∧
      w.currentLsn = lsn + rs.length := by
  rcases h with ⟨written, hframes, hfile, hpos, hlsn⟩
  rw [hbuffer, List.append_nil] at hframes
  rw [← hframes]
  exact ⟨hfile, hpos, hlsn⟩

theorem writeRecord (hstart : base.length ≤ start) (h : Pending base start lsn rs w)
    (r : CommitRecord) :
    Pending base start lsn (rs ++ [r]) (w.writeRecord (r.frame (lsn + rs.length)).length
      (r.frameFields (lsn + rs.length))) := by
  have hflushed : Pending base start lsn rs
        (if w.buffer.length + (r.frame (lsn + rs.length)).length > WriteAheadLog.bufferSize then w.flush
          else w) ∧
      ((r.frame (lsn + rs.length)).length > WriteAheadLog.bufferSize →
        (if w.buffer.length + (r.frame (lsn + rs.length)).length > WriteAheadLog.bufferSize then w.flush
          else w).buffer = []) := by
    by_cases hfull : w.buffer.length + (r.frame (lsn + rs.length)).length > WriteAheadLog.bufferSize
    · rw [if_pos hfull]
      exact ⟨(h.flush hstart).1, fun _ => (h.flush hstart).2⟩
    · rw [if_neg hfull]
      exact ⟨h, fun hlarge => absurd hlarge (by omega)⟩
  unfold WriteAheadLog.writeRecord
  dsimp only
  generalize (if w.buffer.length + (r.frame (lsn + rs.length)).length > WriteAheadLog.bufferSize
    then w.flush else w) = w₁ at hflushed
  rcases hflushed with ⟨⟨written, hbuffer, hfile, hpos, hlsn⟩, hempty⟩
  have hfields := r.flatten_frameFields (lsn + rs.length)
  have hcount : w₁.currentLsn + 1 = lsn + (rs ++ [r]).length := by
    rw [hlsn, List.length_append, List.length_singleton]
    omega
  have hframes : frames lsn (rs ++ [r]) = frames lsn rs ++ r.frame (lsn + rs.length) := by
    rw [CommitRecord.frames_append]
    show _ ++ (_ ++ []) = _
    rw [List.append_nil]
  by_cases hlarge : (r.frame (lsn + rs.length)).length > WriteAheadLog.bufferSize
  · -- the buffer is empty, and the fields go behind what is written
    rw [if_pos hlarge]
    have hnone := hempty hlarge
    rw [hnone, List.append_nil] at hbuffer
    refine ⟨written ++ r.frame (lsn + rs.length), ?_, ?_, ?_, hcount⟩
    · show _ ++ w₁.buffer = _
      rw [hnone, List.append_nil, hbuffer, hframes]
    · show WriteAheadLog.writeFields w₁.file w₁.filePos _ = _
      rw [hfile, hpos, writeFields_placed hstart written _ r.frameFields_ne_nil r.frameFields_step,
        hfields]
    · show w₁.filePos + _ = _
      rw [hpos, List.length_append, Nat.add_assoc]
  · rw [if_neg hlarge]
    refine ⟨written, ?_, hfile, hpos, hcount⟩
    show written ++ (w₁.buffer ++ _) = _
    rw [hfields, ← List.append_assoc, hbuffer, hframes]

end Pending

theorem appendCommitRecord_eq (h : r.Accepted) (w : WriteAheadLog) : ∃ lsn, w.appendCommitRecord r =
      .ok (w.writeRecord (r.frame w.currentLsn).length (r.frameFields w.currentLsn), lsn) := by
  rcases h with ⟨hsum, hfits, hcount, hsize⟩
  have hchecksum := CommitRecord.calculatePayloadChecksum_eq hcount hfits
  have hvalid : r.validateChecksum = .ok true := by
    unfold CommitRecord.validateChecksum
    rw [hchecksum, Except.ok_bind, hsum]
    show Except.ok _ = _
    rw [beq_self_eq_true]
  have hserialize := (CommitRecord.serialize_eq_ok_iff r r.payload).mpr ⟨hcount, hfits, rfl⟩
  have hlen : intCastU32 r.payload.length = .ok (UInt32.ofNat r.payload.length) := by
    unfold intCastU32
    rw [if_pos (by omega)]
  have htotal : intCastU32 (RecordHeader.size + r.payload.length + recordTrailerSize) =
      .ok (UInt32.ofNat (RecordHeader.size + r.payload.length + recordTrailerSize)) := by
    unfold intCastU32
    rw [if_pos hsize]
  unfold WriteAheadLog.appendCommitRecord
  rw [hvalid, Except.ok_bind, if_neg (by simp), hserialize, Except.ok_bind, hchecksum, Except.ok_bind,
    hlen, Except.ok_bind]
  unfold WriteAheadLog.appendRecordWithTrailer
  simp only [htotal, Except.ok_bind]
  rw [CommitRecord.length_frame]
  exact ⟨_, rfl⟩

theorem accepted_of_append {w : WriteAheadLog} {out : WriteAheadLog × Nat}
    (h : w.appendCommitRecord r = .ok out) : r.Accepted := by
  unfold WriteAheadLog.appendCommitRecord at h
  rcases Except.bind_eq_ok_iff.mp h with ⟨valid, hvalid, h⟩
  rw [Except.guard_eq_ok_iff] at h
  rcases h with ⟨htrue, h⟩
  rcases Except.bind_eq_ok_iff.mp h with ⟨serialized, hserialize, h⟩
  rcases (CommitRecord.serialize_eq_ok_iff r _).mp hserialize with ⟨hcount, hfits, rfl⟩
  rcases Except.bind_eq_ok_iff.mp h with ⟨crc, hcrc, h⟩
  rcases Except.bind_eq_ok_iff.mp h with ⟨len, hlen, h⟩
  unfold WriteAheadLog.appendRecordWithTrailer at h
  rcases Except.bind_eq_ok_iff.mp h with ⟨total, htotal, -⟩
  refine ⟨?_, hfits, hcount, ?_⟩
  · unfold CommitRecord.validateChecksum at hvalid
    rw [CommitRecord.calculatePayloadChecksum_eq hcount hfits, Except.ok_bind] at hvalid
    have hsame : (r.checksum == Crc32.hash r.payload) = valid := Except.ok.inj hvalid
    rw [← hsame, Decidable.not_not] at htrue
    exact beq_iff_eq.mp htrue
  · unfold intCastU32 at htotal
    by_contra hlarge
    rw [if_neg hlarge] at htotal
    cases htotal

inductive WalCall where
  | append (record : CommitRecord)
  | flush
  | sync
  deriving Repr, DecidableEq

namespace WriteAheadLog

/-- A refused record leaves the log as it is. -/
def call (w : WriteAheadLog) : WalCall → WriteAheadLog
  | .append record =>
    match w.appendCommitRecord record with
    | .ok (w', _) => w'
    | .error _ => w
  | .flush => w.flush
  | .sync => w.sync

def run (w : WriteAheadLog) (calls : List WalCall) : WriteAheadLog := calls.foldl call w

end WriteAheadLog

def acceptedRecords : List WalCall → List CommitRecord
  | [] => []
  | .append record :: calls =>
    if record.Accepted then record :: acceptedRecords calls else acceptedRecords calls
  | .flush :: calls => acceptedRecords calls
  | .sync :: calls => acceptedRecords calls

theorem accepted_of_mem {calls : List WalCall} (h : r ∈ acceptedRecords calls) : r.Accepted := by
  induction calls with
  | nil => exact absurd h List.not_mem_nil
  | cons c calls ih =>
    cases c with
    | append record =>
      unfold acceptedRecords at h
      by_cases haccepted : record.Accepted
      · rw [if_pos haccepted] at h
        rcases List.mem_cons.mp h with rfl | h
        · exact haccepted
        · exact ih h
      · rw [if_neg haccepted] at h
        exact ih h
    | flush => exact ih h
    | sync => exact ih h

namespace Pending

variable {base : Bytes} {start lsn : Nat} {rs : List CommitRecord} {w : WriteAheadLog}

theorem append (hstart : base.length ≤ start) (h : Pending base start lsn rs w)
    {record : CommitRecord} (haccepted : record.Accepted) :
    Pending base start lsn (rs ++ [record]) (w.call (.append record)) := by
  have hlsn : w.currentLsn = lsn + rs.length := by
    rcases h with ⟨written, -, -, -, hlsn⟩
    exact hlsn
  rcases appendCommitRecord_eq haccepted w with ⟨n, happend⟩
  have hcall : w.call (.append record) =
      w.writeRecord (record.frame w.currentLsn).length (record.frameFields w.currentLsn) := by
    show (match w.appendCommitRecord record with
      | .ok (w', _) => w'
      | .error _ => w) = _
    rw [happend]
  rw [hcall, hlsn]
  exact h.writeRecord hstart record

theorem run (hstart : base.length ≤ start) (h : Pending base start lsn rs w) (calls : List WalCall) :
    Pending base start lsn (rs ++ acceptedRecords calls) (w.run calls) := by
  induction calls generalizing rs w with
  | nil =>
    show Pending base start lsn (rs ++ []) w
    rw [List.append_nil]
    exact h
  | cons c calls ih =>
    cases c with
    | append record =>
      unfold acceptedRecords
      by_cases haccepted : record.Accepted
      · have hrest := ih (h.append hstart haccepted)
        rw [List.append_assoc] at hrest
        rw [if_pos haccepted]
        exact hrest
      · -- the call was refused
        have hcall : w.call (.append record) = w := by
          unfold WriteAheadLog.call
          dsimp only
          split
          · next w' n happend => exact absurd (accepted_of_append happend) haccepted
          · rfl
        rw [if_neg haccepted]
        show Pending base start lsn _ ((w.call (.append record)).run calls)
        rw [hcall]
        exact ih h
    | flush => exact ih (h.flush hstart).1
    | sync => exact ih (h.sync hstart).1

theorem run_sync (hstart : base.length ≤ start) (h : Pending base start lsn rs w)
    (calls : List WalCall) :
    (w.run calls).sync.file = placed base start (frames lsn (rs ++ acceptedRecords calls)) ∧
      (w.run calls).sync.filePos = start + (frames lsn (rs ++ acceptedRecords calls)).length ∧
      (w.run calls).sync.getCurrentLsn = lsn + (rs ++ acceptedRecords calls).length ∧
      (w.run calls).sync.buffer = [] := by
  have hsync := (h.run hstart calls).sync hstart
  have hfile := hsync.1.file_eq hsync.2
  exact ⟨hfile.1, hfile.2.1, hfile.2.2, hsync.2⟩

end Pending

theorem pending_create : Pending [] 0 0 [] .create := ⟨[], rfl, rfl, rfl, rfl⟩

end Northstar.Zig
