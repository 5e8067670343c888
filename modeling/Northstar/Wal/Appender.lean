import Northstar.Wal.Readers
import Northstar.Wal.RoundTrip

/-!
# Appender — what the appender writes and the readers step over

A frame carries the checks its bytes pass, so both readers step over it whatever follows and stop
inside it wherever it is cut.  The appender is then followed through buffered, flushed and direct
writes by one invariant: the bytes already in the file and those still in the buffer are, in order,
the frames appended so far.
-/

namespace Northstar.Wal

open Bytes FrameLog

/-- Header, payload and trailer of a record that `scan_highest_lsn` accepts. -/
structure Frame (crc : Crc) where
  header : RecordHeader
  payload : Bytes
  trailer : RecordTrailer
  header_valid : ∃ t, header.validate crc = .ok t
  payload_len : payload.length = header.payloadLen.toNat
  payload_crc : checksum crc payload = header.payloadCrc32c
  trailer_valid :
    trailer.validate crc (UInt32.ofNat (headerSize + payload.length + trailerSize)) = .ok ()

namespace Frame

variable {crc : Crc}

def bytes (f : Frame crc) : Bytes := f.header.toBytes ++ (f.payload ++ f.trailer.toBytes)

theorem length_bytes (f : Frame crc) :
    f.bytes.length = headerSize + f.payload.length + trailerSize := by
  rw [bytes, List.length_append, List.length_append, RecordHeader.length_toBytes,
    RecordTrailer.length_toBytes, Nat.add_assoc]

theorem window_header (f : Frame crc) (rest : Bytes) :
    window (f.bytes ++ rest) 0 headerSize = f.header.toBytes := by
  rw [bytes, List.append_assoc]
  exact window_head f.header.length_toBytes

theorem window_payload (f : Frame crc) (rest : Bytes) :
    window (f.bytes ++ rest) headerSize f.header.payloadLen.toNat = f.payload := by
  rw [bytes, List.append_assoc, List.append_assoc]
  exact window_append_middle f.header.length_toBytes f.payload_len

theorem window_trailer (f : Frame crc) (rest : Bytes) :
    window (f.bytes ++ rest) (headerSize + f.header.payloadLen.toNat) trailerSize =
      f.trailer.toBytes := by
  rw [bytes, List.append_assoc, List.append_assoc,
    window_append_right (by rw [RecordHeader.length_toBytes]; omega), RecordHeader.length_toBytes,
    Nat.add_sub_cancel_left]
  exact window_append_middle f.payload_len f.trailer.length_toBytes

theorem hasRecord (f : Frame crc) (rest : Bytes) :
    HasRecord crc (f.bytes ++ rest) f.header f.bytes.length where
  parses := by rw [f.window_header, RecordHeader.fromBytes_toBytes]
  valid := f.header_valid
  size_eq := by rw [f.length_bytes, f.payload_len]
  fits := by rw [List.length_append]; omega
  payload_crc := by rw [f.window_payload, f.payload_crc]
  trailer := by
    refine ⟨f.trailer, ?_, ?_⟩
    · rw [f.window_trailer, RecordTrailer.fromBytes_toBytes]
    · rw [f.length_bytes]
      exact f.trailer_valid

theorem bytes_ne_nil (f : Frame crc) : f.bytes ≠ [] := by
  intro hnil
  have hlen := f.length_bytes
  rw [hnil, List.length_nil, headerSize] at hlen
  omega

theorem isFrame_scan (f : Frame crc) : IsFrame (scanStep crc) f.bytes () where
  nonempty := f.bytes_ne_nil
  reads rest := scanStep_of_hasRecord (f.hasRecord rest)

theorem torn_take (f : Frame crc) {n : Nat} (hn : n < f.bytes.length) :
    Torn crc (f.bytes.take n) := by
  have hlen : (f.bytes.take n).length = n := by rw [List.length_take]; omega
  by_cases hshort : n < headerSize
  · exact .inl (by omega)
  · obtain ⟨t, hvalid⟩ := f.header_valid
    refine .inr ⟨f.header, t, ?_, hvalid, ?_⟩
    · have hwindow := f.window_header []
      rw [List.append_nil] at hwindow
      have hcut : window (f.bytes.take n) 0 headerSize = window f.bytes 0 headerSize := by
        rw [window, window, List.drop_zero, List.drop_zero, List.take_take,
          Nat.min_eq_left (by omega)]
      rw [hcut, hwindow, RecordHeader.fromBytes_toBytes]
    · rw [hlen, ← f.payload_len, ← f.length_bytes]
      exact hn

theorem stopsInside_scan (f : Frame crc) : StopsInside (scanStep crc) f.bytes :=
  fun _ hn => scanStep_eq_stop_iff.mpr (f.torn_take hn)

theorem stopsInside_replay (f : Frame crc) : StopsInside (replayStep crc) f.bytes :=
  fun _ hn => replayStep_eq_stop_of_torn (f.torn_take hn)

end Frame

/-- A frame of type commit whose payload decodes to `record`. -/
structure CommitFrame (crc : Crc) extends Frame crc where
  record : CommitRecord
  is_commit : RecordType.fromU16 header.recordType = some .commit
  decodes : CommitRecord.deserializePayload crc header.txnId payload = .ok record

theorem CommitFrame.isFrame_replay {crc : Crc} (f : CommitFrame crc) :
    IsFrame (replayStep crc) f.bytes f.record where
  nonempty := f.bytes_ne_nil
  reads rest := replayStep_of_hasRecord (f.hasRecord rest) f.is_commit (by
    rw [f.window_payload]
    exact f.decodes)

end Northstar.Wal

namespace Northstar.Wal

open Bytes FrameLog

/-- The bytes `append_commit_record` logs for a record when `currentLsn` is `lsn`. -/
def frameBytes (crc : Crc) (lsn : Nat) (r : CommitRecord) : Bytes :=
  (commitHeader crc r.txnId (UInt64.ofNat lsn) r.payload).toBytes ++ (r.payload ++
    (RecordTrailer.new crc
      (UInt32.ofNat (headerSize + r.payload.length + trailerSize))).toBytes)

def totalSize (r : CommitRecord) : Nat :=
  headerSize + (UInt32.ofNat r.payload.length).toNat + trailerSize

/-- A record larger than the buffer is written directly, and does not move `current_lsn`. -/
def nextLsn (lsn : Nat) (r : CommitRecord) : Nat :=
  if totalSize r > defaultBufferSize then lsn else lsn + 1

/-- The frames of records appended one after the other from `lsn` on. -/
def framesFrom (crc : Crc) : Nat → List CommitRecord → List Bytes
  | _, [] => []
  | lsn, r :: rs => frameBytes crc lsn r :: framesFrom crc (nextLsn lsn r) rs

@[simp] theorem length_frameBytes (crc : Crc) (lsn : Nat) (r : CommitRecord) :
    (frameBytes crc lsn r).length = headerSize + r.payload.length + trailerSize := by
  rw [frameBytes, List.length_append, List.length_append, RecordHeader.length_toBytes,
    RecordTrailer.length_toBytes, Nat.add_assoc]

theorem payloadLen_toNat {n : Nat} (h : n ≤ maxPayloadSize.toNat) : (UInt32.ofNat n).toNat = n := by
  rw [UInt32.toNat_ofNat']
  exact Nat.mod_eq_of_lt (Nat.lt_of_le_of_lt h (by decide))

/-- The frame of a record whose payload is not too long passes the scanner's checks. -/
def Frame.ofRecord (crc : Crc) (lsn : Nat) (r : CommitRecord)
    (h : r.payload.length ≤ maxPayloadSize.toNat) : Frame crc where
  header := commitHeader crc r.txnId (UInt64.ofNat lsn) r.payload
  payload := r.payload
  trailer := RecordTrailer.new crc (UInt32.ofNat (headerSize + r.payload.length + trailerSize))
  header_valid := by
    refine ⟨.commit, (commitHeader_validate ..).mpr ⟨?_, rfl⟩⟩
    rw [UInt32.le_iff_toNat_le, payloadLen_toNat h]
    exact h
  payload_len := (payloadLen_toNat h).symm
  payload_crc := rfl
  trailer_valid := RecordTrailer.validate_new _ _

@[simp] theorem Frame.bytes_ofRecord (crc : Crc) (lsn : Nat) (r : CommitRecord)
    (h : r.payload.length ≤ maxPayloadSize.toNat) :
    (Frame.ofRecord crc lsn r h).bytes = frameBytes crc lsn r := rfl

/-- The log was left at the end of `base`, with `tail` behind it; since then the frames `fs` were
appended: the file holds `written`, the buffer the rest. -/
structure Appended (base tail : Bytes) (fs : List Bytes) (w : Wal) : Prop where
  state : w.state = .open
  buffer_len : w.buffer.length = defaultBufferSize
  pos_le : w.bufferPos ≤ defaultBufferSize
  frames : ∃ written,
    w.file = ⟨base ++ written ++ tail.drop written.length, base.length + written.length⟩ ∧
      w.filePos = base.length + written.length ∧
        written ++ w.buffer.take w.bufferPos = fs.flatten

/-- The log holds all its frames in the file. -/
structure Flushed (base tail : Bytes) (fs : List Bytes) (w : Wal) : Prop
    extends Appended base tail fs w where
  empty : w.bufferPos = 0
  data : w.file.data = base ++ fs.flatten ++ tail.drop fs.flatten.length

variable {crc : Crc} {base tail : Bytes} {fs : List Bytes} {w : Wal}

theorem Appended.flushed (h : Appended base tail fs w) (hempty : w.bufferPos = 0) :
    Flushed base tail fs w := by
  obtain ⟨written, hfile, hpos, hframes⟩ := h.frames
  rw [hempty, List.take_zero, List.append_nil] at hframes
  refine ⟨h, hempty, ?_⟩
  rw [hfile, hframes]

theorem Appended.flushBuffer (h : Appended base tail fs w) :
    Flushed base tail fs w.flushBuffer ∧ w.flushBuffer.currentLsn = w.currentLsn := by
  unfold Wal.flushBuffer
  split
  · rename_i hempty
    exact ⟨h.flushed hempty, rfl⟩
  · obtain ⟨written, hfile, hpos, hframes⟩ := h.frames
    have hlen : (w.buffer.take w.bufferPos).length = w.bufferPos := by
      rw [List.length_take, h.buffer_len]
      exact Nat.min_eq_left h.pos_le
    refine ⟨Appended.flushed ⟨h.state, h.buffer_len, Nat.zero_le _, fs.flatten, ?_, ?_, ?_⟩ rfl, rfl⟩
    · change w.file.writeAll (w.buffer.take w.bufferPos) = _
      rw [hfile, File.writeAll_over, hframes]
    · change w.filePos + w.bufferPos = _
      rw [hpos, ← hframes, List.length_append, hlen]
      omega
    · exact List.append_nil _

theorem Appended.sync (h : Appended base tail fs w) :
    Flushed base tail fs w.sync ∧ w.sync.currentLsn = w.currentLsn := by
  unfold Wal.sync
  split
  · obtain ⟨hflush, hlsn⟩ := h.flushBuffer
    exact ⟨⟨⟨hflush.state, hflush.buffer_len, hflush.pos_le, hflush.frames⟩, hflush.empty,
      hflush.data⟩, hlsn⟩
  · rename_i hempty
    have hflush := h.flushed (by omega)
    exact ⟨⟨⟨hflush.state, hflush.buffer_len, hflush.pos_le, hflush.frames⟩, hflush.empty,
      hflush.data⟩, rfl⟩

/-- `bytes` were added to the buffer and nothing else changed. -/
structure Buffered (w w' : Wal) (bytes : Bytes) : Prop where
  buffer_len : w'.buffer.length = w.buffer.length
  pos_le : w'.bufferPos ≤ w'.buffer.length
  contents : w'.buffer.take w'.bufferPos = w.buffer.take w.bufferPos ++ bytes
  file : w'.file = w.file
  filePos : w'.filePos = w.filePos
  currentLsn : w'.currentLsn = w.currentLsn
  state : w'.state = w.state

theorem Buffered.trans {w₁ w₂ w₃ : Wal} {a b : Bytes} (h₁ : Buffered w₁ w₂ a)
    (h₂ : Buffered w₂ w₃ b) : Buffered w₁ w₃ (a ++ b) where
  buffer_len := h₂.buffer_len.trans h₁.buffer_len
  pos_le := h₂.pos_le
  contents := by rw [h₂.contents, h₁.contents, List.append_assoc]
  file := h₂.file.trans h₁.file
  filePos := h₂.filePos.trans h₁.filePos
  currentLsn := h₂.currentLsn.trans h₁.currentLsn
  state := h₂.state.trans h₁.state

variable {w' : Wal} {r : CommitRecord}

theorem putBuffer_eq_ok {bytes : Bytes} (h : w.putBuffer bytes = .ok w') :
    Buffered w w' bytes ∧ w'.bufferPos = w.bufferPos + bytes.length := by
  unfold Wal.putBuffer at h
  cases hwrite : writeAt w.buffer w.bufferPos bytes with
  | none =>
    rw [hwrite] at h
    cases h
  | some buffer =>
    rw [hwrite] at h
    cases h
    have hlen := writeAt_length hwrite
    have hfit := (writeAt_eq_some_iff.mp hwrite).1
    refine ⟨⟨hlen, ?_, writeAt_take hwrite, rfl, rfl, rfl, rfl⟩, rfl⟩
    change w.bufferPos + bytes.length ≤ buffer.length
    omega

theorem putBuffer_of_fits (bytes : Bytes)
    (h : w.bufferPos + bytes.length ≤ w.buffer.length) : ∃ w', w.putBuffer bytes = .ok w' := by
  have hwrite := writeAt_eq_some_iff.mpr ⟨h, rfl⟩
  unfold Wal.putBuffer
  rw [hwrite]
  exact ⟨_, rfl⟩

variable {lsn : Nat}

theorem writeRecordToBuffer_eq_ok
    (h : w.writeRecordToBuffer crc (commitHeader crc r.txnId (UInt64.ofNat lsn) r.payload)
      r.payload = .ok w') : Buffered w w' (frameBytes crc lsn r) := by
  simp only [Wal.writeRecordToBuffer, Except.bind_eq_ok_iff] at h
  obtain ⟨w₁, hheader, w₂, hpayload, w₃, htrailer, hdone⟩ := h
  cases hdone
  have hbuffered := (putBuffer_eq_ok hheader).1.trans
    ((putBuffer_eq_ok hpayload).1.trans (putBuffer_eq_ok htrailer).1)
  exact ⟨hbuffered.buffer_len, hbuffered.pos_le, hbuffered.contents, hbuffered.file,
    hbuffered.filePos, hbuffered.currentLsn, hbuffered.state⟩

theorem writeRecordToBuffer_of_fits (crc : Crc) (header : RecordHeader) {payload : Bytes}
    (h : w.bufferPos + (headerSize + payload.length + trailerSize) ≤ w.buffer.length) :
    ∃ w', w.writeRecordToBuffer crc header payload = .ok w' := by
  obtain ⟨w₁, h₁⟩ := putBuffer_of_fits (w := w) header.toBytes
    (by rw [RecordHeader.length_toBytes]; omega)
  obtain ⟨hb₁, hp₁⟩ := putBuffer_eq_ok h₁
  have hl₁ := hb₁.buffer_len
  rw [RecordHeader.length_toBytes] at hp₁
  obtain ⟨w₂, h₂⟩ := putBuffer_of_fits (w := w₁) payload (by omega)
  obtain ⟨hb₂, hp₂⟩ := putBuffer_eq_ok h₂
  have hl₂ := hb₂.buffer_len
  obtain ⟨w₃, h₃⟩ := putBuffer_of_fits (w := w₂)
    (RecordTrailer.new crc
      (UInt32.ofNat (headerSize + payload.length + trailerSize))).toBytes
    (by rw [RecordTrailer.length_toBytes]; omega)
  refine ⟨{ w₃ with syncNeeded := true }, ?_⟩
  simp only [Wal.writeRecordToBuffer, h₁, h₂, h₃, Except.ok_bind]
  rfl

theorem Appended.buffered {f : Bytes} (h : Appended base tail fs w)
    (hb : Buffered w w' f) : Appended base tail (fs ++ [f]) w' := by
  obtain ⟨written, hfile, hpos, hframes⟩ := h.frames
  refine ⟨hb.state.trans h.state, hb.buffer_len.trans h.buffer_len, ?_, written, ?_, ?_, ?_⟩
  · rw [← h.buffer_len, ← hb.buffer_len]
    exact hb.pos_le
  · rw [hb.file, hfile]
  · rw [hb.filePos, hpos]
  · rw [hb.contents, ← List.append_assoc, hframes, List.flatten_append, List.flatten_singleton]

theorem Flushed.writeLargeRecord (crc : Crc) (r : CommitRecord) (lsn : Nat)
    (h : Flushed base tail fs w) :
    Appended base tail (fs ++ [frameBytes crc lsn r])
      (w.writeLargeRecord crc (commitHeader crc r.txnId (UInt64.ofNat lsn) r.payload)
        r.payload).1 := by
  obtain ⟨written, hfile, hpos, hframes⟩ := h.frames
  rw [h.empty, List.take_zero, List.append_nil] at hframes
  have hnoop : w.flushBuffer = w := if_pos h.empty
  have hflat : (fs ++ [frameBytes crc lsn r]).flatten = written ++ frameBytes crc lsn r := by
    rw [List.flatten_append, List.flatten_singleton, hframes]
  have hjoin : written ++ (commitHeader crc r.txnId (UInt64.ofNat lsn) r.payload).toBytes ++
      r.payload ++ (RecordTrailer.new crc
        (UInt32.ofNat (headerSize + r.payload.length + trailerSize))).toBytes =
          written ++ frameBytes crc lsn r := by
    simp only [frameBytes, List.append_assoc]
  unfold Wal.writeLargeRecord
  rw [hnoop]
  refine ⟨h.state, h.buffer_len, h.pos_le, written ++ frameBytes crc lsn r, ?_, ?_, ?_⟩
  · dsimp only
    rw [hfile, File.writeAll_over, File.writeAll_over, File.writeAll_over, hjoin]
  · dsimp only
    rw [hpos, List.length_append, length_frameBytes]
    omega
  · dsimp only
    rw [h.empty, List.take_zero, List.append_nil, hflat]

/-- The state after the flush that makes room for a record: it holds the same frames, and either
there is room now, or the record is larger than the whole, empty buffer. -/
theorem Appended.makeRoom (h : Appended base tail fs w) (size : Nat) :
    ∃ w₁, (if w.bufferPos + size > w.buffer.length then w.flushBuffer else w) = w₁ ∧
      Appended base tail fs w₁ ∧ w₁.currentLsn = w.currentLsn ∧
        if w.bufferPos + size > w.buffer.length ∧ size > w₁.buffer.length then
          Flushed base tail fs w₁ ∧ size > defaultBufferSize
        else w₁.bufferPos + size ≤ w₁.buffer.length ∧ ¬ size > defaultBufferSize := by
  have hlen := h.buffer_len
  by_cases hover : w.bufferPos + size > w.buffer.length
  · obtain ⟨hflush, hlsn⟩ := h.flushBuffer
    have hlen₁ := hflush.buffer_len
    have hempty := hflush.empty
    refine ⟨_, if_pos hover, hflush.toAppended, hlsn, ?_⟩
    by_cases hlarge : size > w.flushBuffer.buffer.length
    · rw [if_pos ⟨hover, hlarge⟩]
      exact ⟨hflush, by omega⟩
    · rw [if_neg (fun hboth => hlarge hboth.2)]
      omega
  · refine ⟨_, if_neg hover, h, rfl, ?_⟩
    rw [if_neg (fun hboth => hover hboth.1)]
    omega

theorem totalSize_le (r : CommitRecord) : totalSize r ≤ headerSize + r.payload.length + trailerSize := by
  have hmod : (UInt32.ofNat r.payload.length).toNat ≤ r.payload.length := by
    rw [UInt32.toNat_ofNat']
    exact Nat.mod_le _ _
  unfold totalSize
  omega

theorem Buffered.length_le {bytes : Bytes} (h : Buffered w w' bytes) :
    bytes.length ≤ w.buffer.length := by
  have hlen := congrArg List.length h.contents
  rw [List.length_append, List.length_take] at hlen
  have hsame := h.buffer_len
  omega

/-- Whatever way a record takes to the log, an append that returns adds its frame and returns the next LSN; a
record that goes through the buffer, which it then fits, moves `current_lsn`. -/
theorem Appended.append_cases (h : Appended base tail fs w)
    (happend : w.appendCommitRecord crc r = .ok (w', lsn)) :
    Appended base tail (fs ++ [frameBytes crc w.currentLsn r]) w' ∧ lsn = w.currentLsn + 1 ∧
      (totalSize r > defaultBufferSize ∧ w'.currentLsn = w.currentLsn ∨
        headerSize + r.payload.length + trailerSize ≤ defaultBufferSize ∧
          w'.currentLsn = w.currentLsn + 1) := by
  unfold Wal.appendCommitRecord at happend
  rw [Except.bind_eq_ok_iff] at happend
  obtain ⟨_, -, happend⟩ := happend
  cases hser : r.serializePayload with
  | none =>
    rw [hser] at happend
    cases happend
  | some p =>
    obtain rfl := CommitRecord.serializePayload_eq_some hser
    obtain ⟨w₁, hw₁, h₁, hlsn, hroom⟩ := h.makeRoom (totalSize r)
    have hsize : headerSize + (commitHeader crc r.txnId (UInt64.ofNat w.currentLsn)
        r.payload).payloadLen.toNat + trailerSize = totalSize r := rfl
    rw [hser] at happend
    dsimp only at happend
    rw [hsize, hw₁] at happend
    by_cases hlarge : w.bufferPos + totalSize r > w.buffer.length ∧ totalSize r > w₁.buffer.length
    · rw [if_pos hlarge] at happend hroom
      have hstep := hroom.1.writeLargeRecord crc r w.currentLsn
      have hsame : w₁.flushBuffer.currentLsn = w.currentLsn := h₁.flushBuffer.2.trans hlsn
      have hlsn' := congrArg (fun p => p.1.currentLsn) (Except.ok.inj happend)
      have hreturned := congrArg Prod.snd (Except.ok.inj happend)
      rw [congrArg Prod.fst (Except.ok.inj happend)] at hstep
      refine ⟨hstep, ?_, Or.inl ⟨hroom.2, hlsn'.symm.trans hsame⟩⟩
      rw [← hsame]
      exact hreturned.symm
    · rw [if_neg hlarge] at happend hroom
      rw [Except.bind_eq_ok_iff] at happend
      obtain ⟨w₂, hwrite, hdone⟩ := happend
      cases hdone
      have hbuffered := writeRecordToBuffer_eq_ok hwrite
      have hstep := h₁.buffered hbuffered
      have hsame : w₂.currentLsn + 1 = w.currentLsn + 1 := by
        rw [hbuffered.currentLsn, hlsn]
      have hfits := hbuffered.length_le
      rw [length_frameBytes, h₁.buffer_len] at hfits
      exact ⟨⟨hstep.state, hstep.buffer_len, hstep.pos_le, hstep.frames⟩, hsame, Or.inr ⟨hfits, hsame⟩⟩

theorem Appended.append (h : Appended base tail fs w)
    (happend : w.appendCommitRecord crc r = .ok (w', lsn)) :
    Appended base tail (fs ++ [frameBytes crc w.currentLsn r]) w' ∧
      w'.currentLsn = nextLsn w.currentLsn r := by
  obtain ⟨hstep, -, hlarge | hsmall⟩ := h.append_cases happend
  · exact ⟨hstep, hlarge.2.trans (if_pos hlarge.1).symm⟩
  · have hle := totalSize_le r
    exact ⟨hstep, hsmall.2.trans (if_neg (by omega)).symm⟩

theorem Appended.append_ok (crc : Crc) (h : Appended base tail fs w)
    (hser : r.serializePayload = some r.payload) (hlen : r.payload.length < 2 ^ 32) :
    ∃ w' lsn, w.appendCommitRecord crc r = .ok (w', lsn) := by
  obtain ⟨w₁, hw₁, h₁, hlsn, hroom⟩ := h.makeRoom (totalSize r)
  have hopen : w.ensureOpen = .ok () := if_neg (fun hne => hne h.state)
  have hsize : headerSize + (commitHeader crc r.txnId (UInt64.ofNat w.currentLsn)
      r.payload).payloadLen.toNat + trailerSize = totalSize r := rfl
  unfold Wal.appendCommitRecord
  rw [hopen, Except.ok_bind, hser]
  dsimp only
  rw [hsize, hw₁]
  by_cases hlarge : w.bufferPos + totalSize r > w.buffer.length ∧ totalSize r > w₁.buffer.length
  · rw [if_pos hlarge]
    exact ⟨_, _, rfl⟩
  · rw [if_neg hlarge] at hroom ⊢
    have hexact : totalSize r = headerSize + r.payload.length + trailerSize := by
      rw [totalSize, UInt32.toNat_ofNat', Nat.mod_eq_of_lt hlen]
    rw [hexact] at hroom
    obtain ⟨w₂, hwrite⟩ := writeRecordToBuffer_of_fits crc
      (commitHeader crc r.txnId (UInt64.ofNat w.currentLsn) r.payload) hroom.1
    rw [hwrite]
    exact ⟨_, _, rfl⟩

/-- The calls a client makes between opening the log and closing it. -/
inductive WalOp where
  | append (record : CommitRecord)
  | sync
  deriving Repr, DecidableEq

namespace WalOp

def step (crc : Crc) (w : Wal) : WalOp → Except Fault Wal
  | .append record => (w.appendCommitRecord crc record).map Prod.fst
  | .sync => .ok w.sync

/-- The log after a sequence of calls, all of which returned. -/
def run (crc : Crc) (w : Wal) : List WalOp → Except Fault Wal
  | [] => .ok w
  | op :: ops => do
    let w ← op.step crc w
    run crc w ops

def records : List WalOp → List CommitRecord
  | [] => []
  | .append record :: ops => record :: records ops
  | .sync :: ops => records ops

end WalOp

theorem Appended.run {ops : List WalOp} (h : Appended base tail fs w)
    (hrun : WalOp.run crc w ops = .ok w') :
    Appended base tail (fs ++ framesFrom crc w.currentLsn (WalOp.records ops)) w' := by
  induction ops generalizing w fs with
  | nil =>
    cases hrun
    rw [WalOp.records, framesFrom, List.append_nil]
    exact h
  | cons op ops ih =>
    rw [WalOp.run, Except.bind_eq_ok_iff] at hrun
    obtain ⟨w₁, hstep, hrest⟩ := hrun
    cases op with
    | append r =>
      cases happend : w.appendCommitRecord crc r with
      | error e =>
        rw [WalOp.step, happend] at hstep
        cases hstep
      | ok result =>
        rw [WalOp.step, happend] at hstep
        cases hstep
        obtain ⟨h₁, hlsn⟩ := h.append happend
        have htail := ih h₁ hrest
        rw [hlsn, List.append_assoc] at htail
        exact htail
    | sync =>
      cases hstep
      obtain ⟨h₁, hlsn⟩ := h.sync
      have htail := ih h₁.toAppended hrest
      rw [hlsn] at htail
      exact htail

theorem Appended.run_ok (crc : Crc) (ops : List WalOp) (h : Appended base tail fs w)
    (hops : ∀ r ∈ WalOp.records ops,
      r.serializePayload = some r.payload ∧ r.payload.length < 2 ^ 32) :
    ∃ w', WalOp.run crc w ops = .ok w' := by
  induction ops generalizing w fs with
  | nil => exact ⟨w, rfl⟩
  | cons op ops ih =>
    cases op with
    | append r =>
      obtain ⟨hser, hlen⟩ := hops r List.mem_cons_self
      obtain ⟨w₁, lsn, happend⟩ := h.append_ok crc hser hlen
      obtain ⟨w', hrest⟩ := ih (h.append happend).1
        (fun r' hr' => hops r' (List.mem_cons_of_mem _ hr'))
      refine ⟨w', ?_⟩
      rw [WalOp.run, WalOp.step, happend]
      exact hrest
    | sync => exact ih h.sync.1.toAppended hops

theorem appended_create : Appended [] [] [] Wal.create where
  state := rfl
  buffer_len := List.length_replicate
  pos_le := Nat.zero_le _
  frames := ⟨[], rfl, rfl, rfl⟩

theorem WalOp.run_sync {ops : List WalOp} (h : WalOp.run crc w ops = .ok w') :
    WalOp.run crc w (ops ++ [.sync]) = .ok w'.sync := by
  induction ops generalizing w with
  | nil =>
    cases h
    rfl
  | cons op ops ih =>
    rw [WalOp.run, Except.bind_eq_ok_iff] at h
    obtain ⟨w₁, hstep, hrest⟩ := h
    rw [List.cons_append, WalOp.run, hstep]
    exact ih hrest

theorem isFrame_framesFrom {rs : List CommitRecord}
    (h : ∀ r ∈ rs, r.payload.length ≤ maxPayloadSize.toNat) (lsn : Nat) :
    List.Forall₂ (IsFrame (scanStep crc)) (framesFrom crc lsn rs) (rs.map fun _ => ()) := by
  induction rs generalizing lsn with
  | nil => exact .nil
  | cons r rs ih =>
    apply List.Forall₂.cons
    · exact (Frame.ofRecord crc lsn r (h r List.mem_cons_self)).isFrame_scan
    · exact ih (fun r' hr' => h r' (List.mem_cons_of_mem _ hr')) _

theorem torn_nil (crc : Crc) : Torn crc [] := .inl (by decide)

theorem scanHighestLsn_framesFrom {rs : List CommitRecord}
    (h : ∀ r ∈ rs, r.payload.length ≤ maxPayloadSize.toNat) (lsn : Nat) :
    scanHighestLsn crc (framesFrom crc lsn rs).flatten =
      .ok (rs.length, (framesFrom crc lsn rs).flatten.length) := by
  have hreads := Reads.append (@isFrame_framesFrom crc _ h lsn)
    (.stop (scanStep_eq_stop_iff.mpr (torn_nil crc)))
  rw [List.append_nil, List.append_nil, Nat.add_zero] at hreads
  have hscan := scanFrom_of_reads 0 0 hreads
  rw [List.length_map, Nat.zero_add, Nat.zero_add] at hscan
  exact hscan

theorem Appended.sync_data (h : Appended [] [] fs w) : w.sync.file.data = fs.flatten := by
  have hdata := h.sync.1.data
  rw [List.nil_append, List.drop_nil, List.append_nil] at hdata
  exact hdata

/-- Records appended to a fresh log, with syncs anywhere between them, lie in the file as one frame
each, in order, after a final sync; and the scanner counts them and ends at the end of the file. -/
theorem appended_log_is_frames (crc : Crc) (ops : List WalOp) (hops : ∀ r ∈ WalOp.records ops,
      ∃ p, r.serializePayload = some p ∧ p.length ≤ maxPayloadSize.toNat) :
    ∃ w, WalOp.run crc Wal.create (ops ++ [.sync]) = .ok w ∧
      w.file.data = (framesFrom crc 0 (WalOp.records ops)).flatten ∧
        scanHighestLsn crc w.file.data =
          .ok ((WalOp.records ops).length, w.file.data.length) := by
  have hpayload : ∀ r ∈ WalOp.records ops,
      r.serializePayload = some r.payload ∧ r.payload.length ≤ maxPayloadSize.toNat := by
    intro r hr
    obtain ⟨p, hser, hlen⟩ := hops r hr
    obtain rfl := CommitRecord.serializePayload_eq_some hser
    exact ⟨hser, hlen⟩
  obtain ⟨w, hrun⟩ := appended_create.run_ok crc ops
    (fun r hr => ⟨(hpayload r hr).1, Nat.lt_of_le_of_lt (hpayload r hr).2 (by decide)⟩)
  have hdata : w.sync.file.data = (framesFrom crc 0 (WalOp.records ops)).flatten :=
    (appended_create.run hrun).sync_data
  refine ⟨w.sync, WalOp.run_sync hrun, hdata, ?_⟩
  rw [hdata]
  exact scanHighestLsn_framesFrom (fun r hr => (hpayload r hr).2) 0

/-- Two records with a sync between them. -/
theorem appended_log_is_frames_two : ∃ w, WalOp.run crc32cAppend Wal.create
        ([.append (.new 1 2 [.put [1] [2]]), .sync, .append (.new 2 2 [.delete [1]])] ++ [.sync]) =
          .ok w ∧
      w.file.data = (framesFrom crc32cAppend 0
        [.new 1 2 [.put [1] [2]], .new 2 2 [.delete [1]]]).flatten ∧
        scanHighestLsn crc32cAppend w.file.data = .ok (2, w.file.data.length) := by
  apply appended_log_is_frames crc32cAppend
    [.append (.new 1 2 [.put [1] [2]]), .sync, .append (.new 2 2 [.delete [1]])]
  intro r hr
  rcases List.mem_cons.mp hr with rfl | hr
  · exact ⟨_, rfl, by decide⟩
  · obtain rfl := List.mem_singleton.mp hr
    exact ⟨_, rfl, by decide⟩

end Northstar.Wal
