import Northstar.Replication.Protocol

/-!
# Frame — snapshots in frames of bounded size

`replication/frame.rs`.  A frame is a header of 24 bytes and a payload with its CRC32C, which is a parameter
here.  The writer appends to a `Vec`, and the reader takes from the front of what it is given.  A sequence
number past the largest one is a panic, and `none` here.
-/

namespace Northstar.Replication

open Bytes Reader

inductive FrameError where
  | unexpectedEof (message : String)
  | invalidInput (message : String)
  | invalidData (message : String)
  deriving Repr, DecidableEq

/-- `0x{:08X}`. -/
def hex (x : UInt32) : String :=
  "0x" ++ String.ofList ((List.range 8).reverse.map fun i => (Nat.digitChar (x.toNat / 16 ^ i % 16)).toUpper)

structure FrameHeader where
  magic : UInt32
  version : UInt16
  messageType : MessageType
  sequence : UInt64
  payloadLength : UInt32
  checksum : UInt32
  deriving Repr, DecidableEq

abbrev Frame := FrameHeader × Bytes

namespace FrameHeader

def expectedMagic : UInt32 := 0x4E535444

def headerSize : Nat := 24

def new (version : UInt16) (messageType : MessageType) (sequence : UInt64) (payloadLength checksum : UInt32) :
    FrameHeader :=
  ⟨expectedMagic, version, messageType, sequence, payloadLength, checksum⟩

def toBytes (h : FrameHeader) : Bytes :=
  u32 h.magic ++ (u16 h.version ++ (u16 h.messageType.asU16 ++ (u64 h.sequence ++
    (u32 h.payloadLength ++ u32 h.checksum))))

def fromBytes (data : Bytes) : Except FrameError FrameHeader :=
  if data.length < headerSize then .error (.unexpectedEof "Insufficient data for frame header")
  else
    let magic := Bytes.readU32 (window data 0 4)
    if magic ≠ expectedMagic then
      .error (.invalidData ("Invalid magic number: expected " ++ hex expectedMagic ++ ", got " ++ hex magic))
    else
      match MessageType.fromU16 (Bytes.readU16 (window data 6 2)) with
      | none => .error (.invalidData "Invalid message type")
      | some messageType => .ok {
          magic
          version := Bytes.readU16 (window data 4 2)
          messageType
          sequence := Bytes.readU64 (window data 8 8)
          payloadLength := Bytes.readU32 (window data 16 4)
          checksum := Bytes.readU32 (window data 20 4) }

def validateVersion (h : FrameHeader) : Except FrameError Unit :=
  if h.version ≠ protocolVersion then
    .error (.invalidData ("Protocol version mismatch: expected " ++ toString protocolVersion ++ ", got " ++
      toString h.version))
  else .ok ()

end FrameHeader

section

variable (crc32c : Bytes → UInt32)

/-- `write_frame`: what it appends. -/
def writeFrame (frame : Frame) : Except FrameError Bytes :=
  let (header, payload) := frame
  if payload.length ≠ header.payloadLength.toNat then
    .error (.invalidInput ("Payload length mismatch: header says " ++ toString header.payloadLength ++
      ", actual " ++ toString payload.length))
  else if crc32c payload ≠ header.checksum then
    .error (.invalidData ("Checksum mismatch: expected " ++ hex header.checksum ++ ", calculated " ++
      hex (crc32c payload)))
  else .ok (header.toBytes ++ payload)

def eof : FrameError := .unexpectedEof "failed to fill whole buffer"

def maxPayloadSize : Nat := 100 * 1024 * 1024

/-- `vec![0u8; payload_length]`, filled if there is something to read. -/
def readFramePayload (payloadLength : Nat) : Reader FrameError Bytes :=
  if payloadLength > 0 then readExact eof payloadLength else pure []

def readFrame : Reader FrameError Frame := do
  let headerBytes ← readExact eof FrameHeader.headerSize
  let header ← Reader.lift (FrameHeader.fromBytes headerBytes)
  Reader.lift header.validateVersion
  let payloadLength := header.payloadLength.toNat
  if payloadLength > maxPayloadSize then
    throw (.invalidData ("Payload too large: " ++ toString payloadLength ++ " bytes (max " ++
      toString maxPayloadSize ++ ")"))
  else
    let payload ← readFramePayload payloadLength
    if crc32c payload ≠ header.checksum then
      throw (.invalidData ("Checksum validation failed: expected " ++ hex header.checksum ++ ", calculated " ++
        hex (crc32c payload)))
    else return (header, payload)

def snapshotChunkSize : Nat := 1024 * 1024

def chunkFrame (messageType : MessageType) (sequence : UInt64) (chunk : Bytes) (index : Nat) : Option Frame :=
  if sequence.toNat + index < 2 ^ 64 then
    some (.new protocolVersion messageType (sequence + UInt64.ofNat index) (UInt32.ofNat chunk.length)
      (crc32c chunk), chunk)
  else none

def chunkPayload (payload : Bytes) (messageType : MessageType) (sequence : UInt64) : Option (List Frame) :=
  (chunks snapshotChunkSize payload).zipIdx.mapM fun chunk => chunkFrame crc32c messageType sequence chunk.1 chunk.2

end

def reassemblePayload (frames : List Frame) : Except FrameError (Bytes × Nat) :=
  match frames with
  | [] => .ok ([], 0)
  | frame :: _ =>
    if ¬ frames.all fun f => f.1.messageType = frame.1.messageType then
      .error (.invalidData "Message type mismatch in chunked frames")
    else .ok ((frames.map Prod.snd).flatten, frames.length)

namespace FrameHeader

@[simp] theorem length_toBytes (h : FrameHeader) : h.toBytes.length = headerSize := by
  unfold toBytes
  simp only [List.length_append, length_u16, length_u32, length_u64]
  rfl

theorem fromBytes_toBytes {h : FrameHeader} (hmagic : h.magic = expectedMagic) : fromBytes h.toBytes = .ok h := by
  have hlength : ¬ h.toBytes.length < headerSize := by
    rw [length_toBytes]
    exact Nat.lt_irrefl _
  have h0 : window h.toBytes 0 4 = u32 h.magic := window_head (length_u32 _)
  have h4 : window h.toBytes 4 2 = u16 h.version := window_append_middle (length_u32 _) (length_u16 _)
  have h6 : window h.toBytes 6 2 = u16 h.messageType.asU16 := by
    unfold toBytes
    rw [window_append_right (by simp), length_u32]
    exact window_append_middle (length_u16 _) (length_u16 _)
  have h8 : window h.toBytes 8 8 = u64 h.sequence := by
    unfold toBytes
    rw [window_append_right (by simp), length_u32, window_append_right (by simp), length_u16]
    exact window_append_middle (length_u16 _) (length_u64 _)
  have h16 : window h.toBytes 16 4 = u32 h.payloadLength := by
    unfold toBytes
    rw [window_append_right (by simp), length_u32, window_append_right (by simp), length_u16,
      window_append_right (by simp), length_u16]
    exact window_append_middle (length_u64 _) (length_u32 _)
  have h20 : window h.toBytes 20 4 = u32 h.checksum := by
    unfold toBytes
    rw [window_append_right (by simp), length_u32, window_append_right (by simp), length_u16,
      window_append_right (by simp), length_u16, window_append_right (by simp), length_u64,
      window_append_right (by simp), length_u32]
    exact window_zero_length (length_u32 _)
  unfold fromBytes
  rw [if_neg hlength]
  dsimp only
  rw [h0, h4, h6, h8, h16, h20, readU32_u32, readU32_u32, readU32_u32, readU16_u16, readU16_u16, readU64_u64,
    if_neg (not_not.mpr hmagic), MessageType.fromU16_asU16]

end FrameHeader

/-- What the writer takes and the reader gives back. -/
structure Sendable (crc32c : Bytes → UInt32) (frame : Frame) : Prop where
  magic : frame.1.magic = FrameHeader.expectedMagic
  version : frame.1.version = protocolVersion
  length : frame.1.payloadLength.toNat = frame.2.length
  small : frame.2.length ≤ maxPayloadSize
  checksum : frame.1.checksum = crc32c frame.2

theorem roundTrips_frame {crc32c : Bytes → UInt32} {frame : Frame} (h : Sendable crc32c frame) :
    RoundTrips (writeFrame crc32c) (readFrame crc32c) frame := by
  rcases frame with ⟨header, payload⟩
  have hlength : header.payloadLength.toNat = payload.length := h.length
  have hsmall : ¬ payload.length > maxPayloadSize := Nat.not_lt.mpr h.small
  have hchecksum : crc32c payload = header.checksum := h.checksum.symm
  have hwrite : writeFrame crc32c (header, payload) = .ok (header.toBytes ++ payload) := by
    unfold writeFrame
    dsimp only
    rw [if_neg (not_not.mpr hlength.symm), if_neg (not_not.mpr hchecksum)]
  refine ⟨_, hwrite, ?_⟩
  have hheader : Reads (readExact eof FrameHeader.headerSize) header.toBytes header.toBytes := by
    have hexact := reads_exact eof header.toBytes
    rwa [FrameHeader.length_toBytes] at hexact
  have hpayload : Reads (readFramePayload payload.length) payload payload := by
    unfold readFramePayload
    by_cases hpos : payload.length > 0
    · rw [if_pos hpos]
      exact reads_exact eof payload
    · rw [if_neg hpos, List.eq_nil_of_length_eq_zero (Nat.eq_zero_of_not_pos hpos)]
      exact Reads.pure []
  have hversion : header.validateVersion = .ok () := if_neg (not_not.mpr h.version)
  unfold readFrame
  apply hheader.bind
  apply (Reads.lift (FrameHeader.fromBytes_toBytes h.magic)).bind
  apply (Reads.lift hversion).bind
  dsimp only
  rw [hlength, if_neg hsmall]
  apply hpayload.bind_lift
  rw [if_neg (not_not.mpr hchecksum)]
  exact Reads.pure _

theorem mapM_eq_some_map {α β : Type} {f : α → Option β} {g : α → β} {xs : List α}
    (h : ∀ x ∈ xs, f x = some (g x)) : xs.mapM f = some (xs.map g) := by
  induction xs with
  | nil => rfl
  | cons x xs ih =>
    rw [List.mapM_cons, h x (List.mem_cons_self ..), ih fun x' hx' => h x' (List.mem_cons_of_mem _ hx')]
    rfl

def frameAt (crc32c : Bytes → UInt32) (messageType : MessageType) (sequence : UInt64) (chunk : Bytes × Nat) :
    Frame :=
  (.new protocolVersion messageType (sequence + UInt64.ofNat chunk.2) (UInt32.ofNat chunk.1.length)
    (crc32c chunk.1), chunk.1)

theorem chunkPayload_eq_some (crc32c : Bytes → UInt32) {payload : Bytes} {messageType : MessageType}
    {sequence : UInt64} (h : sequence.toNat + (chunks snapshotChunkSize payload).length ≤ 2 ^ 64) :
    chunkPayload crc32c payload messageType sequence =
      some ((chunks snapshotChunkSize payload).zipIdx.map (frameAt crc32c messageType sequence)) := by
  unfold chunkPayload
  apply mapM_eq_some_map
  intro chunk hchunk
  have hindex := (List.mem_zipIdx' hchunk).1
  exact if_pos (by omega)

theorem map_snd_frames (crc32c : Bytes → UInt32) (messageType : MessageType) (sequence : UInt64)
    (pieces : List Bytes) : (pieces.zipIdx.map (frameAt crc32c messageType sequence)).map Prod.snd = pieces := by
  rw [List.map_map]
  exact List.zipIdx_map_fst 0 pieces

theorem sendable_frameAt (crc32c : Bytes → UInt32) (messageType : MessageType) (sequence : UInt64)
    {chunk : Bytes × Nat} (h : chunk.1.length ≤ snapshotChunkSize) :
    Sendable crc32c (frameAt crc32c messageType sequence chunk) where
  magic := rfl
  version := rfl
  length := by
    show (UInt32.ofNat chunk.1.length).toNat = chunk.1.length
    have hsmall : chunk.1.length < 2 ^ 32 := h.trans_lt (by decide)
    rw [UInt32.toNat_ofNat', Nat.mod_eq_of_lt hsmall]
  small := h.trans (by decide)
  checksum := rfl

theorem reassemblePayload_frames {frames : List Frame} {messageType : MessageType}
    (h : ∀ frame ∈ frames, frame.1.messageType = messageType) :
    reassemblePayload frames = .ok ((frames.map Prod.snd).flatten, frames.length) := by
  cases frames with
  | nil => rfl
  | cons frame frames =>
    have hall : (frame :: frames).all (fun f => f.1.messageType = frame.1.messageType) = true := by
      rw [List.all_eq_true]
      intro other hother
      rw [decide_eq_true_eq, h other hother, h frame (List.mem_cons_self ..)]
    exact if_neg (not_not.mpr hall)

/-- The frames of a payload are written and read back, and come to the payload again. -/
theorem transfer_roundTrips (crc32c : Bytes → UInt32) (payload : Bytes) (messageType : MessageType)
    (sequence : UInt64)
    (hsequence : sequence.toNat + (payload.length + snapshotChunkSize - 1) / snapshotChunkSize < 2 ^ 64) :
    ∃ frames, chunkPayload crc32c payload messageType sequence = some frames ∧
      (∃ bytes, writeEach (writeFrame crc32c) frames = .ok bytes ∧
        readMany (readFrame crc32c) frames.length bytes = .ok (frames, [])) ∧
      reassemblePayload frames = .ok (payload, frames.length) ∧
      frames.length = (payload.length + snapshotChunkSize - 1) / snapshotChunkSize ∧
      ∀ frame ∈ frames, frame.2 ≠ [] ∧ frame.2.length ≤ snapshotChunkSize := by
  have hsize : 0 < snapshotChunkSize := by decide
  have hcount : (chunks snapshotChunkSize payload).length =
      (payload.length + snapshotChunkSize - 1) / snapshotChunkSize := by
    unfold chunks
    rw [List.length_map, List.length_range]
  let frames := (chunks snapshotChunkSize payload).zipIdx.map (frameAt crc32c messageType sequence)
  have hmem : ∀ frame ∈ frames, ∃ chunk : Bytes × Nat, chunk.1 ∈ chunks snapshotChunkSize payload ∧
      frame = frameAt crc32c messageType sequence chunk := by
    intro frame hframe
    rcases List.mem_map.mp hframe with ⟨chunk, hchunk, rfl⟩
    exact ⟨chunk, List.fst_mem_of_mem_zipIdx hchunk, rfl⟩
  have hroundTrips : RoundTrips (writeEach (writeFrame crc32c)) (readMany (readFrame crc32c) frames.length)
      frames := by
    apply RoundTrips.each
    intro frame hframe
    rcases hmem frame hframe with ⟨chunk, hchunk, rfl⟩
    exact roundTrips_frame (sendable_frameAt crc32c messageType sequence (length_of_mem_chunks hsize hchunk).2)
  refine ⟨frames, chunkPayload_eq_some crc32c (by omega), ?_, ?_, ?_, ?_⟩
  · rcases hroundTrips with ⟨bytes, hwrite, hread⟩
    have hall := hread []
    rw [List.append_nil] at hall
    exact ⟨bytes, hwrite, hall⟩
  · have htypes : ∀ frame ∈ frames, frame.1.messageType = messageType := by
      intro frame hframe
      rcases hmem frame hframe with ⟨chunk, -, rfl⟩
      rfl
    rw [reassemblePayload_frames htypes, map_snd_frames, flatten_chunks hsize]
  · rw [List.length_map, List.length_zipIdx, hcount]
  · intro frame hframe
    rcases hmem frame hframe with ⟨chunk, hchunk, rfl⟩
    exact length_of_mem_chunks hsize hchunk

/-- Three million bytes, in three frames. -/
theorem transfer_roundTrips_three_frames : let payload : Bytes := List.replicate 3000000 1
    ∃ frames, chunkPayload (fun _ => 7) payload .snapshot 5 = some frames ∧
      (∃ bytes, writeEach (writeFrame fun _ => 7) frames = .ok bytes ∧
        readMany (readFrame fun _ => 7) frames.length bytes = .ok (frames, [])) ∧
      reassemblePayload frames = .ok (payload, frames.length) ∧ frames.length = 3 ∧
      ∀ frame ∈ frames, frame.2 ≠ [] ∧ frame.2.length ≤ snapshotChunkSize := by
  intro payload
  have hlength : payload.length = 3000000 := List.length_replicate
  have htransfer := transfer_roundTrips (fun _ => 7) payload .snapshot 5 (by rw [hlength]; decide)
  rw [hlength] at htransfer
  exact htransfer

end Northstar.Replication
