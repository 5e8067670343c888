import Northstar.Lib.Reader
import Northstar.Wal.Record

/-!
# Protocol — the messages between a primary and its replicas

`replication/protocol.rs`, and the two ends of a connection in `replication/publisher.rs`.  A message is
a header of 24 bytes and a payload.  The hash of a snapshot is that of the standard library, whose
algorithm is not fixed; it is a parameter here.  Writing to a `Vec` does not fail.
-/

namespace Northstar

open Bytes Reader

/-- `txn/commit.rs`; the checksum is data here. -/
structure Txn.CommitRecord where
  txnId : UInt64
  rootPageId : UInt64
  mutations : List Wal.Mutation
  checksum : UInt32
  deriving Repr, DecidableEq

namespace Replication

open Wal (Mutation)
open Txn (CommitRecord)

def protocolVersion : UInt16 := 1

inductive IoError where
  | unexpectedEof
  | invalidData (message : String)
  deriving Repr, DecidableEq

def IoError.toString : IoError → String
  | .unexpectedEof => "failed to fill whole buffer"
  | .invalidData message => message

inductive ReplicationError where
  | io (error : IoError)
  | invalidMessage (message : String)
  | bufferOverflow (usage capacity : Nat)
  deriving Repr, DecidableEq

inductive MessageType where
  | heartbeat
  | commitRecord
  | snapshot
  | error
  | connect
  | accept
  | ack
  deriving Repr, DecidableEq

def MessageType.fromU16 : UInt16 → Option MessageType
  | 0 => some .heartbeat
  | 1 => some .commitRecord
  | 2 => some .snapshot
  | 3 => some .error
  | 4 => some .connect
  | 5 => some .accept
  | 6 => some .ack
  | _ => none

def MessageType.asU16 : MessageType → UInt16
  | .heartbeat => 0
  | .commitRecord => 1
  | .snapshot => 2
  | .error => 3
  | .connect => 4
  | .accept => 5
  | .ack => 6

theorem MessageType.fromU16_asU16 (t : MessageType) : fromU16 t.asU16 = some t := by
  cases t <;> rfl

structure ReplicationMessage where
  version : UInt16
  messageType : MessageType
  sequence : UInt64
  commitRecord : Option CommitRecord
  lsn : Option UInt64
  payload : Option Bytes
  checksum : UInt64
  deriving Repr, DecidableEq

/-- `calculate_checksum`. -/
def calculateChecksum (record : CommitRecord) : UInt64 :=
  record.checksum.toUInt64 ^^^ (record.txnId * 31 + record.rootPageId)

namespace ReplicationMessage

def heartbeat (sequence : UInt64) : ReplicationMessage :=
  ⟨protocolVersion, .heartbeat, sequence, none, none, none, 0⟩

def ofCommitRecord (sequence : UInt64) (record : CommitRecord) : ReplicationMessage :=
  ⟨protocolVersion, .commitRecord, sequence, some record, none, none, calculateChecksum record⟩

def ack (sequence : UInt64) : ReplicationMessage :=
  ⟨protocolVersion, .ack, sequence, none, none, none, 0⟩

/-- `dataChecksum` is `calculate_data_checksum`. -/
def snapshot (dataChecksum : Bytes → UInt64) (sequence : UInt64) (data : Bytes) : ReplicationMessage :=
  ⟨protocolVersion, .snapshot, sequence, none, none, some data, dataChecksum data⟩

def error (message : String) : ReplicationMessage :=
  ⟨protocolVersion, .error, 0, none, none, some message.toUTF8.data.toList, 0⟩

def validateChecksum (m : ReplicationMessage) : Bool :=
  match m.messageType with
  | .commitRecord =>
    match m.commitRecord with
    | some record => m.checksum == calculateChecksum record
    | none => false
  | _ => true

end ReplicationMessage

def serializeMutation : Mutation → Bytes
  | .put key value =>
    [0] ++ (u32 (UInt32.ofNat key.length) ++ (key ++ (u32 (UInt32.ofNat value.length) ++ value)))
  | .delete key => [1] ++ (u32 (UInt32.ofNat key.length) ++ key)

def serializeCommitRecord (record : CommitRecord) : Bytes :=
  u64 record.txnId ++ (u64 record.rootPageId ++ (u32 record.checksum ++
    (u32 (UInt32.ofNat record.mutations.length) ++ (record.mutations.map serializeMutation).flatten)))

namespace ReplicationMessage

def payloadBytes (m : ReplicationMessage) : Bytes :=
  match m.messageType with
  | .heartbeat | .ack | .connect | .accept => []
  | .commitRecord =>
    match m.payload, m.commitRecord with
    | some payload, _ => payload
    | none, some record => serializeCommitRecord record
    | none, none => []
  | .snapshot | .error => m.payload.getD []

def header (m : ReplicationMessage) : Bytes :=
  u16 m.version ++ (u16 m.messageType.asU16 ++ (u64 m.sequence ++ (u64 m.checksum ++
    u32 (UInt32.ofNat m.payloadBytes.length))))

def serialize (m : ReplicationMessage) : Bytes := m.header ++ m.payloadBytes

end ReplicationMessage

/-- A key or a value, behind its length. -/
def readSized : Reader IoError Bytes := do
  let len ← readU32 .unexpectedEof
  readExact .unexpectedEof len.toNat

def deserializeMutation : Reader IoError Mutation := do
  let variant ← readU8 .unexpectedEof
  if variant = 0 then
    let key ← readSized
    let value ← readSized
    return .put key value
  else if variant = 1 then
    let key ← readSized
    return .delete key
  else throw (.invalidData "Invalid mutation variant")

def deserializeCommitRecord : Reader IoError CommitRecord := do
  let txnId ← readU64 .unexpectedEof
  let rootPageId ← readU64 .unexpectedEof
  let checksum ← readU32 .unexpectedEof
  let mutationCount ← readU32 .unexpectedEof
  let mutations ← readMany deserializeMutation mutationCount.toNat
  return ⟨txnId, rootPageId, mutations, checksum⟩

/-- The payload of a message, as it is or decoded; bytes behind a commit record are not looked at. -/
def readBody (messageType : MessageType) (payloadLength : Nat) :
    Reader IoError (Option Bytes × Option CommitRecord) :=
  if payloadLength > 0 then do
    let buf ← readExact .unexpectedEof payloadLength
    if messageType = .commitRecord then
      match deserializeCommitRecord buf with
      | .ok (record, _) => return (none, some record)
      | .error e => throw e
    else return (some buf, none)
  else return (none, none)

def readMessage : Reader IoError ReplicationMessage := do
  let version ← readU16 .unexpectedEof
  let messageType ← readU16 .unexpectedEof
  let sequence ← readU64 .unexpectedEof
  let checksum ← readU64 .unexpectedEof
  let payloadLength ← readU32 .unexpectedEof
  match MessageType.fromU16 messageType with
  | none => throw (.invalidData "Invalid message type")
  | some messageType =>
    let (payload, commitRecord) ← readBody messageType payloadLength.toNat
    return ⟨version, messageType, sequence, commitRecord, none, payload, checksum⟩

def ReplicationMessage.deserialize (data : Bytes) : Except IoError ReplicationMessage :=
  (readMessage data).map Prod.fst

def readPayload (payloadLen : Nat) : Reader ReplicationError Bytes :=
  if payloadLen > 0 then readExact (.io .unexpectedEof) payloadLen else pure []

/-- `receive_message`, from the bytes of the socket. -/
def receiveMessage : Reader ReplicationError ReplicationMessage := do
  let headerBuf ← readExact (.io .unexpectedEof) 24
  let payload ← readPayload (Bytes.readU32 (window headerBuf 20 4)).toNat
  Reader.lift <| match ReplicationMessage.deserialize (headerBuf ++ payload) with
    | .ok message => .ok message
    | .error e => .error (.invalidMessage ("Failed to deserialize message: " ++ e.toString))

/-- `queue_message`. -/
def queueMessage (writeBuffer : Bytes) (message : ReplicationMessage) : Bytes :=
  writeBuffer ++ message.serialize

theorem reads_sized {bytes : Bytes} (h : bytes.length < 2 ^ 32) :
    Reads readSized (u32 (UInt32.ofNat bytes.length) ++ bytes) bytes := by
  unfold readSized
  apply (reads_u32 IoError.unexpectedEof _).bind
  rw [UInt32.toNat_ofNat', Nat.mod_eq_of_lt h]
  exact reads_exact IoError.unexpectedEof bytes

theorem reads_mutation {m : Mutation} (h : (serializeMutation m).length < 2 ^ 32) :
    Reads deserializeMutation (serializeMutation m) m := by
  unfold deserializeMutation
  cases m with
  | put key value =>
    simp only [serializeMutation, List.length_append, length_u32] at h
    have hkey : Reads readSized (u32 (UInt32.ofNat key.length) ++ key) key := reads_sized (by omega)
    have hvalue : Reads readSized (u32 (UInt32.ofNat value.length) ++ value) value :=
      reads_sized (by omega)
    have hbytes : serializeMutation (.put key value) = [0] ++
        ((u32 (UInt32.ofNat key.length) ++ key) ++ (u32 (UInt32.ofNat value.length) ++ value)) := by
      unfold serializeMutation
      rw [List.append_assoc (u32 _) key]
    rw [hbytes]
    apply (reads_u8 IoError.unexpectedEof 0).bind
    rw [if_pos rfl]
    apply hkey.bind
    exact hvalue.map (Mutation.put key)
  | delete key =>
    simp only [serializeMutation, List.length_append, length_u32] at h
    have hkey : Reads readSized (u32 (UInt32.ofNat key.length) ++ key) key := reads_sized (by omega)
    apply (reads_u8 IoError.unexpectedEof 1).bind
    rw [if_neg (by decide), if_pos rfl]
    exact hkey.map Mutation.delete

theorem length_serializeMutation_pos (m : Mutation) : 5 ≤ (serializeMutation m).length := by
  cases m with
  | put key value =>
    simp only [serializeMutation, List.length_append, length_u32, List.length_singleton]
    omega
  | delete key =>
    simp only [serializeMutation, List.length_append, length_u32, List.length_singleton]
    omega

theorem mutations_fit {ms : List Mutation} {bound : Nat}
    (h : ((ms.map serializeMutation).flatten).length < bound) :
    ms.length < bound ∧ ∀ m ∈ ms, (serializeMutation m).length < bound := by
  induction ms generalizing bound with
  | nil => exact ⟨h, fun m hm => absurd hm List.not_mem_nil⟩
  | cons m ms ih =>
    rw [List.map_cons, List.flatten_cons, List.length_append] at h
    have hpos := length_serializeMutation_pos m
    rcases @ih (bound - (serializeMutation m).length) (by omega) with ⟨hlength, hall⟩
    refine ⟨by rw [List.length_cons]; omega, fun m' hm' => ?_⟩
    rcases List.mem_cons.mp hm' with rfl | hm'
    · omega
    · have := hall m' hm'
      omega

theorem reads_commitRecord {record : CommitRecord} (h : (serializeCommitRecord record).length < 2 ^ 32) :
    Reads deserializeCommitRecord (serializeCommitRecord record) record := by
  unfold serializeCommitRecord at h
  simp only [List.length_append, length_u64, length_u32] at h
  rcases @mutations_fit record.mutations (2 ^ 32) (by omega) with ⟨hcount, hfits⟩
  have hmutations := Reads.many fun m hm => reads_mutation (hfits m hm)
  have hlen : (UInt32.ofNat record.mutations.length).toNat = record.mutations.length := by
    rw [UInt32.toNat_ofNat', Nat.mod_eq_of_lt hcount]
  rw [← hlen] at hmutations
  unfold deserializeCommitRecord serializeCommitRecord
  apply (reads_u64 IoError.unexpectedEof record.txnId).bind
  apply (reads_u64 IoError.unexpectedEof record.rootPageId).bind
  apply (reads_u32 IoError.unexpectedEof record.checksum).bind
  apply (reads_u32 IoError.unexpectedEof (UInt32.ofNat record.mutations.length)).bind
  exact hmutations.map fun ms => CommitRecord.mk record.txnId record.rootPageId ms record.checksum

namespace ReplicationMessage

def BodyBack (m : ReplicationMessage) : Prop :=
  Reads (readBody m.messageType m.payloadBytes.length) m.payloadBytes (m.payload, m.commitRecord)

theorem length_header (m : ReplicationMessage) : m.header.length = 24 := by
  unfold header
  simp only [List.length_append, length_u16, length_u32, length_u64]

theorem window_header (m : ReplicationMessage) :
    window m.header 20 4 = u32 (UInt32.ofNat m.payloadBytes.length) := by
  unfold header
  rw [window_append_right (by simp), length_u16,
    window_append_right (by simp), length_u16,
    window_append_right (by simp), length_u64,
    window_append_right (by simp), length_u64]
  exact window_zero_length (length_u32 _)

theorem deserialize_serialize {m : ReplicationMessage} (hlen : m.payloadBytes.length < 2 ^ 32)
    (hlsn : m.lsn = none) (hbody : m.BodyBack) : deserialize m.serialize = .ok m := by
  have hlength : (UInt32.ofNat m.payloadBytes.length).toNat = m.payloadBytes.length := by
    rw [UInt32.toNat_ofNat', Nat.mod_eq_of_lt hlen]
  have hrest : Reads (do
      match MessageType.fromU16 m.messageType.asU16 with
      | none => throw (.invalidData "Invalid message type")
      | some messageType =>
        let (payload, commitRecord) ← readBody messageType
          (UInt32.ofNat m.payloadBytes.length).toNat
        return ⟨m.version, messageType, m.sequence, commitRecord, none, payload, m.checksum⟩ :
        Reader IoError ReplicationMessage) m.payloadBytes m := by
    rw [MessageType.fromU16_asU16, hlength]
    have hmap := Reads.map hbody fun body =>
      (⟨m.version, m.messageType, m.sequence, body.2, none, body.1, m.checksum⟩ : ReplicationMessage)
    have hm : (⟨m.version, m.messageType, m.sequence, m.commitRecord, none, m.payload, m.checksum⟩ :
        ReplicationMessage) = m := by
      rw [← hlsn]
    rw [hm] at hmap
    exact hmap
  have hread : Reads readMessage (u16 m.version ++ (u16 m.messageType.asU16 ++ (u64 m.sequence ++
      (u64 m.checksum ++ (u32 (UInt32.ofNat m.payloadBytes.length) ++ m.payloadBytes))))) m := by
    unfold readMessage
    apply (reads_u16 IoError.unexpectedEof m.version).bind
    apply (reads_u16 IoError.unexpectedEof m.messageType.asU16).bind
    apply (reads_u64 IoError.unexpectedEof m.sequence).bind
    apply (reads_u64 IoError.unexpectedEof m.checksum).bind
    apply (reads_u32 IoError.unexpectedEof (UInt32.ofNat m.payloadBytes.length)).bind
    exact hrest
  have hwhole := hread []
  unfold deserialize serialize header
  simp only [List.append_assoc, List.append_nil] at hwhole ⊢
  rw [hwhole]
  rfl

theorem reads_receiveMessage {m : ReplicationMessage} (hlen : m.payloadBytes.length < 2 ^ 32)
    (hlsn : m.lsn = none) (hbody : m.BodyBack) : Reads receiveMessage m.serialize m := by
  have hlength : (Bytes.readU32 (window m.header 20 4)).toNat = m.payloadBytes.length := by
    rw [window_header, readU32_u32, UInt32.toNat_ofNat', Nat.mod_eq_of_lt hlen]
  have hpayload : Reads (readPayload m.payloadBytes.length) m.payloadBytes m.payloadBytes := by
    unfold readPayload
    by_cases hpos : m.payloadBytes.length > 0
    · rw [if_pos hpos]
      exact reads_exact _ m.payloadBytes
    · have hnil : m.payloadBytes = [] := List.eq_nil_of_length_eq_zero (by omega)
      rw [if_neg hpos, hnil]
      exact Reads.pure []
  have hdecode : deserialize (m.header ++ m.payloadBytes) = .ok m := deserialize_serialize hlen hlsn hbody
  have hheader := reads_exact (ReplicationError.io .unexpectedEof) m.header
  rw [length_header] at hheader
  unfold receiveMessage serialize
  apply hheader.bind
  rw [hlength]
  apply hpayload.bind_lift
  rw [hdecode]
  exact Reads.lift rfl

/-- The messages the constructors build. -/
inductive Built (dataChecksum : Bytes → UInt64) : ReplicationMessage → Prop where
  | heartbeat (sequence : UInt64) : Built dataChecksum (.heartbeat sequence)
  | ack (sequence : UInt64) : Built dataChecksum (.ack sequence)
  | ofCommitRecord (sequence : UInt64) (record : CommitRecord) :
      Built dataChecksum (.ofCommitRecord sequence record)
  | snapshot (sequence : UInt64) {data : Bytes} (hdata : data ≠ []) :
      Built dataChecksum (.snapshot dataChecksum sequence data)
  | error {message : String} (hmessage : message ≠ "") : Built dataChecksum (.error message)

variable {dataChecksum : Bytes → UInt64} {m : ReplicationMessage}

theorem reads_raw {messageType : MessageType} (htype : messageType ≠ .commitRecord) {data : Bytes}
    (hdata : data ≠ []) : Reads (readBody messageType data.length) data (some data, none) := by
  have hpos : data.length > 0 := List.length_pos_iff.mpr hdata
  unfold readBody
  rw [if_pos hpos]
  apply (reads_exact IoError.unexpectedEof data).bind_lift
  rw [if_neg htype]
  exact Reads.pure _

theorem utf8_ne_nil {message : String} (hmessage : message ≠ "") : message.toUTF8.data.toList ≠ [] := by
  intro hnil
  apply hmessage
  apply String.utf8ByteSize_eq_zero_iff.mp
  have hlength := congrArg List.length hnil
  rw [Array.length_toList] at hlength
  exact hlength

namespace Built

theorem lsn (h : Built dataChecksum m) : m.lsn = none := by
  cases h <;> rfl

theorem bodyBack (h : Built dataChecksum m) (hlen : m.payloadBytes.length < 2 ^ 32) : m.BodyBack := by
  cases h with
  | heartbeat sequence => exact Reads.pure _
  | ack sequence => exact Reads.pure _
  | ofCommitRecord sequence record =>
    have hrecord := reads_commitRecord hlen []
    rw [List.append_nil] at hrecord
    have hpos : (serializeCommitRecord record).length > 0 := by
      simp only [serializeCommitRecord, List.length_append, length_u64]
      omega
    unfold BodyBack readBody
    show Reads (if (serializeCommitRecord record).length > 0 then _ else _) _ _
    rw [if_pos hpos]
    apply (reads_exact IoError.unexpectedEof (serializeCommitRecord record)).bind_lift
    have htype : (ReplicationMessage.ofCommitRecord sequence record).messageType = .commitRecord := rfl
    rw [if_pos htype, hrecord]
    exact Reads.pure _
  | snapshot sequence hdata => exact @reads_raw .snapshot (by decide) _ hdata
  | error hmessage => exact @reads_raw .error (by decide) _ (utf8_ne_nil hmessage)

theorem validateChecksum (h : Built dataChecksum m) : m.validateChecksum = true := by
  cases h with
  | ofCommitRecord sequence record => exact beq_self_eq_true (calculateChecksum record)
  | _ => rfl

end Built

theorem foldl_queueMessage (writeBuffer : Bytes) (ms : List ReplicationMessage) :
    ms.foldl queueMessage writeBuffer = writeBuffer ++ (ms.map serialize).flatten := by
  induction ms generalizing writeBuffer with
  | nil => exact (List.append_nil _).symm
  | cons m ms ih =>
    rw [List.foldl_cons, ih, List.map_cons, List.flatten_cons]
    exact List.append_assoc ..

/-- What is queued is received, message by message, until the buffer is empty; and every message has
the right checksum. -/
theorem receive_queued (dataChecksum : Bytes → UInt64) (ms : List ReplicationMessage)
    (hbuilt : ∀ m ∈ ms, Built dataChecksum m) (hlen : ∀ m ∈ ms, m.payloadBytes.length < 2 ^ 32) :
    readAll receiveMessage (ms.foldl queueMessage []).length (ms.foldl queueMessage []) = .ok ms ∧
      ∀ m ∈ ms, m.validateChecksum = true := by
  refine ⟨?_, fun m hm => (hbuilt m hm).validateChecksum⟩
  have hreads : ∀ m ∈ ms, Reads receiveMessage m.serialize m := fun m hm =>
    reads_receiveMessage (hlen m hm) (hbuilt m hm).lsn ((hbuilt m hm).bodyBack (hlen m hm))
  have hlength : ∀ m : ReplicationMessage, 24 ≤ m.serialize.length := by
    intro m
    unfold serialize
    rw [List.length_append, length_header]
    exact Nat.le_add_right _ _
  have hne : ∀ m ∈ ms, m.serialize ≠ [] := by
    intro m _ hnil
    have h24 := hlength m
    rw [hnil] at h24
    exact absurd h24 (by decide)
  rw [foldl_queueMessage, List.nil_append]
  apply readAll_eq hreads hne
  -- every message takes up some bytes
  clear hbuilt hlen hreads hne
  induction ms with
  | nil => exact Nat.zero_le _
  | cons m ms ih =>
    have h24 := hlength m
    rw [List.map_cons, List.flatten_cons, List.length_append, List.length_cons]
    omega

/-- With the hash of the snapshot as the standard library computes it today. -/
theorem receive_queued_of_each_kind :
    let ms := [heartbeat 5, ofCommitRecord 6 ⟨1, 100, [.put [1] [10], .delete [2], .put [3] []], 9⟩,
      snapshot (fun _ => 0x488bd9b8413f2a7d) 7 [4, 2], error "late", ack 6]
    readAll receiveMessage (ms.foldl queueMessage []).length (ms.foldl queueMessage []) = .ok ms ∧
      ∀ m ∈ ms, m.validateChecksum = true := by
  intro ms
  have hbuilt : ∀ m ∈ ms, Built (fun _ => 0x488bd9b8413f2a7d) m := by
    simp only [ms, List.forall_mem_cons]
    exact ⟨.heartbeat 5, .ofCommitRecord 6 _, .snapshot 7 (by decide), .error (by decide), .ack 6,
      fun _ hm => absurd hm List.not_mem_nil⟩
  have hlen : ∀ m ∈ ms, m.payloadBytes.length < 2 ^ 32 := by
    simp only [ms, List.forall_mem_cons]
    exact ⟨by decide, by decide, by decide, by decide, by decide, fun _ hm => absurd hm List.not_mem_nil⟩
  exact receive_queued (fun _ => 0x488bd9b8413f2a7d) ms hbuilt hlen

end ReplicationMessage

end Replication

end Northstar
