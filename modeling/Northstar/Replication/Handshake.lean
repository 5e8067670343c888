import Northstar.Lib.Decimal
import Northstar.Replication.Protocol

/-!
# Handshake — what the wire format leaves out

`replication/protocol.rs`: the constructors of the messages that open a connection, and of a record that has
been serialized before.  The encoder writes no LSN, and it takes the bytes of a record as they come, while the
decoder reads them in the format of `serialize_commit_record`.

`Publisher::publish` serializes with `serde_json::to_vec`, which is a parameter here.
-/

namespace Northstar.Replication

open Bytes Reader
open Txn (CommitRecord)

namespace ReplicationMessage

def commitRecordBytes (sequence lsn : UInt64) (recordBytes : Bytes) (checksum : UInt64) : ReplicationMessage :=
  ⟨protocolVersion, .commitRecord, sequence, none, some lsn, some recordBytes, checksum⟩

def connect (replicaId startLsn : UInt64) : ReplicationMessage :=
  ⟨protocolVersion, .connect, replicaId, none, some startLsn, none, 0⟩

def accept (currentLsn : UInt64) (version : UInt16) : ReplicationMessage :=
  ⟨version, .accept, currentLsn, none, some currentLsn, none, 0⟩

theorem deserialize_serialize_eq (m : ReplicationMessage) :
    deserialize m.serialize = (readBody m.messageType (UInt32.ofNat m.payloadBytes.length).toNat m.payloadBytes).map
      fun body => ⟨m.version, m.messageType, m.sequence, body.1.2, none, body.1.1, m.checksum⟩ := by
  unfold deserialize serialize header readMessage
  simp only [List.append_assoc]
  rw [(reads_u16 IoError.unexpectedEof m.version).step, (reads_u16 IoError.unexpectedEof _).step,
    (reads_u64 IoError.unexpectedEof m.sequence).step, (reads_u64 IoError.unexpectedEof m.checksum).step,
    (reads_u32 IoError.unexpectedEof _).step, MessageType.fromU16_asU16]
  show (readBody m.messageType _ m.payloadBytes >>= _).map Prod.fst = _
  cases readBody m.messageType (UInt32.ofNat m.payloadBytes.length).toNat m.payloadBytes with
  | error e => rfl
  | ok body => rfl

theorem deserialize_connect (replicaId startLsn : UInt64) :
    deserialize (connect replicaId startLsn).serialize = .ok { connect replicaId startLsn with lsn := none } :=
  deserialize_serialize_eq (connect replicaId startLsn)

theorem deserialize_accept (currentLsn : UInt64) (version : UInt16) :
    deserialize (accept currentLsn version).serialize = .ok { accept currentLsn version with lsn := none } :=
  deserialize_serialize_eq (accept currentLsn version)

/-- No control character: what compact JSON consists of. -/
def Printable (bytes : Bytes) : Prop := ∀ b ∈ bytes, 0x20 ≤ b

instance decidablePrintable (bytes : Bytes) : Decidable (Printable bytes) :=
  List.decidableBAll (fun b => 0x20 ≤ b) bytes

theorem Printable.of_append {a b : Bytes} (h : Printable (a ++ b)) : Printable a ∧ Printable b :=
  ⟨fun x hx => h x (List.mem_append_left _ hx), fun x hx => h x (List.mem_append_right _ hx)⟩

theorem toNat_pos_of_printable {bytes : Bytes} (h : Printable bytes) (hne : bytes ≠ []) : 0 < Bytes.toNat bytes := by
  cases bytes with
  | nil => exact absurd rfl hne
  | cons b bs =>
    have hb : 0x20 ≤ b.toNat := UInt8.le_iff_toNat_le.mp (h b (List.mem_cons_self ..))
    show 0 < b.toNat + 256 * Bytes.toNat bs
    omega

theorem deserializeMutation_error {data rest : Bytes} {m : Wal.Mutation} (h : Printable data) :
    deserializeMutation data ≠ .ok (m, rest) := by
  intro hok
  rcases bind_eq_ok hok with ⟨variant, rest', hvariant, hmutation⟩
  rcases readWord_eq_ok hvariant with ⟨bytes, hdata, hlength, rfl⟩
  rcases List.length_eq_one_iff.mp hlength with ⟨b, rfl⟩
  have hb : 0x20 ≤ b := h b (hdata ▸ List.mem_cons_self ..)
  have hzero : b ≠ 0 := fun heq => absurd (heq ▸ hb) (by decide)
  have hone : b ≠ 1 := fun heq => absurd (heq ▸ hb) (by decide)
  rw [List.headD_cons, if_neg hzero, if_neg hone] at hmutation
  cases hmutation

theorem deserializeCommitRecord_error {data rest : Bytes} {record : CommitRecord} (h : Printable data) :
    deserializeCommitRecord data ≠ .ok (record, rest) := by
  intro hok
  rcases bind_eq_ok hok with ⟨_, rest₁, htxn, hok⟩
  rcases bind_eq_ok hok with ⟨_, rest₂, hroot, hok⟩
  rcases bind_eq_ok hok with ⟨_, rest₃, hchecksum, hok⟩
  rcases bind_eq_ok hok with ⟨_, rest₄, hcount, hok⟩
  rcases bind_eq_ok hok with ⟨_, rest₅, hmutations, -⟩
  rcases readWord_eq_ok htxn with ⟨_, rfl, -, -⟩
  rcases readWord_eq_ok hroot with ⟨_, rfl, -, -⟩
  rcases readWord_eq_ok hchecksum with ⟨_, rfl, -, -⟩
  rcases readWord_eq_ok hcount with ⟨bytes, rfl, hlength, rfl⟩
  have htail := h.of_append.2.of_append.2.of_append.2.of_append
  -- the count is at least one, and the first mutation cannot be read
  have hpos : 0 < (Bytes.readU32 bytes).toNat := by
    have hlt : Bytes.toNat bytes < 2 ^ 32 := by
      have hbound := toNat_lt bytes
      rwa [hlength] at hbound
    unfold Bytes.readU32
    rw [UInt32.toNat_ofNat', Nat.mod_eq_of_lt hlt]
    exact toNat_pos_of_printable htail.1 (fun hnil => absurd (hnil ▸ hlength) (by decide))
  rcases Nat.exists_eq_add_of_lt hpos with ⟨count, hcount⟩
  rw [Nat.zero_add] at hcount
  rw [hcount] at hmutations
  rcases bind_eq_ok hmutations with ⟨m, rest₆, hmutation, -⟩
  exact deserializeMutation_error htail.2 hmutation

theorem commitRecord_not_carried (sequence lsn checksum : UInt64) {recordBytes : Bytes} (h : Printable recordBytes)
    (record : CommitRecord) :
    ¬ ∃ m, deserialize (commitRecordBytes sequence lsn recordBytes checksum).serialize = .ok m ∧
      m.commitRecord = some record := by
  rintro ⟨m, hok, hrecord⟩
  rw [deserialize_serialize_eq] at hok
  change (readBody .commitRecord (UInt32.ofNat recordBytes.length).toNat recordBytes).map _ = _ at hok
  cases hbody : readBody .commitRecord (UInt32.ofNat recordBytes.length).toNat recordBytes with
  | error e =>
    rw [hbody] at hok
    cases hok
  | ok body =>
    rw [hbody] at hok
    cases hok
    have hrecord : body.1.2 = some record := hrecord
    unfold readBody at hbody
    by_cases hpos : (UInt32.ofNat recordBytes.length).toNat > 0
    · rw [if_pos hpos] at hbody
      rcases bind_eq_ok hbody with ⟨buf, rest, hbuf, hbody⟩
      have hprintable : Printable buf := ((readExact_eq_ok hbuf).1 ▸ h).of_append.1
      rw [if_pos rfl] at hbody
      cases hfound : deserializeCommitRecord buf with
      | ok found => exact deserializeCommitRecord_error hprintable hfound
      | error e =>
        rw [hfound] at hbody
        cases hbody
    · rw [if_neg hpos] at hbody
      cases hbody
      cases hrecord

def text (s : String) : Bytes := s.toUTF8.data.toList

def commas : List Bytes → Bytes
  | [] => []
  | [item] => item
  | item :: items => item ++ (text "," ++ commas items)

def jsonArray (items : List Bytes) : Bytes := text "[" ++ (commas items ++ text "]")

/-- A `Vec<u8>` is an array of numbers. -/
def bytesJson (bytes : Bytes) : Bytes := jsonArray (bytes.map fun b => Decimal.format b.toNat)

def mutationJson : Wal.Mutation → Bytes
  | .put key value => text "\x7b\"Put\":\x7b\"key\":" ++ (bytesJson key ++ (text ",\"value\":" ++
      (bytesJson value ++ text "\x7d\x7d")))
  | .delete key => text "\x7b\"Delete\":\x7b\"key\":" ++ (bytesJson key ++ text "\x7d\x7d")

def recordJson (record : CommitRecord) : Bytes :=
  text "\x7b\"txn_id\":" ++ (Decimal.format record.txnId.toNat ++ (text ",\"root_page_id\":" ++
    (Decimal.format record.rootPageId.toNat ++ (text ",\"mutations\":" ++
      (jsonArray (record.mutations.map mutationJson) ++ (text ",\"checksum\":" ++
        (Decimal.format record.checksum.toNat ++ text "\x7d")))))))

theorem Printable.append {a b : Bytes} (ha : Printable a) (hb : Printable b) : Printable (a ++ b) := by
  intro x hx
  rcases List.mem_append.mp hx with hx | hx
  · exact ha x hx
  · exact hb x hx

theorem printable_format (n : Nat) : Printable (Decimal.format n) := by
  intro b hb
  have hdigit := (Decimal.isDigit_of_mem_format hb).1
  rw [UInt8.le_iff_toNat_le]
  exact le_trans (by decide) hdigit

theorem printable_commas {items : List Bytes} (h : ∀ item ∈ items, Printable item) : Printable (commas items) := by
  induction items with
  | nil => exact fun _ hb => absurd hb List.not_mem_nil
  | cons item items ih =>
    have hitem := h item (List.mem_cons_self ..)
    have hrest := ih fun other hother => h other (List.mem_cons_of_mem _ hother)
    have hcomma : Printable (text ",") := by decide
    cases items with
    | nil => exact hitem
    | cons other items => exact hitem.append (hcomma.append hrest)

theorem printable_jsonArray {items : List Bytes} (h : ∀ item ∈ items, Printable item) :
    Printable (jsonArray items) := by
  have hopen : Printable (text "[") := by decide
  have hclose : Printable (text "]") := by decide
  exact hopen.append ((printable_commas h).append hclose)

theorem printable_bytesJson (bytes : Bytes) : Printable (bytesJson bytes) := by
  apply printable_jsonArray
  intro item hitem
  rcases List.mem_map.mp hitem with ⟨b, -, rfl⟩
  exact printable_format b.toNat

theorem printable_mutationJson (m : Wal.Mutation) : Printable (mutationJson m) := by
  cases m with
  | put key value =>
    have hput : Printable (text "\x7b\"Put\":\x7b\"key\":") := by decide
    have hvalue : Printable (text ",\"value\":") := by decide
    have hclose : Printable (text "\x7d\x7d") := by decide
    exact hput.append ((printable_bytesJson key).append (hvalue.append ((printable_bytesJson value).append hclose)))
  | delete key =>
    have hdelete : Printable (text "\x7b\"Delete\":\x7b\"key\":") := by decide
    have hclose : Printable (text "\x7d\x7d") := by decide
    exact hdelete.append ((printable_bytesJson key).append hclose)

theorem printable_recordJson (record : CommitRecord) : Printable (recordJson record) := by
  have htxn : Printable (text "\x7b\"txn_id\":") := by decide
  have hroot : Printable (text ",\"root_page_id\":") := by decide
  have hmutations : Printable (text ",\"mutations\":") := by decide
  have hchecksum : Printable (text ",\"checksum\":") := by decide
  have hclose : Printable (text "\x7d") := by decide
  have harray : Printable (jsonArray (record.mutations.map mutationJson)) := by
    apply printable_jsonArray
    intro item hitem
    rcases List.mem_map.mp hitem with ⟨m, -, rfl⟩
    exact printable_mutationJson m
  exact htxn.append ((printable_format _).append (hroot.append ((printable_format _).append (hmutations.append
    (harray.append (hchecksum.append ((printable_format _).append hclose)))))))

/-- Nothing of what is to survive the wire does: for no ids and LSNs, and for no record. -/
theorem nothing_survives (toJson : CommitRecord → Bytes) (hjson : ∀ record, Printable (toJson record)) :
    (∀ replicaId startLsn, ¬ ∃ m, deserialize (connect replicaId startLsn).serialize = .ok m ∧
      m.lsn = some startLsn) ∧
    (∀ currentLsn version, ¬ ∃ m, deserialize (accept currentLsn version).serialize = .ok m ∧
      m.lsn = some currentLsn) ∧
    ∀ sequence lsn checksum record, ¬ ∃ m,
      deserialize (commitRecordBytes sequence lsn (toJson record) checksum).serialize = .ok m ∧
        m.commitRecord = some record := by
  refine ⟨?_, ?_, ?_⟩
  · rintro replicaId startLsn ⟨m, hok, hlsn⟩
    rw [deserialize_connect] at hok
    cases hok
    cases hlsn
  · rintro currentLsn version ⟨m, hok, hlsn⟩
    rw [deserialize_accept] at hok
    cases hok
    cases hlsn
  · intro sequence lsn checksum record
    exact commitRecord_not_carried sequence lsn checksum (hjson record) record

/-- One record, with its text as the serializer writes it. -/
theorem put_does_not_survive :
    ¬ ∃ m, deserialize (commitRecordBytes 1 5 (recordJson ⟨5, 3, [.put [107] [1]], 9⟩) 0).serialize = .ok m ∧
      m.commitRecord = some ⟨5, 3, [.put [107] [1]], 9⟩ :=
  (nothing_survives recordJson printable_recordJson).2.2 1 5 0 ⟨5, 3, [.put [107] [1]], 9⟩

/-- A replica that asks for the records from 42 on is heard without the 42. -/
theorem start_lsn_is_lost :
    ¬ ∀ replicaId startLsn, ∃ m, deserialize (connect replicaId startLsn).serialize = .ok m ∧ m.lsn = some startLsn := by
  intro hclaim
  rcases hclaim 7 42 with ⟨m, hok, hlsn⟩
  rw [deserialize_connect] at hok
  cases hok
  cases hlsn

end ReplicationMessage

end Northstar.Replication
