import Northstar.Wal.Record

/-!
# RoundTrip — what a commit payload decodes to

The decoder reads a value of length zero as an absent value and then refuses a put without one, so
a payload comes back exactly when none of its puts stores the empty value.
-/

namespace Northstar.Wal

open Bytes

variable {m : Mutation} {op : EncodedOperation} {ms : List Mutation}

namespace Mutation

/-- The sizes a transaction accepts. -/
def Fits (m : Mutation) : Prop :=
  m.key.length ≤ 4096 ∧ (m.value.getD []).length ≤ 16 * 1024 * 1024

/-- `m` is not a put of the empty value. -/
def Valued (m : Mutation) : Prop := m.value ≠ some []

instance (m : Mutation) : Decidable m.Fits := inferInstanceAs (Decidable (_ ∧ _))
instance (m : Mutation) : Decidable m.Valued := inferInstanceAs (Decidable (_ ≠ _))

def opType : Mutation → OperationType
  | .put _ _ => .put
  | .delete _ => .delete

def operation (m : Mutation) : EncodedOperation where
  opType := m.opType
  opFlags := 0
  keyLen := UInt16.ofNat m.key.length
  valLen := UInt32.ofNat (m.value.getD []).length
  keyBytes := m.key
  valBytes := m.value

/-- The bytes an operation takes in a payload. -/
def size (m : Mutation) : Nat := 8 + m.key.length + (m.value.getD []).length

@[simp] theorem length_operation_toBytes (m : Mutation) : m.operation.toBytes.length = m.size := by
  simp only [EncodedOperation.toBytes, operation, size, List.length_append, List.length_cons,
    List.length_nil, length_u16, length_u32]
  omega

theorem keyLen_toNat {n : Nat} (h : n ≤ 4096) : (UInt16.ofNat n).toNat = n := by
  rw [UInt16.toNat_ofNat']
  omega

theorem valLen_toNat {n : Nat} (h : n ≤ 16 * 1024 * 1024) : (UInt32.ofNat n).toNat = n := by
  rw [UInt32.toNat_ofNat']
  omega

theorem encode_of_fits (h : m.Fits) : m.encode = .ok m.operation := by
  rcases h with ⟨hkey, hval⟩
  have hk : ¬ (UInt16.ofNat m.key.length).toUInt32 > maxKeySize := by
    rw [gt_iff_lt, UInt32.lt_iff_toNat_lt, UInt16.toNat_toUInt32, keyLen_toNat hkey]
    exact Nat.not_lt.mpr hkey
  have hv : ¬ UInt32.ofNat (m.value.getD []).length > maxValueSize := by
    rw [gt_iff_lt, UInt32.lt_iff_toNat_lt, valLen_toNat hval]
    exact Nat.not_lt.mpr hval
  cases m with
  | put key value => exact (if_neg hk).trans (if_neg hv)
  | delete key => exact if_neg hk

/-- The converse of `encode_of_fits` up to the truncation of the lengths: a mutation the encoder
does not refuse is encoded as its operation. -/
theorem encode_eq_ok (h : m.encode = .ok op) : op = m.operation := by
  cases m with
  | put key value =>
    simp only [encode, EncodedOperation.newPut, Except.guard_eq_ok_iff] at h
    exact (Except.ok.inj h.2.2).symm
  | delete key =>
    simp only [encode, EncodedOperation.newDelete, Except.guard_eq_ok_iff] at h
    exact (Except.ok.inj h.2).symm

end Mutation

variable {data : Bytes}

namespace EncodedOperation

theorem length_toBytes (op : EncodedOperation) :
    op.toBytes.length = 8 + op.keyBytes.length + (op.valBytes.getD []).length := by
  simp only [toBytes, List.length_append, List.length_cons, List.length_nil, length_u16,
    length_u32]
  omega

theorem window_keyLen (op : EncodedOperation) (rest : Bytes) :
    window (op.toBytes ++ rest) 2 2 = u16 op.keyLen := by
  rw [toBytes, List.append_assoc, List.append_assoc]
  exact window_append_middle rfl (length_u16 _)

theorem window_valLen (op : EncodedOperation) (rest : Bytes) :
    window (op.toBytes ++ rest) 4 4 = u32 op.valLen := by
  rw [toBytes, List.append_assoc, List.append_assoc, List.append_assoc,
    window_append_right (by simp)]
  exact window_append_middle (length_u16 _) (length_u32 _)

theorem window_keyBytes (op : EncodedOperation) :
    window op.toBytes 8 op.keyBytes.length = op.keyBytes := by
  rw [toBytes, window_append_right (by simp), window_append_right (by simp),
    window_append_right (by simp)]
  exact window_head rfl

theorem window_valBytes (op : EncodedOperation) :
    window op.toBytes (8 + op.keyBytes.length) (op.valBytes.getD []).length =
      op.valBytes.getD [] := by
  have hsplit : op.toBytes = ([op.opType.toU8, op.opFlags] ++ u16 op.keyLen ++ u32 op.valLen ++
      op.keyBytes) ++ (op.valBytes.getD [] ++ []) := by
    simp only [toBytes, List.append_assoc, List.append_nil]
  rw [hsplit]
  exact window_append_middle (by simp; omega) rfl

theorem validate_eq_ok_iff (op : EncodedOperation) : op.validate = .ok () ↔
      op.opFlags = 0 ∧ op.keyBytes.length = op.keyLen.toNat ∧
        match op.opType with
        | .put => ∃ val, op.valBytes = some val ∧ val.length = op.valLen.toNat
        | .delete => op.valLen = 0 ∧ op.valBytes = none := by
  unfold validate
  rw [Except.guard_eq_ok_iff, Except.guard_eq_ok_iff]
  cases htype : op.opType with
  | put => cases hval : op.valBytes <;> simp
  | delete => cases hval : op.valBytes <;> simp

theorem fromBytes_toBytes (hvalid : op.validate = .ok ())
    (hne : op.valBytes ≠ some []) : fromBytes op.toBytes = .ok op := by
  obtain ⟨hflags, hkey, hval⟩ := (validate_eq_ok_iff op).mp hvalid
  have hvalLen : (op.valBytes.getD []).length = op.valLen.toNat := by
    cases htype : op.opType with
    | put =>
      obtain ⟨val, hsome, hlen⟩ : ∃ val, op.valBytes = some val ∧ val.length = op.valLen.toNat := by
        simpa only [htype] using hval
      rw [hsome]
      exact hlen
    | delete =>
      obtain ⟨hzero, hnone⟩ : op.valLen = 0 ∧ op.valBytes = none := by simpa only [htype] using hval
      rw [hnone, hzero]
      rfl
  have hpresent : (if op.valLen.toNat > 0 then some (op.valBytes.getD []) else none) =
      op.valBytes := by
    rw [← hvalLen]
    cases hv : op.valBytes with
    | none => rfl
    | some val => exact if_pos (List.length_pos_of_ne_nil (fun hnil => hne (hnil ▸ hv)))
  have htype : OperationType.fromU8 (op.toBytes.getD 0 0) = some op.opType := by
    cases hop : op.opType <;> simp [toBytes, hop, OperationType.toU8, OperationType.fromU8]
  have hflag : op.toBytes.getD 1 0 = 0 := by
    simp [toBytes, hflags]
  have hkeyWindow := window_keyLen op []
  have hvalWindow := window_valLen op []
  rw [List.append_nil] at hkeyWindow hvalWindow
  unfold fromBytes
  rw [if_neg (by rw [length_toBytes]; omega), htype]
  simp only [hkeyWindow, hvalWindow, readU16_u16, readU32_u32, hflag, UInt16.ofNat_toNat,
    UInt32.ofNat_toNat]
  rw [← hkey, window_keyBytes, ← hvalLen, window_valBytes, hvalLen, hpresent,
    if_neg (fun h => h rfl), if_neg (by rw [length_toBytes]; omega), ← hflags]
  exact congrArg (· >>= fun _ => Except.ok op) hvalid

theorem fromBytes_eq_ok (h : fromBytes data = .ok op) :
    op.validate = .ok () ∧ op.valBytes ≠ some [] ∧
      op.keyLen = readU16 (window data 2 2) ∧ op.valLen = readU32 (window data 4 4) := by
  unfold fromBytes at h
  rw [Except.guard_eq_ok_iff] at h
  cases htype : OperationType.fromU8 (data.getD 0 0) with
  | none =>
    rw [htype] at h
    cases h.2
  | some opType =>
    rw [htype] at h
    simp only [Except.guard_eq_ok_iff, Except.bind_eq_ok_iff] at h
    obtain ⟨-, -, hlen, _, hvalid, hop⟩ := h
    cases hop
    refine ⟨hvalid, ?_, UInt16.ofNat_toNat, UInt32.ofNat_toNat⟩
    dsimp only
    split
    · rename_i hpos
      intro hnil
      have hwindow : (window data (8 + (readU16 (window data 2 2)).toNat)
          (readU32 (window data 4 4)).toNat).length = 0 :=
        congrArg List.length (Option.some.inj hnil)
      rw [length_window_of_le (by omega)] at hwindow
      omega
    · exact fun hnil => nomatch hnil

end EncodedOperation

namespace Mutation

theorem operation_validate (hkey : m.key.length < 2 ^ 16)
    (hval : (m.value.getD []).length < 2 ^ 32) : m.operation.validate = .ok () := by
  rw [EncodedOperation.validate_eq_ok_iff]
  refine ⟨rfl, ?_, ?_⟩
  · change m.key.length = (UInt16.ofNat m.key.length).toNat
    rw [UInt16.toNat_ofNat']
    omega
  · cases m with
    | put key value =>
      refine ⟨value, rfl, ?_⟩
      change value.length = (UInt32.ofNat value.length).toNat
      rw [UInt32.toNat_ofNat']
      exact (Nat.mod_eq_of_lt hval).symm
    | delete key => exact ⟨rfl, rfl⟩

theorem tryFrom_operation (m : Mutation) : tryFrom m.operation = .ok m := by
  cases m <;> rfl

theorem tryFrom_eq_ok (hvalid : op.validate = .ok ())
    (h : tryFrom op = .ok m) : m.key = op.keyBytes ∧ m.value = op.valBytes := by
  obtain ⟨-, -, hval⟩ := (EncodedOperation.validate_eq_ok_iff op).mp hvalid
  unfold tryFrom at h
  cases htype : op.opType with
  | put =>
    rw [htype] at h hval
    obtain ⟨val, hsome, -⟩ := hval
    rw [hsome] at h
    cases h
    exact ⟨rfl, hsome.symm⟩
  | delete =>
    rw [htype] at h hval
    cases h
    exact ⟨rfl, hval.2.symm⟩

theorem size_of_tryFrom (hvalid : op.validate = .ok ())
    (h : tryFrom op = .ok m) : m.size = 8 + op.keyLen.toNat + op.valLen.toNat := by
  obtain ⟨hkey, hvalue⟩ := tryFrom_eq_ok hvalid h
  obtain ⟨-, hkeyLen, hval⟩ := (EncodedOperation.validate_eq_ok_iff op).mp hvalid
  rw [size, hkey, hvalue, hkeyLen]
  cases htype : op.opType with
  | put =>
    rw [htype] at hval
    obtain ⟨val, hsome, hlen⟩ := hval
    rw [hsome]
    exact congrArg _ hlen
  | delete =>
    rw [htype] at hval
    rw [hval.1, hval.2]
    rfl

end Mutation

def operationBytes (ms : List Mutation) : Bytes := (ms.map (·.operation.toBytes)).flatten

theorem length_operationBytes (ms : List Mutation) :
    (operationBytes ms).length = (ms.map (·.size)).sum := by
  rw [operationBytes, List.length_flatten, List.map_map]
  exact congrArg List.sum (List.map_congr_left fun m _ => m.length_operation_toBytes)

theorem parseOperations_operationBytes
    (h : ∀ m ∈ ms, m.key.length < 2 ^ 16 ∧ (m.value.getD []).length < 2 ^ 32 ∧ m.Valued)
    (before rest : Bytes) :
    CommitRecord.parseOperations (before ++ (operationBytes ms ++ rest)) ms.length before.length =
      .ok (ms, before.length + (operationBytes ms).length) := by
  induction ms generalizing before with
  | nil => rfl
  | cons m ms ih =>
    obtain ⟨hkey, hval, hvalued⟩ := h m List.mem_cons_self
    have hvalid := Mutation.operation_validate hkey hval
    have hkeyNat : m.operation.keyLen.toNat = m.key.length :=
      ((EncodedOperation.validate_eq_ok_iff _).mp hvalid).2.1.symm
    have hvalNat : m.operation.valLen.toNat = (m.value.getD []).length := by
      change (UInt32.ofNat _).toNat = _
      rw [UInt32.toNat_ofNat']
      exact Nat.mod_eq_of_lt hval
    have hbytes : operationBytes (m :: ms) = m.operation.toBytes ++ operationBytes ms := rfl
    have hsize := m.length_operation_toBytes
    rw [Mutation.size] at hsize
    -- the rest of the list is parsed behind the first operation
    have hrest := ih (fun m' hm' => h m' (List.mem_cons_of_mem _ hm'))
      (before ++ m.operation.toBytes)
    rw [List.append_assoc, ← List.append_assoc m.operation.toBytes, ← hbytes, List.length_append,
      hsize] at hrest
    have hwindow : window (before ++ (operationBytes (m :: ms) ++ rest)) before.length
        (8 + m.key.length + (m.value.getD []).length) = m.operation.toBytes := by
      rw [hbytes, List.append_assoc]
      exact window_append_middle rfl hsize
    have hkeyWindow : window (before ++ (operationBytes (m :: ms) ++ rest)) (before.length + 2) 2 =
        u16 m.operation.keyLen := by
      rw [window_append_right (by omega), Nat.add_sub_cancel_left, hbytes, List.append_assoc]
      exact EncodedOperation.window_keyLen _ _
    have hvalWindow : window (before ++ (operationBytes (m :: ms) ++ rest)) (before.length + 4) 4 =
        u32 m.operation.valLen := by
      rw [window_append_right (by omega), Nat.add_sub_cancel_left, hbytes, List.append_assoc]
      exact EncodedOperation.window_valLen _ _
    have hlen : (before ++ (operationBytes (m :: ms) ++ rest)).length = before.length +
        (8 + m.key.length + (m.value.getD []).length) + (operationBytes ms ++ rest).length := by
      rw [hbytes, List.append_assoc, List.length_append, List.length_append, hsize]
      omega
    rw [List.length_cons, CommitRecord.parseOperations, if_neg (by omega)]
    simp only [hkeyWindow, hvalWindow, readU16_u16, readU32_u32, hkeyNat, hvalNat]
    rw [if_neg (by omega), hwindow, EncodedOperation.fromBytes_toBytes hvalid hvalued,
      Except.ok_bind, Mutation.tryFrom_operation, Except.ok_bind, hrest, Except.ok_bind]
    change Except.ok (m :: ms, _) = _
    rw [hbytes, List.length_append, hsize, Nat.add_assoc]

/-- What the operation loop accepts: as many mutations as asked for, none with an empty value, and
together no longer than the data. -/
theorem parseOperations_eq_ok {count offset stop : Nat}
    (h : CommitRecord.parseOperations data count offset = .ok (ms, stop))
    (hoff : offset ≤ data.length) :
    ms.length = count ∧ stop = offset + (ms.map (·.size)).sum ∧ stop ≤ data.length ∧
      ∀ m ∈ ms, m.key.length < 2 ^ 16 ∧ m.Valued := by
  induction count generalizing offset ms with
  | zero =>
    cases h
    exact ⟨rfl, rfl, hoff, fun m hm => nomatch hm⟩
  | succ count ih =>
    simp only [CommitRecord.parseOperations, Except.guard_eq_ok_iff, Except.bind_eq_ok_iff] at h
    obtain ⟨-, hfit, op, hop, m, hm, ⟨ms', stop'⟩, hparsed, hres⟩ := h
    cases hres
    obtain ⟨hvalid, hne, hkeyLen, hvalLen⟩ := EncodedOperation.fromBytes_eq_ok hop
    obtain ⟨hkey, hvalue⟩ := Mutation.tryFrom_eq_ok hvalid hm
    rw [window_window (by omega)] at hkeyLen hvalLen
    have hsize := Mutation.size_of_tryFrom hvalid hm
    rw [hkeyLen, hvalLen] at hsize
    obtain ⟨hlen, hstop, hle, hall⟩ := ih hparsed (by omega)
    refine ⟨by rw [List.length_cons, hlen], ?_, hle, ?_⟩
    · rw [hstop, List.map_cons, List.sum_cons, hsize, Nat.add_assoc]
    · intro m' hm'
      rcases List.mem_cons.mp hm' with rfl | hmem
      · refine ⟨?_, ?_⟩
        · rw [hkey, ((EncodedOperation.validate_eq_ok_iff op).mp hvalid).2.1]
          exact op.keyLen.toNat_lt
        · rw [Mutation.Valued, hvalue]
          exact hne
      · exact hall m' hmem

namespace CommitRecord

/-- What the decoder can give back: few enough operations, keys whose length fits its field, and no
put of the empty value. -/
def Decodable (r : CommitRecord) : Prop :=
  r.mutations.length ≤ 10000 ∧ ∀ m ∈ r.mutations, m.key.length < 2 ^ 16 ∧ m.Valued

theorem encodeMutations_of_fits (h : ∀ m ∈ ms, m.Fits) :
    encodeMutations ms = some (ms.map (·.operation)) := by
  unfold encodeMutations
  induction ms with
  | nil => rfl
  | cons m ms ih =>
    rw [List.mapM_cons, Mutation.encode_of_fits (h m List.mem_cons_self),
      ih (fun m' hm' => h m' (List.mem_cons_of_mem _ hm'))]
    rfl

theorem encodeMutations_eq_some {ops : List EncodedOperation}
    (h : encodeMutations ms = some ops) : ops = ms.map (·.operation) := by
  unfold encodeMutations at h
  induction ms generalizing ops with
  | nil =>
    cases h
    rfl
  | cons m ms ih =>
    rw [List.mapM_cons] at h
    cases hm : m.encode with
    | error e =>
      rw [hm] at h
      cases h
    | ok op =>
      cases hms : ms.mapM (·.encode.toOption) with
      | none =>
        rw [hm, hms] at h
        cases h
      | some ops' =>
        rw [hm, hms] at h
        cases h
        rw [List.map_cons, ← Mutation.encode_eq_ok hm, ← ih hms]

/-- The bytes a record is serialized to when its mutations can be encoded. -/
def payload (r : CommitRecord) : Bytes := r.payloadHeader.toBytes ++ operationBytes r.mutations

theorem length_payload (r : CommitRecord) :
    r.payload.length = commitHeaderSize + (r.mutations.map (·.size)).sum := by
  rw [payload, List.length_append, CommitPayloadHeader.length_toBytes, length_operationBytes]

variable {r : CommitRecord}

theorem serializePayload_eq_some {p : Bytes} (h : r.serializePayload = some p) : p = r.payload := by
  unfold serializePayload at h
  cases hops : encodeMutations r.mutations with
  | none =>
    rw [hops] at h
    cases h
  | some ops =>
    rw [hops] at h
    cases h
    rw [encodeMutations_eq_some hops, List.map_map]
    rfl

theorem serializePayload_of_fits (h : ∀ m ∈ r.mutations, m.Fits) :
    r.serializePayload = some r.payload := by
  unfold serializePayload
  rw [encodeMutations_of_fits h]
  change some (_ ++ ((r.mutations.map (·.operation)).map (·.toBytes)).flatten) = _
  rw [List.map_map]
  rfl

theorem deserializePayload_payload (crc : Crc) (hdec : r.Decodable)
    (hval : ∀ m ∈ r.mutations, (m.value.getD []).length < 2 ^ 32) :
    deserializePayload crc r.txnId r.payload =
      .ok { r with checksum := Northstar.checksum crc r.payload } := by
  obtain ⟨hcount, hall⟩ := hdec
  have hopCount : (UInt32.ofNat r.mutations.length).toNat = r.mutations.length := by
    rw [UInt32.toNat_ofNat']
    omega
  have hvalid : r.payloadHeader.validate = .ok () := by
    rw [payloadHeader, CommitPayloadHeader.validate_new, UInt32.le_iff_toNat_le, hopCount]
    exact hcount
  have hparse := parseOperations_operationBytes
    (fun m hm => ⟨(hall m hm).1, hval m hm, (hall m hm).2⟩) r.payloadHeader.toBytes []
  rw [List.append_nil, CommitPayloadHeader.length_toBytes] at hparse
  have hcut : r.payload.take (commitHeaderSize + (operationBytes r.mutations).length) =
      r.payload := by
    rw [List.take_of_length_le (by rw [length_payload, length_operationBytes])]
  unfold deserializePayload
  rw [payload, CommitPayloadHeader.fromBytes_toBytes, Except.ok_bind, hvalid, Except.ok_bind,
    if_neg (fun h => h rfl)]
  change (parseOperations r.payload (UInt32.ofNat r.mutations.length).toNat _ >>= _) = _
  rw [hopCount, payload, hparse, Except.ok_bind]
  change Except.ok (CommitRecord.mk r.txnId r.rootPageId r.mutations
    (crc 0 (r.payload.take (commitHeaderSize + (operationBytes r.mutations).length)))) = _
  rw [hcut]
  rfl

variable {crc : Crc}

theorem deserializePayload_eq_ok {txnId : UInt64} (h : deserializePayload crc txnId data = .ok r) :
    r.Decodable ∧ r.txnId = txnId ∧
      commitHeaderSize + (r.mutations.map (·.size)).sum ≤ data.length := by
  simp only [deserializePayload, Except.guard_eq_ok_iff, Except.bind_eq_ok_iff] at h
  obtain ⟨header, hheader, _, hvalid, htxn, ⟨ms, stop⟩, hparsed, hres⟩ := h
  cases hres
  have hlen : commitHeaderSize ≤ data.length := by
    unfold CommitPayloadHeader.fromBytes at hheader
    rw [Except.guard_eq_ok_iff] at hheader
    omega
  have hcount : header.opCount ≤ maxOperationsPerCommit := by
    unfold CommitPayloadHeader.validate at hvalid
    simp only [Except.guard_eq_ok_iff, gt_iff_lt, UInt32.not_lt] at hvalid
    exact hvalid.2.2.1
  obtain ⟨hms, hstop, hle, hall⟩ := parseOperations_eq_ok hparsed hlen
  refine ⟨⟨?_, hall⟩, not_ne_iff.mp htxn, ?_⟩
  · rw [hms]
    exact UInt32.le_iff_toNat_le.mp hcount
  · rw [← hstop]
    exact hle

theorem foldl_update (hcrc : crc.Appends) (ops : List EncodedOperation) (a : Bytes) :
    ops.foldl (fun h op => h.update crc op.toBytes) (hasher.update crc a) =
      hasher.update crc (a ++ (ops.map (·.toBytes)).flatten) := by
  induction ops generalizing a with
  | nil => rw [List.map_nil, List.flatten_nil, List.append_nil, List.foldl_nil]
  | cons op ops ih =>
    have hstep : (hasher.update crc a).update crc op.toBytes =
        hasher.update crc (a ++ op.toBytes) :=
      congrArg Crc32cHasher.mk (hcrc 0 a op.toBytes)
    rw [List.foldl_cons, hstep, ih, List.map_cons, List.flatten_cons, List.append_assoc]

theorem calculatePayloadChecksum_of_fits (hcrc : crc.Appends) (h : ∀ m ∈ r.mutations, m.Fits) :
    r.calculatePayloadChecksum crc = some (Northstar.checksum crc r.payload) := by
  unfold calculatePayloadChecksum
  rw [encodeMutations_of_fits h]
  change some (Crc32cHasher.finalize (List.foldl _ (hasher.update crc r.payloadHeader.toBytes)
    (r.mutations.map (·.operation)))) = _
  rw [foldl_update hcrc, List.map_map]
  rfl

/-- Serializing and decoding gives the record back, and the result passes its checksum. -/
def RoundTrips (crc : Crc) (r : CommitRecord) : Prop :=
  ∃ p r', r.serializePayload = some p ∧ deserializePayload crc r.txnId p = .ok r' ∧
    r'.txnId = r.txnId ∧ r'.rootPageId = r.rootPageId ∧ r'.mutations = r.mutations ∧
      r'.validateChecksum crc = some true

/-- A record within the limits of a transaction survives the log exactly when none of its puts
stores the empty value. -/
theorem roundTrips_iff_valued {crc : Crc} (hcrc : crc.Appends) {r : CommitRecord}
    (hcount : r.mutations.length ≤ 10000) (hfits : ∀ m ∈ r.mutations, m.Fits) :
    r.RoundTrips crc ↔ ∀ m ∈ r.mutations, m.Valued := by
  constructor
  · rintro ⟨p, r', -, hde, -, -, hms, -⟩ m hm
    obtain ⟨⟨-, hall⟩, -⟩ := deserializePayload_eq_ok hde
    exact (hall m (hms ▸ hm)).2
  · intro hvalued
    have hdec : r.Decodable :=
      ⟨hcount, fun m hm => ⟨Nat.lt_of_le_of_lt (hfits m hm).1 (by decide), hvalued m hm⟩⟩
    have hval : ∀ m ∈ r.mutations, (m.value.getD []).length < 2 ^ 32 :=
      fun m hm => Nat.lt_of_le_of_lt (hfits m hm).2 (by decide)
    refine ⟨r.payload, { r with checksum := Northstar.checksum crc r.payload },
      serializePayload_of_fits hfits, deserializePayload_payload crc hdec hval, rfl, rfl, rfl, ?_⟩
    have hsum : calculatePayloadChecksum crc
        { r with checksum := Northstar.checksum crc r.payload } =
          some (Northstar.checksum crc r.payload) := calculatePayloadChecksum_of_fits hcrc hfits
    unfold validateChecksum
    rw [hsum]
    exact congrArg some (beq_self_eq_true _)

/-- A put and a delete come back, with the real CRC32C. -/
theorem put_delete_roundTrips : RoundTrips crc32cAppend (.new 7 2 [.put [1] [2, 3], .delete [4]]) :=
  (roundTrips_iff_valued crc32cAppend_appends (by decide) (by decide)).mpr (by decide)

/-- A put of the empty value is within the limits and does not come back. -/
theorem empty_put_not_roundTrips : (∀ m ∈ (CommitRecord.new 7 2 [.put [1] []]).mutations, m.Fits) ∧
      ¬ RoundTrips crc32cAppend (.new 7 2 [.put [1] []]) := by
  refine ⟨by decide, ?_⟩
  rintro ⟨p, r', -, hde, -, -, hms, -⟩
  obtain ⟨⟨-, hall⟩, -⟩ := deserializePayload_eq_ok hde
  have hvalued := (hall (.put [1] []) (hms ▸ List.mem_cons_self)).2
  exact hvalued rfl

end CommitRecord

end Northstar.Wal
