import Northstar.Zig.Txn

/-!
# Payload — what a commit payload decodes to

The writer checks sizes only.  The reader takes at most 1000 operations and no put of the empty value,
so these are the records that come back.
-/

namespace Northstar.Zig

open Bytes

namespace Mutation

def value : Mutation → Bytes
  | .put _ value => value
  | .delete _ => []

def opType : Mutation → UInt8
  | .put _ _ => 0
  | .delete _ => 1

/-- The sizes the writer accepts. -/
def Fits (m : Mutation) : Prop :=
  m.getKey.length ≤ SizeLimits.maxKeySize ∧ m.value.length ≤ SizeLimits.maxValueSize

def Valued : Mutation → Prop
  | .put _ value => value ≠ []
  | .delete _ => True

instance (m : Mutation) : Decidable m.Fits := inferInstanceAs (Decidable (_ ∧ _))

instance : DecidablePred Valued
  | .put _ value => inferInstanceAs (Decidable (value ≠ []))
  | .delete _ => .isTrue trivial

def bytes (m : Mutation) : Bytes :=
  [m.opType, 0] ++ (u16 (UInt16.ofNat m.getKey.length) ++ (u32 (UInt32.ofNat m.value.length) ++
    (m.getKey ++ m.value)))

theorem length_bytes (m : Mutation) : m.bytes.length = 8 + m.getKey.length + m.value.length := by
  unfold bytes
  simp only [List.length_append, List.length_cons, List.length_nil, length_u16, length_u32]
  omega

theorem intCastU16_of_le {n : Nat} (h : n ≤ SizeLimits.maxKeySize) :
    intCastU16 n = .ok (UInt16.ofNat n) ∧ (UInt16.ofNat n).toNat = n := by
  have hlt : n < 2 ^ 16 := h.trans_lt (by decide)
  constructor
  · unfold intCastU16
    rw [if_pos hlt]
  · rw [UInt16.toNat_ofNat', Nat.mod_eq_of_lt hlt]

theorem intCastU32_of_le {n : Nat} (h : n ≤ SizeLimits.maxValueSize) :
    intCastU32 n = .ok (UInt32.ofNat n) ∧ (UInt32.ofNat n).toNat = n := by
  have hlt : n < 2 ^ 32 := h.trans_lt (by decide)
  constructor
  · unfold intCastU32
    rw [if_pos hlt]
  · rw [UInt32.toNat_ofNat', Nat.mod_eq_of_lt hlt]

variable {m : Mutation}

theorem operation_of_fits (h : m.Fits) :
    m.operation = .ok ⟨m.opType, 0, UInt16.ofNat m.getKey.length, UInt32.ofNat m.value.length,
      m.getKey, m.value⟩ := by
  have hkey := (intCastU16_of_le h.1).1
  have hval := (intCastU32_of_le h.2).1
  cases m with
  | put key value =>
    simp only [getKey, Mutation.value] at hkey hval
    simp only [operation, hkey, hval, Except.ok_bind]
    rfl
  | delete key =>
    simp only [getKey] at hkey
    simp only [operation, hkey, Except.ok_bind]
    rfl

theorem serialize_of_fits (h : m.Fits) : m.serialize = .ok m.bytes := by
  have hkey := (intCastU16_of_le h.1).2
  have hval := (intCastU32_of_le h.2).2
  unfold serialize
  rw [operation_of_fits h, Except.ok_bind]
  have hvalid : (EncodedOperation.mk m.opType 0 (UInt16.ofNat m.getKey.length)
      (UInt32.ofNat m.value.length) m.getKey m.value).validate = .ok () := by
    unfold EncodedOperation.validate
    rw [if_neg (by simp), if_neg (by rw [hkey]; exact Nat.not_lt.mpr h.1),
      if_neg (by rw [hval]; exact Nat.not_lt.mpr h.2), if_neg (by rw [hkey]; simp),
      if_neg (by rw [hval]; simp)]
    cases m with
    | put key value => rfl
    | delete key => rfl
  rw [hvalid, Except.ok_bind]
  have hvalue : (if m.opType = 0 then m.value else []) = m.value := by
    cases m with
    | put key value => rfl
    | delete key => rfl
  unfold EncodedOperation.serialize bytes
  simp only [hvalue, List.append_assoc]
  rfl

theorem fits_of_serialize {b : Bytes} (h : m.serialize = .ok b) : m.Fits := by
  unfold serialize at h
  rcases Except.bind_eq_ok_iff.mp h with ⟨op, hop, h⟩
  rcases Except.bind_eq_ok_iff.mp h with ⟨_, hvalid, -⟩
  unfold EncodedOperation.validate at hvalid
  simp only [Except.guard_eq_ok_iff] at hvalid
  rcases hvalid with ⟨-, hkey, hval, hkeyLen, hvalLen, -⟩
  cases m with
  | put key value =>
    unfold operation at hop
    rcases Except.bind_eq_ok_iff.mp hop with ⟨keyLen, -, hop⟩
    rcases Except.bind_eq_ok_iff.mp hop with ⟨valLen, -, hop⟩
    cases hop
    simp only [ne_eq, Decidable.not_not, true_and] at hkey hval hkeyLen hvalLen
    exact ⟨by show key.length ≤ _; omega, by show value.length ≤ _; omega⟩
  | delete key =>
    unfold operation at hop
    rcases Except.bind_eq_ok_iff.mp hop with ⟨keyLen, -, hop⟩
    cases hop
    simp only [ne_eq, Decidable.not_not] at hkey hkeyLen
    exact ⟨by show key.length ≤ _; omega, Nat.zero_le _⟩

theorem hash_of_fits (h : m.Fits) (crc : Crc32) : m.hash crc = .ok (crc.update m.bytes) := by
  have hkey := (intCastU16_of_le h.1).1
  have hval := (intCastU32_of_le h.2).1
  cases m with
  | put key value =>
    simp only [getKey, Mutation.value] at hkey hval
    simp only [hash, hkey, hval, Except.ok_bind]
    show Except.ok _ = Except.ok (crc.update ([0] ++ ([0] ++ (u16 _ ++ (u32 _ ++ (key ++ value))))))
    simp only [Crc32.update_append]
    rfl
  | delete key =>
    simp only [getKey] at hkey
    simp only [hash, hkey, Except.ok_bind]
    show Except.ok _ = Except.ok (crc.update ([1] ++ ([0] ++ (u16 _ ++ (u32 0 ++ (key ++ []))))))
    simp only [Crc32.update_append, List.append_nil]
    rfl

end Mutation

theorem window_bytes (pre post : Bytes) (m : Mutation) :
    (pre ++ (m.bytes ++ post)).getD pre.length 0 = m.opType ∧
      (pre ++ (m.bytes ++ post)).getD (pre.length + 1) 0 = 0 ∧
      window (pre ++ (m.bytes ++ post)) (pre.length + 2) 2 = u16 (UInt16.ofNat m.getKey.length) ∧
      window (pre ++ (m.bytes ++ post)) (pre.length + 4) 4 = u32 (UInt32.ofNat m.value.length) ∧
      window (pre ++ (m.bytes ++ post)) (pre.length + 8) m.getKey.length = m.getKey ∧
      window (pre ++ (m.bytes ++ post)) (pre.length + 8 + m.getKey.length) m.value.length =
        m.value := by
  have hbytes : m.bytes ++ post = [m.opType, 0] ++ (u16 (UInt16.ofNat m.getKey.length) ++
      (u32 (UInt32.ofNat m.value.length) ++ (m.getKey ++ (m.value ++ post)))) := by
    unfold Mutation.bytes
    simp only [List.append_assoc]
  rw [hbytes]
  refine ⟨?_, ?_, ?_, ?_, ?_, ?_⟩
  · rw [List.getD_eq_getElem?_getD, List.getElem?_append_right (le_refl _), Nat.sub_self]
    rfl
  · rw [List.getD_eq_getElem?_getD, List.getElem?_append_right (by omega), Nat.add_sub_cancel_left]
    rfl
  · rw [window_append_right (by omega), Nat.add_sub_cancel_left]
    exact window_append_middle rfl (length_u16 _)
  · rw [window_append_right (by omega), Nat.add_sub_cancel_left, window_append_right (by simp)]
    exact window_append_middle (length_u16 _) (length_u32 _)
  · rw [window_append_right (by omega), Nat.add_sub_cancel_left, window_append_right (by simp),
      window_append_right (by simp)]
    exact window_append_middle (length_u32 _) rfl
  · rw [window_append_right (by omega), Nat.add_assoc, Nat.add_sub_cancel_left,
      window_append_right (by simp; omega), window_append_right (by simp; omega),
      window_append_right (by simp; omega)]
    apply window_append_middle _ rfl
    simp only [List.length_cons, List.length_nil, length_u16, length_u32]
    omega

namespace CommitRecord

variable {ms : List Mutation}

theorem readOperations_bytes (hfits : ∀ m ∈ ms, m.Fits) (pre post : Bytes) :
    readOperations (pre ++ ((ms.map Mutation.bytes).flatten ++ post)) ms.length pre.length =
      if ∀ m ∈ ms, m.Valued then .ok ms else .error .putHasNoValue := by
  induction ms generalizing pre with
  | nil =>
    rw [if_pos fun m hm => absurd hm List.not_mem_nil]
    rfl
  | cons m ms ih =>
    have hm := hfits m (List.mem_cons_self ..)
    have hrest := ih (fun m' hm' => hfits m' (List.mem_cons_of_mem _ hm')) (pre ++ m.bytes)
    have hdata : pre ++ (((m :: ms).map Mutation.bytes).flatten ++ post) =
        pre ++ (m.bytes ++ ((ms.map Mutation.bytes).flatten ++ post)) := by
      rw [List.map_cons, List.flatten_cons, List.append_assoc]
    rcases window_bytes pre ((ms.map Mutation.bytes).flatten ++ post) m
      with ⟨htype, hflags, hkeyLen, hvalLen, hkey, hval⟩
    have hlength := m.length_bytes
    have hkeySize := (Mutation.intCastU16_of_le hm.1).2
    have hvalSize := (Mutation.intCastU32_of_le hm.2).2
    rw [List.append_assoc, List.length_append, hlength] at hrest
    rw [hdata, List.length_cons]
    unfold readOperations
    dsimp only
    rw [htype, hflags, hkeyLen, hvalLen, readU16_u16, readU32_u32, hkeySize, hvalSize, hkey, hval]
    rw [if_neg (by simp only [List.length_append, hlength]; omega)]
    rw [if_neg (by cases m <;> simp [Mutation.opType]), if_neg (by simp),
      if_neg (Nat.not_lt.mpr hm.1), if_neg (Nat.not_lt.mpr hm.2),
      if_neg (by simp only [List.length_append, hlength]; omega)]
    cases m with
    | put key value =>
      have hput : (Mutation.put key value).opType = 0 := rfl
      rw [if_pos hput]
      by_cases hvalue : value = []
      · rw [if_pos (by rw [hvalue]; rfl), if_neg]
        intro hall
        exact hall _ (List.mem_cons_self ..) hvalue
      · rw [if_neg (by simpa [Mutation.value] using hvalue)]
        have hpos : pre.length + 8 + (Mutation.put key value).getKey.length +
            (Mutation.put key value).value.length = pre.length + (8 +
              (Mutation.put key value).getKey.length + (Mutation.put key value).value.length) := by
          omega
        rw [hpos, hrest]
        by_cases hall : ∀ m ∈ ms, m.Valued
        · rw [if_pos hall, if_pos]
          · rfl
          · intro m' hm'
            rcases List.mem_cons.mp hm' with rfl | hm'
            · exact hvalue
            · exact hall m' hm'
        · rw [if_neg hall, if_neg]
          · rfl
          · exact fun hno => hall fun m' hm' => hno m' (List.mem_cons_of_mem _ hm')
    | delete key =>
      rw [if_neg (by simp [Mutation.opType]), if_neg (by simp [Mutation.value])]
      have hpos : pre.length + 8 + (Mutation.delete key).getKey.length =
          pre.length + (8 + (Mutation.delete key).getKey.length +
            (Mutation.delete key).value.length) := by
        show _ = _ + (_ + _ + 0)
        omega
      rw [hpos, hrest]
      by_cases hall : ∀ m ∈ ms, m.Valued
      · rw [if_pos hall, if_pos]
        · rfl
        · intro m' hm'
          rcases List.mem_cons.mp hm' with rfl | hm'
          · trivial
          · exact hall m' hm'
      · rw [if_neg hall, if_neg]
        · rfl
        · exact fun hno => hall fun m' hm' => hno m' (List.mem_cons_of_mem _ hm')

def payloadHeader (r : CommitRecord) : CommitPayloadHeader where
  txnId := r.txnId
  rootPageId := r.rootPageId
  opCount := UInt32.ofNat r.mutations.length
  reserved := 0

def payload (r : CommitRecord) : Bytes :=
  r.payloadHeader.serialize ++ (r.mutations.map Mutation.bytes).flatten

/-- The records whose payload the reader takes. -/
def Readable (r : CommitRecord) : Prop :=
  r.mutations.length ≤ SizeLimits.maxOperationsPerCommit ∧ ∀ m ∈ r.mutations, m.Valued

instance (r : CommitRecord) : Decidable r.Readable := inferInstanceAs (Decidable (_ ∧ _))

theorem length_payloadHeader (r : CommitRecord) :
    r.payloadHeader.serialize.length = CommitPayloadHeader.size := by
  unfold CommitPayloadHeader.serialize
  simp only [List.length_append, length_u32, length_u64]
  rfl

theorem mapM_serialize (h : ∀ m ∈ ms, m.Fits) :
    ms.mapM Mutation.serialize = .ok (ms.map Mutation.bytes) :=
  Except.mapM_eq_ok_map fun m hm => Mutation.serialize_of_fits (h m hm)

theorem fits_of_mapM {ops : List Bytes}
    (h : ms.mapM Mutation.serialize = .ok ops) : ∀ m ∈ ms, m.Fits := by
  intro m hm
  rcases Except.forall_ok_of_mapM h m hm with ⟨b, hb⟩
  exact Mutation.fits_of_serialize hb

theorem serialize_eq_ok_iff (r : CommitRecord) (b : Bytes) : r.serialize = .ok b ↔
      r.mutations.length < 2 ^ 32 ∧ (∀ m ∈ r.mutations, m.Fits) ∧ b = r.payload := by
  unfold serialize intCastU32
  constructor
  · intro h
    rcases Except.bind_eq_ok_iff.mp h with ⟨opCount, hcount, h⟩
    rcases Except.bind_eq_ok_iff.mp h with ⟨ops, hops, h⟩
    by_cases hlt : r.mutations.length < 2 ^ 32
    · rw [if_pos hlt] at hcount
      cases hcount
      have hfits := fits_of_mapM hops
      rw [mapM_serialize hfits] at hops
      cases hops
      exact ⟨hlt, hfits, (Except.ok.inj h).symm⟩
    · rw [if_neg hlt] at hcount
      cases hcount
  · rintro ⟨hlt, hfits, rfl⟩
    rw [if_pos hlt, Except.ok_bind, mapM_serialize hfits]
    rfl

theorem calculatePayloadChecksum_eq {r : CommitRecord} (hlt : r.mutations.length < 2 ^ 32)
    (hfits : ∀ m ∈ r.mutations, m.Fits) :
    r.calculatePayloadChecksum = .ok (Crc32.hash r.payload) := by
  have hfold : ∀ (ms : List Mutation) (crc : Crc32), (∀ m ∈ ms, m.Fits) →
      ms.foldlM Mutation.hash crc = .ok (crc.update (ms.map Mutation.bytes).flatten) := by
    intro ms
    induction ms with
    | nil => exact fun crc _ => rfl
    | cons m ms ih =>
      intro crc hall
      rw [List.foldlM_cons, Mutation.hash_of_fits (hall m (List.mem_cons_self ..)), Except.ok_bind,
        ih _ fun m' hm' => hall m' (List.mem_cons_of_mem _ hm'), List.map_cons, List.flatten_cons,
        Crc32.update_append]
  unfold calculatePayloadChecksum intCastU32
  rw [if_pos hlt, Except.ok_bind]
  show (r.mutations.foldlM Mutation.hash (Crc32.init.update r.payloadHeader.serialize) >>= _) = _
  rw [hfold _ _ hfits, ← Crc32.update_append]
  rfl

theorem deserialize_header (r : CommitRecord) (rest : Bytes) :
    CommitPayloadHeader.deserialize (r.payloadHeader.serialize ++ rest) =
      (r.payloadHeader.validate >>= fun _ => .ok r.payloadHeader) := by
  have hlength := r.length_payloadHeader
  have hserialize : r.payloadHeader.serialize ++ rest = u32 0x434D4954 ++ (u64 r.txnId ++
      (u64 r.rootPageId ++ (u32 0 ++ (u32 (UInt32.ofNat r.mutations.length) ++
        (u32 0 ++ rest))))) := by
    unfold CommitPayloadHeader.serialize
    simp only [List.append_assoc]
    rfl
  have hsize : (r.payloadHeader.serialize ++ rest).length = 32 + rest.length := by
    rw [List.length_append, hlength]
    rfl
  unfold CommitPayloadHeader.deserialize
  have hmagic : window (r.payloadHeader.serialize ++ rest) 0 4 = u32 0x434D4954 := by
    rw [hserialize]
    exact window_head (length_u32 _)
  have htxn : window (r.payloadHeader.serialize ++ rest) 4 8 = u64 r.txnId := by
    rw [hserialize]
    exact window_append_middle (length_u32 _) (length_u64 _)
  have hroot : window (r.payloadHeader.serialize ++ rest) 12 8 = u64 r.rootPageId := by
    rw [hserialize, window_append_right (by simp)]
    exact window_append_middle (length_u64 _) (length_u64 _)
  have hcount : window (r.payloadHeader.serialize ++ rest) 24 4 =
      u32 (UInt32.ofNat r.mutations.length) := by
    rw [hserialize, window_append_right (by simp), window_append_right (by simp),
      window_append_right (by simp)]
    exact window_append_middle (length_u32 _) (length_u32 _)
  have hreserved : window (r.payloadHeader.serialize ++ rest) 28 4 = u32 0 := by
    rw [hserialize, window_append_right (by simp), window_append_right (by simp),
      window_append_right (by simp), window_append_right (by simp)]
    exact window_append_middle (length_u32 _) (length_u32 _)
  rw [hmagic, htxn, hroot, hcount, hreserved, readU32_u32, readU64_u64, readU64_u64, readU32_u32,
    readU32_u32, if_neg (by omega), if_neg (by simp),
    if_neg (by unfold CommitPayloadHeader.size; omega)]
  rfl

variable {r : CommitRecord} {data : Bytes}

theorem deserialize_payload (hlt : r.mutations.length < 2 ^ 32)
    (hfits : ∀ m ∈ r.mutations, m.Fits) (hsum : r.checksum = Crc32.hash r.payload) :
    (r.Readable → deserialize r.payload = .ok r) ∧
      (¬ r.Readable → ∃ e, deserialize r.payload = .error e) := by
  have hlength := r.length_payloadHeader
  have hcount : r.payloadHeader.opCount.toNat = r.mutations.length := by
    show (UInt32.ofNat r.mutations.length).toNat = _
    rw [UInt32.toNat_ofNat', Nat.mod_eq_of_lt hlt]
  have hops : readOperations r.payload r.mutations.length CommitPayloadHeader.size =
      if ∀ m ∈ r.mutations, m.Valued then .ok r.mutations else .error .putHasNoValue := by
    have hread := readOperations_bytes hfits r.payloadHeader.serialize []
    rw [List.append_nil, hlength] at hread
    exact hread
  have hstart : ¬ r.payload.length < CommitPayloadHeader.size := by
    unfold payload
    rw [List.length_append, hlength]
    omega
  have hheader : CommitPayloadHeader.deserialize r.payload = _ := deserialize_header r _
  unfold deserialize
  rw [if_neg hstart, hheader]
  unfold CommitPayloadHeader.validate
  rw [if_neg (by exact fun hno => hno rfl), hcount]
  by_cases hmany : r.mutations.length > SizeLimits.maxOperationsPerCommit
  · rw [if_pos hmany]
    exact ⟨fun hreadable => absurd hreadable.1 (Nat.not_le.mpr hmany), fun _ => ⟨_, rfl⟩⟩
  · rw [if_neg hmany]
    simp only [Except.ok_bind, hcount]
    rw [if_neg hmany, hops]
    by_cases hvalued : ∀ m ∈ r.mutations, m.Valued
    · have hchecksum := @calculatePayloadChecksum_eq
        ⟨r.payloadHeader.txnId, r.payloadHeader.rootPageId, r.mutations, 0⟩ hlt hfits
      rw [if_pos hvalued, Except.ok_bind, hchecksum]
      refine ⟨fun _ => ?_, fun hno => absurd ⟨Nat.le_of_not_lt hmany, hvalued⟩ hno⟩
      show Except.ok _ = Except.ok r
      apply congrArg
      cases r
      dsimp only at hsum
      rw [hsum]
      rfl
    · rw [if_neg hvalued]
      exact ⟨fun hreadable => absurd hreadable.2 hvalued, fun _ => ⟨_, rfl⟩⟩

theorem readOperations_length {count pos : Nat}
    (hpos : pos ≤ data.length) (h : readOperations data count pos = .ok ms) :
    ms.length = count ∧ pos + (ms.map Mutation.bytes).flatten.length ≤ data.length := by
  induction count generalizing pos ms with
  | zero =>
    cases h
    exact ⟨rfl, hpos⟩
  | succ count ih =>
    unfold readOperations at h
    simp only [Except.guard_eq_ok_iff] at h
    rcases h with ⟨-, -, -, -, -, hroom, h⟩
    rw [Nat.not_lt] at hroom
    have hkey := @length_window_of_le data (pos + 8) (readU16 (window data (pos + 2) 2)).toNat (by omega)
    split at h
    · rw [Except.guard_eq_ok_iff] at h
      rcases Except.bind_eq_ok_iff.mp h.2 with ⟨rest, hrest, h⟩
      cases h
      have hnext := ih (by omega) hrest
      have hval := @length_window_of_le data (pos + 8 + (readU16 (window data (pos + 2) 2)).toNat)
        (readU32 (window data (pos + 4) 4)).toNat (by omega)
      constructor
      · rw [List.length_cons, hnext.1]
      · rw [List.map_cons, List.flatten_cons, List.length_append, Mutation.length_bytes]
        simp only [Mutation.getKey, Mutation.value, hkey, hval]
        omega
    · rw [Except.guard_eq_ok_iff] at h
      rcases Except.bind_eq_ok_iff.mp h.2 with ⟨rest, hrest, h⟩
      cases h
      have hnext := ih (by omega) hrest
      constructor
      · rw [List.length_cons, hnext.1]
      · rw [List.map_cons, List.flatten_cons, List.length_append, Mutation.length_bytes]
        simp only [Mutation.getKey, Mutation.value, hkey, List.length_nil]
        omega

structure ReadAs (data : Bytes) (r : CommitRecord) : Prop where
  size : CommitPayloadHeader.size ≤ data.length
  magic : readU32 (window data 0 4) = 0x434D4954
  txnId : readU64 (window data 4 8) = r.txnId
  rootPageId : readU64 (window data 12 8) = r.rootPageId
  count : (readU32 (window data 24 4)).toNat = r.mutations.length
  bound : r.mutations.length ≤ SizeLimits.maxOperationsPerCommit
  reserved : readU32 (window data 28 4) = 0
  operations : readOperations data r.mutations.length CommitPayloadHeader.size = .ok r.mutations

theorem readAs_of_deserialize (h : deserialize data = .ok r) : ReadAs data r := by
  unfold deserialize at h
  rw [Except.guard_eq_ok_iff] at h
  rcases h with ⟨hsize, h⟩
  rcases Except.bind_eq_ok_iff.mp h with ⟨header, hheader, h⟩
  rw [Except.guard_eq_ok_iff] at h
  rcases h with ⟨hbound, h⟩
  rcases Except.bind_eq_ok_iff.mp h with ⟨mutations, hops, h⟩
  rcases Except.bind_eq_ok_iff.mp h with ⟨checksum, -, h⟩
  unfold CommitPayloadHeader.deserialize at hheader
  simp only [Except.guard_eq_ok_iff] at hheader
  rcases hheader with ⟨-, hmagic, -, hheader⟩
  rcases Except.bind_eq_ok_iff.mp hheader with ⟨_, hvalid, hheader⟩
  cases hheader
  cases h
  unfold CommitPayloadHeader.validate at hvalid
  simp only [Except.guard_eq_ok_iff, ne_eq, Decidable.not_not] at hvalid hmagic
  have hcount := (readOperations_length (Nat.le_of_not_lt hsize) hops).1
  refine ⟨Nat.le_of_not_lt hsize, hmagic, rfl, rfl, hcount.symm, ?_, hvalid.1, ?_⟩
  · show mutations.length ≤ _
    rw [hcount]
    exact Nat.le_of_not_lt hbound
  · show readOperations data mutations.length _ = _
    rw [hcount]
    exact hops

theorem ReadAs.length_payload_le (h : ReadAs data r) : r.payload.length ≤ data.length := by
  have hops := (readOperations_length h.size h.operations).2
  unfold payload
  rw [List.length_append, length_payloadHeader]
  exact hops

end CommitRecord

end Northstar.Zig
