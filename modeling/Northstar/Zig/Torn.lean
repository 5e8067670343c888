import Northstar.Zig.Tail
import Mathlib.Tactic.IntervalCases

/-!
# Torn — appending behind a torn record

`open` leaves the bytes of a torn record in the file, and appends behind them.  Replay then finds a
header at the tear that is made of the torn bytes and the front of the next record.  Whatever they are,
the record is not found there.
-/

namespace Northstar.Zig

open Bytes
open CommitRecord (frame frames)

variable {file : Bytes} {lsn : Nat} {r : CommitRecord}

variable {pos : Nat} {res : ReplayResult}

namespace WriteAheadLog

theorem replayLoop_turn {turns : Nat} {result : ReplayResult}
    (hlsn : 1 ≤ lsn) (h : replayLoop file 1 (turns + 1) pos lsn result = .ok res) :
    res = result ∨ ∃ header lsn' result', validHeaderAt file pos = some header ∧
      pos + header.recordSize ≤ file.length ∧ 1 ≤ lsn' ∧
      replayLoop file 1 turns (pos + header.recordSize) lsn' result' = .ok res ∧
      (result'.commitRecords = result.commitRecords ∨
        ∃ record, header.recordType = 0 ∧
          CommitRecord.deserialize
            (window file (pos + RecordHeader.size) header.payloadLen.toNat) = .ok record ∧
          result'.commitRecords = result.commitRecords ++ [record]) := by
  unfold replayLoop at h
  by_cases hend : pos < file.length
  case neg =>
    rw [if_neg hend] at h
    exact Or.inl (Except.ok.inj h).symm
  rw [if_pos hend] at h
  by_cases hshort : pos + RecordHeader.size > file.length
  case pos =>
    rw [if_pos hshort] at h
    exact Or.inl (Except.ok.inj h).symm
  rw [if_neg hshort] at h
  cases hheader : validHeaderAt file pos with
  | none =>
    rw [hheader] at h
    exact Or.inl (Except.ok.inj h).symm
  | some header =>
    rw [hheader] at h
    dsimp only at h
    by_cases hcut : pos + header.recordSize > file.length
    case pos =>
      rw [if_pos hcut] at h
      exact Or.inl (Except.ok.inj h).symm
    rw [if_neg hcut, if_neg (by omega)] at h
    by_cases hdata : (window file (pos + RecordHeader.size) header.payloadLen.toNat).length <
        header.payloadLen.toNat
    case pos =>
      rw [if_pos hdata] at h
      exact Or.inl (Except.ok.inj h).symm
    rw [if_neg hdata] at h
    right
    by_cases hcrc : Crc32.hash (window file (pos + RecordHeader.size) header.payloadLen.toNat) ≠
        header.payloadCrc32c
    · rw [if_pos hcrc] at h
      exact ⟨header, lsn, result, rfl, Nat.le_of_not_lt hcut, hlsn, h, Or.inl rfl⟩
    · rw [if_neg hcrc] at h
      rcases Except.bind_eq_ok_iff.mp h with ⟨result', htake, h⟩
      refine ⟨header, lsn + 1, _, rfl, Nat.le_of_not_lt hcut, by omega, h, ?_⟩
      unfold ReplayResult.take at htake
      by_cases htype : header.recordType = 0
      · rw [if_pos htype] at htake
        rcases Except.bind_eq_ok_iff.mp htake with ⟨record, hrecord, htake⟩
        cases htake
        exact Or.inr ⟨record, htype, hrecord, rfl⟩
      · left
        rw [if_neg htype] at htake
        split at htake
        · split at htake
          · cases htake
            rfl
          · cases htake
            rfl
        · split at htake
          · cases htake
            rfl
          · cases htake
            rfl

theorem length_frames (k : Nat) (rs : List CommitRecord) :
    (frames k rs).length = (frames 0 rs).length := by
  induction rs generalizing k with
  | nil => rfl
  | cons r rs ih =>
    rw [frames, frames, List.length_append, List.length_append, ih (k + 1), ih (0 + 1),
      CommitRecord.length_frame, CommitRecord.length_frame]

theorem replayLoop_room {turns : Nat} {result : ReplayResult}
    (hlsn : 1 ≤ lsn) (h : replayLoop file 1 turns pos lsn result = .ok res) :
    ∃ added, res.commitRecords = result.commitRecords ++ added ∧
      (added = [] ∨ pos + (frames 0 added).length ≤ file.length) := by
  induction turns generalizing pos lsn result with
  | zero =>
    cases h
    exact ⟨[], (List.append_nil _).symm, Or.inl rfl⟩
  | succ turns ih =>
    rcases replayLoop_turn hlsn h with
      rfl | ⟨header, lsn', result', -, hroom, hlsn', hrest, hsame | ⟨record, -, hrecord, hadd⟩⟩
    · exact ⟨[], (List.append_nil _).symm, Or.inl rfl⟩
    · rcases ih hlsn' hrest with ⟨added, hadded, hnone | hfits⟩
      · exact ⟨added, by rw [hadded, hsame], Or.inl hnone⟩
      · exact ⟨added, by rw [hadded, hsame], Or.inr (by omega)⟩
    · have hpayload := (CommitRecord.readAs_of_deserialize hrecord).length_payload_le
      have hdata := length_window file (pos + RecordHeader.size) header.payloadLen.toNat
      have hframe := CommitRecord.length_frame 0 record
      unfold RecordHeader.recordSize at hroom
      rcases ih hlsn' hrest with ⟨added, hadded, hfits⟩
      refine ⟨record :: added, ?_, Or.inr ?_⟩
      · rw [hadded, hadd, List.append_assoc]
        rfl
      · rw [frames, List.length_append, length_frames]
        unfold RecordHeader.recordSize at hfits
        rcases hfits with hnone | hfits
        · rw [hnone]
          show _ + (_ + 0) ≤ _
          omega
        · omega

theorem replayLoop_through {rs : List CommitRecord} (haccepted : ∀ r ∈ rs, r.Accepted)
    {pre tail : Bytes} {k turns lsn : Nat} {result res : ReplayResult} (hlsn : 1 ≤ lsn)
    (h : replayLoop (pre ++ (frames k rs ++ tail)) 1 turns pre.length lsn result = .ok res)
    (hmore : result.commitRecords.length + rs.length < res.commitRecords.length) :
    ∃ turns' lsn' result', turns = rs.length + (turns' + 1) ∧ 1 ≤ lsn' ∧
      result'.commitRecords.length = result.commitRecords.length + rs.length ∧
      replayLoop (pre ++ (frames k rs ++ tail)) 1 (turns' + 1) (pre.length + (frames k rs).length) lsn'
        result' = .ok res := by
  induction rs generalizing pre k turns lsn result with
  | nil =>
    cases turns with
    | zero =>
      cases h
      rw [List.length_nil] at hmore
      omega
    | succ turns => exact ⟨turns, lsn, result, (Nat.zero_add _).symm, hlsn, rfl, h⟩
  | cons r rs ih =>
    rcases CommitRecord.append_frames_cons pre tail k r rs with ⟨hfile, hfile'⟩
    rw [List.length_cons] at hmore
    cases turns with
    | zero =>
      cases h
      omega
    | succ turns =>
      rw [hfile, replayLoop_frame (haccepted r (List.mem_cons_self ..)), ← hfile,
        if_neg (by omega)] at h
      rcases Except.bind_eq_ok_iff.mp h with ⟨record, -, h⟩
      rw [hfile', ← List.length_append] at h
      rcases ih (fun r' hr' => haccepted r' (List.mem_cons_of_mem _ hr')) (by omega) h
        (by rw [List.length_append, List.length_singleton]; omega)
        with ⟨turns', lsn', result', hturns, hlsn', hcount, hrest⟩
      refine ⟨turns', lsn', result', ?_, hlsn', ?_, ?_⟩
      · rw [List.length_cons]
        omega
      · rw [hcount, List.length_append, List.length_singleton, List.length_cons]
        omega
      · rw [hfile', frames, List.length_append, ← Nat.add_assoc, ← List.length_append]
        exact hrest

end WriteAheadLog

namespace CommitRecord

theorem frame_append_eq (r : CommitRecord) (lsn : Nat) (post : Bytes) :
    r.frame lsn ++ post = u32 0x4C4F4752 ++ (u16 0 ++ (u16 0 ++ (u16 40 ++ (u16 2 ++
      (u64 r.txnId ++ (u64 (UInt64.ofNat lsn) ++ (u32 (UInt32.ofNat r.payload.length) ++
      (u32 (calculateExplicitHeaderChecksum (r.frameHeader lsn)) ++ (u32 (Crc32.hash r.payload) ++
      (u32 0x434D4954 ++ (u64 r.txnId ++ (u64 r.rootPageId ++ (u32 0 ++
      (u32 (UInt32.ofNat r.mutations.length) ++ (u32 0 ++
      ((r.mutations.map Mutation.bytes).flatten ++ (r.frameTrailer ++ post))))))))))))))))) := by
  have hpayload : r.payload = u32 0x434D4954 ++ (u64 r.txnId ++ (u64 r.rootPageId ++ (u32 0 ++
      (u32 (UInt32.ofNat r.mutations.length) ++
      (u32 0 ++ (r.mutations.map Mutation.bytes).flatten))))) := by
    unfold payload payloadHeader CommitPayloadHeader.serialize
    simp only [List.append_assoc]
  have hheader : (r.frameHeader lsn).bytes (calculateExplicitHeaderChecksum (r.frameHeader lsn)) =
      u32 0x4C4F4752 ++ (u16 0 ++ (u16 0 ++ (u16 40 ++ (u16 2 ++
      (u64 r.txnId ++ (u64 (UInt64.ofNat lsn) ++ (u32 (UInt32.ofNat r.payload.length) ++
      (u32 (calculateExplicitHeaderChecksum (r.frameHeader lsn)) ++
      u32 (Crc32.hash r.payload))))))))) := by
    generalize calculateExplicitHeaderChecksum (r.frameHeader lsn) = crc
    rw [RecordHeader.bytes_eq]
    unfold frameHeader
    rfl
  unfold frame
  rw [hheader]
  generalize calculateExplicitHeaderChecksum (r.frameHeader lsn) = crc
  generalize Crc32.hash r.payload = sum
  generalize UInt32.ofNat r.payload.length = size
  rw [hpayload]
  simp only [List.append_assoc]

theorem window_frame (r : CommitRecord) (lsn : Nat) (post : Bytes) :
    window (r.frame lsn ++ post) 12 8 = u64 r.txnId ∧
      window (r.frame lsn ++ post) 20 8 = u64 (UInt64.ofNat lsn) ∧
      window (r.frame lsn ++ post) 36 4 = u32 (Crc32.hash r.payload) ∧
      window (r.frame lsn ++ post) 40 4 = u32 0x434D4954 ∧
      window (r.frame lsn ++ post) 44 8 = u64 r.txnId ∧
      window (r.frame lsn ++ post) 52 8 = u64 r.rootPageId ∧
      window (r.frame lsn ++ post) 60 4 = u32 0 ∧
      window (r.frame lsn ++ post) 64 4 = u32 (UInt32.ofNat r.mutations.length) ∧
      window (r.frame lsn ++ post) 68 4 = u32 0 := by
  rw [frame_append_eq]
  simp (disch := simp) only [window_append_right, window_head, length_u16, length_u32, length_u64,
    Nat.reduceSub, and_self]

/-- The bytes of a frame, and what they would have to be for its record to be read at `d` again. -/
structure Reread (f : Nat → Nat) (d : Nat) : Prop where
  head : ∀ i < 12, f i ≠ 84
  lsn : f 21 ≤ 3 ∧ ∀ i, 2 ≤ i → i < 8 → f (20 + i) = 0
  magic : f 40 = 84 ∧ f 41 = 73 ∧ f 42 = 77 ∧ f 43 = 67
  txnId : ∀ i < 8, f (44 + i) = f (12 + i)
  padding : ∀ i < 4, f (60 + i) = 0
  count : f 65 ≤ 3 ∧ ∀ i, 2 ≤ i → i < 4 → f (64 + i) = 0
  reserved : ∀ i < 4, f (68 + i) = 0
  magicAgain : ∀ i < 4, f (d + i) = f (40 + i)
  txnIdAgain : ∀ i < 8, f (d + 4 + i) = f (12 + i)
  rootAgain : ∀ i < 8, f (d + 12 + i) = f (52 + i)
  countAgain : ∀ i < 4, f (d + 24 + i) = f (64 + i)
  reservedAgain : ∀ i < 4, f (d + 28 + i) = f (68 + i)

namespace Reread

variable {f : Nat → Nat} {d : Nat}

theorem offset_eq (h : Reread f d) (hpos : 1 ≤ d) (hle : d ≤ 32) : d = 30 := by
  rcases h.magic with ⟨h40, h41, h42, h43⟩
  have hfirst : f d = 84 := (h.magicAgain 0 (by decide)).trans h40
  by_contra hne
  rcases Nat.lt_or_ge d 12 with hlt | hge
  · exact h.head d hlt hfirst
  rcases Nat.lt_or_ge d 22 with hlt | hge
  · -- the transaction id, whose last bytes would be those of the sequence number
    have hlsn1 := h.lsn.1
    have hlsn2 := h.lsn.2 2 (by decide) (by decide)
    have hlsn4 := h.lsn.2 4 (by decide) (by decide)
    have hlsn6 := h.lsn.2 6 (by decide) (by decide)
    have hsecond : f (d + 1) = 73 := (h.magicAgain 1 (by decide)).trans h41
    have hthird : f (d + 2) = 77 := (h.magicAgain 2 (by decide)).trans h42
    have hfourth : f (d + 3) = 67 := (h.magicAgain 3 (by decide)).trans h43
    have h2 := h.txnIdAgain 2 (by decide)
    have h3 := h.txnIdAgain 3 (by decide)
    have h4 := h.txnIdAgain 4 (by decide)
    have h5 := h.txnIdAgain 5 (by decide)
    have h6 := h.txnIdAgain 6 (by decide)
    clear h
    interval_cases d <;> simp only [Nat.reduceAdd] at * <;> omega
  rcases Nat.lt_or_ge d 28 with hlt | hge
  · have hzero := h.lsn.2 (d - 20) (by omega) (by omega)
    rw [Nat.add_sub_cancel' (by omega)] at hzero
    omega
  · -- the count of operations would have bytes of the magic number
    have hcount1 := h.count.1
    have hcount2 := h.count.2 2 (by decide) (by decide)
    have hcount3 := h.count.2 3 (by decide) (by decide)
    have h1 := h.countAgain 1 (by decide)
    have h2 := h.countAgain 2 (by decide)
    have h3 := h.countAgain 3 (by decide)
    have hroot2 := h.rootAgain 2 (by decide)
    have hroot6 := h.rootAgain 6 (by decide)
    have hsame5 := h.txnId 5 (by decide)
    have hsame6 := h.txnId 6 (by decide)
    have htxn5 := h.txnIdAgain 5 (by decide)
    have htxn6 := h.txnIdAgain 6 (by decide)
    clear h
    have hcases : d = 28 ∨ d = 29 ∨ d = 31 ∨ d = 32 := by omega
    rcases hcases with rfl | rfl | rfl | rfl <;> simp only [Nat.reduceAdd] at * <;> omega

/-- At offset 30, the transaction id is made of the checksums and the magic number, and the count is
its front. -/
theorem bytes_of_thirty (h : Reread f 30) :
    f 36 = 0 ∧ f 37 = 0 ∧ f 38 = 0 ∧ f 39 = 0 ∧ f 44 = f 64 ∧ f 45 = f 65 ∧ f 46 = 0 ∧ f 47 = 0 ∧
      f 48 = 0 ∧ f 49 = 0 ∧ f 50 = 84 ∧ f 51 = 73 ∧ f 52 = 77 ∧ f 53 = 67 ∧ f 54 = f 64 ∧
      f 55 = f 65 ∧ f 56 = 0 ∧ f 57 = 0 ∧ f 58 = 0 ∧ f 59 = 0 := by
  have htxnId := h.txnId
  have hcount2 := h.count.2 2 (by decide) (by decide)
  have hcount3 := h.count.2 3 (by decide) (by decide)
  have hmagic := h.magic
  have hreserved := h.reserved
  have htxnId' := h.txnIdAgain
  have hroot' := h.rootAgain
  have hcount' := h.countAgain
  have hreserved' := h.reservedAgain
  clear h
  simp only [Nat.forall_lt_succ_right, Nat.not_lt_zero, false_implies, implies_true, true_and,
    Nat.reduceAdd] at *
  omega

end Reread

theorem reread_of_readAs {d n : Nat} {post : Bytes} (hlsn : lsn < 1024)
    (h : ReadAs (window (r.frame lsn ++ post) d n) r) :
    Reread (fun i => ((r.frame lsn ++ post).getD i 0).toNat) d := by
  rcases r.window_frame lsn post with
    ⟨htxnId, hprev, hsum, hmagic, htxnId', hroot, hpad, hcount, hreserved⟩
  have hhead : window (r.frame lsn ++ post) 0 12 =
      [0x52, 0x47, 0x4F, 0x4C, 0, 0, 0, 0, 0x28, 0, 2, 0] := by
    have hsplit : r.frame lsn ++ post = (u32 0x4C4F4752 ++ (u16 0 ++ (u16 0 ++ (u16 40 ++ u16 2)))) ++
        (r.frame lsn ++ post).drop 12 := by
      rw [frame_append_eq]
      simp only [List.append_assoc]
      rfl
    rw [hsplit]
    exact window_head rfl
  generalize hfile : r.frame lsn ++ post = file at *
  have hsize := h.size
  rw [length_window] at hsize
  unfold CommitPayloadHeader.size at hsize
  have hwindow : ∀ {a b}, a + b ≤ 32 → window (window file d n) a b = window file (d + a) b :=
    fun hab => window_window (by omega)
  have hlength : ∀ {a b}, a + b ≤ 32 → (window file (d + a) b).length = b :=
    fun hab => length_window_of_le (by omega)
  have hread : ∀ {a : Nat} {x : UInt32}, a + 4 ≤ 32 → readU32 (window (window file d n) a 4) = x →
      window file (d + a) 4 = u32 x := by
    intro a x ha hx
    rw [hwindow ha] at hx
    rw [← hx, u32_readU32 (hlength ha)]
  have hread' : ∀ {a : Nat} {x : UInt64}, a + 8 ≤ 32 → readU64 (window (window file d n) a 8) = x →
      window file (d + a) 8 = u64 x := by
    intro a x ha hx
    rw [hwindow ha] at hx
    rw [← hx, u64_readU64 (hlength ha)]
  have hbound : r.mutations.length ≤ 1000 := h.bound
  have hlen : readU32 (window (window file d n) 24 4) = UInt32.ofNat r.mutations.length := by
    rw [← h.count, UInt32.ofNat_toNat]
  have hmagic₂ := (hread (by decide) h.magic).trans hmagic.symm
  have htxnId₂ := (hread' (by decide) h.txnId).trans htxnId.symm
  have hroot₂ := (hread' (by decide) h.rootPageId).trans hroot.symm
  have hcount₂ := (hread (by decide) hlen).trans hcount.symm
  have hreserved₂ := (hread (by decide) h.reserved).trans hreserved.symm
  have hbyte : ∀ {a b len : Nat}, window file a len = window file b len → ∀ i < len,
      (file.getD (a + i) 0).toNat = (file.getD (b + i) 0).toNat :=
    fun hsame i hi => congrArg UInt8.toNat (getD_eq_of_window hsame hi)
  have hconst : ∀ {a len : Nat} {bytes : Bytes}, window file a len = bytes → ∀ i < len,
      (file.getD (a + i) 0).toNat = (bytes.getD i 0).toNat := by
    intro a len bytes hsame i hi
    rw [← hsame, getD_window hi]
  have hsmall : ∀ {len m : Nat}, m < 1024 → 4 ≤ len → ((le len m).getD 1 0).toNat ≤ 3 ∧
      ∀ i, 2 ≤ i → i < len → ((le len m).getD i 0).toNat = 0 := by
    intro len m hm hlen
    constructor
    · rw [getD_le (by omega)]
      omega
    · intro i hi hilt
      have hpow : 256 ^ 2 ≤ 256 ^ i := Nat.pow_le_pow_right (by decide) hi
      rw [getD_le hilt, Nat.div_eq_of_lt (by omega)]
  have hzero : ∀ i < 4, ((u32 0).getD i 0).toNat = 0 := by decide
  constructor
  · have hdiffer : ∀ i < 12, (([0x52, 0x47, 0x4F, 0x4C, 0, 0, 0, 0, 0x28, 0, 2, 0] : Bytes).getD i
        0).toNat ≠ 84 := by
      decide
    intro i hi
    have hsame := hconst hhead i hi
    rw [Nat.zero_add] at hsame
    exact hsame.trans_ne (hdiffer i hi)
  · rw [u64, UInt64.toNat_ofNat', Nat.mod_eq_of_lt (by omega)] at hprev
    have hword := hconst hprev
    have hbytes := hsmall hlsn (by decide : 4 ≤ 8)
    exact ⟨(hword 1 (by decide)).trans_le hbytes.1,
      fun i hi hlt => (hword i hlt).trans (hbytes.2 i hi hlt)⟩
  · exact ⟨hconst hmagic 0 (by decide), hconst hmagic 1 (by decide), hconst hmagic 2 (by decide),
      hconst hmagic 3 (by decide)⟩
  · exact hbyte (htxnId'.trans htxnId.symm)
  · exact fun i hi => (hconst hpad i hi).trans (hzero i hi)
  · rw [u32, UInt32.toNat_ofNat', Nat.mod_eq_of_lt (by omega)] at hcount
    have hword := hconst hcount
    have hbytes := hsmall (by omega : r.mutations.length < 1024) (le_refl 4)
    exact ⟨(hword 1 (by decide)).trans_le hbytes.1,
      fun i hi hlt => (hword i hlt).trans (hbytes.2 i hi hlt)⟩
  · exact fun i hi => (hconst hreserved i hi).trans (hzero i hi)
  · exact hbyte hmagic₂
  · exact hbyte htxnId₂
  · exact hbyte hroot₂
  · exact hbyte hcount₂
  · exact hbyte hreserved₂

theorem not_readAs_frame {d : Nat} (post : Bytes) (n : Nat) (hlsn : lsn < 1024)
    (hpos : 1 ≤ d) (hle : d ≤ 32) : ¬ ReadAs (window (r.frame lsn ++ post) d n) r := by
  intro h
  have hreread := reread_of_readAs hlsn h
  have hthirty := hreread.offset_eq hpos hle
  subst hthirty
  rcases r.window_frame lsn post with ⟨-, -, hsum, -, -, -, -, hcount, -⟩
  have hpayload : r.payload = window (r.frame lsn ++ post) 40 r.payload.length := by
    unfold frame
    rw [List.append_assoc, List.append_assoc]
    exact (window_append_middle (RecordHeader.length_bytes ..) rfl).symm
  have hbytes := hreread.bytes_of_thirty
  generalize r.frame lsn ++ post = file at *
  have hsize := h.size
  rw [length_window] at hsize
  unfold CommitPayloadHeader.size at hsize
  cases hms : r.mutations with
  | cons m ms =>
    -- the first operation is a put without a value
    have hops := h.operations
    rw [hms, List.length_cons] at hops
    unfold readOperations at hops
    simp only [Except.guard_eq_ok_iff] at hops
    rcases hops with ⟨hroom, -, -, -, -, -, hops⟩
    rw [length_window] at hroom
    unfold CommitPayloadHeader.size at hroom hops
    have hput : (window file 30 n).getD 32 0 = 0 := by
      rw [getD_window (by omega)]
      exact UInt8.toNat_inj.mp (hreread.padding 2 (by decide))
    have hval : window (window file 30 n) (32 + 4) 4 = [0, 0, 0, 0] := by
      rw [window_window (by omega)]
      have hcount2 := hreread.count.2 2 (by decide) (by decide)
      have hcount3 := hreread.count.2 3 (by decide) (by decide)
      have hreserved0 := hreread.reserved 0 (by decide)
      have hreserved1 := hreread.reserved 1 (by decide)
      apply window_eq_of_getD (by rfl) (by omega)
      intro i hi
      interval_cases i
      · exact hcount2
      · exact hcount3
      · exact hreserved0
      · exact hreserved1
    rw [if_pos hput, hval, Except.guard_eq_ok_iff] at hops
    exact hops.1 rfl
  | nil =>
    have hlength : r.payload.length = 32 := by
      unfold payload
      rw [List.length_append, length_payloadHeader, hms]
      rfl
    rw [hlength] at hpayload
    have hfits : 72 ≤ file.length := by
      have := congrArg List.length hpayload
      rw [hlength, length_window] at this
      omega
    have hempty : ∀ i < 4, (file.getD (64 + i) 0).toNat = 0 := by
      intro i hi
      rw [← getD_window hi, hcount, hms]
      revert i
      decide
    have hzero : Crc32.hash r.payload = 0 := by
      have hnone : window file 36 4 = u32 0 := by
        apply window_eq_of_getD (by rfl) (by omega)
        intro i hi
        interval_cases i
        · exact hbytes.1
        · exact hbytes.2.1
        · exact hbytes.2.2.1
        · exact hbytes.2.2.2.1
      rw [hsum] at hnone
      rw [← readU32_u32 (Crc32.hash r.payload), hnone]
      rfl
    have hfixed : r.payload = [0x54, 0x49, 0x4D, 0x43, 0, 0, 0, 0, 0, 0, 0x54, 0x49,
        0x4D, 0x43, 0, 0, 0, 0, 0, 0, 0, 0, 0, 0, 0, 0, 0, 0, 0, 0, 0, 0] := by
      have hmagic := hreread.magic
      have hpadding := hreread.padding
      have hreserved := hreread.reserved
      rw [hpayload]
      apply window_eq_of_getD (by rfl) hfits
      simp only [Nat.forall_lt_succ_right, Nat.not_lt_zero, false_implies, implies_true, true_and,
        Nat.reduceAdd] at hpadding hreserved hempty
      intro i hi
      interval_cases i <;>
        simp only [Nat.reduceAdd, List.getD_cons_zero, List.getD_cons_succ, UInt8.reduceToNat] <;>
        omega
    rw [hfixed] at hzero
    exact absurd hzero (by decide +kernel)

end CommitRecord

theorem validHeaderAt_eq_some {header : RecordHeader} (h : validHeaderAt file pos = some header) :
    pos + RecordHeader.size ≤ file.length ∧ readU32 (window file pos 4) = 0x4C4F4752 ∧
      header.recordType = readU16 (window file (pos + 6) 2) := by
  unfold validHeaderAt at h
  cases hat : headerAt file pos with
  | none =>
    rw [hat] at h
    cases h
  | some found =>
    rw [hat] at h
    dsimp only at h
    split at h
    · cases h
    cases h
    unfold headerAt readExplicitHeader at hat
    dsimp only at hat
    split at hat
    · cases hat
    · next hlong =>
      dsimp only at hat
      split at hat
      · cases hat
      · next hmagic =>
        cases hat
        rw [length_window] at hlong
        rw [Decidable.not_not] at hmagic
        unfold RecordHeader.size at hlong hmagic ⊢
        rw [window_window (by decide)] at hmagic
        refine ⟨by omega, hmagic, ?_⟩
        show readU16 (window (window file pos 40) 6 2) = _
        rw [window_window (by decide)]

theorem eight_le_of_tear {torn pre post : Bytes} {header : RecordHeader} (hpos : 1 ≤ torn.length)
    (h : validHeaderAt (pre ++ (torn ++ (r.frame lsn ++ post))) pre.length = some header)
    (htype : header.recordType = 0) : 8 ≤ torn.length := by
  rcases validHeaderAt_eq_some h with ⟨hroom, hmagic, hzero⟩
  have hnext : window (pre ++ (torn ++ (r.frame lsn ++ post))) (pre.length + torn.length) 4 =
      u32 0x4C4F4752 := by
    rw [← List.append_assoc, CommitRecord.frame_append_eq]
    exact window_append_middle (by rw [List.length_append]) (length_u32 _)
  generalize pre ++ (torn ++ (r.frame lsn ++ post)) = file at *
  unfold RecordHeader.size at hroom
  have hfirst : window file pre.length 4 = u32 0x4C4F4752 := by
    rw [← hmagic, u32_readU32 (length_window_of_le (by omega))]
  have hnone : window file (pre.length + 6) 2 = u16 0 := by
    rw [← htype, hzero, u16_readU16 (length_window_of_le (by omega))]
  by_contra hlt
  rcases Nat.lt_or_ge torn.length 4 with hfew | hmany
  · -- the magic number would start over inside itself
    have h0 := congrArg (List.getD · 0 0) hnext
    have hm := congrArg (List.getD · torn.length 0) hfirst
    simp only [getD_window hfew, getD_window (by decide : 0 < 4), Nat.add_zero] at h0 hm
    rw [h0] at hm
    generalize torn.length = m at *
    interval_cases m <;> revert hm <;> decide
  · -- its bytes would be those of the record type
    by_cases hseven : torn.length = 7
    · have h0 := congrArg (List.getD · 0 0) hnext
      have h1 := congrArg (List.getD · 1 0) hnone
      simp only [getD_window (by decide : 0 < 4), getD_window (by decide : 1 < 2), hseven] at h0 h1
      rw [Nat.add_assoc] at h0 h1
      rw [h0] at h1
      revert h1
      decide
    · have h0 := congrArg (List.getD · (6 - torn.length) 0) hnext
      have h1 := congrArg (List.getD · 0 0) hnone
      simp only [getD_window (by omega : 6 - torn.length < 4), getD_window (by decide : 0 < 2),
        Nat.add_assoc, Nat.add_sub_cancel' (by omega : torn.length ≤ 6), Nat.add_zero] at h0 h1
      rw [h0] at h1
      generalize torn.length = m at *
      interval_cases m <;> first | omega | (revert h1; decide)

namespace WriteAheadLog

variable {old : List CommitRecord}

theorem replayFrom_tear {w : WriteAheadLog} {new : List CommitRecord} {torn : Bytes}
    (hfile : w.file = frames 0 old ++ (torn ++ frames old.length new))
    (haccepted : ∀ r ∈ old, r.Accepted) (hpos : 1 ≤ torn.length)
    (hlt : torn.length < RecordHeader.size) (hnew : new ≠ []) (h : w.replayFrom 1 = .ok res) :
    res.commitRecords ≠ old ++ new := by
  intro hrecords
  unfold replayFrom at h
  rw [hfile] at h
  have hlength : res.commitRecords.length = old.length + new.length := by
    rw [hrecords, List.length_append]
  have hsome := List.length_pos_iff.mpr hnew
  have htotal : (frames 0 old ++ (torn ++ frames old.length new)).length =
      (frames 0 old).length + (torn.length + (frames 0 new).length) := by
    rw [List.length_append, List.length_append, length_frames old.length]
  rcases @replayLoop_through old haccepted [] _ _ _ _ _ _ (le_refl 1) h (by
    show 0 + old.length < _
    omega) with ⟨turns, lsn, result, hturns, hlsn, hcount, hloop⟩
  rw [List.nil_append, List.length_nil, Nat.zero_add] at hloop
  have hcount : result.commitRecords.length = old.length := by
    rw [hcount]
    exact Nat.zero_add _
  unfold maxIterations at hturns
  -- what is added from here on is `new`
  have hadded : ∀ {added : List CommitRecord}, res.commitRecords = result.commitRecords ++ added →
      added = new := by
    intro added hadd
    rw [hrecords] at hadd
    exact (List.append_inj_right hadd hcount.symm).symm
  rcases replayLoop_turn hlsn hloop with
    rfl | ⟨header, lsn', result', hheader, hroom, hlsn', hrest, hsame | ⟨record, htype, hrecord, hadd⟩⟩
  · omega
  · rcases replayLoop_room hlsn' hrest with ⟨added, hadd, hfits⟩
    rw [hsame] at hadd
    rw [hadded hadd, htotal] at hfits
    have hfits := hfits.resolve_left hnew
    unfold RecordHeader.recordSize at hfits
    omega
  · rcases replayLoop_room hlsn' hrest with ⟨added, hadd', -⟩
    rw [hadd, List.append_assoc] at hadd'
    have hnew' := hadded hadd'
    rw [← hnew', List.singleton_append, frames] at hheader hrecord
    have height := eight_le_of_tear hpos hheader htype
    have hdata : window (frames 0 old ++ (torn ++ (record.frame old.length ++
          frames (old.length + 1) added))) ((frames 0 old).length + RecordHeader.size)
          header.payloadLen.toNat =
        window (record.frame old.length ++ frames (old.length + 1) added)
          (RecordHeader.size - torn.length) header.payloadLen.toNat := by
      rw [window_append_right (by omega), window_append_right (by omega), Nat.add_sub_cancel_left]
    rw [hdata] at hrecord
    unfold RecordHeader.size at hlt hrecord
    exact CommitRecord.not_readAs_frame _ _ (by omega) (by omega) (by omega)
      (CommitRecord.readAs_of_deserialize hrecord)

theorem scanHighestLsn_torn (haccepted : ∀ r ∈ old, r.Accepted)
    (hr : r.Accepted) {m : Nat} (hpos : 1 ≤ m)
    (hlt : m < (r.frame old.length).length) :
    scanHighestLsn (frames 0 old ++ (r.frame old.length).take m) =
      if m < RecordHeader.size then old.length else old.length + 1 := by
  have hlength : ((r.frame old.length).take m).length = m := by
    rw [List.length_take]
    omega
  rcases scanHighestLsn_frames haccepted 0 ((r.frame old.length).take m) with ⟨fuel, hscan, hfuel⟩
  rw [hscan]
  cases fuel with
  | zero => omega
  | succ fuel =>
    rw [scanLoop, if_pos (by rw [List.length_append]; omega)]
    by_cases hshort : m < RecordHeader.size
    · have hnone : validHeaderAt (frames 0 old ++ (r.frame old.length).take m)
          (frames 0 old).length = none := by
        have hwindow : (window (frames 0 old ++ (r.frame old.length).take m) (frames 0 old).length
            RecordHeader.size).length < RecordHeader.size := by
          rw [length_window, List.length_append]
          omega
        unfold validHeaderAt headerAt
        dsimp only
        rw [if_pos hwindow]
      rw [hnone, if_pos hshort]
    · have hwindow : window (frames 0 old ++ (r.frame old.length).take m) (frames 0 old).length
          RecordHeader.size =
          window (frames 0 old ++ (r.frame old.length ++ [])) (frames 0 old).length
            RecordHeader.size := by
        rw [window_append_right (le_refl _), window_append_right (le_refl _), Nat.sub_self,
          List.append_nil]
        unfold window
        rw [List.drop_zero, List.drop_zero, List.take_take, Nat.min_eq_left (Nat.le_of_not_lt hshort)]
      have hheader := CommitRecord.validHeaderAt_frame (frames 0 old) [] old.length r
      unfold validHeaderAt headerAt at hheader ⊢
      rw [hwindow, hheader, if_neg hshort]
      dsimp only
      rw [CommitRecord.recordSize_frameHeader hr]
      cases fuel with
      | zero => rfl
      | succ fuel => rw [scanLoop, if_neg (by rw [List.length_append]; omega)]

theorem pending_openFile (h : file ≠ []) :
    Pending file file.length (scanHighestLsn file) [] (openFile file) := by
  refine ⟨[], rfl, ?_, rfl, ?_⟩
  · exact (if_pos rfl).symm
  · exact if_pos (List.length_pos_iff.mpr h)

theorem openFile_usable_iff (haccepted : ∀ r ∈ old, r.Accepted)
    (hr : r.Accepted) {m : Nat} (hpos : 1 ≤ m)
    (hlt : m < (r.frame old.length).length) (calls : List WalCall) :
    ((openFile (frames 0 old ++ (r.frame old.length).take m)).run calls).sync.Usable
        (old ++ acceptedRecords calls) ↔
      acceptedRecords calls = [] ∧ m < RecordHeader.size ∧ Survive old := by
  have hscan := scanHighestLsn_torn haccepted hr hpos hlt
  have hlength : ((r.frame old.length).take m).length = m := by
    rw [List.length_take]
    omega
  have hne : frames 0 old ++ (r.frame old.length).take m ≠ [] := by
    intro hnil
    have hzero := congrArg List.length hnil
    rw [List.length_append, hlength, List.length_nil] at hzero
    omega
  have hrun := (pending_openFile hne).run_sync (le_refl _) calls
  rw [List.nil_append] at hrun
  rcases hrun with ⟨hfile, -, hlsn, -⟩
  by_cases hshort : m < RecordHeader.size
  · rw [hscan, if_pos hshort] at hfile hlsn
    have hshort' : ((r.frame old.length).take m).length < RecordHeader.size := by omega
    by_cases hnone : acceptedRecords calls = []
    · -- what is left of the record is too short for a header
      rw [hnone] at hfile hlsn ⊢
      have hsame : ((openFile (frames 0 old ++ (r.frame old.length).take m)).run calls).sync.file =
          frames 0 old ++ (r.frame old.length).take m := by
        rw [hfile]
        exact if_pos rfl
      rw [usable_iff_of_stop hsame haccepted _ hlsn]
      · exact ⟨fun h => ⟨h.1, hshort, h.2⟩, fun h => ⟨h.1, h.2.2⟩⟩
      · intro turns lsn result
        cases turns with
        | zero => rfl
        | succ turns =>
          have hlong : (frames 0 old).length + RecordHeader.size >
              (frames 0 old ++ (r.frame old.length).take m).length := by
            rw [List.length_append]
            omega
          rw [replayLoop, if_pos hlong, ite_self]
    · have hbehind : ((openFile (frames 0 old ++ (r.frame old.length).take m)).run calls).sync.file =
          frames 0 old ++ ((r.frame old.length).take m ++ frames old.length (acceptedRecords calls)) := by
        rw [hfile]
        unfold placed
        rw [if_neg (CommitRecord.frames_ne_nil hnone), Nat.sub_self, List.replicate_zero,
          List.append_nil, List.append_assoc]
      constructor
      · rintro ⟨res, hres, hrecords, -⟩
        exact absurd hrecords (replayFrom_tear hbehind haccepted (by omega) hshort' hnone hres)
      · exact fun h => absurd h.1 hnone
  · -- the record that is not there is counted
    rw [hscan, if_neg hshort] at hlsn
    constructor
    · rintro ⟨res, -, hrecords, hcount⟩
      rw [hlsn, hrecords, List.length_append] at hcount
      omega
    · exact fun h => absurd h.2.1 hshort

theorem torn_usable_iff (calls calls' : List WalCall) {cut : Nat}
    (hinside : (frames 0 (acceptedRecords calls).dropLast).length < cut)
    (hcut : cut < (create.run calls).sync.file.length) :
    ((openFile ((create.run calls).sync.file.take cut)).run calls').sync.Usable
        ((acceptedRecords calls).dropLast ++ acceptedRecords calls') ↔
      acceptedRecords calls' = [] ∧
        cut < (frames 0 (acceptedRecords calls).dropLast).length + RecordHeader.size ∧
        Survive (acceptedRecords calls).dropLast := by
  have haccepted : ∀ r ∈ acceptedRecords calls, r.Accepted := fun r hr => accepted_of_mem hr
  have hfile := (pending_create.run_sync (le_refl 0) calls).1
  rw [List.nil_append, placed_nil] at hfile
  rw [hfile] at hcut ⊢
  have hne : acceptedRecords calls ≠ [] := by
    intro hnil
    rw [hnil] at hcut
    exact absurd hcut (Nat.not_lt_zero _)
  have hlast := List.dropLast_append_getLast hne
  have hr := haccepted _ (List.getLast_mem hne)
  have hold : ∀ r ∈ (acceptedRecords calls).dropLast, r.Accepted :=
    fun r hr => haccepted r (List.dropLast_subset _ hr)
  generalize (acceptedRecords calls).getLast hne = r at hlast hr
  generalize (acceptedRecords calls).dropLast = old at *
  rw [← hlast, CommitRecord.frames_append, Nat.zero_add] at hcut ⊢
  have hframe : frames old.length [r] = r.frame old.length := List.append_nil _
  rw [hframe, List.length_append] at hcut
  rw [hframe, List.take_append, List.take_of_length_le (by omega)]
  rw [openFile_usable_iff hold hr (by omega) (by omega)]
  exact ⟨fun h => ⟨h.1, by omega, h.2.2⟩, fun h => ⟨h.1, by omega, h.2.2⟩⟩

/-- **Appending after a cut.**  After `truncate` and after a torn tail, the log is usable exactly if
nothing is appended, the records that are left come back by themselves, and less than a header is left of
a torn record. -/
theorem usable_after_cut_iff (calls calls' : List WalCall) :
    (∀ keepLsn, 1 ≤ keepLsn → keepLsn ≤ (acceptedRecords calls).length →
      ((((create.run calls).truncate keepLsn).run calls').sync.Usable
          ((acceptedRecords calls).take (keepLsn - 1) ++ acceptedRecords calls') ↔
        acceptedRecords calls' = [] ∧ Survive ((acceptedRecords calls).take (keepLsn - 1)))) ∧
    ∀ cut, (frames 0 (acceptedRecords calls).dropLast).length < cut →
      cut < (create.run calls).sync.file.length →
      (((openFile ((create.run calls).sync.file.take cut)).run calls').sync.Usable
          ((acceptedRecords calls).dropLast ++ acceptedRecords calls') ↔
        acceptedRecords calls' = [] ∧
          cut < (frames 0 (acceptedRecords calls).dropLast).length + RecordHeader.size ∧
          Survive (acceptedRecords calls).dropLast) :=
  ⟨fun _ hpos hle => truncate_usable_iff calls calls' hpos hle,
    fun _ hinside hcut => torn_usable_iff calls calls' hinside hcut⟩

def putRecord : CommitRecord :=
  { txnId := 1, rootPageId := 2, mutations := [.put [7] [8]], checksum := 114402489 }

def deleteRecord : CommitRecord :=
  { txnId := 2, rootPageId := 2, mutations := [.delete [7]], checksum := 402773240 }

/-- Two records, of which the second is cut off or torn after 5 of its bytes. -/
theorem usable_after_cut_of_two :
    (((create.run [.append putRecord, .append deleteRecord]).truncate 2).run
        []).sync.Usable [putRecord] ∧
      ((openFile ((create.run [.append putRecord, .append deleteRecord]).sync.file.take 99)).run
        []).sync.Usable [putRecord] := by
  have hrecords : acceptedRecords [.append putRecord, .append deleteRecord] =
      [putRecord, deleteRecord] := by
    decide +kernel
  have hboth := usable_after_cut_iff [.append putRecord, .append deleteRecord] []
  rw [hrecords] at hboth
  exact ⟨(hboth.1 2 (by decide) (by decide)).mpr (by decide +kernel),
    (hboth.2 99 (by decide +kernel) (by decide +kernel)).mpr (by decide +kernel)⟩

/-- After either cut, a record is appended and does not come back. -/
theorem appended_record_is_hidden :
    ((((create.run [.append putRecord, .append deleteRecord]).truncate 2).run
        [.append deleteRecord]).sync.replayFrom 1).toOption.map ReplayResult.commitRecords =
          some [putRecord] ∧
      (((create.run [.append putRecord, .append deleteRecord]).truncate 2).run
        [.append deleteRecord]).sync.getCurrentLsn = 2 ∧
      ¬ (((create.run [.append putRecord, .append deleteRecord]).truncate 2).run
        [.append deleteRecord]).sync.Usable [putRecord, deleteRecord] ∧
      ¬ ((openFile ((create.run [.append putRecord, .append deleteRecord]).sync.file.take 99)).run
        [.append deleteRecord]).sync.Usable [putRecord, deleteRecord] := by
  have htruncated : ((((create.run [.append putRecord, .append deleteRecord]).truncate 2).run
      [.append deleteRecord]).sync.replayFrom 1).toOption.map ReplayResult.commitRecords =
        some [putRecord] := by
    decide +kernel
  have htorn : (((openFile ((create.run
      [.append putRecord, .append deleteRecord]).sync.file.take 99)).run
        [.append deleteRecord]).sync.replayFrom 1).toOption.map ReplayResult.commitRecords =
          some [putRecord] := by
    decide +kernel
  refine ⟨htruncated, by decide +kernel, ?_, ?_⟩
  · rintro ⟨res, hres, hrecords, -⟩
    rw [hres] at htruncated
    rw [Option.some.inj htruncated] at hrecords
    exact absurd hrecords (by decide)
  · rintro ⟨res, hres, hrecords, -⟩
    rw [hres] at htorn
    rw [Option.some.inj htorn] at hrecords
    exact absurd hrecords (by decide)

end WriteAheadLog

end Northstar.Zig
