import Northstar.Cloud.Encrypt

/-!
# Cloud.RoundTrip — when a stream is read as it was written

The writer compares the length of the data with the length of a piece, the reader the length of what was written.
A header of 28 bytes counts in the second and not in the first, so data that is at most 11 bytes shorter than a
piece is sealed at once and read in pieces.
-/

namespace Northstar.Cloud

open Chunks (chunks Cut)

variable {cipher : Aead Key Nonce UInt8} {limit : Option Nat} {key : Bytes} {k : Key} {nonce : Nonce}
  {data : Bytes} {chunkSize : Option Nat}

/-- What is written is read again, with pieces 16 bytes longer. -/
def RoundTrips (cipher : Aead Key Nonce UInt8) (key : Bytes) (nonce : Nonce) (data : Bytes) (chunkSize : Option Nat) :
    Prop :=
  ∃ e calls, (encryptStream cipher nonce data (.customerKey key) chunkSize).run [] = .ok e calls ∧
    decryptStream cipher e (.customerKey key) (chunkSize.map (· + 16)) = .ok data

/-- The sealed text is the same with its tag in front. -/
def Rotates (cipher : Aead Key Nonce UInt8) (k : Key) (nonce : Nonce) (data : Bytes) : Prop :=
  ∃ body tag, cipher.encrypt k nonce data = some (body ++ tag) ∧ tag.length = 16 ∧ tag ++ body = body ++ tag

theorem exists_body_tag (hideal : cipher.Ideal 16 limit) (k : Key) (nonce : Nonce) (hlimit : Within limit data.length) :
    ∃ body tag, cipher.encrypt k nonce data = some (body ++ tag) ∧ body.length = data.length ∧ tag.length = 16 := by
  obtain ⟨x, hx, hlength⟩ := hideal.exists_encrypt k nonce hlimit
  refine ⟨x.take data.length, x.drop data.length, ?_, ?_, ?_⟩
  · rw [List.take_append_drop]
    exact hx
  · rw [List.length_take]
    omega
  · rw [List.length_drop]
    omega

theorem roundTrips_of_le (hkey : hexDecode key = some k.1) (h : data.length ≤ pieceSize chunkSize) {body tag : Bytes}
    (hseal : cipher.encrypt k nonce data = some (body ++ tag)) (htag : tag.length = 16) :
    RoundTrips cipher key nonce data chunkSize ↔
      decryptStream cipher (nonce.1 ++ (tag ++ body)) (.customerKey key) (chunkSize.map (· + 16)) = .ok data := by
  have hrun : (encryptStream cipher nonce data (.customerKey key) chunkSize).run [] =
      .ok (nonce.1 ++ (tag ++ body)) [⟨k, nonce, data⟩] := by
    rw [encryptStream_of_le h]
    exact run_encryptData hkey htag hseal
  constructor
  · rintro ⟨e, calls, he, hread⟩
    rw [hrun] at he
    cases he
    exact hread
  · intro hread
    exact ⟨_, _, hrun, hread⟩

/-- The reader takes it for a stream of pieces, and finds the tag where the text should be. -/
theorem decryptStream_mistaken_iff (hideal : cipher.Ideal 16 limit) (hkey : hexDecode key = some k.1)
    (hle : data.length ≤ pieceSize chunkSize) (hlt : pieceSize chunkSize < data.length + 12) {body tag : Bytes}
    (hseal : cipher.encrypt k nonce data = some (body ++ tag)) (hbody : body.length = data.length)
    (htag : tag.length = 16) :
    decryptStream cipher (nonce.1 ++ (tag ++ body)) (.customerKey key) (chunkSize.map (· + 16)) = .ok data ↔
      tag ++ body = body ++ tag := by
  -- 28 bytes of nonce and tag lead the reader astray
  have hlong : pieceSize chunkSize + 16 < (nonce.1 ++ (tag ++ body)).length := by
    rw [List.length_append, List.length_append, nonce.2, htag, hbody]
    omega
  -- what it reads behind the nonce is one piece
  have hone : chunks (pieceSize chunkSize + 16) (tag ++ body) = [tag ++ body] := by
    apply Chunks.chunks_of_length_le
    · rintro hnil
      rw [List.append_eq_nil_iff.mp hnil |>.1] at htag
      cases htag
    · rw [List.length_append, htag, hbody]
      omega
  rw [decryptStream_of_lt hkey hlong, hone, decryptChunks_eq_ok_iff]
  constructor
  · rintro ⟨ps, hps, hdata⟩
    rcases hps with _ | ⟨hopen, _ | _⟩
    rw [List.flatten_singleton] at hdata
    rw [← hdata, hideal.decrypt_eq_some_iff, hseal] at hopen
    exact (Option.some.inj hopen).symm
  · intro hsame
    refine ⟨[data], .cons ?_ .nil, List.flatten_singleton.symm⟩
    -- tag and text are the sealed text in this order too
    rw [hideal.decrypt_eq_some_iff, hseal, hsame]

theorem decryptStream_pieces (hideal : cipher.Ideal 16 limit) (hkey : hexDecode key = some k.1)
    (hpos : 0 < pieceSize chunkSize) {pieces xs : List Bytes} (hcut : Cut (pieceSize chunkSize) pieces)
    (hseal : List.Forall₂ (fun p x => cipher.encrypt k nonce p = some x) pieces xs)
    (hlong : pieceSize chunkSize < pieces.flatten.length) :
    decryptStream cipher (nonce.1 ++ xs.flatten) (.customerKey key) (chunkSize.map (· + 16)) = .ok pieces.flatten := by
  -- each sealed piece is 16 bytes longer, so the reader cuts where the writer did
  have hgrown : List.Forall₂ (fun p x => x.length = p.length + 16) pieces xs :=
    hseal.imp fun p x hx => hideal.length k nonce p x hx
  have hone : 1 ≤ pieces.length := by
    cases pieces with
    | nil => cases hlong
    | cons p pieces => exact Nat.succ_pos _
  have hlonger : pieceSize chunkSize + 16 < (nonce.1 ++ xs.flatten).length := by
    rw [List.length_append, nonce.2, Chunks.length_flatten_of_grown hgrown]
    omega
  rw [decryptStream_of_lt hkey hlonger, (hcut.grow hgrown).chunks_flatten (Nat.add_pos_left hpos 16)]
  exact decryptChunks_eq_ok_iff.mpr ⟨pieces, hideal.forall₂_decrypt_iff.mpr hseal, rfl⟩

theorem exists_sealed (hideal : cipher.Ideal 16 limit) (k : Key) (nonce : Nonce) {pieces : List Bytes}
    (hlimit : ∀ p ∈ pieces, Within limit p.length) :
    ∃ xs, List.Forall₂ (fun p x => cipher.encrypt k nonce p = some x) pieces xs := by
  induction pieces with
  | nil => exact ⟨[], .nil⟩
  | cons p pieces ih =>
    obtain ⟨x, hx, -⟩ := hideal.exists_encrypt k nonce (hlimit p (List.mem_cons_self ..))
    obtain ⟨xs, hxs⟩ := ih fun p' hp' => hlimit p' (List.mem_cons_of_mem _ hp')
    exact ⟨x :: xs, .cons hx hxs⟩

theorem chunks_eq_cons (hpos : 0 < pieceSize chunkSize) (h : pieceSize chunkSize < data.length) :
    chunks (pieceSize chunkSize) data =
        data.take (pieceSize chunkSize) :: chunks (pieceSize chunkSize) (data.drop (pieceSize chunkSize)) ∧
      (data.take (pieceSize chunkSize)).length = pieceSize chunkSize := by
  have hlength : (data.take (pieceSize chunkSize)).length = pieceSize chunkSize := by
    rw [List.length_take]
    omega
  refine ⟨?_, hlength⟩
  rw [← Chunks.chunks_append hpos hlength, List.take_append_drop]

theorem roundTrips_of_lt_iff (hideal : cipher.Ideal 16 limit) (hkey : hexDecode key = some k.1)
    (hpos : 0 < pieceSize chunkSize) (h : pieceSize chunkSize < data.length) :
    RoundTrips cipher key nonce data chunkSize ↔ Within limit (pieceSize chunkSize) := by
  constructor
  · rintro ⟨e, calls, he, -⟩
    obtain ⟨xs, hxs, -, -⟩ := (run_encryptStream_eq_ok_iff hkey hpos h).mp he
    obtain ⟨hchunks, hlength⟩ := chunks_eq_cons hpos h
    -- the first piece has been sealed, so the cipher takes its length
    rw [hchunks] at hxs
    rcases hxs with _ | ⟨hx, -⟩
    rw [← hlength]
    exact hideal.within_of_encrypt hx
  · intro hlimit
    -- no piece is longer than the first
    have hpieces : ∀ p ∈ chunks (pieceSize chunkSize) data, Within limit p.length :=
      fun p hp => hlimit.mono (Chunks.length_le_of_mem_chunks hpos hp)
    obtain ⟨xs, hxs⟩ := exists_sealed hideal k nonce hpieces
    have hflatten : (chunks (pieceSize chunkSize) data).flatten = data := Chunks.flatten_chunks hpos data
    refine ⟨_, _, (run_encryptStream_eq_ok_iff hkey hpos h).mpr ⟨xs, hxs, rfl, rfl⟩, ?_⟩
    have hread := decryptStream_pieces hideal hkey hpos (Chunks.cut_chunks hpos data) hxs (by rwa [hflatten])
    rwa [hflatten] at hread

theorem roundTrips_of_le_iff (hideal : cipher.Ideal 16 limit) (hkey : hexDecode key = some k.1)
    (h : data.length ≤ pieceSize chunkSize) :
    RoundTrips cipher key nonce data chunkSize ↔
      Within limit data.length ∧ (data.length + 12 ≤ pieceSize chunkSize ∨ Rotates cipher k nonce data) := by
  by_cases hlimit : Within limit data.length
  · obtain ⟨body, tag, hseal, hbody, htag⟩ := exists_body_tag hideal k nonce hlimit
    rw [roundTrips_of_le hkey h hseal htag]
    by_cases hroom : data.length + 12 ≤ pieceSize chunkSize
    · -- what is written is no longer than a piece for the reader
      have hshort : (nonce.1 ++ (tag ++ body)).length ≤ pieceSize chunkSize + 16 := by
        rw [List.length_append, List.length_append, nonce.2, htag, hbody]
        omega
      rw [decryptStream_of_le hshort, decryptData_eq_ok_iff hkey htag, hideal.decrypt_eq_some_iff]
      exact ⟨fun _ => ⟨hlimit, .inl hroom⟩, fun _ => hseal⟩
    · rw [decryptStream_mistaken_iff hideal hkey h (Nat.lt_of_not_le hroom) hseal hbody htag]
      constructor
      · exact fun hsame => ⟨hlimit, .inr ⟨body, tag, hseal, htag, hsame⟩⟩
      · rintro ⟨-, hroom' | ⟨body', tag', hseal', htag', hsame⟩⟩
        · exact absurd hroom' hroom
        · -- the text and its tag are told apart by the length of the tag
          have heq : body ++ tag = body' ++ tag' := Option.some.inj (hseal.symm.trans hseal')
          obtain ⟨rfl, rfl⟩ := List.append_inj' heq (htag.trans htag'.symm)
          exact hsame
  · constructor
    · rintro ⟨e, calls, he, -⟩
      -- beyond its limit the cipher seals nothing
      have hnone : cipher.encrypt k nonce data = none := by
        apply Option.eq_none_iff_forall_ne_some.mpr
        intro x hx
        exact hlimit (hideal.within_of_encrypt hx)
      rw [encryptStream_of_le h, run_encryptData_of_none hkey hnone] at he
      cases he
    · exact fun hcond => absurd hcond.1 hlimit

/-- For every key, every data and every length of the pieces. -/
theorem roundTrips_iff (hideal : cipher.Ideal 16 limit) (hkey : hexDecode key = some k.1) (nonce : Nonce)
    (data : Bytes) (hpos : 0 < pieceSize chunkSize) :
    RoundTrips cipher key nonce data chunkSize ↔
      Within limit (min data.length (pieceSize chunkSize)) ∧
        (data = [] ∨ data.length + 12 ≤ pieceSize chunkSize ∨ pieceSize chunkSize < data.length ∨
          Rotates cipher k nonce data) := by
  by_cases h : data.length ≤ pieceSize chunkSize
  · rw [roundTrips_of_le_iff hideal hkey h, Nat.min_eq_left h]
    apply and_congr_right
    intro hlimit
    constructor
    · rintro (hroom | hsame)
      · exact .inr (.inl hroom)
      · exact .inr (.inr (.inr hsame))
    · rintro (hempty | hroom | hlong | hsame)
      · -- the sealed text is nothing but its tag
        obtain ⟨body, tag, hseal, hbody, htag⟩ := exists_body_tag hideal k nonce hlimit
        rw [hempty, List.length_nil, List.length_eq_zero_iff] at hbody
        refine .inr ⟨body, tag, hseal, htag, ?_⟩
        rw [hbody, List.append_nil, List.nil_append]
      · exact .inl hroom
      · exact absurd h (Nat.not_le_of_lt hlong)
      · exact .inr hsame
  · have hlong := Nat.lt_of_not_le h
    rw [roundTrips_of_lt_iff hideal hkey hpos hlong, Nat.min_eq_right (Nat.le_of_lt hlong)]
    exact ⟨fun hlimit => ⟨hlimit, .inr (.inr (.inl hlong))⟩, And.left⟩

def zeroKeyText : Bytes := List.replicate 64 48

theorem hexDecode_zeroKeyText : hexDecode zeroKeyText = some zeroKey.1 := by decide

/-- Sixteen bytes and pieces of twenty-eight: the reader takes the other way only from seventeen on. -/
theorem roundTrips_zeroBlock : RoundTrips blockCipher zeroKeyText zeroNonce zeroBlock (some 28) := by
  have h28 : 0 < pieceSize (some 28) := by decide
  exact (roundTrips_iff ideal_blockCipher hexDecode_zeroKeyText zeroNonce zeroBlock h28).mpr
    ⟨trivial, .inr (.inl (by decide))⟩

/-- Sixteen bytes and pieces of sixteen: the reader looks for pieces in what was sealed at once. -/
theorem zeroBlock_not_read :
    blockCipher.Ideal 16 none ∧ (EncryptionConfig.customerKey zeroKeyText).validate = .ok () ∧
      ¬ RoundTrips blockCipher zeroKeyText zeroNonce zeroBlock (some 16) := by
  refine ⟨ideal_blockCipher, rfl, ?_⟩
  rintro ⟨e, calls, he, hread⟩
  have hwritten : (encryptStream blockCipher zeroNonce zeroBlock (.customerKey zeroKeyText) (some 16)).run [] =
      .ok (zeroNonce.1 ++ (sealedZeroBlock.drop 16 ++ sealedZeroBlock.take 16)) [⟨zeroKey, zeroNonce, zeroBlock⟩] := rfl
  rw [hwritten] at he
  cases he
  have hfails : decryptStream blockCipher (zeroNonce.1 ++ (sealedZeroBlock.drop 16 ++ sealedZeroBlock.take 16))
      (.customerKey zeroKeyText) (some (16 + 16)) = .error (.err (.other "Chunk decryption failed: aead::Error")) := by
    rfl
  cases hfails.symm.trans hread

end Northstar.Cloud

/-!
## Tampering — pieces that are not bound to their place

Every piece of a stream is sealed under one key and one nonce, with nothing that says where it stands or how
many there are.  A piece that is written twice is read twice.
-/

namespace Northstar.Cloud

open EStateM

open Chunks (chunks Cut)

variable {cipher : Aead Key Nonce UInt8} {limit : Option Nat} {key : Bytes} {k : Key} {nonce : Nonce}
  {data e : Bytes} {chunkSize : Option Nat} {calls : List Invocation}

/-- Dropping, repeating and reordering. -/
inductive Rearrangement {α : Type*} (xs : List α) : List α → Prop
  | same : Rearrangement xs xs
  | drop {l r : List α} {x : α} : Rearrangement xs (l ++ x :: r) → Rearrangement xs (l ++ r)
  | again {l r : List α} {x : α} : Rearrangement xs (l ++ x :: r) → Rearrangement xs (l ++ x :: x :: r)
  | reorder {ys zs : List α} : Rearrangement xs ys → ys.Perm zs → Rearrangement xs zs

/-- A stream with the sealed pieces of another, dropped, repeated or reordered behind its nonce. -/
def Tampered (chunkSize : Option Nat) (e e' : Bytes) : Prop :=
  e' ≠ e ∧ ∃ pieces, Rearrangement (chunks (pieceSize chunkSize + 16) (e.drop 12)) pieces ∧
    e' = e.take 12 ++ pieces.flatten

/-- No such stream is read. -/
def DetectsTampering (cipher : Aead Key Nonce UInt8) (key : Bytes) (chunkSize : Option Nat) (e : Bytes) : Prop :=
  ∀ e', Tampered chunkSize e e' → ∀ out,
    decryptStream cipher e' (.customerKey key) (chunkSize.map (· + 16)) ≠ .ok out

/-- No key is used twice with the same nonce. -/
def FreshNonces (calls : List Invocation) : Prop := (calls.map fun c => (c.key, c.nonce)).Nodup

theorem not_freshNonces (hkey : hexDecode key = some k.1) (hpos : 0 < pieceSize chunkSize)
    (hlong : pieceSize chunkSize < data.length)
    (hrun : (encryptStream cipher nonce data (.customerKey key) chunkSize).run [] = .ok e calls) :
    ¬ FreshNonces calls := by
  obtain ⟨xs, hxs, -, rfl⟩ := (run_encryptStream_eq_ok_iff hkey hpos hlong).mp hrun
  obtain ⟨hchunks, -⟩ := chunks_eq_cons hpos hlong
  have hrest : data.drop (pieceSize chunkSize) ≠ [] := by
    intro hnil
    have hle := List.drop_eq_nil_iff.mp hnil
    omega
  -- what is left behind the first piece has a first piece too
  cases hmore : chunks (pieceSize chunkSize) (data.drop (pieceSize chunkSize)) with
  | nil =>
    have hflatten := Chunks.flatten_chunks hpos (data.drop (pieceSize chunkSize))
    rw [hmore] at hflatten
    exact absurd hflatten.symm hrest
  | cons p pieces =>
    rw [hchunks, hmore]
    unfold FreshNonces
    intro hnodup
    exact (List.nodup_cons.mp hnodup).1 (List.mem_cons_self ..)

theorem not_detectsTampering (hideal : cipher.Ideal 16 limit) (hkey : hexDecode key = some k.1)
    (hpos : 0 < pieceSize chunkSize) (hlong : pieceSize chunkSize < data.length)
    (hrun : (encryptStream cipher nonce data (.customerKey key) chunkSize).run [] = .ok e calls) :
    ¬ DetectsTampering cipher key chunkSize e := by
  obtain ⟨xs, hxs, rfl, -⟩ := (run_encryptStream_eq_ok_iff hkey hpos hlong).mp hrun
  obtain ⟨hchunks, hlength⟩ := chunks_eq_cons hpos hlong
  have hcut : Cut (pieceSize chunkSize) (chunks (pieceSize chunkSize) data) := Chunks.cut_chunks hpos data
  have hsealed : chunks (pieceSize chunkSize + 16) ((nonce.1 ++ xs.flatten).drop 12) = xs := by
    rw [List.drop_left' nonce.2]
    apply (hcut.grow _).chunks_flatten (Nat.add_pos_left hpos 16)
    exact hxs.imp fun p x hx => hideal.length k nonce p x hx
  rw [hchunks] at hxs hcut
  rcases hxs with _ | ⟨hx, hxs⟩
  next x xs =>
  intro hdetects
  apply hdetects (nonce.1 ++ (x :: x :: xs).flatten) _ _
  · -- the reader goes through the pieces of the data with the first one twice
    apply decryptStream_pieces hideal hkey hpos (.full hlength hcut) (.cons hx (.cons hx hxs))
    rw [List.flatten_cons, List.length_append, hlength]
    rw [List.flatten_cons, List.length_append, hlength]
    omega
  · constructor
    · intro heq
      have hlengths := congrArg List.length (List.append_cancel_left heq)
      rw [List.flatten_cons, List.length_append, hideal.length _ _ _ _ hx] at hlengths
      omega
    · refine ⟨x :: x :: xs, ?_, ?_⟩
      · rw [hsealed]
        exact Rearrangement.again (l := []) .same
      · rw [List.take_left' nonce.2]

theorem pieceSize_pos_of_run (hkey : hexDecode key = some k.1) (hlong : pieceSize chunkSize < data.length)
    (hrun : (encryptStream cipher nonce data (.customerKey key) chunkSize).run [] = .ok e calls) :
    0 < pieceSize chunkSize := by
  apply Nat.pos_of_ne_zero
  intro hzero
  have hlong' : ¬ data.length ≤ chunkSize.getD (64 * 1024) := Nat.not_le_of_lt hlong
  dsimp only [encryptStream] at hrun
  rw [if_neg hlong', encryptionKey_of_hexDecode hkey,
    run_bind_of_ok (run_lift_ok ..), if_pos (show chunkSize.getD (64 * 1024) = 0 from hzero)] at hrun
  cases hrun

/-- A stream of pieces is never safe: there is always a rearrangement that is read, and a nonce used twice. -/
theorem stream_not_tamper_proof (hideal : cipher.Ideal 16 limit) (hkey : hexDecode key = some k.1)
    (hlong : pieceSize chunkSize < data.length)
    (hrun : (encryptStream cipher nonce data (.customerKey key) chunkSize).run [] = .ok e calls) :
    ¬ DetectsTampering cipher key chunkSize e ∧ ¬ FreshNonces calls :=
  have hpos := pieceSize_pos_of_run hkey hlong hrun
  ⟨not_detectsTampering hideal hkey hpos hlong hrun, not_freshNonces hkey hpos hlong hrun⟩

/-- A nonce of zeros and so many times the sealed zero block. -/
def zeroStream (n : Nat) : Bytes := zeroNonce.1 ++ (List.replicate n sealedZeroBlock).flatten

def zeroCalls : List Invocation := List.replicate 2 ⟨zeroKey, zeroNonce, zeroBlock⟩

theorem run_encryptStream_zeros :
    (encryptStream blockCipher zeroNonce (List.replicate 32 0) (.customerKey zeroKeyText) (some 16)).run [] =
      .ok (zeroStream 2) zeroCalls := rfl

theorem zeroStream_not_tamper_proof :
    ¬ DetectsTampering blockCipher zeroKeyText (some 16) (zeroStream 2) ∧ ¬ FreshNonces zeroCalls :=
  have hlong : pieceSize (some 16) < (List.replicate 32 (0 : UInt8)).length := by decide
  stream_not_tamper_proof ideal_blockCipher hexDecode_zeroKeyText hlong run_encryptStream_zeros

/-- Thirty-two zero bytes in two pieces: a third one is read as if it had been written. -/
theorem third_piece_read :
    blockCipher.Ideal 16 none ∧ (EncryptionConfig.customerKey zeroKeyText).validate = .ok () ∧
      (encryptStream blockCipher zeroNonce (List.replicate 32 0) (.customerKey zeroKeyText) (some 16)).run [] =
        .ok (zeroStream 2) zeroCalls ∧
      ¬ (DetectsTampering blockCipher zeroKeyText (some 16) (zeroStream 2) ∧ FreshNonces zeroCalls) := by
  refine ⟨ideal_blockCipher, rfl, rfl, ?_⟩
  rintro ⟨hdetects, -⟩
  have hread : decryptStream blockCipher (zeroStream 3) (.customerKey zeroKeyText) (some (16 + 16)) =
      .ok (List.replicate 48 0) := by rfl
  apply hdetects (zeroStream 3) ⟨by decide, _, Rearrangement.again (l := []) .same, rfl⟩ _ hread

end Northstar.Cloud
