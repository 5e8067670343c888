import Northstar.Lib.Aead
import Northstar.Lib.Bytes
import Northstar.Lib.Pieces
import Northstar.Lib.EState
import Northstar.Lib.Except

/-!
# Cloud.Encrypt — backups under a customer's key

Small data is sealed at once and written as nonce, tag and text; larger data is sealed in pieces, each followed
by its own tag, behind one nonce.  Which of the two a reader has in front of it is told from the length alone.

The cipher is a parameter, and so is the nonce that a call draws; a call notes what it asks of the cipher.
-/

namespace Northstar.Cloud

open EStateM

open Chunks (chunks)

inductive CloudError where
  | authenticationFailed (message : String)
  | bucketNotFound (bucket : String)
  | objectNotFound (key : String)
  | permissionDenied (message : String)
  | quotaExceeded (message : String)
  | networkError (message : String)
  | timeout (message : String)
  | invalidRequest (message : String)
  | checksumMismatch (expected actual : String)
  | uploadCancelled
  | other (message : String)
  | unsupported (message : String)
  deriving Repr, DecidableEq

inductive CloudFault where
  | err (e : CloudError)
  | panic
  deriving Repr, DecidableEq

/-- The key is text; these are its bytes. -/
inductive EncryptionConfig where
  | none
  | customerKey (key : Bytes)
  | kms (keyArn : String)
  deriving Repr, DecidableEq

abbrev Key := { key : Bytes // key.length = 32 }
abbrev Nonce := { nonce : Bytes // nonce.length = 12 }

/-- One use of the cipher. -/
structure Invocation where
  key : Key
  nonce : Nonce
  text : Bytes
  deriving DecidableEq

def hexVal (c : UInt8) : Option UInt8 :=
  if 48 ≤ c ∧ c ≤ 57 then some (c - 48)
  else if 65 ≤ c ∧ c ≤ 70 then some (c - 55)
  else if 97 ≤ c ∧ c ≤ 102 then some (c - 87)
  else none

/-- `hex::decode`, without the reason of a failure. -/
def hexDecode : Bytes → Option Bytes
  | [] => some []
  | [_] => none
  | hi :: lo :: rest => do
    let hi ← hexVal hi
    let lo ← hexVal lo
    let rest ← hexDecode rest
    some ((hi * 16 + lo) :: rest)

/-- `Aes256Gcm::new_from_slice`. -/
def newFromSlice (key : Bytes) : Option Key := if h : key.length = 32 then some ⟨key, h⟩ else none

def kmsError : CloudError := .other "KMS encryption not yet implemented"

def EncryptionConfig.validate : EncryptionConfig → Except CloudError Unit
  | .none => .ok ()
  | .customerKey key =>
    if key.length ≠ 64 then
      .error (.invalidRequest ("Encryption key must be 64 hex characters (256 bits), got " ++ toString key.length))
    else
      match hexDecode key with
      | some _ => .ok ()
      | _ => .error (.invalidRequest "Encryption key must be valid hex string")
  | .kms _ => .error kmsError

def EncryptionConfig.isEnabled : EncryptionConfig → Bool
  | .none => false
  | _ => true

def decodeKey (key : Bytes) : Except CloudFault Bytes :=
  match hexDecode key with
  | none => .error (.err (.invalidRequest "Invalid hex encoding for encryption key"))
  | some key => .ok key

def newCipher (key : Bytes) : Except CloudFault Key :=
  match newFromSlice key with
  | none => .error (.err (.invalidRequest "Invalid encryption key length (must be 32 bytes)"))
  | some key => .ok key

def encryptionKey (key : Bytes) : Except CloudFault Key := do
  let key ← decodeKey key
  if key.length ≠ 32 then
    .error (.err (.invalidRequest ("Encryption key must be 32 bytes (256 bits), got " ++ toString key.length)))
  else newCipher key

section

variable (cipher : Aead Key Nonce UInt8)

def headerSize : Nat := 28

/-- `cipher.encrypt`, noted. -/
def invoke (key : Key) (nonce : Nonce) (text : Bytes) : EStateM CloudFault (List Invocation) (Option Bytes) :=
  fun calls => .ok (cipher.encrypt key nonce text) (calls ++ [⟨key, nonce, text⟩])

def encryptData (nonce : Nonce) (data : Bytes) (config : EncryptionConfig) :
    EStateM CloudFault (List Invocation) Bytes :=
  match config with
  | .none => pure data
  | .customerKey key => do
    let key ← EStateM.lift (encryptionKey key)
    match ← invoke cipher key nonce data with
    | none => throw (.err (.other "Encryption failed: aead::Error"))
    | some ciphertext =>
      -- `ciphertext.len() - 16`
      if ciphertext.length < 16 then throw .panic
      else
        let tagStart := ciphertext.length - 16
        pure (nonce.1 ++ (ciphertext.drop tagStart ++ ciphertext.take tagStart))
  | .kms _ => throw (.err kmsError)

/-- The pieces one after another, all under the same nonce. -/
def encryptChunks (key : Key) (nonce : Nonce) : List Bytes → EStateM CloudFault (List Invocation) Bytes
  | [] => pure []
  | chunk :: rest => do
    match ← invoke cipher key nonce chunk with
    | none => throw (.err (.other "Chunk encryption failed: aead::Error"))
    | some ciphertext =>
      let output ← encryptChunks key nonce rest
      pure (ciphertext ++ output)

def encryptStream (nonce : Nonce) (data : Bytes) (config : EncryptionConfig) (chunkSize : Option Nat) :
    EStateM CloudFault (List Invocation) Bytes :=
  let chunkSize := chunkSize.getD (64 * 1024)
  if data.length ≤ chunkSize then encryptData cipher nonce data config
  else
    match config with
    | .none => pure data
    | .customerKey key => do
      let key ← EStateM.lift (encryptionKey key)
      if chunkSize = 0 then throw .panic
      else
        let output ← encryptChunks cipher key nonce (chunks chunkSize data)
        pure (nonce.1 ++ output)
    | .kms _ => throw (.err kmsError)

def toNonce (bytes : Bytes) : Except CloudFault Nonce :=
  if h : bytes.length = 12 then .ok ⟨bytes, h⟩ else .error (.err (.invalidRequest "Invalid nonce length"))

def decryptData (encryptedData : Bytes) (config : EncryptionConfig) : Except CloudFault Bytes :=
  match config with
  | .none => .ok encryptedData
  | .customerKey key => do
    let key ← decodeKey key
    if encryptedData.length < headerSize then
      .error (.err (.invalidRequest ("Encrypted data too short: " ++ toString encryptedData.length ++
        " bytes (minimum " ++ toString headerSize ++ ")")))
    else
      let nonceBytes := encryptedData.take 12
      let tag := (encryptedData.drop 12).take 16
      let ciphertext := encryptedData.drop 28
      let key ← newCipher key
      let nonce ← toNonce nonceBytes
      match cipher.decrypt key nonce (ciphertext ++ tag) with
      | none => .error (.err (.other "Decryption failed (data may be tampered or wrong key): aead::Error"))
      | some plaintext => .ok plaintext
  | .kms _ => .error (.err kmsError)

def decryptChunks (key : Key) (nonce : Nonce) : List Bytes → Except CloudFault Bytes
  | [] => .ok []
  | chunk :: rest =>
    match cipher.decrypt key nonce chunk with
    | none => .error (.err (.other "Chunk decryption failed: aead::Error"))
    | some plaintext => do
      let output ← decryptChunks key nonce rest
      .ok (plaintext ++ output)

def decryptStream (encryptedData : Bytes) (config : EncryptionConfig) (chunkSize : Option Nat) :
    Except CloudFault Bytes :=
  let chunkSize := chunkSize.getD (64 * 1024 + 16)
  if encryptedData.length ≤ chunkSize then decryptData cipher encryptedData config
  -- `&encrypted_data[..12]`
  else if encryptedData.length < 12 then .error .panic
  else do
    let nonce ← toNonce (encryptedData.take 12)
    match config with
    | .none => .ok encryptedData
    | .customerKey key => do
      let key ← decodeKey key
      let key ← newCipher key
      if chunkSize = 0 then .error .panic
      else decryptChunks cipher key nonce (chunks chunkSize (encryptedData.drop 12))
    | .kms _ => .error (.err kmsError)

end

variable {cipher : Aead Key Nonce UInt8} {key : Bytes} {k : Key} {nonce : Nonce}
  {data out : Bytes} {chunkSize : Option Nat} {calls calls' : List Invocation}

theorem newCipher_key (k : Key) : newCipher k.1 = .ok k := by
  unfold newCipher newFromSlice
  rw [dif_pos k.2]

theorem decodeKey_of_hexDecode (hkey : hexDecode key = some k.1) : decodeKey key = .ok k.1 := by
  unfold decodeKey
  rw [hkey]

theorem encryptionKey_of_hexDecode (hkey : hexDecode key = some k.1) : encryptionKey key = .ok k := by
  unfold encryptionKey
  rw [decodeKey_of_hexDecode hkey, Except.ok_bind, if_neg (not_not_intro k.2), newCipher_key]

theorem run_invoke : (invoke cipher k nonce data).run calls =
    .ok (cipher.encrypt k nonce data) (calls ++ [⟨k, nonce, data⟩]) := rfl

theorem run_encryptData {body tag : Bytes} (hkey : hexDecode key = some k.1) (htag : tag.length = 16)
    (hseal : cipher.encrypt k nonce data = some (body ++ tag)) :
    (encryptData cipher nonce data (.customerKey key)).run calls =
      .ok (nonce.1 ++ (tag ++ body)) (calls ++ [⟨k, nonce, data⟩]) := by
  dsimp only [encryptData]
  rw [encryptionKey_of_hexDecode hkey, run_bind_of_ok (run_lift_ok ..),
    run_bind_of_ok run_invoke, hseal]
  -- the tag is cut off from the end and goes in front
  have hstart : (body ++ tag).length - 16 = body.length := by
    rw [List.length_append, htag, Nat.add_sub_cancel]
  have hlong : ¬ (body ++ tag).length < 16 := by
    rw [List.length_append, htag]
    omega
  dsimp only
  rw [if_neg hlong, hstart, List.drop_left, List.take_left]
  rfl

theorem run_encryptData_of_none (hkey : hexDecode key = some k.1) (hseal : cipher.encrypt k nonce data = none) :
    (encryptData cipher nonce data (.customerKey key)).run calls =
      .error (.err (.other "Encryption failed: aead::Error")) (calls ++ [⟨k, nonce, data⟩]) := by
  dsimp only [encryptData]
  rw [encryptionKey_of_hexDecode hkey, run_bind_of_ok (run_lift_ok ..),
    run_bind_of_ok run_invoke, hseal]
  rfl

theorem toNonce_take (rest : Bytes) : toNonce ((nonce.1 ++ rest).take 12) = .ok nonce := by
  rw [List.take_left' nonce.2]
  unfold toNonce
  rw [dif_pos nonce.2]

theorem decryptData_eq_ok_iff {body tag : Bytes} (hkey : hexDecode key = some k.1) (htag : tag.length = 16) :
    decryptData cipher (nonce.1 ++ (tag ++ body)) (.customerKey key) = .ok out ↔
      cipher.decrypt k nonce (body ++ tag) = some out := by
  have hlong : ¬ (nonce.1 ++ (tag ++ body)).length < headerSize := by
    rw [List.length_append, List.length_append, nonce.2, htag]
    unfold headerSize
    omega
  -- 12 bytes of nonce and 16 of tag stand before the text
  have htext : (nonce.1 ++ (tag ++ body)).drop 28 = body := by
    rw [← List.append_assoc]
    apply List.drop_left'
    rw [List.length_append, nonce.2, htag]
  dsimp only [decryptData]
  rw [decodeKey_of_hexDecode hkey, Except.ok_bind, if_neg hlong, newCipher_key, Except.ok_bind, toNonce_take,
    Except.ok_bind, htext, List.drop_left' nonce.2, List.take_left' htag]
  cases cipher.decrypt k nonce (body ++ tag) with
  | none =>
    constructor
    · intro h
      cases h
    · intro h
      cases h
  | some plaintext =>
    dsimp only
    rw [Except.ok.injEq, Option.some.injEq]

theorem run_encryptChunks_eq_ok_iff {pieces : List Bytes} :
    (encryptChunks cipher k nonce pieces).run calls = .ok out calls' ↔
      ∃ xs, List.Forall₂ (fun p x => cipher.encrypt k nonce p = some x) pieces xs ∧ out = xs.flatten ∧
        calls' = calls ++ pieces.map fun p => ⟨k, nonce, p⟩ := by
  induction pieces generalizing calls calls' out with
  | nil =>
    constructor
    · intro h
      cases h
      exact ⟨[], .nil, rfl, (List.append_nil _).symm⟩
    · rintro ⟨xs, hxs, rfl, rfl⟩
      cases hxs
      show _ = EStateM.Result.ok _ (calls ++ [])
      rw [List.append_nil]
      rfl
  | cons p pieces ih =>
    dsimp only [encryptChunks]
    rw [run_bind_of_ok run_invoke]
    cases hseal : cipher.encrypt k nonce p with
    | none =>
      constructor
      · intro h
        cases h
      · rintro ⟨xs, hxs, -⟩
        rcases hxs with _ | ⟨hx, -⟩
        cases hseal.symm.trans hx
    | some x =>
      dsimp only
      rw [run_bind_eq_ok_iff]
      constructor
      · rintro ⟨rest, calls'', hrest, hout⟩
        cases hout
        obtain ⟨xs, hxs, rfl, rfl⟩ := ih.mp hrest
        exact ⟨x :: xs, .cons hseal hxs, rfl, by rw [List.map_cons, List.append_assoc]; rfl⟩
      · rintro ⟨xs, hxs, rfl, rfl⟩
        -- the first piece is sealed, then the rest
        rcases hxs with _ | ⟨hx, hxs⟩
        cases hseal.symm.trans hx
        refine ⟨_, _, ih.mpr ⟨_, hxs, rfl, rfl⟩, ?_⟩
        rw [List.map_cons, List.append_assoc]
        rfl

theorem decryptChunks_eq_ok_iff {xs : List Bytes} : decryptChunks cipher k nonce xs = .ok out ↔
      ∃ ps, List.Forall₂ (fun x p => cipher.decrypt k nonce x = some p) xs ps ∧ out = ps.flatten := by
  induction xs generalizing out with
  | nil =>
    constructor
    · intro h
      cases h
      exact ⟨[], .nil, rfl⟩
    · rintro ⟨ps, hps, rfl⟩
      cases hps
      rfl
  | cons x xs ih =>
    dsimp only [decryptChunks]
    cases hopen : cipher.decrypt k nonce x with
    | none =>
      constructor
      · intro h
        cases h
      · rintro ⟨ps, hps, -⟩
        rcases hps with _ | ⟨hp, -⟩
        cases hopen.symm.trans hp
    | some p =>
      dsimp only
      rw [Except.bind_eq_ok_iff]
      constructor
      · rintro ⟨rest, hrest, hout⟩
        cases hout
        obtain ⟨ps, hps, rfl⟩ := ih.mp hrest
        exact ⟨p :: ps, .cons hopen hps, rfl⟩
      · rintro ⟨ps, hps, rfl⟩
        -- the first piece is opened, then the rest
        rcases hps with _ | ⟨hp, hps⟩
        cases hopen.symm.trans hp
        exact ⟨_, ih.mpr ⟨_, hps, rfl⟩, rfl⟩

def pieceSize (chunkSize : Option Nat) : Nat := chunkSize.getD (64 * 1024)

theorem getD_map_add_tag : (chunkSize.map (· + 16)).getD (64 * 1024 + 16) = pieceSize chunkSize + 16 := by
  cases chunkSize <;> rfl

theorem decryptStream_of_le {encrypted : Bytes} (h : encrypted.length ≤ pieceSize chunkSize + 16) :
    decryptStream cipher encrypted (.customerKey key) (chunkSize.map (· + 16)) =
      decryptData cipher encrypted (.customerKey key) := by
  unfold decryptStream
  rw [getD_map_add_tag]
  exact if_pos h

theorem decryptStream_of_lt {rest : Bytes} (hkey : hexDecode key = some k.1)
    (h : pieceSize chunkSize + 16 < (nonce.1 ++ rest).length) :
    decryptStream cipher (nonce.1 ++ rest) (.customerKey key) (chunkSize.map (· + 16)) =
      decryptChunks cipher k nonce (chunks (pieceSize chunkSize + 16) rest) := by
  have hnonce : ¬ (nonce.1 ++ rest).length < 12 := by
    rw [List.length_append, nonce.2]
    omega
  dsimp only [decryptStream]
  rw [getD_map_add_tag, if_neg (by omega), if_neg hnonce, toNonce_take, Except.ok_bind, decodeKey_of_hexDecode hkey,
    Except.ok_bind, newCipher_key, Except.ok_bind, if_neg (Nat.succ_ne_zero _), List.drop_left' nonce.2]

theorem encryptStream_of_le (h : data.length ≤ pieceSize chunkSize) :
    encryptStream cipher nonce data (.customerKey key) chunkSize = encryptData cipher nonce data (.customerKey key) :=
  if_pos h

theorem run_encryptStream_eq_ok_iff (hkey : hexDecode key = some k.1) (hpos : 0 < pieceSize chunkSize)
    (h : pieceSize chunkSize < data.length) :
    (encryptStream cipher nonce data (.customerKey key) chunkSize).run calls = .ok out calls' ↔
      ∃ xs, List.Forall₂ (fun p x => cipher.encrypt k nonce p = some x) (chunks (pieceSize chunkSize) data) xs ∧
        out = nonce.1 ++ xs.flatten ∧
        calls' = calls ++ (chunks (pieceSize chunkSize) data).map fun p => ⟨k, nonce, p⟩ := by
  have hlong : ¬ data.length ≤ chunkSize.getD (64 * 1024) := Nat.not_le_of_lt h
  -- `chunks(0)` would panic
  have hzero : ¬ chunkSize.getD (64 * 1024) = 0 := Nat.pos_iff_ne_zero.mp hpos
  dsimp only [encryptStream]
  rw [if_neg hlong, encryptionKey_of_hexDecode hkey, run_bind_of_ok (run_lift_ok ..), if_neg hzero,
    run_bind_eq_ok_iff]
  constructor
  · rintro ⟨rest, calls'', hrest, hout⟩
    cases hout
    obtain ⟨xs, hxs, rfl, rfl⟩ := run_encryptChunks_eq_ok_iff.mp hrest
    exact ⟨xs, hxs, rfl, rfl⟩
  · rintro ⟨xs, hxs, rfl, rfl⟩
    exact ⟨_, _, run_encryptChunks_eq_ok_iff.mpr ⟨xs, hxs, rfl, rfl⟩, rfl⟩

def zeroKey : Key := ⟨List.replicate 32 0, rfl⟩
def zeroNonce : Nonce := ⟨List.replicate 12 0, rfl⟩
def zeroBlock : Bytes := List.replicate 16 0

/-- What AES-256-GCM makes of sixteen zero bytes under a key and a nonce of zeros. -/
def sealedZeroBlock : Bytes :=
  [0xce, 0xa7, 0x40, 0x3d, 0x4d, 0x60, 0x6b, 0x6e, 0x07, 0x4e, 0xc5, 0xd3, 0xba, 0xf3, 0x9d, 0x18,
    0xd0, 0xd1, 0xc8, 0xa7, 0x99, 0x99, 0x6b, 0xf0, 0x26, 0x5b, 0x98, 0xb5, 0xd4, 0x8a, 0xb9, 0x19]

/-- It agrees with AES-256-GCM there, and closes every other text with a tag of zeros. -/
def blockCipher : Aead Key Nonce UInt8 where
  encrypt k n p := if k = zeroKey ∧ n = zeroNonce ∧ p = zeroBlock then some sealedZeroBlock else some (p ++ zeroBlock)
  decrypt k n x :=
    if k = zeroKey ∧ n = zeroNonce ∧ x = sealedZeroBlock then some zeroBlock
    else
      let p := x.take (x.length - 16)
      if p ++ zeroBlock = x ∧ ¬ (k = zeroKey ∧ n = zeroNonce ∧ p = zeroBlock) then some p else none

theorem ideal_blockCipher : blockCipher.Ideal 16 none where
  seals k n p := by
    unfold blockCipher
    constructor
    · exact fun _ => trivial
    · intro _
      dsimp only
      split <;> rfl
  length k n p x h := by
    dsimp only [blockCipher] at h
    split at h
    next hzero =>
      cases h
      rw [hzero.2.2]
      rfl
    next =>
      cases h
      exact List.length_append
  opens k n p x h := by
    dsimp only [blockCipher] at h ⊢
    by_cases hzero : k = zeroKey ∧ n = zeroNonce ∧ p = zeroBlock
    · rw [if_pos hzero] at h
      cases h
      rw [if_pos ⟨hzero.1, hzero.2.1, rfl⟩, hzero.2.2]
    · rw [if_neg hzero] at h
      cases h
      -- no text with a tag of zeros is the sealed block
      have hother : ¬ (k = zeroKey ∧ n = zeroNonce ∧ p ++ zeroBlock = sealedZeroBlock) := by
        rintro ⟨-, -, heq⟩
        have hlength := congrArg List.length heq
        rw [List.length_append] at hlength
        have hp : p.length = 16 := Nat.add_right_cancel hlength
        have htag : zeroBlock = sealedZeroBlock.drop 16 := by
          rw [← heq, List.drop_left' hp]
        revert htag
        decide
      have htake : (p ++ zeroBlock).take ((p ++ zeroBlock).length - 16) = p := by
        rw [List.length_append]
        exact List.take_left
      rw [if_neg hother, htake, if_pos ⟨rfl, hzero⟩]
  authentic k n p x h := by
    dsimp only [blockCipher] at h ⊢
    split at h
    next hzero =>
      cases h
      rw [if_pos ⟨hzero.1, hzero.2.1, rfl⟩, hzero.2.2]
    next =>
      split at h
      next htext =>
        cases h
        rw [if_neg htext.2, htext.1]
      next => cases h

end Northstar.Cloud
