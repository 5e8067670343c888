import Northstar.Lib.Bytes
import Northstar.Lib.Pieces
import Northstar.Lib.Except
import Mathlib.Data.List.DropRight
import Mathlib.Tactic.IntervalCases

/-!
# Base64 — the bytes of a key or a value in a file

The module `base64` of `refmodel/serialize.rs`.  Three bytes are four letters; a last group of one or two bytes
is padded with `=`, and the decoder takes the padding off before it reads the rest in groups of four.
-/

namespace Northstar.Refmodel.Base64

open Bytes

def ascii (s : String) : Bytes := s.toList.map fun c => UInt8.ofNat c.toNat

def alphabet : Bytes := ascii "ABCDEFGHIJKLMNOPQRSTUVWXYZabcdefghijklmnopqrstuvwxyz0123456789+/"

/-- `=`. -/
def padding : UInt8 := 61

/-- `ALPHABET[v as usize] as char`. -/
def letter (v : UInt8) : UInt8 := alphabet.getD v.toNat 0

def encodeChunk (chunk : Bytes) : Bytes :=
  let b0 := chunk.getD 0 0
  let b1 := if chunk.length > 1 then chunk.getD 1 0 else 0
  let b2 := if chunk.length > 2 then chunk.getD 2 0 else 0
  [letter (b0 >>> 2), letter ((b0 &&& 0x03) <<< 4 ||| b1 >>> 4),
    if chunk.length > 1 then letter ((b1 &&& 0x0F) <<< 2 ||| b2 >>> 6) else padding,
    if chunk.length > 2 then letter (b2 &&& 0x3F) else padding]

def encode (input : Bytes) : Bytes := (Chunks.chunks 3 input).flatMap encodeChunk

/-- The map from a letter to its place in the alphabet. -/
def decodeTable (c : UInt8) : Option UInt8 := (alphabet.findIdx? (· == c)).map UInt8.ofNat

def invalidCharacter : String := "Invalid base64 character"

/-- `*decode_table.get(&c).ok_or("Invalid base64 character")?`. -/
def value (c : UInt8) : Except String UInt8 := (decodeTable c).elim (.error invalidCharacter) .ok

def decodeChunk (chunk : Bytes) : Except String Bytes := do
  if chunk.length < 2 then throw "Invalid base64 input"
  let v0 ← value (chunk.getD 0 0)
  let v1 ← value (chunk.getD 1 0)
  let b0 := v0 <<< 2 ||| v1 >>> 4
  if chunk.length > 2 ∧ chunk.getD 2 0 ≠ padding then
    let v2 ← value (chunk.getD 2 0)
    let b1 := v1 <<< 4 ||| v2 >>> 2
    if chunk.length > 3 ∧ chunk.getD 3 0 ≠ padding then
      let v3 ← value (chunk.getD 3 0)
      return [b0, b1, v2 <<< 6 ||| v3]
    return [b0, b1]
  return [b0]

def decode (input : Bytes) : Except String Bytes := do
  let input := input.rdropWhile (· = padding)
  let groups ← (Chunks.chunks 4 input).mapM decodeChunk
  return groups.flatten

theorem decodeTable_alphabet : ∀ i < 64, decodeTable (alphabet.getD i 0) = some (UInt8.ofNat i) := by decide +kernel

theorem alphabet_ne_padding : ∀ i < 64, alphabet.getD i 0 ≠ padding := by decide +kernel

/-- The value has six bits. -/
def Sextet (v : UInt8) : Prop := v >>> 6 = 0

variable {v l0 l1 v0 v1 : UInt8} {chunk : Bytes}

theorem Sextet.toNat_lt (h : Sextet v) : v.toNat < 64 := by
  have hdiv := congrArg UInt8.toNat h
  rw [UInt8.toNat_shiftRight] at hdiv
  change v.toNat >>> 6 = 0 at hdiv
  rw [Nat.shiftRight_eq_div_pow] at hdiv
  omega

theorem value_letter (h : Sextet v) : value (letter v) = .ok v := by
  unfold value letter
  rw [decodeTable_alphabet _ h.toNat_lt, UInt8.ofNat_toNat]
  rfl

theorem letter_ne_padding (h : Sextet v) : letter v ≠ padding := alphabet_ne_padding _ h.toNat_lt

section

variable (b0 b1 b2 : UInt8)

theorem ext_bits {a b : UInt8} (h : ∀ i < 8, a.toBitVec.getLsbD i = b.toBitVec.getLsbD i) : a = b :=
  UInt8.toBitVec_inj.mp (BitVec.eq_of_getLsbD_eq h)

theorem sextet_first : Sextet (b0 >>> 2) := by
  apply ext_bits
  intro i hi
  interval_cases i <;> simp

theorem sextet_second : Sextet ((b0 &&& 0x03) <<< 4 ||| b1 >>> 4) := by
  apply ext_bits
  intro i hi
  interval_cases i <;> simp

theorem sextet_third : Sextet ((b1 &&& 0x0F) <<< 2 ||| b2 >>> 6) := by
  apply ext_bits
  intro i hi
  interval_cases i <;> simp

theorem sextet_fourth : Sextet (b2 &&& 0x3F) := by
  apply ext_bits
  intro i hi
  interval_cases i <;> simp

theorem first_byte : (b0 >>> 2) <<< 2 ||| ((b0 &&& 0x03) <<< 4 ||| b1 >>> 4) >>> 4 = b0 := by
  apply ext_bits
  intro i hi
  interval_cases i <;> simp

theorem second_byte :
    ((b0 &&& 0x03) <<< 4 ||| b1 >>> 4) <<< 4 ||| ((b1 &&& 0x0F) <<< 2 ||| b2 >>> 6) >>> 2 = b1 := by
  apply ext_bits
  intro i hi
  interval_cases i <;> simp

theorem third_byte : ((b1 &&& 0x0F) <<< 2 ||| b2 >>> 6) <<< 6 ||| b2 &&& 0x3F = b2 := by
  apply ext_bits
  intro i hi
  interval_cases i <;> simp

end

theorem chunk_cases (hne : chunk ≠ []) (h : chunk.length ≤ 3) :
    (∃ b0, chunk = [b0]) ∨ (∃ b0 b1, chunk = [b0, b1]) ∨ ∃ b0 b1 b2, chunk = [b0, b1, b2] := by
  rcases Nat.lt_or_eq_of_le h with hlt | heq
  · rcases Nat.lt_or_eq_of_le (Nat.le_of_lt_succ hlt) with hone | htwo
    · have hpos := List.length_pos_of_ne_nil hne
      exact .inl (List.length_eq_one_iff.mp (by omega))
    · exact .inr (.inl (List.length_eq_two.mp htwo))
  · exact .inr (.inr (List.length_eq_three.mp heq))

def letters (chunk : Bytes) : Bytes := (encodeChunk chunk).take (chunk.length + 1)

theorem encodeChunk_eq (hne : chunk ≠ []) (h : chunk.length ≤ 3) :
    encodeChunk chunk = letters chunk ++ List.replicate (3 - chunk.length) padding := by
  rcases chunk_cases hne h with ⟨b0, rfl⟩ | ⟨b0, b1, rfl⟩ | ⟨b0, b1, b2, rfl⟩ <;> rfl

theorem length_letters (h : chunk.length ≤ 3) : (letters chunk).length = chunk.length + 1 := by
  unfold letters
  rw [List.length_take]
  show min (chunk.length + 1) 4 = chunk.length + 1
  omega

theorem ne_padding_of_mem_letters (hne : chunk ≠ []) (h : chunk.length ≤ 3) :
    ∀ c ∈ letters chunk, c ≠ padding := by
  rcases chunk_cases hne h with ⟨b0, rfl⟩ | ⟨b0, b1, rfl⟩ | ⟨b0, b1, b2, rfl⟩
  · show ∀ c ∈ [_, _], c ≠ padding
    simp only [List.forall_mem_cons, List.not_mem_nil, false_implies, implies_true, and_true]
    exact ⟨letter_ne_padding (sextet_first b0), letter_ne_padding (sextet_second b0 0)⟩
  · show ∀ c ∈ [_, _, _], c ≠ padding
    simp only [List.forall_mem_cons, List.not_mem_nil, false_implies, implies_true, and_true]
    exact ⟨letter_ne_padding (sextet_first b0), letter_ne_padding (sextet_second b0 b1),
      letter_ne_padding (sextet_third b1 0)⟩
  · show ∀ c ∈ [_, _, _, _], c ≠ padding
    simp only [List.forall_mem_cons, List.not_mem_nil, false_implies, implies_true, and_true]
    exact ⟨letter_ne_padding (sextet_first b0), letter_ne_padding (sextet_second b0 b1),
      letter_ne_padding (sextet_third b1 b2), letter_ne_padding (sextet_fourth b2)⟩

theorem decodeChunk_pair (h0 : value l0 = .ok v0) (h1 : value l1 = .ok v1) :
    decodeChunk [l0, l1] = .ok [v0 <<< 2 ||| v1 >>> 4] := by
  simp [decodeChunk, h0, h1]

theorem decodeChunk_triple {l2 v2 : UInt8} (h0 : value l0 = .ok v0) (h1 : value l1 = .ok v1)
    (h2 : value l2 = .ok v2) (hne : l2 ≠ padding) :
    decodeChunk [l0, l1, l2] = .ok [v0 <<< 2 ||| v1 >>> 4, v1 <<< 4 ||| v2 >>> 2] := by
  simp [decodeChunk, h0, h1, h2, hne]

theorem decodeChunk_quadruple {l2 l3 v2 v3 : UInt8} (h0 : value l0 = .ok v0) (h1 : value l1 = .ok v1)
    (h2 : value l2 = .ok v2) (h3 : value l3 = .ok v3) (hne2 : l2 ≠ padding) (hne3 : l3 ≠ padding) :
    decodeChunk [l0, l1, l2, l3] =
      .ok [v0 <<< 2 ||| v1 >>> 4, v1 <<< 4 ||| v2 >>> 2, v2 <<< 6 ||| v3] := by
  simp [decodeChunk, h0, h1, h2, h3, hne2, hne3]

theorem decodeChunk_letters (hne : chunk ≠ []) (h : chunk.length ≤ 3) :
    decodeChunk (letters chunk) = .ok chunk := by
  rcases chunk_cases hne h with ⟨b0, rfl⟩ | ⟨b0, b1, rfl⟩ | ⟨b0, b1, b2, rfl⟩
  · apply (decodeChunk_pair (value_letter (sextet_first b0)) (value_letter (sextet_second b0 0))).trans
    rw [first_byte]
  · apply (decodeChunk_triple (value_letter (sextet_first b0)) (value_letter (sextet_second b0 b1))
      (value_letter (sextet_third b1 0)) (letter_ne_padding (sextet_third b1 0))).trans
    rw [first_byte, second_byte]
  · apply (decodeChunk_quadruple (value_letter (sextet_first b0)) (value_letter (sextet_second b0 b1))
      (value_letter (sextet_third b1 b2)) (value_letter (sextet_fourth b2))
      (letter_ne_padding (sextet_third b1 b2)) (letter_ne_padding (sextet_fourth b2))).trans
    rw [first_byte, second_byte, third_byte]

theorem rdropWhile_append {a b : Bytes} (h : ∀ c ∈ a, c ≠ padding) :
    (a ++ b).rdropWhile (· = padding) = a ++ b.rdropWhile (· = padding) := by
  have ha : a.reverse.dropWhile (fun c => decide (c = padding)) = a.reverse := by
    apply List.dropWhile_eq_self_iff.mpr
    intro hpos
    have hmem : a.reverse[0] ∈ a := List.mem_reverse.mp (List.getElem_mem hpos)
    exact fun hc => h _ hmem (of_decide_eq_true hc)
  unfold List.rdropWhile
  rw [List.reverse_append, List.dropWhile_append]
  split
  next hempty =>
    rw [List.isEmpty_iff.mp hempty, ha, List.reverse_reverse, List.reverse_nil, List.append_nil]
  next => rw [List.reverse_append, List.reverse_reverse]

theorem rdropWhile_encodeChunk (hne : chunk ≠ []) (h : chunk.length ≤ 3) :
    (encodeChunk chunk).rdropWhile (· = padding) = letters chunk := by
  rw [encodeChunk_eq hne h, rdropWhile_append (ne_padding_of_mem_letters hne h)]
  have hnil : (List.replicate (3 - chunk.length) padding).rdropWhile (· = padding) = [] := by
    apply List.rdropWhile_eq_nil_iff.mpr
    intro c hc
    exact decide_eq_true (List.eq_of_mem_replicate hc)
  rw [hnil, List.append_nil]

theorem decode_encode (input : Bytes) : decode (encode input) = .ok input := by
  have hgroups : ∃ groups, (Chunks.chunks 4 ((encode input).rdropWhile (· = padding))).mapM decodeChunk = .ok groups ∧
      groups.flatten = input := by
    induction input using Chunks.chunks_induction (n := 3) (by decide) with
    | nil => exact ⟨[], rfl, rfl⟩
    | last l hne hlt =>
      have hle : l.length ≤ 3 := Nat.le_of_lt hlt
      refine ⟨[l], ?_, List.append_nil l⟩
      unfold encode
      rw [Chunks.chunks_of_length_le hne hle, List.flatMap_singleton, rdropWhile_encodeChunk hne hle,
        Chunks.chunks_of_length_le, List.mapM_cons, decodeChunk_letters hne hle]
      · rfl
      · apply List.ne_nil_of_length_pos
        rw [length_letters hle]
        exact Nat.succ_pos _
      · rw [length_letters hle]
        exact Nat.succ_le_succ hle
    | piece a l ha ih =>
      rcases ih with ⟨groups, hgroups, rfl⟩
      have hne : a ≠ [] := by
        rintro rfl
        cases ha
      have hle : a.length ≤ 3 := Nat.le_of_eq ha
      have hfull : encodeChunk a = letters a := by
        rw [encodeChunk_eq hne hle, ha]
        exact List.append_nil _
      refine ⟨a :: groups, ?_, rfl⟩
      unfold encode at hgroups ⊢
      rw [Chunks.chunks_append (by decide) ha, List.flatMap_cons, hfull,
        rdropWhile_append (ne_padding_of_mem_letters hne hle), Chunks.chunks_append (by decide), List.mapM_cons,
        decodeChunk_letters hne hle, hgroups]
      · rfl
      · rw [length_letters hle, ha]
  rcases hgroups with ⟨groups, hgroups, hflatten⟩
  unfold decode
  dsimp only
  rw [hgroups]
  exact congrArg Except.ok hflatten

end Northstar.Refmodel.Base64
