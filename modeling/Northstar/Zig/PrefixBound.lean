import Northstar.Zig.Page
import Mathlib.Data.List.Induction

/-!
# PrefixBound — the end key of a prefix scan

`ReadTxn.scan` of `db.zig`, for a database with a file.  The end key is the prefix with its last byte
incremented, where a byte of 255 becomes 0 and carries.  It is built in a buffer of 256 bytes that is not
initialised; what it holds at first is an argument here.
-/

namespace Northstar.Zig

open Bytes

def endKeyBufferLen : Nat := 256

/-- The loop that increments, from the last byte of the prefix on; `none` if all bytes were 255. -/
def increment (buffer : Bytes) (lastCharIdx : Nat) : Option Bytes :=
  if buffer.getD lastCharIdx 0 = 255 then
    match lastCharIdx with
    | 0 => none
    | lastCharIdx + 1 => increment (buffer.set (lastCharIdx + 1) 0) lastCharIdx
  else some (buffer.set lastCharIdx (buffer.getD lastCharIdx 0 + 1))

/-- `none` is a scan without an upper bound. -/
def endKey (buffer pre : Bytes) : Except PagerError (Option Bytes) :=
  if pre.length = 0 then .ok none
  else if pre.length < buffer.length then
    match increment (pre ++ buffer.drop pre.length) (pre.length - 1) with
    | none => .ok none
    | some buffer => (slice buffer 0 pre.length).map some
  else (slice buffer 0 pre.length).map some

/-- What the iterator yields between the two keys, and the filter leaves. -/
def Scanned (pre : Bytes) (endKey : Option Bytes) (key : Bytes) : Prop :=
  pre ≤ key ∧ (∀ bound ∈ endKey, key < bound) ∧ pre.isPrefixOf key

/-- The end key lies above the keys with the prefix, is missing where there is nothing above them, and the
filter removes what else lies below it. -/
structure Bounds (pre : Bytes) (endKey : Option Bytes) : Prop where
  start : ∀ key, pre <+: key → pre ≤ key
  above : ∀ key, pre <+: key → ∀ bound ∈ endKey, key < bound
  unbounded : (∀ b ∈ pre, b = 255) → endKey = none
  filtered : ∀ key, Scanned pre endKey key ↔ pre <+: key

variable {pre : Bytes}

theorem le_of_isPrefix {key : Bytes} (h : pre <+: key) : pre ≤ key := by
  rcases h with ⟨rest, rfl⟩
  induction pre with
  | nil => exact not_lt.mp (List.not_lt_nil rest)
  | cons b pre ih =>
    rw [← not_lt] at ih ⊢
    rw [List.cons_append, List.cons_lt_cons_iff]
    rintro (hlt | ⟨-, hlt⟩)
    · exact lt_irrefl b hlt
    · exact ih hlt

theorem append_lt_append {a b c : Bytes} (h : a < b) (hlength : a.length = b.length) : a ++ c < b := by
  induction a generalizing b with
  | nil =>
    rw [List.eq_nil_of_length_eq_zero hlength.symm] at h
    exact absurd h (List.not_lt_nil [])
  | cons x a ih =>
    cases b with
    | nil => cases hlength
    | cons y b =>
      rw [List.cons_append, List.cons_lt_cons_iff]
      rcases List.cons_lt_cons_iff.mp h with hlt | ⟨heq, hlt⟩
      · exact .inl hlt
      · exact .inr ⟨heq, ih hlt (Nat.succ.inj hlength)⟩

theorem append_left_lt (a : Bytes) {b c : Bytes} (h : b < c) : a ++ b < a ++ c := by
  induction a with
  | nil => exact h
  | cons x a ih => exact List.cons_lt_cons_iff.mpr (.inr ⟨rfl, ih⟩)

theorem not_lt_of_all {a b : Bytes} (h : ∀ x ∈ a, x = 255) (hlength : b.length ≤ a.length) : ¬ a < b := by
  induction a generalizing b with
  | nil =>
    rw [List.eq_nil_of_length_eq_zero (Nat.eq_zero_of_le_zero hlength)]
    exact List.not_lt_nil []
  | cons x a ih =>
    cases b with
    | nil => exact List.not_lt_nil _
    | cons y b =>
      rw [List.cons_lt_cons_iff]
      rintro (hlt | ⟨-, hlt⟩)
      · rw [h x (List.mem_cons_self ..)] at hlt
        exact absurd hlt (le_max y).not_gt
      · exact ih (fun z hz => h z (List.mem_cons_of_mem _ hz)) (Nat.le_of_succ_le_succ hlength) hlt

theorem lt_succ {b : UInt8} (h : b ≠ 255) : b < b + 1 := by
  have hbound := b.toNat_lt
  have hne : b.toNat ≠ 255 := fun heq => h (UInt8.toNat_inj.mp heq)
  rw [UInt8.lt_iff_toNat_lt, UInt8.toNat_add]
  show b.toNat < (b.toNat + 1) % 2 ^ 8
  omega

theorem trailing (pre : Bytes) : (∃ n, pre = List.replicate n 255) ∨
    ∃ front b n, b ≠ 255 ∧ pre = front ++ b :: List.replicate n 255 := by
  induction pre using List.reverseRecOn with
  | nil => exact .inl ⟨0, rfl⟩
  | append_singleton pre b ih =>
    by_cases hb : b = 255
    · rw [hb]
      rcases ih with ⟨n, rfl⟩ | ⟨front, b', n, hb', rfl⟩
      · exact .inl ⟨n + 1, List.replicate_succ'.symm⟩
      · refine .inr ⟨front, b', n + 1, hb', ?_⟩
        rw [List.append_assoc, List.cons_append, ← List.replicate_succ']
    · exact .inr ⟨pre, b, 0, hb, rfl⟩

theorem getD_middle (front rest : Bytes) (b : UInt8) : (front ++ b :: rest).getD front.length 0 = b := by
  rw [List.getD_eq_getElem?_getD, List.getElem?_append_right (Nat.le_refl _), Nat.sub_self]
  rfl

theorem set_middle (front rest : Bytes) (b b' : UInt8) :
    (front ++ b :: rest).set front.length b' = front ++ b' :: rest := by
  rw [List.set_append_right _ _ (Nat.le_refl _), Nat.sub_self]
  rfl

theorem increment_succ {front : Bytes} {n : Nat} (hlength : front.length = n + 1) (rest : Bytes) :
    increment (front ++ 255 :: rest) (n + 1) = increment (front ++ 0 :: rest) n := by
  have hlast : (front ++ 255 :: rest).getD (n + 1) 0 = 255 := by
    rw [← hlength]
    exact getD_middle ..
  have hset : (front ++ 255 :: rest).set (n + 1) 0 = front ++ 0 :: rest := by
    rw [← hlength]
    exact set_middle ..
  have hstep : increment (front ++ 255 :: rest) (n + 1) = increment ((front ++ 255 :: rest).set (n + 1) 0) n :=
    if_pos hlast
  rw [hstep, hset]

theorem increment_all (n : Nat) (rest : Bytes) : increment (List.replicate (n + 1) 255 ++ rest) n = none := by
  induction n generalizing rest with
  | zero => rfl
  | succ n ih =>
    rw [List.replicate_succ', List.append_assoc, List.singleton_append, increment_succ List.length_replicate]
    exact ih (0 :: rest)

theorem increment_carry {b : UInt8} (hb : b ≠ 255) (front : Bytes) (n : Nat) (rest : Bytes) :
    increment (front ++ b :: (List.replicate n 255 ++ rest)) (front.length + n) =
      some (front ++ (b + 1) :: (List.replicate n 0 ++ rest)) := by
  induction n generalizing rest with
  | zero =>
    have hat := getD_middle front rest b
    have hstep : increment (front ++ b :: rest) front.length =
        some ((front ++ b :: rest).set front.length ((front ++ b :: rest).getD front.length 0 + 1)) := by
      unfold increment
      exact if_neg (by rw [hat]; exact hb)
    show increment (front ++ b :: rest) front.length = some (front ++ (b + 1) :: rest)
    rw [hstep, hat, set_middle]
  | succ n ih =>
    have hsplit : front ++ b :: (List.replicate (n + 1) 255 ++ rest) =
        (front ++ b :: List.replicate n 255) ++ 255 :: rest := by
      rw [List.replicate_succ', List.append_assoc, List.append_assoc, List.cons_append]
      rfl
    have hlength : (front ++ b :: List.replicate n 255).length = front.length + n + 1 := by
      rw [List.length_append, List.length_cons, List.length_replicate, Nat.add_assoc]
    have hjoin : (front ++ b :: List.replicate n 255) ++ 0 :: rest =
        front ++ b :: (List.replicate n 255 ++ 0 :: rest) := by
      rw [List.append_assoc, List.cons_append]
    rw [hsplit, ← Nat.add_assoc, increment_succ hlength, hjoin, ih, List.replicate_succ', List.append_assoc]
    rfl

theorem scanned_iff {key : Bytes} {bound : Option Bytes} (h : ∀ key, pre <+: key → ∀ b ∈ bound, key < b) :
    Scanned pre bound key ↔ pre <+: key := by
  constructor
  · exact fun hscanned => List.isPrefixOf_iff_prefix.mp hscanned.2.2
  · exact fun hpre => ⟨le_of_isPrefix hpre, h key hpre, List.isPrefixOf_iff_prefix.mpr hpre⟩

/-- With the filter, it is enough that the end key is not too low, and missing where it must be. -/
theorem bounds_iff {bound : Option Bytes} :
    Bounds pre bound ↔ (∀ key, pre <+: key → ∀ b ∈ bound, key < b) ∧ ((∀ b ∈ pre, b = 255) → bound = none) :=
  ⟨fun h => ⟨h.above, h.unbounded⟩,
    fun h => ⟨fun _ => le_of_isPrefix, h.1, h.2, fun _ => scanned_iff h.1⟩⟩

theorem endKey_of_lt {buffer : Bytes} (h : pre.length < buffer.length) :
    ∃ bound, endKey buffer pre = .ok bound ∧ Bounds pre bound := by
  rcases trailing pre with ⟨n, rfl⟩ | ⟨front, b, n, hb, rfl⟩
  · -- nothing lies above the keys with this prefix
    refine ⟨none, ?_, bounds_iff.mpr ⟨fun _ _ _ hbound => (nomatch hbound), fun _ => rfl⟩⟩
    cases n with
    | zero => rfl
    | succ n =>
      have hlength : (List.replicate (n + 1) (255 : UInt8)).length = n + 1 := List.length_replicate
      unfold endKey
      rw [if_neg (by omega), if_pos h, hlength, Nat.add_sub_cancel, increment_all]
  · have hlength : (front ++ b :: List.replicate n 255).length = front.length + n + 1 := by
      rw [List.length_append, List.length_cons, List.length_replicate, Nat.add_assoc]
    have hlength' : (front ++ (b + 1) :: List.replicate n 0).length = front.length + n + 1 := by
      rw [List.length_append, List.length_cons, List.length_replicate, Nat.add_assoc]
    refine ⟨some (front ++ (b + 1) :: List.replicate n 0), ?_, bounds_iff.mpr ⟨?_, ?_⟩⟩
    · unfold endKey
      rw [if_neg (by omega), if_pos h, hlength, Nat.add_sub_cancel, List.append_assoc, List.cons_append,
        increment_carry hb]
      dsimp only
      have htake : slice (front ++ (b + 1) :: (List.replicate n 0 ++ buffer.drop (front.length + n + 1))) 0
          (front.length + n + 1) = .ok (front ++ (b + 1) :: List.replicate n 0) := by
        have hwindow := @window_head (front ++ (b + 1) :: List.replicate n 0)
          (buffer.drop (front.length + n + 1)) _ hlength'
        rw [List.append_assoc, List.cons_append] at hwindow
        unfold slice
        rw [if_pos ⟨Nat.zero_le _, by simp only [List.length_append, List.length_cons, List.length_replicate]; omega⟩,
          Nat.sub_zero, hwindow]
      rw [htake]
      rfl
    · rintro key ⟨rest, rfl⟩ bound hbound
      cases hbound
      rw [List.append_assoc, List.cons_append]
      apply append_left_lt
      exact List.cons_lt_cons_iff.mpr (.inl (lt_succ hb))
    · intro hall
      exact absurd (hall b (List.mem_append_right _ (List.mem_cons_self ..))) hb

/-- The end key is right exactly for the prefixes that are shorter than the buffer, and for one of its length if
what the buffer happens to hold is greater. -/
theorem endKey_bounds_iff {buffer : Bytes} (hbuffer : buffer.length = endKeyBufferLen) (pre : Bytes) :
    (∃ bound, endKey buffer pre = .ok bound ∧ Bounds pre bound) ↔
      pre.length < 256 ∨ pre.length = 256 ∧ pre < buffer := by
  have hlen : buffer.length = 256 := hbuffer
  rcases Nat.lt_trichotomy pre.length 256 with hlt | heq | hgt
  · exact ⟨fun _ => .inl hlt, fun _ => endKey_of_lt (by omega)⟩
  · have hend : endKey buffer pre = .ok (some buffer) := by
      have hslice : slice buffer 0 pre.length = .ok buffer := by
        unfold slice
        rw [if_pos ⟨Nat.zero_le _, by omega⟩, Nat.sub_zero, window_zero_length (by omega)]
      unfold endKey
      rw [if_neg (by omega), if_neg (by omega), hslice]
      rfl
    rw [hend]
    constructor
    · rintro ⟨bound, hbound, hbounds⟩
      cases hbound
      exact .inr ⟨heq, hbounds.above pre List.prefix_rfl buffer rfl⟩
    · rintro (hlt | ⟨-, hless⟩)
      · omega
      · refine ⟨some buffer, rfl, bounds_iff.mpr ⟨?_, ?_⟩⟩
        · rintro key ⟨rest, rfl⟩ bound hbound
          cases hbound
          exact append_lt_append hless (by omega)
        · intro hall
          exact absurd hless (not_lt_of_all hall (by omega))
  · have hend : endKey buffer pre = .error .panic := by
      have hslice : slice buffer 0 pre.length = .error .panic := if_neg (by omega)
      unfold endKey
      rw [if_neg (by omega), if_neg (by omega), hslice]
      rfl
    rw [hend]
    constructor
    · rintro ⟨bound, hbound, -⟩
      cases hbound
    · rintro (hlt | ⟨heq, -⟩) <;> omega

theorem endKey_bounds_of_task : ∃ bound, endKey (List.replicate 256 0xAA) [116, 255] = .ok bound ∧
    Bounds [116, 255] bound :=
  (endKey_bounds_iff List.length_replicate [116, 255]).mpr (.inl (by decide))

/-- A prefix of 257 bytes runs over the end of the buffer. -/
theorem endKey_panics :
    ¬ ∀ buffer, buffer.length = endKeyBufferLen → ∀ pre, ∃ bound, endKey buffer pre = .ok bound ∧ Bounds pre bound := by
  intro hclaim
  have hbuffer : (List.replicate 256 (0xAA : UInt8)).length = endKeyBufferLen := List.length_replicate
  have hpre : (List.replicate 257 (97 : UInt8)).length = 257 := List.length_replicate
  rcases (endKey_bounds_iff hbuffer _).mp (hclaim _ hbuffer (List.replicate 257 97)) with hlt | ⟨heq, -⟩ <;> omega

end Northstar.Zig
