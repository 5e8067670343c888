import Mathlib.Data.List.Basic
import Mathlib.Data.List.Lex
import Mathlib.Tactic.Ring
import Mathlib.Tactic.NormNum

/-!
# Bytes — little-endian words, windows and in-place writes

Every on-disk structure is a run of fixed-width little-endian words followed by variable-length
byte strings, read back through windows `data[off..off + len]` and written with
`copy_from_slice`.  This file has the three operations and the laws that let a reader step over
what a writer produced.  Byte strings are ordered lexicographically, as slices are.
-/

abbrev Bytes := List UInt8

instance instLinearOrderUInt8 : LinearOrder UInt8 where
  le_refl := UInt8.le_refl
  le_trans _ _ _ := UInt8.le_trans
  le_antisymm _ _ := UInt8.le_antisymm
  le_total := UInt8.le_total
  lt_iff_le_not_ge a b := by
    simp only [UInt8.le_iff_toNat_le, UInt8.lt_iff_toNat_lt]
    omega
  toDecidableLE := inferInstance
  toDecidableEq := inferInstance
  toDecidableLT := inferInstance

namespace Bytes

/-- The low `w` bytes of `n`, least significant first. -/
def le : Nat → Nat → Bytes
  | 0, _ => []
  | w + 1, n => UInt8.ofNat (n % 256) :: le w (n / 256)

/-- The number a little-endian byte string stands for. -/
def toNat : Bytes → Nat
  | [] => 0
  | b :: bs => b.toNat + 256 * toNat bs

@[simp] theorem length_le (w n : Nat) : (le w n).length = w := by
  induction w generalizing n with
  | zero => rfl
  | succ w ih => rw [le, List.length_cons, ih]

theorem toNat_le (w n : Nat) : toNat (le w n) = n % 256 ^ w := by
  induction w generalizing n with
  | zero => simp [le, toNat, Nat.mod_one]
  | succ w ih =>
    have hbyte : (UInt8.ofNat (n % 256)).toNat = n % 256 := by
      rw [UInt8.toNat_ofNat']
      exact Nat.mod_eq_of_lt (Nat.mod_lt n (by decide))
    rw [le, toNat, ih, hbyte, pow_succ', Nat.mod_mul]

variable {n len : Nat} {b buf out : Bytes}

theorem toNat_le_of_lt {w : Nat} (h : n < 256 ^ w) : toNat (le w n) = n := by
  rw [toNat_le, Nat.mod_eq_of_lt h]

def u16 (x : UInt16) : Bytes := le 2 x.toNat
def u32 (x : UInt32) : Bytes := le 4 x.toNat
def u64 (x : UInt64) : Bytes := le 8 x.toNat

def readU16 (b : Bytes) : UInt16 := UInt16.ofNat (toNat b)
def readU32 (b : Bytes) : UInt32 := UInt32.ofNat (toNat b)
def readU64 (b : Bytes) : UInt64 := UInt64.ofNat (toNat b)

@[simp] theorem length_u16 (x : UInt16) : (u16 x).length = 2 := length_le _ _
@[simp] theorem length_u32 (x : UInt32) : (u32 x).length = 4 := length_le _ _
@[simp] theorem length_u64 (x : UInt64) : (u64 x).length = 8 := length_le _ _

@[simp] theorem readU16_u16 (x : UInt16) : readU16 (u16 x) = x := by
  rw [readU16, u16, toNat_le_of_lt (x.toNat_lt.trans_le (by norm_num)), UInt16.ofNat_toNat]

@[simp] theorem readU32_u32 (x : UInt32) : readU32 (u32 x) = x := by
  rw [readU32, u32, toNat_le_of_lt (x.toNat_lt.trans_le (by norm_num)), UInt32.ofNat_toNat]

@[simp] theorem readU64_u64 (x : UInt64) : readU64 (u64 x) = x := by
  rw [readU64, u64, toNat_le_of_lt (x.toNat_lt.trans_le (by norm_num)), UInt64.ofNat_toNat]

theorem le_inj {w a b : Nat} (ha : a < 256 ^ w) (hb : b < 256 ^ w) (h : le w a = le w b) : a = b := by
  have hnat := congrArg toNat h
  rwa [toNat_le_of_lt ha, toNat_le_of_lt hb] at hnat

theorem readU16_le (h : n < 2 ^ 16) : (readU16 (le 2 n)).toNat = n := by
  rw [readU16, toNat_le_of_lt (by omega), UInt16.toNat_ofNat', Nat.mod_eq_of_lt h]

theorem readU32_le (h : n < 2 ^ 32) : (readU32 (le 4 n)).toNat = n := by
  rw [readU32, toNat_le_of_lt (by omega), UInt32.toNat_ofNat', Nat.mod_eq_of_lt h]

theorem readU64_le (h : n < 2 ^ 64) : (readU64 (le 8 n)).toNat = n := by
  rw [readU64, toNat_le_of_lt (by omega), UInt64.toNat_ofNat', Nat.mod_eq_of_lt h]

theorem getD_le {w i : Nat} (h : i < w) (n : Nat) : ((le w n).getD i 0).toNat = n / 256 ^ i % 256 := by
  induction w generalizing n i with
  | zero => omega
  | succ w ih =>
    cases i with
    | zero =>
      rw [le, List.getD_cons_zero, UInt8.toNat_ofNat', pow_zero, Nat.div_one]
      exact Nat.mod_eq_of_lt (Nat.mod_lt n (by decide))
    | succ i => rw [le, List.getD_cons_succ, ih (by omega), Nat.div_div_eq_div_mul, ← pow_succ']

theorem le_toNat (b : Bytes) : le b.length (toNat b) = b := by
  induction b with
  | nil => rfl
  | cons x b ih =>
    have hx := x.toNat_lt
    have hmod : (x.toNat + 256 * toNat b) % 256 = x.toNat := by omega
    have hdiv : (x.toNat + 256 * toNat b) / 256 = toNat b := by omega
    rw [List.length_cons, toNat, le, hmod, hdiv, ih, UInt8.ofNat_toNat]

theorem toNat_lt (b : Bytes) : toNat b < 256 ^ b.length := by
  induction b with
  | nil => exact Nat.one_pos
  | cons x b ih =>
    have hx := x.toNat_lt
    rw [List.length_cons, toNat, pow_succ']
    omega

theorem u16_readU16 (h : b.length = 2) : u16 (readU16 b) = b := by
  have hlt := toNat_lt b
  rw [h] at hlt
  rw [u16, readU16, UInt16.toNat_ofNat', Nat.mod_eq_of_lt (hlt.trans_le (by norm_num)), ← h, le_toNat]

theorem u32_readU32 (h : b.length = 4) : u32 (readU32 b) = b := by
  have hlt := toNat_lt b
  rw [h] at hlt
  rw [u32, readU32, UInt32.toNat_ofNat', Nat.mod_eq_of_lt (hlt.trans_le (by norm_num)), ← h, le_toNat]

theorem u64_readU64 (h : b.length = 8) : u64 (readU64 b) = b := by
  have hlt := toNat_lt b
  rw [h] at hlt
  rw [u64, readU64, UInt64.toNat_ofNat', Nat.mod_eq_of_lt (hlt.trans_le (by norm_num)), ← h, le_toNat]

/-- `data[off..off + len]`, cut short at the end of `data`. -/
def window (data : Bytes) (off len : Nat) : Bytes := (data.drop off).take len

theorem length_window (data : Bytes) (off len : Nat) :
    (window data off len).length = min len (data.length - off) := by
  rw [window, List.length_take, List.length_drop]

theorem length_window_of_le {data : Bytes} {off len : Nat} (h : off + len ≤ data.length) :
    (window data off len).length = len := by
  rw [length_window]
  omega

theorem window_split (data : Bytes) (off a b : Nat) :
    window data off (a + b) = window data off a ++ window data (off + a) b := by
  rw [window, window, window, List.take_add, List.drop_drop]

theorem window_append_right {a : Bytes} {off : Nat} (h : a.length ≤ off) :
    window (a ++ b) off len = window b (off - a.length) len := by
  rw [window, window, List.drop_append, List.drop_eq_nil_of_le h, List.nil_append]

theorem window_append_left {a b : Bytes} {off len : Nat} (h : off + len ≤ a.length) :
    window (a ++ b) off len = window a off len := by
  rw [window, window, List.drop_append_of_le_length (by omega),
    List.take_append_of_le_length (by rw [List.length_drop]; omega)]

theorem window_zero_length {a : Bytes} (h : a.length = len) : window a 0 len = a := by
  rw [window, List.drop_zero, ← h, List.take_length]

theorem window_head {a b : Bytes} {len : Nat} (h : a.length = len) : window (a ++ b) 0 len = a := by
  rw [window_append_left (by omega), window_zero_length h]

theorem window_append_middle {a c : Bytes} {off : Nat} (ha : a.length = off) (hb : b.length = len) :
    window (a ++ (b ++ c)) off len = b := by
  subst ha hb
  rw [window_append_right (Nat.le_refl _), Nat.sub_self, window_head rfl]

theorem window_drop (data : Bytes) (pos off len : Nat) :
    window (data.drop pos) off len = window data (pos + off) len := by
  rw [window, window, List.drop_drop]

theorem window_window {data : Bytes} {off a b : Nat} (h : a + b ≤ len) :
    window (window data off len) a b = window data (off + a) b := by
  rw [window, window, window, List.drop_take, List.drop_drop, List.take_take,
    Nat.min_eq_left (by omega)]

theorem getD_window {data : Bytes} {off i : Nat} (h : i < len) :
    (window data off len).getD i 0 = data.getD (off + i) 0 := by
  rw [window, List.getD_eq_getElem?_getD, List.getD_eq_getElem?_getD, List.getElem?_take_of_lt h,
    List.getElem?_drop]

theorem getD_eq_of_window {data data' : Bytes} {off off' : Nat}
    (h : window data off len = window data' off' len) {i : Nat} (hi : i < len) :
    data.getD (off + i) 0 = data'.getD (off' + i) 0 := by
  rw [← getD_window hi, h, getD_window hi]

theorem window_eq_of_getD {data bytes : Bytes} {off : Nat} (hlength : bytes.length = len)
    (hroom : off + len ≤ data.length)
    (h : ∀ i < len, (data.getD (off + i) 0).toNat = (bytes.getD i 0).toNat) :
    window data off len = bytes := by
  have hsame : (window data off len).length = bytes.length := by
    rw [length_window_of_le hroom, hlength]
  apply List.ext_getElem hsame
  intro i ha hb
  have hi := h i (by omega)
  rw [← getD_window (by omega : i < len), List.getD_eq_getElem?_getD, List.getD_eq_getElem?_getD,
    List.getElem?_eq_getElem ha, List.getElem?_eq_getElem hb] at hi
  exact UInt8.toNat_inj.mp hi

/-- `buf[off..off + data.len()].copy_from_slice(data)`; `none` is the out-of-range panic. -/
def writeAt (buf : Bytes) (off : Nat) (data : Bytes) : Option Bytes :=
  if off + data.length ≤ buf.length then
    some (buf.take off ++ data ++ buf.drop (off + data.length))
  else none

theorem writeAt_eq_some_iff {data : Bytes} {off : Nat} : writeAt buf off data = some out ↔
      off + data.length ≤ buf.length ∧
        out = buf.take off ++ data ++ buf.drop (off + data.length) := by
  unfold writeAt
  by_cases hle : off + data.length ≤ buf.length
  · rw [if_pos hle]
    exact ⟨fun h => ⟨hle, (Option.some.inj h).symm⟩, fun h => congrArg some h.2.symm⟩
  · rw [if_neg hle]
    exact ⟨(nomatch ·), fun h => absurd h.1 hle⟩

theorem writeAt_length {data : Bytes} {off : Nat} (h : writeAt buf off data = some out) :
    out.length = buf.length := by
  obtain ⟨hle, rfl⟩ := writeAt_eq_some_iff.mp h
  simp only [List.length_append, List.length_take, List.length_drop]
  omega

/-- Up to the end of the written range, a buffer is what it was and then the data. -/
theorem writeAt_take {data : Bytes} {off : Nat} (h : writeAt buf off data = some out) :
    out.take (off + data.length) = buf.take off ++ data := by
  obtain ⟨hle, rfl⟩ := writeAt_eq_some_iff.mp h
  have hlen : (buf.take off ++ data).length = off + data.length := by
    rw [List.length_append, List.length_take, Nat.min_eq_left (by omega)]
  exact List.take_left' hlen

theorem window_writeAt {data : Bytes} {off : Nat} (h : writeAt buf off data = some out) :
    window out off data.length = data := by
  obtain ⟨hle, rfl⟩ := writeAt_eq_some_iff.mp h
  rw [List.append_assoc, window_append_middle (by rw [List.length_take]; omega) rfl]

theorem window_writeAt_apart {data : Bytes} {off : Nat} (h : writeAt buf off data = some out)
    {off' : Nat} (hapart : off' + len ≤ off ∨ off + data.length ≤ off') :
    window out off' len = window buf off' len := by
  obtain ⟨hle, rfl⟩ := writeAt_eq_some_iff.mp h
  have hfront : (buf.take off).length = off := by
    rw [List.length_take]
    omega
  rcases hapart with hbefore | hbehind
  · rw [List.append_assoc, window_append_left (by omega), window, window, List.drop_take,
      List.take_take, Nat.min_eq_left (by omega)]
  · have hlength : (buf.take off ++ data).length = off + data.length := by
      rw [List.length_append, hfront]
    rw [window_append_right (by omega), hlength, window_drop]
    congr 1
    omega

theorem writeAt_middle {a b c data : Bytes} {off : Nat} (ha : a.length = off)
    (hb : b.length = data.length) : writeAt (a ++ (b ++ c)) off data = some (a ++ (data ++ c)) := by
  have hlen : (a ++ b).length = off + data.length := by rw [List.length_append, ha, hb]
  apply writeAt_eq_some_iff.mpr
  constructor
  · simp only [List.length_append, ha, hb]
    omega
  · rw [List.take_left' ha, ← List.append_assoc a b c, List.drop_left' hlen, List.append_assoc]

/-- The buffer with `bytes` at `off`. -/
def overwrite (data : Bytes) (off : Nat) (bytes : Bytes) : Bytes :=
  data.take off ++ bytes ++ data.drop (off + bytes.length)

section

variable {data bytes : Bytes} {off : Nat} (hfits : off + bytes.length ≤ data.length)

include hfits

theorem writeAt_overwrite : writeAt data off bytes = some (overwrite data off bytes) := by
  unfold writeAt
  rw [if_pos hfits]
  rfl

theorem length_overwrite : (overwrite data off bytes).length = data.length :=
  writeAt_length (writeAt_overwrite hfits)

theorem window_overwrite : window (overwrite data off bytes) off bytes.length = bytes :=
  window_writeAt (writeAt_overwrite hfits)

theorem window_overwrite_apart {off' : Nat}
    (hapart : off' + len ≤ off ∨ off + bytes.length ≤ off') :
    window (overwrite data off bytes) off' len = window data off' len :=
  window_writeAt_apart (writeAt_overwrite hfits) hapart

theorem drop_overwrite {start : Nat} (hstart : start ≤ off) :
    (overwrite data off bytes).drop start = overwrite (data.drop start) (off - start) bytes := by
  have hfront : start ≤ (data.take off).length := by
    rw [List.length_take]
    omega
  unfold overwrite
  rw [List.append_assoc, List.drop_append_of_le_length hfront, List.drop_take, List.drop_drop,
    List.append_assoc, (by omega : start + (off - start + bytes.length) = off + bytes.length)]

end

theorem overwrite_take {data bytes : Bytes} {off : Nat} (hinside : off + bytes.length ≤ n)
    (hn : n ≤ data.length) : overwrite (data.take n) off bytes = (overwrite data off bytes).take n := by
  have hfront : (data.take off ++ bytes).length = off + bytes.length := by
    rw [List.length_append, List.length_take]
    omega
  unfold overwrite
  rw [List.take_append, List.take_of_length_le (hfront.trans_le hinside), hfront, List.take_take, List.drop_take,
    Nat.min_eq_left (by omega)]

theorem drop_overwrite_behind {data bytes : Bytes} {off : Nat} (hbehind : off + bytes.length ≤ n)
    (hn : n ≤ data.length) : (overwrite data off bytes).drop n = data.drop n := by
  have hfront : (data.take off ++ bytes).length = off + bytes.length := by
    rw [List.length_append, List.length_take]
    omega
  unfold overwrite
  rw [List.drop_append, List.drop_eq_nil_of_le (hfront.trans_le hbehind), List.nil_append, hfront, List.drop_drop,
    Nat.add_sub_cancel' hbehind]

theorem window_take {data : Bytes} {off : Nat} (h : off + len ≤ n) :
    window (data.take n) off len = window data off len := by
  have hwhole : data.take n = window data 0 n := rfl
  rw [hwhole, window_window h, Nat.zero_add]

/-- Two writes, the second right behind the first. -/
theorem overwrite_append {data a b : Bytes} {off : Nat}
    (hfits : off + (a.length + b.length) ≤ data.length) :
    overwrite (overwrite data off a) (off + a.length) b = overwrite data off (a ++ b) := by
  have hfront : (data.take off ++ a).length = off + a.length := by
    rw [List.length_append, List.length_take]
    omega
  unfold overwrite
  rw [List.take_left' hfront, ← List.drop_drop, List.drop_left' hfront, List.drop_drop,
    List.length_append, List.append_assoc (data.take off) a b, Nat.add_assoc]

/-- The buffers are the same from `start` on. -/
def AgreeFrom (start : Nat) (data data' : Bytes) : Prop :=
  data.length = data'.length ∧ data.drop start = data'.drop start

theorem AgreeFrom.window {start : Nat} {data data' : Bytes} (h : AgreeFrom start data data')
    {off : Nat} (hoff : start ≤ off) : Bytes.window data off len = Bytes.window data' off len := by
  have hsplit := window_drop data start (off - start) len
  have hsplit' := window_drop data' start (off - start) len
  rw [Nat.add_sub_cancel' hoff] at hsplit hsplit'
  rw [← hsplit, ← hsplit', h.2]

theorem AgreeFrom.overwrite {start : Nat} {data data' : Bytes} (h : AgreeFrom start data data')
    {off : Nat} {bytes : Bytes} (hoff : start ≤ off) (hfits : off + bytes.length ≤ data.length) :
    AgreeFrom start (overwrite data off bytes) (overwrite data' off bytes) := by
  have hfits' : off + bytes.length ≤ data'.length := h.1 ▸ hfits
  constructor
  · rw [length_overwrite hfits, length_overwrite hfits', h.1]
  · rw [drop_overwrite hfits hoff, drop_overwrite hfits' hoff, h.2]

/-- Pieces of the same size, the last of which may be shorter. -/
def chunks (size : Nat) (data : Bytes) : List Bytes :=
  (List.range ((data.length + size - 1) / size)).map fun i => window data (i * size) size

theorem flatten_windows (size : Nat) (data : Bytes) (n : Nat) :
    ((List.range n).map fun i => window data (i * size) size).flatten = data.take (n * size) := by
  induction n with
  | zero => rw [Nat.zero_mul, List.take_zero, List.range_zero, List.map_nil, List.flatten_nil]
  | succ n ih =>
    rw [List.range_succ, List.map_append, List.flatten_append, ih, Nat.succ_mul, List.take_add]
    unfold window
    rw [List.map_singleton, List.flatten_singleton]

section

variable {size : Nat} {data : Bytes} (hsize : 0 < size)
include hsize

theorem flatten_chunks : (chunks size data).flatten = data := by
  unfold chunks
  rw [flatten_windows]
  apply List.take_of_length_le
  have hdiv := Nat.lt_div_mul_add hsize (a := data.length + size - 1)
  omega

theorem length_of_mem_chunks {chunk : Bytes} (h : chunk ∈ chunks size data) :
    chunk ≠ [] ∧ chunk.length ≤ size := by
  rcases List.mem_map.mp h with ⟨i, hi, rfl⟩
  have hle : i + 1 ≤ (data.length + size - 1) / size := List.mem_range.mp hi
  have hstart := (Nat.le_div_iff_mul_le hsize).mp hle
  rw [Nat.succ_mul] at hstart
  have hlength := length_window data (i * size) size
  constructor
  · intro hnil
    rw [hnil, List.length_nil] at hlength
    omega
  · rw [hlength]
    exact Nat.min_le_left _ _

end

theorem le_max (b : UInt8) : b ≤ 0xFF := by
  rw [UInt8.le_iff_toNat_le]
  have := b.toNat_lt
  show b.toNat ≤ 255
  omega

theorem le_and_lt_push_iff (p k : Bytes) : p ≤ k ∧ k < p ++ [0xFF] ↔ p <+: k ∧ ¬ p ++ [0xFF] <+: k := by
  rw [← not_lt]
  induction p generalizing k with
  | nil =>
    cases k with
    | nil => decide
    | cons b k =>
      have hlower : ¬ b :: k < [] := List.not_lt_nil _
      have hrest : ¬ k < [] := List.not_lt_nil _
      rw [List.nil_append, List.cons_lt_cons_iff, List.cons_prefix_cons]
      simp only [hlower, hrest, (le_max b).lt_iff_ne, List.nil_prefix, not_false_eq_true, true_and, and_false,
        or_false, and_true, ne_eq, eq_comm]
  | cons a p ih =>
    cases k with
    | nil => simp
    | cons b k =>
      rw [List.cons_append, List.cons_lt_cons_iff, List.cons_lt_cons_iff, List.cons_prefix_cons,
        List.cons_prefix_cons]
      by_cases heq : a = b
      · subst heq
        simpa using ih k
      · -- the first bytes decide: the string is below the lower end or above the upper one
        rcases lt_or_gt_of_ne heq with hlt | hgt
        · simp [heq, hlt.not_gt, Ne.symm heq]
        · simp [heq, hgt]

end Bytes
