import Mathlib.Algebra.Order.Field.Basic
import Mathlib.Algebra.Order.Field.Rat
import Mathlib.Algebra.Order.Ring.Abs
import Mathlib.Data.Finite.Prod
import Mathlib.Data.Int.Interval
import Mathlib.Data.Set.Finite.Lemmas
import Mathlib.Tactic.Linarith
import Northstar.Lib.EditDistance
import Northstar.Queries.Planner

/-!
# Queries.EntityLinker — how alike two names are

The distance of two names is computed in a table over the prefixes of their characters, and weighed against the
number of their bytes, which are no fewer.
-/

namespace Northstar.Queries

open EditDistance

abbrev Table := Nat → Nat → Nat

def Table.set (dp : Table) (i j value : Nat) : Table := Function.update dp i (Function.update (dp i) j value)

/-- The loop over `j`, up to `n`. -/
def fillRow (aChars bChars : List Char) (i n : Nat) (dp : Table) : Table :=
  (List.range' 1 n).foldl (fun dp j =>
    if aChars[i - 1]? = bChars[j - 1]? then dp.set i j (dp (i - 1) (j - 1))
    else dp.set i j (1 + min (min (dp (i - 1) j) (dp i (j - 1))) (dp (i - 1) (j - 1)))) dp

def fillRows (aChars bChars : List Char) (m n : Nat) (dp : Table) : Table :=
  (List.range' 1 m).foldl (fun dp i => fillRow aChars bChars i n dp) dp

def levenshteinDistance (a b : String) : Nat :=
  let aChars := a.toList
  let bChars := b.toList
  let m := aChars.length
  let n := bChars.length
  let dp : Table := fun _ _ => 0
  let dp := (List.range (m + 1)).foldl (fun dp i => dp.set i 0 i) dp
  let dp := (List.range (n + 1)).foldl (fun dp j => dp.set 0 j j) dp
  fillRows aChars bChars m n dp m n

variable {dp : Table} {i j k n value : Nat} {aChars bChars : List Char}

theorem Table.set_self (dp : Table) (i j value : Nat) : dp.set i j value i j = value := by
  unfold Table.set
  rw [Function.update_self, Function.update_self]

theorem Table.set_of_ne {i' j' : Nat} (h : i' ≠ i ∨ j' ≠ j) : dp.set i j value i' j' = dp i' j' := by
  unfold Table.set
  by_cases hi : i' = i
  · have hj : j' ≠ j := h.resolve_left (not_not_intro hi)
    rw [hi, Function.update_self, Function.update_of_ne hj]
  · rw [Function.update_of_ne hi]

theorem firstColumn_eq (dp : Table) (k i j : Nat) :
    (List.range k).foldl (fun dp i => Table.set dp i 0 i) dp i j = if i < k ∧ j = 0 then i else dp i j := by
  induction k with
  | zero => rfl
  | succ k ih =>
    rw [List.range_succ, List.foldl_concat]
    by_cases h : i = k ∧ j = 0
    · rw [h.1, h.2, Table.set_self, if_pos ⟨Nat.lt_succ_self k, rfl⟩]
    · rw [Table.set_of_ne (not_and_or.mp h), ih]
      exact if_congr (by omega) rfl rfl

theorem firstRow_eq (dp : Table) (k i j : Nat) :
    (List.range k).foldl (fun dp j => Table.set dp 0 j j) dp i j = if j < k ∧ i = 0 then j else dp i j := by
  induction k with
  | zero => rfl
  | succ k ih =>
    rw [List.range_succ, List.foldl_concat]
    by_cases h : i = 0 ∧ j = k
    · rw [h.1, h.2, Table.set_self, if_pos ⟨Nat.lt_succ_self k, rfl⟩]
    · rw [Table.set_of_ne (not_and_or.mp h), ih]
      exact if_congr (by omega) rfl rfl

/-- Read from the end, so that a character more is one in front. -/
def prefixDistance (aChars bChars : List Char) (i j : Nat) : Nat :=
  distance (aChars.take i).reverse (bChars.take j).reverse

theorem prefixDistance_zero_right (hi : i ≤ aChars.length) : prefixDistance aChars bChars i 0 = i := by
  unfold prefixDistance
  rw [List.take_zero, List.reverse_nil, distance_nil_right, List.length_reverse, List.length_take, min_eq_left hi]

theorem prefixDistance_zero_left (hj : j ≤ bChars.length) : prefixDistance aChars bChars 0 j = j := by
  unfold prefixDistance
  rw [List.take_zero, List.reverse_nil, distance_nil_left, List.length_reverse, List.length_take, min_eq_left hj]

theorem prefixDistance_succ (hi : i < aChars.length) (hj : j < bChars.length) :
    prefixDistance aChars bChars (i + 1) (j + 1) =
      if aChars[i]? = bChars[j]? then prefixDistance aChars bChars i j
      else 1 + min (min (prefixDistance aChars bChars i (j + 1)) (prefixDistance aChars bChars (i + 1) j))
        (prefixDistance aChars bChars i j) := by
  have ha : (aChars.take (i + 1)).reverse = aChars[i] :: (aChars.take i).reverse := by
    rw [List.take_succ_eq_append_getElem hi, List.reverse_concat]
  have hb : (bChars.take (j + 1)).reverse = bChars[j] :: (bChars.take j).reverse := by
    rw [List.take_succ_eq_append_getElem hj, List.reverse_concat]
  unfold prefixDistance
  rw [List.getElem?_eq_getElem hi, List.getElem?_eq_getElem hj, ha, hb]
  by_cases h : aChars[i] = bChars[j]
  · rw [h, distance_cons_self, if_pos rfl]
  · rw [distance_cons_of_ne h, if_neg (fun heq => h (Option.some.inj heq))]

theorem fillRow_succ (aChars bChars : List Char) (i k : Nat) (dp : Table) :
    let row := fillRow aChars bChars (i + 1) k dp
    fillRow aChars bChars (i + 1) (k + 1) dp = row.set (i + 1) (k + 1)
      (if aChars[i]? = bChars[k]? then row i k else 1 + min (min (row i (k + 1)) (row (i + 1) k)) (row i k)) := by
  intro row
  unfold fillRow
  rw [List.range'_1_concat, List.foldl_concat, Nat.add_sub_cancel, Nat.add_sub_cancel_left, Nat.add_comm 1 k]
  split <;> rfl

theorem fillRow_spec (hi : i < aChars.length) (hk : k ≤ bChars.length)
    (habove : ∀ j ≤ bChars.length, dp i j = prefixDistance aChars bChars i j) (hfirst : dp (i + 1) 0 = i + 1) :
    (∀ j ≤ k, fillRow aChars bChars (i + 1) k dp (i + 1) j = prefixDistance aChars bChars (i + 1) j) ∧
      ∀ i', i' ≠ i + 1 → fillRow aChars bChars (i + 1) k dp i' = dp i' := by
  induction k with
  | zero =>
    refine ⟨fun j hj => ?_, fun _ _ => rfl⟩
    rw [Nat.le_zero.mp hj, prefixDistance_zero_right hi]
    exact hfirst
  | succ k ih =>
    rcases ih (Nat.le_of_succ_le hk) with ⟨hrow, hothers⟩
    -- the row above is not written
    have habove' := hothers i (Nat.succ_ne_self i).symm
    rw [fillRow_succ]
    constructor
    · intro j hj
      by_cases hlast : j = k + 1
      · rw [hlast, Table.set_self, habove', hrow k (Nat.le_refl k), habove k (by omega), habove (k + 1) hk,
          prefixDistance_succ hi hk]
      · rw [Table.set_of_ne (Or.inr hlast)]
        exact hrow j (by omega)
    · intro i' hne
      rw [← hothers i' hne]
      funext j
      exact Table.set_of_ne (Or.inl hne)

theorem fillRows_spec (hk : k ≤ aChars.length) (hrow : ∀ j ≤ bChars.length, dp 0 j = j)
    (hcolumn : ∀ i ≤ aChars.length, dp i 0 = i) :
    (∀ i ≤ k, ∀ j ≤ bChars.length, fillRows aChars bChars k bChars.length dp i j = prefixDistance aChars bChars i j) ∧
      ∀ i, k < i → fillRows aChars bChars k bChars.length dp i = dp i := by
  induction k with
  | zero =>
    refine ⟨fun i hi j hj => ?_, fun _ _ => rfl⟩
    rw [Nat.le_zero.mp hi, prefixDistance_zero_left hj]
    exact hrow j hj
  | succ k ih =>
    rcases ih (Nat.le_of_succ_le hk) with ⟨hdone, hlater⟩
    have hsucc : fillRows aChars bChars (k + 1) bChars.length dp =
        fillRow aChars bChars (k + 1) bChars.length (fillRows aChars bChars k bChars.length dp) := by
      unfold fillRows
      rw [List.range'_1_concat, List.foldl_concat, Nat.add_comm 1 k]
    have hfirst : fillRows aChars bChars k bChars.length dp (k + 1) 0 = k + 1 := by
      rw [hlater (k + 1) (Nat.lt_succ_self k)]
      exact hcolumn (k + 1) hk
    rcases fillRow_spec hk (Nat.le_refl _) (hdone k (Nat.le_refl k)) hfirst with ⟨hnew, hothers⟩
    rw [hsucc]
    constructor
    · intro i hi j hj
      by_cases hlast : i = k + 1
      · rw [hlast]
        exact hnew j hj
      · rw [hothers i hlast]
        exact hdone i (by omega) j hj
    · intro i hi
      rw [hothers i (by omega)]
      exact hlater i (by omega)

theorem levenshteinDistance_eq (a b : String) : levenshteinDistance a b = distance a.toList b.toList := by
  unfold levenshteinDistance
  dsimp only
  rw [(fillRows_spec (Nat.le_refl _) _ _).1 _ (Nat.le_refl _) _ (Nat.le_refl _)]
  · unfold prefixDistance
    rw [List.take_length, List.take_length, distance_reverse]
  · intro j hj
    rw [firstRow_eq, if_pos ⟨Nat.lt_succ_of_le hj, rfl⟩]
  · intro i hi
    rw [firstRow_eq]
    split
    next h => rw [h.2]
    next => rw [firstColumn_eq, if_pos ⟨Nat.lt_succ_of_le hi, rfl⟩]

/-- The numbers of an `f32`. -/
def f32 : Set ℚ := { q | ∃ m e : Int, |m| < 2 ^ 24 ∧ -149 ≤ e ∧ e ≤ 104 ∧ q = m * 2 ^ e }

/-- Every result is a number of the format, and none is nearer. -/
structure Rounding (F : Set ℚ) where
  round : ℚ → ℚ
  mem : ∀ q, round q ∈ F
  nearest : ∀ q, ∀ f ∈ F, |round q - q| ≤ |f - q|

namespace Rounding

variable {F : Set ℚ} (r : Rounding F) {q q' : ℚ}

theorem round_of_mem (h : q ∈ F) : r.round q = q := by
  have hle := r.nearest q q h
  rw [sub_self, abs_zero] at hle
  exact sub_eq_zero.mp (abs_nonpos_iff.mp hle)

/-- Were the results the other way round, each would be nearer to the other number. -/
theorem round_mono (h : q ≤ q') : r.round q ≤ r.round q' := by
  by_contra hlt
  have hq := sq_le_sq.mpr (r.nearest q _ (r.mem q'))
  have hq' := sq_le_sq.mpr (r.nearest q' _ (r.mem q))
  have hpos : 0 < r.round q - r.round q' := sub_pos.mpr (not_le.mp hlt)
  have hlow : r.round q + r.round q' ≤ 2 * q := by nlinarith
  have hhigh : 2 * q' ≤ r.round q + r.round q' := by nlinarith
  have heq : q = q' := by linarith
  exact hlt (heq ▸ le_refl _)

end Rounding

theorem finite_f32 : f32.Finite := by
  have hfinite := ((Set.finite_Icc (-2 ^ 24 : Int) (2 ^ 24)).prod (Set.finite_Icc (-149 : Int) 104)).image
    fun p : Int × Int => (p.1 * 2 ^ p.2 : ℚ)
  apply hfinite.subset
  intro q ⟨m, e, hm, hlow, hhigh, hq⟩
  exact ⟨(m, e), ⟨⟨(abs_lt.mp hm).1.le, (abs_lt.mp hm).2.le⟩, hlow, hhigh⟩, hq.symm⟩

theorem zero_mem_f32 : 0 ∈ f32 := ⟨0, 0, by decide, by decide, by decide, by norm_num⟩

theorem one_mem_f32 : 1 ∈ f32 := ⟨1, 0, by decide, by decide, by decide, by norm_num⟩

theorem exists_rounding : Nonempty (Rounding f32) := by
  have hnearest : ∀ q, ∃ f ∈ f32, ∀ g ∈ f32, |f - q| ≤ |g - q| :=
    fun q => Set.exists_min_image f32 (fun f => |f - q|) finite_f32 ⟨0, zero_mem_f32⟩
  choose round hmem hmin using hnearest
  exact ⟨⟨round, hmem, hmin⟩⟩

inductive MatchType
  | exact
  | fuzzy
  | semantic
  | partialMatch
  deriving Repr, DecidableEq

structure LinkResult where
  entityId : String
  confidence : ℚ
  matchType : MatchType
  deriving DecidableEq

/-- The distance in characters over the length in bytes. -/
def similarity (r : Rounding f32) (text name : String) : ℚ :=
  let distance := levenshteinDistance text name
  let maxLen := max text.utf8ByteSize name.utf8ByteSize
  if maxLen > 0 then r.round (1 - r.round (r.round distance / r.round maxLen)) else 1

/-- The loop over the entities of a type. -/
def fuzzyMatch (r : Rounding f32) (fuzzyThreshold : ℚ) (entities : List Entity) (text : String) : List LinkResult :=
  entities.filterMap fun entity =>
    let similarity := similarity r text entity.name
    if similarity ≥ fuzzyThreshold then some ⟨entity.id, similarity, .fuzzy⟩ else none

theorem length_le_utf8ByteSize (s : String) : s.toList.length ≤ s.utf8ByteSize := by
  have hsize : s.utf8ByteSize = s.toList.utf8Encode.size := by
    rw [← String.toByteArray_ofList, String.ofList_toList]
    rfl
  rw [hsize]
  induction s.toList with
  | nil => exact Nat.zero_le _
  | cons c chars ih =>
    have hchar : 0 < (String.utf8EncodeChar c).length := List.length_pos_of_ne_nil String.utf8EncodeChar_ne_nil
    rw [List.utf8Encode_cons, ByteArray.size_append, List.utf8Encode_singleton, List.size_toByteArray, List.length_cons]
    omega

theorem levenshteinDistance_le (a b : String) : levenshteinDistance a b ≤ max a.utf8ByteSize b.utf8ByteSize := by
  rw [levenshteinDistance_eq]
  exact (distance_le_max _ _).trans (max_le_max (length_le_utf8ByteSize a) (length_le_utf8ByteSize b))

theorem similarity_nonneg (r : Rounding f32) (text name : String) : 0 ≤ similarity r text name := by
  unfold similarity
  dsimp only
  split
  next hpos =>
    generalize hmax : max text.utf8ByteSize name.utf8ByteSize = maxLen at hpos
    have hle : (levenshteinDistance text name : ℚ) ≤ maxLen := by
      rw [← hmax]
      exact_mod_cast levenshteinDistance_le text name
    -- rounding keeps order and fixes 0 and 1, so the rounded quotient stays at most 1
    have hone : (1 : ℚ) ≤ r.round maxLen := by
      rw [← r.round_of_mem one_mem_f32]
      exact r.round_mono (by exact_mod_cast hpos)
    have hquotient : r.round (levenshteinDistance text name) / r.round maxLen ≤ 1 :=
      (div_le_one (by linarith)).mpr (r.round_mono hle)
    have hrounded := r.round_mono hquotient
    rw [r.round_of_mem one_mem_f32] at hrounded
    rw [← r.round_of_mem zero_mem_f32]
    exact r.round_mono (by linarith)
  next => exact zero_le_one

/-- The distance is the least number of edits of single characters, so that it is a metric; it is bounded by the
bytes of the longer name, so that no similarity is negative. -/
theorem levenshteinDistance_spec (a b : String) :
    IsLeast { n | Edits n a.toList b.toList } (levenshteinDistance a b) ∧
      levenshteinDistance a b = levenshteinDistance b a ∧
      (∀ c, levenshteinDistance a c ≤ levenshteinDistance a b + levenshteinDistance b c) ∧
      (levenshteinDistance a b = 0 ↔ a = b) ∧
      levenshteinDistance a b ≤ max a.utf8ByteSize b.utf8ByteSize ∧
      ∀ r : Rounding f32, 0 ≤ similarity r a b := by
  refine ⟨?_, ?_, ?_, ?_, levenshteinDistance_le a b, fun r => similarity_nonneg r a b⟩
  · rw [levenshteinDistance_eq]
    exact isLeast_distance _ _
  · rw [levenshteinDistance_eq, levenshteinDistance_eq, distance_comm]
  · intro c
    rw [levenshteinDistance_eq, levenshteinDistance_eq, levenshteinDistance_eq]
    exact distance_triangle _ _ _
  · rw [levenshteinDistance_eq, distance_eq_zero_iff]
    exact String.toList_inj

example : levenshteinDistance "kitten" "sitting" = 3 ∧ levenshteinDistance "" "test" = 4 := by decide +kernel

end Northstar.Queries
