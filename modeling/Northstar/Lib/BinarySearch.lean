import Mathlib.Order.Basic
import Mathlib.Data.List.Basic
import Mathlib.Order.Lattice

/-!
# BinarySearch — inserting where a binary search points

The search promises what its documentation does: the place of some equal key, or where the key would keep the
order.  Which of several equal keys it finds is left open, and an insertion goes in front of that key.
-/

namespace Northstar

/-- A binary search of a sorted list; `ok` is a key that is found. -/
structure BinarySearch (κ : Type*) [LinearOrder κ] where
  find : List κ → κ → Except Nat Nat
  found : ∀ keys key i, find keys key = .ok i → keys[i]? = some key
  absent : ∀ keys key i, keys.Pairwise (· ≤ ·) → find keys key = .error i →
    i ≤ keys.length ∧ (∀ x ∈ keys.take i, x < key) ∧ ∀ x ∈ keys.drop i, key < x

namespace BinarySearch

variable {α κ : Type*} [LinearOrder κ]

/-- `binary_search_by(..).unwrap_or_else(|pos| pos)`. -/
def position (S : BinarySearch κ) (keys : List κ) (key : κ) : Nat :=
  match S.find keys key with
  | .ok i => i
  | .error i => i

def insertAt (S : BinarySearch κ) (key : α → κ) (xs : List α) (x : α) : List α :=
  xs.insertIdx (S.position (xs.map key) (key x)) x

/-- The place of the first key that is not smaller. -/
def linearFind (key : κ) : List κ → Except Nat Nat
  | [] => .error 0
  | x :: keys =>
    if x = key then .ok 0
    else if key < x then .error 0
    else
      match linearFind key keys with
      | .ok i => .ok (i + 1)
      | .error i => .error (i + 1)

def linear (κ : Type*) [LinearOrder κ] : BinarySearch κ where
  find keys key := linearFind key keys
  found := by
    intro keys key
    induction keys with
    | nil =>
      intro i h
      cases h
    | cons x keys ih =>
      intro i h
      unfold linearFind at h
      by_cases heq : x = key
      · rw [if_pos heq] at h
        cases h
        rw [heq]
        rfl
      · rw [if_neg heq] at h
        by_cases hlt : key < x
        · rw [if_pos hlt] at h
          cases h
        · rw [if_neg hlt] at h
          cases hrest : linearFind key keys with
          | ok j =>
            rw [hrest] at h
            cases h
            exact ih j hrest
          | error j =>
            rw [hrest] at h
            cases h
  absent := by
    intro keys key
    induction keys with
    | nil =>
      intro i _ h
      cases h
      exact ⟨Nat.le_refl 0, fun _ hmem => (nomatch hmem), fun _ hmem => (nomatch hmem)⟩
    | cons x keys ih =>
      intro i hsorted h
      have htail := List.pairwise_cons.mp hsorted
      unfold linearFind at h
      by_cases heq : x = key
      · rw [if_pos heq] at h
        cases h
      · rw [if_neg heq] at h
        by_cases hlt : key < x
        · -- the key is smaller than all
          rw [if_pos hlt] at h
          cases h
          refine ⟨Nat.zero_le _, fun _ hmem => (nomatch hmem), ?_⟩
          intro y hy
          rcases List.mem_cons.mp hy with rfl | hy
          · exact hlt
          · exact lt_of_lt_of_le hlt (htail.1 y hy)
        · rw [if_neg hlt] at h
          cases hrest : linearFind key keys with
          | ok j =>
            rw [hrest] at h
            cases h
          | error j =>
            rw [hrest] at h
            cases h
            have hj := ih j htail.2 hrest
            refine ⟨Nat.succ_le_succ hj.1, ?_, hj.2.2⟩
            intro y hy
            rcases List.mem_cons.mp hy with rfl | hy
            · exact lt_of_le_of_ne (not_lt.mp hlt) heq
            · exact hj.2.1 y hy

theorem insertIdx_eq {xs : List α} {i : Nat} (h : i ≤ xs.length) (x : α) :
    xs.insertIdx i x = xs.take i ++ x :: xs.drop i := by
  induction xs generalizing i with
  | nil =>
    have hzero : i = 0 := Nat.le_zero.mp h
    rw [hzero]
    rfl
  | cons y xs ih =>
    cases i with
    | zero => rfl
    | succ i =>
      show y :: xs.insertIdx i x = _
      rw [ih (Nat.le_of_succ_le_succ h)]
      rfl

variable {S : BinarySearch κ} {key : α → κ} {xs : List α} {x : α}

/-- What stands in front is not larger; what stands behind is not smaller, and where nothing stands behind,
no key is equal. -/
theorem position_spec (hsorted : (xs.map key).Pairwise (· ≤ ·)) :
    S.position (xs.map key) (key x) ≤ xs.length ∧
      (∀ y ∈ xs.take (S.position (xs.map key) (key x)), key y ≤ key x) ∧
      (∀ y ∈ xs.drop (S.position (xs.map key) (key x)), key x ≤ key y) ∧
      (S.position (xs.map key) (key x) = xs.length → ∀ y ∈ xs, key y < key x) := by
  unfold position
  cases hfind : S.find (xs.map key) (key x) with
  | ok i =>
    have hi := S.found _ _ i hfind
    rw [List.getElem?_map] at hi
    rcases Option.map_eq_some_iff.mp hi with ⟨z, hz, hkey⟩
    have hlt := (List.getElem?_eq_some_iff.mp hz).1
    have hsplit : xs = xs.take i ++ z :: xs.drop (i + 1) := by
      rw [← (List.getElem?_eq_some_iff.mp hz).2, List.getElem_cons_drop, List.take_append_drop]
    have hpairs := hsorted
    rw [hsplit, List.map_append, List.map_cons, List.pairwise_append, List.pairwise_cons] at hpairs
    have hdrop : xs.drop i = z :: xs.drop (i + 1) := by
      rw [← (List.getElem?_eq_some_iff.mp hz).2, List.getElem_cons_drop]
    refine ⟨Nat.le_of_lt hlt, ?_, ?_, ?_⟩
    · intro y hy
      rw [← hkey]
      exact hpairs.2.2 _ (List.mem_map_of_mem hy) _ (List.mem_cons_self ..)
    · intro y hy
      rw [← hkey]
      change y ∈ xs.drop i at hy
      rw [hdrop] at hy
      rcases List.mem_cons.mp hy with rfl | hy
      · exact le_refl _
      · exact hpairs.2.1.1 _ (List.mem_map_of_mem hy)
    · intro hlength
      change i = xs.length at hlength
      omega
  | error i =>
    have hi := S.absent _ _ i hsorted hfind
    rw [List.length_map, ← List.map_take, ← List.map_drop] at hi
    refine ⟨hi.1, ?_, ?_, ?_⟩
    · exact fun y hy => le_of_lt (hi.2.1 _ (List.mem_map_of_mem hy))
    · exact fun y hy => le_of_lt (hi.2.2 _ (List.mem_map_of_mem hy))
    · intro hlength y hy
      change i = xs.length at hlength
      apply hi.2.1
      rw [hlength, List.take_length]
      exact List.mem_map_of_mem hy

theorem sorted_insertAt (hsorted : (xs.map key).Pairwise (· ≤ ·)) :
    ((S.insertAt key xs x).map key).Pairwise (· ≤ ·) := by
  have hpos := @position_spec _ _ _ S key xs x hsorted
  unfold insertAt
  rw [insertIdx_eq hpos.1, List.map_append, List.map_cons, List.pairwise_append, List.pairwise_cons]
  generalize S.position (xs.map key) (key x) = i at hpos
  have hpairs := hsorted
  rw [← List.take_append_drop i xs, List.map_append, List.pairwise_append] at hpairs
  refine ⟨hpairs.1, ⟨?_, hpairs.2.1⟩, ?_⟩
  · intro k hk
    rcases List.mem_map.mp hk with ⟨y, hy, rfl⟩
    exact hpos.2.2.1 y hy
  · intro k hk k' hk'
    rcases List.mem_map.mp hk with ⟨y, hy, rfl⟩
    rcases List.mem_cons.mp hk' with rfl | hk'
    · exact hpos.2.1 y hy
    · exact hpairs.2.2 _ hk _ hk'

theorem getLast?_insertAt (hsorted : (xs.map key).Pairwise (· ≤ ·)) :
    (S.insertAt key xs x).getLast? =
      match xs.getLast? with
      | none => some x
      | some y => if key y < key x then some x else some y := by
  have hpos := @position_spec _ _ _ S key xs x hsorted
  unfold insertAt
  rw [insertIdx_eq hpos.1]
  generalize S.position (xs.map key) (key x) = i at hpos
  cases hlast : xs.getLast? with
  | none =>
    rw [List.getLast?_eq_none_iff.mp hlast, List.take_nil, List.drop_nil]
    rfl
  | some y =>
    show _ = if key y < key x then some x else some y
    by_cases hend : i = xs.length
    · have hy : y ∈ xs := List.mem_of_getLast? hlast
      rw [if_pos (hpos.2.2.2 hend y hy), hend, List.drop_length, List.getLast?_append]
      rfl
    · have hlt : i < xs.length := Nat.lt_of_le_of_ne hpos.1 hend
      have hdrop : (xs.drop i).getLast? = some y := by
        rw [List.getLast?_drop, if_neg (Nat.not_le.mpr hlt), hlast]
      have hle := hpos.2.2.1 y (List.mem_of_getLast? hdrop)
      rw [if_neg (not_lt.mpr hle), List.getLast?_append, List.getLast?_cons, hdrop]
      rfl

end BinarySearch

end Northstar
