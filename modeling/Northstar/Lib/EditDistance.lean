import Mathlib.Data.List.Basic
import Mathlib.Order.Bounds.Basic
import Mathlib.Order.MinMax

/-!
# EditDistance — the least number of edits between two lists

An edit inserts, deletes or replaces one element at any place.  The distance by recursion goes past equal heads
without taking a minimum.
-/

namespace EditDistance

variable {α : Type*} {x y : α} {xs ys zs xs' : List α} {m n : Nat}

inductive Edit : List α → List α → Prop
  | insert (pre : List α) (x : α) (suf : List α) : Edit (pre ++ suf) (pre ++ x :: suf)
  | delete (pre : List α) (x : α) (suf : List α) : Edit (pre ++ x :: suf) (pre ++ suf)
  | substitute (pre : List α) (x y : α) (suf : List α) : Edit (pre ++ x :: suf) (pre ++ y :: suf)

inductive Edits : Nat → List α → List α → Prop
  | refl (xs : List α) : Edits 0 xs xs
  | head {n : Nat} {xs xs' ys : List α} (h : Edit xs xs') (t : Edits n xs' ys) : Edits (n + 1) xs ys

theorem Edit.cons (x : α) (h : Edit xs ys) : Edit (x :: xs) (x :: ys) := by
  cases h with
  | insert pre y suf => exact .insert (x :: pre) y suf
  | delete pre y suf => exact .delete (x :: pre) y suf
  | substitute pre y z suf => exact .substitute (x :: pre) y z suf

theorem Edit.reverse (h : Edit xs ys) : Edit xs.reverse ys.reverse := by
  cases h with
  | insert pre x suf =>
    rw [List.reverse_append, List.reverse_append, List.reverse_cons, List.append_assoc]
    exact .insert suf.reverse x pre.reverse
  | delete pre x suf =>
    rw [List.reverse_append, List.reverse_append, List.reverse_cons, List.append_assoc]
    exact .delete suf.reverse x pre.reverse
  | substitute pre x y suf =>
    rw [List.reverse_append, List.reverse_append, List.reverse_cons, List.reverse_cons, List.append_assoc,
      List.append_assoc]
    exact .substitute suf.reverse x y pre.reverse

theorem Edits.cons (x : α) (h : Edits n xs ys) : Edits n (x :: xs) (x :: ys) := by
  induction h with
  | refl xs => exact .refl _
  | head h _ ih => exact .head (h.cons x) ih

theorem Edits.reverse (h : Edits n xs ys) : Edits n xs.reverse ys.reverse := by
  induction h with
  | refl xs => exact .refl _
  | head h _ ih => exact .head h.reverse ih

theorem Edits.trans (h : Edits m xs ys) (h' : Edits n ys zs) : Edits (m + n) xs zs := by
  induction h with
  | refl xs =>
    rw [Nat.zero_add]
    exact h'
  | head h _ ih =>
    rw [Nat.add_right_comm]
    exact .head h (ih h')

theorem edits_length_left (ys : List α) : Edits ys.length [] ys := by
  induction ys with
  | nil => exact .refl _
  | cons y ys ih => exact .head (.insert [] y []) (ih.cons y)

theorem edits_length_right (xs : List α) : Edits xs.length xs [] := by
  induction xs with
  | nil => exact .refl _
  | cons x xs ih => exact .head (.delete [] x xs) ih

variable [DecidableEq α]

def distance : List α → List α → Nat
  | [], ys => ys.length
  | x :: xs, [] => (x :: xs).length
  | x :: xs, y :: ys =>
    if x = y then distance xs ys
    else 1 + min (min (distance xs (y :: ys)) (distance (x :: xs) ys)) (distance xs ys)
termination_by xs ys => xs.length + ys.length

theorem distance_nil_left (ys : List α) : distance [] ys = ys.length := by
  rw [distance]

theorem distance_nil_right (xs : List α) : distance xs [] = xs.length := by
  cases xs with
  | nil => exact distance_nil_left []
  | cons x xs => rw [distance]

theorem distance_cons_self (x : α) (xs ys : List α) : distance (x :: xs) (x :: ys) = distance xs ys := by
  rw [distance, if_pos rfl]

theorem distance_cons_of_ne (h : x ≠ y) (xs ys : List α) : distance (x :: xs) (y :: ys) =
    1 + min (min (distance xs (y :: ys)) (distance (x :: xs) ys)) (distance xs ys) := by
  rw [distance, if_neg h]

theorem distance_self (xs : List α) : distance xs xs = 0 := by
  induction xs with
  | nil => exact distance_nil_left []
  | cons x xs ih => rw [distance_cons_self, ih]

theorem distance_comm (xs ys : List α) : distance xs ys = distance ys xs := by
  induction xs generalizing ys with
  | nil => rw [distance_nil_left, distance_nil_right]
  | cons x xs ih =>
    induction ys with
    | nil => rw [distance_nil_left, distance_nil_right]
    | cons y ys ih' =>
      by_cases h : x = y
      · subst h
        rw [distance_cons_self, distance_cons_self, ih]
      · rw [distance_cons_of_ne h, distance_cons_of_ne (Ne.symm h), ih, ih', ih ys, min_comm (distance (y :: ys) xs)]

theorem distance_le_max (xs ys : List α) : distance xs ys ≤ max xs.length ys.length := by
  induction xs generalizing ys with
  | nil =>
    rw [distance_nil_left]
    exact le_max_right ..
  | cons x xs ih =>
    cases ys with
    | nil =>
      rw [distance_nil_right]
      exact le_max_left ..
    | cons y ys =>
      have hdiagonal := ih ys
      rw [List.length_cons, List.length_cons]
      by_cases h : x = y
      · subst h
        rw [distance_cons_self]
        omega
      · rw [distance_cons_of_ne h]
        omega

theorem edits_distance (xs ys : List α) : Edits (distance xs ys) xs ys := by
  induction xs generalizing ys with
  | nil =>
    rw [distance_nil_left]
    exact edits_length_left ys
  | cons x xs ih =>
    induction ys with
    | nil =>
      rw [distance_nil_right]
      exact edits_length_right _
    | cons y ys ih' =>
      by_cases h : x = y
      · subst h
        rw [distance_cons_self]
        exact (ih ys).cons x
      · rw [distance_cons_of_ne h, Nat.add_comm]
        -- each branch of the minimum is an edit of the head and the edits of the rest
        have hdelete : Edits (distance xs (y :: ys) + 1) (x :: xs) (y :: ys) := .head (.delete [] x xs) (ih _)
        have hinsert : Edits (distance (x :: xs) ys + 1) (x :: xs) (y :: ys) :=
          .head (.insert [] y (x :: xs)) (ih'.cons y)
        have hreplace : Edits (distance xs ys + 1) (x :: xs) (y :: ys) :=
          .head (.substitute [] x y xs) ((ih ys).cons y)
        rcases min_choice (min (distance xs (y :: ys)) (distance (x :: xs) ys)) (distance xs ys) with hmin | hmin
        · rw [hmin]
          rcases min_choice (distance xs (y :: ys)) (distance (x :: xs) ys) with hmin | hmin
          · rw [hmin]
            exact hdelete
          · rw [hmin]
            exact hinsert
        · rw [hmin]
          exact hreplace

/-- One more element in front changes the distance by one at most.  The two bounds for one list need those for the
other, which is as long or shorter by one. -/
theorem distance_cons_le (x : α) (xs ys : List α) :
    distance xs ys ≤ distance (x :: xs) ys + 1 ∧ distance (x :: xs) ys ≤ distance xs ys + 1 := by
  induction hn : xs.length + ys.length using Nat.strongRecOn generalizing x xs ys with
  | ind n ih =>
    cases ys with
    | nil =>
      rw [distance_nil_right, distance_nil_right, List.length_cons]
      omega
    | cons y ys =>
      rw [List.length_cons] at hn
      -- the roles of the lists exchanged
      have hother := ih (ys.length + xs.length) (by omega) y ys xs rfl
      rw [distance_comm ys, distance_comm (y :: ys)] at hother
      have hshorter := ih (xs.length + ys.length) (by omega) x xs ys rfl
      by_cases h : x = y
      · subst h
        rw [distance_cons_self]
        omega
      · rw [distance_cons_of_ne h]
        omega

def Close (xs xs' : List α) : Prop := ∀ ys, distance xs ys ≤ distance xs' ys + 1

theorem Close.cons (x : α) (h : Close xs xs') : Close (x :: xs) (x :: xs') := by
  intro ys
  induction ys with
  | nil =>
    have hlength := h []
    rw [distance_nil_right, distance_nil_right] at hlength
    rw [distance_nil_right, distance_nil_right, List.length_cons, List.length_cons]
    omega
  | cons y ys ih =>
    by_cases hxy : x = y
    · subst hxy
      rw [distance_cons_self, distance_cons_self]
      exact h ys
    · have hrest := h ys
      have hall := h (y :: ys)
      rw [distance_cons_of_ne hxy, distance_cons_of_ne hxy]
      omega

theorem close_substitute (x y : α) (xs : List α) : Close (x :: xs) (y :: xs) := by
  intro zs
  cases zs with
  | nil =>
    rw [distance_nil_right, distance_nil_right]
    exact Nat.le_succ _
  | cons z zs =>
    -- all three branches are within one of the distance of the tails
    have hx := distance_cons_le x xs zs
    have hy := distance_cons_le y xs zs
    have hz := distance_cons_le z zs xs
    rw [distance_comm zs, distance_comm (z :: zs)] at hz
    by_cases hxz : x = z
    · by_cases hyz : y = z
      · rw [hxz, hyz]
        exact Nat.le_succ _
      · rw [hxz, distance_cons_self, distance_cons_of_ne hyz]
        omega
    · by_cases hyz : y = z
      · rw [hyz, distance_cons_self, distance_cons_of_ne hxz]
        omega
      · rw [distance_cons_of_ne hxz, distance_cons_of_ne hyz]
        omega

theorem Edit.close (h : Edit xs xs') : Close xs xs' := by
  cases h with
  | insert pre x suf =>
    induction pre with
    | nil => exact fun ys => (distance_cons_le x suf ys).1
    | cons p pre ih => exact ih.cons p
  | delete pre x suf =>
    induction pre with
    | nil => exact fun ys => (distance_cons_le x suf ys).2
    | cons p pre ih => exact ih.cons p
  | substitute pre x y suf =>
    induction pre with
    | nil => exact close_substitute x y suf
    | cons p pre ih => exact ih.cons p

theorem Edits.distance_le (h : Edits n xs ys) : distance xs ys ≤ n := by
  induction h with
  | refl xs => exact (distance_self xs).le
  | head h _ ih => exact (h.close _).trans (Nat.succ_le_succ ih)

theorem isLeast_distance (xs ys : List α) : IsLeast { n | Edits n xs ys } (distance xs ys) :=
  ⟨edits_distance xs ys, fun _ h => h.distance_le⟩

theorem distance_reverse (xs ys : List α) : distance xs.reverse ys.reverse = distance xs ys := by
  apply le_antisymm
  · exact (edits_distance xs ys).reverse.distance_le
  · have h := (edits_distance xs.reverse ys.reverse).reverse.distance_le
    rwa [List.reverse_reverse, List.reverse_reverse] at h

theorem distance_triangle (xs ys zs : List α) : distance xs zs ≤ distance xs ys + distance ys zs :=
  ((edits_distance xs ys).trans (edits_distance ys zs)).distance_le

theorem distance_eq_zero_iff : distance xs ys = 0 ↔ xs = ys := by
  constructor
  · intro h
    have hedits := edits_distance xs ys
    rw [h] at hedits
    cases hedits
    rfl
  · intro h
    rw [h, distance_self]

end EditDistance
