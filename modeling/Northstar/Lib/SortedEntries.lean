import Mathlib.Data.List.Basic
import Mathlib.Data.List.TakeWhile
import Mathlib.Order.Basic
import Mathlib.Order.Lattice

/-!
# SortedEntries — lists kept sorted by a key

The body of a search-tree node is a list strictly increasing in a key, searched by bisection and
edited by position.  As a set of bindings it is a finite map, `lookup`; this file relates the two
readings.  Lists ordered by a key are merged by taking the first of the smallest heads.
-/

namespace SortedEntries

variable {α κ : Type} [LinearOrder κ] (key : α → κ)

def Sorted (xs : List α) : Prop := xs.Pairwise (fun a b => key a < key b)

def lookup (k : κ) (xs : List α) : Option α := xs.find? (fun x => key x = k)

/-- The result of a bisection: the place of the element with key `k`, or the place where it
belongs. -/
def binarySearch (k : κ) (xs : List α) : Except Nat Nat :=
  let pos := (xs.takeWhile (fun x => key x < k)).length
  match xs[pos]? with
  | some x => if key x = k then .ok pos else .error pos
  | none => .error pos

/-- The place, found or not. -/
def position (k : κ) (xs : List α) : Nat :=
  match binarySearch key k xs with
  | .ok pos => pos
  | .error pos => pos

variable {key}

theorem lookup_append (k : κ) (xs ys : List α) :
    lookup key k (xs ++ ys) = (lookup key k xs).or (lookup key k ys) :=
  List.find?_append

variable {xs pre suf : List α} {x : α}

theorem lookup_eq_none {k : κ} (h : ∀ x ∈ xs, key x ≠ k) : lookup key k xs = none := by
  apply List.find?_eq_none.mpr
  intro x hx
  simpa using h x hx

theorem mem_of_lookup {k : κ} (h : lookup key k xs = some x) : x ∈ xs ∧ key x = k := by
  refine ⟨List.mem_of_find?_eq_some h, ?_⟩
  simpa using List.find?_some h

theorem lookup_eq_some {k : κ} (hs : Sorted key xs) (hx : x ∈ xs)
    (hk : key x = k) : lookup key k xs = some x := by
  rcases List.append_of_mem hx with ⟨pre, suf, rfl⟩
  have hpre : ∀ p ∈ pre, key p ≠ k := by
    intro p hp
    have hlt : key p < key x :=
      (List.pairwise_append.mp hs).2.2 p hp x (List.mem_cons_self ..)
    exact hk ▸ hlt.ne
  rw [lookup_append, lookup_eq_none hpre, Option.none_or, lookup, List.find?_cons_of_pos]
  simpa using hk

theorem lookup_insert {x : α} {pre : List α} (suf : List α) (hpre : ∀ p ∈ pre, key p < key x)
    (k : κ) [Decidable (k = key x)] :
    lookup key k (pre ++ x :: suf) = if k = key x then some x else lookup key k (pre ++ suf) := by
  by_cases hk : k = key x
  · subst hk
    rw [if_pos rfl, lookup_append, lookup_eq_none (fun p hp => (hpre p hp).ne), Option.none_or,
      lookup, List.find?_cons_of_pos (by simp)]
  · have hx : lookup key k (x :: suf) = lookup key k suf :=
      List.find?_cons_of_neg (by simpa using fun h => hk h.symm)
    rw [if_neg hk, lookup_append, lookup_append, hx]

theorem sorted_insert (h : Sorted key (pre ++ suf))
    (hpre : ∀ p ∈ pre, key p < key x) (hsuf : ∀ s ∈ suf, key x < key s) :
    Sorted key (pre ++ x :: suf) := by
  rcases List.pairwise_append.mp h with ⟨hp, hs, hps⟩
  apply List.pairwise_append.mpr
  refine ⟨hp, List.pairwise_cons.mpr ⟨hsuf, hs⟩, ?_⟩
  intro p hpm y hy
  rcases List.mem_cons.mp hy with rfl | hy
  · exact hpre p hpm
  · exact hps p hpm y hy

theorem sorted_erase (h : Sorted key (pre ++ x :: suf)) : Sorted key (pre ++ suf) :=
  h.sublist (List.Sublist.append_left (List.sublist_cons_self x suf) pre)

theorem sorted_around (h : Sorted key (pre ++ x :: suf)) :
    (∀ p ∈ pre, key p < key x) ∧ ∀ s ∈ suf, key x < key s := by
  rcases List.pairwise_append.mp h with ⟨-, hs, hps⟩
  exact ⟨fun p hp => hps p hp x (List.mem_cons_self ..), (List.pairwise_cons.mp hs).1⟩

theorem binarySearch_cases (h : Sorted key xs) (k : κ) :
    (∃ pre x suf, xs = pre ++ x :: suf ∧ key x = k ∧ binarySearch key k xs = .ok pre.length) ∨
    (∃ pre suf, xs = pre ++ suf ∧ (∀ p ∈ pre, key p < k) ∧ (∀ s ∈ suf, k < key s) ∧
      binarySearch key k xs = .error pre.length) := by
  -- the list splits at the first element that is not smaller
  let smaller : α → Bool := fun x => decide (key x < k)
  let pre := xs.takeWhile smaller
  have hsplit : pre ++ xs.dropWhile smaller = xs := List.takeWhile_append_dropWhile
  have hpre : ∀ p ∈ pre, key p < k := by
    intro p hp
    have := List.mem_takeWhile_imp hp
    simpa [smaller] using this
  cases hd : xs.dropWhile smaller with
  | nil =>
    rw [hd, List.append_nil] at hsplit
    refine Or.inr ⟨pre, [], by rw [List.append_nil]; exact hsplit.symm, hpre, by simp, ?_⟩
    have hnone : xs[pre.length]? = none := by
      rw [hsplit]
      exact List.getElem?_eq_none (Nat.le_refl _)
    show (match xs[pre.length]? with | some x => _ | none => _) = _
    rw [hnone]
  | cons x suf =>
    rw [hd] at hsplit
    have hge : k ≤ key x := by
      have hx := List.head_dropWhile_not smaller (l := xs) (by rw [hd]; simp)
      simpa [hd, smaller] using hx
    have hget : xs[pre.length]? = some x := by
      rw [← hsplit, List.getElem?_append_right (Nat.le_refl _), Nat.sub_self]
      rfl
    have hsearch : binarySearch key k xs =
        if key x = k then .ok pre.length else .error pre.length := by
      show (match xs[pre.length]? with | some x => _ | none => _) = _
      rw [hget]
    by_cases hk : key x = k
    · exact Or.inl ⟨pre, x, suf, hsplit.symm, hk, by rw [hsearch, if_pos hk]⟩
    · refine Or.inr ⟨pre, x :: suf, hsplit.symm, hpre, ?_, by rw [hsearch, if_neg hk]⟩
      have hlt : k < key x := lt_of_le_of_ne hge (Ne.symm hk)
      rw [← hsplit] at h
      intro s hs
      rcases List.mem_cons.mp hs with rfl | hs
      · exact hlt
      · exact hlt.trans ((sorted_around h).2 s hs)

theorem getElem?_of_binarySearch (h : Sorted key xs) (k : κ) :
    (match binarySearch key k xs with
      | .ok pos => xs[pos]?
      | .error _ => none) = lookup key k xs := by
  rcases binarySearch_cases h k with ⟨pre, x, suf, rfl, hk, hsearch⟩ | ⟨pre, suf, rfl, hpre, hsuf, hsearch⟩
  · rw [hsearch, lookup_eq_some h (List.mem_append_right _ (List.mem_cons_self ..)) hk]
    show (pre ++ x :: suf)[pre.length]? = _
    rw [List.getElem?_append_right (Nat.le_refl _), Nat.sub_self]
    rfl
  · rw [hsearch, lookup_eq_none]
    intro y hy
    rcases List.mem_append.mp hy with hy | hy
    · exact (hpre y hy).ne
    · exact (hsuf y hy).ne'

theorem getElem?_middle (pre : List α) (x : α) (suf : List α) :
    (pre ++ x :: suf)[pre.length]? = some x := by
  rw [List.getElem?_append_right (Nat.le_refl _), Nat.sub_self]
  rfl

theorem insertIdx_middle (pre suf : List α) (x : α) :
    (pre ++ suf).insertIdx pre.length x = pre ++ x :: suf := by
  induction pre with
  | nil => rfl
  | cons p pre ih => rw [List.cons_append, List.length_cons, List.insertIdx_succ_cons, ih]; rfl

theorem set_middle (pre : List α) (x y : α) (suf : List α) :
    (pre ++ x :: suf).set pre.length y = pre ++ y :: suf := by
  rw [List.set_append_right _ _ (Nat.le_refl _), Nat.sub_self]
  rfl

theorem eraseIdx_middle (pre : List α) (x : α) (suf : List α) :
    (pre ++ x :: suf).eraseIdx pre.length = pre ++ suf := by
  rw [List.eraseIdx_append_of_length_le (Nat.le_refl _), Nat.sub_self]
  rfl

theorem lookup_replace {y : α} (h : Sorted key (pre ++ x :: suf))
    (hxy : key y = key x) (k : κ) [Decidable (k = key y)] :
    lookup key k (pre ++ y :: suf) =
      if k = key y then some y else lookup key k (pre ++ x :: suf) := by
  have hpre := (sorted_around h).1
  rw [lookup_insert suf (hxy ▸ hpre), lookup_insert suf hpre]
  by_cases hk : k = key y
  · rw [if_pos hk, if_pos hk]
  · rw [if_neg hk, if_neg hk, if_neg (hxy ▸ hk)]

theorem lookup_erase (h : Sorted key (pre ++ x :: suf)) (k : κ) [Decidable (k = key x)] :
    lookup key k (pre ++ suf) = if k = key x then none else lookup key k (pre ++ x :: suf) := by
  rcases sorted_around h with ⟨hpre, hsuf⟩
  by_cases hk : k = key x
  · rw [if_pos hk, lookup_eq_none]
    intro y hy
    rcases List.mem_append.mp hy with hy | hy
    · exact hk ▸ (hpre y hy).ne
    · exact hk ▸ (hsuf y hy).ne'
  · rw [if_neg hk, lookup_insert suf hpre, if_neg hk]

theorem sorted_replace {y : α} (h : Sorted key (pre ++ x :: suf))
    (hxy : key y = key x) : Sorted key (pre ++ y :: suf) := by
  rcases sorted_around h with ⟨hpre, hsuf⟩
  exact sorted_insert (sorted_erase h) (hxy ▸ hpre) (hxy ▸ hsuf)

/-- Everything in front of the head of the second part is smaller than it, so the head tells which
part binds a key. -/
theorem lookup_cut {l r : List α} (h : Sorted key (l ++ x :: r)) (k : κ) [Decidable (k < key x)] :
    lookup key k (l ++ x :: r) =
      if k < key x then lookup key k l else lookup key k (x :: r) := by
  rcases sorted_around h with ⟨hl, hr⟩
  by_cases hk : k < key x
  · have hnone : lookup key k (x :: r) = none := by
      apply lookup_eq_none
      intro y hy
      rcases List.mem_cons.mp hy with rfl | hy
      · exact hk.ne'
      · exact (hk.trans (hr y hy)).ne'
    rw [if_pos hk, lookup_append, hnone, Option.or_none]
  · have hnone : lookup key k l = none :=
      lookup_eq_none fun y hy => ((hl y hy).trans_le (not_lt.mp hk)).ne
    rw [if_neg hk, lookup_append, hnone, Option.none_or]

/-- Lists in the order of their keys, with equal keys allowed. -/
def Ascending (key : α → κ) (xs : List α) : Prop := xs.Pairwise fun a b => key a ≤ key b

/-- Between these lists a head with key `k` is the first of the smallest heads. -/
structure Leads (key : α → κ) (before : List (List α)) (k : κ) (after : List (List α)) : Prop where
  above : ∀ xs ∈ before, ∀ y ∈ xs.head?, k < key y
  least : ∀ xs ∈ after, ∀ y ∈ xs.head?, k ≤ key y

/-- The lists read to their ends, each time from the first of those with the smallest head. -/
inductive Merges (key : α → κ) : List (List α) → List α → Prop
  | done {lists : List (List α)} (empty : ∀ xs ∈ lists, xs = []) : Merges key lists []
  | take {before after : List (List α)} {xs out : List α} {x : α} (leads : Leads key before (key x) after)
      (rest : Merges key (before ++ xs :: after) out) : Merges key (before ++ (x :: xs) :: after) (x :: out)

variable {lists before after : List (List α)} {out : List α} {k : κ}

theorem Ascending.le_of_head (h : Ascending key xs) (hhead : ∀ y ∈ xs.head?, k ≤ key y) : ∀ y ∈ xs, k ≤ key y := by
  cases xs with
  | nil => exact nofun
  | cons x xs =>
    have hx : k ≤ key x := hhead x rfl
    intro y hy
    rcases List.mem_cons.mp hy with rfl | hy
    · exact hx
    · exact hx.trans (List.rel_of_pairwise_cons h hy)

theorem Ascending.lt_of_head (h : Ascending key xs) (hhead : ∀ y ∈ xs.head?, k < key y) : ∀ y ∈ xs, k < key y := by
  cases xs with
  | nil => exact nofun
  | cons x xs =>
    have hx : k < key x := hhead x rfl
    intro y hy
    exact hx.trans_le (h.le_of_head (fun z hz => by cases hz; exact le_rfl) y hy)

theorem ascending_tail (h : ∀ xs ∈ before ++ (x :: pre) :: after, Ascending key xs) :
    ∀ xs ∈ before ++ pre :: after, Ascending key xs := by
  intro xs hxs
  rcases List.mem_append.mp hxs with hxs | hxs
  · exact h xs (List.mem_append_left _ hxs)
  · rcases List.mem_cons.mp hxs with rfl | hxs
    · exact (List.pairwise_cons.mp (h (x :: xs) (List.mem_append_right _ (List.mem_cons_self ..)))).2
    · exact h xs (List.mem_append_right _ (List.mem_cons_of_mem _ hxs))

theorem Merges.perm (h : Merges key lists out) : out.Perm lists.flatten := by
  induction h with
  | done empty => rw [List.flatten_eq_nil_iff.mpr empty]
  | @take before after xs out x leads rest ih =>
    simp only [List.flatten_append, List.flatten_cons, List.cons_append] at ih ⊢
    exact (ih.cons x).trans List.perm_middle.symm

theorem Merges.ascending (h : Merges key lists out) (hlists : ∀ xs ∈ lists, Ascending key xs) :
    Ascending key out := by
  induction h with
  | done empty => exact List.Pairwise.nil
  | @take before after xs out x leads rest ih =>
    refine List.pairwise_cons.mpr ⟨?_, ih (ascending_tail hlists)⟩
    intro y hy
    -- what is left comes from the lists, whose heads are not below the one taken
    rcases List.mem_flatten.mp (rest.perm.mem_iff.mp hy) with ⟨ys, hys, hy⟩
    rcases List.mem_append.mp hys with hys | hys
    · exact ((hlists ys (List.mem_append_left _ hys)).lt_of_head (leads.above ys hys) y hy).le
    · rcases List.mem_cons.mp hys with rfl | hys
      · have hlist := hlists (x :: ys) (List.mem_append_right _ (List.mem_cons_self ..))
        exact List.rel_of_pairwise_cons hlist hy
      · have hlist := hlists ys (List.mem_append_right _ (List.mem_cons_of_mem _ hys))
        exact hlist.le_of_head (leads.least ys hys) y hy

theorem Merges.filter_key (h : Merges key lists out) (hlists : ∀ xs ∈ lists, Ascending key xs) (k : κ)
    [DecidablePred fun y => key y = k] :
    out.filter (fun y => key y = k) = lists.flatten.filter fun y => key y = k := by
  induction h with
  | done empty => rw [List.flatten_eq_nil_iff.mpr empty]
  | @take before after xs out x leads rest ih =>
    have ih := ih (ascending_tail hlists)
    simp only [List.flatten_append, List.flatten_cons, List.filter_append] at ih ⊢
    by_cases hx : key x = k
    · have hnone : before.flatten.filter (fun y => key y = k) = [] := by
        apply List.filter_eq_nil_iff.mpr
        intro y hy
        rcases List.mem_flatten.mp hy with ⟨ys, hys, hy⟩
        have hlt := (hlists ys (List.mem_append_left _ hys)).lt_of_head (leads.above ys hys) y hy
        simpa [hx] using hlt.ne'
      rw [hnone, List.nil_append] at ih ⊢
      rw [List.filter_cons_of_pos (by simpa using hx), List.filter_cons_of_pos (by simpa using hx), ih,
        List.cons_append]
    · rw [List.filter_cons_of_neg (by simpa using hx), List.filter_cons_of_neg (by simpa using hx), ih]

theorem merges_singleton (xs : List α) : Merges key [xs] xs := by
  induction xs with
  | nil => exact .done fun xs hxs => List.mem_singleton.mp hxs
  | cons x xs ih => exact @Merges.take _ _ _ key [] [] xs xs x ⟨nofun, nofun⟩ ih

end SortedEntries
