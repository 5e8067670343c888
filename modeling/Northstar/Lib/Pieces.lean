import Mathlib.Data.List.Forall2
import Mathlib.Order.Lattice
import Mathlib.Algebra.GroupWithZero.Nat
import Mathlib.Algebra.BigOperators.Group.List.Basic
import Mathlib.Data.List.Basic

/-!
# Chunks — a list cut into pieces of one length

`slice::chunks`: every piece has the length, and the last one may be shorter.
-/

namespace Northstar.Chunks

variable {α : Type*} {n : Nat} {l : List α}

/-- The pieces, as many as the fuel allows. -/
def chunksFrom (n : Nat) : Nat → List α → List (List α)
  | 0, _ => []
  | fuel + 1, l => if l.isEmpty then [] else l.take n :: chunksFrom n fuel (l.drop n)

def chunks (n : Nat) (l : List α) : List (List α) := chunksFrom n l.length l

theorem chunksFrom_eq (hn : 0 < n) {fuel : Nat} (hfuel : l.length ≤ fuel) : chunksFrom n fuel l = chunks n l := by
  induction fuel using Nat.strongRecOn generalizing l with
  | ind fuel ih =>
    cases l with
    | nil => cases fuel <;> rfl
    | cons a l =>
      cases fuel with
      | zero => cases hfuel
      | succ fuel =>
        have hdrop : ((a :: l).drop n).length ≤ l.length := by
          rw [List.length_drop, List.length_cons]
          omega
        have hlength : l.length ≤ fuel := Nat.le_of_succ_le_succ hfuel
        unfold chunks
        rw [List.length_cons]
        show _ :: chunksFrom n fuel _ = _ :: chunksFrom n l.length _
        -- both are the pieces of what is left
        rw [ih fuel (Nat.lt_succ_self _) (Nat.le_trans hdrop hlength)]
        by_cases heq : l.length = fuel
        · rw [heq, ih fuel (Nat.lt_succ_self _) (Nat.le_trans hdrop hlength)]
        · rw [ih l.length (by omega) hdrop]

theorem chunks_append {a : List α} (hn : 0 < n) (ha : a.length = n) (l : List α) :
    chunks n (a ++ l) = a :: chunks n l := by
  cases a with
  | nil =>
    rw [← ha] at hn
    exact absurd hn (Nat.lt_irrefl 0)
  | cons x a =>
    show ((x :: a) ++ l).take n :: chunksFrom n (a ++ l).length (((x :: a) ++ l).drop n) = _
    rw [List.take_left' ha, List.drop_left' ha, chunksFrom_eq hn]
    rw [List.length_append]
    exact Nat.le_add_left ..

theorem chunks_of_length_le (hl : l ≠ []) (h : l.length ≤ n) : chunks n l = [l] := by
  cases l with
  | nil => exact absurd rfl hl
  | cons x l =>
    show (x :: l).take n :: chunksFrom n l.length ((x :: l).drop n) = _
    rw [List.take_of_length_le h, List.drop_eq_nil_of_le h]
    cases l <;> rfl

theorem chunks_induction {motive : List α → Prop} (n : Nat) (hn : 0 < n) (nil : motive [])
    (last : ∀ l, l ≠ [] → l.length < n → motive l)
    (piece : ∀ a l, a.length = n → motive l → motive (a ++ l)) (l : List α) : motive l := by
  induction hlength : l.length using Nat.strongRecOn generalizing l with
  | ind k ih =>
    by_cases hnil : l = []
    · rw [hnil]
      exact nil
    · by_cases hshort : l.length < n
      · exact last l hnil hshort
      · rw [← List.take_append_drop n l]
        apply piece
        · rw [List.length_take]
          omega
        · apply ih (l.drop n).length _ _ rfl
          rw [List.length_drop]
          omega

/-- Pieces as a cut makes them: full ones, and at the end one that is not empty. -/
inductive Cut (n : Nat) : List (List α) → Prop
  | nil : Cut n []
  | last {piece : List α} : piece ≠ [] → piece.length ≤ n → Cut n [piece]
  | full {piece : List α} {pieces : List (List α)} : piece.length = n → Cut n pieces → Cut n (piece :: pieces)

theorem cut_chunks (hn : 0 < n) (l : List α) : Cut n (chunks n l) := by
  induction l using chunks_induction n hn with
  | nil => exact .nil
  | last l hne hlt =>
    rw [chunks_of_length_le hne (Nat.le_of_lt hlt)]
    exact .last hne (Nat.le_of_lt hlt)
  | piece a l ha ih =>
    rw [chunks_append hn ha]
    exact .full ha ih

variable {pieces : List (List α)}

theorem Cut.chunks_flatten (hn : 0 < n) (h : Cut n pieces) : chunks n pieces.flatten = pieces := by
  induction h with
  | nil => rfl
  | last hne hle =>
    rw [List.flatten_singleton]
    exact chunks_of_length_le hne hle
  | full hlength _ ih => rw [List.flatten_cons, chunks_append hn hlength, ih]

theorem flatten_chunks (hn : 0 < n) (l : List α) : (chunks n l).flatten = l := by
  induction l using chunks_induction n hn with
  | nil => rfl
  | last l hne hlt => rw [chunks_of_length_le hne (Nat.le_of_lt hlt), List.flatten_singleton]
  | piece a l ha ih => rw [chunks_append hn ha, List.flatten_cons, ih]

theorem length_le_of_mem_chunks (hn : 0 < n) {piece : List α} (h : piece ∈ chunks n l) : piece.length ≤ n := by
  induction l using chunks_induction n hn with
  | nil => cases h
  | last l hne hlt =>
    rw [chunks_of_length_le hne (Nat.le_of_lt hlt), List.mem_singleton] at h
    rw [h]
    exact Nat.le_of_lt hlt
  | piece a l ha ih =>
    rw [chunks_append hn ha] at h
    rcases List.mem_cons.mp h with rfl | h
    · exact Nat.le_of_eq ha
    · exact ih h

theorem Cut.grow {β : Type*} {t : Nat} {grown : List (List β)} (h : Cut n pieces)
    (hgrown : List.Forall₂ (fun piece piece' => piece'.length = piece.length + t) pieces grown) :
    Cut (n + t) grown := by
  induction h generalizing grown with
  | nil =>
    cases hgrown
    exact .nil
  | last hne hle =>
    rcases hgrown with _ | ⟨hlength, _ | _⟩
    apply Cut.last
    · rintro rfl
      rw [List.length_nil] at hlength
      have hpos := List.length_pos_iff.mpr hne
      omega
    · omega
  | full hlength _ ih =>
    rcases hgrown with _ | ⟨hlength', hrest⟩
    exact .full (by omega) (ih hrest)

theorem length_flatten_of_grown {β : Type*} {t : Nat} {grown : List (List β)}
    (hgrown : List.Forall₂ (fun piece piece' => piece'.length = piece.length + t) pieces grown) :
    grown.flatten.length = pieces.flatten.length + pieces.length * t := by
  induction hgrown with
  | nil => rw [List.length_nil, Nat.zero_mul]; rfl
  | cons hlength _ ih =>
    rw [List.flatten_cons, List.flatten_cons, List.length_append, List.length_append, hlength, ih, List.length_cons,
      Nat.succ_mul]
    omega

end Northstar.Chunks

/-!
# Intervals — intervals one behind the other, and groups with bounds
-/

/-! ## Intervals one behind the other

Items with a start and a stop tile the stretch from `lo` to `hi` when each begins where the one before it ends
and none is empty.  Every place of the stretch then lies in one of them only.
-/

namespace Northstar.Tiling

variable {α β ι : Type*} [LinearOrder α] (start stop : ι → α)

def Contains (t : α) (x : ι) : Prop := start x ≤ t ∧ t < stop x

instance (t : α) : DecidablePred (Contains start stop t) := fun _ => inferInstanceAs (Decidable (_ ∧ _))

def Tiles : α → List ι → α → Prop
  | lo, [], hi => lo = hi
  | lo, x :: xs, hi => start x = lo ∧ start x < stop x ∧ Tiles (stop x) xs hi

variable {start stop} {lo hi t : α} {x : ι} {xs : List ι}

theorem Tiles.le (h : Tiles start stop lo xs hi) : lo ≤ hi := by
  induction xs generalizing lo with
  | nil => exact le_of_eq h
  | cons x xs ih =>
    rcases h with ⟨hstart, hlt, hrest⟩
    exact hstart ▸ le_trans (le_of_lt hlt) (ih hrest)

theorem Tiles.bounds (h : Tiles start stop lo xs hi) (hx : x ∈ xs) : lo ≤ start x ∧ stop x ≤ hi := by
  induction xs generalizing lo with
  | nil => exact absurd hx List.not_mem_nil
  | cons y xs ih =>
    rcases h with ⟨hstart, hlt, hrest⟩
    rcases List.mem_cons.mp hx with rfl | hx
    · exact ⟨le_of_eq hstart.symm, hrest.le⟩
    · have hlater := ih hrest hx
      exact ⟨le_trans (hstart ▸ le_of_lt hlt) hlater.1, hlater.2⟩

theorem Tiles.pairwise (h : Tiles start stop lo xs hi) : xs.Pairwise fun x y => stop x ≤ start y := by
  induction xs generalizing lo with
  | nil => exact .nil
  | cons x xs ih => exact .cons (fun y hy => (h.2.2.bounds hy).1) (ih h.2.2)

theorem Tiles.countP_eq_zero (h : Tiles start stop lo xs hi) (hout : t < lo ∨ hi ≤ t) :
    xs.countP (Contains start stop t) = 0 := by
  apply List.countP_eq_zero.mpr
  intro x hx
  have hbounds := h.bounds hx
  rw [decide_eq_true_eq]
  rintro ⟨hle, hlt⟩
  rcases hout with hbefore | hbehind
  · exact absurd (lt_of_lt_of_le hbefore (le_trans hbounds.1 hle)) (lt_irrefl t)
  · exact absurd (lt_of_lt_of_le hlt (le_trans hbounds.2 hbehind)) (lt_irrefl t)

theorem Tiles.countP_eq_one (h : Tiles start stop lo xs hi) (hlo : lo ≤ t) (hhi : t < hi) :
    xs.countP (Contains start stop t) = 1 := by
  induction xs generalizing lo with
  | nil =>
    have heq : lo = hi := h
    exact absurd (lt_of_le_of_lt hlo hhi) (heq ▸ lt_irrefl lo)
  | cons x xs ih =>
    rcases h with ⟨hstart, hlt, hrest⟩
    rw [List.countP_cons]
    by_cases hin : t < stop x
    · rw [hrest.countP_eq_zero (.inl hin), if_pos (decide_eq_true ⟨hstart ▸ hlo, hin⟩)]
    · rw [ih hrest (le_of_not_gt hin), if_neg (fun hx => hin (of_decide_eq_true hx).2)]

theorem sum_countP (p : ι → β → Bool) (xs : List ι) (ts : List β) :
    (xs.map fun x => ts.countP (p x)).sum = (ts.map fun t => xs.countP fun x => p x t).sum := by
  induction xs with
  | nil => simp
  | cons x xs ih =>
    rw [List.map_cons, List.sum_cons, ih]
    clear ih
    induction ts with
    | nil => rfl
    | cons t ts ih =>
      rw [List.map_cons, List.map_cons, List.sum_cons, List.sum_cons, ← ih, List.countP_cons, List.countP_cons]
      omega

end Northstar.Tiling

/-! ## Groups of items with bounds, and groups that are skipped

Every zone says between what bounds the keys of its items lie.  A search that skips the zones whose bounds are
off the range finds what a search through all of the items does.
-/

namespace Northstar.Zones

variable {α β ζ : Type*} [LinearOrder α] (key : β → α) (lo hi : ζ → α) (items : ζ → List β)

def Bounds (z : ζ) : Prop := ∀ x ∈ items z, lo z ≤ key x ∧ key x ≤ hi z

/-- What a search for the keys from `first` to `last` takes out of a zone. -/
def select (first last : α) (z : ζ) : List β :=
  if hi z < first ∨ last < lo z then [] else (items z).filter fun x => first ≤ key x ∧ key x ≤ last

variable {key lo hi items} {first last : α} {z : ζ} {zs : List ζ}

theorem select_eq_filter (h : Bounds key lo hi items z) :
    select key lo hi items first last z = (items z).filter fun x => first ≤ key x ∧ key x ≤ last := by
  unfold select
  by_cases hskip : hi z < first ∨ last < lo z
  · rw [if_pos hskip, eq_comm, List.filter_eq_nil_iff]
    intro x hx
    have hbounds := h x hx
    rw [decide_eq_true_eq]
    rintro ⟨hfirst, hlast⟩
    rcases hskip with hbefore | hbehind
    · exact absurd (lt_of_lt_of_le hbefore (le_trans hfirst hbounds.2)) (lt_irrefl _)
    · exact absurd (lt_of_lt_of_le hbehind (le_trans hbounds.1 hlast)) (lt_irrefl _)
  · rw [if_neg hskip]

theorem flatMap_select (h : ∀ z ∈ zs, Bounds key lo hi items z) :
    zs.flatMap (select key lo hi items first last)
      = (zs.flatMap items).filter fun x => first ≤ key x ∧ key x ≤ last := by
  induction zs with
  | nil => rfl
  | cons z zs ih =>
    rw [List.flatMap_cons, List.flatMap_cons, List.filter_append, select_eq_filter (h z (List.mem_cons_self ..)),
      ih fun z' hz' => h z' (List.mem_cons_of_mem _ hz')]

end Northstar.Zones

/-!
# Period — a list that is read across its own copy

Behind `p` stands a copy of `s`.  Read from the start of `p`, it is `s` again, with `t` behind, exactly if both
repeat `p` over and over.
-/

namespace Period

open List

variable {α : Type*} {p s t : List α}

/-- Every element is the one of `p` at the same place of its turn. -/
def Repeats (p xs : List α) : Prop := ∀ i < xs.length, xs[i]? = p[i % p.length]?

theorem repeats_of_take (hp : p ≠ []) (ht : t.length ≤ p.length) (h : (p ++ s).take (s.length + t.length) = s ++ t) :
    Repeats p (s ++ t) := by
  intro i
  induction i using Nat.strongRecOn with
  | ind i ih =>
    intro hi
    rw [length_append] at hi
    by_cases hfront : i < p.length
    · rw [← h, getElem?_take_of_lt hi, getElem?_append_left hfront, Nat.mod_eq_of_lt hfront]
    · have hback : p.length ≤ i := Nat.not_lt.mp hfront
      have hinside : i - p.length < s.length := by omega
      have hpos : 0 < p.length := length_pos_of_ne_nil hp
      have hprev := ih (i - p.length) (by omega) (by rw [length_append]; omega)
      rw [← h, getElem?_take_of_lt hi, getElem?_append_right hback, ← getElem?_append_left hinside, hprev,
        ← Nat.mod_eq_sub_mod hback]

theorem take_of_repeats (ht : t.length ≤ p.length) (h : Repeats p (s ++ t)) :
    (p ++ s).take (s.length + t.length) = s ++ t := by
  apply ext_getElem?
  intro i
  by_cases hi : i < s.length + t.length
  · have hi' : i < (s ++ t).length := by
      rw [length_append]
      exact hi
    rw [getElem?_take_of_lt hi, h i hi']
    by_cases hfront : i < p.length
    · rw [getElem?_append_left hfront, Nat.mod_eq_of_lt hfront]
    · have hback : p.length ≤ i := Nat.not_lt.mp hfront
      have hinside : i - p.length < s.length := by omega
      have hprev := h (i - p.length) (by rw [length_append]; omega)
      rw [getElem?_append_right hback, ← getElem?_append_left hinside, hprev, ← Nat.mod_eq_sub_mod hback]
  · rw [getElem?_eq_none, getElem?_eq_none]
    · rw [length_append]
      exact Nat.not_lt.mp hi
    · rw [length_take]
      omega

end Period
