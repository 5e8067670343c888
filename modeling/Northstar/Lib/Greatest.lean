import Mathlib.Order.Lattice
import Mathlib.Data.List.Induction
import Mathlib.Data.Finset.Card
import Mathlib.Data.Finset.Max
import Mathlib.Order.Nat
import Mathlib.Data.List.Nodup

/-!
# Latest — the first of the greatest items of a list

A search that goes through a list and takes an item where it is greater than the one it holds ends with the first
of the greatest.
-/

namespace Northstar.Latest

variable {α β : Type*} [LinearOrder α] (time : β → α)

def next (best : Option β) (x : β) : Option β :=
  match best with
  | none => some x
  | some b => if time b < time x then some x else some b

/-- What the search holds behind a list, if it held `best` in front of it. -/
def later (best : Option β) (l : List β) : Option β := l.foldl (next time) best

def latest? (l : List β) : Option β := later time none l

/-- All items before it are less, and none behind it is greater. -/
def IsLatest (l : List β) (x : β) : Prop :=
  ∃ before after, l = before ++ x :: after ∧ (∀ y ∈ before, time y < time x) ∧ ∀ y ∈ after, time y ≤ time x

variable {time} {l : List β} {x y : β}

theorem later_append (best : Option β) (l r : List β) : later time best (l ++ r) = later time (later time best l) r :=
  List.foldl_append ..

theorem isLatest_singleton (x : β) : IsLatest time [x] x :=
  ⟨[], [], rfl, fun _ hy => absurd hy List.not_mem_nil, fun _ hy => absurd hy List.not_mem_nil⟩

theorem IsLatest.mem (h : IsLatest time l x) : x ∈ l := by
  rcases h with ⟨before, after, rfl, -, -⟩
  exact List.mem_append_right before (List.mem_cons_self ..)

theorem IsLatest.le (h : IsLatest time l x) (hy : y ∈ l) : time y ≤ time x := by
  rcases h with ⟨before, after, rfl, hbefore, hafter⟩
  rcases List.mem_append.mp hy with hy | hy
  · exact le_of_lt (hbefore y hy)
  · rcases List.mem_cons.mp hy with rfl | hy
    · exact le_refl _
    · exact hafter y hy

theorem IsLatest.append_singleton (h : IsLatest time l x) (y : β) :
    IsLatest time (l ++ [y]) (if time x < time y then y else x) := by
  by_cases hlt : time x < time y
  · rw [if_pos hlt]
    refine ⟨l, [], rfl, ?_, fun _ hz => absurd hz List.not_mem_nil⟩
    intro z hz
    exact lt_of_le_of_lt (h.le hz) hlt
  · rw [if_neg hlt]
    rcases h with ⟨before, after, rfl, hbefore, hafter⟩
    refine ⟨before, after ++ [y], by rw [List.append_assoc, List.cons_append], hbefore, ?_⟩
    intro z hz
    rcases List.mem_append.mp hz with hz | hz
    · exact hafter z hz
    · rw [List.mem_singleton.mp hz]
      exact not_lt.mp hlt

theorem latest?_spec (time : β → α) (l : List β) :
    (l = [] ∧ latest? time l = none) ∨ ∃ x, latest? time l = some x ∧ IsLatest time l x := by
  induction l using List.reverseRecOn with
  | nil => exact .inl ⟨rfl, rfl⟩
  | append_singleton l y ih =>
    right
    have hnext : latest? time (l ++ [y]) = next time (latest? time l) y := later_append none l [y]
    rw [hnext]
    rcases ih with ⟨rfl, hnone⟩ | ⟨x, hx, hlatest⟩
    · rw [hnone]
      exact ⟨y, rfl, isLatest_singleton y⟩
    · rw [hx]
      refine ⟨_, ?_, hlatest.append_singleton y⟩
      unfold next
      dsimp only
      split
      · rfl
      · rfl

/-- Of two, neither stands before the other. -/
theorem IsLatest.unique (hx : IsLatest time l x) (hy : IsLatest time l y) : x = y := by
  have htimes : time x = time y := le_antisymm (hy.le hx.mem) (hx.le hy.mem)
  rcases hx with ⟨before, after, rfl, hbefore, -⟩
  rcases hy with ⟨before', after', hsplit, hbefore', -⟩
  rcases List.append_eq_append_iff.mp hsplit with ⟨middle, hlong, htail⟩ | ⟨middle, hlong, htail⟩
  · cases middle with
    | nil => exact (List.cons.inj htail).1
    | cons z middle =>
      -- the first one stands in front of the second
      have hz : x = z := (List.cons.inj htail).1
      have hlt := hbefore' x (by rw [hlong, hz]; exact List.mem_append_right _ (List.mem_cons_self ..))
      rw [htimes] at hlt
      exact absurd hlt (lt_irrefl _)
  · cases middle with
    | nil => exact (List.cons.inj htail).1.symm
    | cons z middle =>
      have hz : y = z := (List.cons.inj htail).1
      have hlt := hbefore y (by rw [hlong, hz]; exact List.mem_append_right _ (List.mem_cons_self ..))
      rw [htimes] at hlt
      exact absurd hlt (lt_irrefl _)

theorem latest?_eq_some_iff : latest? time l = some x ↔ IsLatest time l x := by
  rcases latest?_spec time l with ⟨rfl, hnone⟩ | ⟨y, hy, hlatest⟩
  · rw [hnone]
    exact iff_of_false nofun fun h => absurd h.mem List.not_mem_nil
  · rw [hy, Option.some.injEq]
    exact ⟨fun h => h ▸ hlatest, fun h => hlatest.unique h⟩

theorem latest?_eq_none_iff : latest? time l = none ↔ l = [] := by
  rcases latest?_spec time l with ⟨rfl, hnone⟩ | ⟨y, hy, hlatest⟩
  · exact iff_of_true hnone rfl
  · rw [hy]
    exact iff_of_false nofun fun h => absurd (h ▸ hlatest.mem) List.not_mem_nil

end Northstar.Latest

/-!
# Highest — the largest elements of a finite set

The `n` largest elements are those with fewer than `n` elements above them.  A set that grows at its upper end
only keeps its largest elements when a new one is added and, if there are too many, the smallest is dropped.
-/

namespace Northstar.Highest

open Finset

variable {α : Type*} [LinearOrder α] {n : Nat} {s : Finset α} {a x : α}

def highest (n : Nat) (s : Finset α) : Finset α := s.filter fun a => #{b ∈ s | a < b} < n

theorem mem_highest : a ∈ highest n s ↔ a ∈ s ∧ #{b ∈ s | a < b} < n := mem_filter

/-- What lies above one of the largest elements is among them. -/
theorem filter_highest (h : a ∈ highest n s) : {b ∈ highest n s | a < b} = {b ∈ s | a < b} := by
  ext b
  rw [mem_filter, mem_filter, mem_highest]
  constructor
  · exact fun hb => ⟨hb.1.1, hb.2⟩
  · intro hb
    have hsub : {c ∈ s | b < c} ⊆ {c ∈ s | a < c} := by
      intro c hc
      rw [mem_filter] at hc ⊢
      exact ⟨hc.1, hb.2.trans hc.2⟩
    have hle := card_le_card hsub
    have hlt := (mem_highest.mp h).2
    exact ⟨⟨hb.1, by omega⟩, hb.2⟩

theorem card_above_lt (h : a ∈ highest n s) : #{b ∈ highest n s | a < b} < #(highest n s) := by
  apply card_lt_card
  rw [filter_ssubset]
  exact ⟨a, h, lt_irrefl a⟩

theorem highest_mono {m : Nat} (hle : m ≤ n) : highest m s ⊆ highest n s := by
  intro b hb
  rw [mem_highest] at hb ⊢
  exact ⟨hb.1, hb.2.trans_le hle⟩

/-- A set with no more than `n` of its `n + 1` largest elements is no larger than that. -/
theorem highest_of_card_le (h : #(highest (n + 1) s) ≤ n) : highest n s = highest (n + 1) s := by
  apply Subset.antisymm (highest_mono (Nat.le_add_right n 1))
  intro b hb
  have habove := card_above_lt hb
  rw [filter_highest hb] at habove
  exact mem_highest.mpr ⟨(mem_highest.mp hb).1, by omega⟩

theorem filter_above_min {y : α} (hmin : ∀ b ∈ s, y ≤ b) : {b ∈ s | y < b} = s.erase y := by
  ext b
  rw [mem_filter, mem_erase]
  constructor
  · exact fun hb => ⟨hb.2.ne', hb.1⟩
  · exact fun hb => ⟨hb.2, lt_of_le_of_ne (hmin b hb.2) (Ne.symm hb.1)⟩

/-- Without the smallest of the `n + 1` largest elements, the `n` largest are left. -/
theorem highest_erase {y : α} (hcard : #(highest (n + 1) s) = n + 1) (hy : y ∈ highest (n + 1) s)
    (hmin : ∀ b ∈ highest (n + 1) s, y ≤ b) : highest n s = (highest (n + 1) s).erase y := by
  have hcount : #{b ∈ s | y < b} = n := by
    rw [← filter_highest hy, filter_above_min hmin, card_erase_of_mem hy, hcard]
    exact Nat.add_sub_cancel n 1
  ext b
  rw [mem_erase]
  constructor
  · intro hb
    refine ⟨?_, highest_mono (Nat.le_add_right n 1) hb⟩
    rintro rfl
    have hlt := (mem_highest.mp hb).2
    omega
  · intro hb
    have hlt : y < b := lt_of_le_of_ne (hmin b hb.2) (Ne.symm hb.1)
    -- neither the smallest element nor `b` itself lies above `b`
    have hsub : insert y {c ∈ highest (n + 1) s | b < c} ⊆ (highest (n + 1) s).erase b := by
      intro c hc
      rw [mem_insert, mem_filter] at hc
      rw [mem_erase]
      rcases hc with rfl | hc
      · exact ⟨hlt.ne, hy⟩
      · exact ⟨hc.2.ne', hc.1⟩
    have hnot : y ∉ ({c ∈ highest (n + 1) s | b < c} : Finset α) := by
      rw [mem_filter]
      exact fun hc => lt_asymm hlt hc.2
    have hle := card_le_card hsub
    rw [card_insert_of_notMem hnot, card_erase_of_mem hb.2, filter_highest hb.2] at hle
    exact mem_highest.mpr ⟨(mem_highest.mp hb.2).1, by omega⟩

theorem card_highest_le : #(highest n s) ≤ n := by
  by_cases hempty : (highest n s).Nonempty
  · have hmin := min'_mem _ hempty
    have hlt := (mem_highest.mp hmin).2
    rw [← filter_highest hmin, filter_above_min (min'_le _), card_erase_of_mem hmin] at hlt
    omega
  · rw [not_nonempty_iff_eq_empty.mp hempty, card_empty]
    exact Nat.zero_le n

/-- An element above all others. -/
theorem highest_insert (hmax : ∀ b ∈ s, b < x) : highest (n + 1) (insert x s) = insert x (highest n s) := by
  ext b
  rw [mem_insert, mem_highest, mem_highest, mem_insert, filter_insert]
  constructor
  · rintro ⟨rfl | hb, hcount⟩
    · exact .inl rfl
    · rw [if_pos (hmax b hb), card_insert_of_notMem fun hx => lt_irrefl x (hmax x (mem_filter.mp hx).1)] at hcount
      exact .inr ⟨hb, by omega⟩
  · rintro (rfl | hb)
    · have hnone : {c ∈ s | b < c} = ∅ := filter_eq_empty_iff.mpr fun c hc => (hmax c hc).not_gt
      rw [if_neg (lt_irrefl b), hnone, card_empty]
      exact ⟨.inl rfl, n.succ_pos⟩
    · rw [if_pos (hmax b hb.1), card_insert_of_notMem fun hx => lt_irrefl x (hmax x (mem_filter.mp hx).1)]
      exact ⟨.inr hb.1, by omega⟩

/-- There are `n` of them, as far as the set goes. -/
theorem card_highest (n : Nat) (s : Finset α) : #(highest n s) = min n #s := by
  induction s using Finset.induction_on_max generalizing n with
  | empty =>
    rw [card_empty, Nat.min_zero]
    exact card_eq_zero.mpr (filter_empty _)
  | insert x s hmax ih =>
    have hnew : x ∉ s := fun hx => lt_irrefl x (hmax x hx)
    rw [card_insert_of_notMem hnew]
    cases n with
    | zero => exact Nat.le_zero.mp card_highest_le |>.trans (Nat.zero_min _).symm
    | succ n =>
      rw [highest_insert hmax, card_insert_of_notMem fun hx => hnew (mem_highest.mp hx).1, ih]
      omega

end Northstar.Highest

/-!
# Recency — a queue of keys in the order of their last use

The key that was not used for longest is in front.  A use gives its key a time after all earlier ones and moves
it to the end.
-/

namespace Northstar.Recency

variable {κ τ : Type*} [Preorder τ] {queue : List κ} {lastUse : κ → τ} {key other : κ} {now : τ}

def InOrder (lastUse : κ → τ) (queue : List κ) : Prop := queue.Pairwise fun a b => lastUse a < lastUse b

theorem inOrder_nil : InOrder lastUse [] := List.Pairwise.nil

theorem InOrder.nodup (h : InOrder lastUse queue) : queue.Nodup := by
  apply List.Pairwise.imp _ h
  intro a b hlt heq
  rw [heq] at hlt
  exact lt_irrefl _ hlt

theorem InOrder.tail (h : InOrder lastUse (key :: queue)) : InOrder lastUse queue := List.Pairwise.of_cons h

/-- The key in front was used before all others. -/
theorem InOrder.head_lt (h : InOrder lastUse (key :: queue)) : ∀ other ∈ queue, lastUse key < lastUse other :=
  fun _ hother => List.rel_of_pairwise_cons h hother

variable [DecidableEq κ]

/-- The queue after a use of the key. -/
def touch (queue : List κ) (key : κ) : List κ := queue.erase key ++ [key]

theorem mem_touch : other ∈ touch queue key ↔ other = key ∨ other ∈ queue := by
  unfold touch
  rw [List.mem_append, List.mem_singleton]
  by_cases heq : other = key
  · exact iff_of_true (.inr heq) (.inl heq)
  · rw [List.mem_erase_of_ne heq, or_comm]

theorem touch_of_notMem (h : key ∉ queue) : touch queue key = queue ++ [key] := by
  unfold touch
  rw [List.erase_of_not_mem h]

theorem InOrder.touch (h : InOrder lastUse queue) (hnow : ∀ other ∈ queue, lastUse other < now) :
    InOrder (Function.update lastUse key now) (touch queue key) := by
  -- the other keys keep their times
  have hkeep : ∀ other ∈ queue.erase key, Function.update lastUse key now other = lastUse other := by
    intro other hother
    exact Function.update_of_ne (h.nodup.mem_erase_iff.mp hother).1 _ _
  apply List.pairwise_append.mpr
  refine ⟨?_, List.pairwise_singleton _ _, ?_⟩
  · apply List.Pairwise.imp_of_mem _ (List.Pairwise.sublist List.erase_sublist h)
    intro a b ha hb hlt
    rw [hkeep a ha, hkeep b hb]
    exact hlt
  · intro other hother last hlast
    rw [List.mem_singleton.mp hlast, Function.update_self, hkeep other hother]
    exact hnow other (List.mem_of_mem_erase hother)

end Northstar.Recency
