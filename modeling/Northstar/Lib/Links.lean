import Mathlib.Data.List.Induction
import Mathlib.Data.List.Nodup
import Mathlib.Logic.Function.Basic
import Mathlib.Data.Option.Basic
import Mathlib.Data.List.Chain

/-!
# Links — lists of nodes that name their neighbours

Doubly linked lists, and records that each name the one before.
-/

/-! ## Nodes that name both neighbours

A doubly linked list is a head, a tail and two maps from nodes to nodes.  It represents a list without
repetition when `next` runs through it from the head and `prev` through its reverse from the tail, so that
what holds of one direction is used for both.
-/

namespace Northstar.LinkedList

variable {ν : Type*}

/-- From each node to the one behind it, and from the last to `last`. -/
def Chain (f : ν → Option ν) (last : Option ν) : List ν → Prop
  | [] => True
  | x :: xs => f x = xs.head?.or last ∧ Chain f last xs

section Chain

variable {f g : ν → Option ν} {last : Option ν} {xs ys : List ν} {x : ν}

theorem chain_append :
    Chain f last (xs ++ ys) ↔ Chain f (ys.head?.or last) xs ∧ Chain f last ys := by
  induction xs with
  | nil => exact (and_iff_right trivial).symm
  | cons x xs ih =>
    show (f x = (xs ++ ys).head?.or last ∧ Chain f last (xs ++ ys)) ↔
      (f x = xs.head?.or (ys.head?.or last) ∧ Chain f (ys.head?.or last) xs) ∧ Chain f last ys
    rw [ih, List.head?_append, Option.or_assoc, and_assoc]

theorem chain_concat : Chain f last (xs ++ [x]) ↔ Chain f (some x) xs ∧ f x = last := by
  rw [chain_append]
  show Chain f (some x) xs ∧ f x = last ∧ True ↔ _
  rw [and_true]

theorem Chain.congr (h : Chain f last xs) (hfg : ∀ x ∈ xs, g x = f x) : Chain g last xs := by
  induction xs with
  | nil => trivial
  | cons x xs ih =>
    constructor
    · rw [hfg x (List.mem_cons_self ..)]
      exact h.1
    · exact ih h.2 fun y hy => hfg y (List.mem_cons_of_mem _ hy)

variable [DecidableEq ν]

theorem Chain.update (h : Chain f last xs) (hx : x ∉ xs) (v : Option ν) :
    Chain (Function.update f x v) last xs := by
  apply h.congr
  intro y hy
  apply Function.update_of_ne
  rintro rfl
  exact hx hy

/-- The node, if there is one, goes to `v`. -/
def relink (f : ν → Option ν) (node v : Option ν) : ν → Option ν :=
  match node with
  | none => f
  | some x => Function.update f x v

theorem Chain.relink_last (h : Chain f last xs) (hnodup : xs.Nodup) (v : Option ν) :
    Chain (relink f xs.getLast? v) v xs := by
  cases xs using List.reverseRecOn with
  | nil => trivial
  | append_singleton xs x =>
    have hx : x ∉ xs := by
      intro hmem
      exact (List.nodup_append.mp hnodup).2.2 x hmem x (List.mem_singleton_self x) rfl
    rw [List.getLast?_concat, chain_concat]
    exact ⟨(chain_concat.mp h).1.update hx v, Function.update_self ..⟩

theorem Chain.relink_of_notMem (h : Chain f last xs) {node : Option ν} (hnode : ∀ x ∈ node, x ∉ xs)
    (v : Option ν) : Chain (relink f node v) last xs := by
  cases node with
  | none => exact h
  | some x => exact h.update (hnode x rfl) v

/-- The node before `x` is linked to the one behind it. -/
theorem Chain.unlink (h : Chain f none (xs ++ x :: ys)) (hnodup : (xs ++ x :: ys).Nodup) :
    Chain (Function.update (LinkedList.relink f xs.getLast? (f x)) x none) none (xs ++ ys) := by
  rcases chain_append.mp h with ⟨hxs, hx, hys⟩
  have hparts := List.nodup_append.mp hnodup
  have hnotxs : x ∉ xs := fun hmem => hparts.2.2 x hmem x (List.mem_cons_self ..) rfl
  have hnotys : x ∉ ys := (List.nodup_cons.mp hparts.2.1).1
  rw [Option.or_none] at hx
  rw [chain_append, hx, Option.or_none]
  constructor
  · exact (hxs.relink_last hparts.1 ys.head?).update hnotxs none
  · apply Chain.update _ hnotys
    apply hys.relink_of_notMem
    intro y hy hmem
    exact hparts.2.2 y (List.mem_of_getLast? hy) y (List.mem_cons_of_mem _ hmem) rfl

end Chain

structure Links (ν : Type*) where
  head : Option ν
  tail : Option ν
  prev : ν → Option ν
  next : ν → Option ν

structure Links.Represents (l : Links ν) (xs : List ν) : Prop where
  nodup : xs.Nodup
  head : l.head = xs.head?
  tail : l.tail = xs.reverse.head?
  next : Chain l.next none xs
  prev : Chain l.prev none xs.reverse

namespace Links

variable {l : Links ν} {xs ys : List ν} {x : ν}

theorem Represents.next_eq (h : l.Represents (xs ++ x :: ys)) : l.next x = ys.head? := by
  have hx := (chain_append.mp h.next).2.1
  rwa [Option.or_none] at hx

theorem reverse_middle (xs ys : List ν) (x : ν) :
    (xs ++ x :: ys).reverse = ys.reverse ++ x :: xs.reverse := by
  rw [List.reverse_append, List.reverse_cons, List.append_assoc]
  rfl

theorem Represents.prev_eq (h : l.Represents (xs ++ x :: ys)) : l.prev x = xs.reverse.head? := by
  have hprev := h.prev
  rw [reverse_middle] at hprev
  have hx := (chain_append.mp hprev).2.1
  rwa [Option.or_none] at hx

/-- The neighbours of a node are other nodes of the list. -/
theorem Represents.prev_mem (h : l.Represents xs) (hx : x ∈ xs) {y : ν} (hy : l.prev x = some y) :
    y ∈ xs ∧ y ≠ x := by
  rcases List.append_of_mem hx with ⟨before, behind, rfl⟩
  rw [h.prev_eq, List.head?_reverse] at hy
  have hmem := List.mem_of_getLast? hy
  exact ⟨List.mem_append_left _ hmem,
    (List.nodup_append.mp h.nodup).2.2 y hmem x (List.mem_cons_self ..)⟩

theorem Represents.next_mem (h : l.Represents xs) (hx : x ∈ xs) {y : ν} (hy : l.next x = some y) :
    y ∈ xs := by
  rcases List.append_of_mem hx with ⟨before, behind, rfl⟩
  rw [h.next_eq] at hy
  exact List.mem_append_right _ (List.mem_cons_of_mem _ (List.mem_of_head? hy))

variable [DecidableEq ν]

def pushFront (l : Links ν) (x : ν) : Links ν where
  head := some x
  tail := l.tail.or (some x)
  prev := relink (Function.update l.prev x none) l.head (some x)
  next := Function.update l.next x l.head

theorem Represents.pushFront (h : l.Represents xs) (hx : x ∉ xs) : (l.pushFront x).Represents (x :: xs) where
  nodup := List.nodup_cons.mpr ⟨hx, h.nodup⟩
  head := rfl
  tail := by
    show l.tail.or (some x) = _
    rw [h.tail, List.reverse_cons, List.head?_append]
    rfl
  next := by
    refine ⟨?_, h.next.update hx _⟩
    show Function.update l.next x l.head x = _
    rw [Function.update_self, h.head, Option.or_none]
  prev := by
    have hxrev : x ∉ xs.reverse := fun hmem => hx (List.mem_reverse.mp hmem)
    rw [List.reverse_cons, chain_concat]
    constructor
    · have hrelink := (h.prev.update hxrev none).relink_last (List.nodup_reverse.mpr h.nodup) (some x)
      rw [List.getLast?_reverse, ← h.head] at hrelink
      exact hrelink
    · show relink (Function.update l.prev x none) l.head (some x) x = none
      rw [h.head]
      cases xs with
      | nil => exact Function.update_self x none l.prev
      | cons y ys =>
        have hne : x ≠ y := fun heq => hx (heq ▸ List.mem_cons_self ..)
        show Function.update (Function.update l.prev x none) y (some x) x = none
        rw [Function.update_of_ne hne, Function.update_self]

/-- A node is taken out, and names no neighbours. -/
def unlink (l : Links ν) (x : ν) : Links ν where
  head := if l.prev x = none then l.next x else l.head
  tail := if l.next x = none then l.prev x else l.tail
  prev := Function.update (relink l.prev (l.next x) (l.prev x)) x none
  next := Function.update (relink l.next (l.prev x) (l.next x)) x none

theorem Represents.unlink_middle (h : l.Represents (xs ++ x :: ys)) :
    (l.unlink x).Represents (xs ++ ys) where
  nodup := h.nodup.sublist ((List.sublist_cons_self x ys).append_left xs)
  head := by
    show (if l.prev x = none then l.next x else l.head) = _
    rw [h.prev_eq, h.next_eq, h.head]
    cases xs using List.reverseRecOn with
    | nil => rfl
    | append_singleton xs z => simp
  tail := by
    show (if l.next x = none then l.prev x else l.tail) = _
    rw [h.prev_eq, h.next_eq, h.tail]
    cases ys with
    | nil => simp
    | cons y ys => simp
  next := by
    show Chain (Function.update (relink l.next (l.prev x) (l.next x)) x none) none _
    rw [h.prev_eq, List.head?_reverse]
    exact h.next.unlink h.nodup
  prev := by
    have hprev := h.prev
    have hnodup := List.nodup_reverse.mpr h.nodup
    rw [reverse_middle] at hprev hnodup
    have hunlink := hprev.unlink hnodup
    rw [List.getLast?_reverse, ← h.next_eq] at hunlink
    rw [List.reverse_append]
    exact hunlink

theorem Represents.unlink (h : l.Represents xs) (hx : x ∈ xs) : (l.unlink x).Represents (xs.erase x) := by
  rcases List.append_of_mem hx with ⟨before, behind, rfl⟩
  have hnot : x ∉ before := fun hmem =>
    (List.nodup_append.mp h.nodup).2.2 x hmem x (List.mem_cons_self ..) rfl
  rw [List.erase_append_right _ hnot, List.erase_cons_head]
  exact h.unlink_middle

end Links

end Northstar.LinkedList

/-! ## Records that each name the one before it

The chain of a record is walked along the links until a record without one, and read from there on.
-/

namespace Northstar.Backlinks

variable {α : Type*} {next next' : α → Option α} {Root : α → Prop} {Follows : α → α → Prop}
  {x y : α} {l : List α}

/-- The records from one back along the links, and `none` when the fuel ends first. -/
def walk (next : α → Option α) : Nat → Option α → Option (List α)
  | _, none => some []
  | 0, some _ => none
  | fuel + 1, some x => (walk next fuel (next x)).map (x :: ·)

/-- A chain, the oldest record first, that starts with a root. -/
def Covers (Root : α → Prop) (Follows : α → α → Prop) (chain : List α) : Prop :=
  (∃ root ∈ chain.head?, Root root) ∧ chain.IsChain Follows

/-- The links lead from the record to a root, and each record follows the one it names. -/
inductive Grounded (next : α → Option α) (Root : α → Prop) (Follows : α → α → Prop) : α → Prop
  | root {x : α} : next x = none → Root x → Grounded next Root Follows x
  | link {x y : α} :
    next x = some y → Follows y x → Grounded next Root Follows y → Grounded next Root Follows x

theorem covers_singleton : Covers Root Follows [x] ↔ Root x := by
  constructor
  · rintro ⟨⟨root, hroot, h⟩, -⟩
    cases hroot
    exact h
  · exact fun h => ⟨⟨x, rfl, h⟩, List.isChain_singleton x⟩

theorem covers_concat :
    Covers Root Follows (l ++ [y] ++ [x]) ↔ Covers Root Follows (l ++ [y]) ∧ Follows y x := by
  have hhead : (l ++ [y] ++ [x]).head? = (l ++ [y]).head? := by
    cases l <;> rfl
  have hchain : (l ++ [y] ++ [x]).IsChain Follows ↔ (l ++ [y]).IsChain Follows ∧ Follows y x := by
    rw [List.isChain_append, List.getLast?_concat]
    constructor
    · exact fun h => ⟨h.1, h.2.2 y rfl x rfl⟩
    · rintro ⟨h, hfollows⟩
      refine ⟨h, List.isChain_singleton x, ?_⟩
      intro a ha b hb
      cases ha
      cases hb
      exact hfollows
  unfold Covers
  rw [hhead, hchain, and_assoc]

/-- The walk from a record ends, and what it has seen covers everything from a root on. -/
theorem grounded_iff : Grounded next Root Follows x ↔
    ∃ fuel chain, walk next fuel (some x) = some chain ∧ Covers Root Follows chain.reverse := by
  constructor
  · intro h
    induction h with
    | @root x hnext hroot =>
      refine ⟨1, [x], ?_, covers_singleton.mpr hroot⟩
      show (walk next 0 (next x)).map (x :: ·) = some [x]
      rw [hnext]
      rfl
    | @link x y hnext hfollows _ ih =>
      obtain ⟨fuel, chain, hwalk, hcovers⟩ := ih
      refine ⟨fuel + 1, x :: chain, ?_, ?_⟩
      · show (walk next fuel (next x)).map (x :: ·) = some (x :: chain)
        rw [hnext, hwalk]
        rfl
      · cases fuel with
        | zero => cases hwalk
        | succ fuel =>
          obtain ⟨older, -, rfl⟩ := Option.map_eq_some_iff.mp hwalk
          rw [List.reverse_cons, List.reverse_cons]
          rw [List.reverse_cons] at hcovers
          exact covers_concat.mpr ⟨hcovers, hfollows⟩
  · rintro ⟨fuel, chain, hwalk, hcovers⟩
    -- the fuel counts the records that the walk still has to see
    induction fuel generalizing x chain with
    | zero => cases hwalk
    | succ fuel ih =>
      obtain ⟨older, holder, rfl⟩ := Option.map_eq_some_iff.mp hwalk
      cases hnext : next x with
      | none =>
        rw [hnext] at holder
        have hnil : older = [] := by
          cases fuel <;> cases holder <;> rfl
        subst hnil
        exact .root hnext (covers_singleton.mp hcovers)
      | some y =>
        rw [hnext] at holder
        cases fuel with
        | zero => cases holder
        | succ fuel =>
          have holder' := holder
          obtain ⟨rest, -, rfl⟩ := Option.map_eq_some_iff.mp holder'
          rw [List.reverse_cons, List.reverse_cons] at hcovers
          have hy := covers_concat.mp hcovers
          refine .link hnext hy.2 (ih _ holder ?_)
          rw [List.reverse_cons]
          exact hy.1

/-- Records that lead only to each other keep their chains when their links stay. -/
theorem Grounded.congr {P : α → Prop} (hclosed : ∀ x y, P x → next x = some y → P y)
    (hagree : ∀ x, P x → next' x = next x) (h : Grounded next Root Follows x) (hx : P x) :
    Grounded next' Root Follows x := by
  induction h with
  | @root x hnext hroot => exact .root ((hagree x hx).trans hnext) hroot
  | @link x y hnext hfollows _ ih =>
    exact .link ((hagree x hx).trans hnext) hfollows (ih (hclosed x y hx hnext))

theorem Grounded.next_of_not_root (h : Grounded next Root Follows x) (hx : ¬ Root x) :
    ∃ y, next x = some y ∧ Follows y x ∧ Grounded next Root Follows y := by
  cases h with
  | root _ hroot => exact absurd hroot hx
  | link hnext hfollows hy => exact ⟨_, hnext, hfollows, hy⟩

end Northstar.Backlinks
