import Northstar.Lib.HashMap
import Northstar.Refmodel.Base64
import Northstar.Refmodel.Model
import Mathlib.Data.List.Sort

/-!
# Compare — two trees side by side, and a tree in a file

`refmodel/compare.rs`, `refmodel/serialize.rs`.  A deleted key stays in the tree with a tombstone, and neither
the comparison nor the file sees it.
-/

namespace Northstar.Refmodel

open Bytes HashMap

/-- A tree with the keys of its `BTreeMap`, in their order. -/
structure ListedTree where
  tree : RefTree
  keys : List Bytes
  ascending : keys.Pairwise (· < ·)
  mem_keys : ∀ key, key ∈ keys ↔ (tree.chains key).isSome

namespace ListedTree

variable (S : BinarySearch Nat)

def new : ListedTree where
  tree := .new
  keys := []
  ascending := List.Pairwise.nil
  mem_keys _ := by simp [RefTree.new]

theorem ascending_orderedInsert {keys : List Bytes} {key : Bytes} (h : keys.Pairwise (· < ·)) (hnew : key ∉ keys) :
    (keys.orderedInsert (· ≤ ·) key).Pairwise (· < ·) := by
  have hle : (keys.orderedInsert (· ≤ ·) key).Pairwise (· ≤ ·) := (h.imp le_of_lt).orderedInsert key keys
  have hnodup : (keys.orderedInsert (· ≤ ·) key).Nodup :=
    (List.perm_orderedInsert _ key keys).nodup_iff.mpr (List.nodup_cons.mpr ⟨hnew, h.imp ne_of_lt⟩)
  exact (hle.and hnodup).imp fun h => lt_of_le_of_ne h.1 h.2

def put (t : ListedTree) (key value : Bytes) (lsn : Lsn) : ListedTree where
  tree := t.tree.put S key value lsn
  keys := if key ∈ t.keys then t.keys else t.keys.orderedInsert (· ≤ ·) key
  ascending := by
    split
    · exact t.ascending
    next hnew => exact ascending_orderedInsert t.ascending hnew
  mem_keys other := by
    have hkeys : other ∈ (if key ∈ t.keys then t.keys else t.keys.orderedInsert (· ≤ ·) key) ↔
        other = key ∨ other ∈ t.keys := by
      split
      next hold => exact ⟨.inr, fun h => h.elim (fun heq => heq ▸ hold) id⟩
      next => exact List.mem_orderedInsert ..
    rw [hkeys, t.mem_keys]
    show _ ↔ (Function.update t.tree.chains key _ other).isSome
    rw [Function.update_apply]
    by_cases heq : other = key
    · simp [heq]
    · simp [heq]

def delete (t : ListedTree) (key : Bytes) : ListedTree where
  tree := t.tree.delete S key
  keys := t.keys
  ascending := t.ascending
  mem_keys other := by
    rw [t.mem_keys]
    unfold RefTree.delete
    cases hchain : t.tree.chains key with
    | none => rfl
    | some chain =>
      show _ ↔ (Function.update t.tree.chains key _ other).isSome
      rw [Function.update_apply]
      by_cases heq : other = key
      · simp [heq, hchain]
      · simp [heq]

def get (t : ListedTree) (key : Bytes) : Option Bytes := t.tree.get key

def iter (t : ListedTree) : List (Bytes × Bytes) :=
  t.keys.filterMap fun key =>
    (((t.tree.chains key).bind VersionChain.latest).filter (!·.isTombstone)).map fun v => (key, v.value)

theorem iter_eq (t : ListedTree) : t.iter = t.keys.filterMap fun key => (t.get key).map fun value => (key, value) := by
  unfold iter get RefTree.get
  simp only [Option.map_map, Function.comp_def]

theorem map_fst_iter (t : ListedTree) : t.iter.map Prod.fst = t.keys.filter fun key => (t.get key).isSome := by
  rw [iter_eq, List.map_filterMap, ← List.filterMap_eq_filter]
  apply List.filterMap_congr
  intro key _
  cases hget : t.get key <;> simp [Option.guard, hget]

theorem nodup_iter (t : ListedTree) : (t.iter.map Prod.fst).Nodup := by
  rw [map_fst_iter]
  exact (t.ascending.imp ne_of_lt).filter _

theorem mem_iter {t : ListedTree} {key value : Bytes} : (key, value) ∈ t.iter ↔ t.get key = some value := by
  rw [iter_eq, List.mem_filterMap]
  constructor
  · rintro ⟨key', -, heq⟩
    rcases Option.map_eq_some_iff.mp heq with ⟨value', hget, hpair⟩
    cases hpair
    exact hget
  · intro hget
    refine ⟨key, ?_, by rw [hget]; rfl⟩
    rw [t.mem_keys]
    unfold get RefTree.get at hget
    cases hchain : t.tree.chains key with
    | none => simp [hchain] at hget
    | some chain => rfl

end ListedTree

/-- `tree.iter().into_iter().collect()`. -/
def items (t : ListedTree) : AList fun _ : Bytes => Bytes := collect t.iter

theorem lookup_items (t : ListedTree) (key : Bytes) : (items t).lookup key = t.get key := by
  unfold items
  rw [lookup_collect t.nodup_iter]
  cases hfind : t.iter.find? (·.1 = key) with
  | none =>
    cases hget : t.get key with
    | none => rfl
    | some value =>
      have hnone := List.find?_eq_none.mp hfind _ (ListedTree.mem_iter.mpr hget)
      exact absurd rfl (of_decide_eq_false (Bool.eq_false_iff.mpr hnone))
  | some e =>
    have hkey : e.1 = key := by simpa using List.find?_some hfind
    rw [← hkey]
    exact (ListedTree.mem_iter.mp (List.mem_of_find?_eq_some hfind)).symm

inductive DiffType where
  | onlyInLeft (value : Bytes)
  | onlyInRight (value : Bytes)
  | valueMismatch (left right : Bytes)
  deriving Repr, DecidableEq

structure Difference where
  key : Bytes
  diffType : DiffType
  deriving Repr, DecidableEq

inductive ComparisonResult where
  | equivalent
  | different (differences : List Difference)
  deriving Repr, DecidableEq

def ComparisonResult.differences : ComparisonResult → List Difference
  | equivalent => []
  | different differences => differences

def leftDifference (rightItems : AList fun _ : Bytes => Bytes) (e : Sigma fun _ : Bytes => Bytes) :
    Option Difference :=
  match rightItems.lookup e.1 with
  | some rightValue => if e.2 ≠ rightValue then some ⟨e.1, .valueMismatch e.2 rightValue⟩ else none
  | none => some ⟨e.1, .onlyInLeft e.2⟩

def rightDifference (leftItems : AList fun _ : Bytes => Bytes) (e : Sigma fun _ : Bytes => Bytes) :
    Option Difference :=
  if e.1 ∉ leftItems then some ⟨e.1, .onlyInRight e.2⟩ else none

section

-- the order of each of the two maps
variable (leftOrder rightOrder : Iteration Bytes Bytes)

def compareTrees (left right : ListedTree) : ComparisonResult :=
  let leftItems := items left
  let rightItems := items right
  let differences := (leftOrder.order leftItems).filterMap (leftDifference rightItems) ++
    (rightOrder.order rightItems).filterMap (rightDifference leftItems)
  if differences.isEmpty then .equivalent else .different differences

structure ComparisonStats where
  leftKeys : Nat
  rightKeys : Nat
  onlyInLeft : Nat
  onlyInRight : Nat
  mismatches : Nat
  totalDifferences : Nat
  deriving Repr, DecidableEq

/-- One step of the loop over the items on the left, with the counts of the keys only there and of the
mismatches. -/
def countLeft (rightItems : AList fun _ : Bytes => Bytes) (counts : Nat × Nat) (e : Sigma fun _ : Bytes => Bytes) :
    Nat × Nat :=
  match rightItems.lookup e.1 with
  | some rightValue => if e.2 ≠ rightValue then (counts.1, counts.2 + 1) else counts
  | none => (counts.1 + 1, counts.2)

def countRight (leftItems : AList fun _ : Bytes => Bytes) (count : Nat) (e : Sigma fun _ : Bytes => Bytes) : Nat :=
  if e.1 ∉ leftItems then count + 1 else count

def compareStats (left right : ListedTree) : ComparisonStats :=
  let leftItems := items left
  let rightItems := items right
  let counts := (leftOrder.order leftItems).foldl (countLeft rightItems) (0, 0)
  let onlyInRight := (rightOrder.order rightItems).foldl (countRight leftItems) 0
  { leftKeys := leftItems.entries.length
    rightKeys := rightItems.entries.length
    onlyInLeft := counts.1
    onlyInRight := onlyInRight
    mismatches := counts.2
    totalDifferences := counts.1 + onlyInRight + counts.2 }

end

/-- How two values of a key differ. -/
def DiffType.between : Option Bytes → Option Bytes → Option DiffType
  | none, none => none
  | some value, none => some (.onlyInLeft value)
  | none, some value => some (.onlyInRight value)
  | some left, some right => if left = right then none else some (.valueMismatch left right)

theorem DiffType.between_eq_none {left right : Option Bytes} : between left right = none ↔ left = right := by
  cases left <;> cases right <;> simp [between]

variable {d : Difference} {m : AList fun _ : Bytes => Bytes} {e : Sigma fun _ : Bytes => Bytes}

theorem leftDifference_eq_some : leftDifference m e = some d ↔
      d.key = e.1 ∧ DiffType.between (some e.2) (m.lookup e.1) = some d.diffType := by
  unfold leftDifference
  rcases d with ⟨key, diffType⟩
  cases m.lookup e.1 with
  | none => simp [DiffType.between, eq_comm]
  | some value => by_cases heq : e.2 = value <;> simp [DiffType.between, heq, eq_comm]

theorem rightDifference_eq_some : rightDifference m e = some d ↔
      d.key = e.1 ∧ m.lookup e.1 = none ∧ d.diffType = .onlyInRight e.2 := by
  unfold rightDifference
  rcases d with ⟨key, diffType⟩
  rw [AList.lookup_eq_none]
  by_cases hmem : e.1 ∈ m <;> simp [hmem, eq_comm]

section

variable (leftOrder rightOrder : Iteration Bytes Bytes) (left right : ListedTree)

theorem differences_compareTrees : (compareTrees leftOrder rightOrder left right).differences =
    (leftOrder.order (items left)).filterMap (leftDifference (items right)) ++
      (rightOrder.order (items right)).filterMap (rightDifference (items left)) := by
  unfold compareTrees
  dsimp only
  split
  next hempty => exact (List.isEmpty_iff.mp hempty).symm
  next => rfl

theorem mem_order (order : Iteration Bytes Bytes) (t : ListedTree) (key value : Bytes) :
    ⟨key, value⟩ ∈ order.order (items t) ↔ t.get key = some value := by
  rw [(order.perm (items t)).mem_iff, ← lookup_items]
  exact AList.mem_lookup_iff.symm

theorem mem_differences : d ∈ (compareTrees leftOrder rightOrder left right).differences ↔
    DiffType.between (left.get d.key) (right.get d.key) = some d.diffType := by
  rw [differences_compareTrees, List.mem_append, List.mem_filterMap, List.mem_filterMap]
  constructor
  · rintro (⟨⟨key, value⟩, hmem, hsome⟩ | ⟨⟨key, value⟩, hmem, hsome⟩)
    · rw [mem_order] at hmem
      rw [leftDifference_eq_some, lookup_items] at hsome
      rw [hsome.1, hmem]
      exact hsome.2
    · rw [mem_order] at hmem
      rw [rightDifference_eq_some, lookup_items] at hsome
      rw [hsome.1, hmem, hsome.2.1, hsome.2.2]
      rfl
  · intro hbetween
    cases hleft : left.get d.key with
    | some value =>
      refine .inl ⟨⟨d.key, value⟩, (mem_order ..).mpr hleft, leftDifference_eq_some.mpr ⟨rfl, ?_⟩⟩
      rw [lookup_items, ← hleft]
      exact hbetween
    | none =>
      cases hright : right.get d.key with
      | none =>
        rw [hleft, hright] at hbetween
        cases hbetween
      | some value =>
        refine .inr ⟨⟨d.key, value⟩, (mem_order ..).mpr hright, rightDifference_eq_some.mpr ⟨rfl, ?_, ?_⟩⟩
        · rw [lookup_items, hleft]
        · rw [hleft, hright] at hbetween
          exact (Option.some.inj hbetween).symm

theorem keys_filterMap {f : (Sigma fun _ : Bytes => Bytes) → Option Difference}
    (hf : ∀ e d, f e = some d → d.key = e.1) (es : List (Sigma fun _ : Bytes => Bytes)) :
    ((es.filterMap f).map Difference.key).Sublist es.keys := by
  induction es with
  | nil => exact List.Sublist.refl _
  | cons e es ih =>
    rw [List.filterMap_cons, List.keys_cons]
    cases hd : f e with
    | none => exact ih.cons _
    | some d =>
      rw [List.map_cons, hf e d hd]
      exact ih.cons_cons _

theorem nodup_keys_order (order : Iteration Bytes Bytes) (m : AList fun _ : Bytes => Bytes) : (order.order m).keys.Nodup :=
  ((order.perm m).map Sigma.fst).nodup_iff.mpr m.nodupKeys

theorem nodup_differences : ((compareTrees leftOrder rightOrder left right).differences.map Difference.key).Nodup := by
  rw [differences_compareTrees, List.map_append, List.nodup_append]
  refine ⟨?_, ?_, ?_⟩
  · exact (nodup_keys_order ..).sublist (keys_filterMap (fun e d h => (leftDifference_eq_some.mp h).1) _)
  · exact (nodup_keys_order ..).sublist (keys_filterMap (fun e d h => (rightDifference_eq_some.mp h).1) _)
  · -- a key on the left has a value there, and one that is only on the right has none
    intro key hleft key' hright heq
    rcases List.mem_map.mp hleft with ⟨d, hd, rfl⟩
    rcases List.mem_map.mp hright with ⟨d', hd', rfl⟩
    rcases List.mem_filterMap.mp hd with ⟨⟨k, value⟩, hmem, hsome⟩
    rcases List.mem_filterMap.mp hd' with ⟨⟨k', value'⟩, -, hsome'⟩
    rw [mem_order] at hmem
    rw [rightDifference_eq_some, lookup_items] at hsome'
    rw [← hsome'.1, ← heq, (leftDifference_eq_some.mp hsome).1, hmem] at hsome'
    cases hsome'.2.1

theorem compareTrees_eq_equivalent :
    compareTrees leftOrder rightOrder left right = .equivalent ↔ ∀ key, left.get key = right.get key := by
  have hnil : compareTrees leftOrder rightOrder left right = .equivalent ↔
      (compareTrees leftOrder rightOrder left right).differences = [] := by
    rw [differences_compareTrees, ← List.isEmpty_iff]
    unfold compareTrees
    dsimp only
    split
    next hempty => exact iff_of_true rfl hempty
    next hempty => exact iff_of_false (fun h => nomatch h) hempty
  rw [hnil, List.eq_nil_iff_forall_not_mem]
  constructor
  · intro h key
    apply DiffType.between_eq_none.mp
    apply Option.eq_none_iff_forall_ne_some.mpr
    intro diffType hsome
    exact h ⟨key, diffType⟩ ((mem_differences ..).mpr hsome)
  · intro h d hd
    rw [mem_differences, DiffType.between_eq_none.mpr (h d.key)] at hd
    cases hd

end

def DiffType.isOnlyInLeft : DiffType → Bool
  | onlyInLeft _ => true
  | _ => false

def DiffType.isOnlyInRight : DiffType → Bool
  | onlyInRight _ => true
  | _ => false

def DiffType.isMismatch : DiffType → Bool
  | valueMismatch _ _ => true
  | _ => false

/-- How many of the differences are of a kind. -/
def count (kind : DiffType → Bool) (ds : List Difference) : Nat := ds.countP fun d => kind d.diffType

theorem count_cons (kind : DiffType → Bool) (d : Difference) (ds : List Difference) :
    count kind (d :: ds) = count kind ds + if kind d.diffType then 1 else 0 := List.countP_cons

theorem count_append (kind : DiffType → Bool) (ds ds' : List Difference) :
    count kind (ds ++ ds') = count kind ds + count kind ds' := List.countP_append

theorem count_kinds (ds : List Difference) :
    count DiffType.isOnlyInLeft ds + count DiffType.isOnlyInRight ds + count DiffType.isMismatch ds = ds.length := by
  induction ds with
  | nil => rfl
  | cons d ds ih =>
    rw [count_cons, count_cons, count_cons, List.length_cons, ← ih]
    cases d.diffType <;> simp [DiffType.isOnlyInLeft, DiffType.isOnlyInRight, DiffType.isMismatch] <;> omega

theorem foldl_countLeft (m : AList fun _ : Bytes => Bytes) (es : List (Sigma fun _ : Bytes => Bytes))
    (counts : Nat × Nat) : es.foldl (countLeft m) counts =
      (counts.1 + count DiffType.isOnlyInLeft (es.filterMap (leftDifference m)),
        counts.2 + count DiffType.isMismatch (es.filterMap (leftDifference m))) := by
  induction es generalizing counts with
  | nil => rfl
  | cons e es ih =>
    rw [List.foldl_cons, ih, List.filterMap_cons]
    unfold leftDifference countLeft
    cases m.lookup e.1 with
    | none =>
      dsimp only
      rw [count_cons, count_cons]
      simp only [DiffType.isOnlyInLeft, DiffType.isMismatch, if_true, Bool.false_eq_true, if_false]
      ext <;> dsimp only <;> omega
    | some value =>
      dsimp only
      by_cases hne : e.2 ≠ value
      · rw [if_pos hne, if_pos hne]
        dsimp only
        rw [count_cons, count_cons]
        simp only [DiffType.isOnlyInLeft, DiffType.isMismatch, if_true, Bool.false_eq_true, if_false]
        ext <;> dsimp only <;> omega
      · rw [if_neg hne, if_neg hne]

theorem foldl_countRight (m : AList fun _ : Bytes => Bytes) (es : List (Sigma fun _ : Bytes => Bytes)) (n : Nat) :
    es.foldl (countRight m) n = n + (es.filterMap (rightDifference m)).length := by
  induction es generalizing n with
  | nil => rfl
  | cons e es ih =>
    rw [List.foldl_cons, ih, List.filterMap_cons]
    unfold rightDifference countRight
    by_cases hmem : e.1 ∉ m
    · rw [if_pos hmem, if_pos hmem]
      dsimp only
      rw [List.length_cons]
      omega
    · rw [if_neg hmem, if_neg hmem]

theorem count_eq_zero {kind : DiffType → Bool} {ds : List Difference} (h : ∀ d ∈ ds, kind d.diffType = false) :
    count kind ds = 0 := by
  apply List.countP_eq_zero.mpr
  intro d hd
  rw [h d hd]
  exact Bool.false_ne_true

theorem kind_of_leftDifference (m : AList fun _ : Bytes => Bytes) (es : List (Sigma fun _ : Bytes => Bytes)) :
    ∀ d ∈ es.filterMap (leftDifference m), d.diffType.isOnlyInRight = false := by
  intro d hd
  rcases List.mem_filterMap.mp hd with ⟨e, -, hsome⟩
  have hbetween := (leftDifference_eq_some.mp hsome).2
  cases hlookup : m.lookup e.1 with
  | none =>
    rw [hlookup] at hbetween
    rw [← Option.some.inj hbetween]
    rfl
  | some value =>
    rw [hlookup, DiffType.between] at hbetween
    split at hbetween
    · cases hbetween
    · rw [← Option.some.inj hbetween]
      rfl

theorem kind_of_rightDifference (m : AList fun _ : Bytes => Bytes) (es : List (Sigma fun _ : Bytes => Bytes)) :
    ∀ d ∈ es.filterMap (rightDifference m), d.diffType.isOnlyInLeft = false ∧ d.diffType.isMismatch = false := by
  intro d hd
  rcases List.mem_filterMap.mp hd with ⟨e, -, hsome⟩
  rw [(rightDifference_eq_some.mp hsome).2.2]
  exact ⟨rfl, rfl⟩

theorem length_items (t : ListedTree) : (items t).entries.length = t.iter.length := length_collect t.nodup_iter

theorem perm_differences (leftOrder rightOrder leftOrder' rightOrder' : Iteration Bytes Bytes)
    (left right : ListedTree) : (compareTrees leftOrder rightOrder left right).differences.Perm
      (compareTrees leftOrder' rightOrder' left right).differences := by
  rw [differences_compareTrees, differences_compareTrees]
  apply List.Perm.append
  · exact ((leftOrder.perm _).trans (leftOrder'.perm _).symm).filterMap _
  · exact ((rightOrder.perm _).trans (rightOrder'.perm _).symm).filterMap _

theorem compareStats_eq (leftOrder rightOrder leftOrder' rightOrder' : Iteration Bytes Bytes)
    (left right : ListedTree) : compareStats leftOrder' rightOrder' left right =
      { leftKeys := left.iter.length
        rightKeys := right.iter.length
        onlyInLeft := count DiffType.isOnlyInLeft (compareTrees leftOrder rightOrder left right).differences
        onlyInRight := count DiffType.isOnlyInRight (compareTrees leftOrder rightOrder left right).differences
        mismatches := count DiffType.isMismatch (compareTrees leftOrder rightOrder left right).differences
        totalDifferences := (compareTrees leftOrder rightOrder left right).differences.length } := by
  have hperm := perm_differences leftOrder rightOrder leftOrder' rightOrder' left right
  unfold count
  rw [hperm.countP_eq, hperm.countP_eq, hperm.countP_eq, hperm.length_eq]
  show _ = ({ onlyInLeft := count _ _, onlyInRight := count _ _, mismatches := count _ _, .. } : ComparisonStats)
  have hleft := kind_of_leftDifference (items right) (leftOrder'.order (items left))
  have hright := kind_of_rightDifference (items left) (rightOrder'.order (items right))
  have hkinds := count_kinds ((rightOrder'.order (items right)).filterMap (rightDifference (items left)))
  have hkinds' := count_kinds ((leftOrder'.order (items left)).filterMap (leftDifference (items right)))
  rw [count_eq_zero fun d hd => (hright d hd).1, count_eq_zero fun d hd => (hright d hd).2, Nat.zero_add,
    Nat.add_zero] at hkinds
  rw [count_eq_zero hleft, Nat.add_zero] at hkinds'
  unfold compareStats
  dsimp only
  rw [differences_compareTrees, count_append, count_append, count_append, foldl_countLeft, foldl_countRight,
    count_eq_zero fun d hd => (hright d hd).1, count_eq_zero fun d hd => (hright d hd).2, count_eq_zero hleft,
    length_items, length_items, List.length_append, hkinds, ← hkinds']
  simp only [Nat.zero_add, Nat.add_zero, ComparisonStats.mk.injEq, true_and]
  omega

end Northstar.Refmodel
