import Northstar.Relations.Cartridge
import Mathlib.Data.List.Zip
import Mathlib.Data.Nat.Log

/-!
# Queries.Optimizer — the order of a plan's operations

The operations of a plan are sorted by their selectivity, then filters go to the front and aggregations to the
end.  Equal operations stay in their order, but a limit is more selective than anything it may have come after.
-/

namespace Northstar.Queries

open Relations (RelationshipType)

inductive CartridgeType
  | entity
  | topic
  | relationship
  deriving Repr, DecidableEq

inductive LookupType
  | byId
  | byType
  | byName
  | byCommit
  | byCategory
  | byKeyword
  deriving Repr, DecidableEq

inductive TraversalDirection
  | outgoing
  | incoming
  | both
  deriving Repr, DecidableEq

inductive FilterOperator
  | equals
  | notEquals
  | greaterThan
  | lessThan
  | contains
  | matches
  deriving Repr, DecidableEq

inductive AggregationType
  | count
  | sum
  | average
  | min
  | max
  deriving Repr, DecidableEq

/-- A filter compares with a JSON value. -/
inductive QueryOperation (Json : Type)
  | pointLookup (key : List UInt8)
  | rangeScan (start stop : List UInt8)
  | entityLookup (cartridgeType : CartridgeType) (lookupType : LookupType) (key : String)
  | relationshipTraversal (fromEntity : String) (relType : RelationshipType) (direction : TraversalDirection)
      (maxDepth : Nat)
  | filter (field : String) (operator : FilterOperator) (value : Json)
  | aggregate (aggType : AggregationType) (field : String) (groupBy : Option String)
  | sort (field : String) (ascending : Bool)
  | limit (count : Nat)
  deriving Repr, DecidableEq

inductive ExecutionHint
  | useIndex (indexName : String)
  | useCache
  | parallelize
  | order (indices : List Nat)
  deriving Repr, DecidableEq

variable {Json : Type}

namespace QueryOperation

def isFilter : QueryOperation Json → Bool
  | filter .. => true
  | _ => false

def isAggregate : QueryOperation Json → Bool
  | aggregate .. => true
  | _ => false

def isSort : QueryOperation Json → Bool
  | sort .. => true
  | _ => false

def isLimit : QueryOperation Json → Bool
  | limit .. => true
  | _ => false

end QueryOperation

namespace QueryOptimizer

/-- `as f32`: 24 bits of the number, rounded to nearest and to even. -/
def toF32 (n : Nat) : Nat :=
  let unit := 2 ^ (n.log2 - 23)
  let kept := n / unit
  let rest := n % unit
  if unit < 2 * rest ∨ unit = 2 * rest ∧ kept % 2 = 1 then (kept + 1) * unit else kept * unit

/-- In halves: the smallest cost is 0.5. -/
def operationSelectivity : QueryOperation Json → Nat
  | .pointLookup _ => 2
  | .entityLookup _ lookupType _ =>
    match lookupType with
    | .byId => 2
    | .byName => 4
    | .byType => 20
    | .byCommit => 40
    | .byCategory => 30
    | .byKeyword => 24
  | .filter .. => 10
  | .relationshipTraversal _ _ _ maxDepth => 2 * toF32 (toF32 maxDepth * 5)
  | .rangeScan .. => 100
  | .aggregate .. => 16
  | .sort .. => 30
  | .limit _ => 1

def moreSelective (a b : QueryOperation Json) : Bool := operationSelectivity a ≤ operationSelectivity b

/-- `sort_by`, which is stable. -/
def reorderOperations (ops : List (QueryOperation Json)) : List (QueryOperation Json) := ops.mergeSort moreSelective

def indexHint : QueryOperation Json → Option ExecutionHint
  | .entityLookup _ lookupType key =>
    match lookupType with
    | .byName => some (.useIndex "entity:name")
    | .byType => some (.useIndex ("entity:type:" ++ key))
    | .byKeyword => some (.useIndex "topic:keyword")
    | _ => none
  | _ => none

def areOperationsIndependent (ops : List (QueryOperation Json)) : Bool :=
  ops.all fun
    | .entityLookup .. => true
    | .pointLookup .. => true
    | _ => false

/-- The links of the plan are not looked at. -/
def generateHint (ops : List (QueryOperation Json)) : ExecutionHint :=
  match ops.findSome? indexHint with
  | some hint => hint
  | none => if ops.length > 2 ∧ areOperationsIndependent ops then .parallelize else .useCache

def pushDownFilters (ops : List (QueryOperation Json)) : List (QueryOperation Json) :=
  let parts := ops.partition QueryOperation.isFilter
  parts.1 ++ parts.2

def mergeAggregations (ops : List (QueryOperation Json)) : List (QueryOperation Json) :=
  let parts := ops.partition QueryOperation.isAggregate
  parts.2 ++ parts.1

def optimize (operations : List (QueryOperation Json)) : List (QueryOperation Json) × ExecutionHint :=
  let ops := reorderOperations operations
  let hint := generateHint ops
  (mergeAggregations (pushDownFilters ops), hint)

/-- The operation works on what all earlier ones have left. -/
def orderSensitive (op : QueryOperation Json) : Bool := op.isLimit || op.isSort || op.isAggregate

/-- The operation changes what an order-sensitive one gets. -/
def shapes (op : QueryOperation Json) : Bool := op.isFilter || orderSensitive op

/-- The second list is the first one in an order in which no order-sensitive operation stands in front of one that
it came after and that shapes its input. -/
def Respects (before after : List (QueryOperation Json)) : Prop :=
  ∃ placed : List (QueryOperation Json × Nat), placed.Perm before.zipIdx ∧ placed.map Prod.fst = after ∧
    placed.Pairwise fun a b => ¬ (b.2 < a.2 ∧ shapes b.1 = true ∧ orderSensitive a.1 = true)

/-- The first operation would go behind the second one. -/
def swaps (a b : QueryOperation Json) : Bool :=
  a.isSort && b.isLimit || a.isAggregate && b.isLimit || a.isAggregate && b.isSort

/-- No limit comes after a sort or an aggregation, and no sort after an aggregation. -/
def Settled (ops : List (QueryOperation Json)) : Prop := ops.Pairwise fun a b => swaps a b = false

variable {a b : QueryOperation Json} {ops : List (QueryOperation Json)} {α : Type} {op : α → QueryOperation Json}
  {xs : List α} {R : α → α → Prop}

/-- Filters, all other operations, aggregations. -/
def rank : QueryOperation Json → Nat
  | .filter .. => 0
  | .aggregate .. => 2
  | _ => 1

/-- What the two partitions make of a list whose elements may carry more than the operation. -/
def arrange (op : α → QueryOperation Json) (xs : List α) : List α :=
  xs.filter (fun x => rank (op x) = 0) ++ (xs.filter (fun x => rank (op x) = 1) ++ xs.filter fun x => rank (op x) = 2)

theorem rank_cases (op : QueryOperation Json) : rank op = 0 ∨ rank op = 1 ∨ rank op = 2 := by
  cases op <;> simp [rank]

theorem filter_rank_ne (op : α → QueryOperation Json) (xs : List α) :
    (xs.filter fun x => !decide (rank (op x) = 0)).filter (fun x => decide (rank (op x) = 1)) =
      xs.filter (fun x => rank (op x) = 1) ∧
    (xs.filter fun x => !decide (rank (op x) = 0)).filter (fun x => !decide (rank (op x) = 1)) =
      xs.filter fun x => rank (op x) = 2 := by
  rw [List.filter_filter, List.filter_filter]
  constructor
  · apply List.filter_congr
    intro x _
    rcases rank_cases (op x) with h | h | h <;> rw [h] <;> rfl
  · apply List.filter_congr
    intro x _
    rcases rank_cases (op x) with h | h | h <;> rw [h] <;> rfl

theorem mergeAggregations_pushDownFilters (ops : List (QueryOperation Json)) :
    mergeAggregations (pushDownFilters ops) = arrange id ops := by
  unfold mergeAggregations pushDownFilters arrange
  dsimp only
  simp only [List.partition_eq_filter_filter, List.filter_append, List.filter_filter, List.append_assoc,
    Function.comp_apply]
  -- no filter is an aggregation
  have hnone : ops.filter (fun op => op.isAggregate && op.isFilter) = [] := by
    apply List.filter_eq_nil_iff.mpr
    intro op _
    cases op <;> simp [QueryOperation.isAggregate, QueryOperation.isFilter]
  have hsecond : ops.filter (fun op => op.isAggregate && !op.isFilter) = ops.filter fun op => rank op = 2 := by
    apply List.filter_congr
    intro op _
    cases op <;> rfl
  have hothers : ops.filter (fun op => !op.isAggregate && !op.isFilter) = ops.filter fun op => rank op = 1 := by
    apply List.filter_congr
    intro op _
    cases op <;> rfl
  have hfirst : ops.filter (fun op => !op.isAggregate && op.isFilter) = ops.filter fun op => rank op = 0 := by
    apply List.filter_congr
    intro op _
    cases op <;> rfl
  rw [hnone, hsecond, hothers, hfirst]
  rfl

theorem map_arrange (op : α → QueryOperation Json) (xs : List α) :
    (arrange op xs).map op = arrange id (xs.map op) := by
  unfold arrange
  rw [List.map_append, List.map_append, List.filter_map, List.filter_map, List.filter_map]
  rfl

theorem perm_arrange (op : α → QueryOperation Json) (xs : List α) : (arrange op xs).Perm xs := by
  have hfirst := List.filter_append_perm (fun x => decide (rank (op x) = 0)) xs
  have hrest := List.filter_append_perm (fun x => decide (rank (op x) = 1))
    (xs.filter fun x => !decide (rank (op x) = 0))
  rw [(filter_rank_ne op xs).1, (filter_rank_ne op xs).2] at hrest
  exact (hrest.append_left _).trans hfirst

/-- What holds of elements in their order where they have one rank, and of all elements of different ranks. -/
theorem pairwise_arrange (hsame : xs.Pairwise fun x y => rank (op x) = rank (op y) → R x y)
    (hcross : ∀ x ∈ xs, ∀ y ∈ xs, rank (op x) < rank (op y) → R x y) : (arrange op xs).Pairwise R := by
  have hblock : ∀ n, (xs.filter fun x => rank (op x) = n).Pairwise R := by
    intro n
    apply List.Pairwise.imp_of_mem _ (hsame.sublist List.filter_sublist)
    intro x y hx hy himp
    have hx' : rank (op x) = n := of_decide_eq_true (List.mem_filter.mp hx).2
    have hy' : rank (op y) = n := of_decide_eq_true (List.mem_filter.mp hy).2
    exact himp (hx'.trans hy'.symm)
  have hblocks : ∀ m n, m < n → ∀ x ∈ xs.filter (fun x => rank (op x) = m), ∀ y ∈ xs.filter (fun x => rank (op x) = n),
      R x y := by
    intro m n hlt x hx y hy
    have hx' : rank (op x) = m := of_decide_eq_true (List.mem_filter.mp hx).2
    have hy' : rank (op y) = n := of_decide_eq_true (List.mem_filter.mp hy).2
    exact hcross x (List.mem_filter.mp hx).1 y (List.mem_filter.mp hy).1 (by omega)
  apply List.pairwise_append.mpr
  refine ⟨hblock 0, List.pairwise_append.mpr ⟨hblock 1, hblock 2, hblocks 1 2 (by decide)⟩, ?_⟩
  intro x hx y hy
  rcases List.mem_append.mp hy with hy | hy
  · exact hblocks 0 1 (by decide) x hx y hy
  · exact hblocks 0 2 (by decide) x hx y hy

/-- A pair that the order of the output turns round is one that swaps, and the other way round. -/
theorem swaps_of_shapes (hshapes : shapes a = true) (hsensitive : orderSensitive b = true)
    (h : rank b < rank a ∨ rank b = rank a ∧ operationSelectivity b < operationSelectivity a) : swaps a b = true := by
  cases b with
  | aggregate => cases a <;> simp [rank, operationSelectivity] at h
  | sort =>
    cases a with
    | aggregate => rfl
    | filter => simp [rank] at h
    | sort => simp [rank, operationSelectivity] at h
    | limit => simp [rank, operationSelectivity] at h
    | _ => cases hshapes
  | limit =>
    cases a with
    | aggregate => rfl
    | sort => rfl
    | filter => simp [rank] at h
    | limit => simp [rank, operationSelectivity] at h
    | _ => cases hshapes
  | _ => cases hsensitive

theorem order_of_swaps (h : swaps a b = true) : shapes a = true ∧ orderSensitive b = true ∧
    (rank b < rank a ∨ rank b = rank a ∧ operationSelectivity b < operationSelectivity a) := by
  cases a with
  | sort =>
    cases b with
    | limit => exact ⟨rfl, rfl, .inr ⟨rfl, (by decide : 1 < 30)⟩⟩
    | _ => cases h
  | aggregate =>
    cases b with
    | limit => exact ⟨rfl, rfl, .inl (by decide : 1 < 2)⟩
    | sort => exact ⟨rfl, rfl, .inl (by decide : 1 < 2)⟩
    | _ => cases h
  | _ => cases h

theorem moreSelective_trans (a b c : QueryOperation Json) (hab : moreSelective a b = true)
    (hbc : moreSelective b c = true) : moreSelective a c = true :=
  decide_eq_true (Nat.le_trans (of_decide_eq_true hab) (of_decide_eq_true hbc))

theorem moreSelective_total (a b : QueryOperation Json) : (moreSelective a b || moreSelective b a) = true := by
  rcases Nat.le_total (operationSelectivity a) (operationSelectivity b) with h | h
  · exact Bool.or_eq_true_iff.mpr (.inl (decide_eq_true h))
  · exact Bool.or_eq_true_iff.mpr (.inr (decide_eq_true h))

theorem fst_optimize (ops : List (QueryOperation Json)) : (optimize ops).1 = arrange id (reorderOperations ops) :=
  mergeAggregations_pushDownFilters _

theorem settled_optimize (ops : List (QueryOperation Json)) : Settled (optimize ops).1 := by
  have hnot : ∀ a b : QueryOperation Json, swaps a b = true →
      ¬ (rank a < rank b ∨ rank a = rank b ∧ operationSelectivity a ≤ operationSelectivity b) := by
    intro a b h
    have horder := (order_of_swaps h).2.2
    omega
  rw [fst_optimize]
  apply pairwise_arrange
  · apply List.Pairwise.imp _ (List.pairwise_mergeSort moreSelective_trans moreSelective_total ops)
    intro a b hle hsame
    apply Bool.eq_false_of_not_eq_true
    intro h
    exact hnot a b h (.inr ⟨hsame, of_decide_eq_true hle⟩)
  · intro a _ b _ hlt
    apply Bool.eq_false_of_not_eq_true
    intro h
    exact hnot a b h (.inl hlt)

/-- The input with the places of its operations, sorted and arranged as the output is. -/
def place (ops : List (QueryOperation Json)) : List (QueryOperation Json × Nat) :=
  arrange Prod.fst (ops.zipIdx.mergeSort (List.zipIdxLE moreSelective))

theorem map_place (ops : List (QueryOperation Json)) : (place ops).map Prod.fst = (optimize ops).1 := by
  unfold place
  rw [map_arrange, fst_optimize]
  exact congrArg _ List.mergeSort_zipIdx

theorem perm_place (ops : List (QueryOperation Json)) : (place ops).Perm ops.zipIdx :=
  (perm_arrange _ _).trans (List.mergeSort_perm _ _)

theorem Settled.not_swaps (h : Settled ops) {x y : QueryOperation Json × Nat} (hx : x ∈ ops.zipIdx)
    (hy : y ∈ ops.zipIdx) (hlt : x.2 < y.2) : swaps x.1 y.1 = false := by
  obtain ⟨hix, hgx⟩ := List.mem_zipIdx' hx
  obtain ⟨hiy, hgy⟩ := List.mem_zipIdx' hy
  rw [hgx, hgy]
  exact List.pairwise_iff_getElem.mp h x.2 y.2 hix hiy hlt

theorem Settled.respects (h : Settled ops) : Respects ops (optimize ops).1 := by
  refine ⟨place ops, perm_place ops, map_place ops, ?_⟩
  have hmem : ∀ x ∈ ops.zipIdx.mergeSort (List.zipIdxLE moreSelective), x ∈ ops.zipIdx :=
    fun _ hx => List.mem_mergeSort.mp hx
  have hkeep : ∀ x y : QueryOperation Json × Nat, x ∈ ops.zipIdx → y ∈ ops.zipIdx → y.2 < x.2 →
      shapes y.1 = true → orderSensitive x.1 = true →
      ¬ (rank x.1 < rank y.1 ∨ rank x.1 = rank y.1 ∧ operationSelectivity x.1 < operationSelectivity y.1) := by
    intro x y hx hy hlt hshapes hsensitive horder
    have hswaps := swaps_of_shapes hshapes hsensitive horder
    rw [h.not_swaps hy hx hlt] at hswaps
    cases hswaps
  apply pairwise_arrange
  · have hsorted := List.pairwise_mergeSort (List.zipIdxLE_trans moreSelective_trans)
      (List.zipIdxLE_total moreSelective_total) ops.zipIdx
    apply List.Pairwise.imp_of_mem _ hsorted
    intro x y hx hy hle hsame ⟨hlt, hshapes, hsensitive⟩
    apply hkeep x y (hmem x hx) (hmem y hy) hlt hshapes hsensitive
    -- of two equally selective operations the one that came first stands first
    unfold List.zipIdxLE at hle
    by_cases hxy : moreSelective x.1 y.1 = true
    · rw [if_pos hxy] at hle
      by_cases hyx : moreSelective y.1 x.1 = true
      · rw [if_pos hyx] at hle
        exact absurd (of_decide_eq_true hle) (Nat.not_le.mpr hlt)
      · exact .inr ⟨hsame, Nat.lt_of_not_le fun hle => hyx (decide_eq_true hle)⟩
    · rw [if_neg hxy] at hle
      cases hle
  · intro x hx y hy hrank ⟨hlt, hshapes, hsensitive⟩
    exact hkeep x y (hmem x hx) (hmem y hy) hlt hshapes hsensitive (.inl hrank)

theorem Respects.settled (h : Respects ops (optimize ops).1) : Settled ops := by
  obtain ⟨placed, hperm, hmap, hplaced⟩ := h
  have hout : (placed.map Prod.fst).Pairwise fun a b => swaps a b = false := hmap ▸ settled_optimize ops
  have hboth := (List.pairwise_map.mp hout).and hplaced
  apply List.pairwise_iff_getElem.mpr
  intro i j hi hj hlt
  apply Bool.eq_false_of_not_eq_true
  intro hswaps
  have hx : (ops[i], i) ∈ placed := by
    rw [hperm.mem_iff, List.mem_zipIdx_iff_getElem?]
    exact List.getElem?_eq_getElem hi
  have hy : (ops[j], j) ∈ placed := by
    rw [hperm.mem_iff, List.mem_zipIdx_iff_getElem?]
    exact List.getElem?_eq_getElem hj
  obtain ⟨p, hp, hpx⟩ := List.getElem_of_mem hx
  obtain ⟨q, hq, hqy⟩ := List.getElem_of_mem hy
  have hpairs := List.pairwise_iff_getElem.mp hboth
  -- one of the two stands first in the output, and neither may
  rcases Nat.lt_trichotomy p q with hpq | hpq | hpq
  · have hpair := hpairs p q hp hq hpq
    rw [hpx, hqy] at hpair
    exact absurd hswaps (Bool.eq_false_iff.mp hpair.1)
  · subst hpq
    have hsame : i = j := congrArg Prod.snd (hpx.symm.trans hqy)
    exact Nat.ne_of_lt hlt hsame
  · have hpair := hpairs q p hq hp hpq
    rw [hpx, hqy] at hpair
    have horder := order_of_swaps hswaps
    exact hpair.2 ⟨hlt, horder.1, horder.2.1⟩

/-- The optimizer keeps the meaning of a pipeline exactly where no limit comes after a sort or an aggregation, and
no sort after an aggregation. -/
theorem respects_iff (ops : List (QueryOperation Json)) : Respects ops (optimize ops).1 ↔ Settled ops :=
  ⟨Respects.settled, Settled.respects⟩

def newest : List (QueryOperation String) :=
  [.entityLookup .entity .byType "file", .sort "modified" false, .limit 10]

theorem newest_reordered : (optimize newest).1 =
    [.limit 10, .entityLookup .entity .byType "file", .sort "modified" false] ∧
    ¬ Respects newest (optimize newest).1 := by
  have hsorted : reorderOperations newest =
      [.limit 10, .entityLookup .entity .byType "file", .sort "modified" false] := by
    simp [reorderOperations, newest, List.mergeSort, moreSelective, operationSelectivity]
  constructor
  · rw [fst_optimize, hsorted]
    rfl
  · intro h
    have hsettled := h.settled
    unfold Settled at hsettled
    exact absurd hsettled (by decide)

end QueryOptimizer

end Northstar.Queries
