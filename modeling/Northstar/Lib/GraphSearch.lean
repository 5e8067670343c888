import Mathlib.Data.List.Basic
import Mathlib.Tactic.Ring
import Mathlib.Data.List.AList
import Mathlib.Data.List.Chain
import Mathlib.Data.List.Induction
import Mathlib.Order.Basic

/-!
# GraphSearch — marking a graph, and a shortest path

Two searches through a graph that is given by the successors of each node: one with a stack, which marks
whatever can be reached, and one with a queue, which finds a shortest path.
-/

/-! ## Marking a graph with a stack

A stack of nodes to look at, and the nodes that have been looked at already.  A node that is not inside
the graph, or has been marked, is dropped; any other is marked, and its successors are pushed.  Nothing
is asked of the edges: each node is marked once, so the loop ends, on cycles too.
-/

namespace Worklist

variable {ε α : Type} [DecidableEq α]

/-- `none` is a loop that has not ended. -/
def mark (inside : α → Bool) (edges : α → Except ε (List α)) :
    Nat → List α → List α → Option (Except ε (List α))
  | 0, _, _ => none
  | _ + 1, [], marked => some (.ok marked)
  | fuel + 1, x :: stack, marked =>
    if inside x = false ∨ x ∈ marked then mark inside edges fuel stack marked
    else
      match edges x with
      | .error e => some (.error e)
      | .ok successors => mark inside edges fuel (successors.reverse ++ stack) (x :: marked)

/-- The nodes that are still to be marked. -/
def unmarked (nodes marked : List α) : List α := nodes.filter (· ∉ marked)

theorem length_unmarked_lt {nodes marked : List α} {x : α} (hx : x ∈ nodes) (hnew : x ∉ marked) :
    (unmarked nodes (x :: marked)).length < (unmarked nodes marked).length := by
  have hsub : unmarked nodes (x :: marked) = (unmarked nodes marked).filter (· ≠ x) := by
    unfold unmarked
    rw [List.filter_filter]
    apply List.filter_congr
    intro y _
    simp only [List.mem_cons, not_or, Bool.decide_and, ne_eq]
  rw [hsub]
  apply List.length_filter_lt_length_iff_exists.mpr
  exact ⟨x, List.mem_filter.mpr ⟨hx, by simpa using hnew⟩, by simp⟩

theorem exists_fuel {inside : α → Bool} (edges : α → Except ε (List α)) {nodes : List α}
    (hnodes : ∀ x, inside x = true → x ∈ nodes) (stack marked : List α) :
    ∃ fuel result, mark inside edges fuel stack marked = some result := by
  -- on the nodes that are left to mark, and for equally many on the stack
  induction hcount : (unmarked nodes marked).length using Nat.strong_induction_on
    generalizing stack marked with
  | _ count ih =>
    induction stack with
    | nil => exact ⟨1, .ok marked, rfl⟩
    | cons x stack ihstack =>
      rcases ihstack with ⟨fuel, result, hrest⟩
      by_cases hskip : inside x = false ∨ x ∈ marked
      · refine ⟨fuel + 1, result, ?_⟩
        rw [mark, if_pos hskip]
        exact hrest
      · cases hedges : edges x with
        | error e =>
          refine ⟨1, .error e, ?_⟩
          rw [mark, if_neg hskip, hedges]
        | ok successors =>
          rw [not_or, Bool.not_eq_false] at hskip
          have hlt := length_unmarked_lt (hnodes x hskip.1) hskip.2
          rcases ih _ (by omega) (successors.reverse ++ stack) (x :: marked) rfl
            with ⟨fuel, result, hnext⟩
          refine ⟨fuel + 1, result, ?_⟩
          rw [mark, if_neg (by simpa using hskip), hedges]
          exact hnext

end Worklist

/-! ## A shortest path by a search with a queue

Every node that is met gets the node from which it was met as its parent, and goes to the end of the queue; the
start has no parent until an edge leads back to it.  Nodes at the greatest depth are not looked at.  When the goal
is met, the parents lead back to the start.
-/

namespace Northstar.BreadthFirst

variable {α : Type*}

inductive Walk (edges : α → List α) (start : α) : Nat → α → Prop
  | start : Walk edges start 0 start
  | step {n : Nat} {v w : α} (h : Walk edges start n v) (hw : w ∈ edges v) : Walk edges start (n + 1) w

/-- The list begins and ends with two nodes and follows edges. -/
structure IsPath (edges : α → List α) (start goal : α) (path : List α) : Prop where
  first : path.head? = some start
  last : path.getLast? = some goal
  chain : path.IsChain fun a b => b ∈ edges a

variable {edges : α → List α} {start goal v w : α} {path : List α} {n : Nat}

theorem isPath_singleton (edges : α → List α) (v : α) : IsPath edges v v [v] := ⟨rfl, rfl, .singleton v⟩

theorem IsPath.snoc (h : IsPath edges start v path) (hw : w ∈ edges v) : IsPath edges start w (path ++ [w]) := by
  refine ⟨?_, List.getLast?_concat, ?_⟩
  · rw [List.head?_append, h.first]
    rfl
  · apply List.isChain_append.mpr
    refine ⟨h.chain, .singleton w, ?_⟩
    intro a ha b hb
    rw [h.last] at ha
    cases ha
    cases hb
    exact hw

theorem IsPath.walk (h : IsPath edges start v path) : ∃ n, path.length = n + 1 ∧ Walk edges start n v := by
  induction path using List.reverseRecOn generalizing v with
  | nil => exact absurd h.first nofun
  | append_singleton path w ih =>
    have hlast : w = v := by
      have hconcat := h.last
      rw [List.getLast?_concat] at hconcat
      exact Option.some.inj hconcat
    subst hlast
    rw [List.length_append, List.length_singleton]
    cases hpath : path.getLast? with
    | none =>
      -- the path is the start alone
      have hnil := List.getLast?_eq_none_iff.mp hpath
      rw [hnil] at h ⊢
      cases h.first
      exact ⟨0, rfl, .start⟩
    | some u =>
      obtain ⟨hchain, -, hedge⟩ := List.isChain_append.mp h.chain
      have hne : path ≠ [] := by
        intro hnil
        rw [hnil] at hpath
        cases hpath
      have hfirst : path.head? = some start := by
        have hhead := h.first
        rwa [List.head?_append_of_ne_nil _ hne] at hhead
      obtain ⟨n, hlength, hwalk⟩ := ih ⟨hfirst, hpath, hchain⟩
      exact ⟨n + 1, by rw [hlength], hwalk.step (hedge u hpath w rfl)⟩

theorem IsPath.walk_of_ne (h : IsPath edges start goal path) (hne : goal ≠ start) :
    ∃ n, path.length = n + 2 ∧ Walk edges start (n + 1) goal := by
  obtain ⟨n, hlength, hwalk⟩ := h.walk
  cases n with
  | zero =>
    cases hwalk
    exact absurd rfl hne
  | succ n => exact ⟨n, hlength, hwalk⟩

/-- A path is one of the shortest ones and has no more edges than is asked for; without a path there is none as
    short. -/
structure Answers (edges : α → List α) (start goal : α) (maxDepth : Nat) (answer : Option (List α)) : Prop where
  path : ∀ path, answer = some path → IsPath edges start goal path ∧ path.length ≤ maxDepth + 1 ∧
    ∀ other, IsPath edges start goal other → path.length ≤ other.length
  none : answer = none → ∀ other, IsPath edges start goal other → maxDepth + 1 < other.length

theorem answers_self (edges : α → List α) (v : α) (maxDepth : Nat) : Answers edges v v maxDepth (some [v]) := by
  refine ⟨?_, nofun⟩
  intro path hpath
  cases hpath
  refine ⟨isPath_singleton edges v, Nat.le_add_left 1 maxDepth, ?_⟩
  intro other hother
  obtain ⟨n, hlength, -⟩ := hother.walk
  rw [hlength]
  exact Nat.le_add_left 1 n

variable [DecidableEq α]

abbrev Parents (α : Type*) := AList fun _ : α => α

/-- The way back from a node, nodes put at the end; `none` is a loop that has not ended. -/
def walkBack (start : α) (parents : Parents α) : Nat → α → List α → Option (List α)
  | 0, _, _ => none
  | fuel + 1, current, path =>
    if current = start then some path
    else
      match parents.lookup current with
      | some prev => walkBack start parents fuel prev (path ++ [prev])
      | none => some path

/-- The successors of a node one by one, until the goal is met. -/
def visit (goal current : α) (depth : Nat) :
    List α → Parents α → List (α × Nat) → Parents α × List (α × Nat) × Bool
  | [], parents, queue => (parents, queue, false)
  | next :: rest, parents, queue =>
    if next ∈ parents then visit goal current depth rest parents queue
    else if next = goal then (parents.insert next current, queue, true)
    else visit goal current depth rest (parents.insert next current) (queue ++ [(next, depth + 1)])

/-- `none` is a search that has not ended, and `some none` one that has not met the goal. -/
def search (edges : α → List α) (start goal : α) (maxDepth : Nat) :
    Nat → Parents α → List (α × Nat) → Option (Option (List α))
  | 0, _, _ => none
  | _ + 1, _, [] => some none
  | fuel + 1, parents, (current, depth) :: queue =>
    if depth ≥ maxDepth then search edges start goal maxDepth fuel parents queue
    else
      let visited := visit goal current depth (edges current) parents queue
      if visited.2.2 then (walkBack start visited.1 fuel goal [goal]).map fun path => some path.reverse
      else search edges start goal maxDepth fuel visited.1 visited.2.1

/-- A search in the middle: a node that has a parent lies as deep as its level, which is the length of the shortest
    walk to it that is not empty; those behind the queue have been looked at.  `current` is looked at just now. -/
structure Explored (edges : α → List α) (start : α) (maxDepth : Nat) (current : Option (α × Nat)) (level : α → Nat)
    (parents : Parents α) (queue : List (α × Nat)) : Prop where
  queued : ∀ x ∈ queue, x = (start, 0) ∨ (x.1 ∈ parents ∧ x.2 = level x.1)
  sorted : queue.Pairwise fun x y => x.2 ≤ y.2
  walk : ∀ v ∈ parents, 0 < level v ∧ Walk edges start (level v) v
  least : ∀ v ∈ parents, ∀ n, Walk edges start (n + 1) v → level v ≤ n + 1
  closed : ∀ v ∈ parents, (v, level v) ∉ queue → current ≠ some (v, level v) → level v < maxDepth →
    ∀ w ∈ edges v, w ∈ parents
  root : (start, 0) ∉ queue → current ≠ some (start, 0) → 0 < maxDepth → ∀ w ∈ edges start, w ∈ parents
  parent : ∀ v p, parents.lookup v = some p →
    v ∈ edges p ∧ (p = start ∨ (p ∈ parents ∧ level v = level p + 1))

variable {maxDepth depth : Nat} {current : Option (α × Nat)} {level : α → Nat} {parents : Parents α}
  {queue : List (α × Nat)}

/-- Every node that is not as deep as the queue has been met. -/
theorem Explored.mem_of_walk (h : Explored edges start maxDepth current level parents queue)
    (hqueue : ∀ x ∈ queue, depth ≤ x.2) (hcurrent : ∀ x, current = some x → depth ≤ x.2) (hdepth : depth ≤ maxDepth)
    (hwalk : Walk edges start (n + 1) v) (hn : n + 1 ≤ depth) : v ∈ parents := by
  induction n generalizing v with
  | zero =>
    cases hwalk with
    | step hstart hv =>
      cases hstart
      -- the start has been looked at: it is not as deep as what is left
      apply h.root ?_ ?_ (by omega) v hv
      · intro hmem
        have hle : depth ≤ 0 := hqueue _ hmem
        omega
      · intro heq
        have hle : depth ≤ 0 := hcurrent _ heq
        omega
  | succ k ih =>
    cases hwalk with
    | @step _ u _ hu hv =>
      have hmet : u ∈ parents := ih hu (by omega)
      -- so has the node before the last, by the level it got
      have hlevel := h.least u hmet k hu
      apply h.closed u hmet ?_ ?_ (by omega) v hv
      · intro hmem
        have hle : depth ≤ level u := hqueue _ hmem
        omega
      · intro heq
        have hle : depth ≤ level u := hcurrent _ heq
        omega

theorem Explored.pop {x : α × Nat} (h : Explored edges start maxDepth none level parents (x :: queue)) :
    Explored edges start maxDepth (some x) level parents queue where
  queued y hy := h.queued y (List.mem_cons_of_mem _ hy)
  sorted := (List.pairwise_cons.mp h.sorted).2
  walk := h.walk
  least := h.least
  closed v hv hqueue hcurrent := by
    apply h.closed v hv ?_ nofun
    intro hmem
    rcases List.mem_cons.mp hmem with heq | hmem
    · exact hcurrent (congrArg some heq.symm)
    · exact hqueue hmem
  root hqueue hcurrent := by
    apply h.root ?_ nofun
    intro hmem
    rcases List.mem_cons.mp hmem with heq | hmem
    · exact hcurrent (congrArg some heq.symm)
    · exact hqueue hmem
  parent := h.parent

theorem Explored.finish {x : α × Nat} (h : Explored edges start maxDepth (some x) level parents queue)
    (hall : x.2 < maxDepth → ∀ w ∈ edges x.1, w ∈ parents) :
    Explored edges start maxDepth none level parents queue where
  queued := h.queued
  sorted := h.sorted
  walk := h.walk
  least := h.least
  closed v hv hqueue _ hlevel := by
    by_cases hx : x = (v, level v)
    · rw [hx] at hall
      exact hall hlevel
    · exact h.closed v hv hqueue (fun heq => hx (Option.some.inj heq)) hlevel
  root hqueue _ hpos := by
    by_cases hx : x = (start, 0)
    · rw [hx] at hall
      exact hall hpos
    · exact h.root hqueue (fun heq => hx (Option.some.inj heq)) hpos
  parent := h.parent

/-- The node is the start, or has a parent and its level. -/
def Placed (start : α) (level : α → Nat) (parents : Parents α) (x : α × Nat) : Prop :=
  x = (start, 0) ∨ (x.1 ∈ parents ∧ x.2 = level x.1)

variable {x : α × Nat}

theorem Explored.visit_new (h : Explored edges start maxDepth (some x) level parents queue)
    (hx : Placed start level parents x) (hdepth : x.2 < maxDepth) (hqueue : ∀ y ∈ queue, x.2 ≤ y.2 ∧ y.2 ≤ x.2 + 1)
    (hw : w ∈ edges x.1) (hnew : w ∉ parents) :
    Explored edges start maxDepth (some x) (Function.update level w (x.2 + 1)) (parents.insert w x.1)
      (queue ++ [(w, x.2 + 1)]) := by
  -- the nodes met before keep their levels
  have hold : ∀ v ∈ parents, Function.update level w (x.2 + 1) v = level v := by
    intro v hv
    apply Function.update_of_ne
    rintro rfl
    exact hnew hv
  have hself : Function.update level w (x.2 + 1) w = x.2 + 1 := Function.update_self ..
  have hwalk : Walk edges start (x.2 + 1) w := by
    rcases hx with rfl | ⟨hmet, hlevel⟩
    · exact Walk.start.step hw
    · rw [hlevel]
      exact (h.walk _ hmet).2.step hw
  constructor
  · intro y hy
    rcases List.mem_append.mp hy with hy | hy
    · rcases h.queued y hy with hstart | ⟨hmet, hlevel⟩
      · exact .inl hstart
      · right
        rw [hold _ hmet]
        exact ⟨(AList.mem_insert _).mpr (.inr hmet), hlevel⟩
    · rw [List.mem_singleton.mp hy]
      exact .inr ⟨(AList.mem_insert _).mpr (.inl rfl), hself.symm⟩
  · apply List.pairwise_append.mpr
    refine ⟨h.sorted, List.pairwise_singleton _ _, ?_⟩
    intro y hy z hz
    rw [List.mem_singleton.mp hz]
    exact (hqueue y hy).2
  · intro v hv
    rcases (AList.mem_insert _).mp hv with rfl | hv
    · rw [hself]
      exact ⟨Nat.succ_pos _, hwalk⟩
    · rw [hold v hv]
      exact h.walk v hv
  · intro v hv n hn
    rcases (AList.mem_insert _).mp hv with rfl | hv
    · -- on a shorter walk it would have been met before
      rw [hself]
      by_contra hlt
      apply hnew
      apply h.mem_of_walk (fun y hy => (hqueue y hy).1) ?_ (Nat.le_of_lt hdepth) hn (by omega)
      intro y hy
      rw [Option.some.inj hy]
    · rw [hold v hv]
      exact h.least v hv n hn
  · intro v hv hmem hcurrent hlevel u hu
    apply (AList.mem_insert _).mpr
    right
    rcases (AList.mem_insert _).mp hv with rfl | hv
    · rw [hself] at hmem
      exact absurd (List.mem_append_right _ (List.mem_singleton_self _)) hmem
    · rw [hold v hv] at hmem hcurrent hlevel
      exact h.closed v hv (fun hm => hmem (List.mem_append_left _ hm)) hcurrent hlevel u hu
  · intro hmem hcurrent hpos u hu
    exact (AList.mem_insert _).mpr (.inr (h.root (fun hm => hmem (List.mem_append_left _ hm)) hcurrent hpos u hu))
  · intro v p hp
    by_cases hv : v = w
    · subst hv
      rw [AList.lookup_insert] at hp
      cases hp
      refine ⟨hw, ?_⟩
      rcases hx with hstart | ⟨hmet, hlevel⟩
      · rw [hstart]
        exact .inl rfl
      · right
        rw [hself, hold _ hmet, hlevel]
        exact ⟨(AList.mem_insert _).mpr (.inr hmet), rfl⟩
    · rw [AList.lookup_insert_ne hv] at hp
      obtain ⟨hedge, hparent⟩ := h.parent v p hp
      have hmet : v ∈ parents := AList.lookup_isSome.mp (by rw [hp]; rfl)
      refine ⟨hedge, ?_⟩
      rcases hparent with hstart | ⟨hpmet, hlevel⟩
      · exact .inl hstart
      · right
        rw [hold v hmet, hold p hpmet]
        exact ⟨(AList.mem_insert _).mpr (.inr hpmet), hlevel⟩

/-- The nodes that have no parent yet. -/
def unmet (nodes : List α) (parents : Parents α) : List α := nodes.filter (· ∉ parents)

variable {nodes : List α}

theorem length_unmet_insert {p : α} (hw : w ∈ nodes) (hnew : w ∉ parents) :
    (unmet nodes (parents.insert w p)).length < (unmet nodes parents).length := by
  have hsub : unmet nodes (parents.insert w p) = (unmet nodes parents).filter (· ≠ w) := by
    unfold unmet
    rw [List.filter_filter]
    apply List.filter_congr
    intro v _
    simp only [AList.mem_insert, not_or, Bool.decide_and, ne_eq]
  rw [hsub]
  apply List.length_filter_lt_length_iff_exists.mpr
  exact ⟨w, List.mem_filter.mpr ⟨hw, decide_eq_true hnew⟩, by simp⟩

/-- The goal has been met, one deeper than the node that is looked at. -/
def Met (edges : α → List α) (start goal : α) (maxDepth : Nat) (x : α × Nat) (parents : Parents α) : Prop :=
  ∃ level queue, Explored edges start maxDepth (some x) level parents queue ∧ goal ∈ parents ∧ level goal = x.2 + 1

/-- All successors have been met, and the goal is not one of them. -/
structure Passed (edges : α → List α) (start goal : α) (maxDepth : Nat) (x : α × Nat) (successors : List α)
    (parents parents' : Parents α) (queue' : List (α × Nat)) : Prop where
  explored : ∃ level, Explored edges start maxDepth (some x) level parents' queue'
  near : ∀ y ∈ queue', x.2 ≤ y.2 ∧ y.2 ≤ x.2 + 1
  goal : goal ∉ parents'
  all : ∀ w ∈ successors, w ∈ parents'
  kept : ∀ v ∈ parents, v ∈ parents'

theorem visit_spec {successors : List α} (h : Explored edges start maxDepth (some x) level parents queue)
    (hx : Placed start level parents x) (hdepth : x.2 < maxDepth) (hqueue : ∀ y ∈ queue, x.2 ≤ y.2 ∧ y.2 ≤ x.2 + 1)
    (hsuccessors : ∀ w ∈ successors, w ∈ edges x.1) (hgoal : goal ∉ parents) :
    let visited := visit goal x.1 x.2 successors parents queue
    (visited.2.2 = true → Met edges start goal maxDepth x visited.1) ∧
      (visited.2.2 = false → Passed edges start goal maxDepth x successors parents visited.1 visited.2.1) := by
  induction successors generalizing level parents queue with
  | nil => exact ⟨nofun, fun _ => ⟨⟨level, h⟩, hqueue, hgoal, nofun, fun _ hv => hv⟩⟩
  | cons next rest ih =>
    have hedge : next ∈ edges x.1 := hsuccessors next (List.mem_cons_self ..)
    have hrest : ∀ w ∈ rest, w ∈ edges x.1 := fun w hw => hsuccessors w (List.mem_cons_of_mem _ hw)
    unfold visit
    by_cases hmet : next ∈ parents
    · rw [if_pos hmet]
      obtain ⟨hfound, hpassed⟩ := ih h hx hqueue hrest hgoal
      refine ⟨hfound, ?_⟩
      intro hfalse
      have hp := hpassed hfalse
      refine ⟨hp.explored, hp.near, hp.goal, ?_, hp.kept⟩
      intro w hw
      rcases List.mem_cons.mp hw with rfl | hw
      · exact hp.kept w hmet
      · exact hp.all w hw
    · rw [if_neg hmet]
      -- a node that is met for the first time
      have hnew := h.visit_new hx hdepth hqueue hedge hmet
      by_cases hnext : next = goal
      · rw [if_pos hnext]
        refine ⟨fun _ => ⟨_, _, hnew, ?_, ?_⟩, nofun⟩
        · exact (AList.mem_insert _).mpr (.inl hnext.symm)
        · rw [← hnext]
          exact Function.update_self ..
      · rw [if_neg hnext]
        -- the node that is looked at keeps its place
        have hx' : Placed start (Function.update level next (x.2 + 1)) (parents.insert next x.1) x := by
          rcases hx with hstart | ⟨hxmet, hlevel⟩
          · exact .inl hstart
          · have hne : x.1 ≠ next := by
              intro heq
              rw [heq] at hxmet
              exact hmet hxmet
            right
            refine ⟨(AList.mem_insert _).mpr (.inr hxmet), ?_⟩
            rw [Function.update_of_ne hne, hlevel]
        have hqueue' : ∀ y ∈ queue ++ [(next, x.2 + 1)], x.2 ≤ y.2 ∧ y.2 ≤ x.2 + 1 := by
          intro y hy
          rcases List.mem_append.mp hy with hy | hy
          · exact hqueue y hy
          · rw [List.mem_singleton.mp hy]
            exact ⟨Nat.le_succ _, Nat.le_refl _⟩
        have hgoal' : goal ∉ parents.insert next x.1 := by
          intro hmem
          rcases (AList.mem_insert _).mp hmem with heq | hmem
          · exact hnext heq.symm
          · exact hgoal hmem
        obtain ⟨hfound, hpassed⟩ := ih hnew hx' hqueue' hrest hgoal'
        refine ⟨hfound, ?_⟩
        intro hfalse
        have hp := hpassed hfalse
        refine ⟨hp.explored, hp.near, hp.goal, ?_, fun v hv => hp.kept v ((AList.mem_insert _).mpr (.inr hv))⟩
        intro w hw
        rcases List.mem_cons.mp hw with rfl | hw
        · exact hp.kept w ((AList.mem_insert _).mpr (.inl rfl))
        · exact hp.all w hw

/-- A node that goes to the queue is no longer one of those that have not been met. -/
theorem visit_measure {nodes successors : List α} {y : α} {d : Nat} (hnodes : ∀ w ∈ successors, w ∈ nodes) :
    (unmet nodes (visit goal y d successors parents queue).1).length
      + (visit goal y d successors parents queue).2.1.length ≤ (unmet nodes parents).length + queue.length := by
  induction successors generalizing parents queue with
  | nil => exact Nat.le_refl _
  | cons next rest ih =>
    have hrest : ∀ w ∈ rest, w ∈ nodes := fun w hw => hnodes w (List.mem_cons_of_mem _ hw)
    unfold visit
    by_cases hmet : next ∈ parents
    · rw [if_pos hmet]
      exact ih hrest
    · rw [if_neg hmet]
      -- one more in the queue, and one less that is not met
      have hlt := length_unmet_insert (p := y) (hnodes next (List.mem_cons_self ..)) hmet
      by_cases hnext : next = goal
      · rw [if_pos hnext]
        show (unmet nodes (parents.insert next y)).length + queue.length ≤ _
        omega
      · rw [if_neg hnext]
        have hlength : (queue ++ [(next, d + 1)]).length = queue.length + 1 := List.length_append
        apply le_trans (ih hrest)
        rw [hlength]
        omega

/-- The parents of a node lead to the start in no more steps than its level. -/
theorem walkBack_spec (h : Explored edges start maxDepth current level parents queue) {k : Nat}
    (hv : v = start ∨ (v ∈ parents ∧ level v ≤ k)) :
    ∃ back, IsPath edges start v back.reverse ∧ back.length ≤ k + 1 ∧
      ∀ fuel path, k + 1 ≤ fuel → walkBack start parents fuel v (path ++ [v]) = some (path ++ back) := by
  induction k generalizing v with
  | zero =>
    rcases hv with rfl | ⟨hmet, hlevel⟩
    · refine ⟨[v], isPath_singleton edges v, Nat.le_refl 1, ?_⟩
      intro fuel path hfuel
      cases fuel with
      | zero => omega
      | succ fuel => rw [walkBack, if_pos rfl]
    · -- only the start has level zero
      have hpos := (h.walk v hmet).1
      omega
  | succ k ih =>
    by_cases hstart : v = start
    · subst hstart
      refine ⟨[v], isPath_singleton edges v, Nat.le_add_left 1 _, ?_⟩
      intro fuel path hfuel
      cases fuel with
      | zero => omega
      | succ fuel => rw [walkBack, if_pos rfl]
    · obtain ⟨hmet, hlevel⟩ := hv.resolve_left hstart
      obtain ⟨p, hp⟩ := Option.isSome_iff_exists.mp (AList.lookup_isSome.mpr hmet)
      obtain ⟨hedge, hparent⟩ := h.parent v p hp
      have hp' : p = start ∨ (p ∈ parents ∧ level p ≤ k) := by
        rcases hparent with heq | ⟨hpmet, hplevel⟩
        · exact .inl heq
        · exact .inr ⟨hpmet, by omega⟩
      obtain ⟨back, hpath, hlength, hwalk⟩ := ih hp'
      refine ⟨v :: back, ?_, by rw [List.length_cons]; omega, ?_⟩
      · rw [List.reverse_cons]
        exact hpath.snoc hedge
      · intro fuel path hfuel
        cases fuel with
        | zero => omega
        | succ fuel =>
          have hrest := hwalk fuel (path ++ [v]) (by omega)
          rw [walkBack, if_neg hstart, hp]
          dsimp only
          rw [hrest, List.append_assoc, List.singleton_append]

theorem answers_of_met (h : Met edges start goal maxDepth x parents) (hdepth : x.2 < maxDepth) (hne : goal ≠ start) :
    ∃ back, Answers edges start goal maxDepth (some back.reverse) ∧
      ∀ fuel, maxDepth + 1 ≤ fuel → walkBack start parents fuel goal [goal] = some back := by
  obtain ⟨level, queue, hexplored, hmet, hlevel⟩ := h
  obtain ⟨back, hpath, hlength, hback⟩ := walkBack_spec hexplored (.inr ⟨hmet, Nat.le_refl (level goal)⟩)
  refine ⟨back, ⟨?_, nofun⟩, fun fuel hfuel => hback fuel [] (by omega)⟩
  intro path hanswer
  cases hanswer
  rw [List.length_reverse]
  refine ⟨hpath, by omega, ?_⟩
  intro other hother
  obtain ⟨n, hlong, hwalk⟩ := hother.walk_of_ne hne
  have hleast := hexplored.least goal hmet n hwalk
  omega

/-- With fuel for every node that has not been met, for the queue and for the way back, the search ends. -/
theorem search_spec (hnodes : ∀ v, ∀ w ∈ edges v, w ∈ nodes) (hne : goal ≠ start)
    (h : Explored edges start maxDepth none level parents queue)
    (hnarrow : ∀ y ∈ queue, ∀ z ∈ queue, z.2 ≤ y.2 + 1) (hgoal : goal ∉ parents) :
    ∃ answer, Answers edges start goal maxDepth answer ∧
      ∀ fuel, (unmet nodes parents).length + queue.length + maxDepth + 2 ≤ fuel →
        search edges start goal maxDepth fuel parents queue = some answer := by
  -- every turn of the loop takes one node from the queue, and adds to it only nodes that are met just now
  induction hcount : (unmet nodes parents).length + queue.length using Nat.strongRecOn
    generalizing level parents queue with
  | ind count ih =>
    cases queue with
    | nil =>
      -- with an empty queue every node that is near enough has been met
      refine ⟨none, ⟨nofun, ?_⟩, ?_⟩
      · intro _ other hother
        obtain ⟨n, hlength, hwalk⟩ := hother.walk_of_ne hne
        by_contra hshort
        exact hgoal (h.mem_of_walk nofun nofun (Nat.le_refl maxDepth) hwalk (by omega))
      · intro fuel hfuel
        cases fuel with
        | zero => omega
        | succ fuel => rfl
    | cons x queue =>
      have hpop := h.pop
      have hx : Placed start level parents x := h.queued x (List.mem_cons_self ..)
      have hqueue : ∀ y ∈ queue, x.2 ≤ y.2 ∧ y.2 ≤ x.2 + 1 := fun y hy =>
        ⟨(List.pairwise_cons.mp h.sorted).1 y hy, hnarrow x (List.mem_cons_self ..) y (List.mem_cons_of_mem _ hy)⟩
      have hrest : ∀ y ∈ queue, ∀ z ∈ queue, z.2 ≤ y.2 + 1 := fun y hy z hz =>
        hnarrow y (List.mem_cons_of_mem _ hy) z (List.mem_cons_of_mem _ hz)
      by_cases hdepth : x.2 ≥ maxDepth
      · -- too deep: its successors are not looked at
        have hskip := hpop.finish fun hlt => absurd hdepth (Nat.not_le.mpr hlt)
        obtain ⟨answer, hanswer, hsearch⟩ := ih _ (by rw [← hcount, List.length_cons]; omega) hskip hrest hgoal rfl
        refine ⟨answer, hanswer, ?_⟩
        intro fuel hfuel
        cases fuel with
        | zero => omega
        | succ fuel =>
          rw [search, if_pos hdepth]
          exact hsearch fuel (by rw [← hcount, List.length_cons] at hfuel; omega)
      · have hlt : x.2 < maxDepth := Nat.not_le.mp hdepth
        obtain ⟨hfound, hpassed⟩ := visit_spec hpop hx hlt hqueue (fun _ hw => hw) hgoal
        have hmeasure : (unmet nodes (visit goal x.1 x.2 (edges x.1) parents queue).1).length
            + (visit goal x.1 x.2 (edges x.1) parents queue).2.1.length ≤ (unmet nodes parents).length + queue.length :=
          visit_measure (hnodes x.1)
        cases hflag : (visit goal x.1 x.2 (edges x.1) parents queue).2.2 with
        | true =>
          -- the goal is met, and the loop ends
          obtain ⟨back, hanswers, hback⟩ := answers_of_met (hfound hflag) hlt hne
          refine ⟨some back.reverse, hanswers, ?_⟩
          intro fuel hfuel
          cases fuel with
          | zero => omega
          | succ fuel =>
            rw [search, if_neg hdepth]
            dsimp only
            rw [hflag, if_pos rfl, hback fuel (by omega)]
            rfl
        | false =>
          have hp := hpassed hflag
          obtain ⟨level', hexplored⟩ := hp.explored
          -- all successors are met, and the loop goes on
          have hfinish := hexplored.finish fun _ => hp.all
          have hnarrow' : ∀ y ∈ (visit goal x.1 x.2 (edges x.1) parents queue).2.1,
              ∀ z ∈ (visit goal x.1 x.2 (edges x.1) parents queue).2.1, z.2 ≤ y.2 + 1 := by
            intro y hy z hz
            have hlow := (hp.near y hy).1
            have hhigh := (hp.near z hz).2
            omega
          obtain ⟨answer, hanswer, hsearch⟩ := ih _ (by rw [← hcount, List.length_cons]; omega) hfinish hnarrow' hp.goal
            rfl
          refine ⟨answer, hanswer, ?_⟩
          intro fuel hfuel
          cases fuel with
          | zero => omega
          | succ fuel =>
            rw [search, if_neg hdepth]
            dsimp only
            rw [hflag, if_neg Bool.false_ne_true]
            exact hsearch fuel (by rw [← hcount, List.length_cons] at hfuel; omega)

theorem explored_start (edges : α → List α) (start : α) (maxDepth : Nat) :
    Explored edges start maxDepth none (fun _ => 0) ∅ [(start, 0)] where
  queued x hx := .inl (List.mem_singleton.mp hx)
  sorted := List.pairwise_singleton _ _
  walk v hv := absurd hv (AList.notMem_empty v)
  least v hv := absurd hv (AList.notMem_empty v)
  closed v hv := absurd hv (AList.notMem_empty v)
  root hqueue := absurd (List.mem_singleton_self _) hqueue
  parent v p hp := by
    rw [AList.lookup_empty] at hp
    cases hp

theorem search_start (hnodes : ∀ v, ∀ w ∈ edges v, w ∈ nodes) (hne : goal ≠ start) (maxDepth : Nat) :
    ∃ answer bound, Answers edges start goal maxDepth answer ∧
      ∀ fuel, bound ≤ fuel → search edges start goal maxDepth fuel ∅ [(start, 0)] = some answer := by
  have hnarrow : ∀ y ∈ [(start, 0)], ∀ z ∈ [(start, 0)], z.2 ≤ y.2 + 1 := by
    intro y hy z hz
    rw [List.mem_singleton.mp hy, List.mem_singleton.mp hz]
    exact Nat.le_succ 0
  obtain ⟨answer, hanswer, hsearch⟩ := search_spec hnodes hne (explored_start edges start maxDepth) hnarrow
    (AList.notMem_empty goal)
  exact ⟨answer, _, hanswer, hsearch⟩

end Northstar.BreadthFirst
