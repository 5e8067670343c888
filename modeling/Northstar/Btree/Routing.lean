import Mathlib.Data.UInt
import Northstar.Btree.Edits

/-!
# Routing — where an internal node sends a key

`InternalNode::insert`, `find_child`, `insert_into_internal` and `split_internal_node`.  A key goes to
the child whose number is the number of separators that are not larger.  `insert` puts the new child
in front of its separator, where the child on the other side belongs, and a split gives the new node
the promoted separator once more, with the children one place too far to the left.
-/

namespace Northstar.Btree

open SortedEntries Pager EStateM

namespace InternalNode

/-- Sorted separators, one more child than separators. -/
structure WellFormed (node : InternalNode) : Prop where
  sorted : Sorted id node.separators
  count : node.children.length = node.separators.length + 1

/-- Where a key should go once `separator` and `child` are in the node: the keys from the separator to
the next one go to the child. -/
def newRoute (node : InternalNode) (separator : Bytes) (child : UInt64) (key : Bytes) :
    Except Fault UInt64 :=
  if separator ≤ key ∧ ∀ s ∈ node.separators, separator < s → key < s then .ok child
  else node.findChild key

/-- The two nodes of a split, told apart by the promoted separator. -/
def halves (left : InternalNode) (promoted : Bytes) (right : InternalNode) (key : Bytes) :
    Except Fault UInt64 :=
  if key < promoted then left.findChild key else right.findChild key

/-- Behind the split point all children are the last one. -/
def OneChildBehind (node : InternalNode) : Prop :=
  ∀ c ∈ node.children.drop (node.separators.length / 2 + 1), node.children.getLast? = some c

/-- How many separators are not larger than the key. -/
def slot (separators : List Bytes) (key : Bytes) : Nat := separators.countP (· ≤ key)

theorem slot_append (xs ys : List Bytes) (key : Bytes) :
    slot (xs ++ ys) key = slot xs key + slot ys key := List.countP_append

theorem slot_of_le {xs : List Bytes} {key : Bytes} (h : ∀ x ∈ xs, x ≤ key) :
    slot xs key = xs.length := by
  apply List.countP_eq_length.mpr
  intro x hx
  simpa using h x hx

theorem slot_of_gt {xs : List Bytes} {key : Bytes} (h : ∀ x ∈ xs, key < x) : slot xs key = 0 := by
  apply List.countP_eq_zero.mpr
  intro x hx
  simpa using h x hx

theorem slot_le_length (xs : List Bytes) (key : Bytes) : slot xs key ≤ xs.length :=
  List.countP_le_length

variable {key separator : Bytes} {child : UInt64}

theorem slot_mono (xs : List Bytes) {key' : Bytes} (h : key ≤ key') :
    slot xs key ≤ slot xs key' := by
  apply List.countP_mono_left
  intro x _ hx
  have hle : x ≤ key := by simpa using hx
  simpa using hle.trans h

variable {node : InternalNode}

theorem findChild_eq (h : WellFormed node) (key : Bytes) :
    node.findChild key = .ok (node.children.getD (slot node.separators key) 0) := by
  have hget : ∀ i, i ≤ node.separators.length →
      node.children[i]? = some (node.children.getD i 0) := by
    intro i hi
    have hlt : i < node.children.length := by
      rw [h.count]
      omega
    rw [List.getD_eq_getElem?_getD, List.getElem?_eq_getElem hlt]
    rfl
  unfold findChild position
  rcases binarySearch_cases h.sorted key with
    ⟨pre, x, suf, hseps, hkey, hsearch⟩ | ⟨pre, suf, hseps, hpre, hsuf, hsearch⟩
  · have hsorted := h.sorted
    rw [hseps] at hsorted
    rcases sorted_around hsorted with ⟨hpre, hsuf⟩
    have hkey : x = key := hkey
    have hslot : slot node.separators key = pre.length + 1 := by
      rw [hseps, slot_append, slot_of_le (fun p hp => hkey ▸ (hpre p hp).le)]
      show pre.length + slot ([x] ++ suf) key = _
      rw [slot_append, slot_of_le (by simp [hkey]), slot_of_gt (fun s hs => hkey ▸ hsuf s hs)]
      rfl
    have hat : node.separators[pre.length]? = some key := by
      rw [hseps, getElem?_middle, hkey]
    simp only [hsearch]
    rw [if_pos hat, hslot, hget]
    rw [hseps, List.length_append, List.length_cons]
    omega
  · have hslot : slot node.separators key = pre.length := by
      rw [hseps, slot_append, slot_of_le (fun p hp => (hpre p hp).le), slot_of_gt hsuf, Nat.add_zero]
    have hat : ¬ node.separators[pre.length]? = some key := by
      intro hsome
      rw [hseps, List.getElem?_append_right (Nat.le_refl _), Nat.sub_self] at hsome
      exact absurd (hsuf key (List.mem_of_getElem? hsome)) (lt_irrefl key)
    simp only [hsearch]
    rw [if_neg hat, hslot, hget]
    rw [hseps, List.length_append]
    omega

theorem findChild_congr (h : WellFormed node) {key' : Bytes}
    (hslot : slot node.separators key = slot node.separators key') :
    node.findChild key = node.findChild key' := by
  rw [findChild_eq h, findChild_eq h, hslot]

variable {seps : List Bytes} {node' : InternalNode}

theorem slot_eq_iff (hle : separator ≤ key) :
    slot seps key = slot seps separator ↔ ∀ s ∈ seps, separator < s → key < s := by
  induction seps with
  | nil => simp [slot]
  | cons x seps ih =>
    have hmono := slot_mono seps hle
    have hcons : ∀ k, slot (x :: seps) k = slot seps k + if x ≤ k then 1 else 0 := by
      intro k
      unfold slot
      rw [List.countP_cons]
      simp
    rw [hcons, hcons, List.forall_mem_cons]
    by_cases hx : x ≤ separator
    · rw [if_pos hx, if_pos (hx.trans hle)]
      have hdrop : (separator < x → key < x) ↔ True :=
        ⟨fun _ => trivial, fun _ hlt => absurd hlt hx.not_gt⟩
      rw [hdrop, true_and, ← ih]
      omega
    · rw [if_neg hx]
      have hlt : separator < x := not_le.mp hx
      by_cases hxk : x ≤ key
      · rw [if_pos hxk]
        constructor
        · intro heq
          omega
        · intro hall
          exact absurd (hall.1 hlt) hxk.not_gt
      · rw [if_neg hxk, ← ih]
        have hxk : key < x := not_le.mp hxk
        constructor
        · exact fun heq => ⟨fun _ => hxk, by omega⟩
        · intro hall
          have := hall.2
          omega

theorem insertAt_eq_ok {α : Type} {xs ys : List α} {pos : Nat} {x : α}
    (h : insertAt xs pos x = .ok ys) : ys = xs.insertIdx pos x := by
  unfold insertAt at h
  by_cases hpos : pos ≤ xs.length
  · rw [if_pos hpos] at h
    exact (Except.ok.inj h).symm
  · rw [if_neg hpos] at h
    cases h

theorem insert_eq_ok (h : node.insert separator child = .ok node') :
    node'.separators = node.separators.insertIdx (position id separator node.separators) separator ∧
      node'.children = node.children.insertIdx (position id separator node.separators) child := by
  unfold insert at h
  dsimp only at h
  by_cases hspace : ¬ node.header.hasSpace (1 + separator.length + 8) = true
  · rw [if_pos hspace] at h
    cases h
  · rw [if_neg hspace] at h
    rcases Except.bind_eq_ok_iff.mp h with ⟨seps, hseps, h⟩
    rcases Except.bind_eq_ok_iff.mp h with ⟨children, hchildren, h⟩
    cases h
    exact ⟨insertAt_eq_ok hseps, insertAt_eq_ok hchildren⟩

theorem exists_cut (hsorted : Sorted id seps)
    (hnew : separator ∉ seps) : ∃ pre suf, seps = pre ++ suf ∧ (∀ p ∈ pre, p < separator) ∧
      (∀ s ∈ suf, separator < s) ∧ position id separator seps = pre.length := by
  rcases binarySearch_cases hsorted separator with
    ⟨pre, x, suf, hseps, hkey, -⟩ | ⟨pre, suf, hseps, hpre, hsuf, hsearch⟩
  · have hmem : x ∈ seps := by
      rw [hseps]
      exact List.mem_append_right _ (List.mem_cons_self ..)
    have hkey : x = separator := hkey
    exact absurd (hkey ▸ hmem) hnew
  · refine ⟨pre, suf, hseps, hpre, hsuf, ?_⟩
    unfold position
    rw [hsearch]

theorem getD_insertIdx {xs : List UInt64} {pos : Nat} (hpos : pos ≤ xs.length) (x : UInt64) (i : Nat) :
    (xs.insertIdx pos x).getD i 0 =
      if i < pos then xs.getD i 0 else if i = pos then x else xs.getD (i - 1) 0 := by
  simp only [List.getD_eq_getElem?_getD, List.getElem?_insertIdx]
  by_cases hlt : i < pos
  · simp [hlt]
  · by_cases heq : i = pos
    · simp [heq, hpos]
    · simp [hlt, heq]

/-- What an insertion does to the routes: the new child gets the keys on the wrong side of its
separator. -/
theorem findChild_insert (h : WellFormed node) (hnew : separator ∉ node.separators)
    (hinsert : node.insert separator child = .ok node') :
    WellFormed node' ∧ ∀ key, node'.findChild key =
      if key < separator ∧ slot node.separators key = slot node.separators separator then .ok child
      else node.findChild key := by
  rcases insert_eq_ok hinsert with ⟨hseps, hchildren⟩
  rcases exists_cut h.sorted hnew with ⟨pre, suf, hsplit, hpre, hsuf, hpos⟩
  rw [hpos] at hseps hchildren
  have hposle : pre.length ≤ node.children.length := by
    rw [h.count, hsplit, List.length_append]
    omega
  rw [hsplit, insertIdx_middle] at hseps
  have hwf : WellFormed node' := by
    constructor
    · rw [hseps]
      exact sorted_insert (hsplit ▸ h.sorted) hpre hsuf
    · rw [hchildren, hseps, List.length_insertIdx_of_le_length hposle, h.count, hsplit]
      simp only [List.length_append, List.length_cons]
      omega
  refine ⟨hwf, ?_⟩
  intro key
  have hown : slot node.separators separator = pre.length := by
    rw [hsplit, slot_append, slot_of_le (fun p hp => (hpre p hp).le), slot_of_gt hsuf, Nat.add_zero]
  have hslot : slot node'.separators key =
      slot node.separators key + if separator ≤ key then 1 else 0 := by
    rw [hseps, hsplit, slot_append, slot_append]
    show slot pre key + slot ([separator] ++ suf) key = _
    rw [slot_append]
    by_cases hle : separator ≤ key
    · rw [@slot_of_le [separator] key (by simpa using hle), if_pos hle, List.length_singleton]
      omega
    · rw [@slot_of_gt [separator] key (by simpa using not_le.mp hle), if_neg hle]
      omega
  rw [findChild_eq hwf, findChild_eq h, hchildren, getD_insertIdx hposle, hslot, hown]
  by_cases hle : separator ≤ key
  · -- the key keeps its child, one place further on
    have hge := slot_mono node.separators hle
    rw [hown] at hge
    rw [if_pos hle, if_neg (by omega), if_neg (by omega), if_neg (by simp [not_lt.mpr hle]),
      Nat.add_sub_cancel]
  · have hlt : key < separator := not_le.mp hle
    have hge := slot_mono node.separators hlt.le
    rw [hown] at hge
    rw [if_neg hle, Nat.add_zero]
    by_cases heq : slot node.separators key = pre.length
    · rw [if_neg (by omega), if_pos heq, if_pos ⟨hlt, heq⟩]
    · rw [if_pos (by omega), if_neg (by simp [heq])]

theorem newRoute_iff (h : WellFormed node)
    {route : Bytes → Except Fault UInt64}
    (hroute : ∀ key, route key =
      if key < separator ∧ slot node.separators key = slot node.separators separator then .ok child
      else node.findChild key) :
    (∀ key, route key = newRoute node separator child key) ↔
      node.findChild separator = .ok child := by
  constructor
  · intro hall
    have hat := hall separator
    rw [hroute, if_neg (by simp), newRoute, if_pos ⟨le_refl _, fun s _ hs => hs⟩] at hat
    exact hat
  · intro hchild key
    have hsame : slot node.separators key = slot node.separators separator →
        node.findChild key = .ok child := fun hslot => (findChild_congr h hslot).trans hchild
    rw [hroute, newRoute]
    by_cases hle : separator ≤ key
    · rw [if_neg (by simp [not_lt.mpr hle])]
      by_cases hgap : ∀ s ∈ node.separators, separator < s → key < s
      · rw [if_pos ⟨hle, hgap⟩]
        exact hsame ((slot_eq_iff hle).mpr hgap)
      · rw [if_neg (fun hc => hgap hc.2)]
    · rw [if_neg (c := separator ≤ key ∧ _) (fun hc => hle hc.1)]
      by_cases hslot : slot node.separators key = slot node.separators separator
      · rw [if_pos ⟨not_le.mp hle, hslot⟩, hsame hslot]
      · rw [if_neg (fun hc => hslot hc.2)]

theorem newRoute_iff_of_dropped (h : WellFormed node)
    : (∀ key, node.findChild key = newRoute node separator child key) ↔
      node.findChild separator = .ok child := by
  constructor
  · intro hall
    have hat := hall separator
    rw [newRoute, if_pos ⟨le_refl _, fun s _ hs => hs⟩] at hat
    exact hat
  · intro hchild key
    rw [newRoute]
    by_cases hgap : separator ≤ key ∧ ∀ s ∈ node.separators, separator < s → key < s
    · rw [if_pos hgap]
      exact (findChild_congr h ((slot_eq_iff hgap.1).mpr hgap.2)).trans hchild
    · rw [if_neg hgap]

theorem insertAll_eq_ok {moved : List (Bytes × UInt64)}
    (hcount : node.children.length = node.separators.length)
    (hsorted : Sorted id (node.separators ++ moved.map Prod.fst))
    (h : node.insertAll moved = .ok node') :
    node'.separators = node.separators ++ moved.map Prod.fst ∧
      node'.children = node.children ++ moved.map Prod.snd := by
  induction moved generalizing node with
  | nil =>
    cases h
    simp
  | cons b moved ih =>
    rcases b with ⟨separator, child⟩
    rcases Except.bind_eq_ok_iff.mp h with ⟨node₁, hinsert, hrest⟩
    rcases insert_eq_ok hinsert with ⟨hseps, hchildren⟩
    rw [List.map_cons] at hsorted
    rcases sorted_around hsorted with ⟨hbefore, -⟩
    have hbefore : ∀ s ∈ node.separators, s < separator := hbefore
    -- every separator that arrives is the largest yet
    have hpos : position id separator node.separators = node.separators.length := by
      have hnew : separator ∉ node.separators := fun hmem => lt_irrefl _ (hbefore separator hmem)
      have hhead : Sorted id node.separators := (List.pairwise_append.mp hsorted).1
      rcases exists_cut hhead hnew with ⟨pre, suf, hsplit, -, hsuf, hpos⟩
      have hnil : suf = [] := by
        apply List.eq_nil_iff_forall_not_mem.mpr
        intro s hs
        have hmem : s ∈ node.separators := hsplit ▸ List.mem_append_right _ hs
        exact absurd (hsuf s hs) (hbefore s hmem).not_gt
      rw [hpos, hsplit, hnil, List.append_nil]
    rw [hpos, List.insertIdx_length_self] at hseps
    rw [hpos, ← hcount, List.insertIdx_length_self] at hchildren
    have hcount₁ : node₁.children.length = node₁.separators.length := by
      rw [hseps, hchildren, List.length_append, List.length_append, hcount]
      rfl
    have hsorted₁ : Sorted id (node₁.separators ++ moved.map Prod.fst) := by
      rw [hseps, List.append_assoc]
      exact hsorted
    rcases ih hcount₁ hsorted₁ hrest with ⟨hs, hc⟩
    constructor
    · rw [hs, hseps, List.append_assoc]
      rfl
    · rw [hc, hchildren, List.append_assoc]
      rfl

structure SplitInto (node left : InternalNode) (promoted : Bytes) (right : InternalNode) : Prop where
  middle : node.separators[node.separators.length / 2]? = some promoted
  leftSeparators : left.separators = node.separators.take (node.separators.length / 2)
  leftChildren : left.children = node.children.take (node.separators.length / 2 + 1)
  rightSeparators : right.separators = node.separators.drop (node.separators.length / 2)
  rightChildren : ∃ last, node.children.getLast? = some last ∧
    right.children = node.children.drop (node.separators.length / 2 + 1) ++ [last]

variable {promoted : Bytes} {left right : InternalNode} {pager pager' : Pager}

theorem splitInto_of_run {env : Env} (h : WellFormed node)
    (hrun : (splitInternalNode env node).run pager = .ok (right, promoted, left) pager') :
    SplitInto node left promoted right := by
  unfold splitInternalNode at hrun
  dsimp only at hrun
  rcases run_bind_eq_ok_iff.mp hrun with ⟨newPageId, pager₁, -, hrun⟩
  cases hlast : node.children.getLast? with
  | none =>
    rw [hlast] at hrun
    cases hrun
  | some last =>
    cases hmiddle : node.separators[node.separators.length / 2]? with
    | none =>
      rw [hlast, hmiddle] at hrun
      cases hrun
    | some separator =>
      rw [hlast, hmiddle] at hrun
      dsimp only at hrun
      have hcount := h.count
      rw [if_neg (by omega)] at hrun
      rcases run_bind_eq_ok_iff.mp hrun with ⟨moved, pager₂, hmoved, hrun⟩
      rcases run_bind_eq_ok_iff.mp hrun with ⟨_, pager₃, -, hrun⟩
      cases hrun
      have hlen : (node.separators.drop (node.separators.length / 2)).length =
          (node.children.drop (node.separators.length / 2 + 1)).length := by
        rw [List.length_drop, List.length_drop, hcount]
        omega
      have hinsert := (run_lift_eq_ok_iff.mp hmoved).1
      have hfst := List.map_fst_zip hlen.le
      have hsnd := List.map_snd_zip hlen.ge
      rcases insertAll_eq_ok rfl (by
        rw [hfst]
        exact h.sorted.sublist (List.drop_sublist _ _)) hinsert with ⟨hseps, hchildren⟩
      rw [hfst] at hseps
      rw [hsnd] at hchildren
      have hseps : moved.separators = node.separators.drop (node.separators.length / 2) := hseps
      have hchildren : moved.children = node.children.drop (node.separators.length / 2 + 1) :=
        hchildren
      have hpush : moved.setRightmostChild last =
          { moved with children := moved.children ++ [last] } := by
        unfold setRightmostChild
        rw [if_pos (by rw [hseps, hchildren, hlen])]
      refine ⟨hmiddle, rfl, rfl, ?_, last, hlast, ?_⟩
      · rw [hpush]
        exact hseps
      · rw [hpush]
        show moved.children ++ [last] = _
        rw [hchildren]

theorem slot_getElem (h : Sorted id seps) {i : Nat} {s : Bytes}
    (hi : seps[i]? = some s) : slot seps s = i + 1 := by
  have hlt : i < seps.length := (List.getElem?_eq_some_iff.mp hi).1
  have hsplit : seps = seps.take i ++ s :: seps.drop (i + 1) := by
    have hget : seps[i] = s := (List.getElem?_eq_some_iff.mp hi).2
    rw [← hget, ← List.drop_eq_getElem_cons hlt, List.take_append_drop]
  have hsorted := h
  rw [hsplit] at hsorted
  have hpre : ∀ p ∈ seps.take i, p < s := (sorted_around hsorted).1
  have hsuf : ∀ x ∈ seps.drop (i + 1), s < x := (sorted_around hsorted).2
  have hlen : (seps.take i).length = i := by
    rw [List.length_take]
    omega
  rw [hsplit, slot_append, slot_of_le (fun p hp => (hpre p hp).le), hlen]
  show i + slot ([s] ++ seps.drop (i + 1)) s = _
  rw [slot_append, slot_of_le (by simp), slot_of_gt hsuf]
  rfl

theorem forall_eq_last {xs : List UInt64} {last : UInt64}
    (h : ∀ i, i < xs.length → xs[i]? = (xs ++ [last])[i + 1]?) : ∀ x ∈ xs, x = last := by
  induction xs with
  | nil => exact fun x hx => nomatch hx
  | cons x xs ih =>
    have htail : ∀ y ∈ xs, y = last := by
      apply ih
      intro i hi
      have hnext := h (i + 1) (Nat.succ_lt_succ hi)
      simpa using hnext
    have hhead := h 0 (Nat.succ_pos _)
    intro y hy
    rcases List.mem_cons.mp hy with rfl | hy
    · cases xs with
      | nil => simpa using hhead
      | cons z xs =>
        have hsame : y = z := by simpa using hhead
        rw [hsame]
        exact htail z (List.mem_cons_self ..)
    · exact htail y hy

section split

theorem SplitInto.route_left (h : WellFormed node) (hsplit : SplitInto node left promoted right) :
    WellFormed left ∧ ∀ key, key < promoted → left.findChild key = node.findChild key := by
  have hlt : node.separators.length / 2 < node.separators.length :=
    (List.getElem?_eq_some_iff.mp hsplit.middle).1
  have hcount := h.count
  have hwf : WellFormed left := by
    constructor
    · rw [hsplit.leftSeparators]
      exact h.sorted.sublist (List.take_sublist _ _)
    · rw [hsplit.leftChildren, hsplit.leftSeparators, List.length_take, List.length_take]
      omega
  refine ⟨hwf, ?_⟩
  intro key hkey
  have hcut := List.take_append_drop (node.separators.length / 2) node.separators
  have hmiddle : node.separators.drop (node.separators.length / 2) =
      promoted :: node.separators.drop (node.separators.length / 2 + 1) := by
    rw [List.drop_eq_getElem_cons hlt, (List.getElem?_eq_some_iff.mp hsplit.middle).2]
  have hbehind : ∀ s ∈ node.separators.drop (node.separators.length / 2), key < s := by
    have hsorted := h.sorted.sublist (List.drop_sublist (node.separators.length / 2) node.separators)
    rw [hmiddle] at hsorted ⊢
    intro s hs
    rcases List.mem_cons.mp hs with rfl | hs
    · exact hkey
    · exact hkey.trans ((List.pairwise_cons.mp hsorted).1 s hs)
  have hslot : slot node.separators key =
      slot (node.separators.take (node.separators.length / 2)) key := by
    conv_lhs => rw [← hcut]
    rw [slot_append, slot_of_gt hbehind, Nat.add_zero]
  have hle := slot_le_length (node.separators.take (node.separators.length / 2)) key
  rw [List.length_take] at hle
  rw [findChild_eq hwf, findChild_eq h, hsplit.leftChildren, hsplit.leftSeparators, hslot,
    List.getD_eq_getElem?_getD, List.getD_eq_getElem?_getD, List.getElem?_take_of_lt (by omega)]

/-- The child the new node sends a key to, which the unsplit node sends to the child numbered
`slot`. -/
theorem SplitInto.route_right (h : WellFormed node) (hsplit : SplitInto node left promoted right)
    (hkey : promoted ≤ key) :
    node.separators.length / 2 + 1 ≤ slot node.separators key ∧ right.findChild key =
      .ok (right.children.getD (slot node.separators key - node.separators.length / 2) 0) := by
  have hlt : node.separators.length / 2 < node.separators.length :=
    (List.getElem?_eq_some_iff.mp hsplit.middle).1
  have hcount := h.count
  rcases hsplit.rightChildren with ⟨last, -, hchildren⟩
  have hwf : WellFormed right := by
    constructor
    · rw [hsplit.rightSeparators]
      exact h.sorted.sublist (List.drop_sublist _ _)
    · rw [hchildren, hsplit.rightSeparators, List.length_append, List.length_drop,
        List.length_drop, List.length_singleton]
      omega
  have hcut := List.take_append_drop (node.separators.length / 2) node.separators
  have hfront : ∀ s ∈ node.separators.take (node.separators.length / 2), s ≤ key := by
    have hsorted := h.sorted
    rw [← hcut, List.drop_eq_getElem_cons hlt,
      (List.getElem?_eq_some_iff.mp hsplit.middle).2] at hsorted
    intro s hs
    exact ((sorted_around hsorted).1 s hs).le.trans hkey
  have hslot : slot node.separators key = node.separators.length / 2 +
      slot (node.separators.drop (node.separators.length / 2)) key := by
    conv_lhs => rw [← hcut]
    rw [slot_append, slot_of_le hfront, List.length_take]
    omega
  have hone := slot_mono node.separators hkey
  rw [slot_getElem h.sorted hsplit.middle] at hone
  refine ⟨hone, ?_⟩
  rw [findChild_eq hwf, hsplit.rightSeparators, hslot, Nat.add_sub_cancel_left]

theorem SplitInto.halves_iff (h : WellFormed node) (hsplit : SplitInto node left promoted right) :
    (∀ key, halves left promoted right key = node.findChild key) ↔ OneChildBehind node := by
  have hlt : node.separators.length / 2 < node.separators.length :=
    (List.getElem?_eq_some_iff.mp hsplit.middle).1
  have hcount := h.count
  rcases hsplit.rightChildren with ⟨last, hlast, hchildren⟩
  have hdrop : ∀ i, (node.children.drop (node.separators.length / 2 + 1))[i]? =
      node.children[node.separators.length / 2 + 1 + i]? := fun i => List.getElem?_drop
  constructor
  · intro hall
    have hall' : ∀ c ∈ node.children.drop (node.separators.length / 2 + 1), c = last := by
      apply forall_eq_last
      intro i hi
      rw [List.length_drop] at hi
      -- the separator in front of the child is a key that goes there
      have hat : node.separators.length / 2 + i < node.separators.length := by omega
      let key := node.separators[node.separators.length / 2 + i]
      have hget : node.separators[node.separators.length / 2 + i]? = some key :=
        List.getElem?_eq_getElem hat
      have hslot := slot_getElem h.sorted hget
      have hkey : promoted ≤ key := by
        rcases Nat.eq_zero_or_pos i with rfl | hpos
        · rw [Nat.add_zero, hsplit.middle] at hget
          exact (Option.some.inj hget).le
        · have hpair := List.pairwise_iff_getElem.mp h.sorted (node.separators.length / 2)
            (node.separators.length / 2 + i) hlt hat (by omega)
          rw [(List.getElem?_eq_some_iff.mp hsplit.middle).2] at hpair
          exact le_of_lt hpair
      have hroute := hall key
      unfold halves at hroute
      rw [if_neg (not_lt.mpr hkey), (hsplit.route_right h hkey).2, findChild_eq h, hslot, hchildren] at hroute
      have hindex : node.separators.length / 2 + i + 1 - node.separators.length / 2 = i + 1 := by
        omega
      have hin : i < (node.children.drop (node.separators.length / 2 + 1)).length := by
        rw [List.length_drop]
        omega
      have hin' : i + 1 < (node.children.drop (node.separators.length / 2 + 1) ++ [last]).length := by
        rw [List.length_append, List.length_singleton]
        omega
      have hval := Except.ok.inj hroute
      rw [hindex, List.getD_eq_getElem?_getD, List.getD_eq_getElem?_getD,
        show node.separators.length / 2 + i + 1 = node.separators.length / 2 + 1 + i by omega,
        ← hdrop, List.getElem?_eq_getElem hin, List.getElem?_eq_getElem hin'] at hval
      rw [List.getElem?_eq_getElem hin, List.getElem?_eq_getElem hin']
      exact congrArg some hval.symm
    intro c hc
    rw [hlast, hall' c hc]
  · intro hone key
    have hall : ∀ i, i < (node.children.drop (node.separators.length / 2 + 1)).length →
        (node.children.drop (node.separators.length / 2 + 1)).getD i 0 = last := by
      intro i hi
      rw [List.getD_eq_getElem?_getD, List.getElem?_eq_getElem hi]
      have hmem := hone _ (List.getElem_mem hi)
      rw [hlast] at hmem
      exact (Option.some.inj hmem).symm
    unfold halves
    by_cases hkey : key < promoted
    · rw [if_pos hkey]
      exact (hsplit.route_left h).2 key hkey
    · rw [if_neg hkey]
      rcases hsplit.route_right h (not_lt.mp hkey) with ⟨hge, hroute⟩
      have hle := slot_le_length node.separators key
      have hlen : (node.children.drop (node.separators.length / 2 + 1)).length =
          node.separators.length - node.separators.length / 2 := by
        rw [List.length_drop]
        omega
      have hwhole : node.children.getD (slot node.separators key) 0 = last := by
        have hat := hall (slot node.separators key - (node.separators.length / 2 + 1)) (by omega)
        rw [List.getD_eq_getElem?_getD, hdrop, ← List.getD_eq_getElem?_getD] at hat
        rw [← hat]
        congr 1
        omega
      have hhalf : right.children.getD
          (slot node.separators key - node.separators.length / 2) 0 = last := by
        rw [hchildren, List.getD_eq_getElem?_getD]
        by_cases hend : slot node.separators key - node.separators.length / 2 <
            (node.children.drop (node.separators.length / 2 + 1)).length
        · rw [List.getElem?_append_left hend, ← List.getD_eq_getElem?_getD]
          exact hall _ hend
        · rw [List.getElem?_append_right (not_lt.mp hend)]
          have hzero : slot node.separators key - node.separators.length / 2 -
              (node.children.drop (node.separators.length / 2 + 1)).length = 0 := by omega
          rw [hzero]
          rfl
      rw [hroute, findChild_eq h, hwhole, hhalf]

end split

/-- The node that is looked at for a split: with the separator, if there was space for it. -/
def unsplit (node : InternalNode) (separator : Bytes) (child : UInt64) : Except Fault InternalNode :=
  if node.header.hasSpace (1 + separator.length + 8) then node.insert separator child else .ok node

/-- What a call should have done: every key goes where it should, and a split, if there was one, kept
the routes of the unsplit node. -/
def Routed (env : Env) (pager : Pager) (node : InternalNode) (separator : Bytes) (child : UInt64)
    (left : InternalNode) : InsertResult → Prop
  | .success => ∀ key, left.findChild key = newRoute node separator child key
  | .split _ promoted => ∃ whole lower right pager', unsplit node separator child = .ok whole ∧
      (splitInternalNode env whole).run pager = .ok (right, promoted, lower) pager' ∧
      (∀ key, halves lower promoted right key = whole.findChild key) ∧
      ∀ key, halves left promoted right key = newRoute node separator child key

def SplitsOneChild (node : InternalNode) (separator : Bytes) (child : UInt64) : InsertResult → Prop
  | .success => True
  | .split _ _ => ∀ whole, unsplit node separator child = .ok whole → OneChildBehind whole

theorem routed_split_iff {env : Env} {node whole lower left right : InternalNode}
    {pageId : PageId} (hwhole : WellFormed whole) (hunsplit : unsplit node separator child = .ok whole)
    (hrun : (splitInternalNode env whole).run pager = .ok (right, promoted, lower) pager')
    (hfinal : (∀ key, halves lower promoted right key = whole.findChild key) →
      ((∀ key, halves left promoted right key = newRoute node separator child key) ↔
        node.findChild separator = .ok child)) :
    Routed env pager node separator child left (.split pageId promoted) ↔
      node.findChild separator = .ok child ∧
        SplitsOneChild node separator child (.split pageId promoted) := by
  have hkeeps := (splitInto_of_run hwhole hrun).halves_iff hwhole
  constructor
  · rintro ⟨whole', lower', right', pager'', hunsplit', hrun', hkeep, hroutes⟩
    rw [hunsplit] at hunsplit'
    cases hunsplit'
    rw [hrun] at hrun'
    cases hrun'
    refine ⟨(hfinal hkeep).mp hroutes, ?_⟩
    intro w hw
    rw [hunsplit] at hw
    cases hw
    exact hkeeps.mp hkeep
  · rintro ⟨hchild, hone⟩
    have hkeep := hkeeps.mpr (hone whole hunsplit)
    exact ⟨whole, lower, right, pager', hunsplit, hrun, hkeep, (hfinal hkeep).mpr hchild⟩

theorem SplitInto.mem_left (h : WellFormed node)
    (hsplit : SplitInto node left promoted right) {s : Bytes} (hs : s ∈ node.separators)
    (hlt : s < promoted) : s ∈ left.separators := by
  rcases List.getElem?_of_mem hs with ⟨i, hi⟩
  rcases List.getElem?_eq_some_iff.mp hi with ⟨hlen, hget⟩
  rcases List.getElem?_eq_some_iff.mp hsplit.middle with ⟨hhalf, hmiddle⟩
  have hbelow : i < node.separators.length / 2 := by
    by_contra hge
    rcases Nat.lt_or_ge (node.separators.length / 2) i with hgt | hle
    · have hpair := List.pairwise_iff_getElem.mp h.sorted _ _ hhalf hlen hgt
      rw [hmiddle, hget] at hpair
      exact absurd hlt (lt_asymm hpair)
    · have heq : i = node.separators.length / 2 := by omega
      rw [heq, hsplit.middle] at hi
      rw [Option.some.inj hi] at hlt
      exact lt_irrefl s hlt
  rw [hsplit.leftSeparators]
  apply List.mem_of_getElem? (i := i)
  rw [List.getElem?_take_of_lt hbelow]
  exact hi

theorem SplitInto.gap_iff (h : WellFormed node)
    (hsplit : SplitInto node left promoted right) (hkey : key < promoted) :
    (∀ s ∈ left.separators, separator < s → key < s) ↔
      ∀ s ∈ node.separators, separator < s → key < s := by
  constructor
  · intro hleft s hs hlts
    by_cases hin : s < promoted
    · exact hleft s (hsplit.mem_left h hs hin) hlts
    · exact hkey.trans_le (not_lt.mp hin)
  · intro hnode s hs
    rw [hsplit.leftSeparators] at hs
    exact hnode s (List.mem_of_mem_take hs)

theorem halves_insert_iff {node lower left right : InternalNode}
    (h : WellFormed node) (hsplit : SplitInto node lower promoted right)
    (hnew : separator ∉ node.separators) (hlt : separator < promoted)
    (hinsert : lower.insert separator child = .ok left)
    (hkeep : ∀ key, halves lower promoted right key = node.findChild key) :
    (∀ key, halves left promoted right key = newRoute node separator child key) ↔
      node.findChild separator = .ok child := by
  rcases hsplit.route_left h with ⟨hlower, hroute⟩
  have hnew' : separator ∉ lower.separators := by
    intro hmem
    rw [hsplit.leftSeparators] at hmem
    exact hnew (List.mem_of_mem_take hmem)
  rcases findChild_insert hlower hnew' hinsert with ⟨-, hinserted⟩
  have hiff := newRoute_iff hlower hinserted
  rw [hroute separator hlt] at hiff
  constructor
  · intro hall
    have hat := hall separator
    rw [halves, if_pos hlt, hinserted, if_neg (by simp), hroute separator hlt, newRoute,
      if_pos ⟨le_refl _, fun s _ hs => hs⟩] at hat
    exact hat
  · intro hchild key
    have hall := hiff.mpr hchild
    have hpromoted : promoted ∈ node.separators := List.mem_of_getElem? hsplit.middle
    unfold halves
    by_cases hkey : key < promoted
    · rw [if_pos hkey, hall key, newRoute, newRoute, hroute key hkey]
      simp only [hsplit.gap_iff h hkey]
    · have hupper := hkeep key
      rw [halves, if_neg hkey] at hupper
      have hbeyond : ¬ (separator ≤ key ∧ ∀ s ∈ node.separators, separator < s → key < s) :=
        fun hc => hkey (hc.2 promoted hpromoted hlt)
      rw [if_neg hkey, hupper, newRoute, if_neg hbeyond]

/-- `insert_into_internal` routes every key as it should exactly when the separator leads to the new
child already and all children behind a split are one. -/
theorem insertIntoInternal_routed_iff {env : Env} {pager pager' : Pager} {node left : InternalNode}
    {separator : Bytes} {child : UInt64} {result : InsertResult} (h : WellFormed node)
    (hnew : separator ∉ node.separators)
    (hrun : (insertIntoInternal env node separator child).run pager = .ok (result, left) pager') :
    Routed env pager node separator child left result ↔
      node.findChild separator = .ok child ∧ SplitsOneChild node separator child result := by
  unfold insertIntoInternal at hrun
  dsimp only at hrun
  by_cases hspace : node.header.hasSpace (1 + separator.length + 8) = true
  · rw [if_pos hspace] at hrun
    rcases run_bind_eq_ok_iff.mp hrun with ⟨inserted, pager₁, hlift, hrest⟩
    rcases run_lift_eq_ok_iff.mp hlift with ⟨hinsert, heq⟩
    subst heq
    rcases findChild_insert h hnew hinsert with ⟨hwf, hinserted⟩
    by_cases hfull : inserted.header.needsSplit = true
    · rw [if_pos hfull] at hrest
      rcases run_bind_eq_ok_iff.mp hrest with ⟨⟨right, promoted, lower⟩, pager₂, hsplit, hend⟩
      cases hend
      have hunsplit : unsplit node separator child = .ok inserted := by
        rw [unsplit, if_pos hspace, hinsert]
      refine routed_split_iff hwf hunsplit hsplit ?_
      intro hkeep
      rw [← newRoute_iff h hinserted]
      exact forall_congr' fun key => by rw [hkeep key]
    · rw [if_neg hfull] at hrest
      cases hrest
      show (∀ key, _) ↔ _ ∧ True
      rw [and_true]
      exact newRoute_iff h hinserted
  · rw [if_neg hspace] at hrun
    by_cases hfull : node.header.needsSplit = true
    · rw [if_pos hfull] at hrun
      rcases run_bind_eq_ok_iff.mp hrun with ⟨⟨right, promoted, lower⟩, pager₂, hsplit, hrest⟩
      have hunsplit : unsplit node separator child = .ok node := by
        rw [unsplit, if_neg hspace]
      dsimp only at hrest
      by_cases hlt : separator < promoted
      · rw [if_pos hlt] at hrest
        rcases run_bind_eq_ok_iff.mp hrest with ⟨inserted, pager₃, hlift, hend⟩
        have hinsert := (run_lift_eq_ok_iff.mp hlift).1
        cases hend
        refine routed_split_iff h hunsplit hsplit ?_
        exact halves_insert_iff h (splitInto_of_run h hsplit) hnew hlt hinsert
      · rw [if_neg hlt] at hrest
        cases hrest
        refine routed_split_iff h hunsplit hsplit ?_
        intro hkeep
        rw [← newRoute_iff_of_dropped h]
        exact forall_congr' fun key => by rw [hkeep key]
    · rw [if_neg hfull] at hrun
      cases hrun

/-- A separator the node leads to the new child for already. -/
theorem insertIntoInternal_routed_same_child :
    Routed ⟨fun _ => 0, fun _ => 0⟩ (Pager.initial (fun _ => 0) []) ⟨NodeHeader.new .internal 4 1, [[5]], [10, 11]⟩
      [7] 11 (InternalNode.mk { NodeHeader.new .internal 4 1 with
        numKeys := 2, freeSpace := 16314, flags := 1, generation := 2 } [[5], [7]] [10, 11, 11]) .success := by
  apply (@insertIntoInternal_routed_iff _ _ (Pager.initial (fun _ => 0) []) _ _ _ _ _ ?_ ?_ rfl).mpr
  · exact ⟨rfl, trivial⟩
  · exact ⟨List.pairwise_singleton _ _, rfl⟩
  · decide

/-- Separator `[7]` for page 12 in a node that divides pages 10 and 11 at `[5]`: the new page gets the
keys from `[5]` to `[7]`. -/
theorem insertIntoInternal_misroutes :
    ¬ ∀ (env : Env) (pager pager' : Pager) (node left : InternalNode) (separator : Bytes)
      (child : UInt64) (result : InsertResult), WellFormed node → separator ∉ node.separators →
      (insertIntoInternal env node separator child).run pager = .ok (result, left) pager' →
      Routed env pager node separator child left result := by
  intro h
  have hroutes : ∀ key, _ = _ := h ⟨fun _ => 0, fun _ => 0⟩ (Pager.initial (fun _ => 0) [])
    (Pager.initial (fun _ => 0) []) ⟨NodeHeader.new .internal 4 1, [[5]], [10, 11]⟩ _ [7] 12 .success
    ⟨List.pairwise_singleton _ _, rfl⟩ (by decide) rfl
  exact absurd (hroutes [7]) (by decide)

end InternalNode

end Northstar.Btree
