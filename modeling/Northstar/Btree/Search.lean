import Northstar.Btree.Content

/-!
# Search — whether a descent finds what the leaves hold

The leaf that a split fills takes over every key from its separator on.  A put keeps all entries under the
root where a descent looks for them exactly when the leaf it splits has the largest keys.
-/

namespace Northstar.Btree

open SortedEntries

/-- The pages under a root. -/
inductive Reachable (d : Disk) (root : PageId) : PageId → Prop
  | root : Reachable d root root
  | child {parent child : PageId} {node : InternalNode} (above : Reachable d root parent)
      (hnode : nodeAt d parent = some (.internal node)) (hchild : child ∈ node.children) :
      Reachable d root child

/-- The descent for the key of an entry under the root ends in the leaf that holds it, and finds it there. -/
def Searchable (d : Disk) (root : PageId) : Prop :=
  ∀ pageId leaf, Reachable d root pageId → nodeAt d pageId = some (.leaf leaf) →
    ∀ e ∈ leaf.entries, leafPage d root e.key = some pageId ∧ leaf.find e.key = some e

/-- If the put splits its leaf, its key is above every key of the other leaves. -/
def SplitsLast (d : Disk) (root : PageId) (key value : Bytes) (lsn : UInt64) : Prop :=
  ∀ pageId left first rest, putPlan d root key value lsn = some (pageId, left, first :: rest) →
    ∀ other leaf, Reachable d root other → nodeAt d other = some (.leaf leaf) → other ≠ pageId →
      ∀ e ∈ leaf.entries, e.key < key

def leaves : List Rung → List PageId
  | [] => [PageId.firstData]
  | rung :: rungs => rung.page :: leaves rungs

/-- Every entry lies in the leaf its key leads to. -/
def Placed (d : Disk) (rungs : List Rung) : Prop :=
  ∀ pageId ∈ leaves rungs, ∀ e ∈ entriesAt d pageId, route rungs e.key = pageId

theorem Reachable.of_child {d : Disk} {root child pageId : PageId} {node : InternalNode}
    (hnode : nodeAt d root = some (.internal node)) (hchild : child ∈ node.children)
    (h : Reachable d child pageId) : Reachable d root pageId := by
  induction h with
  | root => exact .child .root hnode hchild
  | child _ hnode' hchild' ih => exact .child ih hnode' hchild'

theorem Reachable.cases_root {d : Disk} {root pageId : PageId} (h : Reachable d root pageId) :
    pageId = root ∨ ∃ node, ∃ child, nodeAt d root = some (.internal node) ∧ child ∈ node.children ∧
      Reachable d child pageId := by
  induction h with
  | root => exact Or.inl rfl
  | @child parent child node _ hnode hchild ih =>
    rcases ih with heq | ⟨top, below, htop, hbelow, habove⟩
    · subst heq
      exact Or.inr ⟨node, child, hnode, hchild, .root⟩
    · exact Or.inr ⟨top, below, htop, hbelow, .child habove hnode hchild⟩

theorem route_mem_leaves (rungs : List Rung) (key : Bytes) : route rungs key ∈ leaves rungs := by
  induction rungs with
  | nil => exact List.mem_singleton.mpr rfl
  | cons rung rungs ih =>
    unfold route leaves
    by_cases hle : rung.sep ≤ key
    · rw [if_pos hle]
      exact List.mem_cons_self ..
    · rw [if_neg hle]
      exact List.mem_cons_of_mem _ ih

namespace Spine

variable {d : Disk} {root pageId : PageId} {rungs : List Rung}

theorem leaf_of_mem (h : Spine d root rungs) (hmem : pageId ∈ leaves rungs) :
    d.Owns pageId ∧ IsLeafAt d pageId ∧ pageId.toNat ≤ root.toNat := by
  induction h with
  | base owns leaf =>
    rw [List.mem_singleton.mp hmem]
    exact ⟨owns, leaf, Nat.le_refl _⟩
  | @rung rung below header rungs owns node leaf older above tail ih =>
    rcases List.mem_cons.mp hmem with rfl | hmem
    · have hbelow := tail.owns_root.1
      exact ⟨⟨by omega, above.trans owns.2⟩, leaf, above.le⟩
    · obtain ⟨howns, hleaf, hle⟩ := ih hmem
      exact ⟨howns, hleaf, by omega⟩

theorem reachable_of_mem (h : Spine d root rungs) (hmem : pageId ∈ leaves rungs) : Reachable d root pageId := by
  induction h with
  | base owns leaf =>
    rw [List.mem_singleton.mp hmem]
    exact .root
  | @rung rung below header rungs owns node leaf older above tail ih =>
    rcases List.mem_cons.mp hmem with rfl | hmem
    · exact .child .root node (List.mem_cons_of_mem _ (List.mem_singleton.mpr rfl))
    · exact (ih hmem).of_child node (List.mem_cons_self ..)

theorem mem_leaves (h : Spine d root rungs) (hreach : Reachable d root pageId) (hleaf : IsLeafAt d pageId) :
    pageId ∈ leaves rungs := by
  induction h with
  | base owns leaf =>
    rcases hreach.cases_root with rfl | ⟨node, child, hnode, -, -⟩
    · exact List.mem_singleton.mpr rfl
    · obtain ⟨leaf, hroot⟩ := leaf
      rw [hroot] at hnode
      cases hnode
  | @rung rung below header rungs owns node leaf older above tail ih =>
    rcases hreach.cases_root with rfl | ⟨top, child, htop, hchild, hbelow⟩
    · obtain ⟨leaf', hroot⟩ := hleaf
      rw [node] at hroot
      cases hroot
    · rw [node] at htop
      cases htop
      rcases List.mem_cons.mp hchild with rfl | hchild
      · exact List.mem_cons_of_mem _ (ih hbelow)
      · rw [List.mem_singleton.mp hchild] at hbelow
        rcases hbelow.cases_root with rfl | ⟨inner, _, hinner, -, -⟩
        · exact List.mem_cons_self ..
        · obtain ⟨leaf', hpage⟩ := leaf
          rw [hpage] at hinner
          cases hinner

theorem searchable_iff (h : Spine d root rungs) (hsound : Sound d) : Searchable d root ↔ Placed d rungs := by
  constructor
  · intro hsearch pageId hmem e he
    obtain ⟨-, ⟨leaf, hleaf⟩, -⟩ := h.leaf_of_mem hmem
    rw [entriesAt_eq hleaf] at he
    have hfound := (hsearch pageId leaf (h.reachable_of_mem hmem) hleaf e he).1
    rw [h.leafPage] at hfound
    exact Option.some.inj hfound
  · intro hplaced pageId leaf hreach hleaf e he
    have hmem := h.mem_leaves hreach ⟨leaf, hleaf⟩
    have howns := (h.leaf_of_mem hmem).1
    have hok := (hsound.leaf howns hleaf).1
    constructor
    · rw [h.leafPage, hplaced pageId hmem e (by rw [entriesAt_eq hleaf]; exact he)]
    · rw [find_eq_lookup hok]
      exact lookup_eq_some hok.sorted he rfl

theorem route_between (h : Spine d root rungs) {a b c : Bytes} (hab : a ≤ b) (hbc : b ≤ c)
    (hends : route rungs a = route rungs c) : route rungs b = route rungs a := by
  induction h with
  | base owns leaf => rfl
  | @rung rung below header rungs owns node leaf older above tail ih =>
    unfold route at hends ⊢
    by_cases ha : rung.sep ≤ a
    · rw [if_pos ha, if_pos (ha.trans hab)]
    · rw [if_neg ha] at hends ⊢
      by_cases hc : rung.sep ≤ c
      · -- the page of the rung is younger than all leaves below
        rw [if_pos hc] at hends
        have hle := (tail.leaf_of_mem (route_mem_leaves rungs a)).2.2
        rw [hends] at hle
        omega
      · rw [if_neg hc] at hends
        rw [if_neg fun hb => hc (hb.trans hbc)]
        exact ih hends

end Spine

section put

variable {d d' : Disk} {root root' : PageId} {rungs : List Rung} {key value : Bytes} {lsn : UInt64}
  {pageId : PageId} {left : LeafNode} {moved : List Entry}

theorem PutDone.placed_whole {node : LeafNode} {entry : Entry} (hentry : entry.key = key)
    (hspine : Spine d root rungs) (hplaced : Placed d rungs)
    (hnode : nodeAt d (route rungs key) = some (.leaf node))
    (hplanned : Planned (route rungs key) node entry left [])
    (hdone : PutDone d d' root root' rungs (route rungs key) left.entries [] entry) : Placed d' rungs := by
  intro pageId hmem e he
  by_cases heq : pageId = route rungs key
  · subst heq
    rw [hdone.leaf] at he
    rcases hplanned.mem (List.mem_append_left _ he) with rfl | hold
    · rw [hentry]
    · exact hplaced _ hmem e (by rw [entriesAt_eq hnode]; exact hold)
  · rw [hdone.others pageId (hspine.leaf_of_mem hmem).1 heq] at he
    exact hplaced pageId hmem e he

theorem PutDone.placed_split_iff {node : LeafNode} {entry first : Entry} {rest : List Entry}
    (hentry : entry.key = key) (hspine : Spine d root rungs) (hplaced : Placed d rungs)
    (hnode : nodeAt d (route rungs key) = some (.leaf node))
    (hplanned : Planned (route rungs key) node entry left (first :: rest))
    (hdone : PutDone d d' root root' rungs (route rungs key) left.entries (first :: rest) entry)
    {newPage : PageId} (hfresh : ¬ d.Owns newPage) (hmoved : entriesAt d' newPage = first :: rest) :
    Placed d' (⟨root', first.key, newPage⟩ :: rungs) ↔
      ∀ other ∈ leaves rungs, other ≠ route rungs key → ∀ e ∈ entriesAt d other, e.key < key := by
  obtain ⟨hbelow, habove⟩ := sorted_around hplanned.sorted
  have hroute : ∀ k, route (⟨root', first.key, newPage⟩ :: rungs) k =
      if first.key ≤ k then newPage else route rungs k := fun k => rfl
  have hhere : ∀ e ∈ left.entries ++ first :: rest, route rungs e.key = route rungs key := by
    intro e he
    rcases hplanned.mem he with rfl | hold
    · rw [hentry]
    · exact hplaced _ (route_mem_leaves rungs key) e (by rw [entriesAt_eq hnode]; exact hold)
  have hfirst : route rungs first.key = route rungs key :=
    hhere first (List.mem_append_right _ (List.mem_cons_self ..))
  have hother : ∀ other ∈ leaves rungs, other ≠ route rungs key → entriesAt d' other = entriesAt d other :=
    fun other hmem hne => hdone.others other (hspine.leaf_of_mem hmem).1 hne
  have hnew : ∀ other ∈ leaves rungs, other ≠ newPage := by
    rintro other hmem rfl
    exact hfresh (hspine.leaf_of_mem hmem).1
  -- a key of another leaf lies on the same side of the separator and of the key that is put
  have hside : ∀ other ∈ leaves rungs, other ≠ route rungs key → ∀ e ∈ entriesAt d other,
      (e.key < key ↔ ¬ first.key ≤ e.key) := by
    intro other hmem hne e he
    have hekey := hplaced other hmem e he
    constructor
    · intro hlt hle
      apply hne
      rw [← hekey, hspine.route_between hle hlt.le hfirst, hfirst]
    · intro hlt
      by_contra hle
      apply hne
      rw [← hekey]
      exact hspine.route_between (not_lt.mp hle) (not_le.mp hlt).le hfirst.symm
  constructor
  · intro hplaced' other hmem hne e he
    apply (hside other hmem hne e he).mpr
    intro hle
    have hlead := hplaced' other (List.mem_cons_of_mem _ hmem) e (by rw [hother other hmem hne]; exact he)
    rw [hroute, if_pos hle] at hlead
    exact hnew other hmem hlead.symm
  · intro hlast other hmem e he
    rw [hroute]
    rcases List.mem_cons.mp hmem with rfl | hmem
    · rw [hmoved] at he
      have hle : first.key ≤ e.key := by
        rcases List.mem_cons.mp he with rfl | he
        · exact le_refl _
        · exact (habove e he).le
      rw [if_pos hle]
    · by_cases heq : other = route rungs key
      · subst heq
        rw [hdone.leaf] at he
        rw [if_neg (not_le.mpr (hbelow e he))]
        exact hhere e (List.mem_append_left _ he)
      · rw [hother other hmem heq] at he
        rw [if_neg ((hside other hmem heq e he).mp (hlast other hmem heq e he))]
        exact hplaced other hmem e he

theorem Spine.others_iff (h : Spine d root rungs) {p : Entry → Prop} :
    (∀ other leaf, Reachable d root other → nodeAt d other = some (.leaf leaf) → other ≠ pageId →
      ∀ e ∈ leaf.entries, p e) ↔
      ∀ other ∈ leaves rungs, other ≠ pageId → ∀ e ∈ entriesAt d other, p e := by
  constructor
  · intro hall other hmem hne e he
    obtain ⟨-, ⟨leaf, hleaf⟩, -⟩ := h.leaf_of_mem hmem
    rw [entriesAt_eq hleaf] at he
    exact hall other leaf (h.reachable_of_mem hmem) hleaf hne e he
  · intro hall other leaf hreach hleaf hne e he
    apply hall other (h.mem_leaves hreach ⟨leaf, hleaf⟩) hne e
    rw [entriesAt_eq hleaf]
    exact he

/-- A put that is not refused keeps a searchable tree searchable exactly when a split is one of the last leaf. -/
theorem PutDone.searchable_iff (hsound : Sound d) (hspine : Spine d root rungs) (hsearch : Searchable d root)
    (hkey : key.length ≤ 255) (hplan : putPlan d root key value lsn = some (pageId, left, moved))
    (hdone : PutDone d d' root root' rungs pageId left.entries moved (preparedEntry d key value lsn)) :
    Searchable d' root' ↔ SplitsLast d root key value lsn := by
  obtain ⟨rfl, node, hnode, -, hplanned⟩ := planned_of_putPlan hspine hsound hkey hplan
  have hplaced := (hspine.searchable_iff hsound).mp hsearch
  have hentry := preparedEntry_key d key value lsn
  cases moved with
  | nil =>
    have hspine' : Spine d' root' rungs := by
      rw [hdone.whole rfl]
      exact hspine.extend hdone.ext
    have hplaced' := hdone.placed_whole hentry hspine hplaced hnode hplanned
    constructor
    · intro _ pageId left' first rest hsplit
      rw [hplan] at hsplit
      cases hsplit
    · exact fun _ => (hspine'.searchable_iff hdone.sound).mpr hplaced'
  | cons first rest =>
    obtain ⟨newPage, hfresh, hmoved, hspine'⟩ := hdone.split first rest rfl
    rw [hspine'.searchable_iff hdone.sound,
      hdone.placed_split_iff hentry hspine hplaced hnode hplanned hfresh hmoved, ← hspine.others_iff]
    constructor
    · intro hlast pageId left' first' rest' hsplit
      rw [hplan] at hsplit
      cases hsplit
      exact hlast
    · exact fun hlast => hlast _ _ _ _ hplan

theorem searchable_of_pages (hsound : Sound d) (hspine : Spine d root rungs) (hsearch : Searchable d root)
    (hsound' : Sound d') (hgrows : d.next.toNat ≤ d'.next.toNat)
    (hpages : ∀ other, d.Owns other → d'.pages other = d.pages other) : Searchable d' root := by
  have hspine' := hspine.extend (.of_pages hgrows hpages)
  apply (hspine'.searchable_iff hsound').mpr
  intro pageId hmem e he
  rw [entriesAt_congr (hpages pageId (hspine.leaf_of_mem hmem).1)] at he
  exact (hspine.searchable_iff hsound).mp hsearch pageId hmem e he

end put

end Northstar.Btree
