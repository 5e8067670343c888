import Northstar.Btree.Remove

/-!
# Content — the map a tree stands for

A tree binds a key to the entry that the leaf on its route holds for it.  As long as every entry lies
on the route of its own key, a put or delete changes the binding of its key and no other.  Two things
the code does break that: a split gives the new leaf every key from its separator on, also those of
leaves further right, and a borrow moves an entry to a leaf its key does not lead to.
-/

namespace Northstar.Btree

open SortedEntries
open Node (Encodable)

def entryFor (d : Disk) (rungs : List Rung) (key : Bytes) : Option Entry :=
  lookup Entry.key key (entriesAt d (route rungs key))

/-- The entries of a leaf that keys lead to have keys that lead there. -/
def Routed (d : Disk) (rungs : List Rung) : Prop :=
  ∀ key, ∀ e ∈ entriesAt d (route rungs key), route rungs e.key = route rungs key

structure Changes (d d' : Disk) (rungs rungs' : List Rung) (key : Bytes) (found : Option Entry) :
    Prop where
  routed : Routed d' rungs'
  self : entryFor d' rungs' key = found
  others : ∀ k, k ≠ key → entryFor d' rungs' k = entryFor d rungs k

theorem Sound.sorted {d : Disk} (h : Sound d) {pageId : PageId} (howns : d.Owns pageId) :
    Sorted Entry.key (entriesAt d pageId) := by
  unfold entriesAt
  split
  · next leaf hleaf => exact (h.leaf howns hleaf).1.sorted
  · exact List.Pairwise.nil

/-- A split is in order: the keys from the separator on that have entries lie in the leaf that is
split. -/
def SplitsInOrder (d : Disk) (root : PageId) (key value : Bytes) (lsn : UInt64) : Prop :=
  ∀ pageId left first rest, putPlan d root key value lsn = some (pageId, left, first :: rest) →
    ∀ k other, first.key ≤ k → leafPage d root k = some other → other ≠ pageId →
      lookup Entry.key k (entriesAt d other) = none

/-- The put does not lose its entry in a split. -/
def StoresEntry (d : Disk) (root : PageId) (key value : Bytes) (lsn : UInt64) : Prop :=
  ∀ pageId leaf, leafFor d root key = some (pageId, leaf) →
    leaf.drops (preparedEntry d key value lsn) = false

variable {node : LeafNode} {entry : Entry}

theorem LeafOk.planned_of_planLeaf {pageId : PageId} {left : LeafNode}
    {moved : List Entry} (h : LeafOk pageId node) (hentry : Encodable entry) {isRoot : Bool}
    (hplan : planLeaf isRoot node entry = some (left, moved)) :
    Planned pageId node entry left moved := by
  unfold planLeaf at hplan
  by_cases hempty : (isRoot && node.entries.isEmpty) = true
  · rw [if_pos hempty] at hplan
    by_cases hspace : node.header.hasSpace entry.serializedSize = true
    · rcases h.insert hspace hentry with ⟨isUpdate, node', hinsert, hinserted⟩
      rw [hinsert] at hplan
      cases hplan
      exact (hinserted.planned hspace).1
    · rw [insert_eq_error (by simpa using hspace)] at hplan
      cases hplan
  · rw [if_neg hempty] at hplan
    exact h.planned hentry hplan

section put

variable {d d' : Disk} {root root' : PageId} {rungs : List Rung} {key value : Bytes} {lsn : UInt64}
  {pageId : PageId} {left : LeafNode} {moved : List Entry}

theorem planned_of_putPlan (hspine : Spine d root rungs) (hsound : Sound d) (hkey : key.length ≤ 255)
    (hplan : putPlan d root key value lsn = some (pageId, left, moved)) :
    pageId = route rungs key ∧ ∃ node, nodeAt d pageId = some (.leaf node) ∧
      leafFor d root key = some (pageId, node) ∧
      Planned pageId node (preparedEntry d key value lsn) left moved := by
  rcases hspine.route_leaf key with ⟨howns, node, hnode⟩
  have hleafFor := hspine.leafFor hnode
  unfold putPlan at hplan
  rw [hleafFor] at hplan
  dsimp only at hplan
  by_cases hsize : value.length ≤ maxValueSize
  · rw [if_pos hsize] at hplan
    cases hleaf : planLeaf (route rungs key == root) node (preparedEntry d key value lsn) with
    | none =>
      rw [hleaf] at hplan
      cases hplan
    | some plan =>
      rw [hleaf] at hplan
      cases hplan
      refine ⟨rfl, node, hnode, hleafFor, ?_⟩
      apply (hsound.leaf howns hnode).1.planned_of_planLeaf _ hleaf
      exact encodable_preparedEntry hkey d value lsn
  · rw [if_neg hsize] at hplan
    cases hplan

theorem lookup_planned_ne (h : Planned pageId node entry left moved) {k : Bytes} (hk : k ≠ entry.key) :
    lookup Entry.key k (left.entries ++ moved) = lookup Entry.key k node.entries := by
  rw [h.lookup, if_neg fun hand => hk hand.1]

theorem lookup_planned_self (h : Planned pageId node entry left moved) (hstores : node.drops entry = false) :
    lookup Entry.key entry.key (left.entries ++ moved) = some entry := by
  rw [h.lookup, if_pos ⟨rfl, hstores⟩]

theorem PutDone.changes_whole (hentry : entry.key = key)
    (hspine : Spine d root rungs) (hrouted : Routed d rungs)
    (hnode : nodeAt d (route rungs key) = some (.leaf node))
    (hplanned : Planned (route rungs key) node entry left [])
    (hdone : PutDone d d' root root' rungs (route rungs key) left.entries [] entry) :
    Spine d' root' rungs ∧ Changes d d' rungs rungs key (lookup Entry.key key left.entries) := by
  subst hentry
  have hleft : ∀ k, route rungs k = route rungs entry.key →
      entriesAt d' (route rungs k) = left.entries := by
    intro k hk
    rw [hk]
    exact hdone.leaf
  have hother : ∀ k, route rungs k ≠ route rungs entry.key →
      entriesAt d' (route rungs k) = entriesAt d (route rungs k) :=
    fun k hk => hdone.others _ (hspine.route_leaf k).1 hk
  refine ⟨?_, ?_, ?_, ?_⟩
  · rw [hdone.whole rfl]
    exact hspine.extend hdone.ext
  · intro k e he
    by_cases hk : route rungs k = route rungs entry.key
    · rw [hleft k hk] at he
      rcases hplanned.mem (List.mem_append_left _ he) with rfl | hold
      · exact hk.symm
      · rw [hk]
        apply hrouted
        rw [entriesAt_eq hnode]
        exact hold
    · rw [hother k hk] at he
      exact hrouted k e he
  · rw [entryFor, hleft _ rfl]
  · intro k hne
    rw [entryFor, entryFor]
    by_cases hk : route rungs k = route rungs entry.key
    · have hlookup := lookup_planned_ne hplanned hne
      rw [List.append_nil] at hlookup
      rw [hleft k hk, hk, entriesAt_eq hnode, hlookup]
    · rw [hother k hk]

theorem PutDone.changes_split {first : Entry} {rest : List Entry}
    (hentry : entry.key = key) (hsound : Sound d) (hspine : Spine d root rungs)
    (hrouted : Routed d rungs) (hnode : nodeAt d (route rungs key) = some (.leaf node))
    (hplanned : Planned (route rungs key) node entry left (first :: rest))
    (horder : ∀ k, first.key ≤ k → route rungs k ≠ route rungs key →
      lookup Entry.key k (entriesAt d (route rungs k)) = none)
    (hdone : PutDone d d' root root' rungs (route rungs key) left.entries (first :: rest) entry) :
    ∃ rungs', Spine d' root' rungs' ∧ Changes d d' rungs rungs' key
      (lookup Entry.key key (left.entries ++ first :: rest)) := by
  subst hentry
  rcases hdone.split first rest rfl with ⟨newPage, hfresh, hmoved, hspine'⟩
  have hcut := fun k => lookup_cut hplanned.sorted k
  rcases sorted_around hplanned.sorted with ⟨hbelow, habove⟩
  have hroute : ∀ k, route (⟨root', first.key, newPage⟩ :: rungs) k =
      if first.key ≤ k then newPage else route rungs k := fun k => rfl
  have hleft : ∀ k, route rungs k = route rungs entry.key →
      entriesAt d' (route rungs k) = left.entries := by
    intro k hk
    rw [hk]
    exact hdone.leaf
  have hother : ∀ k, route rungs k ≠ route rungs entry.key →
      entriesAt d' (route rungs k) = entriesAt d (route rungs k) :=
    fun k hk => hdone.others _ (hspine.route_leaf k).1 hk
  -- the entries of the leaf that was split lead there
  have hnodeRouted : ∀ e ∈ node.entries, route rungs e.key = route rungs entry.key := by
    intro e he
    apply hrouted
    rw [entriesAt_eq hnode]
    exact he
  have hentryFor : ∀ k, entryFor d' (⟨root', first.key, newPage⟩ :: rungs) k =
      if first.key ≤ k then lookup Entry.key k (left.entries ++ first :: rest)
      else lookup Entry.key k (entriesAt d' (route rungs k)) := by
    intro k
    rw [entryFor, hroute]
    by_cases hk : first.key ≤ k
    · rw [if_pos hk, if_pos hk, hmoved, hcut, if_neg (not_lt.mpr hk)]
    · rw [if_neg hk, if_neg hk]
  refine ⟨_, hspine', ?_, ?_, ?_⟩
  · intro k e he
    rw [hroute] at he ⊢
    rw [hroute]
    by_cases hk : first.key ≤ k
    · rw [if_pos hk, hmoved] at he
      have hle : first.key ≤ e.key := by
        rcases List.mem_cons.mp he with rfl | he
        · exact le_refl _
        · exact (habove e he).le
      rw [if_pos hle, if_pos hk]
    · rw [if_neg hk] at he ⊢
      by_cases hleaf : route rungs k = route rungs entry.key
      · rw [hleft k hleaf] at he
        rw [if_neg (not_le.mpr (hbelow e he)), hleaf]
        rcases hplanned.mem (List.mem_append_left _ he) with rfl | hold
        · rfl
        · exact hnodeRouted e hold
      · rw [hother k hleaf] at he
        have hekey := hrouted k e he
        have hlt : ¬ first.key ≤ e.key := by
          intro hle
          have hnone := horder e.key hle (hekey ▸ hleaf)
          rw [hekey, lookup_eq_some (hsound.sorted (hspine.route_leaf k).1) he rfl] at hnone
          cases hnone
        rw [if_neg hlt, hekey]
  · rw [hentryFor, hleft _ rfl]
    by_cases hk : first.key ≤ entry.key
    · rw [if_pos hk]
    · rw [if_neg hk, hcut, if_pos (not_le.mp hk)]
  · intro k hne
    have hlookup := lookup_planned_ne hplanned hne
    rw [hentryFor, entryFor]
    by_cases hleaf : route rungs k = route rungs entry.key
    · rw [hleft k hleaf, hleaf, entriesAt_eq hnode, ← hlookup]
      by_cases hk : first.key ≤ k
      · rw [if_pos hk]
      · rw [if_neg hk, hcut, if_pos (not_le.mp hk)]
    · rw [hother k hleaf]
      by_cases hk : first.key ≤ k
      · rw [if_pos hk, hlookup, horder k hk hleaf]
        apply lookup_eq_none
        intro e he heq
        exact hleaf (heq ▸ hnodeRouted e he)
      · rw [if_neg hk]

theorem PutDone.changes (hsound : Sound d) (hspine : Spine d root rungs) (hrouted : Routed d rungs)
    (hkey : key.length ≤ 255)
    (hplan : putPlan d root key value lsn = some (pageId, left, moved))
    (horder : SplitsInOrder d root key value lsn)
    (hdone : PutDone d d' root root' rungs pageId left.entries moved
      (preparedEntry d key value lsn)) :
    ∃ rungs' found, Spine d' root' rungs' ∧ Changes d d' rungs rungs' key found ∧
      (StoresEntry d root key value lsn → found = some (preparedEntry d key value lsn)) := by
  rcases planned_of_putPlan hspine hsound hkey hplan with ⟨rfl, node, hnode, hleafFor, hplanned⟩
  have hentryKey : (preparedEntry d key value lsn).key = key := preparedEntry_key d key value lsn
  have hstored : StoresEntry d root key value lsn →
      lookup Entry.key key (left.entries ++ moved) = some (preparedEntry d key value lsn) := by
    intro hstores
    have hself := lookup_planned_self hplanned (hstores _ _ hleafFor)
    rwa [hentryKey] at hself
  cases moved with
  | nil =>
    rcases hdone.changes_whole hentryKey hspine hrouted hnode hplanned with ⟨hspine', hchanges⟩
    refine ⟨rungs, _, hspine', hchanges, ?_⟩
    intro hstores
    rw [← hstored hstores, List.append_nil]
  | cons first rest =>
    have horder' : ∀ k, first.key ≤ k → route rungs k ≠ route rungs key →
        lookup Entry.key k (entriesAt d (route rungs k)) = none :=
      fun k hle hne => horder _ _ _ _ hplan k _ hle (hspine.leafPage k) hne
    rcases hdone.changes_split hentryKey hsound hspine hrouted hnode hplanned horder'
      with ⟨rungs', hspine', hchanges⟩
    exact ⟨rungs', _, hspine', hchanges, hstored⟩

end put

def BorrowsNothing (d : Disk) (root : PageId) (key : Bytes) : Prop :=
  ∀ pageId left donor, deletePlan d root key = some (pageId, left, donor) → donor = none

theorem DeleteDone.changes {d d' : Disk} {root : PageId} {rungs : List Rung} {key : Bytes}
    {left : LeafNode} (hsound : Sound d) (hspine : Spine d root rungs) (hrouted : Routed d rungs)
    (hplan : deletePlan d root key = some (route rungs key, left, none))
    (hdone : DeleteDone d d' (route rungs key) left.entries none) :
    Changes d d' rungs rungs key none := by
  rcases hspine.route_leaf key with ⟨howns, node, hnode⟩
  rcases deleteFromLeaf_removed (hsound.leaf howns hnode).1 key
    with ⟨result, removed, hdelete, hremoved⟩
  have hleftEq : left = removed := by
    unfold deletePlan at hplan
    rw [hspine.leafFor hnode] at hplan
    simp only [planDelete, hdelete, Option.some.injEq, Prod.mk.injEq, true_and] at hplan
    cases result with
    | success => exact (Prod.mk.inj hplan).1.symm
    | underfull =>
      dsimp only at hplan
      split at hplan
      · exact (Prod.mk.inj hplan).1.symm
      · split at hplan
        · split at hplan
          · cases hplan
          · exact (Prod.mk.inj hplan).1.symm
        · exact (Prod.mk.inj hplan).1.symm
  subst hleftEq
  have hleft : ∀ k, route rungs k = route rungs key → entriesAt d' (route rungs k) = left.entries := by
    intro k hk
    rw [hk]
    exact hdone.leaf
  have hother : ∀ k, route rungs k ≠ route rungs key →
      entriesAt d' (route rungs k) = entriesAt d (route rungs k) :=
    fun k hk => hdone.others _ (hspine.route_leaf k).1 hk (fun _ => nofun)
  refine ⟨?_, ?_, ?_⟩
  · intro k e he
    by_cases hk : route rungs k = route rungs key
    · rw [hleft k hk] at he
      rw [hk]
      apply hrouted
      rw [entriesAt_eq hnode]
      exact hremoved.mem he
    · rw [hother k hk] at he
      exact hrouted k e he
  · rw [entryFor, hleft key rfl, hremoved.lookup, if_pos rfl]
  · intro k hne
    rw [entryFor, entryFor]
    by_cases hk : route rungs k = route rungs key
    · rw [hleft k hk, hk, entriesAt_eq hnode, hremoved.lookup, if_neg hne]
    · rw [hother k hk]

end Northstar.Btree
