import Northstar.Error
import Northstar.Lib.GraphSearch
import Northstar.Lib.HashMap
import Mathlib.Data.List.Perm.Basic
import Mathlib.Data.List.Nodup

/-!
# Cartridge — relationships between entities, their indexes and the ways between them

`cartridges/relationship.rs`, one call after another.  Every call of `insert` adds the id to four indexes and takes
none from them.  No lock is poisoned; floats are their bit patterns.
-/

namespace Northstar.Relations

inductive RelationshipType
  | contains
  | uses
  | modifies
  | relatedTo
  | implements
  | calls
  | dependsOn
  deriving Repr, DecidableEq

structure Relationship where
  id : String
  fromEntity : String
  toEntity : String
  relType : RelationshipType
  weight : UInt32
  commitId : UInt64
  confidence : UInt32
  deriving Repr, DecidableEq

/-- A map from a key to ids. -/
abbrev Index (κ : Type) := AList fun _ : κ => List String

/-- `entry(key).or_insert_with(Vec::new).push(id)`. -/
def Index.push {κ : Type} [DecidableEq κ] (m : Index κ) (key : κ) (id : String) : Index κ :=
  m.insert key ((m.lookup key).getD [] ++ [id])

structure RelationshipCartridge where
  relationships : AList fun _ : String => Relationship
  fromIndex : Index String
  toIndex : Index String
  byCommit : Index UInt64
  byType : Index RelationshipType

namespace RelationshipCartridge

def new : RelationshipCartridge := ⟨∅, ∅, ∅, ∅, ∅⟩

def insert (self : RelationshipCartridge) (relationship : Relationship) : RelationshipCartridge where
  relationships := self.relationships.insert relationship.id relationship
  fromIndex := self.fromIndex.push relationship.fromEntity relationship.id
  toIndex := self.toIndex.push relationship.toEntity relationship.id
  byType := self.byType.push relationship.relType relationship.id
  byCommit := self.byCommit.push relationship.commitId relationship.id

def clear (_ : RelationshipCartridge) : RelationshipCartridge := new

/-- What a query reads behind its index. -/
def resolve {κ : Type} [DecidableEq κ] (self : RelationshipCartridge) (m : Index κ) (key : κ) : List Relationship :=
  ((m.lookup key).getD []).filterMap fun id => self.relationships.lookup id

def getFromEntity (self : RelationshipCartridge) (fromEntity : String) : List Relationship :=
  self.resolve self.fromIndex fromEntity

def getToEntity (self : RelationshipCartridge) (toEntity : String) : List Relationship :=
  self.resolve self.toIndex toEntity

def getByType (self : RelationshipCartridge) (relType : RelationshipType) : List Relationship :=
  self.resolve self.byType relType

def getByCommit (self : RelationshipCartridge) (commitId : UInt64) : List Relationship :=
  self.resolve self.byCommit commitId

/-- In the order of the map. -/
def getAll (self : RelationshipCartridge) : List Relationship := self.relationships.entries.map fun e => e.2

end RelationshipCartridge

inductive Call
  | insert (relationship : Relationship)
  | clear
  deriving Repr, DecidableEq

def Call.apply (c : RelationshipCartridge) : Call → RelationshipCartridge
  | insert relationship => c.insert relationship
  | clear => c.clear

def run (calls : List Call) : RelationshipCartridge := calls.foldl Call.apply .new

/-- The relationships that were inserted since the last `clear`. -/
def inserted (calls : List Call) : List Relationship :=
  calls.foldl (fun live call => match call with
    | .insert relationship => live ++ [relationship]
    | .clear => []) []

variable {κ : Type} [DecidableEq κ] {m : Index κ} {key : Relationship → κ} {live : List Relationship}
  {c : RelationshipCartridge} {r : Relationship} {calls : List Call}

/-- Under every key stand the ids of what was inserted with it, in that order. -/
def Indexes (m : Index κ) (key : Relationship → κ) (live : List Relationship) : Prop :=
  ∀ k, (m.lookup k).getD [] = (live.filter fun r => key r = k).map Relationship.id

theorem indexes_empty (key : Relationship → κ) : Indexes (∅ : Index κ) key [] := fun _ => rfl

theorem Indexes.push (h : Indexes m key live) (r : Relationship) : Indexes (m.push (key r) r.id) key (live ++ [r]) := by
  intro k
  unfold Index.push
  rw [List.filter_append, List.map_append, ← h k]
  by_cases hkey : key r = k
  · subst hkey
    rw [AList.lookup_insert, List.filter_singleton, decide_eq_true rfl]
    rfl
  · rw [AList.lookup_insert_ne (Ne.symm hkey), List.filter_singleton, decide_eq_false hkey]
    exact (List.append_nil _).symm

/-- Every id that was inserted is there, and with something that was inserted. -/
structure Tracks (c : RelationshipCartridge) (live : List Relationship) : Prop where
  fromIndex : Indexes c.fromIndex Relationship.fromEntity live
  toIndex : Indexes c.toIndex Relationship.toEntity live
  byType : Indexes c.byType Relationship.relType live
  byCommit : Indexes c.byCommit Relationship.commitId live
  stored : ∀ id r, c.relationships.lookup id = some r → r.id = id ∧ r ∈ live
  present : ∀ r ∈ live, r.id ∈ c.relationships

theorem tracks_new : Tracks .new [] where
  fromIndex := indexes_empty _
  toIndex := indexes_empty _
  byType := indexes_empty _
  byCommit := indexes_empty _
  stored _ _ h := nomatch h
  present _ h := absurd h List.not_mem_nil

theorem Tracks.insert (h : Tracks c live) (r : Relationship) : Tracks (c.insert r) (live ++ [r]) where
  fromIndex := h.fromIndex.push r
  toIndex := h.toIndex.push r
  byType := h.byType.push r
  byCommit := h.byCommit.push r
  stored id r' hlookup := by
    unfold RelationshipCartridge.insert at hlookup
    by_cases hid : id = r.id
    · rw [hid, AList.lookup_insert] at hlookup
      cases hlookup
      exact ⟨hid.symm, List.mem_append_right _ (List.mem_singleton_self _)⟩
    · rw [AList.lookup_insert_ne hid] at hlookup
      have hstored := h.stored id r' hlookup
      exact ⟨hstored.1, List.mem_append_left _ hstored.2⟩
  present r' hr := by
    apply (AList.mem_insert _).mpr
    rcases List.mem_append.mp hr with hr | hr
    · exact .inr (h.present r' hr)
    · rw [List.mem_singleton.mp hr]
      exact .inl rfl

theorem tracks_run (calls : List Call) : Tracks (run calls) (inserted calls) := by
  induction calls using List.reverseRecOn with
  | nil => exact tracks_new
  | append_singleton calls call ih =>
    unfold run inserted
    rw [List.foldl_concat, List.foldl_concat]
    cases call with
    | insert r => exact ih.insert r
    | clear => exact tracks_new

/-- Each query returns the relationships of `get_all` with its argument, every one once. -/
structure Agrees (c : RelationshipCartridge) : Prop where
  fromEntity : ∀ e, (c.getFromEntity e).Perm (c.getAll.filter fun r => r.fromEntity = e)
  toEntity : ∀ e, (c.getToEntity e).Perm (c.getAll.filter fun r => r.toEntity = e)
  byType : ∀ t, (c.getByType t).Perm (c.getAll.filter fun r => r.relType = t)
  byCommit : ∀ id, (c.getByCommit id).Perm (c.getAll.filter fun r => r.commitId = id)

theorem Tracks.mem_getAll (h : Tracks c live) : r ∈ c.getAll ↔ c.relationships.lookup r.id = some r := by
  unfold RelationshipCartridge.getAll
  rw [List.mem_map]
  constructor
  · rintro ⟨e, he, rfl⟩
    have hlookup : c.relationships.lookup e.1 = some e.2 := AList.mem_lookup_iff.mpr he
    rwa [(h.stored e.1 e.2 hlookup).1]
  · exact fun hlookup => ⟨⟨r.id, r⟩, AList.mem_lookup_iff.mp hlookup, rfl⟩

theorem Tracks.ids_getAll (h : Tracks c live) : c.getAll.map Relationship.id = c.relationships.keys := by
  unfold RelationshipCartridge.getAll AList.keys List.keys
  rw [List.map_map]
  apply List.map_congr_left
  intro e he
  exact (h.stored e.1 e.2 (AList.mem_lookup_iff.mpr he)).1

theorem Tracks.nodup_getAll (h : Tracks c live) : (c.getAll.map Relationship.id).Nodup := by
  rw [h.ids_getAll]
  exact c.relationships.keys_nodup

theorem Tracks.ids_resolve (h : Tracks c live) (hm : Indexes m key live) (k : κ) :
    (c.resolve m k).map Relationship.id = (live.filter fun r => key r = k).map Relationship.id := by
  unfold RelationshipCartridge.resolve
  rw [hm k]
  have hpresent : ∀ r ∈ live.filter fun r => key r = k, r.id ∈ c.relationships :=
    fun r hr => h.present r (List.mem_of_mem_filter hr)
  generalize live.filter (fun r => key r = k) = found at hpresent
  induction found with
  | nil => rfl
  | cons r found ih =>
    obtain ⟨r', hr'⟩ := Option.isSome_iff_exists.mp (AList.lookup_isSome.mpr (hpresent r (List.mem_cons_self ..)))
    have hrest := ih fun r'' hr'' => hpresent r'' (List.mem_cons_of_mem _ hr'')
    rw [List.map_cons, List.filterMap_cons, hr']
    dsimp only
    rw [List.map_cons, (h.stored r.id r' hr').1, hrest]

theorem Tracks.perm_getAll (h : Tracks c live) (hids : (live.map Relationship.id).Nodup) : c.getAll.Perm live := by
  apply (List.perm_ext_iff_of_nodup (List.Nodup.of_map _ h.nodup_getAll) (List.Nodup.of_map _ hids)).mpr
  intro r
  rw [h.mem_getAll]
  constructor
  · exact fun hlookup => (h.stored r.id r hlookup).2
  · intro hr
    obtain ⟨r', hr'⟩ := Option.isSome_iff_exists.mp (AList.lookup_isSome.mpr (h.present r hr))
    obtain ⟨hid, hlive⟩ := h.stored r.id r' hr'
    rw [hr', List.inj_on_of_nodup_map hids hlive hr hid]

theorem Tracks.perm_resolve (h : Tracks c live) (hids : (live.map Relationship.id).Nodup) (hm : Indexes m key live)
    (k : κ) : (c.resolve m k).Perm (c.getAll.filter fun r => key r = k) := by
  have hall := h.perm_getAll hids
  have hresolve : c.resolve m k = live.filter fun r => key r = k := by
    unfold RelationshipCartridge.resolve
    rw [hm k, List.filterMap_map]
    calc (live.filter fun r => key r = k).filterMap ((fun id => c.relationships.lookup id) ∘ Relationship.id)
      _ = (live.filter fun r => key r = k).filterMap some := by
        apply List.filterMap_congr
        intro r hr
        exact h.mem_getAll.mp (hall.mem_iff.mpr (List.mem_of_mem_filter hr))
      _ = live.filter fun r => key r = k := List.filterMap_some
  rw [hresolve]
  exact (hall.filter _).symm

theorem Tracks.nodup_of_agrees (h : Tracks c live) (hagrees : Agrees c) (e : String) :
    ((live.filter fun r => r.fromEntity = e).map Relationship.id).Nodup := by
  have hids : ((c.getFromEntity e).map Relationship.id).Perm
      ((c.getAll.filter fun r => r.fromEntity = e).map Relationship.id) := (hagrees.fromEntity e).map _
  unfold RelationshipCartridge.getFromEntity at hids
  rw [h.ids_resolve h.fromIndex] at hids
  rw [hids.nodup_iff]
  exact h.nodup_getAll.sublist (List.filter_sublist.map _)

theorem Tracks.fromEntity_of_agrees (h : Tracks c live) (hagrees : Agrees c) {r r' : Relationship} (hr : r ∈ live)
    (hr' : r' ∈ live) (hid : r.id = r'.id) : r.fromEntity = r'.fromEntity := by
  have hfound : ∀ x ∈ live, ∃ y ∈ c.getAll, y.id = x.id ∧ y.fromEntity = x.fromEntity := by
    intro x hx
    have hmem : x.id ∈ (c.getFromEntity x.fromEntity).map Relationship.id := by
      unfold RelationshipCartridge.getFromEntity
      rw [h.ids_resolve h.fromIndex]
      exact List.mem_map.mpr ⟨x, List.mem_filter.mpr ⟨hx, decide_eq_true rfl⟩, rfl⟩
    obtain ⟨y, hy, hyid⟩ := List.mem_map.mp hmem
    obtain ⟨hall, hfrom⟩ := List.mem_filter.mp ((hagrees.fromEntity x.fromEntity).mem_iff.mp hy)
    exact ⟨y, hall, hyid, of_decide_eq_true hfrom⟩
  obtain ⟨y, hy, hyid, hyfrom⟩ := hfound r hr
  obtain ⟨y', hy', hyid', hyfrom'⟩ := hfound r' hr'
  have hsame : y = y' := List.inj_on_of_nodup_map h.nodup_getAll hy hy' (by rw [hyid, hyid', hid])
  rw [← hyfrom, ← hyfrom', hsame]

theorem Tracks.ids_nodup_of_agrees (h : Tracks c live) (hagrees : Agrees c) : (live.map Relationship.id).Nodup := by
  have hcount : ∀ (x : String) (l : List Relationship), (l.map Relationship.id).count x = l.countP fun r => r.id = x := by
    intro x l
    rw [List.count_eq_countP, List.countP_map]
    apply List.countP_congr
    intro r _
    simp
  apply List.nodup_iff_count_le_one.mpr
  intro x
  by_cases hx : x ∈ live.map Relationship.id
  · obtain ⟨r, hr, rfl⟩ := List.mem_map.mp hx
    -- all that have the id stand under the same key
    have hle := List.nodup_iff_count_le_one.mp (h.nodup_of_agrees hagrees r.fromEntity) r.id
    rw [hcount, List.countP_filter] at hle
    rw [hcount]
    apply le_trans (List.countP_mono_left ?_) hle
    intro r' hr' hid
    have hsame := of_decide_eq_true hid
    rw [Bool.and_eq_true]
    exact ⟨hid, decide_eq_true (h.fromEntity_of_agrees hagrees hr' hr hsame)⟩
  · rw [List.count_eq_zero_of_not_mem hx]
    exact Nat.zero_le 1

/-- The queries agree with the map if and only if no id has been inserted twice since the last `clear`. -/
theorem indexes_agree_iff (calls : List Call) :
    Agrees (run calls) ↔ ((inserted calls).map Relationship.id).Nodup := by
  have h := tracks_run calls
  constructor
  · exact h.ids_nodup_of_agrees
  · intro hids
    exact ⟨h.perm_resolve hids h.fromIndex, h.perm_resolve hids h.toIndex, h.perm_resolve hids h.byType,
      h.perm_resolve hids h.byCommit⟩

/-- A relationship of a file. -/
def sample (toEntity : String) : Relationship where
  id := "rel-1"
  fromEntity := "file-1"
  toEntity := toEntity
  relType := .contains
  weight := 0x3F800000
  commitId := 1
  confidence := 0x3F666666

/-- Inserted again with another target: it comes twice from the file, and as one that leads to the old target. -/
theorem reinserted_disagrees :
    (run [.insert (sample "function-1"), .insert (sample "function-2")]).getFromEntity "file-1"
        = [sample "function-2", sample "function-2"] ∧
      (run [.insert (sample "function-1"), .insert (sample "function-2")]).getToEntity "function-1"
        = [sample "function-2"] ∧
      (run [.insert (sample "function-1"), .insert (sample "function-2")]).getAll = [sample "function-2"] := by
  decide +kernel

/-! ## The shortest way from one entity to another

`find_path`, a breadth-first search over what `get_from_entity` returns.  The map `visited` has the parent of every
entity that has been met; both loops run on fuel, and `none` is a loop that has not ended. -/

section path

open BreadthFirst

namespace RelationshipCartridge

/-- Where the relationships of an entity lead. -/
def edges (self : RelationshipCartridge) (entity : String) : List String :=
  (self.getFromEntity entity).map Relationship.toEntity

def noPath (start goal : String) : Error :=
  .io (.internalError s!"No path found between {start} and {goal}")

def findPath (self : RelationshipCartridge) (fuel : Nat) (start goal : String) (maxDepth : Nat) :
    Option (Except Error (List String)) :=
  if start = goal then some (.ok [start])
  else
    (search self.edges start goal maxDepth fuel ∅ [(start, 0)]).map fun found =>
      match found with
      | some path => .ok path
      | none => .error (noPath start goal)

end RelationshipCartridge

variable {start goal : String} {maxDepth : Nat}

theorem edges_finite (c : RelationshipCartridge) :
    ∀ v, ∀ w ∈ c.edges v, w ∈ c.getAll.map Relationship.toEntity := by
  intro v w hw
  obtain ⟨r, hr, rfl⟩ := List.mem_map.mp hw
  obtain ⟨id, -, hlookup⟩ := List.mem_filterMap.mp hr
  apply List.mem_map.mpr
  exact ⟨r, List.mem_map.mpr ⟨⟨id, r⟩, AList.mem_lookup_iff.mp hlookup, rfl⟩, rfl⟩

/-- `Ok` exactly where some path is short enough, and then with one of the shortest. -/
def Right (c : RelationshipCartridge) (start goal : String) (maxDepth : Nat) (result : Except Error (List String)) :
    Prop :=
  ((∃ path, result = .ok path) ↔ ∃ path, IsPath c.edges start goal path ∧ path.length ≤ maxDepth + 1) ∧
    ∀ path, result = .ok path →
      IsPath c.edges start goal path ∧ ∀ other, IsPath c.edges start goal other → path.length ≤ other.length

theorem right_of_some {path : List String} (h : Answers c.edges start goal maxDepth (some path)) :
    Right c start goal maxDepth (.ok path) := by
  obtain ⟨hpath, hlength, hleast⟩ := h.path path rfl
  refine ⟨iff_of_true ⟨path, rfl⟩ ⟨path, hpath, hlength⟩, ?_⟩
  intro path' hpath'
  cases hpath'
  exact ⟨hpath, hleast⟩

theorem right_of_none (h : Answers c.edges start goal maxDepth none) (e : Error) :
    Right c start goal maxDepth (.error e) := by
  refine ⟨iff_of_false (fun ⟨_, h⟩ => nomatch h) ?_, nofun⟩
  rintro ⟨path, hpath, hlength⟩
  exact absurd hlength (Nat.not_le.mpr (h.none rfl path hpath))

/-- The search ends on every cartridge, whatever cycles, loops and parallel relationships it has. -/
theorem findPath_shortest (calls : List Call) (start goal : String) (maxDepth : Nat) :
    ∃ result bound, (∀ fuel, bound ≤ fuel → (run calls).findPath fuel start goal maxDepth = some result) ∧
      Right (run calls) start goal maxDepth result := by
  unfold RelationshipCartridge.findPath
  by_cases hsame : start = goal
  · subst hsame
    refine ⟨.ok [start], 0, ?_, right_of_some (answers_self _ start maxDepth)⟩
    intro fuel _
    rw [if_pos rfl]
  · obtain ⟨answer, bound, hanswer, hsearch⟩ := search_start (edges_finite (run calls)) (Ne.symm hsame) maxDepth
    cases answer with
    | some path =>
      refine ⟨.ok path, bound, ?_, right_of_some hanswer⟩
      intro fuel hfuel
      rw [if_neg hsame, hsearch fuel hfuel]
      rfl
    | none =>
      refine ⟨.error (RelationshipCartridge.noPath start goal), bound, ?_, right_of_none hanswer _⟩
      intro fuel hfuel
      rw [if_neg hsame, hsearch fuel hfuel]
      rfl

/-- A cycle through the start, and the goal behind it. -/
example : (run [.insert ⟨"1", "a", "b", .calls, 0, 1, 0⟩, .insert ⟨"2", "b", "a", .calls, 0, 1, 0⟩,
    .insert ⟨"3", "b", "c", .calls, 0, 1, 0⟩]).findPath 20 "a" "c" 2 = some (.ok ["a", "b", "c"]) := by
  decide +kernel

end path

end Northstar.Relations
