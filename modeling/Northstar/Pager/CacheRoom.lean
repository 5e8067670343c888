import Mathlib.Data.List.Perm.Subperm
import Northstar.Pager.Pager

/-!
# CacheRoom — the cache as a map, and which pages it takes

A page that is cached is replaced, another one needs room in its shard.  A batch of pages has room where each
shard can take all of its new ones; that is what is left to say when nothing is ever evicted.
-/

namespace Northstar

open Bytes

namespace PageCache

variable {env : Env} {cache cache' : PageCache} {pageId : PageId} {data : Bytes}

theorem get_remove_self (cache : PageCache) (pageId : PageId) : (cache.remove pageId).get pageId = none := by
  apply List.lookup_eq_none_iff.mpr
  intro e he
  have hne : e.1 ≠ pageId := by simpa using (List.mem_filter.mp he).2
  simpa using fun heq => hne heq.symm

theorem get_remove_ne (cache : PageCache) {pageId other : PageId} (h : other ≠ pageId) :
    (cache.remove pageId).get other = cache.get other := by
  show (cache.entries.filter _).lookup other = cache.entries.lookup other
  induction cache.entries with
  | nil => rfl
  | cons e entries ih =>
    rcases e with ⟨id, data⟩
    by_cases heq : id = pageId
    · have hother : (other == id) = false := by simpa [heq] using h
      rw [List.filter_cons_of_neg (by simpa using heq), ih]
      simp only [List.lookup_cons, hother]
    · rw [List.filter_cons_of_pos (by simpa using heq)]
      simp only [List.lookup_cons, ih]

theorem lookup_replace {entries : List (PageId × Bytes)} (h : (entries.lookup pageId).isSome) (other : PageId) :
    (entries.map fun e => if e.1 = pageId then (pageId, data) else e).lookup other =
      if other = pageId then some data else entries.lookup other := by
  induction entries with
  | nil => cases h
  | cons e entries ih =>
    rcases e with ⟨id, content⟩
    rw [List.map_cons]
    by_cases heq : id = pageId
    · rw [if_pos heq]
      by_cases hother : other = pageId
      · simp [hother]
      · have hkey : (other == pageId) = false := by simpa using hother
        rw [if_neg hother]
        simp only [List.lookup_cons, heq, hkey]
        clear ih h
        induction entries with
        | nil => rfl
        | cons e' entries ih =>
          rcases e' with ⟨id', content'⟩
          by_cases heq' : id' = pageId
          · simp only [List.map_cons, heq', if_true, List.lookup_cons, hkey, ih]
          · simp only [List.map_cons, heq', if_false, List.lookup_cons, ih]
    · rw [if_neg heq]
      have hkey : (pageId == id) = false := by simpa using fun h => heq h.symm
      have htail : (entries.lookup pageId).isSome := by simpa only [List.lookup_cons, hkey] using h
      by_cases hother : other = pageId
      · rw [if_pos hother, hother]
        simpa only [List.lookup_cons, hkey, hother, if_true] using ih htail
      · rw [if_neg hother]
        have hrest := ih htail
        rw [if_neg hother] at hrest
        simp only [List.lookup_cons, hrest]

theorem get_put (h : cache.put env pageId data = .ok cache') (other : PageId) :
    cache'.get other = if other = pageId then some data else cache.get other := by
  unfold PageCache.put at h
  rw [Except.guard_eq_ok_iff] at h
  rcases h with ⟨-, h⟩
  by_cases hsome : (cache.get pageId).isSome
  · rw [if_pos hsome] at h
    cases h
    exact lookup_replace hsome other
  · rw [if_neg hsome, Except.guard_eq_ok_iff] at h
    cases h.2
    show List.lookup other ((pageId, data) :: cache.entries) = _
    by_cases hother : other = pageId
    · simp [hother]
    · have hkey : (other == pageId) = false := by simpa using hother
      simp only [List.lookup_cons, hkey, if_neg hother]
      rfl

theorem get_eq_none_of_put {e : Error} (hlen : data.length = pageSize) (h : cache.put env pageId data = .error e) :
    cache.get pageId = none := by
  unfold PageCache.put at h
  rw [if_neg (fun hne => hne hlen)] at h
  by_cases hsome : (cache.get pageId).isSome
  · rw [if_pos hsome] at h
    cases h
  · simpa using hsome

def keys (cache : PageCache) : List PageId := cache.entries.map Prod.fst

theorem get_eq_none_iff : cache.get pageId = none ↔ pageId ∉ cache.keys := by
  show cache.entries.lookup pageId = none ↔ _
  rw [List.lookup_eq_none_iff]
  constructor
  · intro h hmem
    rcases List.mem_map.mp hmem with ⟨e, he, heq⟩
    have hne := h e he
    simp [heq] at hne
  · intro h e he
    have hne : e.1 ≠ pageId := fun heq => h (List.mem_map.mpr ⟨e, he, heq⟩)
    simpa using fun heq => hne heq.symm

theorem shardEntries_eq (env : Env) (cache : PageCache) (shard : Nat) :
    cache.shardEntries env shard = cache.keys.countP (fun id => env.shardIndex id = shard) := by
  rw [keys, List.countP_map]
  rfl

def Admits (env : Env) (cache : PageCache) (pageId : PageId) : Prop :=
  (cache.get pageId).isSome ∨ cache.shardEntries env (env.shardIndex pageId) + 1 ≤ maxEntries

theorem exists_put (h : cache.Admits env pageId) (hlen : data.length = pageSize) :
    ∃ cache', cache.put env pageId data = .ok cache' := by
  unfold PageCache.put
  rw [if_neg (fun hne => hne hlen)]
  by_cases hsome : (cache.get pageId).isSome
  · exact ⟨_, if_pos hsome⟩
  · rw [if_neg hsome, if_neg (Nat.not_lt.mpr (h.resolve_left hsome))]
    exact ⟨_, rfl⟩

theorem keys_put (h : cache.put env pageId data = .ok cache') :
    (pageId ∈ cache.keys ∧ cache'.keys = cache.keys) ∨
      (pageId ∉ cache.keys ∧ cache'.keys = pageId :: cache.keys ∧
        cache.shardEntries env (env.shardIndex pageId) + 1 ≤ maxEntries) := by
  unfold PageCache.put at h
  rw [Except.guard_eq_ok_iff] at h
  rcases h with ⟨-, h⟩
  by_cases hsome : (cache.get pageId).isSome
  · rw [if_pos hsome] at h
    cases h
    left
    constructor
    · by_contra hnot
      rw [get_eq_none_iff.mpr hnot] at hsome
      cases hsome
    · show List.map Prod.fst (List.map _ cache.entries) = _
      rw [List.map_map]
      apply List.map_congr_left
      intro e _
      by_cases heq : e.1 = pageId
      · simp [heq]
      · simp [heq]
  · rw [if_neg hsome, Except.guard_eq_ok_iff] at h
    rcases h with ⟨hroom, h⟩
    cases h
    right
    exact ⟨get_eq_none_iff.mp (by simpa using hsome), rfl, Nat.not_lt.mp hroom⟩

/-- Every shard can take those of the pages that fall into it and are not cached. -/
def HasRoom (env : Env) (cache : PageCache) (ids : List PageId) : Prop :=
  ∀ id ∈ ids, cache.get id = none → cache.shardEntries env (env.shardIndex id) +
    ids.countP (fun k => cache.get k = none ∧ env.shardIndex k = env.shardIndex id) ≤ maxEntries

variable {ids : List PageId}

theorem hasRoom_new (h : ids.length ≤ maxEntries) : PageCache.new.HasRoom env ids := by
  intro id _ _
  show 0 + ids.countP _ ≤ maxEntries
  rw [Nat.zero_add]
  exact List.countP_le_length.trans h

theorem HasRoom.admits (h : cache.HasRoom env (pageId :: ids)) : cache.Admits env pageId := by
  by_cases hsome : (cache.get pageId).isSome
  · exact Or.inl hsome
  · right
    have hnone : cache.get pageId = none := by simpa using hsome
    have hle := h pageId (List.mem_cons_self ..) hnone
    rw [List.countP_cons_of_pos (by simpa using hnone)] at hle
    omega

theorem get_put_isNone (h : cache.put env pageId data = .ok cache') {other : PageId} (hother : other ≠ pageId) :
    cache'.get other = none ↔ cache.get other = none := by
  rw [get_put h, if_neg hother]

theorem HasRoom.put (h : cache.HasRoom env (pageId :: ids)) (hnot : pageId ∉ ids)
    (hput : cache.put env pageId data = .ok cache') : cache'.HasRoom env ids := by
  intro id hid hnone
  have hne : id ≠ pageId := fun heq => hnot (heq ▸ hid)
  rw [get_put_isNone hput hne] at hnone
  have hle := h id (List.mem_cons_of_mem _ hid) hnone
  have hcount : ids.countP (fun k => cache'.get k = none ∧ env.shardIndex k = env.shardIndex id) =
      ids.countP (fun k => cache.get k = none ∧ env.shardIndex k = env.shardIndex id) := by
    apply List.countP_congr
    intro k hk
    have hk : k ≠ pageId := fun heq => hnot (heq ▸ hk)
    simp only [get_put_isNone hput hk]
  rw [hcount, shardEntries_eq]
  rw [shardEntries_eq] at hle
  rcases keys_put hput with ⟨-, hkeys⟩ | ⟨hout, hkeys, -⟩
  · rw [hkeys]
    exact (Nat.add_le_add_left (List.sublist_cons_self ..).countP_le _).trans hle
  · rw [hkeys]
    by_cases hshard : env.shardIndex pageId = env.shardIndex id
    · rw [List.countP_cons_of_pos (by simpa using hshard)]
      rw [List.countP_cons_of_pos (by simpa using ⟨get_eq_none_iff.mpr hout, hshard⟩)] at hle
      omega
    · rw [List.countP_cons_of_neg (by simpa using hshard)]
      rw [List.countP_cons_of_neg (by simpa using fun _ => hshard)] at hle
      exact hle

theorem HasRoom.replace (h : cache.HasRoom env ids) (hheld : (cache.get pageId).isSome)
    (hput : cache.put env pageId data = .ok cache') : cache'.HasRoom env ids := by
  have hmem : pageId ∈ cache.keys := by
    by_contra hnot
    rw [get_eq_none_iff.mpr hnot] at hheld
    cases hheld
  have hkeys : cache'.keys = cache.keys := by
    rcases keys_put hput with ⟨-, hkeys⟩ | ⟨hout, -⟩
    · exact hkeys
    · exact absurd hmem hout
  have hnone : ∀ k, cache'.get k = none ↔ cache.get k = none := by
    intro k
    rw [get_eq_none_iff, get_eq_none_iff, hkeys]
  intro id hid hget
  rw [shardEntries_eq, hkeys, ← shardEntries_eq]
  simp only [hnone] at hget ⊢
  exact h id hid hget

/-- New pages in front of the old ones, in shards that are not over the limit. -/
structure Grew (env : Env) (cache cache' : PageCache) : Prop where
  added : ∃ new : List PageId, cache'.keys = new ++ cache.keys ∧ new.Nodup ∧ (∀ k ∈ new, k ∉ cache.keys) ∧
    ∀ k ∈ new, cache'.shardEntries env (env.shardIndex k) ≤ maxEntries

theorem Grew.refl (env : Env) (cache : PageCache) : cache.Grew env cache :=
  ⟨[], rfl, List.nodup_nil, fun _ h => (nomatch h), fun _ h => (nomatch h)⟩

theorem Grew.put {start : PageCache} (h : start.Grew env cache) (hput : cache.put env pageId data = .ok cache') :
    start.Grew env cache' := by
  rcases h.added with ⟨new, hnew, hnodup, hout, hfits⟩
  rcases keys_put hput with ⟨-, hkeys⟩ | ⟨hnot, hkeys, hroom⟩
  · refine ⟨new, hkeys.trans hnew, hnodup, hout, ?_⟩
    intro k hk
    rw [shardEntries_eq, hkeys, ← shardEntries_eq]
    exact hfits k hk
  · rw [hnew] at hnot
    have hcons : cache'.shardEntries env (env.shardIndex pageId) ≤ maxEntries := by
      rw [shardEntries_eq, hkeys, List.countP_cons_of_pos (by simp), ← shardEntries_eq]
      exact hroom
    refine ⟨pageId :: new, by rw [hkeys, hnew, List.cons_append], ?_, ?_, ?_⟩
    · exact List.nodup_cons.mpr ⟨fun hmem => hnot (List.mem_append_left _ hmem), hnodup⟩
    · intro k hk
      rcases List.mem_cons.mp hk with rfl | hk
      · exact fun hmem => hnot (List.mem_append_right _ hmem)
      · exact hout k hk
    · intro k hk
      by_cases hshard : env.shardIndex k = env.shardIndex pageId
      · rw [hshard]
        exact hcons
      · have hk : k ∈ new := (List.mem_cons.mp hk).resolve_left fun heq => hshard (heq ▸ rfl)
        rw [shardEntries_eq, hkeys, List.countP_cons_of_neg (by simpa using fun heq => hshard heq.symm),
          ← shardEntries_eq]
        exact hfits k hk

theorem Grew.get_ne_none (h : cache.Grew env cache') (hget : cache.get pageId ≠ none) :
    cache'.get pageId ≠ none := by
  rcases h.added with ⟨new, hnew, -⟩
  rw [ne_eq, get_eq_none_iff, Decidable.not_not] at hget ⊢
  rw [hnew]
  exact List.mem_append_right _ hget

theorem Grew.hasRoom (h : cache.Grew env cache') (hnodup : ids.Nodup)
    (hheld : ∀ id ∈ ids, cache'.get id ≠ none) : cache.HasRoom env ids := by
  rcases h.added with ⟨new, hnew, -, hout, hfits⟩
  have hadded : ∀ id ∈ ids, cache.get id = none → id ∈ new := by
    intro id hid hnone
    have hmem : id ∈ cache'.keys := by
      by_contra hnot
      exact hheld id hid (get_eq_none_iff.mpr hnot)
    rw [hnew] at hmem
    exact (List.mem_append.mp hmem).resolve_right (get_eq_none_iff.mp hnone)
  intro id hid hnone
  have hlimit := hfits id (hadded id hid hnone)
  rw [shardEntries_eq, hnew, List.countP_append] at hlimit
  have hcount : ids.countP (fun k => cache.get k = none ∧ env.shardIndex k = env.shardIndex id) ≤
      new.countP (fun k => env.shardIndex k = env.shardIndex id) := by
    rw [List.countP_eq_length_filter, List.countP_eq_length_filter]
    apply List.Subperm.length_le
    apply List.subperm_of_subset (hnodup.filter _)
    intro k hk
    rcases List.mem_filter.mp hk with ⟨hk, hp⟩
    have hp : cache.get k = none ∧ env.shardIndex k = env.shardIndex id := by simpa using hp
    exact List.mem_filter.mpr ⟨hadded k hk hp.1, by simpa using hp.2⟩
  rw [shardEntries_eq]
  omega

end PageCache

end Northstar
