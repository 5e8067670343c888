import Northstar.Btree.Node
import Northstar.Cache.Entries
import Mathlib.Data.Fintype.Basic

/-!
# Cache.Node — the cache of decoded nodes

Nodes are kept by page and LSN, each key in the shard its hash says, and beside the shards is an index of the
keys of each page.  The index is not told of evictions, so it may name keys that are gone; what an invalidation
needs is that it names every key that is there.
-/

namespace Northstar.Cache

open Btree (Node)

structure NodeKey where
  pageId : PageId
  lsn : UInt64
  deriving Repr, DecidableEq

/-- A configuration that `validate` accepts (`with_config` panics at any other), how keys hash, and
`size_of::<Node>()`. -/
structure NodeCacheConfig extends CacheConfig where
  shardCount : Nat
  maxSize_ge : 2 ^ 20 ≤ maxSize
  maxEntries_ge : 1000 ≤ maxEntries
  isPowerOfTwo : shardCount.isPowerOfTwo
  hash : NodeKey → UInt64
  nodeSize : Nat

instance NodeCacheConfig.neZero (config : NodeCacheConfig) : NeZero config.shardCount :=
  ⟨Nat.pos_iff_ne_zero.mp (Nat.pos_of_isPowerOfTwo config.isPowerOfTwo)⟩

structure NodeCache (config : NodeCacheConfig) where
  shards : Fin config.shardCount → Entries NodeKey Node
  /-- The keys of each page; a set is a list without doubles. -/
  pageVersions : AList fun _ : PageId => List NodeKey

namespace NodeCache

variable {config : NodeCacheConfig}

def withConfig (config : NodeCacheConfig) : NodeCache config := ⟨fun _ => ∅, ∅⟩

def shardIndex (config : NodeCacheConfig) (key : NodeKey) : Fin config.shardCount :=
  Fin.ofNat config.shardCount (config.hash key).toNat

def shard (c : NodeCache config) (key : NodeKey) : Entries NodeKey Node := c.shards (shardIndex config key)

def setShard (c : NodeCache config) (key : NodeKey) (m : Entries NodeKey Node) : NodeCache config :=
  { c with shards := Function.update c.shards (shardIndex config key) m }

def cacheInvalidate (c : NodeCache config) (key : NodeKey) : NodeCache config × Bool :=
  let (m, found) := Entries.invalidate (c.shard key) key
  (c.setShard key m, found)

def cacheClear (c : NodeCache config) : NodeCache config × ClearResult :=
  let cleared := (List.finRange config.shardCount).map fun i => (Entries.clear (c.shards i)).2
  ({ c with shards := fun i => (Entries.clear (c.shards i)).1 },
    ⟨(cleared.map (·.entriesCleared)).sum, (cleared.map (·.dirtyPagesWritten)).sum, (cleared.map (·.memoryFreed)).sum⟩)

def get (c : NodeCache config) (pageId : PageId) (lsn : UInt64) : NodeCache config × Option Node :=
  let key := ⟨pageId, lsn⟩
  let (m, node) := Entries.get (c.shard key) key
  (c.setShard key m, node)

def estimateNodeSize (config : NodeCacheConfig) : Node → Nat
  | .internal node => config.nodeSize + (node.separators.map List.length).sum + node.children.length * 8
  | .leaf node => config.nodeSize + (node.entries.map fun e => e.key.length + e.value.length).sum

/-- The keys the index has for a page. -/
def versions (c : NodeCache config) (pageId : PageId) : List NodeKey := (c.pageVersions.lookup pageId).getD []

-- The index hears only of what was stored.
def put (c : NodeCache config) (pageId : PageId) (lsn : UInt64) (node : Node) (eviction : Eviction NodeKey) :
    NodeCache config × Except CacheError Unit :=
  let key := ⟨pageId, lsn⟩
  let size := estimateNodeSize config node
  match Entries.put (c.shard key) config.toCacheConfig key node size eviction with
  | (m, .error e) => (c.setShard key m, .error e)
  | (m, .ok ()) =>
    ({ c.setShard key m with pageVersions := c.pageVersions.insert pageId ((c.versions pageId).insert key) }, .ok ())

def invalidate (c : NodeCache config) (pageId : PageId) : NodeCache config × Nat :=
  match c.pageVersions.lookup pageId with
  | some keys =>
    (keys.foldl (fun c key => (c.cacheInvalidate key).1) { c with pageVersions := c.pageVersions.erase pageId },
      keys.length)
  | none => (c, 0)

def pin (c : NodeCache config) (pageId : PageId) (lsn : UInt64) : NodeCache config × Bool :=
  let key := ⟨pageId, lsn⟩
  let (m, found) := Entries.pin (c.shard key) key
  (c.setShard key m, found)

def unpin (c : NodeCache config) (pageId : PageId) (lsn : UInt64) : NodeCache config × Bool :=
  let key := ⟨pageId, lsn⟩
  let (m, found) := Entries.unpin (c.shard key) key
  (c.setShard key m, found)

def clear (c : NodeCache config) : NodeCache config × ClearResult := { c with pageVersions := ∅ }.cacheClear

inductive Call where
  | put (pageId : PageId) (lsn : UInt64) (node : Node) (eviction : Eviction NodeKey)
  | get (pageId : PageId) (lsn : UInt64)
  | pin (pageId : PageId) (lsn : UInt64)
  | unpin (pageId : PageId) (lsn : UInt64)
  | invalidate (pageId : PageId)
  | clear
  deriving Repr, DecidableEq

def call (c : NodeCache config) : Call → NodeCache config
  | .put pageId lsn node eviction => (c.put pageId lsn node eviction).1
  | .get pageId lsn => (c.get pageId lsn).1
  | .pin pageId lsn => (c.pin pageId lsn).1
  | .unpin pageId lsn => (c.unpin pageId lsn).1
  | .invalidate pageId => (c.invalidate pageId).1
  | .clear => c.clear.1

/-- The cache after so many calls. -/
def after (config : NodeCacheConfig) (calls : List Call) : NodeCache config := calls.foldl call (withConfig config)

variable {c : NodeCache config} {key other : NodeKey} {pageId page : PageId} {m : Entries NodeKey Node}

theorem shards_setShard (i : Fin config.shardCount) :
    (c.setShard key m).shards i = if i = shardIndex config key then m else c.shards i :=
  Function.update_apply ..

/-- The index names every key that is there, each under its page. -/
structure Tracks (c : NodeCache config) : Prop where
  covers : ∀ key, ((c.shard key).lookup key).isSome → key ∈ c.versions key.pageId
  own : ∀ pageId, ∀ key ∈ c.versions pageId, key.pageId = pageId

theorem tracks_withConfig : Tracks (withConfig config) := by
  constructor
  · intro key h
    -- nothing is there, and nothing is named
    have hnone : ((withConfig config).shard key).lookup key = none := AList.lookup_empty key
    rw [hnone] at h
    cases h
  · intro pageId key hin
    have hnone : (withConfig config).versions pageId = [] := rfl
    rw [hnone] at hin
    cases hin

theorem isSome_of_setShard (hm : (m.lookup other).isSome → ((c.shard key).lookup other).isSome)
    (hin : (((c.setShard key m).shard other).lookup other).isSome) : ((c.shard other).lookup other).isSome := by
  unfold shard at hin
  rw [shards_setShard] at hin
  -- a key in another shard is not touched
  by_cases hshard : shardIndex config other = shardIndex config key
  · rw [if_pos hshard] at hin
    unfold shard
    rw [hshard]
    exact hm hin
  · rw [if_neg hshard] at hin
    exact hin

theorem Tracks.setShard (h : c.Tracks)
    (hm : ∀ other, (m.lookup other).isSome → ((c.shard key).lookup other).isSome) : (c.setShard key m).Tracks :=
  ⟨fun other hin => h.covers other (isSome_of_setShard (hm other) hin), h.own⟩

theorem versions_insert {keys : List NodeKey} :
    ({ c with pageVersions := c.pageVersions.insert page keys } : NodeCache config).versions pageId =
      if pageId = page then keys else c.versions pageId := by
  unfold versions
  by_cases heq : pageId = page
  · rw [if_pos heq, heq, AList.lookup_insert]
    rfl
  · rw [if_neg heq, AList.lookup_insert_ne heq]

theorem Tracks.store (h : c.Tracks)
    (hm : ∀ other ≠ key, (m.lookup other).isSome → ((c.shard key).lookup other).isSome) :
    ({ c.setShard key m with
      pageVersions := c.pageVersions.insert key.pageId ((c.versions key.pageId).insert key) } :
        NodeCache config).Tracks := by
  have hversions : ∀ pageId, ({ c.setShard key m with
      pageVersions := c.pageVersions.insert key.pageId ((c.versions key.pageId).insert key) } :
        NodeCache config).versions pageId =
      if pageId = key.pageId then (c.versions key.pageId).insert key else c.versions pageId :=
    fun _ => versions_insert
  constructor
  · intro other hin
    rw [hversions]
    by_cases heq : other = key
    · rw [heq, if_pos rfl]
      exact List.mem_insert_self
    -- any other key was there before, and named
    have hmem : other ∈ c.versions other.pageId := h.covers other (isSome_of_setShard (hm other heq) hin)
    by_cases hpage : other.pageId = key.pageId
    · rw [if_pos hpage]
      rw [hpage] at hmem
      exact List.mem_insert_of_mem hmem
    · rw [if_neg hpage]
      exact hmem
  · intro pageId other hin
    rw [hversions] at hin
    by_cases hpage : pageId = key.pageId
    · rw [if_pos hpage] at hin
      -- the keys of this page are those before and the new one
      rcases List.mem_insert_iff.mp hin with rfl | hin
      · exact hpage.symm
      · rw [hpage]
        exact h.own _ other hin
    · rw [if_neg hpage] at hin
      exact h.own _ other hin

theorem Tracks.put (h : c.Tracks) (lsn : UInt64) (node : Node) (eviction : Eviction NodeKey) :
    (c.put page lsn node eviction).1.Tracks := by
  unfold NodeCache.put
  dsimp only
  -- what is refused is not named, what is stored is
  rcases hput : Entries.put (c.shard ⟨page, lsn⟩) config.toCacheConfig ⟨page, lsn⟩ node (estimateNodeSize config node)
    eviction with ⟨m, e | _⟩
  · apply h.setShard
    intro other hin
    apply Entries.isSome_of_put_error
    · rw [hput]
    · rw [hput]
      exact hin
  · apply h.store
    intro other hne hin
    apply Entries.isSome_of_put_ok hne
    rw [hput]
    exact hin

theorem tracks_get (h : c.Tracks) (lsn : UInt64) : (c.get page lsn).1.Tracks := by
  apply h.setShard
  intro other hin
  exact Entries.isSome_lookup_get.symm.trans hin

theorem tracks_pin (h : c.Tracks) (lsn : UInt64) : (c.pin page lsn).1.Tracks := by
  apply h.setShard
  intro other hin
  exact Entries.isSome_lookup_pin.symm.trans hin

theorem tracks_unpin (h : c.Tracks) (lsn : UInt64) : (c.unpin page lsn).1.Tracks := by
  apply h.setShard
  intro other hin
  exact Entries.isSome_lookup_unpin.symm.trans hin

theorem tracks_clear : c.clear.1.Tracks := by
  constructor
  · intro key hin
    have hnone : (c.clear.1.shard key).lookup key = none := AList.lookup_empty key
    rw [hnone] at hin
    cases hin
  · intro pageId key hin
    have hnone : c.clear.1.versions pageId = [] := rfl
    rw [hnone] at hin
    cases hin

theorem shards_cacheInvalidate (i : Fin config.shardCount) :
    ((c.cacheInvalidate key).1.shards i).lookup other =
      if other = key ∧ shardIndex config key = i then none else (c.shards i).lookup other := by
  show ((c.setShard key (Entries.invalidate (c.shard key) key).1).shards i).lookup other = _
  rw [shards_setShard]
  by_cases hshard : i = shardIndex config key
  · rw [if_pos hshard, Entries.lookup_invalidate, hshard]
    simp only [and_true]
    rfl
  · rw [if_neg hshard, if_neg fun h => hshard h.2.symm]

theorem shards_foldl_cacheInvalidate (keys : List NodeKey) (i : Fin config.shardCount) :
    ((keys.foldl (fun c key => (c.cacheInvalidate key).1) c).shards i).lookup other =
      if other ∈ keys ∧ shardIndex config other = i then none else (c.shards i).lookup other := by
  induction keys generalizing c with
  | nil => rw [List.foldl_nil, if_neg fun h => List.not_mem_nil h.1]
  | cons key keys ih =>
    rw [List.foldl_cons, ih, shards_cacheInvalidate]
    -- removed by a later key, by the first, or by none
    by_cases hlater : other ∈ keys ∧ shardIndex config other = i
    · rw [if_pos hlater, if_pos ⟨List.mem_cons_of_mem _ hlater.1, hlater.2⟩]
    rw [if_neg hlater]
    by_cases hfirst : other = key ∧ shardIndex config key = i
    · obtain ⟨rfl, hi⟩ := hfirst
      rw [if_pos ⟨rfl, hi⟩, if_pos ⟨List.mem_cons_self .., hi⟩]
    · rw [if_neg hfirst, if_neg]
      rintro ⟨hin, hi⟩
      rcases List.mem_cons.mp hin with rfl | hin
      · exact hfirst ⟨rfl, hi⟩
      · exact hlater ⟨hin, hi⟩

theorem pageVersions_foldl_cacheInvalidate (keys : List NodeKey) :
    (keys.foldl (fun c key => (c.cacheInvalidate key).1) c).pageVersions = c.pageVersions := by
  induction keys generalizing c with
  | nil => rfl
  | cons key keys ih => exact ih

theorem shards_invalidate (i : Fin config.shardCount) :
    ((c.invalidate page).1.shards i).lookup key =
      if key ∈ c.versions page ∧ shardIndex config key = i then none else (c.shards i).lookup key := by
  unfold invalidate versions
  cases c.pageVersions.lookup page with
  | none => rw [if_neg fun h => List.not_mem_nil h.1]
  | some keys => exact shards_foldl_cacheInvalidate keys i

theorem versions_invalidate :
    (c.invalidate page).1.versions pageId = if pageId = page then [] else c.versions pageId := by
  unfold invalidate versions
  cases hpage : c.pageVersions.lookup page with
  | none =>
    by_cases heq : pageId = page
    · rw [if_pos heq, heq, hpage]
      rfl
    · rw [if_neg heq]
  | some keys =>
    dsimp only
    rw [pageVersions_foldl_cacheInvalidate]
    by_cases heq : pageId = page
    · rw [if_pos heq, heq, AList.lookup_erase]
      rfl
    · rw [if_neg heq, AList.lookup_erase_ne heq]

theorem tracks_invalidate (h : c.Tracks) : (c.invalidate page).1.Tracks := by
  constructor
  · intro key hin
    unfold shard at hin
    rw [shards_invalidate] at hin
    by_cases hnamed : key ∈ c.versions page ∧ shardIndex config key = shardIndex config key
    · rw [if_pos hnamed] at hin
      cases hin
    rw [if_neg hnamed] at hin
    have hmem : key ∈ c.versions key.pageId := h.covers key hin
    rw [versions_invalidate, if_neg]
    · exact hmem
    · intro hpage
      rw [hpage] at hmem
      -- a key of this page was named, so it is gone
      exact hnamed ⟨hmem, rfl⟩
  · intro pageId key hin
    rw [versions_invalidate] at hin
    by_cases heq : pageId = page
    · rw [if_pos heq] at hin
      cases hin
    · rw [if_neg heq] at hin
      exact h.own pageId key hin

theorem tracks_call (h : c.Tracks) (x : Call) : (c.call x).Tracks := by
  cases x with
  | put pageId lsn node eviction => exact h.put lsn node eviction
  | get pageId lsn => exact tracks_get h lsn
  | pin pageId lsn => exact tracks_pin h lsn
  | unpin pageId lsn => exact tracks_unpin h lsn
  | invalidate pageId => exact tracks_invalidate h
  | clear => exact tracks_clear

theorem tracks_after (calls : List Call) : (after config calls).Tracks :=
  calls.foldlRecOn call tracks_withConfig fun _ h x _ => tracks_call h x

theorem snd_get (lsn : UInt64) : (c.get page lsn).2 = ((c.shard ⟨page, lsn⟩).lookup ⟨page, lsn⟩).map CacheEntry.value :=
  Entries.snd_get

theorem Tracks.get_invalidate (h : c.Tracks) (lsn : UInt64) : ((c.invalidate page).1.get page lsn).2 = none := by
  rw [snd_get]
  unfold shard
  rw [shards_invalidate]
  by_cases hnamed : (⟨page, lsn⟩ : NodeKey) ∈ c.versions page
  · rw [if_pos ⟨hnamed, rfl⟩]
    rfl
  · rw [if_neg fun h => hnamed h.1]
    -- what the index does not name is not there
    have hnone : (c.shard ⟨page, lsn⟩).lookup ⟨page, lsn⟩ = none := by
      apply Option.eq_none_iff_forall_ne_some.mpr
      intro entry hentry
      exact hnamed (h.covers ⟨page, lsn⟩ (Option.isSome_of_eq_some hentry))
    exact congrArg (Option.map CacheEntry.value) hnone

theorem Tracks.invalidate_others (h : c.Tracks) (hother : key.pageId ≠ page) (i : Fin config.shardCount) :
    ((c.invalidate page).1.shards i).lookup key = (c.shards i).lookup key := by
  rw [shards_invalidate, if_neg]
  exact fun hnamed => hother (h.own page key hnamed.1)

/-- After any calls and any evictions, an invalidation leaves nothing of its page and all of every other. -/
theorem invalidate_complete (config : NodeCacheConfig) (calls : List Call) (pageId : PageId) :
    (∀ lsn, (((after config calls).invalidate pageId).1.get pageId lsn).2 = none) ∧
      ∀ (i : Fin config.shardCount) (key : NodeKey), key.pageId ≠ pageId →
        (((after config calls).invalidate pageId).1.shards i).lookup key = ((after config calls).shards i).lookup key :=
  ⟨(tracks_after calls).get_invalidate, fun i _ hother => (tracks_after calls).invalidate_others hother i⟩

end NodeCache

end Northstar.Cache
