import Northstar.Lib.EState
import Northstar.Queries.PlanCache

/-!
# Queries.PlanInvalidation — the plan cache behind its mutexes

Each part of the cache has a mutex of its own, and a call holds several of them at once.  The lookups and the new
plans take them without waiting, and compute what the cache computes without them.

A commit invalidates the plans of its entities.  It finds them in the index and takes them out of the cache, and
then it waits for the mutex of the index, which it holds.
-/

namespace Northstar.Queries

open Mutex EStateM

inductive CacheMutex
  | planCache
  | frequencyTable
  | stats
  | planLruQueue
  | entityPlanIndex
  deriving Repr, DecidableEq

structure InvalidationStats where
  invalidationsOnCommit : UInt64
  plansInvalidated : UInt64
  resultsInvalidated : UInt64
  deriving Repr, DecidableEq

structure CommitInvalidation where
  affectedEntities : List String
  affectedPages : List UInt64
  deriving Repr, DecidableEq

structure ResultCache (ρ : Type) where
  cacheInvalidate : ρ → List UInt64 → Nat × ρ
  clear : ρ → ρ

structure SharedCache (Plan ρ : Type) where
  plans : QueryCacheIntegration Plan
  invalidations : InvalidationStats
  results : ρ

abbrev CacheM (Plan ρ : Type) := MutexM CacheMutex (SharedCache Plan ρ)

variable {Intent Plan ρ α : Type}

def liftPlans (f : QueryCacheIntegration Plan → α × QueryCacheIntegration Plan) (c : SharedCache Plan ρ) :
    α × SharedCache Plan ρ := ((f c.plans).1, { c with plans := (f c.plans).2 })

def onPlans (f : QueryCacheIntegration Plan → α × QueryCacheIntegration Plan) : CacheM Plan ρ α := onData (liftPlans f)

def readPlans : CacheM Plan ρ (QueryCacheIntegration Plan) := onPlans fun c => (c, c)

def modifyPlans (f : QueryCacheIntegration Plan → QueryCacheIntegration Plan) : CacheM Plan ρ Unit :=
  onPlans fun c => ((), f c)

def modifyInvalidations (f : InvalidationStats → InvalidationStats) : CacheM Plan ρ Unit :=
  onData fun c => ((), { c with invalidations := f c.invalidations })

namespace SharedCache

def withConfig (config : QueryCacheConfig) (results : ρ) : SharedCache Plan ρ :=
  ⟨.withConfig config, ⟨0, 0, 0⟩, results⟩

def removeFromIndex (key : QueryPlanKey) : CacheM Plan ρ Unit :=
  withLock .entityPlanIndex (modifyPlans (·.removeFromIndex key))

/-- The caller holds the cache. -/
def evictPlan : CacheM Plan ρ Unit := withLock .planLruQueue do
  match (← readPlans).planLruQueue with
  | [] => return ()
  | key :: rest =>
    if key ∈ (← readPlans).planCache then
      modifyPlans fun c => { c with planCache := c.planCache.erase key }
      removeFromIndex key
      modifyPlans fun c => { c with planLruQueue := rest }
      withLock .stats (modifyPlans fun c => { c with stats.planCacheEvictions := c.stats.planCacheEvictions + 1 })

/-- What a hit leaves beside the cache, which is held. -/
def recordUse (key : QueryPlanKey) : CacheM Plan ρ Unit := withLock .planLruQueue do
  modifyPlans fun c => { c with planLruQueue := c.planLruQueue.erase key ++ [key] }
  withLock .stats do
    modifyPlans fun c => { c with stats.planCacheHits := c.stats.planCacheHits + 1 }
    withLock .frequencyTable (return ())

def lookupPlan (key : QueryPlanKey) (now : Nat) : CacheM Plan ρ (Option Plan) := withLock .planCache do
  match (← readPlans).planCache.lookup key with
  | none => return none
  | some cached =>
    if cached.isExpired (← readPlans).config.planTtl now then
      modifyPlans fun c => { c with planCache := c.planCache.erase key }
      removeFromIndex key
      return none
    else
      modifyPlans fun c => { c with planCache := HashMap.modify c.planCache key CachedPlan.recordHit }
      recordUse key
      return some cached.plan

def indexEntities (key : QueryPlanKey) : List String → CacheM Plan ρ Unit
  | [] => return ()
  | entityRef :: entityRefs => do
    withLock .entityPlanIndex (modifyPlans fun c => c.addToIndex key entityRef)
    indexEntities key entityRefs

def makeRoom : CacheM Plan ρ Unit := do
  if (← readPlans).isFull then evictPlan else return ()

def storePlan (key : QueryPlanKey) (entityRefs : List String) (plan : Plan) (now : Nat) : CacheM Plan ρ Unit := do
  let cacheSize ← withLock .planCache do
    makeRoom
    modifyPlans fun c => { c with planCache := c.planCache.insert key (.new plan now) }
    withLock .planLruQueue do
      modifyPlans fun c => { c with planLruQueue := c.planLruQueue ++ [key] }
      indexEntities key entityRefs
      onPlans fun c => (c.planCache.entries.length, c)
  withLock .stats (modifyPlans fun c => { c with stats := { c.stats with
    planCacheMisses := c.stats.planCacheMisses + 1
    planCacheSize := cacheSize } })
  withLock .frequencyTable (return ())

def getOrExecutePlan (f : KeyFunctions Intent) (query : String) (entityRefs : List String) (intentType : Intent)
    (executed : Except String Plan) (now done : Nat) : CacheM Plan ρ (Except String Plan) := do
  let key := QueryPlanKey.fromQuery f query entityRefs intentType
  match ← lookupPlan key now with
  | some plan => return .ok plan
  | none =>
    match executed with
    | .error e => return .error e
    | .ok plan =>
      storePlan key entityRefs plan done
      return .ok plan

/-- The plans that the index has under an entity, counted where they are still cached. -/
def removePlans (invalidated : Nat × QueryCacheIntegration Plan) (entity : String) :
    Nat × QueryCacheIntegration Plan :=
  let keys := (invalidated.2.entityPlanIndex.lookup entity).getD ∅
  (invalidated.1 + (keys.filter (· ∈ invalidated.2.planCache)).card,
    { invalidated.2 with planCache := HashMap.retain invalidated.2.planCache fun key => key ∉ keys })

def removeEntities (entities : List String) (c : QueryCacheIntegration Plan) : QueryCacheIntegration Plan :=
  { c with entityPlanIndex := entities.foldl (fun index entity => index.erase entity) c.entityPlanIndex }

def invalidateOnCommit (r : ResultCache ρ) (invalidation : CommitInvalidation) : CacheM Plan ρ Unit :=
  withLock .stats do
    modifyInvalidations fun s => { s with invalidationsOnCommit := s.invalidationsOnCommit + 1 }
    let plansInvalidated ← withLock .planCache (withLock .entityPlanIndex do
      let plansInvalidated ← onPlans fun c => invalidation.affectedEntities.foldl removePlans (0, c)
      -- the index is still held
      withLock .entityPlanIndex (modifyPlans (removeEntities invalidation.affectedEntities))
      return plansInvalidated)
    modifyInvalidations fun s => { s with plansInvalidated := s.plansInvalidated + UInt64.ofNat plansInvalidated }
    let size ← withLock .planCache (onPlans fun c => (c.planCache.entries.length, c))
    modifyPlans fun c => { c with stats.planCacheSize := size }
    let resultsInvalidated ← onData fun c =>
      ((r.cacheInvalidate c.results invalidation.affectedPages).1,
        { c with results := (r.cacheInvalidate c.results invalidation.affectedPages).2 })
    modifyInvalidations fun s =>
      { s with resultsInvalidated := s.resultsInvalidated + UInt64.ofNat resultsInvalidated }

def clearAll (r : ResultCache ρ) : CacheM Plan ρ Unit := do
  withLock .planCache (modifyPlans fun c => { c with planCache := ∅ })
  withLock .planLruQueue (modifyPlans fun c => { c with planLruQueue := [] })
  withLock .entityPlanIndex (modifyPlans fun c => { c with entityPlanIndex := ∅ })
  withLock .frequencyTable (return ())
  onData fun c => ((), { c with results := r.clear c.results })
  withLock .stats (modifyPlans fun c => { c with stats.planCacheSize := 0 })

variable {held : List CacheMutex} {key : QueryPlanKey} {entityRefs : List String} {now : Nat}

theorem run_readPlans_bind (y : QueryCacheIntegration Plan → CacheM Plan ρ α) (d : SharedCache Plan ρ) :
    (readPlans >>= y).run ⟨held, d⟩ = (y d.plans).run ⟨held, d⟩ := rfl

theorem computes_modifyPlans (held : List CacheMutex) (f : QueryCacheIntegration Plan → QueryCacheIntegration Plan) :
    Computes held (modifyPlans f : CacheM Plan ρ _) (liftPlans fun c => ((), f c)) := computes_onData held _

theorem computes_modifyInvalidations (held : List CacheMutex) (f : InvalidationStats → InvalidationStats) :
    Computes held (modifyInvalidations f : CacheM Plan ρ _) fun c => ((), { c with invalidations := f c.invalidations }) :=
  computes_onData held _

theorem computes_onPlans (held : List CacheMutex) (f : QueryCacheIntegration Plan → α × QueryCacheIntegration Plan) :
    Computes held (onPlans f : CacheM Plan ρ _) (liftPlans f) := computes_onData held _

theorem computes_removeFromIndex (hfree : .entityPlanIndex ∉ held) :
    Computes held (removeFromIndex key : CacheM Plan ρ _) (liftPlans fun c => ((), c.removeFromIndex key)) :=
  (computes_modifyPlans _ _).withLock hfree

theorem computes_evictPlan :
    Computes [.planCache] (evictPlan : CacheM Plan ρ _) (liftPlans fun c => ((), c.evictPlan)) := by
  unfold evictPlan
  apply Computes.withLock (by decide)
  intro d
  rw [run_readPlans_bind]
  unfold liftPlans QueryCacheIntegration.evictPlan
  dsimp only
  cases hqueue : d.plans.planLruQueue with
  | nil => rfl
  | cons first rest =>
    dsimp only
    rw [run_readPlans_bind]
    by_cases hin : first ∈ d.plans.planCache
    · rw [if_pos hin, if_pos hin, run_bind_of_ok (computes_modifyPlans _ _ _),
        run_bind_of_ok (computes_removeFromIndex (by decide) _),
        run_bind_of_ok (computes_modifyPlans _ _ _)]
      exact (computes_modifyPlans _ _).withLock (by decide) _
    · rw [if_neg hin, if_neg hin]
      rfl

theorem computes_recordUse (key : QueryPlanKey) :
    Computes [.planCache] (recordUse key : CacheM Plan ρ _) (liftPlans fun c => ((), { c with
      planLruQueue := c.planLruQueue.erase key ++ [key]
      stats.planCacheHits := c.stats.planCacheHits + 1 })) := by
  -- the queue, the statistics and the frequencies, each inside the one before
  exact ((computes_modifyPlans _ _).bind fun _ =>
    ((computes_modifyPlans _ _).bind fun _ =>
      (computes_pure _ ()).withLock (by decide)).withLock (by decide)).withLock (by decide)

theorem computes_lookupPlan (key : QueryPlanKey) (now : Nat) :
    Computes [] (lookupPlan key now : CacheM Plan ρ _) (liftPlans fun c => c.lookupPlan key now) := by
  unfold lookupPlan
  apply Computes.withLock (by decide)
  intro d
  rw [run_readPlans_bind]
  unfold liftPlans QueryCacheIntegration.lookupPlan
  dsimp only
  cases hlookup : d.plans.planCache.lookup key with
  | none => rfl
  | some cached =>
    dsimp only
    rw [run_readPlans_bind]
    by_cases hexpired : cached.isExpired d.plans.config.planTtl now = true
    · rw [if_pos hexpired, if_pos hexpired, run_bind_of_ok (computes_modifyPlans _ _ _),
        run_bind_of_ok (computes_removeFromIndex (by decide) _)]
      rfl
    · rw [if_neg hexpired, if_neg hexpired, run_bind_of_ok (computes_modifyPlans _ _ _),
        run_bind_of_ok (computes_recordUse key _)]
      rfl

theorem computes_indexEntities (hfree : .entityPlanIndex ∉ held) (key : QueryPlanKey) (entityRefs : List String) :
    Computes held (indexEntities key entityRefs : CacheM Plan ρ _)
      (liftPlans fun c => ((), entityRefs.foldl (fun c entityRef => c.addToIndex key entityRef) c)) := by
  induction entityRefs with
  | nil => exact computes_pure held ()
  | cons entityRef entityRefs ih =>
    exact ((computes_modifyPlans _ _).withLock hfree).bind fun _ => ih

theorem computes_makeRoom :
    Computes [.planCache] (makeRoom : CacheM Plan ρ _) (liftPlans fun c => ((), c.makeRoom)) := by
  intro d
  unfold makeRoom liftPlans QueryCacheIntegration.makeRoom
  rw [run_readPlans_bind]
  dsimp only
  by_cases hfull : d.plans.isFull
  · rw [if_pos hfull, if_pos hfull]
    exact computes_evictPlan d
  · rw [if_neg hfull, if_neg hfull]
    rfl

theorem computes_storePlan (key : QueryPlanKey) (entityRefs : List String) (plan : Plan) (now : Nat) :
    Computes [] (storePlan key entityRefs plan now : CacheM Plan ρ _)
      (liftPlans fun c => ((), c.storePlan key entityRefs plan now)) := by
  unfold storePlan
  exact Computes.bind
    (Computes.withLock (by decide)
      (computes_makeRoom.bind fun _ => (computes_modifyPlans _ _).bind fun _ =>
        Computes.withLock (by decide)
          ((computes_modifyPlans _ _).bind fun _ =>
            (computes_indexEntities (by decide) key entityRefs).bind fun _ => computes_onData _ _)))
    fun _ =>
      Computes.bind ((computes_modifyPlans _ _).withLock (by decide)) fun _ =>
        (computes_pure _ ()).withLock (by decide)

theorem computes_getOrExecutePlan (f : KeyFunctions Intent) (query : String) (entityRefs : List String)
    (intentType : Intent) (executed : Except String Plan) (now done : Nat) :
    Computes [] (getOrExecutePlan f query entityRefs intentType executed now done : CacheM Plan ρ _)
      (liftPlans fun c => c.getOrExecutePlan f query entityRefs intentType executed now done) := by
  intro d
  unfold getOrExecutePlan liftPlans QueryCacheIntegration.getOrExecutePlan
  dsimp only
  generalize QueryPlanKey.fromQuery f query entityRefs intentType = key
  rw [run_bind_of_ok (computes_lookupPlan key now d)]
  unfold liftPlans
  dsimp only
  rcases d.plans.lookupPlan key now with ⟨_ | plan, c⟩
  · cases executed with
    | error e => rfl
    | ok plan =>
      dsimp only
      rw [run_bind_of_ok (computes_storePlan key entityRefs plan done _)]
      rfl
  · rfl

theorem computes_clearAll (r : ResultCache ρ) : Computes [] (clearAll r : CacheM Plan ρ _) fun c =>
      ((), { c with plans := c.plans.clearAll, results := r.clear c.results }) := by
  unfold clearAll
  exact ((computes_modifyPlans _ _).withLock (by decide)).bind fun _ =>
    ((computes_modifyPlans _ _).withLock (by decide)).bind fun _ =>
      ((computes_modifyPlans _ _).withLock (by decide)).bind fun _ =>
        ((computes_pure _ ()).withLock (by decide)).bind fun _ =>
          (computes_onData _ _).bind fun _ => (computes_modifyPlans _ _).withLock (by decide)

end SharedCache

namespace QueryCacheIntegration

variable {c : QueryCacheIntegration Plan} {refs : QueryPlanKey → List String} {key other : QueryPlanKey}
  {entityRefs : List String} {entity : String} {plan : Plan} {now : Nat}

def indexed (c : QueryCacheIntegration Plan) (entity : String) : Finset QueryPlanKey :=
  (c.entityPlanIndex.lookup entity).getD ∅

/-- Under each entity the index has the cached plans that were stored with it, and no others. -/
def Indexed (c : QueryCacheIntegration Plan) (refs : QueryPlanKey → List String) : Prop :=
  ∀ entity key, key ∈ c.indexed entity ↔ key ∈ c.planCache ∧ entity ∈ refs key

theorem mem_indexed : key ∈ c.indexed entity ↔ ∃ keys, c.entityPlanIndex.lookup entity = some keys ∧ key ∈ keys := by
  unfold indexed
  cases hlookup : c.entityPlanIndex.lookup entity with
  | none => exact iff_of_false (Finset.notMem_empty key) fun ⟨_, hsome, _⟩ => nomatch hsome
  | some keys =>
    constructor
    · exact fun hkey => ⟨keys, rfl, hkey⟩
    · intro ⟨keys', hsome, hkey⟩
      cases hsome
      exact hkey

theorem mem_indexed_removeFromIndex :
    other ∈ (c.removeFromIndex key).indexed entity ↔ other ∈ c.indexed entity ∧ other ≠ key := by
  have hnodup : (((c.entityPlanIndex.entries.map fun e => (e.1, e.2.erase key)).filter fun e => e.2 ≠ ∅).map
      Prod.fst).Nodup := by
    apply List.Nodup.sublist (List.filter_sublist.map Prod.fst)
    rw [List.map_map]
    exact c.entityPlanIndex.keys_nodup
  have hlookup : ∀ keys, (c.removeFromIndex key).entityPlanIndex.lookup entity = some keys ↔
      (entity, keys) ∈ (c.entityPlanIndex.entries.map fun e => (e.1, e.2.erase key)).filter fun e => e.2 ≠ ∅ :=
    fun _ => HashMap.lookup_collect_eq_some hnodup
  rw [mem_indexed, mem_indexed]
  constructor
  · intro ⟨keys, hkeys, hother⟩
    rw [hlookup, List.mem_filter, List.mem_map] at hkeys
    obtain ⟨⟨e, he, heq⟩, -⟩ := hkeys
    cases heq
    have hsplit := Finset.mem_erase.mp hother
    exact ⟨⟨e.2, HashMap.lookup_of_mem he, hsplit.2⟩, hsplit.1⟩
  · intro ⟨⟨keys, hkeys, hother⟩, hne⟩
    have hstays : other ∈ keys.erase key := Finset.mem_erase.mpr ⟨hne, hother⟩
    refine ⟨keys.erase key, ?_, hstays⟩
    rw [hlookup, List.mem_filter, List.mem_map]
    constructor
    · exact ⟨⟨entity, keys⟩, HashMap.mem_of_lookup hkeys, rfl⟩
    · exact decide_eq_true (Finset.ne_empty_of_mem hstays)

theorem mem_indexed_addToIndex {entityRef : String} :
    other ∈ (c.addToIndex key entityRef).indexed entity ↔
      other ∈ c.indexed entity ∨ other = key ∧ entity = entityRef := by
  unfold indexed addToIndex
  dsimp only
  by_cases heq : entity = entityRef
  · rw [heq, AList.lookup_insert]
    show other ∈ insert key _ ↔ _
    rw [Finset.mem_insert, or_comm]
    exact or_congr_right (and_iff_left rfl).symm
  · rw [AList.lookup_insert_ne heq]
    exact (or_iff_left fun h => heq h.2).symm

theorem mem_indexed_foldl_addToIndex (c : QueryCacheIntegration Plan) :
    other ∈ (entityRefs.foldl (fun c entityRef => c.addToIndex key entityRef) c).indexed entity ↔
      other ∈ c.indexed entity ∨ other = key ∧ entity ∈ entityRefs := by
  induction entityRefs generalizing c with
  | nil => exact (or_iff_left fun h => List.not_mem_nil h.2).symm
  | cons entityRef entityRefs ih =>
    rw [List.foldl_cons, ih, mem_indexed_addToIndex, List.mem_cons, or_assoc, ← and_or_left]

theorem Indexed.remove (h : c.Indexed refs) (key : QueryPlanKey) :
    ({ c with planCache := c.planCache.erase key }.removeFromIndex key).Indexed refs := by
  intro entity other
  rw [mem_indexed_removeFromIndex]
  show other ∈ c.indexed entity ∧ other ≠ key ↔ other ∈ c.planCache.erase key ∧ entity ∈ refs other
  rw [h entity other, AList.mem_erase, and_comm, and_assoc]

theorem Indexed.evictPlan (h : c.Indexed refs) : c.evictPlan.Indexed refs := by
  unfold QueryCacheIntegration.evictPlan
  split
  · exact h
  · split
    · exact h.remove _
    · exact h

theorem Indexed.makeRoom (h : c.Indexed refs) : c.makeRoom.Indexed refs := by
  unfold QueryCacheIntegration.makeRoom
  split
  · exact h.evictPlan
  · exact h

theorem subset_evictPlan (hin : other ∈ c.evictPlan.planCache) : other ∈ c.planCache := by
  unfold QueryCacheIntegration.evictPlan at hin
  split at hin
  · exact hin
  · split at hin
    · exact (AList.mem_erase.mp hin).2
    · exact hin

theorem subset_makeRoom (hin : other ∈ c.makeRoom.planCache) : other ∈ c.planCache := by
  unfold QueryCacheIntegration.makeRoom at hin
  split at hin
  · exact subset_evictPlan hin
  · exact hin

theorem Indexed.update (h : c.Indexed refs) (hnew : key ∉ c.planCache) (entityRefs : List String) :
    c.Indexed (Function.update refs key entityRefs) := by
  intro entity other
  by_cases heq : other = key
  · rw [heq]
    exact iff_of_false (fun hin => hnew ((h entity key).mp hin).1) fun hand => hnew hand.1
  · rw [Function.update_of_ne heq]
    exact h entity other

theorem Indexed.storePlan (h : c.Indexed refs) (hnew : key ∉ c.planCache) :
    (c.storePlan key entityRefs plan now).Indexed (Function.update refs key entityRefs) := by
  intro entity other
  rw [storePlan_eq.1, AList.mem_insert]
  have hroom := h.makeRoom entity other
  have hfold : other ∈ (c.storePlan key entityRefs plan now).indexed entity ↔
      other ∈ c.makeRoom.indexed entity ∨ other = key ∧ entity ∈ entityRefs := mem_indexed_foldl_addToIndex _
  rw [hfold, hroom]
  by_cases heq : other = key
  · -- the index has not known the key
    have hout : other ∉ c.makeRoom.planCache := fun hin => hnew (heq ▸ subset_makeRoom hin)
    rw [heq, Function.update_self]
    rw [heq] at hout
    constructor
    · exact fun hor => ⟨.inl rfl, (hor.resolve_left fun hin => hout hin.1).2⟩
    · exact fun hand => .inr ⟨rfl, hand.2⟩
  · rw [Function.update_of_ne heq, or_iff_right heq]
    exact or_iff_left fun hand => heq hand.1

end QueryCacheIntegration

inductive CacheCall (Intent Plan : Type)
  | plans (call : Call Intent Plan)
  | invalidateOnCommit (invalidation : CommitInvalidation)

/-- The cache, with the entities that each plan was stored with. -/
structure SharedSystem (Plan ρ : Type) where
  cache : Guarded CacheMutex (SharedCache Plan ρ)
  refs : QueryPlanKey → List String

namespace SharedSystem

def start (config : QueryCacheConfig) (results : ρ) : SharedSystem Plan ρ := ⟨⟨[], .withConfig config results⟩, fun _ => []⟩

/-- The state that a call leaves where it comes to its end. -/
def finished {σ ε : Type} : EStateM.Result ε σ α → Option σ
  | .ok _ s => some s
  | .error _ _ => none

def step (f : KeyFunctions Intent) (r : ResultCache ρ) (s : SharedSystem Plan ρ) :
    CacheCall Intent Plan → Option (SharedSystem Plan ρ)
  | .plans (.getOrExecutePlan query entityRefs intentType executed now done) =>
    let key := QueryPlanKey.fromQuery f query entityRefs intentType
    -- a plan that is not found is stored with the entities of this call
    let refs :=
      if (s.cache.data.plans.lookupPlan key now).1.isNone then Function.update s.refs key entityRefs else s.refs
    (finished ((SharedCache.getOrExecutePlan f query entityRefs intentType executed now done).run s.cache)).map
      fun cache => ⟨cache, refs⟩
  | .plans .clearAll => (finished ((SharedCache.clearAll r).run s.cache)).map fun cache => { s with cache := cache }
  | .invalidateOnCommit invalidation =>
    (finished ((SharedCache.invalidateOnCommit r invalidation).run s.cache)).map fun cache => { s with cache := cache }

/-- What is wanted of an invalidation: it comes to its end, the plans of the entities are gone and no others, and
each of them is counted once. -/
def Invalidates (r : ResultCache ρ) (s : SharedSystem Plan ρ) (invalidation : CommitInvalidation) : Prop :=
  ∃ cache, (SharedCache.invalidateOnCommit r invalidation).run s.cache = .ok () cache ∧
    (∀ key, key ∈ cache.data.plans.planCache ↔ key ∈ s.cache.data.plans.planCache ∧
      ∀ entity ∈ invalidation.affectedEntities, entity ∉ s.refs key) ∧
    ∃ removed, removed + cache.data.plans.planCache.entries.length = s.cache.data.plans.planCache.entries.length ∧
      cache.data.invalidations.plansInvalidated =
        s.cache.data.invalidations.plansInvalidated + UInt64.ofNat removed

/-- Between the calls no mutex is held. -/
structure Sound (s : SharedSystem Plan ρ) : Prop where
  free : s.cache.held = []
  indexed : s.cache.data.plans.Indexed s.refs

variable {f : KeyFunctions Intent} {r : ResultCache ρ} {s t : SharedSystem Plan ρ} {config : QueryCacheConfig}
  {results : ρ} {calls : List (CacheCall Intent Plan)}

theorem sound_start : Sound (start config results : SharedSystem Plan ρ) where
  free := rfl
  indexed _ key := iff_of_false (Finset.notMem_empty key) fun h => AList.notMem_empty key h.1

theorem run_invalidateOnCommit (r : ResultCache ρ) (invalidation : CommitInvalidation) (d : SharedCache Plan ρ) :
    (SharedCache.invalidateOnCommit r invalidation).run ⟨[], d⟩ =
      .error .entityPlanIndex ⟨[.entityPlanIndex, .planCache, .stats], { d with
        plans := (invalidation.affectedEntities.foldl SharedCache.removePlans (0, d.plans)).2
        invalidations.invalidationsOnCommit := d.invalidations.invalidationsOnCommit + 1 }⟩ := by
  apply run_withLock_of_error (by decide)
  rw [run_bind_of_ok (SharedCache.computes_modifyInvalidations _ _ _)]
  apply run_bind_of_error
  apply run_withLock_of_error (by decide)
  apply run_withLock_of_error (by decide)
  rw [run_bind_of_ok (SharedCache.computes_onPlans _ _ _)]
  apply run_bind_of_error
  exact run_withLock_held _ (List.mem_cons_self ..)

theorem not_finished_invalidateOnCommit (hfree : s.cache.held = []) (invalidation : CommitInvalidation) :
    step f r s (.invalidateOnCommit invalidation) = none := by
  have hcache : s.cache = ⟨[], s.cache.data⟩ := by rw [← hfree]
  show (finished ((SharedCache.invalidateOnCommit r invalidation).run s.cache)).map _ = none
  rw [hcache, run_invalidateOnCommit]
  rfl

variable {refs : QueryPlanKey → List String}

theorem indexed_missed {c missed : QueryCacheIntegration Plan}
    {key : QueryPlanKey} {now : Nat} (h : c.Indexed refs)
    (hmissed : System.Missed c key now missed) : missed.Indexed refs ∧ key ∉ missed.planCache := by
  cases hmissed with
  | absent habsent => exact ⟨h, AList.lookup_eq_none.mp habsent⟩
  | expired hlookup hexpired => exact ⟨h.remove key, fun hin => (AList.mem_erase.mp hin).1 rfl⟩

theorem indexed_getOrExecutePlan (f : KeyFunctions Intent) {c : QueryCacheIntegration Plan}
    {query : String} {entityRefs : List String} {intentType : Intent}
    {executed : Except String Plan} {now done : Nat} (h : c.Indexed refs) :
    (c.getOrExecutePlan f query entityRefs intentType executed now done).2.Indexed
      (if (c.lookupPlan (QueryPlanKey.fromQuery f query entityRefs intentType) now).1.isNone then
        Function.update refs (QueryPlanKey.fromQuery f query entityRefs intentType) entityRefs else refs) := by
  unfold QueryCacheIntegration.getOrExecutePlan
  dsimp only
  generalize QueryPlanKey.fromQuery f query entityRefs intentType = key
  by_cases hfresh : ∃ cached, c.planCache.lookup key = some cached ∧ ¬ cached.isExpired c.config.planTtl now = true
  · obtain ⟨cached, hlookup, hfresh⟩ := hfresh
    rw [QueryCacheIntegration.lookupPlan_fresh hlookup hfresh]
    intro entity other
    show other ∈ c.indexed entity ↔ other ∈ HashMap.modify c.planCache key CachedPlan.recordHit ∧ entity ∈ refs other
    rw [System.mem_modify]
    exact h entity other
  · obtain ⟨missed, hmissed⟩ := System.exists_missed hfresh
    obtain ⟨hindexed, hnew⟩ := indexed_missed h hmissed
    rw [hmissed.lookupPlan]
    cases executed with
    | error e => exact hindexed.update hnew entityRefs
    | ok plan => exact hindexed.storePlan hnew

theorem sound_getOrExecutePlan {query : String} {entityRefs : List String} {intentType : Intent}
    {executed : Except String Plan} {now done : Nat} (h : Sound s)
    (hstep : step f r s (.plans (.getOrExecutePlan query entityRefs intentType executed now done)) = some t) :
    Sound t := by
  have hcache : s.cache = ⟨[], s.cache.data⟩ := by rw [← h.free]
  unfold step at hstep
  dsimp only at hstep
  rw [hcache, SharedCache.computes_getOrExecutePlan f query entityRefs intentType executed now done] at hstep
  cases hstep
  refine ⟨rfl, ?_⟩
  exact indexed_getOrExecutePlan f h.indexed

theorem sound_step {call : CacheCall Intent Plan} (h : Sound s) (hstep : step f r s call = some t) : Sound t := by
  rcases call with (⟨query, entityRefs, intentType, executed, now, done⟩ | _) | invalidation
  · exact sound_getOrExecutePlan h hstep
  · have hcache : s.cache = ⟨[], s.cache.data⟩ := by rw [← h.free]
    unfold step at hstep
    rw [hcache, SharedCache.computes_clearAll] at hstep
    cases hstep
    exact ⟨rfl, fun entity key => iff_of_false (Finset.notMem_empty key) fun hin => AList.notMem_empty key hin.1⟩
  · rw [not_finished_invalidateOnCommit h.free] at hstep
    cases hstep

theorem sound_run (hrun : Runs.run (step f r) (start config results) calls = some s) : Sound s :=
  Runs.invariant_of_forall (fun _ _ _ => sound_step) sound_start hrun

/-- Every invalidation waits for the mutex of the index, which it holds, in whatever state it is called. -/
theorem invalidateOnCommit_waits (f : KeyFunctions Intent) (r : ResultCache ρ) (config : QueryCacheConfig)
    (results : ρ) (calls : List (CacheCall Intent Plan)) (s : SharedSystem Plan ρ)
    (hrun : Runs.run (step f r) (start config results) calls = some s) (invalidation : CommitInvalidation) :
    ¬ Invalidates r s invalidation ∧
      ∃ waiting, (SharedCache.invalidateOnCommit r invalidation).run s.cache = .error .entityPlanIndex waiting ∧
        .entityPlanIndex ∈ waiting.held := by
  have hcache : s.cache = ⟨[], s.cache.data⟩ := by rw [← (sound_run hrun).free]
  have hwaits := run_invalidateOnCommit r invalidation s.cache.data
  rw [← hcache] at hwaits
  constructor
  · intro ⟨cache, hends, _⟩
    rw [hwaits] at hends
    cases hends
  · exact ⟨_, hwaits, List.mem_cons_self ..⟩

def committed : List (CacheCall Unit String) := [.plans (System.ask "commits" 0), .plans (System.ask "commits" 1)]

def noResults : ResultCache Unit := ⟨fun results _ => (0, results), id⟩

theorem committed_waits : ∃ s : SharedSystem String Unit,
    Runs.run (step System.sampleFunctions noResults) (start ⟨1, 10⟩ ()) committed = some s ∧
      ¬ Invalidates noResults s ⟨["nikos"], []⟩ := by
  have hruns : (Runs.run (step System.sampleFunctions noResults) (start ⟨1, 10⟩ ()) committed).isSome = true := by
    decide +kernel
  obtain ⟨s, hrun⟩ := Option.isSome_iff_exists.mp hruns
  exact ⟨s, hrun, (invalidateOnCommit_waits System.sampleFunctions noResults ⟨1, 10⟩ () committed s hrun ⟨["nikos"], []⟩).1⟩

/-- Before anything is cached. -/
theorem not_invalidates_start : ¬ Invalidates noResults
    (start ⟨1, 10⟩ () : SharedSystem String Unit) ⟨["nikos"], []⟩ := by
  intro ⟨cache, hends, _⟩
  rw [show (start ⟨1, 10⟩ () : SharedSystem String Unit).cache = ⟨[], .withConfig ⟨1, 10⟩ ()⟩ from rfl,
    run_invalidateOnCommit] at hends
  cases hends

end SharedSystem

end Northstar.Queries
