import Northstar.Lib.HashMap
import Northstar.Lib.Greatest
import Northstar.Lib.Runs
import Mathlib.Data.Finset.Basic
import Mathlib.Data.List.Sort
import Mathlib.Data.UInt

/-!
# Queries.PlanCache — the plans of earlier queries

A plan is cached under hashes of its query, its entities and its intent, for a time.  The keys are queued in the
order of their last use, and a full cache evicts the key in front of the queue.

An expired plan leaves the cache and the index, and its key stays in the queue.  The next plan under the key
puts the key into the queue once more, and when the first of the two comes to the front, an eviction takes the
plan away too early or finds none.
-/

namespace Northstar.Queries

structure QueryPlanKey where
  normalizedQueryHash : UInt64
  entityRefsHash : UInt64
  intentHash : UInt64
  deriving Repr, DecidableEq

/-- What a key is made with.  The standard library leaves the algorithm of its `hash` open, and an intent that
cannot be printed has no `toJson`. -/
structure KeyFunctions (Intent : Type*) where
  toLowercase : String → String
  hash : String → UInt64
  toJson : Intent → Option String

/-- Unicode's `White_Space`. -/
def isWhiteSpace (c : Char) : Bool :=
  (0x09 ≤ c.toNat ∧ c.toNat ≤ 0x0D) ∨ (0x2000 ≤ c.toNat ∧ c.toNat ≤ 0x200A) ∨
    c.toNat ∈ [0x20, 0x85, 0xA0, 0x1680, 0x2028, 0x2029, 0x202F, 0x205F, 0x3000]

def splitWhitespace (s : String) : List String :=
  ((s.toList.splitOnP isWhiteSpace).filter (· ≠ [])).map String.ofList

variable {Intent Plan : Type*}

namespace QueryPlanKey

def normalizeQuery (f : KeyFunctions Intent) (query : String) : String :=
  " ".intercalate (splitWhitespace (f.toLowercase query))

def fromQuery (f : KeyFunctions Intent) (query : String) (entityRefs : List String) (intentType : Intent) :
    QueryPlanKey where
  normalizedQueryHash := f.hash (normalizeQuery f query)
  entityRefsHash := f.hash (",".intercalate (entityRefs.insertionSort (· ≤ ·)))
  intentHash := f.hash ((f.toJson intentType).getD "")

end QueryPlanKey

/-- Times are nanoseconds of the system clock. -/
structure CachedPlan (Plan : Type*) where
  plan : Plan
  timestamp : Nat
  hitCount : UInt32

namespace CachedPlan

def new (plan : Plan) (now : Nat) : CachedPlan Plan := ⟨plan, now, 0⟩

/-- The clock may have gone back. -/
def elapsed (c : CachedPlan Plan) (now : Nat) : Option Nat :=
  if c.timestamp ≤ now then some (now - c.timestamp) else none

def isExpired (c : CachedPlan Plan) (ttl now : Nat) : Bool :=
  ((c.elapsed now).map fun elapsed => decide (elapsed > ttl)).getD false

def recordHit (c : CachedPlan Plan) : CachedPlan Plan := { c with hitCount := c.hitCount + 1 }

end CachedPlan

structure QueryCacheConfig where
  maxPlans : Nat
  planTtl : Nat
  deriving Repr, DecidableEq

structure QueryCacheIntegrationStats where
  planCacheSize : Nat
  planCacheHits : UInt64
  planCacheMisses : UInt64
  planCacheEvictions : UInt64
  deriving Repr, DecidableEq

structure QueryCacheIntegration (Plan : Type*) where
  planCache : AList fun _ : QueryPlanKey => CachedPlan Plan
  config : QueryCacheConfig
  stats : QueryCacheIntegrationStats
  planLruQueue : List QueryPlanKey
  entityPlanIndex : AList fun _ : String => Finset QueryPlanKey

namespace QueryCacheIntegration

def withConfig (config : QueryCacheConfig) : QueryCacheIntegration Plan := ⟨∅, config, ⟨0, 0, 0, 0⟩, [], ∅⟩

def removeFromIndex (c : QueryCacheIntegration Plan) (key : QueryPlanKey) : QueryCacheIntegration Plan :=
  let entries := c.entityPlanIndex.entries.map fun e => (e.1, e.2.erase key)
  { c with entityPlanIndex := HashMap.collect (entries.filter fun e => e.2 ≠ ∅) }

def addToIndex (c : QueryCacheIntegration Plan) (key : QueryPlanKey) (entityRef : String) :
    QueryCacheIntegration Plan :=
  let keys := (c.entityPlanIndex.lookup entityRef).getD ∅
  { c with entityPlanIndex := c.entityPlanIndex.insert entityRef (insert key keys) }

/-- Only a key that is cached leaves the queue. -/
def evictPlan (c : QueryCacheIntegration Plan) : QueryCacheIntegration Plan :=
  match c.planLruQueue with
  | [] => c
  | key :: rest =>
    if key ∈ c.planCache then
      let c := { c with planCache := c.planCache.erase key }.removeFromIndex key
      { c with planLruQueue := rest, stats.planCacheEvictions := c.stats.planCacheEvictions + 1 }
    else c

/-- The first part of `get_or_execute_plan`: a plan that is cached and in time. -/
def lookupPlan (c : QueryCacheIntegration Plan) (key : QueryPlanKey) (now : Nat) :
    Option Plan × QueryCacheIntegration Plan :=
  match c.planCache.lookup key with
  | none => (none, c)
  | some cached =>
    if cached.isExpired c.config.planTtl now then
      (none, { c with planCache := c.planCache.erase key }.removeFromIndex key)
    else
      (some cached.plan, { c with
        planCache := HashMap.modify c.planCache key CachedPlan.recordHit
        planLruQueue := c.planLruQueue.erase key ++ [key]
        stats.planCacheHits := c.stats.planCacheHits + 1 })

def isFull (c : QueryCacheIntegration Plan) : Prop := c.planCache.entries.length ≥ c.config.maxPlans

instance decidableIsFull (c : QueryCacheIntegration Plan) : Decidable c.isFull := Nat.decLe _ _

def makeRoom (c : QueryCacheIntegration Plan) : QueryCacheIntegration Plan := if c.isFull then c.evictPlan else c

def storePlan (c : QueryCacheIntegration Plan) (key : QueryPlanKey) (entityRefs : List String) (plan : Plan)
    (now : Nat) : QueryCacheIntegration Plan :=
  let c := c.makeRoom
  let c := { c with
    planCache := c.planCache.insert key (.new plan now)
    planLruQueue := c.planLruQueue ++ [key] }
  let c := entityRefs.foldl (fun c entityRef => c.addToIndex key entityRef) c
  { c with stats := { c.stats with
      planCacheMisses := c.stats.planCacheMisses + 1
      planCacheSize := c.planCache.entries.length } }

/-- With what `execute_fn` gives where it runs, the time of the lookup and the time of the new plan. -/
def getOrExecutePlan (f : KeyFunctions Intent) (c : QueryCacheIntegration Plan) (query : String)
    (entityRefs : List String) (intentType : Intent) (executed : Except String Plan) (now done : Nat) :
    Except String Plan × QueryCacheIntegration Plan :=
  let key := QueryPlanKey.fromQuery f query entityRefs intentType
  match c.lookupPlan key now with
  | (some plan, c) => (.ok plan, c)
  | (none, c) =>
    match executed with
    | .error e => (.error e, c)
    | .ok plan => (.ok plan, c.storePlan key entityRefs plan done)

def clearAll (c : QueryCacheIntegration Plan) : QueryCacheIntegration Plan :=
  { c with planCache := ∅, planLruQueue := [], entityPlanIndex := ∅, stats.planCacheSize := 0 }

variable {c : QueryCacheIntegration Plan} {key : QueryPlanKey} {rest : List QueryPlanKey}
  {cached : CachedPlan Plan} {entityRefs : List String} {plan : Plan} {now : Nat}

theorem lookupPlan_absent (h : c.planCache.lookup key = none) : c.lookupPlan key now = (none, c) := by
  unfold lookupPlan
  rw [h]

theorem lookupPlan_expired (h : c.planCache.lookup key = some cached)
    (hexpired : cached.isExpired c.config.planTtl now = true) :
    c.lookupPlan key now = (none, { c with planCache := c.planCache.erase key }.removeFromIndex key) := by
  unfold lookupPlan
  rw [h]
  dsimp only
  rw [if_pos hexpired]

theorem lookupPlan_fresh (h : c.planCache.lookup key = some cached)
    (hfresh : ¬ cached.isExpired c.config.planTtl now = true) :
    c.lookupPlan key now = (some cached.plan, { c with
      planCache := HashMap.modify c.planCache key CachedPlan.recordHit
      planLruQueue := Recency.touch c.planLruQueue key
      stats.planCacheHits := c.stats.planCacheHits + 1 }) := by
  unfold lookupPlan
  rw [h]
  dsimp only
  rw [if_neg hfresh]
  rfl

theorem evictPlan_cached (h : c.planLruQueue = key :: rest) (hin : key ∈ c.planCache) :
    c.evictPlan.planCache = c.planCache.erase key ∧ c.evictPlan.planLruQueue = rest := by
  unfold evictPlan
  rw [h]
  dsimp only
  rw [if_pos hin]
  exact ⟨rfl, rfl⟩

theorem config_evictPlan : c.evictPlan.config = c.config := by
  unfold evictPlan
  split
  · rfl
  · split
    · rfl
    · rfl

theorem config_makeRoom : c.makeRoom.config = c.config := by
  unfold makeRoom
  split
  · exact config_evictPlan
  · rfl

theorem foldl_addToIndex (key : QueryPlanKey) (entityRefs : List String) (c : QueryCacheIntegration Plan) :
    ∃ index, entityRefs.foldl (fun c entityRef => c.addToIndex key entityRef) c =
      { c with entityPlanIndex := index } := by
  induction entityRefs generalizing c with
  | nil => exact ⟨c.entityPlanIndex, rfl⟩
  | cons entityRef entityRefs ih => exact ih (c.addToIndex key entityRef)

theorem storePlan_eq :
    (c.storePlan key entityRefs plan now).planCache = c.makeRoom.planCache.insert key (.new plan now) ∧
    (c.storePlan key entityRefs plan now).planLruQueue = c.makeRoom.planLruQueue ++ [key] ∧
    (c.storePlan key entityRefs plan now).config = c.config := by
  obtain ⟨index, hindex⟩ := foldl_addToIndex key entityRefs { c.makeRoom with
    planCache := c.makeRoom.planCache.insert key (.new plan now)
    planLruQueue := c.makeRoom.planLruQueue ++ [key] }
  unfold storePlan
  dsimp only
  rw [hindex]
  exact ⟨rfl, rfl, config_makeRoom⟩

end QueryCacheIntegration

inductive Call (Intent Plan : Type*) where
  | getOrExecutePlan (query : String) (entityRefs : List String) (intentType : Intent)
      (executed : Except String Plan) (now done : Nat)
  | clearAll

/-- The keys in the cache before and after an eviction, with the last uses so far. -/
structure Eviction where
  before : List QueryPlanKey
  after : List QueryPlanKey
  lastUse : QueryPlanKey → Nat

/-- The eviction takes one key away, and all others were used later. -/
def Eviction.LeastRecent (e : Eviction) : Prop :=
  ∃ key, e.before.Perm (key :: e.after) ∧ ∀ other ∈ e.after, e.lastUse key < e.lastUse other

/-- The cache with what is seen of it from outside: a plan is used where a call gives it. -/
structure System (Plan : Type*) where
  cache : QueryCacheIntegration Plan
  lastUse : QueryPlanKey → Nat
  clock : Nat
  evictions : List Eviction

namespace System

def start (config : QueryCacheConfig) : System Plan := ⟨.withConfig config, fun _ => 0, 1, []⟩

def evictionOf (c : QueryCacheIntegration Plan) (lastUse : QueryPlanKey → Nat) : List Eviction :=
  if c.isFull then [⟨c.planCache.keys, c.evictPlan.planCache.keys, lastUse⟩] else []

def use (s : System Plan) (key : QueryPlanKey) (cache : QueryCacheIntegration Plan) (evicted : List Eviction) :
    System Plan :=
  ⟨cache, Function.update s.lastUse key s.clock, s.clock + 1, s.evictions ++ evicted⟩

def step (f : KeyFunctions Intent) (s : System Plan) : Call Intent Plan → Option (System Plan)
  | .getOrExecutePlan query entityRefs intentType executed now done =>
    let key := QueryPlanKey.fromQuery f query entityRefs intentType
    -- what the call does, seen once more for the eviction
    let looked := s.cache.lookupPlan key now
    let evicted := if looked.1.isNone then evictionOf looked.2 s.lastUse else []
    match s.cache.getOrExecutePlan f query entityRefs intentType executed now done with
    | (.error _, cache) => some { s with cache := cache }
    | (.ok _, cache) => some (s.use key cache evicted)
  | .clearAll => some { s with cache := s.cache.clearAll }

variable {f : KeyFunctions Intent} {s t : System Plan} {call : Call Intent Plan}

structure Lru (s : System Plan) : Prop where
  capacity : s.cache.planCache.entries.length ≤ s.cache.config.maxPlans
  listed : ∀ key, key ∈ s.cache.planLruQueue ↔ key ∈ s.cache.planCache
  once : s.cache.planLruQueue.Nodup
  inOrder : Recency.InOrder s.lastUse s.cache.planLruQueue
  evictions : ∀ e ∈ s.evictions, e.LeastRecent

def Fresh (f : KeyFunctions Intent) (s : System Plan) : Call Intent Plan → Prop
  | .getOrExecutePlan query entityRefs intentType _ now _ =>
    ∀ cached ∈ s.cache.planCache.lookup (QueryPlanKey.fromQuery f query entityRefs intentType),
      cached.isExpired s.cache.config.planTtl now = false
  | .clearAll => True

variable {key : QueryPlanKey} {cached : CachedPlan Plan} {cache : QueryCacheIntegration Plan}
  {evicted : List Eviction}

/-- What the lookup leaves where no plan is found: the cache as it was, or without the expired plan. -/
inductive Missed (c : QueryCacheIntegration Plan) (key : QueryPlanKey) (now : Nat) : QueryCacheIntegration Plan → Prop
  | absent (h : c.planCache.lookup key = none) : Missed c key now c
  | expired {cached : CachedPlan Plan} (h : c.planCache.lookup key = some cached)
      (hexpired : cached.isExpired c.config.planTtl now = true) :
      Missed c key now ({ c with planCache := c.planCache.erase key }.removeFromIndex key)

variable {c missed : QueryCacheIntegration Plan}

theorem Missed.lookupPlan {now : Nat} (h : Missed c key now missed) :
    c.lookupPlan key now = (none, missed) := by
  cases h with
  | absent h => exact QueryCacheIntegration.lookupPlan_absent h
  | expired h hexpired => exact QueryCacheIntegration.lookupPlan_expired h hexpired

theorem exists_missed {now : Nat}
    (h : ¬ ∃ cached, c.planCache.lookup key = some cached ∧ ¬ cached.isExpired c.config.planTtl now = true) :
    ∃ missed, Missed c key now missed := by
  cases hlookup : c.planCache.lookup key with
  | none => exact ⟨_, .absent hlookup⟩
  | some cached =>
    have hexpired : cached.isExpired c.config.planTtl now = true := by
      by_contra hnot
      exact h ⟨cached, hlookup, hnot⟩
    exact ⟨_, .expired hlookup hexpired⟩

variable {done : Nat} {entityRefs : List String}

theorem step_cases {query : String} {intentType : Intent} {executed : Except String Plan}
    {now : Nat} (hkey : QueryPlanKey.fromQuery f query entityRefs intentType = key)
    (h : step f s (.getOrExecutePlan query entityRefs intentType executed now done) = some t) :
    (∃ cached stats, s.cache.planCache.lookup key = some cached ∧
      ¬ cached.isExpired s.cache.config.planTtl now = true ∧
      t = s.use key { s.cache with
        planCache := HashMap.modify s.cache.planCache key CachedPlan.recordHit
        planLruQueue := Recency.touch s.cache.planLruQueue key
        stats := stats } []) ∨
    ∃ missed, Missed s.cache key now missed ∧
      (t = { s with cache := missed } ∨
        ∃ plan, t = s.use key (missed.storePlan key entityRefs plan done) (evictionOf missed s.lastUse)) := by
  unfold step QueryCacheIntegration.getOrExecutePlan at h
  dsimp only at h
  rw [hkey] at h
  by_cases hfresh : ∃ cached, s.cache.planCache.lookup key = some cached ∧
      ¬ cached.isExpired s.cache.config.planTtl now = true
  · left
    rcases hfresh with ⟨cached, hlookup, hfresh⟩
    -- a hit: the call ends with the cached plan
    rw [QueryCacheIntegration.lookupPlan_fresh hlookup hfresh] at h
    cases h
    exact ⟨cached, _, hlookup, hfresh, rfl⟩
  · right
    -- no plan, or one that is too old
    rcases exists_missed hfresh with ⟨missed, hmissed⟩
    refine ⟨missed, hmissed, ?_⟩
    rw [hmissed.lookupPlan] at h
    cases executed with
    | error e =>
      cases h
      exact .inl rfl
    | ok plan =>
      cases h
      exact .inr ⟨plan, rfl⟩

structure Clocked (s : System Plan) : Prop where
  past : ∀ key, s.lastUse key < s.clock
  room : 1 ≤ s.cache.config.maxPlans

theorem clocked_use (h : Clocked s) (hconfig : cache.config = s.cache.config) : Clocked (s.use key cache evicted) where
  past other := by
    show Function.update s.lastUse key s.clock other < s.clock + 1
    by_cases heq : other = key
    · rw [heq, Function.update_self]
      exact Nat.lt_succ_self _
    · rw [Function.update_of_ne heq]
      exact Nat.lt_succ_of_lt (h.past other)
  room := by
    show 1 ≤ cache.config.maxPlans
    rw [hconfig]
    exact h.room

theorem Missed.config {now : Nat} (h : Missed c key now missed) : missed.config = c.config := by
  cases h <;> rfl

theorem clocked_step (h : Clocked s) (hstep : step f s call = some t) : Clocked t := by
  cases call with
  | getOrExecutePlan query entityRefs intentType executed now done =>
    rcases step_cases rfl hstep with ⟨cached, stats, -, -, rfl⟩ | ⟨missed, hmissed, rfl | ⟨plan, rfl⟩⟩
    · exact clocked_use h rfl
    · exact ⟨h.past, hmissed.config ▸ h.room⟩
    · exact clocked_use h (QueryCacheIntegration.storePlan_eq.2.2.trans hmissed.config)
  | clearAll =>
    cases hstep
    exact ⟨h.past, h.room⟩

theorem lru_use {queue : List QueryPlanKey} (h : Lru s) (hclocked : Clocked s)
    (hqueue : cache.planLruQueue = Recency.touch queue key) (horder : Recency.InOrder s.lastUse queue)
    (hlisted : ∀ other, other ∈ cache.planCache ↔ other = key ∨ other ∈ queue)
    (hcapacity : cache.planCache.entries.length ≤ cache.config.maxPlans)
    (hevicted : ∀ e ∈ evicted, e.LeastRecent) : Lru (s.use key cache evicted) := by
  have horder' : Recency.InOrder (Function.update s.lastUse key s.clock) (Recency.touch queue key) :=
    horder.touch fun other _ => hclocked.past other
  refine ⟨hcapacity, ?_, ?_, ?_, ?_⟩
  · intro other
    show other ∈ cache.planLruQueue ↔ other ∈ cache.planCache
    rw [hqueue, hlisted, Recency.mem_touch]
  · show cache.planLruQueue.Nodup
    rw [hqueue]
    exact horder'.nodup
  · show Recency.InOrder _ cache.planLruQueue
    rw [hqueue]
    exact horder'
  · intro e he
    rcases List.mem_append.mp he with hold | hnew
    · exact h.evictions e hold
    · exact hevicted e hnew

theorem mem_modify {m : AList fun _ : QueryPlanKey => CachedPlan Plan} {g : CachedPlan Plan → CachedPlan Plan}
    {other : QueryPlanKey} : other ∈ HashMap.modify m key g ↔ other ∈ m := by
  rw [← AList.lookup_isSome, HashMap.lookup_modify, Option.isSome_map, AList.lookup_isSome]

theorem lru_hit {stats : QueryCacheIntegrationStats} (h : Lru s) (hclocked : Clocked s)
    (hlookup : s.cache.planCache.lookup key = some cached) :
    Lru (s.use key { s.cache with
      planCache := HashMap.modify s.cache.planCache key CachedPlan.recordHit
      planLruQueue := Recency.touch s.cache.planLruQueue key
      stats := stats } []) := by
  apply lru_use h hclocked rfl h.inOrder
  · intro other
    rw [mem_modify, h.listed]
    apply (or_iff_right_of_imp _).symm
    rintro rfl
    exact AList.lookup_isSome.mp (Option.isSome_of_eq_some hlookup)
  · show (HashMap.modify s.cache.planCache key CachedPlan.recordHit).entries.length ≤ s.cache.config.maxPlans
    rw [HashMap.length_modify]
    exact h.capacity
  · exact fun e he => absurd he List.not_mem_nil

theorem exists_evicted (h : Lru s) (hclocked : Clocked s) (hfull : s.cache.isFull) :
    ∃ first rest, s.cache.planLruQueue = first :: rest ∧ first ∈ s.cache.planCache ∧
      s.cache.evictPlan.planCache = s.cache.planCache.erase first ∧ s.cache.evictPlan.planLruQueue = rest := by
  cases hqueue : s.cache.planLruQueue with
  | nil =>
    -- then no key is cached
    have hlength : 1 ≤ s.cache.planCache.entries.length := Nat.le_trans hclocked.room hfull
    obtain ⟨e, he⟩ := List.exists_mem_of_length_pos hlength
    have hin : e.1 ∈ s.cache.planCache := AList.mem_keys.mpr (List.mem_map.mpr ⟨e, he, rfl⟩)
    rw [← h.listed, hqueue] at hin
    exact absurd hin List.not_mem_nil
  | cons first rest =>
    have hin : first ∈ s.cache.planCache := by
      rw [← h.listed, hqueue]
      exact List.mem_cons_self ..
    exact ⟨first, rest, rfl, hin, QueryCacheIntegration.evictPlan_cached hqueue hin⟩

theorem length_makeRoom_lt (h : Lru s) (hclocked : Clocked s) :
    s.cache.makeRoom.planCache.entries.length < s.cache.config.maxPlans := by
  unfold QueryCacheIntegration.makeRoom
  split
  next hfull =>
    obtain ⟨first, rest, -, hin, hcache, -⟩ := exists_evicted h hclocked hfull
    obtain ⟨cached, hlookup⟩ := Option.isSome_iff_exists.mp (AList.lookup_isSome.mpr hin)
    rw [hcache]
    have hlength := HashMap.length_erase hlookup
    have hcapacity := h.capacity
    omega
  next hroom => exact Nat.lt_of_not_le hroom

theorem queue_makeRoom (h : Lru s) (hclocked : Clocked s) :
    Recency.InOrder s.lastUse s.cache.makeRoom.planLruQueue ∧
      ∀ other, other ∈ s.cache.makeRoom.planLruQueue ↔ other ∈ s.cache.makeRoom.planCache := by
  unfold QueryCacheIntegration.makeRoom
  split
  next hfull =>
    obtain ⟨first, rest, hqueue, -, hcache, hrest⟩ := exists_evicted h hclocked hfull
    have hnodup := h.once
    have horder := h.inOrder
    rw [hqueue] at hnodup horder
    rw [hcache, hrest]
    refine ⟨horder.tail, ?_⟩
    intro other
    rw [AList.mem_erase, ← h.listed, hqueue, List.mem_cons]
    constructor
    · intro hother
      refine ⟨?_, .inr hother⟩
      rintro rfl
      exact (List.nodup_cons.mp hnodup).1 hother
    · exact fun ⟨hne, hother⟩ => hother.resolve_left hne
  next => exact ⟨h.inOrder, h.listed⟩

theorem evictionOf_leastRecent (h : Lru s) (hclocked : Clocked s) :
    ∀ e ∈ evictionOf s.cache s.lastUse, e.LeastRecent := by
  unfold evictionOf
  intro e he
  split at he
  next hfull =>
    obtain ⟨first, rest, hqueue, hin, hcache, -⟩ := exists_evicted h hclocked hfull
    obtain ⟨cached, hlookup⟩ := Option.isSome_iff_exists.mp (AList.lookup_isSome.mpr hin)
    have horder := h.inOrder
    rw [hqueue] at horder
    rw [List.mem_singleton.mp he]
    refine ⟨first, ?_, ?_⟩
    · show (s.cache.planCache.keys).Perm (first :: s.cache.evictPlan.planCache.keys)
      rw [hcache]
      exact (HashMap.perm_erase hlookup).map Sigma.fst
    · intro other hother
      rw [hcache] at hother
      have hboth := AList.mem_erase.mp hother
      rw [← h.listed, hqueue] at hboth
      exact horder.head_lt other ((List.mem_cons.mp hboth.2).resolve_left hboth.1)
  next => exact absurd he List.not_mem_nil

theorem lru_stored {plan : Plan} (h : Lru s) (hclocked : Clocked s)
    (habsent : s.cache.planCache.lookup key = none) :
    Lru (s.use key (s.cache.storePlan key entityRefs plan done) (evictionOf s.cache s.lastUse)) := by
  obtain ⟨hcache, hqueue, hconfig⟩ := @QueryCacheIntegration.storePlan_eq _ s.cache key entityRefs plan done
  obtain ⟨horder, hlisted⟩ := queue_makeRoom h hclocked
  -- no eviction brings the key back
  have hnew : key ∉ s.cache.makeRoom.planCache := by
    unfold QueryCacheIntegration.makeRoom
    have hnot : key ∉ s.cache.planCache := AList.lookup_eq_none.mp habsent
    split
    next hfull =>
      obtain ⟨first, rest, -, -, hcache, -⟩ := exists_evicted h hclocked hfull
      rw [hcache, AList.mem_erase]
      exact fun hin => hnot hin.2
    next => exact hnot
  apply lru_use h hclocked _ horder
  · intro other
    rw [hcache, AList.mem_insert, hlisted]
  · rw [hcache, hconfig, HashMap.length_insert_new (AList.lookup_eq_none.mpr hnew)]
    exact length_makeRoom_lt h hclocked
  · exact evictionOf_leastRecent h hclocked
  · rw [hqueue, Recency.touch_of_notMem]
    rw [hlisted]
    exact hnew

theorem not_lru_removed (h : Lru s) (hlookup : s.cache.planCache.lookup key = some cached)
    (hremoved : cache = { s.cache with planCache := s.cache.planCache.erase key }.removeFromIndex key) :
    ¬ Lru { s with cache := cache } := by
  intro hlru
  have hqueued : key ∈ cache.planLruQueue := by
    rw [hremoved]
    exact (h.listed key).mpr (AList.lookup_isSome.mp (Option.isSome_of_eq_some hlookup))
  have hin := (hlru.listed key).mp hqueued
  rw [hremoved] at hin
  exact (AList.mem_erase.mp hin).1 rfl

theorem not_lru_stored {plan : Plan} (h : Lru s) (hlookup : s.cache.planCache.lookup key = some cached)
    (hremoved : cache = { s.cache with planCache := s.cache.planCache.erase key }.removeFromIndex key) :
    ¬ Lru (s.use key (cache.storePlan key entityRefs plan done) evicted) := by
  intro hlru
  have hqueued : key ∈ s.cache.planLruQueue :=
    (h.listed key).mpr (AList.lookup_isSome.mp (Option.isSome_of_eq_some hlookup))
  -- without the expired plan the cache has room
  have hroom : ¬ cache.isFull := by
    rw [hremoved]
    show ¬ (s.cache.planCache.erase key).entries.length ≥ s.cache.config.maxPlans
    have hlength := HashMap.length_erase hlookup
    have hcapacity := h.capacity
    omega
  have honce : (cache.storePlan key entityRefs plan done).planLruQueue.Nodup := hlru.once
  rw [QueryCacheIntegration.storePlan_eq.2.1, QueryCacheIntegration.makeRoom, if_neg hroom, hremoved] at honce
  have hdisjoint := (List.nodup_append.mp honce).2.2
  exact hdisjoint key hqueued key (List.mem_singleton.mpr rfl) rfl

theorem lru_step_iff (h : Lru s) (hclocked : Clocked s) (hstep : step f s call = some t) :
    Lru t ↔ Fresh f s call := by
  cases call with
  | clearAll =>
    cases hstep
    apply iff_of_true _ trivial
    exact ⟨Nat.zero_le _, fun key => iff_of_false List.not_mem_nil (AList.notMem_empty key), List.nodup_nil,
      Recency.inOrder_nil, h.evictions⟩
  | getOrExecutePlan query entityRefs intentType executed now done =>
    rcases step_cases rfl hstep with ⟨cached, stats, hlookup, hfresh, rfl⟩ | ⟨missed, hmissed, ht⟩
    · apply iff_of_true (lru_hit h hclocked hlookup)
      intro other hother
      rw [hlookup] at hother
      cases hother
      exact Bool.eq_false_of_not_eq_true hfresh
    · cases hmissed with
      | absent habsent =>
        apply iff_of_true
        · rcases ht with rfl | ⟨plan, rfl⟩
          · exact h
          · exact lru_stored h hclocked habsent
        · intro cached hcached
          rw [habsent] at hcached
          cases hcached
      | expired hlookup hexpired =>
        apply iff_of_false
        · rcases ht with rfl | ⟨plan, rfl⟩
          · exact not_lru_removed h hlookup rfl
          · exact not_lru_stored h hlookup rfl
        · -- the call is not fresh: it has found an expired plan
          intro hfresh
          rw [hfresh _ hlookup] at hexpired
          cases hexpired

variable {config : QueryCacheConfig}

theorem lru_start : Lru (start config : System Plan) where
  capacity := Nat.zero_le _
  listed key := iff_of_false List.not_mem_nil (AList.notMem_empty key)
  once := List.nodup_nil
  inOrder := Recency.inOrder_nil
  evictions _ he := absurd he List.not_mem_nil

theorem clocked_start (h : 1 ≤ config.maxPlans) : Clocked (start config : System Plan) where
  past _ := Nat.zero_lt_one
  room := h

theorem step_total (f : KeyFunctions Intent) (s : System Plan) (call : Call Intent Plan) :
    ∃ t, step f s call = some t := by
  unfold step
  split
  · dsimp only
    split
    · exact ⟨_, rfl⟩
    · exact ⟨_, rfl⟩
  · exact ⟨_, rfl⟩

/-- The cache keeps its size, its order and its choice of evictions all through a run, exactly if no call of the
run finds its plan expired. -/
theorem lru_iff (f : KeyFunctions Intent) {config : QueryCacheConfig} (hroom : 1 ≤ config.maxPlans)
    (calls : List (Call Intent Plan)) :
    (∀ before s, before <+: calls → Runs.run (step f) (start config) before = some s → Lru s) ↔
      Runs.Meets (step f) (Fresh f) (start config) calls := by
  rcases Runs.exists_run (step_total f) (start config) calls with ⟨t, hrun⟩
  apply Iff.symm
  exact Runs.meets_iff (fun _ _ _ hclocked _ hstep => clocked_step hclocked hstep)
    (fun _ _ _ hclocked h _ hstep => lru_step_iff h hclocked hstep) (clocked_start hroom) lru_start
    Runs.meets_true hrun

instance decidableFresh (f : KeyFunctions Intent) (s : System Plan) (call : Call Intent Plan) :
    Decidable (Fresh f s call) := by
  cases call with
  | getOrExecutePlan query entityRefs intentType executed now done =>
    unfold Fresh
    infer_instance
  | clearAll => exact .isTrue trivial

/-- One intent, and hashes that tell the texts of the runs below apart. -/
def sampleFunctions : KeyFunctions Unit where
  toLowercase := String.toLower
  hash text := text.toList.foldl (fun h c => 31 * h + c.toNat.toUInt64) 7
  toJson _ := some "\"SemanticSearch\""

/-- A call that makes a plan at once, named as its query. -/
def ask (query : String) (now : Nat) : Call Unit String := .getOrExecutePlan query ["nikos"] () (.ok query) now now

def keyOf (query : String) : QueryPlanKey := .fromQuery sampleFunctions query ["nikos"] ()

def inTime : List (Call Unit String) := [ask "commits" 0, ask "  Commits" 10, ask "files" 15, .clearAll, ask "files" 40]

theorem inTime_lru : ∃ s, Runs.run (step sampleFunctions) (start ⟨1, 10⟩) inTime = some s ∧ Lru s := by
  have hroom : 1 ≤ (⟨1, 10⟩ : QueryCacheConfig).maxPlans := by decide
  have hmeets : Runs.Meets (step sampleFunctions) (Fresh sampleFunctions) (start ⟨1, 10⟩) inTime := by decide +kernel
  rcases Runs.exists_run (step_total sampleFunctions) (start ⟨1, 10⟩) inTime with ⟨s, hrun⟩
  exact ⟨s, hrun, (lru_iff sampleFunctions hroom inTime).mpr hmeets inTime s List.prefix_rfl hrun⟩

/-- The second call finds its plan too old, and the last one makes room. -/
def overTime : List (Call Unit String) := [ask "commits" 0, ask "commits" 100, ask "files" 101, ask "authors" 102]
def overTimeUsed : List (Call Unit String) :=
  [ask "commits" 0, ask "commits" 100, ask "files" 101, ask "commits" 102, ask "authors" 103]

/-- A cache for one plan holds two, and a cache for two evicts the plan that was used last. -/
theorem overTime_runs : (∃ s, Runs.run (step sampleFunctions) (start ⟨1, 10⟩) overTime = some s ∧
      ¬ s.cache.planCache.entries.length ≤ s.cache.config.maxPlans) ∧
    ∃ s, Runs.run (step sampleFunctions) (start ⟨2, 10⟩) overTimeUsed = some s ∧
      keyOf "files" ∈ s.cache.planCache ∧ keyOf "commits" ∉ s.cache.planCache ∧
      s.lastUse (keyOf "files") < s.lastUse (keyOf "commits") := by
  constructor
  · have hrun : ((Runs.run (step sampleFunctions) (start ⟨1, 10⟩) overTime).any fun s =>
        ¬ s.cache.planCache.entries.length ≤ s.cache.config.maxPlans) = true := by decide +kernel
    obtain ⟨s, hs, hover⟩ := (Option.any_eq_true _ _).mp hrun
    exact ⟨s, hs, of_decide_eq_true hover⟩
  · have hrun : ((Runs.run (step sampleFunctions) (start ⟨2, 10⟩) overTimeUsed).any fun s =>
        keyOf "files" ∈ s.cache.planCache ∧ keyOf "commits" ∉ s.cache.planCache ∧
          s.lastUse (keyOf "files") < s.lastUse (keyOf "commits")) = true := by decide +kernel
    obtain ⟨s, hs, hlast⟩ := (Option.any_eq_true _ _).mp hrun
    exact ⟨s, hs, of_decide_eq_true hlast⟩

end System

end Northstar.Queries
