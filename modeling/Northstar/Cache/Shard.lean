import Northstar.Lib.HashMap

/-!
# Cache.Shard — one shard of the cache

A map of entries with the sizes their callers claim, counters beside it, and what the eviction policy remembers
of the keys.  `put` makes room by evicting what the policy picks.  LFU is left out: its `get` asks for the map
while it holds it, and never returns.

Sums of sizes wrap as `usize` does; numbers of entries do not get that far.
-/

namespace Northstar.Cache

/-- A `usize` sum. -/
def usize (n : Nat) : Nat := n % 2 ^ 64

theorem usize_of_lt {n : Nat} (h : n < 2 ^ 64) : usize n = n := Nat.mod_eq_of_lt h

theorem usize_sub {m n : Nat} (h : n ≤ m) (hm : m < 2 ^ 64) : usize (m + 2 ^ 64 - n) = m - n := by
  have heq : m + 2 ^ 64 - n = (m - n) + 2 ^ 64 := by omega
  unfold usize
  rw [heq, Nat.add_mod_right]
  exact Nat.mod_eq_of_lt (by omega)

inductive CachePolicy where
  | lru
  | arc
  | fifo
  | lifo
  deriving Repr, DecidableEq

inductive CacheError where
  | entryTooLarge (size maxSize : Nat)
  | cacheFull
  deriving Repr, DecidableEq

structure CacheConfig where
  maxSize : Nat
  maxEntries : Nat
  deriving Repr, DecidableEq

structure CacheEntry (V : Type*) where
  value : V
  accessCount : UInt64
  size : Nat
  dirty : Bool
  pinCount : UInt64
  deriving Repr, DecidableEq

namespace CacheEntry

variable {V : Type*}

def new (value : V) (size : Nat) : CacheEntry V := ⟨value, 1, size, false, 0⟩

def isPinned (e : CacheEntry V) : Bool := e.pinCount > 0

def recordAccess (e : CacheEntry V) : CacheEntry V := { e with accessCount := e.accessCount + 1 }

def pin (e : CacheEntry V) : CacheEntry V := { e with pinCount := e.pinCount + 1 }

-- `fetch_sub` wraps: an entry that nobody has pinned is pinned afterwards.
def unpin (e : CacheEntry V) : CacheEntry V := { e with pinCount := e.pinCount - 1 }

end CacheEntry

structure CacheStats where
  currentSize : Nat
  currentEntries : Nat
  pinCount : UInt64
  deriving Repr, DecidableEq

/-- The keys of the two lists, and the counters that choose between them. -/
structure ArcState (K : Type*) where
  t1 : List K
  t2 : List K
  deltaT1 : Nat
  deltaT2 : Nat
  deriving Repr, DecidableEq

namespace ArcState

variable {K : Type*} [DecidableEq K]

def new : ArcState K := ⟨[], [], 0, 0⟩

def remove (state : ArcState K) (key : K) : ArcState K :=
  { state with t1 := state.t1.filter (· ≠ key), t2 := state.t2.filter (· ≠ key) }

def keysToTry (state : ArcState K) : List K := if state.deltaT1 > state.deltaT2 then state.t2 else state.t1

end ArcState

structure CacheShard (K V : Type*) where
  entries : AList fun _ : K => CacheEntry V
  policy : CachePolicy
  /-- From the back of the deque: the oldest key first. -/
  lruList : List K
  arcState : ArcState K
  config : CacheConfig
  stats : CacheStats

/-- What `clear` returns. -/
structure ClearResult where
  entriesCleared : Nat
  dirtyPagesWritten : Nat
  memoryFreed : Nat
  deriving Repr, DecidableEq

namespace CacheShard

variable {K V : Type*} [DecidableEq K]

def new (policy : CachePolicy) (config : CacheConfig) : CacheShard K V where
  entries := ∅
  policy := policy
  lruList := []
  arcState := .new
  config := config
  stats := ⟨0, 0, 0⟩

def updatePolicyTracking (s : CacheShard K V) (key : K) : CacheShard K V :=
  match s.policy with
  | .lru => { s with lruList := s.lruList.filter (· ≠ key) ++ [key] }
  | .arc =>
    if key ∈ s.arcState.t1 then { s with arcState := { s.arcState with deltaT1 := s.arcState.deltaT1 + 1 } }
    else if key ∈ s.arcState.t2 then { s with arcState := { s.arcState with deltaT2 := s.arcState.deltaT2 + 1 } }
    else s
  | .fifo | .lifo => s

def removePolicyTracking (s : CacheShard K V) (key : K) : CacheShard K V :=
  match s.policy with
  | .lru => { s with lruList := s.lruList.filter (· ≠ key) }
  | .arc => { s with arcState := s.arcState.remove key }
  | .fifo | .lifo => s

/-- A victim: its key, its size, and whether it is dirty. -/
abbrev Victim (K : Type*) := K × Nat × Bool

/-- The first of the keys that has an entry nobody has pinned. -/
def firstUnpinned (entries : AList fun _ : K => CacheEntry V) : List K → Option (Victim K)
  | [] => none
  | key :: keys =>
    match entries.lookup key with
    | some entry => if entry.isPinned then firstUnpinned entries keys else some (key, entry.size, entry.dirty)
    | none => firstUnpinned entries keys

-- What is popped is gone from the list, pinned or not.
def popUnpinned (entries : AList fun _ : K => CacheEntry V) : List K → List K × Option (Victim K)
  | [] => ([], none)
  | key :: keys =>
    match entries.lookup key with
    | some entry => if entry.isPinned then popUnpinned entries keys else (keys, some (key, entry.size, entry.dirty))
    | none => popUnpinned entries keys

def evictLru (s : CacheShard K V) : CacheShard K V × Option (Victim K) :=
  let (lruList, victim) := popUnpinned s.entries s.lruList
  ({ s with lruList }, victim)

def evictArc (s : CacheShard K V) : CacheShard K V × Option (Victim K) :=
  match firstUnpinned s.entries s.arcState.keysToTry with
  | some (key, size, dirty) => ({ s with arcState := s.arcState.remove key }, some (key, size, dirty))
  | none => (s, none)

def evictFifo (s : CacheShard K V) : CacheShard K V × Option (Victim K) :=
  (s, firstUnpinned s.entries s.entries.keys)

def evictLifo (s : CacheShard K V) : CacheShard K V × Option (Victim K) :=
  (s, firstUnpinned s.entries s.entries.keys.reverse)

def evictVictim (s : CacheShard K V) : CacheShard K V × Option (Victim K) :=
  match s.policy with
  | .lru => s.evictLru
  | .arc => s.evictArc
  | .fifo => s.evictFifo
  | .lifo => s.evictLifo

def removeEntry (s : CacheShard K V) (key : K) (size : Nat) : CacheShard K V :=
  { s with
    entries := s.entries.erase key
    stats := { s.stats with
      currentSize := usize (s.stats.currentSize + 2 ^ 64 - size)
      currentEntries := s.stats.currentEntries - 1 } }

def evictFrom (requiredBytes requiredEntries : Nat) :
    Nat → Nat → Nat → CacheShard K V → CacheShard K V × Except CacheError Unit
  | 0, _, _, s => (s, .ok ())
  | attempts + 1, freedBytes, freedEntries, s =>
    if freedBytes ≥ requiredBytes ∧ freedEntries ≥ requiredEntries then (s, .ok ())
    else
      match s.evictVictim with
      | (s, some (key, size, _)) =>
        if key ∈ s.entries then
          evictFrom requiredBytes requiredEntries attempts (usize (freedBytes + size)) (freedEntries + 1)
            (s.removeEntry key size)
        else evictFrom requiredBytes requiredEntries attempts freedBytes freedEntries s
      | (s, none) =>
        if freedBytes < requiredBytes ∨ freedEntries < requiredEntries then (s, .error .cacheFull) else (s, .ok ())

def evict (s : CacheShard K V) (requiredBytes requiredEntries : Nat) : CacheShard K V × Except CacheError Unit :=
  evictFrom requiredBytes requiredEntries s.config.maxEntries 0 0 s

def get (s : CacheShard K V) (key : K) : CacheShard K V × Option V :=
  match s.entries.lookup key with
  | none => (s, none)
  | some entry =>
    ({ s with entries := HashMap.modify s.entries key .recordAccess }.updatePolicyTracking key, some entry.value)

def insertEntry (s : CacheShard K V) (key : K) (value : V) (size : Nat) : CacheShard K V :=
  { s with
    entries := s.entries.insert key (.new value size)
    stats := { s.stats with
      currentSize := usize (s.stats.currentSize + size)
      currentEntries := s.stats.currentEntries + 1 } }.updatePolicyTracking key

-- The size of an entry that is there already stays.
def put (s : CacheShard K V) (key : K) (value : V) (size : Nat) : CacheShard K V × Except CacheError Unit :=
  if size > s.config.maxSize then (s, .error (.entryTooLarge size s.config.maxSize))
  else if key ∈ s.entries then
    ({ s with entries := HashMap.modify s.entries key fun entry => { entry with value }.recordAccess }, .ok ())
  else
    let newSize := usize (s.stats.currentSize + size)
    let newEntries := s.stats.currentEntries + 1
    if newSize > s.config.maxSize ∨ newEntries > s.config.maxEntries then
      match s.evict (newSize - s.config.maxSize) (newEntries - s.config.maxEntries) with
      | (s, .ok ()) => (s.insertEntry key value size, .ok ())
      | (s, .error e) => (s, .error e)
    else (s.insertEntry key value size, .ok ())

def invalidate (s : CacheShard K V) (key : K) : CacheShard K V × Bool :=
  match s.entries.lookup key with
  | some entry => ((s.removeEntry key entry.size).removePolicyTracking key, true)
  | none => (s, false)

def pin (s : CacheShard K V) (key : K) : CacheShard K V × Bool :=
  if key ∈ s.entries then
    ({ s with
      entries := HashMap.modify s.entries key .pin
      stats := { s.stats with pinCount := s.stats.pinCount + 1 } }, true)
  else (s, false)

def unpin (s : CacheShard K V) (key : K) : CacheShard K V × Bool :=
  match s.entries.lookup key with
  | some entry =>
    ({ s with
      entries := HashMap.modify s.entries key .unpin
      stats := { s.stats with
        pinCount := if entry.pinCount ≤ 1 then s.stats.pinCount - 1 else s.stats.pinCount } }, true)
  | none => (s, false)

def clear (s : CacheShard K V) : CacheShard K V × ClearResult :=
  let result := ⟨s.entries.entries.length, s.entries.entries.countP fun e => e.2.dirty, s.stats.currentSize⟩
  let cleared := { s with entries := ∅, stats := { s.stats with currentSize := 0, currentEntries := 0 } }
  match s.policy with
  | .lru => ({ cleared with lruList := [] }, result)
  | .arc => ({ cleared with arcState := { s.arcState with t1 := [], t2 := [] } }, result)
  | .fifo | .lifo => (cleared, result)

end CacheShard

end Northstar.Cache
