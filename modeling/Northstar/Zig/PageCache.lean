import Mathlib.Data.List.AList
import Northstar.Lib.EState
import Northstar.Lib.Links
import Northstar.Zig.Page

/-!
# PageCache — the page cache of the pager

`page_cache.zig`.  Entries are nodes of a heap, reached from a hash map and from each other; reading an entry
that has been freed is an error of its own.  A counter that does not fit panics.
-/

namespace Northstar.Zig

open Bytes LinkedList

structure CachedPage where
  pageId : UInt64
  data : Bytes
  pinCount : Nat
  lastAccess : Nat
  deriving Repr, DecidableEq

structure CacheEntry extends CachedPage where
  prev : Option Nat
  next : Option Nat
  deriving Repr, DecidableEq

inductive CacheError where
  /-- Arithmetic that panics. -/
  | overflow
  | dangling
  | running
  deriving Repr, DecidableEq

structure PageCache where
  heap : Nat → Option CacheEntry
  -- where the next entry is allocated
  nextEntry : Nat
  entries : AList fun _ : UInt64 => Nat
  lruHead : Option Nat
  lruTail : Option Nat
  accessCounter : Nat
  maxPages : Nat
  maxBytes : Nat
  currentBytes : Nat

/-- A call that panics, or goes wrong, keeps what it has done before. -/
abbrev CacheM := EStateM CacheError PageCache

namespace PageCache

def init (maxPages maxBytes : Nat) : PageCache where
  heap := fun _ => none
  nextEntry := 0
  entries := ∅
  lruHead := none
  lruTail := none
  accessCounter := 0
  maxPages := if maxPages = 0 then 1024 else maxPages
  maxBytes := if maxBytes = 0 then 16 * 1024 * 1024 else maxBytes
  currentBytes := 0

def count (c : PageCache) : Nat := c.entries.entries.length

def deref (entry : Nat) : CacheM CacheEntry := fun c =>
  match c.heap entry with
  | some e => .ok e c
  | none => .error .dangling c

/-- An assignment to fields of an entry. -/
def assign (entry : Nat) (f : CacheEntry → CacheEntry) : CacheM Unit := do
  let e ← deref entry
  modify fun c => { c with heap := Function.update c.heap entry (some (f e)) }

/-- `allocator.create`. -/
def allocate (e : CacheEntry) : CacheM Nat := do
  let c ← getThe PageCache
  set { c with heap := Function.update c.heap c.nextEntry (some e), nextEntry := c.nextEntry + 1 }
  return c.nextEntry

/-- The old head, if there is one, gets a predecessor. -/
def linkHead (head : Option Nat) (entry : Nat) : CacheM Unit :=
  match head with
  | some head => assign head fun e => { e with prev := some entry }
  | none => return ()

def addToFront (entry : Nat) : CacheM Unit := do
  assign entry fun e => { e with prev := none }
  let c ← getThe PageCache
  assign entry fun e => { e with next := c.lruHead }
  linkHead c.lruHead entry
  modify fun c => { c with lruHead := some entry }
  modify fun c => { c with lruTail := if c.lruTail = none then some entry else c.lruTail }

/-- "Update previous entry", or the head. -/
def linkNext (prev next : Option Nat) : CacheM Unit :=
  match prev with
  | some prev => assign prev fun e => { e with next := next }
  | none => modify fun c => { c with lruHead := next }

/-- "Update next entry", or the tail. -/
def linkPrev (next prev : Option Nat) : CacheM Unit :=
  match next with
  | some next => assign next fun e => { e with prev := prev }
  | none => modify fun c => { c with lruTail := prev }

def removeFromList (entry : Nat) : CacheM Unit := do
  let e ← deref entry
  linkNext e.prev e.next
  let e ← deref entry
  linkPrev e.next e.prev
  assign entry fun e => { e with prev := none, next := none }

def moveToFront (entry : Nat) : CacheM Unit := do
  let c ← getThe PageCache
  if c.lruHead = some entry then return ()
  else
    removeFromList entry
    addToFront entry

/-- `removeFromList`, the byte count, and `deinit` of the entry. -/
def discard (entry : Nat) : CacheM Unit := do
  removeFromList entry
  let e ← deref entry
  let c ← getThe PageCache
  if e.data.length ≤ c.currentBytes then
    set { c with
      currentBytes := c.currentBytes - e.data.length
      heap := Function.update c.heap entry none }
  else throw .overflow

/-- "Find the first unpinned entry starting from LRU tail." -/
def findUnpinned : Nat → Option Nat → CacheM (Option Nat)
  | _, none => return none
  | 0, some _ => throw .running
  | fuel + 1, some entry => do
    let e ← deref entry
    if e.pinCount = 0 then return some entry else findUnpinned fuel e.prev

/-- A list without repetition is no longer than the number of entries ever allocated. -/
def evictOne : CacheM (Option UInt64) := do
  let c ← getThe PageCache
  let found ← findUnpinned c.nextEntry c.lruTail
  match found with
  | none => return none
  | some entry => do
    let e ← deref entry
    modify fun c => { c with entries := c.entries.erase e.pageId }
    discard entry
    return some e.pageId

def evictWhile (full : PageCache → Bool) : Nat → CacheM Unit
  | 0 => do
    let c ← getThe PageCache
    if full c then throw .running else return ()
  | fuel + 1 => do
    let c ← getThe PageCache
    if full c then
      let evicted ← evictOne
      match evicted with
      | none => return ()
      | some _ => evictWhile full fuel
    else return ()

def evictIfNecessary : CacheM Unit := do
  let c ← getThe PageCache
  evictWhile (fun c => c.maxPages < c.count) c.count
  let c ← getThe PageCache
  evictWhile (fun c => c.maxBytes < c.currentBytes) c.count

/-- `self.access_counter += 1`. -/
def nextAccess : CacheM Nat := do
  let c ← getThe PageCache
  if c.accessCounter + 1 < 2 ^ 64 then
    set { c with accessCounter := c.accessCounter + 1 }
    return c.accessCounter + 1
  else throw .overflow

/-- "Update access time and move to front of LRU". -/
def touch (entry : Nat) : CacheM Unit := do
  let access ← nextAccess
  assign entry fun e => { e with lastAccess := access }
  moveToFront entry

/-- `entry.pin_count += 1`. -/
def addPin (entry : Nat) : CacheM Unit := do
  let e ← deref entry
  if e.pinCount + 1 < 2 ^ 32 then assign entry fun e => { e with pinCount := e.pinCount + 1 }
  else throw .overflow

def contains (c : PageCache) (pageId : UInt64) : Bool := (c.entries.lookup pageId).isSome

def getUnpinned (pageId : UInt64) : CacheM (Option Bytes) := do
  let c ← getThe PageCache
  match c.entries.lookup pageId with
  | some entry => do
    touch entry
    let e ← deref entry
    return some e.data
  | none => return none

def get (pageId : UInt64) : CacheM (Option Bytes) := do
  let c ← getThe PageCache
  match c.entries.lookup pageId with
  | some entry => do
    addPin entry
    touch entry
    let e ← deref entry
    return some e.data
  | none => return none

/-- "If page already exists, just update it." -/
def replace (entry : Nat) (data : Bytes) : CacheM Unit := do
  assign entry fun e => { e with data := data }
  touch entry
  -- the length that is taken off is the one of the new data
  let e ← deref entry
  let c ← getThe PageCache
  if e.data.length ≤ c.currentBytes then
    set { c with currentBytes := c.currentBytes - e.data.length + data.length }
  else throw .overflow

/-- "Create new entry", up to the eviction. -/
def insertNew (pageId : UInt64) (data : Bytes) : CacheM Unit := do
  let entry ← allocate ⟨⟨pageId, data, 0, 0⟩, none, none⟩
  modify fun c => { c with entries := c.entries.insert pageId entry }
  let access ← nextAccess
  assign entry fun e => { e with lastAccess := access }
  addToFront entry
  modify fun c => { c with currentBytes := c.currentBytes + data.length }

def put (pageId : UInt64) (data : Bytes) : CacheM Unit := do
  let c ← getThe PageCache
  match c.entries.lookup pageId with
  | some entry => replace entry data
  | none => do
    insertNew pageId data
    evictIfNecessary

def unpin (pageId : UInt64) : CacheM Unit := do
  let c ← getThe PageCache
  match c.entries.lookup pageId with
  | some entry => assign entry fun e => { e with pinCount := if e.pinCount > 0 then e.pinCount - 1 else e.pinCount }
  | none => return ()

def pin (pageId : UInt64) : CacheM Unit := do
  let c ← getThe PageCache
  match c.entries.lookup pageId with
  | some entry => addPin entry
  | none => return ()

def remove (pageId : UInt64) : CacheM Bool := do
  let c ← getThe PageCache
  match c.entries.lookup pageId with
  | some entry => do
    modify fun c => { c with entries := c.entries.erase pageId }
    let e ← deref entry
    if e.pinCount = 0 then
      discard entry
      return true
    else
      modify fun c => { c with entries := c.entries.insert pageId entry }
      return false
  | none => return false

/-- The pages that `clear` removes, in the order in which the hash map is iterated. -/
def unpinnedPages : List UInt64 → CacheM (List UInt64)
  | [] => return []
  | pageId :: order => do
    let c ← getThe PageCache
    match c.entries.lookup pageId with
    | some entry => do
      let e ← deref entry
      let rest ← unpinnedPages order
      return if e.pinCount = 0 then pageId :: rest else rest
    | none => unpinnedPages order

def clear (order : List UInt64) : CacheM Unit := do
  let toRemove ← unpinnedPages order
  EStateM.forEach (fun pageId => do let _ ← remove pageId) toRemove

end PageCache

end Northstar.Zig
