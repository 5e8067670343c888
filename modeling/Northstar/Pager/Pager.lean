import Mathlib.Data.List.Sort
import Northstar.Btree.Overflow
import Northstar.Lib.EState
import Northstar.Pager.Meta
import Northstar.Pager.Storage

/-!
# Pager — allocation, the page cache and page I/O

`pager/pager.rs` with `pager/allocator.rs` and the page cache.  Pages move between the tree and the
file through the cache; the cache never writes, every write goes to the file at once.  That a new cache
panics where the number of CPUs, which it takes for its shards, is no power of two, is left out.
-/

namespace Northstar

open Bytes Btree

/-- What the pager takes from outside the repository: the checksum, and the hash that spreads page
ids over the cache shards. -/
structure Env where
  crc : Crc
  shardIndex : PageId → Nat

structure PageAllocator where
  freePages : List PageId
  lastAllocatedPage : UInt64
  deriving Repr, DecidableEq

namespace PageAllocator

def new : PageAllocator where
  freePages := []
  lastAllocatedPage := 3

-- `fetch_add` wraps.
def allocatePage (a : PageAllocator) : PageId × PageAllocator :=
  match a.freePages with
  | pageId :: rest => (pageId, { a with freePages := rest })
  | [] => (a.lastAllocatedPage, { a with lastAllocatedPage := a.lastAllocatedPage + 1 })

-- A page that is in the list already is put in once more, next to the entry the search finds.
def freePage (a : PageAllocator) (pageId : PageId) : Except Error PageAllocator :=
  if pageId.isMetaPage then
    .error (.storage (.pager ("Cannot free meta page " ++ toString pageId)))
  else .ok { a with freePages := a.freePages.orderedInsert (· ≤ ·) pageId }

end PageAllocator

structure PageCache where
  entries : List (PageId × Bytes)
  deriving Repr, DecidableEq

namespace PageCache

def new : PageCache := ⟨[]⟩

/-- `max_entries` of one shard; the byte limit is the same number of pages. -/
def maxEntries : Nat := 16384

def get (c : PageCache) (pageId : PageId) : Option Bytes := c.entries.lookup pageId

def shardEntries (env : Env) (c : PageCache) (shard : Nat) : Nat :=
  c.entries.countP (fun e => env.shardIndex e.1 = shard)

-- A full shard would evict, but the lists eviction picks its victims from are never filled.
def put (env : Env) (c : PageCache) (pageId : PageId) (data : Bytes) : Except Error PageCache :=
  if data.length ≠ pageSize then
    .error (.validation (.invalidHeaderSize pageSize data.length))
  else if (c.get pageId).isSome then
    .ok ⟨c.entries.map (fun e => if e.1 = pageId then (pageId, data) else e)⟩
  else if c.shardEntries env (env.shardIndex pageId) + 1 > maxEntries then
    .error (.validation (.generic "Cache error: CacheFull"))
  else .ok ⟨(pageId, data) :: c.entries⟩

def remove (c : PageCache) (pageId : PageId) : PageCache :=
  ⟨c.entries.filter (fun e => e.1 ≠ pageId)⟩

end PageCache

structure Pager where
  storage : FileStorage
  pageSize : UInt16
  currentMeta : MetaState
  allocator : PageAllocator
  cache : PageCache
  deriving Repr, DecidableEq

abbrev PagerM := EStateM Fault Pager

/-- A returned `Err`: what `?` passes on and `if let Ok` drops. -/
def Fault.isErr : Fault → Bool
  | .err _ => true
  | _ => false

def liftErr {σ α : Type} (x : Except Error α) : EStateM Fault σ α := EStateM.lift (x.mapError .err)

variable {σ α : Type} {x : Except Error α}

theorem run_liftErr_of_ok {a : α} (h : x = .ok a) (s : σ) : (liftErr x).run s = .ok a s := by
  rw [h]
  rfl

theorem run_liftErr_of_error {e : Error} (h : x = .error e)
    (s : σ) : (liftErr x).run s = .error (.err e) s := by
  rw [h]
  rfl

theorem run_liftErr_eq_ok_iff {s s' : σ} {a : α} :
    (liftErr x).run s = .ok a s' ↔ x = .ok a ∧ s' = s := by
  cases x with
  | ok b =>
    rw [run_liftErr_of_ok rfl, EStateM.Result.ok.injEq, Except.ok.injEq]
    exact and_congr_right fun _ => eq_comm
  | error e =>
    rw [run_liftErr_of_error rfl]
    exact ⟨(nomatch ·), fun h => (nomatch h.1)⟩

namespace Pager

def committedTxnId (pager : Pager) : UInt64 := pager.currentMeta.payload.committedTxnId
def rootPageId (pager : Pager) : PageId := pager.currentMeta.payload.rootPageId

/-- `self.storage.write_page(..)?`. -/
def writeStorage (pageId : PageId) (buffer : Bytes) : PagerM Unit := do
  let pager ← get
  let storage ← liftErr (pager.storage.writePage pageId buffer)
  set { pager with storage }

/-- `self.cache.put(..)?`. -/
def cachePut (env : Env) (pageId : PageId) (buffer : Bytes) : PagerM Unit := do
  let pager ← get
  let cache ← liftErr (pager.cache.put env pageId buffer)
  set { pager with cache }

def validatePageBuffer (crc : Crc) (pageId : PageId) (buffer : Bytes) : Except Error Unit :=
  let header := PageHeader.read buffer
  if header.magic ≠ pageMagic then
    .error (.validation (.invalidMagic pageMagic header.magic))
  else if header.pageId ≠ pageId then
    .error (.validation (.generic ("Page ID mismatch: expected " ++ toString pageId ++ ", got " ++
      toString header.pageId)))
  else header.validate crc

def writePage (env : Env) (pageId : PageId) (buffer : Bytes) : PagerM Unit := do
  if buffer.length ≠ Northstar.pageSize then
    throw (.err (.validation (.invalidHeaderSize Northstar.pageSize buffer.length)))
  else
    liftErr (validatePageBuffer env.crc pageId buffer)
    writeStorage pageId buffer
    -- `let _ = self.cache.put(..)`: a full cache is not an error here
    let _ ← EStateM.attempt Fault.isErr (cachePut env pageId buffer)

def writePageRaw (env : Env) (pageId : PageId) (buffer : Bytes) : PagerM Unit := do
  if buffer.length ≠ Northstar.pageSize then
    throw (.err (.validation (.invalidHeaderSize Northstar.pageSize buffer.length)))
  else
    writeStorage pageId buffer
    modify fun pager => { pager with cache := pager.cache.remove pageId }
    cachePut env pageId buffer

/-- `read_page_cached` and `read_page_cached_raw` differ in the check they make on a page that comes
from the file. -/
def readThrough (env : Env) (check : Bytes → Except Error Unit) (pageId : PageId) :
    PagerM Bytes := do
  let pager ← get
  match pager.cache.get pageId with
  | some data => pure data
  | none =>
    let buffer ← liftErr (pager.storage.readPage pageId)
    liftErr (check buffer)
    cachePut env pageId buffer
    pure buffer

def readPageCached (env : Env) (pageId : PageId) : PagerM Bytes :=
  readThrough env (validatePageBuffer env.crc pageId) pageId

def readPageCachedRaw (env : Env) (pageId : PageId) : PagerM Bytes :=
  readThrough env (fun _ => .ok ()) pageId

def allocatePage (env : Env) : PagerM PageId := do
  let pager ← get
  let (pageId, allocator) := pager.allocator.allocatePage
  set { pager with allocator }
  let page := (Page.new pageId .freelist).recalculateChecksums env.crc
  writeStorage pageId page.toBytes
  pure pageId

def freePage (pageId : PageId) : PagerM Unit := do
  let pager ← get
  let allocator ← liftErr (pager.allocator.freePage pageId)
  set { pager with allocator }
  modify fun pager => { pager with cache := pager.cache.remove pageId }

def readBtreeNode (env : Env) (pageId : PageId) : PagerM Node := do
  let bytes ← readPageCachedRaw env pageId
  EStateM.lift (Node.fromBytes bytes)

def writeBtreeNode (env : Env) (pageId : PageId) (node : Node) : PagerM Unit := do
  let bytes ← EStateM.lift (node.toBytes env.crc)
  writePageRaw env pageId bytes

def readOverflowPage (env : Env) (pageId : PageId) : PagerM OverflowPage := do
  let bytes ← readPageCached env pageId
  let page ← liftErr (Page.fromBytes env.crc bytes)
  if page.pageType ≠ some .overflow then
    let got := match page.pageType with
      | some t => "Some(" ++ t.debug ++ ")"
      | none => "None"
    throw (.err (.validation (.generic ("Expected overflow page, got " ++ got))))
  else liftErr (OverflowPage.fromBytes page.payload)

def writeOverflowPage (env : Env) (pageId : PageId) (overflowPage : OverflowPage) :
    PagerM Unit := do
  liftErr overflowPage.validate
  let page ← liftErr ((Page.new pageId .overflow).updatePayload env.crc overflowPage.toBytes)
  writePage env pageId page.toBytes

def allocateOverflowPage (env : Env) : PagerM PageId := do
  let pageId ← allocatePage env
  writeOverflowPage env pageId OverflowPage.new
  pure pageId

/-- The loop of `allocate_overflow_chain` over the chunks from the `i`-th on. -/
def allocateChunks (env : Env) (value : Bytes) :
    Nat → Nat → Option PageId → Option PageId → PagerM (Option PageId)
  | 0, _, firstPageId, _ => pure firstPageId
  | n + 1, i, firstPageId, prevPageId => do
    let pageId ← allocateOverflowPage env
    let chunk := window value (i * overflowDataSize) overflowDataSize
    writeOverflowPage env pageId (OverflowPage.withData chunk 0)
    match prevPageId with
    | some prevId =>
      let prevPage ← readOverflowPage env prevId
      writeOverflowPage env prevId { prevPage with nextPage := pageId }
      allocateChunks env value n (i + 1) firstPageId (some pageId)
    | none => allocateChunks env value n (i + 1) (some pageId) (some pageId)

def allocateOverflowChain (env : Env) (value : Bytes) : PagerM PageId := do
  if value.isEmpty then
    throw (.err (.validation (.generic "Cannot allocate overflow chain for empty value")))
  else
    match ← allocateChunks env value (OverflowPage.pagesNeeded value.length) 0 none none with
    | some firstPageId => pure firstPageId
    | none => throw (.err (.validation (.generic "Failed to allocate any overflow pages")))

/-- The loop of `read_overflow_chain`.  The length check ends it after 2000 pages, so that fuel for
one more is enough. -/
def readChain (env : Env) : Nat → List PageId → PageId → Bytes → PagerM Bytes
  | 0, _, _, _ => throw .diverge
  | fuel + 1, visited, current, buffer => do
    if current ∈ visited then
      throw (.err (.validation (.generic ("Circular reference detected in overflow chain at page " ++
        toString current))))
    else if visited.length + 1 > 2000 then
      throw (.err (.validation (.generic "Overflow chain too long (max 2000 pages)")))
    else
      let page ← readOverflowPage env current
      let buffer := buffer ++ page.data
      if page.isLast then pure buffer
      else readChain env fuel (current :: visited) page.nextPage buffer

def readOverflowChain (env : Env) (firstPageId : PageId) : PagerM Bytes :=
  readChain env 2001 [] firstPageId []

/-- The loop of `free_overflow_chain`, with the checks of `read_overflow_chain`. -/
def freeChain (env : Env) : Nat → List PageId → PageId → PagerM Unit
  | 0, _, _ => throw .diverge
  | fuel + 1, visited, current => do
    if current ∈ visited then
      throw (.err (.validation (.generic ("Circular reference detected in overflow chain at page " ++
        toString current))))
    else if visited.length + 1 > 2000 then
      throw (.err (.validation (.generic "Overflow chain too long (max 2000 pages)")))
    else
      let page ← readOverflowPage env current
      freePage current
      if page.nextPage = 0 then pure ()
      else freeChain env fuel (current :: visited) page.nextPage

def freeOverflowChain (env : Env) (firstPageId : PageId) : PagerM Unit :=
  freeChain env 2001 [] firstPageId

def readMetaPage (crc : Crc) (storage : FileStorage) (pageId : PageId) : Option MetaState := do
  let buffer ← (storage.readPage pageId).toOption
  let page ← (Page.fromBytes crc buffer).toOption
  (MetaState.fromPage page).toOption

def writeMetaPages (crc : Crc) : PagerM Unit := do
  let pager ← get
  writeStorage PageId.metaA (pager.currentMeta.toPage crc).toBytes
  let pager ← get
  writeStorage PageId.metaB (pager.currentMeta.toPage crc).toBytes

def updateMeta (crc : Crc) (txnId : UInt64) (rootPageId : PageId) (m : MetaState) : MetaState :=
  (m.updateCommittedTxnId crc txnId).updateRootPageId crc rootPageId

def commitTransaction (crc : Crc) (txnId : UInt64) (rootPageId : PageId) : PagerM Unit := do
  modify fun pager => { pager with currentMeta := updateMeta crc txnId rootPageId pager.currentMeta }
  writeMetaPages crc

def openFile (crc : Crc) (storage : FileStorage) : Except Error Pager :=
  let metaA := readMetaPage crc storage PageId.metaA
  let metaB := readMetaPage crc storage PageId.metaB
  match chooseBestMeta metaA metaB with
  | none => .error (.validation .corruptedData)
  | some best =>
    let size := best.payload.pageSize
    if size.toNat ≠ Northstar.pageSize then
      .error (.validation (.generic ("Unsupported page size: " ++ toString size ++ " (expected " ++
        toString Northstar.pageSize ++ ")")))
    else
      .ok { storage, pageSize := size, currentMeta := best,
            allocator := PageAllocator.new, cache := PageCache.new }

/-- The pager `create_file` starts from; an existing file is not truncated. -/
def initial (crc : Crc) (file : Bytes) : Pager where
  storage := ⟨file⟩
  pageSize := UInt16.ofNat Northstar.pageSize
  currentMeta := (MetaState.new crc PageId.metaA).updateCommittedTxnId crc 0
  allocator := PageAllocator.new
  cache := PageCache.new

def createFile (env : Env) (file : Bytes) : Except Fault Pager :=
  let init : PagerM Unit := do
    writeMetaPages env.crc
    writeBtreeNode env PageId.firstData (.leaf (LeafNode.new PageId.firstData))
  match init.run (initial env.crc file) with
  | .ok _ pager => .ok pager
  | .error e _ => .error e

theorem createFile_def : createFile = fun env file =>
    have init : PagerM Unit := do
      writeMetaPages env.crc
      writeBtreeNode env PageId.firstData (.leaf (LeafNode.new PageId.firstData))
    match init.run (initial env.crc file) with
    | .ok _ pager => .ok pager
    | .error e _ => .error e := by
  delta createFile
  exact Eq.refl _

theorem createFile_eq_ok_iff {env : Env} {file : Bytes} {pager : Pager} :
    createFile env file = .ok pager ↔
      (do writeMetaPages env.crc
          writeBtreeNode env PageId.firstData (.leaf (LeafNode.new PageId.firstData)) :
        PagerM Unit).run (initial env.crc file) = .ok () pager := by
  rw [createFile_def]
  dsimp only
  generalize EStateM.run _ (initial env.crc file) = result
  cases result with
  | ok a p =>
    constructor
    · intro h
      cases h
      rfl
    · intro h
      cases h
      rfl
  | error e p =>
    constructor
    · intro h
      cases h
    · intro h
      cases h

def close (pager : Pager) : Pager := { pager with cache := PageCache.new }

end Pager

end Northstar
