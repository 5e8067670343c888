import Northstar.Db.PutRun
import Northstar.Pager.CacheRoom

/-!
# Coherence — the cache beside the file

The calls of the pager in any order.  A cached page is a copy of the file's page unless the page is handed out
anew: `allocate_page` writes the page of the file and leaves what the cache holds for it.
-/

namespace Northstar

open Bytes Btree EStateM

namespace Pager

/-- Every page in the cache holds the bytes the file holds for it. -/
def Coherent (pager : Pager) : Prop :=
  ∀ pageId data, pager.cache.get pageId = some data → pager.storage.readPage pageId = .ok data

/-- What the two cached reads return is what the file holds. -/
structure ReadsStorage (env : Env) (pager : Pager) : Prop where
  cached : ∀ pageId bytes pager', (readPageCached env pageId).run pager = .ok bytes pager' →
    pager.storage.readPage pageId = .ok bytes
  raw : ∀ pageId bytes pager', (readPageCachedRaw env pageId).run pager = .ok bytes pager' →
    pager.storage.readPage pageId = .ok bytes

/-- The file has the page already, the cache may still hold something else for it. -/
structure Pending (pageId : PageId) (bytes : Bytes) (pager : Pager) : Prop where
  written : pager.storage.readPage pageId = .ok bytes
  others : ∀ other data, other ≠ pageId → pager.cache.get other = some data →
    pager.storage.readPage other = .ok data

section calls

variable {env : Env} {pager : Pager} {pageId : PageId} {bytes : Bytes}

theorem coherent_of_cache (h : pager.cache = PageCache.new) : pager.Coherent := by
  intro pageId data hget
  rw [h] at hget
  cases hget

theorem Coherent.remove (h : pager.Coherent) (pageId : PageId) :
    Coherent { pager with cache := pager.cache.remove pageId } := by
  intro other data hget
  by_cases hother : other = pageId
  · rw [hother] at hget
    rw [PageCache.get_remove_self] at hget
    cases hget
  · rw [PageCache.get_remove_ne _ hother] at hget
    exact h other data hget

theorem Coherent.readsStorage (h : pager.Coherent) : pager.ReadsStorage env := by
  have hread : ∀ (check : Bytes → Except Error Unit) pageId bytes pager',
      (readThrough env check pageId).run pager = .ok bytes pager' → pager.storage.readPage pageId = .ok bytes := by
    intro check pageId bytes pager' hrun
    unfold readThrough at hrun
    rw [run_bind_of_ok (run_get pager)] at hrun
    cases hget : pager.cache.get pageId with
    | some data =>
      rw [hget] at hrun
      cases hrun
      exact h pageId _ hget
    | none =>
      rw [hget] at hrun
      rcases run_bind_eq_ok_iff.mp hrun with ⟨buffer, s, hbuffer, hrun⟩
      rcases run_liftErr_eq_ok_iff.mp hbuffer with ⟨hbuffer, -⟩
      rcases run_bind_eq_ok_iff.mp hrun with ⟨_, s, -, hrun⟩
      rcases run_bind_eq_ok_iff.mp hrun with ⟨_, s, -, hrun⟩
      cases hrun
      exact hbuffer
  exact ⟨fun _ _ _ => hread _ _ _ _, fun _ _ _ => hread _ _ _ _⟩

variable {α : Type}

theorem ends_liftErr {x : Except Error α} {P : α → Pager → Prop} {Q : Pager → Prop}
    (hok : ∀ a, x = .ok a → P a pager) (herror : Q pager) : Ends (liftErr x) pager P (fun _ => Q) := by
  cases hx : x with
  | ok a => exact ends_of_ok (run_liftErr_of_ok rfl pager) (hok a hx)
  | error e => exact ends_of_error (run_liftErr_of_error rfl pager) herror

theorem ends_writeStorage (h : pager.Coherent) :
    Ends (writeStorage pageId bytes) pager (fun _ => Pending pageId bytes) (fun _ => Coherent) := by
  unfold writeStorage
  rw [Ends, run_bind_of_ok (run_get pager), ← Ends]
  apply (ends_liftErr (P := fun storage p => p = pager ∧ pager.storage.writePage pageId bytes = .ok storage)
    (fun storage hwrite => ⟨rfl, hwrite⟩) h).bind
  rintro storage p - ⟨rfl, hwrite⟩
  apply ends_of_ok (run_set _ _)
  constructor
  · exact FileStorage.readPage_of_writePage hwrite
  · intro other data hother hget
    exact FileStorage.readPage_of_writePage_ne hwrite hother (h other data hget)

/-- Putting the written page into the cache makes the pager coherent again, and where the cache is full there
is nothing stale to put right. -/
theorem ends_cachePut (h : Pending pageId bytes pager) :
    Ends (cachePut env pageId bytes) pager (fun _ => Coherent) (fun _ => Coherent) := by
  unfold cachePut
  rw [Ends, run_bind_of_ok (run_get pager), ← Ends]
  cases hput : pager.cache.put env pageId bytes with
  | ok cache =>
    rw [Ends, run_bind_of_ok (run_liftErr_of_ok rfl pager), ← Ends]
    apply ends_of_ok (run_set _ _)
    intro other data hget
    rw [PageCache.get_put hput] at hget
    by_cases hother : other = pageId
    · rw [if_pos hother] at hget
      cases hget
      rw [hother]
      exact h.written
    · rw [if_neg hother] at hget
      exact h.others other data hother hget
  | error e =>
    apply ends_of_error (run_bind_of_error (run_liftErr_of_error rfl pager))
    have hnone := PageCache.get_eq_none_of_put (FileStorage.length_of_readPage h.written) hput
    intro other data hget
    apply h.others other data _ hget
    intro heq
    rw [heq, hnone] at hget
    cases hget

theorem keeps_writePage : Preserves Coherent (writePage env pageId bytes) := by
  constructor
  intro pager h
  unfold writePage
  by_cases hlen : bytes.length = Northstar.pageSize
  · rw [if_neg (fun hne => hne hlen)]
    apply (ends_liftErr (P := fun _ => Coherent) (fun _ _ => h) h).bind
    intro _ p _ h
    apply (ends_writeStorage h).bind
    intro _ p _ h
    apply ((ends_cachePut h).attempt fun _ => id).bind
    intro _ p _ h
    exact ends_of_ok (run_pure _ _) h
  · rw [if_pos hlen]
    exact ends_of_error (run_throw_any _ _) h

theorem keeps_writePageRaw : Preserves Coherent (writePageRaw env pageId bytes) := by
  constructor
  intro pager h
  unfold writePageRaw
  by_cases hlen : bytes.length = Northstar.pageSize
  · rw [if_neg (fun hne => hne hlen)]
    apply (ends_writeStorage h).bind
    intro _ p _ h
    rw [Ends, run_bind_of_ok (run_modify _ _), ← Ends]
    apply ends_cachePut
    constructor
    · exact h.written
    · intro other data hother hget
      rw [PageCache.get_remove_ne _ hother] at hget
      exact h.others other data hother hget
  · rw [if_pos hlen]
    exact ends_of_error (run_throw_any _ _) h

theorem keeps_readThrough (check : Bytes → Except Error Unit) : Preserves Coherent (readThrough env check pageId) := by
  constructor
  intro pager h
  unfold readThrough
  rw [Ends, run_bind_of_ok (run_get pager), ← Ends]
  cases hget : pager.cache.get pageId with
  | some data => exact ends_of_ok (run_pure _ _) h
  | none =>
    apply (ends_liftErr (P := fun buffer p => p.Coherent ∧ p.storage.readPage pageId = .ok buffer)
      (fun buffer hread => ⟨h, hread⟩) h).bind
    rintro buffer p - ⟨h, hread⟩
    apply (ends_liftErr (P := fun _ q => q = p) (fun _ _ => rfl) h).bind
    rintro _ q - rfl
    apply (ends_cachePut ⟨hread, fun other data _ => h other data⟩).bind
    intro _ p _ h
    exact ends_of_ok (run_pure _ _) h

theorem keeps_readPageCached : Preserves Coherent (readPageCached env pageId) := keeps_readThrough _

theorem keeps_freePage : Preserves Coherent (freePage pageId) := by
  constructor
  intro pager h
  unfold freePage
  rw [Ends, run_bind_of_ok (run_get pager), ← Ends]
  apply (ends_liftErr (P := fun _ q => q = pager) (fun _ _ => rfl) h).bind
  rintro allocator q - rfl
  rw [Ends, run_bind_of_ok (run_set _ _), ← Ends]
  apply ends_of_ok (run_modify _ _)
  exact @Coherent.remove { q with allocator } h pageId

theorem keeps_writeOverflowPage (page : OverflowPage) : Preserves Coherent (writeOverflowPage env pageId page) := by
  apply (preserves_lift _).bind
  intro _
  apply (preserves_lift _).bind
  exact fun _ => keeps_writePage

theorem keeps_writeBtreeNode (node : Node) : Preserves Coherent (writeBtreeNode env pageId node) := by
  apply (preserves_lift _).bind
  exact fun _ => keeps_writePageRaw

theorem keeps_readBtreeNode : Preserves Coherent (readBtreeNode env pageId) := by
  apply Preserves.bind (keeps_readThrough _)
  exact fun _ => preserves_lift _

/-- The state a call leaves, `Err` or not. -/
def after {α : Type} (x : PagerM α) (pager : Pager) : Pager :=
  match x.run pager with
  | .ok _ p => p
  | .error _ p => p

variable {x : PagerM α}

theorem after_of_ok {a : α} {p : Pager} (h : x.run pager = .ok a p) : after x pager = p := by
  unfold after
  rw [h]

theorem after_of_error {e : Fault} {p : Pager} (h : x.run pager = .error e p) :
    after x pager = p := by
  unfold after
  rw [h]

theorem coherent_after (hkeeps : Preserves Coherent x) (h : pager.Coherent) :
    (Pager.after x pager).Coherent := by
  unfold Pager.after
  cases hrun : x.run pager with
  | ok a p => exact hkeeps.of_run_ok h hrun
  | error e p => exact hkeeps.of_run_error h hrun

theorem coherent_allocatePage_iff (h : pager.Coherent) :
    (after (allocatePage env) pager).Coherent ↔ ∀ data,
      pager.cache.get pager.allocator.allocatePage.1 = some data →
        data = Disk.freshPage env.crc pager.allocator.allocatePage.1 := by
  rcases hid : pager.allocator.allocatePage with ⟨pageId, allocator⟩
  show _ ↔ ∀ data, pager.cache.get pageId = some data → data = Disk.freshPage env.crc pageId
  cases hwrite : pager.storage.writePage pageId (Disk.freshPage env.crc pageId) with
  | ok storage =>
    rw [after_of_ok (run_allocatePage_of_write hid hwrite)]
    have hfresh := FileStorage.readPage_of_writePage hwrite
    constructor
    · intro hcoherent data hget
      have hread := hcoherent pageId data hget
      rw [hfresh] at hread
      exact (Except.ok.inj hread).symm
    · intro hclean other data hget
      by_cases hother : other = pageId
      · rw [hother] at hget ⊢
        rw [hclean data hget]
        exact hfresh
      · exact FileStorage.readPage_of_writePage_ne hwrite hother (h other data hget)
  | error e =>
    rw [after_of_error (run_allocatePage_of_error hid hwrite)]
    constructor
    · -- a cached page lies in the file, so that it could have been written
      intro _ data hget
      have haddr := (FileStorage.readPage_eq_ok_iff.mp (h pageId data hget)).1
      rcases FileStorage.exists_writePage pager.storage pageId (Disk.length_freshPage _ _) haddr with ⟨storage, hok⟩
      rw [hok] at hwrite
      cases hwrite
    · exact fun _ => h

end calls

/-- The calls on a pager, and a page that the cache drops between two of them. -/
inductive Call where
  | allocatePage
  | freePage (pageId : PageId)
  | writePage (pageId : PageId) (buffer : Bytes)
  | writeBtreeNode (pageId : PageId) (node : Node)
  | writeOverflowPage (pageId : PageId) (page : OverflowPage)
  | readPageCached (pageId : PageId)
  | readBtreeNode (pageId : PageId)
  | evict (pageId : PageId)

def Call.apply (env : Env) (pager : Pager) : Call → Pager
  | .allocatePage => after (Pager.allocatePage env) pager
  | .freePage pageId => after (Pager.freePage pageId) pager
  | .writePage pageId buffer => after (Pager.writePage env pageId buffer) pager
  | .writeBtreeNode pageId node => after (Pager.writeBtreeNode env pageId node) pager
  | .writeOverflowPage pageId page => after (Pager.writeOverflowPage env pageId page) pager
  | .readPageCached pageId => after (Pager.readPageCached env pageId) pager
  | .readBtreeNode pageId => after (Pager.readBtreeNode env pageId) pager
  | .evict pageId => { pager with cache := pager.cache.remove pageId }

def step (env : Env) (pager : Pager) (call : Call) : Option Pager := some (call.apply env pager)

/-- The page the call hands out is not in the cache, or with the bytes the call writes. -/
def Call.HandsOutClean (env : Env) (pager : Pager) : Call → Prop
  | .allocatePage => ∀ data, pager.cache.get pager.allocator.allocatePage.1 = some data →
      data = Disk.freshPage env.crc pager.allocator.allocatePage.1
  | _ => True

variable {pager : Pager} {env : Env}

theorem coherent_apply_iff (call : Call) (h : pager.Coherent) :
    (call.apply env pager).Coherent ↔ call.HandsOutClean env pager := by
  cases call with
  | allocatePage => exact @coherent_allocatePage_iff env pager h
  | freePage pageId => exact iff_of_true (coherent_after keeps_freePage h) trivial
  | writePage pageId buffer => exact iff_of_true (coherent_after keeps_writePage h) trivial
  | writeBtreeNode pageId node => exact iff_of_true (coherent_after (keeps_writeBtreeNode node) h) trivial
  | writeOverflowPage pageId page => exact iff_of_true (coherent_after (keeps_writeOverflowPage page) h) trivial
  | readPageCached pageId => exact iff_of_true (coherent_after keeps_readPageCached h) trivial
  | readBtreeNode pageId => exact iff_of_true (coherent_after keeps_readBtreeNode h) trivial
  | evict pageId => exact iff_of_true (h.remove pageId) trivial

/-- Along any run the cache and the file agree exactly as long as no page is handed out whose other bytes the
cache still holds. -/
theorem coherent_iff_handsOutClean (env : Env) {pager : Pager} (h : pager.Coherent) (calls : List Call) :
    (∀ before reached, before <+: calls → Runs.run (step env) pager before = some reached →
        reached.Coherent ∧ reached.ReadsStorage env) ↔
      Runs.Meets (step env) (fun p call => call.HandsOutClean env p) pager calls := by
  rcases Runs.exists_run (fun p call => ⟨Call.apply env p call, rfl⟩) pager calls with ⟨final, hrun⟩
  have hsplit : ∀ p (call : Call) q, True → p.Coherent → True → step env p call = some q →
      (q.Coherent ↔ call.HandsOutClean env p) := by
    intro p call q _ hp _ hstep
    rw [← Option.some.inj hstep]
    exact coherent_apply_iff call hp
  rw [Runs.meets_iff (fun _ _ _ _ _ _ => trivial) hsplit trivial h Runs.meets_true hrun]
  constructor
  · exact fun hall before reached hbefore hreached => (hall before reached hbefore hreached).1
  · intro hall before reached hbefore hreached
    have hcoherent := hall before reached hbefore hreached
    exact ⟨hcoherent, hcoherent.readsStorage⟩

theorem ends_writeStorage_cache (pageId : PageId) (bytes : Bytes) (pager : Pager) :
    Ends (writeStorage pageId bytes) pager (fun _ p => p.cache = pager.cache) (fun _ _ => True) := by
  unfold writeStorage
  rw [Ends, run_bind_of_ok (run_get pager), ← Ends]
  apply (ends_liftErr (P := fun _ p => p = pager) (fun _ _ => rfl) trivial).bind
  rintro storage p - rfl
  exact ends_of_ok (run_set _ _) rfl

theorem cache_writeMetaPages {crc : Crc} {pager pager' : Pager}
    (h : (writeMetaPages crc).run pager = .ok () pager') : pager'.cache = pager.cache := by
  unfold writeMetaPages at h
  rw [run_bind_of_ok (run_get pager)] at h
  rcases run_bind_eq_ok_iff.mp h with ⟨_, p, hfirst, hrest⟩
  rw [run_bind_of_ok (run_get p)] at hrest
  have hsecond := (ends_writeStorage_cache _ _ p).of_run_ok hrest
  exact hsecond.trans ((ends_writeStorage_cache _ _ pager).of_run_ok hfirst)

theorem coherent_createFile {file : Bytes} (h : createFile env file = .ok pager) :
    pager.Coherent := by
  rcases run_bind_eq_ok_iff.mp (createFile_eq_ok_iff.mp h) with ⟨_, p, hmetas, hwrite⟩
  have hcache : p.cache = (initial env.crc file).cache := cache_writeMetaPages hmetas
  exact (keeps_writeBtreeNode _).of_run_ok (coherent_of_cache hcache) hwrite

variable {pageId : PageId}

theorem Shows.get_eq_none {d : Disk} {m : MetaState} (h : Shows env pager d m)
    (hout : ¬ d.Owns pageId) : pager.cache.get pageId = none := by
  apply List.lookup_eq_none_iff.mpr
  intro e he
  have hne : e.1 ≠ pageId := fun heq => hout (heq ▸ (h.cached e he).1)
  simpa using fun heq => hne heq.symm

/-- A page that is written and read back before anything is freed. -/
theorem coherent_iff_handsOutClean_created : ∃ pager, createFile Env.oneShard [] = .ok pager ∧
    ∀ before reached, before <+: [.allocatePage, .writeOverflowPage 3 OverflowPage.new, .readPageCached 3] →
      Runs.run (step Env.oneShard) pager before = some reached →
        reached.Coherent ∧ reached.ReadsStorage Env.oneShard := by
  rcases createFile_restarted Env.oneShard with ⟨pager, hcreate, hrestarted, -⟩
  refine ⟨pager, hcreate, ?_⟩
  apply (coherent_iff_handsOutClean Env.oneShard (coherent_createFile hcreate) _).mpr
  refine ⟨?_, fun _ _ => ⟨trivial, fun _ _ => ⟨trivial, fun _ _ => trivial⟩⟩⟩
  have hshows := hrestarted.shows
  have hid : pager.allocator.allocatePage.1 = pager.table.next := by
    unfold PageAllocator.allocatePage
    rw [hshows.free]
    rfl
  intro data hget
  rw [hid, Shows.get_eq_none hshows fun howns => howns.ne_next rfl] at hget
  cases hget

theorem fromBytes_freshPage_ne (crc : Crc) (pageId : PageId) (node : Node) :
    Node.fromBytes (Disk.freshPage crc pageId) ≠ .ok node := by
  intro hnode
  have hnone := nodeAt_allocate crc ⟨fun _ => none, pageId⟩
  have hsome : nodeAt (Disk.allocate crc ⟨fun _ => none, pageId⟩) pageId = some node :=
    nodeAt_write_self _ hnode
  rw [hsome] at hnone
  cases hnone

theorem after_freePage (h : pageId.isMetaPage = false) :
    after (freePage pageId) pager = pager.freed pageId := after_of_ok (run_freePage h)

theorem after_readBtreeNode {bytes : Bytes} {cache : PageCache}
    (hget : pager.cache.get pageId = none) (hread : pager.storage.readPage pageId = .ok bytes)
    (hput : pager.cache.put env pageId bytes = .ok cache) :
    after (readBtreeNode env pageId) pager = { pager with cache } := by
  have hdone : (cachePut env pageId bytes).run pager = .ok () { pager with cache } := by
    unfold cachePut
    rw [run_bind_of_ok (run_get pager), run_bind_of_ok (run_liftErr_of_ok hput _), run_set]
  have hrun : (readPageCachedRaw env pageId).run pager = .ok bytes { pager with cache } := by
    unfold readPageCachedRaw readThrough
    rw [run_bind_of_ok (run_get pager), hget]
    show run (liftErr (pager.storage.readPage pageId) >>= _) pager = _
    rw [run_bind_of_ok (run_liftErr_of_ok hread pager)]
    show run (liftErr (.ok ()) >>= _) pager = _
    rw [run_bind_of_ok (run_liftErr_of_ok rfl pager), run_bind_of_ok hdone]
    rfl
  unfold after readBtreeNode
  rw [run_bind_of_ok hrun]
  cases Node.fromBytes bytes with
  | ok node => rfl
  | error e => rfl

theorem stale_of_reused {d : Disk} {m : MetaState} (h : Shows env pager d m)
    {node : Node} (howns : d.Owns pageId) (hnode : nodeAt d pageId = some node) :
    ∃ reached bytes fresh, Runs.run (step env) pager [.freePage pageId, .readBtreeNode pageId, .allocatePage] =
        some reached ∧ reached.cache.get pageId = some bytes ∧ reached.storage.readPage pageId = .ok fresh ∧
      bytes ≠ fresh := by
  rcases nodeAt_eq_some hnode with ⟨bytes, hpage, hdecode⟩
  have hmeta : pageId.isMetaPage = false := by
    have hdata := howns.1
    by_contra hmeta
    rcases Bool.or_eq_true_iff.mp (Bool.eq_true_of_not_eq_false hmeta) with hzero | hone
    · rw [eq_of_beq hzero] at hdata
      exact absurd hdata (by decide)
    · rw [eq_of_beq hone] at hdata
      exact absurd hdata (by decide)
  -- the cache has room for the page again
  have hremoved : Shows env { pager with cache := (pager.cache.remove pageId).remove pageId } d m :=
    h.cache_subset (List.filter_sublist.trans List.filter_sublist)
  rcases Shows.cache_put hremoved (h.nodup.sublist (List.filter_sublist.map Prod.fst)) howns hpage
    with ⟨cache, hput, -⟩
  rcases FileStorage.exists_writePage pager.storage pageId (Disk.length_freshPage env.crc pageId)
    (h.room.isAddressable howns.2) with ⟨storage, hwrite⟩
  let freed : Pager := { pager with
    allocator := { pager.allocator with freePages := [pageId] }
    cache := pager.cache.remove pageId }
  have hfreed : after (freePage pageId) pager = freed := by
    rw [after_freePage hmeta, Pager.freed, h.free]
    rfl
  have hcached : after (readBtreeNode env pageId) freed = { freed with cache } :=
    after_readBtreeNode (PageCache.get_remove_self _ _) (h.readPage hpage) hput
  have halloc : (allocatePage env).run { freed with cache } =
      .ok pageId { freed with cache, storage, allocator := { pager.allocator with freePages := [] } } :=
    @run_allocatePage_of_write env { freed with cache } pageId _ storage rfl hwrite
  refine ⟨{ freed with cache, storage, allocator := { pager.allocator with freePages := [] } }, bytes,
    Disk.freshPage env.crc pageId, ?_, ?_, FileStorage.readPage_of_writePage hwrite, ?_⟩
  · apply Runs.run_cons.mpr
    refine ⟨freed, congrArg some hfreed, Runs.run_cons.mpr ⟨{ freed with cache }, congrArg some hcached, ?_⟩⟩
    apply Runs.run_cons.mpr
    refine ⟨_, ?_, rfl⟩
    show some (after (allocatePage env) { freed with cache }) = _
    rw [after_of_ok halloc]
  · rw [show PageCache.get cache pageId = _ from PageCache.get_put hput pageId, if_pos rfl]
  · intro heq
    rw [heq] at hdecode
    exact fromBytes_freshPage_ne _ _ _ hdecode

/-- A cached read that returns what the page held before it was freed. -/
theorem reused_page_is_stale : ∃ pager reached bytes fresh, createFile Env.oneShard [] = .ok pager ∧
    Runs.run (step Env.oneShard) pager [.allocatePage, .writeBtreeNode 3 (.leaf (LeafNode.new 3)), .freePage 3,
      .readBtreeNode 3, .allocatePage] = some reached ∧
    (readPageCached Env.oneShard 3).run reached = .ok bytes reached ∧
    reached.storage.readPage 3 = .ok fresh ∧ bytes ≠ fresh := by
  rcases createFile_restarted Env.oneShard with ⟨pager, hcreate, hrestarted, -⟩
  have hnext := hrestarted.next
  have hroom : Room Env.oneShard (pager.table.next.toNat + 1) := by
    rw [hnext]
    exact room_of_le _ (by decide)
  rcases hrestarted.shows.run_allocatePage hroom with ⟨pager₁, halloc, hshows₁⟩
  have howns : (pager.table.allocate Env.oneShard.crc).Owns 3 := by
    rw [← hnext]
    exact owns_allocate hrestarted.shows hroom
  have hleaf := leafOk_new 3
  rcases Node.fromBytes_toBytes_leaf hleaf.count hleaf.encodable hleaf.used_le Env.oneShard.crc hleaf.header
    with ⟨bytes, hbytes, hlen, hread⟩
  rcases run_writeBtreeNode hshows₁ howns hbytes hlen with ⟨pager₂, hwrite, hshows₂⟩
  have hnode : nodeAt (putNode Env.oneShard.crc (pager.table.allocate Env.oneShard.crc) 3
      (.leaf (LeafNode.new 3))) 3 = some (.leaf (Node.stampLeaf Env.oneShard.crc (LeafNode.new 3))) := by
    rw [putNode, hbytes]
    exact nodeAt_write_self _ hread
  have howns₂ : (putNode Env.oneShard.crc (pager.table.allocate Env.oneShard.crc) 3
      (.leaf (LeafNode.new 3))).Owns 3 := by
    refine ⟨howns.1, ?_⟩
    rw [putNode_next]
    exact howns.2
  rcases stale_of_reused hshows₂ howns₂ hnode with ⟨reached, stale, fresh, hrun, hcached, hstored, hne⟩
  refine ⟨pager, reached, stale, fresh, hcreate, ?_, ?_, hstored, hne⟩
  · apply Runs.run_cons.mpr
    refine ⟨pager₁, ?_, Runs.run_cons.mpr ⟨pager₂, ?_, hrun⟩⟩
    · show some (after (allocatePage Env.oneShard) pager) = _
      rw [after_of_ok halloc]
    · show some (after (writeBtreeNode Env.oneShard 3 (.leaf (LeafNode.new 3))) pager₁) = _
      rw [after_of_ok hwrite]
  · unfold readPageCached readThrough
    rw [run_bind_of_ok (run_get reached), hcached, run_pure]

end Pager

end Northstar
