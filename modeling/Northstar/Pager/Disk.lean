import Mathlib.Data.List.Nodup
import Mathlib.Data.List.Perm.Subperm
import Mathlib.Logic.Function.Basic
import Northstar.Pager.Pager

/-!
# Disk — the pager as a table of pages

What the tree needs of the pager is a table of pages and a counter of the pages handed out.  `Disk`
is that table; `Shows` relates a pager to it: the cache holds nothing but copies of the file's pages,
and has room for all of them.  Each pager call is then one step on the table.
-/

namespace Northstar

open Bytes EStateM

structure Disk where
  pages : PageId → Option Bytes
  next : UInt64

variable {bytes : Bytes}

namespace Disk

def write (d : Disk) (pageId : PageId) (bytes : Bytes) : Disk :=
  { d with pages := Function.update d.pages pageId (some bytes) }

/-- The page `allocate_page` writes before its caller does. -/
def freshPage (crc : Crc) (pageId : PageId) : Bytes :=
  ((Page.new pageId .freelist).recalculateChecksums crc).toBytes

@[simp] theorem length_freshPage (crc : Crc) (pageId : PageId) : (freshPage crc pageId).length = pageSize :=
  Page.length_toBytes _

def allocate (crc : Crc) (d : Disk) : Disk :=
  { (d.write d.next (freshPage crc d.next)) with next := d.next + 1 }

/-- The pages the tree may use. -/
def Owns (d : Disk) (pageId : PageId) : Prop := 2 ≤ pageId.toNat ∧ pageId.toNat < d.next.toNat

@[simp] theorem write_pages_self (d : Disk) (pageId : PageId) (bytes : Bytes) :
    (d.write pageId bytes).pages pageId = some bytes := Function.update_self ..

theorem write_pages_ne (d : Disk) {pageId other : PageId} (bytes : Bytes) (h : other ≠ pageId) :
    (d.write pageId bytes).pages other = d.pages other := Function.update_of_ne h ..

theorem allocate_pages_ne (crc : Crc) (d : Disk) {other : PageId} (h : other ≠ d.next) :
    (d.allocate crc).pages other = d.pages other := write_pages_ne d _ h

theorem Owns.write {d : Disk} {pageId other : PageId} (h : d.Owns other) :
    (d.write pageId bytes).Owns other := h

theorem Owns.ne_next {d : Disk} {pageId : PageId} (h : d.Owns pageId) : pageId ≠ d.next := by
  intro heq
  have hlt := h.2
  rw [heq] at hlt
  exact absurd hlt (Nat.lt_irrefl _)

end Disk

/-- The pages below `n` that fall into a shard; the two meta pages are never cached. -/
def pagesInShard (env : Env) (n shard : Nat) : Nat :=
  (List.range n).countP fun i => 2 ≤ i ∧ env.shardIndex (UInt64.ofNat i) = shard

/-- The file may grow to `n` pages, and the cache can hold them. -/
structure Room (env : Env) (n : Nat) : Prop where
  addressable : n * pageSize ≤ 2 ^ 63
  shards : ∀ shard, pagesInShard env n shard ≤ PageCache.maxEntries

theorem Room.mono {env : Env} {m n : Nat} (h : Room env n) (hle : m ≤ n) : Room env m where
  addressable := (Nat.mul_le_mul_right _ hle).trans h.addressable
  shards := by
    intro shard
    apply le_trans _ (h.shards shard)
    exact (List.range_sublist.mpr hle).countP_le

theorem Room.lt_size {env : Env} {n : Nat} (h : Room env n) : n < 2 ^ 64 - 1 := by
  have haddr := h.addressable
  simp only [pageSize] at haddr
  omega

theorem Room.isAddressable {env : Env} {n : Nat} (h : Room env n) {pageId : PageId}
    (hlt : pageId.toNat < n) : FileStorage.Addressable pageId := by
  have haddr := h.addressable
  simp only [FileStorage.Addressable, pageSize] at haddr ⊢
  omega

namespace Pager

section allocatePage

variable {env : Env} {pager : Pager} {pageId : PageId} {allocator : PageAllocator}

theorem run_writeStorage_of_ok {storage : FileStorage} {bytes : Bytes}
    (hwrite : pager.storage.writePage pageId bytes = .ok storage) :
    (writeStorage pageId bytes).run pager = .ok () { pager with storage } := by
  unfold writeStorage
  rw [run_bind_of_ok (run_get _), run_bind_of_ok (run_liftErr_of_ok hwrite _),
    run_set]

theorem run_allocatePage_of_write {storage : FileStorage}
    (hid : pager.allocator.allocatePage = (pageId, allocator))
    (hwrite : pager.storage.writePage pageId (Disk.freshPage env.crc pageId) = .ok storage) :
    (allocatePage env).run pager = .ok pageId { pager with allocator, storage } := by
  have hdone := @run_writeStorage_of_ok { pager with allocator } _ _ _ hwrite
  unfold allocatePage
  rw [run_bind_of_ok (run_get pager)]
  simp only [hid]
  rw [run_bind_of_ok (run_set _ _)]
  exact run_bind_of_ok hdone

theorem run_allocatePage_of_error {e : Error}
    (hid : pager.allocator.allocatePage = (pageId, allocator))
    (hwrite : pager.storage.writePage pageId (Disk.freshPage env.crc pageId) = .error e) :
    (allocatePage env).run pager = .error (.err e) { pager with allocator } := by
  have hfail : (writeStorage pageId (Disk.freshPage env.crc pageId)).run { pager with allocator } =
      .error (.err e) { pager with allocator } := by
    unfold writeStorage
    rw [run_bind_of_ok (run_get _)]
    exact run_bind_of_error (run_liftErr_of_error hwrite _)
  unfold allocatePage
  rw [run_bind_of_ok (run_get pager)]
  simp only [hid]
  rw [run_bind_of_ok (run_set _ _)]
  exact run_bind_of_error hfail

/-- The pager once the page is on the free list. -/
def freed (pager : Pager) (pageId : PageId) : Pager :=
  { pager with
    allocator := { pager.allocator with freePages := pager.allocator.freePages.orderedInsert (· ≤ ·) pageId }
    cache := pager.cache.remove pageId }

theorem perm_freed (pager : Pager) (pageId : PageId) :
    (pager.freed pageId).allocator.freePages.Perm (pageId :: pager.allocator.freePages) :=
  List.perm_orderedInsert _ _ _

theorem run_freePage (h : pageId.isMetaPage = false) : (freePage pageId).run pager = .ok () (pager.freed pageId) := by
  have hfree : pager.allocator.freePage pageId = .ok { pager.allocator with
      freePages := pager.allocator.freePages.orderedInsert (· ≤ ·) pageId } := by
    rw [PageAllocator.freePage, h]
    rfl
  unfold freePage
  rw [run_bind_of_ok (run_get pager), run_bind_of_ok (run_liftErr_of_ok hfree _),
    run_bind_of_ok (run_set _ _)]
  rfl

theorem freePage_eq_ok {pager' : Pager} (h : (freePage pageId).run pager = .ok () pager') :
    pageId.isMetaPage = false ∧ pager' = pager.freed pageId := by
  by_cases hmeta : pageId.isMetaPage = false
  · rw [run_freePage hmeta] at h
    cases h
    exact ⟨hmeta, rfl⟩
  · have hrefused : pager.allocator.freePage pageId =
        .error (.storage (.pager ("Cannot free meta page " ++ toString pageId))) := by
      rw [PageAllocator.freePage, Bool.eq_true_of_not_eq_false hmeta]
      rfl
    unfold freePage at h
    rw [run_bind_of_ok (run_get pager),
      run_bind_of_error (run_liftErr_of_error hrefused _)] at h
    cases h

end allocatePage

end Pager

structure Shows (env : Env) (pager : Pager) (d : Disk) (m : MetaState) : Prop where
  free : pager.allocator.freePages = []
  next : pager.allocator.lastAllocatedPage = d.next
  first : 3 ≤ d.next.toNat
  filled : d.next.toNat * pageSize ≤ pager.storage.data.length
  room : Room env d.next.toNat
  pages : ∀ pageId, d.pages pageId = (pager.storage.readPage pageId).toOption
  cached : ∀ e ∈ pager.cache.entries, d.Owns e.1 ∧ d.pages e.1 = some e.2
  nodup : (pager.cache.entries.map Prod.fst).Nodup
  current : pager.currentMeta = m

namespace Shows

variable {env : Env} {pager : Pager} {d : Disk} {m : MetaState} {pageId : PageId}

theorem readPage (h : Shows env pager d m)
    (hpage : d.pages pageId = some bytes) : pager.storage.readPage pageId = .ok bytes :=
  Except.toOption_eq_some.mp ((h.pages pageId).symm.trans hpage)

theorem length_page (h : Shows env pager d m)
    (hpage : d.pages pageId = some bytes) : bytes.length = pageSize :=
  FileStorage.length_of_readPage (h.readPage hpage)

/-- A page that is not cached fits into its shard: the cached pages and it are different pages below
the counter. -/
theorem shardEntries_lt (h : Shows env pager d m) (howns : d.Owns pageId)
    (hnew : pageId ∉ pager.cache.entries.map Prod.fst) :
    pager.cache.shardEntries env (env.shardIndex pageId) + 1 ≤ PageCache.maxEntries := by
  let shard := env.shardIndex pageId
  let ids := (pageId :: pager.cache.entries.map Prod.fst).filter fun id => env.shardIndex id = shard
  have hids : (ids.map UInt64.toNat).Nodup := by
    apply List.Nodup.map fun _ _ h => UInt64.toNat_inj.mp h
    exact (List.nodup_cons.mpr ⟨hnew, h.nodup⟩).filter _
  have hsubset : ids.map UInt64.toNat ⊆ (List.range d.next.toNat).filter
      fun i => 2 ≤ i ∧ env.shardIndex (UInt64.ofNat i) = shard := by
    intro i hi
    rcases List.mem_map.mp hi with ⟨id, hid, rfl⟩
    rcases List.mem_filter.mp hid with ⟨hmem, hshard⟩
    have hid : d.Owns id := by
      rcases List.mem_cons.mp hmem with rfl | hmem
      · exact howns
      · rcases List.mem_map.mp hmem with ⟨e, he, rfl⟩
        exact (h.cached e he).1
    apply List.mem_filter.mpr
    refine ⟨List.mem_range.mpr hid.2, ?_⟩
    rw [UInt64.ofNat_toNat]
    simpa [hid.1] using hshard
  have hlen : (ids.map UInt64.toNat).length = pager.cache.shardEntries env shard + 1 := by
    simp only [ids, shard, List.length_map, List.filter_cons_of_pos, decide_true, List.length_cons,
      List.filter_map, PageCache.shardEntries, List.countP_eq_length_filter]
    rfl
  calc pager.cache.shardEntries env shard + 1
      = (ids.map UInt64.toNat).length := hlen.symm
    _ ≤ ((List.range d.next.toNat).filter
          fun i => 2 ≤ i ∧ env.shardIndex (UInt64.ofNat i) = shard).length :=
        (List.subperm_of_subset hids hsubset).length_le
    _ = pagesInShard env d.next.toNat shard := List.countP_eq_length_filter.symm
    _ ≤ PageCache.maxEntries := h.room.shards shard

variable {cache : PageCache}

theorem cache_subset (h : Shows env pager d m) (hsub : cache.entries.Sublist pager.cache.entries) :
    Shows env { pager with cache } d m :=
  { h with
    cached := fun e he => h.cached e (hsub.subset he)
    nodup := h.nodup.sublist (hsub.map Prod.fst) }

theorem cache_put (h : Shows env { pager with cache := cache.remove pageId } d m)
    (hnodup : (cache.entries.map Prod.fst).Nodup) (howns : d.Owns pageId)
    (hpage : d.pages pageId = some bytes) :
    ∃ cache', cache.put env pageId bytes = .ok cache' ∧
      Shows env { pager with cache := cache' } d m := by
  have hlen : ¬ bytes.length ≠ pageSize := fun hne => hne (h.length_page hpage)
  have hother : ∀ e ∈ cache.entries, e.1 ≠ pageId → d.Owns e.1 ∧ d.pages e.1 = some e.2 := by
    intro e he hne
    exact h.cached e (List.mem_filter.mpr ⟨he, by simpa using hne⟩)
  cases hget : cache.get pageId with
  | some old =>
    refine ⟨⟨cache.entries.map fun e => if e.1 = pageId then (pageId, bytes) else e⟩, ?_, ?_⟩
    · rw [PageCache.put, if_neg hlen, hget, if_pos Option.isSome_some]
    · have hkeys : (cache.entries.map fun e => if e.1 = pageId then (pageId, bytes) else e).map
          Prod.fst = cache.entries.map Prod.fst := by
        rw [List.map_map]
        apply List.map_congr_left
        intro e _
        by_cases heq : e.1 = pageId
        · simp [heq]
        · simp [heq]
      refine { h with cached := ?_, nodup := hkeys ▸ hnodup }
      intro e he
      rcases List.mem_map.mp he with ⟨e0, he0, rfl⟩
      by_cases heq : e0.1 = pageId
      · rw [if_pos heq]
        exact ⟨howns, hpage⟩
      · rw [if_neg heq]
        exact hother e0 he0 heq
  | none =>
    have hnew : pageId ∉ cache.entries.map Prod.fst := by
      intro hmem
      rcases List.mem_map.mp hmem with ⟨e, he, heq⟩
      have := List.lookup_eq_none_iff.mp hget e he
      simp [heq] at this
    have hsame : cache.remove pageId = cache := by
      show PageCache.mk (cache.entries.filter _) = cache
      rw [List.filter_eq_self.mpr]
      intro e he
      simpa using fun heq => hnew (List.mem_map.mpr ⟨e, he, heq⟩)
    rw [hsame] at h
    have hroom := h.shardEntries_lt howns hnew
    refine ⟨⟨(pageId, bytes) :: cache.entries⟩, ?_, ?_⟩
    · rw [PageCache.put, if_neg hlen, hget, if_neg (by simp), if_neg (by
        show ¬ cache.shardEntries env (env.shardIndex pageId) + 1 > PageCache.maxEntries
        exact Nat.not_lt.mpr hroom)]
    · refine { h with cached := ?_, nodup := List.nodup_cons.mpr ⟨hnew, hnodup⟩ }
      intro e he
      rcases List.mem_cons.mp he with rfl | he
      · exact ⟨howns, hpage⟩
      · exact h.cached e he

theorem run_cachePut {cache : PageCache} {bytes : Bytes}
    (h : Shows env { pager with cache := cache.remove pageId } d m)
    (hnodup : (cache.entries.map Prod.fst).Nodup) (howns : d.Owns pageId)
    (hpage : d.pages pageId = some bytes) :
    ∃ pager', (Pager.cachePut env pageId bytes).run { pager with cache } = .ok () pager' ∧
      Shows env pager' d m := by
  rcases cache_put h hnodup howns hpage with ⟨cache', hput, hshows⟩
  refine ⟨{ pager with cache := cache' }, ?_, hshows⟩
  unfold Pager.cachePut
  rw [run_bind_of_ok (run_get _), run_bind_of_ok (run_liftErr_of_ok hput _),
    run_set]

theorem cached_get (h : Shows env pager d m) {data : Bytes}
    (hget : pager.cache.get pageId = some data) : d.Owns pageId ∧ d.pages pageId = some data := by
  rcases List.lookup_eq_some_iff.mp hget with ⟨l₁, l₂, heq, -⟩
  have hmem : (pageId, data) ∈ pager.cache.entries := by
    rw [heq]
    exact List.mem_append_right _ (List.mem_cons_self ..)
  exact h.cached _ hmem

theorem run_readThrough (h : Shows env pager d m) (check : Bytes → Except Error Unit)
    (howns : d.Owns pageId)
    (hpage : d.pages pageId = some bytes) (hcheck : check bytes = .ok ()) :
    ∃ pager', (Pager.readThrough env check pageId).run pager = .ok bytes pager' ∧
      Shows env pager' d m := by
  unfold Pager.readThrough
  rw [run_bind_of_ok (run_get pager)]
  cases hget : pager.cache.get pageId with
  | some data =>
    have hdata : some data = some bytes := (h.cached_get hget).2.symm.trans hpage
    refine ⟨pager, ?_, h⟩
    rw [run_pure, Option.some.inj hdata]
  | none =>
    have hremoved : Shows env { pager with cache := pager.cache.remove pageId } d m :=
      h.cache_subset List.filter_sublist
    rcases run_cachePut hremoved h.nodup howns hpage with ⟨pager', hput, hshows⟩
    refine ⟨pager', ?_, hshows⟩
    show EStateM.run (liftErr (pager.storage.readPage pageId) >>= _) pager = _
    rw [run_bind_of_ok (run_liftErr_of_ok (h.readPage hpage) pager),
      run_bind_of_ok (run_liftErr_of_ok hcheck pager), run_bind_of_ok hput,
      run_pure]

theorem run_readThrough_missing (h : Shows env pager d m) (check : Bytes → Except Error Unit)
    (hpage : d.pages pageId = none) :
    ∃ e, (Pager.readThrough env check pageId).run pager = .error (.err e) pager := by
  unfold Pager.readThrough
  rw [run_bind_of_ok (run_get pager)]
  cases hget : pager.cache.get pageId with
  | some data =>
    have hdata := (h.cached_get hget).2
    rw [hpage] at hdata
    cases hdata
  | none =>
    cases hread : pager.storage.readPage pageId with
    | ok bytes =>
      rw [h.pages, hread] at hpage
      cases hpage
    | error e =>
      refine ⟨e, ?_⟩
      exact run_bind_of_error (run_liftErr_of_error rfl pager)

theorem storage_writePage (h : Shows env pager d m) (hlt : pageId.toNat < d.next.toNat)
    (hlen : bytes.length = pageSize) :
    ∃ storage, pager.storage.writePage pageId bytes = .ok storage ∧
      d.next.toNat * pageSize ≤ storage.data.length ∧
      ∀ other, (d.write pageId bytes).pages other = (storage.readPage other).toOption := by
  rcases FileStorage.exists_writePage pager.storage pageId hlen (h.room.isAddressable hlt)
    with ⟨storage, hwrite⟩
  have hgap : pageId.toNat * pageSize ≤ pager.storage.data.length :=
    (Nat.mul_le_mul_right _ hlt.le).trans h.filled
  refine ⟨storage, hwrite, ?_, ?_⟩
  · rcases FileStorage.writePage_eq_ok_iff.mp hwrite with ⟨-, -, rfl⟩
    rw [File.length_writeAll]
    exact h.filled.trans (Nat.le_max_left _ _)
  · intro other
    by_cases heq : other = pageId
    · subst heq
      rw [Disk.write_pages_self, FileStorage.readPage_of_writePage hwrite, Except.toOption_ok]
    · rw [Disk.write_pages_ne d bytes heq, h.pages,
        FileStorage.toOption_readPage_of_writePage_ne hwrite hgap heq]

theorem storage_write (h : Shows env pager d m)
    (howns : d.Owns pageId) (hlen : bytes.length = pageSize) :
    ∃ storage, pager.storage.writePage pageId bytes = .ok storage ∧
      Shows env { pager with storage, cache := pager.cache.remove pageId } (d.write pageId bytes) m := by
  rcases h.storage_writePage howns.2 hlen with ⟨storage, hwrite, hfilled, hpages⟩
  refine ⟨storage, hwrite, { h with filled := hfilled, pages := hpages, cached := ?_, nodup := ?_ }⟩
  · intro e he
    rcases List.mem_filter.mp he with ⟨hmem, hne⟩
    rcases h.cached e hmem with ⟨hown, hpage⟩
    refine ⟨hown, ?_⟩
    rw [Disk.write_pages_ne d bytes (by simpa using hne)]
    exact hpage
  · exact h.nodup.sublist (List.filter_sublist.map Prod.fst)

theorem run_writeStorage {bytes : Bytes} {storage : FileStorage}
    (hwrite : pager.storage.writePage pageId bytes = .ok storage) :
    (Pager.writeStorage pageId bytes).run pager = .ok () { pager with storage } :=
  Pager.run_writeStorage_of_ok hwrite

theorem run_writePageRaw (h : Shows env pager d m)
    (howns : d.Owns pageId) (hlen : bytes.length = pageSize) :
    ∃ pager', (Pager.writePageRaw env pageId bytes).run pager = .ok () pager' ∧
      Shows env pager' (d.write pageId bytes) m := by
  rcases h.storage_write howns hlen with ⟨storage, hwrite, hshows⟩
  have hnodup : ((pager.cache.remove pageId).entries.map Prod.fst).Nodup := hshows.nodup
  have hsub : ((pager.cache.remove pageId).remove pageId).entries.Sublist
      (pager.cache.remove pageId).entries := List.filter_sublist
  have hremoved := hshows.cache_subset hsub
  rcases run_cachePut hremoved hnodup howns (Disk.write_pages_self d pageId bytes)
    with ⟨pager', hput, hshows'⟩
  refine ⟨pager', ?_, hshows'⟩
  unfold Pager.writePageRaw
  rw [if_neg (fun hne => hne hlen), run_bind_of_ok (run_writeStorage hwrite),
    run_bind_of_ok (run_modify _ _)]
  exact hput

theorem run_writePage (h : Shows env pager d m) {bytes : Bytes}
    (howns : d.Owns pageId) (hlen : bytes.length = pageSize)
    (hvalid : Pager.validatePageBuffer env.crc pageId bytes = .ok ()) :
    ∃ pager', (Pager.writePage env pageId bytes).run pager = .ok () pager' ∧
      Shows env pager' (d.write pageId bytes) m := by
  rcases h.storage_write howns hlen with ⟨storage, hwrite, hshows⟩
  rcases @run_cachePut env { pager with storage } (d.write pageId bytes) m _ _ _ hshows h.nodup
    howns (Disk.write_pages_self d pageId bytes) with ⟨pager', hput, hshows'⟩
  refine ⟨pager', ?_, hshows'⟩
  unfold Pager.writePage
  rw [if_neg (fun hne => hne hlen), run_bind_of_ok (run_liftErr_of_ok hvalid pager),
    run_bind_of_ok (run_writeStorage hwrite),
    run_bind_of_ok (run_attempt_of_ok hput), run_pure]

theorem run_allocatePage (h : Shows env pager d m) (hroom : Room env (d.next.toNat + 1)) :
    ∃ pager', (Pager.allocatePage env).run pager = .ok d.next pager' ∧
      Shows env pager' (d.allocate env.crc) m := by
  have hsucc : (d.next + 1).toNat = d.next.toNat + 1 := by
    rw [UInt64.toNat_add, show (1 : UInt64).toNat = 1 from rfl]
    exact Nat.mod_eq_of_lt (by have := hroom.lt_size; omega)
  have hlen := Disk.length_freshPage env.crc d.next
  rcases FileStorage.exists_writePage pager.storage d.next hlen (hroom.isAddressable (Nat.lt_succ_self _))
    with ⟨storage, hwrite⟩
  have halloc : pager.allocator.allocatePage = (d.next, ⟨[], d.next + 1⟩) := by
    simp only [PageAllocator.allocatePage, h.free, h.next]
  refine ⟨{ pager with storage, allocator := ⟨[], d.next + 1⟩ }, Pager.run_allocatePage_of_write halloc hwrite, ?_⟩
  have hfresh : ∀ e ∈ pager.cache.entries, e.1 ≠ d.next := fun e he => (h.cached e he).1.ne_next
  constructor
  · rfl
  · rfl
  · show 3 ≤ (d.next + 1).toNat
    have := h.first
    omega
  · show (d.next + 1).toNat * pageSize ≤ storage.data.length
    rcases FileStorage.writePage_eq_ok_iff.mp hwrite with ⟨-, -, rfl⟩
    rw [File.length_writeAll, hsucc, Nat.succ_mul, hlen]
    exact Nat.le_max_right _ _
  · show Room env (d.next + 1).toNat
    rw [hsucc]
    exact hroom
  · intro other
    by_cases heq : other = d.next
    · subst heq
      show (d.write d.next _).pages d.next = _
      rw [Disk.write_pages_self, FileStorage.readPage_of_writePage hwrite, Except.toOption_ok]
    · rw [Disk.allocate_pages_ne env.crc d heq, h.pages,
        FileStorage.toOption_readPage_of_writePage_ne hwrite h.filled heq]
  · intro e he
    rcases h.cached e he with ⟨hown, hpage⟩
    refine ⟨⟨hown.1, ?_⟩, ?_⟩
    · show e.1.toNat < (d.next + 1).toNat
      have := hown.2
      omega
    · rw [Disk.allocate_pages_ne env.crc d (hfresh e he)]
      exact hpage
  · exact h.nodup
  · exact h.current

theorem write_meta (h : Shows env pager d m)
    (hmeta : pageId.toNat < 2) (hlen : bytes.length = pageSize) :
    ∃ storage, pager.storage.writePage pageId bytes = .ok storage ∧
      Shows env { pager with storage } (d.write pageId bytes) m := by
  have hlt : pageId.toNat < d.next.toNat := hmeta.trans_le ((by decide : 2 ≤ 3).trans h.first)
  rcases h.storage_writePage hlt hlen with ⟨storage, hwrite, hfilled, hpages⟩
  refine ⟨storage, hwrite, { h with filled := hfilled, pages := hpages, cached := ?_ }⟩
  intro e he
  rcases h.cached e he with ⟨hown, hpage⟩
  refine ⟨hown, ?_⟩
  rw [Disk.write_pages_ne d bytes fun heq => absurd hown.1 (by rw [heq]; omega)]
  exact hpage

theorem run_commitTransaction (h : Shows env pager d m) (txnId : UInt64) (rootPageId : PageId) :
    ∃ pager' d', (Pager.commitTransaction env.crc txnId rootPageId).run pager = .ok () pager' ∧
      Shows env pager' d' (Pager.updateMeta env.crc txnId rootPageId m) ∧ d'.next = d.next ∧
      ∀ pageId, 2 ≤ pageId.toNat → d'.pages pageId = d.pages pageId := by
  let m' := Pager.updateMeta env.crc txnId rootPageId m
  have hlen : (m'.toPage env.crc).toBytes.length = pageSize := Page.length_toBytes _
  have h₀ : Shows env { pager with currentMeta := m' } d m' := { h with current := rfl }
  rcases h₀.write_meta (by decide : PageId.metaA.toNat < 2) hlen with ⟨storageA, hwriteA, hA⟩
  rcases hA.write_meta (by decide : PageId.metaB.toNat < 2) hlen with ⟨storageB, hwriteB, hB⟩
  refine ⟨{ pager with currentMeta := m', storage := storageB }, _, ?_, hB, rfl, ?_⟩
  · unfold Pager.commitTransaction Pager.writeMetaPages
    rw [run_bind_of_ok (run_modify _ _), run_bind_of_ok (run_get _),
      h.current]
    rw [run_bind_of_ok (@run_writeStorage { pager with currentMeta := m' } _ _ _ hwriteA),
      run_bind_of_ok (run_get _)]
    exact @run_writeStorage { pager with currentMeta := m', storage := storageA } _ _ _ hwriteB
  · intro pageId hdata
    rw [Disk.write_pages_ne _ _ fun heq => absurd hdata (by rw [heq]; decide),
      Disk.write_pages_ne _ _ fun heq => absurd hdata (by rw [heq]; decide)]

end Shows

def Pager.table (pager : Pager) : Disk where
  pages := fun pageId => (pager.storage.readPage pageId).toOption
  next := pager.allocator.lastAllocatedPage

theorem Pager.table_pages (pager : Pager) (pageId : PageId) :
    pager.table.pages pageId = (pager.storage.readPage pageId).toOption := rfl

theorem Shows.table {env : Env} {pager : Pager} {d : Disk} {m : MetaState}
    (h : Shows env pager d m) : pager.table = d := by
  rcases d with ⟨pages, next⟩
  have hpages : pages = fun pageId => (pager.storage.readPage pageId).toOption := funext h.pages
  rw [Pager.table, hpages, h.next]

end Northstar
