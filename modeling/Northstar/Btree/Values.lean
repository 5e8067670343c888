import Northstar.Btree.Chain
import Northstar.Btree.Tree
import Northstar.Pager.OverflowChains

/-!
# Values — what a reader makes of the value field of an entry

A value is kept in the entry or behind a reference of ten bytes, and the reader tells the two apart by these ten
bytes alone.  First the chains: a value that comes back shows that its chain ran over different pages.
-/

namespace Northstar.Btree

open Bytes EStateM Pager

variable {page : OverflowPage}

section calls

variable {env : Env} {pager pager' : Pager} {pageId : PageId}

theorem readPageCached_eq_ok {bytes : Bytes} (h : (readPageCached env pageId).run pager = .ok bytes pager') :
    (pager.cache.get pageId = some bytes ∧ pager' = pager) ∨
      (pager.storage.readPage pageId = .ok bytes ∧
        ∃ cache, pager.cache.put env pageId bytes = .ok cache ∧ pager' = { pager with cache }) := by
  unfold readPageCached readThrough at h
  rw [run_bind_of_ok (run_get pager)] at h
  cases hget : pager.cache.get pageId with
  | some data =>
    rw [hget] at h
    cases h
    exact Or.inl ⟨rfl, rfl⟩
  | none =>
    rw [hget] at h
    rcases run_bind_eq_ok_iff.mp h with ⟨buffer, p₁, hbuffer, h₁⟩
    rcases run_liftErr_eq_ok_iff.mp hbuffer with ⟨hstored, rfl⟩
    rcases run_bind_eq_ok_iff.mp h₁ with ⟨_, p₂, hcheck, h₂⟩
    obtain rfl := (run_liftErr_eq_ok_iff.mp hcheck).2
    rcases run_bind_eq_ok_iff.mp h₂ with ⟨_, p₃, hput, h₃⟩
    cases h₃
    unfold cachePut at hput
    rw [run_bind_of_ok (run_get p₂)] at hput
    rcases run_bind_eq_ok_iff.mp hput with ⟨cache, p₄, hcache, hset⟩
    rcases run_liftErr_eq_ok_iff.mp hcache with ⟨hcached, rfl⟩
    cases hset
    exact Or.inr ⟨hstored, cache, hcached, rfl⟩

theorem readOverflowPage_eq_ok (h : (readOverflowPage env pageId).run pager = .ok page pager') :
    ∃ bytes whole, (readPageCached env pageId).run pager = .ok bytes pager' ∧
      Page.fromBytes env.crc bytes = .ok whole ∧ OverflowPage.fromBytes whole.payload = .ok page := by
  unfold readOverflowPage at h
  rcases run_bind_eq_ok_iff.mp h with ⟨bytes, p, hread, h₁⟩
  rcases run_bind_eq_ok_iff.mp h₁ with ⟨whole, q, hwhole, h₂⟩
  rcases run_liftErr_eq_ok_iff.mp hwhole with ⟨hparsed, rfl⟩
  by_cases htype : whole.pageType ≠ some .overflow
  · rw [if_pos htype] at h₂
    cases h₂
  · rw [if_neg htype] at h₂
    rcases run_liftErr_eq_ok_iff.mp h₂ with ⟨hpage, rfl⟩
    exact ⟨bytes, whole, hread, hparsed, hpage⟩

theorem writeOverflowPage_eq_ok
    (h : (writeOverflowPage env pageId page).run pager = .ok () pager') :
    page.validate = .ok () ∧ pager'.allocator = pager.allocator ∧
      pager.storage.writePage pageId (overflowBytes env.crc pageId page) = .ok pager'.storage ∧
      (pager.cache.put env pageId (overflowBytes env.crc pageId page) = .ok pager'.cache ∨
        (pager.cache.get pageId = none ∧ pager'.cache = pager.cache)) := by
  unfold writeOverflowPage at h
  rcases run_bind_eq_ok_iff.mp h with ⟨_, p₁, hchecked, h₁⟩
  rcases run_liftErr_eq_ok_iff.mp hchecked with ⟨hvalid, rfl⟩
  have hupdate := updatePayload_overflow env.crc pageId hvalid
  have hlen : (overflowBytes env.crc pageId page).length = Northstar.pageSize := Page.length_toBytes _
  rw [run_bind_of_ok (run_liftErr_of_ok hupdate p₁)] at h₁
  have hpage : (writePage env pageId (overflowBytes env.crc pageId page)).run p₁ = .ok () pager' := h₁
  unfold writePage at hpage
  rw [if_neg (fun hne => hne hlen)] at hpage
  rcases run_bind_eq_ok_iff.mp hpage with ⟨_, p₂, hcheck, h₂⟩
  obtain rfl := (run_liftErr_eq_ok_iff.mp hcheck).2
  rcases run_bind_eq_ok_iff.mp h₂ with ⟨_, p₃, hwrite, h₃⟩
  unfold writeStorage at hwrite
  rw [run_bind_of_ok (run_get _)] at hwrite
  rcases run_bind_eq_ok_iff.mp hwrite with ⟨storage, p₄, hstorage, hset⟩
  rcases run_liftErr_eq_ok_iff.mp hstorage with ⟨hwritten, rfl⟩
  cases hset
  cases hput : p₄.cache.put env pageId (overflowBytes env.crc pageId page) with
  | ok cache =>
    have hdone : (cachePut env pageId (overflowBytes env.crc pageId page)).run { p₄ with storage } =
        .ok () { p₄ with storage, cache } := by
      unfold cachePut
      rw [run_bind_of_ok (run_get _), run_bind_of_ok (run_liftErr_of_ok hput _), run_set]
    rw [run_bind_of_ok (run_attempt_of_ok hdone)] at h₃
    cases h₃
    exact ⟨hvalid, rfl, hwritten, Or.inl rfl⟩
  | error e =>
    have hrefused : (attempt Fault.isErr (cachePut env pageId (overflowBytes env.crc pageId page))).run
        { p₄ with storage } = .ok none { p₄ with storage } := by
      have herror : (cachePut env pageId (overflowBytes env.crc pageId page)).run { p₄ with storage } =
          .error (.err e) { p₄ with storage } := by
        unfold cachePut
        rw [run_bind_of_ok (run_get _)]
        exact run_bind_of_error (run_liftErr_of_error hput _)
      exact run_attempt_of_error herror rfl
    rw [run_bind_of_ok hrefused] at h₃
    cases h₃
    exact ⟨hvalid, rfl, hwritten, Or.inr ⟨PageCache.get_eq_none_of_put hlen hput, rfl⟩⟩

theorem allocatePage_eq_ok (h : (allocatePage env).run pager = .ok pageId pager') :
    pager.allocator.allocatePage = (pageId, pager'.allocator) ∧ pager'.cache = pager.cache ∧
      pager.storage.writePage pageId (Disk.freshPage env.crc pageId) = .ok pager'.storage := by
  rcases hid : pager.allocator.allocatePage with ⟨id, allocator⟩
  cases hwrite : pager.storage.writePage id (Disk.freshPage env.crc id) with
  | ok storage =>
    rw [run_allocatePage_of_write hid hwrite] at h
    cases h
    exact ⟨rfl, rfl, hwrite⟩
  | error e =>
    rw [run_allocatePage_of_error hid hwrite] at h
    cases h

end calls

def Leading (crc : Crc) (seen : List PageId) (pageId : PageId) (bytes : Bytes) : Prop :=
  ∃ page : OverflowPage, page.validate = .ok () ∧ (page.nextPage = 0 ∨ page.nextPage ∈ seen) ∧
    bytes = overflowBytes crc pageId page

/-- The file has such a page, and the cache has no other. -/
structure Leads (env : Env) (seen : List PageId) (pager : Pager) (pageId : PageId) : Prop where
  stored : ∃ bytes, pager.storage.readPage pageId = .ok bytes ∧ Leading env.crc seen pageId bytes
  cached : ∀ bytes, pager.cache.get pageId = some bytes → Leading env.crc seen pageId bytes

section leads

variable {env : Env} {seen seen' : List PageId} {pager pager' : Pager} {pageId other : PageId}

theorem Leading.mono {crc : Crc} {bytes : Bytes} (h : Leading crc seen pageId bytes) (hsub : seen ⊆ seen') :
    Leading crc seen' pageId bytes := by
  rcases h with ⟨page, hvalid, hnext, hbytes⟩
  exact ⟨page, hvalid, hnext.imp_right fun hmem => hsub hmem, hbytes⟩

theorem Leads.mono (h : Leads env seen pager pageId) (hsub : seen ⊆ seen') : Leads env seen' pager pageId := by
  rcases h.stored with ⟨bytes, hread, hleading⟩
  exact ⟨⟨bytes, hread, hleading.mono hsub⟩, fun bytes hget => (h.cached bytes hget).mono hsub⟩

theorem Leads.keep (h : Leads env seen pager pageId) (hleaves : LeavesPage pager pager' pageId) :
    Leads env seen pager' pageId := by
  rcases h.stored with ⟨bytes, hread, hleading⟩
  refine ⟨⟨bytes, hleaves.stored bytes hread, hleading⟩, ?_⟩
  intro bytes hget
  rw [hleaves.cached] at hget
  exact h.cached bytes hget

theorem Leads.read (h : Leads env seen pager pageId)
    (hread : (readOverflowPage env pageId).run pager = .ok page pager') :
    page.validate = .ok () ∧ (page.nextPage = 0 ∨ page.nextPage ∈ seen) ∧ pager'.allocator = pager.allocator ∧
      ∀ other, Leads env seen pager other → Leads env seen pager' other := by
  rcases readOverflowPage_eq_ok hread with ⟨bytes, whole, hcached, hwhole, hpage⟩
  have hleading : Leading env.crc seen pageId bytes ∧ pager'.allocator = pager.allocator ∧
      ∀ other, Leads env seen pager other → Leads env seen pager' other := by
    rcases readPageCached_eq_ok hcached with ⟨hget, rfl⟩ | ⟨hstored, cache, hput, rfl⟩
    · exact ⟨h.cached bytes hget, rfl, fun _ hother => hother⟩
    · rcases h.stored with ⟨data, hdata, hleading⟩
      rw [hstored] at hdata
      cases hdata
      refine ⟨hleading, rfl, ?_⟩
      intro other hother
      refine ⟨hother.stored, ?_⟩
      intro data hget
      rw [show PageCache.get cache other = _ from PageCache.get_put hput other] at hget
      by_cases heq : other = pageId
      · rw [if_pos heq] at hget
        cases hget
        rw [heq]
        exact hleading
      · rw [if_neg heq] at hget
        exact hother.cached data hget
  rcases hleading with ⟨⟨page', hvalid, hnext, rfl⟩, hrest⟩
  rw [fromBytes_overflowBytes env.crc pageId hvalid] at hwhole
  cases hwhole
  have hsame : OverflowPage.fromBytes page'.toBytes = .ok page := hpage
  rw [OverflowPage.fromBytes_toBytes hvalid] at hsame
  cases hsame
  exact ⟨hvalid, hnext, hrest⟩

theorem leads_of_write {page : OverflowPage} (hnext : page.nextPage = 0 ∨ page.nextPage ∈ seen)
    (h : (writeOverflowPage env pageId page).run pager = .ok () pager') :
    pager'.allocator = pager.allocator ∧ Leads env seen pager' pageId ∧
      ∀ other, other ≠ pageId → LeavesPage pager pager' other := by
  rcases writeOverflowPage_eq_ok h with ⟨hvalid, halloc, hwrite, hcache⟩
  have hleading : Leading env.crc seen pageId (overflowBytes env.crc pageId page) := ⟨page, hvalid, hnext, rfl⟩
  refine ⟨halloc, ⟨⟨_, FileStorage.readPage_of_writePage hwrite, hleading⟩, ?_⟩, ?_⟩
  · intro bytes hget
    rcases hcache with hput | ⟨hnone, hsame⟩
    · rw [PageCache.get_put hput, if_pos rfl] at hget
      cases hget
      exact hleading
    · rw [hsame, hnone] at hget
      cases hget
  · intro other hother
    refine ⟨?_, fun bytes hread => FileStorage.readPage_of_writePage_ne hwrite hother hread⟩
    rcases hcache with hput | ⟨-, hsame⟩
    · rw [PageCache.get_put hput, if_neg hother]
    · rw [hsame]

/-- The page of one chunk: whatever the cache held for a page handed out before, it is overwritten. -/
theorem leads_of_newPage {pager₁ : Pager} {chunk : Bytes}
    (halloc : (allocateOverflowPage env).run pager = .ok pageId pager₁)
    (hwrite : (writeOverflowPage env pageId (OverflowPage.withData chunk 0)).run pager₁ = .ok () pager') :
    pager.allocator.allocatePage = (pageId, pager'.allocator) ∧ Leads env seen pager' pageId ∧
      ∀ other, other ≠ pageId → LeavesPage pager pager' other := by
  unfold allocateOverflowPage at halloc
  rcases run_bind_eq_ok_iff.mp halloc with ⟨id, p, hfirst, hrest⟩
  rcases run_bind_eq_ok_iff.mp hrest with ⟨_, q, hnew, hpure⟩
  cases hpure
  rcases allocatePage_eq_ok hfirst with ⟨hid, hcache, hfresh⟩
  rcases @leads_of_write env seen _ _ _ _ (Or.inl rfl) hnew with ⟨hsame, -, hleaves⟩
  rcases @leads_of_write env seen _ _ _ _ (Or.inl rfl) hwrite with ⟨hsame', hleads, hleaves'⟩
  refine ⟨?_, hleads, ?_⟩
  · rw [hsame', hsame]
    exact hid
  · intro other hother
    have hkeep : LeavesPage pager p other :=
      ⟨by rw [hcache], fun _ hread => FileStorage.readPage_of_writePage_ne hfresh hother hread⟩
    exact (hkeep.trans (hleaves other hother)).trans (hleaves' other hother)

/-- The pages of the loop lead to each other, also where the allocator handed one out twice. -/
theorem leads_of_allocateChunks {value : Bytes} {first result : Option PageId} {n i : Nat} {prev : PageId}
    {done : List PageId} (hdone : ∀ id ∈ done, Leads env done pager id) (hprev : prev ∈ done)
    (h : (allocateChunks env value n i first (some prev)).run pager = .ok result pager') :
    result = first ∧ ∀ id ∈ done ++ (pager.allocator.handOut n).1,
      Leads env (done ++ (pager.allocator.handOut n).1) pager' id := by
  induction n generalizing i prev done pager with
  | zero =>
    cases h
    show _ ∧ ∀ id ∈ done ++ [], Leads env (done ++ []) _ id
    rw [List.append_nil]
    exact ⟨rfl, hdone⟩
  | succ n ih =>
    unfold allocateChunks at h
    rcases run_bind_eq_ok_iff.mp h with ⟨id, p₁, halloc, h₁⟩
    rcases run_bind_eq_ok_iff.mp h₁ with ⟨_, p₂, hwrite, h₂⟩
    rcases run_bind_eq_ok_iff.mp h₂ with ⟨page, p₃, hread, h₃⟩
    rcases run_bind_eq_ok_iff.mp h₃ with ⟨_, p₄, hlink, hloop⟩
    rcases @leads_of_newPage env (done ++ [id]) _ _ _ _ _ halloc hwrite with ⟨hid, hnew, hleaves⟩
    have hsub : done ⊆ done ++ [id] := List.subset_append_left ..
    have hall : ∀ k ∈ done ++ [id], Leads env (done ++ [id]) p₂ k := by
      intro k hk
      by_cases heq : k = id
      · rw [heq]
        exact hnew
      · have hk : k ∈ done := (List.mem_append.mp hk).resolve_right fun hmem => heq (List.mem_singleton.mp hmem)
        exact ((hdone k hk).mono hsub).keep (hleaves k heq)
    rcases (hall prev (hsub hprev)).read hread with ⟨-, -, hsame₃, hkeep₃⟩
    rcases leads_of_write (Or.inr (List.mem_append_right done (List.mem_singleton_self id))) hlink
      with ⟨hsame₄, hrelinked, hleaves₄⟩
    have hall₄ : ∀ k ∈ done ++ [id], Leads env (done ++ [id]) p₄ k := by
      intro k hk
      by_cases heq : k = prev
      · rw [heq]
        exact hrelinked
      · exact (hkeep₃ k (hall k hk)).keep (hleaves₄ k heq)
    have hrest := ih hall₄ (List.mem_append_right _ (List.mem_singleton_self id)) hloop
    have hids : done ++ [id] ++ (p₄.allocator.handOut n).1 = done ++ (pager.allocator.handOut (n + 1)).1 := by
      show _ = done ++ (pager.allocator.allocatePage.1 :: (pager.allocator.allocatePage.2.handOut n).1)
      rw [hid, hsame₄, hsame₃, List.append_assoc, List.singleton_append]
    rw [hids] at hrest
    exact hrest

theorem leads_of_allocateOverflowChain {value : Bytes} {first : PageId}
    (h : (allocateOverflowChain env value).run pager = .ok first pager') :
    (∃ rest, pager.chainPages value = first :: rest) ∧
      ∀ id ∈ pager.chainPages value, Leads env (pager.chainPages value) pager' id := by
  unfold allocateOverflowChain at h
  by_cases hempty : value.isEmpty
  · rw [if_pos hempty] at h
    cases h
  · rw [if_neg hempty] at h
    rcases @OverflowPage.exists_chunks value (by simpa using hempty) with ⟨n, hn, -⟩
    rcases run_bind_eq_ok_iff.mp h with ⟨result, p, hloop, hresult⟩
    rw [hn] at hloop
    unfold allocateChunks at hloop
    rcases run_bind_eq_ok_iff.mp hloop with ⟨id, p₁, halloc, h₁⟩
    rcases run_bind_eq_ok_iff.mp h₁ with ⟨_, p₂, hwrite, hrest⟩
    rcases @leads_of_newPage env [id] _ _ _ _ _ halloc hwrite with ⟨hid, hnew, -⟩
    have hone : ∀ k ∈ [id], Leads env [id] p₂ k := fun k hk => List.mem_singleton.mp hk ▸ hnew
    rcases leads_of_allocateChunks hone (List.mem_singleton_self id) hrest with ⟨rfl, hleads⟩
    have hids : pager.chainPages value = [id] ++ (p₂.allocator.handOut n).1 := by
      rw [chainPages, hn]
      show pager.allocator.allocatePage.1 :: (pager.allocator.allocatePage.2.handOut n).1 = _
      rw [hid]
      rfl
    cases hresult
    rw [hids]
    exact ⟨⟨_, rfl⟩, hleads⟩

end leads

section walks

variable {env : Env} {pager pager' : Pager} {pageId : PageId} {value : Bytes} {pages : List (PageId × OverflowPage)}

theorem walk_closed (h : Walk env pager pageId pages pager') {seen : List PageId}
    (hleads : ∀ id ∈ seen, Leads env seen pager id) (hmem : pageId ∈ seen) :
    Pager.ids pages ⊆ seen ∧ (∀ x ∈ pages, x.2.data.length ≤ overflowDataSize) ∧ ∀ id ∈ (Pager.ids pages).tail, id ≠ 0 := by
  induction h with
  | last read final =>
    have hvalid := ((hleads _ hmem).read read).1
    refine ⟨?_, ?_, fun _ hid => (nomatch hid)⟩
    · intro id hid
      rw [List.mem_singleton.mp hid]
      exact hmem
    · intro x hx
      rw [List.mem_singleton.mp hx]
      exact ((OverflowPage.validate_eq_ok_iff _).mp hvalid).2
  | next read more tail ih =>
    rcases (hleads _ hmem).read read with ⟨hvalid, hnext, -, hkeep⟩
    rcases ih (fun id hid => hkeep id (hleads id hid)) (hnext.resolve_left more) with ⟨hids, hdata, hzero⟩
    refine ⟨?_, ?_, ?_⟩
    · intro id hid
      rcases List.mem_cons.mp hid with rfl | hid
      · exact hmem
      · exact hids hid
    · intro x hx
      rcases List.mem_cons.mp hx with rfl | hx
      · exact ((OverflowPage.validate_eq_ok_iff _).mp hvalid).2
      · exact hdata x hx
    · intro id hid
      rcases tail.pages_eq_cons with ⟨page, rest, rfl⟩
      rcases List.mem_cons.mp (show id ∈ _ :: Pager.ids rest from hid) with rfl | hid
      · exact more
      · exact hzero id hid

theorem readChain_eq_ok {fuel : Nat} {visited : List PageId} {buffer : Bytes}
    (h : (readChain env fuel visited pageId buffer).run pager = .ok value pager') :
    ∃ pages, Walk env pager pageId pages pager' ∧ (Pager.ids pages).Nodup ∧ (∀ id ∈ Pager.ids pages, id ∉ visited) ∧
      value = buffer ++ contents pages := by
  induction fuel generalizing visited pageId buffer pager with
  | zero => cases h
  | succ fuel ih =>
    unfold readChain at h
    by_cases hcycle : pageId ∈ visited
    · rw [if_pos hcycle] at h
      cases h
    · rw [if_neg hcycle] at h
      by_cases hlong : visited.length + 1 > 2000
      · rw [if_pos hlong] at h
        cases h
      · rw [if_neg hlong] at h
        rcases run_bind_eq_ok_iff.mp h with ⟨page, p, hread, hrest⟩
        by_cases hlast : page.nextPage = 0
        · have hend : page.isLast = true := by simp [OverflowPage.isLast, hlast]
          simp only [hend, if_true] at hrest
          cases hrest
          refine ⟨[(pageId, page)], .last hread hlast, List.nodup_singleton _, ?_, ?_⟩
          · intro id hid
            rw [List.mem_singleton.mp hid]
            exact hcycle
          · rw [contents, List.flatMap_cons, List.flatMap_nil, List.append_nil]
        · have hend : page.isLast = false := by simp [OverflowPage.isLast, hlast]
          simp only [hend, Bool.false_eq_true, if_false] at hrest
          rcases ih hrest with ⟨pages, hwalk, hnodup, hvisited, rfl⟩
          refine ⟨(pageId, page) :: pages, .next hread hlast hwalk, ?_, ?_, ?_⟩
          · exact List.nodup_cons.mpr ⟨fun hmem => hvisited pageId hmem (List.mem_cons_self ..), hnodup⟩
          · intro id hid
            rcases List.mem_cons.mp hid with rfl | hid
            · exact hcycle
            · exact fun hmem => hvisited id hid (List.mem_cons_of_mem _ hmem)
          · rw [contents, contents, List.flatMap_cons, List.append_assoc]

theorem length_contents_le (h : ∀ x ∈ pages, x.2.data.length ≤ overflowDataSize) :
    (contents pages).length ≤ pages.length * overflowDataSize := by
  induction pages with
  | nil => exact Nat.zero_le _
  | cons x pages ih =>
    have hhead := h x (List.mem_cons_self ..)
    have htail := ih fun y hy => h y (List.mem_cons_of_mem _ hy)
    show (x.2.data ++ contents pages).length ≤ _
    rw [List.length_append, List.length_cons, Nat.succ_mul]
    omega

theorem pagesNeeded_le_of_cover {n : Nat} (h : value.length ≤ n * overflowDataSize) :
    OverflowPage.pagesNeeded value.length ≤ n := by
  unfold OverflowPage.pagesNeeded
  simp only [overflowDataSize] at h ⊢
  split
  · exact Nat.zero_le _
  · omega

/-- With fewer pages than it needs the chain would be too short for the value, so that the pages the allocator
handed out were different. -/
theorem takes_of_reads {first : PageId} {pager₁ pager₂ : Pager}
    (halloc : (allocateOverflowChain env value).run pager = .ok first pager₁)
    (hread : (readOverflowChain env first).run pager₁ = .ok value pager₂) :
    Takes env pager (pager.chainPages value) := by
  rcases leads_of_allocateOverflowChain halloc with ⟨⟨rest, hpath⟩, hleads⟩
  rcases readChain_eq_ok hread with ⟨pages, hwalk, hnodup, -, hvalue⟩
  rcases walk_closed hwalk hleads (hpath ▸ List.mem_cons_self ..) with ⟨hsub, hdata, hzero⟩
  have hcount : (pager.chainPages value).length ≤ (Pager.ids pages).length := by
    have hcover : value.length ≤ pages.length * overflowDataSize := by
      rw [hvalue, List.nil_append]
      exact length_contents_le hdata
    rw [chainPages, PageAllocator.length_handOut]
    exact (pagesNeeded_le_of_cover hcover).trans_eq (List.length_map _).symm
  have hperm : (Pager.ids pages).Perm (pager.chainPages value) :=
    (List.subperm_of_subset hnodup hsub).perm_of_length_le hcount
  have hdistinct : (pager.chainPages value).Nodup := hperm.nodup_iff.mp hnodup
  have hgrew := (grew_allocateOverflowChain env value).of_run_ok (PageCache.Grew.refl env pager.cache) halloc
  refine ⟨hdistinct, ?_, ?_, ?_⟩
  · intro id hid
    rcases (hleads id hid).stored with ⟨bytes, hstored, -⟩
    exact (FileStorage.readPage_eq_ok_iff.mp hstored).1
  · rcases hwalk.pages_eq_cons with ⟨page, tail, rfl⟩
    rw [hpath] at hperm ⊢
    have htail : (Pager.ids tail).Perm rest := (show (first :: Pager.ids tail).Perm (first :: rest) from hperm).cons_inv
    exact fun id hid => hzero id (htail.mem_iff.mpr hid)
  · apply (hwalk.grew hgrew).hasRoom hdistinct
    exact fun id hid => hwalk.get_ne_none id (hperm.mem_iff.mpr hid)

end walks

section values

variable {env : Env} {key value : Bytes} {lsn snapshotLsn : UInt64}

def Resolves (env : Env) (pager : Pager) (key value : Bytes) (lsn snapshotLsn : UInt64) : Prop :=
  ∃ entry pager₁ pager₂, (prepareEntryValue env key value lsn).run pager = .ok entry pager₁ ∧
    (BTree.resolve env snapshotLsn (some entry)).run pager₁ = .ok (some value) pager₂

theorem exists_decode_of_looksLikeReference (h : looksLikeReference value = true) :
    ∃ pageId, ValueStorage.decode value = .ok (.overflow pageId) := by
  rcases Bool.and_eq_true_iff.mp h with ⟨hlen, hmarker⟩
  have hlen := eq_of_beq hlen
  have hmarker := eq_of_beq hmarker
  refine ⟨readU64 (window value 2 8), ?_⟩
  unfold ValueStorage.decode
  rw [if_neg (by omega)]
  simp only [hmarker, if_true]
  rw [if_neg (by omega)]

theorem run_prepareEntryValue_inline (hinline : value.length ≤ inlineThreshold) (pager : Pager) :
    (prepareEntryValue env key value lsn).run pager = .ok ⟨key, value, lsn⟩ pager := by
  have hshort : ¬ value.length > maxValueSize := by
    simp only [inlineThreshold, maxValueSize] at *
    omega
  unfold prepareEntryValue
  rw [if_neg hshort, if_pos (by simpa [OverflowPage.shouldStoreInline] using hinline)]
  rfl

theorem run_prepareEntryValue_overflow (hsize : value.length ≤ maxValueSize)
    (hoverflow : inlineThreshold < value.length) (pager : Pager) :
    (prepareEntryValue env key value lsn).run pager = (do
      let pageId ← allocateOverflowChain env value
      pure ⟨key, (ValueStorage.overflow pageId).encode, lsn⟩ : PagerM Entry).run pager := by
  unfold prepareEntryValue
  rw [if_neg (Nat.not_lt.mpr hsize), if_neg (by simpa [OverflowPage.shouldStoreInline] using hoverflow)]

theorem run_resolve_plain (hvisible : lsn ≤ snapshotLsn) (hplain : looksLikeReference value = false) (pager : Pager) :
    (BTree.resolve env snapshotLsn (some ⟨key, value, lsn⟩)).run pager = .ok (some value) pager := by
  have hentry : isOverflowValue ⟨key, value, lsn⟩ = false := hplain
  unfold BTree.resolve
  dsimp only
  rw [if_pos hvisible, if_neg (by simp [hentry]), run_pure]

theorem run_resolve_reference {pageId : PageId} {stored : Bytes} (hvisible : lsn ≤ snapshotLsn)
    (hreference : looksLikeReference stored = true) (hdecode : ValueStorage.decode stored = .ok (.overflow pageId))
    (pager : Pager) :
    (BTree.resolve env snapshotLsn (some ⟨key, stored, lsn⟩)).run pager =
      (readOverflowChain env pageId >>= fun bytes => pure (some bytes)).run pager := by
  have hentry : isOverflowValue ⟨key, stored, lsn⟩ = true := hreference
  unfold BTree.resolve
  dsimp only
  rw [if_pos hvisible, if_pos hentry, hdecode, run_bind_of_ok (run_lift_ok _ pager)]
  rfl

theorem not_resolves_of_looksLikeReference (hvisible : lsn ≤ snapshotLsn)
    (hreference : looksLikeReference value = true) : ¬ Resolves env (initial env.crc []) key value lsn snapshotLsn := by
  rintro ⟨entry, pager₁, pager₂, hprepare, hresolve⟩
  have hlen : value.length = 10 := eq_of_beq (Bool.and_eq_true_iff.mp hreference).1
  rw [run_prepareEntryValue_inline (by rw [hlen]; decide)] at hprepare
  cases hprepare
  rcases exists_decode_of_looksLikeReference hreference with ⟨pageId, hdecode⟩
  rw [run_resolve_reference hvisible hreference hdecode] at hresolve
  rcases run_bind_eq_ok_iff.mp hresolve with ⟨bytes, pager₃, hread, -⟩
  rcases readChain_eq_ok hread with ⟨pages, hwalk, -⟩
  have hpage : ∃ page pager₄, (readOverflowPage env pageId).run (initial env.crc []) = .ok page pager₄ := by
    cases hwalk with
    | last read _ => exact ⟨_, _, read⟩
    | next read _ _ => exact ⟨_, _, read⟩
  rcases hpage with ⟨page, pager₄, hpage⟩
  rcases readOverflowPage_eq_ok hpage with ⟨data, -, hcached, -⟩
  rcases readPageCached_eq_ok hcached with ⟨hget, -⟩ | ⟨hstored, -⟩
  · cases hget
  · have hle := (FileStorage.readPage_eq_ok_iff.mp hstored).2.1
    have hend : pageId.toNat * pageSize + pageSize ≤ 0 := hle
    simp only [pageSize] at hend
    omega

theorem resolves_overflow_iff (hsize : value.length ≤ maxValueSize) (hvisible : lsn ≤ snapshotLsn)
    (hoverflow : inlineThreshold < value.length) (pager : Pager) :
    Resolves env pager key value lsn snapshotLsn ↔ Takes env pager (pager.chainPages value) := by
  have hne : value ≠ [] := by
    rintro rfl
    cases hoverflow
  have hlong : value.length ≤ 2000 * overflowDataSize := by
    simp only [maxValueSize, overflowDataSize] at *
    omega
  constructor
  · rintro ⟨entry, pager₁, pager₂, hprepare, hresolve⟩
    rw [run_prepareEntryValue_overflow hsize hoverflow] at hprepare
    rcases run_bind_eq_ok_iff.mp hprepare with ⟨first, pager₃, halloc, hentry⟩
    cases hentry
    rw [run_resolve_reference hvisible (isOverflowValue_encode key first lsn) (decode_encode_overflow first)]
      at hresolve
    rcases run_bind_eq_ok_iff.mp hresolve with ⟨bytes, pager₄, hread, hbytes⟩
    cases hbytes
    exact takes_of_reads halloc hread
  · intro htakes
    rcases reads_of_takes hne hlong htakes with ⟨first, -, pager₁, -, halloc, -, -, -, -, -, -, hread⟩
    refine ⟨⟨key, (ValueStorage.overflow first).encode, lsn⟩, pager₁, pager₁, ?_, ?_⟩
    · rw [run_prepareEntryValue_overflow hsize hoverflow, run_bind_of_ok halloc, run_pure]
    · rw [run_resolve_reference hvisible (isOverflowValue_encode key first lsn) (decode_encode_overflow first),
        run_bind_of_ok hread, run_pure]

/-- A value comes back from every pager that can take its chain exactly when it does not look like a reference,
and a value that needs a chain from no other pager. -/
theorem value_resolves_iff (hsize : value.length ≤ maxValueSize) (hvisible : lsn ≤ snapshotLsn) :
    ((∀ pager, (inlineThreshold < value.length → Takes env pager (pager.chainPages value)) →
        Resolves env pager key value lsn snapshotLsn) ↔ looksLikeReference value = false) ∧
      ∀ pager, inlineThreshold < value.length →
        (Resolves env pager key value lsn snapshotLsn ↔ Takes env pager (pager.chainPages value)) := by
  refine ⟨⟨?_, ?_⟩, fun pager hoverflow => resolves_overflow_iff hsize hvisible hoverflow pager⟩
  · intro hall
    by_contra hreference
    have hreference := Bool.eq_true_of_not_eq_false hreference
    have hlen : value.length = 10 := eq_of_beq (Bool.and_eq_true_iff.mp hreference).1
    apply @not_resolves_of_looksLikeReference env key value lsn snapshotLsn hvisible hreference
    exact hall _ fun hoverflow => absurd hoverflow (by rw [hlen]; decide)
  · intro hplain pager htakes
    by_cases hoverflow : inlineThreshold < value.length
    · exact (resolves_overflow_iff hsize hvisible hoverflow pager).mpr (htakes hoverflow)
    · exact ⟨_, pager, pager, run_prepareEntryValue_inline (Nat.not_lt.mp hoverflow) pager,
        run_resolve_plain hvisible hplain pager⟩

/-- The two marker bytes alone are no reference. -/
theorem value_resolves_one : Resolves ⟨crc32cAppend, fun _ => 0⟩ (initial crc32cAppend []) [1] [0xFF, 0xFF] 1 1 :=
  (value_resolves_iff (by decide) (by decide)).1.mpr (by decide) _ fun hoverflow => absurd hoverflow (by decide)

theorem reference_bytes_do_not_resolve : ∃ value : Bytes, value = [0xFF, 0xFF, 9, 0, 0, 0, 0, 0, 0, 0] ∧
    ¬ Resolves ⟨crc32cAppend, fun _ => 0⟩ (initial crc32cAppend []) [1] value 1 1 :=
  ⟨_, rfl, not_resolves_of_looksLikeReference (by decide) (by decide)⟩

end values

end Northstar.Btree
