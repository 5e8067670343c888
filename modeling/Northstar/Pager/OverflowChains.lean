import Northstar.Btree.Pages
import Northstar.Pager.CacheRoom

/-!
# OverflowChains — allocating, reading and freeing the pages of a large value

The three chain calls on any pager, whatever its allocator and its cache hold.  The chain takes the pages the
allocator hands out next; it comes back whole when these are different pages that the file and the cache can
hold.
-/

namespace Northstar

open Bytes Btree EStateM

/-- The next `n` pages the allocator hands out, and the allocator behind them. -/
def PageAllocator.handOut : Nat → PageAllocator → List PageId × PageAllocator
  | 0, a => ([], a)
  | n + 1, a => (a.allocatePage.1 :: (handOut n a.allocatePage.2).1, (handOut n a.allocatePage.2).2)

theorem PageAllocator.length_handOut (n : Nat) (a : PageAllocator) : (handOut n a).1.length = n := by
  induction n generalizing a with
  | zero => rfl
  | succ n ih =>
    show (handOut n a.allocatePage.2).1.length + 1 = n + 1
    rw [ih]

namespace Pager

/-- The pages lead from one to the next, and the last to none. -/
inductive Linked : PageId → List (PageId × OverflowPage) → Prop
  | last {pageId : PageId} {page : OverflowPage} (final : page.nextPage = 0) : Linked pageId [(pageId, page)]
  | next {pageId : PageId} {page : OverflowPage} {rest : List (PageId × OverflowPage)} (more : page.nextPage ≠ 0)
      (tail : Linked page.nextPage rest) : Linked pageId ((pageId, page) :: rest)

/-- The pages a reader of the chain sees, one read after the other. -/
inductive Walk (env : Env) : Pager → PageId → List (PageId × OverflowPage) → Pager → Prop
  | last {pager pager' : Pager} {pageId : PageId} {page : OverflowPage}
      (read : (readOverflowPage env pageId).run pager = .ok page pager') (final : page.nextPage = 0) :
      Walk env pager pageId [(pageId, page)] pager'
  | next {pager pager₁ pager' : Pager} {pageId : PageId} {page : OverflowPage}
      {rest : List (PageId × OverflowPage)} (read : (readOverflowPage env pageId).run pager = .ok page pager₁)
      (more : page.nextPage ≠ 0) (tail : Walk env pager₁ page.nextPage rest pager') :
      Walk env pager pageId ((pageId, page) :: rest) pager'

def ids (pages : List (PageId × OverflowPage)) : List PageId := pages.map Prod.fst

def contents (pages : List (PageId × OverflowPage)) : Bytes := pages.flatMap fun x => x.2.data

variable {env : Env} {pager pager' : Pager} {pageId : PageId} {pages : List (PageId × OverflowPage)}

theorem Walk.pages_eq_cons (h : Walk env pager pageId pages pager') : ∃ page rest, pages = (pageId, page) :: rest := by
  cases h with
  | last _ _ => exact ⟨_, _, rfl⟩
  | next _ _ _ => exact ⟨_, _, rfl⟩

variable {fuel n : Nat} {visited : List PageId} {allocator : PageAllocator}

theorem Walk.run_readChain (h : Walk env pager pageId pages pager')
    (buffer : Bytes) (hnodup : (ids pages).Nodup) (hvisited : ∀ id ∈ ids pages, id ∉ visited)
    (hlength : visited.length + pages.length ≤ 2000) (hfuel : pages.length ≤ fuel) :
    (readChain env fuel visited pageId buffer).run pager = .ok (buffer ++ contents pages) pager' := by
  induction h generalizing fuel visited buffer with
  | @last pager pager' pageId page read final =>
    cases fuel with
    | zero => cases hfuel
    | succ fuel =>
      have hfresh : pageId ∉ visited := hvisited pageId (List.mem_cons_self ..)
      have hlast : page.isLast = true := by simp [OverflowPage.isLast, final]
      have hshort : ¬ visited.length + 1 > 2000 := Nat.not_lt.mpr hlength
      unfold readChain
      rw [if_neg hfresh, if_neg hshort, run_bind_of_ok read]
      simp only [hlast, if_true, run_pure, contents, List.flatMap_cons, List.flatMap_nil, List.append_nil]
  | @next pager pager₁ pager' pageId page rest read more tail ih =>
    cases fuel with
    | zero => cases hfuel
    | succ fuel =>
      have hfresh : pageId ∉ visited := hvisited pageId (List.mem_cons_self ..)
      have hlast : page.isLast = false := by simp [OverflowPage.isLast, more]
      have hcons : visited.length + (rest.length + 1) ≤ 2000 := hlength
      have hshort : ¬ visited.length + 1 > 2000 := by omega
      have hparts := List.nodup_cons.mp (show (pageId :: ids rest).Nodup from hnodup)
      have hrest : ∀ id ∈ ids rest, id ∉ pageId :: visited := by
        intro id hid hmem
        rcases List.mem_cons.mp hmem with rfl | hmem
        · exact hparts.1 hid
        · exact hvisited id (List.mem_cons_of_mem _ hid) hmem
      have htail := ih (buffer ++ page.data) hparts.2 hrest (by rw [List.length_cons]; omega)
        (Nat.le_of_succ_le_succ hfuel)
      unfold readChain
      rw [if_neg hfresh, if_neg hshort, run_bind_of_ok read]
      simp only [hlast, Bool.false_eq_true, if_false]
      rw [htail, contents, contents, List.flatMap_cons, List.append_assoc]

/-- The page reads as before, from the cache and from the file. -/
structure LeavesPage (pager pager' : Pager) (pageId : PageId) : Prop where
  cached : pager'.cache.get pageId = pager.cache.get pageId
  stored : ∀ bytes, pager.storage.readPage pageId = .ok bytes → pager'.storage.readPage pageId = .ok bytes

theorem LeavesPage.trans {pager₁ pager₂ : Pager} (h : LeavesPage pager pager₁ pageId)
    (h' : LeavesPage pager₁ pager₂ pageId) : LeavesPage pager pager₂ pageId :=
  ⟨h'.cached.trans h.cached, fun bytes hread => h'.stored bytes (h.stored bytes hread)⟩

/-- The page is in the file and in the cache. -/
structure Holds (env : Env) (pager : Pager) (pageId : PageId) (page : OverflowPage) : Prop where
  valid : page.validate = .ok ()
  stored : pager.storage.readPage pageId = .ok (overflowBytes env.crc pageId page)
  cached : pager.cache.get pageId = some (overflowBytes env.crc pageId page)

variable {page : OverflowPage}

theorem Holds.keep (h : Holds env pager pageId page) (hleaves : LeavesPage pager pager' pageId) :
    Holds env pager' pageId page :=
  ⟨h.valid, hleaves.stored _ h.stored, hleaves.cached.trans h.cached⟩

theorem run_readOverflowPage_of_holds (h : Holds env pager pageId page) :
    (readOverflowPage env pageId).run pager = .ok page pager := by
  have hread : (readPageCached env pageId).run pager = .ok (overflowBytes env.crc pageId page) pager := by
    unfold readPageCached readThrough
    rw [run_bind_of_ok (run_get pager), h.cached, run_pure]
  unfold readOverflowPage
  rw [run_bind_of_ok hread, run_bind_of_ok (run_liftErr_of_ok (fromBytes_overflowBytes env.crc pageId h.valid) _),
    if_neg (fun hne => hne rfl)]
  exact run_liftErr_of_ok (OverflowPage.fromBytes_toBytes h.valid) pager

theorem Linked.walk (h : Linked pageId pages) (hholds : ∀ x ∈ pages, Holds env pager x.1 x.2) :
    Walk env pager pageId pages pager := by
  induction h with
  | last final => exact .last (run_readOverflowPage_of_holds (hholds _ (List.mem_cons_self ..))) final
  | next more _ ih =>
    apply Walk.next (run_readOverflowPage_of_holds (hholds _ (List.mem_cons_self ..))) more
    exact ih fun x hx => hholds x (List.mem_cons_of_mem _ hx)

section reads

variable {I : Pager → Prop}

theorem preserves_cachePut (bytes : Bytes)
    (hI : ∀ p cache, I p → p.cache.put env pageId bytes = .ok cache → I { p with cache }) :
    Preserves I (cachePut env pageId bytes) := by
  apply preserves_get_bind
  intro p hp
  cases hput : p.cache.put env pageId bytes with
  | ok cache =>
    rw [Ends, run_bind_of_ok (run_liftErr_of_ok rfl p), ← Ends]
    exact ends_of_ok (run_set _ _) (hI p cache hp hput)
  | error e => exact ends_of_error (run_bind_of_error (run_liftErr_of_error rfl p)) hp

theorem preserves_readOverflowPage
    (hI : ∀ p bytes cache, I p → p.cache.put env pageId bytes = .ok cache → I { p with cache }) :
    Preserves I (readOverflowPage env pageId) := by
  have hcached : Preserves I (readPageCached env pageId) := by
    apply preserves_get_bind
    intro p hp
    cases hget : p.cache.get pageId with
    | some data => exact ends_of_ok (run_pure _ _) hp
    | none =>
      have hrest := (preserves_lift ((p.storage.readPage pageId).mapError Fault.err)).bind fun buffer =>
        (preserves_lift ((validatePageBuffer env.crc pageId buffer).mapError Fault.err)).bind fun _ =>
          (preserves_cachePut buffer fun q cache => hI q buffer cache).bind fun _ => preserves_pure buffer
      exact hrest.ends p hp
  apply hcached.bind
  intro bytes
  apply (preserves_lift _).bind
  intro page
  by_cases htype : page.pageType ≠ some .overflow
  · rw [if_pos htype]
    exact preserves_throw _
  · rw [if_neg htype]
    exact preserves_lift _

end reads

section grows

variable (env) {start : PageCache}

theorem grew_writeStorage (bytes : Bytes) :
    Preserves (fun p => start.Grew env p.cache) (writeStorage pageId bytes) := by
  apply preserves_get_bind
  intro p hp
  apply Ends.bind (P := fun _ q => q = p)
  · cases hwrite : p.storage.writePage pageId bytes with
    | ok storage => exact ends_of_ok (run_liftErr_of_ok rfl p) rfl
    | error e => exact ends_of_error (run_liftErr_of_error rfl p) hp
  · rintro storage q - rfl
    exact ends_of_ok (run_set _ _) hp

theorem grew_cachePut (bytes : Bytes) : Preserves (fun p => start.Grew env p.cache) (cachePut env pageId bytes) :=
  preserves_cachePut bytes fun _ _ hp hput => hp.put hput

theorem grew_writePage (bytes : Bytes) :
    Preserves (fun p => start.Grew env p.cache) (writePage env pageId bytes) := by
  unfold writePage
  by_cases hlen : bytes.length = Northstar.pageSize
  · rw [if_neg (fun hne => hne hlen)]
    apply (preserves_lift _).bind
    intro _
    apply (grew_writeStorage env bytes).bind
    intro _
    apply (grew_cachePut env bytes).attempt.bind
    exact fun _ => preserves_pure _
  · rw [if_pos hlen]
    exact preserves_throw _

theorem grew_readOverflowPage : Preserves (fun p => start.Grew env p.cache) (readOverflowPage env pageId) :=
  preserves_readOverflowPage fun _ _ _ hp hput => hp.put hput

theorem grew_writeOverflowPage (page : OverflowPage) :
    Preserves (fun p => start.Grew env p.cache) (writeOverflowPage env pageId page) := by
  apply (preserves_lift _).bind
  intro _
  apply (preserves_lift _).bind
  exact fun _ => grew_writePage env _

theorem grew_allocatePage : Preserves (fun p => start.Grew env p.cache) (allocatePage env) := by
  constructor
  intro p hp
  rcases hid : p.allocator.allocatePage with ⟨id, allocator⟩
  cases hwrite : p.storage.writePage id (Disk.freshPage env.crc id) with
  | ok storage =>
    have hrun := run_allocatePage_of_write hid hwrite
    -- nothing more of the call is needed, and it is not to be evaluated
    generalize allocatePage env = x at hrun ⊢
    exact ends_of_ok hrun hp
  | error e =>
    have hrun := run_allocatePage_of_error hid hwrite
    generalize allocatePage env = x at hrun ⊢
    exact ends_of_error hrun hp

theorem grew_allocateOverflowPage : Preserves (fun p => start.Grew env p.cache) (allocateOverflowPage env) := by
  unfold allocateOverflowPage
  exact (grew_allocatePage env).bind fun _ => (grew_writeOverflowPage env _).bind fun _ => preserves_pure _

theorem grew_allocateChunks (value : Bytes) (n i : Nat) (first prev : Option PageId) :
    Preserves (fun p => start.Grew env p.cache) (allocateChunks env value n i first prev) := by
  induction n generalizing i first prev with
  | zero => exact preserves_pure _
  | succ n ih =>
    unfold allocateChunks
    refine (grew_allocateOverflowPage env).bind fun id => (grew_writeOverflowPage env _).bind fun _ => ?_
    cases prev with
    | none => exact ih _ _ _
    | some prevId =>
      exact (grew_readOverflowPage env).bind fun page => (grew_writeOverflowPage env _).bind fun _ => ih _ _ _

theorem grew_allocateOverflowChain (value : Bytes) :
    Preserves (fun p => start.Grew env p.cache) (allocateOverflowChain env value) := by
  unfold allocateOverflowChain
  by_cases hempty : value.isEmpty
  · rw [if_pos hempty]
    exact preserves_throw _
  · rw [if_neg hempty]
    refine (grew_allocateChunks env _ _ _ _ _).bind fun first => ?_
    cases first with
    | some id => exact preserves_pure _
    | none => exact preserves_throw _

end grows

theorem get_ne_none_of_cached {bytes : Bytes} (h : (readPageCached env pageId).run pager = .ok bytes pager') :
    pager'.cache.get pageId ≠ none := by
  unfold readPageCached readThrough at h
  rw [run_bind_of_ok (run_get pager)] at h
  cases hget : pager.cache.get pageId with
  | some data =>
    rw [hget] at h
    cases h
    rw [hget]
    exact Option.some_ne_none _
  | none =>
    rw [hget] at h
    rcases run_bind_eq_ok_iff.mp h with ⟨buffer, p₁, hbuffer, h₁⟩
    rcases run_bind_eq_ok_iff.mp h₁ with ⟨_, p₂, hcheck, h₂⟩
    rcases run_bind_eq_ok_iff.mp h₂ with ⟨_, p₃, hput, h₃⟩
    cases h₃
    unfold cachePut at hput
    rw [run_bind_of_ok (run_get p₂)] at hput
    rcases run_bind_eq_ok_iff.mp hput with ⟨cache, p₄, hcache, hset⟩
    rcases run_liftErr_eq_ok_iff.mp hcache with ⟨hcache, -⟩
    cases hset
    show cache.get pageId ≠ none
    rw [PageCache.get_put hcache, if_pos rfl]
    exact Option.some_ne_none _

theorem get_ne_none_of_read
    (h : (readOverflowPage env pageId).run pager = .ok page pager') : pager'.cache.get pageId ≠ none := by
  unfold readOverflowPage at h
  rcases run_bind_eq_ok_iff.mp h with ⟨bytes, p, hread, h₁⟩
  rcases run_bind_eq_ok_iff.mp h₁ with ⟨whole, q, hwhole, h₂⟩
  obtain rfl := (run_liftErr_eq_ok_iff.mp hwhole).2
  by_cases htype : whole.pageType ≠ some .overflow
  · rw [if_pos htype] at h₂
    cases h₂
  · rw [if_neg htype] at h₂
    obtain rfl := (run_liftErr_eq_ok_iff.mp h₂).2
    exact get_ne_none_of_cached hread

theorem Walk.grew {start : PageCache} (h : Walk env pager pageId pages pager') (hstart : start.Grew env pager.cache) :
    start.Grew env pager'.cache := by
  induction h with
  | last read _ => exact (grew_readOverflowPage env).of_run_ok hstart read
  | next read _ _ ih => exact ih ((grew_readOverflowPage env).of_run_ok hstart read)

theorem Walk.get_ne_none (h : Walk env pager pageId pages pager') : ∀ id ∈ ids pages, pager'.cache.get id ≠ none := by
  induction h with
  | last read _ =>
    intro id hid
    rw [List.mem_singleton.mp hid]
    exact get_ne_none_of_read read
  | next read _ tail ih =>
    intro id hid
    rcases List.mem_cons.mp hid with rfl | hid
    · exact PageCache.Grew.get_ne_none (tail.grew (PageCache.Grew.refl env _)) (get_ne_none_of_read read)
    · exact ih id hid

/-- The page went into the file and into the cache. -/
structure Wrote (env : Env) (pager pager' : Pager) (pageId : PageId) (page : OverflowPage) : Prop where
  allocator : pager'.allocator = pager.allocator
  valid : page.validate = .ok ()
  write : pager.storage.writePage pageId (overflowBytes env.crc pageId page) = .ok pager'.storage
  put : pager.cache.put env pageId (overflowBytes env.crc pageId page) = .ok pager'.cache

section writing

variable {other : PageId}

theorem Wrote.holds (h : Wrote env pager pager' pageId page) : Holds env pager' pageId page := by
  refine ⟨h.valid, FileStorage.readPage_of_writePage h.write, ?_⟩
  rw [PageCache.get_put h.put, if_pos rfl]

theorem Wrote.leaves (h : Wrote env pager pager' pageId page) (hother : other ≠ pageId) :
    LeavesPage pager pager' other := by
  constructor
  · rw [PageCache.get_put h.put, if_neg hother]
  · exact fun bytes hread => FileStorage.readPage_of_writePage_ne h.write hother hread

theorem run_writeOverflowPage_of_admits (hvalid : page.validate = .ok ()) (haddr : FileStorage.Addressable pageId)
    (hadmits : pager.cache.Admits env pageId) :
    ∃ pager', (writeOverflowPage env pageId page).run pager = .ok () pager' ∧
      Wrote env pager pager' pageId page := by
  have hlen : (overflowBytes env.crc pageId page).length = Northstar.pageSize := Page.length_toBytes _
  rcases FileStorage.exists_writePage pager.storage pageId hlen haddr with ⟨storage, hwrite⟩
  rcases PageCache.exists_put hadmits hlen with ⟨cache, hput⟩
  refine ⟨{ pager with storage, cache }, ?_, rfl, hvalid, hwrite, hput⟩
  have hupdate := updatePayload_overflow env.crc pageId hvalid
  have hdone : (cachePut env pageId (overflowBytes env.crc pageId page)).run { pager with storage } =
      .ok () { pager with storage, cache } := by
    unfold cachePut
    rw [run_bind_of_ok (run_get _), run_bind_of_ok (run_liftErr_of_ok hput _), run_set]
  have hpage : (writePage env pageId (overflowBytes env.crc pageId page)).run pager =
      .ok () { pager with storage, cache } := by
    unfold writePage
    rw [if_neg (fun hne => hne hlen),
      run_bind_of_ok (run_liftErr_of_ok (validate_overflowBytes env.crc pageId hvalid) pager),
      run_bind_of_ok (run_writeStorage_of_ok hwrite), run_bind_of_ok (run_attempt_of_ok hdone), run_pure]
  unfold writeOverflowPage
  rw [run_bind_of_ok (run_liftErr_of_ok hvalid pager), run_bind_of_ok (run_liftErr_of_ok hupdate pager)]
  exact hpage

end writing

theorem leavesPage_allocate {storage : FileStorage} {bytes : Bytes} {other : PageId}
    (hwrite : pager.storage.writePage pageId bytes = .ok storage) (hother : other ≠ pageId) :
    LeavesPage pager { pager with allocator, storage } other :=
  ⟨rfl, fun _ hread => FileStorage.readPage_of_writePage_ne hwrite hother hread⟩

theorem validate_withData {chunk : Bytes} {nextPage : UInt64} (hchunk : chunk.length ≤ overflowDataSize) :
    (OverflowPage.withData chunk nextPage).validate = .ok () :=
  (OverflowPage.validate_eq_ok_iff _).mpr ⟨rfl, hchunk⟩

theorem run_newPage (hid : pager.allocator.allocatePage = (pageId, allocator))
    (haddr : FileStorage.Addressable pageId) {rest : List PageId} (hnot : pageId ∉ rest)
    (hroom : pager.cache.HasRoom env (pageId :: rest)) {chunk : Bytes} (hchunk : chunk.length ≤ overflowDataSize) :
    ∃ pager₁ pager₂, (allocateOverflowPage env).run pager = .ok pageId pager₁ ∧
      (writeOverflowPage env pageId (OverflowPage.withData chunk 0)).run pager₁ = .ok () pager₂ ∧
      pager₂.allocator = allocator ∧ Holds env pager₂ pageId (OverflowPage.withData chunk 0) ∧
      pager₂.cache.HasRoom env rest ∧ ∀ other, other ≠ pageId → LeavesPage pager pager₂ other := by
  rcases FileStorage.exists_writePage pager.storage pageId (Disk.length_freshPage env.crc pageId) haddr
    with ⟨storage, hwrite⟩
  have halloc := @run_allocatePage_of_write env pager pageId allocator storage hid hwrite
  let pager₀ : Pager := { pager with allocator, storage }
  have hroom₀ : pager₀.cache.HasRoom env (pageId :: rest) := hroom
  rcases run_writeOverflowPage_of_admits (@validate_withData [] 0 (Nat.zero_le _)) haddr hroom₀.admits
    with ⟨pager₁, hwrite₁, hwrote₁⟩
  have hheld₁ : (pager₁.cache.get pageId).isSome := by
    rw [hwrote₁.holds.cached]
    rfl
  rcases run_writeOverflowPage_of_admits (validate_withData hchunk) haddr (Or.inl hheld₁)
    with ⟨pager₂, hwrite₂, hwrote₂⟩
  refine ⟨pager₁, pager₂, ?_, hwrite₂, ?_, hwrote₂.holds, ?_, ?_⟩
  · unfold allocateOverflowPage
    rw [run_bind_of_ok halloc]
    exact run_bind_of_ok hwrite₁
  · rw [hwrote₂.allocator, hwrote₁.allocator]
  · exact (hroom₀.put hnot hwrote₁.put).replace hheld₁ hwrote₂.put
  · intro other hother
    exact ((leavesPage_allocate hwrite hother).trans (hwrote₁.leaves hother)).trans (hwrote₂.leaves hother)

/-- What the loop leaves behind: a chain of the pages, each of them in the file and in the cache. -/
structure Built (env : Env) (pager pager' : Pager) (first : PageId) (fresh : List PageId) (value : Bytes)
    (pages : List (PageId × OverflowPage)) : Prop where
  linked : Linked first pages
  path : ids pages = first :: fresh
  contents : contents pages = value
  holds : ∀ x ∈ pages, Holds env pager' x.1 x.2
  leaves : ∀ other, other ∉ first :: fresh → LeavesPage pager pager' other

theorem run_allocateChunks (value : Bytes) (first : PageId) (n i : Nat) {prev : PageId} {done : Bytes}
    {fresh : List PageId}
    (hids : pager.allocator.handOut n = (fresh, allocator)) (hnodup : (prev :: fresh).Nodup)
    (haddr : ∀ id ∈ prev :: fresh, FileStorage.Addressable id) (hzero : ∀ id ∈ fresh, id ≠ 0)
    (hroom : pager.cache.HasRoom env fresh) (hdone : done.length ≤ overflowDataSize)
    (hprev : Holds env pager prev (OverflowPage.withData done 0)) :
    ∃ pager' pages, (allocateChunks env value n i (some first) (some prev)).run pager =
        .ok (some first) pager' ∧ pager'.allocator = allocator ∧
      Built env pager pager' prev fresh
        (done ++ window value (i * overflowDataSize) (n * overflowDataSize)) pages := by
  induction n generalizing i prev done pager fresh with
  | zero =>
    cases hids
    refine ⟨pager, [(prev, OverflowPage.withData done 0)], rfl, rfl, .last rfl, rfl, ?_, ?_, ?_⟩
    · rw [Nat.zero_mul, window, List.take_zero, List.append_nil]
      exact List.append_nil _
    · intro x hx
      rw [List.mem_singleton.mp hx]
      exact hprev
    · exact fun _ _ => ⟨rfl, fun _ hread => hread⟩
  | succ n ih =>
    let chunk := window value (i * overflowDataSize) overflowDataSize
    have hchunk : chunk.length ≤ overflowDataSize := List.length_take_le ..
    rcases hid : pager.allocator.allocatePage with ⟨id, next⟩
    rcases hrest : next.handOut n with ⟨rest, final⟩
    have hsplit : pager.allocator.handOut (n + 1) = (id :: rest, final) := by
      simp only [PageAllocator.handOut, hid, hrest]
    rw [hsplit] at hids
    cases hids
    have hparts := List.nodup_cons.mp hnodup
    have hnot := (List.nodup_cons.mp hparts.2).1
    have hne : prev ≠ id := fun heq => hparts.1 (heq ▸ List.mem_cons_self ..)
    rcases run_newPage hid (haddr id (List.mem_cons_of_mem _ (List.mem_cons_self ..))) hnot hroom hchunk
      with ⟨pager₁, pager₂, halloc, hwrite, hallocator, hholds, hroom₂, hleaves₂⟩
    -- the link from the page in front
    have hprev₂ := hprev.keep (hleaves₂ prev hne)
    have hheld : (pager₂.cache.get prev).isSome := by
      rw [hprev₂.cached]
      rfl
    rcases @run_writeOverflowPage_of_admits env _ _ _ (@validate_withData done id hdone)
      (haddr prev (List.mem_cons_self ..)) (Or.inl hheld) with ⟨pager₃, hrelink, hwrote⟩
    have hholds₃ := hholds.keep (hwrote.leaves hne.symm)
    have hids₃ : pager₃.allocator.handOut n = (rest, allocator) := by
      rw [hwrote.allocator, hallocator, hrest]
    rcases ih (i + 1) hids₃ hparts.2 (fun k hk => haddr k (List.mem_cons_of_mem _ hk))
      (fun k hk => hzero k (List.mem_cons_of_mem _ hk)) (hroom₂.replace hheld hwrote.put) hchunk hholds₃
      with ⟨pager', pages, hloop, hfinal, hbuilt⟩
    refine ⟨pager', (prev, OverflowPage.withData done id) :: pages, ?_, hfinal, ?_, ?_, ?_, ?_, ?_⟩
    · unfold allocateChunks
      rw [run_bind_of_ok halloc]
      show run (writeOverflowPage env id (OverflowPage.withData chunk 0) >>= _) pager₁ = _
      rw [run_bind_of_ok hwrite]
      show run (readOverflowPage env prev >>= _) pager₂ = _
      rw [run_bind_of_ok (run_readOverflowPage_of_holds hprev₂)]
      show run (writeOverflowPage env prev (OverflowPage.withData done id) >>= _) pager₂ = _
      rw [run_bind_of_ok hrelink]
      exact hloop
    · exact .next (hzero id (List.mem_cons_self ..)) hbuilt.linked
    · show prev :: ids pages = _
      rw [hbuilt.path]
    · show done ++ contents pages = _
      rw [hbuilt.contents, Nat.succ_mul n, Nat.add_comm (n * _), window_split, Nat.succ_mul i]
    · intro x hx
      rcases List.mem_cons.mp hx with rfl | hx
      · exact hwrote.holds.keep (hbuilt.leaves prev hparts.1)
      · exact hbuilt.holds x hx
    · intro other hother
      have hprevne : other ≠ prev := fun heq => hother (heq ▸ List.mem_cons_self ..)
      have hrest : other ∉ id :: rest := fun hmem => hother (List.mem_cons_of_mem _ hmem)
      have hidne : other ≠ id := fun heq => hrest (heq ▸ List.mem_cons_self ..)
      exact ((hleaves₂ other hidne).trans (hwrote.leaves hprevne)).trans (hbuilt.leaves other hrest)

/-- What the chain needs of the pages it is going to take; a page behind the first is not page 0, which stands
for no page. -/
structure Takes (env : Env) (pager : Pager) (fresh : List PageId) : Prop where
  distinct : fresh.Nodup
  addressable : ∀ id ∈ fresh, FileStorage.Addressable id
  behind : ∀ id ∈ fresh.tail, id ≠ 0
  room : pager.cache.HasRoom env fresh

def chainPages (pager : Pager) (value : Bytes) : List PageId :=
  (pager.allocator.handOut (OverflowPage.pagesNeeded value.length)).1

variable {value : Bytes}

theorem run_allocateOverflowChain_of_takes (hne : value ≠ [])
    (htakes : Takes env pager (pager.chainPages value)) :
    ∃ first fresh pager' pages, (allocateOverflowChain env value).run pager = .ok first pager' ∧
      pager.allocator.handOut (OverflowPage.pagesNeeded value.length) = (first :: fresh, pager'.allocator) ∧
      Built env pager pager' first fresh value pages := by
  rcases OverflowPage.exists_chunks hne with ⟨n, hn, hwhole⟩
  rcases hid : pager.allocator.allocatePage with ⟨first, next⟩
  rcases hrest : next.handOut n with ⟨fresh, final⟩
  have hsplit : pager.allocator.handOut (n + 1) = (first :: fresh, final) := by
    simp only [PageAllocator.handOut, hid, hrest]
  rw [chainPages, hn, hsplit] at htakes
  have hparts := List.nodup_cons.mp htakes.distinct
  have hchunk : (window value (0 * overflowDataSize) overflowDataSize).length ≤ overflowDataSize :=
    List.length_take_le ..
  rcases run_newPage hid (htakes.addressable first (List.mem_cons_self ..)) hparts.1 htakes.room hchunk
    with ⟨pager₁, pager₂, halloc, hwrite, hallocator, hholds, hroom, hleaves⟩
  rcases run_allocateChunks value first n 1 (by rw [hallocator]; exact hrest) htakes.distinct htakes.addressable
    htakes.behind hroom hchunk hholds with ⟨pager', pages, hloop, hfinal, hbuilt⟩
  refine ⟨first, fresh, pager', pages, ?_, ?_, ?_⟩
  · have hall : (allocateChunks env value (n + 1) 0 none none).run pager = .ok (some first) pager' := by
      unfold allocateChunks
      rw [run_bind_of_ok halloc]
      show run (writeOverflowPage env first _ >>= _) pager₁ = _
      rw [run_bind_of_ok hwrite]
      exact hloop
    unfold allocateOverflowChain
    rw [if_neg (by simpa using hne), hn, run_bind_of_ok hall]
    exact run_pure ..
  · rw [hn, hsplit, hfinal]
  · refine { hbuilt with contents := ?_, leaves := ?_ }
    · rw [hbuilt.contents, hwhole]
    · intro other hother
      have hfirst : other ≠ first := fun heq => hother (heq ▸ List.mem_cons_self ..)
      exact (hleaves other hfirst).trans (hbuilt.leaves other hother)

theorem run_freeChain_of_linked (h : Linked pageId pages)
    (hholds : ∀ x ∈ pages, Holds env pager x.1 x.2) (hdata : ∀ id ∈ ids pages, id.isMetaPage = false)
    (hnodup : (ids pages).Nodup) (hvisited : ∀ id ∈ ids pages, id ∉ visited)
    (hlength : visited.length + pages.length ≤ 2000) (hfuel : pages.length ≤ fuel) :
    ∃ pager', (freeChain env fuel visited pageId).run pager = .ok () pager' ∧
      pager'.allocator.freePages.Perm (ids pages ++ pager.allocator.freePages) := by
  induction h generalizing pager fuel visited with
  | @last pageId page final =>
    cases fuel with
    | zero => cases hfuel
    | succ fuel =>
      have hfresh : pageId ∉ visited := hvisited pageId (List.mem_cons_self ..)
      have hshort : ¬ visited.length + 1 > 2000 := Nat.not_lt.mpr hlength
      have hread := run_readOverflowPage_of_holds (hholds _ (List.mem_cons_self ..))
      have hfree := @run_freePage pager pageId (hdata pageId (List.mem_cons_self ..))
      refine ⟨pager.freed pageId, ?_, perm_freed pager pageId⟩
      unfold freeChain
      rw [if_neg hfresh, if_neg hshort, run_bind_of_ok hread, run_bind_of_ok hfree]
      simp only [final, if_true, run_pure]
  | @next pageId page rest more tail ih =>
    cases fuel with
    | zero => cases hfuel
    | succ fuel =>
      have hfresh : pageId ∉ visited := hvisited pageId (List.mem_cons_self ..)
      have hcons : visited.length + (rest.length + 1) ≤ 2000 := hlength
      have hshort : ¬ visited.length + 1 > 2000 := by omega
      have hread := run_readOverflowPage_of_holds (hholds _ (List.mem_cons_self ..))
      have hparts := List.nodup_cons.mp (show (pageId :: ids rest).Nodup from hnodup)
      have hfree := @run_freePage pager pageId (hdata pageId (List.mem_cons_self ..))
      have hrest : ∀ id ∈ ids rest, id ∉ pageId :: visited := by
        intro id hid hmem
        rcases List.mem_cons.mp hmem with rfl | hmem
        · exact hparts.1 hid
        · exact hvisited id (List.mem_cons_of_mem _ hid) hmem
      -- the other pages of the chain stay where they are
      have hholds' : ∀ x ∈ rest, Holds env (pager.freed pageId) x.1 x.2 := by
        intro x hx
        have hne : x.1 ≠ pageId := fun heq => hparts.1 (heq ▸ List.mem_map_of_mem hx)
        exact (hholds x (List.mem_cons_of_mem _ hx)).keep
          ⟨PageCache.get_remove_ne _ hne, fun _ hstored => hstored⟩
      rcases ih hholds' (fun id hid => hdata id (List.mem_cons_of_mem _ hid)) hparts.2 hrest
        (by rw [List.length_cons]; omega) (Nat.le_of_succ_le_succ hfuel) with ⟨pager', htail, hperm⟩
      refine ⟨pager', ?_, ?_⟩
      · unfold freeChain
        rw [if_neg hfresh, if_neg hshort, run_bind_of_ok hread, run_bind_of_ok hfree]
        simp only [more, if_false]
        exact htail
      · apply hperm.trans
        apply ((perm_freed pager pageId).append_left (ids rest)).trans
        exact List.perm_middle

theorem freed_of_run
    (h : (freeChain env fuel visited pageId).run pager = .ok () pager') :
    ∃ freed : List PageId, (∀ id ∈ freed, id.isMetaPage = false) ∧
      pager'.allocator.freePages.Perm (freed ++ pager.allocator.freePages) := by
  induction fuel generalizing visited pageId pager with
  | zero => cases h
  | succ fuel ih =>
    unfold freeChain at h
    by_cases hcycle : pageId ∈ visited
    · rw [if_pos hcycle] at h
      cases h
    · rw [if_neg hcycle] at h
      by_cases hlong : visited.length + 1 > 2000
      · rw [if_pos hlong] at h
        cases h
      · rw [if_neg hlong] at h
        rcases run_bind_eq_ok_iff.mp h with ⟨page, pager₁, hread, h₁⟩
        rcases run_bind_eq_ok_iff.mp h₁ with ⟨_, pager₂, hfree, h₂⟩
        have hsame : pager₁.allocator = pager.allocator :=
          (preserves_readOverflowPage (I := fun p => p.allocator = pager.allocator)
            fun _ _ _ hp _ => hp).of_run_ok rfl hread
        rcases freePage_eq_ok hfree with ⟨hdata, rfl⟩
        have hperm₂ := perm_freed pager₁ pageId
        rw [hsame] at hperm₂
        by_cases hlast : page.nextPage = 0
        · rw [if_pos hlast] at h₂
          cases h₂
          refine ⟨[pageId], ?_, hperm₂⟩
          intro id hid
          rw [List.mem_singleton.mp hid]
          exact hdata
        · rw [if_neg hlast] at h₂
          rcases ih h₂ with ⟨freed, hmeta, hperm⟩
          refine ⟨pageId :: freed, ?_, ?_⟩
          · intro id hid
            rcases List.mem_cons.mp hid with rfl | hid
            · exact hdata
            · exact hmeta id hid
          · apply hperm.trans
            apply (hperm₂.append_left freed).trans
            exact List.perm_middle

/-- The value comes back, from a chain of as many different pages as it needs, all of them handed out by the
call; every other page is as it was, and freeing the chain puts exactly its pages on the free list. -/
structure RoundTrip (env : Env) (pager : Pager) (value : Bytes) (first : PageId) (pager₁ : Pager)
    (pages : List (PageId × OverflowPage)) : Prop where
  allocates : (allocateOverflowChain env value).run pager = .ok first pager₁
  reads : ∃ pager₂, (readOverflowChain env first).run pager₁ = .ok value pager₂ ∧ Walk env pager₁ first pages pager₂
  count : pages.length = OverflowPage.pagesNeeded value.length
  distinct : (ids pages).Nodup
  fresh : pager.allocator.handOut pages.length = (ids pages, pager₁.allocator)
  stored : ∀ x ∈ pages, pager₁.storage.readPage x.1 = .ok (overflowBytes env.crc x.1 x.2)
  others : ∀ pageId, pageId ∉ ids pages → LeavesPage pager pager₁ pageId
  frees : ∃ pager₃, (freeOverflowChain env first).run pager₁ = .ok () pager₃ ∧
    pager₃.allocator.freePages.Perm (ids pages ++ pager₁.allocator.freePages)

def RoundTrips (env : Env) (pager : Pager) (value : Bytes) : Prop :=
  ∃ first pager₁ pages, RoundTrip env pager value first pager₁ pages

/-- What the chain and its way back to the free list need of the pages it is going to take. -/
structure Ready (env : Env) (pager : Pager) (fresh : List PageId) : Prop where
  distinct : fresh.Nodup
  addressable : ∀ id ∈ fresh, FileStorage.Addressable id
  data : ∀ id ∈ fresh, id.isMetaPage = false
  room : pager.cache.HasRoom env fresh

theorem Ready.takes {fresh : List PageId} (h : Ready env pager fresh) : Takes env pager fresh := by
  refine ⟨h.distinct, h.addressable, ?_, h.room⟩
  rintro id hid rfl
  cases h.data 0 (List.mem_of_mem_tail hid)

theorem pagesNeeded_le (h : value.length ≤ 2000 * overflowDataSize) :
    OverflowPage.pagesNeeded value.length ≤ 2000 := by
  unfold OverflowPage.pagesNeeded
  simp only [overflowDataSize] at h ⊢
  split
  · exact Nat.zero_le _
  · omega

theorem reads_of_takes (hne : value ≠ []) (hlong : value.length ≤ 2000 * overflowDataSize)
    (htakes : Takes env pager (pager.chainPages value)) :
    ∃ first fresh pager₁ pages, (allocateOverflowChain env value).run pager = .ok first pager₁ ∧
      pager.allocator.handOut (OverflowPage.pagesNeeded value.length) = (first :: fresh, pager₁.allocator) ∧
      Built env pager pager₁ first fresh value pages ∧ pager.chainPages value = ids pages ∧
      pages.length = OverflowPage.pagesNeeded value.length ∧ pages.length ≤ 2000 ∧
      Walk env pager₁ first pages pager₁ ∧ (readOverflowChain env first).run pager₁ = .ok value pager₁ := by
  rcases run_allocateOverflowChain_of_takes hne htakes with ⟨first, fresh, pager₁, pages, halloc, hids, hbuilt⟩
  have hpath : pager.chainPages value = ids pages := by
    rw [hbuilt.path, chainPages, hids]
  have hcount : pages.length = OverflowPage.pagesNeeded value.length := by
    have hlen := PageAllocator.length_handOut (OverflowPage.pagesNeeded value.length) pager.allocator
    rw [hids, ← hbuilt.path] at hlen
    exact (List.length_map _).symm.trans hlen
  have hshort : pages.length ≤ 2000 := hcount.trans_le (pagesNeeded_le hlong)
  have hwalk := hbuilt.linked.walk hbuilt.holds
  have hread := hwalk.run_readChain [] (hpath ▸ htakes.distinct) (fun _ _ => List.not_mem_nil)
    (by rw [List.length_nil]; omega) (show pages.length ≤ 2001 by omega)
  rw [hbuilt.contents] at hread
  exact ⟨first, fresh, pager₁, pages, halloc, hids, hbuilt, hpath, hcount, hshort, hwalk, hread⟩

theorem roundTrips_of_ready (hne : value ≠ []) (hlong : value.length ≤ 2000 * overflowDataSize)
    (hready : Ready env pager (pager.chainPages value)) : RoundTrips env pager value := by
  rcases reads_of_takes hne hlong hready.takes
    with ⟨first, fresh, pager₁, pages, halloc, hids, hbuilt, hpath, hcount, hshort, hwalk, hread⟩
  rw [hpath] at hready
  rcases run_freeChain_of_linked hbuilt.linked hbuilt.holds hready.data hready.distinct
    (fun _ _ => List.not_mem_nil) (by rw [List.length_nil]; omega) (show pages.length ≤ 2001 by omega)
    with ⟨pager₃, hfree, hperm⟩
  refine ⟨first, pager₁, pages, halloc, ⟨pager₁, hread, hwalk⟩, hcount, hready.distinct, ?_, ?_, ?_, pager₃, hfree,
    hperm⟩
  · rw [hcount, hids, hbuilt.path]
  · exact fun x hx => (hbuilt.holds x hx).stored
  · intro pageId hout
    rw [hbuilt.path] at hout
    exact hbuilt.leaves pageId hout

theorem ready_of_roundTrips (h : RoundTrips env pager value) :
    Ready env pager (pager.chainPages value) := by
  rcases h with ⟨first, pager₁, pages, h⟩
  rcases h.reads with ⟨pager₂, -, hwalk⟩
  have hpath : pager.chainPages value = ids pages := by
    rw [chainPages, ← h.count, h.fresh]
  rw [hpath]
  refine ⟨h.distinct, ?_, ?_, ?_⟩
  · intro id hid
    rcases List.mem_map.mp hid with ⟨x, hx, rfl⟩
    exact (FileStorage.readPage_eq_ok_iff.mp (h.stored x hx)).1
  · rcases h.frees with ⟨pager₃, hfree, hperm⟩
    rcases freed_of_run hfree with ⟨freed, hdata, hfreed⟩
    have hsame : freed.Perm (ids pages) :=
      (List.perm_append_right_iff _).mp (hfreed.symm.trans hperm)
    exact fun id hid => hdata id (hsame.mem_iff.mpr hid)
  · have halloc := (grew_allocateOverflowChain env value).of_run_ok (PageCache.Grew.refl env pager.cache) h.allocates
    exact (hwalk.grew halloc).hasRoom h.distinct hwalk.get_ne_none

/-- A chain comes back whole exactly when the allocator hands out different data pages that the file and the
cache have room for. -/
theorem overflow_chain_round_trip_iff {value : Bytes} (hne : value ≠ [])
    (hlong : value.length ≤ 2000 * overflowDataSize) :
    RoundTrips env pager value ↔ Ready env pager (pager.chainPages value) :=
  ⟨ready_of_roundTrips, roundTrips_of_ready hne hlong⟩

/-- Two pages, allocated by the pager of a new file. -/
theorem overflow_chain_round_trip_two_pages :
    RoundTrips ⟨crc32cAppend, fun _ => 0⟩ (initial crc32cAppend []) (List.replicate 20000 7) := by
  have hlength : (List.replicate 20000 (7 : UInt8)).length = 20000 := List.length_replicate
  apply (overflow_chain_round_trip_iff (List.ne_nil_of_length_pos (by rw [hlength]; decide))
    (by rw [hlength]; decide)).mpr
  have hpages : chainPages (initial crc32cAppend []) (List.replicate 20000 7) = [3, 4] := by
    unfold chainPages
    rw [hlength]
    rfl
  rw [hpages]
  refine ⟨by decide, fun id hid => ?_, fun id hid => ?_, PageCache.hasRoom_new (by decide)⟩
  -- one id after the other: the statement as a whole would be decided for every `UInt64`
  all_goals rcases List.mem_pair.mp hid with rfl | rfl <;> decide

/-- A pager whose cache holds `n` pages of zeros from page 4 on, and no other. -/
def crowded (crc : Crc) (n : Nat) : Pager :=
  { initial crc (List.replicate ((n + 4) * Northstar.pageSize) 0) with
    cache := ⟨(List.range n).map fun i => (UInt64.ofNat (i + 4), List.replicate Northstar.pageSize 0)⟩ }

theorem stored_crowded (crc : Crc) (hn : n ≤ 2 ^ 40) :
    ∀ e ∈ (crowded crc n).cache.entries, (crowded crc n).storage.readPage e.1 = .ok e.2 := by
  intro e he
  rcases List.mem_map.mp he with ⟨i, hi, rfl⟩
  have hi := List.mem_range.mp hi
  have hid : (UInt64.ofNat (i + 4)).toNat = i + 4 := UInt64.toNat_ofNat_of_lt' (by show i + 4 < 2 ^ 64; omega)
  apply FileStorage.readPage_eq_ok_iff.mpr
  show (UInt64.ofNat (i + 4)).toNat * _ < 2 ^ 63 ∧ (UInt64.ofNat (i + 4)).toNat * Northstar.pageSize + _ ≤
    (List.replicate ((n + 4) * Northstar.pageSize) (0 : UInt8)).length ∧ List.replicate Northstar.pageSize 0 =
      window (List.replicate ((n + 4) * Northstar.pageSize) 0) ((UInt64.ofNat (i + 4)).toNat * Northstar.pageSize)
        Northstar.pageSize
  rw [hid, List.length_replicate]
  refine ⟨?_, ?_, ?_⟩
  · simp only [Northstar.pageSize]
    omega
  · simp only [Northstar.pageSize]
    omega
  · rw [window, List.drop_replicate, List.take_replicate]
    congr 1
    simp only [Northstar.pageSize]
    omega

theorem get_crowded (crc : Crc) (hn : n ≤ 2 ^ 40) : (crowded crc n).cache.get 3 = none := by
  apply PageCache.get_eq_none_iff.mpr
  intro hmem
  rcases List.mem_map.mp hmem with ⟨e, he, hid⟩
  rcases List.mem_map.mp he with ⟨i, hi, rfl⟩
  have hi := List.mem_range.mp hi
  have hid : (UInt64.ofNat (i + 4)).toNat = 3 := congrArg UInt64.toNat hid
  rw [UInt64.toNat_ofNat_of_lt' (by show i + 4 < 2 ^ 64; omega)] at hid
  omega

theorem shardEntries_crowded (crc : Crc) (n : Nat) :
    (crowded crc n).cache.shardEntries ⟨crc, fun _ => 0⟩ 0 = n := by
  unfold PageCache.shardEntries crowded
  rw [List.countP_eq_length.mpr (fun _ _ => by simp), List.length_map, List.length_range]

theorem chainPages_crowded (crc : Crc) (n : Nat) : chainPages (crowded crc n) [7] = [3] := rfl

theorem not_roundTrips_crowded (crc : Crc) (hn : n ≤ 2 ^ 40) (hfull : PageCache.maxEntries ≤ n) :
    ¬ RoundTrips ⟨crc, fun _ => 0⟩ (crowded crc n) [7] := by
  intro h
  have hroom := (ready_of_roundTrips h).room
  rw [chainPages_crowded] at hroom
  rcases hroom.admits with hsome | hle
  · rw [get_crowded crc hn] at hsome
    cases hsome
  · rw [shardEntries_crowded crc] at hle
    exact Nat.not_succ_le_self _ (hle.trans hfull)

/-- A full shard takes the page neither when it is written, which is not an error, nor when it is read back,
which is one. -/
theorem full_cache_loses_chain : ∃ pager : Pager,
    (∀ e ∈ pager.cache.entries, pager.storage.readPage e.1 = .ok e.2) ∧ pager.allocator = PageAllocator.new ∧
      ¬ RoundTrips ⟨crc32cAppend, fun _ => 0⟩ pager [7] := by
  exact ⟨crowded crc32cAppend PageCache.maxEntries, stored_crowded _ (by decide), rfl,
    not_roundTrips_crowded _ (by decide) (Nat.le_refl _)⟩

end Pager

end Northstar
