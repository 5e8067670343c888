import Northstar.Db.Calls
import Northstar.Pager.Allocator
import Northstar.Pager.Crash

/-!
# Open — the table a database starts with

A new file has three pages, the two copies of the meta data and an empty leaf as the root.  A file
that is opened again has all its pages, but an allocator that starts over behind page 2.
-/

namespace Northstar

open Btree Txn EStateM

theorem room_three (env : Env) : Room env 3 where
  addressable := by decide
  shards := by
    intro shard
    calc pagesInShard env 3 shard ≤ (List.range 3).length := List.countP_le_length
      _ ≤ PageCache.maxEntries := by decide

/-- What a new or reopened pager shows: pages up to 2, and 2 is a leaf. -/
structure Restarted (env : Env) (pager : Pager) : Prop where
  shows : Shows env pager pager.table pager.currentMeta
  next : pager.table.next = 3
  sound : Sound pager.table
  leaf : IsLeafAt pager.table PageId.firstData
  consistent : pager.Consistent env.crc pager.committedTxnId pager.rootPageId

variable {env : Env} {pager : Pager} {db : Db} {pageId : PageId}

theorem Restarted.owns (h : Restarted env pager) :
    pager.table.Owns pageId ↔ pageId = PageId.firstData := by
  unfold Disk.Owns
  rw [h.next]
  constructor
  · intro howns
    apply UInt64.toNat_inj.mp
    exact Nat.le_antisymm (Nat.lt_succ_iff.mp howns.2) howns.1
  · rintro rfl
    decide

theorem Restarted.spine (h : Restarted env pager) : Spine pager.table PageId.firstData [] :=
  .base (h.owns.mpr rfl) h.leaf

variable {storage : FileStorage}

theorem writePage_at_end {storage : FileStorage} {pageId : PageId} {bytes : Bytes}
    (hlen : bytes.length = pageSize) (hend : storage.data.length = pageId.toNat * pageSize)
    (haddr : FileStorage.Addressable pageId) :
    ∃ storage', storage.writePage pageId bytes = .ok storage' ∧
      storage'.data.length = (pageId.toNat + 1) * pageSize := by
  rcases FileStorage.exists_writePage storage pageId hlen haddr with ⟨storage', hwrite⟩
  refine ⟨storage', hwrite, ?_⟩
  rcases FileStorage.writePage_eq_ok_iff.mp hwrite with ⟨-, -, rfl⟩
  rw [File.length_writeAll, hlen]
  show max storage.data.length (pageId.toNat * pageSize + pageSize) = _
  rw [hend, Nat.succ_mul]
  exact Nat.max_eq_right (Nat.le_add_right _ _)

/-- The pages `create_file` writes. -/
structure Created (env : Env) (initial : Pager) (storage : FileStorage) (bytes : Bytes) : Prop where
  length : storage.data.length = 3 * pageSize
  page : storage.readPage PageId.firstData = .ok bytes
  node : Node.fromBytes bytes =
    .ok (.leaf (Node.stampLeaf env.crc (LeafNode.new PageId.firstData)))
  copyA : ∃ copy, Pager.readMetaPage env.crc storage PageId.metaA = some copy ∧
    copy.payload = initial.currentMeta.payload
  copyB : ∃ copy, Pager.readMetaPage env.crc storage PageId.metaB = some copy ∧
    copy.payload = initial.currentMeta.payload

theorem run_create {env : Env} {initial : Pager} (hfile : initial.storage.data = [])
    (hcache : initial.cache = PageCache.new) (hform : initial.currentMeta.WellFormed) :
    ∃ storage bytes, Created env initial storage bytes ∧
      (do Pager.writeMetaPages env.crc
          Pager.writeBtreeNode env PageId.firstData (.leaf (LeafNode.new PageId.firstData)) :
        PagerM Unit).run initial =
        .ok () { initial with storage, cache := ⟨[(PageId.firstData, bytes)]⟩ } := by
  have hmetaLen : (initial.currentMeta.toPage env.crc).toBytes.length = pageSize :=
    Page.length_toBytes _
  have hleafOk : LeafOk PageId.firstData (LeafNode.new PageId.firstData) := leafOk_new _
  rcases Node.fromBytes_toBytes_leaf hleafOk.count hleafOk.encodable hleafOk.used_le env.crc
    hleafOk.header with ⟨bytes, hbytes, hlen, hread⟩
  -- the three writes, one behind the other
  have hstart : initial.storage.data.length = PageId.metaA.toNat * pageSize := by
    rw [hfile]
    rfl
  rcases writePage_at_end hmetaLen hstart (by decide) with ⟨storageA, hwriteA, hendA⟩
  rcases @writePage_at_end storageA PageId.metaB _ hmetaLen hendA (by decide)
    with ⟨storageB, hwriteB, hendB⟩
  rcases @writePage_at_end storageB PageId.firstData bytes hlen hendB (by decide)
    with ⟨storage, hwrite, hend⟩
  refine ⟨storage, bytes, ⟨hend, FileStorage.readPage_of_writePage hwrite, hread, ?_, ?_⟩, ?_⟩
  · rcases Pager.readMetaPage_of_writePage hform hwriteA with ⟨copy, hcopy, hpayload⟩
    refine ⟨copy, ?_, hpayload⟩
    exact Pager.readMetaPage_of_writePage_ne (by decide) hwrite
      (Pager.readMetaPage_of_writePage_ne (by decide) hwriteB hcopy)
  · rcases Pager.readMetaPage_of_writePage hform hwriteB with ⟨copy, hcopy, hpayload⟩
    exact ⟨copy, Pager.readMetaPage_of_writePage_ne (by decide) hwrite hcopy, hpayload⟩
  · have hmetas : (Pager.writeMetaPages env.crc).run initial =
        .ok () { initial with storage := storageB } := by
      unfold Pager.writeMetaPages
      rw [run_bind_of_ok (run_get _),
        run_bind_of_ok (Shows.run_writeStorage hwriteA),
        run_bind_of_ok (run_get _)]
      exact @Shows.run_writeStorage { initial with storage := storageA } _ _ _ hwriteB
    have hput : PageCache.put env (initial.cache.remove PageId.firstData) PageId.firstData bytes =
        .ok ⟨[(PageId.firstData, bytes)]⟩ := by
      unfold PageCache.put
      rw [hcache, if_neg (fun hne => hne hlen)]
      rfl
    rw [run_bind_of_ok hmetas]
    unfold Pager.writeBtreeNode Pager.writePageRaw
    rw [hbytes, run_bind_of_ok (run_lift_ok bytes _), if_neg (fun hne => hne hlen),
      run_bind_of_ok
        (@Shows.run_writeStorage { initial with storage := storageB } _ _ _ hwrite),
      run_bind_of_ok (run_modify _ _)]
    unfold Pager.cachePut
    rw [run_bind_of_ok (run_get _)]
    exact run_bind_of_ok (run_liftErr_of_ok hput _)

theorem Created.restarted {initial : Pager} {bytes : Bytes}
    (h : Created env initial storage bytes) (hform : initial.currentMeta.WellFormed)
    (hsize : initial.currentMeta.payload.pageSize.toNat = pageSize)
    (halloc : initial.allocator = PageAllocator.new)
    (hpager : pager = { initial with storage, cache := ⟨[(PageId.firstData, bytes)]⟩ }) :
    Restarted env pager ∧ nodeAt pager.table PageId.firstData =
      some (.leaf (Node.stampLeaf env.crc (LeafNode.new PageId.firstData))) := by
  have hnext : pager.table.next = 3 := by
    rw [hpager, Pager.table, halloc]
    rfl
  have hpage : pager.table.pages PageId.firstData = some bytes := by
    rw [Pager.table_pages, hpager, h.page, Except.toOption_ok]
  have hnode : nodeAt pager.table PageId.firstData =
      some (.leaf (Node.stampLeaf env.crc (LeafNode.new PageId.firstData))) := by
    rw [nodeAt, hpage, Option.bind_some, h.node, Except.toOption_ok]
  have howns : ∀ pageId, pager.table.Owns pageId → pageId = PageId.firstData := by
    intro pageId howns
    have hlt := howns.2
    rw [hnext] at hlt
    apply UInt64.toNat_inj.mp
    exact Nat.le_antisymm (Nat.lt_succ_iff.mp hlt) howns.1
  have hfirst : pager.table.Owns PageId.firstData := by
    refine ⟨by decide, ?_⟩
    rw [hnext]
    decide
  have hrecords : ∀ copy : MetaState, copy.payload = initial.currentMeta.payload →
      copy.Records pager.committedTxnId pager.rootPageId := by
    intro copy hcopy
    rw [hpager]
    refine ⟨by rw [hcopy]; rfl, by rw [hcopy]; rfl, by rw [hcopy]; exact hsize⟩
  refine ⟨⟨?_, hnext, ?_, ⟨_, hnode⟩, ?_⟩, hnode⟩
  · constructor
    · rw [hpager, halloc]
      rfl
    · rfl
    · rw [hnext]
      decide
    · rw [hnext, hpager]
      exact Nat.le_of_eq h.length.symm
    · rw [hnext]
      exact room_three env
    · exact fun _ => rfl
    · intro e he
      rw [hpager] at he
      rw [List.mem_singleton.mp he]
      exact ⟨hfirst, hpage⟩
    · rw [hpager]
      exact List.nodup_singleton _
    · rfl
  · intro pageId node hown hnode'
    obtain rfl := howns pageId hown
    rw [hnode] at hnode'
    cases hnode'
    exact .leaf ((leafOk_new _).stamp env.crc) (Or.inl rfl)
  · rcases h.copyA with ⟨a, ha, hpayloadA⟩
    rcases h.copyB with ⟨b, hb, hpayloadB⟩
    refine ⟨?_, ?_, ⟨a, ?_, hrecords a hpayloadA⟩, ⟨b, ?_, hrecords b hpayloadB⟩⟩
    · rw [hpager]
      exact hform
    · rw [hpager]
      exact hsize
    · rw [hpager]
      exact ha
    · rw [hpager]
      exact hb

theorem createFile_restarted (env : Env) :
    ∃ pager, Pager.createFile env [] = .ok pager ∧ Restarted env pager ∧
      nodeAt pager.table PageId.firstData =
        some (.leaf (Node.stampLeaf env.crc (LeafNode.new PageId.firstData))) ∧
      pager.committedTxnId = 0 ∧ pager.rootPageId = PageId.firstData := by
  rcases Pager.initial_writable env.crc [] with ⟨hform, hsize⟩
  rcases @run_create env (Pager.initial env.crc []) rfl rfl hform with ⟨storage, bytes, hcreated, hrun⟩
  rcases hcreated.restarted hform hsize rfl rfl with ⟨hrestarted, hnode⟩
  exact ⟨_, Pager.createFile_eq_ok_iff.mpr hrun, hrestarted, hnode, rfl, rfl⟩

/-- `n` pages allocated one after another. -/
def allocatePages (env : Env) : Nat → PagerM (List PageId)
  | 0 => pure []
  | n + 1 => do
    let pageId ← Pager.allocatePage env
    let rest ← allocatePages env n
    pure (pageId :: rest)

variable {pager' : Pager}

theorem run_allocatePage_eq_ok (hfree : pager.allocator.freePages = [])
    (hrun : (Pager.allocatePage env).run pager = .ok pageId pager') :
    pageId = pager.allocator.lastAllocatedPage ∧
      pager.storage.writePage pageId (Disk.freshPage env.crc pageId) = .ok pager'.storage ∧
      pager'.allocator = ⟨[], pager.allocator.lastAllocatedPage + 1⟩ := by
  have hid := PageAllocator.allocatePage_extend hfree
  cases hwrite : pager.storage.writePage pager.allocator.lastAllocatedPage
      (Disk.freshPage env.crc pager.allocator.lastAllocatedPage) with
  | error e =>
    cases (Pager.run_allocatePage_of_error hid hwrite).symm.trans hrun
  | ok storage =>
    cases (Pager.run_allocatePage_of_write hid hwrite).symm.trans hrun
    exact ⟨rfl, hwrite, rfl⟩

/-- The pages from `first` on, in their order. -/
def pagesFrom (first : UInt64) (n : Nat) : List PageId :=
  (List.range n).map fun k => first + UInt64.ofNat k

theorem pagesFrom_succ (first : UInt64) (n : Nat) :
    pagesFrom first (n + 1) = first :: pagesFrom (first + 1) n := by
  unfold pagesFrom
  rw [List.range_succ_eq_map, List.map_cons, List.map_map]
  congr 1
  · simp
  · apply List.map_congr_left
    intro k _
    show first + UInt64.ofNat (k + 1) = first + 1 + UInt64.ofNat k
    rw [UInt64.ofNat_add, UInt64.add_assoc, UInt64.add_comm (UInt64.ofNat k)]
    rfl

theorem run_allocatePages {n : Nat} {ids : List PageId} (hfree : pager.allocator.freePages = [])
    (hrun : (allocatePages env n).run pager = .ok ids pager') :
    ids = pagesFrom pager.allocator.lastAllocatedPage n ∧
      ∀ pageId page, pager.storage.readPage pageId = .ok page →
        pager'.storage.readPage pageId =
          .ok (if pageId ∈ ids then Disk.freshPage env.crc pageId else page) := by
  induction n generalizing pager ids with
  | zero =>
    cases hrun
    refine ⟨rfl, fun pageId page hread => ?_⟩
    rw [if_neg List.not_mem_nil]
    exact hread
  | succ n ih =>
    obtain ⟨pageId, pager₁, hfirst, hrest⟩ := run_bind_eq_ok_iff.mp hrun
    obtain ⟨rest, pager₂, hpages, hdone⟩ := run_bind_eq_ok_iff.mp hrest
    cases hdone
    obtain ⟨rfl, hwrite, hallocator⟩ := run_allocatePage_eq_ok hfree hfirst
    obtain ⟨rfl, hread⟩ := ih (by rw [hallocator]) hpages
    rw [hallocator, pagesFrom_succ]
    refine ⟨rfl, fun pageId page hpage => ?_⟩
    by_cases hself : pageId = pager.allocator.lastAllocatedPage
    · -- the page is overwritten now, and perhaps again
      have hnow := hread pageId _ (by rw [hself]; exact FileStorage.readPage_of_writePage hwrite)
      rw [hnow, hself]
      simp
    · have hlater := hread pageId page (FileStorage.readPage_of_writePage_ne hwrite hself hpage)
      rw [hlater, hallocator]
      simp [hself]

theorem openFile_eq_ok {crc : Crc} (hopen : Pager.openFile crc storage = .ok pager) :
    pager.allocator = .new ∧ pager.storage = storage := by
  unfold Pager.openFile at hopen
  dsimp only at hopen
  split at hopen
  · cases hopen
  · -- a page size other than the built-in one is refused
    split at hopen
    · cases hopen
    · cases hopen
      exact ⟨rfl, rfl⟩

/-- **A reopened file is allocated from page 3 on.**  Whatever a database file holds, the pages that are allocated
once it was opened are 3, 4 and so on.  Those of them that the file has are overwritten, and no longer nodes; the
other pages stay. -/
theorem reopened_pages_are_reused {env : Env} {storage : FileStorage} {pager pager' : Pager}
    (hopen : Pager.openFile env.crc storage = .ok pager) {n : Nat} {ids : List PageId}
    (hrun : (allocatePages env n).run pager = .ok ids pager') :
    ids = (List.range n).map (fun k => 3 + UInt64.ofNat k) ∧
      ∀ pageId page, storage.readPage pageId = .ok page →
        (pageId ∈ ids → nodeAt pager'.table pageId = none) ∧
        (pageId ∉ ids → pager'.storage.readPage pageId = .ok page) := by
  obtain ⟨hallocator, hstorage⟩ := openFile_eq_ok hopen
  obtain ⟨hids, hread⟩ := run_allocatePages (by rw [hallocator]; rfl) hrun
  rw [hallocator] at hids
  rw [hstorage] at hread
  refine ⟨hids, fun pageId page hpage => ⟨fun hmem => ?_, fun hout => ?_⟩⟩
  · have hfresh := hread pageId page hpage
    rw [if_pos hmem] at hfresh
    apply nodeAt_eq_none_of_magic (by rw [Pager.table_pages, hfresh]; rfl)
    show (PageHeader.read (Page.toBytes _)).magic = pageMagic
    rw [Page.toBytes, PageHeader.read_toBytes_append]
    rfl
  · have hsame := hread pageId page hpage
    rwa [if_neg hout] at hsame

theorem exists_allocatePages_one (hallocator : pager.allocator = .new) :
    ∃ pager', (allocatePages env 1).run pager = .ok [3] pager' := by
  obtain ⟨storage, hwrite⟩ :=
    FileStorage.exists_writePage pager.storage 3 (Disk.length_freshPage env.crc 3) (by decide)
  have hid : pager.allocator.allocatePage = (3, ⟨[], 4⟩) := by
    rw [hallocator]
    rfl
  unfold allocatePages
  rw [run_bind_of_ok (Pager.run_allocatePage_of_write hid hwrite)]
  exact ⟨_, rfl⟩

/-- The file of a new database with a second leaf behind the root: the leaf is overwritten. -/
theorem reopened_pages_are_reused_leaf :
    ∃ env storage pager pager', Pager.openFile env.crc storage = .ok pager ∧
      (allocatePages env 1).run pager = .ok [3] pager' ∧ nodeAt pager.table 3 ≠ none ∧
      nodeAt pager'.table 3 = none ∧ ∀ pageId page, storage.readPage pageId = .ok page →
        pageId ∉ [3] → pager'.storage.readPage pageId = .ok page := by
  let env : Env := ⟨crc32cAppend, fun _ => 0⟩
  obtain ⟨created, -, hrestarted, hroot, -, -⟩ := createFile_restarted env
  obtain ⟨page, hpage⟩ : ∃ page, created.storage.readPage PageId.firstData = .ok page := by
    cases hread : created.storage.readPage PageId.firstData with
    | ok page => exact ⟨page, rfl⟩
    | error e =>
      rw [nodeAt, Pager.table_pages, hread] at hroot
      cases hroot
  obtain ⟨storage, hwrite⟩ := created.storage.exists_writePage 3 (FileStorage.length_of_readPage hpage) (by decide)
  obtain ⟨a, ha, hra⟩ := hrestarted.consistent.copyA
  obtain ⟨b, hb, hrb⟩ := hrestarted.consistent.copyB
  obtain ⟨pager, hopen, -, -⟩ := Pager.openFile_of_agreeing (Pager.readMetaPage_of_writePage_ne (by decide) hwrite ha)
    (Pager.readMetaPage_of_writePage_ne (by decide) hwrite hb) hra hrb
  obtain ⟨hallocator, hstorage⟩ := openFile_eq_ok hopen
  obtain ⟨pager', hrun⟩ : ∃ pager', (allocatePages env 1).run pager = .ok [3] pager' :=
    exists_allocatePages_one hallocator
  have hthree : storage.readPage 3 = .ok page := FileStorage.readPage_of_writePage hwrite
  have hnode : nodeAt pager.table 3 = nodeAt created.table PageId.firstData := by
    rw [nodeAt, nodeAt, Pager.table_pages, Pager.table_pages, hstorage, hthree, hpage]
  obtain ⟨-, hreused⟩ := reopened_pages_are_reused hopen hrun
  refine ⟨env, storage, pager, pager', hopen, hrun, ?_, (hreused 3 page hthree).1 (List.mem_singleton_self _),
    fun pageId page hread => (hreused pageId page hread).2⟩
  rw [hnode, hroot]
  exact Option.some_ne_none _

/-- A handle that was just opened: one snapshot, the one the meta pages name. -/
structure Db.Opened (db : Db) (pager : Pager) : Prop where
  same : db.pager = pager
  notClosed : db.isClosed = false
  current : db.currentTxnId = pager.committedTxnId
  registry : db.snapRegistry.concurrency =
    RegistryData.withTxnId pager.rootPageId pager.committedTxnId

theorem Db.Opened.latest (h : db.Opened pager) :
    db.Latest pager.committedTxnId pager.rootPageId := by
  unfold Db.Latest
  rw [h.registry]
  refine ⟨rfl, ?_⟩
  unfold RegistryData.withTxnId RegistryData.getSnapshotRoot
  rw [List.lookup_cons_self]

theorem Db.Opened.ordered (h : db.Opened pager) : db.Ordered := by
  unfold Db.Ordered
  rw [h.registry]
  intro snapshot hmem
  rw [List.mem_singleton.mp hmem]
  exact UInt64.le_refl _

theorem openWithConfig_eq_ok {config : DbConfig} {file walFile : Option Bytes}
    (h : Db.openWithConfig env config file walFile = .ok db) :
    ∃ pager, Db.openPager env file = .ok pager ∧
      Db.openWal env config file walFile = .ok db.wal ∧ db.Opened pager := by
  unfold Db.openWithConfig at h
  rcases Except.bind_eq_ok_iff.mp h with ⟨pager, hpager, hrest⟩
  rcases Except.bind_eq_ok_iff.mp hrest with ⟨wal, hwal, hdb⟩
  cases hopen : Db.openWal env config file walFile with
  | error e =>
    rw [hopen] at hwal
    cases hwal
  | ok wal' =>
    rw [hopen] at hwal
    cases hwal
    cases hdb
    exact ⟨pager, hpager, rfl, rfl, rfl, rfl, rfl⟩

theorem opened_new {config : DbConfig} {walFile : Option Bytes}
    (h : Db.openWithConfig env config none walFile = .ok db) :
    db.Opened db.pager ∧ Restarted env db.pager ∧
      nodeAt db.pager.table PageId.firstData =
        some (.leaf (Node.stampLeaf env.crc (LeafNode.new PageId.firstData))) ∧
      db.pager.committedTxnId = 0 ∧ db.pager.rootPageId = PageId.firstData ∧
      db.wal = if config.enableWal then some Wal.create else none := by
  rcases openWithConfig_eq_ok h with ⟨pager, hpager, hwal, hopened⟩
  rcases createFile_restarted env with ⟨created, hcreate, hrestarted, hnode, htxn, hroot⟩
  have heq : db.pager = created := by
    rw [hopened.same]
    exact Except.ok.inj (hpager.symm.trans hcreate)
  have hself : db.Opened db.pager := by
    rw [hopened.same]
    exact hopened
  rw [heq]
  refine ⟨heq ▸ hself, hrestarted, hnode, htxn, hroot, ?_⟩
  unfold Db.openWal at hwal
  by_cases henable : config.enableWal = true
  · rw [if_pos henable] at hwal ⊢
    exact (Except.ok.inj hwal).symm
  · rw [if_neg henable] at hwal ⊢
    exact (Except.ok.inj hwal).symm

theorem exists_opened_new (env : Env) (config : DbConfig) (walFile : Option Bytes) :
    ∃ db, Db.openWithConfig env config none walFile = .ok db := by
  rcases createFile_restarted env with ⟨pager, hcreate, -⟩
  have hwal : ∃ wal, Db.openWal env config none walFile = .ok wal := by
    unfold Db.openWal
    split
    · exact ⟨_, rfl⟩
    · exact ⟨_, rfl⟩
  rcases hwal with ⟨wal, hwal⟩
  unfold Db.openWithConfig Db.openPager
  rw [hcreate, Except.ok_bind, hwal]
  exact ⟨_, rfl⟩

end Northstar
