import Northstar.Pager.Pager

/-!
# Crash — interrupting a commit between and inside its page writes

A commit writes the same meta state to page 0 and then to page 1.  A crash leaves some of the two
writes done and may leave the next one torn: a page of arbitrary bytes that the page codec rejects.
-/

namespace Northstar

open Bytes EStateM

/-- `Interrupted crc storage writes done image`: the first `done` writes reached `image`, and of the
rest at most the next one did, torn. -/
inductive Interrupted (crc : Crc) : FileStorage → List (PageId × Bytes) → Nat → FileStorage → Prop
  | stop (storage : FileStorage) (writes : List (PageId × Bytes)) :
      Interrupted crc storage writes 0 storage
  | torn {storage image : FileStorage} {pageId : PageId} {buffer garbage : Bytes}
      {rest : List (PageId × Bytes)}
      (rejected : ∀ page, Page.fromBytes crc garbage ≠ .ok page)
      (write : storage.writePage pageId garbage = .ok image) :
      Interrupted crc storage ((pageId, buffer) :: rest) 0 image
  | step {storage next image : FileStorage} {pageId : PageId} {buffer : Bytes}
      {rest : List (PageId × Bytes)} {done : Nat}
      (write : storage.writePage pageId buffer = .ok next)
      (later : Interrupted crc next rest done image) :
      Interrupted crc storage ((pageId, buffer) :: rest) (done + 1) image

/-- A copy that says `(txnId, rootPageId)`, for a database of this page size. -/
def MetaState.Records (m : MetaState) (txnId : UInt64) (rootPageId : PageId) : Prop :=
  m.payload.committedTxnId = txnId ∧ m.payload.rootPageId = rootPageId ∧
    m.payload.pageSize.toNat = pageSize

namespace Pager

/-- The page writes of `write_meta_pages`. -/
def metaWrites (crc : Crc) (m : MetaState) : List (PageId × Bytes) :=
  [(PageId.metaA, (m.toPage crc).toBytes), (PageId.metaB, (m.toPage crc).toBytes)]

/-- The images `commit_transaction(txn_id, root_page_id)` can leave behind. -/
def CommitImage (crc : Crc) (pager : Pager) (txnId : UInt64) (rootPageId : PageId) :
    Nat → FileStorage → Prop :=
  Interrupted crc pager.storage
    (metaWrites crc (updateMeta crc txnId rootPageId pager.currentMeta))

variable {pageId rootPageId : PageId} {crc : Crc} {txnId : UInt64} {storage : FileStorage} {m : MetaState}

variable {pager pager' : Pager} {buffer : Bytes} {storage' : FileStorage}

theorem writeStorage_eq_ok_iff : (writeStorage pageId buffer).run pager = .ok () pager' ↔
      ∃ storage, pager.storage.writePage pageId buffer = .ok storage ∧
        pager' = { pager with storage } := by
  unfold writeStorage
  rw [run_bind_of_ok (run_get pager), run_bind_eq_ok_iff]
  constructor
  · rintro ⟨storage, s, hwrite, hset⟩
    rcases run_liftErr_eq_ok_iff.mp hwrite with ⟨hwrite, -⟩
    rw [run_set, EStateM.Result.ok.injEq] at hset
    exact ⟨storage, hwrite, hset.2.symm⟩
  · rintro ⟨storage, hwrite, rfl⟩
    exact ⟨storage, pager, run_liftErr_of_ok hwrite pager, run_set _ _⟩

theorem commitImage_of_commitTransaction
    (h : (commitTransaction crc txnId rootPageId).run pager = .ok () pager') :
    CommitImage crc pager txnId rootPageId 2 pager'.storage ∧
      pager'.currentMeta = updateMeta crc txnId rootPageId pager.currentMeta := by
  unfold commitTransaction writeMetaPages at h
  rw [run_bind_of_ok (run_modify _ _),
    run_bind_of_ok (run_get _)] at h
  rcases run_bind_eq_ok_iff.mp h with ⟨⟨⟩, mid, hA, hrest⟩
  rcases writeStorage_eq_ok_iff.mp hA with ⟨storageA, hwriteA, rfl⟩
  rw [run_bind_of_ok (run_get _)] at hrest
  rcases writeStorage_eq_ok_iff.mp hrest with ⟨storageB, hwriteB, rfl⟩
  exact ⟨.step hwriteA (.step hwriteB (.stop _ _)), rfl⟩

theorem readMetaPage_of_ok
    {page : Page} (hread : storage.readPage pageId = .ok buffer)
    (hpage : Page.fromBytes crc buffer = .ok page) (hm : MetaState.fromPage page = .ok m) :
    readMetaPage crc storage pageId = some m := by
  simp only [readMetaPage, hread, hpage, hm, Except.toOption_ok, Option.bind_eq_bind,
    Option.bind_some]

theorem readMetaPage_of_writePage (hm : m.WellFormed)
    (h : storage.writePage pageId (m.toPage crc).toBytes = .ok storage') :
    ∃ copy, readMetaPage crc storage' pageId = some copy ∧ copy.payload = m.payload := by
  rcases hm.read_back crc with ⟨page, copy, hpage, hcopy, hpayload, -⟩
  exact ⟨copy, readMetaPage_of_ok (FileStorage.readPage_of_writePage h) hpage hcopy, hpayload⟩

theorem readMetaPage_of_torn
    {garbage : Bytes} (hrejected : ∀ page, Page.fromBytes crc garbage ≠ .ok page)
    (h : storage.writePage pageId garbage = .ok storage') :
    readMetaPage crc storage' pageId = none := by
  have hnone : (Page.fromBytes crc garbage).toOption = none := by
    cases hpage : Page.fromBytes crc garbage with
    | ok page => exact absurd hpage (hrejected page)
    | error e => exact Except.toOption_error e
  have hread : (storage'.readPage pageId).toOption = some garbage := by
    rw [FileStorage.readPage_of_writePage h, Except.toOption_ok]
  simp only [readMetaPage, hread, hnone, Option.bind_eq_bind, Option.bind_some, Option.bind_none]

theorem readMetaPage_of_writePage_ne
    {other : PageId} (hne : other ≠ pageId)
    (h : storage.writePage pageId buffer = .ok storage')
    (hm : readMetaPage crc storage other = some m) :
    readMetaPage crc storage' other = some m := by
  cases hread : storage.readPage other with
  | error e =>
    simp only [readMetaPage, hread, Except.toOption_error, Option.bind_eq_bind,
      Option.bind_none] at hm
    cases hm
  | ok page =>
    rw [← hm, readMetaPage, readMetaPage, hread, FileStorage.readPage_of_writePage_ne h hne hread]

theorem openFile_of_choice (hchoice : chooseBestMeta (readMetaPage crc storage PageId.metaA)
      (readMetaPage crc storage PageId.metaB) = some m)
    (hm : m.Records txnId rootPageId) :
    ∃ pager, openFile crc storage = .ok pager ∧ pager.committedTxnId = txnId ∧
      pager.rootPageId = rootPageId := by
  refine ⟨⟨storage, m.payload.pageSize, m, PageAllocator.new, PageCache.new⟩, ?_, hm.1, hm.2.1⟩
  have hsize : ¬ m.payload.pageSize.toNat ≠ Northstar.pageSize := fun h => h hm.2.2
  simp only [openFile, hchoice, if_neg hsize]

/-- The file holds two copies of `(txnId, rootPageId)`, and the state in memory can be written. -/
structure Consistent (crc : Crc) (pager : Pager) (txnId : UInt64) (rootPageId : PageId) : Prop where
  current : pager.currentMeta.WellFormed
  size : pager.currentMeta.payload.pageSize.toNat = Northstar.pageSize
  copyA : ∃ a, readMetaPage crc pager.storage PageId.metaA = some a ∧ a.Records txnId rootPageId
  copyB : ∃ b, readMetaPage crc pager.storage PageId.metaB = some b ∧ b.Records txnId rootPageId

theorem records_updateMeta {copy : MetaState}
    (hsize : m.payload.pageSize.toNat = Northstar.pageSize)
    (hcopy : copy.payload = (updateMeta crc txnId rootPageId m).payload) :
    copy.Records txnId rootPageId := by
  refine ⟨?_, ?_, ?_⟩
  · rw [hcopy]
    rfl
  · rw [hcopy]
    rfl
  · rw [hcopy]
    exact hsize

theorem wellFormed_updateMeta (crc : Crc) (h : m.WellFormed) (txnId : UInt64)
    (rootPageId : PageId) : (updateMeta crc txnId rootPageId m).WellFormed :=
  (h.updateCommittedTxnId txnId).updateRootPageId rootPageId

theorem consistent_of_commitTransaction (hcurrent : pager.currentMeta.WellFormed)
    (hsize : pager.currentMeta.payload.pageSize.toNat = Northstar.pageSize)
    (h : (commitTransaction crc txnId rootPageId).run pager = .ok () pager') :
    pager'.Consistent crc txnId rootPageId := by
  rcases commitImage_of_commitTransaction h with ⟨himage, hmeta⟩
  have hform := wellFormed_updateMeta crc hcurrent txnId rootPageId
  cases himage with
  | step hwriteA hrest =>
    cases hrest with
    | step hwriteB hstop =>
      cases hstop
      rcases readMetaPage_of_writePage hform hwriteA with ⟨a, ha, hpayloadA⟩
      rcases readMetaPage_of_writePage hform hwriteB with ⟨b, hb, hpayloadB⟩
      refine ⟨hmeta ▸ hform, hmeta ▸ hsize, ⟨a, ?_, records_updateMeta hsize hpayloadA⟩,
        ⟨b, hb, records_updateMeta hsize hpayloadB⟩⟩
      exact readMetaPage_of_writePage_ne (by decide) hwriteB ha

/-- The pager `create_file` starts from can commit, and its first commit is what the file begins
with. -/
theorem initial_writable (crc : Crc) (file : Bytes) : (initial crc file).currentMeta.WellFormed ∧
      (initial crc file).currentMeta.payload.pageSize.toNat = Northstar.pageSize := by
  have hsize : (UInt16.ofNat Northstar.pageSize).toNat = Northstar.pageSize := by decide
  exact ⟨(MetaState.wellFormed_new crc PageId.metaA).updateCommittedTxnId 0, hsize⟩

theorem isTornWrite_of_records (hm : m.Records txnId rootPageId) (htxn : txnId ≤ MetaState.maxReasonableTxn)
    (hroot : rootPageId ≤ MetaState.maxReasonablePage) : m.isTornWrite = false := by
  simp only [MetaState.isTornWrite, hm.1, hm.2.1, Bool.or_eq_false_iff, decide_eq_false_iff_not,
    gt_iff_lt, UInt64.not_lt]
  exact ⟨htxn, hroot⟩

theorem openFile_of_agreeing {a b : MetaState} (ha : readMetaPage crc storage PageId.metaA = some a)
    (hb : readMetaPage crc storage PageId.metaB = some b) (hra : a.Records txnId rootPageId)
    (hrb : b.Records txnId rootPageId) :
    ∃ pager, openFile crc storage = .ok pager ∧ pager.committedTxnId = txnId ∧
      pager.rootPageId = rootPageId := by
  rcases chooseBestMeta_some_some a b with hchoice | hchoice
  · exact openFile_of_choice (by rw [ha, hb]; exact hchoice) hra
  · exact openFile_of_choice (by rw [ha, hb]; exact hchoice) hrb

/-- **Crash atomicity.**  Wherever a commit is interrupted, the file opens, with the old state or
the new one; with the new one as soon as the first copy was written. -/
theorem interrupted_commit_opens {crc : Crc} {pager : Pager} {txnId txnId' : UInt64}
    {rootPageId rootPageId' : PageId} (hstate : pager.Consistent crc txnId rootPageId)
    (hnewer : txnId < txnId') (htxn : txnId' ≤ MetaState.maxReasonableTxn)
    (hroot : rootPageId' ≤ MetaState.maxReasonablePage) {done : Nat} {image : FileStorage}
    (hcrash : CommitImage crc pager txnId' rootPageId' done image) :
    ∃ opened, openFile crc image = .ok opened ∧
      ((opened.committedTxnId = txnId ∧ opened.rootPageId = rootPageId) ∨
        (opened.committedTxnId = txnId' ∧ opened.rootPageId = rootPageId')) ∧
      (1 ≤ done → opened.committedTxnId = txnId' ∧ opened.rootPageId = rootPageId') := by
  rcases hstate.copyA with ⟨a, ha, hra⟩
  rcases hstate.copyB with ⟨b, hb, hrb⟩
  have hform := wellFormed_updateMeta crc hstate.current txnId' rootPageId'
  -- what is left to show once the state the file opens with is known
  have old {storage : FileStorage}
      (h : ∃ opened, openFile crc storage = .ok opened ∧ opened.committedTxnId = txnId ∧
        opened.rootPageId = rootPageId) :
      ∃ opened, openFile crc storage = .ok opened ∧
        ((opened.committedTxnId = txnId ∧ opened.rootPageId = rootPageId) ∨
          (opened.committedTxnId = txnId' ∧ opened.rootPageId = rootPageId')) ∧
        (1 ≤ 0 → opened.committedTxnId = txnId' ∧ opened.rootPageId = rootPageId') := by
    rcases h with ⟨opened, hopen, hsame⟩
    exact ⟨opened, hopen, Or.inl hsame, fun hle => absurd hle (by decide)⟩
  have new {storage : FileStorage} {k : Nat}
      (h : ∃ opened, openFile crc storage = .ok opened ∧ opened.committedTxnId = txnId' ∧
        opened.rootPageId = rootPageId') :
      ∃ opened, openFile crc storage = .ok opened ∧
        ((opened.committedTxnId = txnId ∧ opened.rootPageId = rootPageId) ∨
          (opened.committedTxnId = txnId' ∧ opened.rootPageId = rootPageId')) ∧
        (1 ≤ k → opened.committedTxnId = txnId' ∧ opened.rootPageId = rootPageId') := by
    rcases h with ⟨opened, hopen, hsame⟩
    exact ⟨opened, hopen, Or.inr hsame, fun _ => hsame⟩
  cases hcrash with
  | stop => exact old (openFile_of_agreeing ha hb hra hrb)
  | torn hrejected hwrite =>
    have hA := readMetaPage_of_torn hrejected hwrite
    have hB := readMetaPage_of_writePage_ne (by decide) hwrite hb
    exact old (openFile_of_choice (by rw [hA, hB, chooseBestMeta_none_left]) hrb)
  | step hwriteA hrest =>
    rcases readMetaPage_of_writePage hform hwriteA with ⟨a', ha', hpayloadA⟩
    have hra' : a'.Records txnId' rootPageId' := records_updateMeta hstate.size hpayloadA
    have hb' := readMetaPage_of_writePage_ne (by decide) hwriteA hb
    cases hrest with
    | stop =>
      have hlt : b.payload.committedTxnId < a'.payload.committedTxnId := by
        rw [hrb.1, hra'.1]
        exact hnewer
      have hchoice := chooseBestMeta_newer_first (isTornWrite_of_records hra' htxn hroot) hlt
      exact new (openFile_of_choice (by rw [ha', hb']; exact hchoice) hra')
    | torn hrejected hwriteB =>
      have hA := readMetaPage_of_writePage_ne (by decide) hwriteB ha'
      have hB := readMetaPage_of_torn hrejected hwriteB
      exact new (openFile_of_choice (by rw [hA, hB, chooseBestMeta_none_right]) hra')
    | step hwriteB hstop =>
      rcases readMetaPage_of_writePage hform hwriteB with ⟨b', hb', hpayloadB⟩
      have hA := readMetaPage_of_writePage_ne (by decide) hwriteB ha'
      have hrb' : b'.Records txnId' rootPageId' := records_updateMeta hstate.size hpayloadB
      cases hstop
      exact new (openFile_of_agreeing hA hb' hra' hrb')

theorem exists_commitTransaction (crc : Crc) (pager : Pager) (txnId : UInt64)
    (rootPageId : PageId) :
    ∃ pager', (commitTransaction crc txnId rootPageId).run pager = .ok () pager' := by
  let m := updateMeta crc txnId rootPageId pager.currentMeta
  have hlen : (m.toPage crc).toBytes.length = Northstar.pageSize := Page.length_toBytes _
  rcases FileStorage.exists_writePage pager.storage PageId.metaA hlen (by decide)
    with ⟨storageA, hA⟩
  rcases FileStorage.exists_writePage storageA PageId.metaB hlen (by decide) with ⟨storageB, hB⟩
  refine ⟨{ pager with currentMeta := m, storage := storageB }, ?_⟩
  unfold commitTransaction writeMetaPages
  rw [run_bind_of_ok (run_modify _ _), run_bind_of_ok (run_get _)]
  apply run_bind_eq_ok_iff.mpr
  refine ⟨(), { pager with currentMeta := m, storage := storageA },
    writeStorage_eq_ok_iff.mpr ⟨storageA, hA, rfl⟩, ?_⟩
  rw [run_bind_of_ok (run_get _)]
  exact writeStorage_eq_ok_iff.mpr ⟨storageB, hB, rfl⟩

theorem zeros_rejected (crc : Crc) (page : Page) :
    Page.fromBytes crc (List.replicate Northstar.pageSize 0) ≠ .ok page := by
  intro h
  simp only [Page.fromBytes, Except.guard_eq_ok_iff, Except.bind_eq_ok_iff] at h
  rcases h with ⟨-, ⟨⟩, hvalid, -⟩
  have hmagic := ((PageHeader.validate_eq_ok_iff _ _).mp hvalid).1
  have hzero : (PageHeader.read (List.replicate Northstar.pageSize 0)).magic = 0 := rfl
  rw [hzero] at hmagic
  exact absurd hmagic (by decide)

/-- A new file, its second commit cut off inside the second write. -/
theorem exists_torn_commit : ∃ pager image opened, pager.Consistent crc32cAppend 0 2 ∧
    CommitImage crc32cAppend pager 1 3 1 image ∧ openFile crc32cAppend image = .ok opened := by
  have hinit := initial_writable crc32cAppend []
  rcases exists_commitTransaction crc32cAppend (initial crc32cAppend []) 0 2 with ⟨pager, hcommit⟩
  have hstate := consistent_of_commitTransaction hinit.1 hinit.2 hcommit
  have hlen : ((updateMeta crc32cAppend 1 3 pager.currentMeta).toPage crc32cAppend).toBytes.length =
      Northstar.pageSize := Page.length_toBytes _
  have hzeros : (List.replicate Northstar.pageSize (0 : UInt8)).length = Northstar.pageSize := List.length_replicate
  rcases FileStorage.exists_writePage pager.storage PageId.metaA hlen (by decide) with ⟨next, hwriteA⟩
  rcases FileStorage.exists_writePage next PageId.metaB hzeros (by decide) with ⟨image, hwriteB⟩
  have hrejected := zeros_rejected crc32cAppend
  rcases readMetaPage_of_writePage (wellFormed_updateMeta crc32cAppend hstate.current 1 3) hwriteA
    with ⟨a, ha, hpayload⟩
  have hA := readMetaPage_of_writePage_ne (by decide) hwriteB ha
  have hB := readMetaPage_of_torn hrejected hwriteB
  rcases openFile_of_choice (by rw [hA, hB, chooseBestMeta_none_right]) (records_updateMeta hstate.size hpayload)
    with ⟨opened, hopen, -⟩
  exact ⟨pager, image, opened, hstate, .step hwriteA (.torn hrejected hwriteB), hopen⟩

theorem interrupted_commit_opens_second_torn :
    ∃ pager image opened, pager.Consistent crc32cAppend 0 2 ∧
      CommitImage crc32cAppend pager 1 3 1 image ∧ openFile crc32cAppend image = .ok opened ∧
        opened.committedTxnId = 1 ∧ opened.rootPageId = 3 := by
  rcases exists_torn_commit with ⟨pager, image, -, hstate, hcrash, -⟩
  rcases interrupted_commit_opens hstate (by decide) (by decide) (by decide) hcrash
    with ⟨opened, hopen, -, hnew⟩
  exact ⟨pager, image, opened, hstate, hcrash, hopen, hnew (by decide)⟩

theorem readMetaPage_of_readPage {other : PageId} {page : Bytes} (hne : other ≠ pageId)
    (h : storage.writePage pageId buffer = .ok storage') (hpage : storage.readPage other = .ok page) :
    readMetaPage crc storage' other = readMetaPage crc storage other := by
  rw [readMetaPage, readMetaPage, hpage, FileStorage.readPage_of_writePage_ne h hne hpage]

theorem exists_readPage (h : readMetaPage crc storage pageId = some m) :
    ∃ page, storage.readPage pageId = .ok page := by
  cases hread : storage.readPage pageId with
  | ok page => exact ⟨page, rfl⟩
  | error e =>
    rw [readMetaPage, hread] at h
    cases h

/-- Whatever is read as a copy can be written back. -/
theorem wellFormed_of_readMetaPage (h : readMetaPage crc storage pageId = some m) : m.WellFormed := by
  unfold readMetaPage at h
  simp only [Option.bind_eq_bind, Option.bind_eq_some_iff, Except.toOption_eq_some] at h
  rcases h with ⟨buffer, -, page, hpage, hm⟩
  simp only [Page.fromBytes, Except.guard_eq_ok_iff, Except.bind_eq_ok_iff] at hpage
  rcases hpage with ⟨-, ⟨⟩, hvalid, -, -, hpage⟩
  cases hpage
  simp only [MetaState.fromPage, Except.guard_eq_ok_iff, Except.bind_eq_ok_iff, MetaPayload.fromBytes] at hm
  rcases hm with ⟨htype, payload, ⟨-, ⟨⟩, hpayload, hread⟩, hm⟩
  cases hread
  cases hm
  rcases (PageHeader.validate_eq_ok_iff _ _).mp hvalid with ⟨hmagic, hversion, -⟩
  refine ⟨hmagic, hversion, ?_, hpayload⟩
  have htype : PageType.fromU8 (PageHeader.read buffer).pageType = some .metaPage := not_not.mp htype
  unfold PageType.fromU8 at htype
  split at htype <;> first | assumption | cases htype

theorem openFile_eq_ok (h : openFile crc storage = .ok pager) :
    pager.storage = storage ∧ pager.currentMeta.WellFormed ∧
      pager.currentMeta.payload.pageSize.toNat = Northstar.pageSize := by
  unfold openFile at h
  dsimp only at h
  split at h
  · cases h
  next best hchoice =>
    rcases Except.guard_eq_ok_iff.mp h with ⟨hsize, hpager⟩
    cases hpager
    refine ⟨rfl, ?_, not_not.mp hsize⟩
    cases hA : readMetaPage crc storage PageId.metaA with
    | none =>
      rw [hA, chooseBestMeta_none_left] at hchoice
      exact wellFormed_of_readMetaPage hchoice
    | some a =>
      cases hB : readMetaPage crc storage PageId.metaB with
      | none =>
        rw [hA, hB, chooseBestMeta_none_right] at hchoice
        exact wellFormed_of_readMetaPage (hA.trans hchoice)
      | some b =>
        rw [hA, hB] at hchoice
        rcases chooseBestMeta_some_some a b with hbest | hbest
        · exact wellFormed_of_readMetaPage (hA.trans (hbest.symm.trans hchoice))
        · exact wellFormed_of_readMetaPage (hB.trans (hbest.symm.trans hchoice))

/-- The file opens with this state. -/
def Opens (crc : Crc) (storage : FileStorage) (txnId : UInt64) (rootPageId : PageId) : Prop :=
  ∃ pager, openFile crc storage = .ok pager ∧ pager.committedTxnId = txnId ∧ pager.rootPageId = rootPageId

/-- What is left of a second copy that is older than a commit whose first copy is written does no harm. -/
theorem opens_of_first_written (hform : pager.currentMeta.WellFormed)
    (hsize : pager.currentMeta.payload.pageSize.toNat = Northstar.pageSize)
    (htxn : txnId ≤ MetaState.maxReasonableTxn) (hroot : rootPageId ≤ MetaState.maxReasonablePage) {page : Bytes}
    (hpage : pager.storage.readPage PageId.metaB = .ok page)
    (holder : ∀ b, readMetaPage crc pager.storage PageId.metaB = some b → b.payload.committedTxnId < txnId)
    {done : Nat} {image : FileStorage} (hcrash : CommitImage crc pager txnId rootPageId (done + 1) image) :
    (readMetaPage crc image PageId.metaA).isSome ∧ Opens crc image txnId rootPageId := by
  have hnew := wellFormed_updateMeta crc hform txnId rootPageId
  cases hcrash with
  | step hwriteA hrest =>
    rcases readMetaPage_of_writePage hnew hwriteA with ⟨a, hA, hpayloadA⟩
    have ha : a.Records txnId rootPageId := records_updateMeta hsize hpayloadA
    have hB : readMetaPage crc _ PageId.metaB = _ := readMetaPage_of_readPage (by decide) hwriteA hpage
    cases hrest with
    | stop =>
      refine ⟨Option.isSome_of_eq_some hA, openFile_of_choice (m := a) ?_ ha⟩
      rw [hA, hB]
      cases hb : readMetaPage crc pager.storage PageId.metaB with
      | none => exact chooseBestMeta_none_right _
      | some b =>
        apply chooseBestMeta_newer_first (isTornWrite_of_records ha htxn hroot)
        rw [ha.1]
        exact holder b hb
    | torn hrejected hwriteB =>
      have hA := readMetaPage_of_writePage_ne (by decide) hwriteB hA
      refine ⟨Option.isSome_of_eq_some hA, openFile_of_choice ?_ ha⟩
      rw [hA, readMetaPage_of_torn hrejected hwriteB, chooseBestMeta_none_right]
    | step hwriteB hstop =>
      rcases readMetaPage_of_writePage hnew hwriteB with ⟨b, hb, hpayloadB⟩
      have hA := readMetaPage_of_writePage_ne (by decide) hwriteB hA
      cases hstop
      exact ⟨Option.isSome_of_eq_some hA, openFile_of_agreeing hA hb ha (records_updateMeta hsize hpayloadB)⟩

theorem opens_of_second_copy {b : MetaState} (hB : readMetaPage crc storage PageId.metaB = some b)
    (hb : b.Records txnId rootPageId) (hA : readMetaPage crc storage PageId.metaA = none) :
    Opens crc storage txnId rootPageId :=
  openFile_of_choice (by rw [hA, hB, chooseBestMeta_none_left]) hb

theorem Opens.eq (h : Opens crc storage txnId rootPageId) (hopen : openFile crc storage = .ok pager) :
    pager.committedTxnId = txnId ∧ pager.rootPageId = rootPageId := by
  rcases h with ⟨pager', hopen', hsame⟩
  cases hopen.symm.trans hopen'
  exact hsame

section

variable {opened : Pager} {image image' : FileStorage} {t t' t'' : UInt64} {r' r'' : PageId} {done : Nat}

theorem opens_of_covered (hopen : openFile crc image = .ok opened) (htxn : t'' ≤ MetaState.maxReasonableTxn)
    (hroot : r'' ≤ MetaState.maxReasonablePage) (hcrash : CommitImage crc opened t'' r'' done image') (hlt : t' < t'')
    {b : MetaState} (hB : readMetaPage crc image PageId.metaB = some b) (hb : b.Records t' r')
    (h : Opens crc image t' r') :
    Opens crc image' opened.committedTxnId opened.rootPageId ∨ Opens crc image' t'' r'' := by
  rcases openFile_eq_ok hopen with ⟨rfl, hform, hsize⟩
  rcases h.eq hopen with ⟨rfl, rfl⟩
  cases hcrash with
  | stop => exact .inl h
  | torn hrejected hwrite =>
    exact .inl (opens_of_second_copy (readMetaPage_of_writePage_ne (by decide) hwrite hB) hb
      (readMetaPage_of_torn hrejected hwrite))
  | step hwrite hrest =>
    rcases exists_readPage hB with ⟨page, hpage⟩
    refine .inr (opens_of_first_written hform hsize htxn hroot hpage ?_ (.step hwrite hrest)).2
    intro b' hb'
    cases hB.symm.trans hb'
    rw [hb.1]
    exact hlt

/-- Beside an older second copy, or none, the first one must survive. -/
theorem opens_iff_of_exposed (hopen : openFile crc image = .ok opened) (htxn : t'' ≤ MetaState.maxReasonableTxn)
    (hroot : r'' ≤ MetaState.maxReasonablePage) (hcrash : CommitImage crc opened t'' r'' done image') (hlt : t < t')
    (hlt' : t' < t'') {a : MetaState} (hA : readMetaPage crc image PageId.metaA = some a)
    (h : Opens crc image t' r') {page : Bytes} (hpage : image.readPage PageId.metaB = .ok page)
    (holder : ∀ b, readMetaPage crc image PageId.metaB = some b → b.payload.committedTxnId = t) :
    Opens crc image' opened.committedTxnId opened.rootPageId ∨ Opens crc image' t'' r'' ↔
      (readMetaPage crc image' PageId.metaA).isSome := by
  have hlt'' : t < t'' := UInt64.lt_trans hlt hlt'
  rcases openFile_eq_ok hopen with ⟨rfl, hform, hsize⟩
  rcases h.eq hopen with ⟨rfl, rfl⟩
  cases hcrash with
  | stop => exact iff_of_true (.inl h) (Option.isSome_of_eq_some hA)
  | torn hrejected hwrite =>
    have hnone := readMetaPage_of_torn hrejected hwrite
    have hB : readMetaPage crc _ PageId.metaB = _ := readMetaPage_of_readPage (by decide) hwrite hpage
    have hlost : ∀ s q, Opens crc image' s q → s = t := by
      rintro s q ⟨reopened, hreopen, rfl, -⟩
      unfold openFile at hreopen
      dsimp only at hreopen
      rw [hnone, hB, chooseBestMeta_none_left] at hreopen
      cases hold : readMetaPage crc opened.storage PageId.metaB with
      | none =>
        rw [hold] at hreopen
        cases hreopen
      | some b =>
        rw [hold] at hreopen
        rcases Except.guard_eq_ok_iff.mp hreopen with ⟨-, hreopen⟩
        cases hreopen
        exact holder b hold
    rw [hnone]
    apply iff_of_false _ Bool.false_ne_true
    rintro (hsame | hnewest)
    · exact absurd (hlost _ _ hsame) (UInt64.ne_of_lt hlt).symm
    · exact absurd (hlost _ _ hnewest) (UInt64.ne_of_lt hlt'').symm
  | step hwrite hrest =>
    have hopens := opens_of_first_written hform hsize htxn hroot hpage
      (fun b hb => by rw [holder b hb]; exact hlt'') (.step hwrite hrest)
    exact iff_of_true (.inr hopens.2) hopens.1

end

/-- **Two crashes.**  The file is opened after a crash, and the next commit crashes too.  Then the file opens, with
the state it had been opened with or the new one, unless the first commit had written one copy and the second
one has torn it. -/
theorem second_crash_opens_iff {crc : Crc} {pager opened : Pager} {t t' t'' : UInt64} {r r' r'' : PageId}
    (hstate : pager.Consistent crc t r) (hlt : t < t') (hlt' : t' < t'') (htxn : t'' ≤ MetaState.maxReasonableTxn)
    (hroot : r' ≤ MetaState.maxReasonablePage) (hroot' : r'' ≤ MetaState.maxReasonablePage) {done done' : Nat}
    {image image' : FileStorage} (hcrash : CommitImage crc pager t' r' done image)
    (hopen : openFile crc image = .ok opened) (hcrash' : CommitImage crc opened t'' r'' done' image') :
    Opens crc image' opened.committedTxnId opened.rootPageId ∨ Opens crc image' t'' r'' ↔
      (done = 1 → (readMetaPage crc image' PageId.metaA).isSome) := by
  rcases hstate.copyA with ⟨a, ha, hra⟩
  rcases hstate.copyB with ⟨b, hb, hrb⟩
  have hnew := wellFormed_updateMeta crc hstate.current t' r'
  have hlt'' : t < t'' := UInt64.lt_trans hlt hlt'
  cases hcrash with
  | stop =>
    have hopens := openFile_of_agreeing ha hb hra hrb
    exact iff_of_true (opens_of_covered hopen htxn hroot' hcrash' hlt'' hb hrb hopens) nofun
  | torn hrejected hwrite =>
    have hB := readMetaPage_of_writePage_ne (by decide) hwrite hb
    have hopens := opens_of_second_copy hB hrb (readMetaPage_of_torn hrejected hwrite)
    exact iff_of_true (opens_of_covered hopen htxn hroot' hcrash' hlt'' hB hrb hopens) nofun
  | step hwriteA hrest =>
    rcases readMetaPage_of_writePage hnew hwriteA with ⟨a', ha', -⟩
    rcases exists_readPage hb with ⟨page, hpage⟩
    have hopens := opens_of_first_written hstate.current hstate.size (UInt64.le_trans (UInt64.le_of_lt hlt') htxn)
      hroot hpage (fun b' hb' => by cases hb.symm.trans hb'; rw [hrb.1]; exact hlt) (.step hwriteA hrest)
    cases hrest with
    | stop =>
      refine (opens_iff_of_exposed hopen htxn hroot' hcrash' hlt hlt' ha' hopens.2
        (FileStorage.readPage_of_writePage_ne hwriteA (by decide) hpage) ?_).trans ⟨fun h _ => h, fun h => h rfl⟩
      intro b' hb'
      cases (readMetaPage_of_writePage_ne (by decide) hwriteA hb).symm.trans hb'
      exact hrb.1
    | torn hrejected hwriteB =>
      have hA := readMetaPage_of_writePage_ne (by decide) hwriteB ha'
      refine (opens_iff_of_exposed hopen htxn hroot' hcrash' hlt hlt' hA hopens.2
        (FileStorage.readPage_of_writePage hwriteB) ?_).trans ⟨fun h _ => h, fun h => h rfl⟩
      intro b' hb'
      rw [readMetaPage_of_torn hrejected hwriteB] at hb'
      cases hb'
    | step hwriteB hstop =>
      rcases readMetaPage_of_writePage hnew hwriteB with ⟨b', hb', hpayloadB⟩
      have hrb' := records_updateMeta hstate.size hpayloadB
      cases hstop
      exact iff_of_true (opens_of_covered hopen htxn hroot' hcrash' hlt' hb' hrb' hopens.2) fun h => absurd h (by decide)

/-- The second commit of a new file is cut off inside its second write, and the third one inside its first. -/
theorem second_crash_opens_none : ∃ pager image opened image',
    CommitImage crc32cAppend pager 1 3 1 image ∧ openFile crc32cAppend image = .ok opened ∧
      CommitImage crc32cAppend opened 2 3 0 image' ∧
        ¬ (Opens crc32cAppend image' opened.committedTxnId opened.rootPageId ∨ Opens crc32cAppend image' 2 3) := by
  rcases exists_torn_commit with ⟨pager, image, opened, hstate, hcrash, hopen⟩
  have hzeros : (List.replicate Northstar.pageSize (0 : UInt8)).length = Northstar.pageSize := List.length_replicate
  rcases FileStorage.exists_writePage opened.storage PageId.metaA hzeros (by decide) with ⟨image', hwrite⟩
  have hcrash' : CommitImage crc32cAppend opened 2 3 0 image' := .torn (zeros_rejected crc32cAppend) hwrite
  refine ⟨pager, image, opened, image', hcrash, hopen, hcrash', fun hopens => ?_⟩
  have hread := (second_crash_opens_iff hstate (by decide) (by decide) (by decide) (by decide) (by decide) hcrash hopen
    hcrash').mp hopens rfl
  rw [readMetaPage_of_torn (zeros_rejected crc32cAppend) hwrite] at hread
  cases hread

end Pager

end Northstar
