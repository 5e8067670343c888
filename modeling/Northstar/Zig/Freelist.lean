import Northstar.Zig.Pager
import Northstar.Lib.GraphSearch
import Mathlib.Data.List.Sort

/-!
# Freelist — rebuilding the list of free pages on open

The pages that are not marked from the committed root are free.  The traversal is a sound one, but
`extractChildPageIds` reads the node header and returns no children: only the root itself is marked.
-/

namespace Northstar.Zig

open Bytes

namespace Pager

/-- The number of children and their size in bytes are computed in 16 bits, and no child is returned. -/
def extractChildPageIds (page : Page) : Except PagerError (List Nat) := do
  let header ← page.header.decode
  if header.pageType ≠ .btreeInternal then return []
  else
    let node ← BtreeNodeHeader.read page.body
    if node.nodeMagic ≠ 0x42545245 then .error .invalidBtreeMagic
    else if (node.keyCount + 1) * 8 ≥ 2 ^ 16 then .error .panic
    else return []

/-- What a turn of `markTreePages` pushes.  Errors of `readPage` are returned, corrupt pages included;
the checks of `validatePage` are made a second time. -/
def childrenToMark (p : Pager) (pageId : Nat) : Except PagerError (List Nat) := do
  let page ← p.readPage pageId
  match validatePage page with
  | .error .invalidPageChecksum => return []
  | .error .invalidHeaderChecksum => return []
  | .error .invalidPayloadLength => return []
  | .error e => .error e
  | .ok header => if header.pageType = .btreeInternal then extractChildPageIds page else return []

def metaPages (totalPages : Nat) : List Nat := [metaAPageId, metaBPageId].filter (· < totalPages)

def markTreePages (p : Pager) (fuel : Nat) : Option (Except PagerError (List Nat)) :=
  Worklist.mark (decide <| · < p.pages.length) p.childrenToMark fuel [p.getRootPageId]
    (metaPages p.pages.length)

/-- The pages in use, if the tree is not empty those that `markTreePages` finds. -/
def pagesInUse (p : Pager) (fuel : Nat) : Option (Except PagerError (List Nat)) :=
  if p.getRootPageId ≠ 0 then p.markTreePages fuel else some (.ok (metaPages p.pages.length))

def freePagesOf (totalPages : Nat) (inUse : List Nat) : List Nat :=
  ((List.range totalPages).filter fun pageId => pageId ∉ inUse ∧ 2 ≤ pageId).insertionSort (· ≤ ·)

/-- `PageAllocator.init`; `none` while it is running. -/
def initAllocator (p : Pager) (fuel : Nat) : Option (Except PagerError Pager) :=
  (p.pagesInUse fuel).map fun inUse => inUse.map fun inUse =>
    { p with freePages := freePagesOf p.pages.length inUse, lastAllocatedPage := p.pages.length }

theorem initAllocator_ends (p : Pager) : ∃ fuel, (p.initAllocator fuel).isSome = true := by
  unfold initAllocator pagesInUse
  by_cases hroot : p.getRootPageId ≠ 0
  · have hinside : ∀ pageId, decide (pageId < p.pages.length) = true →
        pageId ∈ List.range p.pages.length :=
      fun pageId h => List.mem_range.mpr (of_decide_eq_true h)
    rcases Worklist.exists_fuel p.childrenToMark hinside [p.getRootPageId] (metaPages p.pages.length)
      with ⟨fuel, result, hmark⟩
    refine ⟨fuel, ?_⟩
    rw [if_pos hroot, markTreePages, hmark]
    rfl
  · exact ⟨0, by rw [if_neg hroot]; rfl⟩

def childPageIds (page : Page) : Except PagerError (List Nat) := do
  let childCount ← BtreeInternalPayload.childCount page.payload
  (List.range childCount).mapM (BtreeInternalPayload.getChildPageId page.payload)

/-- A tree of the given height over its leaves. -/
inductive TreeAt (p : Pager) : Nat → Nat → Prop where
  | leaf {pageId : Nat} {page : Page} (hid : 2 ≤ pageId) (hread : p.readPage pageId = .ok page)
      (htype : page.header.pageType = .btreeLeaf) : TreeAt p 0 pageId
  | internal {height pageId : Nat} {page : Page} {node : BtreeNodeHeader} {children : List Nat}
      (hid : 2 ≤ pageId) (hread : p.readPage pageId = .ok page)
      (htype : page.header.pageType = .btreeInternal)
      (hnode : BtreeNodeHeader.read page.payload = .ok node)
      (hmagic : node.nodeMagic = 0x42545245)
      (hcount : node.keyCount ≤ BtreeInternalPayload.maxKeysPerInternal)
      (hchildren : childPageIds page = .ok children)
      (hbelow : ∀ child ∈ children, TreeAt p height child) : TreeAt p (height + 1) pageId

/-- The pages reachable from the root through child pointers. -/
inductive Reachable (p : Pager) : Nat → Prop where
  | root (hroot : p.getRootPageId ≠ 0) : Reachable p p.getRootPageId
  | child {pageId child : Nat} {page : Page} {children : List Nat} (habove : Reachable p pageId)
      (hread : p.readPage pageId = .ok page) (htype : page.header.pageType = .btreeInternal)
      (hchildren : childPageIds page = .ok children) (hmem : child ∈ children) : Reachable p child

variable {p : Pager} {pageId height : Nat} {page : Page}

theorem readPage_eq_ok (h : p.readPage pageId = .ok page) :
    p.pages[pageId]? = some page ∧ validatePage page = .ok page.header ∧
      page.header.pageId = pageId := by
  unfold readPage at h
  cases hpage : p.pages[pageId]? with
  | none =>
    rw [hpage] at h
    cases h
  | some found =>
    rw [hpage] at h
    dsimp only at h
    rcases Except.bind_eq_ok_iff.mp h with ⟨header, hvalid, h⟩
    have hheader : header = found.header := by
      unfold validatePage PageHeader.decode at hvalid
      rcases Except.bind_eq_ok_iff.mp hvalid with ⟨decoded, hdecode, hvalid⟩
      simp only [Except.guard_eq_ok_iff] at hdecode hvalid
      have hsame := Except.ok.inj hvalid.2.2.2
      rw [← hsame, ← Except.ok.inj hdecode.2.2]
    rw [Except.guard_eq_ok_iff, Except.guard_eq_ok_iff, not_not] at h
    have hpage' : found = page := Except.ok.inj h.2.2
    subst hheader
    subst hpage'
    exact ⟨rfl, hvalid, h.1⟩

theorem readPage_of_valid (h : p.pages[pageId]? = some page)
    (hvalid : validatePage page = .ok page.header) (hid : page.header.pageId = pageId)
    (hlen : page.header.payloadLen ≤ Page.bodySize) : p.readPage pageId = .ok page := by
  unfold readPage
  rw [h]
  dsimp only
  rw [hvalid, Except.ok_bind, if_neg (not_not.mpr hid), if_neg (Nat.not_lt.mpr hlen)]
  rfl

theorem lt_of_readPage (h : p.readPage pageId = .ok page) : pageId < p.pages.length := by
  have hpage := (readPage_eq_ok h).1
  by_contra hge
  rw [List.getElem?_eq_none (Nat.le_of_not_lt hge)] at hpage
  cases hpage

theorem childPageIds_ne_nil {children : List Nat}
    (h : childPageIds page = .ok children) : children ≠ [] := by
  unfold childPageIds BtreeInternalPayload.childCount at h
  rcases Except.bind_eq_ok_iff.mp h with ⟨count, hcount, h⟩
  rcases Except.bind_eq_ok_iff.mp hcount with ⟨node, -, hcount⟩
  rw [Except.guard_eq_ok_iff] at hcount
  have hlength := Except.length_of_mapM h
  rw [List.length_range, ← Except.ok.inj hcount.2] at hlength
  exact List.length_pos_iff.mp (by omega)

theorem TreeAt.height_eq {height' : Nat} (h : TreeAt p height pageId)
    (h' : TreeAt p height' pageId) : height = height' := by
  induction h generalizing height' with
  | leaf hid hread htype =>
    cases h' with
    | leaf => rfl
    | internal hid' hread' htype' =>
      rw [hread] at hread'
      cases hread'
      rw [htype] at htype'
      cases htype'
  | internal hid hread htype hnode hmagic hcount hchildren hbelow ih =>
    cases h' with
    | leaf hid' hread' htype' =>
      rw [hread] at hread'
      cases hread'
      rw [htype] at htype'
      cases htype'
    | internal hid' hread' htype' hnode' hmagic' hcount' hchildren' hbelow' =>
      rw [hread] at hread'
      cases hread'
      rw [hchildren] at hchildren'
      cases hchildren'
      rcases List.exists_mem_of_ne_nil _ (childPageIds_ne_nil hchildren) with ⟨child, hchild⟩
      rw [ih child hchild (hbelow' child hchild)]

theorem read_body {node : BtreeNodeHeader}
    (h : BtreeNodeHeader.read page.payload = .ok node) : BtreeNodeHeader.read page.body = .ok node := by
  unfold BtreeNodeHeader.read slice at h ⊢
  rcases Except.bind_eq_ok_iff.mp h with ⟨bytes, hbytes, h⟩
  by_cases hroom : 0 ≤ BtreeNodeHeader.size ∧ BtreeNodeHeader.size ≤ page.payload.length
  · rw [if_pos hroom] at hbytes
    have hlength : BtreeNodeHeader.size ≤ page.header.payloadLen ∧
        BtreeNodeHeader.size ≤ page.body.length := by
      have hle := hroom.2
      unfold Page.payload at hle
      rw [List.length_take] at hle
      omega
    have hsame : window page.payload 0 (BtreeNodeHeader.size - 0) =
        window page.body 0 (BtreeNodeHeader.size - 0) := by
      unfold Page.payload window
      rw [List.drop_zero, List.drop_zero, List.take_take, Nat.min_eq_left (by omega)]
    rw [if_pos ⟨hroom.1, hlength.2⟩, ← hsame, hbytes]
    exact h
  · rw [if_neg hroom] at hbytes
    cases hbytes

theorem childrenToMark_tree (h : TreeAt p height pageId) : p.childrenToMark pageId = .ok [] := by
  unfold childrenToMark
  cases h with
  | leaf hid hread htype =>
    rw [hread, Except.ok_bind, (readPage_eq_ok hread).2.1]
    dsimp only
    rw [if_neg (by rw [htype]; decide)]
    rfl
  | @internal height _ page node children hid hread htype hnode hmagic hcount hchildren hbelow =>
    have hvalid := (readPage_eq_ok hread).2.1
    have hdecode : page.header.decode = .ok page.header := by
      unfold validatePage at hvalid
      rcases Except.bind_eq_ok_iff.mp hvalid with ⟨header, hdecode, -⟩
      have hdecode' := hdecode
      unfold PageHeader.decode at hdecode'
      rw [Except.guard_eq_ok_iff, Except.guard_eq_ok_iff] at hdecode'
      rw [← Except.ok.inj hdecode'.2.2] at hdecode
      exact hdecode
    unfold BtreeInternalPayload.maxKeysPerInternal at hcount
    rw [hread, Except.ok_bind, hvalid]
    dsimp only
    unfold extractChildPageIds
    rw [if_pos htype, hdecode, Except.ok_bind, if_neg (by rw [htype]; decide), read_body hnode,
      Except.ok_bind, if_neg (by rw [hmagic]; decide), if_neg (by omega)]
    rfl

/-- The list holds the pages that are not reachable, each once, in ascending order. -/
def FreelistSafe (p : Pager) (freePages : List Nat) : Prop :=
  (∀ pageId, Reachable p pageId → pageId ∉ freePages) ∧
    (∀ pageId, pageId ∈ freePages ↔ 2 ≤ pageId ∧ pageId < p.pages.length ∧ ¬ Reachable p pageId) ∧
    freePages.Pairwise (· < ·)

theorem freePagesOf_eq (totalPages : Nat) (inUse : List Nat) : freePagesOf totalPages inUse =
      (List.range totalPages).filter fun pageId => pageId ∉ inUse ∧ 2 ≤ pageId := by
  unfold freePagesOf
  apply List.Pairwise.insertionSort_eq
  exact (List.pairwise_lt_range.filter _).imp Nat.le_of_lt

theorem mem_freePagesOf {totalPages : Nat} {inUse : List Nat} :
    pageId ∈ freePagesOf totalPages inUse ↔ pageId < totalPages ∧ pageId ∉ inUse ∧ 2 ≤ pageId := by
  rw [freePagesOf_eq, List.mem_filter, List.mem_range, decide_eq_true_iff]

theorem pairwise_freePagesOf (totalPages : Nat) (inUse : List Nat) :
    (freePagesOf totalPages inUse).Pairwise (· < ·) := by
  rw [freePagesOf_eq]
  exact List.pairwise_lt_range.filter _

theorem not_mem_metaPages {totalPages : Nat} (h : 2 ≤ pageId) : pageId ∉ metaPages totalPages := by
  intro hmem
  have hid := List.mem_of_mem_filter hmem
  simp only [List.mem_cons, List.not_mem_nil, or_false, metaAPageId, metaBPageId] at hid
  omega

theorem initAllocator_tree (h : TreeAt p height p.getRootPageId) (fuel : Nat) :
    p.initAllocator (fuel + 2) = some (.ok { p with
      freePages := freePagesOf p.pages.length (p.getRootPageId :: metaPages p.pages.length),
      lastAllocatedPage := p.pages.length }) := by
  have hid : 2 ≤ p.getRootPageId ∧ p.getRootPageId < p.pages.length := by
    cases h with
    | leaf hid hread => exact ⟨hid, lt_of_readPage hread⟩
    | internal hid hread => exact ⟨hid, lt_of_readPage hread⟩
  have hskip : ¬ (decide (p.getRootPageId < p.pages.length) = false ∨
      p.getRootPageId ∈ metaPages p.pages.length) := by
    rw [not_or]
    exact ⟨by simpa using hid.2, not_mem_metaPages hid.1⟩
  unfold initAllocator pagesInUse markTreePages
  rw [if_pos (by omega), Worklist.mark, if_neg hskip, childrenToMark_tree h]
  rfl

theorem initAllocator_empty (h : p.getRootPageId = 0) (fuel : Nat) :
    p.initAllocator fuel = some (.ok { p with
      freePages := freePagesOf p.pages.length (metaPages p.pages.length),
      lastAllocatedPage := p.pages.length }) := by
  unfold initAllocator pagesInUse
  rw [if_neg (not_not.mpr h)]
  rfl

theorem freelistSafe_empty (h : p.getRootPageId = 0) :
    FreelistSafe p (freePagesOf p.pages.length (metaPages p.pages.length)) := by
  have hnone : ∀ pageId, ¬ Reachable p pageId := by
    intro pageId hreach
    induction hreach with
    | root hroot => exact hroot h
    | child _ _ _ _ _ ih => exact ih
  refine ⟨fun pageId hreach => absurd hreach (hnone pageId), fun pageId => ?_,
    pairwise_freePagesOf _ _⟩
  rw [mem_freePagesOf]
  exact ⟨fun hmem => ⟨hmem.2.2, hmem.1, hnone pageId⟩,
    fun hmem => ⟨hmem.2.1, not_mem_metaPages hmem.1, hmem.1⟩⟩

/-- A root that is a leaf is the only page in use, and one that is not has a child that is free. -/
theorem freelistSafe_tree_iff (h : TreeAt p height p.getRootPageId) :
    FreelistSafe p (freePagesOf p.pages.length (p.getRootPageId :: metaPages p.pages.length)) ↔
      height = 0 := by
  have hmem : ∀ pageId, pageId ∈ freePagesOf p.pages.length
      (p.getRootPageId :: metaPages p.pages.length) ↔
        2 ≤ pageId ∧ pageId < p.pages.length ∧ pageId ≠ p.getRootPageId := by
    intro pageId
    rw [mem_freePagesOf, List.mem_cons, not_or]
    exact ⟨fun hfree => ⟨hfree.2.2, hfree.1, hfree.2.1.1⟩,
      fun hfree => ⟨hfree.2.1, ⟨hfree.2.2, not_mem_metaPages hfree.1⟩, hfree.1⟩⟩
  constructor
  · intro hsafe
    cases h with
    | leaf => rfl
    | @internal height _ page node children hid hread htype hnode hmagic hcount hchildren hbelow =>
      rcases List.exists_mem_of_ne_nil _ (childPageIds_ne_nil hchildren) with ⟨child, hchild⟩
      have hroot : p.getRootPageId ≠ 0 := by omega
      have hreach : Reachable p child := .child (.root hroot) hread htype hchildren hchild
      have hheight := hbelow child hchild
      have hother : child ≠ p.getRootPageId := by
        rintro rfl
        have hsame := hheight.height_eq
          (.internal hid hread htype hnode hmagic hcount hchildren hbelow)
        omega
      have hchildId : 2 ≤ child ∧ child < p.pages.length := by
        cases hheight with
        | leaf hid hread => exact ⟨hid, lt_of_readPage hread⟩
        | internal hid hread => exact ⟨hid, lt_of_readPage hread⟩
      exact absurd ((hmem child).mpr ⟨hchildId.1, hchildId.2, hother⟩) (hsafe.1 child hreach)
  · rintro rfl
    cases h with
    | leaf hid hread htype =>
      have honly : ∀ pageId, Reachable p pageId ↔ pageId = p.getRootPageId := by
        intro pageId
        constructor
        · intro hreach
          induction hreach with
          | root => rfl
          | child _ hread' htype' _ _ ih =>
            rw [ih, hread] at hread'
            cases hread'
            rw [htype] at htype'
            cases htype'
        · rintro rfl
          exact .root (by omega)
      refine ⟨fun pageId hreach hfree => ((hmem pageId).mp hfree).2.2 ((honly pageId).mp hreach),
        fun pageId => ?_, pairwise_freePagesOf _ _⟩
      rw [hmem, honly]

/-- **The free list.**  It is rebuilt in finitely many turns over any pages.  Over a tree it holds the
pages that are not reachable exactly if there is none, or its root is a leaf. -/
theorem freelist_safe_iff (p : Pager) : (∃ fuel, (p.initAllocator fuel).isSome = true) ∧
      ∀ fuel, (p.getRootPageId = 0 ∨ ∃ height, TreeAt p height p.getRootPageId) →
        ∃ q, p.initAllocator (fuel + 2) = some (.ok q) ∧
          (FreelistSafe p q.freePages ↔ p.getRootPageId = 0 ∨ TreeAt p 0 p.getRootPageId) := by
  refine ⟨p.initAllocator_ends, ?_⟩
  rintro fuel (hempty | ⟨height, htree⟩)
  · exact ⟨_, initAllocator_empty hempty _, fun _ => Or.inl hempty, fun _ => freelistSafe_empty hempty⟩
  · refine ⟨_, initAllocator_tree htree fuel, ?_⟩
    rw [freelistSafe_tree_iff htree]
    constructor
    · rintro rfl
      exact Or.inr htree
    · rintro (hempty | hleaf)
      · cases htree with
        | leaf hid => omega
        | internal hid => omega
      · exact htree.height_eq hleaf

def metaStateOf (rootPageId : Nat) : MetaState where
  pageId := 0
  header := { pageType := .metaPage, pageId := 0, txnId := 1, payloadLen := MetaPayload.size,
              headerCrc32c := 0, pageCrc32c := 0 }
  payload := { committedTxnId := 1, rootPageId, freelistHeadPageId := 0, logTailLsn := 0, metaCrc32c := 0 }

def emptyLeaf (pageId : Nat) : Page := (createEmptyBtreeLeaf pageId 1 0).rehash

/-- An internal page with the children 3 and 4, and a separator of one byte between them. -/
def twoChildren : Page :=
  Page.rehash
    ⟨{ pageType := .btreeInternal, pageId := 2, txnId := 1, payloadLen := 67, headerCrc32c := 0,
       pageCrc32c := 0 },
     { level := 1, keyCount := 1, rightSibling := 0 : BtreeNodeHeader }.encode ++ le 8 3 ++ le 8 4 ++
       [109, 1, 0] ++ List.replicate (Page.bodySize - 67) 0⟩

def oneLeafFile : Pager where
  pages := [Page.hole, Page.hole, emptyLeaf 2]
  currentMeta := metaStateOf 2
  freePages := []
  lastAllocatedPage := 0

def twoLeafFile : Pager where
  pages := [Page.hole, Page.hole, twoChildren, emptyLeaf 3, emptyLeaf 4]
  currentMeta := metaStateOf 2
  freePages := []
  lastAllocatedPage := 0

theorem length_emptyLeaf_body (pageId : Nat) : (emptyLeaf pageId).body.length = Page.bodySize := by
  show (BtreeNodeHeader.encode _ ++ List.replicate _ _).length = _
  unfold BtreeNodeHeader.encode
  simp only [List.length_append, length_le, length_u32, List.length_replicate]
  rfl

theorem readPage_emptyLeaf (h : p.pages[pageId]? = some (emptyLeaf pageId)) :
    p.readPage pageId = .ok (emptyLeaf pageId) := by
  have hvalid : validatePage (emptyLeaf pageId) = .ok (emptyLeaf pageId).header := by
    apply validatePage_rehash rfl rfl
    exact (length_emptyLeaf_body pageId).ge
  exact readPage_of_valid h hvalid rfl (le_refl Page.bodySize)

/-- A tree that is one leaf. -/
theorem freelist_safe_of_one_leaf :
    ∃ q, oneLeafFile.initAllocator 2 = some (.ok q) ∧ FreelistSafe oneLeafFile q.freePages := by
  have hleaf : TreeAt oneLeafFile 0 oneLeafFile.getRootPageId :=
    .leaf (le_refl 2) (readPage_emptyLeaf rfl) rfl
  rcases (freelist_safe_iff oneLeafFile).2 0 (Or.inr ⟨0, hleaf⟩) with ⟨q, hinit, hsafe⟩
  exact ⟨q, hinit, hsafe.mpr (Or.inr hleaf)⟩

theorem validatePage_twoChildren : validatePage twoChildren = .ok twoChildren.header :=
  validatePage_rehash rfl rfl (by decide +kernel)

theorem read_twoChildren : BtreeNodeHeader.read twoChildren.payload =
    .ok { level := 1, keyCount := 1, rightSibling := 0 } := by
  decide +kernel

theorem readPage_twoChildren (h : p.pages[2]? = some twoChildren) : p.readPage 2 = .ok twoChildren :=
  readPage_of_valid h validatePage_twoChildren rfl (by decide)

/-- A tree of height 1, whose leaves 3 and 4 are in use and free. -/
theorem leaves_in_use_are_free : TreeAt twoLeafFile 1 twoLeafFile.getRootPageId ∧
      twoLeafFile.initAllocator 2 = some (.ok { twoLeafFile with
        freePages := [3, 4], lastAllocatedPage := 5 }) ∧
      Reachable twoLeafFile 3 ∧ ¬ FreelistSafe twoLeafFile [3, 4] := by
  have hchildren : childPageIds twoChildren = .ok [3, 4] := by decide +kernel
  have htree : TreeAt twoLeafFile 1 twoLeafFile.getRootPageId := by
    apply TreeAt.internal (le_refl 2) (readPage_twoChildren rfl) rfl read_twoChildren rfl (by decide) hchildren
    intro child hchild
    rcases List.mem_cons.mp hchild with rfl | hchild
    · exact .leaf (by decide) (readPage_emptyLeaf rfl) rfl
    · rcases List.mem_singleton.mp hchild with rfl
      exact .leaf (by decide) (readPage_emptyLeaf rfl) rfl
  have hreach : Reachable twoLeafFile 3 :=
    .child (.root (by decide)) (readPage_twoChildren rfl) rfl hchildren (List.mem_cons_self ..)
  refine ⟨htree, ?_, hreach, fun hsafe => hsafe.1 3 hreach (List.mem_cons_self ..)⟩
  exact initAllocator_tree htree 0

end Pager

end Northstar.Zig
