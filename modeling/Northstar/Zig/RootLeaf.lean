import Northstar.Zig.Leaf
import Northstar.Zig.Spare

/-!
# RootLeaf — a tree of one leaf

As long as its entries fit, the tree is its root.  Lookups then find what the root holds; a put of a
new key adds an entry, and a delete of the only key leaves the leaf empty.
-/

namespace Northstar.Zig

open Bytes EStateM SortedEntries BtreeLeafPayload

namespace Pager

theorem putPage_self (p : Pager) (pageId : Nat) (page : Page) :
    (p.putPage pageId page).pages[pageId]? = some page := by
  have hlength : pageId < (p.pages ++ List.replicate (pageId + 1 - p.pages.length) Page.hole).length := by
    rw [List.length_append, List.length_replicate]
    omega
  exact List.getElem?_set_self hlength

theorem length_putPage {p : Pager} {pageId : Nat} (page : Page) (h : pageId < p.pages.length) :
    (p.putPage pageId page).pages.length = p.pages.length := by
  show ((p.pages ++ List.replicate (pageId + 1 - p.pages.length) Page.hole).set pageId page).length = _
  rw [List.length_set, List.length_append, List.length_replicate]
  omega

theorem length_putPage_end (p : Pager) (page : Page) :
    (p.putPage p.pages.length page).pages.length = p.pages.length + 1 := by
  show ((p.pages ++ List.replicate (p.pages.length + 1 - p.pages.length) Page.hole).set _ page).length = _
  rw [List.length_set, List.length_append, List.length_replicate]
  omega

theorem run_writePage {p : Pager} {pageId : Nat} {page : Page} (hvalid : validatePage page = .ok page.header)
    (hid : page.header.pageId = pageId) (hle : pageId ≤ p.pages.length) :
    (writePage pageId page).run p = .ok () (p.putPage pageId page) := by
  have hnot : ¬ pageId > p.pages.length := Nat.not_lt.mpr hle
  unfold writePage
  rw [run_bind_of_ok (run_lift_eq_ok_iff.mpr ⟨hvalid, rfl⟩), if_neg (not_not.mpr hid)]
  simp [hnot]

/-- The page is in the file, with the checksums of a leaf that holds the entries. -/
structure LeafAt (p : Pager) (pageId : Nat) (es : List (Nat × BtreeLeafEntry)) : Prop where
  exists_page : ∃ page, p.pages[pageId]? = some page ∧ validatePage page = .ok page.header ∧
    Leaf page pageId es

structure RootLeaf (p : Pager) (es : List (Nat × BtreeLeafEntry)) : Prop where
  root : p.getRootPageId ≠ 0
  leaf : LeafAt p p.getRootPageId es

variable {key : Bytes}

namespace LeafAt

variable {p : Pager} {pageId : Nat} {es : List (Nat × BtreeLeafEntry)}

theorem readPage_eq (h : LeafAt p pageId es) :
    ∃ page, p.readPage pageId = .ok page ∧ validatePage page = .ok page.header ∧ Leaf page pageId es := by
  rcases h.exists_page with ⟨page, hpage, hvalid, hleaf⟩
  exact ⟨page, readPage_of_valid hpage hvalid hleaf.id hleaf.len.le, hvalid, hleaf⟩

theorem descend_eq (h : LeafAt p pageId es) (key : Bytes) :
    ∃ page, p.descend key pageId = .ok (page, none) ∧ Leaf page pageId es := by
  rcases h.readPage_eq with ⟨page, hread, hvalid, hleaf⟩
  refine ⟨page, ?_, hleaf⟩
  unfold descend
  rw [hread, Except.ok_bind, hvalid, Except.ok_bind, if_pos hleaf.type]
  rfl

theorem getValueFrom_eq (h : LeafAt p pageId es) (key : Bytes) (bufferLen fuel : Nat) :
    p.getValueFrom key bufferLen (fuel + 1) pageId =
      match lookup slotKey key es with
      | none => .ok none
      | some e => if e.2.value.length > bufferLen then .error .bufferTooSmall else .ok (some e.2.value) := by
  rcases h.descend_eq key with ⟨page, hdescend, hleaf⟩
  have hheader : slice page.body 0 BtreeNodeHeader.size = .ok (window page.body 0 48) := by
    apply slice_of_le (Nat.zero_le _)
    rw [hleaf.holds.length]
    decide
  unfold getValueFrom
  rw [hdescend, Except.ok_bind]
  dsimp only
  rw [hleaf.slice_body, Except.ok_bind, hheader, Except.ok_bind, hleaf.getValueFromBtreeLeaf_eq,
    Except.ok_bind]
  cases lookup slotKey key es with
  | none => rfl
  | some e => rfl

theorem eq_of_mem_walk (h : LeafAt p pageId es) {fuel other : Nat}
    (hwalk : other ∈ p.walk key fuel pageId) : other = pageId := by
  cases fuel with
  | zero => cases hwalk
  | succ fuel =>
    rcases h.descend_eq key with ⟨page, hdescend, _⟩
    unfold walk at hwalk
    rw [hdescend] at hwalk
    exact List.mem_singleton.mp hwalk

theorem of_page {page : Page} (hpage : p.pages[pageId]? = some page)
    (hvalid : validatePage page = .ok page.header) (hleaf : Leaf page pageId es) : LeafAt p pageId es :=
  ⟨page, hpage, hvalid, hleaf⟩

end LeafAt

namespace RootLeaf

variable {p : Pager} {es : List (Nat × BtreeLeafEntry)} (h : RootLeaf p es)

include h

theorem lt_length : p.getRootPageId < p.pages.length := by
  rcases h.leaf.readPage_eq with ⟨page, hread, _, _⟩
  exact lt_of_readPage hread

theorem findBtreePath_eq (fuel : Nat) (key : Bytes) :
    ∃ page, p.findBtreePath (fuel + 1) key = .ok ((p.getRootPageId, page), []) ∧
      Leaf page p.getRootPageId es := by
  rcases h.leaf.descend_eq key with ⟨page, hdescend, hleaf⟩
  refine ⟨page, ?_, hleaf⟩
  unfold findBtreePath
  rw [if_neg h.root]
  unfold findPathFrom
  rw [hdescend]
  rfl

theorem keyAbsent (habsent : ∀ e ∈ es, e.2.key ≠ key) (fuel : Nat) :
    KeyAbsent p (fuel + 1) key := by
  rcases h.findBtreePath_eq fuel key with ⟨page, hpath, hleaf⟩
  intro leaf above hpath'
  rw [hpath] at hpath'
  cases hpath'
  rw [hleaf.getValueFromBtreeLeaf_eq, lookup_eq_none habsent]
  rfl

theorem run_putBtreeValue {value : Bytes} (hroom : BtreeLeafPayload.Room es ⟨key, value⟩)
    (habsent : ∀ e ∈ es, e.2.key ≠ key) (fuel txnId : Nat) :
    ∃ pre suf page', es = pre ++ suf ∧ (∀ e ∈ pre, e.2.key < key) ∧ (∀ e ∈ suf, key < e.2.key) ∧
      (putBtreeValue (fuel + 1) key value txnId).run p = .ok () (p.putPage p.getRootPageId page') ∧
      validatePage page' = .ok page'.header ∧
      Leaf page' p.getRootPageId
        (pre ++ (minOffset es - BtreeLeafEntry.getSize ⟨key, value⟩, ⟨key, value⟩) :: suf) := by
  rcases h.findBtreePath_eq fuel key with ⟨page, hpath, hleaf⟩
  rcases hleaf.copyOnWritePage_eq txnId with ⟨copy, hcopy, hleafCopy⟩
  rcases hleafCopy.addEntryToBtreeLeaf_eq hroom habsent with
    ⟨pre, suf, page', hes, hpre, hsuf, hadd, hvalid, hleaf'⟩
  refine ⟨pre, suf, page', hes, hpre, hsuf, ?_, hvalid, hleaf'⟩
  have hwrite := run_writePage hvalid hleaf'.id h.lt_length.le
  unfold putBtreeValue
  rw [run_bind_of_ok (run_get p), if_neg h.root,
    run_bind_of_ok (run_lift_eq_ok_iff.mpr ⟨hpath, rfl⟩)]
  dsimp only
  rw [run_bind_of_ok (run_lift_eq_ok_iff.mpr ⟨hcopy, rfl⟩), hadd]
  dsimp only
  rw [run_bind_of_ok hwrite]
  rfl

theorem run_deleteBtreeValue_absent (habsent : ∀ e ∈ es, e.2.key ≠ key) (fuel txnId : Nat) :
    (deleteBtreeValue (fuel + 1) key txnId).run p = .ok false p := by
  rcases h.findBtreePath_eq fuel key with ⟨page, hpath, hleaf⟩
  have hnone : getValueFromBtreeLeaf page key = .ok none := by
    rw [hleaf.getValueFromBtreeLeaf_eq, lookup_eq_none habsent]
    rfl
  unfold deleteBtreeValue
  rw [run_bind_of_ok (run_get p), if_neg h.root,
    run_bind_of_ok (run_lift_eq_ok_iff.mpr ⟨hpath, rfl⟩)]
  dsimp only
  rw [run_bind_of_ok (run_lift_eq_ok_iff.mpr ⟨hnone, rfl⟩)]
  rfl

theorem run_deleteBtreeValue_only {offset : Nat} {entry : BtreeLeafEntry} (hes : es = [(offset, entry)])
    (fuel txnId : Nat) :
    ∃ page', (deleteBtreeValue (fuel + 1) entry.key txnId).run p =
        .ok true (p.putPage p.getRootPageId page') ∧
      validatePage page' = .ok page'.header ∧ Leaf page' p.getRootPageId [] := by
  rcases h.findBtreePath_eq fuel entry.key with ⟨page, hpath, hleaf⟩
  rcases hleaf.copyOnWritePage_eq txnId with ⟨copy, hcopy, hleafCopy⟩
  rcases hleafCopy.removeFromLeaf_only hes with ⟨page', hremove, hvalid, hleaf'⟩
  refine ⟨page', ?_, hvalid, hleaf'⟩
  have hfound : getValueFromBtreeLeaf page entry.key = .ok (some entry.value) := by
    have hlookup : lookup slotKey entry.key es = some (offset, entry) :=
      lookup_eq_some hleaf.holds.sorted (hes ▸ List.mem_singleton_self _) rfl
    rw [hleaf.getValueFromBtreeLeaf_eq, hlookup]
    rfl
  have hwrite := run_writePage hvalid hleaf'.id h.lt_length.le
  unfold deleteBtreeValue
  rw [run_bind_of_ok (run_get p), if_neg h.root,
    run_bind_of_ok (run_lift_eq_ok_iff.mpr ⟨hpath, rfl⟩)]
  dsimp only
  rw [run_bind_of_ok (run_lift_eq_ok_iff.mpr ⟨hfound, rfl⟩)]
  dsimp only
  rw [run_bind_of_ok (run_lift_eq_ok_iff.mpr ⟨hcopy, rfl⟩),
    run_bind_of_ok (run_lift_eq_ok_iff.mpr ⟨hremove, rfl⟩)]
  dsimp only
  rw [run_bind_of_ok hwrite]
  rfl

end RootLeaf

theorem run_putBtreeValue_first {p : Pager} (hroot : p.getRootPageId = 0) (hfree : p.freePages = [])
    (hlast : p.lastAllocatedPage = p.pages.length) {value : Bytes}
    (hroom : BtreeLeafPayload.Room [] ⟨key, value⟩) (fuel txnId : Nat) :
    ∃ page', (putBtreeValue fuel key value txnId).run p =
        .ok () ((({ p with lastAllocatedPage := p.pages.length + 1 }.putPage p.pages.length
          (freshPage p.pages.length)).putPage p.pages.length page').setRootPageId p.pages.length) ∧
      validatePage page' = .ok page'.header ∧
      Leaf page' p.pages.length
        [(minOffset [] - BtreeLeafEntry.getSize ⟨key, value⟩, ⟨key, value⟩)] := by
  have habsent : ∀ e ∈ ([] : List (Nat × BtreeLeafEntry)), e.2.key ≠ key :=
    fun _ he => absurd he List.not_mem_nil
  rcases (leaf_createEmptyBtreeLeaf p.pages.length txnId).addEntryToBtreeLeaf_eq hroom habsent with
    ⟨pre, suf, page', hes, _, _, hadd, hvalid, hleaf⟩
  rcases List.append_eq_nil_iff.mp hes.symm with ⟨rfl, rfl⟩
  refine ⟨page', ?_, hvalid, hleaf⟩
  have hallocate : allocatePage.run p = .ok p.pages.length
      ({ p with lastAllocatedPage := p.pages.length + 1 }.putPage p.pages.length
        (freshPage p.pages.length)) := by
    unfold allocatePage
    rw [run_bind_of_ok (run_get p), hfree, hlast]
    rfl
  generalize hreached : { p with lastAllocatedPage := p.pages.length + 1 }.putPage p.pages.length
    (freshPage p.pages.length) = reached at hallocate
  have hroomy : p.pages.length ≤ reached.pages.length := by
    rw [← hreached]
    exact (Nat.le_succ _).trans
      (length_putPage_end { p with lastAllocatedPage := p.pages.length + 1 } _).ge
  have hwrite := run_writePage hvalid hleaf.id hroomy
  unfold putBtreeValue
  rw [run_bind_of_ok (run_get p), if_pos hroot, run_bind_of_ok hallocate,
    run_bind_of_ok (run_lift_eq_ok_iff.mpr ⟨hadd, rfl⟩), run_bind_of_ok hwrite]
  rfl

end Pager

end Northstar.Zig
