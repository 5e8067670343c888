import Northstar.Zig.Slots
import Northstar.Zig.Pager

/-!
# Leaf — what a leaf page holds

The payload of a leaf page fills the page, so that its offsets and lengths fit their fields.
-/

namespace Northstar.Zig

open Bytes SortedEntries

variable {offset : Nat} {entry : BtreeLeafEntry}

namespace BtreeLeafPayload

structure Holds (payload : Bytes) (es : List (Nat × BtreeLeafEntry)) : Prop where
  length : payload.length = Page.bodySize
  magic : window payload 8 4 = u32 0x42545245
  level : window payload 12 2 = le 2 0
  count : window payload 14 2 = le 2 es.length
  few : es.length ≤ maxKeysPerLeaf
  slots : ∀ i e, es[i]? = some e → window payload (48 + i * 2) 2 = le 2 e.1
  entries : ∀ e ∈ es, window payload e.1 e.2.getSize = e.2.bytes
  inside : ∀ e ∈ es, 48 + es.length * 2 ≤ e.1 ∧ e.1 + e.2.getSize ≤ payload.length
  sorted : Sorted slotKey es

/-- Where the entries start. -/
def minOffset (es : List (Nat × BtreeLeafEntry)) : Nat := (es.map Prod.fst).foldl min Page.bodySize

def Room (es : List (Nat × BtreeLeafEntry)) (entry : BtreeLeafEntry) : Prop :=
  es.length < maxKeysPerLeaf ∧ 48 + (es.length + 1) * 2 + entry.getSize ≤ minOffset es

namespace Holds

theorem minOffset_le (es : List (Nat × BtreeLeafEntry)) :
    minOffset es ≤ 16344 ∧ ∀ e ∈ es, minOffset es ≤ e.1 := by
  have hfold := Lays.foldl_min_le (es.map Prod.fst) Page.bodySize
  exact ⟨hfold.1, fun e he => hfold.2 e.1 (List.mem_map_of_mem he)⟩

theorem minOffset_insert {pre suf : List (Nat × BtreeLeafEntry)}
    (hfront : offset ≤ minOffset (pre ++ suf)) : minOffset (pre ++ (offset, entry) :: suf) = offset := by
  rcases minOffset_le (pre ++ suf) with ⟨hmin, hbefore⟩
  apply Nat.le_antisymm
  · exact (minOffset_le (pre ++ (offset, entry) :: suf)).2 (offset, entry)
      (List.mem_append_right _ (List.mem_cons_self ..))
  · apply Lays.le_foldl_min (hfront.trans hmin)
    intro x hx
    rcases List.mem_map.mp hx with ⟨e, he, rfl⟩
    rcases List.mem_append.mp he with he | he
    · exact hfront.trans (hbefore e (List.mem_append_left _ he))
    · rcases List.mem_cons.mp he with rfl | he
      · exact Nat.le_refl _
      · exact hfront.trans (hbefore e (List.mem_append_right _ he))

section

variable {payload : Bytes} {es : List (Nat × BtreeLeafEntry)} (h : Holds payload es)

include h

theorem lays : Lays payload es where
  room := by
    have hlength : payload.length = 16344 := h.length
    have hfew : es.length ≤ 200 := h.few
    omega
  magic := h.magic
  level := h.level
  count := h.count
  few := h.few
  slots := h.slots
  entries := h.entries
  inside := h.inside
  fits := by
    have hlength : payload.length = 16344 := h.length
    intro e he
    have hinside := h.inside e he
    exact ⟨by omega, BtreeLeafEntry.fits_of_getSize_lt (by omega)⟩
  sorted := h.sorted

omit h in
theorem of_lays {out : Bytes} (hlays : Lays out es) (hlength : out.length = Page.bodySize) :
    Holds out es :=
  ⟨hlength, hlays.magic, hlays.level, hlays.count, hlays.few, hlays.slots, hlays.entries, hlays.inside,
    hlays.sorted⟩

theorem addEntry_eq {key value : Bytes} (hroom : Room es ⟨key, value⟩)
    (habsent : ∀ e ∈ es, e.2.key ≠ key) :
    ∃ pre suf out, es = pre ++ suf ∧ (∀ e ∈ pre, e.2.key < key) ∧ (∀ e ∈ suf, key < e.2.key) ∧
      addEntry payload key value = .ok out ∧
      Holds out (pre ++ (minOffset es - BtreeLeafEntry.getSize ⟨key, value⟩, ⟨key, value⟩) :: suf) := by
  have hlength : payload.length = 16344 := h.length
  have hmin := (minOffset_le es).1
  have hfirst : firstOffset payload.length es = minOffset es := by
    rw [h.length]
    rfl
  have hfits : 48 + (es.length + 1) * 2 + BtreeLeafEntry.getSize ⟨key, value⟩ ≤ minOffset es := hroom.2
  rw [← hfirst] at hfits hmin ⊢
  rcases h.lays.addEntry_eq hroom.1 hfits (fun _ => by omega) (by omega)
    (BtreeLeafEntry.fits_of_getSize_lt (by omega)) habsent with
    ⟨pre, suf, out, hes, hpre, hsuf, hadd, hout, hlays⟩
  exact ⟨pre, suf, out, hes, hpre, hsuf, hadd, of_lays hlays (hout.trans h.length)⟩

theorem validate_eq : validate payload = .ok () := by
  have hlength : payload.length = 16344 := h.length
  apply h.lays.validate_eq
  intro e he
  have hinside := h.inside e he
  have hsix := e.2.six_le_getSize
  omega

theorem removeEntry_only (hes : es = [(offset, entry)]) :
    ∃ out, removeEntry payload entry.key = .ok (some out) ∧ Holds out [] := by
  rcases h.lays.removeEntry_only hes with ⟨out, hremove, hout, hlays⟩
  exact ⟨out, hremove, of_lays hlays (hout.trans h.length)⟩

end

end Holds

end BtreeLeafPayload

open BtreeLeafPayload

/-- A page that is a leaf with the given entries; its checksums may not be set. -/
structure Leaf (page : Page) (pageId : Nat) (es : List (Nat × BtreeLeafEntry)) : Prop where
  magic : page.header.magic = 0x4E534442
  version : page.header.formatVersion = 0
  type : page.header.pageType = .btreeLeaf
  id : page.header.pageId = pageId
  len : page.header.payloadLen = Page.bodySize
  holds : Holds page.body es

namespace Leaf

variable {page : Page} {pageId : Nat} {es : List (Nat × BtreeLeafEntry)} (h : Leaf page pageId es)

include h

theorem decode : page.header.decode = .ok page.header := by
  unfold PageHeader.decode
  rw [if_neg (not_not.mpr h.magic), if_neg (not_not.mpr h.version)]

theorem slice_body : slice page.body 0 page.header.payloadLen = .ok page.body := by
  rw [h.len, ← h.holds.length, slice_whole]

theorem rehash {body : Bytes} {es' : List (Nat × BtreeLeafEntry)} (hbody : Holds body es') :
    Leaf (Page.rehash { page with body }) pageId es' where
  magic := by rw [Page.rehash_magic]; exact h.magic
  version := by rw [Page.rehash_formatVersion]; exact h.version
  type := by rw [Page.rehash_pageType]; exact h.type
  id := by rw [Page.rehash_pageId]; exact h.id
  len := by rw [Page.rehash_payloadLen]; exact h.len
  holds := by rw [Page.rehash_body]; exact hbody

theorem validatePage_rehash {body : Bytes} {es' : List (Nat × BtreeLeafEntry)} (hbody : Holds body es') :
    validatePage (Page.rehash { page with body }) = .ok (Page.rehash { page with body }).header := by
  have hlen : page.header.payloadLen ≤ body.length := by rw [h.len, hbody.length]
  exact @Zig.validatePage_rehash { page with body } h.magic h.version hlen

theorem getValueFromBtreeLeaf_eq (key : Bytes) :
    getValueFromBtreeLeaf page key = .ok ((lookup slotKey key es).map (·.2.value)) := by
  unfold getValueFromBtreeLeaf
  rw [h.decode]
  dsimp only
  rw [if_neg (not_not.mpr h.type), h.slice_body, Except.ok_bind, h.holds.lays.getValue_eq]

theorem drop_body : page.body.drop page.header.payloadLen = [] := by
  rw [h.len, ← h.holds.length, List.drop_length]

theorem addEntryToBtreeLeaf_eq {key value : Bytes} (hroom : BtreeLeafPayload.Room es ⟨key, value⟩)
    (habsent : ∀ e ∈ es, e.2.key ≠ key) :
    ∃ pre suf page', es = pre ++ suf ∧ (∀ e ∈ pre, e.2.key < key) ∧ (∀ e ∈ suf, key < e.2.key) ∧
      addEntryToBtreeLeaf page key value = .ok page' ∧ validatePage page' = .ok page'.header ∧
      Leaf page' pageId
        (pre ++ (minOffset es - BtreeLeafEntry.getSize ⟨key, value⟩, ⟨key, value⟩) :: suf) := by
  rcases h.holds.addEntry_eq hroom habsent with ⟨pre, suf, out, hes, hpre, hsuf, hadd, hout⟩
  refine ⟨pre, suf, Page.rehash { page with body := out }, hes, hpre, hsuf, ?_,
    h.validatePage_rehash hout, h.rehash hout⟩
  unfold addEntryToBtreeLeaf
  rw [h.decode, Except.ok_bind, if_neg (not_not.mpr h.type), h.slice_body, Except.ok_bind, hadd,
    Except.ok_bind, h.drop_body, List.append_nil]
  rfl

theorem copyOnWritePage_eq (txnId : Nat) :
    ∃ copy, Pager.copyOnWritePage page txnId = .ok copy ∧ Leaf copy pageId es := by
  have hstamped : Leaf { page with header := { page.header with txnId } } pageId es :=
    ⟨h.magic, h.version, h.type, h.id, h.len, h.holds⟩
  refine ⟨Page.rehash { page with header := { page.header with txnId } }, ?_,
    hstamped.rehash h.holds⟩
  unfold Pager.copyOnWritePage
  rw [h.decode]
  rfl

theorem removeFromLeaf_only (hes : es = [(offset, entry)]) :
    ∃ page', Pager.removeFromLeaf page entry.key = .ok (some page') ∧
      validatePage page' = .ok page'.header ∧ Leaf page' pageId [] := by
  rcases h.holds.removeEntry_only hes with ⟨out, hremove, hout⟩
  refine ⟨Page.rehash { page with body := out }, ?_, h.validatePage_rehash hout, h.rehash hout⟩
  unfold Pager.removeFromLeaf
  rw [h.decode, Except.ok_bind, if_neg (not_not.mpr h.type), h.slice_body, Except.ok_bind,
    h.holds.validate_eq, Except.ok_bind, hremove, Except.ok_bind]
  dsimp only
  rw [h.drop_body, List.append_nil]
  rfl

end Leaf

theorem leaf_createEmptyBtreeLeaf (pageId txnId : Nat) :
    Leaf (createEmptyBtreeLeaf pageId txnId 0) pageId [] where
  magic := rfl
  version := rfl
  type := rfl
  id := rfl
  len := rfl
  holds := by
    let node : BtreeNodeHeader := { level := 0, keyCount := 0, rightSibling := 0 }
    have hbody : (createEmptyBtreeLeaf pageId txnId 0).body =
        node.encode ++ List.replicate (Page.bodySize - BtreeNodeHeader.size) 0 := rfl
    rw [hbody]
    have hnode : node.encode.length = 48 := by decide
    have hfront : ∀ off len, off + len ≤ 48 →
        window (node.encode ++ List.replicate (Page.bodySize - BtreeNodeHeader.size) 0) off len =
          window node.encode off len := by
      intro off len hoff
      exact window_append_left (by omega)
    exact {
      length := by
        rw [List.length_append, hnode, List.length_replicate]
        rfl
      magic := (hfront 8 4 (by decide)).trans (by decide)
      level := (hfront 12 2 (by decide)).trans (by decide)
      count := (hfront 14 2 (by decide)).trans (by decide)
      few := Nat.zero_le _
      slots := fun _ _ he => nomatch he
      entries := fun _ he => nomatch he
      inside := fun _ he => nomatch he
      sorted := List.Pairwise.nil }

end Northstar.Zig
