import Northstar.Lib.HashMap
import Northstar.Zig.CacheLinks

/-!
# LruOrder — the pages of the cache in the order of their last access

What the calls do to the pages, with the invariant that ties the list to the hash map, to the access counter
and to the byte count.
-/

namespace Northstar.Zig

open Bytes LinkedList

namespace PageCache

namespace View

def page (v : View) (pageId : UInt64) : Option CachedPage := (v.entries.lookup pageId).bind v.pageAt

/-- A node of the list: a page under its own id, no older than the last access, pinned no more often than
there have been calls. -/
structure Cached (v : View) (size calls : Nat) (a : Nat) (p : CachedPage) : Prop where
  pageAt : v.pageAt a = some p
  lookup : v.entries.lookup p.pageId = some a
  size : p.data.length = size
  lastAccess : p.lastAccess ≤ v.accessCounter
  pinCount : p.pinCount ≤ calls
  allocated : a < v.nextEntry

/-- Pages of one size, the most recently used first. -/
structure Ordered (v : View) (size calls : Nat) (nodes : List Nat) : Prop where
  cached : ∀ a ∈ nodes, ∃ p, v.Cached size calls a p
  keyed : ∀ pageId a, v.entries.lookup pageId = some a → a ∈ nodes ∧ ∃ p, v.pageAt a = some p ∧ p.pageId = pageId
  sorted : nodes.Pairwise fun a b => ∀ p q, v.pageAt a = some p → v.pageAt b = some q →
    q.lastAccess < p.lastAccess
  nodup : nodes.Nodup
  count : v.entries.entries.length = nodes.length
  bytes : v.currentBytes = size * nodes.length
  counter : v.accessCounter ≤ calls

variable {v : View} {size calls : Nat} {nodes : List Nat} {a : Nat} {p q : CachedPage} {pageId : UInt64}

theorem Ordered.cached_of_pageAt (h : v.Ordered size calls nodes) (ha : a ∈ nodes) (hp : v.pageAt a = some p) :
    v.Cached size calls a p := by
  rcases h.cached a ha with ⟨q, hq⟩
  have hpq : some q = some p := hq.pageAt.symm.trans hp
  cases hpq
  exact hq

theorem Ordered.cached_of_lookup (h : v.Ordered size calls nodes) (hlookup : v.entries.lookup pageId = some a) :
    a ∈ nodes ∧ ∃ p, v.Cached size calls a p ∧ p.pageId = pageId ∧ v.page pageId = some p := by
  rcases h.keyed pageId a hlookup with ⟨ha, p, hp, hid⟩
  refine ⟨ha, p, h.cached_of_pageAt ha hp, hid, ?_⟩
  unfold page
  rw [hlookup]
  exact hp

theorem Ordered.page_eq_none (h : v.Ordered size calls nodes) :
    v.page pageId = none ↔ v.entries.lookup pageId = none := by
  cases hlookup : v.entries.lookup pageId with
  | none =>
    unfold page
    rw [hlookup]
    exact iff_of_true rfl rfl
  | some a =>
    rcases h.cached_of_lookup hlookup with ⟨-, p, -, -, hp⟩
    rw [hp]
    exact iff_of_false (Option.some_ne_none p) (Option.some_ne_none a)

theorem Ordered.of_page (h : v.Ordered size calls nodes) (hp : v.page pageId = some p) :
    ∃ a, a ∈ nodes ∧ v.Cached size calls a p ∧ p.pageId = pageId := by
  rcases Option.bind_eq_some_iff.mp hp with ⟨a, hlookup, hpage⟩
  rcases h.cached_of_lookup hlookup with ⟨ha, q, hq, hid, -⟩
  have hpq : some q = some p := hq.pageAt.symm.trans hpage
  cases hpq
  exact ⟨a, ha, hq, hid⟩

theorem Cached.page_eq (h : v.Cached size calls a p) : v.page p.pageId = some p := by
  unfold page
  rw [h.lookup]
  exact h.pageAt

theorem Cached.pageId_ne {b : Nat} (hp : v.Cached size calls a p) (hq : v.Cached size calls b q) (hne : b ≠ a) :
    q.pageId ≠ p.pageId := by
  intro heq
  have hlookup := hq.lookup
  rw [heq, hp.lookup] at hlookup
  exact hne (Option.some.inj hlookup).symm

/-- A page is changed and has been accessed. -/
def touched (v : View) (a : Nat) (p : CachedPage) : View :=
  { v with pageAt := Function.update v.pageAt a (some p), accessCounter := p.lastAccess }

variable (h : v.Ordered size calls nodes)
include h

theorem Ordered.touch (ha : a ∈ nodes) (hp : v.pageAt a = some p)
    (hid : q.pageId = p.pageId) (hsize : q.data.length = size) (haccess : q.lastAccess = v.accessCounter + 1)
    (hpin : q.pinCount ≤ calls + 1) :
    (v.touched a q).Ordered size (calls + 1) (a :: nodes.erase a) where
  cached := by
    intro b hb
    by_cases hba : b = a
    · subst hba
      have hcached := h.cached_of_pageAt ha hp
      exact ⟨q, Function.update_self .., hid ▸ hcached.lookup, hsize, Nat.le_refl _, hpin,
        hcached.allocated⟩
    · have hmem : b ∈ nodes := List.mem_of_mem_erase (List.mem_of_ne_of_mem hba hb)
      rcases h.cached b hmem with ⟨r, hr⟩
      refine ⟨r, (Function.update_of_ne hba ..).trans hr.pageAt, hr.lookup, hr.size, ?_,
        Nat.le_succ_of_le hr.pinCount, hr.allocated⟩
      show r.lastAccess ≤ q.lastAccess
      have hle := hr.lastAccess
      omega
  keyed := by
    intro id b hlookup
    rcases h.keyed id b hlookup with ⟨hb, r, hr, hrid⟩
    by_cases hba : b = a
    · subst hba
      rw [hp] at hr
      cases hr
      exact ⟨List.mem_cons_self .., q, Function.update_self .., hid.trans hrid⟩
    · exact ⟨List.mem_cons_of_mem _ ((List.mem_erase_of_ne hba).mpr hb), r,
        (Function.update_of_ne hba ..).trans hr, hrid⟩
  sorted := by
    apply List.pairwise_cons.mpr
    constructor
    · intro b hb r s hr hs
      have hba : b ≠ a := fun heq => h.nodup.not_mem_erase (heq ▸ hb)
      rw [show (v.touched a q).pageAt a = some q from Function.update_self ..] at hr
      rw [show (v.touched a q).pageAt b = v.pageAt b from Function.update_of_ne hba ..] at hs
      cases hr
      have hle := (h.cached_of_pageAt (List.mem_of_mem_erase hb) hs).lastAccess
      omega
    · apply (h.sorted.sublist List.erase_sublist).imp_of_mem
      intro b b' hb hb' hlt r s hr hs
      have hba : b ≠ a := fun heq => h.nodup.not_mem_erase (heq ▸ hb)
      have hba' : b' ≠ a := fun heq => h.nodup.not_mem_erase (heq ▸ hb')
      exact hlt r s ((Function.update_of_ne hba ..).symm.trans hr) ((Function.update_of_ne hba' ..).symm.trans hs)
  nodup := List.nodup_cons.mpr ⟨h.nodup.not_mem_erase, h.nodup.erase a⟩
  count := by
    rw [(List.perm_cons_erase ha).symm.length_eq]
    exact h.count
  bytes := by
    rw [(List.perm_cons_erase ha).symm.length_eq]
    exact h.bytes
  counter := by
    show q.lastAccess ≤ calls + 1
    have hle := h.counter
    omega

def changed (v : View) (a : Nat) (p : CachedPage) : View :=
  { v with pageAt := Function.update v.pageAt a (some p) }

theorem Ordered.change (ha : a ∈ nodes) (hp : v.pageAt a = some p)
    (hid : q.pageId = p.pageId) (hsize : q.data.length = size) (haccess : q.lastAccess = p.lastAccess)
    (hpin : q.pinCount ≤ calls + 1) : (v.changed a q).Ordered size (calls + 1) nodes where
  cached := by
    intro b hb
    rcases h.cached b hb with ⟨r, hr⟩
    by_cases hba : b = a
    · subst hba
      have hcached := h.cached_of_pageAt ha hp
      exact ⟨q, Function.update_self .., hid ▸ hcached.lookup, hsize, haccess ▸ hcached.lastAccess, hpin,
        hcached.allocated⟩
    · exact ⟨r, (Function.update_of_ne hba ..).trans hr.pageAt, hr.lookup, hr.size, hr.lastAccess,
        Nat.le_succ_of_le hr.pinCount, hr.allocated⟩
  keyed := by
    intro id b hlookup
    rcases h.keyed id b hlookup with ⟨hb, r, hr, hrid⟩
    refine ⟨hb, ?_⟩
    by_cases hba : b = a
    · subst hba
      rw [hp] at hr
      cases hr
      exact ⟨q, Function.update_self .., hid.trans hrid⟩
    · exact ⟨r, (Function.update_of_ne hba ..).trans hr, hrid⟩
  sorted := by
    -- the time of the last access of every page is the old one
    have hold : ∀ b r, (v.changed a q).pageAt b = some r →
        ∃ s, v.pageAt b = some s ∧ s.lastAccess = r.lastAccess := by
      intro b r hr
      by_cases hba : b = a
      · subst hba
        rw [show (v.changed b q).pageAt b = some q from Function.update_self ..] at hr
        cases hr
        exact ⟨p, hp, haccess.symm⟩
      · exact ⟨r, (Function.update_of_ne hba ..).symm.trans hr, rfl⟩
    apply h.sorted.imp
    intro b b' hlt r s hr hs
    rcases hold b r hr with ⟨r', hr', hreq⟩
    rcases hold b' s hs with ⟨s', hs', hseq⟩
    have hlt' := hlt r' s' hr' hs'
    omega
  nodup := h.nodup
  count := h.count
  bytes := h.bytes
  counter := Nat.le_succ_of_le h.counter

/-- A new page, cached under an id that had none. -/
def inserted (v : View) (p : CachedPage) : View :=
  { v with
    pageAt := Function.update v.pageAt v.nextEntry (some p)
    nextEntry := v.nextEntry + 1
    entries := v.entries.insert p.pageId v.nextEntry
    accessCounter := p.lastAccess
    currentBytes := v.currentBytes + p.data.length }

theorem Ordered.nextEntry_notMem : v.nextEntry ∉ nodes := by
  intro hmem
  rcases h.cached _ hmem with ⟨p, hp⟩
  exact Nat.lt_irrefl _ hp.allocated

theorem Ordered.insert (hnew : v.entries.lookup p.pageId = none)
    (hsize : p.data.length = size) (haccess : p.lastAccess = v.accessCounter + 1) (hpin : p.pinCount = 0) :
    (v.inserted p).Ordered size (calls + 1) (v.nextEntry :: nodes) where
  cached := by
    intro b hb
    by_cases hba : b = v.nextEntry
    · subst hba
      exact ⟨p, Function.update_self .., AList.lookup_insert _, hsize, Nat.le_refl _, hpin ▸ Nat.zero_le _,
        Nat.lt_succ_self _⟩
    · rcases h.cached b (List.mem_of_ne_of_mem hba hb) with ⟨r, hr⟩
      have hne : r.pageId ≠ p.pageId := by
        intro heq
        have hlookup := hr.lookup
        rw [heq, hnew] at hlookup
        cases hlookup
      refine ⟨r, (Function.update_of_ne hba ..).trans hr.pageAt, (AList.lookup_insert_ne hne).trans hr.lookup,
        hr.size, ?_, Nat.le_succ_of_le hr.pinCount, Nat.lt_succ_of_lt hr.allocated⟩
      show r.lastAccess ≤ p.lastAccess
      have hle := hr.lastAccess
      omega
  keyed := by
    intro id b hlookup
    by_cases hid : id = p.pageId
    · subst hid
      have hself : some v.nextEntry = some b := (AList.lookup_insert _).symm.trans hlookup
      cases hself
      exact ⟨List.mem_cons_self .., p, Function.update_self .., rfl⟩
    · rcases h.keyed id b ((AList.lookup_insert_ne hid).symm.trans hlookup) with ⟨hb, r, hr, hrid⟩
      have hba : b ≠ v.nextEntry := fun heq => h.nextEntry_notMem (heq ▸ hb)
      exact ⟨List.mem_cons_of_mem _ hb, r, (Function.update_of_ne hba ..).trans hr, hrid⟩
  sorted := by
    apply List.pairwise_cons.mpr
    constructor
    · intro b hb r s hr hs
      have hba : b ≠ v.nextEntry := fun heq => h.nextEntry_notMem (heq ▸ hb)
      rw [show (v.inserted p).pageAt v.nextEntry = some p from Function.update_self ..] at hr
      rw [show (v.inserted p).pageAt b = v.pageAt b from Function.update_of_ne hba ..] at hs
      cases hr
      have hle := (h.cached_of_pageAt hb hs).lastAccess
      omega
    · apply h.sorted.imp_of_mem
      intro b b' hb hb' hlt r s hr hs
      have hba : b ≠ v.nextEntry := fun heq => h.nextEntry_notMem (heq ▸ hb)
      have hba' : b' ≠ v.nextEntry := fun heq => h.nextEntry_notMem (heq ▸ hb')
      exact hlt r s ((Function.update_of_ne hba ..).symm.trans hr) ((Function.update_of_ne hba' ..).symm.trans hs)
  nodup := List.nodup_cons.mpr ⟨h.nextEntry_notMem, h.nodup⟩
  count := by
    show (v.entries.insert p.pageId v.nextEntry).entries.length = _
    rw [HashMap.length_insert_new hnew, h.count]
    rfl
  bytes := by
    show v.currentBytes + p.data.length = size * (nodes.length + 1)
    rw [h.bytes, hsize, Nat.mul_succ]
  counter := by
    show p.lastAccess ≤ calls + 1
    have hle := h.counter
    omega

/-- A page is taken out. -/
def removed (v : View) (a : Nat) (p : CachedPage) : View :=
  { v with
    pageAt := Function.update v.pageAt a none
    entries := v.entries.erase p.pageId
    currentBytes := v.currentBytes - p.data.length }

theorem Ordered.remove (ha : a ∈ nodes) (hp : v.pageAt a = some p) :
    (v.removed a p).Ordered size calls (nodes.erase a) where
  cached := by
    intro b hb
    have hba : b ≠ a := fun heq => h.nodup.not_mem_erase (heq ▸ hb)
    rcases h.cached b (List.mem_of_mem_erase hb) with ⟨r, hr⟩
    have hne := (h.cached_of_pageAt ha hp).pageId_ne hr hba
    exact ⟨r, (Function.update_of_ne hba ..).trans hr.pageAt, (AList.lookup_erase_ne hne).trans hr.lookup,
      hr.size, hr.lastAccess, hr.pinCount, hr.allocated⟩
  keyed := by
    intro id b hlookup
    by_cases hid : id = p.pageId
    · subst hid
      have hnone : none = some b := (AList.lookup_erase _ _).symm.trans hlookup
      cases hnone
    · rcases h.keyed id b ((AList.lookup_erase_ne hid).symm.trans hlookup) with ⟨hb, r, hr, hrid⟩
      have hba : b ≠ a := by
        rintro rfl
        rw [hp] at hr
        cases hr
        exact hid hrid.symm
      exact ⟨(List.mem_erase_of_ne hba).mpr hb, r, (Function.update_of_ne hba ..).trans hr, hrid⟩
  sorted := by
    apply (h.sorted.sublist List.erase_sublist).imp_of_mem
    intro b b' hb hb' hlt r s hr hs
    have hba : b ≠ a := fun heq => h.nodup.not_mem_erase (heq ▸ hb)
    have hba' : b' ≠ a := fun heq => h.nodup.not_mem_erase (heq ▸ hb')
    exact hlt r s ((Function.update_of_ne hba ..).symm.trans hr) ((Function.update_of_ne hba' ..).symm.trans hs)
  nodup := h.nodup.erase a
  count := by
    show (v.entries.erase p.pageId).entries.length = _
    have hlength := HashMap.length_erase (h.cached_of_pageAt ha hp).lookup
    have hcount := h.count
    rw [List.length_erase_of_mem ha]
    omega
  bytes := by
    show v.currentBytes - p.data.length = size * (nodes.erase a).length
    rw [h.bytes, (h.cached_of_pageAt ha hp).size, List.length_erase_of_mem ha, Nat.mul_sub_one]
  counter := h.counter

theorem Ordered.reorder {entries : AList fun _ : UInt64 => Nat}
    (hlookup : ∀ pageId, entries.lookup pageId = v.entries.lookup pageId)
    (hlength : entries.entries.length = v.entries.entries.length) :
    View.Ordered { v with entries := entries } size calls nodes where
  cached := by
    intro b hb
    rcases h.cached b hb with ⟨r, hr⟩
    exact ⟨r, hr.pageAt, (hlookup _).trans hr.lookup, hr.size, hr.lastAccess, hr.pinCount, hr.allocated⟩
  keyed id b hb := h.keyed id b ((hlookup id).symm.trans hb)
  sorted := h.sorted
  nodup := h.nodup
  count := hlength.trans h.count
  bytes := h.bytes
  counter := h.counter

theorem Ordered.mono : v.Ordered size (calls + 1) nodes where
  cached := by
    intro b hb
    rcases h.cached b hb with ⟨r, hr⟩
    exact ⟨r, hr.pageAt, hr.lookup, hr.size, hr.lastAccess, Nat.le_succ_of_le hr.pinCount, hr.allocated⟩
  keyed := h.keyed
  sorted := h.sorted
  nodup := h.nodup
  count := h.count
  bytes := h.bytes
  counter := Nat.le_succ_of_le h.counter

theorem Ordered.page_changed (ha : a ∈ nodes) (hp : v.pageAt a = some p)
    (hid : q.pageId = p.pageId) : (v.changed a q).page = Function.update v.page q.pageId (some q) := by
  funext id
  rw [Function.update_apply, hid]
  show (v.entries.lookup id).bind (Function.update v.pageAt a (some q)) = _
  by_cases heq : id = p.pageId
  · rw [if_pos heq, heq, (h.cached_of_pageAt ha hp).lookup]
    exact Function.update_self ..
  · rw [if_neg heq]
    unfold page
    cases hlookup : v.entries.lookup id with
    | none => rfl
    | some b =>
      rcases h.keyed id b hlookup with ⟨-, r, hr, hrid⟩
      apply Function.update_of_ne
      rintro rfl
      rw [hp] at hr
      cases hr
      exact heq hrid.symm

theorem Ordered.page_inserted (p : CachedPage) :
    (v.inserted p).page = Function.update v.page p.pageId (some p) := by
  funext id
  rw [Function.update_apply]
  show ((v.entries.insert p.pageId v.nextEntry).lookup id).bind (Function.update v.pageAt v.nextEntry (some p)) = _
  by_cases heq : id = p.pageId
  · rw [if_pos heq, heq, AList.lookup_insert]
    exact Function.update_self ..
  · rw [if_neg heq, AList.lookup_insert_ne heq]
    unfold page
    cases hlookup : v.entries.lookup id with
    | none => rfl
    | some b =>
      apply Function.update_of_ne
      rintro rfl
      exact h.nextEntry_notMem (h.keyed id _ hlookup).1

theorem Ordered.page_removed (hp : v.pageAt a = some p) :
    (v.removed a p).page = Function.update v.page p.pageId none := by
  funext id
  rw [Function.update_apply]
  show ((v.entries.erase p.pageId).lookup id).bind (Function.update v.pageAt a none) = _
  by_cases heq : id = p.pageId
  · rw [if_pos heq, heq, AList.lookup_erase]
    rfl
  · rw [if_neg heq, AList.lookup_erase_ne heq]
    unfold page
    cases hlookup : v.entries.lookup id with
    | none => rfl
    | some b =>
      rcases h.keyed id b hlookup with ⟨-, r, hr, hrid⟩
      apply Function.update_of_ne
      rintro rfl
      rw [hp] at hr
      cases hr
      exact heq hrid.symm

end View

end PageCache

end Northstar.Zig
