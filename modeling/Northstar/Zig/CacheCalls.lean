import Northstar.Zig.LruOrder

/-!
# CacheCalls — what the calls on the page cache do

Every call goes through, or panics over a counter.  No page that is pinned is removed, and what is evicted for
a new page are the unpinned pages that have been used least recently.
-/

namespace Northstar.Zig

open Bytes LinkedList EStateM

namespace PageCache

/-- The list is the one of the pages, the most recently used first. -/
structure Sound (c : PageCache) (size calls : Nat) (nodes : List Nat) : Prop where
  represents : c.links.Represents nodes
  ordered : c.view.Ordered size calls nodes

variable {c c' : PageCache} {size calls : Nat} {nodes : List Nat} {entry : Nat} {p q : CachedPage} {pageId : UInt64}
  {data : Bytes}

theorem Sound.lists (h : c.Sound size calls nodes) : c.Lists nodes := by
  refine ⟨h.represents, ?_⟩
  intro a ha
  rcases h.ordered.cached a ha with ⟨p, hp⟩
  exact ⟨p, hp.pageAt⟩

abbrev CounterOverflow (c : PageCache) (e : CacheError) : Prop := e = .overflow ∧ 2 ^ 64 ≤ c.accessCounter + 1

theorem ends_nextAccess (c : PageCache) : Ends nextAccess c
      (fun access c' => access = c.accessCounter + 1 ∧ c' = { c with accessCounter := c.accessCounter + 1 })
      (fun e _ => CounterOverflow c e) := by
  by_cases hlt : c.accessCounter + 1 < 2 ^ 64
  · have hrun : nextAccess.run c = .ok (c.accessCounter + 1) { c with accessCounter := c.accessCounter + 1 } := by
      show (if c.accessCounter + 1 < 2 ^ 64 then _ else _ : CacheM Nat).run c = _
      rw [if_pos hlt]
      rfl
    exact ends_of_ok hrun ⟨rfl, rfl⟩
  · have hrun : nextAccess.run c = .error .overflow c := by
      show (if c.accessCounter + 1 < 2 ^ 64 then _ else _ : CacheM Nat).run c = _
      rw [if_neg hlt]
      rfl
    exact ends_of_error hrun ⟨rfl, by omega⟩

theorem ends_touch (h : c.Lists nodes) (hmem : entry ∈ nodes) (hp : c.view.pageAt entry = some p) :
    Ends (touch entry) c
      (fun _ c' => c'.Lists (entry :: nodes.erase entry) ∧
        c'.view = c.view.touched entry { p with lastAccess := c.accessCounter + 1 })
      (fun e _ => CounterOverflow c e) := by
  unfold touch
  apply (ends_nextAccess c).bind
  rintro access c₁ - ⟨rfl, rfl⟩
  have hlists : Lists { c with accessCounter := c.accessCounter + 1 } nodes := ⟨h.represents, h.live⟩
  rcases run_assign_page (c := { c with accessCounter := c.accessCounter + 1 })
    (f := fun e => { e with lastAccess := c.accessCounter + 1 }) (fun _ => ⟨rfl, rfl⟩)
    (g := fun p => { p with lastAccess := c.accessCounter + 1 }) (fun _ => rfl) hp with
    ⟨c₂, hrun₂, hlinks₂, hview₂⟩
  have hlists₂ : c₂.Lists nodes := by
    refine ⟨hlinks₂ ▸ hlists.represents, ?_⟩
    intro a ha
    rw [hview₂]
    by_cases heq : a = entry
    · subst heq
      exact ⟨_, Function.update_self ..⟩
    · rcases h.live a ha with ⟨r, hr⟩
      exact ⟨r, (Function.update_of_ne heq ..).trans hr⟩
  rcases run_moveToFront hlists₂ hmem with ⟨c₃, hrun₃, hview₃, hlists₃⟩
  apply ends_bind_of_ok hrun₂
  exact ends_of_ok hrun₃ ⟨hlists₃, hview₃.trans hview₂⟩

theorem ends_addPin (hp : c.view.pageAt entry = some p) : Ends (addPin entry) c
      (fun _ c' => c'.links = c.links ∧ c'.view = c.view.changed entry { p with pinCount := p.pinCount + 1 })
      (fun e _ => e = .overflow ∧ 2 ^ 32 ≤ p.pinCount + 1) := by
  rcases heap_of_pageAt hp with ⟨e, hheap, rfl⟩
  unfold addPin
  apply ends_bind_of_ok (run_deref hheap)
  by_cases hlt : e.pinCount + 1 < 2 ^ 32
  · rw [if_pos hlt]
    rcases run_assign_page (f := fun e => { e with pinCount := e.pinCount + 1 }) (fun _ => ⟨rfl, rfl⟩)
      (g := fun p => { p with pinCount := p.pinCount + 1 }) (fun _ => rfl) hp with ⟨c₁, hrun, hlinks, hview⟩
    exact ends_of_ok hrun ⟨hlinks, hview⟩
  · rw [if_neg hlt]
    exact ends_of_error (run_throw_any _ _) ⟨rfl, by omega⟩

/-- The state after a call is sound, has these pages, and the limits are as before. -/
structure After (c : PageCache) (size calls : Nat) (pages : UInt64 → Option CachedPage) (c' : PageCache) : Prop where
  sound : ∃ nodes, c'.Sound size calls nodes
  page : c'.view.page = pages
  maxPages : c'.maxPages = c.maxPages
  maxBytes : c'.maxBytes = c.maxBytes

/-- A panic needs more calls than a counter has room for. -/
abbrev Overflow (calls : Nat) (e : CacheError) : Prop := e = .overflow ∧ 2 ^ 32 ≤ calls + 1

theorem CounterOverflow.overflow {e : CacheError} (h : CounterOverflow c e) (hsound : c.Sound size calls nodes) :
    Overflow calls e := by
  have hle : c.accessCounter ≤ calls := hsound.ordered.counter
  exact ⟨h.1, by have := h.2; omega⟩

theorem Sound.after_none (h : c.Sound size calls nodes) : After c size (calls + 1) c.view.page c :=
  ⟨⟨nodes, h.represents, h.ordered.mono⟩, rfl, rfl, rfl⟩

theorem Sound.lookup (h : c.Sound size calls nodes) (hlookup : c.entries.lookup pageId = some entry) :
    entry ∈ nodes ∧ ∃ p, c.view.Cached size calls entry p ∧ p.pageId = pageId ∧ c.view.page pageId = some p :=
  h.ordered.cached_of_lookup hlookup

theorem Sound.after_touch (h : c.Sound size calls nodes) (hmem : entry ∈ nodes)
    (hp : c.view.pageAt entry = some p) (hid : q.pageId = p.pageId) (hsize : q.data.length = size)
    (haccess : q.lastAccess = c.accessCounter + 1) (hpin : q.pinCount ≤ calls + 1)
    (hlists : c'.Lists (entry :: nodes.erase entry)) (hview : c'.view = c.view.touched entry q) :
    After c size (calls + 1) (Function.update c.view.page p.pageId (some q)) c' ∧
      ∃ e, (deref entry).run c' = .ok e c' ∧ e.data = q.data := by
  have htouched := h.ordered.touch hmem hp hid hsize haccess hpin
  rw [← hview] at htouched
  have hpage : c'.view.page = Function.update c.view.page p.pageId (some q) := by
    rw [hview, ← hid]
    exact h.ordered.page_changed hmem hp hid
  have hat : c'.view.pageAt entry = some q := by
    rw [hview]
    exact Function.update_self ..
  rcases heap_of_pageAt hat with ⟨e, hheap, rfl⟩
  exact ⟨⟨⟨_, hlists.represents, htouched⟩, hpage, congrArg View.maxPages hview, congrArg View.maxBytes hview⟩,
    e, run_deref hheap, rfl⟩

theorem ends_getUnpinned (h : c.Sound size calls nodes) (pageId : UInt64) :
    Ends (getUnpinned pageId) c
      (fun result c' => match c.view.page pageId with
        | none => result = none ∧ c' = c
        | some p => result = some p.data ∧ After c size (calls + 1) (Function.update c.view.page pageId
            (some { p with lastAccess := c.accessCounter + 1 })) c')
      (fun e _ => Overflow calls e) := by
  unfold getUnpinned
  apply ends_getThe_bind
  cases hlookup : c.entries.lookup pageId with
  | none =>
    rw [h.ordered.page_eq_none.mpr hlookup]
    exact ends_of_ok (run_pure _ _) ⟨rfl, rfl⟩
  | some entry =>
    rcases h.lookup hlookup with ⟨hmem, p, hp, rfl, hpage⟩
    rw [hpage]
    apply ((ends_touch h.lists hmem hp.pageAt).mono (fun _ _ h => h) fun e _ he => he.overflow h).bind
    rintro _ c₁ - ⟨hlists, hview⟩
    rcases h.after_touch hmem hp.pageAt (q := { p with lastAccess := c.accessCounter + 1 }) rfl hp.size rfl
      (Nat.le_succ_of_le hp.pinCount) hlists hview with ⟨hafter, e, hrun, hdata⟩
    apply ends_bind_of_ok hrun
    refine ends_of_ok (run_pure _ _) ⟨?_, hafter⟩
    rw [hdata]

theorem ends_get (h : c.Sound size calls nodes) (pageId : UInt64) : Ends (get pageId) c
      (fun result c' => match c.view.page pageId with
        | none => result = none ∧ c' = c
        | some p => result = some p.data ∧ After c size (calls + 1) (Function.update c.view.page pageId
            (some { p with pinCount := p.pinCount + 1, lastAccess := c.accessCounter + 1 })) c')
      (fun e _ => Overflow calls e) := by
  unfold get
  apply ends_getThe_bind
  cases hlookup : c.entries.lookup pageId with
  | none =>
    rw [h.ordered.page_eq_none.mpr hlookup]
    exact ends_of_ok (run_pure _ _) ⟨rfl, rfl⟩
  | some entry =>
    rcases h.lookup hlookup with ⟨hmem, p, hp, rfl, hpage⟩
    rw [hpage]
    have hpins := hp.pinCount
    apply ((ends_addPin hp.pageAt).mono (fun _ _ h => h) fun e _ he => ⟨he.1, he.2.trans (by omega)⟩).bind
    rintro _ c₁ - ⟨hlinks₁, hview₁⟩
    have hat₁ : c₁.view.pageAt entry = some { p with pinCount := p.pinCount + 1 } := by
      rw [hview₁]
      exact Function.update_self ..
    have hchanged := h.ordered.change hmem hp.pageAt (q := { p with pinCount := p.pinCount + 1 }) rfl hp.size rfl
      (Nat.succ_le_succ hp.pinCount)
    have hsound₁ : c₁.Sound size (calls + 1) nodes := ⟨hlinks₁ ▸ h.represents, hview₁ ▸ hchanged⟩
    have hcounter : c₁.accessCounter = c.accessCounter := congrArg View.accessCounter hview₁
    apply ((ends_touch hsound₁.lists hmem hat₁).mono (fun _ _ h => h) fun e _ he => by
      unfold CounterOverflow at he
      rw [hcounter] at he
      exact CounterOverflow.overflow he h).bind
    rintro _ c₂ - ⟨hlists, hview₂⟩
    -- the pin and the access are one change of the page
    have hview : c₂.view = c.view.touched entry
        { p with pinCount := p.pinCount + 1, lastAccess := c.accessCounter + 1 } := by
      rw [hview₂, hview₁, hcounter]
      unfold View.touched View.changed
      rw [Function.update_idem]
    rcases h.after_touch hmem hp.pageAt (q := { p with pinCount := p.pinCount + 1, lastAccess := c.accessCounter + 1 })
      rfl hp.size rfl (Nat.succ_le_succ hp.pinCount) hlists hview with ⟨hafter, e, hrun, hdata⟩
    apply ends_bind_of_ok hrun
    refine ends_of_ok (run_pure _ _) ⟨?_, hafter⟩
    rw [hdata]

theorem Sound.after_change (h : c.Sound size calls nodes) (hmem : entry ∈ nodes)
    (hp : c.view.pageAt entry = some p) (hid : q.pageId = p.pageId) (hsize : q.data.length = size)
    (haccess : q.lastAccess = p.lastAccess) (hpin : q.pinCount ≤ calls + 1) (hlinks : c'.links = c.links)
    (hview : c'.view = c.view.changed entry q) :
    After c size (calls + 1) (Function.update c.view.page p.pageId (some q)) c' := by
  have hchanged := h.ordered.change hmem hp hid hsize haccess hpin
  rw [← hview] at hchanged
  refine ⟨⟨nodes, hlinks ▸ h.represents, hchanged⟩, ?_, congrArg View.maxPages hview,
    congrArg View.maxBytes hview⟩
  rw [hview, ← hid]
  exact h.ordered.page_changed hmem hp hid

theorem ends_pin (h : c.Sound size calls nodes) (pageId : UInt64) : Ends (pin pageId) c
      (fun _ c' => match c.view.page pageId with
        | none => c' = c
        | some p => After c size (calls + 1) (Function.update c.view.page pageId
            (some { p with pinCount := p.pinCount + 1 })) c')
      (fun e _ => Overflow calls e) := by
  unfold pin
  apply ends_getThe_bind
  cases hlookup : c.entries.lookup pageId with
  | none =>
    rw [h.ordered.page_eq_none.mpr hlookup]
    exact ends_of_ok (run_pure _ _) rfl
  | some entry =>
    rcases h.lookup hlookup with ⟨hmem, p, hp, rfl, hpage⟩
    rw [hpage]
    have hpins := hp.pinCount
    apply (ends_addPin hp.pageAt).mono
    · rintro _ c₁ ⟨hlinks, hview⟩
      exact h.after_change hmem hp.pageAt rfl hp.size rfl (Nat.succ_le_succ hp.pinCount) hlinks hview
    · exact fun e _ he => ⟨he.1, he.2.trans (by omega)⟩

theorem ends_unpin (h : c.Sound size calls nodes) (pageId : UInt64) :
    ∃ c', (unpin pageId).run c = .ok () c' ∧ match c.view.page pageId with
      | none => c' = c
      | some p => After c size (calls + 1) (Function.update c.view.page pageId
          (some { p with pinCount := p.pinCount - 1 })) c' := by
  unfold unpin
  rw [run_getThe_bind]
  cases hlookup : c.entries.lookup pageId with
  | none =>
    rw [h.ordered.page_eq_none.mpr hlookup]
    exact ⟨c, rfl, rfl⟩
  | some entry =>
    rcases h.lookup hlookup with ⟨hmem, p, hp, rfl, hpage⟩
    rw [hpage]
    have hpred : ∀ n : Nat, (if n > 0 then n - 1 else n) = n - 1 := by
      intro n
      split
      · rfl
      · omega
    rcases run_assign_page (f := fun e => { e with pinCount := if e.pinCount > 0 then e.pinCount - 1 else e.pinCount })
      (fun _ => ⟨rfl, rfl⟩) (g := fun p => { p with pinCount := p.pinCount - 1 })
      (fun e => by rw [hpred]) hp.pageAt with ⟨c₁, hrun, hlinks, hview⟩
    have hpins := hp.pinCount
    exact ⟨c₁, hrun, h.after_change hmem hp.pageAt rfl hp.size rfl (show p.pinCount - 1 ≤ calls + 1 by omega)
      hlinks hview⟩

theorem run_discard (h : c.Lists nodes) (hmem : entry ∈ nodes) (hp : c.view.pageAt entry = some p)
    (hbytes : p.data.length ≤ c.currentBytes) :
    ∃ c', (discard entry).run c = .ok () c' ∧ c'.links.Represents (nodes.erase entry) ∧
      c'.view = { c.view with
        pageAt := Function.update c.view.pageAt entry none
        currentBytes := c.currentBytes - p.data.length } := by
  rcases run_removeFromList h hmem with ⟨c₁, hrun₁, hview₁, hlinks₁⟩
  have hp₁ := hp
  rw [← hview₁] at hp₁
  rcases heap_of_pageAt hp₁ with ⟨e, hheap, rfl⟩
  have hbytes₁ : c₁.currentBytes = c.currentBytes := congrArg View.currentBytes hview₁
  refine ⟨{ c₁ with
    currentBytes := c₁.currentBytes - e.data.length
    heap := Function.update c₁.heap entry none }, ?_, ?_, ?_⟩
  · unfold discard
    rw [run_bind_of_ok hrun₁, run_bind_of_ok (run_deref hheap)]
    show (if e.data.length ≤ c₁.currentBytes then _ else _ : CacheM Unit).run c₁ = _
    rw [if_pos (hbytes₁ ▸ hbytes)]
    rfl
  · -- an entry that has left the list names no neighbours
    have hprev : c₁.links.prev entry = none := by
      rw [hlinks₁]
      exact Function.update_self ..
    have hnext : c₁.links.next entry = none := by
      rw [hlinks₁]
      exact Function.update_self ..
    have hsame : links { c₁ with
        currentBytes := c₁.currentBytes - e.data.length
        heap := Function.update c₁.heap entry none } = c₁.links := by
      unfold links
      congr 1
      · funext other
        by_cases heq : other = entry
        · subst heq
          show (Function.update c₁.heap other none other).bind CacheEntry.prev = _
          rw [Function.update_self]
          exact hprev.symm
        · show (Function.update c₁.heap entry none other).bind CacheEntry.prev = _
          rw [Function.update_of_ne heq]
      · funext other
        by_cases heq : other = entry
        · subst heq
          show (Function.update c₁.heap other none other).bind CacheEntry.next = _
          rw [Function.update_self]
          exact hnext.symm
        · show (Function.update c₁.heap entry none other).bind CacheEntry.next = _
          rw [Function.update_of_ne heq]
    rw [hsame, hlinks₁]
    exact h.represents.unlink hmem
  · rw [← hview₁, ← hbytes₁]
    unfold view
    congr 1
    funext other
    dsimp only
    rw [Function.update_apply, Function.update_apply]
    split <;> rfl

theorem Sound.bytes_le (h : c.Sound size calls nodes) (hmem : entry ∈ nodes) (hp : c.view.Cached size calls entry p) :
    p.data.length ≤ c.currentBytes := by
  have hbytes : c.currentBytes = size * nodes.length := h.ordered.bytes
  rw [hbytes, hp.size]
  exact Nat.le_mul_of_pos_right _ (List.length_pos_of_mem hmem)

theorem Sound.run_discard (h : c.Sound size calls nodes) (hmem : entry ∈ nodes)
    (hp : c.view.Cached size calls entry p) :
    ∃ c', (discard entry).run { c with entries := c.entries.erase p.pageId } = .ok () c' ∧
      After c size calls (Function.update c.view.page p.pageId none) c' ∧ c'.count + 1 = c.count := by
  have hlists : Lists { c with entries := c.entries.erase p.pageId } nodes := ⟨h.represents, h.lists.live⟩
  rcases PageCache.run_discard hlists hmem hp.pageAt (h.bytes_le hmem hp) with ⟨c₁, hrun, hrepresents, hview⟩
  have hremoved : c₁.view = c.view.removed entry p := hview
  refine ⟨c₁, hrun, ⟨⟨_, hrepresents, ?_⟩, ?_, congrArg View.maxPages hview, congrArg View.maxBytes hview⟩, ?_⟩
  · rw [hremoved]
    exact h.ordered.remove hmem hp.pageAt
  · rw [hremoved]
    exact h.ordered.page_removed hp.pageAt
  · have hentries : c₁.entries = c.entries.erase p.pageId := congrArg View.entries hview
    unfold count
    rw [hentries]
    exact HashMap.length_erase hp.lookup

theorem run_remove (h : c.Sound size calls nodes) (pageId : UInt64) :
    ∃ result c', (remove pageId).run c = .ok result c' ∧ match c.view.page pageId with
      | none => result = false ∧ c' = c
      | some p => if p.pinCount = 0 then
          result = true ∧ After c size calls (Function.update c.view.page pageId none) c'
        else result = false ∧ After c size calls c.view.page c' := by
  unfold remove
  rw [run_getThe_bind]
  cases hlookup : c.entries.lookup pageId with
  | none =>
    rw [h.ordered.page_eq_none.mpr hlookup]
    exact ⟨false, c, rfl, rfl, rfl⟩
  | some entry =>
    rcases h.lookup hlookup with ⟨hmem, p, hp, rfl, hpage⟩
    rw [hpage]
    rcases heap_of_pageAt hp.pageAt with ⟨e, hheap, rfl⟩
    have hderef : (deref entry).run { c with entries := c.entries.erase e.pageId } =
        .ok e { c with entries := c.entries.erase e.pageId } :=
      run_deref hheap
    dsimp only
    rw [run_bind_of_ok (run_modify ..), run_bind_of_ok hderef]
    by_cases hpin : e.pinCount = 0
    · rw [if_pos hpin]
      rcases h.run_discard hmem hp with ⟨c₁, hrun, hafter, -⟩
      rw [run_bind_of_ok hrun]
      refine ⟨true, c₁, rfl, ?_⟩
      rw [if_pos hpin]
      exact ⟨rfl, hafter⟩
    · rw [if_neg hpin]
      refine ⟨false, _, rfl, ?_⟩
      rw [if_neg hpin]
      refine ⟨rfl, ⟨nodes, h.represents, ?_⟩, ?_, rfl, rfl⟩
      · apply h.ordered.reorder
        · intro id
          by_cases hid : id = e.pageId
          · rw [hid, AList.lookup_insert]
            exact hp.lookup.symm
          · rw [AList.lookup_insert_ne hid, AList.lookup_erase_ne hid]
            rfl
        · show ((c.entries.erase e.pageId).insert e.pageId entry).entries.length = _
          rw [HashMap.length_insert_new (AList.lookup_erase _ _)]
          exact HashMap.length_erase hp.lookup
      · funext id
        show (((c.entries.erase e.pageId).insert e.pageId entry).lookup id).bind c.view.pageAt = _
        by_cases hid : id = e.pageId
        · rw [hid, AList.lookup_insert]
          exact hp.page_eq.symm ▸ hp.pageAt
        · rw [AList.lookup_insert_ne hid, AList.lookup_erase_ne hid]
          rfl

/-- The pages that are gone were not pinned, and each was older than every unpinned page that stays. -/
structure EvictsOldest (pages pages' : UInt64 → Option CachedPage) : Prop where
  kept : ∀ pageId p, pages' pageId = some p → pages pageId = some p
  oldest : ∀ pageId p, pages pageId = some p → pages' pageId = none → p.pinCount = 0 ∧
    ∀ other q, pages' other = some q → q.pinCount = 0 → p.lastAccess < q.lastAccess

def AllPinned (pages : UInt64 → Option CachedPage) : Prop := ∀ pageId p, pages pageId = some p → 0 < p.pinCount

theorem evictsOldest_refl (pages : UInt64 → Option CachedPage) : EvictsOldest pages pages := by
  refine ⟨fun _ _ h => h, ?_⟩
  intro id p hp hnone
  rw [hp] at hnone
  cases hnone

theorem EvictsOldest.trans {pages₁ pages₂ pages₃ : UInt64 → Option CachedPage} (h : EvictsOldest pages₁ pages₂)
    (h' : EvictsOldest pages₂ pages₃) : EvictsOldest pages₁ pages₃ where
  kept id p hp := h.kept id p (h'.kept id p hp)
  oldest id p hp hnone := by
    cases hmid : pages₂ id with
    | none =>
      have hold := h.oldest id p hp hmid
      exact ⟨hold.1, fun other q hq hpin => hold.2 other q (h'.kept other q hq) hpin⟩
    | some r =>
      have hsame := h.kept id r hmid
      rw [hp] at hsame
      cases hsame
      exact h'.oldest id p hmid hnone

variable {pages pages' : UInt64 → Option CachedPage}

theorem EvictsOldest.pinned (h : EvictsOldest pages pages')
    (hp : pages pageId = some p) (hpin : 0 < p.pinCount) : pages' pageId = some p := by
  cases hpage : pages' pageId with
  | none =>
    have hold := h.oldest pageId p hp hpage
    omega
  | some q =>
    have hsame := h.kept pageId q hpage
    rw [hp] at hsame
    exact hsame.symm

theorem EvictsOldest.allPinned (h : EvictsOldest pages pages')
    (hall : AllPinned pages) : AllPinned pages' := fun id p hp => hall id p (h.kept id p hp)

namespace View

/-- The node has a page that nobody has pinned. -/
def unpinned (v : View) (a : Nat) : Bool := (v.pageAt a).any fun p => decide (p.pinCount = 0)

end View

theorem run_findUnpinned (h : c.Lists nodes) {walk rest : List Nat} {fuel : Nat}
    (hnodes : nodes = walk.reverse ++ rest) (hfuel : walk.length ≤ fuel) :
    (findUnpinned fuel walk.head?).run c = .ok (walk.find? c.view.unpinned) c := by
  induction walk generalizing rest fuel with
  | nil =>
    cases fuel with
    | zero => rfl
    | succ fuel => rfl
  | cons a walk ih =>
    cases fuel with
    | zero => exact absurd hfuel (by simp)
    | succ fuel =>
      have hsplit : nodes = walk.reverse ++ a :: rest := by
        rw [hnodes, List.reverse_cons, List.append_assoc]
        rfl
      have hmem : a ∈ nodes := hsplit ▸ List.mem_append_right _ (List.mem_cons_self ..)
      rcases h.live a hmem with ⟨p, hp⟩
      rcases heap_of_pageAt hp with ⟨e, hheap, rfl⟩
      have hprev : e.prev = walk.head? := by
        have hlinks := (hsplit ▸ h.represents).prev_eq
        rw [← prev_of_heap hheap, hlinks, List.reverse_reverse]
      unfold findUnpinned
      show (deref a >>= fun e => if e.pinCount = 0 then return some a else findUnpinned fuel e.prev).run c = _
      rw [run_bind_of_ok (run_deref hheap)]
      by_cases hpin : e.pinCount = 0
      · have hunpinned : c.view.unpinned a = true := by
          unfold View.unpinned
          rw [hp]
          exact decide_eq_true hpin
        rw [if_pos hpin, List.find?_cons_of_pos hunpinned]
        rfl
      · have hpinned : ¬ c.view.unpinned a = true := by
          unfold View.unpinned
          rw [hp]
          exact fun heq => hpin (of_decide_eq_true heq)
        rw [if_neg hpin, List.find?_cons_of_neg hpinned, hprev]
        exact ih hsplit (Nat.le_of_succ_le_succ hfuel)

theorem Sound.length_le (h : c.Sound size calls nodes) : nodes.length ≤ c.nextEntry := by
  have hsub : nodes ⊆ List.range c.nextEntry := by
    intro a ha
    rcases h.ordered.cached a ha with ⟨p, hp⟩
    exact List.mem_range.mpr hp.allocated
  have hlength := (List.subperm_of_subset h.ordered.nodup hsub).length_le
  rwa [List.length_range] at hlength

theorem Sound.run_findUnpinned (h : c.Sound size calls nodes) :
    (findUnpinned c.nextEntry c.lruTail).run c = .ok (nodes.reverse.find? c.view.unpinned) c := by
  have htail : c.lruTail = nodes.reverse.head? := h.represents.tail
  rw [htail]
  have hnodes : nodes = nodes.reverse.reverse ++ [] := by
    rw [List.reverse_reverse, List.append_nil]
  have hfuel : nodes.reverse.length ≤ c.nextEntry := by
    rw [List.length_reverse]
    exact h.length_le
  exact PageCache.run_findUnpinned h.lists hnodes hfuel

theorem run_evictOne (h : c.Sound size calls nodes) :
    ((evictOne).run c = .ok none c ∧ AllPinned c.view.page) ∨
    ∃ id c' pages', (evictOne).run c = .ok (some id) c' ∧ After c size calls pages' c' ∧
      EvictsOldest c.view.page pages' ∧ c'.count + 1 = c.count := by
  unfold evictOne
  show ((findUnpinned c.nextEntry c.lruTail >>= _).run c = _ ∧ _) ∨
    ∃ id c' pages', (findUnpinned c.nextEntry c.lruTail >>= _).run c = _ ∧ _
  rw [run_bind_of_ok h.run_findUnpinned]
  cases hfind : nodes.reverse.find? c.view.unpinned with
  | none =>
    left
    refine ⟨rfl, ?_⟩
    intro id p hp
    rcases h.ordered.of_page hp with ⟨a, hmem, hcached, -⟩
    have hpinned := List.find?_eq_none.mp hfind a (List.mem_reverse.mpr hmem)
    unfold View.unpinned at hpinned
    rw [hcached.pageAt] at hpinned
    exact Nat.pos_of_ne_zero fun hzero => hpinned (decide_eq_true hzero)
  | some a =>
    right
    rcases List.find?_eq_some_iff_append.mp hfind with ⟨hunpinned, before, behind, hsplit, hpinned⟩
    have hnodes : nodes = behind.reverse ++ a :: before.reverse := by
      rw [← List.reverse_reverse nodes, hsplit, Links.reverse_middle]
    have hmem : a ∈ nodes := hnodes ▸ List.mem_append_right _ (List.mem_cons_self ..)
    rcases h.ordered.cached a hmem with ⟨p, hp⟩
    have hpin : p.pinCount = 0 := by
      unfold View.unpinned at hunpinned
      rw [hp.pageAt] at hunpinned
      exact of_decide_eq_true hunpinned
    rcases heap_of_pageAt hp.pageAt with ⟨e, hheap, rfl⟩
    rcases h.run_discard hmem hp with ⟨c₁, hrun, hafter, hcount⟩
    refine ⟨e.pageId, c₁, _, ?_, hafter, ⟨?_, ?_⟩, hcount⟩
    · dsimp only
      rw [run_bind_of_ok (run_deref hheap), run_bind_of_ok (run_modify ..), run_bind_of_ok hrun]
      rfl
    · intro id q hq
      rw [Function.update_apply] at hq
      split at hq
      · cases hq
      · exact hq
    · intro id q hq hnone
      rw [Function.update_apply] at hnone
      split at hnone
      next heq =>
        subst heq
        rw [hp.page_eq] at hq
        cases hq
        refine ⟨hpin, ?_⟩
        intro other r hr hrpin
        rw [Function.update_apply] at hr
        split at hr
        · cases hr
        next hne =>
          -- an unpinned page that stays stands before the one that goes
          rcases h.ordered.of_page hr with ⟨b, hb, hbcached, hbid⟩
          have hbunpinned : c.view.unpinned b = true := by
            unfold View.unpinned
            rw [hbcached.pageAt]
            exact decide_eq_true hrpin
          rw [hnodes] at hb
          rcases List.mem_append.mp hb with hbefore | hrest
          · have hsorted := h.ordered.sorted
            rw [hnodes] at hsorted
            exact (List.pairwise_append.mp hsorted).2.2 b hbefore a (List.mem_cons_self ..) r e.toCachedPage
              hbcached.pageAt hp.pageAt
          · rcases List.mem_cons.mp hrest with rfl | hlater
            · have hsame : some r = some e.toCachedPage := hbcached.pageAt.symm.trans hp.pageAt
              cases hsame
              exact absurd hbid.symm hne
            · have hpinnedb := hpinned b (List.mem_reverse.mp hlater)
              rw [hbunpinned] at hpinnedb
              cases hpinnedb
      next =>
        rw [hq] at hnone
        cases hnone

theorem After.trans {c₁ c₂ : PageCache} {calls₁ calls₂ : Nat} {pages₁ pages₂ : UInt64 → Option CachedPage}
    (h : After c size calls₁ pages₁ c₁) (h' : After c₁ size calls₂ pages₂ c₂) : After c size calls₂ pages₂ c₂ :=
  ⟨h'.sound, h'.page, h'.maxPages.trans h.maxPages, h'.maxBytes.trans h.maxBytes⟩

theorem run_evictWhile_below (full : PageCache → Bool) (h : ¬ full c = true) (fuel : Nat) :
    (evictWhile full fuel).run c = .ok () c := by
  cases fuel with
  | zero =>
    show (if full c = true then _ else _ : CacheM Unit).run c = _
    rw [if_neg h]
    rfl
  | succ fuel =>
    show (if full c = true then _ else _ : CacheM Unit).run c = _
    rw [if_neg h]
    rfl

theorem run_evictWhile (full : PageCache → Bool) (hover : ∀ c, full c = true → 0 < c.currentBytes ∨ 0 < c.count)
    (h : c.Sound size calls nodes) {fuel : Nat} (hfuel : c.count ≤ fuel) :
    ∃ c' pages', (evictWhile full fuel).run c = .ok () c' ∧ After c size calls pages' c' ∧
      EvictsOldest c.view.page pages' ∧ c'.count ≤ c.count ∧ (full c' = false ∨ AllPinned pages') := by
  by_cases hc : full c = true
  · induction fuel generalizing c nodes with
    | zero =>
      -- without a page there is nothing to be full
      have hcount : c.count = nodes.length := h.ordered.count
      have hbytes : c.currentBytes = size * nodes.length := h.ordered.bytes
      have hempty : nodes.length = 0 := by omega
      rw [hempty, Nat.mul_zero] at hbytes
      rcases hover c hc with hpos | hpos
      · omega
      · omega
    | succ fuel ih =>
      have hnone : ∀ c₁, evictOne.run c = .ok none c₁ → (evictWhile full (fuel + 1)).run c = .ok () c₁ := by
        intro c₁ hrun
        show (if full c = true then _ else _ : CacheM Unit).run c = _
        rw [if_pos hc, run_bind_of_ok hrun]
        rfl
      have hsome : ∀ id c₁, evictOne.run c = .ok (some id) c₁ →
          (evictWhile full (fuel + 1)).run c = (evictWhile full fuel).run c₁ := by
        intro id c₁ hrun
        show (if full c = true then _ else _ : CacheM Unit).run c = _
        rw [if_pos hc, run_bind_of_ok hrun]
      rcases run_evictOne h with ⟨hrun, hall⟩ | ⟨id, c₁, pages₁, hrun, hafter, hevicts, hcount⟩
      · rw [hnone c hrun]
        exact ⟨c, _, rfl, ⟨⟨nodes, h⟩, rfl, rfl, rfl⟩, evictsOldest_refl _, Nat.le_refl _, .inr hall⟩
      · rw [hsome id c₁ hrun]
        by_cases hc₁ : full c₁ = true
        · rcases hafter.sound with ⟨nodes₁, hsound₁⟩
          rcases ih hsound₁ (by omega) hc₁ with ⟨c₂, pages₂, hrun₂, hafter₂, hevicts₂, hle₂, hend⟩
          refine ⟨c₂, pages₂, hrun₂, hafter.trans hafter₂, ?_, by omega, hend⟩
          rw [hafter.page] at hevicts₂
          exact hevicts.trans hevicts₂
        · refine ⟨c₁, pages₁, ?_, hafter, hevicts, by omega, .inl (Bool.eq_false_iff.mpr hc₁)⟩
          exact run_evictWhile_below full hc₁ fuel
  · exact ⟨c, _, run_evictWhile_below full hc fuel, ⟨⟨nodes, h⟩, rfl, rfl, rfl⟩, evictsOldest_refl _, Nat.le_refl _,
      .inl (Bool.eq_false_iff.mpr hc)⟩

theorem run_evictIfNecessary_below (hcount : c.count ≤ c.maxPages) (hbytes : c.currentBytes ≤ c.maxBytes) :
    (evictIfNecessary).run c = .ok () c := by
  have hpages : ¬ decide (c.maxPages < c.count) = true := fun htrue => absurd (of_decide_eq_true htrue) (by omega)
  have hbytes' : ¬ decide (c.maxBytes < c.currentBytes) = true :=
    fun htrue => absurd (of_decide_eq_true htrue) (by omega)
  unfold evictIfNecessary
  show (evictWhile _ c.count >>= _).run c = _
  rw [run_bind_of_ok (run_evictWhile_below (fun c => c.maxPages < c.count) hpages c.count)]
  exact run_evictWhile_below (fun c => c.maxBytes < c.currentBytes) hbytes' c.count

/-- The limits hold, or every page is pinned; below the limits nothing is evicted. -/
theorem run_evictIfNecessary (h : c.Sound size calls nodes) :
    ∃ c' pages', (evictIfNecessary).run c = .ok () c' ∧ After c size calls pages' c' ∧
      EvictsOldest c.view.page pages' ∧
      ((c'.count ≤ c'.maxPages ∧ c'.currentBytes ≤ c'.maxBytes) ∨ AllPinned pages') ∧
      (c.count ≤ c.maxPages → c.currentBytes ≤ c.maxBytes → pages' = c.view.page) := by
  by_cases hbelow : c.count ≤ c.maxPages ∧ c.currentBytes ≤ c.maxBytes
  · exact ⟨c, _, run_evictIfNecessary_below hbelow.1 hbelow.2, ⟨⟨nodes, h⟩, rfl, rfl, rfl⟩, evictsOldest_refl _,
      .inl hbelow, fun _ _ => rfl⟩
  rcases run_evictWhile (fun c => c.maxPages < c.count)
    (fun c hc => .inr (Nat.zero_lt_of_lt (of_decide_eq_true hc))) h (Nat.le_refl _) with
    ⟨c₁, pages₁, hrun₁, hafter₁, hevicts₁, hle₁, hend₁⟩
  rcases hafter₁.sound with ⟨nodes₁, hsound₁⟩
  rcases run_evictWhile (fun c => c.maxBytes < c.currentBytes)
    (fun c hc => .inl (Nat.zero_lt_of_lt (of_decide_eq_true hc))) hsound₁ (Nat.le_refl _) with
    ⟨c₂, pages₂, hrun₂, hafter₂, hevicts₂, hle₂, hend₂⟩
  rw [hafter₁.page] at hevicts₂
  refine ⟨c₂, pages₂, ?_, hafter₁.trans hafter₂, hevicts₁.trans hevicts₂, ?_,
    fun hcount hbytes => absurd ⟨hcount, hbytes⟩ hbelow⟩
  · unfold evictIfNecessary
    show (evictWhile _ c.count >>= _).run c = _
    rw [run_bind_of_ok hrun₁]
    exact hrun₂
  · rcases hend₂ with hbytes | hall
    · rcases hend₁ with hpages | hall
      · left
        have hbytes' := of_decide_eq_false hbytes
        have hpages' := of_decide_eq_false hpages
        have hmax := hafter₂.maxPages
        constructor
        · omega
        · omega
      · exact .inr (hevicts₂.allPinned hall)
    · exact .inr hall

theorem run_allocate (c : PageCache) (e : CacheEntry) : (allocate e).run c = .ok c.nextEntry
      { c with heap := Function.update c.heap c.nextEntry (some e), nextEntry := c.nextEntry + 1 } := rfl

theorem ends_insertNew (h : c.Sound size calls nodes) (hnew : c.view.page pageId = none)
    (hsize : data.length = size) :
    Ends (insertNew pageId data) c
      (fun _ c' => After c size (calls + 1) (Function.update c.view.page pageId
          (some ⟨pageId, data, 0, c.accessCounter + 1⟩)) c' ∧
        c'.count = c.count + 1 ∧ c'.currentBytes = c.currentBytes + data.length)
      (fun e _ => Overflow calls e) := by
  have hlookup : c.view.entries.lookup pageId = none := h.ordered.page_eq_none.mp hnew
  let c₁ : PageCache := { c with
    heap := Function.update c.heap c.nextEntry (some ⟨⟨pageId, data, 0, 0⟩, none, none⟩)
    nextEntry := c.nextEntry + 1
    entries := c.entries.insert pageId c.nextEntry }
  have hfresh : ∀ a ∈ nodes, a ≠ c.nextEntry := by
    rintro a ha rfl
    exact h.ordered.nextEntry_notMem ha
  have hlinks₁ : c₁.links = { c.links with
      prev := Function.update c.links.prev c.nextEntry none
      next := Function.update c.links.next c.nextEntry none } :=
    links_update c c.nextEntry ⟨⟨pageId, data, 0, 0⟩, none, none⟩
  have hpageAt₁ : c₁.view.pageAt = Function.update c.view.pageAt c.nextEntry (some ⟨pageId, data, 0, 0⟩) :=
    congrArg View.pageAt (view_update c c.nextEntry ⟨⟨pageId, data, 0, 0⟩, none, none⟩)
  have hrepresents₁ : c₁.links.Represents nodes := by
    rw [hlinks₁]
    exact ⟨h.represents.nodup, h.represents.head, h.represents.tail,
      h.represents.next.update h.ordered.nextEntry_notMem none,
      h.represents.prev.update (fun hmem => h.ordered.nextEntry_notMem (List.mem_reverse.mp hmem)) none⟩
  unfold insertNew
  apply ends_bind_of_ok (run_allocate c _)
  apply ends_bind_of_ok (run_modify ..)
  apply ((ends_nextAccess c₁).mono (fun _ _ h => h) fun e _ he => CounterOverflow.overflow (c := c) he h).bind
  rintro access c₂ - ⟨rfl, rfl⟩
  have hat : (view { c₁ with accessCounter := c₁.accessCounter + 1 }).pageAt c.nextEntry =
      some ⟨pageId, data, 0, 0⟩ := by
    show c₁.view.pageAt c.nextEntry = _
    rw [hpageAt₁]
    exact Function.update_self ..
  rcases run_assign_page (f := fun e => { e with lastAccess := c.accessCounter + 1 }) (fun _ => ⟨rfl, rfl⟩)
    (g := fun p => { p with lastAccess := c.accessCounter + 1 }) (fun _ => rfl) hat with
    ⟨c₃, hrun₃, hlinks₃, hview₃⟩
  have hpageAt₃ : c₃.view.pageAt =
      Function.update c.view.pageAt c.nextEntry (some ⟨pageId, data, 0, c.accessCounter + 1⟩) := by
    rw [hview₃]
    show Function.update c₁.view.pageAt c.nextEntry _ = _
    rw [hpageAt₁, Function.update_idem]
  have hlists₃ : c₃.Lists nodes := by
    refine ⟨hlinks₃ ▸ hrepresents₁, ?_⟩
    intro a ha
    rcases h.lists.live a ha with ⟨p, hp⟩
    rw [hpageAt₃, Function.update_of_ne (hfresh a ha)]
    exact ⟨p, hp⟩
  have hat₃ : c₃.view.pageAt c.nextEntry = some ⟨pageId, data, 0, c.accessCounter + 1⟩ := by
    rw [hpageAt₃]
    exact Function.update_self ..
  rcases run_addToFront hlists₃ hat₃ with ⟨c₄, hrun₄, hview₄, hlinks₄⟩
  apply ends_bind_of_ok hrun₃
  apply ends_bind_of_ok hrun₄
  refine ends_of_ok (run_modify ..) ?_
  have hview : view { c₄ with currentBytes := c₄.currentBytes + data.length } =
      c.view.inserted ⟨pageId, data, 0, c.accessCounter + 1⟩ := by
    show { c₄.view with currentBytes := c₄.view.currentBytes + data.length } = _
    rw [hview₄, hview₃]
    show ({ c₁.view with
      pageAt := Function.update c₁.view.pageAt c.nextEntry _
      accessCounter := c.accessCounter + 1
      currentBytes := c.currentBytes + data.length } : View) = _
    rw [hpageAt₁, Function.update_idem]
    rfl
  have hinserted := h.ordered.insert (p := ⟨pageId, data, 0, c.accessCounter + 1⟩) hlookup hsize rfl rfl
  rw [← hview] at hinserted
  refine ⟨⟨⟨c.nextEntry :: nodes, ?_, hinserted⟩, ?_, congrArg View.maxPages hview, congrArg View.maxBytes hview⟩,
    ?_, congrArg View.currentBytes hview⟩
  · show c₄.links.Represents _
    rw [hlinks₄]
    exact hlists₃.represents.pushFront h.ordered.nextEntry_notMem
  · rw [hview]
    exact h.ordered.page_inserted _
  · have hentries := congrArg View.entries hview
    unfold count
    show c₄.entries.entries.length = _
    rw [show c₄.entries = c.entries.insert pageId c.nextEntry from hentries]
    exact HashMap.length_insert_new hlookup

theorem ends_replace (h : c.Sound size calls nodes) (hmem : entry ∈ nodes) (hp : c.view.Cached size calls entry p)
    (hsize : data.length = size) :
    Ends (replace entry data) c
      (fun _ c' => After c size (calls + 1) (Function.update c.view.page p.pageId
        (some { p with data := data, lastAccess := c.accessCounter + 1 })) c')
      (fun e _ => Overflow calls e) := by
  unfold replace
  rcases run_assign_page (f := fun e => { e with data := data }) (fun _ => ⟨rfl, rfl⟩)
    (g := fun p => { p with data := data }) (fun _ => rfl) hp.pageAt with ⟨c₁, hrun₁, hlinks₁, hview₁⟩
  have hat₁ : c₁.view.pageAt entry = some { p with data := data } := by
    rw [hview₁]
    exact Function.update_self ..
  have hchanged := h.ordered.change hmem hp.pageAt (q := { p with data := data }) rfl hsize rfl
    (Nat.le_succ_of_le hp.pinCount)
  have hsound₁ : c₁.Sound size (calls + 1) nodes := ⟨hlinks₁ ▸ h.represents, hview₁ ▸ hchanged⟩
  have hcounter : c₁.accessCounter = c.accessCounter := congrArg View.accessCounter hview₁
  apply ends_bind_of_ok hrun₁
  apply ((ends_touch hsound₁.lists hmem hat₁).mono (fun _ _ h => h) fun e _ he => by
    unfold CounterOverflow at he
    rw [hcounter] at he
    exact CounterOverflow.overflow he h).bind
  rintro _ c₂ - ⟨hlists, hview₂⟩
  have hview : c₂.view = c.view.touched entry { p with data := data, lastAccess := c.accessCounter + 1 } := by
    rw [hview₂, hview₁, hcounter]
    unfold View.touched
    rw [Function.update_idem]
  rcases h.after_touch hmem hp.pageAt (q := { p with data := data, lastAccess := c.accessCounter + 1 }) rfl hsize
    rfl (Nat.le_succ_of_le hp.pinCount) hlists hview with ⟨hafter, e, hrun, hdata⟩
  apply ends_bind_of_ok hrun
  -- the new data are as long as the old, and the count stays
  have hbytes : c₂.currentBytes = c.currentBytes := congrArg View.currentBytes hview
  have hle := h.bytes_le hmem hp
  rw [hp.size] at hle
  show Ends (if e.data.length ≤ c₂.currentBytes then _ else _ : CacheM Unit) c₂ _ _
  have hlength : e.data.length = data.length := congrArg List.length hdata
  rw [if_pos (by omega), hlength, Nat.sub_add_cancel (by omega)]
  exact ends_of_ok rfl hafter

theorem ends_put (h : c.Sound size calls nodes) (pageId : UInt64) (hsize : data.length = size) :
    Ends (put pageId data) c
      (fun _ c' => match c.view.page pageId with
        | some p => After c size (calls + 1) (Function.update c.view.page pageId
            (some { p with data := data, lastAccess := c.accessCounter + 1 })) c'
        | none => ∃ pages', After c size (calls + 1) pages' c' ∧
            EvictsOldest (Function.update c.view.page pageId (some ⟨pageId, data, 0, c.accessCounter + 1⟩)) pages' ∧
            ((c'.count ≤ c'.maxPages ∧ c'.currentBytes ≤ c'.maxBytes) ∨ AllPinned pages') ∧
            (c.count + 1 ≤ c.maxPages → c.currentBytes + size ≤ c.maxBytes →
              pages' = Function.update c.view.page pageId (some ⟨pageId, data, 0, c.accessCounter + 1⟩)))
      (fun e _ => Overflow calls e) := by
  unfold put
  apply ends_getThe_bind
  cases hlookup : c.entries.lookup pageId with
  | some entry =>
    rcases h.lookup hlookup with ⟨hmem, p, hp, rfl, hpage⟩
    rw [hpage]
    exact ends_replace h hmem hp hsize
  | none =>
    have hnew : c.view.page pageId = none := h.ordered.page_eq_none.mpr hlookup
    rw [hnew]
    apply (ends_insertNew h hnew hsize).bind
    rintro _ c₁ - ⟨hafter, hcount, hbytes⟩
    rcases hafter.sound with ⟨nodes₁, hsound₁⟩
    rcases run_evictIfNecessary hsound₁ with ⟨c₂, pages₂, hrun, hafter₂, hevicts, hend, hbelow⟩
    rw [hafter.page] at hevicts hbelow
    refine ends_of_ok hrun ⟨pages₂, hafter.trans hafter₂, hevicts, hend, ?_⟩
    intro hpages hmax
    apply hbelow
    · rw [hcount, hafter.maxPages]
      exact hpages
    · rw [hbytes, hafter.maxBytes, hsize]
      exact hmax

def KeepsPinned (pages pages' : UInt64 → Option CachedPage) : Prop :=
  ∀ pageId p, pages pageId = some p → 0 < p.pinCount → pages' pageId = some p

theorem run_unpinnedPages (h : c.Sound size calls nodes) (order : List UInt64) :
    ∃ pages, (unpinnedPages order).run c = .ok pages c := by
  induction order with
  | nil => exact ⟨[], rfl⟩
  | cons id order ih =>
    unfold unpinnedPages
    rw [run_getThe_bind]
    cases hlookup : c.entries.lookup id with
    | none => exact ih
    | some entry =>
      rcases h.lookup hlookup with ⟨-, p, hp, -, -⟩
      rcases heap_of_pageAt hp.pageAt with ⟨e, hheap, -⟩
      rcases ih with ⟨rest, hrun⟩
      dsimp only
      rw [run_bind_of_ok (run_deref hheap), run_bind_of_ok hrun]
      exact ⟨_, rfl⟩

theorem run_removeAll (h : c.Sound size calls nodes) (pages : List UInt64) :
    ∃ c' pages', (forEach (fun pageId => do let _ ← remove pageId) pages).run c = .ok () c' ∧
      After c size calls pages' c' ∧ KeepsPinned c.view.page pages' := by
  induction pages generalizing c nodes with
  | nil => exact ⟨c, _, rfl, ⟨⟨nodes, h⟩, rfl, rfl, rfl⟩, fun _ _ hp _ => hp⟩
  | cons id pages ih =>
    rcases run_remove h id with ⟨result, c₁, hrun, hresult⟩
    have hstep : ∃ pages₁, After c size calls pages₁ c₁ ∧ KeepsPinned c.view.page pages₁ := by
      cases hpage : c.view.page id with
      | none =>
        rw [hpage] at hresult
        rw [hresult.2]
        exact ⟨_, ⟨⟨nodes, h⟩, rfl, rfl, rfl⟩, fun _ _ hp _ => hp⟩
      | some p =>
        rw [hpage] at hresult
        dsimp only at hresult
        by_cases hpin : p.pinCount = 0
        · rw [if_pos hpin] at hresult
          refine ⟨_, hresult.2, ?_⟩
          intro other q hq hpinned
          rw [Function.update_of_ne, hq]
          rintro rfl
          rw [hpage] at hq
          cases hq
          omega
        · rw [if_neg hpin] at hresult
          exact ⟨_, hresult.2, fun _ _ hp _ => hp⟩
    rcases hstep with ⟨pages₁, hafter₁, hkeeps₁⟩
    rcases hafter₁.sound with ⟨nodes₁, hsound₁⟩
    rcases ih hsound₁ with ⟨c₂, pages₂, hrun₂, hafter₂, hkeeps₂⟩
    refine ⟨c₂, pages₂, ?_, hafter₁.trans hafter₂, ?_⟩
    · show ((remove id >>= fun _ => pure ()) >>= fun _ => _).run c = _
      rw [bind_assoc, run_bind_of_ok hrun]
      exact hrun₂
    · intro other p hp hpin
      rw [hafter₁.page] at hkeeps₂
      exact hkeeps₂ other p (hkeeps₁ other p hp hpin) hpin

theorem run_clear (h : c.Sound size calls nodes) (order : List UInt64) :
    ∃ c' pages', (clear order).run c = .ok () c' ∧ After c size calls pages' c' ∧
      KeepsPinned c.view.page pages' := by
  rcases run_unpinnedPages h order with ⟨toRemove, hrun⟩
  rcases run_removeAll h toRemove with ⟨c', pages', hrun', hafter, hkeeps⟩
  refine ⟨c', pages', ?_, hafter, hkeeps⟩
  unfold clear
  rw [run_bind_of_ok hrun]
  exact hrun'

end PageCache

end Northstar.Zig
