import Northstar.Zig.PageCache

/-!
# CacheLinks — the entries of the page cache as a list

A cache is the links between its entries together with everything else.  The calls on the list change the
links alone; what they do to them is said by `LinkedList`.
-/

namespace Northstar.Zig

open Bytes LinkedList EStateM

namespace PageCache

def links (c : PageCache) : Links Nat where
  head := c.lruHead
  tail := c.lruTail
  prev entry := (c.heap entry).bind CacheEntry.prev
  next entry := (c.heap entry).bind CacheEntry.next

structure View where
  pageAt : Nat → Option CachedPage
  nextEntry : Nat
  entries : AList fun _ : UInt64 => Nat
  accessCounter : Nat
  maxPages : Nat
  maxBytes : Nat
  currentBytes : Nat

def view (c : PageCache) : View where
  pageAt entry := (c.heap entry).map CacheEntry.toCachedPage
  nextEntry := c.nextEntry
  entries := c.entries
  accessCounter := c.accessCounter
  maxPages := c.maxPages
  maxBytes := c.maxBytes
  currentBytes := c.currentBytes

section Calls

variable {c : PageCache} {entry : Nat} {p : CachedPage}

theorem heap_of_pageAt (h : c.view.pageAt entry = some p) :
    ∃ e, c.heap entry = some e ∧ e.toCachedPage = p := Option.map_eq_some_iff.mp h

variable {e : CacheEntry}

theorem prev_of_heap (h : c.heap entry = some e) : c.links.prev entry = e.prev := by
  show (c.heap entry).bind CacheEntry.prev = _
  rw [h]
  rfl

theorem next_of_heap (h : c.heap entry = some e) : c.links.next entry = e.next := by
  show (c.heap entry).bind CacheEntry.next = _
  rw [h]
  rfl

theorem run_deref (h : c.heap entry = some e) : (deref entry).run c = .ok e c := by
  simp only [deref, EStateM.run, h]

theorem run_assign (h : c.heap entry = some e) (f : CacheEntry → CacheEntry) :
    (assign entry f).run c =
      .ok () { c with heap := Function.update c.heap entry (some (f e)) } := by
  unfold assign
  rw [run_bind_of_ok (run_deref h)]
  rfl

theorem field_update {α : Type} (g : CacheEntry → Option α) (heap : Nat → Option CacheEntry) (entry : Nat)
    (e : CacheEntry) :
    (fun other => (Function.update heap entry (some e) other).bind g) =
      Function.update (fun other => (heap other).bind g) entry (g e) := by
  funext other
  rw [Function.update_apply, Function.update_apply]
  split <;> rfl

theorem links_update (c : PageCache) (entry : Nat) (e : CacheEntry) :
    links { c with heap := Function.update c.heap entry (some e) } =
      { c.links with
        prev := Function.update c.links.prev entry e.prev
        next := Function.update c.links.next entry e.next } := by
  unfold links
  congr 1
  · exact field_update CacheEntry.prev c.heap entry e
  · exact field_update CacheEntry.next c.heap entry e

theorem view_update (c : PageCache) (entry : Nat) (e : CacheEntry) :
    view { c with heap := Function.update c.heap entry (some e) } =
      { c.view with pageAt := Function.update c.view.pageAt entry (some e.toCachedPage) } := by
  unfold view
  congr 1
  funext other
  dsimp only
  rw [Function.update_apply, Function.update_apply]
  split <;> rfl

theorem run_assign_links {f : CacheEntry → CacheEntry} (hf : ∀ e, (f e).toCachedPage = e.toCachedPage)
    (h : c.view.pageAt entry = some p) :
    ∃ e c', c.heap entry = some e ∧ (assign entry f).run c = .ok () c' ∧ c'.view = c.view ∧
      c'.links = { c.links with
        prev := Function.update c.links.prev entry (f e).prev
        next := Function.update c.links.next entry (f e).next } := by
  rcases heap_of_pageAt h with ⟨e, hheap, hpage⟩
  refine ⟨e, _, hheap, run_assign hheap f, ?_, links_update c entry (f e)⟩
  rw [view_update, hf, hpage, ← h, Function.update_eq_self]

theorem run_assign_page {f : CacheEntry → CacheEntry} (hf : ∀ e, (f e).prev = e.prev ∧ (f e).next = e.next)
    {g : CachedPage → CachedPage} (hg : ∀ e, (f e).toCachedPage = g e.toCachedPage)
    (h : c.view.pageAt entry = some p) :
    ∃ c', (assign entry f).run c = .ok () c' ∧ c'.links = c.links ∧
      c'.view = { c.view with pageAt := Function.update c.view.pageAt entry (some (g p)) } := by
  rcases heap_of_pageAt h with ⟨e, hheap, hpage⟩
  refine ⟨_, run_assign hheap f, ?_, ?_⟩
  · rw [links_update, (hf e).1, (hf e).2, ← prev_of_heap hheap, ← next_of_heap hheap,
      Function.update_eq_self, Function.update_eq_self]
  · rw [view_update, hg, hpage]

theorem run_assign_next (h : c.view.pageAt entry = some p) (v : Option Nat) :
    ∃ c', (assign entry fun e => { e with next := v }).run c = .ok () c' ∧ c'.view = c.view ∧
      c'.links = { c.links with next := Function.update c.links.next entry v } := by
  rcases run_assign_links (f := fun e => { e with next := v }) (fun _ => rfl) h with
    ⟨e, c', hheap, hrun, hview, hlinks⟩
  refine ⟨c', hrun, hview, ?_⟩
  rw [hlinks, show (e.prev : Option Nat) = c.links.prev entry from (prev_of_heap hheap).symm,
    Function.update_eq_self]

theorem run_assign_prev (h : c.view.pageAt entry = some p) (v : Option Nat) :
    ∃ c', (assign entry fun e => { e with prev := v }).run c = .ok () c' ∧ c'.view = c.view ∧
      c'.links = { c.links with prev := Function.update c.links.prev entry v } := by
  rcases run_assign_links (f := fun e => { e with prev := v }) (fun _ => rfl) h with
    ⟨e, c', hheap, hrun, hview, hlinks⟩
  refine ⟨c', hrun, hview, ?_⟩
  rw [hlinks, show (e.next : Option Nat) = c.links.next entry from (next_of_heap hheap).symm,
    Function.update_eq_self]

theorem run_linkNext {prev : Option Nat} (h : ∀ a ∈ prev, ∃ p, c.view.pageAt a = some p) (v : Option Nat) :
    ∃ c', (linkNext prev v).run c = .ok () c' ∧ c'.view = c.view ∧
      c'.links = { c.links with
        next := relink c.links.next prev v
        head := if prev = none then v else c.links.head } := by
  cases prev with
  | none => exact ⟨_, rfl, rfl, rfl⟩
  | some a =>
    rcases h a rfl with ⟨p, hp⟩
    exact run_assign_next hp v

theorem run_linkPrev {next : Option Nat} (h : ∀ a ∈ next, ∃ p, c.view.pageAt a = some p) (v : Option Nat) :
    ∃ c', (linkPrev next v).run c = .ok () c' ∧ c'.view = c.view ∧
      c'.links = { c.links with
        prev := relink c.links.prev next v
        tail := if next = none then v else c.links.tail } := by
  cases next with
  | none => exact ⟨_, rfl, rfl, rfl⟩
  | some a =>
    rcases h a rfl with ⟨p, hp⟩
    exact run_assign_prev hp v

end Calls

/-- The nodes form the list, and each of them is allocated. -/
structure Lists (c : PageCache) (nodes : List Nat) : Prop where
  represents : c.links.Represents nodes
  live : ∀ a ∈ nodes, ∃ p, c.view.pageAt a = some p

section List

variable {c : PageCache} {nodes : List Nat} {entry : Nat} {p : CachedPage}

theorem run_removeFromList (h : c.Lists nodes) (hmem : entry ∈ nodes) :
    ∃ c', (removeFromList entry).run c = .ok () c' ∧ c'.view = c.view ∧
      c'.links = c.links.unlink entry := by
  rcases h.live entry hmem with ⟨p, hp⟩
  rcases heap_of_pageAt hp with ⟨e, hheap, -⟩
  have hprev : ∀ a ∈ e.prev, (∃ p, c.view.pageAt a = some p) ∧ a ≠ entry := by
    intro a ha
    have hneighbour := h.represents.prev_mem hmem ((prev_of_heap hheap).trans ha)
    exact ⟨h.live a hneighbour.1, hneighbour.2⟩
  have hnext : ∀ a ∈ e.next, ∃ p, c.view.pageAt a = some p := by
    intro a ha
    exact h.live a (h.represents.next_mem hmem ((next_of_heap hheap).trans ha))
  rcases run_linkNext (fun a ha => (hprev a ha).1) e.next with ⟨c₁, hrun₁, hview₁, hlinks₁⟩
  -- the entry is not its own predecessor, so that its fields are still there
  rw [← hview₁] at hp
  rcases heap_of_pageAt hp with ⟨e₁, hheap₁, -⟩
  have hnext₁ : e₁.next = e.next := by
    rw [← next_of_heap hheap₁, ← next_of_heap hheap, hlinks₁]
    show relink c.links.next e.prev e.next entry = _
    cases he : e.prev with
    | none => rfl
    | some a =>
      apply Function.update_of_ne
      exact ((hprev a he).2).symm
  have hprev₁ : e₁.prev = e.prev := by
    rw [← prev_of_heap hheap₁, ← prev_of_heap hheap, hlinks₁]
  have hnext₂ : ∀ a ∈ e₁.next, ∃ p, c₁.view.pageAt a = some p := by
    intro a ha
    rw [hnext₁] at ha
    rw [hview₁]
    exact hnext a ha
  rcases run_linkPrev hnext₂ e₁.prev with ⟨c₂, hrun₂, hview₂, hlinks₂⟩
  rw [← hview₂] at hp
  rcases run_assign_links (f := fun e => { e with prev := none, next := none }) (fun _ => rfl) hp with
    ⟨e₂, c₃, -, hrun₃, hview₃, hlinks₃⟩
  refine ⟨c₃, ?_, hview₃.trans (hview₂.trans hview₁), ?_⟩
  · unfold removeFromList
    rw [run_bind_of_ok (run_deref hheap), run_bind_of_ok hrun₁,
      run_bind_of_ok (run_deref hheap₁), run_bind_of_ok hrun₂]
    exact hrun₃
  · rw [hlinks₃, hlinks₂, hnext₁, hprev₁, hlinks₁]
    unfold Links.unlink
    rw [prev_of_heap hheap, next_of_heap hheap]

theorem run_addToFront (h : c.Lists nodes) (hp : c.view.pageAt entry = some p) :
    ∃ c', (addToFront entry).run c = .ok () c' ∧ c'.view = c.view ∧
      c'.links = c.links.pushFront entry := by
  rcases run_assign_prev hp none with ⟨c₁, hrun₁, hview₁, hlinks₁⟩
  rw [← hview₁] at hp
  rcases run_assign_next hp c₁.lruHead with ⟨c₂, hrun₂, hview₂, hlinks₂⟩
  have hhead : c₁.lruHead = c.lruHead := congrArg Links.head hlinks₁
  have hhead₂ : ∃ c₃, (linkHead c₁.lruHead entry).run c₂ = .ok () c₃ ∧ c₃.view = c₂.view ∧
      c₃.links = { c₂.links with prev := relink c₂.links.prev c.lruHead (some entry) } := by
    rw [hhead]
    cases hfirst : c.lruHead with
    | none => exact ⟨c₂, rfl, rfl, rfl⟩
    | some head =>
      have hmem : head ∈ nodes := by
        apply List.mem_of_head?
        rw [← h.represents.head]
        exact hfirst
      rcases h.live head hmem with ⟨q, hq⟩
      rw [← hview₁, ← hview₂] at hq
      exact run_assign_prev hq (some entry)
  rcases hhead₂ with ⟨c₃, hrun₃, hview₃, hlinks₃⟩
  refine ⟨{ c₃ with
    lruHead := some entry
    lruTail := if c₃.lruTail = none then some entry else c₃.lruTail }, ?_, hview₃.trans (hview₂.trans hview₁), ?_⟩
  · unfold addToFront
    rw [run_bind_of_ok hrun₁]
    show (assign entry _ >>= fun _ => _).run c₁ = _
    rw [run_bind_of_ok hrun₂, run_bind_of_ok hrun₃]
    rfl
  · have htail : c₃.lruTail = c.lruTail := by
      have htail₃ := congrArg Links.tail hlinks₃
      have htail₂ := congrArg Links.tail hlinks₂
      have htail₁ := congrArg Links.tail hlinks₁
      exact htail₃.trans (htail₂.trans htail₁)
    have hprev₃ := congrArg Links.prev hlinks₃
    have hnext₃ := congrArg Links.next hlinks₃
    rw [hlinks₂, hlinks₁] at hprev₃ hnext₃
    unfold Links.pushFront
    show Links.mk (some entry) (if c₃.lruTail = none then some entry else c₃.lruTail) c₃.links.prev
      c₃.links.next = _
    rw [hprev₃, hnext₃, htail, hhead]
    congr 1
    show (if c.lruTail = none then some entry else c.lruTail) = c.lruTail.or (some entry)
    cases c.lruTail <;> rfl

theorem Lists.of_view {c' : PageCache} (h : c.Lists nodes) (hview : c'.view = c.view) {nodes' : List Nat}
    (hrepresents : c'.links.Represents nodes') (hsub : ∀ a ∈ nodes', a ∈ nodes) : c'.Lists nodes' := by
  refine ⟨hrepresents, ?_⟩
  intro a ha
  rw [hview]
  exact h.live a (hsub a ha)

theorem run_moveToFront (h : c.Lists nodes) (hmem : entry ∈ nodes) :
    ∃ c', (moveToFront entry).run c = .ok () c' ∧ c'.view = c.view ∧
      c'.Lists (entry :: nodes.erase entry) := by
  unfold moveToFront
  by_cases hhead : c.lruHead = some entry
  · refine ⟨c, ?_, rfl, ?_⟩
    · show (if c.lruHead = some entry then _ else _ : CacheM Unit).run c = _
      rw [if_pos hhead]
      rfl
    · have hfirst : nodes.head? = some entry := h.represents.head.symm.trans hhead
      rcases List.head?_eq_some_iff.mp hfirst with ⟨rest, rfl⟩
      rw [List.erase_cons_head]
      exact h
  · rcases run_removeFromList h hmem with ⟨c₁, hrun₁, hview₁, hlinks₁⟩
    have hlists₁ : c₁.Lists (nodes.erase entry) := by
      apply h.of_view hview₁
      · rw [hlinks₁]
        exact h.represents.unlink hmem
      · exact fun a ha => List.mem_of_mem_erase ha
    have hnot : entry ∉ nodes.erase entry := h.represents.nodup.not_mem_erase
    rcases h.live entry hmem with ⟨p, hp⟩
    rw [← hview₁] at hp
    rcases run_addToFront hlists₁ hp with ⟨c₂, hrun₂, hview₂, hlinks₂⟩
    refine ⟨c₂, ?_, hview₂.trans hview₁, ?_⟩
    · show (if c.lruHead = some entry then _ else _ : CacheM Unit).run c = _
      rw [if_neg hhead, run_bind_of_ok hrun₁]
      exact hrun₂
    · apply h.of_view (hview₂.trans hview₁)
      · rw [hlinks₂]
        exact hlists₁.represents.pushFront hnot
      · intro a ha
        rcases List.mem_cons.mp ha with rfl | ha
        · exact hmem
        · exact List.mem_of_mem_erase ha

end List

end PageCache

end Northstar.Zig
