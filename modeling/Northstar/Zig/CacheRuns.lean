import Northstar.Zig.CacheCalls

/-!
# CacheRuns — the page cache over its whole life

The list from the head holds the cached pages, the most recently used first, whatever is called; and each call
keeps what is pinned.
-/

namespace Northstar.Zig

open Bytes LinkedList EStateM

inductive CacheCall where
  | put (pageId : UInt64) (data : Bytes)
  | get (pageId : UInt64)
  | pin (pageId : UInt64)
  | unpin (pageId : UInt64)
  | remove (pageId : UInt64)
  /-- The order in which the hash map is iterated. -/
  | clear (order : List UInt64)
  deriving Repr, DecidableEq

def CacheCall.Sized (size : Nat) : CacheCall → Prop
  | .put _ data => data.length = size
  | _ => True

instance (size : Nat) : DecidablePred (CacheCall.Sized size)
  | .put _ _ => Nat.decEq _ _
  | .get _ | .pin _ | .unpin _ | .remove _ | .clear _ => .isTrue trivial

namespace PageCache

def call : CacheCall → CacheM Unit
  | .put pageId data => put pageId data
  | .get pageId => do let _ ← get pageId
  | .pin pageId => pin pageId
  | .unpin pageId => unpin pageId
  | .remove pageId => do let _ ← remove pageId
  | .clear order => clear order

/-- From the head along `next` stand the cached pages, each once, in the order of their last access, and the
bytes are counted. -/
structure LruList (c : PageCache) (size : Nat) (nodes : List Nat) : Prop where
  represents : c.links.Represents nodes
  exact : ∀ a, a ∈ nodes ↔ ∃ pageId, c.entries.lookup pageId = some a
  entry : ∀ pageId a, c.entries.lookup pageId = some a →
    ∃ e, c.heap a = some e ∧ e.pageId = pageId ∧ e.data.length = size
  sorted : nodes.Pairwise fun a b => ∀ e f, c.heap a = some e → c.heap b = some f → f.lastAccess < e.lastAccess
  bytes : c.currentBytes = size * c.count

/-- What a call does not do, and what a put of a new page does. -/
structure CallKeeps (c : PageCache) (call : CacheCall) (c' : PageCache) : Prop where
  pinned : ∀ pageId p, c.view.page pageId = some p → 0 < p.pinCount → ∃ p', c'.view.page pageId = some p'
  evicted : ∀ pageId data, call = .put pageId data → c.view.page pageId = none →
    EvictsOldest (Function.update c.view.page pageId (some ⟨pageId, data, 0, c.accessCounter + 1⟩)) c'.view.page ∧
      ((c'.count ≤ c'.maxPages ∧ c'.currentBytes ≤ c'.maxBytes) ∨ AllPinned c'.view.page)

variable {c c' : PageCache} {size calls : Nat} {nodes : List Nat}

theorem Sound.lruList (h : c.Sound size calls nodes) : c.LruList size nodes where
  represents := h.represents
  exact a := by
    constructor
    · intro ha
      rcases h.ordered.cached a ha with ⟨p, hp⟩
      exact ⟨p.pageId, hp.lookup⟩
    · rintro ⟨pageId, hlookup⟩
      exact (h.lookup hlookup).1
  entry pageId a hlookup := by
    rcases h.lookup hlookup with ⟨-, p, hp, hid, -⟩
    rcases heap_of_pageAt hp.pageAt with ⟨e, hheap, rfl⟩
    exact ⟨e, hheap, hid, hp.size⟩
  sorted := by
    apply h.ordered.sorted.imp
    intro a b hlt e f he hf
    apply hlt e.toCachedPage f.toCachedPage
    · show (c.heap a).map CacheEntry.toCachedPage = _
      rw [he]
      rfl
    · show (c.heap b).map CacheEntry.toCachedPage = _
      rw [hf]
      rfl
  bytes := by
    have hbytes : c.currentBytes = size * nodes.length := h.ordered.bytes
    have hcount : c.count = nodes.length := h.ordered.count
    rw [hbytes, hcount]

/-- The state after a call on a sound cache. -/
structure Next (c : PageCache) (size calls : Nat) (call : CacheCall) (c' : PageCache) : Prop where
  sound : ∃ nodes, c'.Sound size (calls + 1) nodes
  keeps : CallKeeps c call c'
  maxPages : c'.maxPages = c.maxPages
  maxBytes : c'.maxBytes = c.maxBytes

variable {pages : UInt64 → Option CachedPage}

theorem After.next {pages : UInt64 → Option CachedPage} (h : After c size (calls + 1) pages c') {call : CacheCall}
    (hpinned : ∀ pageId p, c.view.page pageId = some p → 0 < p.pinCount → ∃ p', pages pageId = some p')
    (hput : ∀ pageId data, call = .put pageId data → c.view.page pageId ≠ none) : Next c size calls call c' where
  sound := h.sound
  keeps := by
    refine ⟨?_, fun pageId data hcall hnone => absurd hnone (hput pageId data hcall)⟩
    rw [h.page]
    exact hpinned
  maxPages := h.maxPages
  maxBytes := h.maxBytes

theorem update_pinned (pageId : UInt64) (q : CachedPage) (other : UInt64)
    (p : CachedPage) (hp : pages other = some p) : ∃ p', Function.update pages pageId (some q) other = some p' := by
  rw [Function.update_apply]
  split
  · exact ⟨q, rfl⟩
  · exact ⟨p, hp⟩

theorem After.mono (h : After c size calls pages c') : After c size (calls + 1) pages c' := by
  rcases h.sound with ⟨nodes, hsound⟩
  exact ⟨⟨nodes, hsound.represents, hsound.ordered.mono⟩, h.page, h.maxPages, h.maxBytes⟩

theorem ends_call (h : c.Sound size calls nodes) {op : CacheCall} (hsize : op.Sized size) :
    Ends (call op) c (fun _ c' => Next c size calls op c') (fun e _ => Overflow calls e) := by
  have hsame : ∀ {op : CacheCall}, (∀ pageId data, op ≠ .put pageId data) → Next c size calls op c :=
    fun hop => h.after_none.next (fun _ p hp _ => ⟨p, hp⟩) fun pageId data heq => absurd heq (hop pageId data)
  cases op with
  | put pageId data =>
    apply (ends_put h pageId hsize).mono
    · intro _ c' hafter
      cases hpage : c.view.page pageId with
      | some p =>
        rw [hpage] at hafter
        refine After.next hafter (fun other q hq _ => update_pinned pageId _ other q hq) ?_
        rintro _ _ ⟨⟩
        rw [hpage]
        exact Option.some_ne_none p
      | none =>
        rw [hpage] at hafter
        rcases hafter with ⟨pages', hafter, hevicts, hend, -⟩
        refine ⟨hafter.sound, ⟨?_, ?_⟩, hafter.maxPages, hafter.maxBytes⟩
        · intro other p hp hpin
          rw [hafter.page]
          refine ⟨p, hevicts.pinned ?_ hpin⟩
          rw [Function.update_of_ne, hp]
          rintro rfl
          rw [hpage] at hp
          cases hp
        · rintro _ _ ⟨⟩ -
          rw [hafter.page]
          exact ⟨hevicts, hend⟩
    · exact fun _ _ he => he
  | get pageId =>
    apply (ends_get h pageId).bind
    intro result c' _ hafter
    apply ends_of_ok (run_pure _ _)
    cases hpage : c.view.page pageId with
    | none =>
      rw [hpage] at hafter
      rw [hafter.2]
      exact hsame nofun
    | some p =>
      rw [hpage] at hafter
      exact hafter.2.next (fun other q hq _ => update_pinned pageId _ other q hq) nofun
  | pin pageId =>
    apply (ends_pin h pageId).mono
    · intro _ c' hafter
      cases hpage : c.view.page pageId with
      | none =>
        rw [hpage] at hafter
        rw [hafter]
        exact hsame nofun
      | some p =>
        rw [hpage] at hafter
        exact After.next hafter (fun other q hq _ => update_pinned pageId _ other q hq) nofun
    · exact fun _ _ he => he
  | unpin pageId =>
    rcases ends_unpin h pageId with ⟨c', hrun, hafter⟩
    refine ends_of_ok hrun ?_
    cases hpage : c.view.page pageId with
    | none =>
      rw [hpage] at hafter
      rw [hafter]
      exact hsame nofun
    | some p =>
      rw [hpage] at hafter
      exact After.next hafter (fun other q hq _ => update_pinned pageId _ other q hq) nofun
  | remove pageId =>
    rcases run_remove h pageId with ⟨result, c', hrun, hafter⟩
    apply ends_bind_of_ok hrun
    apply ends_of_ok (run_pure _ _)
    cases hpage : c.view.page pageId with
    | none =>
      rw [hpage] at hafter
      rw [hafter.2]
      exact hsame nofun
    | some p =>
      rw [hpage] at hafter
      dsimp only at hafter
      by_cases hpin : p.pinCount = 0
      · rw [if_pos hpin] at hafter
        refine hafter.2.mono.next ?_ nofun
        intro other q hq hpinned
        refine ⟨q, ?_⟩
        rw [Function.update_of_ne, hq]
        rintro rfl
        rw [hpage] at hq
        cases hq
        omega
      · rw [if_neg hpin] at hafter
        exact hafter.2.mono.next (fun _ q hq _ => ⟨q, hq⟩) nofun
  | clear order =>
    rcases run_clear h order with ⟨c', pages', hrun, hafter, hkeeps⟩
    exact ends_of_ok hrun (hafter.mono.next (fun other q hq hpin => ⟨q, hkeeps other q hq hpin⟩) nofun)

theorem init_sound (maxPages maxBytes size : Nat) : (init maxPages maxBytes).Sound size 0 [] where
  represents := ⟨List.nodup_nil, rfl, rfl, trivial, trivial⟩
  ordered := by
    refine ⟨nofun, ?_, List.Pairwise.nil, List.nodup_nil, rfl, rfl, Nat.le_refl _⟩
    intro pageId a hlookup
    cases hlookup

theorem ends_calls (h : c.Sound size calls nodes) {ops : List CacheCall} (hsize : ∀ op ∈ ops, op.Sized size) :
    Ends (forEach call ops) c
      (fun _ c' => (∃ nodes, c'.Sound size (calls + ops.length) nodes) ∧ c'.maxPages = c.maxPages ∧
        c'.maxBytes = c.maxBytes)
      (fun e _ => e = .overflow ∧ 2 ^ 32 ≤ calls + ops.length) := by
  induction ops generalizing c calls nodes with
  | nil => exact ends_of_ok (run_pure _ _) ⟨⟨nodes, h⟩, rfl, rfl⟩
  | cons op ops ih =>
    have hlength : calls + (op :: ops).length = calls + 1 + ops.length := by
      rw [List.length_cons]
      omega
    rw [hlength]
    apply ((ends_call h (hsize op (List.mem_cons_self ..))).mono (fun _ _ h => h)
      fun e _ he => ⟨he.1, he.2.trans (by omega)⟩).bind
    rintro _ c₁ - hnext
    rcases hnext.sound with ⟨nodes₁, hsound₁⟩
    apply (ih hsound₁ fun op' hop' => hsize op' (List.mem_cons_of_mem _ hop')).mono
    · rintro _ c₂ ⟨hsound₂, hpages, hbytes⟩
      exact ⟨hsound₂, hpages.trans hnext.maxPages, hbytes.trans hnext.maxBytes⟩
    · exact fun _ _ he => he

/-- **The LRU order.**  Every run of calls with pages of one size goes through, unless it is so long that a
counter panics; the list is the one of the cached pages; and what the next call does keeps what is pinned. -/
theorem lru_order (maxPages maxBytes size : Nat) (ops : List CacheCall) (hsize : ∀ op ∈ ops, op.Sized size) :
    Ends (forEach call ops) (init maxPages maxBytes)
      (fun _ c => (∃ nodes, c.LruList size nodes) ∧
        c.maxPages = (init maxPages maxBytes).maxPages ∧ c.maxBytes = (init maxPages maxBytes).maxBytes ∧
        ∀ op : CacheCall, op.Sized size → Ends (call op) c
          (fun _ c' => CallKeeps c op c' ∧ c'.maxPages = c.maxPages ∧ c'.maxBytes = c.maxBytes)
          (fun e _ => e = .overflow))
      (fun e _ => e = .overflow ∧ 2 ^ 32 ≤ ops.length) := by
  apply (ends_calls (init_sound maxPages maxBytes size) hsize).mono
  · rintro _ c ⟨⟨nodes, hsound⟩, hpages, hbytes⟩
    refine ⟨⟨nodes, hsound.lruList⟩, hpages, hbytes, ?_⟩
    intro op hop
    apply (ends_call hsound hop).mono
    · exact fun _ c' hnext => ⟨hnext.keeps, hnext.maxPages, hnext.maxBytes⟩
    · exact fun _ _ he => he.1
  · intro e _ he
    rwa [Nat.zero_add] at he

/-- A cache of two pages; the first is pinned, the second goes for the third. -/
def threePages : List CacheCall := [.put 1 [7], .get 1, .put 2 [8], .put 3 [9]]

theorem lru_order_three_pages :
    ∃ c, (forEach call threePages).run (init 2 1024) = .ok () c ∧ ∃ nodes, c.LruList 1 nodes := by
  have hshort : ∀ ops : List CacheCall, (∀ op ∈ ops, op.Sized 1) → ops.length < 2 ^ 32 →
      ∃ c, (forEach call ops).run (init 2 1024) = .ok () c ∧ ∃ nodes, c.LruList 1 nodes := by
    intro ops hsize hlt
    have hends := lru_order 2 1024 1 ops hsize
    cases hrun : (forEach call ops).run (init 2 1024) with
    | ok _ c => exact ⟨c, rfl, (hends.of_run_ok hrun).1⟩
    | error e c => exact absurd (hends.of_run_error hrun).2 (Nat.not_le.mpr hlt)
  exact hshort threePages (by decide) (by decide)

end PageCache

end Northstar.Zig
