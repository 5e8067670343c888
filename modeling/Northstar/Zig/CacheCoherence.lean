import Northstar.Lib.Runs
import Northstar.Zig.CacheRuns
import Northstar.Zig.Pager

/-!
# CacheCoherence — cached pages are the written ones

`writePage`, `readPageCached`, `unpinPage`, `markPageDirty` and `writeDirtyPages` of `pager.zig`, on a file of
whole pages.  Buffers are those of the callers, which have the size of a page.

As long as nobody writes other bytes over a page that is pinned, and nobody gives back a pin of somebody else,
a read through the cache gives what was written last, and whoever has pinned a page keeps it pinned.
-/

namespace Northstar.Zig

open Bytes

inductive CachedError where
  | pager (e : PagerError)
  /-- A counter of the cache has overflowed. -/
  | cache (e : CacheError)
  deriving Repr, DecidableEq

structure CachedPager where
  -- the storage
  pages : List Bytes
  cache : PageCache
  -- also the members of `dirty_pages`
  dirtyPageList : List UInt64

abbrev CachedM := EStateM CachedError CachedPager

/-- What `readPageCached` returns: bytes that the cache holds, or a buffer of the caller's own. -/
inductive PageData where
  | borrowed (data : Bytes)
  | owned (buffer : Bytes)
  deriving Repr, DecidableEq

def PageData.bytes : PageData → Bytes
  | .borrowed data => data
  | .owned buffer => buffer

namespace CachedPager

def onCache {α : Type} (x : CacheM α) : CachedM α := fun s =>
  match x.run s.cache with
  | .ok a cache => .ok a { s with cache := cache }
  | .error e cache => .error (.cache e) { s with cache := cache }

def readPage (pageId : UInt64) : CachedM Bytes := do
  let s ← getThe CachedPager
  match s.pages[pageId.toNat]? with
  | none => throw (.pager .pageOutOfBounds)
  | some buffer =>
    match validatePage (Page.ofBytes buffer) with
    | .error e => throw (.pager e)
    | .ok header =>
      if header.pageId ≠ pageId.toNat then throw (.pager .pageIdMismatch)
      else if header.payloadLen > Page.bodySize then throw (.pager .payloadTooLarge)
      else return buffer

def putPage (s : CachedPager) (pageId : Nat) (buffer : Bytes) : CachedPager :=
  { s with pages := if pageId < s.pages.length then s.pages.set pageId buffer else s.pages ++ [buffer] }

def writePage (pageId : UInt64) (buffer : Bytes) : CachedM Unit := do
  if buffer.length < defaultPageSize then throw (.pager .bufferTooSmall)
  else
    match validatePage (Page.ofBytes buffer) with
    | .error e => throw (.pager e)
    | .ok header =>
      if header.pageId ≠ pageId.toNat then throw (.pager .pageIdMismatch)
      else
        let s ← getThe CachedPager
        if pageId.toNat > s.pages.length then throw (.pager .writeBeyondFile)
        else
          set (s.putPage pageId.toNat buffer)
          -- "Invalidate cached copy if exists (data has changed)"
          let _ ← onCache (PageCache.remove pageId)

/-- "Cache miss - read from file". -/
def readThrough (pageId : UInt64) : CachedM PageData := do
  let buffer ← readPage pageId
  onCache (PageCache.put pageId buffer)
  let cached ← onCache (PageCache.get pageId)
  match cached with
  | some data => return .borrowed data
  | none => do
    -- "Fallback: read without cache"
    let buffer ← readPage pageId
    return .owned buffer

def readPageCached (pageId : UInt64) : CachedM PageData := do
  let cached ← onCache (PageCache.get pageId)
  match cached with
  | some data => return .borrowed data
  | none => readThrough pageId

def unpinPage (pageId : UInt64) : CachedM Unit := onCache (PageCache.unpin pageId)

def markPageDirty (pageId : UInt64) : CachedM Unit :=
  modify fun s =>
    { s with dirtyPageList := if pageId ∈ s.dirtyPageList then s.dirtyPageList else s.dirtyPageList ++ [pageId] }

/-- "Try to get page from cache - if present, write it to storage". -/
def writeDirtyPage (pageId : UInt64) : CachedM Unit := do
  let cached ← onCache (PageCache.getUnpinned pageId)
  match cached with
  | some pageData => do
    writePage pageId pageData
    onCache (PageCache.unpin pageId)
  | none => return ()

def writeDirtyPages : CachedM Unit := do
  let s ← getThe CachedPager
  EStateM.forEach writeDirtyPage s.dirtyPageList

/-- The pager of `create` or `open` on a file. -/
def opened (pages : List Bytes) : CachedPager := ⟨pages, PageCache.init 1024 (16 * 1024 * 1024), []⟩

end CachedPager

abbrev PageBuffer := { buffer : Bytes // buffer.length = defaultPageSize }

inductive PagerEvent where
  | writePage (pageId : UInt64) (buffer : PageBuffer)
  | readPageCached (reader : Nat) (pageId : UInt64)
  | unpinPage (reader : Nat) (pageId : UInt64)
  | markPageDirty (pageId : UInt64)
  | writeDirtyPages

/-- A pager in use, with what has been written last and who has pinned what. -/
structure PagerSession where
  pager : CachedPager
  written : UInt64 → Option Bytes
  pins : List (Nat × UInt64)

namespace PagerSession

def after {α : Type} : EStateM.Result CachedError CachedPager α → Option CachedPager
  | .ok _ pager => some pager
  | .error (.pager _) pager => some pager
  | .error (.cache _) _ => none

/-- The reader has pinned the page, unless it has got a buffer of its own. -/
def pinned (pins : List (Nat × UInt64)) (reader : Nat) (pageId : UInt64) :
    EStateM.Result CachedError CachedPager PageData → List (Nat × UInt64)
  | .ok (.borrowed _) _ => (reader, pageId) :: pins
  | .ok (.owned _) _ => pins
  | .error _ _ => pins

def recorded (written : UInt64 → Option Bytes) (pageId : UInt64) (buffer : Bytes) :
    EStateM.Result CachedError CachedPager Unit → UInt64 → Option Bytes
  | .ok _ _ => Function.update written pageId (some buffer)
  | .error _ _ => written

def step (s : PagerSession) : PagerEvent → Option PagerSession
  | .writePage pageId buffer =>
    let result := (CachedPager.writePage pageId buffer.1).run s.pager
    (after result).map fun pager => ⟨pager, recorded s.written pageId buffer.1 result, s.pins⟩
  | .readPageCached reader pageId =>
    let result := (CachedPager.readPageCached pageId).run s.pager
    (after result).map fun pager => ⟨pager, s.written, pinned s.pins reader pageId result⟩
  | .unpinPage reader pageId =>
    (after ((CachedPager.unpinPage pageId).run s.pager)).map fun pager =>
      ⟨pager, s.written, s.pins.erase (reader, pageId)⟩
  | .markPageDirty pageId =>
    (after ((CachedPager.markPageDirty pageId).run s.pager)).map fun pager => ⟨pager, s.written, s.pins⟩
  | .writeDirtyPages =>
    (after (CachedPager.writeDirtyPages.run s.pager)).map fun pager => ⟨pager, s.written, s.pins⟩

/-- A session on a file of whole pages. -/
def start (pages : List PageBuffer) : PagerSession :=
  ⟨CachedPager.opened (pages.map Subtype.val), fun _ => none, []⟩

end PagerSession

open EStateM

/-- The pins that a read takes. -/
def PageData.taken : PageData → Nat
  | .borrowed _ => 1
  | .owned _ => 0

def pinsOf (pages : UInt64 → Option CachedPage) (pageId : UInt64) : Nat :=
  ((pages pageId).map CachedPage.pinCount).getD 0

variable {α : Type} {c : PageCache} {x : CacheM α}

namespace CachedPager

/-- The buffer is a page with this id. -/
structure Readable (pageId : UInt64) (buffer : Bytes) : Prop where
  length : buffer.length = defaultPageSize
  valid : ∃ header, validatePage (Page.ofBytes buffer) = .ok header ∧ header.pageId = pageId.toNat

variable {s s' : CachedPager} {pageId other : UInt64} {buffer : Bytes} {p : CachedPage}

theorem Readable.payloadLen {header : PageHeader} (h : Readable pageId buffer)
    (hvalid : validatePage (Page.ofBytes buffer) = .ok header) : ¬ header.payloadLen > Page.bodySize := by
  have hle := (validatePage_eq_ok hvalid).2
  have hbody : (Page.ofBytes buffer).body.length = Page.bodySize := by
    show (buffer.drop PageHeader.size).length = _
    rw [List.length_drop, h.length]
    rfl
  omega

theorem run_readPage (hbuffer : s.pages[pageId.toNat]? = some buffer) (h : Readable pageId buffer) :
    (readPage pageId).run s = .ok buffer s := by
  rcases h.valid with ⟨header, hvalid, hid⟩
  unfold readPage
  rw [run_getThe_bind, hbuffer]
  dsimp only
  rw [hvalid]
  dsimp only
  rw [if_neg (not_not.mpr hid), if_neg (h.payloadLen hvalid)]
  rfl

theorem run_readPage_error (hsized : ∀ b ∈ s.pages, b.length = defaultPageSize)
    (h : ¬ ∃ buffer, s.pages[pageId.toNat]? = some buffer ∧ Readable pageId buffer) :
    ∃ e, (readPage pageId).run s = .error (.pager e) s := by
  unfold readPage
  rw [run_getThe_bind]
  cases hbuffer : s.pages[pageId.toNat]? with
  | none => exact ⟨_, rfl⟩
  | some buffer =>
    dsimp only
    cases hvalid : validatePage (Page.ofBytes buffer) with
    | error e => exact ⟨e, rfl⟩
    | ok header =>
      dsimp only
      by_cases hid : header.pageId = pageId.toNat
      · have hlength := hsized buffer (List.mem_of_getElem? hbuffer)
        exact absurd ⟨buffer, hbuffer, hlength, header, hvalid, hid⟩ h
      · rw [if_pos hid]
        exact ⟨_, rfl⟩

/-- The page goes to its place, or extends the file by one page. -/
structure Writable (s : CachedPager) (pageId : UInt64) (buffer : Bytes) : Prop where
  readable : Readable pageId buffer
  inFile : pageId.toNat ≤ s.pages.length

theorem getElem?_putPage (h : pageId.toNat ≤ s.pages.length) :
    (s.putPage pageId.toNat buffer).pages[pageId.toNat]? = some buffer := by
  unfold putPage
  dsimp only
  by_cases hlt : pageId.toNat < s.pages.length
  · rw [if_pos hlt]
    exact List.getElem?_set_self hlt
  · have hend : pageId.toNat = s.pages.length := Nat.le_antisymm h (Nat.not_lt.mp hlt)
    rw [if_neg hlt, hend, List.getElem?_append_right (Nat.le_refl _), Nat.sub_self]
    rfl

theorem getElem?_putPage_ne {b : Bytes} (hne : other ≠ pageId) (h : s.pages[other.toNat]? = some b) :
    (s.putPage pageId.toNat buffer).pages[other.toNat]? = some b := by
  have hne' : pageId.toNat ≠ other.toNat := fun heq => hne (UInt64.toNat.inj heq).symm
  unfold putPage
  dsimp only
  split
  · rw [List.getElem?_set_ne hne']
    exact h
  · rw [List.getElem?_append_left (List.getElem?_eq_some_iff.mp h).1]
    exact h

theorem putPage_same (h : s.pages[pageId.toNat]? = some buffer) : s.putPage pageId.toNat buffer = s := by
  rcases List.getElem?_eq_some_iff.mp h with ⟨hlt, hget⟩
  unfold putPage
  rw [if_pos hlt, ← hget, List.set_getElem_self]

structure Agrees (s : CachedPager) : Prop where
  cache : ∃ calls nodes, s.cache.Sound defaultPageSize calls nodes
  sized : ∀ b ∈ s.pages, b.length = defaultPageSize
  cached : ∀ pageId p, s.cache.view.page pageId = some p →
    s.pages[pageId.toNat]? = some p.data ∧ Readable pageId p.data

theorem run_onCache {a : α} (h : x.run s.cache = .ok a c) :
    (onCache x).run s = .ok a { s with cache := c } := by
  rw [EStateM.run] at h
  simp only [onCache, EStateM.run, h]

theorem run_onCache_error {e : CacheError}
    (h : x.run s.cache = .error e c) : (onCache x).run s = .error (.cache e) { s with cache := c } := by
  rw [EStateM.run] at h
  simp only [onCache, EStateM.run, h]

theorem ends_onCache {P : α → PageCache → Prop} {Q : CacheError → PageCache → Prop}
    (h : Ends x s.cache P fun e c => e = .overflow ∧ Q e c) :
    Ends (onCache x) s (fun a s' => ∃ c, s' = { s with cache := c } ∧ P a c)
      (fun e _ => e = .cache .overflow) := by
  cases hx : x.run s.cache with
  | ok a c => exact ends_of_ok (run_onCache hx) ⟨c, rfl, h.of_run_ok hx⟩
  | error e c => exact ends_of_error (run_onCache_error hx) (congrArg _ (h.of_run_error hx).1)

variable {pages : UInt64 → Option CachedPage}

theorem Agrees.after {calls : Nat} (h : s.Agrees)
    (hafter : PageCache.After s.cache defaultPageSize calls pages c)
    (hpages : ∀ pageId p, pages pageId = some p →
      s.pages[pageId.toNat]? = some p.data ∧ Readable pageId p.data) : Agrees { s with cache := c } := by
  rcases hafter.sound with ⟨nodes, hsound⟩
  refine ⟨⟨calls, nodes, hsound⟩, h.sized, ?_⟩
  intro pageId p hp
  apply hpages
  rw [← hafter.page]
  exact hp

theorem Agrees.update (h : s.Agrees) {q : CachedPage} (hq : s.pages[pageId.toNat]? = some q.data)
    (hreadable : Readable pageId q.data) (other : UInt64) (p : CachedPage)
    (hp : Function.update s.cache.view.page pageId (some q) other = some p) :
    s.pages[other.toNat]? = some p.data ∧ Readable other p.data := by
  rw [Function.update_apply] at hp
  split at hp
  next heq =>
    subst heq
    cases hp
    exact ⟨hq, hreadable⟩
  next => exact h.cached other p hp

/-- What a read gives is in the file, and pinned if it is borrowed. -/
structure ReadOk (s : CachedPager) (pageId : UInt64) (data : PageData) (s' : CachedPager) : Prop where
  agrees : s'.Agrees
  pages : s'.pages = s.pages
  dirty : s'.dirtyPageList = s.dirtyPageList
  current : s.pages[pageId.toNat]? = some data.bytes
  pins : ∀ other, pinsOf s.cache.view.page other + (if other = pageId then data.taken else 0) ≤
    pinsOf s'.cache.view.page other

theorem pinsOf_update (pages : UInt64 → Option CachedPage) (pageId other : UInt64) (q : CachedPage) :
    pinsOf (Function.update pages pageId (some q)) other =
      if other = pageId then q.pinCount else pinsOf pages other := by
  unfold pinsOf
  rw [Function.update_apply]
  split <;> rfl

theorem pinsOf_of_page (h : pages pageId = some p) : pinsOf pages pageId = p.pinCount := by
  unfold pinsOf
  rw [h]
  rfl

theorem pinsOf_of_none (h : pages pageId = none) : pinsOf pages pageId = 0 := by
  unfold pinsOf
  rw [h]
  rfl

theorem pinsOf_evicts {pages pages' : UInt64 → Option CachedPage} (h : PageCache.EvictsOldest pages pages')
    (other : UInt64) : pinsOf pages' other = pinsOf pages other := by
  cases hpage : pages other with
  | none =>
    rw [pinsOf_of_none hpage]
    cases hpage' : pages' other with
    | none => exact pinsOf_of_none hpage'
    | some q =>
      rw [h.kept other q hpage'] at hpage
      cases hpage
  | some p =>
    rw [pinsOf_of_page hpage]
    cases hpage' : pages' other with
    | none => exact (pinsOf_of_none hpage').trans (h.oldest other p hpage hpage').1.symm
    | some q =>
      have hsame := h.kept other q hpage'
      rw [hpage] at hsame
      cases hsame
      exact pinsOf_of_page hpage'

theorem ends_get_hit (h : s.Agrees) (hpage : s.cache.view.page pageId = some p) :
    Ends (onCache (PageCache.get pageId)) s
      (fun cached s' => cached = some p.data ∧ ReadOk s pageId (.borrowed p.data) s')
      (fun e _ => e = .cache .overflow) := by
  rcases h.cache with ⟨calls, nodes, hsound⟩
  have hget := PageCache.ends_get hsound pageId
  rw [hpage] at hget
  apply (ends_onCache hget).mono
  · rintro cached s' ⟨c, rfl, hcached, hafter⟩
    have hfile := h.cached pageId p hpage
    refine ⟨hcached, h.after hafter (h.update hfile.1 hfile.2), rfl, rfl, hfile.1, ?_⟩
    intro other
    show _ ≤ pinsOf c.view.page other
    rw [hafter.page, pinsOf_update]
    by_cases heq : other = pageId
    · rw [if_pos heq, if_pos heq, heq, pinsOf_of_page hpage]
      exact Nat.le_refl _
    · rw [if_neg heq, if_neg heq]
      exact Nat.le_refl _
  · exact fun _ _ he => he

theorem ends_get_miss (h : s.Agrees) (hpage : s.cache.view.page pageId = none) :
    Ends (onCache (PageCache.get pageId)) s (fun cached s' => cached = none ∧ s' = s)
      (fun e _ => e = .cache .overflow) := by
  rcases h.cache with ⟨calls, nodes, hsound⟩
  have hget := PageCache.ends_get hsound pageId
  rw [hpage] at hget
  apply (ends_onCache hget).mono
  · rintro cached s' ⟨c, rfl, hcached, rfl⟩
    exact ⟨hcached, rfl⟩
  · exact fun _ _ he => he

/-- The pages of the file, the list of dirty ones and all pins are as before. -/
abbrev KeepsPins (s s' : CachedPager) : Prop :=
  s'.Agrees ∧ s'.pages = s.pages ∧ s'.dirtyPageList = s.dirtyPageList ∧
    ∀ other, pinsOf s'.cache.view.page other = pinsOf s.cache.view.page other

/-- The page of the file goes into the cache, where nothing that is pinned makes room for it. -/
theorem ends_put_miss (h : s.Agrees) (hpage : s.cache.view.page pageId = none)
    (hbuffer : s.pages[pageId.toNat]? = some buffer) (hreadable : Readable pageId buffer) :
    Ends (onCache (PageCache.put pageId buffer)) s
      (fun _ s' => KeepsPins s s') (fun e _ => e = .cache .overflow) := by
  rcases h.cache with ⟨calls, nodes, hsound⟩
  have hput := PageCache.ends_put hsound pageId hreadable.length
  rw [hpage] at hput
  apply (ends_onCache hput).mono
  · rintro _ s' ⟨c, rfl, pages', hafter, hevicts, -, -⟩
    refine ⟨h.after hafter ?_, rfl, rfl, ?_⟩
    · intro other q hq
      exact h.update (q := ⟨pageId, buffer, 0, s.cache.accessCounter + 1⟩) hbuffer hreadable other q
        (hevicts.kept other q hq)
    · intro other
      show pinsOf c.view.page other = _
      rw [hafter.page, pinsOf_evicts hevicts, pinsOf_update]
      split
      next heq => rw [heq, pinsOf_of_none hpage]
      next => rfl
  · exact fun _ _ he => he

def ReadFails (s : CachedPager) (pageId : UInt64) (e : CachedError) (s' : CachedPager) : Prop :=
  e = .cache .overflow ∨ (∃ pe, e = .pager pe) ∧ s' = s ∧
    ¬ ∃ buffer, s.pages[pageId.toNat]? = some buffer ∧ Readable pageId buffer

theorem ends_readThrough (h : s.Agrees) (hpage : s.cache.view.page pageId = none) :
    Ends (readThrough pageId) s (fun data s' => ReadOk s pageId data s') (ReadFails s pageId) := by
  by_cases hfile : ∃ buffer, s.pages[pageId.toNat]? = some buffer ∧ Readable pageId buffer
  · rcases hfile with ⟨buffer, hbuffer, hreadable⟩
    unfold readThrough
    apply ends_bind_of_ok (run_readPage hbuffer hreadable)
    apply ((ends_put_miss h hpage hbuffer hreadable).mono (fun _ _ h => h) fun e _ he => .inl he).bind
    rintro _ s₁ - ⟨hagrees, hpages, hdirty, hpins⟩
    cases hpage₁ : s₁.cache.view.page pageId with
    | some q =>
      apply ((ends_get_hit hagrees hpage₁).mono (fun _ _ h => h) fun e _ he => .inl he).bind
      rintro cached s₂ - ⟨rfl, hread⟩
      refine ends_of_ok (run_pure _ _) ⟨hread.agrees, hread.pages.trans hpages, hread.dirty.trans hdirty, ?_, ?_⟩
      · rw [← hpages]
        exact hread.current
      · intro other
        rw [← hpins other]
        exact hread.pins other
    | none =>
      -- every page that is cached is pinned, and the new one has been evicted
      apply ((ends_get_miss hagrees hpage₁).mono (fun _ _ h => h) fun e _ he => .inl he).bind
      rintro cached s₂ - ⟨rfl, rfl⟩
      have hbuffer₁ := hbuffer
      rw [← hpages] at hbuffer₁
      apply ends_bind_of_ok (run_readPage hbuffer₁ hreadable)
      refine ends_of_ok (run_pure _ _) ⟨hagrees, hpages, hdirty, hbuffer, ?_⟩
      intro other
      rw [hpins other]
      show _ + (if other = pageId then 0 else 0) ≤ _
      rw [ite_self]
      exact Nat.le_refl _
  · rcases run_readPage_error h.sized hfile with ⟨e, hrun⟩
    unfold readThrough
    exact ends_of_error (run_bind_of_error hrun) (.inr ⟨⟨e, rfl⟩, rfl, hfile⟩)

theorem ends_readPageCached (h : s.Agrees) (pageId : UInt64) :
    Ends (readPageCached pageId) s (fun data s' => ReadOk s pageId data s') (ReadFails s pageId) := by
  unfold readPageCached
  cases hpage : s.cache.view.page pageId with
  | some p =>
    apply ((ends_get_hit h hpage).mono (fun _ _ h => h) fun e _ he => .inl he).bind
    rintro cached s₁ - ⟨rfl, hread⟩
    exact ends_of_ok (run_pure _ _) hread
  | none =>
    apply ((ends_get_miss h hpage).mono (fun _ _ h => h) fun e _ he => .inl he).bind
    rintro cached s₁ - ⟨rfl, rfl⟩
    exact ends_readThrough h hpage

theorem sized_putPage (h : ∀ b ∈ s.pages, b.length = defaultPageSize) (hlength : buffer.length = defaultPageSize)
    (pageId : Nat) : ∀ b ∈ (s.putPage pageId buffer).pages, b.length = defaultPageSize := by
  intro b hb
  unfold putPage at hb
  dsimp only at hb
  split at hb
  · rcases List.mem_or_eq_of_mem_set hb with hb | rfl
    · exact h b hb
    · exact hlength
  · rcases List.mem_append.mp hb with hb | hb
    · exact h b hb
    · rw [List.mem_singleton.mp hb]
      exact hlength

theorem run_writePage_error (hlength : buffer.length = defaultPageSize) (h : ¬ Writable s pageId buffer) :
    ∃ e, (writePage pageId buffer).run s = .error (.pager e) s := by
  unfold writePage
  rw [if_neg (by omega)]
  cases hvalid : validatePage (Page.ofBytes buffer) with
  | error e => exact ⟨e, rfl⟩
  | ok header =>
    dsimp only
    by_cases hid : header.pageId = pageId.toNat
    · rw [if_neg (not_not.mpr hid)]
      show ∃ e, (if pageId.toNat > s.pages.length then _ else _ : CachedM Unit).run s = _
      by_cases hbeyond : pageId.toNat > s.pages.length
      · rw [if_pos hbeyond]
        exact ⟨_, rfl⟩
      · exact absurd ⟨⟨hlength, header, hvalid, hid⟩, Nat.not_lt.mp hbeyond⟩ h
    · rw [if_pos hid]
      exact ⟨_, rfl⟩

theorem run_writePage {calls : Nat} {nodes : List Nat} (hsound : s.cache.Sound defaultPageSize calls nodes)
    (hw : Writable s pageId buffer) :
    ∃ c pages', (writePage pageId buffer).run s = .ok () { s.putPage pageId.toNat buffer with cache := c } ∧
      PageCache.After s.cache defaultPageSize calls pages' c ∧
      (pages' = s.cache.view.page ∧ (∀ p, s.cache.view.page pageId = some p → 0 < p.pinCount) ∨
        pages' = Function.update s.cache.view.page pageId none ∧ pinsOf s.cache.view.page pageId = 0) := by
  rcases hw.readable.valid with ⟨header, hvalid, hid⟩
  rcases PageCache.run_remove hsound pageId with ⟨result, c, hrun, hafter⟩
  have hremove : (onCache (PageCache.remove pageId)).run (s.putPage pageId.toNat buffer) =
      .ok result { s.putPage pageId.toNat buffer with cache := c } := run_onCache hrun
  have hwrite : (writePage pageId buffer).run s = .ok () { s.putPage pageId.toNat buffer with cache := c } := by
    unfold writePage
    rw [if_neg (by rw [hw.readable.length]; exact Nat.lt_irrefl _), hvalid]
    dsimp only
    rw [if_neg (not_not.mpr hid)]
    show (if pageId.toNat > s.pages.length then _ else _ : CachedM Unit).run s = _
    rw [if_neg (Nat.not_lt.mpr hw.inFile)]
    show ((onCache (PageCache.remove pageId)) >>= fun _ => pure ()).run (s.putPage pageId.toNat buffer) = _
    rw [run_bind_of_ok hremove]
    rfl
  cases hpage : s.cache.view.page pageId with
  | none =>
    rw [hpage] at hafter
    refine ⟨c, _, hwrite, ?_, .inl ⟨rfl, nofun⟩⟩
    rw [hafter.2]
    exact ⟨⟨nodes, hsound⟩, rfl, rfl, rfl⟩
  | some p =>
    rw [hpage] at hafter
    dsimp only at hafter
    by_cases hpin : p.pinCount = 0
    · rw [if_pos hpin] at hafter
      refine ⟨c, _, hwrite, hafter.2, .inr ⟨rfl, ?_⟩⟩
      rw [pinsOf_of_page hpage, hpin]
    · rw [if_neg hpin] at hafter
      refine ⟨c, _, hwrite, hafter.2, .inl ⟨rfl, ?_⟩⟩
      rintro q hq
      cases hq
      exact Nat.pos_of_ne_zero hpin

theorem Agrees.write (h : s.Agrees) (hw : Writable s pageId buffer)
    (hpinned : ∀ p, s.cache.view.page pageId = some p → 0 < p.pinCount → p.data = buffer) :
    ∃ c, (writePage pageId buffer).run s = .ok () { s.putPage pageId.toNat buffer with cache := c } ∧
      Agrees { s.putPage pageId.toNat buffer with cache := c } ∧
      (∀ other, pinsOf c.view.page other = pinsOf s.cache.view.page other) ∧
      (pinsOf s.cache.view.page pageId = 0 → c.view.page pageId = none) := by
  rcases h.cache with ⟨calls, nodes, hsound⟩
  rcases run_writePage hsound hw with ⟨c, pages', hrun, hafter, hpages⟩
  rcases hafter.sound with ⟨nodes', hsound'⟩
  refine ⟨c, hrun, ⟨⟨calls, nodes', hsound'⟩, sized_putPage h.sized hw.readable.length _, ?_⟩, ?_, ?_⟩
  · intro other p hp
    have hold : s.cache.view.page other = some p ∧ (other = pageId → 0 < p.pinCount) := by
      have hp' : pages' other = some p := by
        rw [← hafter.page]
        exact hp
      rcases hpages with ⟨rfl, hpos⟩ | ⟨rfl, -⟩
      · refine ⟨hp', ?_⟩
        rintro rfl
        exact hpos p hp'
      · rw [Function.update_apply] at hp'
        split at hp'
        · cases hp'
        next hne => exact ⟨hp', fun heq => absurd heq hne⟩
    by_cases heq : other = pageId
    · subst heq
      rw [hpinned p hold.1 (hold.2 rfl)]
      exact ⟨getElem?_putPage hw.inFile, hw.readable⟩
    · have hfile := h.cached other p hold.1
      exact ⟨getElem?_putPage_ne heq hfile.1, hfile.2⟩
  · intro other
    rw [hafter.page]
    rcases hpages with ⟨rfl, -⟩ | ⟨rfl, hzero⟩
    · rfl
    · by_cases heq : other = pageId
      · rw [heq, hzero]
        exact pinsOf_of_none (Function.update_self ..)
      · unfold pinsOf
        rw [Function.update_of_ne heq]
  · intro hzero
    rw [hafter.page]
    rcases hpages with ⟨rfl, hpos⟩ | ⟨rfl, -⟩
    · cases hpage : s.cache.view.page pageId with
      | none => rfl
      | some p =>
        have hpin := hpos p hpage
        rw [pinsOf_of_page hpage] at hzero
        omega
    · exact Function.update_self ..

theorem ends_writeDirtyPage (h : s.Agrees) (hzero : pinsOf s.cache.view.page pageId = 0) :
    Ends (writeDirtyPage pageId) s
      (fun _ s' => KeepsPins s s') (fun e _ => e = .cache .overflow) := by
  rcases h.cache with ⟨calls, nodes, hsound⟩
  have hget := ends_onCache (PageCache.ends_getUnpinned hsound pageId)
  unfold writeDirtyPage
  cases hpage : s.cache.view.page pageId with
  | none =>
    rw [hpage] at hget
    apply hget.bind
    rintro cached s₁ - ⟨c, rfl, rfl, rfl⟩
    exact ends_of_ok (run_pure _ _) ⟨h, rfl, rfl, fun _ => rfl⟩
  | some p =>
    rw [hpage] at hget
    have hfile := h.cached pageId p hpage
    apply hget.bind
    rintro cached s₁ - ⟨c, rfl, rfl, hafter⟩
    have hagrees : Agrees { s with cache := c } :=
      h.after hafter (h.update (q := { p with lastAccess := s.cache.accessCounter + 1 }) hfile.1 hfile.2)
    have hpins : ∀ other, pinsOf c.view.page other = pinsOf s.cache.view.page other := by
      intro other
      rw [hafter.page, pinsOf_update]
      split
      next heq => rw [heq, pinsOf_of_page hpage]
      next => rfl
    have hinFile : pageId.toNat ≤ s.pages.length := Nat.le_of_lt (List.getElem?_eq_some_iff.mp hfile.1).1
    have hw : Writable { s with cache := c } pageId p.data := ⟨hfile.2, hinFile⟩
    have hcopy : ∀ q, c.view.page pageId = some q → 0 < q.pinCount → q.data = p.data := by
      intro q hq _
      have hsame := (hagrees.cached pageId q hq).1
      exact (Option.some.inj (hfile.1.symm.trans hsame)).symm
    rcases hagrees.write hw hcopy with ⟨c', hrun, hagrees', hpins', hgone⟩
    have hsame : putPage { s with cache := c } pageId.toNat p.data = { s with cache := c } := putPage_same hfile.1
    rw [hsame] at hrun hagrees'
    apply ends_bind_of_ok hrun
    -- there is no page left to unpin
    have hnone : c'.view.page pageId = none := hgone ((hpins pageId).trans hzero)
    rcases hagrees'.cache with ⟨calls', nodes', hsound'⟩
    rcases PageCache.ends_unpin hsound' pageId with ⟨c'', hunpin, hsame''⟩
    rw [hnone] at hsame''
    subst hsame''
    refine ends_of_ok (run_onCache hunpin) ⟨hagrees', rfl, rfl, ?_⟩
    intro other
    exact (hpins' other).trans (hpins other)

theorem ends_writeDirtyList (h : s.Agrees) {dirty : List UInt64}
    (hzero : ∀ pageId ∈ dirty, pinsOf s.cache.view.page pageId = 0) :
    Ends (forEach writeDirtyPage dirty) s
      (fun _ s' => KeepsPins s s') (fun e _ => e = .cache .overflow) := by
  induction dirty generalizing s with
  | nil => exact ends_of_ok (run_pure _ _) ⟨h, rfl, rfl, fun _ => rfl⟩
  | cons pageId dirty ih =>
    apply (ends_writeDirtyPage h (hzero pageId (List.mem_cons_self ..))).bind
    rintro _ s₁ - ⟨hagrees, hpages, hdirty, hpins⟩
    have hzero₁ : ∀ other ∈ dirty, pinsOf s₁.cache.view.page other = 0 := by
      intro other hother
      rw [hpins]
      exact hzero other (List.mem_cons_of_mem _ hother)
    apply (ih hagrees hzero₁).mono
    · rintro _ s₂ ⟨hagrees₂, hpages₂, hdirty₂, hpins₂⟩
      exact ⟨hagrees₂, hpages₂.trans hpages, hdirty₂.trans hdirty, fun other => (hpins₂ other).trans (hpins other)⟩
    · exact fun _ _ he => he

end CachedPager

namespace PagerSession

open CachedPager

variable {s s' : PagerSession} {e : PagerEvent}

/-- The event keeps to the rules: what is pinned is not overwritten with other bytes, a pin is given back by
its owner, or when there is none, and no dirty page is pinned when the dirty pages are written. -/
def Allowed (s : PagerSession) : PagerEvent → Prop
  | .writePage pageId buffer => ∀ p, s.pager.cache.view.page pageId = some p → 0 < p.pinCount →
      Writable s.pager pageId buffer.1 → p.data = buffer.1
  | .unpinPage reader pageId => (reader, pageId) ∈ s.pins ∨ ∀ other, (other, pageId) ∉ s.pins
  | .writeDirtyPages => ∀ pageId ∈ s.pager.dirtyPageList, pinsOf s.pager.cache.view.page pageId = 0
  | .readPageCached _ _ => True
  | .markPageDirty _ => True

/-- A read gives what has been written last, and who has pinned a page keeps it pinned. -/
structure Serves (s : PagerSession) : Prop where
  reads : ∀ pageId buffer, s.written pageId = some buffer → Ends (readPageCached pageId) s.pager
    (fun data _ => data.bytes = buffer) (fun e _ => e = .cache .overflow)
  pinned : ∀ reader pageId, (reader, pageId) ∈ s.pins →
    ∃ p, s.pager.cache.view.page pageId = some p ∧ 0 < p.pinCount

/-- How many readers hold a pin on the page. -/
def holders (pins : List (Nat × UInt64)) (pageId : UInt64) : Nat := pins.countP fun pin => pin.2 = pageId

theorem holders_cons (pins : List (Nat × UInt64)) (reader : Nat) (pageId other : UInt64) :
    holders ((reader, pageId) :: pins) other = holders pins other + if other = pageId then 1 else 0 := by
  unfold holders
  rw [List.countP_cons]
  by_cases heq : other = pageId
  · rw [if_pos heq, if_pos (decide_eq_true heq.symm)]
  · rw [if_neg heq, if_neg fun htrue => heq (of_decide_eq_true htrue).symm]

variable {reader : Nat} {pager : CachedPager}

variable {pins : List (Nat × UInt64)} {pageId : UInt64}

theorem holders_erase (h : (reader, pageId) ∈ pins) (other : UInt64) :
    holders (pins.erase (reader, pageId)) other + (if other = pageId then 1 else 0) = holders pins other := by
  rw [← holders_cons]
  exact ((List.perm_cons_erase h).countP_eq _).symm

theorem holders_pos (h : (reader, pageId) ∈ pins) :
    0 < holders pins pageId := List.countP_pos_iff.mpr ⟨(reader, pageId), h, decide_eq_true rfl⟩

theorem holders_eq_zero (h : ∀ reader, (reader, pageId) ∉ pins) : holders pins pageId = 0 := by
  apply List.countP_eq_zero.mpr
  rintro ⟨reader, other⟩ hmem htrue
  have heq : other = pageId := of_decide_eq_true htrue
  exact h reader (heq ▸ hmem)

structure Coherent (s : PagerSession) : Prop where
  agrees : s.pager.Agrees
  written : ∀ pageId buffer, s.written pageId = some buffer →
    s.pager.pages[pageId.toNat]? = some buffer ∧ Readable pageId buffer
  pins : ∀ pageId, holders s.pins pageId ≤ pinsOf s.pager.cache.view.page pageId

theorem Coherent.serves (h : s.Coherent) : s.Serves where
  reads pageId buffer hwritten := by
    have hfile := h.written pageId buffer hwritten
    apply (ends_readPageCached h.agrees pageId).mono
    · intro data s' hread
      exact Option.some.inj (hread.current.symm.trans hfile.1)
    · rintro e s' (hoverflow | ⟨-, -, hnot⟩)
      · exact hoverflow
      · exact absurd ⟨buffer, hfile⟩ hnot
  pinned reader pageId hmem := by
    have hcount := holders_pos hmem
    have hpins := h.pins pageId
    cases hpage : s.pager.cache.view.page pageId with
    | none =>
      rw [pinsOf_of_none hpage] at hpins
      omega
    | some p =>
      rw [pinsOf_of_page hpage] at hpins
      exact ⟨p, rfl, by omega⟩

theorem Coherent.of_pager (h : s.Coherent) (hagrees : pager.Agrees)
    (hpages : pager.pages = s.pager.pages)
    (hpins : ∀ pageId, pinsOf s.pager.cache.view.page pageId ≤ pinsOf pager.cache.view.page pageId) :
    Coherent ⟨pager, s.written, s.pins⟩ where
  agrees := hagrees
  written pageId buffer hwritten := by
    show pager.pages[pageId.toNat]? = some buffer ∧ _
    rw [hpages]
    exact h.written pageId buffer hwritten
  pins pageId := (h.pins pageId).trans (hpins pageId)

variable {buffer : PageBuffer}

theorem step_writePage (h : s.Coherent)
    (hallowed : s.Allowed (.writePage pageId buffer)) (hstep : s.step (.writePage pageId buffer) = some s') :
    s'.Coherent := by
  unfold step at hstep
  dsimp only at hstep
  by_cases hw : Writable s.pager pageId buffer.1
  · rcases h.agrees.write hw (fun p hp hpin => hallowed p hp hpin hw) with ⟨c, hrun, hagrees, hpins, -⟩
    rw [hrun] at hstep
    cases hstep
    refine ⟨hagrees, ?_, ?_⟩
    · intro other b hwritten
      have hupdate : Function.update s.written pageId (some buffer.1) other = some b := hwritten
      rw [Function.update_apply] at hupdate
      split at hupdate
      next heq =>
        subst heq
        cases hupdate
        exact ⟨getElem?_putPage hw.inFile, hw.readable⟩
      next hne =>
        have hfile := h.written other b hupdate
        exact ⟨getElem?_putPage_ne hne hfile.1, hfile.2⟩
    · intro other
      show _ ≤ pinsOf c.view.page other
      rw [hpins]
      exact h.pins other
  · rcases run_writePage_error buffer.2 hw with ⟨e, hrun⟩
    rw [hrun] at hstep
    cases hstep
    exact ⟨h.agrees, h.written, h.pins⟩

theorem step_readPageCached (h : s.Coherent)
    (hstep : s.step (.readPageCached reader pageId) = some s') : s'.Coherent := by
  have hends := ends_readPageCached h.agrees pageId
  unfold step at hstep
  dsimp only at hstep
  cases hrun : (readPageCached pageId).run s.pager with
  | ok data pager =>
    rw [hrun] at hstep
    cases hstep
    have hread := hends.of_run_ok hrun
    have hcoherent := h.of_pager hread.agrees hread.pages
      fun other => (Nat.le_add_right _ _).trans (hread.pins other)
    cases data with
    | owned buffer => exact hcoherent
    | borrowed bytes =>
      refine ⟨hcoherent.agrees, hcoherent.written, ?_⟩
      intro other
      show holders ((reader, pageId) :: s.pins) other ≤ pinsOf pager.cache.view.page other
      rw [holders_cons]
      exact (Nat.add_le_add_right (h.pins other) _).trans (hread.pins other)
  | error e pager =>
    have hfails := hends.of_run_error hrun
    rw [hrun] at hstep
    rcases hfails with rfl | ⟨⟨pe, rfl⟩, rfl, -⟩
    · cases hstep
    · cases hstep
      exact ⟨h.agrees, h.written, h.pins⟩

theorem step_unpinPage (h : s.Coherent)
    (hallowed : s.Allowed (.unpinPage reader pageId)) (hstep : s.step (.unpinPage reader pageId) = some s') :
    s'.Coherent := by
  rcases h.agrees.cache with ⟨calls, nodes, hsound⟩
  rcases PageCache.ends_unpin hsound pageId with ⟨c, hrun, hafter⟩
  have hunpin : (unpinPage pageId).run s.pager = .ok () { s.pager with cache := c } := run_onCache hrun
  unfold step at hstep
  dsimp only at hstep
  rw [hunpin] at hstep
  cases hstep
  -- the reader that gives a pin back had one, or nobody has
  have herase : ∀ other, holders (s.pins.erase (reader, pageId)) other ≤
      holders s.pins other - if other = pageId then 1 else 0 := by
    intro other
    rcases hallowed with hmem | hnobody
    · rw [← holders_erase hmem, Nat.add_sub_cancel]
    · rw [List.erase_of_not_mem (hnobody reader)]
      by_cases heq : other = pageId
      · rw [heq, holders_eq_zero hnobody]
        exact Nat.zero_le _
      · rw [if_neg heq]
        exact Nat.le_refl _
  cases hpage : s.pager.cache.view.page pageId with
  | none =>
    rw [hpage] at hafter
    subst hafter
    refine ⟨h.agrees, h.written, ?_⟩
    intro other
    exact ((herase other).trans (Nat.sub_le ..)).trans (h.pins other)
  | some p =>
    rw [hpage] at hafter
    have hfile := h.agrees.cached pageId p hpage
    refine ⟨h.agrees.after hafter (h.agrees.update (q := { p with pinCount := p.pinCount - 1 }) hfile.1 hfile.2),
      h.written, ?_⟩
    intro other
    show holders (s.pins.erase (reader, pageId)) other ≤ pinsOf c.view.page other
    have hle := herase other
    have hpins := h.pins other
    rw [hafter.page, pinsOf_update]
    by_cases heq : other = pageId
    · rw [if_pos heq] at hle ⊢
      rw [heq, pinsOf_of_page hpage, ← heq] at hpins
      exact hle.trans (Nat.sub_le_sub_right hpins 1)
    · rw [if_neg heq] at hle ⊢
      exact hle.trans hpins

theorem step_writeDirtyPages (h : s.Coherent) (hallowed : s.Allowed .writeDirtyPages)
    (hstep : s.step .writeDirtyPages = some s') : s'.Coherent := by
  have hends : Ends writeDirtyPages s.pager _ _ := ends_writeDirtyList h.agrees hallowed
  unfold step at hstep
  dsimp only at hstep
  cases hrun : writeDirtyPages.run s.pager with
  | ok _ pager =>
    rw [hrun] at hstep
    cases hstep
    rcases hends.of_run_ok hrun with ⟨hagrees, hpages, -, hpins⟩
    exact h.of_pager hagrees hpages fun other => Nat.le_of_eq (hpins other).symm
  | error e pager =>
    rw [hrun, hends.of_run_error hrun] at hstep
    cases hstep

theorem step_coherent (h : s.Coherent) (hallowed : s.Allowed e) (hstep : s.step e = some s') : s'.Coherent := by
  cases e with
  | writePage pageId buffer => exact step_writePage h hallowed hstep
  | readPageCached reader pageId => exact step_readPageCached h hstep
  | unpinPage reader pageId => exact step_unpinPage h hallowed hstep
  | markPageDirty pageId =>
    cases hstep
    exact ⟨⟨h.agrees.cache, h.agrees.sized, h.agrees.cached⟩, h.written, h.pins⟩
  | writeDirtyPages => exact step_writeDirtyPages h hallowed hstep

theorem start_coherent (pages : List PageBuffer) : (start pages).Coherent where
  agrees := by
    refine ⟨⟨0, [], PageCache.init_sound _ _ _⟩, ?_, nofun⟩
    intro b hb
    rcases List.mem_map.mp hb with ⟨buffer, -, rfl⟩
    exact buffer.2
  written := nofun
  pins _ := Nat.le_refl _

def emptyPage (txnId : Nat) : Page :=
  Page.rehash ⟨{ pageType := .btreeLeaf, pageId := 0, txnId, payloadLen := 0, headerCrc32c := 0, pageCrc32c := 0 },
    List.replicate Page.bodySize 0⟩

theorem ofBytes_emptyPage {txnId : Nat} (h : txnId < 2 ^ 64) : Page.ofBytes (emptyPage txnId).bytes = emptyPage txnId :=
  Page.ofBytes_bytes ⟨Nat.two_pow_pos 64, h, Nat.two_pow_pos 32, rfl⟩

def emptyBuffer (txnId : Nat) : PageBuffer := ⟨(emptyPage txnId).bytes, Page.length_bytes List.length_replicate⟩

theorem readable_emptyBuffer {txnId : Nat} (h : txnId < 2 ^ 64) : Readable 0 (emptyBuffer txnId).1 := by
  refine ⟨(emptyBuffer txnId).2, (emptyPage txnId).header, ?_, rfl⟩
  show validatePage (Page.ofBytes (emptyPage txnId).bytes) = _
  rw [ofBytes_emptyPage h]
  exact validatePage_rehash rfl rfl (Nat.zero_le _)

theorem emptyBuffer_ne : (emptyBuffer 0).1 ≠ (emptyBuffer 1).1 := by
  intro heq
  have hpage := congrArg Page.ofBytes heq
  change Page.ofBytes (emptyPage 0).bytes = Page.ofBytes (emptyPage 1).bytes at hpage
  rw [ofBytes_emptyPage (by decide), ofBytes_emptyPage (by decide)] at hpage
  have htxn := congrArg (fun page : Page => page.header.txnId) hpage
  exact absurd htxn (by decide)

theorem ok_of_ends {calls : Nat} {P : α → PageCache → Prop}
    (h : Ends x c P (fun e _ => PageCache.Overflow calls e)) (hcalls : calls + 1 < 2 ^ 32) :
    ∃ a c', x.run c = .ok a c' ∧ P a c' := by
  cases hrun : x.run c with
  | ok a c' => exact ⟨a, c', rfl, h.of_run_ok hrun⟩
  | error e c' =>
    have hoverflow := (h.of_run_error hrun).2
    omega

structure Pinned (s : CachedPager) (buffer : Bytes) : Prop where
  sound : ∃ nodes, s.cache.Sound defaultPageSize 2 nodes
  page : ∃ p, s.cache.view.page 0 = some p ∧ p.data = buffer ∧ p.pinCount = 1

theorem run_first_read {buffer : Bytes} (hreadable : Readable 0 buffer) :
    ∃ c, (readPageCached 0).run (opened [buffer]) = .ok (.borrowed buffer) { opened [buffer] with cache := c } ∧
      Pinned { opened [buffer] with cache := c } buffer := by
  have hsound := PageCache.init_sound 1024 (16 * 1024 * 1024) defaultPageSize
  rcases ok_of_ends (PageCache.ends_get hsound 0) (by decide) with ⟨cached, c₀, hget, hcached, rfl⟩
  rcases ok_of_ends (PageCache.ends_put hsound 0 hreadable.length) (by decide) with
    ⟨_, c₁, hput, pages', hafter, -, -, hbelow⟩
  rw [hbelow (by decide) (by decide)] at hafter
  rcases hafter.sound with ⟨nodes₁, hsound₁⟩
  have hpage₁ : c₁.view.page 0 = some ⟨0, buffer, 0, 1⟩ := by
    rw [hafter.page]
    exact Function.update_self ..
  have hget₁ := PageCache.ends_get hsound₁ 0
  rw [hpage₁] at hget₁
  rcases ok_of_ends hget₁ (by decide) with ⟨cached₁, c₂, hget₂, rfl, hafter₂⟩
  rcases hafter₂.sound with ⟨nodes₂, hsound₂⟩
  refine ⟨c₂, ?_, ⟨nodes₂, hsound₂⟩, ⟨0, buffer, 1, c₁.accessCounter + 1⟩, ?_, rfl, rfl⟩
  · rw [hcached] at hget
    unfold readPageCached readThrough
    rw [run_bind_of_ok (run_onCache hget)]
    show (readPage 0 >>= _).run (opened [buffer]) = _
    rw [run_bind_of_ok (run_readPage rfl hreadable), run_bind_of_ok (run_onCache hput),
      run_bind_of_ok (run_onCache hget₂)]
    rfl
  · show c₂.view.page 0 = _
    rw [hafter₂.page]
    exact Function.update_self ..

theorem run_stale_read {s : CachedPager} {old new : Bytes} (h : Pinned s old) (hw : Writable s 0 new) :
    ∃ s' s'', (writePage 0 new).run s = .ok () s' ∧ (readPageCached 0).run s' = .ok (.borrowed old) s'' := by
  rcases h.sound with ⟨nodes, hsound⟩
  rcases h.page with ⟨p, hpage, rfl, hpin⟩
  rcases run_writePage hsound hw with ⟨c, pages', hrun, hafter, ⟨rfl, -⟩ | ⟨-, hzero⟩⟩
  · rcases hafter.sound with ⟨nodes', hsound'⟩
    have hget := PageCache.ends_get hsound' 0
    rw [hafter.page, hpage] at hget
    rcases ok_of_ends hget (by decide) with ⟨cached, c', hcached, rfl, -⟩
    refine ⟨_, { s.putPage 0 new with cache := c' }, hrun, ?_⟩
    unfold readPageCached
    rw [run_bind_of_ok (run_onCache hcached)]
    rfl
  · rw [pinsOf_of_page hpage, hpin] at hzero
    cases hzero

theorem run_lost_pin {s : CachedPager} {buffer : Bytes} (h : Pinned s buffer) (hw : Writable s 0 buffer) :
    ∃ s', (writeDirtyPage 0).run s = .ok () s' ∧ pinsOf s'.cache.view.page 0 = 0 := by
  rcases h.sound with ⟨nodes, hsound⟩
  rcases h.page with ⟨p, hpage, rfl, hpin⟩
  have hget := PageCache.ends_getUnpinned hsound 0
  rw [hpage] at hget
  rcases ok_of_ends hget (by decide) with ⟨cached, c₁, hget₁, rfl, hafter₁⟩
  rcases hafter₁.sound with ⟨nodes₁, hsound₁⟩
  have hpage₁ : c₁.view.page 0 = some { p with lastAccess := s.cache.accessCounter + 1 } := by
    rw [hafter₁.page]
    exact Function.update_self ..
  have hw₁ : Writable { s with cache := c₁ } 0 p.data := ⟨hw.readable, hw.inFile⟩
  rcases run_writePage (s := { s with cache := c₁ }) hsound₁ hw₁ with
    ⟨c₂, pages', hrun, hafter₂, ⟨rfl, -⟩ | ⟨-, hzero⟩⟩
  · rcases hafter₂.sound with ⟨nodes₂, hsound₂⟩
    have hpage₂ : c₂.view.page 0 = some { p with lastAccess := s.cache.accessCounter + 1 } := by
      rw [hafter₂.page]
      exact hpage₁
    rcases PageCache.ends_unpin hsound₂ 0 with ⟨c₃, hunpin, hafter₃⟩
    rw [hpage₂] at hafter₃
    refine ⟨{ putPage { s with cache := c₁ } (UInt64.toNat 0) p.data with cache := c₃ }, ?_, ?_⟩
    · unfold writeDirtyPage
      rw [run_bind_of_ok (run_onCache hget₁)]
      dsimp only
      rw [run_bind_of_ok hrun]
      exact run_onCache hunpin
    · show pinsOf c₃.view.page 0 = 0
      rw [hafter₃.page, pinsOf_update, if_pos rfl]
      show p.pinCount - 1 = 0
      rw [hpin]
  · have hone : pinsOf c₁.view.page 0 = p.pinCount := (pinsOf_of_page hpage₁).trans rfl
    have hzero' : pinsOf c₁.view.page 0 = 0 := hzero
    omega

theorem step_readPageCached_ok {bytes : Bytes}
    (h : (readPageCached pageId).run s.pager = .ok (.borrowed bytes) pager) :
    s.step (.readPageCached reader pageId) = some ⟨pager, s.written, (reader, pageId) :: s.pins⟩ := by
  unfold step
  dsimp only
  rw [h]
  rfl

theorem step_writePage_ok (h : (writePage pageId buffer.1).run s.pager = .ok () pager) :
    s.step (.writePage pageId buffer) =
      some ⟨pager, Function.update s.written pageId (some buffer.1), s.pins⟩ := by
  unfold step
  dsimp only
  rw [h]
  rfl

theorem step_writeDirtyPages_ok (h : writeDirtyPages.run s.pager = .ok () pager) :
    s.step .writeDirtyPages = some ⟨pager, s.written, s.pins⟩ := by
  unfold step
  dsimp only
  rw [h]
  rfl

theorem update_written (written : UInt64 → Option Bytes) (pageId : UInt64) (buffer : Bytes) :
    Function.update written pageId (some buffer) pageId = some buffer := Function.update_self ..

/-- A reader has pinned the page; then another page is written over it. -/
theorem stale_run {old new : PageBuffer} (hold : Readable 0 old.1) (hnew : Readable 0 new.1) (hne : old.1 ≠ new.1) :
    ∃ s, Runs.run step (start [old]) [.readPageCached 1 0, .writePage 0 new] = some s ∧ ¬ s.Serves := by
  rcases run_first_read hold with ⟨c, hread, hpinned⟩
  rcases run_stale_read hpinned ⟨hnew, Nat.zero_le _⟩ with ⟨s', s'', hwrite, hstale⟩
  refine ⟨⟨s', Function.update (fun _ => none) 0 (some new.1), [(1, 0)]⟩, ?_, ?_⟩
  · rw [Runs.run_cons]
    refine ⟨_, step_readPageCached_ok hread, ?_⟩
    rw [Runs.run_cons]
    exact ⟨_, step_writePage_ok hwrite, rfl⟩
  · intro hserves
    exact hne ((hserves.reads 0 new.1 (update_written (fun _ => none) 0 new.1)).of_run_ok hstale)

/-- A reader has pinned the page; then it is marked as dirty, and flushed. -/
theorem lost_run (hreadable : Readable 0 buffer.1) :
    ∃ s, Runs.run step (start [buffer]) [.readPageCached 1 0, .markPageDirty 0, .writeDirtyPages] = some s ∧
      ¬ s.Serves := by
  rcases run_first_read hreadable with ⟨c, hread, hpinned⟩
  let dirty : CachedPager := ⟨[buffer.1], c, [0]⟩
  have hpinned' : Pinned dirty buffer.1 := ⟨hpinned.sound, hpinned.page⟩
  rcases run_lost_pin hpinned' ⟨hreadable, Nat.zero_le _⟩ with ⟨s', hflush, hzero⟩
  have hflush' : writeDirtyPages.run dirty = .ok () s' := by
    show (writeDirtyPage 0 >>= fun _ => pure ()).run dirty = _
    rw [run_bind_of_ok hflush]
    rfl
  refine ⟨⟨s', fun _ => none, [(1, 0)]⟩, ?_, ?_⟩
  · rw [Runs.run_cons]
    refine ⟨_, step_readPageCached_ok hread, ?_⟩
    rw [Runs.run_cons]
    refine ⟨⟨dirty, fun _ => none, [(1, 0)]⟩, rfl, ?_⟩
    rw [Runs.run_cons]
    exact ⟨_, step_writeDirtyPages_ok hflush', rfl⟩
  · intro hserves
    rcases hserves.pinned 1 0 (List.mem_singleton_self _) with ⟨p, hpage, hpos⟩
    have hpins : pinsOf s'.cache.view.page 0 = p.pinCount := pinsOf_of_page hpage
    omega

end PagerSession

end Northstar.Zig
