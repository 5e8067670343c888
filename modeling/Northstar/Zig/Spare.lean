import Northstar.Zig.Db
import Northstar.Zig.Freelist

/-!
# Spare — the pages a mutation does not write

Puts and deletes write the pages on the way to the key, in place, and pages the allocator gives out.  A
set of pages that has none of these keeps its contents, and so does a lookup that reads only pages of
the set.
-/

namespace Northstar.Zig

open Bytes EStateM

variable {fuel txnId : Nat}

namespace Pager

/-- The pages a lookup reads, in order. -/
def walk (p : Pager) (key : Bytes) : Nat → Nat → List Nat
  | 0, _ => []
  | fuel + 1, pageId =>
    match p.descend key pageId with
    | .ok (_, some child) => pageId :: p.walk key fuel child
    | _ => [pageId]

variable {pageId : Nat} {key : Bytes}

theorem descend_congr {p q : Pager} (h : q.pages[pageId]? = p.pages[pageId]?)
    (key : Bytes) : q.descend key pageId = p.descend key pageId := by
  unfold descend readPage
  rw [h]

theorem getValueFrom_congr {p q : Pager} {bufferLen : Nat}
    (h : ∀ x ∈ p.walk key fuel pageId, q.pages[x]? = p.pages[x]?) :
    q.getValueFrom key bufferLen fuel pageId = p.getValueFrom key bufferLen fuel pageId := by
  induction fuel generalizing pageId with
  | zero => rfl
  | succ fuel ih =>
    have hmem : pageId ∈ p.walk key (fuel + 1) pageId := by
      unfold walk
      split
      · exact List.mem_cons_self ..
      · exact List.mem_cons_self ..
    unfold getValueFrom
    rw [descend_congr (h pageId hmem) key]
    cases hdescend : p.descend key pageId with
    | error e => rfl
    | ok found =>
      rcases found with ⟨page, child⟩
      cases child with
      | none => rfl
      | some child =>
        rw [Except.ok_bind, Except.ok_bind]
        apply ih
        intro x hx
        apply h
        unfold walk
        rw [hdescend]
        exact List.mem_cons_of_mem _ hx

/-- The pages that lookups from a root read, over all keys. -/
def Reads (p : Pager) (rootPageId pageId : Nat) : Prop :=
  rootPageId ≠ 0 ∧ ∃ key fuel, pageId ∈ p.walk key fuel rootPageId

/-- The set has pages of the file only, and none that the allocator may give out. -/
def OutOfReach (S : Nat → Prop) (p : Pager) : Prop :=
  ∀ pageId, S pageId →
    pageId ∉ p.freePages ∧ pageId < p.lastAllocatedPage ∧ pageId < p.pages.length

/-- Between two states, the pages of the set are as they were, and the allocator has gained none. -/
structure Spares (S : Nat → Prop) (p q : Pager) : Prop where
  pages : ∀ pageId, S pageId → q.pages[pageId]? = p.pages[pageId]?
  free : ∀ pageId ∈ q.freePages, pageId ∈ p.freePages
  last : p.lastAllocatedPage ≤ q.lastAllocatedPage

namespace Spares

variable {S : Nat → Prop} {p q r : Pager}

theorem refl (S : Nat → Prop) (p : Pager) : Spares S p p :=
  ⟨fun _ _ => rfl, fun _ h => h, le_refl _⟩

theorem trans (h : Spares S p q) (h' : Spares S q r) : Spares S p r :=
  ⟨fun pageId hS => (h'.pages pageId hS).trans (h.pages pageId hS),
    fun pageId hfree => h.free pageId (h'.free pageId hfree), h.last.trans h'.last⟩

theorem outOfReach (h : Spares S p q) (hout : OutOfReach S p) : OutOfReach S q :=
  fun pageId hS => by
    rcases hout pageId hS with ⟨hfree, hlast, hlength⟩
    refine ⟨fun hno => hfree (h.free pageId hno), lt_of_lt_of_le hlast h.last, ?_⟩
    have hsame := h.pages pageId hS
    rw [List.getElem?_eq_getElem hlength] at hsame
    exact (List.getElem?_eq_some_iff.mp hsame).1

end Spares

/-- Whatever the outcome, the program spares the set; if it returns, its result has `P`. -/
def Sparing {α : Type} (S : Nat → Prop) (x : PagerM α) (P : α → Prop) : Prop :=
  ∀ p, OutOfReach S p → Ends x p (fun a q => Spares S p q ∧ P a) (fun _ q => Spares S p q)

namespace Sparing

variable {α β : Type} {S : Nat → Prop} {x : PagerM α} {P : α → Prop} {Q : β → Prop}

theorem bind {f : α → PagerM β} (hx : Sparing S x P) (hf : ∀ a, P a → Sparing S (f a) Q) :
    Sparing S (x >>= f) Q := by
  intro p hout
  cases hrun : x.run p with
  | error e q => exact ends_of_error (run_bind_of_error hrun) ((hx p hout).of_run_error hrun)
  | ok a q =>
    have hspares := (hx p hout).of_run_ok hrun
    have hnext := (hf a hspares.2) q (hspares.1.outOfReach hout)
    have hends := hnext.mono (fun b r hb => (⟨hspares.1.trans hb.1, hb.2⟩ : Spares S p r ∧ Q b))
      (fun _ r hr => hspares.1.trans hr)
    unfold Ends at hends ⊢
    rw [run_bind_of_ok hrun]
    exact hends

theorem mono {P' : α → Prop} (hx : Sparing S x P) (h : ∀ a, P a → P' a) : Sparing S x P' :=
  fun p hout => (hx p hout).mono (fun a _ ha => ⟨ha.1, h a ha.2⟩) (fun _ _ hq => hq)

end Sparing

section Steps

variable {α : Type} {S : Nat → Prop}

theorem sparing_pure (a : α) : Sparing S (pure a : PagerM α) (· = a) :=
  fun p _ => ends_of_ok (run_pure a p) ⟨.refl S p, rfl⟩

theorem sparing_throw (e : PagerError) (P : α → Prop) : Sparing S (throw e : PagerM α) P :=
  fun p _ => ends_of_error (run_throw_any e p) (.refl S p)

theorem sparing_lift (x : Except PagerError α) : Sparing S (EStateM.lift x : PagerM α) (x = .ok ·) := by
  intro p _
  cases x with
  | ok a => exact ends_of_ok (run_lift_ok a p) ⟨.refl S p, rfl⟩
  | error e => exact ends_of_error (run_lift_error e p) (.refl S p)

theorem sparing_get : Sparing S (get : PagerM Pager) (fun _ => True) :=
  fun p _ => ends_of_ok (run_get p) ⟨.refl S p, trivial⟩

theorem sparing_setRootPageId (rootPageId : Nat) :
    Sparing S (modify (·.setRootPageId rootPageId) : PagerM Unit) (fun _ => True) := by
  intro p _
  apply ends_of_ok (run_modify _ p)
  exact ⟨⟨fun _ _ => rfl, fun _ h => h, le_refl _⟩, trivial⟩

theorem getElem?_putPage {p : Pager} {other : Nat} (page : Page) (hne : other ≠ pageId)
    (hlt : other < p.pages.length) : (p.putPage pageId page).pages[other]? = p.pages[other]? := by
  show ((p.pages ++ _).set pageId page)[other]? = _
  rw [List.getElem?_set_ne (Ne.symm hne), List.getElem?_append_left hlt]

theorem sparing_putPage (hS : ¬ S pageId) (page : Page) {p : Pager}
    (hout : OutOfReach S p) : Spares S p (p.putPage pageId page) := by
  refine ⟨fun other hother => ?_, fun _ h => h, le_refl _⟩
  apply getElem?_putPage page _ (hout other hother).2.2
  rintro rfl
  exact hS hother

theorem sparing_writePage (hS : ¬ S pageId) (page : Page) :
    Sparing S (writePage pageId page) (fun _ => True) := by
  apply (sparing_lift (validatePage page)).bind
  intro header _
  by_cases hid : header.pageId ≠ pageId
  · rw [if_pos hid]
    exact sparing_throw _ _
  · rw [if_neg hid]
    intro p hout
    by_cases hbeyond : pageId > p.pages.length
    · have hrun : (do
          let p ← get
          if pageId > p.pages.length then throw .writeBeyondFile
          set (p.putPage pageId page) : PagerM Unit).run p = .error .writeBeyondFile p := by simp [hbeyond]
      exact ends_of_error hrun (.refl S p)
    · have hrun : (do
          let p ← get
          if pageId > p.pages.length then throw .writeBeyondFile
          set (p.putPage pageId page) : PagerM Unit).run p = .ok () (p.putPage pageId page) := by
        simp [hbeyond]
      exact ends_of_ok hrun ⟨sparing_putPage hS page hout, trivial⟩

theorem sparing_allocatePage : Sparing S allocatePage (fun pageId => ¬ S pageId) := by
  intro p hout
  cases hfree : p.freePages with
  | cons pageId freePages =>
    have hrun : allocatePage.run p = .ok pageId { p with freePages } := by
      unfold allocatePage
      rw [run_bind_of_ok (run_get p), hfree]
      rfl
    apply ends_of_ok hrun
    have hnot : ¬ S pageId := by
      intro hS
      apply (hout pageId hS).1
      rw [hfree]
      exact List.mem_cons_self ..
    refine ⟨⟨fun _ _ => rfl, fun other hother => ?_, le_refl _⟩, hnot⟩
    rw [hfree]
    exact List.mem_cons_of_mem _ hother
  | nil =>
    have hrun : allocatePage.run p = .ok p.lastAllocatedPage
        ({ p with lastAllocatedPage := p.lastAllocatedPage + 1 }.putPage p.lastAllocatedPage
          (freshPage p.lastAllocatedPage)) := by
      unfold allocatePage
      rw [run_bind_of_ok (run_get p), hfree]
      rfl
    apply ends_of_ok hrun
    have hnot : ¬ S p.lastAllocatedPage := fun hS => Nat.lt_irrefl _ (hout _ hS).2.1
    refine ⟨⟨fun other hother => ?_, fun _ h => h, Nat.le_succ _⟩, hnot⟩
    apply getElem?_putPage _ _ (hout other hother).2.2
    rintro rfl
    exact hnot hother

end Steps

section Puts

variable {S : Nat → Prop}

/-- `pageId` and the page that stands there, for every page of a path. -/
def OnFile (p : Pager) (path : List (Nat × Page)) : Prop :=
  ∀ x ∈ path, p.readPage x.1 = .ok x.2

theorem descend_eq_ok {p : Pager} {page : Page} {child : Option Nat}
    (h : p.descend key pageId = .ok (page, child)) : p.readPage pageId = .ok page := by
  unfold descend at h
  rcases Except.bind_eq_ok_iff.mp h with ⟨page', hread, h⟩
  rcases Except.bind_eq_ok_iff.mp h with ⟨header, _, h⟩
  have hpage : page' = page := by
    split at h
    · cases h
      rfl
    · split at h
      · rcases Except.bind_eq_ok_iff.mp h with ⟨found, _, h⟩
        cases found with
        | none => cases h
        | some childPageId =>
          dsimp only at h
          split at h
          · cases h
          · cases h
            rfl
      · cases h
  rw [hread, hpage]

variable {leaf : Nat × Page} {path : List (Nat × Page)}

theorem onFile_findPathFrom {p : Pager} {above : List (Nat × Page)} (habove : OnFile p above)
    (h : p.findPathFrom key fuel pageId above = .ok (leaf, path)) : OnFile p (leaf :: path) := by
  induction fuel generalizing pageId above with
  | zero => cases h
  | succ fuel ih =>
    unfold findPathFrom at h
    rcases Except.bind_eq_ok_iff.mp h with ⟨⟨page, child⟩, hdescend, h⟩
    have hhere : OnFile p ((pageId, page) :: above) := by
      intro x hx
      rcases List.mem_cons.mp hx with rfl | hx
      · exact descend_eq_ok hdescend
      · exact habove x hx
    cases child with
    | none =>
      cases h
      exact hhere
    | some child => exact ih hhere h

theorem onFile_findBtreePath {p : Pager} (h : p.findBtreePath fuel key = .ok (leaf, path)) :
    OnFile p (leaf :: path) := by
  unfold findBtreePath at h
  split at h
  · cases h
  · exact onFile_findPathFrom (fun _ hx => absurd hx (List.not_mem_nil)) h

theorem pageId_copyOnWritePage {page copy : Page}
    (h : copyOnWritePage page txnId = .ok copy) : copy.header.pageId = page.header.pageId := by
  unfold copyOnWritePage at h
  rcases Except.bind_eq_ok_iff.mp h with ⟨header, hdecode, h⟩
  rw [(decode_eq_ok hdecode).1] at h
  cases h
  rfl

theorem pageId_splitLeaf {leaf left right : Page} {rightPageId : Nat} {separatorKey : Bytes}
    (h : splitLeaf leaf rightPageId txnId = .ok (left, right, separatorKey)) :
    left.header.pageId = leaf.header.pageId := by
  unfold splitLeaf at h
  rcases Except.bind_eq_ok_iff.mp h with ⟨header, _, h⟩
  rcases Except.bind_eq_ok_iff.mp h with ⟨payload, _, h⟩
  rcases Except.bind_eq_ok_iff.mp h with ⟨entries, _, h⟩
  dsimp only at h
  split at h
  · cases h
  · rcases Except.bind_eq_ok_iff.mp h with ⟨_, _, h⟩
    rcases Except.bind_eq_ok_iff.mp h with ⟨_, _, h⟩
    rcases Except.bind_eq_ok_iff.mp h with ⟨_, _, h⟩
    rcases Except.bind_eq_ok_iff.mp h with ⟨_, _, h⟩
    cases h
    rfl

theorem sparing_addToHalf (hS : ¬ S pageId) (key value : Bytes) :
    Sparing S (addToHalf pageId key value) (fun _ => True) := by
  apply sparing_get.bind
  intro p _
  apply (sparing_lift (p.readPage pageId)).bind
  intro half _
  apply (sparing_lift (addEntryToBtreeLeaf half key value)).bind
  intro half _
  exact sparing_writePage hS half.rehash

theorem sparing_splitInternalNode (internal : Page) (txnId : Nat) :
    Sparing S (splitInternalNode internal txnId) (fun _ => True) := by
  apply sparing_allocatePage.bind
  intro rightPageId _
  exact (sparing_lift _).mono fun _ _ => trivial

end Puts

section Mutations

/-- The pages that a put or a delete of the key writes in place are outside the set. -/
def PathAvoids (S : Nat → Prop) (p : Pager) (fuel : Nat) (key : Bytes) : Prop :=
  ∀ leaf above, p.findBtreePath fuel key = .ok (leaf, above) → ∀ x ∈ leaf :: above, ¬ S x.1

/-- The leaf on the way to the key does not have it. -/
def KeyAbsent (p : Pager) (fuel : Nat) (key : Bytes) : Prop :=
  ∀ leaf above, p.findBtreePath fuel key = .ok (leaf, above) →
    getValueFromBtreeLeaf leaf.2 key = .ok none

/-- A mutation that does not write the pages of the set. -/
def Avoids (S : Nat → Prop) (fuel : Nat) (p : Pager) : Mutation → Prop
  | .put key _ => PathAvoids S p fuel key
  | .delete key => KeyAbsent p fuel key ∨ PathAvoids S p fuel key

end Mutations

end Pager

namespace FileState

open Zig.Pager

variable {S : Nat → Prop}

theorem sparing_writeMeta (hmeta : ∀ pageId, S pageId → 2 ≤ pageId) (txnId : Nat) :
    Sparing S (writeMeta txnId) (fun _ => True) := by
  apply sparing_get.bind
  intro p _
  apply (sparing_lift (getOppositeMetaId p.currentMeta.pageId)).bind
  intro oppositeMetaId hopposite
  have hnot : ¬ S oppositeMetaId := by
    intro hS
    have hge := hmeta oppositeMetaId hS
    unfold getOppositeMetaId at hopposite
    split at hopposite
    · cases hopposite
      exact absurd hge (by decide)
    · split at hopposite
      · cases hopposite
        exact absurd hge (by decide)
      · cases hopposite
  apply (sparing_writePage hnot _).bind
  intro _ _ q _
  exact ends_of_ok (run_modify _ q) ⟨⟨fun _ _ => rfl, fun _ h => h, le_refl _⟩, trivial⟩

end FileState

end Northstar.Zig
