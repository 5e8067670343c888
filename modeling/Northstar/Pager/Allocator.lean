import Northstar.Lib.Runs
import Northstar.Pager.Pager
import Mathlib.Data.Finset.Erase
import Mathlib.Data.Finset.Insert

/-!
# Pager.Allocator — what the allocator has handed out, over whole runs

The allocator keeps the pages given back in ascending order, and a counter behind the highest page it has
taken from the end of the file.  Its callers' side, the pages they hold and the pages they gave back, is kept
beside it here, to say that the two never disagree.
-/

namespace Northstar.PageAllocator

open Runs

variable {a : PageAllocator}

variable {pageId : PageId}

theorem allocatePage_reuse {rest : List PageId} (hfree : a.freePages = pageId :: rest) :
    a.allocatePage = (pageId, ⟨rest, a.lastAllocatedPage⟩) := by
  unfold allocatePage
  rw [hfree]

theorem allocatePage_extend (hfree : a.freePages = []) :
    a.allocatePage = (a.lastAllocatedPage, ⟨[], a.lastAllocatedPage + 1⟩) := by
  unfold allocatePage
  rw [hfree]

inductive Call where
  | allocatePage
  | freePage (pageId : PageId)
  deriving Repr, DecidableEq

/-- The allocator, the pages handed out and not freed since, and the pages freed and not handed out since. -/
structure Held where
  allocator : PageAllocator
  live : Finset PageId
  freed : Finset PageId

namespace Held

def initial : Held := ⟨new, ∅, ∅⟩

/-- Only a page that is held is given back. -/
def step (s : Held) : Call → Option Held
  | .allocatePage =>
    let (pageId, allocator) := s.allocator.allocatePage
    some ⟨allocator, insert pageId s.live, s.freed.erase pageId⟩
  | .freePage pageId =>
    if pageId ∈ s.live then
      match s.allocator.freePage pageId with
      | .ok allocator => some ⟨allocator, s.live.erase pageId, insert pageId s.freed⟩
      | .error _ => some s
    else none

/-- An allocation from the end of the file finds a page id there: the counter has not passed the last one. -/
def Extends (s : Held) : Call → Prop
  | .allocatePage => s.allocator.freePages = [] → s.allocator.lastAllocatedPage ≠ 0
  | .freePage _ => True

/-- The pages below the counter, all of them once it has wrapped. -/
def Taken (a : PageAllocator) (pageId : PageId) : Prop :=
  3 ≤ pageId.toNat ∧ (a.lastAllocatedPage = 0 ∨ pageId.toNat < a.lastAllocatedPage.toNat)

structure Agrees (s : Held) : Prop where
  ascending : s.allocator.freePages.Pairwise (· < ·)
  free : ∀ pageId, pageId ∈ s.allocator.freePages ↔ pageId ∈ s.freed
  disjoint : ∀ pageId ∈ s.live, pageId ∉ s.freed
  taken : ∀ pageId, pageId ∈ s.live ∨ pageId ∈ s.freed → Taken s.allocator pageId
  counter : s.allocator.lastAllocatedPage = 0 ∨ 3 ≤ s.allocator.lastAllocatedPage.toNat

theorem agrees_initial : initial.Agrees where
  ascending := List.Pairwise.nil
  free _ := by simp [initial, new]
  disjoint _ h := absurd h (Finset.notMem_empty _)
  taken _ h := by simp [initial] at h
  counter := .inr (by decide)

theorem ascending_orderedInsert {pages : List PageId} (h : pages.Pairwise (· < ·))
    (hnew : pageId ∉ pages) : (pages.orderedInsert (· ≤ ·) pageId).Pairwise (· < ·) := by
  induction pages with
  | nil => exact List.pairwise_singleton ..
  | cons x pages ih =>
    rw [List.pairwise_cons] at h
    rw [List.mem_cons, not_or] at hnew
    show (if pageId ≤ x then _ else _ : List PageId).Pairwise _
    by_cases hle : pageId ≤ x
    · have hlt : pageId < x := UInt64.lt_of_le_of_ne hle hnew.1
      rw [if_pos hle]
      apply List.pairwise_cons.mpr
      constructor
      · intro y hy
        rcases List.mem_cons.mp hy with rfl | hy
        · exact hlt
        · exact UInt64.lt_trans hlt (h.1 y hy)
      · exact List.pairwise_cons.mpr h
    · rw [if_neg hle]
      apply List.pairwise_cons.mpr
      constructor
      · intro y hy
        rcases List.mem_orderedInsert .. |>.mp hy with rfl | hy
        · exact UInt64.not_le.mp hle
        · exact h.1 y hy
      · exact ih h.2 hnew.2

theorem Taken.not_meta (h : Taken a pageId) : pageId.isMetaPage = false := by
  have hge := h.1
  have h0 : pageId ≠ 0 := by
    rintro rfl
    exact absurd hge (by decide)
  have h1 : pageId ≠ 1 := by
    rintro rfl
    exact absurd hge (by decide)
  simp [PageId.isMetaPage, h0, h1]

variable {t : Held}

section step

variable {s : Held}

theorem Agrees.reuse {rest : List PageId} (h : s.Agrees)
    (hfree : s.allocator.freePages = pageId :: rest) :
    pageId ∈ s.freed ∧ pageId ∉ s.live ∧ ∀ other ∈ s.freed, pageId ≤ other := by
  have hmem : pageId ∈ s.freed := (h.free pageId).mp (by rw [hfree]; exact List.mem_cons_self ..)
  have hasc := h.ascending
  rw [hfree, List.pairwise_cons] at hasc
  refine ⟨hmem, fun hlive => h.disjoint pageId hlive hmem, ?_⟩
  intro other hother
  have hin := (h.free other).mpr hother
  rw [hfree] at hin
  rcases List.mem_cons.mp hin with rfl | hin
  · exact UInt64.le_refl _
  · exact UInt64.le_of_lt (hasc.1 other hin)

theorem Agrees.extend (h : s.Agrees) (hcount : s.allocator.lastAllocatedPage ≠ 0) :
    s.allocator.lastAllocatedPage ∉ s.live ∧ s.allocator.lastAllocatedPage ∉ s.freed := by
  have hnot : ¬ Taken s.allocator s.allocator.lastAllocatedPage := by
    rintro ⟨-, hzero | hlt⟩
    · exact hcount hzero
    · exact absurd hlt (Nat.lt_irrefl _)
  exact ⟨fun hlive => hnot (h.taken _ (.inl hlive)), fun hfreed => hnot (h.taken _ (.inr hfreed))⟩

theorem add_one_cases (n : UInt64) : n + 1 = 0 ∨ (n + 1).toNat = n.toNat + 1 := by
  by_cases hmax : n.toNat + 1 < 2 ^ 64
  · right
    rw [UInt64.toNat_add]
    exact Nat.mod_eq_of_lt hmax
  · left
    apply UInt64.toNat_inj.mp
    have hlt := n.toNat_lt
    have hsum : n.toNat + 1 = 2 ^ 64 := by omega
    rw [UInt64.toNat_add]
    show (n.toNat + 1) % 2 ^ 64 = 0
    rw [hsum, Nat.mod_self]

theorem Agrees.allocatePage (h : s.Agrees) (hext : s.Extends .allocatePage)
    (hstep : s.step .allocatePage = some t) : t.Agrees := by
  cases hfree : s.allocator.freePages with
  | cons pageId rest =>
    rw [step, allocatePage_reuse hfree] at hstep
    cases hstep
    have hasc := h.ascending
    rw [hfree, List.pairwise_cons] at hasc
    have hmem := (h.reuse hfree).1
    refine ⟨hasc.2, ?_, ?_, ?_, h.counter⟩
    · -- the list is strictly ascending, so that its first page is not in the rest
      intro other
      have hmem := h.free other
      rw [hfree, List.mem_cons] at hmem
      rw [Finset.mem_erase, ← hmem]
      constructor
      · intro hin
        refine ⟨?_, .inr hin⟩
        rintro rfl
        exact absurd (hasc.1 _ hin) (UInt64.lt_irrefl _)
      · exact fun ⟨hne, hin⟩ => hin.resolve_left hne
    · intro other hother hfreed
      rw [Finset.mem_erase] at hfreed
      exact h.disjoint other ((Finset.mem_insert.mp hother).resolve_left hfreed.1) hfreed.2
    · intro other hother
      apply h.taken other
      rcases hother with hother | hother
      · rcases Finset.mem_insert.mp hother with rfl | hother
        · exact .inr hmem
        · exact .inl hother
      · exact .inr (Finset.mem_of_mem_erase hother)
  | nil =>
    have hcount := hext hfree
    rw [step, allocatePage_extend hfree] at hstep
    cases hstep
    have hnew := h.extend hcount
    have hge := h.counter.resolve_left hcount
    have hsucc := add_one_cases s.allocator.lastAllocatedPage
    refine ⟨List.Pairwise.nil, ?_, ?_, ?_, ?_⟩
    · intro other
      have hmem := h.free other
      rw [hfree] at hmem
      show other ∈ ([] : List PageId) ↔ other ∈ s.freed.erase _
      rw [Finset.erase_eq_of_notMem hnew.2]
      exact hmem
    · intro other hother hfreed
      rw [Finset.mem_erase] at hfreed
      exact h.disjoint other ((Finset.mem_insert.mp hother).resolve_left hfreed.1) hfreed.2
    · intro other hother
      show 3 ≤ other.toNat ∧ (s.allocator.lastAllocatedPage + 1 = 0 ∨
        other.toNat < (s.allocator.lastAllocatedPage + 1).toNat)
      have hcases : other = s.allocator.lastAllocatedPage ∨ Taken s.allocator other := by
        rcases hother with hother | hother
        · exact (Finset.mem_insert.mp hother).imp_right fun hlive => h.taken other (.inl hlive)
        · exact .inr (h.taken other (.inr (Finset.mem_of_mem_erase hother)))
      -- a page below the counter stays below it, unless the counter wraps
      rcases hcases with rfl | ⟨hge', hlt⟩
      · exact ⟨hge, hsucc.imp_right fun heq => by omega⟩
      · have hlt := hlt.resolve_left hcount
        exact ⟨hge', hsucc.imp_right fun heq => by omega⟩
    · exact hsucc.imp_right fun heq => by
        show 3 ≤ (s.allocator.lastAllocatedPage + 1).toNat
        omega

theorem Agrees.freePage (h : s.Agrees) (hstep : s.step (.freePage pageId) = some t) : t.Agrees := by
  rw [step] at hstep
  by_cases hlive : pageId ∈ s.live
  · have htaken := h.taken pageId (.inl hlive)
    have hnot : pageId ∉ s.allocator.freePages := fun hin => h.disjoint pageId hlive ((h.free pageId).mp hin)
    have hfree : s.allocator.freePage pageId =
        .ok { s.allocator with freePages := s.allocator.freePages.orderedInsert (· ≤ ·) pageId } := by
      unfold PageAllocator.freePage
      rw [htaken.not_meta]
      rfl
    rw [if_pos hlive, hfree] at hstep
    cases hstep
    refine ⟨ascending_orderedInsert h.ascending hnot, ?_, ?_, ?_, h.counter⟩
    · intro other
      rw [List.mem_orderedInsert, Finset.mem_insert, h.free other]
    · intro other hother hfreed
      rw [Finset.mem_erase] at hother
      rcases Finset.mem_insert.mp hfreed with rfl | hfreed
      · exact hother.1 rfl
      · exact h.disjoint other hother.2 hfreed
    · intro other hother
      apply h.taken other
      rcases hother with hother | hother
      · exact .inl (Finset.mem_of_mem_erase hother)
      · rcases Finset.mem_insert.mp hother with rfl | hother
        · exact .inl hlive
        · exact .inr hother
  · rw [if_neg hlive] at hstep
    cases hstep

theorem Agrees.step {c : Call} (h : s.Agrees) (hext : s.Extends c) {t : Held} (hstep : s.step c = some t) :
    t.Agrees := by
  cases c with
  | allocatePage => exact h.allocatePage hext hstep
  | freePage pageId => exact h.freePage hstep

end step

theorem agrees_of_run {calls : List Call} (hmeets : Meets step Extends initial calls)
    (hrun : run step initial calls = some t) : t.Agrees :=
  invariant (fun _ _ _ hs hext hstep => hs.step hext hstep) agrees_initial hmeets hrun

/-- The free list is the pages given back, in ascending order, and what is handed out next is held by nobody:
the lowest page given back, or one no run has seen. -/
theorem allocatePage_run {calls : List Call} {t : Held} (hmeets : Meets step Extends initial calls)
    (hrun : run step initial calls = some t) :
    t.allocator.freePages.Pairwise (· < ·) ∧ (∀ pageId, pageId ∈ t.allocator.freePages ↔ pageId ∈ t.freed) ∧
      (t.Extends .allocatePage →
        t.allocator.allocatePage.1 ∉ t.live ∧ t.allocator.allocatePage.1.isMetaPage = false ∧
        (t.freed.Nonempty → t.allocator.allocatePage.1 ∈ t.freed ∧
          ∀ pageId ∈ t.freed, t.allocator.allocatePage.1 ≤ pageId)) := by
  have h := agrees_of_run hmeets hrun
  refine ⟨h.ascending, h.free, ?_⟩
  intro hext
  cases hfree : t.allocator.freePages with
  | cons pageId rest =>
    have hreuse := h.reuse hfree
    rw [allocatePage_reuse hfree]
    exact ⟨hreuse.2.1, (h.taken pageId (.inr hreuse.1)).not_meta, fun _ => ⟨hreuse.1, hreuse.2.2⟩⟩
  | nil =>
    have hcount := hext hfree
    have hge := h.counter.resolve_left hcount
    have hnew := h.extend hcount
    rw [allocatePage_extend hfree]
    refine ⟨hnew.1, Taken.not_meta (a := ⟨[], 0⟩) ⟨hge, .inl rfl⟩, ?_⟩
    rintro ⟨pageId, hmem⟩
    have hin := (h.free pageId).mpr hmem
    rw [hfree] at hin
    exact absurd hin List.not_mem_nil

theorem counter_step {s : Held} {c : Call} (hstep : s.step c = some t) :
    t.allocator.lastAllocatedPage = s.allocator.lastAllocatedPage ∨
      t.allocator.lastAllocatedPage = s.allocator.lastAllocatedPage + 1 := by
  cases c with
  | allocatePage =>
    cases hfree : s.allocator.freePages with
    | cons pageId rest =>
      rw [step, allocatePage_reuse hfree] at hstep
      cases hstep
      exact .inl rfl
    | nil =>
      rw [step, allocatePage_extend hfree] at hstep
      cases hstep
      exact .inr rfl
  | freePage pageId =>
    left
    rw [step] at hstep
    by_cases hlive : pageId ∈ s.live
    · rw [if_pos hlive] at hstep
      unfold PageAllocator.freePage at hstep
      by_cases hmeta : pageId.isMetaPage
      · rw [if_pos hmeta] at hstep
        cases hstep
        rfl
      · rw [if_neg hmeta] at hstep
        cases hstep
        rfl
    · rw [if_neg hlive] at hstep
      cases hstep

/-- There are `2 ^ 64 - 3` pages from page 3 on: so many calls, or fewer, find a page. -/
theorem extends_of_length {s : Held} {calls : List Call} (hcount : s.allocator.lastAllocatedPage ≠ 0)
    (hlen : s.allocator.lastAllocatedPage.toNat + calls.length ≤ 2 ^ 64) : Meets step Extends s calls := by
  induction calls generalizing s with
  | nil => trivial
  | cons c calls ih =>
    constructor
    · cases c with
      | allocatePage => exact fun _ => hcount
      | freePage pageId => trivial
    · intro t hstep
      cases calls with
      | nil => trivial
      | cons c' calls =>
        rw [List.length_cons, List.length_cons] at hlen
        rcases counter_step hstep with heq | heq
        · apply ih
          · rw [heq]
            exact hcount
          · rw [heq, List.length_cons]
            omega
        · have hnat : t.allocator.lastAllocatedPage.toNat = s.allocator.lastAllocatedPage.toNat + 1 := by
            rw [heq, UInt64.toNat_add]
            exact Nat.mod_eq_of_lt (show s.allocator.lastAllocatedPage.toNat + 1 < 2 ^ 64 by omega)
          apply ih
          · intro hzero
            rw [hzero] at hnat
            exact absurd hnat (Nat.succ_ne_zero _).symm
          · rw [hnat, List.length_cons]
            omega

theorem allocatePage_run_reuse :
    ∃ t, run step initial [.allocatePage, .allocatePage, .freePage 3] = some t ∧
      t.allocator.allocatePage.1 ∉ t.live := by
  refine ⟨_, rfl, ?_⟩
  have hmeets : Meets step Extends initial [.allocatePage, .allocatePage, .freePage 3] :=
    extends_of_length (by decide) (by decide)
  apply ((allocatePage_run hmeets rfl).2.2 _).1
  exact fun hfree => absurd hfree (List.cons_ne_nil 3 [])

theorem run_extend (n : Nat) {s : Held} (hfree : s.allocator.freePages = []) :
    ∃ t, run step s (List.replicate n .allocatePage) = some t ∧ t.allocator.freePages = [] ∧
      t.allocator.lastAllocatedPage = s.allocator.lastAllocatedPage + UInt64.ofNat n := by
  induction n generalizing s with
  | zero => exact ⟨s, rfl, hfree, (UInt64.add_zero _).symm⟩
  | succ n ih =>
    rcases @ih ⟨⟨[], s.allocator.lastAllocatedPage + 1⟩, insert s.allocator.lastAllocatedPage s.live,
      s.freed.erase s.allocator.lastAllocatedPage⟩ rfl with ⟨t, hrun, hnil, hcount⟩
    refine ⟨t, ?_, hnil, ?_⟩
    · rw [List.replicate_succ, run_cons]
      refine ⟨_, ?_, hrun⟩
      rw [step, allocatePage_extend hfree]
    · rw [hcount, UInt64.ofNat_add, UInt64.add_comm (UInt64.ofNat n), ← UInt64.add_assoc]
      rfl

/-- Past the last page id the counter wraps, and the first meta page is handed out. -/
theorem allocatePage_wraps :
    ∃ t, run step initial (List.replicate (2 ^ 64 - 3) .allocatePage) = some t ∧
      t.allocator.allocatePage.1 = PageId.metaA := by
  rcases run_extend (2 ^ 64 - 3) (rfl : initial.allocator.freePages = []) with ⟨t, hrun, hfree, hcount⟩
  refine ⟨t, hrun, ?_⟩
  rw [allocatePage_extend hfree, hcount]
  decide

end Held

end Northstar.PageAllocator
