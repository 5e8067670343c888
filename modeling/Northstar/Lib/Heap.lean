import Mathlib.Data.List.Nodup

/-!
# Heap — blocks that are freed once

Allocation gives a block that has never been in use.  `free` is legal for a block that is in use.  What an
owner may free is described by a list of blocks that are in use, without repetition.
-/

structure Heap where
  next : Nat
  freed : List Nat
  below : ∀ block ∈ freed, block < next

namespace Heap

def empty : Heap := ⟨0, [], fun _ hmem => nomatch hmem⟩

def Live (h : Heap) (block : Nat) : Prop := block < h.next ∧ block ∉ h.freed

instance (h : Heap) (block : Nat) : Decidable (h.Live block) := inferInstanceAs (Decidable (_ ∧ _))

/-- The heap after an allocation; the block is `h.next`. -/
def alloc (h : Heap) : Heap where
  next := h.next + 1
  freed := h.freed
  below := fun block hmem => Nat.lt_succ_of_lt (h.below block hmem)

/-- `none` if the block is not in use. -/
def free (h : Heap) (block : Nat) : Option Heap :=
  if hlive : h.Live block then
    some ⟨h.next, block :: h.freed, fun other hmem =>
      (List.mem_cons.mp hmem).elim (fun heq => heq ▸ hlive.1) (h.below other)⟩
  else none

variable {h : Heap} {blocks : List Nat}

variable {block : Nat}

theorem free_eq_none (hdead : ¬ h.Live block) : h.free block = none :=
  dif_neg hdead

theorem mem_freed_of_free {h' : Heap} (hfree : h.free block = some h') :
    h'.freed = block :: h.freed ∧ h'.next = h.next := by
  unfold free at hfree
  split at hfree
  · cases hfree
    exact ⟨rfl, rfl⟩
  · cases hfree

/-- The blocks are in use, and each is listed once. -/
structure Owns (h : Heap) (blocks : List Nat) : Prop where
  nodup : blocks.Nodup
  live : ∀ block ∈ blocks, h.Live block

theorem owns_nil (h : Heap) : h.Owns [] := ⟨List.nodup_nil, fun _ hmem => nomatch hmem⟩

theorem Owns.perm {blocks' : List Nat} (hown : h.Owns blocks)
    (hperm : blocks.Perm blocks') : h.Owns blocks' :=
  ⟨hperm.nodup_iff.mp hown.nodup, fun block hmem => hown.live block (hperm.mem_iff.mpr hmem)⟩

theorem Owns.sublist {blocks' : List Nat} (hown : h.Owns blocks)
    (hsub : blocks'.Sublist blocks) : h.Owns blocks' :=
  ⟨hown.nodup.sublist hsub, fun block hmem => hown.live block (hsub.subset hmem)⟩

theorem Owns.alloc (hown : h.Owns blocks) : h.alloc.Owns (h.next :: blocks) where
  nodup := List.nodup_cons.mpr
    ⟨fun hmem => Nat.lt_irrefl _ (hown.live h.next hmem).1, hown.nodup⟩
  live block hmem := by
    rcases List.mem_cons.mp hmem with rfl | hmem
    · exact ⟨Nat.lt_succ_self _, fun hfreed => Nat.lt_irrefl _ (h.below _ hfreed)⟩
    · exact ⟨Nat.lt_succ_of_lt (hown.live block hmem).1, (hown.live block hmem).2⟩

/-- The owner of a block frees it, and keeps the others. -/
theorem Owns.free (hown : h.Owns (block :: blocks)) :
    ∃ h', h.free block = some h' ∧ h'.Owns blocks := by
  have hlive := hown.live block (List.mem_cons_self ..)
  have hnodup := List.nodup_cons.mp hown.nodup
  refine ⟨_, dif_pos hlive, hnodup.2, ?_⟩
  intro other hmem
  have hother := hown.live other (List.mem_cons_of_mem _ hmem)
  refine ⟨hother.1, fun hfreed => ?_⟩
  rcases List.mem_cons.mp hfreed with rfl | hfreed
  · exact hnodup.1 hmem
  · exact hother.2 hfreed

end Heap
