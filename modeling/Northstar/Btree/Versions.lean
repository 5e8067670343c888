import Northstar.Lib.Bytes

/-!
# Btree.Versions — the version chain of a key

The newest version first, ten of them at most.  A snapshot sees the first version that is not newer than it,
which may well be older than the cut-off below which the chain is reclaimed.
-/

namespace Northstar.Btree

structure VersionedValue where
  value : Bytes
  lsn : UInt64
  isTombstone : Bool
  deriving Repr, DecidableEq

namespace VersionedValue

def new (value : Bytes) (lsn : UInt64) : VersionedValue := ⟨value, lsn, false⟩

def tombstone (lsn : UInt64) : VersionedValue := ⟨[], lsn, true⟩

def isVisible (v : VersionedValue) (snapshotLsn : UInt64) : Bool := v.lsn ≤ snapshotLsn

end VersionedValue

structure VersionChain where
  versions : List VersionedValue
  deriving Repr, DecidableEq

namespace VersionChain

def new : VersionChain := ⟨[]⟩

def addVersion (c : VersionChain) (version : VersionedValue) : VersionChain :=
  let versions := version :: c.versions
  if versions.length > 10 then ⟨versions.take 10⟩ else ⟨versions⟩

def resolve (c : VersionChain) (snapshotLsn : UInt64) : Option VersionedValue :=
  c.versions.find? (·.isVisible snapshotLsn)

def reclaimOld (c : VersionChain) (oldestLsn : UInt64) : Nat × VersionChain :=
  let versions := c.versions.filter fun v => v.lsn ≥ oldestLsn
  (c.versions.length - versions.length, ⟨versions⟩)

/-- The versions of a key, the oldest first, as they come in. -/
def build (added : List VersionedValue) : VersionChain := added.foldl addVersion new

def NewestFirst (c : VersionChain) : Prop := c.versions.Pairwise fun v w => w.lsn ≤ v.lsn

variable {c : VersionChain} {v : VersionedValue}

theorem mem_addVersion {version : VersionedValue} (h : v ∈ (c.addVersion version).versions) :
    v = version ∨ v ∈ c.versions := by
  unfold addVersion at h
  by_cases hlong : (version :: c.versions).length > 10
  · rw [if_pos hlong] at h
    exact List.mem_cons.mp (List.mem_of_mem_take h)
  · rw [if_neg hlong] at h
    exact List.mem_cons.mp h

theorem NewestFirst.addVersion {version : VersionedValue} (h : c.NewestFirst)
    (hnew : ∀ v ∈ c.versions, v.lsn ≤ version.lsn) : (c.addVersion version).NewestFirst := by
  have hall : (version :: c.versions).Pairwise fun v w => w.lsn ≤ v.lsn := List.pairwise_cons.mpr ⟨hnew, h⟩
  unfold VersionChain.addVersion NewestFirst
  by_cases hlong : (version :: c.versions).length > 10
  · rw [if_pos hlong]
    exact hall.sublist (List.take_sublist ..)
  · rw [if_neg hlong]
    exact hall

variable {added : List VersionedValue}

theorem newestFirst_foldl (h : c.NewestFirst)
    (hadded : added.Pairwise fun v w => v.lsn ≤ w.lsn) (hnew : ∀ v ∈ c.versions, ∀ w ∈ added, v.lsn ≤ w.lsn) :
    (added.foldl addVersion c).NewestFirst := by
  induction added generalizing c with
  | nil => exact h
  | cons version added ih =>
    rw [List.pairwise_cons] at hadded
    apply ih (h.addVersion fun v hv => hnew v hv version (List.mem_cons_self ..)) hadded.2
    intro v hv w hw
    rcases mem_addVersion hv with rfl | hv
    · exact hadded.1 w hw
    · exact hnew v hv w (List.mem_cons_of_mem _ hw)

theorem newestFirst_build (h : added.Pairwise fun v w => v.lsn ≤ w.lsn) :
    (build added).NewestFirst :=
  newestFirst_foldl List.Pairwise.nil h fun _ hv => (nomatch hv)

/-- No snapshot from the cut-off on sees another version than before. -/
def ReclaimSafe (c : VersionChain) (oldestLsn : UInt64) : Prop :=
  ∀ s, oldestLsn ≤ s → (c.reclaimOld oldestLsn).2.resolve s = c.resolve s

/-- Nothing is older than the cut-off, or some version has just that LSN. -/
def Covered (c : VersionChain) (oldestLsn : UInt64) : Prop :=
  (∀ v ∈ c.versions, oldestLsn ≤ v.lsn) ∨ ∃ v ∈ c.versions, v.lsn = oldestLsn

instance (c : VersionChain) (oldestLsn : UInt64) : Decidable (c.Covered oldestLsn) :=
  inferInstanceAs (Decidable (_ ∨ _))

theorem resolve_isVisible {s : UInt64} (h : c.resolve s = some v) : v.lsn ≤ s := by
  have hvisible : v.isVisible s = true := @List.find?_some _ (fun v : VersionedValue => v.isVisible s) v c.versions h
  exact of_decide_eq_true hvisible

theorem NewestFirst.le_resolve (h : c.NewestFirst) {s : UInt64} {w : VersionedValue}
    (hv : c.resolve s = some v) (hw : w ∈ c.versions) (hvisible : w.lsn ≤ s) : w.lsn ≤ v.lsn := by
  obtain ⟨pre, post, hsplit, hpre⟩ := List.find?_eq_some_iff_append.mp hv |>.2
  unfold NewestFirst at h
  rw [hsplit, List.pairwise_append] at h
  rw [hsplit, List.mem_append] at hw
  rcases hw with hw | hw
  · have hhidden := hpre w hw
    rw [VersionedValue.isVisible, decide_eq_true hvisible] at hhidden
    cases hhidden
  · rcases List.mem_cons.mp hw with rfl | hw
    · exact UInt64.le_refl _
    · exact (List.pairwise_cons.mp h.2.1).1 w hw

theorem resolve_reclaimOld {oldestLsn s : UInt64}
    (hv : c.resolve s = some v) (hkept : oldestLsn ≤ v.lsn) : (c.reclaimOld oldestLsn).2.resolve s = some v := by
  obtain ⟨hvisible, pre, post, hsplit, hpre⟩ := List.find?_eq_some_iff_append.mp hv
  apply List.find?_eq_some_iff_append.mpr
  refine ⟨hvisible, pre.filter (fun v => v.lsn ≥ oldestLsn), post.filter (fun v => v.lsn ≥ oldestLsn), ?_, ?_⟩
  · show c.versions.filter _ = _
    rw [hsplit, List.filter_append, List.filter_cons_of_pos (by exact decide_eq_true hkept)]
  · exact fun w hw => hpre w (List.mem_of_mem_filter hw)

theorem NewestFirst.reclaimSafe_iff (h : c.NewestFirst) (oldestLsn : UInt64) :
    c.ReclaimSafe oldestLsn ↔ c.Covered oldestLsn := by
  constructor
  · intro hsafe
    -- the snapshot at the cut-off tells: what it sees after the reclaiming has the LSN of the cut-off
    have hcut := hsafe oldestLsn (UInt64.le_refl _)
    cases hsee : c.resolve oldestLsn with
    | none =>
      left
      intro v hv
      have hhidden := List.find?_eq_none.mp hsee v hv
      rw [VersionedValue.isVisible, decide_eq_true_iff] at hhidden
      exact UInt64.le_of_lt (UInt64.not_le.mp hhidden)
    | some v =>
      right
      rw [hsee] at hcut
      have hmem := List.mem_filter.mp (List.mem_of_find?_eq_some hcut)
      exact ⟨v, hmem.1, UInt64.le_antisymm (resolve_isVisible hsee) (of_decide_eq_true hmem.2)⟩
  · intro hcovered s hs
    cases hsee : c.resolve s with
    | none =>
      apply List.find?_eq_none.mpr
      exact fun v hv => List.find?_eq_none.mp hsee v (List.mem_of_mem_filter hv)
    | some v =>
      apply resolve_reclaimOld hsee
      rcases hcovered with hall | ⟨w, hw, rfl⟩
      · exact hall v (List.mem_of_find?_eq_some hsee)
      · exact h.le_resolve hsee hw hs

/-- The snapshots from the cut-off on keep what they see exactly when the chain holds nothing older, or a
version of the very LSN of the cut-off. -/
theorem reclaimSafe_build_iff {added : List VersionedValue} (h : added.Pairwise fun v w => v.lsn ≤ w.lsn)
    (oldestLsn : UInt64) : (build added).ReclaimSafe oldestLsn ↔ (build added).Covered oldestLsn :=
  (newestFirst_build h).reclaimSafe_iff oldestLsn

theorem reclaimSafe_at_version : (build [.new [1] 10, .new [2] 20]).ReclaimSafe 20 :=
  (reclaimSafe_build_iff (by decide) 20).mpr (by decide)

/-- A version of LSN 10, a cut-off of 15, and a snapshot of 20 that then sees nothing. -/
theorem reclaim_hides_the_visible_version : ¬ (build [.new [1] 10]).ReclaimSafe 15 :=
  fun h => absurd (h 20 (by decide)) (by decide)

end VersionChain

end Northstar.Btree
