import Northstar.Lib.Pieces
import Northstar.Lib.Except
import Northstar.Error
import Mathlib.Data.Nat.Basic

/-!
# ParallelScan — the pages of a table in ranges

`query_plan/parallel/scan.rs` and `PagePartition` of `query_plan/parallel/task.rs`.  Both loops step by a quotient.
A range that is empty is not built but panics, a sum of `u64` that overflows panics, and so does a vector whose
elements of 16 bytes would not fit in `isize::MAX`.
-/

namespace Northstar.QueryPlan

open Tiling

/-- The field `end` of the source is `stop`. -/
structure PagePartition where
  start : UInt64
  stop : UInt64
  deriving DecidableEq, Repr

namespace PagePartition

/-- `assert!(end > start)`. -/
def new (start stop : UInt64) : Except Fault PagePartition :=
  if start < stop then .ok ⟨start, stop⟩ else .error .panic

def count (p : PagePartition) : UInt64 := p.stop - p.start

def isEmpty (p : PagePartition) : Bool := p.start ≥ p.stop

end PagePartition

structure ParallelScanConfig where
  minRowsThreshold : UInt64
  batchSize : UInt64
  partitionsPerWorker : UInt64
  enableDynamicScheduling : Bool
  deriving DecidableEq, Repr

def ParallelScanConfig.default : ParallelScanConfig where
  minRowsThreshold := 10000
  batchSize := 1000
  partitionsPerWorker := 2
  enableDynamicScheduling := true

def add64 (a b : UInt64) : Except Fault UInt64 :=
  if a.toNat + b.toNat < 2 ^ 64 then .ok (a + b) else .error .panic

def mul64 (a b : UInt64) : Except Fault UInt64 :=
  if a.toNat * b.toNat < 2 ^ 64 then .ok (a * b) else .error .panic

def div64 (a b : UInt64) : Except Fault UInt64 := if b = 0 then .error .panic else .ok (a / b)

/-- `Vec::with_capacity`. -/
def withCapacity (capacity : UInt64) : Except Fault Unit :=
  if capacity.toNat * 16 < 2 ^ 63 then .ok () else .error .panic

theorem PagePartition.lt_of_new {start stop : UInt64} {p : PagePartition} (h : PagePartition.new start stop = .ok p) :
    start < stop := by
  unfold PagePartition.new at h
  split at h
  · assumption
  · cases h

/-- The loop of both functions: ranges of `pages` pages, the last of them up to the end. -/
def rangesFrom (pages stop current : UInt64) : Except Fault (List PagePartition) :=
  if _hlt : current < stop then
    match add64 current pages with
    | .error e => .error e
    | .ok sum =>
      match _hnew : PagePartition.new current (min sum stop) with
      | .error e => .error e
      | .ok p =>
        match rangesFrom pages stop (min sum stop) with
        | .error e => .error e
        | .ok ps => .ok (p :: ps)
  else .ok []
termination_by stop.toNat - current.toNat
decreasing_by
  have hnext := UInt64.lt_iff_toNat_lt.mp (PagePartition.lt_of_new _hnew)
  have hstop := UInt64.lt_iff_toNat_lt.mp _hlt
  omega

/-- `if let Some(last) = chunks.last_mut() { last.end = partition.end }`. -/
def setLastStop (stop : UInt64) : List PagePartition → List PagePartition
  | [] => []
  | [p] => [{ p with stop := stop }]
  | p :: q :: ps => p :: setLastStop stop (q :: ps)

def createPartitions (tableRows pageCount numWorkers : UInt64) (config : ParallelScanConfig) :
    Except Fault (List PagePartition) :=
  if tableRows < config.minRowsThreshold then
    -- "Don't partition small tables"
    (PagePartition.new 0 pageCount).map fun p => [p]
  else do
    let numPartitions ← mul64 numWorkers config.partitionsPerWorker
    let quotient ← div64 pageCount numPartitions
    let pagesPerPartition := max quotient 1
    withCapacity numPartitions
    rangesFrom pagesPerPartition pageCount 0

def splitPartition (partition : PagePartition) (numChunks : UInt64) : Except Fault (List PagePartition) :=
  if partition.isEmpty || numChunks ≤ 1 then .ok [partition]
  else do
    let pagesPerChunk ← div64 partition.count numChunks
    withCapacity numChunks
    let chunks ← rangesFrom pagesPerChunk partition.stop partition.start
    .ok (setLastStop partition.stop chunks)

variable {pages stop current : UInt64}

/-- The ranges of the list, one behind the other, are what lies between two pages. -/
def Ranges (lo : Nat) (ps : List PagePartition) (hi : Nat) : Prop :=
  Tiles (fun p : PagePartition => p.start.toNat) (fun p => p.stop.toNat) lo ps hi

/-- The steps from `current` on that reach the end. -/
def steps (pages current stop : Nat) : Nat := (stop - current + pages - 1) / pages

/-- A step is a page at least, and the sum of the last step is no overflow. -/
def Fits (pages current stop : Nat) : Prop := 1 ≤ pages ∧ current + steps pages current stop * pages < 2 ^ 64

instance (pages current stop : Nat) : Decidable (Fits pages current stop) := inferInstanceAs (Decidable (_ ∧ _))

theorem toNat_min (a b : UInt64) : (min a b).toNat = min a.toNat b.toNat := by
  show (if a ≤ b then a else b).toNat = _
  split
  next hle => exact (min_eq_left (UInt64.le_iff_toNat_le.mp hle)).symm
  next hgt =>
    rw [UInt64.not_le] at hgt
    exact (min_eq_right (Nat.le_of_lt (UInt64.lt_iff_toNat_lt.mp hgt))).symm

theorem steps_self {pages current : Nat} (hpages : 1 ≤ pages) : steps pages current current = 0 := by
  unfold steps
  exact Nat.div_eq_of_lt (by omega)

theorem steps_of_last {pages current stop : Nat} (hpages : 1 ≤ pages) (hlt : current < stop)
    (hlast : stop ≤ current + pages) : steps pages current stop = 1 := by
  unfold steps
  rw [Nat.div_eq_iff (by omega)]
  omega

theorem steps_of_more {pages current stop : Nat} (hpages : 1 ≤ pages) (hmore : current + pages < stop) :
    steps pages current stop = steps pages (current + pages) stop + 1 := by
  unfold steps
  rw [show stop - current + pages - 1 = stop - (current + pages) + pages - 1 + pages by omega,
    Nat.add_div_right _ hpages]

theorem rangesFrom_of_le (h : stop ≤ current) : rangesFrom pages stop current = .ok [] := by
  rw [rangesFrom, dif_neg (UInt64.not_lt.mpr h)]

theorem rangesFrom_of_lt (h : current < stop) : rangesFrom pages stop current = (do
    let sum ← add64 current pages
    let p ← PagePartition.new current (min sum stop)
    let ps ← rangesFrom pages stop (min sum stop)
    .ok (p :: ps)) := by
  rw [rangesFrom, dif_pos h]
  cases add64 current pages with
  | error e => rfl
  | ok sum =>
    rw [Except.ok_bind]
    dsimp only
    split
    next e hnew =>
      rw [hnew]
      rfl
    next p hnew =>
      rw [hnew]
      cases rangesFrom pages stop (min sum stop) with
      | error e => rfl
      | ok ps => rfl

theorem rangesFrom_fits (hle : current.toNat ≤ stop.toNat)
    (h : current < stop → Fits pages.toNat current.toNat stop.toNat) :
    ∃ ps, rangesFrom pages stop current = .ok ps ∧ Ranges current.toNat ps stop.toNat := by
  induction hleft : stop.toNat - current.toNat using Nat.strongRecOn generalizing current with
  | ind n ih =>
    by_cases hlt : current < stop
    · have hltNat := UInt64.lt_iff_toNat_lt.mp hlt
      obtain ⟨hpages, hfits⟩ := h hlt
      have hsteps : 1 ≤ steps pages.toNat current.toNat stop.toNat := by
        unfold steps
        rw [Nat.one_le_div_iff hpages]
        omega
      have hsum : current.toNat + pages.toNat < 2 ^ 64 := by
        have := Nat.mul_le_mul_right pages.toNat hsteps
        omega
      have hadd : (current + pages).toNat = current.toNat + pages.toNat := by
        rw [UInt64.toNat_add, Nat.mod_eq_of_lt hsum]
      have hmin : (min (current + pages) stop).toNat = min (current.toNat + pages.toNat) stop.toNat := by
        rw [toNat_min, hadd]
      have hnext : current < min (current + pages) stop := by
        rw [UInt64.lt_iff_toNat_lt, hmin]
        omega
      have hmoreFits : min (current + pages) stop < stop → Fits pages.toNat (min (current + pages) stop).toNat stop.toNat := by
        intro hmore
        rw [UInt64.lt_iff_toNat_lt, hmin] at hmore
        rw [hmin, min_eq_left (by omega)]
        refine ⟨hpages, ?_⟩
        rw [steps_of_more hpages (by omega), Nat.add_mul] at hfits
        omega
      obtain ⟨ps, hps, htiles⟩ := ih (stop.toNat - (min (current + pages) stop).toNat) (by omega) (by omega) hmoreFits rfl
      refine ⟨⟨current, min (current + pages) stop⟩ :: ps, ?_, rfl, UInt64.lt_iff_toNat_lt.mp hnext, htiles⟩
      rw [rangesFrom_of_lt hlt]
      unfold add64 PagePartition.new
      rw [if_pos hsum, Except.ok_bind, if_pos hnext, Except.ok_bind, hps, Except.ok_bind]
    · have hge := UInt64.not_lt.mp hlt
      exact ⟨[], rangesFrom_of_le hge, Nat.le_antisymm hle (UInt64.le_iff_toNat_le.mp hge)⟩

theorem rangesFrom_not_fits (hlt : current < stop) (h : ¬ Fits pages.toNat current.toNat stop.toNat) :
    rangesFrom pages stop current = .error .panic := by
  induction hleft : stop.toNat - current.toNat using Nat.strongRecOn generalizing current with
  | ind n ih =>
    have hltNat := UInt64.lt_iff_toNat_lt.mp hlt
    rw [rangesFrom_of_lt hlt]
    unfold add64
    by_cases hsum : current.toNat + pages.toNat < 2 ^ 64
    · have hadd : (current + pages).toNat = current.toNat + pages.toNat := by
        rw [UInt64.toNat_add, Nat.mod_eq_of_lt hsum]
      have hmin : (min (current + pages) stop).toNat = min (current.toNat + pages.toNat) stop.toNat := by
        rw [toNat_min, hadd]
      rw [if_pos hsum, Except.ok_bind]
      unfold PagePartition.new
      by_cases hnext : current < min (current + pages) stop
      · have hnextNat := UInt64.lt_iff_toNat_lt.mp hnext
        rw [hmin] at hnextNat
        have hpages : 1 ≤ pages.toNat := by omega
        -- the last step would fit, so it is not this one
        have hmore : current.toNat + pages.toNat < stop.toNat := by
          by_contra hlast
          apply h
          rw [Fits, steps_of_last hpages hltNat (by omega)]
          omega
        rw [if_pos hnext, Except.ok_bind, ih _ (by omega) (UInt64.lt_iff_toNat_lt.mpr (by omega)) ?_ rfl]
        · rfl
        · intro hfits
          apply h
          rw [hmin, min_eq_left (by omega)] at hfits
          refine ⟨hpages, ?_⟩
          rw [steps_of_more hpages hmore, Nat.add_mul]
          have := hfits.2
          omega
      · rw [if_neg hnext]
        rfl
    · rw [if_neg hsum]
      rfl

theorem rangesFrom_iff (hlt : current < stop) :
    (∃ ps, rangesFrom pages stop current = .ok ps ∧ Ranges current.toNat ps stop.toNat) ↔
      Fits pages.toNat current.toNat stop.toNat := by
  constructor
  · rintro ⟨ps, hps, -⟩
    by_contra hnot
    rw [rangesFrom_not_fits hlt hnot] at hps
    cases hps
  · exact fun h => rangesFrom_fits (Nat.le_of_lt (UInt64.lt_iff_toNat_lt.mp hlt)) fun _ => h

theorem setLastStop_of_ranges {lo : Nat} {ps : List PagePartition} (h : Ranges lo ps stop.toNat) :
    setLastStop stop ps = ps := by
  induction ps generalizing lo with
  | nil => rfl
  | cons p ps ih =>
    cases ps with
    | nil =>
      have hstop : p.stop = stop := UInt64.toNat_inj.mp h.2.2
      show [{ p with stop := stop }] = [p]
      rw [← hstop]
    | cons q ps =>
      show p :: setLastStop stop (q :: ps) = _
      rw [ih h.2.2]

variable {tableRows pageCount numWorkers numChunks : UInt64} {config : ParallelScanConfig} {partition : PagePartition}

def pagesPer (pageCount numPartitions : Nat) : Nat := max (pageCount / numPartitions) 1

/-- A small table has a page.  For a large one the vector of the partitions can be made, and the step to the end
is no overflow. -/
def CreateFits (tableRows pageCount numWorkers : UInt64) (config : ParallelScanConfig) : Prop :=
  if tableRows < config.minRowsThreshold then 0 < pageCount
  else
    let numPartitions := numWorkers.toNat * config.partitionsPerWorker.toNat
    let pages := pagesPer pageCount.toNat numPartitions
    numPartitions * 16 < 2 ^ 63 ∧ steps pages 0 pageCount.toNat * pages < 2 ^ 64

instance : Decidable (CreateFits tableRows pageCount numWorkers config) := inferInstanceAs (Decidable (ite ..))

def CreateTiles (tableRows pageCount numWorkers : UInt64) (config : ParallelScanConfig) : Prop :=
  ∃ ps, createPartitions tableRows pageCount numWorkers config = .ok ps ∧ Ranges 0 ps pageCount.toNat

theorem toNat_max_one (a : UInt64) : (max a 1).toNat = max a.toNat 1 := by
  show (if a ≤ 1 then 1 else a).toNat = _
  split
  next hle => exact (max_eq_right (UInt64.le_iff_toNat_le.mp hle)).symm
  next hgt =>
    rw [UInt64.not_le] at hgt
    exact (max_eq_left (Nat.le_of_lt (UInt64.lt_iff_toNat_lt.mp hgt))).symm

theorem createTiles_small (hsmall : tableRows < config.minRowsThreshold) :
    CreateTiles tableRows pageCount numWorkers config ↔ 0 < pageCount := by
  unfold CreateTiles createPartitions
  rw [if_pos hsmall]
  unfold PagePartition.new
  by_cases hpages : 0 < pageCount
  · rw [if_pos hpages]
    exact iff_of_true ⟨_, rfl, rfl, UInt64.lt_iff_toNat_lt.mp hpages, rfl⟩ hpages
  · rw [if_neg hpages]
    exact iff_of_false (fun ⟨_, h, _⟩ => nomatch h) hpages

theorem createTiles_large (hlarge : ¬ tableRows < config.minRowsThreshold) (hworkers : 1 ≤ numWorkers)
    (hper : 1 ≤ config.partitionsPerWorker) :
    CreateTiles tableRows pageCount numWorkers config ↔ CreateFits tableRows pageCount numWorkers config := by
  have hpos : 0 < numWorkers.toNat * config.partitionsPerWorker.toNat :=
    Nat.mul_pos (UInt64.le_iff_toNat_le.mp hworkers) (UInt64.le_iff_toNat_le.mp hper)
  unfold CreateTiles createPartitions CreateFits mul64
  rw [if_neg hlarge, if_neg hlarge]
  dsimp only
  by_cases hproduct : numWorkers.toNat * config.partitionsPerWorker.toNat < 2 ^ 64
  · have hnum : (numWorkers * config.partitionsPerWorker).toNat = numWorkers.toNat * config.partitionsPerWorker.toNat := by
      rw [UInt64.toNat_mul, Nat.mod_eq_of_lt hproduct]
    have hne : numWorkers * config.partitionsPerWorker ≠ 0 := by
      intro hzero
      rw [hzero] at hnum
      exact absurd hnum.symm (Nat.ne_of_gt hpos)
    have hpages : (max (pageCount / (numWorkers * config.partitionsPerWorker)) 1).toNat
        = pagesPer pageCount.toNat (numWorkers.toNat * config.partitionsPerWorker.toNat) := by
      rw [toNat_max_one, UInt64.toNat_div, hnum]
      rfl
    unfold div64 withCapacity
    rw [if_pos hproduct, Except.ok_bind, if_neg hne, Except.ok_bind, hnum]
    by_cases hcapacity : numWorkers.toNat * config.partitionsPerWorker.toNat * 16 < 2 ^ 63
    · rw [if_pos hcapacity, Except.ok_bind, and_iff_right hcapacity, ← hpages]
      have hone : 1 ≤ (max (pageCount / (numWorkers * config.partitionsPerWorker)) 1).toNat := by
        rw [hpages]
        exact Nat.le_max_right _ _
      by_cases hempty : pageCount = 0
      · -- no page, no range
        rw [hempty, rangesFrom_of_le (UInt64.le_refl 0)]
        rw [hempty] at hone
        refine iff_of_true ⟨[], rfl, rfl⟩ ?_
        rw [UInt64.toNat_zero, steps_self hone]
        omega
      · have hlt : 0 < pageCount := UInt64.pos_iff_ne_zero.mpr hempty
        rw [← UInt64.toNat_zero, rangesFrom_iff hlt]
        unfold Fits
        rw [and_iff_right hone, UInt64.toNat_zero, Nat.zero_add]
    · rw [if_neg hcapacity]
      exact iff_of_false (fun ⟨_, h, _⟩ => nomatch h) fun h => hcapacity h.1
  · rw [if_neg hproduct]
    refine iff_of_false (fun ⟨_, h, _⟩ => nomatch h) fun h => ?_
    have hcapacity := h.1
    omega

/-- One chunk is the partition.  Of more there are no more than pages, their vector can be made, and the step to
the end is no overflow. -/
def SplitFits (partition : PagePartition) (numChunks : UInt64) : Prop :=
  numChunks ≤ 1 ∨
    let pages := (partition.stop.toNat - partition.start.toNat) / numChunks.toNat
    numChunks.toNat * 16 < 2 ^ 63 ∧ Fits pages partition.start.toNat partition.stop.toNat

instance : Decidable (SplitFits partition numChunks) := inferInstanceAs (Decidable (_ ∨ _))

def SplitTiles (partition : PagePartition) (numChunks : UInt64) : Prop :=
  ∃ ps, splitPartition partition numChunks = .ok ps ∧ Ranges partition.start.toNat ps partition.stop.toNat

theorem splitTiles_iff (h : partition.start < partition.stop) :
    SplitTiles partition numChunks ↔ SplitFits partition numChunks := by
  have hempty : partition.isEmpty = false := decide_eq_false (UInt64.not_le.mpr h)
  unfold SplitTiles splitPartition SplitFits
  rw [hempty, Bool.false_or]
  by_cases hone : numChunks ≤ 1
  · rw [if_pos (decide_eq_true hone)]
    exact iff_of_true ⟨_, rfl, rfl, UInt64.lt_iff_toNat_lt.mp h, rfl⟩ (.inl hone)
  · have hnum : numChunks ≠ 0 := by
      intro hzero
      exact hone (by rw [hzero]; decide)
    rw [if_neg (by rw [decide_eq_true_eq]; exact hone), or_iff_right hone]
    unfold div64 withCapacity
    rw [if_neg hnum, Except.ok_bind]
    dsimp only
    by_cases hcapacity : numChunks.toNat * 16 < 2 ^ 63
    · have hcount : (partition.count / numChunks).toNat
          = (partition.stop.toNat - partition.start.toNat) / numChunks.toNat := by
        unfold PagePartition.count
        rw [UInt64.toNat_div, UInt64.toNat_sub_of_le _ _ (UInt64.le_of_lt h)]
      rw [if_pos hcapacity, Except.ok_bind, and_iff_right hcapacity, ← hcount, ← rangesFrom_iff h]
      constructor
      · rintro ⟨ps, hps, -⟩
        obtain ⟨chunks, hchunks, -⟩ := Except.bind_eq_ok_iff.mp hps
        apply (rangesFrom_iff h).mpr
        by_contra hnot
        rw [rangesFrom_not_fits h hnot] at hchunks
        cases hchunks
      · rintro ⟨chunks, hchunks, hranges⟩
        refine ⟨chunks, ?_, hranges⟩
        rw [hchunks, Except.ok_bind, setLastStop_of_ranges hranges]
    · rw [if_neg hcapacity]
      exact iff_of_false (fun ⟨_, h, _⟩ => nomatch h) fun h => hcapacity h.1

theorem partitions_tile_iff (tableRows pageCount numWorkers : UInt64) (config : ParallelScanConfig)
    (hworkers : 1 ≤ numWorkers) (hper : 1 ≤ config.partitionsPerWorker) (partition : PagePartition) (numChunks : UInt64)
    (h : partition.start < partition.stop) :
    (CreateTiles tableRows pageCount numWorkers config ↔ CreateFits tableRows pageCount numWorkers config) ∧
      (SplitTiles partition numChunks ↔ SplitFits partition numChunks) := by
  constructor
  · by_cases hsmall : tableRows < config.minRowsThreshold
    · rw [createTiles_small hsmall, CreateFits, if_pos hsmall]
    · exact createTiles_large hsmall hworkers hper
  · exact splitTiles_iff h

/-- A thousand pages for four workers, and in four chunks. -/
theorem partitions_tile_thousand : CreateTiles 100000 1000 4 .default ∧ SplitTiles ⟨0, 1000⟩ 4 := by
  have h := partitions_tile_iff 100000 1000 4 .default (by decide) (by decide) ⟨0, 1000⟩ 4 (by decide)
  constructor
  · exact h.1.mpr (by decide)
  · exact h.2.mpr (by decide)

/-- A small table without pages, and more chunks than pages. -/
theorem partitions_panic :
    createPartitions 0 0 4 .default = .error .panic ∧ ¬ CreateTiles 0 0 4 .default ∧
    splitPartition ⟨0, 3⟩ 4 = .error .panic ∧ ¬ SplitTiles ⟨0, 3⟩ 4 := by
  refine ⟨rfl, ?_, ?_, ?_⟩
  · rw [createTiles_small (by decide)]
    decide
  · show (do
      let chunks ← rangesFrom 0 3 0
      .ok (setLastStop 3 chunks)) = _
    rw [rangesFrom_not_fits (by decide) (by decide)]
    rfl
  · rw [splitTiles_iff (by decide)]
    decide

end Northstar.QueryPlan
