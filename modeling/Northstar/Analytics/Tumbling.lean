import Northstar.Lib.HashMap
import Northstar.Lib.Pieces
import Mathlib.Data.Int.Order.Basic

/-!
# Tumbling — windows of one size, and a series made coarser

`analytics/window.rs` and `analytics/types.rs`.  The windows begin at a multiple of their size, moved by the
offset, that is not before the start; whatever lies between the start and that multiple is in no window.

A time is in milliseconds, and so small that nothing overflows.  A value of a point is a floating point number,
of which only the operations are known.
-/

namespace Northstar.Analytics

open Tiling

inductive TimeSeriesError
  | invalidWindow (message : String)
  | parseError (message : String)
  | invalidCalendarUnit (message : String)
  deriving DecidableEq, Repr

/-- The field `end` of the source is `stop`. -/
structure TimeWindow where
  start : Int
  stop : Int
  durationMs : Int
  ordered : start < stop
  duration : durationMs = stop - start
  deriving DecidableEq, Repr

namespace TimeWindow

def new (start stop : Int) : Except TimeSeriesError TimeWindow :=
  if h : stop ≤ start then .error (.invalidWindow s!"end ({stop}) <= start ({start})")
  else
    .ok {
      start := start
      stop := stop
      durationMs := stop - start
      ordered := Int.not_le.mp h
      duration := rfl }

def contains (w : TimeWindow) (timestamp : Int) : Bool := timestamp ≥ w.start && timestamp < w.stop

def overlaps (w other : TimeWindow) : Bool := w.start < other.stop && other.start < w.stop

end TimeWindow

/-- Only the size is held to be sensible here: the fields of the source are public, and `new` checks both. -/
structure TumblingWindow where
  sizeMs : Int
  offsetMs : Int
  positive : 0 < sizeMs
  deriving DecidableEq, Repr

def TumblingWindow.new (sizeMs offsetMs : Int) : Except TimeSeriesError TumblingWindow :=
  if h : sizeMs ≤ 0 then .error (.invalidWindow "size_ms must be positive")
  else if offsetMs < 0 ∨ offsetMs ≥ sizeMs then
    .error (.invalidWindow s!"offset_ms must be in [0, {sizeMs}), got {offsetMs}")
  else .ok ⟨sizeMs, offsetMs, Int.not_le.mp h⟩

/-- The loop of `generate_tumbling_windows`. -/
def tumblingFrom (stop : Int) (config : TumblingWindow) (current : Int) : List TimeWindow :=
  if current < stop then
    let windowEnd := min (current + config.sizeMs) stop
    let rest := tumblingFrom stop config (current + config.sizeMs)
    match TimeWindow.new current windowEnd with
    | .ok window => window :: rest
    | .error _ => rest
  else []
termination_by (stop - current).toNat
decreasing_by
  have := config.positive
  omega

/-- The division rounds towards zero. -/
def alignedStart (start : Int) (config : TumblingWindow) : Int :=
  (start - config.offsetMs + config.sizeMs - 1).tdiv config.sizeMs * config.sizeMs + config.offsetMs

def generateTumblingWindows (start stop : Int) (config : TumblingWindow) : List TimeWindow :=
  tumblingFrom stop config (alignedStart start config)

inductive AggregateFunction (F : Type*)
  | count
  | sum
  | avg
  | min
  | max
  | first
  | last
  | stdDev
  | variance
  | percentile (p : F)
  | rate
  | delta
  | movingAverage (periods : Nat)
  deriving DecidableEq, Repr

/-- What `f64` does. -/
structure Arithmetic (F : Type*) where
  sum : List F → F
  div : F → F → F
  min : F → F → F
  max : F → F → F
  infinity : F
  negInfinity : F
  nan : F
  ofUsize : Nat → F

/-- `HashMap<String, String>`. -/
abbrev Tags := AList fun _ : String => String

structure TimeSeriesPoint (F : Type*) where
  timestamp : Int
  value : F
  tags : Tags

/-- How a call ends that gives nothing back. -/
inductive AnalyticsFault
  | err (e : TimeSeriesError)
  | panic
  deriving DecidableEq, Repr

section Downsample

variable {F : Type*} (ops : Arithmetic F)

/-- The points of a window, of which there is one at least. -/
def aggregate (function : AggregateFunction F) (first : TimeSeriesPoint F) (rest : List (TimeSeriesPoint F)) : F :=
  let values := (first :: rest).map TimeSeriesPoint.value
  match function with
  | .avg => ops.div (ops.sum values) (ops.ofUsize values.length)
  | .sum => ops.sum values
  | .min => values.foldl ops.min ops.infinity
  | .max => values.foldl ops.max ops.negInfinity
  | .first => first.value
  | .last => ((first :: rest).getLast (List.cons_ne_nil _ _)).value
  | .count => ops.ofUsize values.length
  | _ => ops.nan

/-- The body of the loop over the windows: an empty window gives nothing. -/
def downsampleWindow (data : List (TimeSeriesPoint F)) (function : AggregateFunction F) (window : TimeWindow) :
    Option (TimeSeriesPoint F) :=
  match data.filter fun p => window.contains p.timestamp with
  | [] => none
  | first :: rest =>
    some {
      timestamp := window.stop
      value := aggregate ops function first rest
      tags := HashMap.collect ((first :: rest).flatMap fun p => p.tags.entries.map fun e => (e.1, e.2)) }

def seriesWindows (first : TimeSeriesPoint F) (rest : List (TimeSeriesPoint F)) (config : TumblingWindow) :
    List TimeWindow :=
  generateTumblingWindows first.timestamp
    (((first :: rest).getLast (List.cons_ne_nil _ _)).timestamp + config.sizeMs) config

def downsampleSeries (data : List (TimeSeriesPoint F)) (targetIntervalMs : Int) (function : AggregateFunction F) :
    Except AnalyticsFault (List (TimeSeriesPoint F)) :=
  match data with
  | [] => .ok []
  | first :: rest =>
    match TumblingWindow.new targetIntervalMs 0 with
    | .error _ => .error .panic
    | .ok config => .ok ((seriesWindows first rest config).filterMap (downsampleWindow ops (first :: rest) function))

end Downsample

variable {F : Type*} {start stop t : Int} {config : TumblingWindow}

structure CoversOnce (windows : List TimeWindow) (start stop : Int) : Prop where
  disjoint : windows.Pairwise fun w w' => w.overlaps w' = false
  once : ∀ t, start ≤ t → t < stop → windows.countP (·.contains t) = 1

theorem contains_iff (w : TimeWindow) : w.contains t = true ↔ Contains TimeWindow.start TimeWindow.stop t w := by
  unfold TimeWindow.contains Contains
  rw [Bool.and_eq_true, decide_eq_true_eq, decide_eq_true_eq]

theorem countP_contains (windows : List TimeWindow) :
    windows.countP (·.contains t) = windows.countP (Contains TimeWindow.start TimeWindow.stop t) := by
  apply List.countP_congr
  intro w _
  rw [contains_iff, decide_eq_true_eq]

theorem disjoint_of_tiles {windows : List TimeWindow}
    (h : Tiles TimeWindow.start TimeWindow.stop start windows stop) :
    windows.Pairwise fun w w' => w.overlaps w' = false := by
  apply h.pairwise.imp
  intro w w' hle
  unfold TimeWindow.overlaps
  rw [decide_eq_false (Int.not_lt.mpr hle), Bool.and_false]

theorem TimeWindow.new_of_lt (h : start < stop) :
    TimeWindow.new start stop = .ok ⟨start, stop, stop - start, h, rfl⟩ := dif_neg (Int.not_le.mpr h)

theorem tumblingFrom_of_le (h : stop ≤ start) : tumblingFrom stop config start = [] := by
  rw [tumblingFrom, if_neg (Int.not_lt.mpr h)]

theorem tumblingFrom_of_lt (config : TumblingWindow) (h : start < stop) : ∃ w, w.start = start ∧
    w.stop = min (start + config.sizeMs) stop ∧
    tumblingFrom stop config start = w :: tumblingFrom stop config (start + config.sizeMs) := by
  have hpos := config.positive
  have hmin : start < min (start + config.sizeMs) stop := lt_min (by omega) h
  refine ⟨⟨start, _, _, hmin, rfl⟩, rfl, rfl, ?_⟩
  rw [tumblingFrom, if_pos h]
  simp only [TimeWindow.new_of_lt hmin]

theorem tiles_tumblingFrom (h : start ≤ stop) :
    Tiles TimeWindow.start TimeWindow.stop start (tumblingFrom stop config start) stop := by
  have hpos := config.positive
  -- a window that ends before the stretch does leaves a shorter one
  induction hlength : (stop - start).toNat using Nat.strongRecOn generalizing start with
  | ind n ih =>
    by_cases hlt : start < stop
    · obtain ⟨w, hstart, hstop, heq⟩ := tumblingFrom_of_lt config hlt
      have hmin : start < min (start + config.sizeMs) stop := lt_min (by omega) hlt
      rw [heq]
      refine ⟨hstart, by omega, ?_⟩
      by_cases hlast : start + config.sizeMs ≤ stop
      · rw [hstop, min_eq_left hlast]
        exact ih _ (by omega) hlast rfl
      · rw [hstop, min_eq_right (by omega), tumblingFrom_of_le (by omega)]
        rfl
    · rw [tumblingFrom_of_le (by omega)]
      exact le_antisymm h (Int.not_lt.mp hlt)

theorem tumblingFrom_disjoint : (tumblingFrom stop config start).Pairwise fun w w' => w.overlaps w' = false := by
  by_cases h : start ≤ stop
  · exact disjoint_of_tiles (tiles_tumblingFrom h)
  · rw [tumblingFrom_of_le (by omega)]
    exact .nil

theorem tumblingFrom_before (ht : t < start) : (tumblingFrom stop config start).countP (·.contains t) = 0 := by
  by_cases h : start ≤ stop
  · rw [countP_contains]
    exact (tiles_tumblingFrom h).countP_eq_zero (.inl ht)
  · rw [tumblingFrom_of_le (by omega)]
    rfl

/-- The condition under which the first window begins at the start. -/
def Aligned (start : Int) (config : TumblingWindow) : Prop :=
  config.sizeMs ∣ start - config.offsetMs ∧ (config.offsetMs ≤ start ∨ config.sizeMs = 1)

instance : Decidable (Aligned start config) := inferInstanceAs (Decidable (_ ∧ _))

/-- Behind the offset the division rounds down, so adding all but one of the size rounds up. -/
theorem alignedStart_of_nonneg (h : 0 ≤ start - config.offsetMs + config.sizeMs - 1) :
    alignedStart start config - config.offsetMs
      = config.sizeMs * ((start - config.offsetMs + config.sizeMs - 1) / config.sizeMs) := by
  unfold alignedStart
  rw [Int.tdiv_eq_ediv_of_nonneg h, Int.mul_comm]
  omega

theorem alignedStart_of_neg (h : start - config.offsetMs + config.sizeMs - 1 < 0) :
    start + config.sizeMs - 1 ≤ alignedStart start config := by
  have hneg : start - config.offsetMs + config.sizeMs - 1 = -(-(start - config.offsetMs + config.sizeMs - 1)) := by
    omega
  have hround := Int.ediv_mul_le (-(start - config.offsetMs + config.sizeMs - 1)) (Int.ne_of_gt config.positive)
  unfold alignedStart
  rw [hneg, Int.neg_tdiv, Int.tdiv_eq_ediv_of_nonneg (by omega), Int.neg_mul]
  omega

theorem alignedStart_ge : start ≤ alignedStart start config := by
  have hpos := config.positive
  by_cases h : 0 ≤ start - config.offsetMs + config.sizeMs - 1
  · have haligned := alignedStart_of_nonneg h
    have hround := Int.lt_mul_ediv_self_add (x := start - config.offsetMs + config.sizeMs - 1) hpos
    omega
  · have hfar := alignedStart_of_neg (Int.not_le.mp h)
    omega

theorem alignedStart_eq_iff : alignedStart start config = start ↔ Aligned start config := by
  have hpos := config.positive
  unfold Aligned
  by_cases h : 0 ≤ start - config.offsetMs + config.sizeMs - 1
  · have haligned := alignedStart_of_nonneg h
    constructor
    · intro heq
      rw [heq] at haligned
      refine ⟨⟨_, haligned⟩, ?_⟩
      -- a multiple of the size that is above the negative size is not negative
      by_contra hbefore
      have hdvd : config.sizeMs ∣ config.offsetMs - start := by
        rw [← Int.dvd_neg, Int.neg_sub]
        exact ⟨_, haligned⟩
      have hle := Int.le_of_dvd (by omega) hdvd
      omega
    · rintro ⟨⟨k, hk⟩, -⟩
      have hdiv : (start - config.offsetMs + config.sizeMs - 1) / config.sizeMs = k := by
        rw [hk, show config.sizeMs * k + config.sizeMs - 1 = config.sizeMs - 1 + config.sizeMs * k by omega,
          Int.add_mul_ediv_left _ _ (Int.ne_of_gt hpos), Int.ediv_eq_zero_of_lt (by omega) (by omega)]
        omega
      rw [hdiv, ← hk] at haligned
      omega
  · have hfar := alignedStart_of_neg (Int.not_le.mp h)
    constructor
    · intro heq
      have hone : config.sizeMs = 1 := by omega
      rw [hone]
      exact ⟨Int.one_dvd _, .inr rfl⟩
    · rintro ⟨-, hbehind | hone⟩
      · omega
      · unfold alignedStart
        rw [hone, Int.tdiv_one]
        omega

theorem coversOnce_iff (h : start < stop) :
    CoversOnce (generateTumblingWindows start stop config) start stop ↔ Aligned start config := by
  rw [← alignedStart_eq_iff]
  unfold generateTumblingWindows
  constructor
  · intro hcovers
    by_contra hne
    have hge : start ≤ alignedStart start config := alignedStart_ge
    have honce := hcovers.once start (Int.le_refl _) h
    rw [tumblingFrom_before (by omega)] at honce
    exact absurd honce (by decide)
  · intro heq
    rw [heq]
    have htiles : Tiles TimeWindow.start TimeWindow.stop start (tumblingFrom stop config start) stop :=
      tiles_tumblingFrom (Int.le_of_lt h)
    exact ⟨tumblingFrom_disjoint, fun t hlo hhi => (countP_contains _).trans (htiles.countP_eq_one hlo hhi)⟩

variable {ops : Arithmetic F} {rest : List (TimeSeriesPoint F)} {first : TimeSeriesPoint F}
  {function : AggregateFunction F}

def TimeOrdered (data : List (TimeSeriesPoint F)) : Prop := data.Pairwise fun p q => p.timestamp ≤ q.timestamp

theorem TimeOrdered.bounds (h : TimeOrdered (first :: rest)) {p : TimeSeriesPoint F} (hp : p ∈ first :: rest) :
    first.timestamp ≤ p.timestamp ∧
      p.timestamp ≤ ((first :: rest).getLast (List.cons_ne_nil _ _)).timestamp := by
  constructor
  · rcases List.mem_cons.mp hp with rfl | hp
    · exact Int.le_refl _
    · exact List.rel_of_pairwise_cons h hp
  · have : Std.Refl fun p q : TimeSeriesPoint F => p.timestamp ≤ q.timestamp := ⟨fun _ => Int.le_refl _⟩
    exact List.Pairwise.rel_getLast h hp

theorem downsample_count (ops : Arithmetic F) (data : List (TimeSeriesPoint F)) (windows : List TimeWindow) :
    ∃ counts : List Nat, ((windows.filterMap (downsampleWindow ops data .count)).map TimeSeriesPoint.value
        = counts.map ops.ofUsize) ∧
      counts.sum = (windows.map fun w => data.countP fun p => w.contains p.timestamp).sum := by
  induction windows with
  | nil => exact ⟨[], rfl, rfl⟩
  | cons w windows ih =>
    rcases ih with ⟨counts, hvalues, hsum⟩
    rw [List.filterMap_cons, List.map_cons, List.sum_cons, List.countP_eq_length_filter, ← hsum]
    unfold downsampleWindow at hvalues ⊢
    cases hpoints : data.filter fun p => w.contains p.timestamp with
    | nil => exact ⟨counts, hvalues, (Nat.zero_add _).symm⟩
    | cons p points =>
      refine ⟨(p :: points).length :: counts, ?_, rfl⟩
      rw [List.map_cons, List.map_cons, hvalues]
      show ops.ofUsize ((p :: points).map TimeSeriesPoint.value).length :: _ = _
      rw [List.length_map]

/-- The windows of the series are disjoint, every point is in one of them, and the counts lose none. -/
structure LosesNothing (ops : Arithmetic F) (first : TimeSeriesPoint F) (rest : List (TimeSeriesPoint F))
    (config : TumblingWindow) : Prop where
  disjoint : (seriesWindows first rest config).Pairwise fun w w' => w.overlaps w' = false
  once : ∀ p ∈ first :: rest, (seriesWindows first rest config).countP (·.contains p.timestamp) = 1
  counted : ∃ downsampled, ∃ counts : List Nat,
    downsampleSeries ops (first :: rest) config.sizeMs .count = .ok downsampled ∧
    downsampled.map TimeSeriesPoint.value = counts.map ops.ofUsize ∧ counts.sum = (first :: rest).length

theorem TumblingWindow.new_zero (h : config.offsetMs = 0) : TumblingWindow.new config.sizeMs 0 = .ok config := by
  have hpos := config.positive
  unfold TumblingWindow.new
  rw [dif_neg (Int.not_le.mpr hpos), if_neg (by omega)]
  rcases config with ⟨size, offset, hpos⟩
  cases h
  rfl

theorem losesNothing_iff (hordered : TimeOrdered (first :: rest)) (hoffset : config.offsetMs = 0) :
    LosesNothing ops first rest config ↔ Aligned first.timestamp config := by
  have hpos := config.positive
  have hlast := (hordered.bounds (List.mem_cons_self ..)).2
  rw [← alignedStart_eq_iff]
  constructor
  · intro h
    by_contra hne
    have hge : first.timestamp ≤ alignedStart first.timestamp config := alignedStart_ge
    have honce := h.once first (List.mem_cons_self ..)
    unfold seriesWindows generateTumblingWindows at honce
    rw [tumblingFrom_before (by omega)] at honce
    exact absurd honce (by decide)
  · intro heq
    have htiles : Tiles TimeWindow.start TimeWindow.stop first.timestamp (seriesWindows first rest config)
        (((first :: rest).getLast (List.cons_ne_nil _ _)).timestamp + config.sizeMs) := by
      unfold seriesWindows generateTumblingWindows
      rw [heq]
      exact tiles_tumblingFrom (by omega)
    have honce : ∀ p ∈ first :: rest, (seriesWindows first rest config).countP (·.contains p.timestamp) = 1 := by
      intro p hp
      have hbounds := hordered.bounds hp
      exact (countP_contains _).trans (htiles.countP_eq_one hbounds.1 (by omega))
    refine ⟨disjoint_of_tiles htiles, honce, ?_⟩
    obtain ⟨counts, hvalues, hsum⟩ := downsample_count ops (first :: rest) (seriesWindows first rest config)
    refine ⟨_, counts, ?_, hvalues, ?_⟩
    · unfold downsampleSeries
      simp only [TumblingWindow.new_zero hoffset]
    · rw [hsum, sum_countP fun (w : TimeWindow) (p : TimeSeriesPoint F) => w.contains p.timestamp,
        List.map_congr_left honce, List.map_const', List.sum_replicate_nat, Nat.mul_one]

/-- Nothing is lost exactly where the first window begins at the first point, or at the start. -/
theorem downsampling_lossless_iff (ops : Arithmetic F) :
    (∀ (first : TimeSeriesPoint F) (rest : List (TimeSeriesPoint F)) (intervalMs : Int) (hpos : 0 < intervalMs),
      TimeOrdered (first :: rest) →
        (LosesNothing ops first rest ⟨intervalMs, 0, hpos⟩ ↔
          intervalMs ∣ first.timestamp ∧ (0 ≤ first.timestamp ∨ intervalMs = 1))) ∧
    (∀ (start stop : Int) (config : TumblingWindow), start < stop →
      (CoversOnce (generateTumblingWindows start stop config) start stop ↔ Aligned start config)) := by
  constructor
  · intro first rest intervalMs hpos hordered
    rw [losesNothing_iff hordered rfl]
    unfold Aligned
    rw [Int.sub_zero]
  · intro start stop config h
    exact coversOnce_iff h

/-- The numbers of the source. -/
def float64 : Arithmetic Float where
  sum := fun values => values.foldl (· + ·) (-0.0)
  div := (· / ·)
  min := fun a b => if a.isNaN then b else if b.isNaN then a else if b < a then b else a
  max := fun a b => if a.isNaN then b else if b.isNaN then a else if a < b then b else a
  infinity := 1.0 / 0.0
  negInfinity := -1.0 / 0.0
  nan := 0.0 / 0.0
  ofUsize := Float.ofNat

def plainPoint (timestamp : Int) (value : Float) : TimeSeriesPoint Float := ⟨timestamp, value, ∅⟩

theorem downsampling_lossless_minutes :
    LosesNothing float64 (plainPoint 0 1.0) [plainPoint 30000 2.0, plainPoint 60000 3.0, plainPoint 90000 4.0]
      ⟨60000, 0, by decide⟩ ∧
    CoversOnce (generateTumblingWindows 0 300000 ⟨60000, 0, by decide⟩) 0 300000 := by
  have h := downsampling_lossless_iff float64
  constructor
  · apply (h.1 _ _ _ (by decide) ?_).mpr
    · exact ⟨by decide, .inl (by decide)⟩
    · simp [TimeOrdered, plainPoint]
  · exact (h.2 0 300000 ⟨60000, 0, by decide⟩ (by decide)).mpr (by decide)

/-- A point half a minute into a minute, and a stretch that begins a minute before the epoch. -/
theorem downsampling_loses :
    ¬ LosesNothing float64 (plainPoint 30000 1.0) [] ⟨60000, 0, by decide⟩ ∧
    ¬ CoversOnce (generateTumblingWindows (-60000) 60000 ⟨60000, 0, by decide⟩) (-60000) 60000 := by
  constructor
  · rw [losesNothing_iff (List.pairwise_singleton ..) rfl]
    exact of_decide_eq_true rfl
  · rw [coversOnce_iff (by decide)]
    decide

end Northstar.Analytics
