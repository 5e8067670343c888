import Northstar.Analytics.Tumbling
import Northstar.Analytics.Chrono
import Northstar.Lib.Except
import Mathlib.Order.Bounds.Basic
import Mathlib.Order.Interval.Set.Defs

/-!
# Calendar — windows that begin with a minute, an hour, a day, a week, a month, a quarter or a year

`align_to_calendar`, `advance_calendar` and `generate_calendar_windows` of `analytics/window.rs`.  The fields of
a date are replaced one at a time, so that the date in between has to be one as well: the first of April is
not reached from the thirty-first of May.

An `i32` that overflows panics.
-/

namespace Northstar.Analytics

open Gregorian Tiling

inductive CalendarUnit
  | minute
  | hour
  | day
  | week
  | month
  | quarter
  | year
  deriving DecidableEq, Repr

structure CalendarWindow where
  unit : CalendarUnit
  count : UInt64
  timezone : String
  deriving DecidableEq, Repr

def CalendarWindow.new (unit : CalendarUnit) (count : UInt64) (timezone : String) :
    Except TimeSeriesError CalendarWindow :=
  if count < 1 then .error (.invalidWindow "count must be at least 1") else .ok ⟨unit, count, timezone⟩

/-- `count as i64` and `count as i32`. -/
def asI64 (count : UInt64) : Int := (count.toNat : Int).bmod (2 ^ 64)
def asI32 (count : UInt64) : Int := (count.toNat : Int).bmod (2 ^ 32)

/-- `month as u32`. -/
def asU32 (n : Int) : Nat := (n % 2 ^ 32).toNat

/-- The result of an operation on `i32`. -/
def i32 (n : Int) : Except AnalyticsFault Int := if -2 ^ 31 ≤ n ∧ n < 2 ^ 31 then .ok n else .error .panic

section Code

variable {δ : Type} (C : Chrono δ)

/-- The calls with which the units from the day on end. -/
def midnight (d : δ) : Option δ :=
  (C.withHour d 0).bind fun d => (C.withMinute d 0).bind fun d => (C.withSecond d 0).bind fun d => C.withNanosecond d 0

/-- `ok_or_else(..)?`, and `timestamp_millis` at the end. -/
def aligned (name : String) (d : Option δ) : Except AnalyticsFault Int :=
  match d with
  | some d => .ok (C.timestampMillis d)
  | none => .error (.err (.invalidCalendarUnit name))

def alignToCalendar (timestamp : Int) (unit : CalendarUnit) (_timezone : String) : Except AnalyticsFault Int :=
  match C.fromTimestampMillis timestamp with
  | none => .error (.err (.parseError "Invalid timestamp"))
  | some dt =>
    match unit with
    | .minute => aligned C "Minute" ((C.withSecond dt 0).bind fun d => C.withNanosecond d 0)
    | .hour =>
      aligned C "Hour"
        ((C.withMinute dt 0).bind fun d => (C.withSecond d 0).bind fun d => C.withNanosecond d 0)
    | .day => aligned C "Day" (midnight C dt)
    | .week =>
      match midnight C dt with
      | none => .error (.err (.invalidCalendarUnit "Week"))
      | some d =>
        match C.fromTimestamp (C.timestamp d - C.numDaysFromMonday dt * 86400) with
        | none => .error .panic
        | some d => .ok (C.timestampMillis d)
    | .month => aligned C "Month" ((C.withDay dt 1).bind (midnight C))
    | .quarter =>
      let quarterStartMonth := (C.month dt - 1) / 3 * 3 + 1
      aligned C "Quarter" ((C.withMonth dt quarterStartMonth).bind fun d => (C.withDay d 1).bind (midnight C))
    | .year => aligned C "Year" ((C.withMonth dt 1).bind fun d => (C.withDay d 1).bind (midnight C))

/-- `dt + chrono::Duration::minutes(count)` and the like: a duration has less than `i64::MAX` milliseconds. -/
def addUnits (dt : δ) (unitMillis count : Int) : Except AnalyticsFault Int :=
  if (2 ^ 63 - 1 : Int) < (count * unitMillis).natAbs then .error .panic
  else
    match C.add dt (count * unitMillis) with
    | none => .error .panic
    | some d => .ok (C.timestampMillis d)

/-- `dt.with_month(month as u32).and_then(|d| d.with_year(year)).unwrap_or(dt)`. -/
def setMonthAndYear (dt : δ) (month year : Int) : Int :=
  C.timestampMillis (((C.withMonth dt (asU32 month)).bind fun d => C.withYear d year).getD dt)

/-- Rust divides towards zero. -/
def advanceCalendar (timestamp : Int) (unit : CalendarUnit) (count : UInt64) : Except AnalyticsFault Int :=
  let dt := (C.fromTimestampMillis timestamp).getD C.default
  match unit with
  | .minute => addUnits C dt 60000 (asI64 count)
  | .hour => addUnits C dt 3600000 (asI64 count)
  | .day => addUnits C dt dayMillis (asI64 count)
  | .week => addUnits C dt (7 * dayMillis) (asI64 count)
  | .month => do
    let sum ← i32 (C.month dt + asI32 count)
    let totalMonths ← i32 (sum - 1)
    let year ← i32 (C.year dt + totalMonths.tdiv 12)
    .ok (setMonthAndYear C dt (totalMonths.tmod 12 + 1) year)
  | .quarter => do
    let totalQuarters ← i32 (((C.month dt - 1) / 3 : Nat) + asI32 count)
    let year ← i32 (C.year dt + totalQuarters.tdiv 4)
    .ok (setMonthAndYear C dt (totalQuarters.tmod 4 * 3 + 1) year)
  | .year => do
    let year ← i32 (C.year dt + asI32 count)
    .ok (C.timestampMillis ((C.withYear dt year).getD dt))

/-- The loop of `generate_calendar_windows`.  It need not end, so it is given the number of turns it may take. -/
def calendarFrom (stop : Int) (unit : CalendarUnit) (count : UInt64) :
    Nat → Int → Option (Except AnalyticsFault (List TimeWindow))
  | 0, _ => none
  | turns + 1, current =>
    if current < stop then
      match advanceCalendar C current unit count with
      | .error e => some (.error e)
      | .ok next =>
        let windows := (TimeWindow.new current (min next stop)).toOption.toList
        if next ≥ stop then some (.ok windows)
        else (calendarFrom stop unit count turns next).map (Except.map (windows ++ ·))
    else some (.ok [])

def generateCalendarWindows (turns : Nat) (start stop : Int) (config : CalendarWindow) :
    Option (Except AnalyticsFault (List TimeWindow)) :=
  match alignToCalendar C start config.unit config.timezone with
  | .ok current => calendarFrom C stop config.unit config.count turns current
  | .error (.err _) => some (.ok [])
  | .error .panic => some (.error .panic)

end Code

/-- The timestamp at which the `n`-th unit begins.  A week begins with a Monday, as 1970-01-05 was one. -/
def boundary : CalendarUnit → Int → Int
  | .minute, n => n * 60000
  | .hour, n => n * 3600000
  | .day, n => n * dayMillis
  | .week, n => (7 * n - 3) * dayMillis
  | .month, n => monthStart n * dayMillis
  | .quarter, n => monthStart (3 * n) * dayMillis
  | .year, n => monthStart (12 * n) * dayMillis

variable {u : CalendarUnit} {n ts : Int}

theorem boundary_strictMono (u : CalendarUnit) : StrictMono (boundary u) := by
  apply strictMono_int_of_lt_succ
  intro n
  have hmonths : ∀ a b : Int, a < b → monthStart a * dayMillis < monthStart b * dayMillis := fun a b h =>
    Int.mul_lt_mul_of_pos_right (monthStart_strictMono h) (by decide)
  unfold boundary
  cases u with
  | month => exact hmonths _ _ (Int.lt_succ n)
  | quarter => exact hmonths _ _ (by omega)
  | year => exact hmonths _ _ (by omega)
  | _ =>
    unfold dayMillis
    dsimp only
    omega

def boundariesUpTo (u : CalendarUnit) (ts : Int) : Set Int := Set.range (boundary u) ∩ Set.Iic ts

theorem isGreatest_boundary (h : boundary u n ≤ ts) (h' : ts < boundary u (n + 1)) :
    IsGreatest (boundariesUpTo u ts) (boundary u n) := by
  refine ⟨⟨⟨n, rfl⟩, h⟩, ?_⟩
  rintro _ ⟨⟨k, rfl⟩, hk⟩
  have hlt : k < n + 1 := (boundary_strictMono u).lt_iff_lt.mp (lt_of_le_of_lt hk h')
  exact (boundary_strictMono u).monotone (Int.lt_add_one_iff.mp hlt)

variable {δ : Type} {C : Chrono δ} {d dt : δ} {m : Moment} {x : Option δ}

theorem exists_of_checked (hx : x.map C.fields = m.checked) (hm : m.Valid) : ∃ d, x = some d ∧ C.fields d = m := by
  unfold Moment.checked at hx
  rw [if_pos hm] at hx
  exact Option.map_eq_some_iff.mp hx

theorem eq_none_of_checked (hx : x.map C.fields = m.checked) (hm : ¬ m.Valid) : x = none := by
  unfold Moment.checked at hx
  rw [if_neg hm] at hx
  exact Option.map_eq_none_iff.mp hx

theorem exists_fromTimestampMillis (h : InRange ts) :
    ∃ dt, C.fromTimestampMillis ts = some dt ∧ C.timestampMillis dt = ts := by
  have hfields := C.fromTimestampMillis_fields ts
  rw [if_pos h] at hfields
  exact Option.map_eq_some_iff.mp hfields

theorem of_fromTimestampMillis (h : C.fromTimestampMillis ts = some dt) : InRange ts ∧ C.timestampMillis dt = ts := by
  have hfields := C.fromTimestampMillis_fields ts
  rw [h] at hfields
  by_cases hin : InRange ts
  · rw [if_pos hin] at hfields
    exact ⟨hin, Option.some.inj hfields⟩
  · rw [if_neg hin] at hfields
    cases hfields

theorem inRange_timestampMillis (d : δ) : InRange (C.timestampMillis d) := Moment.inRange_of_valid (C.valid d)

theorem withHour_zero (C : Chrono δ) (d : δ) :
    ∃ d', C.withHour d 0 = some d' ∧ C.fields d' = { C.fields d with hour := 0 } := by
  obtain ⟨hdate, hyear, -, hrest⟩ := C.valid d
  exact exists_of_checked (C.withHour_fields d 0) ⟨hdate, hyear, (by decide : 0 < 24), hrest⟩

theorem withMinute_zero (C : Chrono δ) (d : δ) :
    ∃ d', C.withMinute d 0 = some d' ∧ C.fields d' = { C.fields d with minute := 0 } := by
  obtain ⟨hdate, hyear, hhour, -, hrest⟩ := C.valid d
  exact exists_of_checked (C.withMinute_fields d 0) ⟨hdate, hyear, hhour, (by decide : 0 < 60), hrest⟩

theorem withSecond_zero (C : Chrono δ) (d : δ) :
    ∃ d', ((C.withSecond d 0).bind fun d => C.withNanosecond d 0) = some d' ∧
      C.fields d' = { C.fields d with second := 0, nanosecond := 0 } := by
  obtain ⟨hdate, hyear, hhour, hminute, -, hnano⟩ := C.valid d
  obtain ⟨d₁, h₁, hfields₁⟩ := exists_of_checked (C.withSecond_fields d 0)
    ⟨hdate, hyear, hhour, hminute, (by decide : 0 < 60), hnano⟩
  obtain ⟨hdate, hyear, hhour, hminute, hsecond, -⟩ := C.valid d₁
  obtain ⟨d₂, h₂, hfields₂⟩ := exists_of_checked (C.withNanosecond_fields d₁ 0 (by omega))
    ⟨hdate, hyear, hhour, hminute, hsecond, (by omega : 0 < 1000000000)⟩
  rw [h₁, Option.bind_some]
  exact ⟨d₂, h₂, by rw [hfields₂, hfields₁]⟩

theorem midnight_spec (C : Chrono δ) (d : δ) :
    ∃ d', midnight C d = some d' ∧ C.fields d' = ⟨(C.fields d).date, 0, 0, 0, 0⟩ := by
  obtain ⟨d₁, h₁, hfields₁⟩ := withHour_zero C d
  obtain ⟨d₂, h₂, hfields₂⟩ := withMinute_zero C d₁
  obtain ⟨d₃, h₃, hfields₃⟩ := withSecond_zero C d₂
  unfold midnight
  rw [h₁, Option.bind_some, h₂, Option.bind_some]
  exact ⟨d₃, h₃, by rw [hfields₃, hfields₂, hfields₁]⟩

theorem timestampMillis_of_midnight {date : Date} (h : C.fields d = ⟨date, 0, 0, 0, 0⟩) :
    C.timestampMillis d = date.dayNumber * dayMillis := by
  unfold Chrono.timestampMillis
  rw [h]
  simp [Moment.timestampMillis]

def dateOf (ts : Int) : Date := ofDayNumber (ts / dayMillis)

theorem dayNumber_fields (hdt : C.timestampMillis dt = ts) : (C.fields dt).date.dayNumber = ts / dayMillis := by
  have hday := Moment.day_of_valid (C.valid dt)
  rw [show (C.fields dt).timestampMillis = ts from hdt] at hday
  unfold dayMillis at hday ⊢
  omega

theorem date_fields (hdt : C.timestampMillis dt = ts) : (C.fields dt).date = dateOf ts := by
  unfold dateOf
  rw [← dayNumber_fields hdt, ofDayNumber_dayNumber (C.valid dt).1]

/-- The Monday of the week, in milliseconds.  It may lie before the first day that there is. -/
def mondayOf (ts : Int) : Int := (ts / dayMillis - (ts / dayMillis + 3) % 7) * dayMillis

/-- What makes the alignment fail: the quarter on the last of May, and a week that begins before the calendar of
`chrono` does. -/
def Alignable (ts : Int) : CalendarUnit → Prop
  | .quarter => ¬ ((dateOf ts).month = 5 ∧ (dateOf ts).day = 31)
  | .week => minTimestamp ≤ mondayOf ts
  | _ => True

instance (ts : Int) : DecidablePred (Alignable ts)
  | .quarter => inferInstanceAs (Decidable (¬ _))
  | .week => inferInstanceAs (Decidable (_ ≤ _))
  | .minute | .hour | .day | .month | .year => .isTrue trivial

/-- The result is the boundary with the timestamp in its unit. -/
def AlignsTo (u : CalendarUnit) (ts : Int) (result : Except AnalyticsFault Int) : Prop :=
  ∃ n, result = .ok (boundary u n) ∧ boundary u n ≤ ts ∧ ts < boundary u (n + 1)

theorem aligns_minute (hdt : C.timestampMillis dt = ts) :
    AlignsTo .minute ts (aligned C "Minute" ((C.withSecond dt 0).bind fun d => C.withNanosecond d 0)) := by
  obtain ⟨d, hd, hfields⟩ := withSecond_zero C dt
  obtain ⟨-, -, -, -, hsecond, hnano⟩ := C.valid dt
  rw [hd]
  refine ⟨(C.fields dt).date.dayNumber * 1440 + (C.fields dt).hour * 60 + (C.fields dt).minute, ?_, ?_, ?_⟩
  · show Except.ok (C.fields d).timestampMillis = _
    rw [hfields]
    apply congrArg
    unfold Moment.timestampMillis boundary dayMillis
    dsimp only
    omega
  all_goals
    subst hdt
    unfold boundary Chrono.timestampMillis Moment.timestampMillis dayMillis
    dsimp only
    omega

theorem aligns_hour (hdt : C.timestampMillis dt = ts) : AlignsTo .hour ts (aligned C "Hour"
      ((C.withMinute dt 0).bind fun d => (C.withSecond d 0).bind fun d => C.withNanosecond d 0)) := by
  obtain ⟨d₁, h₁, hfields₁⟩ := withMinute_zero C dt
  obtain ⟨d₂, h₂, hfields₂⟩ := withSecond_zero C d₁
  obtain ⟨-, -, -, hminute, hsecond, hnano⟩ := C.valid dt
  rw [h₁, Option.bind_some, h₂]
  refine ⟨(C.fields dt).date.dayNumber * 24 + (C.fields dt).hour, ?_, ?_, ?_⟩
  · show Except.ok (C.fields d₂).timestampMillis = _
    rw [hfields₂, hfields₁]
    apply congrArg
    unfold Moment.timestampMillis boundary dayMillis
    dsimp only
    omega
  all_goals
    subst hdt
    unfold boundary Chrono.timestampMillis Moment.timestampMillis dayMillis
    dsimp only
    omega

variable {name : String} {k' : Int}

theorem aligns_midnight (date : Date) (n : Int) (hd : (C.fields d).date = date)
    (hn : date.dayNumber * dayMillis = boundary u n) (h : boundary u n ≤ ts) (h' : ts < boundary u (n + 1)) :
    AlignsTo u ts (aligned C name (midnight C d)) := by
  obtain ⟨d', hd', hfields⟩ := midnight_spec C d
  rw [hd] at hfields
  refine ⟨n, ?_, h, h'⟩
  rw [hd', ← hn, ← timestampMillis_of_midnight hfields]
  rfl

theorem aligns_day (hdt : C.timestampMillis dt = ts) : AlignsTo .day ts (aligned C "Day" (midnight C dt)) := by
  have hday := Moment.day_of_valid (C.valid dt)
  rw [show (C.fields dt).timestampMillis = ts from hdt] at hday
  exact aligns_midnight _ _ rfl rfl hday.1 hday.2

theorem fromTimestamp_monday (hdt : C.timestampMillis dt = ts) (hd : midnight C dt = some d) :
    (C.fromTimestamp (C.timestamp d - C.numDaysFromMonday dt * 86400)).map C.timestampMillis
      = if minTimestamp ≤ mondayOf ts then some (mondayOf ts) else none := by
  obtain ⟨d', hd', hfields⟩ := midnight_spec C dt
  rw [hd] at hd'
  cases hd'
  have hday := dayNumber_fields hdt
  have hseconds : (C.timestamp d - C.numDaysFromMonday dt * 86400) * 1000 = mondayOf ts := by
    unfold Chrono.timestamp Chrono.numDaysFromMonday mondayOf
    rw [timestampMillis_of_midnight hfields, hday]
    unfold dayMillis
    omega
  have hlast : mondayOf ts ≤ maxTimestamp := by
    have hin := (inRange_timestampMillis (C := C) dt).2
    rw [hdt] at hin
    unfold mondayOf dayMillis
    omega
  have hrange : InRange (mondayOf ts) ↔ minTimestamp ≤ mondayOf ts := and_iff_left hlast
  have hfrom := C.fromTimestamp_fields (C.timestamp d - C.numDaysFromMonday dt * 86400)
  rw [hseconds] at hfrom
  simp only [hrange] at hfrom
  exact hfrom

theorem aligns_monday (ts : Int) : AlignsTo .week ts (.ok (mondayOf ts)) := by
  refine ⟨(ts / dayMillis + 3) / 7, ?_, ?_, ?_⟩
  · show Except.ok (mondayOf ts) = .ok ((7 * ((ts / dayMillis + 3) / 7) - 3) * dayMillis)
    unfold mondayOf
    rw [show 7 * ((ts / dayMillis + 3) / 7) - 3 = ts / dayMillis - (ts / dayMillis + 3) % 7 by omega]
  all_goals
    unfold boundary dayMillis
    dsimp only
    omega

theorem withDay_one (C : Chrono δ) (d : δ) :
    ∃ d', C.withDay d 1 = some d' ∧ C.fields d' = (C.fields d).withDay 1 := by
  obtain ⟨hdate, hrest⟩ := C.valid d
  have hlength := monthLength_pos (y := (C.fields d).date.year) hdate.1.1 hdate.1.2
  exact exists_of_checked (C.withDay_fields d 1) ⟨⟨hdate.1, Nat.le_refl 1, hlength⟩, hrest⟩

variable {month : Nat} {k year : Int}

theorem exists_withMonth (h : 1 ≤ month) (h' : month ≤ 12)
    (hday : (C.fields d).date.day ≤ monthLength (C.fields d).date.year month) :
    ∃ d', C.withMonth d month = some d' ∧ C.fields d' = (C.fields d).withMonth month := by
  obtain ⟨hdate, hrest⟩ := C.valid d
  exact exists_of_checked (C.withMonth_fields d month) ⟨⟨⟨h, h'⟩, hdate.2.1, hday⟩, hrest⟩

theorem within_months (k k' : Int) (hdt : C.timestampMillis dt = ts) (hk : k ≤ (C.fields dt).date.monthIndex)
    (hk' : (C.fields dt).date.monthIndex + 1 ≤ k') :
    monthStart k * dayMillis ≤ ts ∧ ts < monthStart k' * dayMillis := by
  have hday := Moment.day_of_valid (C.valid dt)
  rw [show (C.fields dt).timestampMillis = ts from hdt] at hday
  have hmonth := monthStart_bounds (C.valid dt).1
  have hfirst := monthStart_strictMono.monotone hk
  have hnext := monthStart_strictMono.monotone hk'
  unfold dayMillis at hday ⊢
  omega

theorem aligns_month (hdt : C.timestampMillis dt = ts) :
    AlignsTo .month ts (aligned C "Month" ((C.withDay dt 1).bind (midnight C))) := by
  obtain ⟨d, hd, hfields⟩ := withDay_one C dt
  have hmonth := (C.valid dt).1.1
  have hwithin := within_months _ _ hdt (Int.le_refl _) (Int.le_refl _)
  rw [hd, Option.bind_some]
  apply aligns_midnight (firstOf (C.fields dt).date.monthIndex) (C.fields dt).date.monthIndex
  · rw [hfields]
    exact (firstOf_monthIndex hmonth.1 hmonth.2).symm
  · rfl
  · exact hwithin.1
  · exact hwithin.2

/-- Both the quarter and the year go to an earlier month first and to its first day then. -/
theorem aligns_earlier_month (h : 1 ≤ month) (h' : month ≤ 12)
    (hday : (C.fields dt).date.day ≤ monthLength (C.fields dt).date.year month)
    (hn : 12 * (C.fields dt).date.year + month - 1 = k) (hu : monthStart k * dayMillis = boundary u n)
    (hlow : boundary u n ≤ ts) (hhigh : ts < boundary u (n + 1)) :
    AlignsTo u ts (aligned C name ((C.withMonth dt month).bind fun d => (C.withDay d 1).bind (midnight C))) := by
  obtain ⟨d₁, h₁, hfields₁⟩ := exists_withMonth h h' hday
  obtain ⟨d₂, h₂, hfields₂⟩ := withDay_one C d₁
  rw [h₁, Option.bind_some, h₂, Option.bind_some]
  apply aligns_midnight (firstOf k) n
  · rw [hfields₂, hfields₁, ← hn]
    exact (firstOf_monthIndex h h').symm
  · exact hu
  · exact hlow
  · exact hhigh

theorem monthLength_quarterStart (h : 1 ≤ month) (h' : month ≤ 12) :
    monthLength year ((month - 1) / 3 * 3 + 1) = if (month - 1) / 3 = 1 then 30 else 31 := by
  interval_cases month
  all_goals rfl

theorem day_le_quarterStart {date : Date} (h : date.Valid) :
    date.day ≤ monthLength date.year ((date.month - 1) / 3 * 3 + 1) ↔ ¬ (date.month = 5 ∧ date.day = 31) := by
  rcases h with ⟨hmonth, hone, hday⟩
  have hle := monthLength_le date.year date.month
  rw [monthLength_quarterStart hmonth.1 hmonth.2]
  by_cases hsecond : (date.month - 1) / 3 = 1
  · rw [if_pos hsecond]
    by_cases hmay : date.month = 5
    · omega
    · -- April and June have thirty days themselves
      have hthirty : monthLength date.year date.month = 30 := by
        have hapril : date.month = 4 ∨ date.month = 6 := by omega
        rcases hapril with hapril' | hjune
        · rw [hapril']
          rfl
        · rw [hjune]
          rfl
      omega
  · rw [if_neg hsecond]
    omega

theorem aligns_quarter (hdt : C.timestampMillis dt = ts) (halign : Alignable ts .quarter) :
    AlignsTo .quarter ts (aligned C "Quarter" ((C.withMonth dt ((C.month dt - 1) / 3 * 3 + 1)).bind fun d =>
      (C.withDay d 1).bind (midnight C))) := by
  have hvalid := (C.valid dt).1
  have hmonth := hvalid.1
  unfold Alignable at halign
  dsimp only at halign
  rw [← date_fields hdt] at halign
  unfold Chrono.month
  have hindex : (C.fields dt).date.monthIndex = 12 * (C.fields dt).date.year + (C.fields dt).date.month - 1 := rfl
  have hwithin := within_months (3 * ((C.fields dt).date.monthIndex / 3)) (3 * ((C.fields dt).date.monthIndex / 3 + 1))
    hdt (by omega) (by omega)
  have hstart : (12 * (C.fields dt).date.year + (((C.fields dt).date.month - 1) / 3 * 3 + 1 : Nat) - 1 : Int)
      = 3 * ((C.fields dt).date.monthIndex / 3) := by omega
  exact aligns_earlier_month (n := (C.fields dt).date.monthIndex / 3) (by omega) (by omega)
    ((day_le_quarterStart hvalid).mpr halign) hstart rfl hwithin.1 hwithin.2

theorem aligns_year (hdt : C.timestampMillis dt = ts) :
    AlignsTo .year ts (aligned C "Year" ((C.withMonth dt 1).bind fun d => (C.withDay d 1).bind (midnight C))) := by
  have hmonth := (C.valid dt).1.1
  have hindex : (C.fields dt).date.monthIndex = 12 * (C.fields dt).date.year + (C.fields dt).date.month - 1 := rfl
  have hwithin := within_months (12 * (C.fields dt).date.year) (12 * ((C.fields dt).date.year + 1)) hdt (by omega)
    (by omega)
  have hday : (C.fields dt).date.day ≤ monthLength (C.fields dt).date.year 1 :=
    le_trans (C.valid dt).1.2.2 (monthLength_le _ _)
  exact aligns_earlier_month (n := (C.fields dt).date.year) (Nat.le_refl 1) (by omega) hday (by omega) rfl
    hwithin.1 hwithin.2

theorem align_spec (tz : String) (hin : InRange ts) (halign : Alignable ts u) :
    AlignsTo u ts (alignToCalendar C ts u tz) := by
  obtain ⟨dt, hfrom, hdt⟩ := exists_fromTimestampMillis (C := C) hin
  unfold alignToCalendar
  rw [hfrom]
  cases u with
  | minute => exact aligns_minute hdt
  | hour => exact aligns_hour hdt
  | day => exact aligns_day hdt
  | week =>
    obtain ⟨d, hd, -⟩ := midnight_spec C dt
    have hmonday := fromTimestamp_monday hdt hd
    rw [if_pos (show minTimestamp ≤ mondayOf ts from halign)] at hmonday
    obtain ⟨d', hd', hmillis⟩ := Option.map_eq_some_iff.mp hmonday
    simp only [hd, hd', hmillis]
    exact aligns_monday ts
  | month => exact aligns_month hdt
  | quarter => exact aligns_quarter hdt halign
  | year => exact aligns_year hdt

theorem align_not_ok (tz : String) (halign : ¬ Alignable ts u) (r : Int) :
    alignToCalendar C ts u tz ≠ .ok r := by
  intro hok
  unfold alignToCalendar at hok
  cases hfrom : C.fromTimestampMillis ts with
  | none =>
    rw [hfrom] at hok
    cases hok
  | some dt =>
    have hdt := (of_fromTimestampMillis hfrom).2
    rw [hfrom] at hok
    cases u with
    | quarter =>
      have hlast : ¬ ((C.fields dt).withMonth ((C.month dt - 1) / 3 * 3 + 1)).Valid := by
        intro hvalid
        apply halign
        unfold Alignable
        dsimp only
        rw [← date_fields hdt]
        exact (day_le_quarterStart (C.valid dt).1).mp hvalid.1.2.2
      have hnone := eq_none_of_checked (C.withMonth_fields dt _) hlast
      simp only [hnone, Option.bind_none] at hok
      cases hok
    | week =>
      obtain ⟨d, hd, -⟩ := midnight_spec C dt
      have hmonday := fromTimestamp_monday hdt hd
      rw [if_neg (show ¬ minTimestamp ≤ mondayOf ts from halign)] at hmonday
      simp only [hd, Option.map_eq_none_iff.mp hmonday] at hok
      cases hok
    | _ => exact halign trivial

theorem aligned_inRange {r : Int} (h : aligned C name x = .ok r) : InRange r := by
  cases x with
  | none => cases h
  | some d =>
    cases h
    exact inRange_timestampMillis d

theorem of_align_ok {tz : String} {r : Int} (h : alignToCalendar C ts u tz = .ok r) :
    InRange ts ∧ Alignable ts u ∧ InRange r ∧ ∃ n, r = boundary u n ∧ boundary u n ≤ ts ∧ ts < boundary u (n + 1) := by
  have halign : Alignable ts u := by
    by_contra hnot
    exact align_not_ok tz hnot r h
  cases hfrom : C.fromTimestampMillis ts with
  | none =>
    unfold alignToCalendar at h
    rw [hfrom] at h
    cases h
  | some dt =>
    have hin := (of_fromTimestampMillis hfrom).1
    obtain ⟨n, hn, hlow, hhigh⟩ := align_spec (C := C) tz hin halign
    rw [h] at hn
    refine ⟨hin, halign, ?_, n, Except.ok.inj hn, hlow, hhigh⟩
    unfold alignToCalendar at h
    rw [hfrom] at h
    cases u with
    | week =>
      obtain ⟨d, hd, -⟩ := midnight_spec C dt
      simp only [hd] at h
      split at h
      · cases h
      next d' _ =>
        cases h
        exact inRange_timestampMillis d'
    | _ => exact aligned_inRange h

/-- The alignment succeeds with the greatest boundary that is not behind the timestamp; aligned once more this
stays, and no earlier timestamp has a later one. -/
def Floors (C : Chrono δ) (tz : String) (u : CalendarUnit) (ts : Int) : Prop :=
  ∃ r, alignToCalendar C ts u tz = .ok r ∧ IsGreatest (boundariesUpTo u ts) r ∧ alignToCalendar C r u tz = .ok r ∧
    ∀ ts' r', alignToCalendar C ts' u tz = .ok r' → (ts ≤ ts' → r ≤ r') ∧ (ts' ≤ ts → r' ≤ r)

theorem dateOf_monthStart (k : Int) : dateOf (monthStart k * dayMillis) = firstOf k := by
  unfold dateOf
  rw [Int.mul_ediv_cancel _ (by decide)]
  exact ofDayNumber_dayNumber (firstOf_valid k)

theorem alignable_boundary (hin : InRange (boundary u n)) : Alignable (boundary u n) u := by
  cases u with
  | quarter =>
    show ¬ ((dateOf (monthStart (3 * n) * dayMillis)).month = 5 ∧ _)
    rw [dateOf_monthStart]
    show ¬ ((3 * n % 12).toNat + 1 = 5 ∧ _)
    omega
  | week =>
    have hsame : mondayOf (boundary .week n) = boundary .week n := by
      unfold mondayOf boundary dayMillis
      dsimp only
      omega
    show minTimestamp ≤ mondayOf (boundary .week n)
    rw [hsame]
    exact hin.1
  | _ => exact trivial

theorem floors_iff (tz : String) (hin : InRange ts) : Floors C tz u ts ↔ Alignable ts u := by
  constructor
  · rintro ⟨r, hr, -⟩
    exact (of_align_ok hr).2.1
  · intro halign
    obtain ⟨n, hn, hlow, hhigh⟩ := align_spec (C := C) tz hin halign
    have hgreatest := isGreatest_boundary hlow hhigh
    have hresult := (of_align_ok hn).2.2.1
    obtain ⟨k, hk, hklow, hkhigh⟩ := align_spec (C := C) tz hresult (alignable_boundary hresult)
    have hself := (isGreatest_boundary hklow hkhigh).2 ⟨⟨n, rfl⟩, Set.mem_Iic.mpr (le_refl _)⟩
    rw [le_antisymm hklow hself] at hk
    refine ⟨boundary u n, hn, hgreatest, hk, ?_⟩
    intro ts' r' hr'
    obtain ⟨-, -, -, n', hn', hlow', hhigh'⟩ := of_align_ok hr'
    rw [hn']
    have hgreatest' := isGreatest_boundary hlow' hhigh'
    constructor
    · exact fun hle => hgreatest'.2 ⟨⟨n, rfl⟩, le_trans hlow hle⟩
    · exact fun hle => hgreatest.2 ⟨⟨n', rfl⟩, le_trans hlow' hle⟩

/-- The number of units that a step goes on by. -/
def converted : CalendarUnit → UInt64 → Int
  | .minute | .hour | .day | .week => asI64
  | .month | .quarter | .year => asI32

/-- A step from `b` that is to lead to `b'`: it leads there or nowhere, and forward it does lead there. -/
structure StepsTo (b b' c : Int) (result : Except AnalyticsFault Int) : Prop where
  values : ∀ next, result = .ok next → InRange next ∧ (next = b ∨ next = b')
  forward : 0 < c → InRange b' → result = .ok b'

theorem inRange_bounds (h : InRange ts) : -8334601228800000 ≤ ts ∧ ts ≤ 8210266876799999 := h

theorem addUnits_spec {unitMillis c : Int} (hdt : C.timestampMillis dt = ts) :
    addUnits C dt unitMillis c
      = if InRange (ts + c * unitMillis) then .ok (ts + c * unitMillis) else .error .panic := by
  have hin := inRange_bounds (inRange_timestampMillis (C := C) dt)
  have hadd := C.add_fields dt (c * unitMillis)
  rw [show (C.fields dt).timestampMillis = ts from hdt] at hadd
  rw [hdt] at hin
  unfold addUnits
  by_cases hrange : InRange (ts + c * unitMillis)
  · have hbounds := inRange_bounds hrange
    rw [if_pos hrange] at hadd ⊢
    obtain ⟨d, hd, hmillis⟩ := Option.map_eq_some_iff.mp hadd
    rw [if_neg (by omega), hd]
    exact congrArg Except.ok hmillis
  · rw [if_neg hrange] at hadd ⊢
    rw [Option.map_eq_none_iff.mp hadd]
    exact ite_self _

theorem stepsTo_addUnits {unitMillis c b' : Int} (hdt : C.timestampMillis dt = ts) (hb' : ts + c * unitMillis = b') :
    StepsTo ts b' c (addUnits C dt unitMillis c) := by
  rw [addUnits_spec hdt, hb']
  constructor
  · intro next hnext
    by_cases hin : InRange b'
    · rw [if_pos hin] at hnext
      cases hnext
      exact ⟨hin, .inr rfl⟩
    · rw [if_neg hin] at hnext
      cases hnext
  · exact fun _ hin => if_pos hin

theorem timestampMillis_withMonth_withYear (hdate : (C.fields dt).date = firstOf k)
    (hdt : C.timestampMillis dt = monthStart k * dayMillis)
    (hd : C.fields d = ((C.fields dt).withMonth month).withYear year) (hmonth : 1 ≤ month ∧ month ≤ 12)
    (hk' : 12 * year + month - 1 = k') : C.timestampMillis d = monthStart k' * dayMillis := by
  have hdate' : (C.fields d).date = firstOf k' := by
    rw [hd, ← hk', firstOf_monthIndex hmonth.1 hmonth.2]
    show (⟨year, month, (C.fields dt).date.day⟩ : Date) = _
    rw [hdate]
    rfl
  have htime : C.timestampMillis d - (C.fields d).date.dayNumber * dayMillis
      = C.timestampMillis dt - (C.fields dt).date.dayNumber * dayMillis := by
    unfold Chrono.timestampMillis Moment.timestampMillis
    rw [show (C.fields d).hour = (C.fields dt).hour by rw [hd]; rfl,
      show (C.fields d).minute = (C.fields dt).minute by rw [hd]; rfl,
      show (C.fields d).second = (C.fields dt).second by rw [hd]; rfl,
      show (C.fields d).nanosecond = (C.fields dt).nanosecond by rw [hd]; rfl]
    omega
  rw [hdate', hdate, hdt] at htime
  change _ - monthStart k' * dayMillis = _ - monthStart k * dayMillis at htime
  omega

theorem of_checked (hx : (some d).map C.fields = m.checked) : C.fields d = m := by
  unfold Moment.checked at hx
  split at hx
  · exact Option.some.inj hx
  · cases hx

theorem date_of_monthStart (hdt : C.timestampMillis dt = monthStart k * dayMillis) :
    (C.fields dt).date = firstOf k := (date_fields hdt).trans (dateOf_monthStart k)

theorem year_of_inRange (h : InRange (monthStart k * dayMillis)) : minYear ≤ k / 12 ∧ k / 12 ≤ maxYear := by
  have hrange := h
  unfold InRange minTimestamp maxTimestamp dayMillis at hrange
  apply year_of_days (firstOf_valid k)
  · show yearStart minYear ≤ monthStart k
    omega
  · show monthStart k < yearStart (maxYear + 1)
    omega

theorem exists_withYear (hdate : (C.fields d).date = ⟨k, month, 1⟩)
    (hmonth : 1 ≤ month ∧ month ≤ 12) (hyear : minYear ≤ year ∧ year ≤ maxYear) :
    ∃ d', C.withYear d year = some d' ∧ C.fields d' = (C.fields d).withYear year := by
  obtain ⟨-, -, htime⟩ := C.valid d
  apply exists_of_checked (C.withYear_fields d year)
  refine ⟨?_, hyear, htime⟩
  show (⟨year, (C.fields d).date.month, (C.fields d).date.day⟩ : Date).Valid
  rw [hdate]
  exact ⟨hmonth, Nat.le_refl 1, monthLength_pos hmonth.1 hmonth.2⟩

theorem setMonthAndYear_values {month : Int} (hdt : C.timestampMillis dt = monthStart k * dayMillis)
    (hlow : -12 ≤ month) (hhigh : month ≤ 12) (hk' : 12 * year + month - 1 = k') :
    setMonthAndYear C dt month year = monthStart k * dayMillis ∨
      setMonthAndYear C dt month year = monthStart k' * dayMillis := by
  unfold setMonthAndYear
  cases hmonth : C.withMonth dt (asU32 month) with
  | none => exact .inl hdt
  | some d₁ =>
    rw [Option.bind_some]
    cases hyear : C.withYear d₁ year with
    | none => exact .inl hdt
    | some d₂ =>
      right
      have hfields₁ := of_checked (hmonth ▸ C.withMonth_fields dt (asU32 month))
      have hfields₂ := of_checked (hyear ▸ C.withYear_fields d₁ year)
      have hvalid : 1 ≤ asU32 month ∧ asU32 month ≤ 12 := by
        have hdate := (C.valid d₁).1.1
        rw [hfields₁] at hdate
        exact hdate
      -- a month below one would be a huge number
      have hsame : (asU32 month : Int) = month := by
        unfold asU32 at hvalid ⊢
        omega
      rw [hfields₁] at hfields₂
      exact timestampMillis_withMonth_withYear (date_of_monthStart hdt) hdt hfields₂ hvalid (by rw [hsame]; exact hk')

theorem setMonthAndYear_forward {month : Int} (hdt : C.timestampMillis dt = monthStart k * dayMillis)
    (hlow : 1 ≤ month) (hhigh : month ≤ 12) (hk' : 12 * year + month - 1 = k')
    (hin : InRange (monthStart k' * dayMillis)) :
    setMonthAndYear C dt month year = monthStart k' * dayMillis := by
  have hyear := year_of_inRange hin
  rw [← hk', show (12 * year + month - 1) / 12 = year by omega] at hyear
  have hdate := date_of_monthStart hdt
  have hsame : (asU32 month : Int) = month := by
    unfold asU32
    omega
  have hmonth : 1 ≤ asU32 month ∧ asU32 month ≤ 12 := by omega
  obtain ⟨d₁, h₁, hfields₁⟩ := exists_withMonth (d := dt) hmonth.1 hmonth.2
    (by rw [hdate]; exact monthLength_pos hmonth.1 hmonth.2)
  have hdate₁ : (C.fields d₁).date = ⟨k / 12, asU32 month, 1⟩ := by
    rw [hfields₁]
    show (⟨(C.fields dt).date.year, asU32 month, (C.fields dt).date.day⟩ : Date) = _
    rw [hdate]
    rfl
  obtain ⟨d₂, h₂, hfields₂⟩ := exists_withYear hdate₁ hmonth hyear
  unfold setMonthAndYear
  rw [h₁, Option.bind_some, h₂, Option.getD_some]
  rw [hfields₁] at hfields₂
  exact timestampMillis_withMonth_withYear hdate hdt hfields₂ hmonth (by rw [hsame]; exact hk')

theorem i32_of_fits {a : Int} (h : -2 ^ 31 ≤ a ∧ a < 2 ^ 31) : i32 a = .ok a := if_pos h

theorem eq_of_i32_ok {a b : Int} (h : i32 a = .ok b) : b = a := by
  unfold i32 at h
  split at h
  · exact (Except.ok.inj h).symm
  · cases h

/-- Months and quarters are counted from the first of the year, by a division towards zero. -/
theorem tmod_facts (total : Int) {size : Int} (hsize : 0 < size) :
    size * total.tdiv size + total.tmod size = total ∧ -size < total.tmod size ∧ total.tmod size < size ∧
      (0 ≤ total → 0 ≤ total.tmod size) :=
  ⟨Int.mul_tdiv_add_tmod total size, Int.lt_tmod_of_pos total hsize, Int.tmod_lt_of_pos total hsize,
    Int.tmod_nonneg size⟩

variable {count : UInt64} {c : Int}

theorem stepsTo_month (hdt : C.timestampMillis dt = monthStart n * dayMillis) :
    StepsTo (monthStart n * dayMillis) (monthStart (n + c) * dayMillis) c (do
      let sum ← i32 (C.month dt + c)
      let totalMonths ← i32 (sum - 1)
      let year ← i32 (C.year dt + totalMonths.tdiv 12)
      .ok (setMonthAndYear C dt (totalMonths.tmod 12 + 1) year)) := by
  have hdate := date_of_monthStart hdt
  have hmonth : (C.month dt : Int) = n % 12 + 1 := by
    unfold Chrono.month
    rw [hdate]
    show (((n % 12).toNat + 1 : Nat) : Int) = _
    omega
  have hyear : C.year dt = n / 12 := by
    unfold Chrono.year
    rw [hdate]
    rfl
  obtain ⟨hsplit, hlow, hhigh, hpos⟩ := tmod_facts (C.month dt + c - 1) (show (0 : Int) < 12 by decide)
  have hk' : 12 * (C.year dt + (C.month dt + c - 1).tdiv 12) + ((C.month dt + c - 1).tmod 12 + 1) - 1 = n + c := by
    omega
  constructor
  · intro next hnext
    obtain ⟨sum, hsum, hnext⟩ := Except.bind_eq_ok_iff.mp hnext
    obtain ⟨total, htotal, hnext⟩ := Except.bind_eq_ok_iff.mp hnext
    obtain ⟨year, hyear', hnext⟩ := Except.bind_eq_ok_iff.mp hnext
    cases eq_of_i32_ok hsum
    cases eq_of_i32_ok htotal
    cases eq_of_i32_ok hyear'
    cases hnext
    exact ⟨inRange_timestampMillis _, setMonthAndYear_values hdt (by omega) (by omega) hk'⟩
  · intro hc hin
    have hhere := year_of_inRange (hdt ▸ inRange_timestampMillis (C := C) dt)
    have hthere := year_of_inRange hin
    unfold minYear maxYear at hhere hthere
    rw [i32_of_fits (by omega), Except.ok_bind, i32_of_fits (by omega), Except.ok_bind, i32_of_fits (by omega),
      Except.ok_bind, setMonthAndYear_forward hdt (by omega) (by omega) hk' hin]

theorem stepsTo_quarter (hdt : C.timestampMillis dt = monthStart (3 * n) * dayMillis) :
    StepsTo (monthStart (3 * n) * dayMillis) (monthStart (3 * (n + c)) * dayMillis) c (do
      let totalQuarters ← i32 (((C.month dt - 1) / 3 : Nat) + c)
      let year ← i32 (C.year dt + totalQuarters.tdiv 4)
      .ok (setMonthAndYear C dt (totalQuarters.tmod 4 * 3 + 1) year)) := by
  have hdate := date_of_monthStart hdt
  have hquarter : (((C.month dt - 1) / 3 : Nat) : Int) = n % 4 := by
    unfold Chrono.month
    rw [hdate]
    show ((((3 * n % 12).toNat + 1 - 1) / 3 : Nat) : Int) = _
    omega
  have hyear : C.year dt = 3 * n / 12 := by
    unfold Chrono.year
    rw [hdate]
    rfl
  rw [hquarter]
  obtain ⟨hsplit, hlow, hhigh, hpos⟩ := tmod_facts (n % 4 + c) (show (0 : Int) < 4 by decide)
  have hk' : 12 * (C.year dt + (n % 4 + c).tdiv 4) + ((n % 4 + c).tmod 4 * 3 + 1) - 1 = 3 * (n + c) := by
    omega
  constructor
  · intro next hnext
    obtain ⟨total, htotal, hnext⟩ := Except.bind_eq_ok_iff.mp hnext
    obtain ⟨year, hyear', hnext⟩ := Except.bind_eq_ok_iff.mp hnext
    cases eq_of_i32_ok htotal
    cases eq_of_i32_ok hyear'
    cases hnext
    exact ⟨inRange_timestampMillis _, setMonthAndYear_values hdt (by omega) (by omega) hk'⟩
  · intro hc hin
    have hhere := year_of_inRange (hdt ▸ inRange_timestampMillis (C := C) dt)
    have hthere := year_of_inRange hin
    unfold minYear maxYear at hhere hthere
    rw [i32_of_fits (by omega), Except.ok_bind, i32_of_fits (by omega), Except.ok_bind,
      setMonthAndYear_forward hdt (by omega) (by omega) hk' hin]

theorem stepsTo_year (hdt : C.timestampMillis dt = monthStart (12 * n) * dayMillis) :
    StepsTo (monthStart (12 * n) * dayMillis) (monthStart (12 * (n + c)) * dayMillis) c (do
      let year ← i32 (C.year dt + c)
      .ok (C.timestampMillis ((C.withYear dt year).getD dt))) := by
  have hdate := date_of_monthStart hdt
  have hfirst : firstOf (12 * n) = ⟨n, 1, 1⟩ := by
    unfold firstOf
    rw [show 12 * n / 12 = n by omega, show (12 * n % 12).toNat = 0 by omega]
  have hyear : C.year dt = n := by
    unfold Chrono.year
    rw [hdate, hfirst]
  have hjanuary : (C.fields dt).withMonth 1 = C.fields dt := by
    have hmonth : (C.fields dt).date.month = 1 := by rw [hdate, hfirst]
    calc
      (C.fields dt).withMonth 1 = (C.fields dt).withMonth (C.fields dt).date.month := by rw [hmonth]
      _ = C.fields dt := rfl
  rw [hyear]
  have hk' : 12 * (n + c) + (1 : Nat) - 1 = 12 * (n + c) := by omega
  constructor
  · intro next hnext
    obtain ⟨year, hyear', hnext⟩ := Except.bind_eq_ok_iff.mp hnext
    cases eq_of_i32_ok hyear'
    cases hnext
    refine ⟨inRange_timestampMillis _, ?_⟩
    cases hd : C.withYear dt (n + c) with
    | none => exact .inl hdt
    | some d =>
      have hfields := of_checked (hd ▸ C.withYear_fields dt (n + c))
      rw [← hjanuary] at hfields
      exact .inr (timestampMillis_withMonth_withYear hdate hdt hfields ⟨Nat.le_refl 1, by decide⟩ hk')
  · intro hc hin
    have hhere := year_of_inRange (hdt ▸ inRange_timestampMillis (C := C) dt)
    have hthere := year_of_inRange hin
    have hrange : minYear ≤ n + c ∧ n + c ≤ maxYear := by omega
    obtain ⟨d, hd, hfields⟩ := exists_withYear (hdate.trans hfirst) ⟨Nat.le_refl 1, by decide⟩ hrange
    rw [← hjanuary] at hfields
    unfold minYear maxYear at hhere hthere
    rw [i32_of_fits (by omega), Except.ok_bind, hd, Option.getD_some,
      timestampMillis_withMonth_withYear hdate hdt hfields ⟨Nat.le_refl 1, by decide⟩ hk']

theorem advance_spec (n : Int) (count : UInt64) (hin : InRange (boundary u n)) :
    StepsTo (boundary u n) (boundary u (n + converted u count)) (converted u count)
      (advanceCalendar C (boundary u n) u count) := by
  obtain ⟨dt, hfrom, hdt⟩ := exists_fromTimestampMillis (C := C) hin
  unfold advanceCalendar
  rw [hfrom, Option.getD_some]
  cases u with
  | month => exact stepsTo_month hdt
  | quarter => exact stepsTo_quarter hdt
  | year => exact stepsTo_year hdt
  | _ =>
    apply stepsTo_addUnits hdt
    unfold boundary converted dayMillis
    dsimp only
    omega

/-- Counted on from the boundary before the start, a boundary that `chrono` can represent reaches the end. -/
def Reaches (start stop : Int) (u : CalendarUnit) (count : UInt64) : Prop :=
  0 < converted u count ∧ ∃ (n : Int) (k : Nat), boundary u n ≤ start ∧ start < boundary u (n + 1) ∧
    stop ≤ boundary u (n + k * converted u count) ∧ boundary u (n + k * converted u count) ≤ maxTimestamp

/-- The loop ends, and its windows cover what lies between the boundary before the start and the end. -/
def WindowsCover (C : Chrono δ) (start stop : Int) (config : CalendarWindow) : Prop :=
  ∃ turns windows first, generateCalendarWindows C turns start stop config = some (.ok windows) ∧
    IsGreatest (boundariesUpTo config.unit start) first ∧ Tiles TimeWindow.start TimeWindow.stop first windows stop

variable {stop : Int}

theorem calendarFrom_reaches (hc : 0 < converted u count) {k : Nat} (hin : InRange (boundary u n))
    (hlt : boundary u n < stop) (hstop : stop ≤ boundary u (n + k * converted u count))
    (hmax : boundary u (n + k * converted u count) ≤ maxTimestamp) :
    ∃ turns windows, calendarFrom C stop u count turns (boundary u n) = some (.ok windows) ∧
      Tiles TimeWindow.start TimeWindow.stop (boundary u n) windows stop := by
  induction k generalizing n with
  | zero =>
    rw [show n + ((0 : Nat) : Int) * converted u count = n by simp] at hstop
    omega
  | succ k ih =>
    rw [show n + ((k + 1 : Nat) : Int) * converted u count = n + converted u count + k * converted u count by
      rw [Int.natCast_add, Int.add_mul]; omega] at hstop hmax
    have hmono := (boundary_strictMono u).monotone
    have hnext := boundary_strictMono u (show n < n + converted u count by omega)
    have hnextmax := hmono (show n + converted u count ≤ n + converted u count + k * converted u count from
      Int.le_add_of_nonneg_right (Int.mul_nonneg (Int.natCast_nonneg k) (Int.le_of_lt hc)))
    have hinnext : InRange (boundary u (n + converted u count)) := ⟨by have := hin.1; omega, by omega⟩
    have hadvance := (advance_spec (C := C) n count hin).forward hc hinnext
    have hmin : boundary u n < min (boundary u (n + converted u count)) stop := lt_min hnext hlt
    by_cases hlast : stop ≤ boundary u (n + converted u count)
    · refine ⟨1, [⟨_, _, _, hmin, rfl⟩], ?_, rfl, hmin, min_eq_right hlast⟩
      unfold calendarFrom
      simp only [if_pos hlt, hadvance, TimeWindow.new_of_lt hmin, ge_iff_le, if_pos hlast]
      rfl
    · obtain ⟨turns, windows, hrun, htiles⟩ := ih hinnext (Int.not_le.mp hlast) hstop hmax
      refine ⟨turns + 1, ⟨_, _, _, hmin, rfl⟩ :: windows, ?_, rfl, hmin, ?_⟩
      · unfold calendarFrom
        simp only [if_pos hlt, hadvance, TimeWindow.new_of_lt hmin, ge_iff_le, if_neg hlast, hrun]
        rfl
      · show Tiles _ _ (min (boundary u (n + converted u count)) stop) windows stop
        rw [min_eq_left (Int.le_of_lt (Int.not_le.mp hlast))]
        exact htiles

/-- The loop goes back, or stays, or would leave the range before the end: it does not get there. -/
theorem calendarFrom_never (hnot : 0 < converted u count → ∀ k : Nat, boundary u (n + k * converted u count) ≤ maxTimestamp →
      boundary u (n + k * converted u count) < stop) (turns j : Nat)
    (hin : InRange (boundary u (n + j * converted u count))) (hlt : boundary u (n + j * converted u count) < stop)
    (windows : List TimeWindow) :
    calendarFrom C stop u count turns (boundary u (n + j * converted u count)) ≠ some (.ok windows) := by
  induction turns generalizing j windows with
  | zero => exact fun h => nomatch h
  | succ turns ih =>
    intro hrun
    unfold calendarFrom at hrun
    rw [if_pos hlt] at hrun
    cases hadvance : advanceCalendar C (boundary u (n + j * converted u count)) u count with
    | error e =>
      rw [hadvance] at hrun
      cases hrun
    | ok next =>
      have hvalues := (advance_spec (C := C) (n + j * converted u count) count hin).values next hadvance
      have hsucc : n + j * converted u count + converted u count = n + (j + 1 : Nat) * converted u count := by
        rw [Int.natCast_add, Int.add_mul]
        omega
      -- the next start is a boundary of the same kind, and before the end
      have hnext : ∃ j' : Nat, next = boundary u (n + j' * converted u count) ∧ next < stop := by
        rcases hvalues.2 with hsame | hforward
        · exact ⟨j, hsame, hsame ▸ hlt⟩
        · rw [hsucc] at hforward
          refine ⟨j + 1, hforward, ?_⟩
          by_cases hc : 0 < converted u count
          · have hmax := hvalues.1.2
            rw [hforward] at hmax ⊢
            exact hnot hc (j + 1) hmax
          · have hback : n + (j + 1 : Nat) * converted u count ≤ n + j * converted u count := by omega
            have hle := (boundary_strictMono u).monotone hback
            omega
      obtain ⟨j', hj', hbefore⟩ := hnext
      rw [hadvance] at hrun
      simp only [ge_iff_le, if_neg (Int.not_le.mpr hbefore)] at hrun
      obtain ⟨rest, hrest, hmap⟩ := Option.map_eq_some_iff.mp hrun
      cases rest with
      | error e => cases hmap
      | ok rest =>
        rw [hj'] at hrest
        exact ih j' (hj' ▸ hvalues.1) (hj' ▸ hbefore) rest hrest

theorem windowsCover_iff {config : CalendarWindow} {start : Int} (hin : InRange start) (hlt : start < stop) :
    WindowsCover C start stop config ↔
      Alignable start config.unit ∧ Reaches start stop config.unit config.count := by
  constructor
  · rintro ⟨turns, windows, first, hrun, hfirst, htiles⟩
    unfold generateCalendarWindows at hrun
    cases hresult : alignToCalendar C start config.unit config.timezone with
    | error e =>
      rw [hresult] at hrun
      cases e with
      | err e =>
        cases hrun
        -- no window covers nothing, and the start is before the end
        have hle := hfirst.1.2
        cases htiles
        exact absurd (lt_of_lt_of_le hlt hle) (lt_irrefl start)
      | panic => cases hrun
    | ok r =>
      obtain ⟨-, halign, hr, n, hn, hlow, hhigh⟩ := of_align_ok hresult
      refine ⟨halign, ?_⟩
      rw [hresult] at hrun
      by_contra hnot
      have hbase : n + ((0 : Nat) : Int) * converted config.unit config.count = n := by simp
      have hbefore : 0 < converted config.unit config.count → ∀ k : Nat,
          boundary config.unit (n + k * converted config.unit config.count) ≤ maxTimestamp →
          boundary config.unit (n + k * converted config.unit config.count) < stop := by
        intro hc k hmax
        by_contra hstop
        exact hnot ⟨hc, n, k, hlow, hhigh, Int.not_lt.mp hstop, hmax⟩
      apply calendarFrom_never hbefore turns 0 (by rw [hbase, ← hn]; exact hr) (by rw [hbase]; omega) windows
      rw [hbase, ← hn]
      exact hrun
  · rintro ⟨halign, hc, n, k, hlow, hhigh, hstop, hmax⟩
    obtain ⟨n', hn', hlow', hhigh'⟩ := align_spec (C := C) config.timezone hin halign
    have hgreatest := isGreatest_boundary hlow hhigh
    have heq := hgreatest.unique (isGreatest_boundary hlow' hhigh')
    rw [← heq] at hn'
    obtain ⟨turns, windows, hrun, htiles⟩ := calendarFrom_reaches (C := C) hc (of_align_ok hn').2.2.1
      (lt_of_le_of_lt hlow hlt) hstop hmax
    refine ⟨turns, windows, boundary config.unit n, ?_, hgreatest, htiles⟩
    unfold generateCalendarWindows
    rw [hn']
    exact hrun

/-- The calendar does what it is for: exactly on which timestamps, and on which stretches. -/
theorem calendar_alignment_iff (C : Chrono δ) :
    (∀ (ts : Int) (u : CalendarUnit) (tz : String), InRange ts → (Floors C tz u ts ↔ Alignable ts u)) ∧
    (∀ (start stop : Int) (config : CalendarWindow), InRange start → start < stop →
      (WindowsCover C start stop config ↔
        Alignable start config.unit ∧ Reaches start stop config.unit config.count)) := by
  constructor
  · exact fun ts u tz hin => floors_iff tz hin
  · exact fun start stop config hin hlt => windowsCover_iff hin hlt

/-- The first of March of 2021 and 35 seconds, and the months from the middle of that March to July. -/
theorem calendar_alignment_march : Floors DateTime.chrono "UTC" .minute 1614556835000 ∧
    WindowsCover DateTime.chrono 1615766400000 1625097600000 ⟨.month, 1, "UTC"⟩ := by
  have h := calendar_alignment_iff DateTime.chrono
  constructor
  · exact (h.1 1614556835000 .minute "UTC" (by decide)).mpr trivial
  · apply (h.2 1615766400000 1625097600000 ⟨.month, 1, "UTC"⟩ (by decide) (by decide)).mpr
    refine ⟨trivial, by decide, 24254, 4, ?_⟩
    decide +kernel

/-- The last of May of 2021 has no quarter, and a year that is counted as `-1` never reaches the end. -/
theorem calendar_alignment_fails :
    alignToCalendar DateTime.chrono 1622419200000 .quarter "UTC" = .error (.err (.invalidCalendarUnit "Quarter")) ∧
    ¬ Floors DateTime.chrono "UTC" .quarter 1622419200000 ∧
    ¬ WindowsCover DateTime.chrono 1609459200000 1640995200000 ⟨.year, 4294967295, "UTC"⟩ := by
  refine ⟨by rfl, ?_, ?_⟩
  · rw [floors_iff "UTC" (by decide)]
    decide +kernel
  · rw [windowsCover_iff (by decide) (by decide)]
    rintro ⟨-, hc, -⟩
    exact absurd hc (by decide)

end Northstar.Analytics
