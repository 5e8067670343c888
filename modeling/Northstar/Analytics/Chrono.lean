import Northstar.Lib.Gregorian
import Mathlib.Data.Option.Basic

/-!
# Chrono — what the calendar code uses of `chrono`

Dates and times in UTC.  `chrono` itself is a parameter: a type of instants with the calls that are made, each
of them fixed by what it does to the fields of a date and time in the proleptic Gregorian calendar.  Leap
seconds do not come out of a timestamp.
-/

namespace Northstar.Analytics

open Gregorian

/-- The first and the last year of `NaiveDate`. -/
def minYear : Int := -262143
def maxYear : Int := 262142

def dayMillis : Int := 86400000

/-- The milliseconds from the first of January of the first year to the end of the last year. -/
def minTimestamp : Int := yearStart minYear * dayMillis
def maxTimestamp : Int := yearStart (maxYear + 1) * dayMillis - 1

def InRange (timestamp : Int) : Prop := minTimestamp ≤ timestamp ∧ timestamp ≤ maxTimestamp

instance : DecidablePred InRange := fun _ => inferInstanceAs (Decidable (_ ∧ _))

structure Moment where
  date : Date
  hour : Nat
  minute : Nat
  second : Nat
  nanosecond : Nat
  deriving DecidableEq, Repr

namespace Moment

def Valid (m : Moment) : Prop :=
  m.date.Valid ∧ (minYear ≤ m.date.year ∧ m.date.year ≤ maxYear) ∧
    m.hour < 24 ∧ m.minute < 60 ∧ m.second < 60 ∧ m.nanosecond < 1000000000

instance : DecidablePred Valid := fun _ => inferInstanceAs (Decidable (_ ∧ _))

def timestampMillis (m : Moment) : Int :=
  m.date.dayNumber * dayMillis + m.hour * 3600000 + m.minute * 60000 + m.second * 1000
    + (m.nanosecond / 1000000 : Nat)

def checked (m : Moment) : Option Moment := if m.Valid then some m else none

def withYear (m : Moment) (year : Int) : Moment := { m with date := { m.date with year := year } }
def withMonth (m : Moment) (month : Nat) : Moment := { m with date := { m.date with month := month } }
def withDay (m : Moment) (day : Nat) : Moment := { m with date := { m.date with day := day } }

theorem day_of_valid {m : Moment} (h : m.Valid) :
    m.date.dayNumber * dayMillis ≤ m.timestampMillis ∧ m.timestampMillis < (m.date.dayNumber + 1) * dayMillis := by
  rcases h with ⟨-, -, hhour, hminute, hsecond, hnano⟩
  unfold timestampMillis dayMillis
  omega

theorem inRange_of_valid {m : Moment} (h : m.Valid) : InRange m.timestampMillis := by
  have hday := day_of_valid h
  have hyear := dayNumber_year h.1
  have hfirst : yearStart minYear ≤ yearStart m.date.year := yearStart_strictMono.monotone h.2.1.1
  have hlast : yearStart (m.date.year + 1) ≤ yearStart (maxYear + 1) :=
    yearStart_strictMono.monotone (Int.add_le_add_right h.2.1.2 1)
  unfold InRange minTimestamp maxTimestamp
  unfold dayMillis at hday ⊢
  omega

end Moment

theorem year_of_days {date : Date} (h : date.Valid) (hfirst : yearStart minYear ≤ date.dayNumber)
    (hlast : date.dayNumber < yearStart (maxYear + 1)) : minYear ≤ date.year ∧ date.year ≤ maxYear := by
  have hyear := dayNumber_year h
  have hlow : minYear < date.year + 1 := yearStart_strictMono.lt_iff_lt.mp (lt_of_le_of_lt hfirst hyear.2)
  have hhigh : date.year < maxYear + 1 := yearStart_strictMono.lt_iff_lt.mp (lt_of_le_of_lt hyear.1 hlast)
  exact ⟨Int.lt_add_one_iff.mp hlow, Int.lt_add_one_iff.mp hhigh⟩

/-- `DateTime<Utc>` with the calls of the source.  A call that gives back `None`, or panics, is `none`. -/
structure Chrono (δ : Type) where
  fields : δ → Moment
  fromTimestampMillis : Int → Option δ
  /-- `from_timestamp(secs, 0)`. -/
  fromTimestamp : Int → Option δ
  withYear : δ → Int → Option δ
  withMonth : δ → Nat → Option δ
  withDay : δ → Nat → Option δ
  withHour : δ → Nat → Option δ
  withMinute : δ → Nat → Option δ
  withSecond : δ → Nat → Option δ
  withNanosecond : δ → Nat → Option δ
  /-- `dt + Duration`, for a duration of so many milliseconds. -/
  add : δ → Int → Option δ
  default : δ
  valid : ∀ d, (fields d).Valid
  fromTimestampMillis_fields : ∀ ts, (fromTimestampMillis ts).map (fun d => (fields d).timestampMillis)
    = if InRange ts then some ts else none
  fromTimestamp_fields : ∀ secs, (fromTimestamp secs).map (fun d => (fields d).timestampMillis)
    = if InRange (secs * 1000) then some (secs * 1000) else none
  withYear_fields : ∀ d v, (withYear d v).map fields = ((fields d).withYear v).checked
  withMonth_fields : ∀ d v, (withMonth d v).map fields = ((fields d).withMonth v).checked
  withDay_fields : ∀ d v, (withDay d v).map fields = ((fields d).withDay v).checked
  withHour_fields : ∀ d v, (withHour d v).map fields = { fields d with hour := v }.checked
  withMinute_fields : ∀ d v, (withMinute d v).map fields = { fields d with minute := v }.checked
  withSecond_fields : ∀ d v, (withSecond d v).map fields = { fields d with second := v }.checked
  withNanosecond_fields : ∀ d v, v < 1000000000 →
    (withNanosecond d v).map fields = { fields d with nanosecond := v }.checked
  add_fields : ∀ d delta, (add d delta).map (fun d => (fields d).timestampMillis)
    = if InRange ((fields d).timestampMillis + delta) then some ((fields d).timestampMillis + delta) else none

namespace Chrono

variable {δ : Type} (C : Chrono δ)

def year (d : δ) : Int := (C.fields d).date.year
def month (d : δ) : Nat := (C.fields d).date.month

/-- The first of January of 1970 was a Thursday. -/
def numDaysFromMonday (d : δ) : Int := ((C.fields d).date.dayNumber + 3) % 7

def timestampMillis (d : δ) : Int := (C.fields d).timestampMillis
def timestamp (d : δ) : Int := C.timestampMillis d / 1000

end Chrono

namespace Moment

/-- The date and time of a timestamp. -/
def ofMillis (timestamp : Int) : Moment where
  date := ofDayNumber (timestamp / dayMillis)
  hour := (timestamp % dayMillis / 3600000).toNat
  minute := (timestamp % 3600000 / 60000).toNat
  second := (timestamp % 60000 / 1000).toNat
  nanosecond := (timestamp % 1000).toNat * 1000000

variable {ts : Int}

theorem timestampMillis_ofMillis (ts : Int) : (ofMillis ts).timestampMillis = ts := by
  have hday := (ofDayNumber_spec (ts / dayMillis)).2
  unfold timestampMillis ofMillis
  dsimp only
  rw [hday, Nat.mul_div_cancel _ (by decide)]
  unfold dayMillis
  omega

theorem ofMillis_valid (h : InRange ts) : (ofMillis ts).Valid := by
  have hspec := ofDayNumber_spec (ts / dayMillis)
  have hrange := h
  unfold InRange minTimestamp maxTimestamp dayMillis at hrange
  refine ⟨hspec.1, year_of_days hspec.1 ?_ ?_, ?_⟩
  · show yearStart minYear ≤ (ofDayNumber (ts / dayMillis)).dayNumber
    rw [hspec.2]
    unfold dayMillis
    omega
  · show (ofDayNumber (ts / dayMillis)).dayNumber < _
    rw [hspec.2]
    unfold dayMillis
    omega
  unfold ofMillis dayMillis
  dsimp only
  omega

end Moment

abbrev DateTime := { m : Moment // m.Valid }

namespace DateTime

def check (m : Moment) : Option DateTime := if h : m.Valid then some ⟨m, h⟩ else none

theorem check_val (m : Moment) : (check m).map Subtype.val = m.checked := by
  unfold check Moment.checked
  by_cases h : m.Valid
  · rw [dif_pos h, if_pos h]
    rfl
  · rw [dif_neg h, if_neg h]
    rfl

/-- `fraction` is what a timestamp in milliseconds does not show. -/
def ofMillis (timestamp : Int) (fraction : Nat) : Option DateTime :=
  let m := Moment.ofMillis timestamp
  check { m with nanosecond := m.nanosecond + fraction }

theorem ofMillis_map (ts : Int) {fraction : Nat} (hfraction : fraction < 1000000) :
    (ofMillis ts fraction).map (fun d => d.val.timestampMillis) = if InRange ts then some ts else none := by
  have hmillis : { Moment.ofMillis ts with
      nanosecond := (Moment.ofMillis ts).nanosecond + fraction }.timestampMillis = ts := by
    have hexact := Moment.timestampMillis_ofMillis ts
    unfold Moment.timestampMillis at hexact ⊢
    unfold Moment.ofMillis at hexact ⊢
    dsimp only at hexact ⊢
    rw [Nat.mul_div_cancel _ (by decide)] at hexact
    rw [Nat.add_comm, Nat.add_mul_div_right _ _ (by decide), Nat.div_eq_of_lt hfraction, Nat.zero_add]
    exact hexact
  show (check _).map (Moment.timestampMillis ∘ Subtype.val) = _
  rw [← Option.map_map, check_val]
  unfold Moment.checked
  by_cases h : InRange ts
  · have hvalid := Moment.ofMillis_valid h
    rw [if_pos h, if_pos]
    · exact congrArg some hmillis
    · rcases hvalid with ⟨hdate, hyear, hhour, hminute, hsecond, -⟩
      refine ⟨hdate, hyear, hhour, hminute, hsecond, ?_⟩
      show (ts % 1000).toNat * 1000000 + fraction < 1000000000
      omega
  · rw [if_neg h, if_neg]
    · rfl
    · intro hvalid
      have hin := Moment.inRange_of_valid hvalid
      rw [hmillis] at hin
      exact h hin

def chrono : Chrono DateTime where
  fields := Subtype.val
  fromTimestampMillis := fun ts => ofMillis ts 0
  fromTimestamp := fun secs => ofMillis (secs * 1000) 0
  withYear := fun d v => check (d.val.withYear v)
  withMonth := fun d v => check (d.val.withMonth v)
  withDay := fun d v => check (d.val.withDay v)
  withHour := fun d v => check { d.val with hour := v }
  withMinute := fun d v => check { d.val with minute := v }
  withSecond := fun d v => check { d.val with second := v }
  withNanosecond := fun d v => check { d.val with nanosecond := v }
  add := fun d delta => ofMillis (d.val.timestampMillis + delta) (d.val.nanosecond % 1000000)
  default := ⟨Moment.ofMillis 0, Moment.ofMillis_valid (by decide)⟩
  valid := Subtype.property
  fromTimestampMillis_fields := fun ts => ofMillis_map ts (by decide)
  fromTimestamp_fields := fun secs => ofMillis_map (secs * 1000) (by decide)
  withYear_fields := fun _ _ => check_val _
  withMonth_fields := fun _ _ => check_val _
  withDay_fields := fun _ _ => check_val _
  withHour_fields := fun _ _ => check_val _
  withMinute_fields := fun _ _ => check_val _
  withSecond_fields := fun _ _ => check_val _
  withNanosecond_fields := fun _ _ _ => check_val _
  add_fields := fun d delta => ofMillis_map _ (Nat.mod_lt _ (by decide))

end DateTime

end Northstar.Analytics
