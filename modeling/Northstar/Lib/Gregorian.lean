import Mathlib.Data.Int.ConditionallyCompleteOrder
import Mathlib.Order.Monotone.Basic
import Mathlib.Tactic.IntervalCases

/-!
# Gregorian — dates of the proleptic Gregorian calendar and their numbers

A date has a number: the days since 1970-01-01.  Years and months of all lengths are covered by what a year
and a month add to the number of the first day of the next one.
-/

namespace Gregorian

def isLeap (y : Int) : Bool := y % 4 = 0 && (y % 100 ≠ 0 || y % 400 = 0)

def monthLength (y : Int) : Nat → Nat
  | 1 | 3 | 5 | 7 | 8 | 10 | 12 => 31
  | 4 | 6 | 9 | 11 => 30
  | 2 => if isLeap y then 29 else 28
  | _ => 0

def daysBefore (y : Int) : Nat → Nat
  | 0 => 0
  | m + 1 => daysBefore y m + monthLength y m

/-- The number of the first of January. -/
def yearStart (y : Int) : Int := 365 * (y - 1) + (y - 1) / 4 - (y - 1) / 100 + (y - 1) / 400 - 719162

structure Date where
  year : Int
  month : Nat
  day : Nat
  deriving DecidableEq, Repr

namespace Date

def Valid (d : Date) : Prop := (1 ≤ d.month ∧ d.month ≤ 12) ∧ 1 ≤ d.day ∧ d.day ≤ monthLength d.year d.month

instance : DecidablePred Valid := fun _ => inferInstanceAs (Decidable (_ ∧ _))

def dayNumber (d : Date) : Int := yearStart d.year + daysBefore d.year d.month + d.day - 1

end Date

variable {y : Int}

theorem yearStart_succ (y : Int) : yearStart (y + 1) = yearStart y + if isLeap y then 366 else 365 := by
  unfold yearStart isLeap
  by_cases h4 : y % 4 = 0
  · by_cases h100 : y % 100 = 0
    · by_cases h400 : y % 400 = 0
      · simp only [h4, h100, h400, decide_true, ne_eq, not_true, decide_false, Bool.or_true, Bool.and_true, if_true]
        omega
      · simp only [h4, h100, h400, decide_true, ne_eq, not_true, decide_false, Bool.or_false, Bool.and_false,
          Bool.false_eq_true, if_false]
        omega
    · simp only [h4, h100, decide_true, ne_eq, not_false_eq_true, Bool.true_or, Bool.and_true, if_true]
      omega
  · simp only [h4, decide_false, Bool.false_and, Bool.false_eq_true, if_false]
    omega

theorem yearStart_strictMono : StrictMono yearStart := by
  apply strictMono_int_of_lt_succ
  intro y
  rw [yearStart_succ]
  split
  all_goals omega

theorem daysBefore_thirteen (y : Int) : (daysBefore y 13 : Int) = if isLeap y then 366 else 365 := by
  show ((daysBefore y 0 + monthLength y 0 + monthLength y 1 + monthLength y 2 + monthLength y 3 + monthLength y 4
    + monthLength y 5 + monthLength y 6 + monthLength y 7 + monthLength y 8 + monthLength y 9 + monthLength y 10
    + monthLength y 11 + monthLength y 12 : Nat) : Int) = _
  simp only [monthLength, daysBefore]
  split
  all_goals rfl

theorem yearStart_add_one (y : Int) : yearStart (y + 1) = yearStart y + daysBefore y 13 := by
  rw [yearStart_succ, daysBefore_thirteen]

/-- The year of a day: 400 years have 146097 days, and the estimate is off by one year at most. -/
def yearOf (n : Int) : Int :=
  let guess := 400 * (n + 719162) / 146097 + 1
  if n < yearStart guess then guess - 1
  else if yearStart (guess + 1) ≤ n then guess + 1
  else guess

theorem yearOf_spec (n : Int) : yearStart (yearOf n) ≤ n ∧ n < yearStart (yearOf n + 1) := by
  unfold yearOf
  dsimp only
  split
  next hlt =>
    rw [Int.sub_add_cancel]
    refine ⟨?_, hlt⟩
    unfold yearStart at hlt ⊢
    omega
  next hge =>
    split
    next hle =>
      refine ⟨hle, ?_⟩
      unfold yearStart at hle ⊢
      omega
    next hlt => exact ⟨Int.not_lt.mp hge, Int.not_le.mp hlt⟩

variable {month : Nat}

theorem monthLength_pos (h : 1 ≤ month) (h' : month ≤ 12) : 1 ≤ monthLength y month := by
  interval_cases month
  case «2» =>
    show 1 ≤ if isLeap y then 29 else 28
    split
    all_goals decide
  all_goals exact Nat.le_add_left 1 _

theorem monthLength_le (y : Int) (month : Nat) : monthLength y month ≤ 31 := by
  unfold monthLength
  split
  any_goals decide
  split
  all_goals decide

theorem daysBefore_succ (y : Int) (month : Nat) : daysBefore y (month + 1) = daysBefore y month + monthLength y month := rfl

theorem daysBefore_mono (y : Int) : Monotone (daysBefore y) :=
  monotone_nat_of_le_succ fun month => Nat.le_add_right _ (monthLength y month)

/-- The month and the day in it, `r` days behind the first of `month`; `left` more months follow. -/
def monthAndDay (y : Int) : Nat → Nat → Nat → Nat × Nat
  | 0, month, r => (month, r + 1)
  | left + 1, month, r =>
    if r < monthLength y month then (month, r + 1) else monthAndDay y left (month + 1) (r - monthLength y month)

theorem monthAndDay_spec {left r : Nat} (hmonth : 1 ≤ month) (hleft : month + left = 12)
    (hr : daysBefore y month + r < daysBefore y 13) :
    let md := monthAndDay y left month r
    (⟨y, md.1, md.2⟩ : Date).Valid ∧ daysBefore y md.1 + md.2 = daysBefore y month + r + 1 := by
  induction left generalizing month r with
  | zero =>
    have hlast : month = 12 := by omega
    subst hlast
    have hyear : daysBefore y 13 = daysBefore y 12 + monthLength y 12 := rfl
    have hin : r + 1 ≤ monthLength y 12 := by omega
    have hvalid : (⟨y, 12, r + 1⟩ : Date).Valid := ⟨⟨hmonth, Nat.le_refl _⟩, Nat.le_add_left .., hin⟩
    exact ⟨hvalid, (Nat.add_assoc (daysBefore y 12) r 1).symm⟩
  | succ left ih =>
    unfold monthAndDay
    by_cases hin : r < monthLength y month
    · rw [if_pos hin]
      have hvalid : (⟨y, month, r + 1⟩ : Date).Valid := ⟨⟨hmonth, by show month ≤ 12; omega⟩, Nat.le_add_left .., hin⟩
      exact ⟨hvalid, (Nat.add_assoc (daysBefore y month) r 1).symm⟩
    · rw [if_neg hin]
      have hnext : daysBefore y (month + 1) + (r - monthLength y month) = daysBefore y month + r := by
        rw [daysBefore_succ]
        omega
      rw [← hnext] at hr ⊢
      have hmonth' : 1 ≤ month + 1 := Nat.le_add_left ..
      have hleft' : month + 1 + left = 12 := by omega
      exact ih hmonth' hleft' hr

def ofDayNumber (n : Int) : Date :=
  let md := monthAndDay (yearOf n) 11 1 (n - yearStart (yearOf n)).toNat
  ⟨yearOf n, md.1, md.2⟩

theorem ofDayNumber_spec (n : Int) : (ofDayNumber n).Valid ∧ (ofDayNumber n).dayNumber = n := by
  have hyear := yearOf_spec n
  rw [yearStart_add_one] at hyear
  have hwithin : daysBefore (yearOf n) 1 + (n - yearStart (yearOf n)).toNat < daysBefore (yearOf n) 13 := by
    show 0 + _ < _
    omega
  have hspec : (ofDayNumber n).Valid ∧ daysBefore (yearOf n) (ofDayNumber n).month + (ofDayNumber n).day
      = daysBefore (yearOf n) 1 + (n - yearStart (yearOf n)).toNat + 1 := monthAndDay_spec (Nat.le_refl 1) rfl hwithin
  refine ⟨hspec.1, ?_⟩
  have hday : daysBefore (yearOf n) (ofDayNumber n).month + (ofDayNumber n).day
      = 0 + (n - yearStart (yearOf n)).toNat + 1 := hspec.2
  show yearStart (yearOf n) + (daysBefore (yearOf n) (ofDayNumber n).month : Int) + (ofDayNumber n).day - 1 = n
  omega

variable {d d' : Date}

theorem dayNumber_bounds (h : d.Valid) :
    yearStart d.year + daysBefore d.year d.month ≤ d.dayNumber ∧
      d.dayNumber < yearStart d.year + daysBefore d.year (d.month + 1) := by
  have hday := h.2
  have hsucc := daysBefore_succ d.year d.month
  unfold Date.dayNumber
  omega

theorem dayNumber_year (h : d.Valid) : yearStart d.year ≤ d.dayNumber ∧ d.dayNumber < yearStart (d.year + 1) := by
  have hbounds := dayNumber_bounds h
  have hmonth : daysBefore d.year (d.month + 1) ≤ daysBefore d.year 13 := daysBefore_mono d.year (by have := h.1; omega)
  have hnext := yearStart_add_one d.year
  omega

/-- Dates of one number are of one year, then of one month, then of one day. -/
theorem dayNumber_injective (h : d.Valid) (h' : d'.Valid) (heq : d.dayNumber = d'.dayNumber) : d = d' := by
  rcases d with ⟨y, m, n⟩
  rcases d' with ⟨y', m', n'⟩
  have hyear := dayNumber_year h
  have hyear' := dayNumber_year h'
  rw [heq] at hyear
  have hle : y < y' + 1 := yearStart_strictMono.lt_iff_lt.mp (lt_of_le_of_lt hyear.1 hyear'.2)
  have hge : y' < y + 1 := yearStart_strictMono.lt_iff_lt.mp (lt_of_le_of_lt hyear'.1 hyear.2)
  have hsame : y = y' := by omega
  subst hsame
  have hmonth := dayNumber_bounds h
  have hmonth' := dayNumber_bounds h'
  rw [heq] at hmonth
  have hlt : m < m' + 1 := (daysBefore_mono y).reflect_lt (by dsimp only at hmonth hmonth'; omega)
  have hgt : m' < m + 1 := (daysBefore_mono y).reflect_lt (by dsimp only at hmonth hmonth'; omega)
  have hsame : m = m' := by omega
  subst hsame
  unfold Date.dayNumber at heq
  dsimp only at heq
  have hday : n = n' := by omega
  rw [hday]

theorem ofDayNumber_dayNumber (h : d.Valid) : ofDayNumber d.dayNumber = d :=
  dayNumber_injective (ofDayNumber_spec _).1 h (ofDayNumber_spec _).2

def Date.monthIndex (d : Date) : Int := 12 * d.year + d.month - 1

def firstOf (m : Int) : Date := ⟨m / 12, (m % 12).toNat + 1, 1⟩

def monthStart (m : Int) : Int := (firstOf m).dayNumber

theorem firstOf_valid (m : Int) : (firstOf m).Valid := by
  have hmonth : 1 ≤ (firstOf m).month ∧ (firstOf m).month ≤ 12 := by
    show 1 ≤ (m % 12).toNat + 1 ∧ (m % 12).toNat + 1 ≤ 12
    omega
  exact ⟨hmonth, Nat.le_refl 1, monthLength_pos hmonth.1 hmonth.2⟩

theorem firstOf_monthIndex {year : Int} (h : 1 ≤ month) (h' : month ≤ 12) :
    firstOf (12 * year + month - 1) = ⟨year, month, 1⟩ := by
  unfold firstOf
  rw [show (12 * year + month - 1) / 12 = year by omega, show ((12 * year + month - 1) % 12).toNat + 1 = month by omega]

theorem monthStart_eq (m : Int) : monthStart m = yearStart (m / 12) + daysBefore (m / 12) ((m % 12).toNat + 1) := by
  show yearStart (m / 12) + (daysBefore (m / 12) ((m % 12).toNat + 1) : Int) + (1 : Nat) - 1 = _
  omega

theorem monthStart_succ (m : Int) :
    monthStart (m + 1) = yearStart (m / 12) + daysBefore (m / 12) ((m % 12).toNat + 2) := by
  rw [monthStart_eq]
  by_cases hlast : m % 12 = 11
  · have hyear : (m + 1) / 12 = m / 12 + 1 := by omega
    have hmonth : (m + 1) % 12 = 0 := by omega
    rw [hyear, hmonth, hlast, yearStart_add_one]
    exact Int.add_zero _
  · have hyear : (m + 1) / 12 = m / 12 := by omega
    have hmonth : ((m + 1) % 12).toNat = (m % 12).toNat + 1 := by omega
    rw [hyear, hmonth]

theorem monthStart_strictMono : StrictMono monthStart := by
  apply strictMono_int_of_lt_succ
  intro m
  have hbounds := dayNumber_bounds (firstOf_valid m)
  rw [monthStart_succ]
  exact hbounds.2

/-- A date is in the month of its index. -/
theorem monthStart_bounds (h : d.Valid) :
    monthStart d.monthIndex ≤ d.dayNumber ∧ d.dayNumber < monthStart (d.monthIndex + 1) := by
  have hmonth := h.1
  have hyear : d.monthIndex / 12 = d.year := by
    unfold Date.monthIndex
    omega
  have hindex : (d.monthIndex % 12).toNat + 1 = d.month := by
    unfold Date.monthIndex
    omega
  have hbounds := dayNumber_bounds h
  rw [monthStart_eq, monthStart_succ, hyear, show (d.monthIndex % 12).toNat + 2 = d.month + 1 by omega, hindex]
  exact hbounds

end Gregorian
