/-
The calendar behind `JsDate.civilDate`.

`civilDate` finds the year of a day by division. What it stands for is said the other
way round: the number of a date is what the years and months before it have of days,
after the Gregorian rule for leap years. Every day has a valid date of that number, so
no two days have the same date.
-/
import Mathlib.Tactic.IntervalCases
import Mathlib.Tactic.Linarith
import TechTrends.JsDate

set_option autoImplicit false

namespace JsDate

/-! ## The Gregorian rules -/

/-- The leap day of a year. -/
def leapDay (year : ℤ) : ℤ := if year % 4 = 0 ∧ (year % 100 ≠ 0 ∨ year % 400 = 0) then 1 else 0

def monthLength (year : ℤ) : ℕ → ℤ
  | 2 => 28 + leapDay year
  | 4 | 6 | 9 | 11 => 30
  | _ => 31

theorem monthLength_le (year : ℤ) (month : ℕ) : monthLength year month ≤ 31 := by
  unfold monthLength leapDay
  split
  · split <;> omega
  all_goals omega

/-- The days of the first months of a year. -/
def daysOfMonths (year : ℤ) : ℕ → ℤ
  | 0 => 0
  | month + 1 => daysOfMonths year month + monthLength year (month + 1)

/-- The days of the years from 1 to `year`. -/
def daysOfYears (year : ℤ) : ℤ := 365 * year + year / 4 - year / 100 + year / 400

theorem daysOfYears_succ (year : ℤ) :
    daysOfYears year = daysOfYears (year - 1) + 365 + leapDay year := by
  unfold daysOfYears leapDay
  split <;> omega

attribute [ext] CivilDate

namespace CivilDate

/-- The number of a date, counted from 1970-01-01. -/
def dayNumber (date : CivilDate) : ℤ :=
  daysOfYears (date.year - 1) + daysOfMonths date.year (date.month.toNat - 1) + (date.day - 1) - 719162

structure Valid (date : CivilDate) : Prop where
  month : 1 ≤ date.month ∧ date.month ≤ 12
  day : 1 ≤ date.day ∧ date.day ≤ monthLength date.year date.month.toNat

end CivilDate

/-! ## The year in its era -/

/-- The year of a day of an era, as `civilDate` finds it. -/
def yearOfEra (dayOfEra : ℤ) : ℤ :=
  (dayOfEra - dayOfEra / 1460 + dayOfEra / 36524 - dayOfEra / 146096) / 365

section Era

variable {dayOfEra : ℤ}

theorem yearOfEra_range (h0 : 0 ≤ dayOfEra) (h1 : dayOfEra < 146097) :
    0 ≤ yearOfEra dayOfEra ∧ yearOfEra dayOfEra ≤ 399 := by
  unfold yearOfEra
  omega

/-- The centuries of an era. -/
theorem century_cases (h0 : 0 ≤ dayOfEra) (h1 : dayOfEra < 146096) :
    dayOfEra / 36524 = 0 ∨ dayOfEra / 36524 = 1 ∨ dayOfEra / 36524 = 2 ∨ dayOfEra / 36524 = 3 := by
  omega

/-- The year has begun. -/
theorem daysOfYears_yearOfEra_le (h0 : 0 ≤ dayOfEra) (h1 : dayOfEra < 146097) :
    daysOfYears (yearOfEra dayOfEra) ≤ dayOfEra := by
  obtain ⟨hlow, hhigh⟩ := yearOfEra_range h0 h1
  -- the last day of an era is the leap day of its last year, where the last term counts
  by_cases hlast : dayOfEra = 146096
  · subst hlast
    decide
  · have hyear : yearOfEra dayOfEra = (dayOfEra - dayOfEra / 1460 + dayOfEra / 36524) / 365 := by
      unfold yearOfEra
      omega
    unfold daysOfYears
    generalize yearOfEra dayOfEra = y at *
    have hleap : y / 4 ≤ dayOfEra / 1460 := by omega
    -- one century after the other, so that its division is a number
    have hcentury : dayOfEra / 36524 ≤ y / 100 := by
      rcases century_cases h0 (by omega) with h | h | h | h <;> omega
    omega

/-- The next year has not. -/
theorem lt_daysOfYears_yearOfEra_add_one (h0 : 0 ≤ dayOfEra) (h1 : dayOfEra < 146097) :
    dayOfEra < daysOfYears (yearOfEra dayOfEra + 1) := by
  by_cases hlast : dayOfEra = 146096
  · subst hlast
    decide
  · have hyear : yearOfEra dayOfEra = (dayOfEra - dayOfEra / 1460 + dayOfEra / 36524) / 365 := by
      unfold yearOfEra
      omega
    unfold daysOfYears
    generalize yearOfEra dayOfEra = y at *
    have hleap : dayOfEra / 1460 ≤ (y + 1) / 4 := by omega
    have hcentury : y + 1 ≤ 100 * (dayOfEra / 36524 + 1) := by
      rcases century_cases h0 (by omega) with h | h | h | h <;> omega
    -- a year that ends a century has no leap day
    by_cases hend : y + 1 = 100 * (dayOfEra / 36524 + 1)
    · omega
    · have hsame : (y + 1) / 100 ≤ dayOfEra / 36524 := by omega
      omega

end Era

/-! ## The date of a day -/

/-- The years of an era repeat. -/
theorem daysOfYears_add_era (year era : ℤ) :
    daysOfYears (year + era * 400) = daysOfYears year + 146097 * era := by
  unfold daysOfYears
  omega

theorem leapDay_add_era (year era : ℤ) : leapDay (year + era * 400) = leapDay year := by
  unfold leapDay
  have h4 : (year + era * 400) % 4 = year % 4 := by omega
  have h100 : (year + era * 400) % 100 = year % 100 := by omega
  have h400 : (year + era * 400) % 400 = year % 400 := by omega
  rw [h4, h100, h400]

theorem leapDay_range (year : ℤ) : 0 ≤ leapDay year ∧ leapDay year ≤ 1 := by
  unfold leapDay
  split <;> omega

/-- Where a day stands: `y` is the year of its era, `dayOfYear` counts from March on, and
`m` is the month after March. -/
structure Place (days y era dayOfYear m : ℤ) : Prop where
  number : days + 719468 = daysOfYears (y + era * 400) + dayOfYear
  inYear : 0 ≤ dayOfYear ∧ dayOfYear < 365 + leapDay (y + era * 400 + 1)
  month : m = (5 * dayOfYear + 2) / 153
  date : civilDate days =
    { year := y + era * 400 + if (if m < 10 then m + 3 else m - 9) ≤ 2 then 1 else 0
      month := if m < 10 then m + 3 else m - 9
      day := dayOfYear - (153 * m + 2) / 5 + 1 }

theorem exists_place (days : ℤ) : ∃ y era dayOfYear m, Place days y era dayOfYear m := by
  have h0 : 0 ≤ (days + 719468) % 146097 := by omega
  have h1 : (days + 719468) % 146097 < 146097 := by omega
  obtain ⟨hlow, hhigh⟩ := yearOfEra_range h0 h1
  have hbegun := daysOfYears_yearOfEra_le h0 h1
  have hnext := lt_daysOfYears_yearOfEra_add_one h0 h1
  have hcount : daysOfYears (yearOfEra ((days + 719468) % 146097)) =
      365 * yearOfEra ((days + 719468) % 146097) + yearOfEra ((days + 719468) % 146097) / 4 -
        yearOfEra ((days + 719468) % 146097) / 100 := by
    unfold daysOfYears
    omega
  refine ⟨_, (days + 719468) / 146097, _, _, ⟨?_, ?_, rfl, rfl⟩⟩
  · rw [← yearOfEra, daysOfYears_add_era, hcount]
    omega
  · rw [← yearOfEra, ← hcount, show ∀ a b : ℤ, a + b + 1 = a + 1 + b from fun a b => by omega,
      leapDay_add_era]
    rw [daysOfYears_succ, Int.add_sub_cancel] at hnext
    omega

/-- Twelve months of 30 or 31 days, counted from March on. -/
theorem Place.month_range {days y era dayOfYear m : ℤ} (h : Place days y era dayOfYear m) :
    0 ≤ m ∧ m ≤ 11 := by
  have hleap := (leapDay_range (y + era * 400 + 1)).2
  have hyear := h.inYear
  rw [h.month]
  omega

theorem valid_civilDate (days : ℤ) : (civilDate days).Valid := by
  obtain ⟨y, era, dayOfYear, m, h⟩ := exists_place days
  obtain ⟨hm0, hm1⟩ := h.month_range
  have hyear := h.inYear
  have hmonth := h.month
  rw [h.date]
  constructor
  · dsimp only
    split <;> omega
  · dsimp only
    -- in each of the twelve months the day is bounded by the month's own length
    interval_cases m <;> simp [monthLength] at hmonth hyear ⊢ <;> omega

/-- Days from 1970 on are in years that are not negative. -/
theorem year_nonneg {days : ℤ} (hdays : 0 ≤ days) : 0 ≤ (civilDate days).year := by
  obtain ⟨y, era, dayOfYear, m, h⟩ := exists_place days
  have hyear := h.inYear
  have hnumber := h.number
  have hleap := (leapDay_range (y + era * 400 + 1)).2
  rw [h.date]
  dsimp only
  unfold daysOfYears at hnumber
  generalize y + era * 400 = year at *
  split <;> omega

theorem dayNumber_civilDate (days : ℤ) : (civilDate days).dayNumber = days := by
  obtain ⟨y, era, dayOfYear, m, h⟩ := exists_place days
  obtain ⟨hm0, hm1⟩ := h.month_range
  have hnumber := h.number
  have hlast := daysOfYears_succ (y + era * 400)
  rw [h.date, CivilDate.dayNumber]
  -- January and February count for the year after the one that began in March
  interval_cases m <;> simp [daysOfMonths, monthLength] at hlast hnumber ⊢ <;> omega

theorem civilDate_injective : Function.Injective civilDate :=
  Function.LeftInverse.injective dayNumber_civilDate

end JsDate
