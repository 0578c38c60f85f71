/-
Instants as JavaScript prints them: `Date.prototype.toISOString`.
-/
import Mathlib.Data.Int.Basic

set_option autoImplicit false

namespace JsDate

/-- A day as a date of the proleptic Gregorian calendar. -/
structure CivilDate where
  year : ℤ
  month : ℤ
  day : ℤ
deriving DecidableEq

/-- The date of a day counted from 1970-01-01. Years are taken from March on, so
that a leap day ends one, in eras of 400 years. -/
def civilDate (days : ℤ) : CivilDate :=
  let z := days + 719468
  let era := z / 146097
  let dayOfEra := z % 146097
  let yearOfEra := (dayOfEra - dayOfEra / 1460 + dayOfEra / 36524 - dayOfEra / 146096) / 365
  let dayOfYear := dayOfEra - (365 * yearOfEra + yearOfEra / 4 - yearOfEra / 100)
  let m := (5 * dayOfYear + 2) / 153
  let month := if m < 10 then m + 3 else m - 9
  { year := yearOfEra + era * 400 + if month ≤ 2 then 1 else 0
    month := month
    day := dayOfYear - (153 * m + 2) / 5 + 1 }

/-- The digits of a number, filled up with zeros to a width. -/
def padded (width : ℕ) (n : ℤ) : String :=
  let digits := Nat.toDigits 10 n.natAbs
  String.ofList (List.replicate (width - digits.length) '0' ++ digits)

/-- The year: four digits, or a sign and six digits. -/
def isoYear (year : ℤ) : String :=
  if 0 ≤ year ∧ year ≤ 9999 then padded 4 year
  else (if year < 0 then "-" else "+") ++ padded 6 year

/-- `toISOString` of an instant in milliseconds. -/
def toISOString (t : ℤ) : String :=
  let date := civilDate (t / 86400000)
  let ms := t % 86400000
  isoYear date.year ++ "-" ++ padded 2 date.month ++ "-" ++ padded 2 date.day ++ "T" ++
    padded 2 (ms / 3600000) ++ ":" ++ padded 2 (ms / 60000 % 60) ++ ":" ++
    padded 2 (ms / 1000 % 60) ++ "." ++ padded 3 (ms % 1000) ++ "Z"

-- A leap day.
example : toISOString 1709208000123 = "2024-02-29T12:00:00.123Z" := by decide +kernel

end JsDate
