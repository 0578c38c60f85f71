/-
`getTodayDateString` and `getTodayStartUtc`: one day under two names.

The first prints the date in Seoul, the second takes the start of the day by shifting
and truncating milliseconds. A job is named after the first and its quota is counted
from the second.
-/
import TechTrends.Calendar
import TechTrends.Time

set_option autoImplicit false

namespace JsDate

/-! ## Padded numbers -/

/-- A padded number can be read back. -/
theorem ofDigitChars_padded (width : ℕ) (n : ℤ) :
    Nat.ofDigitChars 10 (padded width n).toList 0 = n.natAbs := by
  rw [padded, String.toList_ofList, Nat.ofDigitChars_append, Nat.ofDigitChars_replicate_zero,
    Nat.mul_zero, Nat.ofDigitChars_toDigits (by decide) (by decide)]

theorem padded_inj {width : ℕ} {m n : ℤ} (hm : 0 ≤ m) (hn : 0 ≤ n)
    (h : (padded width m).toList = (padded width n).toList) : m = n := by
  have habs := congrArg (fun cs => Nat.ofDigitChars 10 cs 0) h
  simp only [ofDigitChars_padded] at habs
  omega

theorem length_padded_two {n : ℤ} (h0 : 0 ≤ n) (h1 : n < 100) : (padded 2 n).toList.length = 2 := by
  have hle : (Nat.toDigits 10 n.natAbs).length ≤ 2 :=
    (Nat.length_toDigits_le_iff (by decide) (by decide)).2 (by omega)
  rw [padded, String.toList_ofList, List.length_append, List.length_replicate]
  omega

end JsDate

namespace TechTrends

open JsDate (CivilDate civilDate padded)

/-! ## The date in Seoul -/

/-- `Intl.DateTimeFormat('en-CA', { year: 'numeric', month: '2-digit', day: '2-digit' })`. -/
def formatDate (date : CivilDate) : String :=
  padded 1 date.year ++ "-" ++ padded 2 date.month ++ "-" ++ padded 2 date.day

/-- `getTodayDateString` at the instant `now`, since Seoul keeps to UTC+9. -/
def getTodayDateString (now : ℤ) : String := formatDate (civilDate ((now + kstOffsetMs) / dayMs))

/-- The name of the job of a source: `${sourceName}-${getTodayDateString()}`. -/
def dispatchJobId (sourceName : String) (now : ℤ) : String := sourceName ++ "-" ++ getTodayDateString now

/-- The start of 1989 in Seoul. -/
def start1989 : ℤ := 599583600000

-- The last second of a leap year.
example : getTodayDateString 1735657199000 = "2024-12-31" := by decide +kernel

/-- The three numbers are read back from the right. -/
theorem formatDate_inj {date date' : CivilDate} (hv : date.Valid) (hv' : date'.Valid)
    (hy : 0 ≤ date.year) (hy' : 0 ≤ date'.year) (h : formatDate date = formatDate date') :
    date = date' := by
  have hdays : ∀ {d : CivilDate}, d.Valid → d.day < 100 := fun {d} hd => by
    have hle := JsDate.monthLength_le d.year d.month.toNat
    have hday := hd.day
    omega
  have hlen : (padded 2 date.day).toList.length = (padded 2 date'.day).toList.length := by
    rw [JsDate.length_padded_two (by have := hv.day; omega) (hdays hv),
      JsDate.length_padded_two (by have := hv'.day; omega) (hdays hv')]
  have hlen' : (padded 2 date.month).toList.length = (padded 2 date'.month).toList.length := by
    have hm := hv.month
    have hm' := hv'.month
    rw [JsDate.length_padded_two (by omega) (by omega), JsDate.length_padded_two (by omega) (by omega)]
  -- the year may have any number of digits, month and day have two
  have hl := congrArg String.toList h
  simp only [formatDate, String.toList_append] at hl
  obtain ⟨hl, hday⟩ := List.append_inj' hl hlen
  obtain ⟨hl, hmonth⟩ := List.append_inj' (List.append_cancel_right hl) hlen'
  have hyear := List.append_cancel_right hl
  have hm := hv.month
  have hm' := hv'.month
  have hd := hv.day
  have hd' := hv'.day
  exact CivilDate.ext (JsDate.padded_inj hy hy' hyear) (JsDate.padded_inj (by omega) (by omega) hmonth)
    (JsDate.padded_inj (by omega) (by omega) hday)

/-! ## The two notions -/

theorem getTodayStartUtc_eq_iff (t u : ℤ) :
    getTodayStartUtc t = getTodayStartUtc u ↔ (t + kstOffsetMs) / dayMs = (u + kstOffsetMs) / dayMs := by
  unfold getTodayStartUtc utcMidnight kstOffsetMs dayMs
  omega

theorem getTodayDateString_eq_iff {t u : ℤ} (ht : start1989 ≤ t) (hu : start1989 ≤ u) :
    getTodayDateString t = getTodayDateString u ↔ (t + kstOffsetMs) / dayMs = (u + kstOffsetMs) / dayMs := by
  constructor
  · intro h
    have hyear : ∀ {v : ℤ}, start1989 ≤ v → 0 ≤ (civilDate ((v + kstOffsetMs) / dayMs)).year := by
      -- a sign of the year would be read as a part of the date
      intro v hv
      refine JsDate.year_nonneg ?_
      unfold start1989 at hv
      unfold kstOffsetMs dayMs
      omega
    exact JsDate.civilDate_injective
      (formatDate_inj (JsDate.valid_civilDate _) (JsDate.valid_civilDate _) (hyear ht) (hyear hu) h)
  · intro h
    rw [getTodayDateString, getTodayDateString, h]

/-- **One day under two names.** From 1989 on, the start of today is at most now and less
than a day back, it is midnight in Seoul, and two instants have the same date exactly
when they have the same start of the day. So the name of a job tells the window from
which its quota is counted. -/
theorem today_agrees {t u : ℤ} (ht : start1989 ≤ t) (hu : start1989 ≤ u) :
    (getTodayStartUtc t ≤ t ∧ t < getTodayStartUtc t + dayMs) ∧
    (getTodayStartUtc t + kstOffsetMs) % dayMs = 0 ∧
    (getTodayDateString t = getTodayDateString u ↔ getTodayStartUtc t = getTodayStartUtc u) ∧
    ∀ sourceName, dispatchJobId sourceName t = dispatchJobId sourceName u ↔
      getTodayStartUtc t = getTodayStartUtc u := by
  have hsame : getTodayDateString t = getTodayDateString u ↔ getTodayStartUtc t = getTodayStartUtc u := by
    rw [getTodayDateString_eq_iff ht hu, getTodayStartUtc_eq_iff]
  refine ⟨?_, ?_, hsame, ?_⟩
  · unfold getTodayStartUtc utcMidnight kstOffsetMs dayMs
    omega
  · unfold getTodayStartUtc utcMidnight kstOffsetMs dayMs
    omega
  · intro sourceName
    rw [← hsame, dispatchJobId, dispatchJobId]
    constructor
    · intro h
      have hl := congrArg String.toList h
      simp only [String.toList_append] at hl
      exact String.toList_injective (List.append_cancel_left hl)
    · intro h
      rw [h]

/-- The last millisecond of a leap day in Seoul and the one after it. -/
theorem today_agrees_leapDay :
    getTodayDateString 1709218799999 ≠ getTodayDateString 1709218800000 ∧
    getTodayStartUtc 1709218799999 ≠ getTodayStartUtc 1709218800000 := by
  have h := today_agrees (t := 1709218799999) (u := 1709218800000) (by decide) (by decide)
  have hstart : getTodayStartUtc 1709218799999 ≠ getTodayStartUtc 1709218800000 := by decide
  exact ⟨fun hdate => hstart (h.2.2.1.1 hdate), hstart⟩

end TechTrends
