/-
`time.util`: the day in Seoul, on instants in milliseconds since the epoch.
-/
import Mathlib.Data.Int.Basic
import Mathlib.Tactic.Linarith

set_option autoImplicit false

namespace TechTrends

/-- `KST_OFFSET_MS`. -/
def kstOffsetMs : ℤ := 9 * 60 * 60 * 1000

def dayMs : ℤ := 24 * 60 * 60 * 1000

/-- `setUTCHours(0, 0, 0, 0)`. -/
def utcMidnight (t : ℤ) : ℤ := t / dayMs * dayMs

/-- `getTodayStartUtc` at the instant `now`. -/
def getTodayStartUtc (now : ℤ) : ℤ := utcMidnight (now + kstOffsetMs) - kstOffsetMs

/-- The number of the Seoul day that an instant is in. -/
def seoulDay (t : ℤ) : ℤ := (t + kstOffsetMs) / dayMs

/-- The instants from the start of today on are those of today and later days. -/
theorem getTodayStartUtc_le_iff (now t : ℤ) :
    getTodayStartUtc now ≤ t ↔ seoulDay now ≤ seoulDay t := by
  unfold getTodayStartUtc utcMidnight seoulDay kstOffsetMs dayMs
  omega

theorem seoulDay_mono {t u : ℤ} (h : t ≤ u) : seoulDay t ≤ seoulDay u := by
  unfold seoulDay kstOffsetMs dayMs
  omega

end TechTrends
