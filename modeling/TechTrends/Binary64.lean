/-
The numbers of binary64, and rounding to them.

An exact result is rounded to a multiple of the unit in the last place, the even one of two
that are equally near. What is rounded stays as it is when it is rounded again, and rounding
does not pass a number that is one already. What a loop needs of it is how far a small
summand carries: one above half a unit moves a number on, one up to half a unit does not get
past a power of two.
-/
import Mathlib.Data.Int.Log
import Mathlib.Data.Rat.Floor
import Mathlib.Tactic.FieldSimp
import Mathlib.Tactic.Positivity

set_option autoImplicit false

namespace Binary64

/-! ## The nearest integer -/

/-- The nearest integer, the even one of two. -/
def halfEven (q : ℚ) : ℤ :=
  if Int.fract q < 1 / 2 then ⌊q⌋
  else if 1 / 2 < Int.fract q then ⌊q⌋ + 1
  else if ⌊q⌋ % 2 = 0 then ⌊q⌋
  else ⌊q⌋ + 1

theorem floor_le_halfEven (q : ℚ) : ⌊q⌋ ≤ halfEven q := by
  unfold halfEven
  split_ifs <;> omega

theorem halfEven_le_floor_add_one (q : ℚ) : halfEven q ≤ ⌊q⌋ + 1 := by
  unfold halfEven
  split_ifs <;> omega

theorem le_halfEven {q : ℚ} {n : ℤ} (h : (n : ℚ) ≤ q) : n ≤ halfEven q :=
  (Int.le_floor.2 h).trans (floor_le_halfEven q)

/-- Up to half above an even number, that number is the nearest. -/
theorem halfEven_le_of_even {q : ℚ} {n : ℤ} (hn : n % 2 = 0) (h : q ≤ n + 1 / 2) : halfEven q ≤ n := by
  have hfract := Int.self_sub_floor q
  -- the tie is only at the floor `n`, and goes to it
  rcases lt_trichotomy ⌊q⌋ n with hlt | heq | hgt
  · exact (halfEven_le_floor_add_one q).trans (by omega)
  · have hle : Int.fract q ≤ 1 / 2 := by
      rw [← hfract, heq]
      linarith
    unfold halfEven
    split_ifs with h1 h2 h3
    · omega
    · exact absurd h2 (not_lt.2 hle)
    · omega
    · omega
  · have hfloor : (n : ℚ) + 1 ≤ ⌊q⌋ := by exact_mod_cast hgt
    have hself := Int.floor_le q
    linarith

theorem halfEven_le {q : ℚ} {n : ℤ} (h : q ≤ n) : halfEven q ≤ n := by
  rcases lt_or_eq_of_le h with hlt | heq
  · exact (halfEven_le_floor_add_one q).trans (Int.floor_lt.2 hlt)
  · have hfract : Int.fract q = 0 := by rw [heq, Int.fract_intCast]
    unfold halfEven
    rw [hfract, if_pos (by norm_num), heq, Int.floor_intCast]

theorem halfEven_intCast (n : ℤ) : halfEven n = n :=
  le_antisymm (halfEven_le le_rfl) (le_halfEven le_rfl)

/-- The nearest integer is at most half below. -/
theorem sub_half_le_halfEven (q : ℚ) : q - 1 / 2 ≤ halfEven q := by
  have hfract := Int.self_sub_floor q
  have hlt := Int.fract_lt_one q
  unfold halfEven
  split_ifs <;> push_cast <;> linarith

/-- Ties go to the even one on both sides of zero alike, so rounding does not see the sign. -/
theorem halfEven_neg (q : ℚ) : halfEven (-q) = -halfEven q := by
  by_cases hfract : Int.fract q = 0
  · obtain ⟨n, hn⟩ : ∃ n : ℤ, (n : ℚ) = q := ⟨⌊q⌋, by
      have hself := Int.self_sub_floor q
      linarith⟩
    rw [← hn, ← Int.cast_neg, halfEven_intCast, halfEven_intCast]
  · have hneg := Int.fract_neg hfract
    have hfloor : ⌊-q⌋ = -⌊q⌋ - 1 := by
      have h1 := Int.self_sub_floor q
      have h2 := Int.self_sub_floor (-q)
      have hsum : ((⌊-q⌋ : ℤ) : ℚ) = ((-⌊q⌋ - 1 : ℤ) : ℚ) := by
        push_cast
        linarith
      exact_mod_cast hsum
    unfold halfEven
    rw [hneg, hfloor]
    split_ifs <;> first | omega | (exfalso; linarith)

/-- Rounding to integers keeps the order. Where the floors are the same the fractions decide,
and a tie goes the same way for both. -/
theorem halfEven_mono {q q' : ℚ} (h : q ≤ q') : halfEven q ≤ halfEven q' := by
  rcases lt_or_eq_of_le (Int.floor_le_floor h) with hlt | heq
  · exact (halfEven_le_floor_add_one q).trans ((Int.add_one_le_iff.2 hlt).trans (floor_le_halfEven q'))
  · have hfract : Int.fract q ≤ Int.fract q' := by
      rw [← Int.self_sub_floor, ← Int.self_sub_floor, heq]
      linarith
    unfold halfEven
    rw [heq]
    split_ifs <;> first | omega | (exfalso; linarith)

/-! ## Rounding -/

/-- The exponent of the unit in the last place: 53 binary digits, and none below
`2 ^ -1074`. -/
def exponent (q : ℚ) : ℤ := max (Int.log 2 |q| - 52) (-1074)

def ulp (q : ℚ) : ℚ := (2 : ℚ) ^ exponent q

/-- The nearest multiple of the unit in the last place. -/
def roundValue (q : ℚ) : ℚ := halfEven (q / ulp q) * ulp q

theorem ulp_pos (q : ℚ) : 0 < ulp q := zpow_pos (by norm_num) _

/-- A power of two from the last place on is a multiple of the unit. The powers of two are
where the unit changes, so this is what bounds of rounding are made from. -/
theorem zpow_eq_mul_ulp {q : ℚ} {e : ℤ} (h : exponent q ≤ e) :
    (2 : ℚ) ^ e = ((2 ^ (e - exponent q).toNat : ℤ) : ℚ) * ulp q := by
  have hnat : (((e - exponent q).toNat : ℕ) : ℤ) = e - exponent q := Int.toNat_of_nonneg (by omega)
  rw [ulp, Int.cast_pow, Int.cast_ofNat, ← zpow_natCast, hnat, ← zpow_add₀ (by norm_num)]
  congr 1
  omega

theorem neg_le_exponent (q : ℚ) : -1074 ≤ exponent q := le_max_right _ _

@[simp] theorem exponent_neg (q : ℚ) : exponent (-q) = exponent q := by rw [exponent, exponent, abs_neg]

@[simp] theorem exponent_abs (q : ℚ) : exponent |q| = exponent q := by rw [exponent, exponent, abs_abs]

/-- A number below `2 ^ (e + 53)` has its last place at `e` or lower: 53 binary digits from
there reach it. -/
theorem exponent_le {q : ℚ} {e : ℤ} (hlow : -1074 ≤ e) (hq : 0 < q) (h : q < (2 : ℚ) ^ (e + 53)) :
    exponent q ≤ e := by
  have hlog : Int.log 2 q < e + 53 := (Int.lt_zpow_iff_log_lt (by norm_num) hq).1 (by exact_mod_cast h)
  rw [exponent, abs_of_pos hq]
  omega

theorem exponent_le_of_abs {q : ℚ} {e : ℤ} (hlow : -1074 ≤ e) (hq : q ≠ 0) (h : |q| < (2 : ℚ) ^ (e + 53)) :
    exponent q ≤ e := by
  rw [← exponent_abs]
  exact exponent_le hlow (abs_pos.2 hq) h

theorem abs_lt_zpow (q : ℚ) : |q| < (2 : ℚ) ^ (exponent q + 53) := by
  have hlog : |q| < (2 : ℚ) ^ (Int.log 2 |q| + 1) := by exact_mod_cast Int.lt_zpow_succ_log_self (by norm_num) |q|
  refine hlog.trans_le (zpow_le_zpow_right₀ (by norm_num) ?_)
  rw [exponent]
  omega

/-- The last place is 52 binary digits behind the first one, or the last place of all. -/
theorem ulp_le {q b : ℚ} (hq : 0 < q) (hfirst : q * (2 : ℚ) ^ (-52 : ℤ) ≤ b) (hlast : (2 : ℚ) ^ (-1074 : ℤ) ≤ b) :
    ulp q ≤ b := by
  rw [ulp, exponent]
  rcases max_choice (Int.log 2 |q| - 52) (-1074) with h | h
  · rw [h, sub_eq_add_neg, zpow_add₀ (by norm_num), abs_of_pos hq]
    have hlog : (2 : ℚ) ^ Int.log 2 q ≤ q := by exact_mod_cast Int.zpow_log_le_self (by norm_num) hq
    exact (mul_le_mul_of_nonneg_right hlog (zpow_pos (by norm_num) _).le).trans hfirst
  · rw [h]
    exact hlast

/-- A whole number of up to 53 binary digits, at any place, is a multiple of its own unit. Its
unit may be smaller than the place, when it has fewer digits. -/
theorem exists_eq_mul_ulp {n e : ℤ} (he : -1074 ≤ e) (hn : |n| < 2 ^ 53) :
    ∃ k : ℤ, (n * (2 : ℚ) ^ e) = k * ulp (n * (2 : ℚ) ^ e) := by
  by_cases hzero : n = 0
  · subst hzero
    exact ⟨0, by simp⟩
  · have hpow : (0 : ℚ) < 2 ^ e := zpow_pos (by norm_num) e
    have habs : |(n : ℚ) * 2 ^ e| < (2 : ℚ) ^ (e + 53) := by
      have hcast : |(n : ℚ)| < 2 ^ 53 := by exact_mod_cast hn
      rw [abs_mul, abs_of_pos hpow, zpow_add₀ (by norm_num), mul_comm]
      exact mul_lt_mul_of_pos_left (by exact_mod_cast hcast) hpow
    have hne : (n : ℚ) * 2 ^ e ≠ 0 := mul_ne_zero (by exact_mod_cast hzero) hpow.ne'
    have hmultiple := zpow_eq_mul_ulp (exponent_le_of_abs he hne habs)
    refine ⟨n * 2 ^ (e - exponent ((n : ℚ) * 2 ^ e)).toNat, ?_⟩
    rw [Int.cast_mul, mul_assoc, ← hmultiple]

/-- A multiple of its own unit is not rounded. -/
theorem roundValue_of_multiple {q : ℚ} {n : ℤ} (h : q = n * ulp q) : roundValue q = q := by
  have hdiv : q / ulp q = n := by
    rw [div_eq_iff (ulp_pos q).ne']
    exact h
  rw [roundValue, hdiv, halfEven_intCast]
  exact h.symm

/-- Rounding does not pass a power of two from above. -/
theorem zpow_le_roundValue {q : ℚ} {e : ℤ} (he : exponent q ≤ e) (h : (2 : ℚ) ^ e ≤ q) :
    (2 : ℚ) ^ e ≤ roundValue q := by
  rw [zpow_eq_mul_ulp he] at h ⊢
  have hdiv := (le_div_iff₀ (ulp_pos q)).2 h
  exact mul_le_mul_of_nonneg_right (by exact_mod_cast le_halfEven hdiv) (ulp_pos q).le

/-- Nor from below. -/
theorem roundValue_le_zpow {q : ℚ} {e : ℤ} (he : exponent q ≤ e) (h : q ≤ (2 : ℚ) ^ e) :
    roundValue q ≤ (2 : ℚ) ^ e := by
  rw [zpow_eq_mul_ulp he] at h ⊢
  have hdiv := (div_le_iff₀ (ulp_pos q)).2 h
  exact mul_le_mul_of_nonneg_right (by exact_mod_cast halfEven_le hdiv) (ulp_pos q).le

/-- At most half a unit is lost. -/
theorem sub_half_ulp_le_roundValue (q : ℚ) : q - ulp q / 2 ≤ roundValue q := by
  have hpos := ulp_pos q
  have hnear := mul_le_mul_of_nonneg_right (sub_half_le_halfEven (q / ulp q)) hpos.le
  calc q - ulp q / 2 = (q / ulp q - 1 / 2) * ulp q := by field_simp
    _ ≤ roundValue q := hnear

theorem roundValue_neg (q : ℚ) : roundValue (-q) = -roundValue q := by
  rw [roundValue, roundValue, ulp, exponent_neg, ← ulp, neg_div, halfEven_neg]
  push_cast
  ring

/-- A number that is not positive is not rounded to one that is. -/
theorem roundValue_nonpos {q : ℚ} (h : q ≤ 0) : roundValue q ≤ 0 := by
  have hdiv : q / ulp q ≤ ((0 : ℤ) : ℚ) := by
    rw [Int.cast_zero]
    exact div_nonpos_of_nonpos_of_nonneg h (ulp_pos q).le
  have hle : ((halfEven (q / ulp q) : ℤ) : ℚ) ≤ 0 := by exact_mod_cast halfEven_le hdiv
  exact mul_nonpos_of_nonpos_of_nonneg hle (ulp_pos q).le

theorem roundValue_nonneg {q : ℚ} (h : 0 ≤ q) : 0 ≤ roundValue q := by
  have hdiv : ((0 : ℤ) : ℚ) ≤ q / ulp q := by
    rw [Int.cast_zero]
    exact div_nonneg h (ulp_pos q).le
  have hle : (0 : ℚ) ≤ ((halfEven (q / ulp q) : ℤ) : ℚ) := by exact_mod_cast le_halfEven hdiv
  exact mul_nonneg hle (ulp_pos q).le

/-- A whole number of up to 53 binary digits, at any place, is not rounded. -/
theorem roundValue_intCast_mul {n e : ℤ} (he : -1074 ≤ e) (hn : |n| < 2 ^ 53) :
    roundValue (n * (2 : ℚ) ^ e) = n * (2 : ℚ) ^ e := by
  obtain ⟨k, hk⟩ := exists_eq_mul_ulp he hn
  exact roundValue_of_multiple hk

/-- Whole numbers of 53 binary digits are exact. -/
theorem roundValue_intCast {n : ℤ} (h : |n| < 2 ^ 53) : roundValue n = n := by
  have hexact := roundValue_intCast_mul (e := 0) (by norm_num) h
  rwa [zpow_zero, mul_one] at hexact

theorem roundValue_natCast {n : ℕ} (h : n < 2 ^ 53) : roundValue n = n := by
  have habs : |(n : ℤ)| < 2 ^ 53 := by
    rw [Nat.abs_cast]
    exact_mod_cast h
  exact_mod_cast roundValue_intCast habs

/-- What a number is rounded to is such a whole number at its last place, or the next power of
two, when all 53 digits are rounded up. -/
theorem roundValue_eq_mul (q : ℚ) : ∃ n : ℤ, roundValue q = n * ulp q ∧ |n| ≤ 2 ^ 53 := by
  have hpos := ulp_pos q
  have habs : |q / ulp q| < 2 ^ 53 := by
    rw [abs_div, abs_of_pos hpos, div_lt_iff₀ hpos]
    have hlt := abs_lt_zpow q
    rwa [zpow_add₀ (by norm_num), mul_comm] at hlt
  obtain ⟨hlow, hhigh⟩ := abs_lt.1 habs
  refine ⟨halfEven (q / ulp q), rfl, abs_le.2 ⟨?_, ?_⟩⟩
  · exact le_halfEven (by push_cast; exact hlow.le)
  · exact halfEven_le (by push_cast; exact hhigh.le)

/-- What is rounded stays. With `roundValue_mono` this makes it a closure: no double lies
between a number and what it is rounded to. -/
theorem roundValue_roundValue (q : ℚ) : roundValue (roundValue q) = roundValue q := by
  obtain ⟨n, hn, hle⟩ := roundValue_eq_mul q
  rcases lt_or_eq_of_le hle with hlt | heq
  · rw [hn, ulp]
    exact roundValue_intCast_mul (neg_le_exponent q) hlt
  -- a power of two, one place higher
  · have hsplit : ∃ m : ℤ, n = m * 2 ∧ |m| < 2 ^ 53 := by
      rcases abs_eq (by norm_num : (0 : ℤ) ≤ 2 ^ 53) |>.1 heq with h | h
      · exact ⟨2 ^ 52, by rw [h]; norm_num, by norm_num⟩
      · exact ⟨-2 ^ 52, by rw [h]; norm_num, by norm_num⟩
    obtain ⟨m, rfl, hm⟩ := hsplit
    have hshift : ((m * 2 : ℤ) : ℚ) * ulp q = m * (2 : ℚ) ^ (exponent q + 1) := by
      rw [ulp, zpow_add_one₀ (by norm_num)]
      push_cast
      ring
    rw [hn, hshift]
    exact roundValue_intCast_mul (by have := neg_le_exponent q; omega) hm

theorem exponent_mono {q q' : ℚ} (hq : 0 < q) (h : q ≤ q') : exponent q ≤ exponent q' := by
  have hlog : Int.log 2 q ≤ Int.log 2 q' := Int.log_mono_right hq h
  rw [exponent, exponent, abs_of_pos hq, abs_of_pos (hq.trans_le h)]
  omega

/-- Rounding keeps the order of positive numbers. With the same last place it is rounding to
integers; otherwise a power of two lies between the two. -/
theorem roundValue_mono_of_pos {q q' : ℚ} (hq : 0 < q) (h : q ≤ q') : roundValue q ≤ roundValue q' := by
  rcases lt_or_eq_of_le (exponent_mono hq h) with hlt | heq
  · -- a power of two lies between the two
    have hq' : 0 < q' := hq.trans_le h
    have hlow := neg_le_exponent q
    have hlog : Int.log 2 q' = exponent q' + 52 := by
      have hexponent : exponent q' = max (Int.log 2 q' - 52) (-1074) := by rw [exponent, abs_of_pos hq']
      omega
    have hle : (2 : ℚ) ^ (exponent q' + 52) ≤ q' := by
      rw [← hlog]
      exact_mod_cast Int.zpow_log_le_self (by norm_num) hq'
    have hbelow : q ≤ (2 : ℚ) ^ (exponent q' + 52) := by
      have habs := abs_lt_zpow q
      rw [abs_of_pos hq] at habs
      exact habs.le.trans (zpow_le_zpow_right₀ (by norm_num) (by omega))
    exact (roundValue_le_zpow (by omega) hbelow).trans (zpow_le_roundValue (by omega) hle)
  · have hpos := ulp_pos q
    have hulp : ulp q' = ulp q := by rw [ulp, ulp, heq]
    rw [roundValue, roundValue, hulp]
    refine mul_le_mul_of_nonneg_right ?_ hpos.le
    exact_mod_cast halfEven_mono (div_le_div_of_nonneg_right h hpos.le)

/-- Rounding keeps the order. -/
theorem roundValue_mono {q q' : ℚ} (h : q ≤ q') : roundValue q ≤ roundValue q' := by
  rcases lt_or_ge 0 q with hpos | hneg
  · exact roundValue_mono_of_pos hpos h
  · rcases lt_or_ge q' 0 with hneg' | hpos'
    · have hflip := roundValue_mono_of_pos (neg_pos.2 hneg') (neg_le_neg h)
      rw [roundValue_neg, roundValue_neg] at hflip
      exact neg_le_neg_iff.1 hflip
    · exact (roundValue_nonpos hneg).trans (roundValue_nonneg hpos')

/-- A whole number is rounded to a whole number. -/
theorem exists_roundValue_intCast (n : ℤ) : ∃ m : ℤ, roundValue n = m := by
  by_cases hsmall : |n| < 2 ^ 53
  · exact ⟨n, roundValue_intCast hsmall⟩
  -- from `2 ^ 53` on the last place is a whole number
  · have hlarge : (2 : ℚ) ^ (53 : ℤ) ≤ |(n : ℚ)| := by exact_mod_cast not_lt.1 hsmall
    have hlog : 53 ≤ Int.log 2 |(n : ℚ)| :=
      (Int.zpow_le_iff_le_log (by decide) (lt_of_lt_of_le (by positivity) hlarge)).1 hlarge
    obtain ⟨k, hk⟩ : ∃ k : ℕ, exponent n = k :=
      ⟨(exponent n).toNat, (Int.toNat_of_nonneg (le_max_of_le_left (by omega))).symm⟩
    refine ⟨halfEven (n / ulp n) * 2 ^ k, ?_⟩
    rw [roundValue, ulp, hk, zpow_natCast]
    push_cast
    rfl

/-! ## How far a summand carries -/

/-- **A small summand is lost.** From a number up to a power of two, half a unit more does
not get past the power. -/
theorem roundValue_le_of_small {e : ℤ} (he : -1 ≤ e) {q : ℚ} (h : q ≤ (2 : ℚ) ^ e + (2 : ℚ) ^ (e - 53)) :
    roundValue q ≤ (2 : ℚ) ^ e := by
  rcases le_or_gt q 0 with hneg | hpos
  · exact (roundValue_nonpos hneg).trans (zpow_pos (by norm_num) e).le
  · rcases lt_or_ge q ((2 : ℚ) ^ e) with hlt | hge
    · refine roundValue_le_zpow (exponent_le (by omega) hpos ?_) hlt.le
      exact hlt.trans (zpow_lt_zpow_right₀ (by norm_num) (by omega))
    · -- the unit is `2 ^ (e - 52)`, so that `q` is half a unit from an even multiple
      have hsmall : (2 : ℚ) ^ (e - 53) < (2 : ℚ) ^ e := zpow_lt_zpow_right₀ (by norm_num) (by omega)
      have hlog : Int.log 2 q = e := by
        refine le_antisymm ?_ ((Int.zpow_le_iff_le_log (by norm_num) hpos).1 (by exact_mod_cast hge))
        have hlt : q < ((2 : ℕ) : ℚ) ^ (e + 1) := by
          rw [zpow_add_one₀ (by norm_num)]
          push_cast
          linarith
        have := (Int.lt_zpow_iff_log_lt (by norm_num) hpos).1 hlt
        omega
      have hexponent : exponent q = e - 52 := by
        rw [exponent, abs_of_pos hpos, hlog]
        omega
      have hpow : (2 : ℚ) ^ e = ((2 ^ 52 : ℤ) : ℚ) * ulp q := by
        have hmul := zpow_eq_mul_ulp (q := q) (e := e) (by omega)
        rwa [hexponent, show (e - (e - 52)).toNat = 52 by omega] at hmul
      have hhalf : (2 : ℚ) ^ (e - 53) = 1 / 2 * ulp q := by
        rw [ulp, hexponent, show e - 52 = e - 53 + 1 by omega, zpow_add_one₀ (by norm_num)]
        ring
      have hdiv : q / ulp q ≤ ((2 ^ 52 : ℤ) : ℚ) + 1 / 2 := by
        rw [div_le_iff₀ (ulp_pos q), add_mul, ← hpow, ← hhalf]
        exact h
      rw [hpow]
      exact mul_le_mul_of_nonneg_right
        (by exact_mod_cast halfEven_le_of_even (by norm_num) hdiv) (ulp_pos q).le

/-- **A greater summand is not.** Up to `2 ^ (e + 1)` what is above half of that unit moves
a number on, and beyond it the number has got there. -/
theorem roundValue_ge_of_large {e : ℤ} (he : -1 ≤ e) {q : ℚ} (h : 0 < q) :
    q - (2 : ℚ) ^ (e - 53) ≤ roundValue q ∨ (2 : ℚ) ^ (e + 1) ≤ roundValue q := by
  rcases lt_or_ge q ((2 : ℚ) ^ (e + 1)) with hlt | hge
  · refine Or.inl (le_trans ?_ (sub_half_ulp_le_roundValue q))
    have hexponent : exponent q ≤ e - 52 := by
      refine exponent_le (by omega) h ?_
      rwa [show e - 52 + 53 = e + 1 by omega]
    have hulp : ulp q ≤ (2 : ℚ) ^ (e - 53) * 2 := by
      rw [← zpow_add_one₀ (by norm_num), show e - 53 + 1 = e - 52 by omega]
      exact zpow_le_zpow_right₀ (by norm_num) hexponent
    linarith
  · refine Or.inr ?_
    have hlog : e + 1 ≤ Int.log 2 q := (Int.zpow_le_iff_le_log (by norm_num) h).1 (by exact_mod_cast hge)
    calc (2 : ℚ) ^ (e + 1) ≤ (2 : ℚ) ^ Int.log 2 q := zpow_le_zpow_right₀ (by norm_num) hlog
      _ ≤ roundValue q := by
        refine zpow_le_roundValue ?_ (by exact_mod_cast Int.zpow_log_le_self (by norm_num) h)
        rw [exponent, abs_of_pos h]
        omega

end Binary64

/-! ## The numbers -/

theorem Binary64.abs_intCast_lt {n : ℤ} (h : |n| < 2 ^ 53) : |(n : ℚ)| < 2 ^ 1024 := by
  have hcast : |(n : ℚ)| < 2 ^ 53 := by exact_mod_cast h
  exact hcast.trans (pow_lt_pow_right₀ (by norm_num) (by norm_num))

/-- A finite number of binary64, as its value. -/
structure Binary64 where
  value : ℚ
  rounded : Binary64.roundValue value = value
  bounded : |value| < 2 ^ 1024
deriving DecidableEq

namespace Binary64

instance : Inhabited Binary64 := ⟨⟨0, by decide +kernel, by norm_num⟩⟩

/-- The number that an exact result is rounded to, none from `2 ^ 1024` on. -/
def ofRat (q : ℚ) : Option Binary64 :=
  if h : |roundValue q| < 2 ^ 1024 then some ⟨roundValue q, roundValue_roundValue q, h⟩ else none

/-- The number of a whole number, which is the whole number itself up to 53 binary digits. What
a column or a count holds is never out of range. -/
def ofInt (n : ℤ) : Binary64 :=
  if h : |n| < 2 ^ 53 then ⟨n, roundValue_intCast h, abs_intCast_lt h⟩ else (ofRat n).getD default

/-- A double is its value. Zero is one number here, as its sign is of no matter to any code
that is modelled. -/
theorem ext_value {x y : Binary64} (h : x.value = y.value) : x = y := by
  cases x
  cases y
  cases h
  rfl

theorem ofRat_eq_some {q : ℚ} {x : Binary64} (h : roundValue q = x.value) : ofRat q = some x := by
  have hbounded : |roundValue q| < 2 ^ 1024 := by
    rw [h]
    exact x.bounded
  rw [ofRat, dif_pos hbounded]
  exact congrArg some (ext_value h)

theorem ofInt_value {n : ℤ} (h : |n| < 2 ^ 53) : (ofInt n).value = n := by rw [ofInt, dif_pos h]

end Binary64
