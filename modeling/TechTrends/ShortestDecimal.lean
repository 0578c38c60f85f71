/-
The decimal that ECMAScript writes for a number: of all that are rounded to the number, one
whose last digit has the greatest power of ten.

The powers are tried from that of the first digit on. At each there are two multiples next to
the number, and if any multiple is rounded to it then one of these is. At the latest the power
`10 ^ -1074` fits, of which every number is a multiple. So the decimal reads back as the
number, and the decimal of a whole number has no digit behind the point.
-/
import TechTrends.Binary64
import TechTrends.Decimal

set_option autoImplicit false

namespace Binary64

/-! ## The search -/

/-- The multiple of `10 ^ p` that may stand for `q`: the nearest one, or else its neighbour. -/
def candidate (q : ℚ) (p : ℤ) : Option ℕ :=
  ([halfEven (q / 10 ^ p), ⌊q / 10 ^ p⌋, ⌊q / 10 ^ p⌋ + 1].map Int.toNat).find? fun n =>
    roundValue (n * (10 : ℚ) ^ p) = q

/-- The first candidate from `10 ^ p` on, downwards. -/
def shortestFrom (q : ℚ) : ℕ → ℤ → ℕ × ℤ
  | 0, p => (⌊q / 10 ^ p⌋.toNat, p)
  | fuel + 1, p =>
    match candidate q p with
    | some n => (n, p)
    | none => shortestFrom q fuel (p - 1)

/-- The digits, as a whole number, and the power of the last one. -/
def shortest (q : ℚ) : ℕ × ℤ := shortestFrom q (Int.log 10 q + 1074).toNat (Int.log 10 q)

/-- The decimal that stands for a value of binary64. A whole number of up to 53 binary digits is
apart from all others by one at least, so that there is nothing to search for. -/
def decimalOf (q : ℚ) : Decimal :=
  if q.den = 1 ∧ q.num.natAbs < 2 ^ 53 then Decimal.ofParts (q < 0) q.num.natAbs 0
  else Decimal.ofParts (q < 0) (shortest |q|).1 (shortest |q|).2

def decimal (x : Binary64) : Decimal := decimalOf x.value

/-- ECMAScript's `Number::toString` in base ten. -/
def toChars (x : Binary64) : List Char := x.decimal.toChars

/-! ## What is found -/

theorem ten_zpow_pos (p : ℤ) : (0 : ℚ) < 10 ^ p := zpow_pos (by norm_num) p

/-- A candidate reads back as the number, and is one of the two multiples next to it. -/
theorem candidate_spec {q : ℚ} {p : ℤ} {n : ℕ} (h : candidate q p = some n) :
    roundValue (n * (10 : ℚ) ^ p) = q ∧ ⌊q / 10 ^ p⌋ ≤ n := by
  rw [candidate] at h
  have hround := List.find?_some h
  obtain ⟨m, hm, rfl⟩ := List.mem_map.1 (List.mem_of_find?_eq_some h)
  refine ⟨of_decide_eq_true hround, le_trans ?_ (Int.self_le_toNat m)⟩
  simp only [List.mem_cons, List.not_mem_nil, or_false] at hm
  rcases hm with rfl | rfl | rfl
  · exact floor_le_halfEven _
  · exact le_rfl
  · omega

/-- A multiple is its own candidate, so at a power of which the number is a multiple the
search finds one. -/
theorem candidate_of_multiple {q : ℚ} {p : ℤ} {m : ℕ} (hq : roundValue q = q) (h : q = m * (10 : ℚ) ^ p) :
    (candidate q p).isSome = true := by
  have hdiv : q / 10 ^ p = ((m : ℤ) : ℚ) := by
    rw [h, mul_div_cancel_right₀ _ (ten_zpow_pos p).ne', Int.cast_natCast]
  rw [candidate, List.find?_isSome]
  refine ⟨m, List.mem_map.2 ⟨m, ?_, Int.toNat_natCast m⟩, decide_eq_true ?_⟩
  · rw [hdiv, Int.floor_intCast]
    simp
  · rw [← h, hq]

/-- The search ends at a power of which the number is a multiple, or before. The induction is
on the fuel, which counts the powers down to that one; what is found is rounded to the number
wherever the search ends. -/
theorem shortestFrom_spec {q : ℚ} {m : ℕ} {p₀ : ℤ} (hq : roundValue q = q) (h : q = m * (10 : ℚ) ^ p₀) :
    ∀ {fuel : ℕ} {p : ℤ}, p₀ ≤ p → p ≤ p₀ + fuel →
      roundValue ((shortestFrom q fuel p).1 * (10 : ℚ) ^ (shortestFrom q fuel p).2) = q ∧
        p₀ ≤ (shortestFrom q fuel p).2 ∧ (shortestFrom q fuel p).2 ≤ p ∧
        ⌊q / 10 ^ (shortestFrom q fuel p).2⌋ ≤ (shortestFrom q fuel p).1 := by
  intro fuel
  induction fuel with
  | zero =>
    intro p hlow hhigh
    obtain rfl : p = p₀ := by
      rw [Nat.cast_zero, add_zero] at hhigh
      exact le_antisymm hhigh hlow
    have hdiv : q / 10 ^ p = ((m : ℤ) : ℚ) := by
      rw [h, mul_div_cancel_right₀ _ (ten_zpow_pos p).ne', Int.cast_natCast]
    rw [shortestFrom, hdiv, Int.floor_intCast, Int.toNat_natCast, ← h]
    exact ⟨hq, le_rfl, le_rfl, le_rfl⟩
  | succ fuel ih =>
    intro p hlow hhigh
    rw [shortestFrom]
    cases hcandidate : candidate q p with
    | some n => exact ⟨(candidate_spec hcandidate).1, hlow, le_rfl, (candidate_spec hcandidate).2⟩
    | none =>
      have hne : p ≠ p₀ := by
        rintro rfl
        have hsome := candidate_of_multiple hq h
        rw [hcandidate] at hsome
        cases hsome
      obtain ⟨hround, hge, hle, hfloor⟩ := ih (p := p - 1) (by omega) (by push_cast at hhigh; omega)
      exact ⟨hround, hge, hle.trans (by omega), hfloor⟩

theorem two_zpow_neg (a : ℕ) : (2 : ℚ) ^ (-(a : ℤ)) = 5 ^ a * (10 : ℚ) ^ (-(a : ℤ)) := by
  rw [show (10 : ℚ) = 5 * 2 by norm_num, mul_zpow, ← mul_assoc, zpow_neg 5, zpow_natCast,
    mul_inv_cancel₀ (pow_ne_zero a (by norm_num)), one_mul]

/-- Every number is a multiple of `10 ^ -1074`. Its binary digits end at `2 ^ -1074`, which is
`5 ^ 1074` of these. -/
theorem exists_multiple {q : ℚ} (hpos : 0 ≤ q) (hq : roundValue q = q) :
    ∃ m : ℕ, q = m * (10 : ℚ) ^ (-((1074 : ℕ) : ℤ)) := by
  obtain ⟨n, hn, -⟩ := roundValue_eq_mul q
  rw [hq] at hn
  obtain ⟨n, rfl⟩ := Int.eq_ofNat_of_zero_le (show 0 ≤ n by
    have hcast : (0 : ℚ) ≤ n := nonneg_of_mul_nonneg_left (hn ▸ hpos) (ulp_pos q)
    exact_mod_cast hcast)
  obtain ⟨k, hk⟩ : ∃ k : ℕ, exponent q = k + -((1074 : ℕ) : ℤ) :=
    ⟨(exponent q + 1074).toNat, by have := neg_le_exponent q; omega⟩
  refine ⟨n * 2 ^ k * 5 ^ 1074, ?_⟩
  calc q = n * (2 ^ k * (2 : ℚ) ^ (-((1074 : ℕ) : ℤ))) := by
        rw [← zpow_natCast, ← zpow_add₀ (by norm_num), ← hk]
        exact hn
    _ = ((n * 2 ^ k * 5 ^ 1074 : ℕ) : ℚ) * (10 : ℚ) ^ (-((1074 : ℕ) : ℤ)) := by
        rw [two_zpow_neg, Nat.cast_mul, Nat.cast_mul, Nat.cast_pow, Nat.cast_pow, mul_assoc, mul_assoc]
        norm_cast

/-- The decimal of a positive number is rounded to the number and has the place of its first
digit. That of a whole number has no digit behind the point: at the power `10 ^ 0` it is its
own candidate, so the search goes no further. -/
theorem shortest_spec {q : ℚ} (hpos : 0 < q) (hq : roundValue q = q) :
    roundValue ((shortest q).1 * (10 : ℚ) ^ (shortest q).2) = q ∧
      (10 : ℚ) ^ Int.log 10 q ≤ (shortest q).1 * (10 : ℚ) ^ (shortest q).2 ∧
      ∀ m : ℕ, q = m → 0 ≤ (shortest q).2 := by
  obtain ⟨m, hm⟩ := exists_multiple hpos.le hq
  have hone : 1 ≤ m := by
    rw [Nat.one_le_iff_ne_zero]
    rintro rfl
    rw [Nat.cast_zero, zero_mul] at hm
    exact hpos.ne' hm
  -- every number of the format is a multiple of 10⁻¹⁰⁷⁴, so the search ends there
  have hlow : -((1074 : ℕ) : ℤ) ≤ Int.log 10 q := by
    refine (Int.zpow_le_iff_le_log (by norm_num) hpos).1 ?_
    have hle : (1 : ℚ) * (10 : ℚ) ^ (-((1074 : ℕ) : ℤ)) ≤ m * (10 : ℚ) ^ (-((1074 : ℕ) : ℤ)) :=
      mul_le_mul_of_nonneg_right (by exact_mod_cast hone) (ten_zpow_pos _).le
    rw [← hm, one_mul] at hle
    exact_mod_cast hle
  have hfuel : Int.log 10 q ≤ -((1074 : ℕ) : ℤ) + (Int.log 10 q + 1074).toNat := by omega
  obtain ⟨hround, -, hle, hfloor⟩ := shortestFrom_spec hq hm hlow hfuel
  rw [← shortest] at hround hle hfloor
  refine ⟨hround, ?_, fun m' hm' => ?_⟩
  · -- the number is at least this multiple of the last place
    have hdiv : (((10 ^ (Int.log 10 q - (shortest q).2).toNat : ℕ) : ℤ) : ℚ) ≤ q / (10 : ℚ) ^ (shortest q).2 := by
      rw [le_div_iff₀ (ten_zpow_pos _)]
      have hlog : (10 : ℚ) ^ Int.log 10 q ≤ q := by exact_mod_cast Int.zpow_log_le_self (by norm_num) hpos
      refine le_trans (le_of_eq ?_) hlog
      push_cast
      rw [← zpow_natCast, ← zpow_add₀ (by norm_num)]
      congr 1
      omega
    have hdigits := (Int.le_floor.2 hdiv).trans hfloor
    calc (10 : ℚ) ^ Int.log 10 q
        = ((10 ^ (Int.log 10 q - (shortest q).2).toNat : ℕ) : ℚ) * (10 : ℚ) ^ (shortest q).2 := by
          push_cast
          rw [← zpow_natCast, ← zpow_add₀ (by norm_num)]
          congr 1
          omega
      _ ≤ (shortest q).1 * (10 : ℚ) ^ (shortest q).2 :=
          mul_le_mul_of_nonneg_right (by exact_mod_cast hdigits) (ten_zpow_pos _).le
  · -- a whole number is a multiple of one, and the search stops no later
    have hzero : 0 ≤ Int.log 10 q := by
      refine (Int.zpow_le_iff_le_log (by norm_num) hpos).1 ?_
      rw [zpow_zero, hm', Nat.one_le_cast, Nat.one_le_iff_ne_zero]
      rintro rfl
      rw [Nat.cast_zero] at hm'
      exact hpos.ne' hm'
    have hmultiple : q = m' * (10 : ℚ) ^ (0 : ℤ) := by rw [zpow_zero, mul_one, hm']
    exact (shortestFrom_spec hq hmultiple hzero (by omega)).2.1

/-! ## The decimal reads back -/

/-- A digit string and a power of ten that stand for the size of a number. -/
structure Stands (q : ℚ) (s : ℕ × ℤ) : Prop where
  rounds : roundValue (s.1 * (10 : ℚ) ^ s.2) = |q|
  digits : ∀ j : ℕ, (10 : ℚ) ^ j ≤ |q| → (10 : ℚ) ^ j ≤ s.1 * (10 : ℚ) ^ s.2
  whole : q.den = 1 → 0 ≤ s.2
  zero : s.1 = 0 → q = 0

/-- The decimal of a number is made of such a string, with the sign of the number. Zero is the
string without digits. -/
theorem exists_decimalOf_eq {q : ℚ} (hq : roundValue q = q) :
    ∃ s, Stands q s ∧ decimalOf q = Decimal.ofParts (q < 0) s.1 s.2 := by
  have habs : roundValue |q| = |q| := by
    rcases abs_choice q with h | h
    · rw [h, hq]
    · rw [h, roundValue_neg, hq]
  by_cases hexact : q.den = 1 ∧ q.num.natAbs < 2 ^ 53
  · have hvalue : ((q.num.natAbs : ℕ) : ℚ) * (10 : ℚ) ^ (0 : ℤ) = |q| := by
      rw [zpow_zero, mul_one, Nat.cast_natAbs, Int.cast_abs, Rat.coe_int_num_of_den_eq_one hexact.1]
    refine ⟨(q.num.natAbs, 0), ⟨by rw [hvalue, habs], fun j hj => by rw [hvalue]; exact hj, fun _ => le_rfl,
      fun h => Rat.num_eq_zero.1 (Int.natAbs_eq_zero.1 h)⟩, by rw [decimalOf, if_pos hexact]⟩
  · have hzero : q ≠ 0 := by
      rintro rfl
      exact hexact (by decide)
    have hpos := abs_pos.2 hzero
    obtain ⟨hround, hdigits, hwhole⟩ := shortest_spec hpos habs
    refine ⟨shortest |q|, ⟨hround, fun j hj => le_trans ?_ hdigits, fun hden => hwhole q.num.natAbs ?_, fun h => ?_⟩,
      by rw [decimalOf, if_neg hexact]⟩
    · rw [← zpow_natCast]
      refine zpow_le_zpow_right₀ (by norm_num) ((Int.zpow_le_iff_le_log (by norm_num) hpos).1 ?_)
      exact_mod_cast hj
    · rw [Nat.cast_natAbs, Int.cast_abs, Rat.coe_int_num_of_den_eq_one hden]
    · rw [h, Nat.cast_zero, zero_mul] at hdigits
      exact absurd hdigits (not_le.2 (ten_zpow_pos _))

/-- **The decimal of a number reads back as the number.** This is what ECMAScript asks of
`Number::toString` with respect to `StringToNumber`, and what lets JSON carry numbers exactly. -/
theorem roundValue_decimalOf {q : ℚ} (hq : roundValue q = q) : roundValue (decimalOf q).value = q := by
  obtain ⟨s, hs, hdecimal⟩ := exists_decimalOf_eq hq
  rw [hdecimal, Decimal.ofParts_value]
  simp only [decide_eq_true_eq]
  by_cases hneg : q < 0
  · rw [if_pos hneg, neg_mul, roundValue_neg, hs.rounds, abs_of_neg hneg, neg_neg]
  · rw [if_neg hneg, hs.rounds, abs_of_nonneg (not_lt.1 hneg)]

/-- The decimal of a whole number has no digit behind the point. It is another whole number
that is rounded to the same, and with as many digits at least. -/
theorem decimalOf_whole {m : ℤ} (hm : roundValue m = m) : ∃ k : ℕ, (decimalOf m).exponent = k ∧
    decide ((decimalOf m).mantissa < 0) = decide (m < 0) ∧
    roundValue ((decimalOf m).mantissa.natAbs * 10 ^ k : ℕ) = m.natAbs ∧
    ∀ j : ℕ, 10 ^ j ≤ m.natAbs → 10 ^ j ≤ (decimalOf m).mantissa.natAbs * 10 ^ k := by
  have hsign : decide ((m : ℚ) < 0) = decide (m < 0) := decide_eq_decide.2 Int.cast_lt_zero
  have habs : |(m : ℚ)| = m.natAbs := by rw [Nat.cast_natAbs, Int.cast_abs]
  by_cases hzero : m = 0
  · subst hzero
    exact ⟨0, by decide, by decide, by decide +kernel, fun j h => absurd h (by simp)⟩
  obtain ⟨s, hs, hdecimal⟩ := exists_decimalOf_eq hm
  obtain ⟨e, he⟩ := Int.eq_ofNat_of_zero_le (hs.whole (Rat.den_intCast m))
  obtain ⟨k, hexp, hmantissa, hneg⟩ := Decimal.ofParts_spec
    (fun h => hzero (by exact_mod_cast hs.zero h)) (decide ((m : ℚ) < 0)) s.2
  rw [← hdecimal] at hexp hmantissa hneg
  have hvalue : (((decimalOf m).mantissa.natAbs * 10 ^ (e + k) : ℕ) : ℚ) = s.1 * (10 : ℚ) ^ s.2 := by
    rw [he, zpow_natCast, ← hmantissa, pow_add, Nat.mul_comm (10 ^ e), ← Nat.mul_assoc]
    push_cast
    rfl
  refine ⟨e + k, by rw [hexp, he]; push_cast; rfl, hneg.trans hsign, by rw [hvalue, hs.rounds, habs], fun j hj => ?_⟩
  have hle : ((10 ^ j : ℕ) : ℚ) ≤ (((decimalOf m).mantissa.natAbs * 10 ^ (e + k) : ℕ) : ℚ) := by
    rw [hvalue]
    push_cast
    exact hs.digits j (by rw [habs]; exact_mod_cast hj)
  exact_mod_cast hle

theorem ofRat_decimal (x : Binary64) : ofRat x.decimal.value = some x :=
  ofRat_eq_some (roundValue_decimalOf x.rounded)

theorem decimal_injective : Function.Injective decimal := fun x y h =>
  Option.some.inj ((ofRat_decimal x).symm.trans (h ▸ ofRat_decimal y))

end Binary64
