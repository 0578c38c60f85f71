/-
JavaScript numbers, as far as the arithmetic of the service looks at them.

A finite number is a rational, which binary64 numbers are. Comparison and `Math.max` choose
among numbers that are there; what makes a new one, a sum, a product or the reading of a
decimal, rounds the exact result to binary64. An operand that is no binary64 number is read as
it is, so that what is said of all rationals holds of the numbers of binary64 among them.
-/
import TechTrends.ShortestDecimal
import TechTrends.JsString
import Mathlib.Algebra.Order.Ring.Cast
import Mathlib.Algebra.Order.Ring.Rat

set_option autoImplicit false

/-- A number value. -/
inductive JsNumber
  | nan
  | infinity (neg : Bool)
  | finite (q : ℚ)
deriving DecidableEq

namespace JsNumber

instance : Coe ℤ JsNumber := ⟨fun n => finite n⟩

/-! ## Comparison and choice -/

/-- `Math.max(1, x)`, which is `NaN` when `x` is. -/
def maxOne : JsNumber → JsNumber
  | nan => nan
  | infinity neg => if neg then finite 1 else infinity false
  | finite q => finite (max 1 q)

/-- The integer that a reader of signed 64-bit decimals finds in `String(x)`, when
that text is one. -/
def toInteger : JsNumber → Option ℤ
  | finite q => if q.den = 1 ∧ -2 ^ 63 ≤ q.num ∧ q.num < 2 ^ 63 then some q.num else none
  | _ => none

/-- `n > x`, false against `NaN`. -/
def ltInt (x : JsNumber) (n : ℤ) : Bool :=
  match x with
  | nan => false
  | infinity neg => neg
  | finite q => q < n

/-- `ToBoolean` of a number. -/
def truthy : JsNumber → Bool
  | nan => false
  | infinity _ => true
  | finite q => q ≠ 0

/-- `a < b`, false when either is `NaN`. -/
def lt : JsNumber → JsNumber → Bool
  | finite p, finite q => p < q
  | finite _, infinity neg => !neg
  | infinity neg, finite _ => neg
  | infinity true, infinity false => true
  | _, _ => false

theorem toInteger_ofNat {n : ℕ} (h : n < 2 ^ 63) :
    toInteger ((n : ℤ) : JsNumber) = some (n : ℤ) := by
  have hlow : (-2 : ℤ) ^ 63 ≤ n := by omega
  have hhigh : (n : ℤ) < 2 ^ 63 := by exact_mod_cast h
  have hnum : ((n : ℤ) : ℚ).num = n := Rat.num_intCast n
  rw [toInteger, hnum, if_pos ⟨Rat.den_intCast n, hlow, hhigh⟩]

theorem maxOne_ofInt {n : ℤ} (h : 1 ≤ n) : maxOne (n : JsNumber) = (n : JsNumber) := by
  have hq : (1 : ℚ) ≤ (n : ℚ) := by exact_mod_cast h
  simp [maxOne, hq]

@[simp] theorem ltInt_ofInt (m n : ℤ) : ltInt (m : JsNumber) n = decide (m < n) := by
  simp only [ltInt, Int.cast_lt]

/-! ## Results that are rounded -/

/-- The number that stands for an exact result, an infinity from `2 ^ 1024` on. -/
def round (q : ℚ) : JsNumber :=
  if |Binary64.roundValue q| < 2 ^ 1024 then finite (Binary64.roundValue q) else infinity (q < 0)

/-- `x + y`. -/
def add : JsNumber → JsNumber → JsNumber
  | nan, _ => nan
  | _, nan => nan
  -- infinities of two signs have no sum
  | infinity a, infinity b => if a = b then infinity a else nan
  | infinity a, finite _ => infinity a
  | finite _, infinity b => infinity b
  | finite p, finite q => round (p + q)

theorem add_natCast {m n : ℕ} (h : m + n < 2 ^ 53) :
    add (finite (m : ℚ)) (finite (n : ℚ)) = finite ((m + n : ℕ) : ℚ) := by
  have hlt : |((m + n : ℕ) : ℚ)| < 2 ^ 1024 := by
    have hrange : ((m + n : ℕ) : ℚ) < 2 ^ 53 := by exact_mod_cast h
    rw [Nat.abs_cast]
    exact hrange.trans (pow_lt_pow_right₀ (by norm_num) (by norm_num))
  rw [add, ← Nat.cast_add, round, Binary64.roundValue_natCast h, if_pos hlt]

/-- `x * y`. -/
def mul : JsNumber → JsNumber → JsNumber
  | finite p, finite q => round (p * q)
  | infinity a, infinity b => infinity (a != b)
  | infinity a, finite q => if q = 0 then nan else infinity (a != decide (q < 0))
  | finite p, infinity b => if p = 0 then nan else infinity (decide (p < 0) != b)
  | _, _ => nan

/-- What is not negative is positive when what it is rounded to is. A number below half of the
smallest double is rounded to 0, so the converse fails. -/
theorem lt_round {v : ℚ} (hv : 0 ≤ v) : lt (0 : ℤ) (round v) = decide (0 < Binary64.roundValue v) := by
  rw [round]
  split
  · simp [lt]
  · next hlarge =>
    have hpos : 0 < Binary64.roundValue v := by
      rw [abs_of_nonneg (Binary64.roundValue_nonneg hv), not_lt] at hlarge
      exact lt_of_lt_of_le (by norm_num) hlarge
    rw [decide_eq_true hpos, decide_eq_false (not_lt.2 hv)]
    rfl

/-- A positive number of binary64 stays positive when it is multiplied by one from 1 on. -/
theorem lt_mul_round (x : Binary64) (hx : 0 < x.value) {v : ℚ} (hv : 1 ≤ v) :
    lt (0 : ℤ) (mul (finite x.value) (round v)) = true := by
  have hone : 1 ≤ Binary64.roundValue v := by
    have hmono := Binary64.roundValue_mono hv
    rwa [show Binary64.roundValue 1 = 1 by decide +kernel] at hmono
  rw [round]
  split
  · have hle : x.value ≤ x.value * Binary64.roundValue v := le_mul_of_one_le_right hx.le hone
    have hround := Binary64.roundValue_mono hle
    rw [x.rounded] at hround
    rw [mul, lt_round (hx.le.trans hle)]
    exact decide_eq_true (hx.trans_le hround)
  · rw [mul, if_neg hx.ne', decide_eq_false (not_lt.2 hx.le), decide_eq_false (not_lt.2 (one_pos.le.trans hv))]
    rfl

/-- `Math.ceil(x * 1000)`: the product is rounded before the ceiling is taken. -/
def ceilTimes1000 : JsNumber → JsNumber
  | finite q =>
    match round (q * 1000) with
    | finite r => finite ⌈r⌉
    | x => x
  | x => x

/-! ## Reading a number -/

def ofDigits (ds : List Char) : ℕ := Nat.ofDigitChars 10 ds 0

/-- The exponent of a decimal literal, 0 when the text has none. -/
def exponentOf : List Char → ℤ
  | 'e' :: '-' :: r | 'E' :: '-' :: r => -(ofDigits (r.takeWhile Char.isDigit) : ℤ)
  | 'e' :: '+' :: r | 'E' :: '+' :: r => ofDigits (r.takeWhile Char.isDigit)
  | 'e' :: r | 'E' :: r => ofDigits (r.takeWhile Char.isDigit)
  | _ => 0

/-- The longest prefix that is a decimal literal without a sign. -/
def parseUnsigned (cs : List Char) : JsNumber :=
  if "Infinity".toList.isPrefixOf cs then infinity false
  else
    let ip := cs.takeWhile Char.isDigit
    let rest := cs.dropWhile Char.isDigit
    let (fp, rest) :=
      match rest with
      | '.' :: r => (r.takeWhile Char.isDigit, r.dropWhile Char.isDigit)
      | r => ([], r)
    if ip = [] ∧ fp = [] then nan
    else round ((ofDigits (ip ++ fp) : ℚ) / 10 ^ fp.length * (10 : ℚ) ^ exponentOf rest)

def neg : JsNumber → JsNumber
  | nan => nan
  | infinity b => infinity !b
  | finite q => finite (-q)

/-- `parseFloat`. -/
def parseFloat (s : String) : JsNumber :=
  match s.toList.dropWhile JsString.isWhitespace with
  | '-' :: cs => neg (parseUnsigned cs)
  | '+' :: cs => parseUnsigned cs
  | cs => parseUnsigned cs

/-! ## Writing a number -/

/-- `String(x)`. -/
def toText : JsNumber → String
  | nan => "NaN"
  | infinity neg => if neg then "-Infinity" else "Infinity"
  | finite q => String.ofList (Binary64.decimalOf q).toChars

/-! ## Timers -/

/-- The milliseconds after which `setTimeout(f, x)` fires: a delay outside
`1 … 2147483647` counts as 1. -/
def timerMs : JsNumber → ℕ
  | finite q => if 1 ≤ q ∧ q ≤ 2147483647 then ⌊q⌋.toNat else 1
  | _ => 1

end JsNumber
