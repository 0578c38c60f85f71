/-
Decimals in normal form, and the notation that ECMAScript gives them.

A decimal is a whole number and the power of ten of its last digit. It is written out where
the point is at most 21 digits behind the first one or six before it, and with an exponent
otherwise.
-/
import Mathlib.Algebra.Order.Field.Rat
import Mathlib.Data.Int.Basic
import Mathlib.Data.List.Basic
import Mathlib.Tactic.Linarith
import Mathlib.Tactic.Positivity

set_option autoImplicit false

/-- A finite decimal `mantissa * 10 ^ exponent`. The normal form is part of the
value: no trailing zero in the mantissa, and one zero. -/
structure Decimal where
  mantissa : ℤ
  exponent : ℤ
  normal : if mantissa = 0 then exponent = 0 else mantissa % 10 ≠ 0
deriving DecidableEq

namespace Decimal

instance : Inhabited Decimal := ⟨⟨0, 0, rfl⟩⟩

/-- Trailing zeros of `m` moved into the exponent `e`. -/
def stripZeros : ℕ → ℕ → ℤ → ℕ × ℤ
  | 0, m, e => (m, e)
  | fuel + 1, m, e => if m % 10 = 0 then stripZeros fuel (m / 10) (e + 1) else (m, e)

/-- What is left has no trailing zero, given as much fuel as the number. Each zero that is
dropped makes the number ten times smaller, so the fuel is more than enough. -/
theorem stripZeros_mod (fuel : ℕ) : ∀ (m : ℕ) (e : ℤ), m ≠ 0 → m ≤ fuel →
    (stripZeros fuel m e).1 % 10 ≠ 0 := by
  induction fuel with
  | zero => intro m e hm hf; omega
  | succ fuel ih =>
    intro m e hm hf
    rw [stripZeros]
    by_cases h : m % 10 = 0
    · rw [if_pos h]
      exact ih (m / 10) (e + 1) (by omega) (by omega)
    · rw [if_neg h]
      exact h

/-- Stripping keeps the value. -/
theorem stripZeros_value (fuel : ℕ) : ∀ (m : ℕ) (e : ℤ), ∃ k : ℕ,
    (stripZeros fuel m e).2 = e + k ∧ (stripZeros fuel m e).1 * 10 ^ k = m := by
  induction fuel with
  | zero => exact fun m e => ⟨0, by simp [stripZeros]⟩
  | succ fuel ih =>
    intro m e
    rw [stripZeros]
    by_cases h : m % 10 = 0
    · obtain ⟨k, hexp, hval⟩ := ih (m / 10) (e + 1)
      rw [if_pos h]
      refine ⟨k + 1, by omega, ?_⟩
      rw [Nat.pow_succ, ← Nat.mul_assoc, hval]
      omega
    · rw [if_neg h]
      exact ⟨0, by simp⟩

/-- The decimal `± m * 10 ^ e`, brought to normal form. -/
def ofParts (neg : Bool) (m : ℕ) (e : ℤ) : Decimal :=
  if h : m = 0 then default
  else
    { mantissa := if neg then -((stripZeros m m e).1 : ℤ) else (stripZeros m m e).1
      exponent := (stripZeros m m e).2
      normal := by
        have hmod := stripZeros_mod m m e h (Nat.le_refl m)
        cases neg <;> simp only [Bool.false_eq_true, if_true, if_false] <;>
          rw [if_neg (by omega)] <;> omega }

/-- What a decimal in normal form is made of: the number that was given, less the zeros that
its exponent counts, under the sign that was given. -/
theorem ofParts_spec {m : ℕ} (h : m ≠ 0) (neg : Bool) (e : ℤ) : ∃ k : ℕ, (ofParts neg m e).exponent = e + k ∧
    (ofParts neg m e).mantissa.natAbs * 10 ^ k = m ∧ decide ((ofParts neg m e).mantissa < 0) = neg := by
  obtain ⟨k, hexp, hval⟩ := stripZeros_value m m e
  have hpos : (stripZeros m m e).1 ≠ 0 := by
    intro hzero
    rw [hzero, Nat.zero_mul] at hval
    exact h hval.symm
  rw [ofParts, dif_neg h]
  cases neg with
  | true => exact ⟨k, hexp, by simpa using hval, decide_eq_true (by simp only [if_true]; omega)⟩
  | false =>
    exact ⟨k, hexp, by simpa using hval, decide_eq_false (by simp only [Bool.false_eq_true, if_false]; omega)⟩

/-! ## Its value -/

def value (d : Decimal) : ℚ := d.mantissa * (10 : ℚ) ^ d.exponent

/-- Normal form keeps the value, and with it two decimals are the same exactly when their
values are. -/
theorem ofParts_value (neg : Bool) (m : ℕ) (e : ℤ) :
    (ofParts neg m e).value = (if neg then -(m : ℚ) else m) * (10 : ℚ) ^ e := by
  rw [ofParts]
  by_cases h : m = 0
  · rw [dif_pos h, h]
    cases neg <;> norm_num [value, default]
  · obtain ⟨k, hexp, hval⟩ := stripZeros_value m m e
    have hpow : ((stripZeros m m e).1 : ℚ) * (10 : ℚ) ^ (stripZeros m m e).2 = m * (10 : ℚ) ^ e := by
      rw [hexp, zpow_add₀ (by norm_num), zpow_natCast, mul_comm ((10 : ℚ) ^ e), ← mul_assoc]
      exact congrArg (· * (10 : ℚ) ^ e) (by exact_mod_cast hval)
    rw [dif_neg h, value]
    cases neg with
    | true =>
      simp only [if_true, Int.cast_neg, Int.cast_natCast, neg_mul]
      rw [hpow]
    | false =>
      simp only [Bool.false_eq_true, if_false, Int.cast_natCast]
      exact hpow

/-! ## Its text -/

/-- The decimal digits of the mantissa, without its sign. -/
def digits (d : Decimal) : List Char := Nat.toDigits 10 d.mantissa.natAbs

/-- The exponent part of the exponent notation. -/
def exponentChars (e : ℤ) : List Char :=
  'e' :: (if e < 0 then '-' else '+') :: Nat.toDigits 10 e.natAbs

/-- The digits `ds` with the decimal point `n` places after their start, in the
notation ECMAScript chooses. -/
def placePoint (ds : List Char) (n : ℤ) : List Char :=
  if ds.length ≤ n ∧ n ≤ 21 then
    ds ++ List.replicate (n - ds.length).toNat '0'
  else if 0 < n ∧ n ≤ 21 then
    ds.take n.toNat ++ '.' :: ds.drop n.toNat
  else if -6 < n ∧ n ≤ 0 then
    '0' :: '.' :: (List.replicate (-n).toNat '0' ++ ds)
  else if ds.length = 1 then
    ds ++ exponentChars (n - 1)
  else
    ds.take 1 ++ '.' :: (ds.drop 1 ++ exponentChars (n - 1))

/-- ECMAScript's `Number::toString` in base ten. -/
def toChars (d : Decimal) : List Char :=
  (if d.mantissa < 0 then ['-'] else []) ++
    placePoint d.digits (d.digits.length + d.exponent)

end Decimal
