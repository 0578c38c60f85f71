/-
`JSON.parse` undoes `JSON.stringify`.

The proof follows the two functions. A number literal is read part by part
(sign, integer digits, fraction, exponent), the decimal its digits spell is
brought back to normal form by `Decimal.ofParts`, and that decimal is rounded to the number
it was written for. A string literal is read one
escaped character at a time. Arrays and objects are the induction: the fuel that
`parseValue` takes is bounded by `cost`, and `cost` by the length of the text.
-/
import TechTrends.Json
import Mathlib.Data.List.Nodup
import Mathlib.Tactic.IntervalCases
import Mathlib.Tactic.Ring

set_option autoImplicit false

/-! ## Runs of digits -/

namespace Decimal

/-- What follows a run of digits does not start with a digit. -/
def NoDigitHead (r : List Char) : Prop := ∀ c ∈ r.head?, c.isDigit = false

/-- What follows a number: not a digit, a point or an exponent. -/
def NumberEnd (r : List Char) : Prop :=
  ∀ c ∈ r.head?, c.isDigit = false ∧ c ≠ '.' ∧ c ≠ 'e' ∧ c ≠ 'E'

theorem NumberEnd.noDigitHead {r : List Char} (h : NumberEnd r) : NoDigitHead r :=
  fun c hc => (h c hc).1

theorem takeWhile_digits {ds r : List Char} (hd : ∀ c ∈ ds, c.isDigit = true)
    (hr : NoDigitHead r) : (ds ++ r).takeWhile Char.isDigit = ds := by
  rw [List.takeWhile_append_of_pos hd]
  cases r with
  | nil => simp
  | cons c r => rw [List.takeWhile_cons_of_neg (by rw [hr c rfl]; decide), List.append_nil]

theorem dropWhile_digits {ds r : List Char} (hd : ∀ c ∈ ds, c.isDigit = true)
    (hr : NoDigitHead r) : (ds ++ r).dropWhile Char.isDigit = r := by
  rw [List.dropWhile_append_of_pos hd]
  cases r with
  | nil => rfl
  | cons c r => rw [List.dropWhile_cons_of_neg (by rw [hr c rfl]; decide)]

theorem isDigit_toDigits (n : ℕ) : ∀ c ∈ Nat.toDigits 10 n, c.isDigit = true :=
  fun _ hc => Nat.isDigit_of_mem_toDigits (by omega) (by omega) hc

/-- The digits of a positive number do not start with `0`. -/
theorem toDigits_head (n : ℕ) (hn : 0 < n) : (Nat.toDigits 10 n).head? ≠ some '0' := by
  induction n using Nat.strong_induction_on with
  | _ n ih =>
    by_cases hlt : n < 10
    · rw [Nat.toDigits_of_lt_base hlt]
      interval_cases n <;> decide
    · have hdiv : 0 < n / 10 := by omega
      rw [Nat.toDigits_of_base_le (by omega) (by omega),
        List.head?_append_of_ne_nil _ Nat.toDigits_ne_nil]
      exact ih (n / 10) (by omega) hdiv

/-! ## Normal forms -/

/-- Zeros that were put behind a number without one are taken away again, all of them. -/
theorem stripZeros_mul_pow (m : ℕ) (hm : m % 10 ≠ 0) :
    ∀ (j fuel : ℕ) (e : ℤ), j < fuel → stripZeros fuel (m * 10 ^ j) e = (m, e + j) := by
  intro j
  induction j with
  | zero =>
    intro fuel e hf
    obtain ⟨f, rfl⟩ : ∃ f, fuel = f + 1 := ⟨fuel - 1, by omega⟩
    rw [stripZeros, pow_zero, mul_one, if_neg hm]
    simp
  | succ j ih =>
    intro fuel e hf
    obtain ⟨f, rfl⟩ : ∃ f, fuel = f + 1 := ⟨fuel - 1, by omega⟩
    have hpow : m * 10 ^ (j + 1) = m * 10 ^ j * 10 := by ring
    rw [stripZeros, hpow, if_pos (Nat.mul_mod_left _ _), Nat.mul_div_cancel _ (by omega),
      ih f (e + 1) (by omega)]
    push_cast
    rw [Prod.mk.injEq]
    exact ⟨rfl, by ring⟩

/-- The digits of a decimal, padded with `j` zeros, spell the decimal. -/
theorem ofParts_pad (d : Decimal) (j : ℕ) (e : ℤ) (he : e + j = d.exponent)
    (hz : d.mantissa = 0 → j = 0) :
    ofParts (d.mantissa < 0) (d.mantissa.natAbs * 10 ^ j) e = d := by
  obtain ⟨m, x, hnormal⟩ := d
  dsimp only at he hz ⊢
  by_cases hm : m = 0
  · subst hm
    rw [if_pos rfl] at hnormal
    subst hnormal
    have hzero : Int.natAbs 0 * 10 ^ j = 0 := by simp
    unfold ofParts
    rw [dif_pos hzero]
    rfl
  · rw [if_neg hm] at hnormal
    have hne : m.natAbs * 10 ^ j ≠ 0 := by positivity
    have hfuel : j < m.natAbs * 10 ^ j :=
      calc j < 10 ^ j := Nat.lt_pow_self (by omega)
        _ ≤ m.natAbs * 10 ^ j := Nat.le_mul_of_pos_left _ (by omega)
    have hstrip := stripZeros_mul_pow m.natAbs (by omega) j (m.natAbs * 10 ^ j) e hfuel
    unfold ofParts
    rw [dif_neg hne]
    simp only [hstrip, he]
    congr 1
    by_cases hneg : m < 0
    · rw [if_pos (by simpa using hneg)]
      omega
    · rw [if_neg (by simpa using hneg)]
      omega

/-! ## Number literals, part by part -/

end Decimal

namespace Json

open Decimal

theorem parseIntPart_append {ip r : List Char} (hne : ip ≠ [])
    (hd : ∀ c ∈ ip, c.isDigit = true) (hz : ip.head? ≠ some '0' ∨ ip = ['0'])
    (hr : NoDigitHead r) : parseIntPart (ip ++ r) = some (ip, r) := by
  rcases hz with hz | rfl
  · cases ip with
    | nil => exact absurd rfl hne
    | cons c cs =>
      have hc : c ≠ '0' := by simpa using hz
      rw [List.cons_append, parseIntPart.eq_2 _ (by rintro x ⟨⟩; exact hc rfl),
        ← List.cons_append, takeWhile_digits hd hr, dropWhile_digits hd hr, if_neg hne]
  · rfl

theorem parseFracPart_append {fp r : List Char} (hne : fp ≠ [])
    (hd : ∀ c ∈ fp, c.isDigit = true) (hr : NoDigitHead r) :
    parseFracPart ('.' :: (fp ++ r)) = some (fp, r) := by
  rw [parseFracPart, takeWhile_digits hd hr, dropWhile_digits hd hr, if_neg hne]

theorem parseFracPart_none {r : List Char} (hr : ∀ c ∈ r.head?, c ≠ '.') :
    parseFracPart r = some ([], r) :=
  parseFracPart.eq_2 r (by rintro x rfl; exact hr _ rfl rfl)

theorem parseExpPart_none {r : List Char} (hr : ∀ c ∈ r.head?, c ≠ 'e' ∧ c ≠ 'E') :
    parseExpPart r = some (0, r) :=
  parseExpPart.eq_3 r (by rintro x rfl; exact (hr _ rfl).1 rfl)
    (by rintro x rfl; exact (hr _ rfl).2 rfl)

theorem parseExpDigits_append (neg : Bool) (n : ℕ) {r : List Char} (hr : NoDigitHead r) :
    parseExpDigits neg (Nat.toDigits 10 n ++ r) = some (if neg then -(n : ℤ) else n, r) := by
  rw [parseExpDigits, takeWhile_digits (isDigit_toDigits n) hr,
    dropWhile_digits (isDigit_toDigits n) hr, if_neg Nat.toDigits_ne_nil]
  simp only [Nat.ofDigitChars_ten_toDigits]

/-- The exponent as `toChars` writes it, with its sign in any case. -/
theorem parseExpPart_exponentChars (e : ℤ) {r : List Char} (hr : NoDigitHead r) :
    parseExpPart (exponentChars e ++ r) = some (e, r) := by
  rw [exponentChars]
  by_cases he : e < 0
  · rw [if_pos he]
    show parseExpDigits true (Nat.toDigits 10 e.natAbs ++ r) = _
    rw [parseExpDigits_append true _ hr, if_pos rfl]
    congr 2
    omega
  · rw [if_neg he]
    show parseExpDigits false (Nat.toDigits 10 e.natAbs ++ r) = _
    rw [parseExpDigits_append false _ hr]
    congr 2
    simp only [Bool.false_eq_true, if_false]
    omega

/-- The digits that a literal spells, with the zeros the notation adds. -/
theorem ofDigitChars_pad (n j : ℕ) :
    Nat.ofDigitChars 10 (Nat.toDigits 10 n ++ List.replicate j '0') 0 = n * 10 ^ j := by
  rw [Nat.ofDigitChars_append, Nat.ofDigitChars_ten_toDigits, Nat.ofDigitChars_replicate_zero,
    Nat.mul_comm]

/-- Zeros before the digits do not count. -/
theorem ofDigitChars_lead (n j : ℕ) :
    Nat.ofDigitChars 10 ('0' :: (List.replicate j '0' ++ Nat.toDigits 10 n)) 0 = n := by
  have hz : '0' :: (List.replicate j '0' ++ Nat.toDigits 10 n)
      = List.replicate (j + 1) '0' ++ Nat.toDigits 10 n := rfl
  rw [hz, Nat.ofDigitChars_append, Nat.ofDigitChars_replicate_zero, Nat.mul_zero,
    Nat.ofDigitChars_ten_toDigits]

/-- A literal in three parts reads as the decimal the parts spell. The digits of the integer
part and of the fraction are one number, and each digit of the fraction takes one from the
exponent. -/
theorem parseUnsigned_parts (neg : Bool) {cs ip r₁ fp r₂ r : List Char} {e : ℤ}
    (h₁ : parseIntPart cs = some (ip, r₁)) (h₂ : parseFracPart r₁ = some (fp, r₂))
    (h₃ : parseExpPart r₂ = some (e, r)) :
    parseUnsigned neg cs
      = some (ofParts neg (Nat.ofDigitChars 10 (ip ++ fp) 0) (e - fp.length), r) := by
  simp [parseUnsigned, h₁, h₂, h₃]

/-- The digits of a decimal, at its exponent, spell the decimal. -/
theorem ofParts_digits (d : Decimal) {e : ℤ} (he : e = d.exponent) :
    ofParts (d.mantissa < 0) d.mantissa.natAbs e = d := by
  have h := ofParts_pad d 0 e (by rw [he, Nat.cast_zero, add_zero]) fun _ => rfl
  rwa [pow_zero, mul_one] at h

theorem digits_isDigit (d : Decimal) : ∀ c ∈ d.digits, c.isDigit = true := isDigit_toDigits _

theorem digits_ne_nil (d : Decimal) : d.digits ≠ [] := Nat.toDigits_ne_nil

theorem ofDigitChars_digits (d : Decimal) : Nat.ofDigitChars 10 d.digits 0 = d.mantissa.natAbs :=
  Nat.ofDigitChars_ten_toDigits

theorem digits_head {d : Decimal} (hm : d.mantissa ≠ 0) : d.digits.head? ≠ some '0' :=
  toDigits_head _ (by omega)

/-- The zero decimal has one digit and exponent 0. -/
theorem digits_of_zero {d : Decimal} (hm : d.mantissa = 0) : d.digits = ['0'] ∧ d.exponent = 0 := by
  have hn := d.normal
  rw [if_pos hm] at hn
  exact ⟨by rw [digits, hm]; rfl, hn⟩

theorem replicate_zero_isDigit (n : ℕ) : ∀ c ∈ List.replicate n '0', c.isDigit = true := by
  intro c hc
  rw [List.eq_of_mem_replicate hc]
  decide

theorem append_isDigit {ds ds' : List Char} (h : ∀ c ∈ ds, c.isDigit = true)
    (h' : ∀ c ∈ ds', c.isDigit = true) : ∀ c ∈ ds ++ ds', c.isDigit = true :=
  fun c hc => (List.mem_append.1 hc).elim (h c) (h' c)

/-! ## The notations of a number -/

/-- Digits and padding zeros, as for a whole number of up to 21 digits. -/
theorem parseUnsigned_padded (d : Decimal) {j : ℕ} (hj : (j : ℤ) = d.exponent) {r : List Char}
    (hr : NumberEnd r) :
    parseUnsigned (d.mantissa < 0) (d.digits ++ List.replicate j '0' ++ r) = some (d, r) := by
  have hstart : (d.digits ++ List.replicate j '0').head? ≠ some '0'
      ∨ d.digits ++ List.replicate j '0' = ['0'] := by
    by_cases hm : d.mantissa = 0
    · right
      obtain ⟨hd, hx⟩ := digits_of_zero hm
      have hj0 : j = 0 := by omega
      rw [hd, hj0]
      rfl
    · left
      rw [List.head?_append_of_ne_nil _ (digits_ne_nil d)]
      exact digits_head hm
  have hint := parseIntPart_append (by simp [digits_ne_nil])
    (append_isDigit (digits_isDigit d) (replicate_zero_isDigit j)) hstart hr.noDigitHead
  rw [parseUnsigned_parts _ hint (parseFracPart_none fun c hc => (hr c hc).2.1)
    (parseExpPart_none fun c hc => (hr c hc).2.2), List.append_nil, digits, ofDigitChars_pad,
    ofParts_pad d j _ (by simpa using hj) ?_]
  intro hm
  have hx := (digits_of_zero hm).2
  omega

/-- A point after the first `n` digits. This is a number with a fraction, and also the
notation with an exponent where there is more than one digit. -/
theorem parseUnsigned_point (d : Decimal) (hm : d.mantissa ≠ 0) {n : ℕ} (hpos : 0 < n)
    (hn : n < d.digits.length) {r r' : List Char} {e : ℤ} (hr : NoDigitHead r)
    (hexp : parseExpPart r = some (e, r')) (he : e + n = d.digits.length + d.exponent) :
    parseUnsigned (d.mantissa < 0) (d.digits.take n ++ '.' :: (d.digits.drop n ++ r)) =
      some (d, r') := by
  have htake : d.digits.take n ≠ [] := by
    rw [ne_eq, List.take_eq_nil_iff, not_or]
    exact ⟨by omega, digits_ne_nil d⟩
  have htakehead : (d.digits.take n).head? ≠ some '0' := by
    rw [List.head?_take, if_neg (by omega)]
    exact digits_head hm
  have hdrop : d.digits.drop n ≠ [] := by
    rw [ne_eq, List.drop_eq_nil_iff]
    omega
  have hpoint : NoDigitHead ('.' :: (d.digits.drop n ++ r)) := by
    rintro c ⟨⟩
    decide
  have hint := parseIntPart_append htake (fun c hc => digits_isDigit d c (List.mem_of_mem_take hc))
    (Or.inl htakehead) hpoint
  have hfrac := parseFracPart_append hdrop
    (fun c hc => digits_isDigit d c (List.mem_of_mem_drop hc)) hr
  rw [parseUnsigned_parts _ hint hfrac hexp, List.take_append_drop, ofDigitChars_digits,
    ofParts_digits d ?_]
  rw [List.length_drop]
  omega

/-- A point and zeros before the digits, as for `0.000001`. -/
theorem parseUnsigned_lead (d : Decimal) {z : ℕ}
    (hz : (z : ℤ) = -(d.digits.length + d.exponent)) {r : List Char} (hr : NumberEnd r) :
    parseUnsigned (d.mantissa < 0) ('0' :: '.' :: (List.replicate z '0' ++ d.digits) ++ r) =
      some (d, r) := by
  have hint : parseIntPart ('0' :: '.' :: (List.replicate z '0' ++ d.digits) ++ r)
      = some (['0'], '.' :: ((List.replicate z '0' ++ d.digits) ++ r)) := rfl
  have hfrac := parseFracPart_append (by simp [digits_ne_nil])
    (append_isDigit (replicate_zero_isDigit z) (digits_isDigit d)) hr.noDigitHead
  rw [parseUnsigned_parts _ hint hfrac (parseExpPart_none fun c hc => (hr c hc).2.2),
    List.singleton_append, digits, ofDigitChars_lead, ← digits, ofParts_digits d ?_]
  rw [List.length_append, List.length_replicate]
  omega

/-- The first digit and an exponent, where it is the only one: `1e+21`. -/
theorem parseUnsigned_single (d : Decimal) (hm : d.mantissa ≠ 0) {r r' : List Char} {e : ℤ}
    (hr : NoDigitHead r) (hpoint : ∀ c ∈ r.head?, c ≠ '.')
    (hexp : parseExpPart r = some (e, r')) (he : e = d.exponent) :
    parseUnsigned (d.mantissa < 0) (d.digits ++ r) = some (d, r') := by
  have hint := parseIntPart_append (digits_ne_nil d) (digits_isDigit d)
    (Or.inl (digits_head hm)) hr
  rw [parseUnsigned_parts _ hint (parseFracPart_none hpoint) hexp, List.append_nil,
    ofDigitChars_digits, ofParts_digits d ?_]
  simpa using he

/-- Where the point goes, the literal reads as the digits and the exponent. The cases are
those of `placePoint`, and each has its lemma above. -/
theorem parseUnsigned_placePoint (d : Decimal) {r : List Char} (hr : NumberEnd r) :
    parseUnsigned (d.mantissa < 0)
      (placePoint d.digits (d.digits.length + d.exponent) ++ r) = some (d, r) := by
  have hlen : 0 < d.digits.length := List.length_pos_of_ne_nil (digits_ne_nil d)
  have hexp : parseExpPart r = some (0, r) := parseExpPart_none fun c hc => (hr c hc).2.2
  have hhead : ∀ e, (exponentChars e ++ r).head? = some 'e' := fun _ => rfl
  have hexpHead : ∀ e, NoDigitHead (exponentChars e ++ r) := by
    intro e c hc
    rw [hhead e] at hc
    cases hc
    decide
  unfold placePoint
  split_ifs with h₁ h₂ h₃ h₄
  · exact parseUnsigned_padded d (by omega) hr
  all_goals
    -- only the first notation meets the zero decimal
    have hm : d.mantissa ≠ 0 := by
      intro hm
      obtain ⟨hd, hx⟩ := digits_of_zero hm
      apply h₁
      rw [hd, hx]
      simp
  · rw [List.append_assoc, List.cons_append]
    exact parseUnsigned_point d hm (by omega) (by omega) hr.noDigitHead hexp (by omega)
  · exact parseUnsigned_lead d (by omega) hr
  · rw [List.append_assoc]
    refine parseUnsigned_single d hm (hexpHead _) ?_
      (parseExpPart_exponentChars _ hr.noDigitHead) (by omega)
    intro c hc
    rw [hhead] at hc
    cases hc
    decide
  · rw [List.append_assoc, List.cons_append, List.append_assoc]
    exact parseUnsigned_point d hm one_pos (by omega) (hexpHead _)
      (parseExpPart_exponentChars _ hr.noDigitHead) (by push_cast; omega)

/-- The notation begins with a digit in each of its cases. -/
theorem placePoint_head (d : Decimal) :
    ∃ c cs, placePoint d.digits (d.digits.length + d.exponent) = c :: cs ∧ c.isDigit = true := by
  obtain ⟨c, cs, hc⟩ := List.exists_cons_of_ne_nil (Nat.toDigits_ne_nil (b := 10)
    (n := d.mantissa.natAbs))
  have hd : d.digits = c :: cs := hc
  have hdig : c.isDigit = true := isDigit_toDigits d.mantissa.natAbs c (by rw [hc]; simp)
  unfold placePoint
  split_ifs with h₁ h₂ h₃ h₄
  · exact ⟨c, _, by rw [hd]; rfl, hdig⟩
  · obtain ⟨n, hn⟩ : ∃ n : ℕ, (↑d.digits.length + d.exponent).toNat = n + 1 :=
      ⟨(↑d.digits.length + d.exponent).toNat - 1, by omega⟩
    exact ⟨c, _, by rw [hn, hd]; rfl, hdig⟩
  · exact ⟨'0', _, rfl, by decide⟩
  · exact ⟨c, _, by rw [hd]; rfl, hdig⟩
  · exact ⟨c, _, by rw [hd]; rfl, hdig⟩

theorem parseNumber_digit {c : Char} (cs : List Char) (hc : c.isDigit = true) :
    parseNumber (c :: cs) = parseUnsigned false (c :: cs) :=
  parseNumber.eq_2 _ (by rintro r ⟨⟩; exact absurd hc (by decide))

/-- **Numbers.** A decimal's text reads as the decimal. -/
theorem parseNumber_toChars (d : Decimal) {r : List Char} (hr : NumberEnd r) :
    parseNumber (d.toChars ++ r) = some (d, r) := by
  have h := parseUnsigned_placePoint d hr
  obtain ⟨c, cs, hc, hdig⟩ := placePoint_head d
  unfold toChars
  by_cases hneg : d.mantissa < 0
  · rw [if_pos hneg, List.singleton_append, List.cons_append, parseNumber]
    simpa [hneg] using h
  · rw [if_neg hneg, List.nil_append]
    rw [hc, List.cons_append] at h ⊢
    rw [parseNumber_digit _ hdig]
    simpa [hneg] using h

/-- A number's text starts with a digit or a minus sign. -/
theorem toChars_head (d : Decimal) :
    ∃ c cs, d.toChars = c :: cs ∧ (c.isDigit = true ∨ c = '-') := by
  obtain ⟨c, cs, hc, hdig⟩ := placePoint_head d
  unfold toChars
  by_cases hneg : d.mantissa < 0
  · exact ⟨'-', _, by rw [if_pos hneg]; rfl, Or.inr rfl⟩
  · exact ⟨c, cs, by rw [if_neg hneg, hc]; rfl, Or.inl hdig⟩

/-- The shortest decimal of a number is rounded to the number. -/
theorem ofDecimal_decimal (x : Binary64) : ofDecimal x.decimal = num x := by
  have hround := Binary64.ofRat_decimal x
  unfold ofDecimal
  generalize Binary64.ofRat x.decimal.value = rounded at hround
  rw [hround]

/-! ## Strings -/

theorem hexValue_hexDigit : ∀ n < 16, hexValue (hexDigit n) = some n := by decide

theorem parseUnits_escape {c : Char} {u : ℕ} (r : List Char) (hu : c ≠ 'u')
    (hc : simpleEscape c = some u) :
    parseUnits ('\\' :: c :: r) = (parseUnits r).map fun p => (u :: p.1, p.2) := by
  rw [parseUnits.eq_4 c r (by rintro a b c' d r' ⟨⟩ _; exact hu rfl), hc]
  cases parseUnits r <;> rfl

theorem parseUnits_plain {c : Char} (r : List Char) (hq : c ≠ '"') (hb : c ≠ '\\')
    (hc : ¬ c.toNat < 32) :
    parseUnits (c :: r) = (parseUnits r).map fun p => (c.toNat :: p.1, p.2) := by
  rw [parseUnits.eq_5 c r (by rintro ⟨⟩; exact hq rfl)
    (by rintro a b c' d r' ⟨⟩; intro; exact hb rfl) (by rintro a r' ⟨⟩; intro; exact hb rfl),
    if_neg (by rintro (h | h); exacts [hb h, hc h])]
  cases parseUnits r <;> rfl

/-- One escaped character is read as that character, whether it is escaped by a letter, by its
number or not at all. -/
theorem parseUnits_escapeChar (c : Char) (r : List Char) :
    parseUnits (escapeChar c ++ r) = (parseUnits r).map fun p => (c.toNat :: p.1, p.2) := by
  unfold escapeChar
  split_ifs with h₁ h₂ h₃ h₄ h₅ h₆ h₇ h₈
  · rw [h₁]; exact parseUnits_escape r (by decide) (by decide)
  · rw [h₂]; exact parseUnits_escape r (by decide) (by decide)
  · rw [h₃]; exact parseUnits_escape r (by decide) (by decide)
  · rw [h₄]; exact parseUnits_escape r (by decide) (by decide)
  · rw [h₅]; exact parseUnits_escape r (by decide) (by decide)
  · rw [h₆]; exact parseUnits_escape r (by decide) (by decide)
  · rw [h₇]; exact parseUnits_escape r (by decide) (by decide)
  · have hhex : hexUnit '0' '0' (hexDigit (c.toNat / 16)) (hexDigit (c.toNat % 16))
        = some c.toNat := by
      simp only [hexUnit, hexValue_hexDigit _ (show c.toNat / 16 < 16 by omega),
        hexValue_hexDigit _ (show c.toNat % 16 < 16 by omega),
        show hexValue '0' = some 0 by decide, Option.bind_eq_bind, Option.bind_some]
      congr 1
      omega
    simp only [List.cons_append, List.nil_append, parseUnits, hhex]
    cases parseUnits r <;> rfl
  · exact parseUnits_plain r h₁ h₂ h₈

theorem parseUnits_escaped (cs r : List Char) :
    parseUnits (cs.flatMap escapeChar ++ '"' :: r) = some (cs.map Char.toNat, r) := by
  induction cs with
  | nil => rfl
  | cons c cs ih =>
    rw [List.flatMap_cons, List.append_assoc, parseUnits_escapeChar, ih]
    rfl

/-- A character is not a surrogate. -/
theorem toNat_not_surrogate (c : Char) : ¬ (0xD800 ≤ c.toNat ∧ c.toNat < 0xE000) := by
  have h : c.toNat < 0xD800 ∨ 0xDFFF < c.toNat ∧ c.toNat < 0x110000 := c.valid
  omega

/-- Code units that are characters each are joined to these. -/
theorem joinUnits_toNat (cs : List Char) : joinUnits (cs.map Char.toNat) = cs := by
  induction cs with
  | nil => rfl
  | cons c cs ih =>
    have hc := toNat_not_surrogate c
    cases cs with
    | nil =>
      show [_] = [_]
      rw [if_neg hc, Char.ofNat_toNat]
    | cons c' cs =>
      rw [List.map_cons, List.map_cons, joinUnits, if_neg (by omega), if_neg hc,
        Char.ofNat_toNat, ← List.map_cons, ih]

/-- **Strings.** A quoted string reads as the string. -/
theorem parseString_quote (s : String) (r : List Char) :
    parseString (s.toList.flatMap escapeChar ++ '"' :: r) = some (s, r) := by
  rw [parseString, parseUnits_escaped]
  simp [joinUnits_toNat]

/-! ## Values

`cost` is the fuel a value's text takes, and `WellFormed` says that the keys of
each object are distinct, as those of a JavaScript object are, and that no number in the value
is infinite: `JSON.stringify` writes `null` for one. -/

mutual

/-- The fuel `parseValue` needs for the text of a value. -/
def cost : Json → ℕ
  | arr vs => 1 + costElements vs
  | obj ms => 1 + costMembers ms
  | _ => 1

def costElements : List Json → ℕ
  | [] => 0
  | v :: vs => 1 + cost v + costElements vs

def costMembers : List (String × Json) → ℕ
  | [] => 0
  | (_, v) :: ms => 1 + cost v + costMembers ms

end

mutual

/-- Every object in the value has distinct keys, and every number is finite. -/
def WellFormed : Json → Prop
  | infinity _ => False
  | arr vs => WellFormedElements vs
  | obj ms => (ms.map Prod.fst).Nodup ∧ WellFormedMembers ms
  | _ => True

def WellFormedElements : List Json → Prop
  | [] => True
  | v :: vs => WellFormed v ∧ WellFormedElements vs

def WellFormedMembers : List (String × Json) → Prop
  | [] => True
  | (_, v) :: ms => WellFormed v ∧ WellFormedMembers ms

end

theorem setMember_new {k : String} {v : Json} {ms : List (String × Json)}
    (h : k ∉ ms.map Prod.fst) : setMember k v ms = ms ++ [(k, v)] := by
  induction ms with
  | nil => rfl
  | cons m ms ih =>
    rw [List.map_cons, List.mem_cons, not_or] at h
    rw [setMember, if_neg (Ne.symm h.1), ih h.2]
    rfl

/-- Members with distinct keys are kept as they are. `JSON.parse` would otherwise keep the
last value of a key. -/
theorem foldl_setMember (ms init : List (String × Json))
    (h : ((init ++ ms).map Prod.fst).Nodup) :
    ms.foldl (fun acc kv => setMember kv.1 kv.2 acc) init = init ++ ms := by
  induction ms generalizing init with
  | nil => simp
  | cons m ms ih =>
    have hm : m.1 ∉ init.map Prod.fst := by
      rw [List.map_append, List.map_cons, List.nodup_append] at h
      intro hmem
      exact h.2.2 m.1 hmem m.1 (List.mem_cons_self) rfl
    rw [List.foldl_cons, setMember_new hm, ih _ (by simpa using h)]
    simp

theorem skipWs_cons {c : Char} (cs : List Char) (hc : isWs c = false) :
    skipWs (c :: cs) = c :: cs := by
  rw [skipWs, List.dropWhile_cons_of_neg (by rw [hc]; decide)]

/-- The first characters that `parseValue` reads as a number. The other alternatives begin
with a letter, a quote or a bracket. -/
theorem parseValue_number (fuel : ℕ) {c : Char} (cs : List Char)
    (hc : c.isDigit = true ∨ c = '-') :
    parseValue (fuel + 1) (c :: cs) = (parseNumber (c :: cs)).map fun p => (ofDecimal p.1, p.2) := by
  have hws : isWs c = false := by
    rcases hc with hc | rfl
    · by_contra hw
      simp only [isWs, Bool.not_eq_false, Bool.or_eq_true, beq_iff_eq] at hw
      rcases hw with ((rfl | rfl) | rfl) | rfl <;> exact absurd hc (by decide)
    · decide
  have hne : ∀ x : Char, x.isDigit = false → x ≠ '-' → c ≠ x := by
    rintro x hx hx' rfl
    rcases hc with hc | hc
    · rw [hx] at hc; exact absurd hc (by decide)
    · exact hx' hc
  rw [parseValue, skipWs_cons cs hws]
  split
  case h_7 => rfl
  all_goals
    rename_i heq
    rw [List.cons.injEq] at heq
    exact absurd heq.1 (hne _ (by decide) (by decide))

/-- The text of a value is not empty and starts with no white space and no
closing bracket. -/
theorem render_head (v : Json) :
    ∃ c cs, render v = c :: cs ∧ isWs c = false ∧ c ≠ ']' ∧ c ≠ '}' := by
  cases v with
  | null => exact ⟨'n', _, rfl, by decide, by decide, by decide⟩
  | bool b => cases b <;> exact ⟨_, _, rfl, by decide, by decide, by decide⟩
  | num x =>
    obtain ⟨c, cs, hc, hdig⟩ := toChars_head x.decimal
    have hne : ∀ x : Char, x.isDigit = false → x ≠ '-' → c ≠ x := by
      rintro x hx hx' rfl
      rcases hdig with hdig | hdig
      · rw [hx] at hdig; exact absurd hdig (by decide)
      · exact hx' hdig
    refine ⟨c, cs, by rw [render, Binary64.toChars, hc], ?_, hne _ (by decide) (by decide),
      hne _ (by decide) (by decide)⟩
    by_contra hw
    simp only [isWs, Bool.not_eq_false, Bool.or_eq_true, beq_iff_eq] at hw
    rcases hw with ((h | h) | h) | h <;> exact hne _ (by decide) (by decide) h
  | infinity neg => exact ⟨'n', _, rfl, by decide, by decide, by decide⟩
  | str s => exact ⟨'"', _, rfl, by decide, by decide, by decide⟩
  | arr vs => cases vs <;> exact ⟨'[', _, rfl, by decide, by decide, by decide⟩
  | obj ms =>
    rcases ms with _ | ⟨⟨k, v⟩, ms⟩ <;> exact ⟨'{', _, rfl, by decide, by decide, by decide⟩

/-- A value's text followed by anything, seen by `skipWs`. -/
theorem skipWs_render (v : Json) (r : List Char) : skipWs (render v ++ r) = render v ++ r := by
  obtain ⟨c, cs, hc, hws, -, -⟩ := render_head v
  rw [hc, List.cons_append, skipWs_cons _ hws]

theorem numberEnd_cons {c : Char} (r : List Char)
    (h : c.isDigit = false ∧ c ≠ '.' ∧ c ≠ 'e' ∧ c ≠ 'E') : NumberEnd (c :: r) := by
  intro x hx
  rw [List.head?_cons, Option.mem_some_iff] at hx
  exact hx ▸ h

theorem numberEnd_renderElements (vs : List Json) (r : List Char) :
    NumberEnd (renderElements vs ++ r) := by
  cases vs <;> exact numberEnd_cons _ (by decide)

theorem numberEnd_renderMembers (ms : List (String × Json)) (r : List Char) :
    NumberEnd (renderMembers ms ++ r) := by
  rcases ms with _ | ⟨⟨k, v⟩, ms⟩ <;> exact numberEnd_cons _ (by decide)

mutual

/-- **Values.** With enough fuel, a value's text reads as the value. The
induction is on the value; the three clauses are the three parsing functions. -/
theorem parseValue_render : ∀ (v : Json) (fuel : ℕ) (r : List Char),
    WellFormed v → cost v ≤ fuel → NumberEnd r →
    parseValue fuel (render v ++ r) = some (v, r)
  | null, fuel + 1, r, _, _, _ => rfl
  | bool true, fuel + 1, r, _, _, _ => rfl
  | bool false, fuel + 1, r, _, _, _ => rfl
  | num x, fuel + 1, r, _, _, hr => by
    obtain ⟨c, cs, hc, hdig⟩ := toChars_head x.decimal
    have h := parseNumber_toChars x.decimal hr
    rw [render, Binary64.toChars]
    rw [hc, List.cons_append] at h ⊢
    rw [parseValue_number fuel _ hdig, h, Option.map_some, ofDecimal_decimal]
  | str s, fuel + 1, r, _, _, _ => by
    have h := parseString_quote s r
    rw [render, quote, List.cons_append, List.append_assoc, List.singleton_append, parseValue,
      skipWs_cons _ (by decide)]
    simp only [h, Option.map_some]
  | arr [], fuel + 1, r, _, _, _ => rfl
  | arr (v :: vs), fuel + 1, r, hw, hf, hr => by
    rw [cost, costElements] at hf
    rw [WellFormed] at hw
    have h := parseElements_render v vs fuel r hw (by rw [costElements]; omega)
    obtain ⟨c, cs, hc, hws, hclose, -⟩ := render_head v
    rw [render, List.cons_append, List.append_assoc, parseValue, skipWs_cons _ (by decide)]
    simp only [skipWs_render]
    rw [hc, List.cons_append] at h ⊢
    split
    · rename_i heq
      rw [List.cons.injEq] at heq
      exact absurd heq.1 hclose
    · rw [h]
      rfl
  | obj [], fuel + 1, r, _, _, _ => rfl
  | obj ((k, v) :: ms), fuel + 1, r, hw, hf, hr => by
    rw [cost, costMembers] at hf
    rw [WellFormed] at hw
    have h := parseMembers_render k v ms fuel r hw.2 (by rw [costMembers]; omega)
    have htext : render (obj ((k, v) :: ms)) ++ r
        = '{' :: '"' :: (k.toList.flatMap escapeChar
            ++ '"' :: ':' :: (render v ++ (renderMembers ms ++ r))) := by
      simp only [render, quote, List.cons_append, List.append_assoc, List.nil_append]
    rw [htext, parseValue, skipWs_cons _ (by decide)]
    simp only [skipWs_cons _ (show isWs '"' = false by decide)]
    show (parseMembers fuel _).map _ = _
    rw [h, Option.map_some, foldl_setMember _ [] (by simpa using hw.1)]
    rfl
  | arr (_ :: _), 0, _, _, hf, _ => by rw [cost] at hf; omega
  | obj (_ :: _), 0, _, _, hf, _ => by rw [cost] at hf; omega

theorem parseElements_render : ∀ (v : Json) (vs : List Json) (fuel : ℕ) (r : List Char),
    WellFormedElements (v :: vs) → costElements (v :: vs) ≤ fuel →
    parseElements fuel (render v ++ (renderElements vs ++ r)) = some (v :: vs, r)
  | v, vs, 0, r, _, hf => by rw [costElements] at hf; omega
  | v, [], fuel + 1, r, hw, hf => by
    rw [costElements] at hf
    rw [WellFormedElements] at hw
    rw [parseElements, parseValue_render v fuel _ hw.1 (by omega) (numberEnd_renderElements [] r)]
    rfl
  | v, v' :: vs, fuel + 1, r, hw, hf => by
    rw [costElements] at hf
    rw [WellFormedElements] at hw
    have h := parseElements_render v' vs fuel r hw.2 (by omega)
    rw [parseElements,
      parseValue_render v fuel _ hw.1 (by omega) (numberEnd_renderElements (v' :: vs) r)]
    rw [renderElements, List.cons_append, List.append_assoc]
    simp only [Option.bind_eq_bind, Option.bind_some, skipWs_cons _ (show isWs ',' = false by decide),
      h, Option.map_some]

/-- The members of an object, in the third. Their keys are strings, and are read as these. -/
theorem parseMembers_render : ∀ (k : String) (v : Json) (ms : List (String × Json))
    (fuel : ℕ) (r : List Char), WellFormedMembers ((k, v) :: ms) →
    costMembers ((k, v) :: ms) ≤ fuel →
    parseMembers fuel ('"' :: (k.toList.flatMap escapeChar
      ++ '"' :: ':' :: (render v ++ (renderMembers ms ++ r)))) = some ((k, v) :: ms, r)
  | k, v, ms, 0, r, _, hf => by rw [costMembers] at hf; omega
  | k, v, [], fuel + 1, r, hw, hf => by
    rw [costMembers] at hf
    rw [WellFormedMembers] at hw
    have hv := parseValue_render v fuel _ hw.1 (by omega) (numberEnd_renderMembers [] r)
    rw [parseMembers, skipWs_cons _ (by decide)]
    simp only [parseString_quote, Option.bind_eq_bind, Option.bind_some,
      skipWs_cons _ (show isWs ':' = false by decide), hv]
    rfl
  | k, v, (k', v') :: ms, fuel + 1, r, hw, hf => by
    rw [costMembers] at hf
    rw [WellFormedMembers] at hw
    have hv := parseValue_render v fuel _ hw.1 (by omega)
      (numberEnd_renderMembers ((k', v') :: ms) r)
    have h := parseMembers_render k' v' ms fuel r hw.2 (by omega)
    have htext : renderMembers ((k', v') :: ms) ++ r
        = ',' :: '"' :: (k'.toList.flatMap escapeChar
            ++ '"' :: ':' :: (render v' ++ (renderMembers ms ++ r))) := by
      simp only [renderMembers, quote, List.cons_append, List.append_assoc, List.nil_append]
    rw [parseMembers, skipWs_cons _ (by decide)]
    simp only [parseString_quote, Option.bind_eq_bind, Option.bind_some,
      skipWs_cons _ (show isWs ':' = false by decide), hv]
    rw [htext]
    simp only [skipWs_cons _ (show isWs ',' = false by decide), h, Option.map_some]

end

/-! ## The length of the text bounds the fuel -/

mutual

/-- A value takes no more fuel than its text has characters. So `parse`, which is given that
much, never ends for want of fuel. -/
theorem cost_le_render : ∀ v : Json, cost v ≤ (render v).length
  | null => by decide
  | bool true => by decide
  | bool false => by decide
  | num x => by
    obtain ⟨c, cs, hc, -⟩ := toChars_head x.decimal
    rw [cost, render, Binary64.toChars, hc, List.length_cons]
    · omega
    all_goals nofun
  | infinity _ => show 1 ≤ 4 by decide
  | str s => by
    rw [cost, render, quote, List.length_cons]
    · omega
    all_goals nofun
  | arr [] => by decide
  | arr (v :: vs) => by
    have hv := cost_le_render v
    have hvs := costElements_le_render vs
    rw [cost, costElements, render, List.length_cons, List.length_append]
    omega
  | obj [] => by decide
  | obj ((k, v) :: ms) => by
    have hv := cost_le_render v
    have hms := costMembers_le_render ms
    rw [cost, costMembers, render]
    simp only [List.length_cons, List.length_append]
    omega

theorem costElements_le_render : ∀ vs : List Json,
    costElements vs + 1 ≤ (renderElements vs).length
  | [] => by decide
  | v :: vs => by
    have hv := cost_le_render v
    have hvs := costElements_le_render vs
    rw [costElements, renderElements, List.length_cons, List.length_append]
    omega

theorem costMembers_le_render : ∀ ms : List (String × Json),
    costMembers ms + 1 ≤ (renderMembers ms).length
  | [] => by decide
  | (k, v) :: ms => by
    have hv := cost_le_render v
    have hms := costMembers_le_render ms
    rw [costMembers, renderMembers]
    simp only [List.length_cons, List.length_append]
    omega

end

/-- **The round trip.** `JSON.parse (JSON.stringify v)` is `v`, for a value whose objects have
distinct keys. All that the service caches goes through this pair. -/
theorem parse_stringify (v : Json) (hv : WellFormed v) : parse (stringify v) = some v := by
  have hend : NumberEnd [] := by intro c hc; simp at hc
  have h := parseValue_render v ((render v).length + 1) [] hv
    (by have := cost_le_render v; omega) hend
  rw [List.append_nil] at h
  rw [parse, stringify, String.toList_ofList, h]
  rfl

/-- A value's text is never empty. -/
theorem stringify_ne_empty (v : Json) : stringify v ≠ "" := by
  obtain ⟨c, cs, hc, -⟩ := render_head v
  intro h
  have htext : (stringify v).toList = [] := by rw [h]; rfl
  rw [stringify, String.toList_ofList, hc] at htext
  exact absurd htext (List.cons_ne_nil c cs)

end Json
