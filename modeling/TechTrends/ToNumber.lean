/-
`Number(s)`, and that it reads every whole number back from its text.

`parseInt` stops at the first sign that is no digit. `Number` takes the whole text or
nothing, an exponent included, so that the notation in which a number is written makes no
difference. What the text stands for is rounded to a number.
-/
import TechTrends.ParseInt

set_option autoImplicit false

namespace JsNumber

open Decimal
open Json (parseExpPart digits_isDigit digits_ne_nil append_isDigit replicate_zero_isDigit ofDigitChars_digits
  parseExpPart_none parseExpPart_exponentChars placePoint_head)

/-! ## Definitions -/

/-- Digits, a point and an exponent that fill the whole text. -/
def decimalLiteral (cs : List Char) : JsNumber :=
  let ip := cs.takeWhile Char.isDigit
  let (fp, rest) :=
    match cs.dropWhile Char.isDigit with
    | '.' :: r => (r.takeWhile Char.isDigit, r.dropWhile Char.isDigit)
    | r => ([], r)
  if ip = [] ∧ fp = [] then nan
  else
    match parseExpPart rest with
    | some (e, []) => round ((ofDigits (ip ++ fp) : ℚ) / 10 ^ fp.length * (10 : ℚ) ^ e)
    | _ => nan

def unsignedLiteral (cs : List Char) : JsNumber :=
  if cs = "Infinity".toList then infinity false else decimalLiteral cs

/-- The digits behind `0x`, `0o` or `0b`. -/
def radixLiteral (radix : ℕ) (cs : List Char) : JsNumber :=
  let ds := cs.filterMap fun c => (Json.hexValue c).filter (· < radix)
  if cs = [] ∨ ds.length ≠ cs.length then nan else round (ds.foldl (fun n d => radix * n + d) 0 : ℕ)

def nonDecimalLiteral : List Char → Option JsNumber
  | '0' :: c :: cs =>
    if c = 'x' ∨ c = 'X' then some (radixLiteral 16 cs)
    else if c = 'o' ∨ c = 'O' then some (radixLiteral 8 cs)
    else if c = 'b' ∨ c = 'B' then some (radixLiteral 2 cs)
    else none
  | _ => none

def signedLiteral : List Char → JsNumber
  | '-' :: cs => neg (unsignedLiteral cs)
  | '+' :: cs => unsignedLiteral cs
  | cs => unsignedLiteral cs

/-- `Number(s)`. -/
def toNumber (s : String) : JsNumber :=
  let cs := JsString.trim s.toList
  if cs = [] then finite 0 else (nonDecimalLiteral cs).getD (signedLiteral cs)

/-! ## Reading a literal -/

/-- Digits and an exponent are read as the number that they write, rounded once. -/
theorem decimalLiteral_whole {ip r : List Char} {e : ℤ} (hne : ip ≠ []) (hip : ∀ c ∈ ip, c.isDigit = true)
    (hr : NoDigitHead r) (hpoint : ∀ c ∈ r.head?, c ≠ '.') (hexp : parseExpPart r = some (e, [])) :
    decimalLiteral (ip ++ r) = round (ofDigits ip * (10 : ℚ) ^ e) := by
  rw [decimalLiteral, takeWhile_digits hip hr, dropWhile_digits hip hr]
  cases r with
  | nil => simp [hne, hexp]
  | cons c r =>
    have hc : c ≠ '.' := hpoint c rfl
    split
    · next hpair =>
      split at hpair
      · next heq => exact absurd (List.cons_eq_cons.1 heq).1 hc
      · cases hpair
        simp [hne, hexp]

theorem decimalLiteral_point {ip fp r : List Char} {e : ℤ} (hne : ip ≠ [])
    (hip : ∀ c ∈ ip, c.isDigit = true) (hfp : ∀ c ∈ fp, c.isDigit = true) (hr : NoDigitHead r)
    (hexp : parseExpPart r = some (e, [])) : decimalLiteral (ip ++ '.' :: (fp ++ r)) =
      round ((ofDigits (ip ++ fp) : ℚ) / 10 ^ fp.length * (10 : ℚ) ^ e) := by
  have hhead : NoDigitHead ('.' :: (fp ++ r)) := by
    rintro c ⟨⟩
    decide
  rw [decimalLiteral, takeWhile_digits hip hhead, dropWhile_digits hip hhead]
  simp only [takeWhile_digits hfp hr, dropWhile_digits hfp hr, hne, false_and, if_false, hexp]

/-- What a number's text is read as, its exponent written out or not: up to 21 places there
are zeros behind the digits, and from there on an exponent. -/
theorem decimalLiteral_placePoint {ds : List Char} (hne : ds ≠ []) (hd : ∀ c ∈ ds, c.isDigit = true) (k : ℕ) :
    decimalLiteral (placePoint ds (ds.length + k)) = round (ofDigits ds * (10 : ℚ) ^ k) := by
  have hlen : 0 < ds.length := List.length_pos_of_ne_nil hne
  have hexp : ∀ e : ℤ, parseExpPart (exponentChars e) = some (e, []) := fun e => by
    rw [← List.append_nil (exponentChars e)]
    exact parseExpPart_exponentChars e fun c hc => by cases hc
  have hexpHead : ∀ e : ℤ, NoDigitHead (exponentChars e) := by
    rintro e c ⟨⟩
    decide
  by_cases hshort : ds.length + k ≤ 21
  · -- up to 21 digits the zeros are written out
    have hzeros : ofDigits (ds ++ List.replicate k '0') = ofDigits ds * 10 ^ k := by
      rw [ofDigits, Nat.ofDigitChars_append, Nat.ofDigitChars_replicate_zero, Nat.mul_comm]
      rfl
    rw [placePoint_short hshort, ← List.append_nil (ds ++ _), decimalLiteral_whole
      (List.append_ne_nil_of_left_ne_nil hne _) (append_isDigit hd (replicate_zero_isDigit k))
      (fun c hc => by cases hc) (fun c hc => by cases hc) (parseExpPart_none fun c hc => by cases hc), hzeros]
    push_cast
    rw [mul_one]
  · rw [placePoint, if_neg (by omega), if_neg (by omega), if_neg (by omega)]
    split
    · next hsingle =>
      rw [decimalLiteral_whole hne hd (hexpHead _) (by rintro c ⟨⟩; decide) (hexp _), hsingle]
      congr 2
      rw [← zpow_natCast]
      congr 1
      push_cast
      omega
    -- the digits behind the point take back what the exponent has too much
    · have hdrop : (ds.drop 1).length + 1 = ds.length := by
        rw [List.length_drop]
        omega
      have hpow : ((ds.length : ℤ) + k - 1) = ((ds.drop 1).length + k : ℕ) := by
        push_cast
        omega
      have hten : (10 : ℚ) ^ (ds.drop 1).length ≠ 0 := pow_ne_zero _ (by norm_num)
      rw [decimalLiteral_point (by rw [ne_eq, List.take_eq_nil_iff, not_or]; exact ⟨by omega, hne⟩)
        (fun c hc => hd c (List.mem_of_mem_take hc)) (fun c hc => hd c (List.mem_of_mem_drop hc)) (hexpHead _)
        (hexp _), List.take_append_drop, hpow, zpow_natCast, pow_add, ← mul_assoc, div_mul_cancel₀ _ hten]

/-! ## The signs of a number -/

/-- A sign that the text of a whole number can have. -/
def IsNumberSign (c : Char) : Prop := c.isDigit = true ∨ c ∈ ['e', '.', '+', '-']

/-- An exponent is written with digits, a sign and an `e`. -/
theorem isNumberSign_exponentChars (e : ℤ) : ∀ c ∈ exponentChars e, IsNumberSign c := by
  intro c hc
  simp only [exponentChars, List.mem_cons] at hc
  rcases hc with rfl | hc | hc
  · exact Or.inr (by decide)
  · rw [hc]
    split <;> exact Or.inr (by decide)
  · exact Or.inl (isDigit_toDigits _ c hc)

/-- A number's text has no other signs, in any of its notations. -/
theorem isNumberSign_placePoint {ds : List Char} (hd : ∀ c ∈ ds, c.isDigit = true) (n : ℤ) :
    ∀ c ∈ placePoint ds n, IsNumberSign c := by
  have hpoint : IsNumberSign '.' := Or.inr (by decide)
  have hzero : IsNumberSign '0' := Or.inl (by decide)
  intro c hc
  rw [placePoint] at hc
  split_ifs at hc
  · exact Or.inl (append_isDigit hd (replicate_zero_isDigit _) c hc)
  · rw [List.mem_append, List.mem_cons] at hc
    rcases hc with hc | rfl | hc
    · exact Or.inl (hd c (List.mem_of_mem_take hc))
    · exact hpoint
    · exact Or.inl (hd c (List.mem_of_mem_drop hc))
  · rw [List.mem_cons, List.mem_cons] at hc
    rcases hc with rfl | rfl | hc
    · exact hzero
    · exact hpoint
    · exact Or.inl (append_isDigit (replicate_zero_isDigit _) hd c hc)
  · rw [List.mem_append] at hc
    rcases hc with hc | hc
    · exact Or.inl (hd c hc)
    · exact isNumberSign_exponentChars _ c hc
  · rw [List.mem_append, List.mem_cons, List.mem_append] at hc
    rcases hc with hc | rfl | hc | hc
    · exact Or.inl (hd c (List.mem_of_mem_take hc))
    · exact hpoint
    · exact Or.inl (hd c (List.mem_of_mem_drop hc))
    · exact isNumberSign_exponentChars _ c hc

theorem IsNumberSign.notSpace {c : Char} (h : IsNumberSign c) : JsString.isWhitespace c = false := by
  rcases h with h | h
  · exact isWhitespace_of_isDigit h
  · simp only [List.mem_cons, List.not_mem_nil, or_false] at h
    rcases h with rfl | rfl | rfl | rfl <;> decide

/-- Trimming leaves a number's text as it is, since none of its signs is a blank. -/
theorem trim_of_numberSigns {cs : List Char} (h : ∀ c ∈ cs, IsNumberSign c) : JsString.trim cs = cs := by
  have hkeep : ∀ xs : List Char, (∀ c ∈ xs, IsNumberSign c) → xs.dropWhile JsString.isWhitespace = xs := by
    intro xs hxs
    cases xs with
    | nil => rfl
    | cons c xs => rw [List.dropWhile_cons_of_neg (by simp [(hxs c List.mem_cons_self).notSpace])]
  rw [JsString.trim, JsString.trimBy, hkeep cs h, hkeep cs.reverse fun c hc => h c (List.mem_reverse.1 hc),
    List.reverse_reverse]

/-- No such text starts a literal to another base. -/
theorem nonDecimalLiteral_of_numberSigns {cs : List Char} (h : ∀ c ∈ cs, IsNumberSign c) :
    nonDecimalLiteral cs = none := by
  rw [nonDecimalLiteral.eq_def]
  split
  · next c cs =>
    have hc := h c (by simp)
    have hnot : ∀ d ∈ ['x', 'X', 'o', 'O', 'b', 'B'], c ≠ d := by
      rintro d hd rfl
      rcases hc with hc | hc
      · simp only [List.mem_cons, List.not_mem_nil, or_false] at hd
        rcases hd with rfl | rfl | rfl | rfl | rfl | rfl <;> cases hc
      · simp only [List.mem_cons, List.not_mem_nil, or_false] at hc
        rcases hc with rfl | rfl | rfl | rfl <;> simp at hd
    rw [if_neg (by simp [hnot]), if_neg (by simp [hnot]), if_neg (by simp [hnot])]
  · rfl

/-! ## What is read back -/

/-- The digits of a whole number are read as the number, in either notation: the shortest
digits are those that round back to it. -/
theorem unsignedLiteral_decimalOf {m : ℤ} (hfinite : |m| < 2 ^ 1024) {k : ℕ}
    (hvalue : Binary64.roundValue ((Binary64.decimalOf m).mantissa.natAbs * 10 ^ k : ℕ) = m.natAbs) :
    unsignedLiteral (placePoint (Binary64.decimalOf m).digits ((Binary64.decimalOf m).digits.length + k)) =
      finite m.natAbs := by
  have hdigits := digits_isDigit (Binary64.decimalOf m)
  have hne := digits_ne_nil (Binary64.decimalOf m)
  rw [unsignedLiteral, if_neg, decimalLiteral_placePoint hne hdigits, ofDigits, ofDigitChars_digits]
  · have hround : Binary64.roundValue ((Binary64.decimalOf m).mantissa.natAbs * (10 : ℚ) ^ k) = m.natAbs := by
      exact_mod_cast hvalue
    rw [round, hround, if_pos]
    rw [Nat.cast_natAbs, abs_of_nonneg (by positivity)]
    exact_mod_cast hfinite
  · intro hinfinity
    have hsign := isNumberSign_placePoint hdigits ((Binary64.decimalOf m).digits.length + k) 'I'
      (by rw [hinfinity]; decide)
    rcases hsign with hsign | hsign
    · cases hsign
    · exact absurd hsign (by decide)

/-- A whole number that is a double is read back from its text. -/
theorem toNumber_finite {m : ℤ} (hm : Binary64.roundValue m = m) (hfinite : |m| < 2 ^ 1024) :
    toNumber (toText (finite m)) = finite m := by
  obtain ⟨k, hexponent, hvalue, -, htext⟩ := toText_eq hm
  have hunsigned := unsignedLiteral_decimalOf hfinite hvalue
  have hsigns : ∀ c ∈ (if decide (m < 0) = true then ['-'] else []) ++
      placePoint (Binary64.decimalOf m).digits ((Binary64.decimalOf m).digits.length + k), IsNumberSign c := by
    intro c hc
    rcases List.mem_append.1 hc with hc | hc
    · split at hc
      · rw [List.mem_singleton.1 hc]
        exact Or.inr (by decide)
      · cases hc
    · exact isNumberSign_placePoint (digits_isDigit _) _ c hc
  rw [toNumber, htext, String.toList_ofList, trim_of_numberSigns hsigns, nonDecimalLiteral_of_numberSigns hsigns,
    Option.getD_none]
  by_cases hneg : m < 0
  · rw [decide_eq_true hneg, if_pos rfl, List.singleton_append, if_neg (List.cons_ne_nil _ _), signedLiteral,
      hunsigned, neg, Nat.cast_natAbs, abs_of_neg hneg, Int.cast_neg, neg_neg]
  · obtain ⟨d, ds, hhead, hdigit⟩ : ∃ d ds, placePoint (Binary64.decimalOf m).digits
        ((Binary64.decimalOf m).digits.length + k) = d :: ds ∧ d.isDigit = true :=
      hexponent ▸ placePoint_head (Binary64.decimalOf m)
    rw [decide_eq_false hneg, if_neg Bool.false_ne_true, List.nil_append, hhead, if_neg (List.cons_ne_nil _ _),
      signedLiteral.eq_3 _ (by rintro r ⟨⟩; cases hdigit) (by rintro r ⟨⟩; cases hdigit), ← hhead, hunsigned,
      Nat.cast_natAbs, abs_of_nonneg (Int.not_lt.1 hneg)]

/-- **Every whole number is read back**, in either notation, as far as it is a number. One
that is no double is read as the double that its text was written for. -/
theorem toNumber_intText (n : ℤ) : toNumber (intText (some n)) = round n := by
  rw [intText]
  rcases round_intCast n with ⟨m, hround, hsmall, hfinite, -⟩ | ⟨hinfinite, -⟩
  · rw [hfinite]
    exact toNumber_finite (by rw [← hround, Binary64.roundValue_roundValue]) hsmall
  · rw [hinfinite]
    generalize decide (n < 0) = neg
    cases neg <;> decide +kernel

/-! ## Whole numbers as numbers -/

/-- A whole number of up to 53 binary digits is a number; a larger one becomes a whole
number that is large too, or an infinity. -/
theorem roundValue_whole (n : ℕ) : ∃ m : ℕ, Binary64.roundValue n = m ∧ (n < 2 ^ 53 → m = n) ∧
    (2 ^ 53 ≤ n → 2 ^ 53 ≤ m) := by
  obtain ⟨m, hm⟩ := Binary64.exists_roundValue_intCast n
  rw [Int.cast_natCast] at hm
  obtain ⟨m, rfl⟩ := Int.eq_ofNat_of_zero_le (show 0 ≤ m by
    have hnonneg := Binary64.roundValue_nonneg (Nat.cast_nonneg (α := ℚ) n)
    rw [hm] at hnonneg
    exact_mod_cast hnonneg)
  rw [Int.cast_natCast] at hm
  refine ⟨m, hm, fun hlt => ?_, fun hle => ?_⟩
  · rw [Binary64.roundValue_natCast hlt] at hm
    exact_mod_cast hm.symm
  -- `2 ^ 53` is a number, and is not passed
  · have hexact : Binary64.roundValue (2 ^ 53 : ℕ) = (2 ^ 53 : ℕ) := by decide +kernel
    have hmono := Binary64.roundValue_mono (Nat.cast_le (α := ℚ).2 hle)
    rw [hexact, hm] at hmono
    exact_mod_cast hmono

/-- A whole number is read as a finite number that is whole, or as an infinity when it is very
large. -/
theorem round_whole (n : ℕ) :
    (∃ m : ℕ, round n = finite m ∧ (n < 2 ^ 53 → m = n) ∧ (2 ^ 53 ≤ n → 2 ^ 53 ≤ m)) ∨
      round n = infinity false ∧ 2 ^ 53 ≤ n := by
  obtain ⟨m, hvalue, hsmall, hlarge⟩ := roundValue_whole n
  by_cases hfinite : |Binary64.roundValue n| < 2 ^ 1024
  · rw [round, if_pos hfinite, hvalue]
    exact Or.inl ⟨m, rfl, hsmall, hlarge⟩
  · rw [round, if_neg hfinite]
    refine Or.inr ⟨by simp, Nat.le_of_not_lt fun hlt => hfinite ?_⟩
    have hrange : (n : ℚ) < 2 ^ 53 := by exact_mod_cast hlt
    rw [hvalue, hsmall hlt, Nat.abs_cast]
    exact hrange.trans (pow_lt_pow_right₀ (by norm_num) (by norm_num))

end JsNumber
