/-
`parseInt`, and which whole numbers it reads back from their text.

Both ways go through binary64: `parseInt` rounds what the digits stand for, and `String` writes
the shortest digits that are rounded to the number. These read back as the number, as long as
they are all written out. `String` goes over to the notation with an exponent at `10 ^ 21`, and
of that `parseInt` reads the first digit only.
-/
import TechTrends.JsonRoundTrip
import TechTrends.JsNumber

set_option autoImplicit false

namespace JsNumber

open Decimal
open Json (digits_isDigit digits_ne_nil digits_of_zero append_isDigit replicate_zero_isDigit ofDigitChars_pad)

/-! ## Definitions -/

def parseDigits (cs : List Char) : Option ℕ :=
  let ds := cs.takeWhile Char.isDigit
  if ds = [] then none else some (ofDigits ds)

/-- The digits behind `0x`. -/
def parseHexDigits (cs : List Char) : Option ℕ :=
  let ds := (cs.takeWhile fun c => (Json.hexValue c).isSome).filterMap Json.hexValue
  if ds = [] then none else some (ds.foldl (fun n d => 16 * n + d) 0)

def parseMagnitude : List Char → Option ℕ
  | '0' :: 'x' :: cs | '0' :: 'X' :: cs => parseHexDigits cs
  | cs => parseDigits cs

/-- The whole number that binary64 has for a whole number. An infinity is left as the first one
that it has none for, `2 ^ 1024` under its sign. -/
def roundInt (n : ℤ) : ℤ := max (-2 ^ 1024) (min (2 ^ 1024) ⌊Binary64.roundValue n⌋)

/-- `parseInt(s)`, `none` for `NaN`. -/
def parseInt (s : String) : Option ℤ :=
  -- what stands behind the digits is not looked at
  match s.toList.dropWhile JsString.isWhitespace with
  | '-' :: cs => (parseMagnitude cs).map fun n : ℕ => roundInt (-(n : ℤ))
  | '+' :: cs => (parseMagnitude cs).map fun n : ℕ => roundInt n
  | cs => (parseMagnitude cs).map fun n : ℕ => roundInt n

/-- `String(x)`, where `some n` stands for the number that `n` is rounded to and `none` for
`NaN`. -/
def intText : Option ℤ → String
  | none => "NaN"
  | some n => toText (round n)

/-- The numbers that are read back from their text: those that a double has, below `10 ^ 21`,
and `NaN`. -/
def Plain : Option ℤ → Prop
  | none => True
  | some n => roundInt n = n ∧ n.natAbs < 10 ^ 21

instance : DecidablePred Plain
  | none => inferInstanceAs (Decidable True)
  | some n => inferInstanceAs (Decidable (roundInt n = n ∧ n.natAbs < 10 ^ 21))

/-! ## Reading digits -/

theorem parseDigits_append {ds r : List Char} (hne : ds ≠ []) (hd : ∀ c ∈ ds, c.isDigit = true)
    (hr : NoDigitHead r) : parseDigits (ds ++ r) = some (ofDigits ds) := by
  rw [parseDigits, takeWhile_digits hd hr, if_neg hne]

/-- A number that goes on with neither a digit nor an `x`. The `x` matters after a single `0`,
where `parseInt` goes over to hexadecimal digits. -/
theorem parseMagnitude_append {ds r : List Char} (hne : ds ≠ []) (hd : ∀ c ∈ ds, c.isDigit = true)
    (hr : NoDigitHead r) (hx : ∀ c ∈ r.head?, c ≠ 'x' ∧ c ≠ 'X') :
    parseMagnitude (ds ++ r) = some (ofDigits ds) := by
  rw [← parseDigits_append hne hd hr]
  -- the second character is a digit, or the first one of `r`
  have hsecond : ∀ c ∈ ((ds ++ r).drop 1).head?, c ≠ 'x' ∧ c ≠ 'X' := by
    intro c hc
    cases ds with
    | nil => exact absurd rfl hne
    | cons d ds =>
      cases ds with
      | nil => exact hx c hc
      | cons d' ds =>
        have hdigit := hd d' (List.mem_cons_of_mem d List.mem_cons_self)
        obtain rfl := Option.some.inj hc
        constructor <;>
        · rintro rfl
          cases hdigit
  rw [parseMagnitude.eq_def]
  split
  · next heq => exact absurd rfl (hsecond 'x' (by rw [heq]; rfl)).1
  · next heq => exact absurd rfl (hsecond 'X' (by rw [heq]; rfl)).2
  · rfl

theorem isWhitespace_of_isDigit {c : Char} (h : c.isDigit = true) : JsString.isWhitespace c = false := by
  obtain ⟨hlow, hhigh⟩ : 48 ≤ c.toNat ∧ c.toNat ≤ 57 := by
    rw [Char.isDigit, Bool.and_eq_true, decide_eq_true_eq, decide_eq_true_eq] at h
    exact h
  simp only [JsString.isWhitespace, JsString.isWhitespaceCode, Bool.or_eq_false_iff, Bool.and_eq_false_iff,
    decide_eq_false_iff_not, beq_eq_false_iff_ne]
  omega

/-- A sign, if any, and digits. -/
theorem parseInt_signed {ds r : List Char} {neg : Bool} (hne : ds ≠ [])
    (hd : ∀ c ∈ ds, c.isDigit = true) (hr : NoDigitHead r) (hx : ∀ c ∈ r.head?, c ≠ 'x' ∧ c ≠ 'X') :
    parseInt (String.ofList ((if neg then ['-'] else []) ++ (ds ++ r))) =
      some (roundInt (if neg then -(ofDigits ds : ℤ) else ofDigits ds)) := by
  have hmagnitude := parseMagnitude_append hne hd hr hx
  rw [parseInt, String.toList_ofList]
  cases neg with
  | true =>
    rw [if_pos rfl, if_pos rfl, List.singleton_append, List.dropWhile_cons_of_neg (by decide)]
    show (parseMagnitude (ds ++ r)).map _ = _
    rw [hmagnitude]
    rfl
  | false =>
    obtain ⟨d, ds, rfl⟩ := List.exists_cons_of_ne_nil hne
    have hdigit := hd d List.mem_cons_self
    have hspace := isWhitespace_of_isDigit hdigit
    rw [if_neg Bool.false_ne_true, if_neg Bool.false_ne_true, List.nil_append, List.cons_append,
      List.dropWhile_cons_of_neg (by rw [hspace]; exact Bool.false_ne_true)]
    rw [List.cons_append] at hmagnitude
    split
    · next heq =>
      obtain rfl := (List.cons_eq_cons.1 heq).1
      cases hdigit
    · next heq =>
      obtain rfl := (List.cons_eq_cons.1 heq).1
      cases hdigit
    · rw [hmagnitude]
      rfl

/-! ## What is read back -/

theorem roundInt_of_eq {n m : ℤ} (hround : Binary64.roundValue n = m) (hm : |m| < 2 ^ 1024) : roundInt n = m := by
  obtain ⟨hlow, hhigh⟩ := abs_lt.1 hm
  rw [roundInt, hround, Int.floor_intCast, min_eq_right hhigh.le, max_eq_right hlow.le]

/-- A whole number is rounded to a whole number, or to the infinity of its sign. Both sides of
`parseInt` and `String` are about these two cases. -/
theorem round_intCast (n : ℤ) :
    (∃ m : ℤ, Binary64.roundValue n = m ∧ |m| < 2 ^ 1024 ∧ round n = finite m ∧ roundInt n = m) ∨
      round n = infinity (n < 0) ∧ (roundInt n).natAbs = 2 ^ 1024 := by
  obtain ⟨m, hm⟩ := Binary64.exists_roundValue_intCast n
  have hcast : |(m : ℚ)| < 2 ^ 1024 ↔ |m| < 2 ^ 1024 := by exact_mod_cast Iff.rfl
  rw [round, hm]
  by_cases hfinite : |m| < 2 ^ 1024
  · exact Or.inl ⟨m, rfl, hfinite, if_pos (hcast.2 hfinite), roundInt_of_eq hm hfinite⟩
  · refine Or.inr ⟨by rw [if_neg fun h => hfinite (hcast.1 h)]; simp only [Int.cast_lt_zero], ?_⟩
    rw [roundInt, hm, Int.floor_intCast]
    rcases le_abs.1 (not_lt.1 hfinite) with hlarge | hlarge
    · rw [min_eq_left hlarge, max_eq_right (by norm_num)]
      norm_num
    · rw [min_eq_right (by omega), max_eq_left (by omega)]
      norm_num

/-- How many digits a number has, with its zeros. -/
theorem length_digits_le_iff {m k : ℕ} (hm : m ≠ 0) :
    (Nat.toDigits 10 m).length + k ≤ 21 ↔ m * 10 ^ k < 10 ^ 21 := by
  have hlen : 0 < (Nat.toDigits 10 m).length := Nat.length_toDigits_pos
  by_cases hk : k < 21
  · have hdigits := Nat.length_toDigits_le_iff (n := m) (k := 21 - k) (by decide : 1 < 10) (by omega)
    have hpow : (10 : ℕ) ^ 21 = 10 ^ (21 - k) * 10 ^ k := by rw [← pow_add, Nat.sub_add_cancel hk.le]
    rw [hpow, Nat.mul_lt_mul_right (by positivity), ← hdigits]
    omega
  -- with 21 zeros no digit fits before them
  · have hbig : 10 ^ 21 ≤ m * 10 ^ k :=
      calc 10 ^ 21 ≤ 10 ^ k := Nat.pow_le_pow_right (by decide) (Nat.le_of_not_lt hk)
        _ ≤ m * 10 ^ k := Nat.le_mul_of_pos_left _ (Nat.pos_of_ne_zero hm)
    exact iff_of_false (by omega) (Nat.not_lt.2 hbig)

theorem placePoint_short {ds : List Char} {k : ℕ} (h : ds.length + k ≤ 21) :
    placePoint ds (ds.length + k) = ds ++ List.replicate k '0' := by
  rw [placePoint, if_pos (by omega), add_sub_cancel_left, Int.toNat_natCast]

/-- With an exponent, something that is no digit stands behind the first digit: the point, or
the `e` where there is only one digit. -/
theorem placePoint_long {ds : List Char} {k : ℕ} (h : ¬ ds.length + k ≤ 21) :
    ∃ c r, placePoint ds (ds.length + k) = ds.take 1 ++ c :: r ∧ (c = 'e' ∨ c = '.') := by
  rw [placePoint, if_neg (by omega), if_neg (by omega), if_neg (by omega)]
  split
  · next hsingle =>
    rw [List.take_of_length_le (Nat.le_of_eq hsingle)]
    exact ⟨'e', _, rfl, Or.inl rfl⟩
  · exact ⟨'.', _, rfl, Or.inr rfl⟩

/-- The text of a whole number is a sign, and the digits of its decimal with the point where it
belongs. The decimal is rounded to the number and goes over to an exponent where it does. -/
theorem toText_eq {m : ℤ} (hm : Binary64.roundValue m = m) : ∃ k : ℕ,
    (Binary64.decimalOf m).exponent = k ∧
    Binary64.roundValue ((Binary64.decimalOf m).mantissa.natAbs * 10 ^ k : ℕ) = m.natAbs ∧
    ((Binary64.decimalOf m).digits.length + k ≤ 21 ↔ m.natAbs < 10 ^ 21) ∧
    toText (finite m) = String.ofList ((if decide (m < 0) = true then ['-'] else []) ++
      placePoint (Binary64.decimalOf m).digits ((Binary64.decimalOf m).digits.length + k)) := by
  obtain ⟨k, hexp, hsign, hvalue, hlow⟩ := Binary64.decimalOf_whole hm
  refine ⟨k, hexp, hvalue, ?_, ?_⟩
  · have hlimit : (Binary64.decimalOf m).mantissa.natAbs * 10 ^ k < 10 ^ 21 ↔ m.natAbs < 10 ^ 21 := by
      refine ⟨fun h => Nat.lt_of_not_le fun hle => absurd (hlow 21 hle) (Nat.not_le.2 h), fun h => ?_⟩
      -- `10 ^ 21` is a number, so that rounding does not get down past it
      have hexact : Binary64.roundValue (10 ^ 21 : ℕ) = (10 ^ 21 : ℕ) := by decide +kernel
      refine Nat.lt_of_not_le fun hle => absurd h (Nat.not_lt.2 ?_)
      have hmono := Binary64.roundValue_mono (Nat.cast_le (α := ℚ).2 hle)
      rw [hexact, hvalue] at hmono
      exact_mod_cast hmono
    rw [← hlimit]
    by_cases hmantissa : (Binary64.decimalOf m).mantissa = 0
    · obtain ⟨hdigits, hzero⟩ := digits_of_zero hmantissa
      obtain rfl : k = 0 := by omega
      rw [hdigits, hmantissa]
      exact iff_of_true (by decide) (by decide)
    · exact length_digits_le_iff (by omega)
  · rw [toText, toChars, hexp, ← hsign]
    simp only [decide_eq_true_eq]

/-- The text of a whole number is a sign and digits; up to 21 of them, which are rounded to
the number, and otherwise one digit that something else follows. The digits need not be those
of the number itself: past `2 ^ 53` they are the shortest that are rounded to it, with zeros
behind them. -/
theorem toText_cases {m : ℤ} (hm : Binary64.roundValue m = m) : ∃ ds r, toText (finite m) =
    String.ofList ((if decide (m < 0) = true then ['-'] else []) ++ (ds ++ r)) ∧ ds ≠ [] ∧
      (∀ c ∈ ds, c.isDigit = true) ∧ NoDigitHead r ∧ (∀ c ∈ r.head?, c ≠ 'x' ∧ c ≠ 'X') ∧
      if m.natAbs < 10 ^ 21 then Binary64.roundValue (ofDigits ds) = m.natAbs else ds.length = 1 := by
  obtain ⟨k, -, hvalue, hshort, htext⟩ := toText_eq hm
  have hlen : 0 < (Binary64.decimalOf m).digits.length := Nat.length_toDigits_pos
  have hdigits := digits_isDigit (Binary64.decimalOf m)
  rw [htext]
  by_cases hplain : m.natAbs < 10 ^ 21
  · refine ⟨(Binary64.decimalOf m).digits ++ List.replicate k '0', [], ?_,
      List.append_ne_nil_of_left_ne_nil (digits_ne_nil _) _, append_isDigit hdigits (replicate_zero_isDigit k),
      (fun c hc => by cases hc), (fun c hc => by cases hc), ?_⟩
    · rw [placePoint_short (hshort.2 hplain), List.append_nil]
    · rw [if_pos hplain, ofDigits, digits, ofDigitChars_pad, hvalue]
  · obtain ⟨c, r, hpoint, hc⟩ := placePoint_long fun h => hplain (hshort.1 h)
    refine ⟨(Binary64.decimalOf m).digits.take 1, c :: r, ?_, ?_, fun c hc => hdigits c (List.mem_of_mem_take hc),
      ?_, ?_, ?_⟩
    · rw [hpoint]
    · rw [ne_eq, List.take_eq_nil_iff, not_or]
      exact ⟨by omega, digits_ne_nil _⟩
    · rintro c ⟨⟩
      rcases hc with rfl | rfl <;> decide
    · rintro c ⟨⟩
      rcases hc with rfl | rfl <;> decide
    · rw [if_neg hplain, List.length_take]
      omega

/-- No number is written as the empty text, which an address would not tell from a parameter
that is not there. -/
theorem intText_ne_empty (x : Option ℤ) : intText x ≠ "" := by
  cases x with
  | none => decide
  | some n =>
    rw [intText]
    rcases round_intCast n with ⟨m, hround, -, hfinite, -⟩ | ⟨hinfinite, -⟩
    · have hm : Binary64.roundValue m = m := by rw [← hround, Binary64.roundValue_roundValue]
      obtain ⟨ds, r, htext, hne, -⟩ := toText_cases hm
      rw [hfinite, htext]
      intro hempty
      have hchars := congrArg String.toList hempty
      rw [String.toList_ofList] at hchars
      exact hne (List.append_eq_nil_iff.1 (List.append_eq_nil_iff.1 hchars).2).1
    · rw [hinfinite, toText]
      split <;> decide

theorem ofDigits_lt_ten {ds : List Char} (hlen : ds.length = 1) (hd : ∀ c ∈ ds, c.isDigit = true) :
    ofDigits ds < 10 := by
  obtain ⟨c, rfl⟩ := List.length_eq_one_iff.1 hlen
  have hdigit := hd c List.mem_cons_self
  rw [Char.isDigit, Bool.and_eq_true, decide_eq_true_eq, decide_eq_true_eq] at hdigit
  have hhigh : c.toNat ≤ 57 := hdigit.2
  show 10 * 0 + (c.toNat - 48) < 10
  omega

/-- Up to 21 digits are read as the number they stand for; with an exponent, only the first
digit is. So `1e+21` is read as 1, and a number that large never as itself. -/
theorem parseInt_toText {m : ℤ} (hm : Binary64.roundValue m = m) (hfinite : |m| < 2 ^ 1024) :
    if m.natAbs < 10 ^ 21 then parseInt (toText (finite m)) = some m
    else ∃ d : ℤ, parseInt (toText (finite m)) = some d ∧ d.natAbs < 10 := by
  obtain ⟨ds, r, htext, hne, hdigits, hr, hx, hvalue⟩ := toText_cases hm
  rw [htext, parseInt_signed hne hdigits hr hx]
  by_cases hplain : m.natAbs < 10 ^ 21
  · rw [if_pos hplain] at hvalue ⊢
    refine congrArg some (roundInt_of_eq ?_ hfinite)
    by_cases hneg : m < 0
    · rw [decide_eq_true hneg, if_pos rfl, Int.cast_neg, Binary64.roundValue_neg, Int.cast_natCast, hvalue,
        Nat.cast_natAbs, abs_of_neg hneg, Int.cast_neg, neg_neg]
    · rw [decide_eq_false hneg, if_neg Bool.false_ne_true, Int.cast_natCast, hvalue, Nat.cast_natAbs,
        abs_of_nonneg (Int.not_lt.1 hneg)]
  · rw [if_neg hplain] at hvalue ⊢
    have hdigit := ofDigits_lt_ten hvalue hdigits
    have hsmall : |(if decide (m < 0) = true then -(ofDigits ds : ℤ) else ofDigits ds)| < 10 := by
      split <;> rw [abs_lt] <;> omega
    have hexact : |(if decide (m < 0) = true then -(ofDigits ds : ℤ) else ofDigits ds)| < 2 ^ 53 :=
      hsmall.trans (by norm_num)
    refine ⟨_, rfl, ?_⟩
    rw [roundInt_of_eq (Binary64.roundValue_intCast hexact)
      (hexact.trans (pow_lt_pow_right₀ (by norm_num) (by norm_num)))]
    omega

/-- **Which numbers are read back.** Those that a double has, below `10 ^ 21`, and `NaN`,
whose text is no number. This is what an address can carry from `updateUrl` to `getParam`. -/
theorem parseInt_intText_iff (x : Option ℤ) : parseInt (intText x) = x ↔ Plain x := by
  cases x with
  | none => exact iff_of_true (by decide) trivial
  | some n =>
    show parseInt (toText (round n)) = _ ↔ roundInt n = n ∧ n.natAbs < 10 ^ 21
    rcases round_intCast n with ⟨m, hround, hsmall, hfinite, hint⟩ | ⟨hinfinite, hint⟩
    · have hm : Binary64.roundValue m = m := by rw [← hround, Binary64.roundValue_roundValue]
      have hread := parseInt_toText hm hsmall
      rw [hfinite, hint]
      by_cases hplain : m.natAbs < 10 ^ 21
      · rw [if_pos hplain] at hread
        rw [hread, Option.some.injEq]
        exact ⟨fun h => ⟨h, h ▸ hplain⟩, And.left⟩
      · rw [if_neg hplain] at hread
        obtain ⟨d, hd, hten⟩ := hread
        rw [hd, Option.some.injEq]
        refine iff_of_false (fun heq => ?_) fun h => hplain (h.1.symm ▸ h.2)
        -- a number of one digit is a number, and is written with it
        have hdigit : |n| < 2 ^ 53 := by
          rw [← heq, abs_lt]
          omega
        rw [Binary64.roundValue_intCast hdigit] at hround
        obtain rfl : n = m := by exact_mod_cast hround
        omega
    · have hnone : parseInt (toText (infinity (n < 0))) = none := by
        generalize decide (n < 0) = neg
        cases neg <;> decide
      rw [hinfinite, hnone]
      refine iff_of_false (fun h => by cases h) fun h => ?_
      have hlarge : 10 ^ 21 ≤ (roundInt n).natAbs :=
        calc 10 ^ 21 ≤ 2 ^ 70 := by norm_num
          _ ≤ 2 ^ 1024 := Nat.pow_le_pow_right (by norm_num) (by norm_num)
          _ = (roundInt n).natAbs := hint.symm
      rw [h.1] at hlarge
      exact absurd h.2 (Nat.not_lt.2 hlarge)

end JsNumber
