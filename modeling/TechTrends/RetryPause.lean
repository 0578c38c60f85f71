/-
The pause before a retry, against the time that the server asked for.

`extractRetryAfterMs` reads either header with `parseFloat`, as seconds, and hands
the result to a timer. The header `x-ratelimit-reset-tokens` is a duration with
unit letters, of which `parseFloat` sees the number before the first letter. The number
is rounded when it is read, and once more when it is multiplied.
-/
import Mathlib.Algebra.Order.BigOperators.Group.List
import TechTrends.ExecuteWithRetry
import TechTrends.JsonRoundTrip

set_option autoImplicit false

namespace TechTrends

namespace AiService

open JsNumber (lt)
open Decimal (NumberEnd NoDigitHead takeWhile_digits dropWhile_digits)

/-! ## Durations as texts -/

/-- A decimal number: digits, and digits after a point. -/
structure Numeral where
  whole : List Char
  fraction : List Char
  digits : (whole ++ fraction).all Char.isDigit = true
  nonempty : whole ++ fraction ≠ []

namespace Numeral

def text (n : Numeral) : List Char :=
  n.whole ++ if n.fraction = [] then [] else '.' :: n.fraction

def value (n : Numeral) : ℚ :=
  (JsNumber.ofDigits (n.whole ++ n.fraction) : ℚ) / 10 ^ n.fraction.length

theorem value_nonneg (n : Numeral) : 0 ≤ n.value := by
  rw [value]
  positivity

theorem isDigit_whole (n : Numeral) : ∀ c ∈ n.whole, c.isDigit = true := fun c hc =>
  List.all_eq_true.1 n.digits c (List.mem_append_left _ hc)

theorem isDigit_fraction (n : Numeral) : ∀ c ∈ n.fraction, c.isDigit = true := fun c hc =>
  List.all_eq_true.1 n.digits c (List.mem_append_right _ hc)

/-- The text starts with a digit or a point, so `parseFloat` finds no sign and no space before
it. -/
theorem text_head (n : Numeral) : ∃ c cs, n.text = c :: cs ∧ (c.isDigit = true ∨ c = '.') := by
  rw [text]
  cases hw : n.whole with
  | cons c cs =>
    exact ⟨c, _, rfl, Or.inl (n.isDigit_whole c (by rw [hw]; exact List.mem_cons_self))⟩
  | nil =>
    have hf : n.fraction ≠ [] := by
      intro hf
      have hne := n.nonempty
      rw [hw, hf] at hne
      exact hne rfl
    rw [if_neg hf]
    exact ⟨'.', n.fraction, rfl, Or.inr rfl⟩

end Numeral

inductive TimeUnit where
  | h
  | m
  | s
  | ms
deriving DecidableEq

def TimeUnit.letters : TimeUnit → List Char
  | h => ['h']
  | m => ['m']
  | s => ['s']
  | ms => ['m', 's']

def TimeUnit.millis : TimeUnit → ℚ
  | h => 3600000
  | m => 60000
  | s => 1000
  | ms => 1

/-- A number with its unit, as in `59.56s`. -/
structure Part where
  numeral : Numeral
  unit : TimeUnit

def Part.text (p : Part) : List Char := p.numeral.text ++ p.unit.letters

def Part.millis (p : Part) : ℚ := p.numeral.value * p.unit.millis

/-- What the server asks for: `retry-after` with a number of seconds, or
`x-ratelimit-reset-tokens` with a duration in parts. -/
inductive Ask where
  | retryAfter (seconds : Numeral)
  | resetTokens (first : Part) (rest : List Part)

namespace Ask

def text : Ask → List Char
  | retryAfter seconds => seconds.text
  | resetTokens first rest => first.text ++ rest.flatMap Part.text

/-- The duration in milliseconds. -/
def millis : Ask → ℚ
  | retryAfter seconds => seconds.value * 1000
  | resetTokens first rest => first.millis + (rest.map Part.millis).sum

/-- The number that the text starts with. -/
def leading : Ask → Numeral
  | retryAfter seconds => seconds
  | resetTokens first _ => first.numeral

/-- That number as it is read, rounded to binary64. -/
def seconds (ask : Ask) : ℚ := Binary64.roundValue ask.leading.value

/-- The milliseconds that are made of it: the product is rounded, and then rounded up. -/
def readMs (ask : Ask) : ℤ := ⌈Binary64.roundValue (ask.seconds * 1000)⌉

theorem seconds_nonneg (ask : Ask) : 0 ≤ ask.seconds := Binary64.roundValue_nonneg ask.leading.value_nonneg

end Ask

/-! ## What `parseFloat` reads -/

theorem dot_or_digit_ne {c d : Char} (hc : c.isDigit = true ∨ c = '.') (hd : d.isDigit = false)
    (hdot : d ≠ '.') : c ≠ d := by
  rintro rfl
  rcases hc with hc | hc
  · rw [hd] at hc
    cases hc
  · exact hdot hc

theorem not_isWhitespace_of_isDigit {c : Char} (hc : c.isDigit = true) :
    JsString.isWhitespace c = false := by
  rw [Char.isDigit, Bool.and_eq_true, decide_eq_true_eq, decide_eq_true_eq] at hc
  have hlow : 48 ≤ c.toNat := UInt32.le_iff_toNat_le.1 hc.1
  have hhigh : c.toNat ≤ 57 := UInt32.le_iff_toNat_le.1 hc.2
  simp only [JsString.isWhitespace, JsString.isWhitespaceCode, Bool.or_eq_false_iff,
    Bool.and_eq_false_iff, decide_eq_false_iff_not, beq_eq_false_iff_ne]
  omega

/-- What ends the number has no exponent: a unit begins with a letter, but not with an `e`. -/
theorem exponentOf_numberEnd {r : List Char} (hr : NumberEnd r) : JsNumber.exponentOf r = 0 := by
  cases r with
  | nil => rfl
  | cons c r =>
    obtain ⟨-, -, he, hE⟩ := hr c rfl
    rw [JsNumber.exponentOf.eq_def]
    split <;> first
      | rfl
      | next heq => exact absurd (List.cons.inj heq).1 he
      | next heq => exact absurd (List.cons.inj heq).1 hE

/-- The digits, the point and the digits behind it are read as the number they spell, which is
rounded. -/
theorem parseUnsigned_numeral (n : Numeral) {r : List Char} (hr : NumberEnd r) :
    JsNumber.parseUnsigned (n.text ++ r) = JsNumber.round n.value := by
  obtain ⟨c, cs, htext, hc⟩ := n.text_head
  have hinfinity : "Infinity".toList.isPrefixOf (n.text ++ r) = false := by
    have hI : ('I' == c) = false := beq_false_of_ne (dot_or_digit_ne hc (by decide) (by decide)).symm
    have hlist : "Infinity".toList = 'I' :: "nfinity".toList := rfl
    rw [hlist, htext, List.cons_append, List.isPrefixOf, hI, Bool.false_and]
  have hempty : ¬ (n.whole = [] ∧ n.fraction = []) := fun h => n.nonempty (by rw [h.1, h.2]; rfl)
  rw [JsNumber.parseUnsigned, hinfinity, if_neg (by decide), Numeral.text, List.append_assoc]
  by_cases hf : n.fraction = []
  · -- without a point the number ends where the rest begins
    rw [if_pos hf, List.nil_append, takeWhile_digits n.isDigit_whole hr.noDigitHead,
      dropWhile_digits n.isDigit_whole hr.noDigitHead]
    dsimp only
    split
    · exact absurd rfl (hr '.' rfl).2.1
    · dsimp only
      rw [if_neg (fun h => hempty ⟨h.1, hf⟩), exponentOf_numberEnd hr, zpow_zero, mul_one,
        Numeral.value, hf]
  · have htail : NoDigitHead ('.' :: (n.fraction ++ r)) := by
      rintro d hd
      cases hd
      decide
    rw [if_neg hf, List.cons_append, takeWhile_digits n.isDigit_whole htail,
      dropWhile_digits n.isDigit_whole htail]
    show (if n.whole = [] ∧ (n.fraction ++ r).takeWhile Char.isDigit = [] then JsNumber.nan
      else JsNumber.round
        ((JsNumber.ofDigits (n.whole ++ (n.fraction ++ r).takeWhile Char.isDigit) : ℚ)
          / 10 ^ ((n.fraction ++ r).takeWhile Char.isDigit).length
          * (10 : ℚ) ^ JsNumber.exponentOf ((n.fraction ++ r).dropWhile Char.isDigit))) = _
    rw [takeWhile_digits n.isDigit_fraction hr.noDigitHead,
      dropWhile_digits n.isDigit_fraction hr.noDigitHead, if_neg hempty, exponentOf_numberEnd hr,
      zpow_zero, mul_one, Numeral.value]

/-- `parseFloat` reads the number at the start of a text, up to its unit. -/
theorem parseFloat_numeral (n : Numeral) {r : List Char} (hr : NumberEnd r) :
    JsNumber.parseFloat (String.ofList (n.text ++ r)) = JsNumber.round n.value := by
  obtain ⟨c, cs, htext, hc⟩ := n.text_head
  have hparse := parseUnsigned_numeral n hr
  have hblank : JsString.isWhitespace c = false := by
    rcases hc with hdigit | rfl
    · exact not_isWhitespace_of_isDigit hdigit
    · decide
  rw [JsNumber.parseFloat, String.toList_ofList]
  rw [htext] at hparse ⊢
  rw [List.cons_append, List.dropWhile_cons_of_neg (by rw [hblank]; decide)]
  split
  · next heq => exact absurd (List.cons.inj heq).1 (dot_or_digit_ne hc (by decide) (by decide))
  · next heq => exact absurd (List.cons.inj heq).1 (dot_or_digit_ne hc (by decide) (by decide))
  · exact hparse

/-- A unit, or nothing, does not go on with the number. -/
theorem numberEnd_letters (u : TimeUnit) (r : List Char) : NumberEnd (u.letters ++ r) := by
  intro c hc
  cases u <;> cases hc <;> decide

/-- Of a duration in several parts, only the number of the first part is read. Its unit, and
the other parts, are lost: this is where minutes become seconds. -/
theorem parseFloat_ask (ask : Ask) :
    JsNumber.parseFloat (String.ofList ask.text) = JsNumber.round ask.leading.value := by
  cases ask with
  | retryAfter seconds =>
    have hnil : NumberEnd [] := fun c hc => by cases hc
    have hparse := parseFloat_numeral seconds hnil
    rwa [List.append_nil] at hparse
  | resetTokens first rest =>
    show JsNumber.parseFloat (String.ofList (first.numeral.text ++ first.unit.letters ++ rest.flatMap Part.text)) = _
    rw [List.append_assoc]
    exact parseFloat_numeral first.numeral (numberEnd_letters first.unit _)

/-! ## The headers of an error -/

/-- `error?.headers ?? error?.response?.headers ?? error?.error?.headers`. -/
def errorHeaders (error : ApiError) : List (String × String) :=
  (error.headers <|> error.responseHeaders <|> error.errorHeaders).getD []

/-- The text of a header, empty when it is not there. -/
def headerText (headers : List (String × String)) (name : String) : String :=
  ((headers.find? fun h => h.1 == name).map Prod.snd).getD ""

/-- The error carries what the server asks for: in `retry-after`, or without that in
`x-ratelimit-reset-tokens`. -/
def Carries (error : ApiError) : Ask → Prop
  | Ask.retryAfter seconds =>
    headerText (errorHeaders error) "retry-after" = String.ofList (Ask.retryAfter seconds).text
  | Ask.resetTokens first rest =>
    headerText (errorHeaders error) "retry-after" = "" ∧
      headerText (errorHeaders error) "x-ratelimit-reset-tokens"
        = String.ofList (Ask.resetTokens first rest).text

/-- The value of a header, with the text that it has. An absent header and an empty one are
the same to `if (retryAfter)`. -/
theorem headerMs_eq (headers : List (String × String)) (name : String) :
    headerMs headers name =
      if headerText headers name = "" then none
      else if lt (0 : ℤ) (JsNumber.parseFloat (headerText headers name)) then
        some (JsNumber.parseFloat (headerText headers name)).ceilTimes1000
      else none := by
  rw [headerMs, headerText]
  cases (headers.find? fun h => h.1 == name).map Prod.snd with
  | none => rfl
  | some text => rfl

/-- A header that starts with a number is read as that number of seconds. -/
theorem headerMs_ask {headers : List (String × String)} {name : String} {ask : Ask}
    (h : headerText headers name = String.ofList ask.text) :
    headerMs headers name =
      if 0 < ask.seconds then some (JsNumber.round ask.leading.value).ceilTimes1000 else none := by
  have hne : String.ofList ask.text ≠ "" := by
    intro hempty
    have hnil : ask.text = [] := String.ofList_injective hempty
    have htext : ask.leading.text <+: ask.text := by
      cases ask with
      | retryAfter seconds => exact List.prefix_rfl
      | resetTokens first rest =>
        show first.numeral.text <+: first.numeral.text ++ first.unit.letters ++ rest.flatMap Part.text
        rw [List.append_assoc]
        exact List.prefix_append _ _
    obtain ⟨c, cs, hhead, -⟩ := ask.leading.text_head
    rw [hnil, hhead] at htext
    exact absurd (List.prefix_nil.1 htext) (List.cons_ne_nil _ _)
  rw [headerMs_eq, h, if_neg hne, parseFloat_ask]
  simp only [JsNumber.lt_round ask.leading.value_nonneg, decide_eq_true_eq]
  rfl

theorem headerMs_of_empty {headers : List (String × String)} {name : String}
    (h : headerText headers name = "") : headerMs headers name = none := by
  rw [headerMs_eq, if_pos h]

theorem extractRetryAfterMs_eq (error : ApiError) :
    extractRetryAfterMs error =
      match headerMs (errorHeaders error) "retry-after" with
      | some ms => some ms
      | none => headerMs (errorHeaders error) "x-ratelimit-reset-tokens" := by
  rw [extractRetryAfterMs, errorHeaders]
  cases error.headers <|> error.responseHeaders <|> error.errorHeaders with
  | none => rfl
  | some headers => rfl

/-- What is read of what the server asks for: the number at its start, as seconds. -/
theorem extractRetryAfterMs_ask {error : ApiError} {ask : Ask} (h : Carries error ask) (hpos : 0 < ask.seconds) :
    extractRetryAfterMs error = some (JsNumber.round ask.leading.value).ceilTimes1000 := by
  rw [extractRetryAfterMs_eq]
  cases ask with
  | retryAfter seconds => rw [headerMs_ask h, if_pos hpos]
  | resetTokens first rest =>
    obtain ⟨hlack, htokens⟩ := h
    rw [headerMs_of_empty hlack, headerMs_ask htokens, if_pos hpos]

/-- Reset times that start with a zero are passed over, as `0h5m`, because of the test
`seconds > 0`. The fallback pause is taken then. -/
theorem extractRetryAfterMs_zero {error : ApiError} {first : Part} {rest : List Part}
    (h : Carries error (Ask.resetTokens first rest)) (hzero : ¬ 0 < (Ask.resetTokens first rest).seconds) :
    extractRetryAfterMs error = none := by
  obtain ⟨hlack, htokens⟩ := h
  rw [extractRetryAfterMs_eq, headerMs_of_empty hlack, headerMs_ask htokens, if_neg hzero]

/-! ## The pause -/

/-- The greatest delay that a timer takes as it is. -/
def timeoutMax : ℤ := 2147483647

/-- The number that the header starts with, as seconds rounded up to milliseconds,
covers the duration and fits a timer; when it is 0, the fallback pause covers it. -/
def Ask.Covered (ask : Ask) (fallback : JsNumber) : Prop :=
  if 0 < ask.seconds then ask.millis ≤ ask.readMs ∧ ask.readMs ≤ timeoutMax
  else ask.millis ≤ fallback.timerMs

theorem Part.millis_nonneg (p : Part) : 0 ≤ p.millis := by
  have hvalue := p.numeral.value_nonneg
  rw [Part.millis]
  cases p.unit <;> simp only [TimeUnit.millis] <;> linarith

/-- The duration is at least as many milliseconds as the number at its start. -/
theorem Ask.leading_le_millis (ask : Ask) : ask.leading.value ≤ ask.millis := by
  cases ask with
  | retryAfter seconds =>
    have hvalue := seconds.value_nonneg
    show seconds.value ≤ seconds.value * 1000
    linarith
  | resetTokens first rest =>
    have hvalue := first.numeral.value_nonneg
    have hfirst : first.numeral.value ≤ first.millis := by
      rw [Part.millis]
      cases first.unit <;> simp only [TimeUnit.millis] <;> linarith
    have hrest : 0 ≤ (rest.map Part.millis).sum := by
      refine List.sum_nonneg fun x hx => ?_
      obtain ⟨p, -, rfl⟩ := List.mem_map.1 hx
      exact p.millis_nonneg
    show first.numeral.value ≤ first.millis + (rest.map Part.millis).sum
    linarith

/-- No timer fires at once. `setTimeout` takes a delay below 1, or one that is not finite or
past its limit, as one millisecond. -/
theorem one_le_timerMs (delay : JsNumber) : 1 ≤ delay.timerMs := by
  cases delay with
  | finite q =>
    rw [JsNumber.timerMs]
    split
    · next hrange =>
      have hfloor : 1 ≤ ⌊q⌋ := Int.le_floor.2 (by exact_mod_cast hrange.1)
      omega
    · exact le_rfl
  | _ => exact le_rfl

/-- A product with 1000 is not below the number, rounded or not. -/
theorem roundValue_le_mul {v : ℚ} (hv : 0 ≤ v) :
    Binary64.roundValue v ≤ Binary64.roundValue (Binary64.roundValue v * 1000) := by
  have hnonneg := Binary64.roundValue_nonneg hv
  have hmono := Binary64.roundValue_mono (show Binary64.roundValue v ≤ Binary64.roundValue v * 1000 by linarith)
  rwa [Binary64.roundValue_roundValue] at hmono

theorem round_of_large {v : ℚ} (hv : 0 ≤ v) (hlarge : ¬ |Binary64.roundValue v| < 2 ^ 1024) :
    JsNumber.round v = JsNumber.infinity false := by
  rw [JsNumber.round, if_neg hlarge, decide_eq_false (not_lt.2 hv)]

/-- What is read of the header is positive, and a timer takes it up to its limit. Past the
limit, at nearly 25 days, it fires after one millisecond. -/
theorem timerMs_read {ask : Ask} (hpos : 0 < ask.seconds) :
    lt (0 : ℤ) (JsNumber.round ask.leading.value).ceilTimes1000 = true ∧
      (JsNumber.round ask.leading.value).ceilTimes1000.timerMs =
        if ask.readMs ≤ timeoutMax then ask.readMs.toNat else 1 := by
  have hle := roundValue_le_mul ask.leading.value_nonneg
  have hnonneg := ask.seconds_nonneg
  have hprod : 0 ≤ ask.seconds * 1000 := by linarith
  have hceil : Binary64.roundValue (ask.seconds * 1000) ≤ ask.readMs := Int.le_ceil _
  rw [← Ask.seconds] at hle
  -- past the range of the numbers, the delay is infinite
  have hinfinite : ¬ |Binary64.roundValue (ask.seconds * 1000)| < 2 ^ 1024 → ¬ ask.readMs ≤ timeoutMax := by
    intro hlarge hsmall
    rw [abs_of_nonneg (Binary64.roundValue_nonneg hprod), not_lt] at hlarge
    have hcast : (ask.readMs : ℚ) ≤ 2147483647 := by exact_mod_cast hsmall
    have hbound : (2 : ℚ) ^ 31 ≤ 2 ^ 1024 := pow_le_pow_right₀ (by norm_num) (by norm_num)
    have htop : (2147483647 : ℚ) < 2 ^ 31 := by norm_num
    exact absurd (hbound.trans (hlarge.trans (hceil.trans hcast))) (not_le.2 htop)
  by_cases hfinite : |Binary64.roundValue ask.leading.value| < 2 ^ 1024
  · rw [JsNumber.round, if_pos hfinite, ← Ask.seconds, JsNumber.ceilTimes1000]
    by_cases hfinite' : |Binary64.roundValue (ask.seconds * 1000)| < 2 ^ 1024
    · rw [JsNumber.round, if_pos hfinite']
      dsimp only
      rw [← Ask.readMs]
      have hone : 0 < ask.readMs := Int.ceil_pos.2 (lt_of_lt_of_le hpos hle)
      have hone' : (1 : ℚ) ≤ ask.readMs := by exact_mod_cast hone
      refine ⟨by simpa [lt] using hone, ?_⟩
      rw [JsNumber.timerMs]
      by_cases hmax : ask.readMs ≤ timeoutMax
      · have hcast : (ask.readMs : ℚ) ≤ 2147483647 := by exact_mod_cast hmax
        rw [if_pos ⟨hone', hcast⟩, if_pos hmax, Int.floor_intCast]
      · have hcast : ¬ (ask.readMs : ℚ) ≤ 2147483647 := by exact_mod_cast hmax
        rw [if_neg (fun h => hcast h.2), if_neg hmax]
    · rw [round_of_large hprod hfinite', if_neg (hinfinite hfinite')]
      exact ⟨rfl, rfl⟩
  · have hlarge : ¬ |Binary64.roundValue (ask.seconds * 1000)| < 2 ^ 1024 := by
      rw [abs_of_nonneg (Binary64.roundValue_nonneg hprod)]
      rw [← Ask.seconds, abs_of_nonneg hnonneg] at hfinite
      exact fun hlt => hfinite (hle.trans_lt hlt)
    rw [round_of_large ask.leading.value_nonneg hfinite, if_neg (hinfinite hlarge)]
    exact ⟨rfl, rfl⟩

/-- A number that is read as 0 is a small part of a second. -/
theorem leading_lt_of_zero {ask : Ask} (hzero : ¬ 0 < ask.seconds) : ask.leading.value < 1 / 1000 := by
  by_contra hnot
  have hmono := Binary64.roundValue_mono (not_lt.1 hnot)
  have hthousandth : 0 < Binary64.roundValue (1 / 1000) := by decide +kernel
  exact hzero (hthousandth.trans_le hmono)

/-- A delay past the limit of the timer is a duration of more than a millisecond. -/
theorem one_lt_millis {ask : Ask} (hmax : ¬ ask.readMs ≤ timeoutMax) : 1 < ask.millis := by
  by_contra hnot
  have hleading : ask.leading.value ≤ 1 := ask.leading_le_millis.trans (not_lt.1 hnot)
  have hseconds := Binary64.roundValue_mono hleading
  have hone : Binary64.roundValue (1 : ℚ) = 1 := by decide +kernel
  rw [hone, ← Ask.seconds] at hseconds
  have hprod : Binary64.roundValue (ask.seconds * 1000) ≤ Binary64.roundValue 1000 :=
    Binary64.roundValue_mono (by linarith)
  have hthousand : Binary64.roundValue (1000 : ℚ) = ((1000 : ℤ) : ℚ) := by decide +kernel
  rw [hthousand] at hprod
  have hceil : ask.readMs ≤ 1000 := Int.ceil_le.2 hprod
  exact hmax (hceil.trans (by decide))

/-- The pause covers what the server asks for exactly when `Covered` says so. For
`retry-after` in seconds the only losses are by rounding and by the limit of the timer; for a
duration there is the first unit as well. -/
theorem delayMs_covers_iff {error : ApiError} {ask : Ask} (h : Carries error ask)
    (baseDelayMs : Binary64) (attempt : ℕ) :
    ask.millis ≤ (delayMs baseDelayMs attempt error).timerMs ↔
      ask.Covered (fallbackDelay baseDelayMs attempt error) := by
  rw [Ask.Covered]
  by_cases hpos : 0 < ask.seconds
  · obtain ⟨hlt, htimer⟩ := timerMs_read hpos
    rw [if_pos hpos, delayMs, extractRetryAfterMs_ask h hpos]
    dsimp only
    rw [if_pos hlt, htimer]
    by_cases hmax : ask.readMs ≤ timeoutMax
    · have hnonneg : 0 ≤ ask.readMs := by
        have hprod : 0 ≤ ask.seconds * 1000 := by linarith
        exact Int.ceil_nonneg (Binary64.roundValue_nonneg hprod)
      have hnat : ((ask.readMs.toNat : ℕ) : ℚ) = ask.readMs := by exact_mod_cast Int.toNat_of_nonneg hnonneg
      rw [if_pos hmax, and_iff_left hmax, hnat]
    · rw [if_neg hmax]
      refine iff_of_false (fun hle => ?_) fun hc => hmax hc.2
      have hone := one_lt_millis hmax
      push_cast at hle
      linarith
  · rw [if_neg hpos]
    cases ask with
    | resetTokens first rest => rw [delayMs, extractRetryAfterMs_zero h hpos]
    | retryAfter seconds =>
      -- less than a millisecond is asked for, which every pause covers
      have hsmall : (Ask.retryAfter seconds).millis ≤ 1 := by
        have hlt := leading_lt_of_zero hpos
        show seconds.value * 1000 ≤ 1
        have hvalue : seconds.value < 1 / 1000 := hlt
        linarith
      have hcovers : ∀ delay : JsNumber, (Ask.retryAfter seconds).millis ≤ (delay.timerMs : ℚ) := fun delay =>
        hsmall.trans (by exact_mod_cast one_le_timerMs delay)
      exact iff_of_true (hcovers _) (hcovers _)

/-- **Retries against what the server asked for.** After an error that is not fatal and not
the last one there is a pause, and it lasts as long as the server asked for exactly when
`Covered` says so. The comparison is with the delay that `setTimeout` takes, in exact
milliseconds. -/
theorem executeWithRetry_covers_iff {error : ApiError} {ask : Ask} (h : Carries error ask)
    (hretryable : isFatal error = false) {maxRetries attempt : ℕ} (hmore : attempt ≠ maxRetries)
    (baseDelayMs : Binary64) :
    ∃ delay, retryDelay maxRetries baseDelayMs attempt error = some delay ∧
      (ask.millis ≤ delay.timerMs ↔ ask.Covered (fallbackDelay baseDelayMs attempt error)) := by
  refine ⟨delayMs baseDelayMs attempt error, ?_, delayMs_covers_iff h baseDelayMs attempt⟩
  rw [isFatal_eq, Bool.or_eq_false_iff] at hretryable
  rw [retryDelay, hretryable.1, hretryable.2, if_neg (by decide), if_neg (by decide), if_neg hmore]

/-- A transient 429 with the reset time in a header. -/
def tokensError (resetTokens : String) : ApiError :=
  { httpError 429 "Rate limit reached" with
    headers := some [("x-ratelimit-reset-tokens", resetTokens)] }

/-- `7.66s`. -/
def secondsAsk : Ask := Ask.resetTokens ⟨⟨['7'], ['6', '6'], rfl, List.cons_ne_nil _ _⟩, .s⟩ []

/-- `2m59.56s`. -/
def minutesAsk : Ask :=
  Ask.resetTokens ⟨⟨['2'], [], rfl, List.cons_ne_nil _ _⟩, .m⟩
    [⟨⟨['5', '9'], ['5', '6'], rfl, List.cons_ne_nil _ _⟩, .s⟩]

theorem executeWithRetry_covers_seconds :
    ∃ delay, retryDelay 3 (Binary64.ofInt 2000) 1 (tokensError "7.66s") = some delay ∧
      (secondsAsk.millis ≤ delay.timerMs ↔
        secondsAsk.Covered (fallbackDelay (Binary64.ofInt 2000) 1 (tokensError "7.66s"))) :=
  executeWithRetry_covers_iff
    (show Carries (tokensError "7.66s") secondsAsk from ⟨by decide +kernel, by decide +kernel⟩)
    (by decide +kernel) (by decide) (Binary64.ofInt 2000)

/-- Of two minutes and 59.56 seconds the service waits two seconds. -/
theorem executeWithRetry_covers_minutes :
    Carries (tokensError "2m59.56s") minutesAsk ∧ 0 < minutesAsk.millis ∧
      isFatal (tokensError "2m59.56s") = false ∧
      ∃ delay, retryDelay 3 (Binary64.ofInt 2000) 1 (tokensError "2m59.56s") = some delay ∧
        ¬ minutesAsk.millis ≤ delay.timerMs := by
  refine ⟨⟨by decide +kernel, by decide +kernel⟩, by decide +kernel, by decide +kernel, (2000 : ℤ),
    by decide +kernel, by decide +kernel⟩

end AiService

end TechTrends
