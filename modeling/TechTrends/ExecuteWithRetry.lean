/-
`executeWithRetry` of `AiService`: the loop, on any sequence of outcomes of its
operation.
-/
import TechTrends.Retry
import TechTrends.RetryLoop

set_option autoImplicit false

namespace TechTrends

namespace AiService

open JsNumber (lt)
open RetryLoop (Retried retryLoop pauseAfter retryLoop_spec)

/-! ## The loop -/

/-- `retryAfterMs && retryAfterMs > 0 ? retryAfterMs : fallbackDelay`. -/
def delayMs (baseDelayMs : Binary64) (attempt : ℕ) (error : ApiError) : JsNumber :=
  match extractRetryAfterMs error with
  | some retryAfterMs =>
    if lt (0 : ℤ) retryAfterMs then retryAfterMs
    else fallbackDelay baseDelayMs attempt error
  | none => fallbackDelay baseDelayMs attempt error

/-- The `catch` block at attempt `attempt`: the pause before the next attempt, or
nothing when the error is thrown on. -/
def retryDelay (maxRetries : ℕ) (baseDelayMs : Binary64) (attempt : ℕ) (error : ApiError) :
    Option JsNumber :=
  if isStructuralOverflow error then none
  else if isNonRetryable error then none
  else if attempt = maxRetries then none
  else some (delayMs baseDelayMs attempt error)

/-- `executeWithRetry`, with the outcome of the operation at each attempt. No result
stands for the error `Unreachable code`. -/
def executeWithRetry {α : Type*} (maxRetries : ℕ) (baseDelayMs : Binary64)
    (operation : ℕ → Except ApiError α) : Retried α ApiError JsNumber :=
  retryLoop (retryDelay maxRetries baseDelayMs) operation maxRetries 1

/-- The verdict of the block is its pause. `retryDelay` puts the three reasons to throw the
error on into one, in the order in which the `catch` block asks for them. -/
theorem onError_eq (maxRetries : ℕ) (baseDelayMs : Binary64) (attempt : ℕ) (error : ApiError) :
    onError maxRetries baseDelayMs attempt error =
      match retryDelay maxRetries baseDelayMs attempt error with
      | none => Verdict.rethrow
      | some delay => Verdict.retryAfter delay := by
  rw [onError, retryDelay]
  split
  · rfl
  · split
    · rfl
    · split
      · rfl
      · dsimp only
        rw [delayMs]
        cases extractRetryAfterMs error with
        | none => rfl
        | some retryAfterMs =>
          dsimp only
          split <;> rfl

/-! ## Fatal errors -/

/-- The errors that are never retried: a request that is too large, and a status of
the 400s other than 429. -/
def isFatal (error : ApiError) : Bool :=
  match errorStatus error with
  | some (JsNumber.finite q) =>
    (q = 429 && JsString.includes (errorText error) "Request too large") ||
      (400 ≤ q && q < 500 && q ≠ 429)
  | _ => false

/-- An error is fatal when it is a structural overflow, a 429 whose message says that the
request is too large, or when it has another status of the 400s. The code asks for the two one
after the other and throws the error on in both cases. -/
theorem isFatal_eq (error : ApiError) :
    isFatal error = (isStructuralOverflow error || isNonRetryable error) := by
  rw [isFatal, isStructuralOverflow, isNonRetryable]
  cases hs : errorStatus error with
  | none => rfl
  | some s =>
    cases s with
    | nan => rfl
    | infinity neg => cases neg <;> rfl
    | finite q =>
      have h429 : (some (JsNumber.finite q) == some ((429 : ℤ) : JsNumber)) = decide (q = 429) := by
        rw [Bool.eq_iff_iff]
        simp
      have hfour : (JsNumber.truthy (JsNumber.finite q) && !lt (JsNumber.finite q) (400 : ℤ) &&
          JsNumber.finite q != JsNumber.nan && lt (JsNumber.finite q) (500 : ℤ) &&
          JsNumber.finite q != ((429 : ℤ) : JsNumber))
          = (decide (400 ≤ q) && decide (q < 500) && decide (q ≠ 429)) := by
        rw [Bool.eq_iff_iff]
        simp only [JsNumber.truthy, lt, Bool.and_eq_true, decide_eq_true_eq, Bool.not_eq_true',
          decide_eq_false_iff_not, bne_iff_ne, ne_eq, not_lt]
        constructor
        · rintro ⟨⟨⟨⟨-, h400⟩, -⟩, h500⟩, hne⟩
          exact ⟨⟨by simpa using h400, by simpa using h500⟩, fun hq => hne (by rw [hq]; rfl)⟩
        · rintro ⟨⟨h400, h500⟩, hne⟩
          refine ⟨⟨⟨⟨fun hq => ?_, by simpa using h400⟩, by simp⟩, by simpa using h500⟩, fun hq => hne ?_⟩
          · rw [hq] at h400
            exact absurd h400 (by norm_num)
          · simpa using hq
      dsimp only
      rw [h429, hfour]

/-! ## The discipline -/

section Discipline

variable {α : Type*}

/-- The operation has succeeded, or its error is fatal. -/
def settles : Except ApiError α → Bool
  | Except.ok _ => true
  | Except.error e => isFatal e

/-- The first attempt that settles, or the last one. -/
def stopPosition (maxRetries : ℕ) (operation : ℕ → Except ApiError α) : ℕ :=
  ((List.range' 1 maxRetries).find? fun i => settles (operation i)).getD maxRetries

variable {maxRetries : ℕ} {baseDelayMs : Binary64} {operation : ℕ → Except ApiError α}

/-- The attempt that the loop stops at: the first one that settles, or the last one. -/
theorem stopPosition_spec (operation : ℕ → Except ApiError α) (hn : 1 ≤ maxRetries) :
    1 ≤ stopPosition maxRetries operation ∧ stopPosition maxRetries operation ≤ maxRetries ∧
      (settles (operation (stopPosition maxRetries operation)) = true ∨
        stopPosition maxRetries operation = maxRetries) ∧
      ∀ i, 1 ≤ i → i < stopPosition maxRetries operation → settles (operation i) = false := by
  rw [stopPosition]
  cases hfind : (List.range' 1 maxRetries).find? fun i => settles (operation i) with
  | none =>
    refine ⟨hn, Nat.le_refl _, Or.inr rfl, fun i hi hlt => ?_⟩
    have hmem : i ∈ List.range' 1 maxRetries := List.mem_range'_1.2 ⟨hi, by rw [Option.getD_none] at hlt; omega⟩
    simpa using List.find?_eq_none.1 hfind i hmem
  | some k =>
    rw [Option.getD_some]
    obtain ⟨hk, hmem, hbefore⟩ := List.find?_range'_eq_some.1 hfind
    have hrange := List.mem_range'_1.1 hmem
    refine ⟨hrange.1, by omega, Or.inl hk, fun i hi hlt => ?_⟩
    simpa using hbefore i hi hlt

/-- The loop goes on after an attempt that has not settled and is not the last one. An attempt
settles by a value or by a fatal error. -/
theorem pauseAfter_eq_none_iff (i : ℕ) :
    pauseAfter (retryDelay maxRetries baseDelayMs) operation i = none ↔
      settles (operation i) = true ∨ i = maxRetries := by
  rw [pauseAfter]
  cases operation i with
  | ok a => exact iff_of_true rfl (Or.inl rfl)
  | error e =>
    rw [settles, isFatal_eq, Bool.or_eq_true]
    dsimp only
    rw [retryDelay]
    split
    · next hoverflow => exact iff_of_true rfl (Or.inl (Or.inl hoverflow))
    · next hoverflow =>
      split
      · next hnon => exact iff_of_true rfl (Or.inl (Or.inr hnon))
      · next hnon =>
        split
        · next hlast => exact iff_of_true rfl (Or.inr hlast)
        · next hlast =>
          refine iff_of_false (Option.some_ne_none _) ?_
          rintro ((h | h) | h)
          · exact hoverflow h
          · exact hnon h
          · exact hlast h

/-- A pause lasts some time. The product of a positive delay with a power of the multiplier is
rounded to something positive, since the multiplier is at least 1. -/
theorem lt_delayMs (hbase : 0 < baseDelayMs.value) (attempt : ℕ) (error : ApiError) :
    lt (0 : ℤ) (delayMs baseDelayMs attempt error) = true := by
  have hfallback : lt (0 : ℤ) (fallbackDelay baseDelayMs attempt error) = true := by
    refine JsNumber.lt_mul_round baseDelayMs hbase ?_
    rw [Nat.one_le_cast]
    split <;> exact Nat.one_le_pow _ _ (by decide)
  rw [delayMs]
  split
  · split
    · next hpos => exact hpos
    · exact hfallback
  · exact hfallback

/-- Every pause that the loop makes is positive, when the base of the pauses is: it pauses for
`delayMs` and nothing else, after an error that is neither fatal nor the last one. -/
theorem lt_of_pauseAfter (hbase : 0 < baseDelayMs.value) {i : ℕ} {d : JsNumber}
    (h : pauseAfter (retryDelay maxRetries baseDelayMs) operation i = some d) :
    lt (0 : ℤ) d = true := by
  rw [pauseAfter] at h
  split at h
  · cases h
  · next e _ =>
    rw [retryDelay] at h
    split at h
    · cases h
    · split at h
      · cases h
      · split at h
        · cases h
        · cases h
          exact lt_delayMs hbase i e

/-- **Retry discipline.** The operation is called up to the first attempt that succeeds or
fails fatally, or the last one, with a pause between two calls, and the outcome is that of the
last call. `throw new Error('Unreachable code')` behind the loop is never reached, as at least
one attempt is made. -/
theorem executeWithRetry_discipline (hn : 1 ≤ maxRetries) (baseDelayMs : Binary64)
    (operation : ℕ → Except ApiError α) :
    (executeWithRetry maxRetries baseDelayMs operation).calls = stopPosition maxRetries operation ∧
      (executeWithRetry maxRetries baseDelayMs operation).waits.length
        = stopPosition maxRetries operation - 1 ∧
      (0 < baseDelayMs.value → ∀ d ∈ (executeWithRetry maxRetries baseDelayMs operation).waits,
        lt (0 : ℤ) d = true) ∧
      (executeWithRetry maxRetries baseDelayMs operation).result
        = some (operation (stopPosition maxRetries operation)) := by
  obtain ⟨hone, hle, hstop, hbefore⟩ := stopPosition_spec operation hn
  have hlast : pauseAfter (retryDelay maxRetries baseDelayMs) operation
      (stopPosition maxRetries operation) = none := (pauseAfter_eq_none_iff _).2 hstop
  have hgoes : ∀ i, 1 ≤ i → i < stopPosition maxRetries operation →
      pauseAfter (retryDelay maxRetries baseDelayMs) operation i ≠ none := by
    intro i hi hlt hnone
    rcases (pauseAfter_eq_none_iff i).1 hnone with h | h
    · rw [hbefore i hi hlt] at h
      cases h
    · omega
  have hfuel : stopPosition maxRetries operation < 1 + maxRetries := by omega
  obtain ⟨hcalls, hlength, hwaits, hresult⟩ := retryLoop_spec hlast hone hfuel hgoes
  refine ⟨hcalls, hlength, fun hbase d hd => ?_, hresult⟩
  obtain ⟨i, hi⟩ := hwaits d hd
  exact lt_of_pauseAfter hbase hi

/-- Two server errors and a value: three calls, two pauses. -/
theorem executeWithRetry_third :
    let operation : ℕ → Except ApiError ℕ := fun i => if i < 3 then .error (httpError 503 "") else .ok i
    (executeWithRetry 3 (Binary64.ofInt 2000) operation).calls = stopPosition 3 operation ∧
      (executeWithRetry 3 (Binary64.ofInt 2000) operation).waits.length = stopPosition 3 operation - 1 ∧
      (0 < (Binary64.ofInt 2000).value →
        ∀ d ∈ (executeWithRetry 3 (Binary64.ofInt 2000) operation).waits, lt (0 : ℤ) d = true) ∧
      (executeWithRetry 3 (Binary64.ofInt 2000) operation).result = some (operation (stopPosition 3 operation)) :=
  executeWithRetry_discipline (by decide) (Binary64.ofInt 2000) _

end Discipline

end AiService

end TechTrends
