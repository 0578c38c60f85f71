/-
A bounded retry loop, whatever is retried.

A policy looks at a failed attempt and gives a pause, or none when the error is
thrown on. The loop makes attempts until one succeeds, the policy gives up, or
the number of attempts is used up.
-/
import Mathlib.Data.List.Basic
import Mathlib.Order.Basic

set_option autoImplicit false

namespace RetryLoop

variable {α ε δ : Type*}

/-- What a loop did: its attempts, its pauses, and how it ended. It ends without a
result when it runs out of attempts. -/
structure Retried (α ε δ : Type*) where
  calls : ℕ
  waits : List δ
  result : Option (Except ε α)

def Retried.prepend (d : δ) (r : Retried α ε δ) : Retried α ε δ :=
  { calls := r.calls + 1, waits := d :: r.waits, result := r.result }

variable (policy : ℕ → ε → Option δ) (outcomes : ℕ → Except ε α)

/-- At most `fuel` attempts, the first one with the number `attempt`. -/
def retryLoop : ℕ → ℕ → Retried α ε δ
  | 0, _ => { calls := 0, waits := [], result := none }
  | fuel + 1, attempt =>
    match outcomes attempt with
    | Except.ok a => { calls := 1, waits := [], result := some (Except.ok a) }
    | Except.error e =>
      match policy attempt e with
      | none => { calls := 1, waits := [], result := some (Except.error e) }
      | some d => (retryLoop fuel (attempt + 1)).prepend d

/-- The pause after an attempt, when the loop goes on. -/
def pauseAfter (attempt : ℕ) : Option δ :=
  match outcomes attempt with
  | Except.ok _ => none
  | Except.error e => policy attempt e

variable {policy outcomes}

/-- An attempt without a pause after it is the last one: it succeeded, or the policy throws
its error on. -/
theorem retryLoop_of_none {attempt : ℕ} (h : pauseAfter policy outcomes attempt = none) (fuel : ℕ) :
    retryLoop policy outcomes (fuel + 1) attempt
      = { calls := 1, waits := [], result := some (outcomes attempt) } := by
  rw [pauseAfter] at h
  rw [retryLoop]
  cases ho : outcomes attempt with
  | ok a => rfl
  | error e =>
    rw [ho] at h
    dsimp only at h ⊢
    rw [h]

/-- An attempt with a pause after it is followed by the rest of the loop. -/
theorem retryLoop_of_some {attempt : ℕ} {d : δ} (h : pauseAfter policy outcomes attempt = some d)
    (fuel : ℕ) : retryLoop policy outcomes (fuel + 1) attempt
      = (retryLoop policy outcomes fuel (attempt + 1)).prepend d := by
  rw [pauseAfter] at h
  rw [retryLoop]
  cases ho : outcomes attempt with
  | ok a =>
    rw [ho] at h
    cases h
  | error e =>
    rw [ho] at h
    dsimp only at h ⊢
    rw [h]

/-- What a loop ends with is the outcome of one of its attempts. It makes up no error of its
own, unless it runs out of fuel. -/
theorem retryLoop_result {r : Except ε α} : ∀ {fuel attempt : ℕ},
    (retryLoop policy outcomes fuel attempt).result = some r → ∃ i, outcomes i = r := by
  intro fuel
  induction fuel with
  | zero => exact fun h => by cases h
  | succ fuel ih =>
    intro attempt h
    cases hpause : pauseAfter policy outcomes attempt with
    | none =>
      rw [retryLoop_of_none hpause] at h
      exact ⟨attempt, Option.some.inj h⟩
    | some d =>
      rw [retryLoop_of_some hpause] at h
      exact ih h

/-- **The loop rule.** When `k` is the first attempt without a pause after it and there is
fuel for it, the loop makes the attempts up to `k`, pauses between them and ends as `k` did.
The induction is on the fuel, with the number of the attempt at hand running along. -/
theorem retryLoop_spec {k : ℕ} (hstop : pauseAfter policy outcomes k = none) :
    ∀ {fuel attempt : ℕ}, attempt ≤ k → k < attempt + fuel →
      (∀ i, attempt ≤ i → i < k → pauseAfter policy outcomes i ≠ none) →
      (retryLoop policy outcomes fuel attempt).calls = k + 1 - attempt ∧
        (retryLoop policy outcomes fuel attempt).waits.length = k - attempt ∧
        (∀ d ∈ (retryLoop policy outcomes fuel attempt).waits,
          ∃ i, pauseAfter policy outcomes i = some d) ∧
        (retryLoop policy outcomes fuel attempt).result = some (outcomes k) := by
  intro fuel
  induction fuel with
  | zero => intro attempt hle hlt; omega
  | succ fuel ih =>
    intro attempt hle hlt hbefore
    by_cases hk : attempt = k
    · rw [hk, retryLoop_of_none hstop]
      exact ⟨by rw [Nat.add_sub_cancel_left], (Nat.sub_self k).symm,
        fun d hd => absurd hd List.not_mem_nil, rfl⟩
    · obtain ⟨d, hd⟩ := Option.ne_none_iff_exists'.1 (hbefore attempt (Nat.le_refl _) (by omega))
      obtain ⟨hcalls, hlength, hwaits, hresult⟩ :=
        ih (show attempt + 1 ≤ k by omega) (by omega) fun i hi => hbefore i (by omega)
      rw [retryLoop_of_some hd]
      refine ⟨?_, ?_, fun d' hd' => ?_, hresult⟩
      · show (retryLoop policy outcomes fuel (attempt + 1)).calls + 1 = k + 1 - attempt
        omega
      · show (retryLoop policy outcomes fuel (attempt + 1)).waits.length + 1 = k - attempt
        omega
      · rcases List.mem_cons.1 hd' with rfl | hd'
        · exact ⟨attempt, hd⟩
        · exact hwaits d' hd'

end RetryLoop
