/-
`executeWithRetry` and `extractRetryAfterMs` of `AiService`: what one failed
attempt leads to.

An error is what the function looks at: the three places of a status, the two of
a message, the three of the headers. Times are numbers of milliseconds, rounded as
JavaScript rounds them, until a timer is set.
-/
import TechTrends.JsNumber

set_option autoImplicit false

namespace TechTrends

/-- The parts of a thrown value that `executeWithRetry` reads. Header names are
in lower case, as both `Headers.get` and the fallback lookup give them. -/
structure ApiError where
  status : Option JsNumber
  responseStatus : Option JsNumber
  statusCode : Option JsNumber
  message : Option String
  errorMessage : Option String
  headers : Option (List (String × String))
  responseHeaders : Option (List (String × String))
  errorHeaders : Option (List (String × String))
deriving DecidableEq

namespace AiService

open JsNumber (lt)

/-- `error?.status || error?.response?.status || error?.statusCode`, with `none`
for `undefined`. -/
def errorStatus (error : ApiError) : Option JsNumber :=
  match error.status.filter JsNumber.truthy with
  | some s => some s
  | none =>
    match error.responseStatus.filter JsNumber.truthy with
    | some s => some s
    | none => error.statusCode

/-- `String(error?.message ?? error?.error?.message ?? '')`. -/
def errorText (error : ApiError) : String :=
  (error.message <|> error.errorMessage).getD ""

/-- The value of a header in seconds, rounded up to milliseconds, when it is a
nonempty text that starts with a positive number. -/
def headerMs (headers : List (String × String)) (name : String) : Option JsNumber :=
  match (headers.find? fun h => h.1 == name).map Prod.snd with
  | none => none
  | some text =>
    if text = "" then none
    else
      let seconds := JsNumber.parseFloat text
      if lt (0 : ℤ) seconds then some seconds.ceilTimes1000 else none

def extractRetryAfterMs (error : ApiError) : Option JsNumber :=
  match error.headers <|> error.responseHeaders <|> error.errorHeaders with
  | none => none
  | some headers =>
    match headerMs headers "retry-after" with
    | some ms => some ms
    | none => headerMs headers "x-ratelimit-reset-tokens"

/-- What a failed attempt leads to: the error is thrown on, or the next attempt
is made after a pause. -/
inductive Verdict
  | rethrow
  | retryAfter (delay : JsNumber)
deriving DecidableEq

/-- `status === 429 && msg.includes('Request too large')`. -/
def isStructuralOverflow (error : ApiError) : Bool :=
  errorStatus error == some ((429 : ℤ) : JsNumber) && JsString.includes (errorText error) "Request too large"

/-- `status && status >= 400 && status < 500 && status !== 429`. -/
def isNonRetryable (error : ApiError) : Bool :=
  match errorStatus error with
  | none => false
  | some s =>
    s.truthy && !lt s (400 : ℤ) && s != JsNumber.nan && lt s (500 : ℤ) && s != ((429 : ℤ) : JsNumber)

/-- `baseDelayMs * Math.pow(multiplier, attempt - 1)`. -/
def fallbackDelay (baseDelayMs : Binary64) (attempt : ℕ) (error : ApiError) : JsNumber :=
  let multiplier : ℕ := if errorStatus error = some ((429 : ℤ) : JsNumber) then 3 else 2
  JsNumber.mul (JsNumber.finite baseDelayMs.value) (JsNumber.round (multiplier ^ (attempt - 1) : ℕ))

/-- The `catch` block of the loop of `executeWithRetry`, at attempt `attempt`. -/
def onError (maxRetries : ℕ) (baseDelayMs : Binary64) (attempt : ℕ) (error : ApiError) : Verdict :=
  if isStructuralOverflow error then Verdict.rethrow
  else if isNonRetryable error then Verdict.rethrow
  else if attempt = maxRetries then Verdict.rethrow
  else
    match extractRetryAfterMs error with
    | none => Verdict.retryAfter (fallbackDelay baseDelayMs attempt error)
    | some retryAfterMs =>
      if lt (0 : ℤ) retryAfterMs then Verdict.retryAfter retryAfterMs
      else Verdict.retryAfter (fallbackDelay baseDelayMs attempt error)

/-- The last attempt is never followed by another one, whatever its error says: `attempt ===
maxRetries` is asked before the headers are read. -/
theorem onError_last (maxRetries : ℕ) (baseDelayMs : Binary64) (error : ApiError) :
    onError maxRetries baseDelayMs maxRetries error = Verdict.rethrow := by
  unfold onError
  rw [if_pos rfl, ite_self, ite_self]

/-- An error with this message and nothing else. -/
def plainError (message : String) : ApiError :=
  { status := none, responseStatus := none, statusCode := none, message := some message,
    errorMessage := none, headers := none, responseHeaders := none, errorHeaders := none }

/-- An HTTP error with a status and no headers. -/
def httpError (status : ℤ) (message : String) : ApiError :=
  { plainError message with status := some status }

-- The fallback pauses of a 429 are the base delay and then three times as much.
example : onError 3 (Binary64.ofInt 3000) 1 (httpError 429 "quota") = Verdict.retryAfter (3000 : ℤ) := by
  decide +kernel

end AiService

end TechTrends
