/-
`summarizeContentWithAi` of `AiService`: from the message of the model to the
record that is saved.

The message is JSON of any shape. Each of its four fields is patched by a rule of
its own, and what the rule does not expect goes into the record as it is.
-/
import TechTrends.ExecuteWithRetry
import TechTrends.JsonRoundTrip

set_option autoImplicit false

namespace TechTrends

namespace AiService

/-! ## Values as texts -/

mutual

/-- `String(value)`, which throws on an object with a property `toString` of its own. -/
def valueText : Json → Option String
  | Json.obj members =>
    if members.any fun kv => kv.1 == "toString" then none else some "[object Object]"
  | Json.arr vs => (elementTexts vs).map (",".intercalate ·)
  | Json.null => some "null"
  | Json.bool b => some (if b then "true" else "false")
  | Json.num x => some (String.ofList x.toChars)
  | Json.infinity neg => some (if neg then "-Infinity" else "Infinity")
  | Json.str s => some s

/-- The texts of the elements that `join` puts together, the empty one for `null`. -/
def elementTexts : List Json → Option (List String)
  | [] => some []
  | Json.null :: vs => (elementTexts vs).map ("" :: ·)
  | v :: vs => (valueText v).bind fun text => (elementTexts vs).map (text :: ·)

end

/-- `values.join(separator)`. -/
def join (separator : String) (vs : List Json) : Option String :=
  (elementTexts vs).map (separator.intercalate ·)

/-! ## The call to the model -/

/-- How a request to the model goes: it fails, or it is answered with the content of
a message. -/
inductive GroqReply
  | failed (error : ApiError)
  | content (raw : Option String)

/-- The operation that is retried. A message that is no JSON is an error whose text
only goes to the log. -/
def summarizeOperation : GroqReply → Except ApiError Json
  | GroqReply.failed error => Except.error error
  | GroqReply.content raw =>
    match raw.filter (· ≠ "") with
    | none => Except.error (plainError "AI 응답이 비어 있습니다.")
    | some raw =>
      match Json.parse raw with
      | none => Except.error (plainError "SyntaxError")
      | some parsed => Except.ok parsed

/-! ## The record -/

/-- `FinalSummaryResult` as it comes out: `undefined` is `none`. -/
structure SummaryResult where
  title : Json
  short_summary : List (Option Json)
  long_summary : Json
  tags : Json

/-- `value[key]` of a value that is not `null`. -/
def property (key : String) : Json → Option Json
  | Json.obj members => (members.find? fun kv => kv.1 == key).map Prod.snd
  | _ => none

/-- `value || fallback`. -/
def orElse (value : Option Json) (fallback : Json) : Json := (value.filter Json.truthy).getD fallback

/-- `Array.isArray(value) ? value : [value]`. -/
def shortSummary : Option Json → List (Option Json)
  | some (Json.arr vs) => vs.map some
  | value => [value]

/-- `Array.isArray(value) ? value.join(', ') : value || null`. -/
def summaryTags : Option Json → Option Json
  | some (Json.arr vs) => (join ", " vs).map Json.str
  | value => some (orElse value Json.null)

/-- The record for a parsed message. `null` has no properties: reading one throws. -/
def finalSummary (title : String) (parsed : Json) : Option SummaryResult :=
  match parsed with
  | Json.null => none
  | parsed =>
    (summaryTags (property "tags" parsed)).map fun tags =>
      { title := orElse (property "title" parsed) (Json.str title)
        short_summary := shortSummary (property "short_summary" parsed)
        long_summary := orElse (property "long_summary" parsed) (Json.str "")
        tags := tags }

/-- `maxRetries` and `baseDelayMs` of a call that gives none. -/
def defaultMaxRetries : ℕ := 3
def defaultBaseDelayMs : Binary64 := Binary64.ofInt 2000

/-- The message that the retried operation ends with, when it does not throw. -/
def summaryMessage (replies : ℕ → GroqReply) : Option Json :=
  match (executeWithRetry defaultMaxRetries defaultBaseDelayMs
      fun attempt => summarizeOperation (replies attempt)).result with
  | some (Except.ok parsed) => some parsed
  | _ => none

/-- `summarizeContentWithAi`, with the reply to each attempt. No result means that
it throws. -/
def summarizeContentWithAi (title : String) (replies : ℕ → GroqReply) : Option SummaryResult :=
  (summaryMessage replies).bind (finalSummary title)

/-! ## Well-formed records -/

/-- A record as `FinalSummaryResult` declares it, with a title where there was one. -/
structure SummaryResult.WellFormed (title : String) (r : SummaryResult) : Prop where
  title_text : ∃ t, r.title = Json.str t ∧ (title ≠ "" → t ≠ "")
  short_summary_texts : ∀ v ∈ r.short_summary, ∃ t, v = some (Json.str t)
  long_summary_text : ∃ t, r.long_summary = Json.str t
  tags_text : r.tags = Json.null ∨ ∃ t, r.tags = Json.str t

def isText : Json → Bool
  | Json.str _ => true
  | _ => false

/-- Nothing, a falsy value or a text. -/
def isOptionalText (value : Option Json) : Bool := value.all fun v => !v.truthy || isText v

/-- A text or an array of texts. -/
def isTexts : Option Json → Bool
  | some (Json.arr vs) => vs.all isText
  | some (Json.str _) => true
  | _ => false

/-- An optional text or an array. -/
def isTags : Option Json → Bool
  | some (Json.arr _) => true
  | value => isOptionalText value

/-- The messages that the rules are made for. -/
def isAnswer (parsed : Json) : Bool :=
  isOptionalText (property "title" parsed) && isTexts (property "short_summary" parsed) &&
    isOptionalText (property "long_summary" parsed) && isTags (property "tags" parsed)

/-- The messages on which the rules throw: `null`, and an array of tags that cannot
be joined. -/
def isRejected (parsed : Json) : Bool :=
  match parsed with
  | Json.null => true
  | parsed => (summaryTags (property "tags" parsed)).isNone

theorem isText_iff (v : Json) : isText v = true ↔ ∃ t, v = Json.str t := by
  cases v with
  | str t => exact iff_of_true rfl ⟨t, rfl⟩
  | _ => exact iff_of_false Bool.false_ne_true fun ⟨_, h⟩ => by cases h

/-- The value counts when it is there and truthy, else the fallback does. -/
theorem orElse_cases (value : Option Json) (fallback : Json) :
    (orElse value fallback = fallback ∧ isOptionalText value = true) ∨
      ∃ v, value = some v ∧ v.truthy = true ∧ orElse value fallback = v ∧
        isOptionalText value = isText v := by
  cases value with
  | none => exact Or.inl ⟨rfl, rfl⟩
  | some v =>
    have hall : isOptionalText (some v) = (!v.truthy || isText v) := rfl
    cases hv : v.truthy with
    | false =>
      rw [hall, hv, orElse, Option.filter_some, hv, if_neg (by decide)]
      exact Or.inl ⟨rfl, rfl⟩
    | true =>
      refine Or.inr ⟨v, rfl, hv, ?_, by rw [hall, hv, Bool.not_true, Bool.false_or]⟩
      rw [orElse, Option.filter_some, if_pos hv]
      rfl

/-- A field with a text to fall back on is a text exactly when it is optional text. -/
theorem orElse_text_iff (value : Option Json) (t : String) :
    (∃ u, orElse value (Json.str t) = Json.str u) ↔ isOptionalText value = true := by
  rcases orElse_cases value (Json.str t) with ⟨heq, hopt⟩ | ⟨v, -, -, heq, hopt⟩
  · rw [heq, hopt]
    exact iff_of_true ⟨t, rfl⟩ rfl
  · rw [heq, hopt]
    exact (isText_iff v).symm

/-- The title falls back on the original one, and a title that counts is not empty. -/
theorem title_text_iff (value : Option Json) (title : String) :
    (∃ t, orElse value (Json.str title) = Json.str t ∧ (title ≠ "" → t ≠ "")) ↔
      isOptionalText value = true := by
  rw [← orElse_text_iff value title]
  refine ⟨fun ⟨t, ht, _⟩ => ⟨t, ht⟩, fun ⟨t, ht⟩ => ⟨t, ht, fun htitle => ?_⟩⟩
  rcases orElse_cases value (Json.str title) with ⟨heq, -⟩ | ⟨v, -, htruthy, heq, -⟩
  · rw [heq] at ht
    cases ht
    exact htitle
  · rw [heq] at ht
    rw [ht] at htruthy
    simpa [Json.truthy] using htruthy

theorem shortSummary_iff (value : Option Json) :
    (∀ v ∈ shortSummary value, ∃ t, v = some (Json.str t)) ↔ isTexts value = true := by
  have hsingle : ∀ value : Option Json, (∀ v ∈ [value], ∃ t, v = some (Json.str t)) ↔
      ∃ t, value = some (Json.str t) := fun value =>
    ⟨fun h => h value (List.mem_singleton_self value), fun h v hv => List.mem_singleton.1 hv ▸ h⟩
  cases value with
  | none => exact (hsingle none).trans (iff_of_false (fun ⟨_, h⟩ => by cases h) Bool.false_ne_true)
  | some v =>
    cases v with
    | arr vs =>
      show (∀ v ∈ vs.map some, ∃ t, v = some (Json.str t)) ↔ vs.all isText = true
      rw [List.forall_mem_map, List.all_eq_true]
      refine forall₂_congr fun v _ => ?_
      rw [isText_iff]
      exact ⟨fun ⟨t, h⟩ => ⟨t, Option.some.inj h⟩, fun ⟨t, h⟩ => ⟨t, congrArg some h⟩⟩
    | str t => exact (hsingle _).trans (iff_of_true ⟨t, rfl⟩ rfl)
    | _ => exact (hsingle _).trans (iff_of_false (fun ⟨_, h⟩ => by cases h) Bool.false_ne_true)

theorem tags_text_iff (value : Option Json) :
    (∀ tags, summaryTags value = some tags → tags = Json.null ∨ ∃ t, tags = Json.str t) ↔
      isTags value = true := by
  have hfallback : ∀ value : Option Json,
      (∀ tags, some (orElse value Json.null) = some tags → tags = Json.null ∨ ∃ t, tags = Json.str t) ↔
        isOptionalText value = true := by
    intro value
    rcases orElse_cases value Json.null with ⟨heq, hopt⟩ | ⟨v, -, htruthy, heq, hopt⟩
    · rw [heq, hopt]
      exact iff_of_true (fun tags htags => Or.inl (Option.some.inj htags).symm) rfl
    · rw [heq, hopt, isText_iff]
      refine ⟨fun h => (h v rfl).resolve_left fun hnull => ?_, fun h tags htags => ?_⟩
      · rw [hnull] at htruthy
        cases htruthy
      · exact Or.inr (Option.some.inj htags ▸ h)
  cases value with
  | none => exact hfallback none
  | some v =>
    cases v with
    | arr vs =>
      refine iff_of_true (fun tags htags => ?_) rfl
      obtain ⟨text, -, rfl⟩ := Option.map_eq_some_iff.1 htags
      exact Or.inr ⟨text, rfl⟩
    | _ => exact hfallback _

theorem finalSummary_of_ne_null (title : String) {parsed : Json} (h : parsed ≠ Json.null) :
    finalSummary title parsed = (summaryTags (property "tags" parsed)).map fun tags =>
      { title := orElse (property "title" parsed) (Json.str title)
        short_summary := shortSummary (property "short_summary" parsed)
        long_summary := orElse (property "long_summary" parsed) (Json.str "")
        tags := tags } := by
  cases parsed with
  | null => exact absurd rfl h
  | _ => rfl

theorem isRejected_of_ne_null {parsed : Json} (h : parsed ≠ Json.null) :
    isRejected parsed = (summaryTags (property "tags" parsed)).isNone := by
  cases parsed with
  | null => exact absurd rfl h
  | _ => rfl

/-- A message leads to a well-formed record or to an error exactly when it is one of
those that the rules are made for, or the rules throw on it. -/
theorem finalSummary_wellFormed_iff (title : String) (parsed : Json) :
    (∀ r, finalSummary title parsed = some r → r.WellFormed title) ↔
      isRejected parsed = true ∨ isAnswer parsed = true := by
  by_cases hnull : parsed = Json.null
  · rw [hnull]
    exact iff_of_true (fun r h => by cases h) (Or.inl rfl)
  rw [finalSummary_of_ne_null title hnull, isRejected_of_ne_null hnull]
  cases htags : summaryTags (property "tags" parsed) with
  | none => exact iff_of_true (fun r h => by cases h) (Or.inl rfl)
  | some tags =>
    have htagsIff : (tags = Json.null ∨ ∃ t, tags = Json.str t) ↔ isTags (property "tags" parsed) = true := by
      rw [← tags_text_iff, htags]
      exact ⟨fun h t ht => Option.some.inj ht ▸ h, fun h => h tags rfl⟩
    have hanswer : isAnswer parsed = true ↔ isOptionalText (property "title" parsed) = true ∧
        isTexts (property "short_summary" parsed) = true ∧
        isOptionalText (property "long_summary" parsed) = true ∧ isTags (property "tags" parsed) = true := by
      rw [isAnswer, Bool.and_eq_true, Bool.and_eq_true, Bool.and_eq_true, and_assoc, and_assoc]
    rw [or_iff_right (a := (some tags).isNone = true) Bool.false_ne_true, hanswer,
      ← title_text_iff _ title, ← shortSummary_iff, ← orElse_text_iff _ "", ← htagsIff]
    constructor
    · intro h
      obtain ⟨htitle, hshort, hlong, htagsText⟩ := h _ rfl
      exact ⟨htitle, hshort, hlong, htagsText⟩
    · rintro ⟨htitle, hshort, hlong, htagsText⟩ r hr
      cases hr
      exact ⟨htitle, hshort, hlong, htagsText⟩

/-- **Summaries.** Whatever the replies are, `summarizeContentWithAi` throws or gives
a well-formed record exactly when the message that it ends with is one of those. -/
theorem summarizeContentWithAi_wellFormed_iff (title : String) (replies : ℕ → GroqReply) :
    (∀ r, summarizeContentWithAi title replies = some r → r.WellFormed title) ↔
      ∀ parsed, summaryMessage replies = some parsed →
        isRejected parsed = true ∨ isAnswer parsed = true := by
  rw [summarizeContentWithAi]
  cases summaryMessage replies with
  | none => exact iff_of_true (fun r h => by cases h) fun parsed h => by cases h
  | some parsed =>
    rw [Option.bind_some, finalSummary_wellFormed_iff]
    exact ⟨fun h v hv => Option.some.inj hv ▸ h, fun h => h parsed rfl⟩

/-- A JSON text in the first reply is the message. -/
theorem summaryMessage_of_stringify {parsed : Json} (h : parsed.WellFormed) {replies : ℕ → GroqReply}
    (hreply : replies 1 = GroqReply.content (some parsed.stringify)) :
    summaryMessage replies = some parsed := by
  have hne : parsed.stringify ≠ "" := Json.stringify_ne_empty parsed
  have hoperation : summarizeOperation (replies 1) = Except.ok parsed := by
    rw [hreply, summarizeOperation, Option.filter_some, if_pos (decide_eq_true hne)]
    dsimp only
    rw [Json.parse_stringify parsed h]
  have hresult : (executeWithRetry defaultMaxRetries defaultBaseDelayMs
      fun attempt => summarizeOperation (replies attempt)).result = some (Except.ok parsed) := by
    have hpause : RetryLoop.pauseAfter (retryDelay defaultMaxRetries defaultBaseDelayMs)
        (fun attempt => summarizeOperation (replies attempt)) 1 = none := by
      rw [RetryLoop.pauseAfter, hoperation]
    have hstop := RetryLoop.retryLoop_of_none hpause 2
    exact (congrArg RetryLoop.Retried.result hstop).trans (congrArg some hoperation)
  rw [summaryMessage, hresult]

/-- A message without a summary in lines: the record has `undefined` for its line. -/
def noShortSummary : Json :=
  Json.obj [("title", Json.str "Redis"), ("long_summary", Json.str "캐시 전략"), ("tags", Json.arr [])]

theorem summarizeContentWithAi_no_short_summary :
    ∃ r, summarizeContentWithAi "Redis 8"
        (fun _ => GroqReply.content (some noShortSummary.stringify)) = some r ∧
      ¬ r.WellFormed "Redis 8" := by
  have hwf : noShortSummary.WellFormed := ⟨by decide, trivial, trivial, trivial, trivial⟩
  have hmessage : summaryMessage (fun _ => GroqReply.content (some noShortSummary.stringify))
      = some noShortSummary := summaryMessage_of_stringify hwf rfl
  refine ⟨⟨Json.str "Redis", [none], Json.str "캐시 전략", Json.str ""⟩, ?_, fun h => ?_⟩
  · rw [summarizeContentWithAi, hmessage]
    rfl
  · obtain ⟨t, ht⟩ := h.short_summary_texts none (List.mem_singleton_self _)
    cases ht

end AiService

end TechTrends
