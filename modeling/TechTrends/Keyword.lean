/-
The search keyword: `normalizeKeyword` of `AiService`, and the Redis keys that
are made from its result.

`toLowerCase` is given on the characters that the later steps can keep: the
ASCII letters, and the two other characters whose lower case is made of ASCII
letters, the Kelvin sign and the capital I with a dot. Every other cased
character is dropped by the character filter, whichever case it is in.
-/
import TechTrends.JsString

set_option autoImplicit false

namespace TechTrends

namespace AiService

open JsString (isWhitespace isWordChar trim)

/-! ## `normalizeKeyword` -/

def lowerChar (c : Char) : List Char :=
  if c.toNat = 0x212A then ['k']
  else if c.toNat = 0x130 then ['i', Char.ofNat 0x307]
  else [c.toLower]

/-- The alternatives of the first pattern, in its order. None of them ends in
another one, so at most one of them ends a given text. -/
def questionSuffixes : List String :=
  ["에 대해", "대해서", "알려줘", "뭐야", "무엇인가요", "검색해줘", "찾아줘", "설명해줘", "알려주세요"]

/-- `.replace(/(…)$/g, '')`. -/
def dropQuestionSuffix (cs : List Char) : List Char :=
  match questionSuffixes.find? fun suffix => suffix.toList.isSuffixOf cs with
  | some suffix => cs.take (cs.length - suffix.toList.length)
  | none => cs

/-- The characters that `[^\w\sㄱ-ㅎ가-힣+#.-]` does not match. -/
def isKeywordChar (c : Char) : Bool :=
  isWordChar c || isWhitespace c || ('ㄱ' ≤ c && c ≤ 'ㅎ') || ('가' ≤ c && c ≤ '힣') ||
    c == '+' || c == '#' || c == '.' || c == '-'

/-- `.replace(/\s+/g, ' ')`. -/
def collapseSpaces : List Char → List Char
  | [] => []
  | c :: cs =>
    if isWhitespace c then
      match cs with
      | d :: _ => if isWhitespace d then collapseSpaces cs else ' ' :: collapseSpaces cs
      | [] => [' ']
    else c :: collapseSpaces cs

def normalizeKeyword (keyword : String) : String :=
  if keyword = "" then ""
  else
    let lower := keyword.toList.flatMap lowerChar
    let kept := (dropQuestionSuffix lower).filter isKeywordChar
    String.ofList (trim (collapseSpaces kept))

/-- `!query || !query.trim()`. -/
def isBlank (query : String) : Bool := (trim query.toList).isEmpty

/-! ## Keys -/

/-- `emb:${embeddingModelName}:${normalizedQuery}`. -/
def cacheKey (embeddingModelName normalizedQuery : String) : String :=
  "emb:" ++ embeddingModelName ++ ":" ++ normalizedQuery

/-- `lock:${cacheKey}`. -/
def lockKey (embeddingModelName normalizedQuery : String) : String :=
  "lock:" ++ cacheKey embeddingModelName normalizedQuery

/-- With one model, different texts have different cache keys. -/
theorem cacheKey_inj {m t u : String} (h : cacheKey m t = cacheKey m u) : t = u := by
  have hl := congrArg String.toList h
  simp only [cacheKey, String.toList_append, List.append_assoc, List.append_cancel_left_eq] at hl
  exact String.toList_injective hl

theorem lockKey_inj {m t u : String} (h : lockKey m t = lockKey m u) : t = u := by
  have hl := congrArg String.toList h
  simp only [lockKey, String.toList_append, List.append_cancel_left_eq] at hl
  exact cacheKey_inj (String.toList_injective hl)

/-- A cache key starts with `e` and a lock key with `l`, so the lock of one text never stands
where the vector of another is looked for. -/
theorem cacheKey_ne_lockKey (m t u : String) : cacheKey m t ≠ lockKey m u := by
  intro h
  have hl := congrArg (fun s => s.toList.head?) h
  simp [cacheKey, lockKey] at hl

end AiService

end TechTrends
