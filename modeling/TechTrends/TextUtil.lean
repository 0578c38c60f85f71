/-
`text.util`: `sanitizeAndFilter`, pass by pass.

Each pattern is a matcher on code units. The lazy and the greedy parts of the
patterns are resolved by hand: where the first try of a part fails, the later
ones that backtracking would make fail as well, for the reason given there.
-/
import TechTrends.JsString

set_option autoImplicit false

namespace TechTrends

namespace TextUtil

open JsString (Units utf16 unit isWhitespaceUnit isLineTerminator trimUnits replace)

/-! ## Parts of the patterns -/

/-- `.*?` up to `stop`: the units before the first `stop` of the line. -/
def lazyLine (stop : Units) : Units → Option Units
  | [] => if stop = [] then some [] else none
  | u :: us =>
    if stop.isPrefixOf (u :: us) then some []
    else if isLineTerminator u then none
    else (lazyLine stop us).map (u :: ·)

/-- `[\s\S]*?` up to `stop`. -/
def lazyAny (stop : Units) : Units → Option Units
  | [] => if stop = [] then some [] else none
  | u :: us => if stop.isPrefixOf (u :: us) then some [] else (lazyAny stop us).map (u :: ·)

/-- `(.*?)\]\(.*?\)`, with its group and its length. When the text after the first
`](` of the line has no `)` on the line, that after a later one has none. -/
def linkBody (us : Units) : Option (Units × ℕ) :=
  match lazyLine (utf16 "](") us with
  | none => none
  | some label =>
    match lazyLine [unit ')'] (us.drop (label.length + 2)) with
    | none => none
    | some url => some (label, label.length + 2 + url.length + 1)

/-! ## The patterns -/

/-- `/!\[.*?\]\(.*?\)/g` → `''`. -/
def matchImage : Option UInt16 → Units → Option (Units × ℕ)
  | _, u :: v :: us =>
    if u = unit '!' ∧ v = unit '[' then (linkBody us).map fun b => ([], b.2 + 2) else none
  | _, _ => none

/-- `/\[(.*?)\]\(.*?\)/g` → `'$1'`. -/
def matchLink : Option UInt16 → Units → Option (Units × ℕ)
  | _, u :: us => if u = unit '[' then (linkBody us).map fun b => (b.1, b.2 + 1) else none
  | _, _ => none

/-- Three backticks, any text, three backticks → `'[코드 블록 생략]'`. -/
def matchCodeBlock (_ : Option UInt16) (us : Units) : Option (Units × ℕ) :=
  let fence := List.replicate 3 (UInt16.ofNat 0x60)
  if fence.isPrefixOf us then
    (lazyAny fence (us.drop 3)).map fun code => (utf16 "[코드 블록 생략]", code.length + 6)
  else none

/-- `/<[^>]*>?/gm` → `''`. -/
def matchTag : Option UInt16 → Units → Option (Units × ℕ)
  | _, u :: us =>
    if u = unit '<' then
      let inner := us.takeWhile (· ≠ unit '>')
      some ([], 1 + inner.length + (if inner.length < us.length then 1 else 0))
    else none
  | _, _ => none

/-- The length of an optional unit. -/
def optional (u : UInt16) (us : Units) : ℕ := if us.head? = some u then 1 else 0

/-- `/\|?\s*:-+:?\s*\|?/g` → `''`. The parts have no unit in common with the next
one, so that each takes all it can. -/
def matchTableRule (_ : Option UInt16) (us : Units) : Option (Units × ℕ) :=
  let bar := optional (unit '|') us
  let rest := us.drop bar
  let spaces := (rest.takeWhile isWhitespaceUnit).length
  match rest.drop spaces with
  | u :: rest =>
    if u = unit ':' then
      let dashes := (rest.takeWhile (· = unit '-')).length
      if dashes = 0 then none
      else
        let rest := rest.drop dashes
        let colon := optional (unit ':') rest
        let rest := rest.drop colon
        let spaces' := (rest.takeWhile isWhitespaceUnit).length
        let bar' := optional (unit '|') (rest.drop spaces')
        some ([], bar + spaces + 1 + dashes + colon + spaces' + bar')
    else none
  | [] => none

/-- `/^-{3,}$/gm` → `''`. -/
def matchRule (before : Option UInt16) (us : Units) : Option (Units × ℕ) :=
  let dashes := (us.takeWhile (· = unit '-')).length
  if before.all isLineTerminator && 3 ≤ dashes && (us.drop dashes).head?.all isLineTerminator then
    some ([], dashes)
  else none

/-- The code points that the service drops as emoji. -/
def isEmoji (n : ℕ) : Bool :=
  (0x1F600 ≤ n && n ≤ 0x1F64F) || (0x1F300 ≤ n && n ≤ 0x1F5FF) || (0x1F680 ≤ n && n ≤ 0x1F6FF) ||
    (0x2600 ≤ n && n ≤ 0x26FF) || (0x2700 ≤ n && n ≤ 0x27BF)

/-- The emoji class, with the flags `gu`: a surrogate pair is one character. -/
def matchEmoji : Option UInt16 → Units → Option (Units × ℕ)
  | _, [] => none
  | _, u :: us =>
    let high := u.toNat
    match us with
    | v :: _ =>
      let low := v.toNat
      if 0xD800 ≤ high ∧ high < 0xDC00 ∧ 0xDC00 ≤ low ∧ low < 0xE000 then
        if isEmoji (0x10000 + (high - 0xD800) * 0x400 + (low - 0xDC00)) then some ([], 2) else none
      else if isEmoji high then some ([], 1) else none
    | [] => if isEmoji high then some ([], 1) else none

/-- `/\n\s*\n+/g` → `'\n'`: from a line feed to the last one of the blank text
after it. -/
def matchBlankLines : Option UInt16 → Units → Option (Units × ℕ)
  | _, u :: us =>
    if u = unit '\n' then
      let blank := us.takeWhile isWhitespaceUnit
      let upToLast := (blank.reverse.dropWhile (· ≠ unit '\n')).length
      if upToLast = 0 then none else some ([unit '\n'], 1 + upToLast)
    else none
  | _, _ => none

/-! ## `sanitizeAndFilter` -/

def sanitizeAndFilter (markdown : Units) (limit : ℕ) : Units :=
  if markdown = [] then []
  else
    let cleaned := trimUnits <|
      replace matchBlankLines <|
      replace matchEmoji <|
      replace matchRule <|
      replace matchTableRule <|
      replace matchTag <|
      replace matchCodeBlock <|
      replace matchLink <|
      replace matchImage markdown
    if limit < cleaned.length then cleaned.take limit ++ utf16 "..." else cleaned

-- An image goes, a link leaves its label, and a tag goes with its text.
example : sanitizeAndFilter (utf16 "![a](b) see [docs](u) <b>x") 800 = utf16 "see docs x" := by
  decide +kernel

end TextUtil

end TechTrends
