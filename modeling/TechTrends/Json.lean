/-
JSON values, `JSON.stringify` without indentation, and `JSON.parse`.

A number is one of binary64. Its text is the shortest decimal that is rounded to it, in the
notation of ECMAScript, and the literal that `JSON.parse` reads is rounded: `1e-400` is `0`,
and `1e400` is `Infinity`, which no text of a value stands for.

Objects are association lists in property order. `JSON.parse` keeps the place of
the first occurrence of a key and the value of the last one.
-/
import TechTrends.ShortestDecimal

set_option autoImplicit false

/-! ## Values and their text -/

/-- A JSON value. -/
inductive Json
  | null
  | bool (b : Bool)
  | num (x : Binary64)
  | infinity (neg : Bool)
  | str (s : String)
  | arr (vs : List Json)
  | obj (members : List (String × Json))

namespace Json

/-- The lower-case hexadecimal digit of a number below 16. -/
def hexDigit (n : ℕ) : Char :=
  if n < 10 then Char.ofNat (48 + n) else Char.ofNat (87 + n)

/-- The value of a hexadecimal digit of either case. -/
def hexValue (c : Char) : Option ℕ :=
  if '0' ≤ c ∧ c ≤ '9' then some (c.toNat - 48)
  else if 'a' ≤ c ∧ c ≤ 'f' then some (c.toNat - 87)
  else if 'A' ≤ c ∧ c ≤ 'F' then some (c.toNat - 55)
  else none

/-- A character inside a string literal: the two-character escapes, `\u00xx`
for the other control characters, and everything else as it is. -/
def escapeChar (c : Char) : List Char :=
  if c = '"' then ['\\', '"']
  else if c = '\\' then ['\\', '\\']
  else if c = Char.ofNat 8 then ['\\', 'b']
  else if c = Char.ofNat 9 then ['\\', 't']
  else if c = Char.ofNat 10 then ['\\', 'n']
  else if c = Char.ofNat 12 then ['\\', 'f']
  else if c = Char.ofNat 13 then ['\\', 'r']
  else if c.toNat < 32 then
    ['\\', 'u', '0', '0', hexDigit (c.toNat / 16), hexDigit (c.toNat % 16)]
  else [c]

/-- A string literal with its quotes. -/
def quote (cs : List Char) : List Char :=
  '"' :: (cs.flatMap escapeChar ++ ['"'])

mutual

/-- The text of a value. -/
def render : Json → List Char
  | null => ['n', 'u', 'l', 'l']
  | bool true => ['t', 'r', 'u', 'e']
  | bool false => ['f', 'a', 'l', 's', 'e']
  | num x => x.toChars
  | infinity _ => ['n', 'u', 'l', 'l']
  | str s => quote s.toList
  | arr [] => ['[', ']']
  | arr (v :: vs) => '[' :: (render v ++ renderElements vs)
  | obj [] => ['{', '}']
  | obj ((k, v) :: ms) => '{' :: (quote k.toList ++ ':' :: (render v ++ renderMembers ms))

/-- The elements after the first one, and the closing bracket. -/
def renderElements : List Json → List Char
  | [] => [']']
  | v :: vs => ',' :: (render v ++ renderElements vs)

/-- The members after the first one, and the closing brace. -/
def renderMembers : List (String × Json) → List Char
  | [] => ['}']
  | (k, v) :: ms => ',' :: (quote k.toList ++ ':' :: (render v ++ renderMembers ms))

end

/-- `JSON.stringify`. -/
def stringify (v : Json) : String := String.ofList (render v)

/-! ## `JSON.parse` -/

/-- JSON's white space. -/
def isWs (c : Char) : Bool :=
  c == ' ' || c == Char.ofNat 9 || c == Char.ofNat 10 || c == Char.ofNat 13

def skipWs (cs : List Char) : List Char := cs.dropWhile isWs

/-- The integer part of a number: `0`, or digits that do not start with `0`. -/
def parseIntPart : List Char → Option (List Char × List Char)
  | '0' :: r => some (['0'], r)
  | cs =>
    if cs.takeWhile Char.isDigit = [] then none
    else some (cs.takeWhile Char.isDigit, cs.dropWhile Char.isDigit)

/-- The digits after the decimal point, when there is one. -/
def parseFracPart : List Char → Option (List Char × List Char)
  | '.' :: r =>
    if r.takeWhile Char.isDigit = [] then none
    else some (r.takeWhile Char.isDigit, r.dropWhile Char.isDigit)
  | r => some ([], r)

/-- The unsigned digits of an exponent. -/
def parseExpDigits (neg : Bool) (r : List Char) : Option (ℤ × List Char) :=
  if r.takeWhile Char.isDigit = [] then none
  else
    let n := Nat.ofDigitChars 10 (r.takeWhile Char.isDigit) 0
    some (if neg then -(n : ℤ) else n, r.dropWhile Char.isDigit)

/-- The sign and digits of an exponent. -/
def parseExpSign : List Char → Option (ℤ × List Char)
  | '-' :: r => parseExpDigits true r
  | '+' :: r => parseExpDigits false r
  | r => parseExpDigits false r

/-- The exponent of a number, `0` when there is none. -/
def parseExpPart : List Char → Option (ℤ × List Char)
  | 'e' :: r => parseExpSign r
  | 'E' :: r => parseExpSign r
  | r => some (0, r)

/-- A number literal without its sign. -/
def parseUnsigned (neg : Bool) (cs : List Char) : Option (Decimal × List Char) := do
  let (ip, r) ← parseIntPart cs
  let (fp, r) ← parseFracPart r
  let (e, r) ← parseExpPart r
  some (Decimal.ofParts neg (Nat.ofDigitChars 10 (ip ++ fp) 0) (e - fp.length), r)

/-- A number literal. -/
def parseNumber : List Char → Option (Decimal × List Char)
  | '-' :: r => parseUnsigned true r
  | cs => parseUnsigned false cs

/-- What a number literal is rounded to. -/
def ofDecimal (d : Decimal) : Json :=
  match Binary64.ofRat d.value with
  | some x => num x
  | none => infinity (d.mantissa < 0)

/-- The character a two-character escape stands for. -/
def simpleEscape (c : Char) : Option ℕ :=
  if c = '"' then some 34
  else if c = '\\' then some 92
  else if c = '/' then some 47
  else if c = 'b' then some 8
  else if c = 'f' then some 12
  else if c = 'n' then some 10
  else if c = 'r' then some 13
  else if c = 't' then some 9
  else none

/-- Four hexadecimal digits. -/
def hexUnit (a b c d : Char) : Option ℕ := do
  let a ← hexValue a
  let b ← hexValue b
  let c ← hexValue c
  let d ← hexValue d
  some (((a * 16 + b) * 16 + c) * 16 + d)

/-- The code units of a string literal after its opening quote, and what
follows the closing one. -/
def parseUnits : List Char → Option (List ℕ × List Char)
  | [] => none
  | '"' :: r => some ([], r)
  | '\\' :: 'u' :: a :: b :: c :: d :: r => do
    let u ← hexUnit a b c d
    let (us, r) ← parseUnits r
    some (u :: us, r)
  | '\\' :: c :: r => do
    let u ← simpleEscape c
    let (us, r) ← parseUnits r
    some (u :: us, r)
  | c :: r =>
    if c = '\\' ∨ c.toNat < 32 then none
    else do
      let (us, r) ← parseUnits r
      some (c.toNat :: us, r)

/-- Surrogate pairs joined to one character. A lone surrogate, which is not a
character, becomes U+FFFD. -/
def joinUnits : List ℕ → List Char
  | [] => []
  | [u] => [if 0xD800 ≤ u ∧ u < 0xE000 then Char.ofNat 0xFFFD else Char.ofNat u]
  | u :: w :: us =>
    if 0xD800 ≤ u ∧ u < 0xDC00 ∧ 0xDC00 ≤ w ∧ w < 0xE000 then
      Char.ofNat (0x10000 + (u - 0xD800) * 0x400 + (w - 0xDC00)) :: joinUnits us
    else if 0xD800 ≤ u ∧ u < 0xE000 then Char.ofNat 0xFFFD :: joinUnits (w :: us)
    else Char.ofNat u :: joinUnits (w :: us)

/-- A string literal after its opening quote. -/
def parseString (cs : List Char) : Option (String × List Char) := do
  let (us, r) ← parseUnits cs
  some (String.ofList (joinUnits us), r)

/-- An object with the property `k` set to `v`. -/
def setMember (k : String) (v : Json) : List (String × Json) → List (String × Json)
  | [] => [(k, v)]
  | (k', v') :: ms => if k' = k then (k, v) :: ms else (k', v') :: setMember k v ms

mutual

/-- A value at the start of the text, and the rest of the text. -/
def parseValue : ℕ → List Char → Option (Json × List Char)
  | 0, _ => none
  | fuel + 1, cs =>
    match skipWs cs with
    | 'n' :: 'u' :: 'l' :: 'l' :: r => some (null, r)
    | 't' :: 'r' :: 'u' :: 'e' :: r => some (bool true, r)
    | 'f' :: 'a' :: 'l' :: 's' :: 'e' :: r => some (bool false, r)
    | '"' :: r => (parseString r).map fun p => (str p.1, p.2)
    | '[' :: r =>
      match skipWs r with
      | ']' :: r => some (arr [], r)
      | r => (parseElements fuel r).map fun p => (arr p.1, p.2)
    | '{' :: r =>
      match skipWs r with
      | '}' :: r => some (obj [], r)
      | r => (parseMembers fuel r).map fun p =>
          (obj (p.1.foldl (fun ms kv => setMember kv.1 kv.2 ms) []), p.2)
    | r => (parseNumber r).map fun p => (ofDecimal p.1, p.2)

/-- The elements of a nonempty array, up to its closing bracket. -/
def parseElements : ℕ → List Char → Option (List Json × List Char)
  | 0, _ => none
  | fuel + 1, cs => do
    let (v, r) ← parseValue fuel cs
    match skipWs r with
    | ']' :: r => some ([v], r)
    | ',' :: r => (parseElements fuel r).map fun p => (v :: p.1, p.2)
    | _ => none

/-- The members of a nonempty object, up to its closing brace. -/
def parseMembers : ℕ → List Char → Option (List (String × Json) × List Char)
  | 0, _ => none
  | fuel + 1, cs =>
    match skipWs cs with
    | '"' :: r => do
      let (k, r) ← parseString r
      match skipWs r with
      | ':' :: r => do
        let (v, r) ← parseValue fuel r
        match skipWs r with
        | '}' :: r => some ([(k, v)], r)
        | ',' :: r => (parseMembers fuel r).map fun p => ((k, v) :: p.1, p.2)
        | _ => none
      | _ => none
    | _ => none

end

/-- `JSON.parse`: `none` is the `SyntaxError`. -/
def parse (s : String) : Option Json :=
  match parseValue (s.toList.length + 1) s.toList with
  | some (v, r) => if skipWs r = [] then some v else none
  | none => none

/-! ## Reading a parsed value as JavaScript does -/

/-- `ToBoolean`. -/
def truthy : Json → Bool
  | null => false
  | bool b => b
  | num x => x.value ≠ 0
  | infinity _ => true
  | str s => s != ""
  | arr _ => true
  | obj _ => true

mutual

/-- `String(value)`. -/
def toText : Json → String
  | null => "null"
  | bool b => if b then "true" else "false"
  | num x => String.ofList x.toChars
  | infinity neg => if neg then "-Infinity" else "Infinity"
  | str s => s
  | arr vs => ",".intercalate (elementTexts vs)
  | obj _ => "[object Object]"

/-- The texts of the elements that `join` puts together, the empty one for `null`. -/
def elementTexts : List Json → List String
  | [] => []
  | v :: vs => (match v with | null => "" | _ => toText v) :: elementTexts vs

end

/-- The property `k` of a value, `null` where JavaScript gives `undefined`. -/
def field (k : String) : Json → Json
  | obj ms => ((ms.find? fun kv => kv.1 == k).map Prod.snd).getD null
  | _ => null

end Json
