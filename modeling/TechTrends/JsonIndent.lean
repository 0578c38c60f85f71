/-
`JSON.stringify` with an indentation of two, for values that are made of strings, and a text
of it inside another one.

The literals of strings are written from code units, so that halves of surrogate pairs are
among them. `JSON.parse` reads an indented text as what it was made of, and the text holds no
blank line: whoever knows where it starts knows where it ends.
-/
import TechTrends.JsString
import TechTrends.JsonRoundTrip

set_option autoImplicit false

namespace Json

open JsString (Units isHighSurrogate isLowSurrogate loneChar pairChar toWellFormed)

/-! ## String literals -/

/-- What stands between the quotes of a string literal, and what it reads as. -/
structure Literal where
  text : List Char
  value : String
  oneLine : '\n' ∉ text
  reads : ∀ r, parseString (text ++ '"' :: r) = some (value, r)

theorem hexDigit_ne_newline : ∀ n < 16, hexDigit n ≠ '\n' := by decide

/-- A line break in a text is written as `\n`, so no literal has one in it. -/
theorem newline_notMem_escapeChar (c : Char) : '\n' ∉ escapeChar c := by
  unfold escapeChar
  split_ifs with h₁ h₂ h₃ h₄ h₅ h₆ h₇ h₈
  · decide
  · decide
  · decide
  · decide
  · decide
  · decide
  · decide
  · have hhigh := hexDigit_ne_newline (c.toNat / 16) (by omega)
    have hlow := hexDigit_ne_newline (c.toNat % 16) (by omega)
    simp [hhigh.symm, hlow.symm]
  · rw [List.mem_singleton]
    rintro rfl
    exact h₅ rfl

/-- The literal of a string. -/
def Literal.ofString (s : String) : Literal where
  text := s.toList.flatMap escapeChar
  value := s
  oneLine := by
    rw [List.mem_flatMap]
    rintro ⟨c, -, hc⟩
    exact newline_notMem_escapeChar c hc
  reads := parseString_quote s

/-- A code unit that is not written as part of a pair: a surrogate is escaped. -/
def escapeUnit (u : UInt16) : List Char :=
  if isHighSurrogate u || isLowSurrogate u then
    ['\\', 'u', hexDigit (u.toNat / 4096), hexDigit (u.toNat / 256 % 16), hexDigit (u.toNat / 16 % 16),
      hexDigit (u.toNat % 16)]
  else escapeChar (Char.ofNat u.toNat)

/-- The text of code units between quotes. -/
def escapeUnits : Units → List Char
  | [] => []
  | [u] => escapeUnit u
  | u :: v :: us =>
    if isHighSurrogate u && isLowSurrogate v then pairChar u v :: escapeUnits us
    else escapeUnit u ++ escapeUnits (v :: us)

/-- The numbers that a reader finds in that text. -/
def readUnits : Units → List ℕ
  | [] => []
  | [u] => [u.toNat]
  | u :: v :: us =>
    if isHighSurrogate u && isLowSurrogate v then (pairChar u v).toNat :: readUnits us
    else u.toNat :: readUnits (v :: us)

/-- One escaped unit is read as that unit, also where it is a half of a surrogate pair, which
is written by its number. -/
theorem parseUnits_escapeUnit (u : UInt16) (r : List Char) :
    parseUnits (escapeUnit u ++ r) = (parseUnits r).map fun p => (u.toNat :: p.1, p.2) := by
  have hlt := u.toNat_lt
  unfold escapeUnit
  split_ifs with h
  · have hhex : hexUnit (hexDigit (u.toNat / 4096)) (hexDigit (u.toNat / 256 % 16))
        (hexDigit (u.toNat / 16 % 16)) (hexDigit (u.toNat % 16)) = some u.toNat := by
      simp only [hexUnit, hexValue_hexDigit _ (show u.toNat / 4096 < 16 by omega),
        hexValue_hexDigit _ (show u.toNat / 256 % 16 < 16 by omega),
        hexValue_hexDigit _ (show u.toNat / 16 % 16 < 16 by omega),
        hexValue_hexDigit _ (show u.toNat % 16 < 16 by omega), Option.bind_eq_bind, Option.bind_some]
      congr 1
      omega
    simp only [List.cons_append, List.nil_append, parseUnits, hhex]
    cases parseUnits r <;> rfl
  · have hchar : (Char.ofNat u.toNat).toNat = u.toNat := by
      refine JsString.toNat_ofNat_of_lt ?_
      simp only [isHighSurrogate, isLowSurrogate, Bool.or_eq_true, Bool.and_eq_true, decide_eq_true_eq] at h
      omega
    rw [parseUnits_escapeChar, hchar]

/-- The units of a text, up to the quote behind them. A pair is written as a character and
read as one, which is why what is read is not the list of units itself. -/
theorem parseUnits_escapeUnits (us : Units) (r : List Char) :
    parseUnits (escapeUnits us ++ '"' :: r) = some (readUnits us, r) := by
  fun_induction escapeUnits us with
  | case1 => rfl
  | case2 u =>
    rw [parseUnits_escapeUnit]
    rfl
  | case3 u v us hpair ih =>
    have hnat := JsString.pairChar_toNat (Bool.and_eq_true_iff.1 hpair).1 (Bool.and_eq_true_iff.1 hpair).2
    have hne : ∀ c : Char, c.toNat < 0x10000 → pairChar u v ≠ c := by
      rintro c hc rfl
      omega
    rw [List.cons_append, parseUnits_plain _ (hne _ (by decide)) (hne _ (by decide)) (by omega), ih, readUnits,
      if_pos hpair]
    rfl
  | case4 u v us hpair ih =>
    rw [List.append_assoc, parseUnits_escapeUnit, ih, readUnits, if_neg hpair]
    rfl

/-- A unit that is not half of a pair is joined with nothing. -/
theorem joinUnits_lone {u : UInt16} {n : ℕ} (h : ¬ (isHighSurrogate u = true ∧ 0xDC00 ≤ n ∧ n < 0xE000))
    (ns : List ℕ) : joinUnits (u.toNat :: n :: ns) = loneChar u :: joinUnits (n :: ns) := by
  have hhigh : isHighSurrogate u = true ↔ 0xD800 ≤ u.toNat ∧ u.toNat < 0xDC00 := by
    simp only [isHighSurrogate, Bool.and_eq_true, decide_eq_true_eq]
    omega
  rw [hhigh] at h
  rw [joinUnits, if_neg (by omega), loneChar]
  simp only [isHighSurrogate, isLowSurrogate, Bool.or_eq_true, Bool.and_eq_true, decide_eq_true_eq]
  split_ifs with h₁ h₂ h₃
  · rfl
  · omega
  · omega
  · rfl

/-- What is read is the text, with lone halves of surrogate pairs as U+FFFD. -/
theorem joinUnits_readUnits (us : Units) : joinUnits (readUnits us) = toWellFormed us := by
  fun_induction readUnits us with
  | case1 => rfl
  | case2 u =>
    rw [joinUnits, toWellFormed, loneChar]
    simp only [isHighSurrogate, isLowSurrogate, Bool.or_eq_true, Bool.and_eq_true, decide_eq_true_eq]
    split_ifs with h₁ h₂ h₃
    · rfl
    · omega
    · omega
    · rfl
  | case3 u v us hpair ih =>
    have hjoined := joinUnits_toNat [pairChar u v]
    have hvalid := toNat_not_surrogate (pairChar u v)
    rw [toWellFormed, if_pos hpair]
    cases hrest : readUnits us with
    | nil =>
      rw [hrest] at ih
      rw [← ih]
      exact hjoined
    | cons n ns =>
      rw [hrest] at ih
      rw [joinUnits, if_neg (by omega), if_neg hvalid, ih, Char.ofNat_toNat]
  | case4 u v us hpair ih =>
    rw [toWellFormed, if_neg hpair, ← ih]
    -- the next number is that of `v` or of a pair
    obtain ⟨n, ns, hn, hlow⟩ : ∃ n ns, readUnits (v :: us) = n :: ns ∧
        (0xDC00 ≤ n ∧ n < 0xE000 → isLowSurrogate v = true) := by
      have hown : 0xDC00 ≤ v.toNat ∧ v.toNat < 0xE000 → isLowSurrogate v = true := by
        intro h
        simp only [isLowSurrogate, Bool.and_eq_true, decide_eq_true_eq]
        omega
      cases us with
      | nil => exact ⟨_, _, rfl, hown⟩
      | cons w us =>
        rw [readUnits]
        split_ifs with hvw
        · have hnat := JsString.pairChar_toNat (Bool.and_eq_true_iff.1 hvw).1 (Bool.and_eq_true_iff.1 hvw).2
          exact ⟨_, _, rfl, fun h => by omega⟩
        · exact ⟨_, _, rfl, hown⟩
    rw [hn]
    refine joinUnits_lone (fun h => hpair ?_) ns
    rw [h.1, hlow h.2]
    rfl

theorem newline_notMem_escapeUnit (u : UInt16) : '\n' ∉ escapeUnit u := by
  have hlt := u.toNat_lt
  unfold escapeUnit
  split_ifs with h
  · have h₁ := hexDigit_ne_newline (u.toNat / 4096) (by omega)
    have h₂ := hexDigit_ne_newline (u.toNat / 256 % 16) (by omega)
    have h₃ := hexDigit_ne_newline (u.toNat / 16 % 16) (by omega)
    have h₄ := hexDigit_ne_newline (u.toNat % 16) (by omega)
    simp [h₁.symm, h₂.symm, h₃.symm, h₄.symm]
  · exact newline_notMem_escapeChar _

/-- No escaped text holds a line break. -/
theorem newline_notMem_escapeUnits (us : Units) : '\n' ∉ escapeUnits us := by
  fun_induction escapeUnits us with
  | case1 => exact List.not_mem_nil
  | case2 u => exact newline_notMem_escapeUnit u
  | case3 u v us hpair ih =>
    have hnat := JsString.pairChar_toNat (Bool.and_eq_true_iff.1 hpair).1 (Bool.and_eq_true_iff.1 hpair).2
    rw [List.mem_cons, not_or]
    refine ⟨?_, ih⟩
    intro h
    rw [← h] at hnat
    have hten : '\n'.toNat = 10 := rfl
    omega
  | case4 u v us hpair ih =>
    rw [List.mem_append, not_or]
    exact ⟨newline_notMem_escapeUnit u, ih⟩

/-- The literal of code units. What is read back has U+FFFD for half a pair. -/
def Literal.ofUnits (us : Units) : Literal where
  text := escapeUnits us
  value := String.ofList (toWellFormed us)
  oneLine := newline_notMem_escapeUnits us
  reads r := by
    rw [parseString, parseUnits_escapeUnits]
    simp [joinUnits_readUnits]

/-! ## Indented text -/

/-- A value made of strings, with the literals that it is written with. -/
inductive Doc
  | str (literal : Literal)
  | arr (docs : List Doc)
  | obj (members : List (String × Doc))

namespace Doc

mutual

/-- The value that is written. -/
def value : Doc → Json
  | str literal => Json.str literal.value
  | arr docs => Json.arr (values docs)
  | obj members => Json.obj (memberValues members)

def values : List Doc → List Json
  | [] => []
  | doc :: docs => value doc :: values docs

def memberValues : List (String × Doc) → List (String × Json)
  | [] => []
  | (k, doc) :: members => (k, value doc) :: memberValues members

end

/-- A new line at a depth. -/
def indent (depth : ℕ) : List Char := '\n' :: List.replicate (2 * depth) ' '

mutual

/-- `JSON.stringify(value, null, 2)`, at a depth. -/
def indented (depth : ℕ) : Doc → List Char
  | str literal => '"' :: (literal.text ++ ['"'])
  | arr [] => ['[', ']']
  | arr (doc :: docs) =>
    '[' :: (indent (depth + 1) ++ (indented (depth + 1) doc ++ indentedElements depth docs))
  | obj [] => ['{', '}']
  | obj ((k, doc) :: members) =>
    '{' :: (indent (depth + 1) ++ (quote k.toList ++ ':' :: ' ' :: (indented (depth + 1) doc ++
      indentedMembers depth members)))

/-- The elements after the first one, and the closing bracket. -/
def indentedElements (depth : ℕ) : List Doc → List Char
  | [] => indent depth ++ [']']
  | doc :: docs => ',' :: (indent (depth + 1) ++ (indented (depth + 1) doc ++ indentedElements depth docs))

/-- The members after the first one, and the closing brace. -/
def indentedMembers (depth : ℕ) : List (String × Doc) → List Char
  | [] => indent depth ++ ['}']
  | (k, doc) :: members =>
    ',' :: (indent (depth + 1) ++ (quote k.toList ++ ':' :: ' ' :: (indented (depth + 1) doc ++
      indentedMembers depth members)))

end

/-- An indentation is a line break and spaces. -/
theorem skipWs_indent (depth : ℕ) (cs : List Char) : skipWs (indent depth ++ cs) = skipWs cs := by
  have hspaces : ∀ n, skipWs (List.replicate n ' ' ++ cs) = skipWs cs := by
    intro n
    induction n with
    | zero => rfl
    | succ n ih =>
      rw [← ih]
      rfl
  rw [← hspaces (2 * depth)]
  rfl

/-- The parser does not see white space before a value. With this the indented text needs no
parser of its own. -/
theorem parseValue_skipWs {cs cs' : List Char} (h : skipWs cs = skipWs cs') (fuel : ℕ) :
    parseValue fuel cs = parseValue fuel cs' := by
  cases fuel with
  | zero => rfl
  | succ fuel => rw [parseValue, parseValue, h]

theorem parseValue_space (fuel : ℕ) (cs : List Char) : parseValue fuel (' ' :: cs) = parseValue fuel cs :=
  parseValue_skipWs (show skipWs (' ' :: cs) = skipWs cs from rfl) fuel

theorem parseElements_indent (depth fuel : ℕ) (cs : List Char) :
    parseElements fuel (indent depth ++ cs) = parseElements fuel cs := by
  cases fuel with
  | zero => rfl
  | succ fuel => rw [parseElements, parseElements, parseValue_skipWs (skipWs_indent depth cs)]

theorem parseMembers_indent (depth fuel : ℕ) (cs : List Char) :
    parseMembers fuel (indent depth ++ cs) = parseMembers fuel cs := by
  cases fuel with
  | zero => rfl
  | succ fuel => rw [parseMembers, parseMembers, skipWs_indent]

theorem indented_head (depth : ℕ) (doc : Doc) :
    ∃ c cs, indented depth doc = c :: cs ∧ isWs c = false ∧ c ≠ ']' := by
  cases doc with
  | str literal => exact ⟨'"', _, rfl, by decide, by decide⟩
  | arr docs => cases docs <;> exact ⟨'[', _, rfl, by decide, by decide⟩
  | obj members => rcases members with _ | ⟨⟨k, doc⟩, members⟩ <;> exact ⟨'{', _, rfl, by decide, by decide⟩

theorem skipWs_indented (depth : ℕ) (doc : Doc) (r : List Char) :
    skipWs (indented depth doc ++ r) = indented depth doc ++ r := by
  obtain ⟨c, cs, hc, hws, -⟩ := indented_head depth doc
  rw [hc, List.cons_append, skipWs_cons _ hws]

mutual

/-- **Values.** With enough fuel, the indented text of a value reads as the value. -/
theorem parseValue_indented : ∀ (depth : ℕ) (doc : Doc) (fuel : ℕ) (r : List Char),
    WellFormed (value doc) → cost (value doc) ≤ fuel →
    parseValue fuel (indented depth doc ++ r) = some (value doc, r)
  | depth, str literal, fuel + 1, r, _, _ => by
    have h := literal.reads r
    rw [indented, List.cons_append, List.append_assoc, List.singleton_append, parseValue, skipWs_cons _ (by decide)]
    simp only [h, Option.map_some]
    rfl
  | depth, arr [], fuel + 1, r, _, _ => rfl
  | depth, arr (doc :: docs), fuel + 1, r, hw, hf => by
    rw [value, values, cost, costElements] at hf
    rw [value, values, WellFormed] at hw
    have h := parseElements_indented depth doc docs fuel r (by rw [values]; exact hw)
      (by rw [values, costElements]; omega)
    obtain ⟨c, cs, hc, hws, hclose⟩ := indented_head (depth + 1) doc
    rw [indented, List.cons_append, List.append_assoc, List.append_assoc, parseValue, skipWs_cons _ (by decide)]
    simp only [skipWs_indent, skipWs_indented]
    rw [hc, List.cons_append] at h ⊢
    split
    · rename_i heq
      rw [List.cons.injEq] at heq
      exact absurd heq.1 hclose
    · rw [h]
      rfl
  | depth, obj [], fuel + 1, r, _, _ => rfl
  | depth, obj ((k, doc) :: members), fuel + 1, r, hw, hf => by
    rw [value, memberValues, cost, costMembers] at hf
    rw [value, memberValues, WellFormed] at hw
    have h := parseMembers_indented depth k doc members fuel r (by rw [memberValues]; exact hw.2)
      (by rw [memberValues, costMembers]; omega)
    have htext : indented depth (obj ((k, doc) :: members)) ++ r = '{' :: (indent (depth + 1) ++
        '"' :: (k.toList.flatMap escapeChar ++ '"' :: ':' :: ' ' :: (indented (depth + 1) doc ++
          (indentedMembers depth members ++ r)))) := by
      simp only [indented, quote, List.cons_append, List.append_assoc, List.nil_append]
    rw [htext, parseValue, skipWs_cons _ (by decide)]
    simp only [skipWs_indent, skipWs_cons _ (show isWs '"' = false by decide)]
    show (parseMembers fuel _).map _ = _
    rw [h, Option.map_some, memberValues, foldl_setMember _ [] (by simpa using hw.1)]
    rfl
  | _, str _, 0, _, _, hf => by
    rw [value, cost] at hf
    · omega
    all_goals simp
  | _, arr _, 0, _, _, hf => by
    rw [value, cost] at hf
    omega
  | _, obj _, 0, _, _, hf => by
    rw [value, cost] at hf
    omega

theorem parseElements_indented : ∀ (depth : ℕ) (doc : Doc) (docs : List Doc) (fuel : ℕ) (r : List Char),
    WellFormedElements (values (doc :: docs)) → costElements (values (doc :: docs)) ≤ fuel →
    parseElements fuel (indented (depth + 1) doc ++ (indentedElements depth docs ++ r)) =
      some (values (doc :: docs), r)
  | _, _, _, 0, _, _, hf => by
    rw [values, costElements] at hf
    omega
  | depth, doc, [], fuel + 1, r, hw, hf => by
    rw [values, costElements] at hf
    rw [values, WellFormedElements] at hw
    rw [parseElements, parseValue_indented (depth + 1) doc fuel _ hw.1 (by omega), indentedElements,
      List.append_assoc]
    simp only [Option.bind_eq_bind, Option.bind_some, skipWs_indent, List.singleton_append,
      skipWs_cons _ (show isWs ']' = false by decide)]
    rfl
  | depth, doc, doc' :: docs, fuel + 1, r, hw, hf => by
    rw [values, costElements] at hf
    rw [values, WellFormedElements] at hw
    have h := parseElements_indented depth doc' docs fuel r hw.2 (by omega)
    rw [parseElements, parseValue_indented (depth + 1) doc fuel _ hw.1 (by omega), indentedElements,
      List.cons_append, List.append_assoc, List.append_assoc]
    simp only [Option.bind_eq_bind, Option.bind_some, skipWs_cons _ (show isWs ',' = false by decide),
      parseElements_indent, h, Option.map_some]
    rfl

/-- The members of an object, with a space behind the colon. -/
theorem parseMembers_indented : ∀ (depth : ℕ) (k : String) (doc : Doc) (members : List (String × Doc))
    (fuel : ℕ) (r : List Char), WellFormedMembers (memberValues ((k, doc) :: members)) →
    costMembers (memberValues ((k, doc) :: members)) ≤ fuel →
    parseMembers fuel ('"' :: (k.toList.flatMap escapeChar ++ '"' :: ':' :: ' ' :: (indented (depth + 1) doc ++
      (indentedMembers depth members ++ r)))) = some (memberValues ((k, doc) :: members), r)
  | _, _, _, _, 0, _, _, hf => by
    rw [memberValues, costMembers] at hf
    omega
  | depth, k, doc, [], fuel + 1, r, hw, hf => by
    rw [memberValues, costMembers] at hf
    rw [memberValues, WellFormedMembers] at hw
    have hv := parseValue_indented (depth + 1) doc fuel (indentedMembers depth [] ++ r) hw.1 (by omega)
    rw [parseMembers, skipWs_cons _ (by decide)]
    simp only [parseString_quote, Option.bind_eq_bind, Option.bind_some,
      skipWs_cons _ (show isWs ':' = false by decide), parseValue_space, hv]
    rw [indentedMembers, List.append_assoc]
    simp only [skipWs_indent, List.singleton_append, skipWs_cons _ (show isWs '}' = false by decide)]
    rfl
  | depth, k, doc, (k', doc') :: members, fuel + 1, r, hw, hf => by
    rw [memberValues, costMembers] at hf
    rw [memberValues, WellFormedMembers] at hw
    have hv := parseValue_indented (depth + 1) doc fuel (indentedMembers depth ((k', doc') :: members) ++ r) hw.1
      (by omega)
    have h := parseMembers_indented depth k' doc' members fuel r hw.2 (by omega)
    have htext : indentedMembers depth ((k', doc') :: members) ++ r = ',' :: (indent (depth + 1) ++
        '"' :: (k'.toList.flatMap escapeChar ++ '"' :: ':' :: ' ' :: (indented (depth + 1) doc' ++
          (indentedMembers depth members ++ r)))) := by
      simp only [indentedMembers, quote, List.cons_append, List.append_assoc, List.nil_append]
    rw [parseMembers, skipWs_cons _ (by decide)]
    simp only [parseString_quote, Option.bind_eq_bind, Option.bind_some,
      skipWs_cons _ (show isWs ':' = false by decide), parseValue_space, hv]
    rw [htext]
    simp only [skipWs_cons _ (show isWs ',' = false by decide), parseMembers_indent, h, Option.map_some]
    rfl

end

/-! ## The length of the text bounds the fuel -/

mutual

theorem cost_le_indented : ∀ (depth : ℕ) (doc : Doc), cost (value doc) ≤ (indented depth doc).length
  | _, str literal => by
    rw [value, cost, indented, List.length_cons]
    · omega
    all_goals simp
  | _, arr [] => Nat.le_succ 1
  | depth, arr (doc :: docs) => by
    have hv := cost_le_indented (depth + 1) doc
    have hvs := costElements_le_indented depth docs
    rw [value, values, cost, costElements, indented, List.length_cons, List.length_append, List.length_append]
    omega
  | _, obj [] => Nat.le_succ 1
  | depth, obj ((k, doc) :: members) => by
    have hv := cost_le_indented (depth + 1) doc
    have hms := costMembers_le_indented depth members
    rw [value, memberValues, cost, costMembers, indented]
    simp only [List.length_cons, List.length_append]
    omega

theorem costElements_le_indented : ∀ (depth : ℕ) (docs : List Doc),
    costElements (values docs) + 1 ≤ (indentedElements depth docs).length
  | depth, [] => by
    rw [indentedElements, List.length_append, List.length_singleton]
    exact Nat.le_add_left _ _
  | depth, doc :: docs => by
    have hv := cost_le_indented (depth + 1) doc
    have hvs := costElements_le_indented depth docs
    rw [values, costElements, indentedElements, List.length_cons, List.length_append, List.length_append]
    omega

theorem costMembers_le_indented : ∀ (depth : ℕ) (members : List (String × Doc)),
    costMembers (memberValues members) + 1 ≤ (indentedMembers depth members).length
  | depth, [] => by
    rw [indentedMembers, List.length_append, List.length_singleton]
    exact Nat.le_add_left _ _
  | depth, (k, doc) :: members => by
    have hv := cost_le_indented (depth + 1) doc
    have hms := costMembers_le_indented depth members
    rw [memberValues, costMembers, indentedMembers]
    simp only [List.length_cons, List.length_append]
    omega

end

/-- **The round trip.** `JSON.parse(JSON.stringify(value, null, 2))` is the value, with halves
of surrogate pairs in its strings read as `U+FFFD`. -/
theorem parse_indented (doc : Doc) (hw : WellFormed (value doc)) :
    parse (String.ofList (indented 0 doc)) = some (value doc) := by
  have hcost := cost_le_indented 0 doc
  have h := parseValue_indented 0 doc ((indented 0 doc).length + 1) [] hw (by omega)
  rw [List.append_nil] at h
  rw [parse, String.toList_ofList, h]
  rfl

/-! ## Blank lines -/

/-- The text up to the first blank line. -/
def paragraph : List Char → List Char
  | '\n' :: '\n' :: _ => []
  | c :: cs => c :: paragraph cs
  | [] => []

/-- After every line break comes something else than a line break. -/
def Flows : List Char → Prop
  | [] => True
  | c :: cs => (c = '\n' → ∃ b ∈ cs.head?, b ≠ '\n') ∧ Flows cs

theorem flows_of_notMem {cs : List Char} (h : '\n' ∉ cs) : Flows cs := by
  induction cs with
  | nil => trivial
  | cons c cs ih =>
    rw [List.mem_cons, not_or] at h
    exact ⟨fun hc => absurd hc.symm h.1, ih h.2⟩

theorem Flows.append {cs ds : List Char} (h : Flows cs) (h' : Flows ds) : Flows (cs ++ ds) := by
  induction cs with
  | nil => exact h'
  | cons c cs ih =>
    refine ⟨fun hc => ?_, ih h.2⟩
    obtain ⟨b, hb, hne⟩ := h.1 hc
    exact ⟨b, List.mem_head?_append_of_mem_head? hb, hne⟩

theorem Flows.cons {c : Char} {cs : List Char} (hc : c ≠ '\n') (h : Flows cs) : Flows (c :: cs) :=
  ⟨fun hc' => absurd hc' hc, h⟩

theorem flows_indent (depth : ℕ) : Flows (indent (depth + 1)) :=
  ⟨fun _ => ⟨' ', rfl, by decide⟩, flows_of_notMem fun h => by
    have hspace := List.eq_of_mem_replicate h
    exact absurd hspace (by decide)⟩

/-- A line with a closing bracket. -/
theorem flows_close (depth : ℕ) {c : Char} (hc : c ≠ '\n') : Flows (indent depth ++ [c]) := by
  cases depth with
  | zero => exact ⟨fun _ => ⟨c, rfl, hc⟩, fun hc' => absurd hc' hc, trivial⟩
  | succ depth => exact (flows_indent depth).append (Flows.cons hc trivial)

theorem flows_quote (k : String) : Flows (quote k.toList) := by
  refine Flows.cons (by decide) (Flows.append (flows_of_notMem ?_) (Flows.cons (by decide) trivial))
  exact (Literal.ofString k).oneLine

mutual

/-- No indented text holds a blank line. Every line break in it is followed by spaces or by a
closing bracket. -/
theorem flows_indented : ∀ (depth : ℕ) (doc : Doc), Flows (indented depth doc)
  | _, str literal => by
    rw [indented]
    exact Flows.cons (by decide) ((flows_of_notMem literal.oneLine).append (Flows.cons (by decide) trivial))
  | _, arr [] => by
    rw [indented]
    exact flows_of_notMem (by decide)
  | depth, arr (doc :: docs) => by
    rw [indented]
    exact Flows.cons (by decide) ((flows_indent depth).append
      ((flows_indented (depth + 1) doc).append (flows_indentedElements depth docs)))
  | _, obj [] => by
    rw [indented]
    exact flows_of_notMem (by decide)
  | depth, obj ((k, doc) :: members) => by
    rw [indented]
    exact Flows.cons (by decide) ((flows_indent depth).append ((flows_quote k).append (Flows.cons (by decide)
      (Flows.cons (by decide) ((flows_indented (depth + 1) doc).append (flows_indentedMembers depth members))))))

theorem flows_indentedElements : ∀ (depth : ℕ) (docs : List Doc), Flows (indentedElements depth docs)
  | depth, [] => by
    rw [indentedElements]
    exact flows_close depth (by decide)
  | depth, doc :: docs => by
    rw [indentedElements]
    exact Flows.cons (by decide) ((flows_indent depth).append
      ((flows_indented (depth + 1) doc).append (flows_indentedElements depth docs)))

theorem flows_indentedMembers : ∀ (depth : ℕ) (members : List (String × Doc)),
    Flows (indentedMembers depth members)
  | depth, [] => by
    rw [indentedMembers]
    exact flows_close depth (by decide)
  | depth, (k, doc) :: members => by
    rw [indentedMembers]
    exact Flows.cons (by decide) ((flows_indent depth).append ((flows_quote k).append (Flows.cons (by decide)
      (Flows.cons (by decide) ((flows_indented (depth + 1) doc).append (flows_indentedMembers depth members))))))

end

/-- A text without a blank line is all that stands before the first one. -/
theorem paragraph_append {cs : List Char} (h : Flows cs) (r : List Char) :
    paragraph (cs ++ '\n' :: '\n' :: r) = cs := by
  induction cs with
  | nil => rfl
  | cons c cs ih =>
    rw [List.cons_append, paragraph.eq_2, ih h.2]
    rintro rest rfl hrest
    obtain ⟨b, hb, hne⟩ := h.1 rfl
    obtain ⟨bs, rfl⟩ := List.head?_eq_some_iff.1 hb
    exact hne (List.cons.inj hrest).1

/-- **What stands between.** An indented text that ends with a blank line reads as its value,
whatever is written behind that line. So a reader finds the end of the list in a prompt
without knowing what the list says. -/
theorem parse_paragraph (doc : Doc) (hw : WellFormed (value doc)) (r : List Char) :
    parse (String.ofList (paragraph (indented 0 doc ++ '\n' :: '\n' :: r))) = some (value doc) := by
  rw [paragraph_append (flows_indented 0 doc), parse_indented doc hw]

end Doc

end Json
