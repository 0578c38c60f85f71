/-
`stackoverflow.scraper`: `stripHtml`, pass by pass.

Question and answer bodies come as HTML. Code blocks and inline code are kept
between backticks, every other tag goes, and five entities are decoded one after
the other.
-/
import TechTrends.TextUtil
import TechTrends.JsReplace

set_option autoImplicit false

namespace TechTrends

namespace StackOverflowScraper

open JsString (Units utf16 unit trimUnits replace matchText replace_eq_self replace_matchText_hit
  replace_matchText_miss replace_matchText_pass replace_matchText_of_absent isWhitespaceUnit
  countP_replace_matchText_le countP_replace_matchText_lt countP_trimBy)

/-! ## Tags -/

/-- A letter without its case, as the flag `i` compares. -/
def foldCase (u : UInt16) : UInt16 := if 0x41 ≤ u ∧ u ≤ 0x5A then u + 0x20 else u

def startsWithIgnoreCase (pattern us : Units) : Bool := pattern.isPrefixOf (us.map foldCase)

/-- `[\s\S]*?` up to `stop`, whatever its case. -/
def lazyAnyIgnoreCase (stop : Units) : Units → Option Units
  | [] => if stop = [] then some [] else none
  | u :: us =>
    if startsWithIgnoreCase stop (u :: us) then some []
    else (lazyAnyIgnoreCase stop us).map (u :: ·)

/-- An opening tag with any attributes, the text up to the closing tag, and what
is written around that text instead. -/
def matchElement (opening closing before after : Units) (_ : Option UInt16) (us : Units) :
    Option (Units × ℕ) :=
  if startsWithIgnoreCase opening us then
    let attributes := (us.drop opening.length).takeWhile (· ≠ unit '>')
    match us.drop (opening.length + attributes.length) with
    | [] => none
    | _ :: rest =>
      (lazyAnyIgnoreCase closing rest).map fun text =>
        (before ++ text ++ after, opening.length + attributes.length + 1 + text.length + closing.length)
  else none

/-- `/<pre><code[^>]*>([\s\S]*?)<\/code><\/pre>/gi` → a fenced block. -/
def matchPreCode : Option UInt16 → Units → Option (Units × ℕ) :=
  matchElement (utf16 "<pre><code") (utf16 "</code></pre>") (utf16 "\n```\n") (utf16 "\n```\n")

/-- `/<code[^>]*>([\s\S]*?)<\/code>/gi` → the code between backticks. -/
def matchCode : Option UInt16 → Units → Option (Units × ℕ) :=
  matchElement (utf16 "<code") (utf16 "</code>") (utf16 "`") (utf16 "`")

/-- `/<[^>]+>/g` → `''`. -/
def matchHtmlTag : Option UInt16 → Units → Option (Units × ℕ)
  | _, u :: us =>
    if u = unit '<' then
      let inner := us.takeWhile (· ≠ unit '>')
      if inner ≠ [] ∧ inner.length < us.length then some ([], 1 + inner.length + 1) else none
    else none
  | _, [] => none

/-! ## `stripHtml` -/

def stripHtml (html : Units) : Units :=
  trimUnits <|
  replace (matchText (utf16 "&#39;") (utf16 "'")) <|
  replace (matchText (utf16 "&quot;") (utf16 "\"")) <|
  replace (matchText (utf16 "&amp;") (utf16 "&")) <|
  replace (matchText (utf16 "&gt;") (utf16 ">")) <|
  replace (matchText (utf16 "&lt;") (utf16 "<")) <|
  replace matchHtmlTag <|
  replace matchCode <|
  replace matchPreCode html

-- A block becomes a fence, inline code keeps its text, and tags and entities go.
example : stripHtml (utf16 "<p>Use <CODE class=x>a&lt;b</code>:</p><pre><code>f()</code></pre>")
    = utf16 "Use `a<b`:\n```\nf()\n```" := by decide +kernel

/-- All three patterns for tags start with `<`. -/
theorem stripTags_eq_self {us : Units} (h : unit '<' ∉ us) :
    replace matchHtmlTag (replace matchCode (replace matchPreCode us)) = us := by
  have hfold : ∀ u : UInt16, foldCase u = unit '<' → u = unit '<' := by
    intro u hu
    rw [foldCase] at hu
    split at hu
    · next hletter =>
      have h1 := UInt16.le_iff_toNat_le.1 hletter.1
      have h2 := UInt16.le_iff_toNat_le.1 hletter.2
      have h3 := congrArg UInt16.toNat hu
      rw [UInt16.toNat_add] at h3
      change 65 ≤ u.toNat at h1
      change u.toNat ≤ 90 at h2
      change (u.toNat + 32) % 65536 = 60 at h3
      omega
    · exact hu
  have helement : ∀ {opening closing before after : Units} (t : Units) (b : Option UInt16), t <:+ us →
      matchElement (unit '<' :: opening) closing before after b t = none := by
    intro opening closing before after t b ht
    refine if_neg fun hp => ?_
    have hpre := List.isPrefixOf_iff_prefix.1 hp
    cases t with
    | nil => exact absurd (List.prefix_nil.1 hpre) (List.cons_ne_nil _ _)
    | cons u t =>
      have hu := hfold u (List.cons_prefix_cons.1 hpre).1.symm
      exact h (ht.subset (List.mem_cons.2 (Or.inl hu.symm)))
  have hpre : replace matchPreCode us = us := replace_eq_self helement
  have hcode : replace matchCode us = us := replace_eq_self helement
  rw [hpre, hcode]
  refine replace_eq_self fun t b ht => ?_
  cases t with
  | nil => rfl
  | cons u t => exact if_neg fun hu => h (ht.subset (List.mem_cons.2 (Or.inl hu.symm)))

/-! ## Escaping -/

/-- The characters that HTML writes as entities. -/
inductive Entity where
  | lt
  | gt
  | amp
  | quot
  | apos
deriving DecidableEq

def Entity.char : Entity → UInt16
  | .lt => unit '<'
  | .gt => unit '>'
  | .amp => unit '&'
  | .quot => unit '"'
  | .apos => unit '\''

/-- What stands after the `&`. -/
def Entity.body : Entity → Units
  | .lt => utf16 "lt;"
  | .gt => utf16 "gt;"
  | .amp => utf16 "amp;"
  | .quot => utf16 "quot;"
  | .apos => utf16 "#39;"

def Entity.text (e : Entity) : Units := unit '&' :: e.body

/-- A unit, as its entity when that is one of `es`. -/
def escapeUnit : List Entity → UInt16 → Units
  | [], u => [u]
  | e :: es, u => if e.char = u then e.text else escapeUnit es u

def escapeWith (es : List Entity) (s : Units) : Units := s.flatMap (escapeUnit es)

/-- Every character that HTML gives a meaning is escaped, each once. -/
def escape (s : Units) : Units := escapeWith [.lt, .gt, .amp, .quot, .apos] s

/-- Only the signs of tags are escaped. -/
def escapeSigns (s : Units) : Units := escapeWith [.lt, .gt] s

theorem Entity.char_inj {e f : Entity} (h : e.char = f.char) : e = f := by
  cases e <;> cases f <;> first
    | rfl
    | exact absurd h (by decide)

/-- No entity has one of the characters behind its `&`, so escaping does not meet its own
output there. -/
theorem Entity.char_notMem_body (e f : Entity) : e.char ∉ f.body := by
  cases e <;> cases f <;> decide

/-- The entities differ in the first unit after the `&`. -/
theorem Entity.not_prefix_text {e f : Entity} (h : e ≠ f) (us : Units) :
    ¬ e.text <+: f.text ++ us := by
  intro hp
  have hbody : e.body <+: f.body ++ us := (List.cons_prefix_cons.1 hp).2
  cases e <;> cases f <;> first
    | exact h rfl
    | exact absurd (List.cons_prefix_cons.1 hbody).1 (by decide)

/-- A unit is escaped, or it is none of the characters. -/
theorem escapeUnit_cases (es : List Entity) (u : UInt16) :
    (∃ e ∈ es, e.char = u ∧ escapeUnit es u = e.text) ∨
      (∀ e ∈ es, e.char ≠ u) ∧ escapeUnit es u = [u] := by
  induction es with
  | nil => exact Or.inr ⟨fun e he => absurd he List.not_mem_nil, rfl⟩
  | cons e es ih =>
    rw [escapeUnit]
    by_cases he : e.char = u
    · rw [if_pos he]
      exact Or.inl ⟨e, List.mem_cons_self, he, rfl⟩
    · rw [if_neg he]
      rcases ih with ⟨f, hf, hfu, htext⟩ | ⟨hall, hself⟩
      · exact Or.inl ⟨f, List.mem_cons_of_mem e hf, hfu, htext⟩
      · refine Or.inr ⟨fun f hf => ?_, hself⟩
        rcases List.mem_cons.1 hf with rfl | hf
        · exact he
        · exact hall f hf

theorem escapeUnit_self {es : List Entity} {u : UInt16} (h : ∀ e ∈ es, e.char ≠ u) :
    escapeUnit es u = [u] := by
  rcases escapeUnit_cases es u with ⟨e, he, hu, -⟩ | ⟨-, hself⟩
  · exact absurd hu (h e he)
  · exact hself

theorem escapeWith_cons (es : List Entity) (u : UInt16) (us : Units) :
    escapeWith es (u :: us) = escapeUnit es u ++ escapeWith es us := List.flatMap_cons

theorem escapeWith_append (es : List Entity) (s t : Units) :
    escapeWith es (s ++ t) = escapeWith es s ++ escapeWith es t := List.flatMap_append

/-- A text without the characters is written as it is. -/
theorem escapeWith_eq_self {es : List Entity} {s : Units} (h : ∀ e ∈ es, e.char ∉ s) :
    escapeWith es s = s := by
  induction s with
  | nil => rfl
  | cons u us ih =>
    have hu : escapeUnit es u = [u] := escapeUnit_self fun e he hu =>
      h e he (List.mem_cons.2 (Or.inl hu))
    rw [escapeWith_cons, hu, ih fun e he hmem => h e he (List.mem_cons_of_mem u hmem)]
    rfl

/-- Entities whose characters do not occur change nothing. -/
theorem escapeWith_append_of_notMem {es fs : List Entity} {s : Units} (h : ∀ e ∈ fs, e.char ∉ s) :
    escapeWith (es ++ fs) s = escapeWith es s := by
  have hunit : ∀ u ∈ s, escapeUnit (es ++ fs) u = escapeUnit es u := by
    intro u hu
    have hfs : escapeUnit fs u = [u] := escapeUnit_self fun e he heu => h e he (heu ▸ hu)
    induction es with
    | nil => exact hfs
    | cons e es ih => rw [List.cons_append, escapeUnit, escapeUnit, ih]
  exact List.flatMap_congr hunit

/-- A text without the characters starts the escaped text where it starts the text. -/
theorem prefix_escapeWith {es : List Entity} {p us : Units} (hamp : unit '&' ∉ p)
    (hp : ∀ e ∈ es, e.char ∉ p) : p <+: escapeWith es us ↔ p <+: us := by
  induction p generalizing us with
  | nil => exact iff_of_true (List.nil_prefix) (List.nil_prefix)
  | cons v p ih =>
    have hih : ∀ us, p <+: escapeWith es us ↔ p <+: us := fun us =>
      ih (fun h => hamp (List.mem_cons_of_mem v h)) fun e he h => hp e he (List.mem_cons_of_mem v h)
    cases us with
    | nil => exact Iff.rfl
    | cons u us =>
      rw [escapeWith_cons]
      rcases escapeUnit_cases es u with ⟨e, he, hu, htext⟩ | ⟨-, hself⟩
      · -- the entity starts with `&`, and `p` with another unit
        rw [htext, Entity.text, List.cons_append, List.cons_prefix_cons, List.cons_prefix_cons]
        refine iff_of_false (fun h => hamp (List.mem_cons.2 (Or.inl h.1.symm))) fun h => ?_
        exact hp e he (List.mem_cons.2 (Or.inl (hu.trans h.1.symm)))
      · rw [hself, List.singleton_append, List.cons_prefix_cons, List.cons_prefix_cons, hih us]

/-! ## Decoding one entity -/

/-- The pass of `stripHtml` for an entity. -/
def decode (e : Entity) (us : Units) : Units := replace (matchText e.text [e.char]) us

section Decode

variable {e : Entity} {es : List Entity}

theorem decode_text (us : Units) : decode e (e.text ++ us) = e.char :: decode e us :=
  replace_matchText_hit us

/-- Another entity is not touched: the pattern starts nowhere in it. -/
theorem decode_other {f : Entity} (h : e ≠ f) (us : Units) :
    decode e (f.text ++ us) = f.text ++ decode e us := by
  have hmiss : ¬ e.text <+: unit '&' :: (f.body ++ us) := Entity.not_prefix_text h us
  have hbody : unit '&' ∉ f.body := Entity.char_notMem_body .amp f
  have hmissed : decode e (unit '&' :: (f.body ++ us)) = unit '&' :: decode e (f.body ++ us) :=
    replace_matchText_miss hmiss
  have hpassed : decode e (f.body ++ us) = f.body ++ decode e us := replace_matchText_pass hbody us
  rw [Entity.text, List.cons_append, hmissed, hpassed]
  rfl

theorem decode_plain {u : UInt16} (h : u ≠ unit '&') (us : Units) :
    decode e (u :: us) = u :: decode e us :=
  replace_matchText_miss fun hp => h (List.cons_prefix_cons.1 hp).1.symm

/-- As long as `&` itself is escaped, every `&` starts an entity, and decoding one
kind of entity undoes its escaping. -/
theorem decode_escapeWith (he : e ∉ es) (hamp : .amp ∈ e :: es) (s : Units) :
    decode e (escapeWith (e :: es) s) = escapeWith es s := by
  induction s with
  | nil => rfl
  | cons u us ih =>
    rw [escapeWith_cons, escapeWith_cons, escapeUnit]
    by_cases hu : e.char = u
    · have hself : escapeUnit es u = [u] := escapeUnit_self fun f hf hfu =>
        he (Entity.char_inj (hu.trans hfu.symm) ▸ hf)
      rw [if_pos hu, decode_text, ih, hself, hu]
      rfl
    · rw [if_neg hu]
      rcases escapeUnit_cases es u with ⟨f, hf, hfu, htext⟩ | ⟨hall, hself⟩
      · rw [htext, decode_other (ne_of_mem_of_not_mem hf he).symm, ih]
      · have hne : u ≠ unit '&' := by
          intro hamp'
          rcases List.mem_cons.1 hamp with heq | hmem
          · exact hu (heq ▸ hamp'.symm)
          · exact hall .amp hmem hamp'.symm
        rw [hself, List.singleton_append, decode_plain hne, ih]
        rfl

/-- Once `&` is decoded, an `&` of the text may start an entity of the text: the step then
decodes those as well. By induction on the length of the text, since an entity of it is
several units. -/
theorem decode_escapeWith_of_amp_notMem (he : e ∉ es) (hamp : .amp ∉ e :: es) (s : Units) :
    decode e (escapeWith (e :: es) s) = escapeWith es (decode e s) := by
  have hbodyAmp : unit '&' ∉ e.body := Entity.char_notMem_body .amp e
  have hbody : ∀ f ∈ e :: es, f.char ∉ e.body := fun f _ => Entity.char_notMem_body f e
  have hchar : escapeUnit es e.char = [e.char] := escapeUnit_self fun f hf hfe =>
    he (Entity.char_inj hfe ▸ hf)
  have hampChar : ∀ f ∈ e :: es, f.char ≠ unit '&' := by
    intro f hf hfa
    have hfamp : f = .amp := Entity.char_inj hfa
    exact hamp (hfamp ▸ hf)
  induction hn : s.length using Nat.strongRecOn generalizing s with
  | ind n ih =>
    cases s with
    | nil => rfl
    | cons u us =>
      rw [List.length_cons] at hn
      have hih := ih us.length (by omega) us rfl
      by_cases hu : u = unit '&'
      · have hself : escapeUnit (e :: es) u = [u] := escapeUnit_self fun f hf hfu =>
          hampChar f hf (hfu.trans hu)
        by_cases hp : e.body <+: us
        · obtain ⟨rest, rfl⟩ := hp
          have hrest := ih rest.length (by rw [List.length_append] at hn; omega) rest rfl
          have hesc : escapeWith (e :: es) (u :: (e.body ++ rest))
              = e.text ++ escapeWith (e :: es) rest := by
            rw [escapeWith_cons, hself, escapeWith_append, escapeWith_eq_self hbody, hu]
            rfl
          have hs : u :: (e.body ++ rest) = e.text ++ rest := by rw [hu]; rfl
          rw [hesc, decode_text, hrest, hs, decode_text, escapeWith_cons, hchar]
          rfl
        · have hmiss : ∀ t, ¬ e.body <+: t → decode e (u :: t) = u :: decode e t := fun t ht =>
            replace_matchText_miss fun h => ht (List.cons_prefix_cons.1 h).2
          have hpesc : ¬ e.body <+: escapeWith (e :: es) us := fun h =>
            hp ((prefix_escapeWith hbodyAmp hbody).1 h)
          have hself' : escapeUnit es u = [u] := escapeUnit_self fun f hf hfu =>
            hampChar f (List.mem_cons_of_mem e hf) (hfu.trans hu)
          rw [escapeWith_cons, hself, List.singleton_append, hmiss _ hpesc, hmiss _ hp,
            escapeWith_cons, hself', hih]
          rfl
      · rw [decode_plain hu, escapeWith_cons, escapeWith_cons, escapeUnit]
        by_cases heu : e.char = u
        · rw [if_pos heu, decode_text, hih, ← heu, hchar]
          rfl
        · rw [if_neg heu]
          rcases escapeUnit_cases es u with ⟨f, hf, -, htext⟩ | ⟨-, hself⟩
          · rw [htext, decode_other (ne_of_mem_of_not_mem hf he).symm, hih]
          · rw [hself, List.singleton_append, decode_plain hu, hih]
            rfl

end Decode

/-! ## `stripHtml` of an escaped text -/

/-- An escaped text has no `<`. -/
theorem lt_notMem_escape (s : Units) : unit '<' ∉ escape s := by
  intro h
  obtain ⟨u, -, hu⟩ := List.mem_flatMap.1 h
  rcases escapeUnit_cases [.lt, .gt, .amp, .quot, .apos] u with ⟨e, -, -, htext⟩ | ⟨hall, hself⟩
  · rw [htext] at hu
    rcases List.mem_cons.1 hu with h | h
    · exact absurd h (by decide)
    · exact Entity.char_notMem_body .lt e h
  · rw [hself, List.mem_singleton] at hu
    exact hall .lt (by decide) hu

theorem stripHtml_eq (html : Units) : stripHtml html
    = trimUnits (decode .apos (decode .quot (decode .amp (decode .gt (decode .lt
        (replace matchHtmlTag (replace matchCode (replace matchPreCode html)))))))) := rfl

/-- What `stripHtml` makes of an escaped text: `&quot;` and `&#39;` of the text
itself are decoded too, since `&` is decoded before them. -/
theorem stripHtml_escape (s : Units) :
    stripHtml (escape s) = trimUnits (decode .apos (decode .quot s)) := by
  have hnil : ∀ t, escapeWith [] t = t := fun t => escapeWith_eq_self fun e he =>
    absurd he List.not_mem_nil
  rw [stripHtml_eq, stripTags_eq_self (lt_notMem_escape s), escape,
    decode_escapeWith (by decide) (by decide), decode_escapeWith (by decide) (by decide),
    decode_escapeWith (by decide) (by decide),
    decode_escapeWith_of_amp_notMem (by decide) (by decide),
    decode_escapeWith_of_amp_notMem (by decide) (by decide), hnil]

/-- A text without an entity is not changed by decoding it. -/
theorem decode_of_absent {e : Entity} {us : Units} (h : ¬ e.text <:+: us) : decode e us = us :=
  replace_matchText_of_absent h

/-- A unit that `trim` keeps. -/
def isInk (u : UInt16) : Bool := !isWhitespaceUnit u

theorem countP_trimUnits (us : Units) : (trimUnits us).countP isInk = us.countP isInk :=
  countP_trimBy isWhitespaceUnit us

/-- An entity has more units that are not white space than the character it stands for. -/
theorem Entity.countP_char_lt (e : Entity) : [e.char].countP isInk < e.text.countP isInk := by
  cases e <;> decide

theorem countP_decode_le (e : Entity) (us : Units) : (decode e us).countP isInk ≤ us.countP isInk :=
  countP_replace_matchText_le (Nat.le_of_lt e.countP_char_lt) us

theorem countP_decode_lt {e : Entity} {us : Units} (h : e.text <:+: us) :
    (decode e us).countP isInk < us.countP isInk :=
  countP_replace_matchText_lt e.countP_char_lt h

/-- `stripHtml` undoes the escaping of exactly the texts that contain neither
`&quot;` nor `&#39;`. -/
theorem stripHtml_escape_eq_trim_iff (s : Units) :
    stripHtml (escape s) = trimUnits s ↔ ¬ utf16 "&quot;" <:+: s ∧ ¬ utf16 "&#39;" <:+: s := by
  rw [stripHtml_escape]
  refine ⟨fun h => ?_, fun h => ?_⟩
  · -- both sides have the same number of units that are not white space
    have hcount : (decode .apos (decode .quot s)).countP isInk = s.countP isInk := by
      have htrim := congrArg (List.countP isInk) h
      rwa [countP_trimUnits, countP_trimUnits] at htrim
    have hquot := countP_decode_le .quot s
    have hapos := countP_decode_le .apos (decode .quot s)
    have hnoQuot : ¬ Entity.quot.text <:+: s := by
      intro hin
      have hlt := countP_decode_lt hin
      omega
    refine ⟨hnoQuot, fun hin => ?_⟩
    rw [decode_of_absent hnoQuot] at hcount
    have hlt := countP_decode_lt (e := .apos) hin
    omega
  · have hquot : decode .quot s = s := decode_of_absent h.1
    have hapos : decode .apos s = s := decode_of_absent h.2
    rw [hquot, hapos]

/-- A text about HTML: the entity it speaks of is decoded with the escaping. -/
theorem stripHtml_escape_quot : stripHtml (escape (utf16 "&quot;")) ≠ trimUnits (utf16 "&quot;") := by
  decide +kernel

end StackOverflowScraper

end TechTrends
