/-
A question body on its way to the prompts: `stripHtml`, then `sanitizeAndFilter`.

The first turns escaped signs into real ones, the second deletes from a `<` to the
next `>` or to the end of the text.
-/
import TechTrends.StackOverflow

set_option autoImplicit false

namespace JsString

/-! ## The code units of a character -/

def charUnits (c : Char) : Units :=
  if c.toNat < 0x10000 then [UInt16.ofNat c.toNat]
  else [UInt16.ofNat (0xD800 + (c.toNat - 0x10000) / 0x400),
    UInt16.ofNat (0xDC00 + (c.toNat - 0x10000) % 0x400)]

theorem utf16_eq_flatMap (s : String) : utf16 s = s.toList.flatMap charUnits := rfl

/-- One unit with the number of the character, or the two halves of a pair. -/
theorem charUnits_cases (c : Char) :
    (∃ u, charUnits c = [u] ∧ u.toNat = c.toNat) ∨
      0x10000 ≤ c.toNat ∧ ∃ u v, charUnits c = [u, v] ∧ 0xD800 ≤ u.toNat ∧ u.toNat < 0xDC00 ∧
        0xDC00 ≤ v.toNat ∧ v.toNat < 0xE000 ∧
        0x10000 + (u.toNat - 0xD800) * 0x400 + (v.toNat - 0xDC00) = c.toNat := by
  have hvalid : c.toNat < 0xD800 ∨ 0xDFFF < c.toNat ∧ c.toNat < 0x110000 := c.valid
  by_cases hc : c.toNat < 0x10000
  · exact Or.inl ⟨UInt16.ofNat c.toNat, if_pos hc, UInt16.toNat_ofNat_of_lt' hc⟩
  · have hu : (UInt16.ofNat (0xD800 + (c.toNat - 0x10000) / 0x400)).toNat
        = 0xD800 + (c.toNat - 0x10000) / 0x400 := UInt16.toNat_ofNat_of_lt' (by rw [UInt16.size]; omega)
    have hv : (UInt16.ofNat (0xDC00 + (c.toNat - 0x10000) % 0x400)).toNat
        = 0xDC00 + (c.toNat - 0x10000) % 0x400 := UInt16.toNat_ofNat_of_lt' (by rw [UInt16.size]; omega)
    refine Or.inr ⟨Nat.le_of_not_lt hc, _, _, if_neg hc, ?_⟩
    rw [hu, hv]
    omega

theorem charUnits_ne_nil (c : Char) : charUnits c ≠ [] := by
  rw [charUnits]
  split <;> exact List.cons_ne_nil _ _

/-- An ASCII unit belongs to its own character only. -/
theorem unit_mem_charUnits {a c : Char} (ha : a.toNat < 0x80) (h : unit a ∈ charUnits c) : a = c := by
  have hunit : (unit a).toNat = a.toNat := UInt16.toNat_ofNat_of_lt' (by rw [UInt16.size]; omega)
  rcases charUnits_cases c with ⟨u, hunits, hnat⟩ | ⟨-, u, v, hunits, hu, -, hv, -, -⟩
  · rw [hunits, List.mem_singleton] at h
    rw [← h, hunit] at hnat
    exact Char.toNat_inj.1 hnat
  · rw [hunits, List.mem_cons, List.mem_singleton] at h
    rcases h with h | h
    · rw [← h, hunit] at hu
      omega
    · rw [← h, hunit] at hv
      omega

theorem unit_mem_utf16 {a : Char} (ha : a.toNat < 0x80) {s : String} :
    unit a ∈ utf16 s ↔ a ∈ s.toList := by
  rw [utf16_eq_flatMap, List.mem_flatMap]
  refine ⟨fun ⟨c, hc, hunit⟩ => unit_mem_charUnits ha hunit ▸ hc, fun h => ⟨a, h, ?_⟩⟩
  rw [charUnits, if_pos (by omega)]
  exact List.mem_singleton_self _

/-- The units of a character are white space when the character is. -/
theorem isWhitespaceUnit_of_mem {c : Char} {u : UInt16} (h : u ∈ charUnits c) :
    isWhitespaceUnit u = isWhitespace c := by
  have hpair : ∀ n : ℕ, 0xD800 ≤ n → n < 0xE000 ∨ 0x10000 ≤ n → isWhitespaceCode n = false := by
    intro n h1 h2
    simp only [isWhitespaceCode, Bool.or_eq_false_iff, Bool.and_eq_false_iff, decide_eq_false_iff_not,
      beq_eq_false_iff_ne]
    omega
  rcases charUnits_cases c with ⟨w, hunits, hnat⟩ | ⟨hc, w, v, hunits, hw, hw', hv, hv', -⟩
  · rw [hunits, List.mem_singleton] at h
    rw [isWhitespaceUnit, isWhitespace, h, hnat]
  · rw [isWhitespaceUnit, isWhitespace, hpair c.toNat (by omega) (Or.inr hc)]
    rw [hunits, List.mem_cons, List.mem_singleton] at h
    rcases h with rfl | rfl
    · exact hpair _ hw (Or.inl (by omega))
    · exact hpair _ (by omega) (Or.inl hv')

/-- `trim` of a text whose first and last characters are no white space leaves it as it is. -/
theorem trimUnits_utf16 {s : String} (hhead : ∀ c ∈ s.toList.head?, isWhitespace c = false)
    (hlast : ∀ c ∈ s.toList.getLast?, isWhitespace c = false) : trimUnits (utf16 s) = utf16 s := by
  rw [utf16_eq_flatMap]
  refine trimBy_eq_self (fun u hu => ?_) fun u hu => ?_
  · cases hs : s.toList with
    | nil => rw [hs] at hu; cases hu
    | cons c cs =>
      rw [hs, List.flatMap_cons, List.head?_append_of_ne_nil _ (charUnits_ne_nil c)] at hu
      rw [isWhitespaceUnit_of_mem (List.mem_of_mem_head? hu)]
      exact hhead c (by rw [hs]; rfl)
  · rcases List.eq_nil_or_concat s.toList with hs | ⟨cs, c, hs⟩
    · rw [hs] at hu
      cases hu
    · rw [hs, List.concat_eq_append, List.flatMap_append, List.flatMap_singleton,
        List.getLast?_append_of_ne_nil _ (charUnits_ne_nil c)] at hu
      rw [isWhitespaceUnit_of_mem (List.mem_of_getLast? hu)]
      refine hlast c ?_
      rw [hs, List.concat_eq_append, List.getLast?_concat]
      rfl

end JsString

namespace TechTrends

namespace TextUtil

open JsString

/-! ## What `sanitizeAndFilter` never leaves -/

/-- The pass for tags starts at every `<`. -/
theorem matchTag_lt (us : Units) (b : Option UInt16) :
    ∃ r n, matchTag b (unit '<' :: us) = some (r, n + 1) := by
  refine ⟨[], (us.takeWhile (· ≠ unit '>')).length +
    (if (us.takeWhile (· ≠ unit '>')).length < us.length then 1 else 0), ?_⟩
  rw [matchTag, if_pos rfl]
  exact congrArg (fun k => some (([] : Units), k)) (by omega)

/-- What a tag leaves is nothing. -/
theorem matchTag_replacement {t r : Units} {b : Option UInt16} {k : ℕ}
    (h : matchTag b t = some (r, k)) : r = [] := by
  cases t with
  | nil => cases h
  | cons u us =>
    rw [matchTag] at h
    split at h
    · exact (Prod.mk.inj (Option.some.inj h)).1.symm
    · cases h

/-- The pass for tags leaves no `<`: every `<` begins a match, with or without a `>` behind
it. -/
theorem lt_notMem_replace_matchTag (us : Units) : unit '<' ∉ replace matchTag us := by
  refine notMem_replace matchTag_lt (fun t b r k h => ?_) us
  rw [matchTag_replacement h]
  exact List.not_mem_nil

theorem matchTableRule_replacement {t r : Units} {b : Option UInt16} {k : ℕ}
    (h : matchTableRule b t = some (r, k)) : r = [] := by
  rw [matchTableRule] at h
  dsimp only at h
  split at h
  · split at h
    · split at h
      · cases h
      · exact (Prod.mk.inj (Option.some.inj h)).1.symm
    · cases h
  · cases h

theorem matchRule_replacement {t r : Units} {b : Option UInt16} {k : ℕ}
    (h : matchRule b t = some (r, k)) : r = [] := by
  rw [matchRule] at h
  split at h
  · exact (Prod.mk.inj (Option.some.inj h)).1.symm
  · cases h

theorem matchEmoji_replacement {t r : Units} {b : Option UInt16} {k : ℕ}
    (h : matchEmoji b t = some (r, k)) : r = [] := by
  have hite : ∀ {p : Prop} [Decidable p] {n : ℕ},
      (if p then some (([] : Units), n) else none) = some (r, k) → r = [] := by
    intro p _ n hp
    split at hp
    · exact (Prod.mk.inj (Option.some.inj hp)).1.symm
    · cases hp
  rw [matchEmoji.eq_def] at h
  split at h
  · cases h
  · dsimp only at h
    split at h
    · split at h
      · exact hite h
      · exact hite h
    · exact hite h

/-- Blank lines leave one line break. The other passes put in nothing at all, so none of them
brings a sign back. -/
theorem matchBlankLines_replacement {t r : Units} {b : Option UInt16} {k : ℕ}
    (h : matchBlankLines b t = some (r, k)) : r = [unit '\n'] := by
  cases t with
  | nil => cases h
  | cons u us =>
    rw [matchBlankLines] at h
    dsimp only at h
    split at h
    · split at h
      · cases h
      · exact (Prod.mk.inj (Option.some.inj h)).1.symm
    · cases h

/-- No `<` is left: the passes after the one for tags bring none back. -/
theorem lt_notMem_sanitizeAndFilter (us : Units) (limit : ℕ) :
    unit '<' ∉ sanitizeAndFilter us limit := by
  have hnil : ∀ {r : Units}, r = [] → unit '<' ∉ r := by
    rintro r rfl
    exact List.not_mem_nil
  have hpasses : ∀ vs, unit '<' ∉ vs → unit '<' ∉ trimUnits (replace matchBlankLines
      (replace matchEmoji (replace matchRule (replace matchTableRule vs)))) := by
    intro vs hvs h
    have hblank := mem_of_mem_trimBy h
    have hemoji := mem_of_mem_replace (fun t b r k hm => by
      rw [matchBlankLines_replacement hm]; decide) hblank
    have hrule := mem_of_mem_replace (fun t b r k hm => hnil (matchEmoji_replacement hm)) hemoji
    have htable := mem_of_mem_replace (fun t b r k hm => hnil (matchRule_replacement hm)) hrule
    exact hvs (mem_of_mem_replace (fun t b r k hm => hnil (matchTableRule_replacement hm)) htable)
  rw [sanitizeAndFilter]
  split
  · exact List.not_mem_nil
  · have hcleaned := hpasses _ (lt_notMem_replace_matchTag
      (replace matchCodeBlock (replace matchLink (replace matchImage us))))
    dsimp only
    split
    · intro h
      rcases List.mem_append.1 h with h | h
      · exact hcleaned (List.mem_of_mem_take h)
      · exact absurd h (by decide)
    · exact hcleaned

/-! ## What `sanitizeAndFilter` leaves alone -/

section LeftAlone

variable {us : Units}

theorem replace_matchImage_eq_self (h : unit '!' ∉ us) : replace matchImage us = us := by
  refine replace_eq_self fun t b ht => ?_
  rw [matchImage.eq_def]
  split
  · next u v t =>
    exact if_neg fun hu => h (ht.subset (List.mem_cons.2 (Or.inl hu.1.symm)))
  · rfl

theorem replace_matchLink_eq_self (h : unit '[' ∉ us) : replace matchLink us = us := by
  refine replace_eq_self fun t b ht => ?_
  cases t with
  | nil => rfl
  | cons u t => exact if_neg fun hu => h (ht.subset (List.mem_cons.2 (Or.inl hu.symm)))

theorem replace_matchCodeBlock_eq_self (h : UInt16.ofNat 0x60 ∉ us) :
    replace matchCodeBlock us = us := by
  refine replace_eq_self fun t b ht => if_neg fun hp => h ?_
  exact ht.subset ((List.isPrefixOf_iff_prefix.1 hp).subset List.mem_cons_self)

theorem replace_matchTag_eq_self (h : unit '<' ∉ us) : replace matchTag us = us := by
  refine replace_eq_self fun t b ht => ?_
  cases t with
  | nil => rfl
  | cons u t => exact if_neg fun hu => h (ht.subset (List.mem_cons.2 (Or.inl hu.symm)))

theorem replace_matchTableRule_eq_self (h : unit ':' ∉ us) : replace matchTableRule us = us := by
  refine replace_eq_self fun t b ht => ?_
  rw [matchTableRule]
  dsimp only
  split
  · next u rest hrest =>
    have hu : u ∈ us := ht.subset (List.mem_of_mem_drop (List.mem_of_mem_drop
      (hrest ▸ List.mem_cons_self)))
    exact if_neg fun hcolon : u = unit ':' => h (hcolon ▸ hu)
  · rfl

theorem replace_matchRule_eq_self (h : unit '-' ∉ us) : replace matchRule us = us := by
  refine replace_eq_self fun t b ht => ?_
  have hdashes : t.takeWhile (· = unit '-') = [] := by
    cases t with
    | nil => rfl
    | cons u t =>
      have hu : u ≠ unit '-' := fun hu => h (ht.subset (List.mem_cons.2 (Or.inl hu.symm)))
      exact List.takeWhile_cons_of_neg (by simpa using hu)
  rw [matchRule, hdashes]
  refine if_neg fun hp => ?_
  simp at hp

theorem replace_matchBlankLines_eq_self (h : unit '\n' ∉ us) : replace matchBlankLines us = us := by
  refine replace_eq_self fun t b ht => ?_
  cases t with
  | nil => rfl
  | cons u t => exact if_neg fun hu => h (ht.subset (List.mem_cons.2 (Or.inl hu.symm)))

/-- A text on which no pattern can start comes through. -/
theorem sanitizeAndFilter_eq_self {limit : ℕ}
    (hunits : ∀ a ∈ [unit '!', unit '[', UInt16.ofNat 0x60, unit '<', unit ':', unit '-', unit '\n'],
      a ∉ us) (hemoji : replace matchEmoji us = us) (htrim : trimUnits us = us)
    (hlen : us.length ≤ limit) : sanitizeAndFilter us limit = us := by
  rw [sanitizeAndFilter]
  split
  · next hempty => exact hempty.symm
  · dsimp only
    rw [replace_matchImage_eq_self (hunits _ (by decide)),
      replace_matchLink_eq_self (hunits _ (by decide)),
      replace_matchCodeBlock_eq_self (hunits _ (by decide)),
      replace_matchTag_eq_self (hunits _ (by decide)),
      replace_matchTableRule_eq_self (hunits _ (by decide)),
      replace_matchRule_eq_self (hunits _ (by decide)), hemoji,
      replace_matchBlankLines_eq_self (hunits _ (by decide)), htrim, if_neg (Nat.not_lt.2 hlen)]

end LeftAlone

/-- Neither the unit nor the pair it starts is an emoji. -/
theorem matchEmoji_none {u : UInt16} {us : Units} (hunit : isEmoji u.toNat = false)
    (hpair : 0xD800 ≤ u.toNat → u.toNat < 0xDC00 → ∀ v ∈ us.head?,
      isEmoji (0x10000 + (u.toNat - 0xD800) * 0x400 + (v.toNat - 0xDC00)) = false)
    (b : Option UInt16) : matchEmoji b (u :: us) = none := by
  have hnone : ∀ {n k : ℕ}, isEmoji n = false →
      (if isEmoji n then some (([] : Units), k) else none) = none := by
    intro n k hn
    rw [hn]
    rfl
  cases us with
  | nil => exact hnone hunit
  | cons v us =>
    rw [matchEmoji]
    split
    · next hp => exact hnone (hpair hp.1 hp.2.1 v rfl)
    · exact hnone hunit

/-- The emoji pass sees the characters of a valid text: with the flag `u` a pair of units is
one character. By induction on the characters. -/
theorem replace_matchEmoji_eq_self {s : String} (h : ∀ c ∈ s.toList, isEmoji c.toNat = false) :
    replace matchEmoji (utf16 s) = utf16 s := by
  have hhalf : ∀ n, 0xD800 ≤ n → n < 0xE000 → isEmoji n = false := by
    intro n h1 h2
    simp only [isEmoji, Bool.or_eq_false_iff, Bool.and_eq_false_iff, decide_eq_false_iff_not]
    omega
  refine replace_eq_self ?_
  rw [utf16_eq_flatMap]
  generalize s.toList = cs at h ⊢
  induction cs with
  | nil =>
    intro t b ht
    rw [List.suffix_nil.1 ht]
    rfl
  | cons c cs ih =>
    intro t b ht
    have hc := h c List.mem_cons_self
    have hcs := fun t b => ih (fun c hc => h c (List.mem_cons_of_mem _ hc)) t b
    rw [List.flatMap_cons] at ht
    rcases charUnits_cases c with ⟨u, hunits, hnat⟩ | ⟨-, u, v, hunits, hu, hu', hv, hv', hnat⟩
    · rw [hunits, List.singleton_append] at ht
      rcases List.suffix_cons_iff.1 ht with rfl | ht
      · have hvalid : c.toNat < 0xD800 ∨ 0xDFFF < c.toNat ∧ c.toNat < 0x110000 := c.valid
        exact matchEmoji_none (hnat ▸ hc) (fun h1 h2 => absurd hvalid (by omega)) b
      · exact hcs t b ht
    · rw [hunits, List.cons_append, List.singleton_append] at ht
      rcases List.suffix_cons_iff.1 ht with rfl | ht
      · -- the pair is the character
        refine matchEmoji_none (hhalf _ hu (by omega)) (fun _ _ w hw => ?_) b
        rw [List.head?_cons, Option.mem_def, Option.some.injEq] at hw
        rw [← hw, hnat]
        exact hc
      · rcases List.suffix_cons_iff.1 ht with rfl | ht
        · exact matchEmoji_none (hhalf _ (by omega) hv') (fun _ hlow => absurd hlow (by omega)) b
        · exact hcs t b ht

/-! ## Texts with comparison signs -/

/-- Letters and digits of every script are such characters: no white space, no
emoji and, below U+0080, no sign. -/
def isWordLike (c : Char) : Bool :=
  (c.isAlphanum || 0x80 ≤ c.toNat) && !isWhitespace c && !isEmoji c.toNat

def isSignTextChar (c : Char) : Bool := isWordLike c || c == ' ' || c == '<' || c == '>'

/-- Letters, digits, inner spaces and comparison signs. -/
structure SignText (s : String) : Prop where
  chars : ∀ c ∈ s.toList, isSignTextChar c = true
  head : s.toList.head? ≠ some ' '
  last : s.toList.getLast? ≠ some ' '

namespace SignText

variable {s : String} (h : SignText s)
include h

theorem char_cases {c : Char} (hc : c ∈ s.toList) : isWordLike c = true ∨ c = ' ' ∨ c = '<' ∨ c = '>' := by
  have hchar := h.chars c hc
  rwa [isSignTextChar, Bool.or_eq_true, Bool.or_eq_true, Bool.or_eq_true, beq_iff_eq, beq_iff_eq,
    beq_iff_eq, or_assoc, or_assoc] at hchar

/-- A sign other than the two is not in the text. -/
theorem notMem {a : Char} (ha : a.toNat < 0x80) (halnum : a.isAlphanum = false) (hspace : a ≠ ' ')
    (hlt : a ≠ '<') (hgt : a ≠ '>') : a ∉ s.toList := by
  intro hmem
  rcases h.char_cases hmem with hword | hsp | hl | hg
  · rw [isWordLike, Bool.and_eq_true, Bool.and_eq_true, Bool.or_eq_true, decide_eq_true_eq] at hword
    rcases hword.1.1 with hal | hbig
    · rw [halnum] at hal
      cases hal
    · omega
  · exact hspace hsp
  · exact hlt hl
  · exact hgt hg

theorem not_isEmoji {c : Char} (hc : c ∈ s.toList) : isEmoji c.toNat = false := by
  rcases h.char_cases hc with hword | rfl | rfl | rfl
  · rw [isWordLike, Bool.and_eq_true, Bool.not_eq_true'] at hword
    exact hword.2
  · decide
  · decide
  · decide

theorem not_isWhitespace {c : Char} (hc : c ∈ s.toList) (hspace : c ≠ ' ') :
    isWhitespace c = false := by
  rcases h.char_cases hc with hword | hsp | rfl | rfl
  · rw [isWordLike, Bool.and_eq_true, Bool.and_eq_true, Bool.not_eq_true'] at hword
    exact hword.1.2
  · exact absurd hsp hspace
  · decide
  · decide

/-- Trimming leaves such a text as it is: its first and last characters are no blanks. -/
theorem trimUnits_eq_self : trimUnits (utf16 s) = utf16 s := by
  refine trimUnits_utf16 (fun c hc => ?_) fun c hc => ?_
  · refine h.not_isWhitespace (List.mem_of_mem_head? hc) fun hsp => ?_
    rw [hsp] at hc
    exact h.head hc
  · refine h.not_isWhitespace (List.mem_of_getLast? hc) fun hsp => ?_
    rw [hsp] at hc
    exact h.last hc

end SignText

end TextUtil

/-! ## Signs through both cleaners -/

namespace StackOverflowScraper

open JsString TextUtil

/-- A text of this kind has no other character that HTML escapes. -/
theorem escapeSigns_eq_escape {s : String} (h : SignText s) :
    escapeSigns (utf16 s) = escape (utf16 s) := by
  suffices hrest : ∀ e ∈ [Entity.amp, .quot, .apos], e.char ∉ utf16 s from
    (escapeWith_append_of_notMem hrest).symm
  have hno : ∀ {a : Char}, a.toNat < 0x80 → a.isAlphanum = false → a ≠ ' ' → a ≠ '<' → a ≠ '>' →
      unit a ∉ utf16 s := fun ha halnum hspace hlt hgt hmem =>
    h.notMem ha halnum hspace hlt hgt ((unit_mem_utf16 ha).1 hmem)
  intro e he
  simp only [List.mem_cons, List.not_mem_nil, or_false] at he
  rcases he with rfl | rfl | rfl
  · exact hno (a := '&') (by decide) (by decide) (by decide) (by decide) (by decide)
  · exact hno (a := '"') (by decide) (by decide) (by decide) (by decide) (by decide)
  · exact hno (a := '\'') (by decide) (by decide) (by decide) (by decide) (by decide)

/-- `stripHtml` brings every sign back. -/
theorem stripHtml_escapeSigns {s : String} (h : SignText s) :
    stripHtml (escapeSigns (utf16 s)) = utf16 s := by
  have hamp : unit '&' ∉ utf16 s := fun hmem =>
    h.notMem (by decide) (by decide) (by decide) (by decide) (by decide)
      ((unit_mem_utf16 (by decide)).1 hmem)
  have hdecode : ∀ e, decode e (utf16 s) = utf16 s := fun e =>
    decode_of_absent fun ht => hamp (ht.subset List.mem_cons_self)
  rw [escapeSigns_eq_escape h, stripHtml_escape, hdecode, hdecode, h.trimUnits_eq_self]

/-- The two cleaners together keep exactly the texts without `<`. -/
theorem sanitizeAndFilter_stripHtml_iff {s : String} (h : SignText s) {limit : ℕ}
    (hlen : (utf16 s).length ≤ limit) :
    sanitizeAndFilter (stripHtml (escapeSigns (utf16 s))) limit = utf16 s ↔ '<' ∉ s.toList := by
  rw [stripHtml_escapeSigns h]
  refine ⟨fun heq hmem => ?_, fun hno => ?_⟩
  · have hunit : unit '<' ∈ utf16 s := (unit_mem_utf16 (by decide)).2 hmem
    rw [← heq] at hunit
    exact lt_notMem_sanitizeAndFilter _ _ hunit
  · refine sanitizeAndFilter_eq_self ?_ (replace_matchEmoji_eq_self fun c hc => h.not_isEmoji hc)
      h.trimUnits_eq_self hlen
    have hsign : ∀ {a : Char}, a.toNat < 0x80 → a ∉ s.toList → unit a ∉ utf16 s := fun ha hmem hunit =>
      hmem ((unit_mem_utf16 ha).1 hunit)
    intro a ha
    simp only [List.mem_cons, List.not_mem_nil, or_false] at ha
    rcases ha with rfl | rfl | rfl | rfl | rfl | rfl | rfl
    · exact hsign (by decide) (h.notMem (by decide) (by decide) (by decide) (by decide) (by decide))
    · exact hsign (by decide) (h.notMem (by decide) (by decide) (by decide) (by decide) (by decide))
    · exact hsign (a := Char.ofNat 0x60) (by decide)
        (h.notMem (by decide) (by decide) (by decide) (by decide) (by decide))
    · exact hsign (by decide) hno
    · exact hsign (by decide) (h.notMem (by decide) (by decide) (by decide) (by decide) (by decide))
    · exact hsign (by decide) (h.notMem (by decide) (by decide) (by decide) (by decide) (by decide))
    · exact hsign (by decide) (h.notMem (by decide) (by decide) (by decide) (by decide) (by decide))

/-- With `>` alone the text comes through. -/
theorem sanitizeAndFilter_stripHtml_gt :
    sanitizeAndFilter (stripHtml (escapeSigns (utf16 "if a > b then a"))) 800
        = utf16 "if a > b then a" ↔ '<' ∉ "if a > b then a".toList :=
  sanitizeAndFilter_stripHtml_iff ⟨List.all_eq_true.1 (by decide), by decide, by decide⟩ (by decide)

/-- A comparison takes the rest of the text with it. -/
theorem sanitizeAndFilter_stripHtml_lt :
    SignText "if a < b then a" ∧ (utf16 "if a < b then a").length ≤ 800 ∧
      sanitizeAndFilter (stripHtml (escapeSigns (utf16 "if a < b then a"))) 800
        ≠ utf16 "if a < b then a" :=
  ⟨⟨List.all_eq_true.1 (by decide), by decide, by decide⟩, by decide, by decide +kernel⟩

end StackOverflowScraper

end TechTrends
