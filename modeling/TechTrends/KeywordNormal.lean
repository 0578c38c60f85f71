/-
When `normalizeKeyword` is canonical.

Its first pass looks for a question ending at the very end of the text, the later
passes take characters away. What they take away from the end can bring an ending
there that the first pass did not see.
-/
import Mathlib.Data.List.Chain
import Mathlib.Data.List.DropRight
import TechTrends.JsReplace
import TechTrends.Keyword

set_option autoImplicit false

namespace TechTrends

namespace AiService

open JsString (isWhitespace isWordChar trim trimBy)

/-! ## Blanks -/

theorem collapseSpaces_ink {c : Char} (hc : isWhitespace c = false) (cs : List Char) :
    collapseSpaces (c :: cs) = c :: collapseSpaces cs := by
  cases cs <;> simp [collapseSpaces, hc]

theorem collapseSpaces_blank {c : Char} (hc : isWhitespace c = true) : collapseSpaces [c] = [' '] := by
  rw [collapseSpaces, if_pos hc]

theorem collapseSpaces_blank_blank {c d : Char} (hc : isWhitespace c = true)
    (hd : isWhitespace d = true) (cs : List Char) :
    collapseSpaces (c :: d :: cs) = collapseSpaces (d :: cs) := by
  rw [collapseSpaces, if_pos hc, if_pos hd]

theorem collapseSpaces_blank_ink {c d : Char} (hc : isWhitespace c = true)
    (hd : isWhitespace d = false) (cs : List Char) :
    collapseSpaces (c :: d :: cs) = ' ' :: collapseSpaces (d :: cs) := by
  rw [collapseSpaces, if_pos hc, hd]
  rfl

/-- A character that is no blank cuts the text in two that are collapsed apart. -/
theorem collapseSpaces_append {c : Char} (hc : isWhitespace c = false) (xs ys : List Char) :
    collapseSpaces (xs ++ c :: ys) = collapseSpaces xs ++ collapseSpaces (c :: ys) := by
  induction xs with
  | nil => rfl
  | cons x xs ih =>
    cases hx : isWhitespace x with
    | false =>
      rw [List.cons_append, collapseSpaces_ink hx, collapseSpaces_ink hx, ih]
      rfl
    | true =>
      cases xs with
      | nil =>
        rw [List.singleton_append, collapseSpaces_blank_ink hx hc, collapseSpaces_blank hx]
        rfl
      | cons d xs =>
        rw [List.cons_append] at ih
        rw [List.cons_append, List.cons_append]
        cases hd : isWhitespace d with
        | false =>
          rw [collapseSpaces_blank_ink hx hd, collapseSpaces_blank_ink hx hd, ih]
          rfl
        | true => rw [collapseSpaces_blank_blank hx hd, collapseSpaces_blank_blank hx hd, ih]

/-- A blank at the end adds at most one blank. -/
theorem collapseSpaces_concat_blank {b : Char} (hb : isWhitespace b = true) (xs : List Char) :
    collapseSpaces (xs ++ [b]) = collapseSpaces xs ∨
      collapseSpaces (xs ++ [b]) = collapseSpaces xs ++ [' '] := by
  induction xs with
  | nil => exact Or.inr (collapseSpaces_blank hb)
  | cons x xs ih =>
    cases hx : isWhitespace x with
    | false =>
      rw [List.cons_append, collapseSpaces_ink hx, collapseSpaces_ink hx]
      rcases ih with ih | ih
      · exact Or.inl (by rw [ih])
      · exact Or.inr (by rw [ih]; rfl)
    | true =>
      cases xs with
      | nil =>
        rw [List.singleton_append, collapseSpaces_blank_blank hx hb, collapseSpaces_blank hb,
          collapseSpaces_blank hx]
        exact Or.inl rfl
      | cons d xs =>
        rw [List.cons_append] at ih
        rw [List.cons_append, List.cons_append]
        cases hd : isWhitespace d with
        | false =>
          rw [collapseSpaces_blank_ink hx hd, collapseSpaces_blank_ink hx hd]
          rcases ih with ih | ih
          · exact Or.inl (by rw [ih])
          · exact Or.inr (by rw [ih]; rfl)
        | true =>
          rw [collapseSpaces_blank_blank hx hd, collapseSpaces_blank_blank hx hd]
          exact ih

/-- Blanks are plain ones, and no two of them stand together. -/
def Collapsed (cs : List Char) : Prop :=
  (∀ c ∈ cs, isWhitespace c = true → c = ' ') ∧
    cs.IsChain fun c d => isWhitespace c = false ∨ isWhitespace d = false

theorem Collapsed.ink {c : Char} (hc : isWhitespace c = false) {cs : List Char} (h : Collapsed cs) :
    Collapsed (c :: cs) := by
  refine ⟨fun d hd hblank => ?_, List.isChain_cons.2 ⟨fun d _ => Or.inl hc, h.2⟩⟩
  rcases List.mem_cons.1 hd with rfl | hd
  · rw [hc] at hblank
    cases hblank
  · exact h.1 d hd hblank

theorem collapsed_blank : Collapsed [' '] :=
  ⟨fun _ hd _ => List.mem_singleton.1 hd, List.isChain_singleton _⟩

theorem Collapsed.blank {c : Char} (hc : isWhitespace c = false) {cs : List Char}
    (h : Collapsed (c :: cs)) : Collapsed (' ' :: c :: cs) := by
  refine ⟨fun d hd hblank => ?_, List.isChain_cons_cons.2 ⟨Or.inr hc, h.2⟩⟩
  rcases List.mem_cons.1 hd with rfl | hd
  · rfl
  · exact h.1 d hd hblank

/-- What is collapsed is collapsed. -/
theorem collapsed_collapseSpaces (cs : List Char) : Collapsed (collapseSpaces cs) := by
  induction cs with
  | nil => exact ⟨fun _ hd => absurd hd List.not_mem_nil, List.isChain_nil⟩
  | cons c cs ih =>
    cases hc : isWhitespace c with
    | false =>
      rw [collapseSpaces_ink hc]
      exact ih.ink hc
    | true =>
      cases cs with
      | nil =>
        rw [collapseSpaces_blank hc]
        exact collapsed_blank
      | cons d cs =>
        cases hd : isWhitespace d with
        | false =>
          rw [collapseSpaces_ink hd] at ih
          rw [collapseSpaces_blank_ink hc hd, collapseSpaces_ink hd]
          exact ih.blank hd
        | true =>
          rw [collapseSpaces_blank_blank hc hd]
          exact ih

theorem Collapsed.part {cs ds : List Char} (h : Collapsed cs) (hin : ds <:+: cs) : Collapsed ds := by
  refine ⟨fun d hd => h.1 d (hin.subset hd), ?_⟩
  obtain ⟨xs, ys, rfl⟩ := hin
  exact (List.isChain_append.1 (List.isChain_append.1 h.2).1).2.1

/-- What is collapsed is not changed by collapsing it again. -/
theorem collapseSpaces_of_collapsed {cs : List Char} (h : Collapsed cs) : collapseSpaces cs = cs := by
  induction cs with
  | nil => rfl
  | cons c cs ih =>
    obtain ⟨hblank, hchain⟩ := h
    have htail : collapseSpaces cs = cs :=
      ih ⟨fun d hd => hblank d (List.mem_cons_of_mem c hd), hchain.tail⟩
    cases hc : isWhitespace c with
    | false => rw [collapseSpaces_ink hc, htail]
    | true =>
      have hsp : c = ' ' := hblank c List.mem_cons_self hc
      cases cs with
      | nil => rw [collapseSpaces_blank hc, hsp]
      | cons d cs =>
        have hd : isWhitespace d = false := (List.isChain_cons_cons.1 hchain).1.resolve_left (by rw [hc]; decide)
        rw [collapseSpaces_blank_ink hc hd, htail, hsp]

/-- Collapsing keeps every character that is no blank. -/
theorem countP_collapseSpaces (cs : List Char) :
    (collapseSpaces cs).countP (fun c => !isWhitespace c) = cs.countP fun c => !isWhitespace c := by
  induction cs with
  | nil => rfl
  | cons c cs ih =>
    cases hc : isWhitespace c with
    | false => rw [collapseSpaces_ink hc, List.countP_cons, List.countP_cons, ih]
    | true =>
      rw [List.countP_cons_of_neg (by rw [hc]; decide), ← ih]
      cases cs with
      | nil =>
        rw [collapseSpaces_blank hc]
        decide
      | cons d cs =>
        cases hd : isWhitespace d with
        | false => rw [collapseSpaces_blank_ink hc hd, List.countP_cons_of_neg (by decide)]
        | true => rw [collapseSpaces_blank_blank hc hd]

/-! ## What is left of a text -/

/-- The passes after the first one. -/
def tidy (cs : List Char) : List Char := trim (collapseSpaces (cs.filter isKeywordChar))

def lower (keyword : String) : List Char := keyword.toList.flatMap lowerChar

/-- How the keyword reads: in lower case, without the characters that the filter
takes away, the words one blank apart. -/
def reading (keyword : String) : List Char := tidy (lower keyword)

/-- The passes in two groups: the question ending is dropped from the lower-case text, and the
rest is tidied. Only the first group looks at the end of the text. -/
theorem normalizeKeyword_eq (keyword : String) :
    normalizeKeyword keyword = String.ofList (tidy (dropQuestionSuffix (lower keyword))) := by
  rw [normalizeKeyword]
  split
  · next hempty =>
    rw [hempty]
    decide
  · rfl

/-- A text that the passes after the first one have nothing to do on. -/
structure Tidy (cs : List Char) : Prop where
  kept : ∀ c ∈ cs, isKeywordChar c = true
  collapsed : Collapsed cs
  head : ∀ c ∈ cs.head?, isWhitespace c = false
  last : ∀ c ∈ cs.getLast?, isWhitespace c = false

theorem tidy_of_tidy {cs : List Char} (h : Tidy cs) : tidy cs = cs := by
  rw [tidy, List.filter_eq_self.2 h.kept, collapseSpaces_of_collapsed h.collapsed, trim]
  exact JsString.trimBy_eq_self h.head h.last

/-- Collapsing adds no character but the space. -/
theorem mem_collapseSpaces {c : Char} {cs : List Char} (h : c ∈ collapseSpaces cs) :
    c ∈ cs ∨ c = ' ' := by
  induction cs with
  | nil => cases h
  | cons d cs ih =>
    have htail : c ∈ collapseSpaces cs → c ∈ d :: cs ∨ c = ' ' := fun hc =>
      (ih hc).imp_left (List.mem_cons_of_mem d)
    cases hd : isWhitespace d with
    | false =>
      rw [collapseSpaces_ink hd] at h
      rcases List.mem_cons.1 h with rfl | h
      · exact Or.inl List.mem_cons_self
      · exact htail h
    | true =>
      cases cs with
      | nil =>
        rw [collapseSpaces_blank hd] at h
        exact Or.inr (List.mem_singleton.1 h)
      | cons e cs =>
        cases he : isWhitespace e with
        | false =>
          rw [collapseSpaces_blank_ink hd he] at h
          rcases List.mem_cons.1 h with rfl | h
          · exact Or.inr rfl
          · exact htail h
        | true =>
          rw [collapseSpaces_blank_blank hd he] at h
          exact htail h

theorem tidy_tidy (cs : List Char) : Tidy (tidy cs) := by
  have hin : tidy cs <:+: collapseSpaces (cs.filter isKeywordChar) := JsString.trimBy_isInfix _
  refine ⟨fun c hc => ?_, (collapsed_collapseSpaces _).part hin, JsString.head?_trimBy _,
    JsString.getLast?_trimBy _⟩
  rcases mem_collapseSpaces (hin.subset hc) with hmem | rfl
  · exact List.of_mem_filter hmem
  · decide

/-- What the filter takes away, or leaves as a blank, does not count at the end. -/
theorem tidy_append_of_blank {ds : List Char}
    (hds : ∀ d ∈ ds, isKeywordChar d = true → isWhitespace d = true) (cs : List Char) :
    tidy (cs ++ ds) = tidy cs := by
  induction ds using List.reverseRecOn with
  | nil => rw [List.append_nil]
  | append_singleton ds d ih =>
    rw [← ih fun d hd => hds d (List.mem_append_left _ hd), ← List.append_assoc, tidy, tidy,
      List.filter_append]
    cases hd : isKeywordChar d with
    | false => rw [List.filter_cons_of_neg (by rw [hd]; decide), List.filter_nil, List.append_nil]
    | true =>
      have hblank : isWhitespace d = true := hds d (List.mem_append_right _ (List.mem_singleton_self d)) hd
      rw [List.filter_cons_of_pos hd, List.filter_nil]
      rcases collapseSpaces_concat_blank hblank ((cs ++ ds).filter isKeywordChar) with h | h
      · rw [h]
      · rw [h, trim, trim, JsString.trimBy_concat (by decide)]

/-- A tidy end of a text is the end of what is left of it. -/
theorem tidy_append_of_tidy {ds : List Char} (h : Tidy ds) (cs : List Char) : ds <:+ tidy (cs ++ ds) := by
  cases ds with
  | nil => exact List.nil_suffix
  | cons d ds =>
    have hd : isWhitespace d = false := h.head d rfl
    rw [tidy, List.filter_append, List.filter_eq_self.2 h.kept, collapseSpaces_append hd,
      collapseSpaces_of_collapsed h.collapsed, trim,
      JsString.trimBy_append (List.cons_ne_nil d ds) h.head h.last]
    exact List.suffix_append _ _

def isInkChar (c : Char) : Bool := isKeywordChar c && !isWhitespace c

/-- What is left has the letters, digits and signs of the text, and no other ones. Counting
them is how a text is shown to have lost something. -/
theorem countP_tidy (cs : List Char) : (tidy cs).countP isInkChar = cs.countP isInkChar := by
  have hkept : (tidy cs).countP isInkChar = (tidy cs).countP fun c => !isWhitespace c := by
    refine List.countP_congr fun c hc => ?_
    rw [isInkChar, (tidy_tidy cs).kept c hc, Bool.true_and]
  rw [hkept, tidy, trim, JsString.countP_trimBy, countP_collapseSpaces, List.countP_filter]
  refine List.countP_congr fun c _ => ?_
  rw [isInkChar, Bool.and_comm]

/-! ## Lower case -/

/-- Lower case is its own lower case. -/
theorem toLower_toLower (c : Char) : c.toLower.toLower = c.toLower := by
  by_cases h : c.val ≥ 'A'.val ∧ c.val ≤ 'Z'.val
  · have hval : c.toLower.val = c.val + ('a'.val - 'A'.val) := congrArg Char.val (dif_pos h)
    have hnot : ¬ (c.toLower.val ≥ 'A'.val ∧ c.toLower.val ≤ 'Z'.val) := by
      rw [hval]
      rintro ⟨-, hle⟩
      have h1 := UInt32.le_iff_toNat_le.1 h.1
      have h2 := UInt32.le_iff_toNat_le.1 h.2
      have h3 := UInt32.le_iff_toNat_le.1 hle
      rw [UInt32.toNat_add] at h3
      change 65 ≤ c.val.toNat at h1
      change c.val.toNat ≤ 90 at h2
      change (c.val.toNat + 32) % 4294967296 ≤ 90 at h3
      omega
    exact dif_neg hnot
  · have hself : c.toLower = c := dif_neg h
    rw [hself, hself]

/-- A character in lower case that the filter keeps is its own lower case. -/
theorem lowerChar_self {c d : Char} (hc : c ∈ lowerChar d) (hkept : isKeywordChar c = true) :
    lowerChar c = [c] := by
  rw [lowerChar] at hc
  split at hc
  · rw [List.mem_singleton.1 hc]
    decide
  · split at hc
    · rcases List.mem_cons.1 hc with rfl | hc
      · decide
      · rw [List.mem_singleton.1 hc] at hkept
        exact absurd hkept (by decide)
    · have heq : c = d.toLower := List.mem_singleton.1 hc
      have hlower : c.toLower = c := by rw [heq, toLower_toLower]
      have hne : ∀ n, isKeywordChar (Char.ofNat n) = false → n.isValidChar → c.toNat ≠ n := by
        intro n hn _ hcn
        rw [← hcn, Char.ofNat_toNat, hkept] at hn
        cases hn
      rw [lowerChar, if_neg (hne 0x212A (by decide) (by decide)),
        if_neg (hne 0x130 (by decide) (by decide)), hlower]

theorem lower_eq_self {cs : List Char} (h : ∀ c ∈ cs, lowerChar c = [c]) :
    lower (String.ofList cs) = cs := by
  rw [lower, String.toList_ofList]
  calc cs.flatMap lowerChar = cs.flatMap fun c => [c] := List.flatMap_congr h
    _ = cs := by simp

theorem tidy_reading (keyword : String) : tidy (reading keyword) = reading keyword :=
  tidy_of_tidy (tidy_tidy (lower keyword))

theorem mem_tidy {c : Char} {cs : List Char} (h : c ∈ tidy cs) : c ∈ cs ∨ c = ' ' := by
  have hin : tidy cs <:+: collapseSpaces (cs.filter isKeywordChar) := JsString.trimBy_isInfix _
  exact (mem_collapseSpaces (hin.subset h)).imp_left List.mem_of_mem_filter

theorem lower_reading (keyword : String) :
    lower (String.ofList (reading keyword)) = reading keyword := by
  refine lower_eq_self fun c hc => ?_
  rcases mem_tidy hc with hmem | rfl
  · obtain ⟨d, -, hd⟩ := List.mem_flatMap.1 hmem
    exact lowerChar_self hd ((tidy_tidy _).kept c hc)
  · decide

/-! ## Question endings -/

/-- The text ends in one of the question endings. -/
def EndsInQuestion (cs : List Char) : Prop := ∃ suffix ∈ questionSuffixes, suffix.toList <:+ cs

theorem toList_questionSuffixes : questionSuffixes.map String.toList
    = [['에', ' ', '대', '해'],
      ['대', '해', '서'],
      ['알', '려', '줘'],
      ['뭐', '야'],
      ['무', '엇', '인', '가', '요'],
      ['검', '색', '해', '줘'],
      ['찾', '아', '줘'],
      ['설', '명', '해', '줘'],
      ['알', '려', '주', '세', '요']] := by
  rfl

/-- `Tidy` and not empty, as a test. -/
def isTidy (cs : List Char) : Bool :=
  cs.all isKeywordChar && collapseSpaces cs == cs && cs.head?.all (!isWhitespace ·) &&
    cs.getLast?.all (!isWhitespace ·) && cs.any isInkChar

theorem tidy_of_isTidy {cs : List Char} (h : isTidy cs = true) : Tidy cs ∧ 0 < cs.countP isInkChar := by
  simp only [isTidy, Bool.and_eq_true, List.all_eq_true, beq_iff_eq, List.any_eq_true] at h
  obtain ⟨⟨⟨⟨hkept, hcollapsed⟩, hhead⟩, hlast⟩, hink⟩ := h
  have hend : ∀ {o : Option Char}, o.all (!isWhitespace ·) = true → ∀ c ∈ o, isWhitespace c = false := by
    rintro o ho c rfl
    exact Bool.not_eq_true' _ ▸ ho
  exact ⟨⟨hkept, hcollapsed ▸ collapsed_collapseSpaces cs, hend hhead, hend hlast⟩,
    List.countP_pos_iff.2 hink⟩

/-- Each ending is tidy, and not blank. So tidying a text does not change an ending at its
end. -/
theorem tidy_questionSuffixes {suffix : String} (h : suffix ∈ questionSuffixes) :
    Tidy suffix.toList ∧ 0 < suffix.toList.countP isInkChar := by
  have hlist := List.mem_map_of_mem (f := String.toList) h
  rw [toList_questionSuffixes] at hlist
  simp only [List.mem_cons, List.not_mem_nil, or_false] at hlist
  rcases hlist with h | h | h | h | h | h | h | h | h <;> rw [h] <;>
    exact tidy_of_isTidy (by decide)

theorem dropQuestionSuffix_of_not {cs : List Char} (h : ¬ EndsInQuestion cs) :
    dropQuestionSuffix cs = cs := by
  rw [dropQuestionSuffix]
  split
  · next suffix hfind =>
    have hends := List.find?_some hfind
    exact absurd ⟨suffix, List.mem_of_find?_eq_some hfind, List.isSuffixOf_iff_suffix.1 hends⟩ h
  · rfl

/-- Otherwise one ending is, which stood at the very end. -/
theorem dropQuestionSuffix_of_ends {cs : List Char} (h : EndsInQuestion cs) :
    ∃ suffix ∈ questionSuffixes, cs = dropQuestionSuffix cs ++ suffix.toList := by
  rw [dropQuestionSuffix]
  split
  · next suffix hfind =>
    have hends := List.find?_some hfind
    obtain ⟨xs, hxs⟩ := List.isSuffixOf_iff_suffix.1 hends
    refine ⟨suffix, List.mem_of_find?_eq_some hfind, ?_⟩
    rw [← hxs, List.length_append, Nat.add_sub_cancel, List.take_left]
  · next hnone =>
    obtain ⟨suffix, hmem, hsuffix⟩ := h
    exact absurd (List.isSuffixOf_iff_suffix.2 hsuffix) (List.find?_eq_none.1 hnone suffix hmem)

/-- Dropping an ending takes letters away, so the result is another text whatever the later
passes do. -/
theorem tidy_dropQuestionSuffix_ne {cs : List Char} (h : EndsInQuestion cs) :
    tidy (dropQuestionSuffix cs) ≠ tidy cs := by
  obtain ⟨suffix, hmem, hcs⟩ := dropQuestionSuffix_of_ends h
  intro heq
  have hcount := congrArg (List.countP isInkChar) heq
  rw [countP_tidy, countP_tidy] at hcount
  conv_rhs at hcount => rw [hcs, List.countP_append]
  have hpos := (tidy_questionSuffixes hmem).2
  omega

/-- An ending of the text is an ending of what is left of it. The converse is what fails: a
question mark behind the ending goes away later. -/
theorem EndsInQuestion.tidy {cs : List Char} (h : EndsInQuestion cs) : EndsInQuestion (tidy cs) := by
  obtain ⟨suffix, hmem, xs, rfl⟩ := h
  exact ⟨suffix, hmem, tidy_append_of_tidy (tidy_questionSuffixes hmem).1 xs⟩

/-! ## Characters that do not count -/

/-- A character of which the filter leaves nothing but blanks. -/
def isDiscarded (c : Char) : Bool := (lowerChar c).all fun d => !isKeywordChar d || isWhitespace d

theorem blank_of_isDiscarded {ds : List Char} (h : ∀ c ∈ ds, isDiscarded c = true) :
    ∀ d ∈ ds.flatMap lowerChar, isKeywordChar d = true → isWhitespace d = true := by
  intro d hd hkept
  obtain ⟨c, hc, hdc⟩ := List.mem_flatMap.1 hd
  have hall := List.all_eq_true.1 (h c hc) d hdc
  rwa [hkept, Bool.not_true, Bool.false_or] at hall

/-- Behind such characters no ending stands at the end: the endings are made of letters, and
the pattern has `$`. -/
theorem not_endsInQuestion_append {cs ds : List Char} (hne : ds ≠ [])
    (hds : ∀ d ∈ ds, isKeywordChar d = true → isWhitespace d = true) : ¬ EndsInQuestion (cs ++ ds) := by
  rintro ⟨suffix, hmem, hsuffix⟩
  obtain ⟨htidy, hpos⟩ := tidy_questionSuffixes hmem
  have hsne : suffix.toList ≠ [] := by
    intro hnil
    rw [hnil] at hpos
    cases hpos
  obtain ⟨xs, hxs⟩ := hsuffix
  have hlast : suffix.toList.getLast? = ds.getLast? := by
    rw [← List.getLast?_append_of_ne_nil xs hsne, hxs, List.getLast?_append_of_ne_nil cs hne]
  obtain ⟨d, hd⟩ := Option.isSome_iff_exists.1 (List.getLast?_isSome.2 hne)
  rw [hd] at hlast
  have hkept := htidy.kept d (List.mem_of_getLast? hlast)
  have hink := htidy.last d hlast
  rw [hds d (List.mem_of_getLast? hd) hkept] at hink
  cases hink

/-! ## When the keyword is canonical -/

theorem lower_append (keyword : String) (ds : List Char) :
    lower (keyword ++ String.ofList ds) = lower keyword ++ ds.flatMap lowerChar := by
  rw [lower, String.toList_append, String.toList_ofList, List.flatMap_append]
  rfl

theorem lowerChar_ne_nil (c : Char) : lowerChar c ≠ [] := by
  rw [lowerChar]
  split
  · exact List.cons_ne_nil _ _
  · split <;> exact List.cons_ne_nil _ _

/-- With something that does not count behind it, the keyword keeps its ending. -/
theorem normalizeKeyword_append {ds : List Char} (hne : ds ≠ []) (h : ∀ c ∈ ds, isDiscarded c = true)
    (keyword : String) :
    normalizeKeyword (keyword ++ String.ofList ds) = String.ofList (reading keyword) := by
  have hblank := blank_of_isDiscarded h
  have hlower : ds.flatMap lowerChar ≠ [] := by
    cases ds with
    | nil => exact absurd rfl hne
    | cons d ds =>
      rw [List.flatMap_cons]
      exact List.append_ne_nil_of_left_ne_nil (lowerChar_ne_nil d) _
  rw [normalizeKeyword_eq, lower_append,
    dropQuestionSuffix_of_not (not_endsInQuestion_append hlower hblank), tidy_append_of_blank hblank,
    reading]

theorem normalizeKeyword_of_not_ends {keyword : String} (h : ¬ EndsInQuestion (reading keyword)) :
    normalizeKeyword keyword = String.ofList (reading keyword) := by
  have hlower : ¬ EndsInQuestion (lower keyword) := fun hends => h hends.tidy
  rw [normalizeKeyword_eq, dropQuestionSuffix_of_not hlower, reading]

/-- A second run on what the keyword reads drops an ending that is left. The first run saw it
only if nothing stood behind it. -/
theorem normalizeKeyword_reading (keyword : String) :
    normalizeKeyword (String.ofList (reading keyword))
      = String.ofList (tidy (dropQuestionSuffix (reading keyword))) := by
  rw [normalizeKeyword_eq, lower_reading]

/-- Normalization is canonical for exactly the keywords that do not read as ending
in a question: it is then idempotent, and nothing that it discards matters behind
the keyword. -/
theorem normalizeKeyword_canonical_iff (keyword : String) :
    (normalizeKeyword (normalizeKeyword keyword) = normalizeKeyword keyword ∧
      ∀ ds : List Char, (∀ c ∈ ds, isDiscarded c = true) →
        normalizeKeyword (keyword ++ String.ofList ds) = normalizeKeyword keyword) ↔
      ¬ EndsInQuestion (reading keyword) := by
  constructor
  · rintro ⟨hidem, happend⟩ hends
    -- a question mark behind the keyword keeps the first pass from dropping anything
    have hmark : ∀ c ∈ ['?'], isDiscarded c = true := List.all_eq_true.1 (by decide)
    have hreading := happend ['?'] hmark
    rw [normalizeKeyword_append (List.cons_ne_nil _ _) hmark] at hreading
    rw [← hreading, normalizeKeyword_reading] at hidem
    refine tidy_dropQuestionSuffix_ne hends ?_
    rw [tidy_reading]
    exact String.ofList_injective hidem
  · intro hends
    have hself := normalizeKeyword_of_not_ends hends
    refine ⟨?_, fun ds hds => ?_⟩
    · rw [hself, normalizeKeyword_reading, dropQuestionSuffix_of_not hends,
        tidy_reading]
    · by_cases hne : ds = []
      · rw [hne]
        exact congrArg normalizeKeyword String.append_empty
      · rw [normalizeKeyword_append hne hds, hself]

/-- A question with its mark: the first run leaves an ending that the second one drops. -/
theorem normalizeKeyword_question_mark :
    normalizeKeyword (normalizeKeyword "redis 알려줘?") ≠ normalizeKeyword "redis 알려줘?" := by
  decide +kernel

end AiService

end TechTrends
