/-
`sanitizeAndFilter` and surrogate pairs.

No pass splits a pair: each match begins and ends with a sign, a blank or a whole emoji.
The cut at the end is made at a unit, wherever that is.
-/
import TechTrends.SurrogatePairs
import TechTrends.TextPatterns

set_option autoImplicit false

namespace TechTrends

namespace TextUtil

open JsString

/-! ## The passes -/

section Passes

/-- A match that ends with a unit that is no high surrogate leaves a valid rest. -/
theorem pairedFrom_drop_of_append {us seg rest : Units} {n : ℕ} (h : pairedFrom false us = true)
    (hus : us = seg ++ rest) (hn : seg.length = n) (hne : seg ≠ [])
    (hlast : ∀ u ∈ seg.getLast?, isHighSurrogate u = false) : pairedFrom false (us.drop n) = true := by
  subst hus hn
  rw [List.drop_left]
  exact pairedFrom_right h hne hlast

theorem getLast?_append_linkTail (before label url : Units) :
    (before ++ linkTail label url).getLast? = some (unit ')') := by
  have htail : before ++ linkTail label url = before ++ (label ++ (utf16 "](" ++ url)) ++ [unit ')'] := by
    rw [linkTail]
    simp only [List.append_assoc]
  rw [htail, List.getLast?_concat]

/-- The passes one by one: an image begins and ends with a sign. -/
theorem pairSafe_matchImage : PairSafe matchImage where
  start b u us r k h := by
    cases us with
    | nil => cases h
    | cons v us =>
      obtain ⟨hsign, -⟩ := Option.ite_none_right_eq_some.1 h
      rw [hsign.1]
      decide
  rest b us r k h hus := by
    cases us with
    | nil => cases h
    | cons u us =>
      cases us with
      | nil => cases h
      | cons v us =>
        obtain ⟨-, hmap⟩ := Option.ite_none_right_eq_some.1 h
        obtain ⟨⟨label, n⟩, hbody, hmatch⟩ := Option.map_eq_some_iff.1 hmap
        obtain ⟨rfl, hlen⟩ := Prod.mk.inj hmatch
        obtain ⟨url, rest, rfl, rfl⟩ := linkBody_spec hbody
        have htext : u :: v :: (linkTail label url ++ rest) = ([u, v] ++ linkTail label url) ++ rest := rfl
        refine ⟨rfl, pairedFrom_drop_of_append hus htext ?_ ?_ ?_⟩
        · rw [← hlen, List.length_append, Nat.add_comm]
          rfl
        · exact List.append_ne_nil_of_left_ne_nil (List.cons_ne_nil _ _) _
        · rw [getLast?_append_linkTail]
          rintro w ⟨⟩
          decide

/-- A link too, and the label that stays is a part of it between signs. -/
theorem pairSafe_matchLink : PairSafe matchLink where
  start b u us r k h := by
    obtain ⟨hsign, -⟩ := Option.ite_none_right_eq_some.1 h
    rw [hsign]
    decide
  rest b us r k h hus := by
    cases us with
    | nil => cases h
    | cons u us =>
      obtain ⟨hsign, hmap⟩ := Option.ite_none_right_eq_some.1 h
      obtain ⟨⟨label, n⟩, hbody, hmatch⟩ := Option.map_eq_some_iff.1 hmap
      obtain ⟨rfl, hlen⟩ := Prod.mk.inj hmatch
      obtain ⟨url, rest, rfl, rfl⟩ := linkBody_spec hbody
      have htext : u :: (linkTail label url ++ rest) = ([u] ++ linkTail label url) ++ rest := rfl
      refine ⟨?_, pairedFrom_drop_of_append hus htext ?_ ?_ ?_⟩
      · -- the label stands between two brackets
        have hlabel := (pairedFrom_cons.1 hus).2
        rw [hsign, linkTail, List.append_assoc] at hlabel
        refine pairedFrom_left hlabel ?_
        rintro w ⟨⟩
        decide
      · rw [← hlen, List.length_append, Nat.add_comm]
        rfl
      · exact List.append_ne_nil_of_left_ne_nil (List.cons_ne_nil _ _) _
      · rw [getLast?_append_linkTail]
        rintro w ⟨⟩
        decide

/-- What a match of a code block is. -/
theorem matchCodeBlock_spec {b : Option UInt16} {us r : Units} {n : ℕ}
    (h : matchCodeBlock b us = some (r, n)) : r = utf16 "[코드 블록 생략]" ∧
      ∃ code rest, us = fence ++ (code ++ (fence ++ rest)) ∧ n = (fence ++ (code ++ fence)).length := by
  rw [matchCodeBlock] at h
  obtain ⟨hfence, hmap⟩ := Option.ite_none_right_eq_some.1 h
  obtain ⟨code, hcode, hmatch⟩ := Option.map_eq_some_iff.1 hmap
  obtain ⟨rfl, rfl⟩ := Prod.mk.inj hmatch
  obtain ⟨behind, hbehind⟩ := List.isPrefixOf_iff_prefix.1 hfence
  obtain ⟨rest, hrest⟩ := lazyAny_spec hcode
  refine ⟨rfl, code, rest, ?_, ?_⟩
  · rw [← hbehind] at hrest ⊢
    rw [show (List.replicate 3 (UInt16.ofNat 0x60) ++ behind).drop 3 = behind from rfl] at hrest
    rw [hrest]
    rfl
  · rw [List.length_append, List.length_append]
    show code.length + 6 = 3 + (code.length + 3)
    omega

/-- A code block begins and ends with a fence. -/
theorem pairSafe_matchCodeBlock : PairSafe matchCodeBlock where
  start b u us r k h := by
    obtain ⟨-, code, rest, hus, -⟩ := matchCodeBlock_spec h
    rw [(List.cons_eq_cons.1 hus).1]
    decide
  rest b us r k h hus := by
    obtain ⟨rfl, code, rest, htext, hlen⟩ := matchCodeBlock_spec h
    have hsplit : us = (fence ++ (code ++ fence)) ++ rest := by
      rw [htext]
      simp only [List.append_assoc]
    refine ⟨by decide, pairedFrom_drop_of_append hus hsplit hlen.symm ?_ ?_⟩
    · exact List.append_ne_nil_of_left_ne_nil (by decide) _
    · rw [← List.append_assoc, List.getLast?_append_of_ne_nil _ (by decide)]
      rintro w ⟨⟩
      decide

/-- A tag ends with its `>` or with the text, which does not end inside of a pair. -/
theorem pairSafe_matchTag : PairSafe matchTag where
  start b u us r k h := by
    obtain ⟨hsign, -⟩ := Option.ite_none_right_eq_some.1 h
    rw [hsign]
    decide
  rest b us r k h hus := by
    refine ⟨by rw [matchTag_replacement h]; rfl, ?_⟩
    cases us with
    | nil => cases h
    | cons u us =>
      obtain ⟨-, hmatch⟩ := Option.ite_none_right_eq_some.1 h
      have hlen := (Prod.mk.inj (Option.some.inj hmatch)).2
      have hsplit := List.takeWhile_append_dropWhile (p := fun w => decide (w ≠ unit '>')) (l := us)
      cases hrest : us.dropWhile fun w => decide (w ≠ unit '>') with
      | nil =>
        -- the tag goes to the end of the text
        rw [hrest, List.append_nil] at hsplit
        rw [hsplit, if_neg (Nat.lt_irrefl _)] at hlen
        rw [List.drop_eq_nil_of_le (by rw [List.length_cons]; omega)]
        rfl
      | cons w rest =>
        have hw : w = unit '>' := by
          have hnot := List.head?_dropWhile_not (fun w => decide (w ≠ unit '>')) us
          rw [hrest] at hnot
          simpa using hnot
        rw [hrest, hw] at hsplit
        have hlt : (us.takeWhile fun w => decide (w ≠ unit '>')).length < us.length := by
          have hlength := congrArg List.length hsplit
          rw [List.length_append, List.length_cons] at hlength
          omega
        rw [if_pos hlt] at hlen
        have htext : u :: us =
            (u :: ((us.takeWhile fun w => decide (w ≠ unit '>')) ++ [unit '>'])) ++ rest := by
          rw [List.cons_append, List.append_assoc, List.singleton_append, hsplit]
        -- the tag ends with `>`, and no pair is cut behind it
        refine pairedFrom_drop_of_append hus htext ?_ (List.cons_ne_nil _ _) ?_
        · rw [List.length_cons, List.length_append, List.length_singleton]
          omega
        · rw [← List.cons_append, List.getLast?_concat]
          rintro v ⟨⟩
          decide

/-! ### Passes that remove signs and blanks -/

theorem isSurrogate_of_whitespace {u : UInt16} (h : isWhitespaceUnit u = true) : isSurrogate u = false := by
  simp only [isWhitespaceUnit, isWhitespaceCode, Bool.or_eq_true, Bool.and_eq_true, decide_eq_true_eq,
    beq_iff_eq] at h
  simp only [isSurrogate, isHighSurrogate, isLowSurrogate, Bool.or_eq_false_iff, Bool.and_eq_false_iff,
    decide_eq_false_iff_not]
  omega

/-- A matcher of units that are no surrogates. -/
theorem pairSafe_of_units {m : Option UInt16 → Units → Option (Units × ℕ)}
    (hm : ∀ b us r n, m b us = some (r, n) →
      wellFormed r = true ∧ ∀ u ∈ us.take n, isSurrogate u = false) : PairSafe m where
  start b u us r k h := by
    have hunits := (hm b (u :: us) r (k + 1) h).2
    exact (surrogate_false (hunits u List.mem_cons_self)).2
  rest b us r k h hus := by
    obtain ⟨hr, hunits⟩ := hm b us r (k + 1) h
    refine ⟨hr, ?_⟩
    by_cases hne : us = []
    · rw [hne, List.drop_nil]
      rfl
    · exact pairedFrom_drop hus (Nat.succ_ne_zero k) hne hunits

theorem forall_take_add {P : UInt16 → Prop} {us : Units} {m n : ℕ} (hm : ∀ u ∈ us.take m, P u)
    (hn : ∀ u ∈ (us.drop m).take n, P u) : ∀ u ∈ us.take (m + n), P u := by
  rw [List.take_add]
  intro u hu
  rcases List.mem_append.1 hu with hu | hu
  · exact hm u hu
  · exact hn u hu

theorem mem_take_takeWhile {p : UInt16 → Bool} {us : Units} {u : UInt16}
    (h : u ∈ us.take (us.takeWhile p).length) : p u = true := by
  rw [← List.prefix_iff_eq_take.1 (List.takeWhile_prefix p)] at h
  exact List.mem_takeWhile_imp h

/-- An optional sign is that sign. -/
theorem mem_take_optional {u v : UInt16} {us : Units} (h : v ∈ us.take (optional u us)) : v = u := by
  unfold optional at h
  split at h
  · next hhead =>
    cases us with
    | nil => cases h
    | cons w us =>
      rw [List.mem_singleton.1 h]
      exact Option.some.inj hhead
  · cases h

theorem isSurrogate_of_eq_char {u : UInt16} {c : Char} (hc : isSurrogate (unit c) = false) (h : u = unit c) :
    isSurrogate u = false := h ▸ hc

/-- The rule of a table is made of signs and blanks. -/
theorem pairSafe_matchTableRule : PairSafe matchTableRule := by
  refine pairSafe_of_units fun b us r n h => ⟨by rw [matchTableRule_replacement h]; rfl, ?_⟩
  rw [matchTableRule] at h
  dsimp only at h
  split at h
  · next u rest hrest =>
    obtain ⟨hcolon, h⟩ := Option.ite_none_right_eq_some.1 h
    split at h
    · cases h
    · obtain ⟨-, rfl⟩ := Prod.mk.inj (Option.some.inj h)
      -- the parts of the pattern, one after the other
      generalize hbar : optional (unit '|') us = bar at *
      generalize hspaces : ((us.drop bar).takeWhile isWhitespaceUnit).length = spaces at *
      have hone : us.drop (bar + spaces) = u :: rest := by rw [← List.drop_drop, hrest]
      have hrest' : us.drop (bar + spaces + 1) = rest := by
        rw [← List.drop_drop, hone]
        rfl
      refine forall_take_add (forall_take_add (forall_take_add (forall_take_add (forall_take_add
        (forall_take_add ?_ ?_) ?_) ?_) ?_) ?_) ?_
      · subst hbar
        exact fun v hv => isSurrogate_of_eq_char (by decide) (mem_take_optional hv)
      · subst hspaces
        exact fun v hv => isSurrogate_of_whitespace (mem_take_takeWhile hv)
      · rw [hone]
        intro v hv
        rw [List.mem_singleton.1 hv]
        exact isSurrogate_of_eq_char (by decide) hcolon
      · rw [hrest']
        exact fun v hv => isSurrogate_of_eq_char (by decide) (of_decide_eq_true (mem_take_takeWhile hv))
      · rw [← List.drop_drop, hrest']
        exact fun v hv => isSurrogate_of_eq_char (by decide) (mem_take_optional hv)
      · rw [← List.drop_drop, ← List.drop_drop, hrest']
        exact fun v hv => isSurrogate_of_whitespace (mem_take_takeWhile hv)
      · rw [← List.drop_drop, ← List.drop_drop, ← List.drop_drop, hrest']
        exact fun v hv => isSurrogate_of_eq_char (by decide) (mem_take_optional hv)
  · cases h

theorem pairSafe_matchRule : PairSafe matchRule := by
  refine pairSafe_of_units fun b us r n h => ⟨by rw [matchRule_replacement h]; rfl, ?_⟩
  rw [matchRule] at h
  obtain ⟨-, h⟩ := Option.ite_none_right_eq_some.1 h
  obtain ⟨-, rfl⟩ := Prod.mk.inj (Option.some.inj h)
  exact fun v hv => isSurrogate_of_eq_char (by decide) (of_decide_eq_true (mem_take_takeWhile hv))

/-- Blank lines are made of white space. -/
theorem pairSafe_matchBlankLines : PairSafe matchBlankLines := by
  refine pairSafe_of_units fun b us r n h => ⟨by rw [matchBlankLines_replacement h]; decide, ?_⟩
  cases us with
  | nil => cases h
  | cons u us =>
    obtain ⟨hsign, h⟩ := Option.ite_none_right_eq_some.1 h
    obtain ⟨-, h⟩ := Option.ite_none_left_eq_some.1 h
    obtain ⟨-, rfl⟩ := Prod.mk.inj (Option.some.inj h)
    rw [Nat.add_comm, List.take_succ_cons]
    intro v hv
    rcases List.mem_cons.1 hv with rfl | hv
    · exact isSurrogate_of_eq_char (by decide) hsign
    · refine isSurrogate_of_whitespace (mem_take_takeWhile (List.take_subset_take_left _ ?_ hv))
      exact (List.dropWhile_suffix _).length_le.trans (Nat.le_of_eq (List.length_reverse))

/-! ### Emoji -/

theorem isSurrogate_of_emoji {u : UInt16} (h : isEmoji u.toNat = true) : isSurrogate u = false := by
  simp only [isEmoji, Bool.or_eq_true, Bool.and_eq_true, decide_eq_true_eq] at h
  simp only [isSurrogate, isHighSurrogate, isLowSurrogate, Bool.or_eq_false_iff, Bool.and_eq_false_iff,
    decide_eq_false_iff_not]
  have hlt := u.toNat_lt
  omega

/-- An emoji is a pair, or one unit that is no surrogate. -/
theorem matchEmoji_cases {b : Option UInt16} {u : UInt16} {us r : Units} {n : ℕ}
    (h : matchEmoji b (u :: us) = some (r, n)) :
    (n = 1 ∧ isSurrogate u = false) ∨
      n = 2 ∧ isHighSurrogate u = true ∧ ∃ v rest, us = v :: rest ∧ isLowSurrogate v = true := by
  have hone : ∀ {k : ℕ}, (if isEmoji u.toNat then some (([] : Units), k) else none) = some (r, n) →
      k = n ∧ isSurrogate u = false := by
    intro k hk
    obtain ⟨hemoji, hk⟩ := Option.ite_none_right_eq_some.1 hk
    exact ⟨(Prod.mk.inj (Option.some.inj hk)).2, isSurrogate_of_emoji hemoji⟩
  cases us with
  | nil =>
    obtain ⟨rfl, hu⟩ := hone h
    exact Or.inl ⟨rfl, hu⟩
  | cons v rest =>
    rw [matchEmoji] at h
    split at h
    · next hpair =>
      obtain ⟨-, h⟩ := Option.ite_none_right_eq_some.1 h
      obtain ⟨-, rfl⟩ := Prod.mk.inj (Option.some.inj h)
      refine Or.inr ⟨rfl, ?_, v, rest, rfl, ?_⟩
      · rw [isHighSurrogate, Bool.and_eq_true, decide_eq_true_eq, decide_eq_true_eq]
        omega
      · rw [isLowSurrogate, Bool.and_eq_true, decide_eq_true_eq, decide_eq_true_eq]
        omega
    · obtain ⟨rfl, hu⟩ := hone h
      exact Or.inl ⟨rfl, hu⟩

theorem isLowSurrogate_of_high {u : UInt16} (h : isHighSurrogate u = true) : isLowSurrogate u = false := by
  by_contra hlow
  rw [isHighSurrogate_of_low (Bool.not_eq_false _ ▸ hlow)] at h
  cases h

/-- An emoji of two units is a whole pair. -/
theorem pairSafe_matchEmoji : PairSafe matchEmoji where
  start b u us r k h := by
    rcases matchEmoji_cases h with ⟨-, hu⟩ | ⟨-, hu, -⟩
    · exact (surrogate_false hu).2
    · exact isLowSurrogate_of_high hu
  rest b us r k h hus := by
    refine ⟨by rw [matchEmoji_replacement h]; rfl, ?_⟩
    cases us with
    | nil => cases h
    | cons u us =>
      -- one unit goes, or a pair with both its halves
      rcases matchEmoji_cases h with ⟨hlen, hu⟩ | ⟨hlen, hu, v, rest, rfl, hv⟩
      · rw [hlen]
        refine pairedFrom_drop hus (by decide) (List.cons_ne_nil _ _) fun w hw => ?_
        rw [List.mem_singleton.1 hw]
        exact hu
      · rw [hlen]
        have hrest := (pairedFrom_cons.1 (pairedFrom_cons.1 hus).2).2
        rwa [isHighSurrogate_of_low hv] at hrest

end Passes

/-! ## The cut -/

/-- The text that is left to be cut: after the eight passes, and trimmed. -/
def cleaned (markdown : Units) : Units :=
  trimUnits <|
  replace matchBlankLines <|
  replace matchEmoji <|
  replace matchRule <|
  replace matchTableRule <|
  replace matchTag <|
  replace matchCodeBlock <|
  replace matchLink <|
  replace matchImage markdown

theorem sanitizeAndFilter_eq (markdown : Units) (limit : ℕ) : sanitizeAndFilter markdown limit =
    if limit < (cleaned markdown).length then (cleaned markdown).take limit ++ utf16 "..."
    else cleaned markdown := by
  rw [sanitizeAndFilter]
  split
  · next hempty =>
    subst hempty
    rfl
  · rfl

/-- No pass leaves an unpaired surrogate. -/
theorem wellFormed_cleaned {markdown : Units} (h : wellFormed markdown = true) :
    wellFormed (cleaned markdown) = true := by
  refine wellFormed_trimBy (fun u hu => isSurrogate_of_whitespace hu) ?_
  exact wellFormed_replace pairSafe_matchBlankLines <| wellFormed_replace pairSafe_matchEmoji <|
    wellFormed_replace pairSafe_matchRule <| wellFormed_replace pairSafe_matchTableRule <|
    wellFormed_replace pairSafe_matchTag <| wellFormed_replace pairSafe_matchCodeBlock <|
    wellFormed_replace pairSafe_matchLink <| wellFormed_replace pairSafe_matchImage h

/-- A cut at the limit falls behind the first half of a pair. -/
def splitsPair (text : Units) (limit : ℕ) : Bool := (text.take limit).getLast?.any isHighSurrogate

/-- A valid text is cut between characters exactly when what is left is valid. -/
theorem splitsPair_eq_false_iff {text : Units} {limit : ℕ} (h : wellFormed text = true) :
    splitsPair text limit = false ↔ wellFormed (text.take limit) = true := by
  have hlast : splitsPair text limit = false ↔
      ∀ u ∈ (text.take limit).getLast?, isHighSurrogate u = false := by
    rw [splitsPair]
    cases (text.take limit).getLast? <;> simp
  rw [hlast]
  by_cases hne : text.take limit = []
  · rw [hne]
    simp [wellFormed, pairedFrom]
  · rw [← List.take_append_drop limit text] at h
    exact (pairedFrom_prefix_iff h hne).symm

theorem wellFormed_append_dots {us : Units} :
    wellFormed (us ++ utf16 "...") = true ↔ wellFormed us = true := by
  constructor
  · intro h
    refine pairedFrom_left h ?_
    rintro v ⟨⟩
    decide
  · intro h
    exact pairedFrom_append h (by decide)

/-- **When a shortened text is valid.** For a valid text the result has at most three units
more than the limit and is the beginning of the cleaned text with three dots when that is
longer; it is valid exactly when the cut does not fall inside of a pair. -/
theorem sanitizeAndFilter_wellFormed_iff (markdown : Units) (limit : ℕ) (h : wellFormed markdown = true) :
    (wellFormed (sanitizeAndFilter markdown limit) = true ∧
      (sanitizeAndFilter markdown limit).length ≤ limit + 3 ∧
      (limit < (cleaned markdown).length →
        ∃ start, start <+: cleaned markdown ∧ sanitizeAndFilter markdown limit = start ++ utf16 "...")) ↔
      splitsPair (cleaned markdown) limit = false := by
  have hcleaned := wellFormed_cleaned h
  rw [splitsPair_eq_false_iff hcleaned, sanitizeAndFilter_eq]
  by_cases hlong : limit < (cleaned markdown).length
  · rw [if_pos hlong, wellFormed_append_dots]
    refine ⟨fun hresult => hresult.1, fun hcut => ⟨hcut, ?_, fun _ => ⟨_, List.take_prefix _ _, rfl⟩⟩⟩
    rw [List.length_append, List.length_take]
    show min limit (cleaned markdown).length + 3 ≤ limit + 3
    omega
  · rw [if_neg hlong, List.take_of_length_le (Nat.le_of_not_lt hlong)]
    exact iff_of_true ⟨hcleaned, by omega, fun h => absurd h hlong⟩ hcleaned

/-- Four letters and a face, cut behind the letters. -/
theorem sanitizeAndFilter_wellFormed_iff_letters :
    (wellFormed (sanitizeAndFilter (utf16 "Lean🤔") 4) = true ∧
      (sanitizeAndFilter (utf16 "Lean🤔") 4).length ≤ 4 + 3 ∧
      (4 < (cleaned (utf16 "Lean🤔")).length → ∃ start, start <+: cleaned (utf16 "Lean🤔") ∧
        sanitizeAndFilter (utf16 "Lean🤔") 4 = start ++ utf16 "...")) ↔
      splitsPair (cleaned (utf16 "Lean🤔")) 4 = false :=
  sanitizeAndFilter_wellFormed_iff (utf16 "Lean🤔") 4 (by decide)

/-- One unit further the face is cut in two. -/
theorem sanitizeAndFilter_splits_face :
    wellFormed (utf16 "Lean🤔") = true ∧
      wellFormed (sanitizeAndFilter (utf16 "Lean🤔") 5) = false := by
  refine ⟨by decide, ?_⟩
  decide +kernel

end TextUtil

end TechTrends
