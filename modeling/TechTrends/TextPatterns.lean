/-
What the patterns of `sanitizeAndFilter` match.

The matchers resolve the lazy parts by a search. Said as decompositions of the text they
are what the regular expressions say, and a lazy part is the shortest one there is.
-/
import TechTrends.LiteralSigns

set_option autoImplicit false

namespace TechTrends

namespace TextUtil

open JsString

/-! ## Lazy parts -/

section Lazy

variable {stop us part : Units}

/-- What a lazy part on one line finds: the part, the stop behind it, and no line end in the
part. -/
theorem lazyLine_spec (h : lazyLine stop us = some part) :
    (∃ rest, us = part ++ (stop ++ rest)) ∧ ∀ u ∈ part, isLineTerminator u = false := by
  induction us generalizing part with
  | nil =>
    rw [lazyLine] at h
    split at h
    · next hstop =>
      obtain rfl := Option.some.inj h
      exact ⟨⟨[], by rw [hstop]; rfl⟩, by simp⟩
    · cases h
  | cons u us ih =>
    rw [lazyLine] at h
    split at h
    · next hprefix =>
      obtain rfl := Option.some.inj h
      obtain ⟨rest, hrest⟩ := List.isPrefixOf_iff_prefix.1 hprefix
      exact ⟨⟨rest, hrest.symm⟩, by simp⟩
    · split at h
      · cases h
      · next hline =>
        obtain ⟨tail, htail, rfl⟩ := Option.map_eq_some_iff.1 h
        obtain ⟨⟨rest, hrest⟩, hunits⟩ := ih htail
        refine ⟨⟨rest, by rw [hrest]; rfl⟩, fun v hv => ?_⟩
        rcases List.mem_cons.1 hv with rfl | hv
        · exact Bool.not_eq_true _ ▸ hline
        · exact hunits v hv

/-- The part is the shortest one: the stop does not stand earlier. -/
theorem lazyLine_min (h : lazyLine stop us = some part) : ∀ j < part.length, ¬ stop <+: us.drop j := by
  induction us generalizing part with
  | nil =>
    rw [lazyLine] at h
    split at h
    · obtain rfl := Option.some.inj h
      exact fun j hj => absurd hj (Nat.not_lt_zero j)
    · cases h
  | cons u us ih =>
    rw [lazyLine] at h
    split at h
    · obtain rfl := Option.some.inj h
      exact fun j hj => absurd hj (Nat.not_lt_zero j)
    · next hprefix =>
      split at h
      · cases h
      · obtain ⟨tail, htail, rfl⟩ := Option.map_eq_some_iff.1 h
        intro j hj
        cases j with
        | zero => exact fun hstop => hprefix (List.isPrefixOf_iff_prefix.2 hstop)
        | succ j => exact ih htail j (Nat.lt_of_succ_lt_succ hj)

/-- On a line with the stop the search succeeds, and it stops there at the latest. -/
theorem lazyLine_exists {before rest : Units} (hline : ∀ u ∈ before, isLineTerminator u = false)
    (h : us = before ++ (stop ++ rest)) :
    ∃ found, lazyLine stop us = some found ∧ found.length ≤ before.length := by
  induction before generalizing us with
  | nil =>
    rw [List.nil_append] at h
    have hprefix : stop.isPrefixOf us = true := List.isPrefixOf_iff_prefix.2 ⟨rest, h.symm⟩
    cases us with
    | nil =>
      have hstop : stop = [] := (List.append_eq_nil_iff.1 h.symm).1
      exact ⟨[], if_pos hstop, Nat.le_refl 0⟩
    | cons u us => exact ⟨[], if_pos hprefix, Nat.le_refl 0⟩
  | cons v before ih =>
    rw [h, List.cons_append, lazyLine]
    split
    · exact ⟨[], rfl, Nat.zero_le _⟩
    · rw [hline v List.mem_cons_self, if_neg (by decide)]
      obtain ⟨found, hfound, hlen⟩ := ih (fun u hu => hline u (List.mem_cons_of_mem v hu)) rfl
      exact ⟨v :: found, by rw [hfound]; rfl, Nat.succ_le_succ hlen⟩

/-- What a lazy part over lines finds: the part, and the stop behind it. -/
theorem lazyAny_spec (h : lazyAny stop us = some part) : ∃ rest, us = part ++ (stop ++ rest) := by
  induction us generalizing part with
  | nil =>
    rw [lazyAny] at h
    split at h
    · next hstop =>
      obtain rfl := Option.some.inj h
      exact ⟨[], by rw [hstop]; rfl⟩
    · cases h
  | cons u us ih =>
    rw [lazyAny] at h
    split at h
    · next hprefix =>
      obtain rfl := Option.some.inj h
      obtain ⟨rest, hrest⟩ := List.isPrefixOf_iff_prefix.1 hprefix
      exact ⟨rest, hrest.symm⟩
    · obtain ⟨tail, htail, rfl⟩ := Option.map_eq_some_iff.1 h
      obtain ⟨rest, hrest⟩ := ih htail
      exact ⟨rest, by rw [hrest]; rfl⟩

/-- With the stop somewhere the search succeeds. -/
theorem lazyAny_exists {before rest : Units} (h : us = before ++ (stop ++ rest)) :
    ∃ found, lazyAny stop us = some found := by
  induction before generalizing us with
  | nil =>
    rw [List.nil_append] at h
    have hprefix : stop.isPrefixOf us = true := List.isPrefixOf_iff_prefix.2 ⟨rest, h.symm⟩
    cases us with
    | nil => exact ⟨[], if_pos (List.append_eq_nil_iff.1 h.symm).1⟩
    | cons u us => exact ⟨[], if_pos hprefix⟩
  | cons v before ih =>
    rw [h, List.cons_append, lazyAny]
    split
    · exact ⟨[], rfl⟩
    · obtain ⟨found, hfound⟩ := ih rfl
      exact ⟨v :: found, by rw [hfound]; rfl⟩

end Lazy

/-! ## Links and fences -/

/-- The text of a link behind its first bracket. -/
def linkTail (label url : Units) : Units := label ++ (utf16 "](" ++ (url ++ [unit ')']))

theorem length_linkTail (label url : Units) :
    (linkTail label url).length = label.length + 2 + url.length + 1 := by
  rw [linkTail, List.length_append, List.length_append, List.length_append]
  show label.length + (2 + (url.length + 1)) = _
  omega

/-- A text that is seen to stay on its line. -/
theorem onOneLine {us : Units} (h : (us.all fun u => !isLineTerminator u) = true) :
    ∀ u ∈ us, isLineTerminator u = false := fun u hu => by simpa using List.all_eq_true.1 h u hu

/-- What `linkBody` finds is a link. -/
theorem linkBody_spec {us label : Units} {n : ℕ} (h : linkBody us = some (label, n)) :
    ∃ url rest, us = linkTail label url ++ rest ∧ n = (linkTail label url).length := by
  rw [linkBody] at h
  split at h
  · cases h
  · next label' hlabel =>
    split at h
    · cases h
    · next url hurl =>
      obtain ⟨rfl, rfl⟩ := Prod.mk.inj (Option.some.inj h)
      obtain ⟨⟨rest, hrest⟩, -⟩ := lazyLine_spec hlabel
      have hdrop : us.drop (label'.length + 2) = rest := by
        rw [hrest, ← List.drop_drop, List.drop_left]
        rfl
      rw [hdrop] at hurl
      obtain ⟨⟨rest', hrest'⟩, -⟩ := lazyLine_spec hurl
      refine ⟨url, rest', ?_, (length_linkTail _ _).symm⟩
      rw [hrest, hrest', linkTail]
      simp only [List.append_assoc]

/-- The label has no `](`, also not with what follows it. -/
theorem linkBody_min {us label : Units} {n : ℕ} (h : linkBody us = some (label, n)) :
    ∀ j < label.length, ¬ utf16 "](" <+: us.drop j := by
  rw [linkBody] at h
  split at h
  · cases h
  · next label' hlabel =>
    split at h
    · cases h
    · obtain ⟨rfl, -⟩ := Prod.mk.inj (Option.some.inj h)
      exact lazyLine_min hlabel

/-- Where a link stands `linkBody` finds one, with a label that is not longer. The label is
lazy, and when the address behind the first stop does not end on the line, neither does one
behind a later stop. -/
theorem linkBody_exists {label url rest : Units} (hlabel : ∀ u ∈ label, isLineTerminator u = false)
    (hurl : ∀ u ∈ url, isLineTerminator u = false) :
    ∃ found n, linkBody (linkTail label url ++ rest) = some (found, n) ∧
      found.length ≤ label.length := by
  have htext : linkTail label url ++ rest = label ++ (utf16 "](" ++ (url ++ [unit ')'] ++ rest)) := by
    rw [linkTail]
    simp only [List.append_assoc]
  obtain ⟨found, hfound, hlen⟩ := lazyLine_exists hlabel htext
  have hbrackets : ∀ u ∈ utf16 "](", isLineTerminator u = false := onOneLine (by decide)
  -- behind the first `](` the line goes on up to the `)` at least
  have hline : ∀ u ∈ label ++ (utf16 "](" ++ url), isLineTerminator u = false := by
    intro u hu
    rcases List.mem_append.1 hu with hu | hu
    · exact hlabel u hu
    · rcases List.mem_append.1 hu with hu | hu
      · exact hbrackets u hu
      · exact hurl u hu
  have hdrop : (linkTail label url ++ rest).drop (found.length + 2) =
      (label ++ (utf16 "](" ++ url)).drop (found.length + 2) ++ ([unit ')'] ++ rest) := by
    rw [← List.drop_append_of_le_length]
    · rw [linkTail]
      simp only [List.append_assoc]
    · rw [List.length_append, List.length_append]
      show found.length + 2 ≤ label.length + (2 + url.length)
      omega
  obtain ⟨foundUrl, hfoundUrl, -⟩ := lazyLine_exists
    (fun u hu => hline u (List.mem_of_mem_drop hu)) hdrop
  refine ⟨found, found.length + 2 + foundUrl.length + 1, ?_, hlen⟩
  rw [linkBody, hfound]
  dsimp only
  rw [hfoundUrl]

/-- Three backticks. -/
def fence : Units := List.replicate 3 (UInt16.ofNat 0x60)

end TextUtil

end TechTrends
