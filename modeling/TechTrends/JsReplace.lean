/-
`.replace(…)` with the flag `g`, from the matcher to the whole text.

`JsString.replaceAll` walks over the text unit by unit. What is needed of it later
is one rule for a position that matches and one for a position that does not, and
for a pattern that is a plain text both can be said without the walk.
-/
import Mathlib.Data.List.DropRight
import TechTrends.JsString

set_option autoImplicit false

namespace JsString

/-! ## Any pattern -/

section Matcher

variable {m : Option UInt16 → Units → Option (Units × ℕ)}

/-- A pattern that matches nowhere leaves the text as it is. -/
theorem replaceAll_eq_self {us : Units} (h : ∀ t b, t <:+ us → m b t = none) (b : Option UInt16) :
    replaceAll m 0 b us = us := by
  induction us generalizing b with
  | nil => rfl
  | cons u us ih =>
    have htail : ∀ t b, t <:+ us → m b t = none := fun t b ht => h t b (ht.trans (List.suffix_cons u us))
    rw [replaceAll, h (u :: us) b List.suffix_rfl]
    exact congrArg (u :: ·) (ih htail (some u))

theorem replace_eq_self {us : Units} (h : ∀ t b, t <:+ us → m b t = none) : replace m us = us :=
  replaceAll_eq_self h none

/-- What stands in the result stood in the text, or in a replacement made there. -/
theorem mem_replaceAll {v : UInt16} {us : Units} {n : ℕ} {b : Option UInt16}
    (h : v ∈ replaceAll m n b us) :
    v ∈ us ∨ ∃ t b r k, t <:+ us ∧ m b t = some (r, k) ∧ v ∈ r := by
  induction us generalizing n b with
  | nil =>
    cases n with
    | zero => cases h
    | succ n => cases h
  | cons u us ih =>
    have later : ∀ {n b}, v ∈ replaceAll m n b us →
        v ∈ u :: us ∨ ∃ t b r k, t <:+ u :: us ∧ m b t = some (r, k) ∧ v ∈ r := by
      intro n b hv
      rcases ih hv with hmem | ⟨t, b, r, k, ht, hm, hr⟩
      · exact Or.inl (List.mem_cons_of_mem u hmem)
      · exact Or.inr ⟨t, b, r, k, ht.trans (List.suffix_cons u us), hm, hr⟩
    cases n with
    | succ n => exact later h
    | zero =>
      rw [replaceAll] at h
      split at h
      · next r k hm =>
        rcases List.mem_append.1 h with hr | hrest
        · exact Or.inr ⟨u :: us, b, r, k + 1, List.suffix_rfl, hm, hr⟩
        · exact later hrest
      · rcases List.mem_cons.1 h with rfl | hrest
        · exact Or.inl List.mem_cons_self
        · exact later hrest

theorem mem_replace {v : UInt16} {us : Units} (h : v ∈ replace m us) :
    v ∈ us ∨ ∃ t b r k, t <:+ us ∧ m b t = some (r, k) ∧ v ∈ r :=
  mem_replaceAll h

/-- A unit that no replacement brings in is in the result only if it was in the text. -/
theorem mem_of_mem_replace {v : UInt16} {us : Units} (hr : ∀ t b r k, m b t = some (r, k) → v ∉ r)
    (h : v ∈ replace m us) : v ∈ us := by
  rcases mem_replace h with hmem | ⟨t, b, r, k, -, hm, hv⟩
  · exact hmem
  · exact absurd hv (hr t b r k hm)

/-- A unit that every match starts at, and no replacement brings back, is gone. -/
theorem notMem_replace {v : UInt16} (hm : ∀ us b, ∃ r n, m b (v :: us) = some (r, n + 1))
    (hr : ∀ t b r k, m b t = some (r, k) → v ∉ r) (us : Units) : v ∉ replace m us := by
  have hgo : ∀ (us : Units) (n : ℕ) (b : Option UInt16), v ∉ replaceAll m n b us := by
    intro us
    induction us with
    | nil =>
      intro n b h
      cases n <;> cases h
    | cons u us ih =>
      intro n b h
      cases n with
      | succ n => exact ih n (some u) h
      | zero =>
        rw [replaceAll] at h
        split at h
        · next r k hmatch =>
          rcases List.mem_append.1 h with h | h
          · exact hr (u :: us) b r (k + 1) hmatch h
          · exact ih k (some u) h
        · next hnone =>
          rcases List.mem_cons.1 h with rfl | h
          · obtain ⟨r, k, hsome⟩ := hm us b
            exact hnone r k hsome
          · exact ih 0 (some u) h
  exact hgo us 0 none

/-- A match of `n + 1` units: the rest of it is skipped. -/
theorem replaceAll_skip (b : Option UInt16) (p us : Units) :
    ∃ b', replaceAll m p.length b (p ++ us) = replaceAll m 0 b' us := by
  induction p generalizing b with
  | nil => exact ⟨b, rfl⟩
  | cons u p ih => exact ih (some u)

/-- A pattern without look-behind does not see what stands before a position. -/
theorem replaceAll_before (hm : ∀ b b' us, m b us = m b' us) (n : ℕ) (b b' : Option UInt16)
    (us : Units) : replaceAll m n b us = replaceAll m n b' us := by
  cases us with
  | nil => cases n <;> rfl
  | cons u us =>
    cases n with
    | zero => rw [replaceAll, replaceAll, hm b b' (u :: us)]
    | succ n => rfl

end Matcher

/-! ## A text as the pattern -/

/-- The pattern of a regular expression without special characters. -/
def matchText (pattern replacement : Units) (_ : Option UInt16) (us : Units) :
    Option (Units × ℕ) :=
  if pattern.isPrefixOf us then some (replacement, pattern.length) else none

section MatchText

variable {p : UInt16} {ps r : Units}

/-- At an occurrence the replacement stands for it. -/
theorem replace_matchText_hit (us : Units) :
    replace (matchText (p :: ps) r) (p :: ps ++ us) = r ++ replace (matchText (p :: ps) r) us := by
  have hhit : (p :: ps).isPrefixOf (p :: (ps ++ us)) = true :=
    List.isPrefixOf_iff_prefix.2 (List.prefix_append (p :: ps) us)
  obtain ⟨b, hskip⟩ := replaceAll_skip (m := matchText (p :: ps) r) (some p) ps us
  rw [replace, replace, List.cons_append, replaceAll, matchText, if_pos hhit, List.length_cons]
  show r ++ replaceAll (matchText (p :: ps) r) ps.length (some p) (ps ++ us) = _
  rw [hskip, replaceAll_before (fun _ _ _ => rfl) 0 b none]

/-- Where the pattern does not start, the unit stays. -/
theorem replace_matchText_miss {u : UInt16} {us : Units} (h : ¬ p :: ps <+: u :: us) :
    replace (matchText (p :: ps) r) (u :: us) = u :: replace (matchText (p :: ps) r) us := by
  have hmiss : ¬ (p :: ps).isPrefixOf (u :: us) = true := fun hp => h (List.isPrefixOf_iff_prefix.1 hp)
  rw [replace, replaceAll, matchText, if_neg hmiss]
  show u :: replaceAll (matchText (p :: ps) r) 0 (some u) us = _
  rw [replace, replaceAll_before (fun _ _ _ => rfl) 0 (some u) none]

/-- A stretch without the first unit of the pattern stays. -/
theorem replace_matchText_pass {block : Units} (h : p ∉ block) (us : Units) :
    replace (matchText (p :: ps) r) (block ++ us) = block ++ replace (matchText (p :: ps) r) us := by
  induction block with
  | nil => rfl
  | cons u block ih =>
    have hu : ¬ p :: ps <+: u :: (block ++ us) := fun hp =>
      h (List.mem_cons.2 (Or.inl (List.cons_prefix_cons.1 hp).1))
    rw [List.cons_append, replace_matchText_miss hu, ih (fun hb => h (List.mem_cons_of_mem u hb))]
    rfl

/-- A text without the pattern stays. -/
theorem replace_matchText_of_absent {us : Units} (h : ¬ p :: ps <:+: us) :
    replace (matchText (p :: ps) r) us = us := by
  refine replace_eq_self fun t b ht => if_neg fun hp => h ?_
  exact (List.isPrefixOf_iff_prefix.1 hp).isInfix.trans ht.isInfix

/-- Replacements with fewer units of a kind than the pattern leave no more of them. -/
theorem countP_replace_matchText_le {q : UInt16 → Bool} (hq : r.countP q ≤ (p :: ps).countP q)
    (us : Units) : (replace (matchText (p :: ps) r) us).countP q ≤ us.countP q := by
  induction hn : us.length using Nat.strongRecOn generalizing us with
  | ind n ih =>
    cases us with
    | nil => exact Nat.le_refl _
    | cons u us =>
      by_cases hp : p :: ps <+: u :: us
      · obtain ⟨rest, hrest⟩ := hp
        have hlen : rest.length < n := by
          rw [← hn, ← hrest, List.length_append, List.length_cons]
          omega
        have hih := ih rest.length hlen rest rfl
        rw [← hrest, replace_matchText_hit, List.countP_append, List.countP_append]
        omega
      · have hih := ih us.length (by rw [← hn, List.length_cons]; omega) us rfl
        rw [replace_matchText_miss hp, List.countP_cons, List.countP_cons]
        omega

/-- With an occurrence in the text some of them go. -/
theorem countP_replace_matchText_lt {q : UInt16 → Bool} (hq : r.countP q < (p :: ps).countP q)
    {us : Units} (h : p :: ps <:+: us) :
    (replace (matchText (p :: ps) r) us).countP q < us.countP q := by
  induction us with
  | nil => exact absurd (List.infix_nil.1 h) (by simp)
  | cons u us ih =>
    by_cases hp : p :: ps <+: u :: us
    · obtain ⟨rest, hrest⟩ := hp
      have hle := countP_replace_matchText_le (Nat.le_of_lt hq) rest
      rw [← hrest, replace_matchText_hit, List.countP_append, List.countP_append]
      omega
    · have htail : p :: ps <:+: us := (List.infix_cons_iff.1 h).resolve_left hp
      have hlt := ih htail
      rw [replace_matchText_miss hp, List.countP_cons, List.countP_cons]
      omega

end MatchText

/-! ## `trim` -/

/-- `trim` removes nothing that `p` does not hold of. -/
theorem countP_trimBy {α : Type*} (p : α → Bool) (us : List α) :
    (trimBy p us).countP (fun u => !p u) = us.countP (fun u => !p u) := by
  have hdrop : ∀ vs : List α, (vs.dropWhile p).countP (fun u => !p u) = vs.countP (fun u => !p u) := by
    intro vs
    induction vs with
    | nil => rfl
    | cons v vs ih =>
      by_cases hv : p v = true
      · rw [List.dropWhile_cons_of_pos hv, ih, List.countP_cons_of_neg (by simp [hv])]
      · rw [List.dropWhile_cons_of_neg hv]
  rw [trimBy, List.countP_reverse, hdrop, List.countP_reverse, hdrop]

theorem mem_of_mem_trimBy {α : Type*} {p : α → Bool} {u : α} {us : List α} (h : u ∈ trimBy p us) :
    u ∈ us := by
  rw [trimBy, List.mem_reverse] at h
  have hright := (List.dropWhile_suffix p).subset h
  rw [List.mem_reverse] at hright
  exact (List.dropWhile_suffix p).subset hright

section TrimBy

variable {α : Type*} {p : α → Bool}

theorem trimBy_eq_rdropWhile (us : List α) : trimBy p us = (us.dropWhile p).rdropWhile p := rfl

theorem trimBy_isInfix (us : List α) : trimBy p us <:+: us :=
  (List.rdropWhile_prefix p _).isInfix.trans (List.dropWhile_suffix p).isInfix

theorem getLast?_trimBy (us : List α) : ∀ u ∈ (trimBy p us).getLast?, p u = false := by
  intro u hu
  rw [trimBy_eq_rdropWhile] at hu
  have hne : (us.dropWhile p).rdropWhile p ≠ [] := by
    intro hnil
    rw [hnil] at hu
    cases hu
  rw [List.getLast?_eq_some_getLast hne, Option.mem_def, Option.some.injEq] at hu
  have hlast := List.rdropWhile_last_not p (us.dropWhile p) hne
  rwa [hu, Bool.not_eq_true] at hlast

theorem head?_trimBy (us : List α) : ∀ u ∈ (trimBy p us).head?, p u = false := by
  intro u hu
  rw [trimBy_eq_rdropWhile] at hu
  have hhead : (us.dropWhile p).head? = some u := by
    obtain ⟨ys, hys⟩ := List.rdropWhile_prefix (p := p) (us.dropWhile p)
    rw [← hys, List.head?_append_of_ne_nil _ (List.ne_nil_of_mem (List.mem_of_mem_head? hu))]
    exact hu
  have hnot := List.head?_dropWhile_not p us
  rw [hhead] at hnot
  exact hnot

/-- A blank at the end goes. -/
theorem trimBy_concat {b : α} (hb : p b = true) (us : List α) : trimBy p (us ++ [b]) = trimBy p us := by
  rw [trimBy_eq_rdropWhile, trimBy_eq_rdropWhile, List.dropWhile_append]
  split
  · next hempty =>
    rw [List.isEmpty_iff.1 hempty, List.dropWhile_cons_of_pos hb]
    rfl
  · exact List.rdropWhile_concat_pos p _ b hb

/-- Behind an element that stays, only the end of the text is trimmed. -/
theorem trimBy_append {us vs : List α} (hne : vs ≠ []) (hhead : ∀ u ∈ vs.head?, p u = false)
    (hlast : ∀ u ∈ vs.getLast?, p u = false) : trimBy p (us ++ vs) = us.dropWhile p ++ vs := by
  have hdrop : (us ++ vs).dropWhile p = us.dropWhile p ++ vs := by
    rw [List.dropWhile_append]
    split
    · next hempty =>
      rw [List.isEmpty_iff.1 hempty]
      cases vs with
      | nil => rfl
      | cons v vs => exact List.dropWhile_cons_of_neg (by rw [hhead v rfl]; decide)
    · rfl
  rw [trimBy_eq_rdropWhile, hdrop, List.rdropWhile_eq_self_iff]
  intro hl hpl
  rw [List.getLast_append_of_ne_nil _ hne, hlast _ (List.getLast?_eq_some_getLast hne)] at hpl
  cases hpl

/-- A text without blanks at its ends is its own `trim`. -/
theorem trimBy_eq_self {us : List α} (hhead : ∀ u ∈ us.head?, p u = false)
    (hlast : ∀ u ∈ us.getLast?, p u = false) : trimBy p us = us := by
  by_cases hne : us = []
  · rw [hne]
    rfl
  · have h : trimBy p ([] ++ us) = [].dropWhile p ++ us := trimBy_append hne hhead hlast
    exact h

end TrimBy

end JsString
