/-
Texts without unpaired surrogates, and replacements in them.

Whether a text is valid is decided from left to right, with one bit to remember: whether
the unit before was a high surrogate. A replacement keeps a text valid when no match
begins or ends inside of a pair and what is put in its place is valid itself.
-/
import TechTrends.JsReplace

set_option autoImplicit false

namespace JsString

/-- No surrogate is unpaired; `open_` says that the unit before was a high one. -/
def pairedFrom : Bool → Units → Bool
  | open_, [] => !open_
  | open_, u :: us => isLowSurrogate u == open_ && pairedFrom (isHighSurrogate u) us

/-- The text has no unpaired surrogates. -/
def wellFormed (us : Units) : Bool := pairedFrom false us

def isSurrogate (u : UInt16) : Bool := isHighSurrogate u || isLowSurrogate u

/-! ## Parts of a valid text -/

section Parts

variable {open_ : Bool} {u : UInt16} {us vs : Units}

theorem pairedFrom_cons : pairedFrom open_ (u :: us) = true ↔
    isLowSurrogate u = open_ ∧ pairedFrom (isHighSurrogate u) us = true := by
  rw [pairedFrom, Bool.and_eq_true, beq_iff_eq]

theorem isHighSurrogate_of_low (h : isLowSurrogate u = true) : isHighSurrogate u = false := by
  simp only [isLowSurrogate, isHighSurrogate, Bool.and_eq_true, decide_eq_true_eq,
    Bool.and_eq_false_iff, decide_eq_false_iff_not] at h ⊢
  omega

theorem surrogate_false (h : isSurrogate u = false) :
    isHighSurrogate u = false ∧ isLowSurrogate u = false := Bool.or_eq_false_iff.1 h

/-- Valid texts one after the other. -/
theorem pairedFrom_append (hus : pairedFrom open_ us = true) (hvs : pairedFrom false vs = true) :
    pairedFrom open_ (us ++ vs) = true := by
  induction us generalizing open_ with
  | nil =>
    obtain rfl : open_ = false := Bool.not_eq_true' _ ▸ hus
    exact hvs
  | cons u us ih =>
    obtain ⟨hlow, htail⟩ := pairedFrom_cons.1 hus
    exact pairedFrom_cons.2 ⟨hlow, ih htail⟩

/-- What stands before a unit that is no low surrogate. -/
theorem pairedFrom_left (h : pairedFrom open_ (us ++ vs) = true)
    (hvs : ∀ v ∈ vs.head?, isLowSurrogate v = false) : pairedFrom open_ us = true := by
  induction us generalizing open_ with
  | nil =>
    cases vs with
    | nil => exact h
    | cons v vs =>
      have hlow := (pairedFrom_cons.1 h).1
      rw [hvs v rfl] at hlow
      rw [← hlow]
      rfl
  | cons u us ih =>
    obtain ⟨hlow, htail⟩ := pairedFrom_cons.1 h
    exact pairedFrom_cons.2 ⟨hlow, ih htail⟩

/-- What stands behind a unit that is no high surrogate. -/
theorem pairedFrom_right (h : pairedFrom open_ (us ++ vs) = true) (hne : us ≠ [])
    (hus : ∀ u ∈ us.getLast?, isHighSurrogate u = false) : pairedFrom false vs = true := by
  induction us generalizing open_ with
  | nil => exact absurd rfl hne
  | cons u us ih =>
    have htail := (pairedFrom_cons.1 h).2
    cases us with
    | nil =>
      rw [hus u rfl] at htail
      exact htail
    | cons u' us => exact ih htail (List.cons_ne_nil _ _) hus

/-- Behind units that are no surrogates. -/
theorem pairedFrom_drop (h : pairedFrom open_ us = true) {n : ℕ} (hn : n ≠ 0) (hne : us ≠ [])
    (hunits : ∀ u ∈ us.take n, isSurrogate u = false) : pairedFrom false (us.drop n) = true := by
  rw [← List.take_append_drop n us] at h
  refine pairedFrom_right h ?_ fun u hu => ?_
  · intro hnil
    rcases List.take_eq_nil_iff.1 hnil with h0 | hnil
    · exact hn h0
    · exact hne hnil
  · exact (surrogate_false (hunits u (List.mem_of_getLast? hu))).1

/-- A valid text does not end in the first half of a pair. -/
theorem pairedFrom_getLast (h : pairedFrom open_ us = true) :
    ∀ u ∈ us.getLast?, isHighSurrogate u = false := by
  induction us generalizing open_ with
  | nil => simp
  | cons u us ih =>
    have htail := (pairedFrom_cons.1 h).2
    cases us with
    | nil =>
      rintro v ⟨⟩
      exact Bool.not_eq_true' _ ▸ htail
    | cons u' us => exact ih htail

/-- A text cut out of a valid one is valid exactly when it does not end inside of a pair. -/
theorem pairedFrom_prefix_iff (h : pairedFrom open_ (us ++ vs) = true) (hne : us ≠ []) :
    pairedFrom open_ us = true ↔ ∀ u ∈ us.getLast?, isHighSurrogate u = false := by
  refine ⟨pairedFrom_getLast, fun hlast => pairedFrom_left h fun v hv => ?_⟩
  have hright := pairedFrom_right h hne hlast
  cases vs with
  | nil => cases hv
  | cons w vs =>
    obtain rfl : w = v := Option.some.inj hv
    exact (pairedFrom_cons.1 hright).1

end Parts

/-! ## Replacements -/

/-- The matcher never splits a pair. -/
structure PairSafe (m : Option UInt16 → Units → Option (Units × ℕ)) : Prop where
  start : ∀ b u us r k, m b (u :: us) = some (r, k + 1) → isLowSurrogate u = false
  rest : ∀ b us r k, m b us = some (r, k + 1) → pairedFrom false us = true →
    pairedFrom false r = true ∧ pairedFrom false (us.drop (k + 1)) = true

/-- **The walk.** A replacement that is safe for pairs keeps a text valid, outside a match and
inside of one, by induction on the text. -/
theorem pairedFrom_replaceAll {m : Option UInt16 → Units → Option (Units × ℕ)} (hm : PairSafe m)
    (us : Units) :
    (∀ open_ b, pairedFrom open_ us = true → pairedFrom open_ (replaceAll m 0 b us) = true) ∧
      ∀ n b, pairedFrom false (us.drop n) = true → pairedFrom false (replaceAll m n b us) = true := by
  induction us with
  | nil =>
    refine ⟨fun open_ b h => h, fun n b h => ?_⟩
    rw [List.drop_nil] at h
    cases n <;> exact h
  | cons u us ih =>
    obtain ⟨walking, skipping⟩ := ih
    have here : ∀ open_ b, pairedFrom open_ (u :: us) = true →
        pairedFrom open_ (replaceAll m 0 b (u :: us)) = true := by
      intro open_ b h
      obtain ⟨hlow, htail⟩ := pairedFrom_cons.1 h
      rw [replaceAll]
      split
      -- a match does not begin inside of a pair, so that none is open before it
      · next r k hmatch =>
        have hstart := hm.start b u us r k hmatch
        obtain rfl : open_ = false := hlow.symm.trans hstart
        obtain ⟨hr, hrest⟩ := hm.rest b (u :: us) r k hmatch h
        exact pairedFrom_append hr (skipping k (some u) hrest)
      · exact pairedFrom_cons.2 ⟨hlow, walking _ _ htail⟩
    refine ⟨here, fun n b h => ?_⟩
    cases n with
    | zero => exact here false b h
    | succ n => exact skipping n (some u) h

theorem wellFormed_replace {m : Option UInt16 → Units → Option (Units × ℕ)} (hm : PairSafe m)
    {us : Units} (h : wellFormed us = true) : wellFormed (replace m us) = true :=
  (pairedFrom_replaceAll hm us).1 false none h

/-- A valid text stays valid when units that are no surrogates are trimmed off its ends. -/
theorem wellFormed_trimBy {p : UInt16 → Bool} (hp : ∀ u, p u = true → isSurrogate u = false) {us : Units}
    (h : wellFormed us = true) : wellFormed (trimBy p us) = true := by
  have hleft : pairedFrom false (us.dropWhile p) = true := by
    have hsplit := List.takeWhile_append_dropWhile (p := p) (l := us)
    cases hrun : us.takeWhile p with
    | nil =>
      rw [hrun] at hsplit
      rwa [← hsplit] at h
    | cons v vs =>
      rw [wellFormed, ← hsplit, hrun] at h
      refine pairedFrom_right h (List.cons_ne_nil _ _) fun u hu => ?_
      have hmem : u ∈ us.takeWhile p := hrun ▸ List.mem_of_getLast? hu
      exact (surrogate_false (hp u (List.mem_takeWhile_imp hmem))).1
  rw [trimBy_eq_rdropWhile, wellFormed]
  rw [← List.rdropWhile_append_rtakeWhile (p := p) (l := us.dropWhile p)] at hleft
  refine pairedFrom_left hleft fun v hv => ?_
  exact (surrogate_false (hp v (List.mem_rtakeWhile_imp (List.mem_of_mem_head? hv)))).2

end JsString
