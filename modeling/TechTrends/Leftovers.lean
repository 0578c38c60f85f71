/-
What `sanitizeAndFilter` can leave of what it removes.

Each pass runs once over the text that the one before it left, so that two pieces which
stood apart can come to stand together behind the pass that looked for what they are now.
No image, link or fenced block of the input comes through whole: one that stands in the
result was put together there.
-/
import TechTrends.Tracing
import TechTrends.Shortening

set_option autoImplicit false

namespace TechTrends

namespace TextUtil

open JsString

/-! ## What the passes look for -/

/-- `\[.*?\]\(.*?\)`. -/
def IsLink (us : Units) : Prop :=
  ∃ label url, (∀ u ∈ label, isLineTerminator u = false) ∧ (∀ u ∈ url, isLineTerminator u = false) ∧
    us = unit '[' :: linkTail label url

/-- `!\[.*?\]\(.*?\)`. -/
def IsImage (us : Units) : Prop := ∃ link, IsLink link ∧ us = unit '!' :: link

/-- Text between two times three backticks. -/
def IsCodeBlock (us : Units) : Prop := ∃ code, us = fence ++ (code ++ fence)

def IsConstruct (us : Units) : Prop := IsImage us ∨ IsLink us ∨ IsCodeBlock us

/-! ## The function with the places of the units -/

def tracedCleaned (markdown : Units) : List Traced :=
  trimBy (fun t => isWhitespaceUnit t.1) <|
  replaceTraced matchBlankLines inserted <|
  replaceTraced matchEmoji inserted <|
  replaceTraced matchRule inserted <|
  replaceTraced matchTableRule inserted <|
  replaceTraced matchTag inserted <|
  replaceTraced matchCodeBlock inserted <|
  replaceTraced matchLink keptLabel <|
  replaceTraced matchImage inserted (tracedFrom markdown)

/-- The units of `sanitizeAndFilter`, each with its place in the input. -/
def tracedResult (markdown : Units) (limit : ℕ) : List Traced :=
  let cleaned := tracedCleaned markdown
  if limit < cleaned.length then cleaned.take limit ++ inserted [] (utf16 "...") else cleaned

theorem matchImage_replacement {b : Option UInt16} {us r : Units} {n : ℕ}
    (h : matchImage b us = some (r, n)) : r = [] := by
  rw [matchImage.eq_def] at h
  split at h
  · obtain ⟨-, hmap⟩ := Option.ite_none_right_eq_some.1 h
    obtain ⟨body, -, hmatch⟩ := Option.map_eq_some_iff.1 hmap
    exact (Prod.mk.inj hmatch).1.symm
  · cases h

/-- What a match of `matchLink` is. -/
theorem matchLink_spec {b : Option UInt16} {us r : Units} {n : ℕ} (h : matchLink b us = some (r, n)) :
    ∃ url rest, us = unit '[' :: (linkTail r url ++ rest) ∧ n = (linkTail r url).length + 1 ∧
      ∀ j < r.length, ¬ utf16 "](" <+: us.drop (j + 1) := by
  cases us with
  | nil => cases h
  | cons u us =>
    obtain ⟨rfl, hmap⟩ := Option.ite_none_right_eq_some.1 h
    obtain ⟨⟨label, k⟩, hbody, hmatch⟩ := Option.map_eq_some_iff.1 hmap
    obtain ⟨rfl, rfl⟩ := Prod.mk.inj hmatch
    obtain ⟨url, rest, rfl, rfl⟩ := linkBody_spec hbody
    exact ⟨url, rest, rfl, rfl, linkBody_min hbody⟩

/-- The label that stays keeps its places. -/
theorem places_keptLabel : Places matchLink keptLabel where
  units b ts r n h := by
    obtain ⟨url, rest, hts, -, -⟩ := matchLink_spec h
    rw [keptLabel, JsString.units, List.map_take, List.map_drop]
    rw [JsString.units] at hts
    rw [hts, List.drop_one, List.tail_cons, linkTail, List.append_assoc, List.take_left]
  sublist b ts r n h := by
    obtain ⟨url, rest, -, hn, -⟩ := matchLink_spec h
    have hlen : 1 + r.length ≤ n + 1 := by
      rw [hn, length_linkTail]
      omega
    refine List.Sublist.filter _ ?_
    rw [keptLabel, List.take_drop]
    exact (List.drop_sublist 1 _).trans (List.take_sublist_take_left hlen)

theorem units_tracedCleaned (markdown : Units) : units (tracedCleaned markdown) = cleaned markdown := by
  rw [tracedCleaned, units_trimBy, units_replaceTraced places_inserted, units_replaceTraced places_inserted,
    units_replaceTraced places_inserted, units_replaceTraced places_inserted,
    units_replaceTraced places_inserted, units_replaceTraced places_inserted,
    units_replaceTraced places_keptLabel, units_replaceTraced places_inserted, units_tracedFrom]
  rfl

/-- The traced passes and the traced cut behind them make the text that `sanitizeAndFilter`
makes. -/
theorem units_tracedResult (markdown : Units) (limit : ℕ) :
    units (tracedResult markdown limit) = sanitizeAndFilter markdown limit := by
  have hlen : (tracedCleaned markdown).length = (cleaned markdown).length := by
    rw [← units_tracedCleaned, units, List.length_map]
  have hdots : units (inserted [] (utf16 "...")) = utf16 "..." := by decide
  rw [sanitizeAndFilter_eq, tracedResult, hlen]
  split
  · rw [units, List.map_append, ← units, ← units, hdots, ← units_tracedCleaned, units, units,
      List.map_take]
  · exact units_tracedCleaned markdown

/-! ## What no pass lets through -/

/-- An image is removed whole. -/
theorem breaks_image {s b : List Traced} (hs : ∀ t ∈ s, t.2.isSome = true) (himage : IsImage (units s)) :
    Breaks matchImage inserted s b := by
  obtain ⟨-, ⟨label, url, hlabel, hurl, rfl⟩, hunits⟩ := himage
  refine breaks_inserted (fun hnil => ?_) hs fun before => ?_
  · rw [hnil] at hunits
    cases hunits
  · have hexists : ∃ found n, linkBody (linkTail label url ++ units b) = some (found, n) ∧
        found.length ≤ label.length := linkBody_exists hlabel hurl
    obtain ⟨found, n, hbody, -⟩ := hexists
    refine ⟨[], n + 1, ?_⟩
    rw [units, List.map_append, ← units, ← units, hunits]
    rw [List.cons_append, List.cons_append, matchImage, if_pos ⟨rfl, rfl⟩, hbody]
    rfl

/-- Of a code block nothing is kept. -/
theorem breaks_codeBlock {s b : List Traced} (hs : ∀ t ∈ s, t.2.isSome = true)
    (hblock : IsCodeBlock (units s)) : Breaks matchCodeBlock inserted s b := by
  obtain ⟨code, hunits⟩ := hblock
  refine breaks_inserted (fun hnil => ?_) hs fun before => ?_
  · rw [hnil] at hunits
    cases hunits
  · have htext : units (s ++ b) = fence ++ (code ++ (fence ++ units b)) := by
      rw [units, List.map_append, ← units, ← units, hunits]
      simp only [List.append_assoc]
    have hexists : ∃ found, lazyAny fence (code ++ (fence ++ units b)) = some found := lazyAny_exists rfl
    obtain ⟨found, hfound⟩ := hexists
    refine ⟨utf16 "[코드 블록 생략]", found.length + 5, ?_⟩
    rw [htext, matchCodeBlock, show List.replicate 3 (UInt16.ofNat 0x60) = fence from rfl,
      if_pos (List.isPrefixOf_iff_prefix.2 (List.prefix_append fence _)),
      show (fence ++ (code ++ (fence ++ units b))).drop 3 = code ++ (fence ++ units b) from rfl, hfound]
    rfl

/-- A link loses its `](` at least, or its `[` to a link that began before it. -/
theorem breaks_link {s b : List Traced} (hlink : IsLink (units s)) : Breaks matchLink keptLabel s b := by
  obtain ⟨label, url, hlabel, hurl, hunits⟩ := hlink
  have hlen : s.length = label.length + 2 + url.length + 1 + 1 := by
    have h := congrArg List.length hunits
    rwa [units, List.length_map, List.length_cons, length_linkTail] at h
  refine ⟨fun before => ?_, fun before a r n hnodup hmatch hn => ?_⟩
  · have hexists : ∃ found n, linkBody (linkTail label url ++ units b) = some (found, n) ∧
        found.length ≤ label.length := linkBody_exists hlabel hurl
    obtain ⟨found, n, hbody, -⟩ := hexists
    refine ⟨found, n, ?_⟩
    rw [units, List.map_append, ← units, ← units, hunits]
    rw [List.cons_append, matchLink, if_pos rfl, hbody]
    rfl
  · obtain ⟨url', rest, -, hn', hmin⟩ := matchLink_spec hmatch
    rw [length_linkTail] at hn'
    -- the label of the match ends before the `](` of the part
    have hfirst : r.length ≤ a.length + label.length := by
      by_contra hlong
      refine hmin (a.length + label.length) (Nat.lt_of_not_le hlong) ⟨url ++ [unit ')'] ++ units b, ?_⟩
      have htext : units (a ++ (s ++ b)) = (units a ++ (unit '[' :: label)) ++
          (utf16 "](" ++ (url ++ [unit ')'] ++ units b)) := by
        rw [units, List.map_append, List.map_append, ← units, ← units, ← units, hunits, linkTail]
        simp only [List.append_assoc, List.cons_append]
      rw [htext, List.drop_left']
      rw [List.length_append, List.length_cons, units, List.length_map]
      omega
    have hi : max a.length (r.length + 1) < (a ++ (s ++ b)).length := by
      rw [List.length_append, List.length_append]
      omega
    have hpart : (a ++ (s ++ b))[max a.length (r.length + 1)] ∈ s := by
      rw [List.getElem_append_right (Nat.le_max_left _ _), List.getElem_append_left (by omega)]
      exact List.getElem_mem _
    refine ⟨_, hpart, List.mem_take_iff_getElem.2 ⟨_, by omega, rfl⟩, fun hkept => ?_⟩
    -- what is kept stands before it
    obtain ⟨j, hj, heq⟩ := List.mem_take_iff_getElem.1 hkept
    rw [List.getElem_drop] at heq
    have := (List.Nodup.getElem_inj_iff hnodup).1 heq
    omega

/-! ## The result -/

/-- The traced text after the passes for images, links and code. -/
def tracedWithoutCode (markdown : Units) : List Traced :=
  replaceTraced matchCodeBlock inserted <|
  replaceTraced matchLink keptLabel <|
  replaceTraced matchImage inserted (tracedFrom markdown)

/-- What is there of the input in the end was there behind the pass for code blocks, in the
same order. -/
theorem fromInput_tracedResult (markdown : Units) (limit : ℕ) :
    (fromInput (tracedResult markdown limit)).Sublist (fromInput (tracedWithoutCode markdown)) := by
  have hpass : ∀ {m : Option UInt16 → Units → Option (Units × ℕ)} {ts us : List Traced},
      (fromInput ts).Sublist (fromInput us) →
      (fromInput (replaceTraced m inserted ts)).Sublist (fromInput us) :=
    fun h => (fromInput_replaceAllTraced places_inserted 0 none _).trans h
  have hcleaned : (fromInput (tracedCleaned markdown)).Sublist (fromInput (tracedWithoutCode markdown)) :=
    ((trimBy_isInfix _).sublist.filter _).trans
      (hpass (hpass (hpass (hpass (hpass (List.Sublist.refl _))))))
  rw [tracedResult]
  split
  · have hdots : fromInput (inserted [] (utf16 "...")) = [] := by decide
    rw [fromInput, List.filter_append, ← fromInput, ← fromInput, hdots, List.append_nil]
    exact ((List.take_sublist limit _).filter _).trans hcleaned
  · exact hcleaned

theorem sublist_withoutImages {ts : List Traced} (hts : ∀ t ∈ ts, t.2.isSome = true) :
    (replaceTraced matchImage inserted ts).Sublist ts := by
  refine sublist_replaceTraced places_inserted (fun b ts r n hmatch _ t ht => ?_) hts
  rw [matchImage_replacement hmatch] at ht
  cases ht

theorem sublist_withoutLinks {ts : List Traced} (hts : ∀ t ∈ ts, t.2.isSome = true) :
    (replaceTraced matchLink keptLabel ts).Sublist ts :=
  sublist_replaceTraced places_keptLabel
    (fun _ _ _ _ _ hall t ht => hall t (List.mem_of_mem_drop (List.mem_of_mem_take ht))) hts

/-- A piece of the input that is still all there behind the three passes is none of what
they look for. -/
theorem not_isConstruct_of_kept {markdown : Units} {a part b : List Traced}
    (hinput : tracedFrom markdown = a ++ (part ++ b)) (hkept : ∀ t ∈ part, t ∈ tracedWithoutCode markdown) :
    ¬ IsConstruct (units part) := by
  have hsome : ∀ t ∈ a ++ (part ++ b), t.2.isSome = true := hinput ▸ isSome_tracedFrom
  have hnodup : (a ++ (part ++ b)).Nodup := hinput ▸ nodup_tracedFrom markdown
  have hpart : ∀ t ∈ part, t.2.isSome = true := fun t ht =>
    hsome t (List.mem_append_right a (List.mem_append_left b ht))
  rw [tracedWithoutCode, hinput] at hkept
  have hlinks : ∀ t ∈ part, t ∈ replaceTraced matchLink keptLabel
      (replaceTraced matchImage inserted (a ++ (part ++ b))) := fun t ht =>
    mem_of_mem_replaceAllTraced places_inserted (hpart t ht) (hkept t ht)
  have himages : ∀ t ∈ part, t ∈ replaceTraced matchImage inserted (a ++ (part ++ b)) := fun t ht =>
    mem_of_mem_replaceAllTraced places_keptLabel (hpart t ht) (hlinks t ht)
  have hsub₁ := sublist_withoutImages hsome
  have hsub₂ := sublist_withoutLinks fun t ht => hsome t (hsub₁.subset ht)
  rintro (himage | hlink | hblock)
  · obtain ⟨t, ht, hdropped⟩ :=
      (breaks_image hpart himage).exists_dropped places_inserted hpart hnodup (Nat.zero_le _) none
    exact hdropped (himages t ht)
  · obtain ⟨a', b', htext⟩ := exists_append_of_sublist hsub₁ hnodup himages
    rw [htext] at hlinks
    obtain ⟨t, ht, hdropped⟩ := (breaks_link hlink).exists_dropped places_keptLabel hpart
      (htext ▸ hsub₁.nodup hnodup) (Nat.zero_le _) none
    exact hdropped (hlinks t ht)
  · obtain ⟨a', b', htext⟩ := exists_append_of_sublist (hsub₂.trans hsub₁) hnodup hlinks
    rw [htext] at hkept
    obtain ⟨t, ht, hdropped⟩ := (breaks_codeBlock hpart hblock).exists_dropped places_inserted hpart
      (htext ▸ (hsub₂.trans hsub₁).nodup hnodup) (Nat.zero_le _) none
    exact hdropped (hkept t ht)

/-- **No image, link or fenced block of the input comes through.** The result has no `<`. Its
units that are from the input stand in the input's order, and a piece of the result that is
an image, a link or a fenced block is not a piece of the input: a unit of it was put in, or
what stood between its units was taken out. -/
theorem sanitizeAndFilter_leftovers (markdown : Units) (limit : ℕ) :
    unit '<' ∉ sanitizeAndFilter markdown limit ∧
      units (tracedResult markdown limit) = sanitizeAndFilter markdown limit ∧
      (fromInput (tracedResult markdown limit)).Sublist (tracedFrom markdown) ∧
      ∀ part, part <:+: tracedResult markdown limit → IsConstruct (units part) →
        ¬ ∃ i, part.map Prod.snd = (List.range' i part.length).map some := by
  have hinput : fromInput (tracedFrom markdown) = tracedFrom markdown :=
    List.filter_eq_self.2 isSome_tracedFrom
  have hpasses : (fromInput (tracedWithoutCode markdown)).Sublist (tracedFrom markdown) := by
    rw [← hinput]
    exact (fromInput_replaceAllTraced places_inserted 0 none _).trans
      ((fromInput_replaceAllTraced places_keptLabel 0 none _).trans
        (fromInput_replaceAllTraced places_inserted 0 none _))
  have hresult := fromInput_tracedResult markdown limit
  refine ⟨lt_notMem_sanitizeAndFilter markdown limit, units_tracedResult markdown limit,
    hresult.trans hpasses, ?_⟩
  rintro part hpiece hconstruct ⟨i, hplaces⟩
  -- a piece with places that follow one another is all from the input
  have hkept : ∀ t ∈ part, t ∈ fromInput (tracedWithoutCode markdown) := by
    intro t ht
    have hplace := List.mem_map_of_mem (f := Prod.snd) ht
    rw [hplaces] at hplace
    obtain ⟨j, -, hj⟩ := List.mem_map.1 hplace
    exact hresult.subset (List.mem_filter.2 ⟨hpiece.subset ht, by rw [← hj]; rfl⟩)
  have heq := eq_piece_of_consecutive (fun t ht => hpasses.subset (hkept t ht)) hplaces
  refine not_isConstruct_of_kept (a := (tracedFrom markdown).take i)
    (b := ((tracedFrom markdown).drop i).drop part.length) ?_
    (fun t ht => (List.mem_filter.1 (hkept t ht)).1) hconstruct
  calc tracedFrom markdown
      = (tracedFrom markdown).take i ++ (tracedFrom markdown).drop i := (List.take_append_drop i _).symm
    _ = (tracedFrom markdown).take i ++ (((tracedFrom markdown).drop i).take part.length ++
          ((tracedFrom markdown).drop i).drop part.length) :=
        congrArg _ (List.take_append_drop part.length _).symm
    _ = _ := by rw [← heq]

/-- Two links in one another: what the one leaves is a link again. -/
theorem sanitizeAndFilter_leaves_link :
    ∃ part, part <:+: sanitizeAndFilter (utf16 "[[a](b)](c)") 800 ∧ IsConstruct part := by
  have hresult : sanitizeAndFilter (utf16 "[[a](b)](c)") 800 = utf16 "[a](c)" := by decide +kernel
  exact ⟨utf16 "[a](c)", hresult ▸ List.infix_rfl,
    Or.inr (Or.inl ⟨utf16 "a", utf16 "c", onOneLine (by decide), onOneLine (by decide), by decide⟩)⟩

end TextUtil

end TechTrends
