/-
Replacements that remember where each unit comes from.

Beside every unit of a text stands its place in the input, or nothing when a replacement
put it in. A traced replacement does what the plain one does, and says in addition which
units of the input are still there, in their order.
-/
import Mathlib.Data.List.Nodup
import Mathlib.Data.List.Perm.Subperm
import TechTrends.JsReplace

set_option autoImplicit false

namespace JsString

/-- A unit and its place in the input. -/
abbrev Traced := UInt16 × Option ℕ

def units (ts : List Traced) : Units := ts.map Prod.fst

/-- The units of the input, each at its place. -/
def tracedFrom (us : Units) : List Traced := us.zipIdx.map fun x => (x.1, some x.2)

/-- `replaceAll`; `placed` says of a match and its replacement where the units of that
come from. -/
def replaceAllTraced (matcher : Option UInt16 → Units → Option (Units × ℕ))
    (placed : List Traced → Units → List Traced) : ℕ → Option UInt16 → List Traced → List Traced
  | _, _, [] => []
  | skip + 1, _, t :: ts => replaceAllTraced matcher placed skip (some t.1) ts
  | 0, before, t :: ts =>
    match matcher before (units (t :: ts)) with
    | some (replacement, n + 1) =>
      placed (t :: ts) replacement ++ replaceAllTraced matcher placed n (some t.1) ts
    | _ => t :: replaceAllTraced matcher placed 0 (some t.1) ts

def replaceTraced (matcher : Option UInt16 → Units → Option (Units × ℕ))
    (placed : List Traced → Units → List Traced) (ts : List Traced) : List Traced :=
  replaceAllTraced matcher placed 0 none ts

/-- A replacement that is new text. -/
def inserted (_ : List Traced) (replacement : Units) : List Traced := replacement.map fun u => (u, none)

/-- A replacement by the units behind the first one of the match. -/
def keptLabel (ts : List Traced) (replacement : Units) : List Traced :=
  (ts.drop 1).take replacement.length

/-- The units that are from the input. -/
def fromInput (ts : List Traced) : List Traced := ts.filter fun t => t.2.isSome

section Traced

variable {m : Option UInt16 → Units → Option (Units × ℕ)} {placed : List Traced → Units → List Traced}

/-- How the replacement of a match is placed: it is the replacement, and what it has of
the input was in the match, in that order. -/
structure Places (m : Option UInt16 → Units → Option (Units × ℕ))
    (placed : List Traced → Units → List Traced) : Prop where
  units : ∀ b ts r n, m b (units ts) = some (r, n + 1) → JsString.units (placed ts r) = r
  sublist : ∀ b ts r n, m b (JsString.units ts) = some (r, n + 1) →
    (fromInput (placed ts r)).Sublist (fromInput (ts.take (n + 1)))

/-- Without the places a traced walk is the plain one. By induction on the text, for any
number of units still to be skipped. -/
theorem units_replaceAllTraced (hp : Places m placed) (n : ℕ) (b : Option UInt16) (ts : List Traced) :
    units (replaceAllTraced m placed n b ts) = replaceAll m n b (units ts) := by
  induction ts generalizing n b with
  | nil => cases n <;> rfl
  | cons t ts ih =>
    cases n with
    | succ n => exact ih n (some t.1)
    | zero =>
      rw [replaceAllTraced, show units (t :: ts) = t.1 :: units ts from rfl, replaceAll]
      cases hmatch : m b (t.1 :: units ts) with
      | none => exact congrArg (t.1 :: ·) (ih 0 (some t.1))
      | some found =>
        obtain ⟨r, k⟩ := found
        cases k with
        | zero => exact congrArg (t.1 :: ·) (ih 0 (some t.1))
        | succ k =>
          show units (placed (t :: ts) r ++ replaceAllTraced m placed k (some t.1) ts) =
            r ++ replaceAll m k (some t.1) (units ts)
          rw [units, List.map_append]
          exact congr (congrArg _ (hp.units b (t :: ts) r k hmatch)) (ih k (some t.1))

theorem units_replaceTraced (hp : Places m placed) (ts : List Traced) :
    units (replaceTraced m placed ts) = replace m (units ts) := units_replaceAllTraced hp 0 none ts

/-- At a unit either a match is replaced, or the unit stays. -/
theorem replaceAllTraced_cases (b : Option UInt16) (t : Traced) (ts : List Traced) :
    (∃ r n, m b (units (t :: ts)) = some (r, n + 1) ∧
      replaceAllTraced m placed 0 b (t :: ts) =
        placed (t :: ts) r ++ replaceAllTraced m placed n (some t.1) ts) ∨
    (∀ r n, m b (units (t :: ts)) ≠ some (r, n + 1)) ∧
      replaceAllTraced m placed 0 b (t :: ts) = t :: replaceAllTraced m placed 0 (some t.1) ts := by
  rw [replaceAllTraced]
  cases hmatch : m b (units (t :: ts)) with
  | none => exact Or.inr ⟨fun r n h => (by cases h), rfl⟩
  | some found =>
    obtain ⟨r, k⟩ := found
    cases k with
    | zero => exact Or.inr ⟨fun r n h => (by cases h), rfl⟩
    | succ k => exact Or.inl ⟨r, k, rfl, rfl⟩

/-- What is there of the input was there before, in the same order. -/
theorem fromInput_replaceAllTraced (hp : Places m placed) (n : ℕ) (b : Option UInt16) (ts : List Traced) :
    (fromInput (replaceAllTraced m placed n b ts)).Sublist (fromInput (ts.drop n)) := by
  induction ts generalizing n b with
  | nil => cases n <;> exact List.Sublist.refl _
  | cons t ts ih =>
    cases n with
    | succ n => exact ih n (some t.1)
    | zero =>
      rw [List.drop_zero]
      rcases replaceAllTraced_cases b t ts with ⟨r, k, hmatch, hwalk⟩ | ⟨-, hwalk⟩
      · have hsplit : fromInput (t :: ts) =
            fromInput ((t :: ts).take (k + 1)) ++ fromInput (ts.drop k) := by
          rw [fromInput, fromInput, fromInput, ← List.filter_append]
          exact congrArg _ (List.take_append_drop (k + 1) (t :: ts)).symm
        rw [hwalk, hsplit, fromInput, List.filter_append]
        exact (hp.sublist b (t :: ts) r k hmatch).append (ih k (some t.1))
      · rw [hwalk, fromInput, fromInput, List.filter_cons, List.filter_cons]
        split
        · exact (ih 0 (some t.1)).cons_cons t
        · exact ih 0 (some t.1)

theorem mem_of_mem_replaceAllTraced (hp : Places m placed) {n : ℕ} {b : Option UInt16} {ts : List Traced}
    {t : Traced} (ht : t.2.isSome = true) (h : t ∈ replaceAllTraced m placed n b ts) : t ∈ ts.drop n := by
  have hmem := (fromInput_replaceAllTraced hp n b ts).subset (List.mem_filter.2 ⟨h, ht⟩)
  exact (List.mem_filter.1 hmem).1

/-- What is put in has no place. -/
theorem places_inserted : Places m inserted where
  units b ts r n _ := by
    rw [inserted, JsString.units, List.map_map]
    exact List.map_id r
  sublist b ts r n _ := by
    have hnone : fromInput (inserted ts r) = [] := by
      refine List.filter_eq_nil_iff.2 fun t ht => ?_
      obtain ⟨u, -, rfl⟩ := List.mem_map.1 ht
      exact Bool.false_ne_true
    rw [hnone]
    exact List.nil_sublist _

theorem notMem_inserted {t : Traced} (ht : t.2.isSome = true) (ts : List Traced) (r : Units) :
    t ∉ inserted ts r := by
  intro h
  obtain ⟨u, -, rfl⟩ := List.mem_map.1 h
  cases ht

theorem units_trimBy (p : UInt16 → Bool) (ts : List Traced) :
    units (trimBy (fun t => p t.1) ts) = trimBy p (units ts) := by
  rw [units, units, trimBy, trimBy, List.dropWhile_map, ← List.map_reverse, List.dropWhile_map,
    ← List.map_reverse]
  rfl

/-! ## A part that does not come through whole -/

/-- A part of a text, before `b`, that a matcher cannot pass by: it begins a match, and a
match that reaches into it takes a unit of it away. -/
structure Breaks (m : Option UInt16 → Units → Option (Units × ℕ))
    (placed : List Traced → Units → List Traced) (s b : List Traced) : Prop where
  found : ∀ before, ∃ r n, m before (units (s ++ b)) = some (r, n + 1)
  reached : ∀ before a r n, (a ++ (s ++ b)).Nodup →
    m before (units (a ++ (s ++ b))) = some (r, n + 1) → a.length ≤ n →
    ∃ t ∈ s, t ∈ (a ++ (s ++ b)).take (n + 1) ∧ t ∉ placed (a ++ (s ++ b)) r

/-- The replacement of a match that reaches into such a part, and what the walk makes of the
rest, are without a unit of it. -/
theorem Breaks.dropped_of_match {a s b ts : List Traced} (hp : Places m placed) (hbreaks : Breaks m placed s b)
    (hs : ∀ t ∈ s, t.2.isSome = true) (hnodup : (a ++ (s ++ b)).Nodup) {t : Traced}
    (htext : a ++ (s ++ b) = t :: ts) {before : Option UInt16} {r : Units} {k : ℕ} (hk : a.length ≤ k)
    (hmatch : m before (units (a ++ (s ++ b))) = some (r, k + 1)) :
    ∃ w ∈ s, w ∉ placed (t :: ts) r ++ replaceAllTraced m placed k (some t.1) ts := by
  obtain ⟨w, hw, htake, hplaced⟩ := hbreaks.reached before a r k hnodup hmatch hk
  rw [htext] at hnodup htake hplaced
  refine ⟨w, hw, fun h => ?_⟩
  rcases List.mem_append.1 h with h | h
  · exact hplaced h
  · exact List.disjoint_take_drop hnodup (Nat.le_refl (k + 1)) htake
      (mem_of_mem_replaceAllTraced (b := some t.1) hp (hs w hw) h)

/-- The replacement of a match that ends before such a part has none of it. -/
theorem notMem_placed {a s b : List Traced} (hp : Places m placed) (hs : ∀ t ∈ s, t.2.isSome = true)
    (hnodup : (a ++ (s ++ b)).Nodup) {before : Option UInt16} {r : Units} {k : ℕ} (hk : k + 1 ≤ a.length)
    (hmatch : m before (units (a ++ (s ++ b))) = some (r, k + 1)) {w : Traced} (hw : w ∈ s) :
    w ∉ placed (a ++ (s ++ b)) r := by
  intro h
  have hsub := (hp.sublist before _ r k hmatch).subset (List.mem_filter.2 ⟨h, hs w hw⟩)
  have htake := (List.mem_filter.1 hsub).1
  rw [List.take_append_of_le_length hk] at htake
  exact hnodup.disjoint (List.mem_of_mem_take htake) (List.mem_append_left b hw)

/-- Wherever the walk begins before such a part, it takes a unit of it away. -/
theorem Breaks.exists_dropped {s b : List Traced} (hp : Places m placed) (hbreaks : Breaks m placed s b)
    (hs : ∀ t ∈ s, t.2.isSome = true) {a : List Traced} (hnodup : (a ++ (s ++ b)).Nodup) {n : ℕ}
    (hn : n ≤ a.length) (before : Option UInt16) :
    ∃ t ∈ s, t ∉ replaceAllTraced m placed n before (a ++ (s ++ b)) := by
  -- over what stands before the part; a match there ends before it or reaches into it
  induction a generalizing n before with
  | nil =>
    obtain rfl := Nat.le_zero.1 hn
    obtain ⟨r, k, hmatch⟩ := hbreaks.found before
    obtain ⟨w, hw, -, -⟩ := hbreaks.reached before [] r k hnodup hmatch (Nat.zero_le k)
    cases htext : s ++ b with
    | nil => exact absurd (List.mem_append_left b hw) (by rw [htext]; exact List.not_mem_nil)
    | cons t ts =>
      rw [List.nil_append]
      rcases replaceAllTraced_cases before t ts with ⟨r, k, hmatch, hwalk⟩ | ⟨hnone, -⟩
      · rw [hwalk]
        rw [← htext] at hmatch
        exact hbreaks.dropped_of_match hp hs (a := []) hnodup htext (Nat.zero_le k) hmatch
      · exact absurd (htext ▸ hmatch) (hnone r k)
  | cons x a ih =>
    obtain ⟨hx, hrest⟩ := List.nodup_cons.1 hnodup
    cases n with
    | succ n => exact ih hrest (Nat.le_of_succ_le_succ hn) (some x.1)
    | zero =>
      rcases replaceAllTraced_cases before x (a ++ (s ++ b)) with ⟨r, k, hmatch, hwalk⟩ | ⟨-, hwalk⟩
      · rw [List.cons_append, hwalk]
        by_cases hk : k ≤ a.length
        · obtain ⟨w, hw, hwalk⟩ := ih hrest hk (some x.1)
          refine ⟨w, hw, fun h => ?_⟩
          rcases List.mem_append.1 h with h | h
          · exact notMem_placed (a := x :: a) hp hs hnodup (Nat.succ_le_succ hk) hmatch hw h
          · exact hwalk h
        · exact hbreaks.dropped_of_match hp hs (a := x :: a) hnodup rfl (Nat.lt_of_not_le hk) hmatch
      · obtain ⟨w, hw, hwalk'⟩ := ih hrest (Nat.zero_le _) (some x.1)
        rw [List.cons_append, hwalk]
        refine ⟨w, hw, fun h => ?_⟩
        rcases List.mem_cons.1 h with rfl | h
        · exact hx (List.mem_append_right a (List.mem_append_left b hw))
        · exact hwalk' h

/-- Where nothing of a match is kept, a part that begins a match is broken. -/
theorem breaks_inserted {s b : List Traced} (hne : s ≠ []) (hs : ∀ t ∈ s, t.2.isSome = true)
    (hfound : ∀ before, ∃ r n, m before (units (s ++ b)) = some (r, n + 1)) : Breaks m inserted s b where
  found := hfound
  reached before a r n _ hmatch hn := by
    obtain ⟨t, s, rfl⟩ := List.exists_cons_of_ne_nil hne
    refine ⟨t, List.mem_cons_self, ?_, notMem_inserted (hs t List.mem_cons_self) _ r⟩
    refine List.mem_take_iff_getElem.2 ⟨a.length, ?_, ?_⟩
    · rw [List.length_append, List.cons_append, List.length_cons]
      omega
    · rw [List.getElem_append_right (Nat.le_refl _)]
      simp

/-! ## Texts that are all from the input -/

/-- Where the replacement keeps to units of the input, everything is from there. -/
theorem isSome_replaceAllTraced (hplaced : ∀ b ts r n, m b (units ts) = some (r, n + 1) →
    (∀ t ∈ ts, t.2.isSome = true) → ∀ t ∈ placed ts r, t.2.isSome = true)
    {ts : List Traced} (hts : ∀ t ∈ ts, t.2.isSome = true) (n : ℕ) (b : Option UInt16) :
    ∀ t ∈ replaceAllTraced m placed n b ts, t.2.isSome = true := by
  induction ts generalizing n b with
  | nil => cases n <;> exact fun t ht => absurd ht List.not_mem_nil
  | cons t ts ih =>
    have hrest := ih fun w hw => hts w (List.mem_cons_of_mem t hw)
    cases n with
    | succ n => exact hrest n (some t.1)
    | zero =>
      intro w hw
      rcases replaceAllTraced_cases b t ts with ⟨r, k, hmatch, hwalk⟩ | ⟨-, hwalk⟩
      · rw [hwalk] at hw
        rcases List.mem_append.1 hw with hw | hw
        · exact hplaced b (t :: ts) r k hmatch hts w hw
        · exact hrest k (some t.1) w hw
      · rw [hwalk] at hw
        rcases List.mem_cons.1 hw with rfl | hw
        · exact hts w List.mem_cons_self
        · exact hrest 0 (some t.1) w hw

/-- A replacement that puts in nothing new only leaves units out. -/
theorem sublist_replaceTraced (hp : Places m placed) (hplaced : ∀ b ts r n, m b (units ts) = some (r, n + 1) →
    (∀ t ∈ ts, t.2.isSome = true) → ∀ t ∈ placed ts r, t.2.isSome = true)
    {ts : List Traced} (hts : ∀ t ∈ ts, t.2.isSome = true) : (replaceTraced m placed ts).Sublist ts := by
  have h := fromInput_replaceAllTraced hp 0 none ts
  rw [List.drop_zero, fromInput, fromInput, List.filter_eq_self.2 hts,
    List.filter_eq_self.2 (isSome_replaceAllTraced hplaced hts 0 none)] at h
  exact h

end Traced

/-! ## The input as a traced text -/

theorem getElem?_tracedFrom (us : Units) (k : ℕ) : (tracedFrom us)[k]? = us[k]?.map fun u => (u, some k) := by
  rw [tracedFrom, List.getElem?_map, List.getElem?_zipIdx, Option.map_map]
  cases us[k]? <;> simp

theorem units_tracedFrom (us : Units) : units (tracedFrom us) = us := by
  rw [units, tracedFrom, List.map_map]
  exact List.zipIdx_map_fst 0 us

/-- A unit with a place is the one that stands there in the input. -/
theorem mem_tracedFrom {us : Units} {u : UInt16} {k : ℕ} : (u, some k) ∈ tracedFrom us ↔ us[k]? = some u := by
  rw [List.mem_iff_getElem?]
  constructor
  · rintro ⟨j, hj⟩
    rw [getElem?_tracedFrom] at hj
    obtain ⟨v, hv, heq⟩ := Option.map_eq_some_iff.1 hj
    obtain ⟨rfl, hplace⟩ := Prod.mk.inj heq
    obtain rfl := Option.some.inj hplace
    exact hv
  · intro h
    exact ⟨k, by rw [getElem?_tracedFrom, h]; rfl⟩

theorem isSome_tracedFrom {us : Units} : ∀ t ∈ tracedFrom us, t.2.isSome = true := by
  intro t ht
  obtain ⟨x, -, rfl⟩ := List.mem_map.1 ht
  rfl

theorem nodup_tracedFrom (us : Units) : (tracedFrom us).Nodup := by
  refine List.Nodup.map (fun x y h => ?_) ?_
  · obtain ⟨hunit, hplace⟩ := Prod.mk.inj h
    exact Prod.ext hunit (Option.some.inj hplace)
  · exact List.Nodup.of_map Prod.snd (by rw [List.zipIdx_map_snd]; exact List.nodup_range')

/-- Places that follow one another are a piece of the input. -/
theorem eq_piece_of_consecutive {us : Units} {part : List Traced} {i : ℕ} (hmem : ∀ t ∈ part, t ∈ tracedFrom us)
    (hplaces : part.map Prod.snd = (List.range' i part.length).map some) :
    part = ((tracedFrom us).drop i).take part.length := by
  refine List.ext_getElem? fun k => ?_
  by_cases hk : k < part.length
  · rw [List.getElem?_take_of_lt hk, List.getElem?_drop, List.getElem?_eq_getElem hk]
    have hplace : part[k].2 = some (i + k) := by
      have h := congrArg (·[k]?) hplaces
      simpa [hk] using h
    have h := hmem part[k] (List.getElem_mem hk)
    rw [show part[k] = (part[k].1, some (i + k)) from Prod.ext rfl hplace] at h ⊢
    rw [getElem?_tracedFrom, mem_tracedFrom.1 h]
    rfl
  · rw [List.getElem?_eq_none (Nat.le_of_not_lt hk), List.getElem?_take, if_neg hk]

/-- Where a text is left out of and a piece is still all there, the piece is in one piece. -/
theorem exists_append_of_sublist {α : Type*} {kept a s b : List α} (h : kept.Sublist (a ++ (s ++ b)))
    (hnodup : (a ++ (s ++ b)).Nodup) (hs : ∀ t ∈ s, t ∈ kept) : ∃ a' b', kept = a' ++ (s ++ b') := by
  obtain ⟨kept₁, kept₂, rfl, h₁, h₂⟩ := List.sublist_append_iff.1 h
  obtain ⟨kept₃, kept₄, rfl, h₃, h₄⟩ := List.sublist_append_iff.1 h₂
  have hsb := (List.nodup_append'.1 hnodup).2.1
  -- what stands in `s` stands in the middle part
  have hsub : s ⊆ kept₃ := by
    intro t ht
    rcases List.mem_append.1 (hs t ht) with hmem | hmem
    · exact absurd (List.mem_append_left b ht) (hnodup.disjoint (h₁.subset hmem))
    · rcases List.mem_append.1 hmem with hmem | hmem
      · exact hmem
      · exact absurd (h₄.subset hmem) (hsb.disjoint ht)
  have hlen := (List.subperm_of_subset (List.nodup_append'.1 hsb).1 hsub).length_le
  rw [h₃.eq_of_length_le hlen]
  exact ⟨kept₁, kept₄, rfl⟩

end JsString
