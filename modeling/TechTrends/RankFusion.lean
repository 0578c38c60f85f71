/-
What the constant of the rank fusion buys: agreement.

A row that both searches find scores at least `2 / (60 + L)` when each search gives its
first `L` rows, a row that one of them finds scores at most `1 / 61`. So the constant
goes with the limit on the candidates: up to 61 of them, a row found twice comes before
any row found once.
-/
import Mathlib.Tactic.FieldSimp
import Mathlib.Tactic.Positivity
import TechTrends.HybridSearch

set_option autoImplicit false

namespace TechTrends

/-! ## Sums of reciprocal ranks -/

/-- A better rank scores more. -/
theorem one_div_rank_lt {k m n : ℕ} (hm : 1 ≤ m) (h : m < n) : (1 : ℚ) / (k + n) < 1 / (k + m) := by
  have hm' : (1 : ℚ) ≤ m := by exact_mod_cast hm
  have h' : (m : ℚ) < n := by exact_mod_cast h
  exact one_div_lt_one_div_of_lt (by positivity) (by linarith)

/-- A rank within `k + 1` scores more than half of what the first rank does. -/
theorem half_lt_one_div_rank {k n : ℕ} (hn : 1 ≤ n) (h : n ≤ k + 1) :
    (1 : ℚ) / (2 * (k + 1)) < 1 / (k + n) := by
  have hn' : (1 : ℚ) ≤ n := by exact_mod_cast hn
  have h' : (n : ℚ) ≤ k + 1 := by exact_mod_cast h
  exact one_div_lt_one_div_of_lt (by positivity) (by linarith)

/-- With the constant `k`, two hits among the first `k + 1` score more than any one hit. -/
theorem two_hits_gt {k m n r : ℕ} (hm : 1 ≤ m ∧ m ≤ k + 1) (hn : 1 ≤ n ∧ n ≤ k + 1) (hr : 1 ≤ r) :
    (1 : ℚ) / (k + r) < 1 / (k + m) + 1 / (k + n) := by
  have hr' : (1 : ℚ) ≤ r := by exact_mod_cast hr
  have hk : (0 : ℚ) ≤ k := Nat.cast_nonneg k
  calc (1 : ℚ) / (k + r) ≤ 1 / (k + 1) := one_div_le_one_div_of_le (by positivity) (by linarith)
    _ = 1 / (2 * (k + 1)) + 1 / (2 * (k + 1)) := by field_simp; norm_num
    _ < 1 / (k + m) + 1 / (k + n) :=
      add_lt_add (half_lt_one_div_rank hm.1 hm.2) (half_lt_one_div_rank hn.1 hn.2)

/-! ## Earlier in a list -/

section Earlier

variable {α : Type*}

/-- Of two members of a list one stands before the other. -/
theorem pair_sublist_or {a b : α} {l : List α} (ha : a ∈ l) (hb : b ∈ l) (h : a ≠ b) :
    [a, b].Sublist l ∨ [b, a].Sublist l := by
  induction l with
  | nil => cases ha
  | cons x l ih =>
    rcases List.mem_cons.1 ha with rfl | ha'
    · have hb' := (List.mem_cons.1 hb).resolve_left h.symm
      exact Or.inl ((List.singleton_sublist.2 hb').cons_cons a)
    · rcases List.mem_cons.1 hb with rfl | hb'
      · exact Or.inr ((List.singleton_sublist.2 ha').cons_cons b)
      · exact (ih ha' hb').imp (fun hs => hs.cons x) fun hs => hs.cons x

/-- In an ordered list a row stands before those that may not come before it. -/
theorem pair_sublist_of_pairwise {R : α → α → Prop} {a b : α} {l : List α} (hl : l.Pairwise R)
    (ha : a ∈ l) (hb : b ∈ l) (hne : a ≠ b) (h : ¬ R b a) : [a, b].Sublist l := by
  rcases pair_sublist_or ha hb hne with hab | hba
  · exact hab
  · exact absurd (List.pairwise_iff_forall_sublist.1 hl hba) h

end Earlier

/-! ## The candidates -/

/-- The list of candidates has the row, at this rank. -/
def FoundAt (candidates : List TechTrendRepository.Ranked) (row : TechTrend) (rank : ℕ) : Prop :=
  (⟨row.id, rank⟩ : TechTrendRepository.Ranked) ∈ candidates

def Found (candidates : List TechTrendRepository.Ranked) (row : TechTrend) : Prop :=
  ∃ rank, FoundAt candidates row rank

/-- In every list that has `b`, the row `a` has a better rank. -/
def BetterWherever (lists : List (List TechTrendRepository.Ranked)) (a b : TechTrend) : Prop :=
  ∀ candidates ∈ lists, ∀ rank, FoundAt candidates b rank →
    ∃ better < rank, FoundAt candidates a better

section Scores

variable {Tsvector Tsquery Vector Rank Distance : Type} [LinearOrder Rank] [LinearOrder Distance]
  {pg : Postgres Tsvector Tsquery Vector Rank Distance} {settings : SearchSettings Distance}
  {table : TrendTable} {params : SearchParams} {vector : String} {a b row : TechTrend} {n : ℕ}

open TechTrendRepository (Ranked HybridScan keywordRanked vectorRanked keywordView vectorView
  mem_keywordRanked mem_vectorRanked id_injOn)

-- The two lists differ only in which rows are their best and how those are ranked, so what
-- is said of them is said once of a list with such a view of its rows.
/-- A row stands among the candidates with its number when the search has it with that rank. -/
theorem foundAt_iff {candidates : List Ranked} {Best : TechTrend → Prop} [DecidablePred Best]
    {rankOf : TechTrend → ℕ}
    (hmem : ∀ r, r ∈ candidates ↔
      ∃ other ∈ table.rows, (if Best other then some (Ranked.mk other.id (rankOf other)) else none) = some r)
    (hrow : row ∈ table.rows) : FoundAt candidates row n ↔ Best row ∧ rankOf row = n := by
  rw [FoundAt, hmem]
  constructor
  · rintro ⟨other, hother, hview⟩
    obtain ⟨hbest, heq⟩ := Option.ite_none_right_eq_some.1 hview
    obtain ⟨hid, hrank⟩ := Ranked.mk.inj (Option.some.inj heq)
    rw [← id_injOn hother hrow hid]
    exact ⟨hbest, hrank⟩
  · rintro ⟨hbest, rfl⟩
    exact ⟨row, hrow, if_pos hbest⟩

theorem found_iff {candidates : List Ranked} {best : Prop} {rank : ℕ}
    (hat : ∀ n, FoundAt candidates row n ↔ best ∧ rank = n) : Found candidates row ↔ best := by
  constructor
  · rintro ⟨n, hn⟩
    exact ((hat n).1 hn).1
  · intro hbest
    exact ⟨rank, (hat rank).2 ⟨hbest, rfl⟩⟩

/-- The better rank, in one of the lists. -/
theorem rank_lt_of_better {lists : List (List Ranked)} {candidates : List Ranked} {bestA bestB : Prop}
    {rankA rankB : ℕ} (ha : ∀ n, FoundAt candidates a n ↔ bestA ∧ rankA = n)
    (hb : ∀ n, FoundAt candidates b n ↔ bestB ∧ rankB = n) (hmem : candidates ∈ lists)
    (hbetter : BetterWherever lists a b) (hbest : bestB) : bestA ∧ rankA < rankB := by
  obtain ⟨n, hn, hat⟩ := hbetter candidates hmem rankB ((hb rankB).2 ⟨hbest, rfl⟩)
  obtain ⟨hbestA, hrank⟩ := (ha n).1 hat
  exact ⟨hbestA, hrank.trans_lt hn⟩

omit [LinearOrder Distance] in
theorem foundAt_keywordRanked (scan : Scan table) (hrow : row ∈ table.rows) (n : ℕ) :
    FoundAt (keywordRanked pg settings scan params) row n ↔
      KeywordBest pg settings table params row ∧ keywordRank pg table params row = n :=
  foundAt_iff (fun _ => mem_keywordRanked scan) hrow

omit [LinearOrder Rank] in
theorem foundAt_vectorRanked (scan : Scan table) (hrow : row ∈ table.rows) (n : ℕ) :
    FoundAt (vectorRanked pg settings scan params vector) row n ↔
      VectorBest pg settings table params vector row ∧
        vectorRank pg settings table params vector row = n :=
  foundAt_iff (fun _ => mem_vectorRanked scan) hrow

/-! ## Scores -/

theorem one_le_rankAmong (before : TechTrend → TechTrend → Prop) [DecidableRel before]
    (rows : List TechTrend) : 1 ≤ rankAmong before rows row := Nat.le_add_left 1 _

/-- A row of both lists scores more than a row of one list, with at most 61 candidates each:
two times the last rank is more than the first one once. -/
theorem rrfScore_lt_of_both (hlimit : settings.searchCandidateLimit ≤ 61)
    (hk : KeywordBest pg settings table params a) (hv : VectorBest pg settings table params vector a)
    (hone : ¬ (KeywordBest pg settings table params b ∧ VectorBest pg settings table params vector b)) :
    rrfScore pg settings table params vector b < rrfScore pg settings table params vector a := by
  have hkrank : 1 ≤ keywordRank pg table params a ∧ keywordRank pg table params a ≤ 60 + 1 :=
    ⟨one_le_rankAmong _ _, hk.2.trans hlimit⟩
  have hvrank : 1 ≤ vectorRank pg settings table params vector a ∧
      vectorRank pg settings table params vector a ≤ 60 + 1 := ⟨one_le_rankAmong _ _, hv.2.trans hlimit⟩
  rw [rrfScore, rrfScore, if_pos hk, if_pos hv]
  -- what `b` scores is one reciprocal rank, or nothing at all
  by_cases hkb : KeywordBest pg settings table params b
  · have hvb : ¬ VectorBest pg settings table params vector b := fun h => hone ⟨hkb, h⟩
    rw [if_pos hkb, if_neg hvb, add_zero]
    exact two_hits_gt hkrank hvrank (one_le_rankAmong _ _)
  · rw [if_neg hkb, zero_add]
    by_cases hvb : VectorBest pg settings table params vector b
    · rw [if_pos hvb]
      exact two_hits_gt hkrank hvrank (one_le_rankAmong _ _)
    · rw [if_neg hvb]
      positivity

/-- A row that is better in every list of another scores more. In a list that the other is not
in, it can only gain. -/
theorem rrfScore_lt_of_better
    (hfound : KeywordBest pg settings table params b ∨ VectorBest pg settings table params vector b)
    (hk : KeywordBest pg settings table params b → KeywordBest pg settings table params a ∧
      keywordRank pg table params a < keywordRank pg table params b)
    (hv : VectorBest pg settings table params vector b → VectorBest pg settings table params vector a ∧
      vectorRank pg settings table params vector a < vectorRank pg settings table params vector b) :
    rrfScore pg settings table params vector b < rrfScore pg settings table params vector a := by
  have hkeyword : ∀ h : KeywordBest pg settings table params b,
      (1 : ℚ) / (60 + keywordRank pg table params b) < 1 / (60 + keywordRank pg table params a) :=
    fun h => one_div_rank_lt (one_le_rankAmong _ _) (hk h).2
  have hvector : ∀ h : VectorBest pg settings table params vector b,
      (1 : ℚ) / (60 + vectorRank pg settings table params vector b) <
        1 / (60 + vectorRank pg settings table params vector a) :=
    fun h => one_div_rank_lt (one_le_rankAmong _ _) (hv h).2
  rw [rrfScore, rrfScore]
  -- where `b` has no rank, `a` scores nothing less than it, and somewhere `b` has one
  by_cases hkb : KeywordBest pg settings table params b
  · rw [if_pos hkb, if_pos (hk hkb).1]
    by_cases hvb : VectorBest pg settings table params vector b
    · rw [if_pos hvb, if_pos (hv hvb).1]
      exact add_lt_add (hkeyword hkb) (hvector hvb)
    · rw [if_neg hvb]
      refine add_lt_add_of_lt_of_le (hkeyword hkb) ?_
      split
      · positivity
      · exact le_refl 0
  · have hvb := hfound.resolve_left hkb
    rw [if_neg hkb, if_pos hvb, if_pos (hv hvb).1]
    refine add_lt_add_of_le_of_lt ?_ (hvector hvb)
    split
    · positivity
    · exact le_refl 0

/-! ## The order of the result -/

/-- The ids on the pages of a hybrid search, one page after the other. -/
def pagedIds (pg : Postgres Tsvector Tsquery Vector Rank Distance) (settings : SearchSettings Distance)
    (params : SearchParams) (vector : List Json) (dataScan countScan : ℕ → HybridScan table) : List ℕ :=
  let result := fun p => TechTrendRepository.searchHybrid pg settings (dataScan p) (countScan p)
    { params with page := p } vector
  ((List.range (Sql.pageCount (result 1).totalCount params.limit)).flatMap
    fun p => (result (p + 1)).data).map fun row => row.id

/-- The ids are those of the fused rows, in an order that the scores allow. -/
theorem exists_order_of_pagedIds (pg : Postgres Tsvector Tsquery Vector Rank Distance)
    (settings : SearchSettings Distance) (params : SearchParams) (vector : List Json)
    (hlimit : 1 ≤ params.limit) (dataScan countScan : ℕ → HybridScan table) :
    ∃ ordered : List TechTrend,
      ordered.Perm (fusedRows pg settings table params (TechTrendRepository.vectorString vector)) ∧
      ordered.Pairwise
        (ScoresBefore pg settings table params (TechTrendRepository.vectorString vector)) ∧
      pagedIds pg settings params vector dataScan countScan = ordered.map fun row => row.id := by
  obtain ⟨htotals, ordered, hperm, hpairwise, hpaged⟩ :=
    searchHybrid_listing pg settings params vector hlimit dataScan countScan
  refine ⟨ordered, hperm, hpairwise, ?_⟩
  have htotal := (htotals 1).trans hperm.length_eq.symm
  have hconcat := hpaged.concat
  rw [List.length_map, ← htotal] at hconcat
  rw [pagedIds, hconcat, List.map_map]
  rfl

/-- The row with the greater score is listed earlier. -/
theorem sublist_of_rrfScore_lt {ordered : List TechTrend}
    (hperm : ordered.Perm (fusedRows pg settings table params vector))
    (hpairwise : ordered.Pairwise (ScoresBefore pg settings table params vector))
    (ha : a ∈ fusedRows pg settings table params vector)
    (hb : b ∈ fusedRows pg settings table params vector)
    (hscore : rrfScore pg settings table params vector b < rrfScore pg settings table params vector a) :
    [a.id, b.id].Sublist (ordered.map fun row => row.id) := by
  have hne : a ≠ b := fun h => absurd hscore (by rw [h]; exact lt_irrefl _)
  -- a smaller score comes before a greater one neither by the score nor by a tie
  have hnot : ¬ ScoresBefore pg settings table params vector b a := by
    rintro (h | ⟨h, -⟩)
    · exact lt_asymm h hscore
    · exact absurd hscore (by rw [h]; exact lt_irrefl _)
  exact (pair_sublist_of_pairwise hpairwise (hperm.mem_iff.2 ha) (hperm.mem_iff.2 hb) hne hnot).map _

end Scores

/-- **Agreement comes first.** With at most 61 candidates a search, the pages of a hybrid
search put together list every row that both searches found before every row that one of
them found, and a row that is better in each list of another before that one. -/
theorem agreement_first {Tsvector Tsquery Vector Rank Distance : Type} [LinearOrder Rank]
    [LinearOrder Distance] (pg : Postgres Tsvector Tsquery Vector Rank Distance)
    (settings : SearchSettings Distance) (table : TrendTable) (params : SearchParams)
    (vector : List Json) (hlimit : 1 ≤ params.limit)
    (hcandidates : 1 ≤ settings.searchCandidateLimit ∧ settings.searchCandidateLimit ≤ 61)
    (scan : TechTrendRepository.HybridScan table)
    (dataScan countScan : ℕ → TechTrendRepository.HybridScan table) :
    let keyword := TechTrendRepository.keywordRanked pg settings scan.keyword params
    let nearest := TechTrendRepository.vectorRanked pg settings scan.vector params
      (TechTrendRepository.vectorString vector)
    let ids := pagedIds pg settings params vector dataScan countScan
    ids.Nodup ∧
    (∀ a ∈ table.rows, ∀ b ∈ table.rows, Found keyword a ∧ Found nearest a →
      Xor (Found keyword b) (Found nearest b) → [a.id, b.id].Sublist ids) ∧
    ∀ a ∈ table.rows, ∀ b ∈ table.rows, Found keyword b ∨ Found nearest b →
      BetterWherever [keyword, nearest] a b → [a.id, b.id].Sublist ids := by
  intro keyword nearest ids
  obtain ⟨ordered, hperm, hpairwise, hids⟩ :=
    exists_order_of_pagedIds pg settings params vector hlimit dataScan countScan
  have hrows : ∀ {row}, row ∈ ordered → row ∈ table.rows := fun hrow =>
    (List.mem_filter.1 (hperm.mem_iff.1 hrow)).1
  have hmem : ∀ {row}, row ∈ table.rows → KeywordBest pg settings table params row ∨
      VectorBest pg settings table params (TechTrendRepository.vectorString vector) row →
      row ∈ fusedRows pg settings table params (TechTrendRepository.vectorString vector) :=
    fun hrow hbest => List.mem_filter.2 ⟨hrow, decide_eq_true hbest⟩
  refine ⟨?_, ?_, ?_⟩
  · -- ids of a table are distinct, so no page repeats one
    show (pagedIds pg settings params vector dataScan countScan).Nodup
    rw [hids]
    exact List.Nodup.map_on
      (fun a ha b hb h => TechTrendRepository.id_injOn (hrows ha) (hrows hb) h)
      (hperm.nodup_iff.2 ((TechTrendRepository.nodup_rows table).filter _))
  · -- up to 61 candidates, two reciprocal ranks always beat one
    intro a ha b hb hboth hone
    rw [found_iff (foundAt_keywordRanked scan.keyword ha), found_iff (foundAt_vectorRanked scan.vector ha)]
      at hboth
    rw [found_iff (foundAt_keywordRanked scan.keyword hb), found_iff (foundAt_vectorRanked scan.vector hb)]
      at hone
    have hscore := rrfScore_lt_of_both (b := b) hcandidates.2 hboth.1 hboth.2
      (fun h => hone.elim (fun ho => ho.2 h.2) fun ho => ho.2 h.1)
    have hlisted := sublist_of_rrfScore_lt hperm hpairwise (hmem ha (Or.inl hboth.1))
      (hmem hb (hone.imp And.left And.left)) hscore
    rwa [← hids] at hlisted
  · -- a row that ranks better wherever the other ranks has the higher score
    intro a ha b hb hfound hbetter
    rw [found_iff (foundAt_keywordRanked scan.keyword hb), found_iff (foundAt_vectorRanked scan.vector hb)]
      at hfound
    have hk := rank_lt_of_better (foundAt_keywordRanked scan.keyword ha)
      (foundAt_keywordRanked scan.keyword hb) List.mem_cons_self hbetter
    have hv := rank_lt_of_better (foundAt_vectorRanked scan.vector ha)
      (foundAt_vectorRanked scan.vector hb) (List.mem_cons_of_mem _ List.mem_cons_self) hbetter
    have hlisted := sublist_of_rrfScore_lt hperm hpairwise
      (hmem ha (hfound.imp (fun h => (hk h).1) fun h => (hv h).1)) (hmem hb hfound)
      (rrfScore_lt_of_better hfound hk hv)
    rwa [← hids] at hlisted

/-- The older post is second by keyword, and first of all since it is near, too. -/
theorem agreement_first_vectorAndKeyword :
    [1, 2].Sublist (pagedIds Postgres.small ⟨61, 0⟩ ⟨1, 1, "react", "ALL", false, none⟩ smallVector
      (fun _ => vectorAndKeywordScan) fun _ => vectorAndKeywordScan) := by
  have hkeyword : TechTrendRepository.keywordRanked Postgres.small ⟨61, 0⟩ vectorAndKeywordScan.keyword
      ⟨1, 1, "react", "ALL", false, none⟩ = [⟨2, 1⟩, ⟨1, 2⟩] := by decide +kernel
  have hnearest : TechTrendRepository.vectorRanked Postgres.small ⟨61, 0⟩ vectorAndKeywordScan.vector
      ⟨1, 1, "react", "ALL", false, none⟩ (TechTrendRepository.vectorString smallVector) =
        [⟨1, 1⟩] := by decide +kernel
  obtain ⟨-, hagree, -⟩ := agreement_first Postgres.small ⟨61, 0⟩ vectorAndKeyword
    ⟨1, 1, "react", "ALL", false, none⟩ smallVector (by decide) (by decide) vectorAndKeywordScan
    (fun _ => vectorAndKeywordScan) fun _ => vectorAndKeywordScan
  rw [hkeyword, hnearest] at hagree
  refine hagree _ List.mem_cons_self _ (List.mem_cons_of_mem _ List.mem_cons_self) ⟨⟨2, ?_⟩, 1, ?_⟩
    (Or.inl ⟨⟨1, ?_⟩, ?_⟩)
  · show _ ∈ _
    decide
  · show _ ∈ _
    decide
  · show _ ∈ _
    decide
  · rintro ⟨rank, hat⟩
    exact absurd (List.mem_singleton.1 hat) (by simp [samplePost])

end TechTrends
