/-
Hybrid search as rank fusion.

The reference says which rows are the best of each search and what a row scores
(`keywordBest`, `vectorBest`, `rrfScore`). The statements number, cut, join, drop
duplicates and join again, twice and apart; both come to the rows of the reference.
-/
import TechTrends.TrendPaging

set_option autoImplicit false

namespace TechTrends

open Sql (OrderItem Separates Listing)

variable {Tsvector Tsquery Vector Rank Distance : Type}

/-! ## Reference -/

/-- One more than the number of rows that come before the row. -/
def rankAmong (before : TechTrend → TechTrend → Prop) [DecidableRel before] (rows : List TechTrend)
    (row : TechTrend) : ℕ :=
  rows.countP (fun other => before other row) + 1

section Reference

variable (pg : Postgres Tsvector Tsquery Vector Rank Distance)

/-- The later day first, then the greater id. -/
def NewerFirst (a b : TechTrend) : Prop :=
  pg.createdAt b < pg.createdAt a ∨ pg.createdAt a = pg.createdAt b ∧ b.id < a.id

instance : DecidableRel (NewerFirst pg) := fun a b => by
  unfold NewerFirst
  infer_instance

/-- The better match first. -/
def MoreRelevant [LinearOrder Rank] (search : String) (a b : TechTrend) : Prop :=
  pg.relevance search b < pg.relevance search a ∨
    pg.relevance search a = pg.relevance search b ∧ NewerFirst pg a b

instance [LinearOrder Rank] (search : String) : DecidableRel (MoreRelevant pg search) :=
  fun a b => by
    unfold MoreRelevant
    infer_instance

/-- The nearer row first. -/
def Nearer [LinearOrder Distance] (vector : String) (a b : TechTrend) : Prop :=
  match TechTrendRepository.distanceTo pg vector a, TechTrendRepository.distanceTo pg vector b with
  | some x, some y => x < y ∨ x = y ∧ NewerFirst pg a b
  | _, _ => False

instance [LinearOrder Distance] (vector : String) : DecidableRel (Nearer pg vector) :=
  fun a b => by
    unfold Nearer
    split <;> infer_instance

/-- The row has a distance, which is within the threshold. -/
def WithinThreshold [LinearOrder Distance] (threshold : Distance) (vector : String)
    (row : TechTrend) : Prop :=
  ∃ d, TechTrendRepository.distanceTo pg vector row = some d ∧ d ≤ threshold

instance [LinearOrder Distance] (threshold : Distance) (vector : String) :
    DecidablePred (WithinThreshold pg threshold vector) := fun row =>
  match h : TechTrendRepository.distanceTo pg vector row with
  | some d => decidable_of_iff (d ≤ threshold) (by simp [WithinThreshold, h])
  | none => isFalse (by simp [WithinThreshold, h])

variable [LinearOrder Rank] [LinearOrder Distance] (settings : SearchSettings Distance)
  (table : TrendTable) (params : SearchParams) (vector : String)

/-- The rows that the keyword query finds. -/
def keywordMatches : List TechTrend :=
  table.rows.filter fun row =>
    Selected pg params.source params.isNew row ∧ pg.found params.search row = true

/-- The rows that the vector query finds. -/
def vectorMatches : List TechTrend :=
  table.rows.filter fun row =>
    Selected pg params.source params.isNew row ∧
      WithinThreshold pg settings.vectorDistanceThreshold vector row

/-- The rank of a keyword match. -/
def keywordRank (row : TechTrend) : ℕ :=
  rankAmong (MoreRelevant pg params.search) (keywordMatches pg table params) row

/-- The rank of a near row. -/
def vectorRank (row : TechTrend) : ℕ :=
  rankAmong (Nearer pg vector) (vectorMatches pg settings table params vector) row

/-- The row is one of the best keyword matches. -/
def KeywordBest (row : TechTrend) : Prop :=
  row ∈ keywordMatches pg table params ∧
    keywordRank pg table params row ≤ settings.searchCandidateLimit

/-- The row is one of the nearest rows. -/
def VectorBest (row : TechTrend) : Prop :=
  row ∈ vectorMatches pg settings table params vector ∧
    vectorRank pg settings table params vector row ≤ settings.searchCandidateLimit

instance : DecidablePred (KeywordBest pg settings table params) := fun row => by
  unfold KeywordBest
  infer_instance

instance : DecidablePred (VectorBest pg settings table params vector) := fun row => by
  unfold VectorBest
  infer_instance

/-- The sum of `1 / (60 + rank)` over the searches that the row is one of the best of. -/
def rrfScore (row : TechTrend) : ℚ :=
  (if KeywordBest pg settings table params row then
    1 / (60 + (keywordRank pg table params row : ℚ)) else 0) +
  if VectorBest pg settings table params vector row then
    1 / (60 + (vectorRank pg settings table params vector row : ℚ)) else 0

/-- The greater score first. -/
def ScoresBefore (a b : TechTrend) : Prop :=
  rrfScore pg settings table params vector b < rrfScore pg settings table params vector a ∨
    rrfScore pg settings table params vector a = rrfScore pg settings table params vector b ∧
      NewerFirst pg a b

/-- The rows that are among the best of either search. -/
def fusedRows : List TechTrend :=
  table.rows.filter fun row =>
    KeywordBest pg settings table params row ∨ VectorBest pg settings table params vector row

end Reference

namespace TechTrendRepository

variable {pg : Postgres Tsvector Tsquery Vector Rank Distance} {table : TrendTable}

/-! ## Candidates -/

/-- The rows of a candidate query: those whose rank is within the limit. -/
theorem mem_ranked {items : List (OrderItem TechTrend)} (hsep : Separates items table.rows)
    (scan : Scan table) (where_ : TechTrend → Bool) (limit : ℕ) {r : Ranked} :
    r ∈ ranked items limit (scan.rows.filter where_) ↔
      ∃ row ∈ table.rows.filter where_, Sql.rank items (table.rows.filter where_) row ≤ limit ∧
        r = ⟨row.id, Sql.rank items (table.rows.filter where_) row⟩ := by
  have hperm := scan.perm.filter where_
  have hnodup : (scan.rows.filter where_).Nodup :=
    hperm.nodup_iff.2 ((nodup_rows table).filter _)
  have hsub : scan.rows.filter where_ ⊆ table.rows := fun row hrow =>
    scan.perm.mem_iff.1 (List.mem_filter.1 hrow).1
  have hrank : ∀ row, Sql.rank items (scan.rows.filter where_) row =
      Sql.rank items (table.rows.filter where_) row := fun row => by
    rw [Sql.rank, Sql.rank, hperm.countP_eq]
  rw [ranked, List.mem_map]
  constructor
  · rintro ⟨⟨row, n⟩, hmem, rfl⟩
    obtain ⟨hrow, rfl, hle⟩ := (Sql.mem_take_rowNumber hnodup (hsep.subset hsub) limit).1 hmem
    rw [hrank] at hle ⊢
    exact ⟨row, hperm.mem_iff.1 hrow, hle, rfl⟩
  · rintro ⟨row, hrow, hle, rfl⟩
    rw [← hrank] at hle ⊢
    exact ⟨(row, _), (Sql.mem_take_rowNumber hnodup (hsep.subset hsub) limit).2
      ⟨hperm.mem_iff.2 hrow, rfl, hle⟩, rfl⟩

/-- Ranks count the rows that the criteria put before a row. -/
theorem rank_eq_rankAmong {items : List (OrderItem TechTrend)}
    {before : TechTrend → TechTrend → Prop} [DecidableRel before] {rows : List TechTrend}
    (h : ∀ a ∈ rows, ∀ b ∈ rows, Sql.LT items a b ↔ before a b) {row : TechTrend}
    (hrow : row ∈ rows) : Sql.rank items rows row = rankAmong before rows row := by
  rw [Sql.rank, rankAmong]
  congr 1
  refine List.countP_congr fun other hother => ?_
  rw [decide_eq_true_iff, decide_eq_true_iff]
  exact h other hother row hrow

/-- The criteria of the statements are the orders of the reference: the newer day first, and
the greater id on one day. -/
theorem newerFirst_iff {a b : TechTrend} :
    Sql.LT [OrderItem.desc pg.createdAt, OrderItem.desc fun row : TechTrend => row.id] a b ↔
      NewerFirst pg a b := by
  simp only [Sql.LT_cons_iff, Sql.LT_nil, OrderItem.desc_cmp_lt, OrderItem.desc_cmp_eq, and_false,
    or_false, NewerFirst]

theorem moreRelevant_iff [LinearOrder Rank] {search : String} {a b : TechTrend} :
    Sql.LT (keywordItems pg search) a b ↔ MoreRelevant pg search a b := by
  rw [keywordItems, Sql.LT_cons_iff, newerFirst_iff, OrderItem.desc_cmp_lt, OrderItem.desc_cmp_eq,
    MoreRelevant]

/-- Among rows that have a distance. -/
theorem nearer_iff [LinearOrder Distance] {vector : String} {a b : TechTrend} {x y : Distance}
    (ha : distanceTo pg vector a = some x) (hb : distanceTo pg vector b = some y) :
    Sql.LT (vectorItems pg vector) a b ↔ Nearer pg vector a b := by
  rw [vectorItems, Sql.LT_cons_iff, newerFirst_iff, OrderItem.asc_cmp_lt, OrderItem.asc_cmp_eq,
    Nearer, ha, hb]
  show WithTop.some x < WithTop.some y ∨ WithTop.some x = WithTop.some y ∧ _ ↔ _
  rw [WithTop.coe_lt_coe, WithTop.coe_inj]

/-- A row without a vector is not near. -/
theorem isNear_iff [LinearOrder Distance] {threshold : Distance} {vector : String}
    {row : TechTrend} :
    isNear pg threshold vector row = true ↔ WithinThreshold pg threshold vector row := by
  unfold isNear WithinThreshold
  cases distanceTo pg vector row <;> simp

section Views

variable [LinearOrder Rank] [LinearOrder Distance] {settings : SearchSettings Distance}
  {params : SearchParams} {vector : String}

omit [LinearOrder Rank] [LinearOrder Distance] in
theorem keywordMatches_eq :
    table.rows.filter (keywordWhere pg params.search params.source params.isNew) =
      keywordMatches pg table params := filter_keywordWhere _ _ _ _

omit [LinearOrder Rank] in
theorem vectorMatches_eq :
    table.rows.filter (vectorWhere pg settings vector params.source params.isNew) =
      vectorMatches pg settings table params vector := by
  refine List.filter_congr fun row _ => ?_
  rw [Bool.eq_iff_iff, vectorWhere, Bool.and_eq_true, commonWhere_iff, isNear_iff,
    decide_eq_true_iff]

/-- What there is of a row in `keyword_ranked`. -/
def keywordView (pg : Postgres Tsvector Tsquery Vector Rank Distance)
    (settings : SearchSettings Distance) (table : TrendTable) (params : SearchParams)
    (row : TechTrend) : Option Ranked :=
  if KeywordBest pg settings table params row then
    some ⟨row.id, keywordRank pg table params row⟩
  else none

/-- What there is of a row in `vector_ranked`. -/
def vectorView (pg : Postgres Tsvector Tsquery Vector Rank Distance)
    (settings : SearchSettings Distance) (table : TrendTable) (params : SearchParams)
    (vector : String) (row : TechTrend) : Option Ranked :=
  if VectorBest pg settings table params vector row then
    some ⟨row.id, vectorRank pg settings table params vector row⟩
  else none

omit [LinearOrder Distance] in
/-- The keyword candidates are what the reference has of each row, whatever order the table is
read in. -/
theorem mem_keywordRanked (scan : Scan table) {r : Ranked} :
    r ∈ keywordRanked pg settings scan params ↔
      ∃ row ∈ table.rows, keywordView pg settings table params row = some r := by
  have hsep : Separates (keywordItems pg params.search) table.rows :=
    separates_of_id (Or.inl (by simp [keywordItems]))
  have hrank : ∀ row ∈ keywordMatches pg table params,
      Sql.rank (keywordItems pg params.search) (keywordMatches pg table params) row =
        keywordRank pg table params row := fun row hrow =>
    rank_eq_rankAmong (fun _ _ _ _ => moreRelevant_iff) hrow
  rw [keywordRanked, mem_ranked hsep, keywordMatches_eq]
  constructor
  · rintro ⟨row, hrow, hle, rfl⟩
    rw [hrank row hrow] at hle ⊢
    exact ⟨row, (List.mem_filter.1 hrow).1, if_pos ⟨hrow, hle⟩⟩
  · rintro ⟨row, -, hview⟩
    obtain ⟨⟨hrow, hle⟩, heq⟩ := Option.ite_none_right_eq_some.1 hview
    rw [← hrank row hrow] at hle heq
    exact ⟨row, hrow, hle, (Option.some.inj heq).symm⟩

omit [LinearOrder Rank] in
/-- The vector candidates are what the reference has of each row, whatever order the table is
read in. All of them have a distance, which the order by nearness asks for. -/
theorem mem_vectorRanked (scan : Scan table) {r : Ranked} :
    r ∈ vectorRanked pg settings scan params vector ↔
      ∃ row ∈ table.rows, vectorView pg settings table params vector row = some r := by
  have hsep : Separates (vectorItems pg vector) table.rows :=
    separates_of_id (Or.inl (by simp [vectorItems]))
  have hnearer : ∀ a ∈ vectorMatches pg settings table params vector,
      ∀ b ∈ vectorMatches pg settings table params vector,
      Sql.LT (vectorItems pg vector) a b ↔ Nearer pg vector a b := by
    intro a ha b hb
    obtain ⟨-, x, hx, -⟩ := of_decide_eq_true (List.mem_filter.1 ha).2
    obtain ⟨-, y, hy, -⟩ := of_decide_eq_true (List.mem_filter.1 hb).2
    exact nearer_iff hx hy
  have hrank : ∀ row ∈ vectorMatches pg settings table params vector,
      Sql.rank (vectorItems pg vector) (vectorMatches pg settings table params vector) row =
        vectorRank pg settings table params vector row := fun row hrow =>
    rank_eq_rankAmong hnearer hrow
  rw [vectorRanked, mem_ranked hsep, vectorMatches_eq]
  constructor
  · rintro ⟨row, hrow, hle, rfl⟩
    rw [hrank row hrow] at hle ⊢
    exact ⟨row, (List.mem_filter.1 hrow).1, if_pos ⟨hrow, hle⟩⟩
  · rintro ⟨row, -, hview⟩
    obtain ⟨⟨hrow, hle⟩, heq⟩ := Option.ite_none_right_eq_some.1 hview
    rw [← hrank row hrow] at hle heq
    exact ⟨row, hrow, hle, (Option.some.inj heq).symm⟩

/-! ## Fusion -/

/-- Each fused row is joined once, with all there is of it. -/
theorem mem_joined (scan : HybridScan table) {x y : Option Ranked} :
    (x, y) ∈ joined pg settings scan params vector ↔
      ∃ row ∈ table.rows, x = keywordView pg settings table params row ∧
        y = vectorView pg settings table params vector row ∧
        ¬ (keywordView pg settings table params row = none ∧
          vectorView pg settings table params vector row = none) := by
  refine Sql.mem_fullOuterJoin_of_views (fun a => mem_keywordRanked scan.keyword)
    (fun b => mem_vectorRanked scan.vector) ?_
  intro i hi j hj a b ha hb
  obtain ⟨-, heq⟩ := Option.ite_none_right_eq_some.1 ha
  obtain ⟨-, heq'⟩ := Option.ite_none_right_eq_some.1 hb
  obtain rfl := Option.some.inj heq
  obtain rfl := Option.some.inj heq'
  rw [decide_eq_true_iff]
  exact ⟨fun h => id_injOn hi hj h, fun h => congrArg (fun row : TechTrend => row.id) h⟩

/-- The row is among the best of either search. -/
abbrev Fused (pg : Postgres Tsvector Tsquery Vector Rank Distance)
    (settings : SearchSettings Distance) (table : TrendTable) (params : SearchParams)
    (vector : String) (row : TechTrend) : Prop :=
  KeywordBest pg settings table params row ∨ VectorBest pg settings table params vector row

theorem fused_iff {row : TechTrend} :
    ¬ (keywordView pg settings table params row = none ∧
      vectorView pg settings table params vector row = none) ↔
      Fused pg settings table params vector row := by
  unfold keywordView vectorView
  by_cases hk : KeywordBest pg settings table params row <;>
    by_cases hv : VectorBest pg settings table params vector row <;> simp [Fused, hk, hv]

theorem coalesceId_views {row : TechTrend} (h : Fused pg settings table params vector row) :
    coalesceId (keywordView pg settings table params row,
      vectorView pg settings table params vector row) = some row.id := by
  unfold coalesceId keywordView vectorView
  by_cases hk : KeywordBest pg settings table params row
  · simp [hk]
  · have hv := h.resolve_left hk
    simp [hk, hv]

/-- The sum of the reciprocals, 0 for a search that does not have the row, is the score of the
reference. -/
theorem score_views (row : TechTrend) :
    reciprocal (keywordView pg settings table params row) +
      reciprocal (vectorView pg settings table params vector row) =
      rrfScore pg settings table params vector row := by
  unfold reciprocal keywordView vectorView rrfScore rrfK
  by_cases hk : KeywordBest pg settings table params row <;>
    by_cases hv : VectorBest pg settings table params vector row <;> simp [hk, hv]

/-- The rows of `rrf`: one for each fused row, with its score. -/
theorem mem_rrf (scan : HybridScan table) {r : Rrf} :
    r ∈ rrf pg settings scan params vector ↔
      ∃ row ∈ table.rows, Fused pg settings table params vector row ∧
        r = ⟨some row.id, rrfScore pg settings table params vector row⟩ := by
  rw [rrf, List.mem_dedup, List.mem_map]
  constructor
  · rintro ⟨⟨x, y⟩, hmem, rfl⟩
    obtain ⟨row, hrow, rfl, rfl, hsome⟩ := (mem_joined scan).1 hmem
    have hfused := fused_iff.1 hsome
    exact ⟨row, hrow, hfused, by rw [coalesceId_views hfused, score_views]⟩
  · rintro ⟨row, hrow, hfused, rfl⟩
    exact ⟨_, (mem_joined scan).2 ⟨row, hrow, rfl, rfl, fused_iff.2 hfused⟩,
      by rw [coalesceId_views hfused, score_views]⟩

/-- A row with its row of `rrf`. -/
def scored (pg : Postgres Tsvector Tsquery Vector Rank Distance)
    (settings : SearchSettings Distance) (table : TrendTable) (params : SearchParams)
    (vector : String) (row : TechTrend) : TechTrend × Rrf :=
  (row, ⟨some row.id, rrfScore pg settings table params vector row⟩)

/-- The join back to the table selects the fused rows, in the order that it reads. -/
theorem join_rrf (scan : HybridScan table) :
    Sql.innerJoin (fun trend rrf => rrf.id = some trend.id) scan.trend.rows
        (rrf pg settings scan params vector) =
      (scan.trend.rows.filter (Fused pg settings table params vector)).map
        (scored pg settings table params vector) := by
  have hnodup : (rrf pg settings scan params vector).Nodup := List.nodup_dedup _
  refine Sql.innerJoin_eq hnodup ?_
  intro row hrow r
  have hrow : row ∈ table.rows := scan.trend.perm.mem_iff.1 hrow
  rw [mem_rrf, decide_eq_true_iff, decide_eq_true_iff]
  constructor
  · rintro ⟨⟨other, hother, hfused, rfl⟩, hid⟩
    obtain rfl := id_injOn hother hrow (Option.some.inj hid)
    exact ⟨hfused, rfl⟩
  · rintro ⟨hfused, rfl⟩
    exact ⟨⟨row, hrow, hfused, rfl⟩, rfl⟩

/-- The statement for the number of rows counts the fused rows: `DISTINCT` ids of the join,
each row once. -/
theorem length_ids (scan : HybridScan table) :
    ((joined pg settings scan params vector).map coalesceId).dedup.length =
      (fusedRows pg settings table params vector).length := by
  have hnodup : ((fusedRows pg settings table params vector).map
      fun row => some row.id).Nodup := by
    refine List.Nodup.map_on ?_ ((nodup_rows table).filter _)
    intro a ha b hb heq
    exact id_injOn (List.mem_filter.1 ha).1 (List.mem_filter.1 hb).1 (Option.some.inj heq)
  have hperm : ((joined pg settings scan params vector).map coalesceId).dedup.Perm
      ((fusedRows pg settings table params vector).map fun row => some row.id) := by
    rw [List.perm_ext_iff_of_nodup (List.nodup_dedup _) hnodup]
    intro id
    rw [List.mem_dedup, List.mem_map, List.mem_map]
    constructor
    · rintro ⟨⟨x, y⟩, hmem, rfl⟩
      obtain ⟨row, hrow, rfl, rfl, hsome⟩ := (mem_joined scan).1 hmem
      have hfused := fused_iff.1 hsome
      exact ⟨row, List.mem_filter.2 ⟨hrow, decide_eq_true hfused⟩, (coalesceId_views hfused).symm⟩
    · rintro ⟨row, hmem, rfl⟩
      obtain ⟨hrow, hfused⟩ := List.mem_filter.1 hmem
      have hfused := of_decide_eq_true hfused
      exact ⟨_, (mem_joined scan).2 ⟨row, hrow, rfl, rfl, fused_iff.2 hfused⟩,
        coalesceId_views hfused⟩
  rw [hperm.length_eq, List.length_map]

/-! ## Pages -/

theorem scoresBefore_of_lt {x y : TechTrend × Rrf}
    (hx : x ∈ (fusedRows pg settings table params vector).map
      (scored pg settings table params vector))
    (hy : y ∈ (fusedRows pg settings table params vector).map
      (scored pg settings table params vector)) (h : Sql.LT (rrfItems pg) x y) :
    ScoresBefore pg settings table params vector x.1 y.1 := by
  obtain ⟨a, -, rfl⟩ := List.mem_map.1 hx
  obtain ⟨b, -, rfl⟩ := List.mem_map.1 hy
  simp only [rrfItems, Sql.LT_cons_iff, Sql.LT_nil, OrderItem.desc_cmp_lt, OrderItem.desc_cmp_eq,
    and_false, or_false] at h
  exact h

theorem rrfItems_separates :
    Separates (rrfItems pg) ((fusedRows pg settings table params vector).map
      (scored pg settings table params vector)) := by
  have hid : OrderItem.desc (fun x : TechTrend × Rrf => x.1.id) ∈ rrfItems pg := by simp [rrfItems]
  refine Separates.of_mem hid ?_
  intro x hx y hy heq
  obtain ⟨a, ha, rfl⟩ := List.mem_map.1 hx
  obtain ⟨b, hb, rfl⟩ := List.mem_map.1 hy
  rw [id_injOn (List.mem_filter.1 ha).1 (List.mem_filter.1 hb).1 (OrderItem.desc_cmp_eq.1 heq)]

/-- The rows of any page of a hybrid search. -/
theorem searchHybrid_data (params : SearchParams) (dataScan countScan : HybridScan table)
    (vector : List Json) :
    (searchHybrid pg settings dataScan countScan params vector).data =
      (Sql.page params.limit ((params.page - 1) * params.limit) (Sql.orderBy (rrfItems pg)
        ((dataScan.trend.rows.filter (Fused pg settings table params (vectorString vector))).map
          (scored pg settings table params (vectorString vector))))).map
        fun x => x.1.withScore pg x.2.rrf_score := by
  rw [searchHybrid]
  simp only [join_rrf]

theorem searchHybrid_totalCount (params : SearchParams) (dataScan countScan : HybridScan table)
    (vector : List Json) :
    (searchHybrid pg settings dataScan countScan params vector).totalCount =
      (fusedRows pg settings table params (vectorString vector)).length := length_ids countScan

theorem nodup_scored : ((fusedRows pg settings table params vector).map
    (scored pg settings table params vector)).Nodup := by
  refine List.Nodup.map ?_ ((nodup_rows table).filter _)
  exact fun a b heq => (Prod.mk.inj heq).1

end Views

end TechTrendRepository

/-- The pages of a hybrid search list the fused rows. -/
theorem searchHybrid_listing [LinearOrder Rank] [LinearOrder Distance]
    (pg : Postgres Tsvector Tsquery Vector Rank Distance) (settings : SearchSettings Distance)
    {table : TrendTable} (params : SearchParams) (vector : List Json) (hlimit : 1 ≤ params.limit)
    (dataScan countScan : ℕ → TechTrendRepository.HybridScan table) :
    Listing params.limit
      (fusedRows pg settings table params (TechTrendRepository.vectorString vector))
      (ScoresBefore pg settings table params (TechTrendRepository.vectorString vector))
      (fun row => row.withScore pg
        (rrfScore pg settings table params (TechTrendRepository.vectorString vector) row))
      (fun p => (TechTrendRepository.searchHybrid pg settings (dataScan p) (countScan p)
        { params with page := p } vector).data)
      (fun p => (TechTrendRepository.searchHybrid pg settings (dataScan p) (countScan p)
        { params with page := p } vector).totalCount) := by
  have hlisting := Listing.of_orderBy hlimit TechTrendRepository.nodup_scored
    TechTrendRepository.rrfItems_separates
    (fun _ hx _ hy => TechTrendRepository.scoresBefore_of_lt hx hy)
    (fun p => ((dataScan p).trend.rows.filter (TechTrendRepository.Fused pg settings table params
      (TechTrendRepository.vectorString vector))).map (TechTrendRepository.scored pg settings table
        params (TechTrendRepository.vectorString vector)))
    (fun p => ((dataScan p).trend.perm.filter _).map _)
    (fun p => TechTrendRepository.searchHybrid_data { params with page := p } (dataScan p)
      (countScan p) vector)
    (fun p => (TechTrendRepository.searchHybrid_totalCount { params with page := p }
      (dataScan p) (countScan p) vector).trans (List.length_map _).symm)
  exact hlisting.of_map (h := Prod.fst) fun _ _ => rfl

/-- **Hybrid search is rank fusion.** With each page asked for on its own, the rows
that are among the best of either search are on one page once, with the sum of their
reciprocal ranks, the greatest first; the other statement counts them. -/
theorem searchHybrid_is_rank_fusion [LinearOrder Rank] [LinearOrder Distance]
    (pg : Postgres Tsvector Tsquery Vector Rank Distance) (settings : SearchSettings Distance)
    (table : TrendTable) (params : SearchParams) (vector : List Json) (hlimit : 1 ≤ params.limit)
    (dataScan countScan : ℕ → TechTrendRepository.HybridScan table) :
    let fused := fusedRows pg settings table params (TechTrendRepository.vectorString vector)
    let result := fun p => TechTrendRepository.searchHybrid pg settings (dataScan p) (countScan p)
      { params with page := p } vector
    (∀ p, (result p).totalCount = fused.length) ∧
      (∃ ordered : List TechTrend, ordered.Perm fused ∧
        ordered.Pairwise
          (ScoresBefore pg settings table params (TechTrendRepository.vectorString vector)) ∧
        (List.range (Sql.pageCount fused.length params.limit)).flatMap
            (fun p => (result (p + 1)).data) =
          ordered.map fun row => row.withScore pg
            (rrfScore pg settings table params (TechTrendRepository.vectorString vector) row)) ∧
      ∀ p, Sql.pageCount fused.length params.limit < p → (result p).data = [] := by
  intro fused result
  obtain ⟨htotals, ordered, hperm, hpairwise, hpaged⟩ :=
    searchHybrid_listing pg settings params vector hlimit dataScan countScan
  have hlength : (ordered.map fun row => row.withScore pg (rrfScore pg settings table params
      (TechTrendRepository.vectorString vector) row)).length = fused.length := by
    rw [List.length_map, hperm.length_eq]
  have hconcat := hpaged.concat
  have hbeyond := hpaged.beyond
  rw [hlength] at hconcat hbeyond
  exact ⟨htotals, ⟨ordered, hperm, hpairwise, hconcat⟩, hbeyond⟩

/-- The rows as they are stored, for every part of a statement. -/
def smallScan : TechTrendRepository.HybridScan twoPosts :=
  ⟨Scan.stored twoPosts, Scan.stored twoPosts, Scan.stored twoPosts⟩

/-- A vector that is no row's. -/
def smallVector : List Json := [Json.num (Binary64.ofInt 1)]

/-- Two posts about react, of which the older one has a vector. -/
def vectorAndKeyword : TrendTable where
  rows := [{ samplePost 1 1704153600000 with embedding := some [Binary64.ofInt 1] },
    samplePost 2 1704157200000]
  ids_lt := by decide
  ids_nodup := by decide
  sourceKeys_nodup := by decide
  urls_nodup := by decide

def vectorAndKeywordScan : TechTrendRepository.HybridScan vectorAndKeyword :=
  ⟨Scan.stored vectorAndKeyword, Scan.stored vectorAndKeyword, Scan.stored vectorAndKeyword⟩

/-- One row a page, where one of the two posts is found by keyword and by its vector. -/
theorem searchHybrid_is_rank_fusion_two :
    let query : SearchParams := ⟨1, 1, "react", "ALL", false, none⟩
    let vector := TechTrendRepository.vectorString smallVector
    let fused := fusedRows Postgres.small ⟨2, 0⟩ vectorAndKeyword query vector
    let result := fun p => TechTrendRepository.searchHybrid Postgres.small ⟨2, 0⟩ vectorAndKeywordScan
      vectorAndKeywordScan { query with page := p } smallVector
    fused.map (fun row => row.id) = [1, 2] ∧
      (∀ p, (result p).totalCount = fused.length) ∧
      (∃ ordered : List TechTrend, ordered.Perm fused ∧
        ordered.Pairwise (ScoresBefore Postgres.small ⟨2, 0⟩ vectorAndKeyword query vector) ∧
        (List.range (Sql.pageCount fused.length 1)).flatMap (fun p => (result (p + 1)).data) =
          ordered.map fun row => row.withScore Postgres.small (rrfScore Postgres.small ⟨2, 0⟩
            vectorAndKeyword query vector row)) ∧
      ∀ p, Sql.pageCount fused.length 1 < p → (result p).data = [] :=
  ⟨by decide +kernel, searchHybrid_is_rank_fusion Postgres.small ⟨2, 0⟩ vectorAndKeyword
    ⟨1, 1, "react", "ALL", false, none⟩ smallVector (by decide) (fun _ => vectorAndKeywordScan)
    fun _ => vectorAndKeywordScan⟩

/-! ## `searchTrends` -/

section Service

variable [LinearOrder Rank] [LinearOrder Distance]
  (pg : Postgres Tsvector Tsquery Vector Rank Distance) (settings : SearchSettings Distance)
  {table : TrendTable} (dataScan countScan : TechTrendRepository.HybridScan table)
  (embedSearchQuery : String → Option (List Json))

/-- The response of `searchTrends` over this table. -/
def searchResponse (query : SearchTrendsQuery) : SearchResponse Rank :=
  searchTrends (TechTrendRepository.searchKeyword pg dataScan.keyword countScan.keyword)
    (TechTrendRepository.searchHybrid pg settings dataScan countScan) embedSearchQuery query

variable {pg settings embedSearchQuery}

/-- A query that is searched by keyword, or that has no vector. -/
def ByKeyword (embedSearchQuery : String → Option (List Json)) (query : SearchTrendsQuery) : Prop :=
  query.searchType = some SearchType.keyword ∨
    embedSearchQuery query.params.search = none ∨ embedSearchQuery query.params.search = some []

/-- A search goes by the keyword when it is asked to, or when the text has no vector. -/
theorem searchResponse_keyword (query : SearchTrendsQuery) (h : ByKeyword embedSearchQuery query) :
    searchResponse pg settings dataScan countScan embedSearchQuery query =
      let result := TechTrendRepository.searchKeyword pg dataScan.keyword countScan.keyword query.params
      ⟨result.data.map FoundTrend.keyword, query.params.meta_ result.totalCount⟩ := by
  rcases h with htype | hnone | hempty
  · simp only [searchResponse, searchTrends, htype, Option.getD_some]
  · cases htype : query.searchType.getD SearchType.hybrid <;>
      simp only [searchResponse, searchTrends, htype, hnone]
  · cases htype : query.searchType.getD SearchType.hybrid <;>
      simp only [searchResponse, searchTrends, htype, hempty]

/-- A search that does not ask for keywords and whose text has a vector is a hybrid one, and
the option for the order is not looked at. -/
theorem searchResponse_hybrid (query : SearchTrendsQuery)
    (htype : query.searchType ≠ some SearchType.keyword) {v : Json} {vs : List Json}
    (hvector : embedSearchQuery query.params.search = some (v :: vs)) :
    searchResponse pg settings dataScan countScan embedSearchQuery query =
      let result := TechTrendRepository.searchHybrid pg settings dataScan countScan
        { query.params with sort := none } (v :: vs)
      ⟨result.data.map FoundTrend.hybrid, query.params.meta_ result.totalCount⟩ := by
  have hhybrid : query.searchType.getD SearchType.hybrid = SearchType.hybrid := by
    cases hq : query.searchType with
    | none => rfl
    | some t =>
      cases t with
      | hybrid => rfl
      | keyword => exact absurd hq htype
  simp only [searchResponse, searchTrends, hhybrid, hvector]

/-- The pages of a search without a vector list the keyword matches. -/
theorem searchTrends_lists_matches {query : SearchTrendsQuery}
    (h : ByKeyword embedSearchQuery query) (hlimit : 1 ≤ query.params.limit)
    (dataScan countScan : ℕ → TechTrendRepository.HybridScan table) :
    Listing query.params.limit (keywordMatches pg table query.params)
      (fun a b => SearchSortsBefore pg query.params.search a b query.params.sortOrDefault)
      (fun row => FoundTrend.keyword (row.withRelevance pg query.params.search))
      (fun p => (searchResponse pg settings (dataScan p) (countScan p) embedSearchQuery
        { query with page := some p }).data)
      (fun p => (searchResponse pg settings (dataScan p) (countScan p) embedSearchQuery
        { query with page := some p }).info.totalCount) := by
  have hpages := searchKeyword_listing pg query.params.source query.params.isNew hlimit
    query.params.search query.params.sortOrDefault (fun p => (dataScan p).keyword)
    fun p => (countScan p).keyword
  have hresponse : ∀ p, searchResponse pg settings (dataScan p) (countScan p) embedSearchQuery
      { query with page := some p } = _ := fun p =>
    searchResponse_keyword (dataScan p) (countScan p) { query with page := some p } h
  simp only [hresponse]
  exact hpages.map FoundTrend.keyword

/-- The pages of a search with a vector are the rank fusion. -/
theorem searchTrends_fuses {query : SearchTrendsQuery}
    (htype : query.searchType ≠ some SearchType.keyword) {v : Json} {vs : List Json}
    (hvector : embedSearchQuery query.params.search = some (v :: vs))
    (hlimit : 1 ≤ query.params.limit) (dataScan countScan : ℕ → TechTrendRepository.HybridScan table) :
    Listing query.params.limit
      (fusedRows pg settings table query.params (TechTrendRepository.vectorString (v :: vs)))
      (ScoresBefore pg settings table query.params (TechTrendRepository.vectorString (v :: vs)))
      (fun row => FoundTrend.hybrid (row.withScore pg (rrfScore pg settings table query.params
        (TechTrendRepository.vectorString (v :: vs)) row)))
      (fun p => (searchResponse pg settings (dataScan p) (countScan p) embedSearchQuery
        { query with page := some p }).data)
      (fun p => (searchResponse pg settings (dataScan p) (countScan p) embedSearchQuery
        { query with page := some p }).info.totalCount) := by
  have hpages := searchHybrid_listing pg settings { query.params with sort := none } (v :: vs) hlimit
    dataScan countScan
  have hresponse : ∀ p, searchResponse pg settings (dataScan p) (countScan p) embedSearchQuery
      { query with page := some p } = _ := fun p =>
    searchResponse_hybrid (dataScan p) (countScan p) { query with page := some p } htype hvector
  simp only [hresponse]
  exact hpages.map FoundTrend.hybrid

end Service

end TechTrends
