/-
Related articles: the rows that are nearest to an article.

The statement behind them orders by distance, by day and by id. What it orders is what its
plan comes upon, and that is the planner's: it may go through the whole table, or through the
HNSW index that the migration makes on `embedding` (`InitTechTrendSchema`, lines 53 to 57),
which finds near rows and may miss some. So the rows that the plan finds are a parameter. In
any case those listed are near and in order. When the plan misses none, they are fixed by the
table: another reading order gives the same ones, a smaller limit gives the first of them, and
a new row does no more than push the last of them out.
-/
import TechTrends.HybridSearch

set_option autoImplicit false

namespace TechTrends

open Sql (OrderItem Separates orderBy)

variable {Tsvector Tsquery Vector Rank Distance : Type}

/-! ## The statement -/

/-- The rows that the plan of a statement comes upon, each once, in some order. -/
structure Scanned (table : TrendTable) where
  rows : List TechTrend
  nodup : rows.Nodup
  subset : rows ⊆ table.rows

/-- What `findRelatedByEmbedding` selects. -/
def TechTrend.related (pg : Postgres Tsvector Tsquery Vector Rank Distance) (row : TechTrend) : RelatedTrendRow :=
  { id := row.id, source := row.source, title := row.title, short_summary := row.short_summary,
    link_url := row.link_url, technical_tags := row.technical_tags, view_count := row.view_count,
    like_count := row.like_count, comment_count := row.comment_count,
    created_at := pg.createdAt row, mined_at := row.mined_at }

namespace TechTrendRepository

variable (pg : Postgres Tsvector Tsquery Vector Rank Distance) [LinearOrder Distance] (threshold : Distance)
  {table : TrendTable}

/-- The `WHERE` of `findRelatedByEmbedding`. -/
def relatedWhere (excludeId : ℤ) (vector : String) (row : TechTrend) : Bool :=
  (row.id : ℤ) ≠ excludeId && isNear pg threshold vector row

/-- The rows of `findRelatedByEmbedding`, of those that its plan finds. -/
def relatedRows (found : Scanned table) (excludeId : ℤ) (vector : String) (limit : ℕ) : List TechTrend :=
  (orderBy (vectorItems pg vector) (found.rows.filter (relatedWhere pg threshold excludeId vector))).take limit

/-- `findRelatedByEmbedding`, with the threshold of the configuration. -/
def findRelatedByEmbedding (found : Scanned table) (excludeId : ℤ) (embedding : List Binary64) (limit : ℕ) :
    List RelatedTrendRow :=
  (relatedRows pg threshold found excludeId (vectorString (embedding.map Json.num)) limit).map (TechTrend.related pg)

def findById (table : TrendTable) (id : ℤ) : Option TechTrend := table.rows.find? fun row => (row.id : ℤ) = id

/-- `loadRelated` of `TrendsQueryService`, when nothing is cached. No answer is the response 404. -/
def loadRelated (found : Scanned table) (id : ℤ) (limit : ℕ) : Option (List RelatedTrendRow) :=
  (findById table id).map fun article =>
    match article.embedding with
    | none | some [] => []
    | some embedding => findRelatedByEmbedding pg threshold found id embedding limit

end TechTrendRepository

/-! ## The nearest rows -/

namespace TechTrendRepository

variable {pg : Postgres Tsvector Tsquery Vector Rank Distance} [LinearOrder Distance] {threshold : Distance}
  {table : TrendTable} {vector : String}

/-- The plan finds every row that the `WHERE` lets through, as it does when it goes through
the whole table. -/
def MissesNone (pg : Postgres Tsvector Tsquery Vector Rank Distance) (threshold : Distance) (found : Scanned table)
    (excludeId : ℤ) (vector : String) : Prop :=
  ∀ row ∈ table.rows, relatedWhere pg threshold excludeId vector row = true → row ∈ found.rows

theorem vectorItems_separates (pg : Postgres Tsvector Tsquery Vector Rank Distance) (vector : String) :
    Separates (vectorItems pg vector) table.rows :=
  separates_of_id (Or.inl (by simp [vectorItems]))

theorem relatedWhere_iff {excludeId : ℤ} {row : TechTrend} :
    relatedWhere pg threshold excludeId vector row = true ↔
      (row.id : ℤ) ≠ excludeId ∧ WithinThreshold pg threshold vector row := by
  rw [relatedWhere, Bool.and_eq_true, decide_eq_true_iff, isNear_iff]

/-- Where none is missed, the rows do not depend on what else was found, nor on the order. -/
theorem relatedRows_eq {found : Scanned table} {excludeId : ℤ}
    (hfound : MissesNone pg threshold found excludeId vector) (limit : ℕ) :
    relatedRows pg threshold found excludeId vector limit = (orderBy (vectorItems pg vector)
      (table.rows.filter (relatedWhere pg threshold excludeId vector))).take limit := by
  have hsep : Separates (vectorItems pg vector) (table.rows.filter (relatedWhere pg threshold excludeId vector)) :=
    (vectorItems_separates pg vector).subset (List.filter_subset_self _)
  have hperm : (found.rows.filter (relatedWhere pg threshold excludeId vector)).Perm
      (table.rows.filter (relatedWhere pg threshold excludeId vector)) := by
    refine (List.perm_ext_iff_of_nodup (found.nodup.filter _) ((nodup_rows table).filter _)).2 fun row => ?_
    rw [List.mem_filter, List.mem_filter]
    exact ⟨fun h => ⟨found.subset h.1, h.2⟩, fun h => ⟨hfound row h.1 h.2, h.2⟩⟩
  rw [relatedRows, Sql.orderBy_congr hsep hperm]

/-- Among the rows that are near, the order of the statement is the one by nearness. -/
theorem nearer_of_lt {excludeId : ℤ} {a b : TechTrend}
    (ha : relatedWhere pg threshold excludeId vector a = true) (hb : relatedWhere pg threshold excludeId vector b = true)
    (hlt : Sql.LT (vectorItems pg vector) a b) : Nearer pg vector a b := by
  obtain ⟨-, x, hx, -⟩ := relatedWhere_iff.1 ha
  obtain ⟨-, y, hy, -⟩ := relatedWhere_iff.1 hb
  exact (nearer_iff hx hy).1 hlt

variable (pg threshold) in
/-- The rows listed, whatever the plan found: other rows of the table within the threshold,
nearest first, and no more than the limit. -/
theorem relatedRows_near (found : Scanned table) (excludeId : ℤ) (vector : String) (limit : ℕ) :
    (relatedRows pg threshold found excludeId vector limit).Pairwise (Nearer pg vector) ∧
    (∀ row ∈ relatedRows pg threshold found excludeId vector limit,
      row ∈ table.rows.filter (relatedWhere pg threshold excludeId vector)) ∧
    (relatedRows pg threshold found excludeId vector limit).length ≤ limit := by
  have hnear : ∀ row ∈ relatedRows pg threshold found excludeId vector limit,
      row ∈ table.rows.filter (relatedWhere pg threshold excludeId vector) := by
    intro row hrow
    obtain ⟨hmem, hwhere⟩ := List.mem_filter.1 (Sql.mem_orderBy.1 (List.mem_of_mem_take hrow))
    exact List.mem_filter.2 ⟨found.subset hmem, hwhere⟩
  have hsep : Separates (vectorItems pg vector) (found.rows.filter (relatedWhere pg threshold excludeId vector)) :=
    (vectorItems_separates pg vector).subset (List.Subset.trans (List.filter_subset_self _) found.subset)
  have hsorted := (Sql.pairwise_lt_orderBy (found.nodup.filter _) hsep).sublist (List.take_sublist limit _)
  refine ⟨?_, hnear, List.length_take_le _ _⟩
  exact List.Pairwise.imp_of_mem (fun ha hb hlt => nearer_of_lt (List.of_mem_filter (hnear _ ha))
    (List.of_mem_filter (hnear _ hb)) hlt) hsorted

/-- **The nearest rows.** Where none is missed there are as many as the limit allows, and every
other row within the threshold is further away than all of them. -/
theorem relatedRows_nearest {found : Scanned table} {excludeId : ℤ}
    (hfound : MissesNone pg threshold found excludeId vector) (limit : ℕ) :
    let near := table.rows.filter (relatedWhere pg threshold excludeId vector)
    let listed := relatedRows pg threshold found excludeId vector limit
    listed.length = min limit near.length ∧
      ∀ row ∈ near, row ∉ listed → ∀ other ∈ listed, Nearer pg vector other row := by
  intro near listed
  have hlisted : listed = (orderBy (vectorItems pg vector) near).take limit := relatedRows_eq hfound limit
  have hsorted : (orderBy (vectorItems pg vector) near).Pairwise (Sql.LT (vectorItems pg vector)) :=
    Sql.pairwise_lt_orderBy ((nodup_rows table).filter _)
      ((vectorItems_separates pg vector).subset (List.filter_subset_self _))
  have hnear : ∀ row ∈ listed, row ∈ near := (relatedRows_near pg threshold found excludeId vector limit).2.1
  refine ⟨?_, fun row hrow hbehind other hother => ?_⟩
  · rw [hlisted, List.length_take, (Sql.orderBy_perm _ _).length_eq]
  · refine nearer_of_lt (List.of_mem_filter (hnear _ hother)) (List.of_mem_filter hrow) ?_
    rw [hlisted] at hbehind hother
    exact Sql.lt_of_mem_take hsorted hother (Sql.mem_orderBy.2 hrow) hbehind

/-- A smaller limit gives the first rows of a greater one. -/
theorem relatedRows_take {found found' : Scanned table} {excludeId : ℤ}
    (hfound : MissesNone pg threshold found excludeId vector)
    (hfound' : MissesNone pg threshold found' excludeId vector) {limit limit' : ℕ} (h : limit ≤ limit') :
    relatedRows pg threshold found excludeId vector limit =
      (relatedRows pg threshold found' excludeId vector limit').take limit := by
  rw [relatedRows_eq hfound, relatedRows_eq hfound', List.take_take, Nat.min_eq_left h]

/-- A new row pushes out the last rows, and moves none of the others. -/
theorem relatedRows_insert {table' : TrendTable} {new : TechTrend} (hinsert : table.insert new = some table')
    {found : Scanned table} {found' : Scanned table'} {excludeId : ℤ}
    (hfound : MissesNone pg threshold found excludeId vector)
    (hfound' : MissesNone pg threshold found' excludeId vector) (limit : ℕ) :
    (relatedRows pg threshold found' excludeId vector limit).filter (fun row => row.id ≠ new.id) <+:
      relatedRows pg threshold found excludeId vector limit := by
  have hrows := TrendTable.insert_rows hinsert
  have hold : ∀ row ∈ table.rows, row.id ≠ new.id := by
    have hids := table'.ids_nodup
    rw [hrows, List.map_append, List.map_singleton, List.nodup_append] at hids
    exact fun row hrow => hids.2.2 _ (List.mem_map_of_mem hrow) _ (List.mem_singleton_self _)
  have hfilter : (table'.rows.filter (relatedWhere pg threshold excludeId vector)).filter
      (fun row => row.id ≠ new.id) = table.rows.filter (relatedWhere pg threshold excludeId vector) := by
    rw [List.filter_comm, hrows, List.filter_append, List.filter_eq_self.2 fun row hrow => decide_eq_true (hold row hrow),
      List.filter_singleton]
    simp
  have hsep : Separates (vectorItems pg vector) (table'.rows.filter (relatedWhere pg threshold excludeId vector)) :=
    (vectorItems_separates pg vector).subset (List.filter_subset_self _)
  have hprefix := Sql.take_filter_prefix limit (orderBy (vectorItems pg vector)
    (table'.rows.filter (relatedWhere pg threshold excludeId vector))) fun row => row.id ≠ new.id
  rw [Sql.orderBy_filter hsep, hfilter] at hprefix
  rw [relatedRows_eq hfound, relatedRows_eq hfound']
  exact hprefix

/-! ## The articles related to one -/

variable (pg threshold table) in
/-- The other rows within the threshold, if the article has an embedding. -/
def relatedTo (article : TechTrend) : List TechTrend :=
  table.rows.filter fun row => row.id ≠ article.id ∧ article.embedding.getD [] ≠ [] ∧
    WithinThreshold pg threshold (vectorString ((article.embedding.getD []).map Json.num)) row

theorem findById_id {id : ℤ} {article : TechTrend} (h : findById table id = some article) : (article.id : ℤ) = id := by
  have hfound := List.find?_some (p := fun row : TechTrend => decide ((row.id : ℤ) = id)) h
  exact of_decide_eq_true hfound

/-- The row with an id. -/
theorem findById_eq_some_iff {id : ℤ} {article : TechTrend} :
    findById table id = some article ↔ article ∈ table.rows ∧ (article.id : ℤ) = id := by
  constructor
  · intro h
    exact ⟨List.mem_of_find?_eq_some h, findById_id h⟩
  · rintro ⟨hmem, rfl⟩
    cases h : findById table article.id with
    | none => exact absurd (decide_eq_true rfl) (List.find?_eq_none.1 h article hmem)
    | some row =>
      have hid : (row.id : ℤ) = article.id := findById_id h
      rw [id_injOn (List.mem_of_find?_eq_some h) hmem (by exact_mod_cast hid)]

/-- The answer for an article that is there. -/
theorem loadRelated_of_mem {article : TechTrend} (h : article ∈ table.rows) (found : Scanned table) (limit : ℕ) :
    loadRelated pg threshold found article.id limit =
      some ((if article.embedding.getD [] = [] then []
        else relatedRows pg threshold found article.id
          (vectorString ((article.embedding.getD []).map Json.num)) limit).map (TechTrend.related pg)) := by
  rw [loadRelated, findById_eq_some_iff.2 ⟨h, rfl⟩, Option.map_some]
  cases article.embedding with
  | none => rfl
  | some embedding =>
    cases embedding with
    | nil => rfl
    | cons x xs => rfl

/-- With an embedding, the rows related to an article are those that the statement selects. -/
theorem relatedTo_eq {article : TechTrend} (h : article.embedding.getD [] ≠ []) :
    relatedTo pg threshold table article = table.rows.filter (relatedWhere pg threshold article.id
      (vectorString ((article.embedding.getD []).map Json.num))) := by
  refine List.filter_congr fun row _ => ?_
  rw [Bool.eq_iff_iff, decide_eq_true_iff, relatedWhere_iff]
  exact and_congr (by exact_mod_cast Iff.rfl) (and_iff_right h)

/-- The plan finds every row related to the article. -/
def FindsAll (pg : Postgres Tsvector Tsquery Vector Rank Distance) (threshold : Distance) (found : Scanned table)
    (article : TechTrend) : Prop :=
  ∀ row ∈ relatedTo pg threshold table article, row ∈ found.rows

theorem FindsAll.missesNone {found : Scanned table} {article : TechTrend} (h : FindsAll pg threshold found article)
    (hembedding : article.embedding.getD [] ≠ []) :
    MissesNone pg threshold found article.id (vectorString ((article.embedding.getD []).map Json.num)) := by
  intro row hrow hwhere
  refine h row ?_
  rw [relatedTo_eq hembedding]
  exact List.mem_filter.2 ⟨hrow, hwhere⟩

/-- The rows that are listed for an article. -/
theorem exists_listed {article : TechTrend} (h : article ∈ table.rows) (found : Scanned table) (limit : ℕ) :
    ∃ listed : List TechTrend,
      loadRelated pg threshold found article.id limit = some (listed.map (TechTrend.related pg)) ∧
      listed.Pairwise (Nearer pg (vectorString ((article.embedding.getD []).map Json.num))) ∧
      (∀ row ∈ listed, row ∈ relatedTo pg threshold table article) ∧ listed.length ≤ limit ∧
      (FindsAll pg threshold found article →
        listed.length = min limit (relatedTo pg threshold table article).length ∧
        ∀ row ∈ relatedTo pg threshold table article, row ∉ listed → ∀ other ∈ listed,
          Nearer pg (vectorString ((article.embedding.getD []).map Json.num)) other row) := by
  by_cases hempty : article.embedding.getD [] = []
  · have hnone : relatedTo pg threshold table article = [] :=
      List.filter_eq_nil_iff.2 fun row _ hrow => (of_decide_eq_true hrow).2.1 hempty
    refine ⟨[], ?_, List.Pairwise.nil, fun row hrow => (by cases hrow), Nat.zero_le _, fun _ =>
      ⟨by rw [hnone]; simp, fun row hrow => ?_⟩⟩
    · rw [loadRelated_of_mem h, if_pos hempty]
    · rw [hnone] at hrow
      cases hrow
  · have hanswer : loadRelated pg threshold found article.id limit = some ((relatedRows pg threshold found
        article.id (vectorString ((article.embedding.getD []).map Json.num)) limit).map (TechTrend.related pg)) := by
      rw [loadRelated_of_mem h, if_neg hempty]
    obtain ⟨hpairwise, hmem, hlength⟩ := relatedRows_near pg threshold found article.id
      (vectorString ((article.embedding.getD []).map Json.num)) limit
    refine ⟨_, hanswer, hpairwise, ?_, hlength, fun hall => ?_⟩
    · rw [relatedTo_eq hempty]
      exact hmem
    · rw [relatedTo_eq hempty]
      exact relatedRows_nearest (hall.missesNone hempty) limit

/-- **Related articles.** A request for an id that no row has is not found. For an article it
lists others within the threshold, nearest first and the newer one of two that are as near,
no more than the limit, whatever the plan of the statement finds. Where the plan finds all of
them, it lists as many as the limit allows, and every other one is further away than those; a
smaller limit gives the first of them, whatever order the rows are read in, and a row that is
inserted pushes out the last ones without moving the others. -/
theorem related_trends (pg : Postgres Tsvector Tsquery Vector Rank Distance) (threshold : Distance)
    (table : TrendTable) (id : ℤ) (limit : ℕ) (found : Scanned table) :
    (loadRelated pg threshold found id limit = none ↔ ∀ row ∈ table.rows, (row.id : ℤ) ≠ id) ∧
    ∀ article ∈ table.rows, (article.id : ℤ) = id →
      (∃ listed : List TechTrend,
        loadRelated pg threshold found id limit = some (listed.map (TechTrend.related pg)) ∧
        listed.Pairwise (Nearer pg (vectorString ((article.embedding.getD []).map Json.num))) ∧
        (∀ row ∈ listed, row ∈ relatedTo pg threshold table article) ∧ listed.length ≤ limit ∧
        (FindsAll pg threshold found article →
          listed.length = min limit (relatedTo pg threshold table article).length ∧
          ∀ row ∈ relatedTo pg threshold table article, row ∉ listed → ∀ other ∈ listed,
            Nearer pg (vectorString ((article.embedding.getD []).map Json.num)) other row)) ∧
      (FindsAll pg threshold found article →
        (∀ (found' : Scanned table) limit', FindsAll pg threshold found' article → limit ≤ limit' →
          loadRelated pg threshold found id limit =
            (loadRelated pg threshold found' id limit').map (List.take limit)) ∧
        ∀ new table', table.insert new = some table' → ∀ (found' : Scanned table') answer answer',
          FindsAll pg threshold found' article →
          loadRelated pg threshold found id limit = some answer →
          loadRelated pg threshold found' id limit = some answer' →
          answer'.filter (fun row => row.id ≠ new.id) <+: answer) := by
  refine ⟨?_, ?_⟩
  · -- `null` is the answer to an unknown id and to no other
    cases h : findById table id with
    | none =>
      have hall : ∀ row ∈ table.rows, (row.id : ℤ) ≠ id :=
        fun row hrow heq => List.find?_eq_none.1 h row hrow (decide_eq_true heq)
      exact iff_of_true (by rw [loadRelated, h]; rfl) hall
    | some article =>
      obtain ⟨hmem, rfl⟩ := findById_eq_some_iff.1 h
      refine iff_of_false ?_ fun hall => hall article hmem rfl
      rw [loadRelated_of_mem hmem]
      exact Option.some_ne_none _
  · rintro article hmem rfl
    refine ⟨exists_listed hmem found limit, fun hall => ⟨fun found' limit' hall' hle => ?_, ?_⟩⟩
    · rw [loadRelated_of_mem hmem, loadRelated_of_mem hmem, Option.map_some, ← List.map_take]
      split
      · rw [List.take_nil]
      · next hembedding =>
        rw [relatedRows_take (hall.missesNone hembedding) (hall'.missesNone hembedding) hle]
    · -- a new row pushes others off the end of the list, and changes nothing else
      intro new table' hinsert found' answer answer' hall' hanswer hanswer'
      have hmem' : article ∈ table'.rows := by
        rw [TrendTable.insert_rows hinsert]
        exact List.mem_append_left _ hmem
      rw [loadRelated_of_mem hmem, Option.some.injEq] at hanswer
      rw [loadRelated_of_mem hmem', Option.some.injEq] at hanswer'
      rw [← hanswer, ← hanswer', List.filter_map]
      refine List.IsPrefix.map _ ?_
      split
      · exact List.prefix_rfl
      · next hembedding =>
        exact relatedRows_insert hinsert (hall.missesNone hembedding) (hall'.missesNone hembedding) limit

/-- A post with an embedding. -/
def embeddedPost (id : ℕ) (n : ℤ) : TechTrend :=
  { samplePost id 1704153600000 with embedding := some [Binary64.ofInt n] }

/-- Two posts that are near each other, and a third one. -/
def threePosts : TrendTable where
  rows := [embeddedPost 1 1, embeddedPost 2 1, embeddedPost 3 2]
  ids_lt := by decide
  ids_nodup := by decide
  sourceKeys_nodup := by decide
  urls_nodup := by decide

/-- The plan that goes through the whole table. -/
def Scanned.all (table : TrendTable) : Scanned table := ⟨table.rows, nodup_rows table, List.Subset.refl _⟩

theorem findsAll_all (pg : Postgres Tsvector Tsquery Vector Rank Distance) (threshold : Distance)
    (table : TrendTable) (article : TechTrend) : FindsAll pg threshold (Scanned.all table) article :=
  fun _ hrow => List.mem_of_mem_filter hrow

/-- One of three posts is related to the first one; with a fourth one that is as near, the newer id is listed. -/
theorem related_trends_three :
    (∃ listed : List TechTrend,
      loadRelated Postgres.small 0 (Scanned.all threePosts) 1 1 = some (listed.map (TechTrend.related Postgres.small)) ∧
      (∀ row ∈ listed, row ∈ relatedTo Postgres.small 0 threePosts (embeddedPost 1 1)) ∧
      listed.length = min 1 (relatedTo Postgres.small 0 threePosts (embeddedPost 1 1)).length) ∧
    (loadRelated Postgres.small 0 (Scanned.all threePosts) 1 1 =
      (loadRelated Postgres.small 0 (Scanned.all threePosts) 1 20).map (List.take 1)) ∧
    ∃ table' answer answer', threePosts.insert (embeddedPost 4 1) = some table' ∧
      loadRelated Postgres.small 0 (Scanned.all threePosts) 1 1 = some answer ∧
      loadRelated Postgres.small 0 (Scanned.all table') 1 1 = some answer' ∧
      answer'.filter (fun row => row.id ≠ (embeddedPost 4 1).id) <+: answer := by
  obtain ⟨-, hposts⟩ := related_trends Postgres.small 0 threePosts 1 1 (Scanned.all threePosts)
  obtain ⟨⟨listed, hlisted, -, hmem, -, hnearest⟩, hrest⟩ := hposts (embeddedPost 1 1) List.mem_cons_self rfl
  obtain ⟨htake, hinsert⟩ := hrest (findsAll_all _ _ _ _)
  refine ⟨⟨listed, hlisted, hmem, (hnearest (findsAll_all _ _ _ _)).1⟩,
    htake (Scanned.all threePosts) 20 (findsAll_all _ _ _ _) (by decide), ?_⟩
  have hadmits : threePosts.admits (embeddedPost 4 1) := by decide
  exact ⟨_, _, _, dif_pos hadmits, rfl, rfl,
    hinsert _ _ (dif_pos hadmits) _ _ _ (findsAll_all _ _ _ _) rfl rfl⟩

end TechTrendRepository

end TechTrends
