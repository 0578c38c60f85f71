/-
One option, two orders: what a list and a keyword search make of the same option.

The list ends every option with the id, the greater one first. The search has the id
the other way in the two ascending options, so rows that tie there change places.
-/
import TechTrends.TrendPaging

set_option autoImplicit false

namespace TechTrends

open TrendsQuery (SortOption ListTrendsParams)
open Sql (OrderItem)

variable {Tsvector Tsquery Vector Rank Distance : Type}

/-- The first row is before the second in what a request returns. -/
def Precedes (ids : List ℕ) (a b : TechTrend) : Prop := [a.id, b.id].Sublist ids

instance (ids : List ℕ) (a b : TechTrend) : Decidable (Precedes ids a b) :=
  inferInstanceAs (Decidable (List.Sublist _ _))

/-- A request returns both rows. -/
def Returns (ids : List ℕ) (a b : TechTrend) : Prop := a.id ∈ ids ∧ b.id ∈ ids

instance (ids : List ℕ) (a b : TechTrend) : Decidable (Returns ids a b) :=
  inferInstanceAs (Decidable (_ ∧ _))

/-- The rows are equal in everything that an ascending option names. -/
def TieAscending (pg : Postgres Tsvector Tsquery Vector Rank Distance) (a b : TechTrend) :
    SortOption → Prop
  | SortOption.CREATED_ASC => pg.createdAt a = pg.createdAt b
  | SortOption.MINED_ASC => a.mined_at = b.mined_at ∧ pg.createdAt a = pg.createdAt b
  | _ => False

namespace TechTrendRepository

variable {pg : Postgres Tsvector Tsquery Vector Rank Distance} {table : TrendTable}

/-- The ids of a list's page. -/
def listIds (pg : Postgres Tsvector Tsquery Vector Rank Distance) (scan : Scan table)
    (params : ListTrendsParams) : List ℕ :=
  (listTrends pg scan params).map fun row => row.id

/-- The ids of a keyword search's page. -/
def searchIds [LinearOrder Rank] (pg : Postgres Tsvector Tsquery Vector Rank Distance)
    (dataScan countScan : Scan table) (params : SearchParams) : List ℕ :=
  (searchKeyword pg dataScan countScan params).data.map fun row => row.id

/-- In a part of an ordered table, a row is before another one if the order says so. -/
theorem precedes_page {items : List (OrderItem TechTrend)} {rows : List TechTrend}
    (hpairwise : rows.Pairwise (Sql.LT items)) (hrows : rows ⊆ table.rows) {a b : TechTrend}
    (ha : a ∈ table.rows) (hb : b ∈ table.rows)
    (hboth : Returns (rows.map fun row => row.id) a b) :
    Precedes (rows.map fun row => row.id) a b ↔ Sql.LT items a b := by
  have hmem : ∀ c ∈ table.rows, c.id ∈ rows.map (fun row => row.id) → c ∈ rows := by
    intro c hc hid
    obtain ⟨row, hrow, heq⟩ := List.mem_map.1 hid
    rwa [← id_injOn (hrows hrow) hc heq]
  rw [← Sql.precedes_iff hpairwise (hmem a ha hboth.1) (hmem b hb hboth.2)]
  constructor
  · intro hsub
    obtain ⟨part, hpart, heq⟩ := List.sublist_map_iff.1 hsub
    obtain ⟨x, y, rfl⟩ : ∃ x y, part = [x, y] := List.length_eq_two.1 (by
      simpa using (congrArg List.length heq).symm)
    simp only [List.map_cons, List.map_nil, List.cons.injEq, and_true] at heq
    have hx : a = x := id_injOn ha (hrows (hpart.subset (by simp))) heq.1
    have hy : b = y := id_injOn hb (hrows (hpart.subset (by simp))) heq.2
    rwa [hx, hy]
  · intro hsub
    exact hsub.map (fun row => row.id)

/-- A page of a strictly ordered selection of the table. -/
theorem pairwise_page {items : List (OrderItem TechTrend)}
    (hsep : Sql.Separates items table.rows) (scan : Scan table) (where_ : TechTrend → Bool)
    (limit offset : ℕ) :
    (Sql.page limit offset (Sql.orderBy items (scan.rows.filter where_))).Pairwise (Sql.LT items) ∧
      Sql.page limit offset (Sql.orderBy items (scan.rows.filter where_)) ⊆ table.rows := by
  have hsub : scan.rows.filter where_ ⊆ table.rows := fun row hrow =>
    scan.perm.mem_iff.1 (List.mem_filter.1 hrow).1
  have hnodup : (scan.rows.filter where_).Nodup :=
    (scan.perm.nodup_iff.2 (nodup_rows table)).filter _
  have hpart : (Sql.page limit offset (Sql.orderBy items (scan.rows.filter where_))).Sublist
      (Sql.orderBy items (scan.rows.filter where_)) :=
    (List.take_sublist _ _).trans (List.drop_sublist _ _)
  refine ⟨(Sql.pairwise_lt_orderBy hnodup (hsep.subset hsub)).sublist hpart, ?_⟩
  exact fun row hrow => hsub (Sql.mem_orderBy.1 (hpart.subset hrow))

/-- Of two rows that a page of the list returns, the one that the criteria put first stands
first. -/
theorem precedes_listIds {scan : Scan table} {params : ListTrendsParams} {a b : TechTrend}
    (ha : a ∈ table.rows) (hb : b ∈ table.rows) (hboth : Returns (listIds pg scan params) a b) :
    Precedes (listIds pg scan params) a b ↔ Sql.LT (listItems pg params.sort) a b := by
  have hids : listIds pg scan params =
      (Sql.page params.limit ((params.page - 1) * params.limit) (Sql.orderBy
        (listItems pg params.sort) (scan.rows.filter (Selected pg params.source params.isNew)))).map
        fun row => row.id := by
    rw [listIds, listTrends, List.map_map, applyListFilters_eq_selected]
    rfl
  rw [hids] at hboth ⊢
  obtain ⟨hpairwise, hsub⟩ := pairwise_page (listItems_separates pg params.sort) scan
    (fun row => decide (Selected pg params.source params.isNew row)) params.limit
    ((params.page - 1) * params.limit)
  exact precedes_page hpairwise hsub ha hb hboth

/-- Of two rows that a page of the keyword search returns, the one that its criteria put first
stands first. -/
theorem precedes_searchIds [LinearOrder Rank] {dataScan countScan : Scan table}
    {params : SearchParams} {a b : TechTrend} (ha : a ∈ table.rows) (hb : b ∈ table.rows)
    (hboth : Returns (searchIds pg dataScan countScan params) a b) :
    Precedes (searchIds pg dataScan countScan params) a b ↔
      Sql.LT (orderByClause pg params.search params.sortOrDefault) a b := by
  have hids : searchIds pg dataScan countScan params =
      (Sql.page params.limit ((params.page - 1) * params.limit) (Sql.orderBy
        (orderByClause pg params.search params.sortOrDefault)
        (dataScan.rows.filter (keywordWhere pg params.search params.source params.isNew)))).map
        fun row => row.id := by
    rw [searchIds, searchKeyword, List.map_map]
    rfl
  rw [hids] at hboth ⊢
  obtain ⟨hpairwise, hsub⟩ := pairwise_page
    (orderByClause_separates pg params.search params.sortOrDefault) dataScan
    (keywordWhere pg params.search params.source params.isNew) params.limit
    ((params.page - 1) * params.limit)
  exact precedes_page hpairwise hsub ha hb hboth

/-- The two orders of an option differ on rows that tie in an ascending one. There the list
goes on with the greater id, and the search with the smaller one. -/
theorem lt_iff_lt_iff [LinearOrder Rank] (search : String) (sort : SortOption) {a b : TechTrend}
    (hne : a.id ≠ b.id) :
    (Sql.LT (listItems pg sort) a b ↔
      Sql.LT (orderByClause pg search (SearchSortOption.common sort)) a b) ↔
      ¬ TieAscending pg a b sort := by
  cases sort with
  | CREATED_ASC =>
    simp only [listItems, listOrder, orderByClause, List.cons_append, List.nil_append,
      Sql.LT_cons_iff, Sql.LT_nil, OrderItem.asc_cmp_lt, OrderItem.asc_cmp_eq,
      OrderItem.desc_cmp_lt, OrderItem.desc_cmp_eq, TieAscending]
    omega
  | MINED_ASC =>
    simp only [listItems, listOrder, orderByClause, List.cons_append, List.nil_append,
      Sql.LT_cons_iff, Sql.LT_nil, OrderItem.asc_cmp_lt, OrderItem.asc_cmp_eq,
      OrderItem.desc_cmp_lt, OrderItem.desc_cmp_eq, TieAscending]
    omega
  | _ => exact iff_of_true Iff.rfl not_false

/-- **When an option means one order.** Of two rows that a list and a keyword search
with the same option both return, both put the same one first, if and only if the
option is not an ascending one that the rows tie in. -/
theorem same_order_iff [LinearOrder Rank] (pg : Postgres Tsvector Tsquery Vector Rank Distance)
    (table : TrendTable) (sort : SortOption) (listScan dataScan countScan : Scan table)
    (listParams : ListTrendsParams) (searchParams : SearchParams) (hlist : listParams.sort = sort)
    (hsearch : searchParams.sort = some (SearchSortOption.common sort)) (a b : TechTrend)
    (ha : a ∈ table.rows) (hb : b ∈ table.rows) (hne : a ≠ b)
    (hlisted : Returns (listIds pg listScan listParams) a b)
    (hfound : Returns (searchIds pg dataScan countScan searchParams) a b) :
    (Precedes (listIds pg listScan listParams) a b ↔
      Precedes (searchIds pg dataScan countScan searchParams) a b) ↔ ¬ TieAscending pg a b sort := by
  have hids : a.id ≠ b.id := fun h => hne (id_injOn ha hb h)
  have hsort : searchParams.sortOrDefault = SearchSortOption.common sort := by
    rw [SearchParams.sortOrDefault, hsearch, Option.getD_some]
  rw [precedes_listIds ha hb hlisted, precedes_searchIds ha hb hfound, hlist, hsort]
  exact lt_iff_lt_iff searchParams.search sort hids

/-- The first rows of a list of the two posts, the older one first. -/
def oldestListed : ListTrendsParams := ⟨1, 5, "ALL", false, SortOption.CREATED_ASC⟩

/-- The first rows of a search that finds the two posts, the older one first. -/
def oldestFound : SearchParams :=
  ⟨1, 5, "react", "ALL", false, some (SearchSortOption.common SortOption.CREATED_ASC)⟩

/-- Two posts of one day change places. -/
theorem ascending_is_two_orders :
    listIds Postgres.small (Scan.stored twoPosts) oldestListed = [2, 1] ∧
      searchIds Postgres.small (Scan.stored twoPosts) (Scan.stored twoPosts) oldestFound = [1, 2] ∧
      ¬ (Precedes (listIds Postgres.small (Scan.stored twoPosts) oldestListed)
          (samplePost 1 1704153600000) (samplePost 2 1704157200000) ↔
        Precedes (searchIds Postgres.small (Scan.stored twoPosts) (Scan.stored twoPosts) oldestFound)
          (samplePost 1 1704153600000) (samplePost 2 1704157200000)) := by
  decide +kernel

/-- The two posts were mined at different times. -/
theorem same_order_iff_mined :
    (Precedes (listIds Postgres.small (Scan.stored twoPosts)
        ⟨1, 5, "ALL", false, SortOption.MINED_ASC⟩)
        (samplePost 1 1704153600000) (samplePost 2 1704157200000) ↔
      Precedes (searchIds Postgres.small (Scan.stored twoPosts) (Scan.stored twoPosts)
        ⟨1, 5, "react", "ALL", false, some (SearchSortOption.common SortOption.MINED_ASC)⟩)
        (samplePost 1 1704153600000) (samplePost 2 1704157200000)) ↔
      ¬ TieAscending Postgres.small (samplePost 1 1704153600000) (samplePost 2 1704157200000)
        SortOption.MINED_ASC :=
  same_order_iff Postgres.small twoPosts SortOption.MINED_ASC (Scan.stored twoPosts)
    (Scan.stored twoPosts) (Scan.stored twoPosts) ⟨1, 5, "ALL", false, SortOption.MINED_ASC⟩
    ⟨1, 5, "react", "ALL", false, some (SearchSortOption.common SortOption.MINED_ASC)⟩ rfl rfl
    (samplePost 1 1704153600000) (samplePost 2 1704157200000) (by decide +kernel)
    (by decide +kernel) (by decide +kernel) (by decide +kernel) (by decide +kernel)

end TechTrendRepository

end TechTrends
