/-
`TechTrendRepository`: the statements behind the list and the search, and the
responses that `TrendsQueryService` makes of what they give.

A statement reads the rows of the table in an order of its own (`Scan`); the
statements of one response and those of two pages may read in different orders.
What the database brings along is a parameter (`Postgres`): the day, the texts of
dates, full-text search and the vector type. Scores of the hybrid search are exact
fractions. A window over a subquery with a `LIMIT` keeps the smallest numbers.
-/
import TechTrends.JsString
import TechTrends.Sql
import TechTrends.TrendsQuery
import Mathlib.Data.Rat.Defs
import Mathlib.Algebra.Order.Ring.Rat

set_option autoImplicit false

namespace TechTrends

open TrendsQuery (SortOption ListTrendsQuery ListTrendsParams)
open Sql (OrderItem orderBy page rowNumber innerJoin fullOuterJoin)

/-! ## The database -/

/-- The functions and types that the statements take from the database. The
comparisons of `ts_rank` and of `<=>` are those of linear orders, `NaN` included. -/
structure Postgres (Tsvector Tsquery Vector Rank Distance : Type) where
  currentDate : ℤ
  /-- The day that `created_at` is stored as. -/
  date : String → ℤ
  /-- `to_tsvector('simple', …)`. -/
  toTsvector : String → Tsvector
  /-- `setweight(…, 'A')`. -/
  setweight : Tsvector → Tsvector
  concat : Tsvector → Tsvector → Tsvector
  /-- `plainto_tsquery('simple', …)`. -/
  plaintoTsquery : String → Tsquery
  matches_ : Tsvector → Tsquery → Bool
  tsRank : Tsvector → Tsquery → Rank
  /-- The stored value of an embedding. -/
  vector : List Binary64 → Vector
  /-- `CAST(… AS vector)`. -/
  castVector : String → Vector
  /-- `<=>`. -/
  distance : Vector → Vector → Distance

variable {Tsvector Tsquery Vector Rank Distance : Type}

namespace Postgres

variable (pg : Postgres Tsvector Tsquery Vector Rank Distance)

/-- The generated column `search_document`. -/
def searchDocument (row : TechTrend) : Tsvector :=
  pg.concat (pg.setweight (pg.toTsvector row.title))
    (pg.setweight (pg.toTsvector (row.technical_tags.getD "")))

/-- `search_document @@ plainto_tsquery('simple', search)`. -/
def found (search : String) (row : TechTrend) : Bool :=
  pg.matches_ (pg.searchDocument row) (pg.plaintoTsquery search)

/-- `ts_rank(search_document, plainto_tsquery('simple', search))`. -/
def relevance (search : String) (row : TechTrend) : Rank :=
  pg.tsRank (pg.searchDocument row) (pg.plaintoTsquery search)

def createdAt (row : TechTrend) : ℤ := pg.date row.created_at

/-- `mined_at >= CURRENT_DATE AND mined_at < CURRENT_DATE + INTERVAL '1 day'`. -/
def minedToday (row : TechTrend) : Bool :=
  pg.currentDate ≤ row.mined_at && row.mined_at < pg.currentDate + dayMs

end Postgres

/-- The rows of the table in the order that a statement reads them in. -/
structure Scan (table : TrendTable) where
  rows : List TechTrend
  perm : rows.Perm table.rows

/-- The rows as they are stored. -/
def Scan.stored (table : TrendTable) : Scan table := ⟨table.rows, List.Perm.refl _⟩

/-! ## Parameters and results -/

/-- The options of the search: those of the list, and relevance. -/
inductive SearchSortOption
  | RELEVANCE
  | common (sort : SortOption)
deriving DecidableEq

inductive SearchType
  | hybrid
  | keyword
deriving DecidableEq

/-- `SearchTrendsQueryDto`. -/
structure SearchTrendsQuery where
  page : Option ℕ
  limit : Option ℕ
  search : String
  source : Option String
  isNew : Option Bool
  searchType : Option SearchType
  sort : Option SearchSortOption
deriving DecidableEq

structure SearchParams where
  page : ℕ
  limit : ℕ
  search : String
  source : String
  isNew : Bool
  sort : Option SearchSortOption
deriving DecidableEq

/-- `sort = 'RELEVANCE'`. -/
def SearchParams.sortOrDefault (params : SearchParams) : SearchSortOption :=
  params.sort.getD SearchSortOption.RELEVANCE

/-- The settings of the hybrid search. -/
structure SearchSettings (Distance : Type) where
  searchCandidateLimit : ℕ
  vectorDistanceThreshold : Distance

structure SearchResult (ρ : Type) where
  data : List ρ
  totalCount : ℕ
deriving DecidableEq

/-- What `listTrends` selects. An entity has the text of its `created_at`. -/
structure ListedTrend where
  id : ℕ
  source : String
  title : String
  short_summary : List String
  link_url : String
  technical_tags : Option String
  view_count : Option ℤ
  like_count : Option ℤ
  comment_count : Option ℤ
  created_at : String
  mined_at : ℤ
deriving DecidableEq

/-- What `searchKeyword` selects. -/
structure KeywordTrend (Rank : Type) where
  id : ℕ
  source : String
  source_id : String
  title : String
  short_summary : List String
  long_summary : Option String
  link_url : String
  technical_tags : Option String
  view_count : Option ℤ
  like_count : Option ℤ
  comment_count : Option ℤ
  created_at : ℤ
  mined_at : ℤ
  relevance_score : Rank
deriving DecidableEq

/-- What `searchHybrid` selects. -/
structure HybridTrend where
  id : ℕ
  source : String
  title : String
  short_summary : List String
  long_summary : Option String
  link_url : String
  technical_tags : Option String
  view_count : Option ℤ
  like_count : Option ℤ
  comment_count : Option ℤ
  created_at : ℤ
  mined_at : ℤ
  rrf_score : ℚ
deriving DecidableEq

def TechTrend.listed (row : TechTrend) : ListedTrend :=
  { id := row.id, source := row.source, title := row.title, short_summary := row.short_summary,
    link_url := row.link_url, technical_tags := row.technical_tags, view_count := row.view_count,
    like_count := row.like_count, comment_count := row.comment_count,
    created_at := row.created_at, mined_at := row.mined_at }

def TechTrend.withRelevance (pg : Postgres Tsvector Tsquery Vector Rank Distance) (search : String)
    (row : TechTrend) : KeywordTrend Rank :=
  { id := row.id, source := row.source, source_id := row.source_id, title := row.title,
    short_summary := row.short_summary, long_summary := row.long_summary,
    link_url := row.link_url, technical_tags := row.technical_tags, view_count := row.view_count,
    like_count := row.like_count, comment_count := row.comment_count,
    created_at := pg.createdAt row, mined_at := row.mined_at,
    relevance_score := pg.relevance search row }

def TechTrend.withScore (pg : Postgres Tsvector Tsquery Vector Rank Distance) (row : TechTrend)
    (rrf_score : ℚ) : HybridTrend :=
  { id := row.id, source := row.source, title := row.title, short_summary := row.short_summary,
    long_summary := row.long_summary, link_url := row.link_url,
    technical_tags := row.technical_tags, view_count := row.view_count,
    like_count := row.like_count, comment_count := row.comment_count,
    created_at := pg.createdAt row, mined_at := row.mined_at, rrf_score := rrf_score }

namespace TechTrendRepository

variable (pg : Postgres Tsvector Tsquery Vector Rank Distance) {table : TrendTable}

/-! ## The list -/

/-- `applyListFilters`. -/
def applyListFilters (source : String) (isNew : Bool) (rows : List TechTrend) : List TechTrend :=
  let rows := if source ≠ "ALL" then rows.filter fun row => row.source = source else rows
  if isNew then rows.filter pg.minedToday else rows

/-- The `switch` of `listTrends`. -/
def listOrder : SortOption → List (OrderItem TechTrend)
  | SortOption.MINED_DESC => [OrderItem.desc fun row => row.mined_at, OrderItem.desc pg.createdAt]
  | SortOption.MINED_ASC => [OrderItem.asc fun row => row.mined_at, OrderItem.asc pg.createdAt]
  | SortOption.LIKE_DESC =>
    [OrderItem.descNullsLast fun row => row.like_count, OrderItem.desc pg.createdAt]
  | SortOption.VIEW_DESC =>
    [OrderItem.descNullsLast fun row => row.view_count, OrderItem.desc pg.createdAt]
  | SortOption.COMMENT_DESC =>
    [OrderItem.descNullsLast fun row => row.comment_count, OrderItem.desc pg.createdAt]
  | SortOption.CREATED_ASC => [OrderItem.asc pg.createdAt]
  | SortOption.CREATED_DESC => [OrderItem.desc pg.createdAt]

/-- The whole `ORDER BY` of `listTrends`. -/
def listItems (sort : SortOption) : List (OrderItem TechTrend) :=
  -- `addOrderBy('trend.id', 'DESC')` after every option.
  listOrder pg sort ++ [OrderItem.desc fun row => row.id]

def listTrends (scan : Scan table) (params : ListTrendsParams) : List ListedTrend :=
  let rows := applyListFilters pg params.source params.isNew scan.rows
  let ordered := orderBy (listItems pg params.sort) rows
  -- Pages are counted from 1: the request is refused otherwise.
  (page params.limit ((params.page - 1) * params.limit) ordered).map TechTrend.listed

def countTrends (scan : Scan table) (source : String) (isNew : Bool) : ℕ :=
  (applyListFilters pg source isNew scan.rows).length

/-! ## Keyword search -/

/-- The conditions on the source and on `mined_at`, which both searches share. -/
def commonWhere (source : String) (isNew : Bool) (row : TechTrend) : Bool :=
  (source = "ALL" || row.source = source) && (isNew = false || pg.minedToday row)

/-- The `WHERE` of `searchKeyword`. -/
def keywordWhere (search source : String) (isNew : Bool) (row : TechTrend) : Bool :=
  commonWhere pg source isNew row && pg.found search row

section Keyword

variable [LinearOrder Rank]

/-- The `switch` of `searchKeyword`. -/
def orderByClause (search : String) : SearchSortOption → List (OrderItem TechTrend)
  | SearchSortOption.common SortOption.CREATED_DESC =>
    [OrderItem.desc pg.createdAt, OrderItem.desc fun row => row.id]
  | SearchSortOption.common SortOption.CREATED_ASC =>
    [OrderItem.asc pg.createdAt, OrderItem.asc fun row => row.id]
  | SearchSortOption.common SortOption.MINED_DESC =>
    [OrderItem.desc fun row => row.mined_at, OrderItem.desc pg.createdAt,
      OrderItem.desc fun row => row.id]
  | SearchSortOption.common SortOption.MINED_ASC =>
    [OrderItem.asc fun row => row.mined_at, OrderItem.asc pg.createdAt,
      OrderItem.asc fun row => row.id]
  | SearchSortOption.common SortOption.LIKE_DESC =>
    [OrderItem.descNullsLast fun row => row.like_count, OrderItem.desc pg.createdAt,
      OrderItem.desc fun row => row.id]
  | SearchSortOption.common SortOption.VIEW_DESC =>
    [OrderItem.descNullsLast fun row => row.view_count, OrderItem.desc pg.createdAt,
      OrderItem.desc fun row => row.id]
  | SearchSortOption.common SortOption.COMMENT_DESC =>
    [OrderItem.descNullsLast fun row => row.comment_count, OrderItem.desc pg.createdAt,
      OrderItem.desc fun row => row.id]
  | SearchSortOption.RELEVANCE =>
    [OrderItem.desc (pg.relevance search), OrderItem.desc pg.createdAt,
      OrderItem.desc fun row => row.id]

/-- `searchKeyword`, with the statement for the rows and the one for their number. -/
def searchKeyword (dataScan countScan : Scan table) (params : SearchParams) :
    SearchResult (KeywordTrend Rank) :=
  let where_ := keywordWhere pg params.search params.source params.isNew
  let ordered := orderBy (orderByClause pg params.search params.sortOrDefault)
    (dataScan.rows.filter where_)
  { data := (page params.limit ((params.page - 1) * params.limit) ordered).map
      (TechTrend.withRelevance pg params.search)
    totalCount := (countScan.rows.filter where_).length }

end Keyword

/-! ## Hybrid search -/

/-- The rows that the two subqueries and the join of a hybrid statement read. -/
structure HybridScan (table : TrendTable) where
  keyword : Scan table
  vector : Scan table
  trend : Scan table

/-- A row of `keyword_ranked` or `vector_ranked`. -/
structure Ranked where
  id : ℕ
  rank : ℕ
deriving DecidableEq

/-- A row of `rrf`. -/
structure Rrf where
  id : Option ℕ
  rrf_score : ℚ
deriving DecidableEq

def rrfK : ℕ := 60

/-- `COALESCE(k.id, v.id)`. -/
def coalesceId (x : Option Ranked × Option Ranked) : Option ℕ :=
  (x.1.map fun k => k.id) <|> x.2.map fun v => v.id

/-- `COALESCE(1.0 / ($6 + r.rank), 0)`. -/
def reciprocal (r : Option Ranked) : ℚ :=
  (r.map fun r => 1 / ((rrfK : ℚ) + r.rank)).getD 0

/-- `[${vector.join(',')}]`. -/
def vectorString (vector : List Json) : String :=
  "[" ++ ",".intercalate (Json.elementTexts vector) ++ "]"

/-- `SELECT trend.id, ROW_NUMBER() OVER (…) AS rank … LIMIT $5`. -/
def ranked (items : List (OrderItem TechTrend)) (limit : ℕ) (rows : List TechTrend) :
    List Ranked :=
  ((rowNumber items rows).take limit).map fun x => ⟨x.1.id, x.2⟩

/-- The order of the fused rows. -/
def rrfItems : List (OrderItem (TechTrend × Rrf)) :=
  [OrderItem.desc fun x => x.2.rrf_score, OrderItem.desc fun x => pg.createdAt x.1,
    OrderItem.desc fun x => x.1.id]

section KeywordQuery

variable [LinearOrder Rank]

/-- The order of the candidates of the keyword query. -/
def keywordItems (search : String) : List (OrderItem TechTrend) :=
  [OrderItem.desc (pg.relevance search), OrderItem.desc pg.createdAt,
    OrderItem.desc fun row => row.id]

/-- `keyword_ranked`. -/
def keywordRanked (settings : SearchSettings Distance) (scan : Scan table) (params : SearchParams) :
    List Ranked :=
  ranked (keywordItems pg params.search) settings.searchCandidateLimit
    (scan.rows.filter (keywordWhere pg params.search params.source params.isNew))

end KeywordQuery

section VectorQuery

/-- `embedding <=> CAST(vectorString AS vector)`, which is null for no embedding. -/
def distanceTo (vector : String) (row : TechTrend) : Option Distance :=
  row.embedding.map fun embedding => pg.distance (pg.vector embedding) (pg.castVector vector)

variable [LinearOrder Distance]

/-- `embedding IS NOT NULL AND embedding <=> CAST(vectorString AS vector) <= threshold`. -/
def isNear (threshold : Distance) (vector : String) (row : TechTrend) : Bool :=
  match distanceTo pg vector row with
  | some d => d ≤ threshold
  | none => false

/-- `ASC` puts nulls last; rows without an embedding are not asked for. -/
def ascNullsLast (d : Option Distance) : WithTop Distance := d

/-- The order of the candidates of the vector query. -/
def vectorItems (vector : String) : List (OrderItem TechTrend) :=
  [OrderItem.asc fun row => ascNullsLast (distanceTo pg vector row), OrderItem.desc pg.createdAt,
    OrderItem.desc fun row => row.id]

/-- The `WHERE` of the vector query. -/
def vectorWhere (settings : SearchSettings Distance) (vector source : String) (isNew : Bool)
    (row : TechTrend) : Bool :=
  commonWhere pg source isNew row && isNear pg settings.vectorDistanceThreshold vector row

/-- `vector_ranked`. -/
def vectorRanked (settings : SearchSettings Distance) (scan : Scan table) (params : SearchParams)
    (vector : String) : List Ranked :=
  ranked (vectorItems pg vector) settings.searchCandidateLimit
    (scan.rows.filter (vectorWhere pg settings vector params.source params.isNew))

end VectorQuery

section Hybrid

variable [LinearOrder Rank] [LinearOrder Distance]

/-- `keyword_ranked k FULL OUTER JOIN vector_ranked v ON k.id = v.id`. -/
def joined (settings : SearchSettings Distance) (scan : HybridScan table) (params : SearchParams)
    (vector : String) : List (Option Ranked × Option Ranked) :=
  fullOuterJoin (fun k v => k.id = v.id) (keywordRanked pg settings scan.keyword params)
    (vectorRanked pg settings scan.vector params vector)

/-- `rrf` of the statement for the rows. -/
def rrf (settings : SearchSettings Distance) (scan : HybridScan table) (params : SearchParams)
    (vector : String) : List Rrf :=
  ((joined pg settings scan params vector).map fun x =>
    { id := coalesceId x, rrf_score := reciprocal x.1 + reciprocal x.2 : Rrf }).dedup

/-- `searchHybrid`, with the statement for the rows and the one for their number. -/
def searchHybrid (settings : SearchSettings Distance) (dataScan countScan : HybridScan table)
    (params : SearchParams) (vector : List Json) : SearchResult HybridTrend :=
  let vector := vectorString vector
  let fused := innerJoin (fun trend rrf => rrf.id = some trend.id) dataScan.trend.rows
    (rrf pg settings dataScan params vector)
  let ids := ((joined pg settings countScan params vector).map coalesceId).dedup
  { data := (page params.limit ((params.page - 1) * params.limit) (orderBy (rrfItems pg) fused)).map
      fun x => x.1.withScore pg x.2.rrf_score
    totalCount := ids.length }

end Hybrid

end TechTrendRepository

/-! ## `searchTrends` -/

/-- The defaults of `searchTrends`, and the trimmed text. -/
def SearchTrendsQuery.params (query : SearchTrendsQuery) : SearchParams where
  page := query.page.getD 1
  limit := query.limit.getD 5
  search := String.ofList (JsString.trim query.search.toList)
  source := query.source.getD "ALL"
  isNew := query.isNew.getD false
  sort := some (query.sort.getD SearchSortOption.RELEVANCE)

structure Meta where
  totalCount : ℕ
  totalPages : ℕ
  itemsPerPage : ℕ
  currentPage : ℕ
deriving DecidableEq

/-- A row of one search or the other. -/
inductive FoundTrend (Rank : Type)
  | keyword (row : KeywordTrend Rank)
  | hybrid (row : HybridTrend)
deriving DecidableEq

structure SearchResponse (Rank : Type) where
  data : List (FoundTrend Rank)
  info : Meta
deriving DecidableEq

/-- `meta`. -/
def SearchParams.meta_ (params : SearchParams) (totalCount : ℕ) : Meta where
  totalCount := totalCount
  totalPages := Sql.pageCount totalCount params.limit
  itemsPerPage := params.limit
  currentPage := params.page

/-- `searchTrends`, over what the repository and `embedSearchQuery` give. -/
def searchTrends (searchKeyword : SearchParams → SearchResult (KeywordTrend Rank))
    (searchHybrid : SearchParams → List Json → SearchResult HybridTrend)
    (embedSearchQuery : String → Option (List Json)) (query : SearchTrendsQuery) :
    SearchResponse Rank :=
  let params := query.params
  let byKeyword : SearchResponse Rank :=
    let result := searchKeyword params
    ⟨result.data.map FoundTrend.keyword, params.meta_ result.totalCount⟩
  match query.searchType.getD SearchType.hybrid with
  | SearchType.keyword => byKeyword
  | SearchType.hybrid =>
    match embedSearchQuery params.search with
    | some (v :: vs) =>
      -- The hybrid search is not given the option: its order is the fused one.
      let result := searchHybrid { params with sort := none } (v :: vs)
      ⟨result.data.map FoundTrend.hybrid, params.meta_ result.totalCount⟩
    | _ => byKeyword

end TechTrends
