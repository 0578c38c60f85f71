/-
The page and the server together on a search, over a table that does not change.

A search lists its matches, or the fusion of two rankings where the text has a vector. Both come
in pages like the list, so both can be walked: every row that is found is a few clicks away.
-/
import TechTrends.BrowseList
import TechTrends.HybridSearch

set_option autoImplicit false

namespace TechTrends

namespace Frontend

open QueryDto (Handler arrives searchSortNames searchTypeNames)

/-! ## The requests of a search -/

theorem asks_search_iff {p : TrendsParams} {query : SearchTrendsQuery} :
    p.asks = some (Handler.searchTrends query) ↔
      ∃ search searchType base sort type, p.search = some (search, searchType) ∧ search ≠ "" ∧
        p.asksBase = some base ∧ searchSortNames.lookup p.sort = some sort ∧
        searchTypeNames.lookup searchType = some type ∧
        query = ⟨some base.page, some base.limit, search, some base.source, some base.isNew, some type, some sort⟩ := by
  rw [TrendsParams.asks]
  constructor
  · intro h
    cases hsearch : p.search with
    | none =>
      rw [hsearch] at h
      obtain ⟨_, -, heq⟩ := Option.map_eq_some_iff.1 h
      cases heq
    | some pair =>
      obtain ⟨search, searchType⟩ := pair
      rw [hsearch] at h
      obtain ⟨asked, hasked, heq⟩ := Option.map_eq_some_iff.1 h
      obtain rfl := Handler.searchTrends.inj heq
      obtain ⟨base, hbase, hrest⟩ := Option.bind_eq_some_iff.1 hasked
      obtain ⟨sort, hsort, hrest⟩ := Option.bind_eq_some_iff.1 hrest
      obtain ⟨type, htype, hrest⟩ := Option.bind_eq_some_iff.1 hrest
      split at hrest
      · cases hrest
      · next hne =>
        exact ⟨search, searchType, base, sort, type, rfl, hne, hbase, hsort, htype, (Option.some.inj hrest).symm⟩
  · rintro ⟨search, searchType, base, sort, type, hsearch, hne, hbase, hsort, htype, rfl⟩
    rw [hsearch]
    show (p.asksSearch search searchType).map _ = _
    rw [TrendsParams.asksSearch, hbase, hsort, htype]
    simp only [Option.bind_eq_bind, Option.bind_some, if_neg hne, Option.map_some]

/-- The request for another page of a search arrives as the same search with that page. -/
theorem asks_page {f : Filters} {query : SearchTrendsQuery} (h : f.params.asks = some (Handler.searchTrends query))
    {k : ℤ} (hlow : 1 ≤ k) (hhigh : k < 2 ^ 53) :
    (Filters.params { f with page := some k }).asks =
      some (Handler.searchTrends { query with page := some k.toNat }) := by
  obtain ⟨search, searchType, base, sort, type, hsearch, hne, hbase, hsort, htype, rfl⟩ := asks_search_iff.1 h
  obtain ⟨-, hlimit, hsource, hnew⟩ := asksBase_eq_some_iff.1 hbase
  exact asks_search_iff.2 ⟨search, searchType, { base with page := k.toNat }, sort, type, hsearch, hne,
    asksBase_eq_some_iff.2 ⟨⟨k, rfl, hlow, QueryDto.arrives_of_lt hhigh⟩, hlimit, hsource, hnew⟩, hsort, htype, rfl⟩

/-- The page and the limit of a search that the server takes are at least 1, and the page is
the one that the state has. -/
theorem asks_bounds {f : Filters} {query : SearchTrendsQuery} (h : f.params.asks = some (Handler.searchTrends query))
    {page : ℤ} (hpage : f.page = some page) (hsafe : page < 2 ^ 53) :
    1 ≤ page ∧ query.page = some page.toNat ∧ 1 ≤ query.params.limit := by
  obtain ⟨search, searchType, base, sort, type, -, -, hbase, -, -, rfl⟩ := asks_search_iff.1 h
  obtain ⟨⟨n, hn, hpos, harrives⟩, ⟨-, hlimit, -⟩, -, -⟩ := asksBase_eq_some_iff.1 hbase
  obtain rfl : n = page := Option.some.inj (hn.symm.trans hpage)
  rw [QueryDto.arrives_of_lt hsafe] at harrives
  exact ⟨hpos, harrives.symm, hlimit⟩

/-- Another page of the same search needs no synchronising. -/
theorem sync_page {f : Filters} (h : f.syncUIWithState = f) (page : Option ℤ) :
    Filters.syncUIWithState { f with page := page } = { f with page := page } := by
  have hpage : Filters.syncUIWithState { f with page := page } = { f.syncUIWithState with page := page } := by
    rw [Filters.syncUIWithState, Filters.syncUIWithState]
    show (if f.isSearching = true then (if f.searchType = "hybrid" then _ else if f.sort = "" ∨ f.sort = "CREATED_DESC"
      then _ else _) else if f.sort = "RELEVANCE" then _ else _) = _
    split
    · split
      · rfl
      · split <;> rfl
    · split <;> rfl
  rw [hpage, h]

/-! ## What a search finds -/

section Table

variable {Tsvector Tsquery Vector Rank Distance : Type} [LinearOrder Rank] [LinearOrder Distance]
variable (pg : Postgres Tsvector Tsquery Vector Rank Distance) (settings : SearchSettings Distance)
variable (table : TrendTable) (embedSearchQuery : String → Option (List Json))

/-- The vector that a search has, if it is not one by keyword and its text has one. -/
def searchVector (query : SearchTrendsQuery) : Option (List Json) :=
  if query.searchType = some SearchType.keyword then none
  else (embedSearchQuery query.params.search).filter fun vector => !vector.isEmpty

/-- The rows that a search finds: those of the fusion with a vector, else the keyword matches. -/
def foundRows (query : SearchTrendsQuery) : List TechTrend :=
  match searchVector embedSearchQuery query with
  | some vector => fusedRows pg settings table query.params (TechTrendRepository.vectorString vector)
  | none => keywordMatches pg table query.params

/-- What a search tells of a row that it finds. -/
def foundColumns (query : SearchTrendsQuery) (row : TechTrend) : FoundTrend Rank :=
  match searchVector embedSearchQuery query with
  | some vector => FoundTrend.hybrid (row.withScore pg
      (rrfScore pg settings table query.params (TechTrendRepository.vectorString vector) row))
  | none => FoundTrend.keyword (row.withRelevance pg query.params.search)

/-- A search has no vector, by its kind or because none could be made of the text, and goes by
the keyword; or it has one, and is a hybrid one. -/
theorem searchVector_cases (query : SearchTrendsQuery) :
    searchVector embedSearchQuery query = none ∧ ByKeyword embedSearchQuery query ∨
      ∃ v vs, searchVector embedSearchQuery query = some (v :: vs) ∧ query.searchType ≠ some SearchType.keyword ∧
        embedSearchQuery query.params.search = some (v :: vs) := by
  by_cases htype : query.searchType = some SearchType.keyword
  · exact Or.inl ⟨if_pos htype, Or.inl htype⟩
  rw [searchVector, if_neg htype]
  cases hvector : embedSearchQuery query.params.search with
  | none => exact Or.inl ⟨rfl, Or.inr (Or.inl hvector)⟩
  | some vector =>
    cases vector with
    | nil => exact Or.inl ⟨rfl, Or.inr (Or.inr hvector)⟩
    | cons v vs => exact Or.inr ⟨v, vs, rfl, htype, rfl⟩

theorem foundRows_sublist (query : SearchTrendsQuery) :
    (foundRows pg settings table embedSearchQuery query).Sublist table.rows := by
  rw [foundRows]
  split
  · exact List.filter_sublist
  · exact List.filter_sublist

/-- What is told of two rows differs, as the id is told with it. -/
theorem nodup_foundColumns (query : SearchTrendsQuery) :
    ((foundRows pg settings table embedSearchQuery query).map
      (foundColumns pg settings table embedSearchQuery query)).Nodup := by
  refine (table.ids_nodup.of_map _).sublist (foundRows_sublist pg settings table embedSearchQuery query)
    |>.map_on fun a ha b hb heq => ?_
  have hsub := (foundRows_sublist pg settings table embedSearchQuery query).subset
  refine List.inj_on_of_nodup_map table.ids_nodup (hsub ha) (hsub hb) ?_
  rw [foundColumns, foundColumns] at heq
  split at heq
  · exact congrArg HybridTrend.id (FoundTrend.hybrid.inj heq)
  · exact congrArg KeywordTrend.id (FoundTrend.keyword.inj heq)

variable {table} (dataScan countScan : ℕ → TechTrendRepository.HybridScan table) (render : FoundTrend Rank → Json)

/-- The answer to a page of a search. -/
def searchPage (query : SearchTrendsQuery) (p : ℕ) : SearchResponse Rank :=
  searchResponse pg settings (dataScan p) (countScan p) embedSearchQuery { query with page := some p }

/-- The pages of a search list what it finds. -/
theorem search_listing {query : SearchTrendsQuery} (hlimit : 1 ≤ query.params.limit) :
    ∃ before, Sql.Listing query.params.limit (foundRows pg settings table embedSearchQuery query) before
      (foundColumns pg settings table embedSearchQuery query)
      (fun p => (searchPage pg settings embedSearchQuery dataScan countScan query p).data)
      (fun p => (searchPage pg settings embedSearchQuery dataScan countScan query p).info.totalCount) := by
  rcases searchVector_cases embedSearchQuery query with ⟨hnone, h⟩ | ⟨v, vs, hsome, htype, hvector⟩
  · have hrows : foundRows pg settings table embedSearchQuery query = keywordMatches pg table query.params := by
      rw [foundRows, hnone]
    have hcolumns : foundColumns pg settings table embedSearchQuery query =
        fun row => FoundTrend.keyword (row.withRelevance pg query.params.search) := by
      funext row
      rw [foundColumns, hnone]
    rw [hrows, hcolumns]
    exact ⟨_, searchTrends_lists_matches h hlimit dataScan countScan⟩
  · have hrows : foundRows pg settings table embedSearchQuery query =
        fusedRows pg settings table query.params (TechTrendRepository.vectorString (v :: vs)) := by
      rw [foundRows, hsome]
    have hcolumns : foundColumns pg settings table embedSearchQuery query =
        fun row => FoundTrend.hybrid (row.withScore pg (rrfScore pg settings table query.params
          (TechTrendRepository.vectorString (v :: vs)) row)) := by
      funext row
      rw [foundColumns, hsome]
    rw [hrows, hcolumns]
    exact ⟨_, searchTrends_fuses htype hvector hlimit dataScan countScan⟩

theorem searchResponse_totalPages (dataScan countScan : TechTrendRepository.HybridScan table)
    (query : SearchTrendsQuery) :
    (searchResponse pg settings dataScan countScan embedSearchQuery query).info.totalPages =
      Sql.pageCount (searchResponse pg settings dataScan countScan embedSearchQuery query).info.totalCount
        query.params.limit := by
  rcases searchVector_cases embedSearchQuery query with ⟨-, h⟩ | ⟨v, vs, -, htype, hvector⟩
  · rw [searchResponse_keyword _ _ _ h]
    rfl
  · rw [searchResponse_hybrid _ _ _ htype hvector]
    rfl

/-! ## The server -/

/-- The answer to a search: the rows of the page, rendered, and how many there are. -/
def servedSearch (query : SearchTrendsQuery) : TrendsBody :=
  let page := query.params.page
  let response := searchResponse pg settings (dataScan page) (countScan page) embedSearchQuery query
  { data := some (response.data.map render)
    totalPages := response.info.totalPages
    totalCount := some response.info.totalCount }

/-- The server for searches. -/
def serveSearch (p : TrendsParams) : Option TrendsBody :=
  match p.received with
  | some (Except.ok (Handler.searchTrends query)) =>
    some (servedSearch pg settings embedSearchQuery dataScan countScan render query)
  | _ => none

/-- **Every row that a search finds is a few clicks away**, from any page of the search and, if
there are several, from behind its end: its page is reached by the links that are shown, the
row is one of its cards, and no other page has it. As for the list, the page to start from is
below 2 ^ 53. -/
theorem browse_search {f : Filters} {query : SearchTrendsQuery} {page : ℤ} (hsync : f.syncUIWithState = f)
    (hpage : f.page = some page) (hsafe : page < 2 ^ 53)
    (hreceived : f.params.received = some (Except.ok (Handler.searchTrends query)))
    (hrows : table.rows.length < 2 ^ 53)
    (hlinks : page = 1 ∨ query.params.limit < (foundRows pg settings table embedSearchQuery query).length) {s : Page}
    (hfilters : s.filters = f)
    (hshown : ∃ v, s.view = TrendsView.answered v (some page) (TrendsAnswer.ok
      (servedSearch pg settings embedSearchQuery dataScan countScan render query)))
    {row : TechTrend} (hrow : row ∈ foundRows pg settings table embedSearchQuery query) :
    ∃ k : ℕ, (∀ k', foundColumns pg settings table embedSearchQuery query row ∈
        (searchPage pg settings embedSearchQuery dataScan countScan query k').data ∧ 1 ≤ k' ↔ k' = k) ∧
      ∃ acts s', machine.run acts s = some s' ∧
        machine.Meets (Browses (serveSearch pg settings embedSearchQuery dataScan countScan render)) acts s ∧
        acts.length ≤ 3 * ((group page - group k).natAbs + 1) ∧ s'.filters = { f with page := some (k : ℤ) } ∧
        s'.view.ShowsCard (render (foundColumns pg settings table embedSearchQuery query row)) := by
  have hasks := received_ok_iff.1 hreceived
  obtain ⟨hlow, hquery, hlimit⟩ := asks_bounds hasks hpage hsafe
  obtain ⟨before, hlisting⟩ := search_listing pg settings embedSearchQuery dataScan countScan hlimit
  have hcount := (pageCount_le hlimit (foundRows pg settings table embedSearchQuery query).length).trans
    (foundRows_sublist pg settings table embedSearchQuery query).length_le
  refine browse_listing (fun k => servedSearch pg settings embedSearchQuery dataScan countScan render
      { query with page := some k.toNat }) hlimit hlisting
    (nodup_foundColumns pg settings table embedSearchQuery query) (fun _ => rfl) (fun k => ?_)
    (fun k => sync_page hsync (some k)) hlow (fun k hk hhigh => ?_) hlinks ?_ ?_ hrow
  · have htotal := searchResponse_totalPages pg settings embedSearchQuery (dataScan k.toNat) (countScan k.toNat)
      { query with page := some k.toNat }
    have hfound : (searchResponse pg settings (dataScan k.toNat) (countScan k.toNat) embedSearchQuery
        { query with page := some k.toNat }).info.totalCount = _ := hlisting.1 k.toNat
    rw [hfound] at htotal
    exact congrArg (fun count : ℕ => (count : ℤ)) htotal
  · rw [serveSearch, received_ok_iff.2 (asks_page hasks hk (by omega))]
  · rw [hfilters, ← hpage]
  · rw [← hquery]
    exact hshown

end Table

/-! ## Behind the end of a search -/

/-- The hybrid search for `react`, one row a page, behind its end. -/
def reactBehind : Filters where
  source := "ALL"
  query := " react "
  searchType := "hybrid"
  isNew := false
  sort := "RELEVANCE"
  page := some 7
  limit := some 1

/-- How the request of `reactBehind` arrives. -/
def reactQuery : SearchTrendsQuery :=
  ⟨some 7, some 1, "react", some "ALL", some false, some SearchType.hybrid, some SearchSortOption.RELEVANCE⟩

def renderFound : FoundTrend ℕ → Json
  | FoundTrend.keyword row => Json.num (Binary64.ofInt row.id)
  | FoundTrend.hybrid row => Json.arr [Json.num (Binary64.ofInt row.id)]

/-- The page that shows no row, with the links back. -/
def searchBehind : Page :=
  let s : Page := init reactBehind none
  { s with
    filters := reactBehind
    calls := []
    view := TrendsView.answered s.view (some 7) (TrendsAnswer.ok (servedSearch Postgres.small ⟨5, 0⟩
      (fun _ => some smallVector) (fun _ => smallScan) (fun _ => smallScan) renderFound reactQuery)) }

/-- From a page behind the end of a search, a post that it finds is a few clicks away. -/
theorem browse_search_behind : ∃ (k : ℕ) (acts : List Act) (s' : Page), machine.run acts searchBehind = some s' ∧
    acts.length ≤ 3 * ((group 7 - group k).natAbs + 1) ∧
    s'.view.ShowsCard (renderFound (foundColumns Postgres.small ⟨5, 0⟩ twoPosts (fun _ => some smallVector)
      reactQuery (samplePost 2 1704157200000))) := by
  have hbase : reactBehind.params.asksBase = some ⟨7, 1, "ALL", false⟩ := asksBase_eq_some_iff.2
    ⟨⟨7, rfl, by decide, QueryDto.arrives_of_lt (by decide)⟩, ⟨rfl, by decide, by decide⟩, rfl, rfl⟩
  have hasks : reactBehind.params.asks = some (Handler.searchTrends reactQuery) := asks_search_iff.2
    ⟨"react", "hybrid", _, SearchSortOption.RELEVANCE, SearchType.hybrid, by decide, by decide, hbase, rfl, rfl, rfl⟩
  obtain ⟨k, -, acts, s', hrun, -, hlength, -, hcard⟩ := browse_search Postgres.small ⟨5, 0⟩
    (fun _ => some smallVector) (fun _ => smallScan) (fun _ => smallScan) renderFound (by decide)
    (show reactBehind.page = some 7 from rfl) (by decide) (received_ok_iff.2 hasks) (by decide)
    (Or.inr (by decide)) (s := searchBehind) rfl ⟨(init reactBehind none).view, rfl⟩
    (show samplePost 2 1704157200000 ∈ foundRows Postgres.small ⟨5, 0⟩ twoPosts (fun _ => some smallVector) reactQuery
      by decide)
  exact ⟨k, acts, s', hrun, hlength, hcard⟩

end Frontend

end TechTrends
