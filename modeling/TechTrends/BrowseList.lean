/-
The page and the server together, over a table that does not change: what can be reached by
the links under a list.

A click sends a request, the server reads its text and lists a page, and the page shows the
rows with new links. Every row that the list holds is a few clicks away from wherever one is,
on one page and no other.
-/
import TechTrends.FrontendRequests
import TechTrends.TrendPaging

set_option autoImplicit false

namespace TechTrends

namespace Frontend

open QueryDto (Handler arrives sortNames)
open TrendsQuery (ListTrendsQuery ListTrendsParams SortOption Request)

/-! ## Browsing -/

/-- A step of someone who follows links, with a server that answers. -/
def Browses (serve : TrendsParams → Option TrendsBody) (s : Page) : Act → Prop
  | Act.goToPage k => ∃ link ∈ s.view.pagination, link.target = k
  | Act.response _ status => status = some 200
  | Act.trendsBody i body => body.isSome = true ∧
    ∃ params submitted, s.calls[i]? = some (Call.trends params submitted Stage.body) ∧ body = serve params
  | _ => False

/-- The row of an item is one of the cards on the screen, which are the rows that the page keeps
in `state.data`. While a request is on its way, and after one that failed, there are no cards. -/
def TrendsView.ShowsCard (v : TrendsView) (item : Json) : Prop :=
  item ∈ v.data ∧ v.cardList = CardList.cards v.data

theorem showsCard_answered (v : TrendsView) {page : Option ℤ} {body : TrendsBody} {item : Json}
    (h : item ∈ body.data.getD []) : (v.answered page (TrendsAnswer.ok body)).ShowsCard item :=
  ⟨h, rfl⟩

section Server

variable {serve : TrendsParams → Option TrendsBody}

/-- A click is a step of browsing, with the answer of the server: the link is shown, and what
comes is what the server gives to the request for its page. -/
theorem meets_click {s : Page} {k : ℤ} {body : TrendsBody} (hlink : ∃ link ∈ s.view.pagination, link.target = k)
    (hserve : serve (Filters.syncUIWithState { s.filters with page := some k }).params = some body) :
    machine.Meets (Browses serve) (click s k body) s := by
  refine ⟨hlink, fun t ht => ⟨rfl, fun u hu => ⟨⟨rfl, _, false, ?_, hserve.symm⟩, fun _ _ => trivial⟩⟩⟩
  obtain rfl := Option.some.inj ht
  have hcall : (s.goToPage k).calls[s.calls.length]? = some (Call.trends
      (Filters.syncUIWithState { s.filters with page := some k }).params false Stage.response) :=
    List.getElem?_concat_length
  replace hu : respond (s.goToPage k) s.calls.length (some 200) = some u := hu
  rw [respond, hcall] at hu
  obtain rfl := Option.some.inj hu
  show ((s.goToPage k).calls.set s.calls.length _)[s.calls.length]? = _
  rw [List.getElem?_set_self]
  show s.calls.length < (s.calls ++ [_]).length
  rw [List.length_append, List.length_singleton]
  omega

/-- Links that are followed one after the other, with the answers of a server whose lists have
the same number of pages. By induction on the links: each answer shows the links around its
own page, among which is the next one. -/
theorem exists_run_of_clicks {f : Filters} {totalPages top : ℤ} {answer : ℤ → TrendsBody}
    (hsync : ∀ k, Filters.syncUIWithState { f with page := some k } = { f with page := some k })
    (hserve : ∀ k, 1 ≤ k → k ≤ top → serve (Filters.params { f with page := some k }) = some (answer k))
    (htotal : ∀ k, (answer k).totalPages = totalPages) (htop : totalPages ≤ top) {ks : List ℤ} {page page' : ℤ}
    (hclicks : Clicks totalPages page ks page') (hpage : 1 ≤ page) (hle : page ≤ top) {s : Page}
    (hfilters : s.filters = { f with page := some page })
    (hlinks : s.view.pagination = renderPagination (some page) totalPages) :
    ∃ acts s', machine.run acts s = some s' ∧ machine.Meets (Browses serve) acts s ∧ acts.length = 3 * ks.length ∧
      s'.filters = { f with page := some page' } ∧
      (ks ≠ [] → ∀ item ∈ (answer page').data.getD [], s'.view.ShowsCard item) := by
  induction hclicks generalizing s with
  | nil page => exact ⟨[], s, rfl, trivial, rfl, hfilters, fun h => absurd rfl h⟩
  | @cons page k page' ks hlink hrest ih =>
    obtain ⟨hlow, hhigh⟩ := target_range hpage hlink
    have hktop : k ≤ top := by omega
    have hset : Filters.syncUIWithState { s.filters with page := some k } = { f with page := some k } := by
      rw [hfilters]
      exact hsync k
    have hshown : (s.shows k (answer k)).view.pagination = renderPagination (some k) totalPages := by
      rw [← htotal k]
      rfl
    obtain ⟨acts, s', hrun, hmeets, hlength, hfilters', hcards⟩ := ih hlow hktop (s := s.shows k (answer k)) hset hshown
    have hlinked : ∃ link ∈ s.view.pagination, link.target = k := by
      rw [hlinks]
      exact List.mem_map.1 hlink
    refine ⟨click s k (answer k) ++ acts, s', ?_, ?_, ?_, hfilters', fun _ => ?_⟩
    · rw [StepMachine.run_append, run_click, Option.bind_some, hrun]
    · have hclick : machine.Meets (Browses serve) (click s k (answer k)) s :=
        meets_click hlinked (by rw [hset]; exact hserve k hlow hktop)
      exact StepMachine.Meets.append machine hclick (run_click s k (answer k)) hmeets
    · rw [List.length_append, hlength, List.length_cons]
      show 3 + _ = _
      omega
    · cases ks with
      | nil =>
        cases hrest
        obtain rfl : acts = [] := List.length_eq_zero_iff.1 hlength
        obtain rfl := Option.some.inj hrun
        exact fun item hitem => showsCard_answered { s.view with cardList := CardList.loading } hitem
      | cons k' ks => exact hcards (List.cons_ne_nil _ _)

end Server

/-! ## The pages of a listing -/

theorem pageCount_le {limit : ℕ} (hlimit : 1 ≤ limit) (count : ℕ) : Sql.pageCount count limit ≤ count := by
  by_contra hnot
  have hlt := (Sql.lt_pageCount_iff hlimit count count).1 (by omega)
  have hmul : count * 1 ≤ count * limit := Nat.mul_le_mul_left count hlimit
  omega

section Listing

variable {ρ : Type} {limit : ℕ} {rows : List TechTrend} {before : TechTrend → TechTrend → Prop}
variable {columns : TechTrend → ρ} {pages : ℕ → List ρ} {totals : ℕ → ℕ}

/-- The page of a listing that has a row, which is one and no other. -/
theorem exists_page (hrows : (rows.map columns).Nodup) (hlisting : Sql.Listing limit rows before columns pages totals)
    {row : TechTrend} (hrow : row ∈ rows) :
    ∃ k : ℕ, 1 ≤ k ∧ k ≤ Sql.pageCount rows.length limit ∧ ∀ k', columns row ∈ pages k' ∧ 1 ≤ k' ↔ k' = k := by
  obtain ⟨-, ordered, hperm, -, hpaged⟩ := hlisting
  have hlength : (ordered.map columns).length = rows.length := by rw [List.length_map, hperm.length_eq]
  have hconcat := hpaged.concat
  rw [hlength] at hconcat
  have hmem : columns row ∈ ordered.map columns := List.mem_map_of_mem (hperm.mem_iff.2 hrow)
  have hnodup : (ordered.map columns).Nodup := (hperm.map columns).nodup_iff.2 hrows
  rw [← hconcat] at hmem hnodup
  obtain ⟨n, hn, hpage⟩ := List.mem_flatMap.1 hmem
  have hrange := List.mem_range.1 hn
  refine ⟨n + 1, by omega, by omega, fun k' => ⟨?_, ?_⟩⟩
  · rintro ⟨hk', hpos⟩
    have hle : k' ≤ Sql.pageCount rows.length limit := by
      by_contra hnot
      rw [hpaged.beyond k' (by rw [hlength]; omega)] at hk'
      cases hk'
    by_contra hne
    -- the pages have no row in common
    have hdisjoint := (List.nodup_flatMap.1 hnodup).2
    have hsymm : Std.Symm (Function.onFun List.Disjoint fun p => pages (p + 1)) :=
      ⟨fun _ _ h => List.Disjoint.symm h⟩
    have hapart : List.Disjoint (pages (k' - 1 + 1)) (pages (n + 1)) :=
      hdisjoint.forall (List.mem_range.2 (by omega)) hn (by omega)
    rw [Nat.sub_add_cancel hpos] at hapart
    exact hapart hk' hpage
  · rintro rfl
    exact ⟨hpage, by omega⟩

/-- The rows of a listing are a few clicks away from each other, with a server that answers
with its pages: the page of the row is found, and the links lead there. -/
theorem browse_listing (answer : ℤ → TrendsBody) (hlimit : 1 ≤ limit)
    (hlisting : Sql.Listing limit rows before columns pages totals) (hrows : (rows.map columns).Nodup)
    {render : ρ → Json}
    (hanswer : ∀ k : ℕ, (answer k).data = some ((pages k).map render))
    (htotal : ∀ k, (answer k).totalPages = (Sql.pageCount rows.length limit : ℕ)) {f : Filters}
    (hsync : ∀ k, Filters.syncUIWithState { f with page := some k } = { f with page := some k }) {page : ℤ}
    (hpage : 1 ≤ page) {serve : TrendsParams → Option TrendsBody}
    (hserve : ∀ k, 1 ≤ k → k ≤ max page (Sql.pageCount rows.length limit : ℕ) →
      serve (Filters.params { f with page := some k }) = some (answer k))
    (hlinks : page = 1 ∨ limit < rows.length) {s : Page} (hfilters : s.filters = { f with page := some page })
    (hshown : ∃ v, s.view = TrendsView.answered v (some page) (TrendsAnswer.ok (answer page))) {row : TechTrend}
    (hrow : row ∈ rows) :
    ∃ k : ℕ, (∀ k', columns row ∈ pages k' ∧ 1 ≤ k' ↔ k' = k) ∧
      ∃ acts s', machine.run acts s = some s' ∧ machine.Meets (Browses serve) acts s ∧
        acts.length ≤ 3 * ((group page - group k).natAbs + 1) ∧ s'.filters = { f with page := some (k : ℤ) } ∧
        s'.view.ShowsCard (render (columns row)) := by
  obtain ⟨k, hk, hlast, honly⟩ := exists_page hrows hlisting hrow
  refine ⟨k, honly, ?_⟩
  have hshows : render (columns row) ∈ (answer k).data.getD [] := by
    rw [hanswer]
    exact List.mem_map_of_mem ((honly k).2 rfl).1
  obtain ⟨v, hview⟩ := hshown
  by_cases hmany : 1 < Sql.pageCount rows.length limit
  · -- several pages: the links lead from page to page, three actions for each click
    obtain ⟨ks, hclicks, hne, hlength⟩ := exists_clicks hpage (show (1 : ℤ) ≤ k by omega)
      (show (k : ℤ) ≤ (Sql.pageCount rows.length limit : ℕ) by omega) (by omega)
    obtain ⟨acts, s', hrun, hmeets, hacts, hfilters', hshown'⟩ := exists_run_of_clicks hsync hserve htotal
      (le_max_right _ _) hclicks hpage (le_max_left _ _) hfilters (by rw [hview, ← htotal page]; rfl)
    exact ⟨acts, s', hrun, hmeets, by omega, hfilters', hshown' hne _ hshows⟩
  -- one page, which is the one that is shown
  · obtain rfl : k = 1 := by omega
    have hone : page = 1 := by
      refine hlinks.resolve_right fun hlt => hmany ?_
      rw [Sql.lt_pageCount_iff hlimit]
      omega
    subst hone
    refine ⟨[], s, rfl, trivial, by simp, hfilters, ?_⟩
    rw [hview]
    exact showsCard_answered v hshows

end Listing

/-! ## The server -/

section Table

variable {Tsvector Tsquery Vector Rank Distance : Type}
variable (pg : Postgres Tsvector Tsquery Vector Rank Distance) {table : TrendTable}
variable (dataScan countScan : ℕ → Scan table) (render : ListedTrend → Json)

/-- The answer to a list request: the rows of the page, rendered, and how many there are. -/
def servedList (query : ListTrendsQuery) : TrendsBody :=
  let params := query.params
  let result := listPage pg (dataScan params.page) (countScan params.page) params
  { data := some (result.data.map render)
    totalPages := Sql.pageCount result.totalCount params.limit
    totalCount := some result.totalCount }

/-- The server for requests to the list. -/
def serveList (p : TrendsParams) : Option TrendsBody :=
  match p.received with
  | some (Except.ok (Handler.query (Request.listTrends query))) =>
    some (servedList pg dataScan countScan render query)
  | _ => none

/-- The list that a state of the page asks for, page by page. -/
structure ListState (f : Filters) (source : String) (isNew : Bool) (limit : ℕ) (sort : SortOption) : Prop where
  mode : f.isSearching = false
  sourceIs : f.source = source
  newIs : f.isNew = isNew
  limitIs : f.limit = some (limit : ℤ)
  bounds : 1 ≤ limit ∧ limit ≤ 100
  sortIs : sortNames.lookup f.sort = some sort

variable {f : Filters} {source : String} {isNew : Bool} {limit : ℕ} {sort : SortOption}

/-- A state of the list stays synchronised when its page is set. -/
theorem ListState.sync (h : ListState f source isNew limit sort) (k : ℤ) :
    Filters.syncUIWithState { f with page := some k } = { f with page := some k } := by
  have hmode : Filters.isSearching { f with page := some k } = false := h.mode
  have hsort : f.sort ≠ "RELEVANCE" := by
    intro heq
    have hlookup := h.sortIs
    rw [heq] at hlookup
    cases hlookup
  rw [Filters.syncUIWithState, if_neg (by rw [hmode]; exact Bool.false_ne_true), if_neg hsort]

/-- The server lists the page that is asked for, as the number of a page below 2 ^ 53 arrives
as it is. -/
theorem ListState.serve (h : ListState f source isNew limit sort) {k : ℤ} (hlow : 1 ≤ k) (hhigh : k < 2 ^ 53) :
    serveList pg dataScan countScan render (Filters.params { f with page := some k }) =
      some (servedList pg dataScan countScan render
        ⟨some k.toNat, some limit, some source, some isNew, some sort⟩) := by
  have hbase : (Filters.params { f with page := some k }).asksBase = some ⟨k.toNat, limit, source, isNew⟩ :=
    asksBase_eq_some_iff.2 ⟨⟨k, rfl, hlow, QueryDto.arrives_of_lt hhigh⟩, ⟨h.limitIs, h.bounds⟩, h.sourceIs.symm,
      h.newIs.symm⟩
  have hnone : (Filters.params { f with page := some k }).search = none := by
    have hmode : Filters.isSearching { f with page := some k } = false := h.mode
    rw [Filters.params, hmode]
    rfl
  have hsort : sortNames.lookup (Filters.params { f with page := some k }).sort = some sort := h.sortIs
  have hasks : (Filters.params { f with page := some k }).asks = some (Handler.query (Request.listTrends
      ⟨some k.toNat, some limit, some source, some isNew, some sort⟩)) := by
    rw [TrendsParams.asks, hnone, TrendsParams.asksList, hbase, hsort]
    rfl
  rw [serveList, received_ok_iff.2 hasks]

/-- **Every row of the list is a few clicks away**, from any page of it and, if there are
several, from behind its end: its page is reached by the links that are shown, the row is one
of its cards, and no other page has it. From 2 ^ 53 on the numbers of pages are no longer all
doubles, so the page to start from is below. -/
theorem browse_list (h : ListState f source isNew limit sort) {page : ℤ} (hpage : 1 ≤ page) (hsafe : page < 2 ^ 53)
    (hrows : table.rows.length < 2 ^ 53)
    (hlinks : page = 1 ∨ limit < (table.rows.filter (Selected pg source isNew)).length) {s : Page}
    (hfilters : s.filters = { f with page := some page })
    (hshown : ∃ v, s.view = TrendsView.answered v (some page) (TrendsAnswer.ok
      (servedList pg dataScan countScan render ⟨some page.toNat, some limit, some source, some isNew, some sort⟩)))
    {row : TechTrend} (hrow : row ∈ table.rows) (hselected : Selected pg source isNew row) :
    ∃ k : ℕ, (∀ k', row.listed ∈ (listPage pg (dataScan k') (countScan k') ⟨k', limit, source, isNew, sort⟩).data ∧
        1 ≤ k' ↔ k' = k) ∧
      ∃ acts s', machine.run acts s = some s' ∧
        machine.Meets (Browses (serveList pg dataScan countScan render)) acts s ∧
        acts.length ≤ 3 * ((group page - group k).natAbs + 1) ∧ s'.filters = { f with page := some (k : ℤ) } ∧
        s'.view.ShowsCard (render row.listed) := by
  have hlisting := listPage_listing pg source isNew h.bounds.1 sort dataScan countScan
  have hcolumns : ((table.rows.filter (Selected pg source isNew)).map TechTrend.listed).Nodup := by
    refine List.Nodup.of_map ListedTrend.id ?_
    rw [List.map_map]
    exact table.ids_nodup.sublist (List.filter_sublist.map _)
  have hcount := (pageCount_le h.bounds.1 (table.rows.filter (Selected pg source isNew)).length).trans
    (List.length_filter_le _ _)
  refine browse_listing (fun k => servedList pg dataScan countScan render
      ⟨some k.toNat, some limit, some source, some isNew, some sort⟩) h.bounds.1 hlisting hcolumns
    (fun _ => rfl) (fun k => ?_) h.sync hpage (fun k hlow hhigh => ?_) hlinks hfilters hshown
    (List.mem_filter.2 ⟨hrow, decide_eq_true hselected⟩)
  · exact congrArg (fun count : ℕ => ((Sql.pageCount count limit : ℕ) : ℤ)) (hlisting.1 k.toNat)
  · exact h.serve pg dataScan countScan render hlow (by omega)

end Table

/-! ## Behind the end of two pages -/

/-- All posts, one a page. -/
def onePost : Filters where
  source := "ALL"
  query := ""
  searchType := "hybrid"
  isNew := false
  sort := "CREATED_DESC"
  page := some 1
  limit := some 1

def renderId (row : ListedTrend) : Json := Json.num (Binary64.ofInt row.id)

/-- The seventh of two pages, which is empty. -/
def pageBehind : Page :=
  let s : Page := init { onePost with page := some 7 } none
  { s with
    filters := { onePost with page := some 7 }
    calls := []
    view := TrendsView.answered s.view (some 7) (TrendsAnswer.ok (servedList Postgres.small
      (fun _ => Scan.stored twoPosts) (fun _ => Scan.stored twoPosts) renderId
      ⟨some 7, some 1, some "ALL", some false, some SortOption.CREATED_DESC⟩)) }

theorem browse_list_behind : ∃ (k : ℕ) (acts : List Act) (s' : Page), machine.run acts pageBehind = some s' ∧
    acts.length ≤ 3 * ((group 7 - group k).natAbs + 1) ∧
    s'.view.ShowsCard (renderId (samplePost 2 1704157200000).listed) := by
  have hstate : ListState onePost "ALL" false 1 SortOption.CREATED_DESC :=
    ⟨by decide, rfl, rfl, rfl, by decide, rfl⟩
  obtain ⟨k, -, acts, s', hrun, -, hlength, -, hcard⟩ := browse_list Postgres.small (fun _ => Scan.stored twoPosts)
    (fun _ => Scan.stored twoPosts) renderId hstate (by decide : (1 : ℤ) ≤ 7) (by decide) (by decide)
    (Or.inr (by decide)) (s := pageBehind) rfl ⟨(init { onePost with page := some 7 } none).view, rfl⟩
    (show samplePost 2 1704157200000 ∈ twoPosts.rows by decide) (by decide)
  exact ⟨k, acts, s', hrun, hlength, hcard⟩

end Frontend

end TechTrends
