/-
The requests of `index.html` as the server reads them.

`fetchTrends` writes the state of the list into the text of a request, the server parses
that text, transforms and checks it, and hands it to the handler of its path. What arrives
there is what the page's state says, or the request is refused. A page whose address holds
an acceptable state never sends a request that is refused.
-/
import TechTrends.AddressBar
import TechTrends.PageLinks
import TechTrends.QueryDto

set_option autoImplicit false

namespace TechTrends

namespace Frontend

open FormUrlEncoded (Params)
open JsNumber (intText)
open QueryDto (BaseTrendsQuery QueryValue Handler Tells queryValue receive sortNames searchSortNames searchTypeNames
  arrives baseTrendsQueryDto listTrendsQueryDto searchTrendsQueryDto)
open TrendsQuery (ListTrendsQuery SortOption Request)

/-! ## The text of a request -/

/-- `paramObj`. -/
def TrendsParams.object (p : TrendsParams) : Params :=
  [("page", intText p.page), ("limit", intText p.limit), ("source", p.source),
    ("isNew", if p.isNew then "true" else "false"), ("sort", p.sort)] ++
  match p.search with
  | none => []
  | some (search, searchType) => [("search", search), ("searchType", searchType)]

/-- `endpoint`, behind `API_BASE_URL`. -/
def TrendsParams.endpoint (p : TrendsParams) : List String := if p.search.isSome then ["search"] else []

/-- `params.toString()`. -/
def TrendsParams.text (p : TrendsParams) : String := FormUrlEncoded.serialize p.object

/-- The server's reading of a request. -/
def TrendsParams.received (p : TrendsParams) : Option (Except (List String) Handler) := receive p.endpoint p.text

/-! ## What a request asks for -/

/-- The page and its size, where the server takes them. -/
def TrendsParams.asksBase (p : TrendsParams) : Option BaseTrendsQuery := do
  let page ← p.page
  let limit ← p.limit
  if 1 ≤ page ∧ 1 ≤ limit ∧ limit ≤ 100 then
    (arrives page).map fun page => ⟨page, limit.toNat, p.source, p.isNew⟩
  else none

def TrendsParams.asksList (p : TrendsParams) : Option ListTrendsQuery := do
  let base ← p.asksBase
  let sort ← sortNames.lookup p.sort
  some ⟨some base.page, some base.limit, some base.source, some base.isNew, some sort⟩

def TrendsParams.asksSearch (p : TrendsParams) (search searchType : String) : Option SearchTrendsQuery := do
  let base ← p.asksBase
  let sort ← searchSortNames.lookup p.sort
  let type ← searchTypeNames.lookup searchType
  if search = "" then none
  else some ⟨some base.page, some base.limit, search, some base.source, some base.isNew, some type, some sort⟩

/-- What the state of the page asks for, where the server serves it. -/
def TrendsParams.asks (p : TrendsParams) : Option Handler :=
  match p.search with
  | none => p.asksList.map fun query => Handler.query (Request.listTrends query)
  | some (search, searchType) => (p.asksSearch search searchType).map Handler.searchTrends

/-! ## The parameters that arrive -/

section Parameters

variable (p : TrendsParams)

theorem queryValue_page : queryValue p.object "page" = some (QueryValue.text (intText p.page)) := by
  cases hsearch : p.search <;> simp [queryValue, TrendsParams.object, hsearch]

theorem queryValue_limit : queryValue p.object "limit" = some (QueryValue.text (intText p.limit)) := by
  cases hsearch : p.search <;> simp [queryValue, TrendsParams.object, hsearch]

theorem queryValue_source : queryValue p.object "source" = some (QueryValue.text p.source) := by
  cases hsearch : p.search <;> simp [queryValue, TrendsParams.object, hsearch]

theorem queryValue_isNew :
    queryValue p.object "isNew" = some (QueryValue.text (if p.isNew then "true" else "false")) := by
  cases hsearch : p.search <;> simp [queryValue, TrendsParams.object, hsearch]

theorem queryValue_sort : queryValue p.object "sort" = some (QueryValue.text p.sort) := by
  cases hsearch : p.search <;> simp [queryValue, TrendsParams.object, hsearch]

variable {p}

theorem queryValue_search {search searchType : String} (h : p.search = some (search, searchType)) :
    queryValue p.object "search" = some (QueryValue.text search) := by
  simp [queryValue, TrendsParams.object, h]

theorem queryValue_searchType {search searchType : String} (h : p.search = some (search, searchType)) :
    queryValue p.object "searchType" = some (QueryValue.text searchType) := by
  simp [queryValue, TrendsParams.object, h]

end Parameters

/-- What the server parses is the object that the page has written: `URLSearchParams` and the
query parser are inverse on it, whatever the texts of the page are. -/
theorem received_eq (p : TrendsParams) : p.received = QueryDto.route p.endpoint p.object := by
  rw [TrendsParams.received, receive, TrendsParams.text, FormUrlEncoded.parse_serialize, Option.bind_some]

/-! ## What is accepted -/

/-- The page and its size, spelled out. A page arrives as the double next to what was written,
which is the same number below 2 ^ 53. -/
theorem asksBase_eq_some_iff {p : TrendsParams} {base : BaseTrendsQuery} :
    p.asksBase = some base ↔ (∃ n, p.page = some n ∧ 1 ≤ n ∧ arrives n = some base.page) ∧
      (p.limit = some (base.limit : ℤ) ∧ 1 ≤ base.limit ∧ base.limit ≤ 100) ∧ base.source = p.source ∧
      base.isNew = p.isNew := by
  obtain ⟨page, limit, source, isNew⟩ := base
  rw [TrendsParams.asksBase]
  cases hpage : p.page with
  | none => simp
  | some n =>
    cases hlimit : p.limit with
    | none => simp
    | some l =>
      simp only [Option.bind_eq_bind, Option.bind_some]
      split
      · next hbounds =>
        rw [Option.map_eq_some_iff]
        constructor
        · rintro ⟨k, hk, heq⟩
          obtain ⟨rfl, rfl, rfl, rfl⟩ := BaseTrendsQuery.mk.inj heq
          exact ⟨⟨n, rfl, hbounds.1, hk⟩, ⟨by rw [Int.toNat_of_nonneg (by omega)], by omega, by omega⟩, rfl, rfl⟩
        · rintro ⟨⟨n', hn', -, hk⟩, ⟨hl, -⟩, rfl, rfl⟩
          obtain rfl := Option.some.inj hn'
          obtain rfl := Option.some.inj hl
          exact ⟨page, hk, by rw [Int.toNat_natCast]⟩
      · next hbounds =>
        refine iff_of_false (fun h => by cases h) ?_
        rintro ⟨⟨n', hn', hpos, -⟩, ⟨hl, hlow, hhigh⟩, -⟩
        obtain rfl := Option.some.inj hn'
        obtain rfl := Option.some.inj hl
        exact hbounds ⟨hpos, by omega, by omega⟩

/-- The checks of `BaseTrendsQueryDto` pass exactly for a page and a size that the server
takes, and their values are what the page has asked for. -/
theorem base_eq_ok_iff {p : TrendsParams} {base : BaseTrendsQuery} :
    baseTrendsQueryDto p.object = Except.ok base ↔ p.asksBase = some base := by
  rw [baseTrendsQueryDto, queryValue_page, queryValue_limit, queryValue_source, queryValue_isNew,
    QueryDto.map_eq_ok_iff, asksBase_eq_some_iff]
  have hisNew : ((some (QueryValue.text (if p.isNew then "true" else "false"))).map
      QueryDto.transformIsNew).getD false = p.isNew := by
    cases p.isNew <;> decide
  rw [hisNew]
  constructor
  · rintro ⟨⟨page, limit, source⟩, h, rfl⟩
    obtain ⟨hpage, hrest⟩ := QueryDto.both_eq_ok_iff.1 h
    obtain ⟨hlimit, hsource⟩ := QueryDto.both_eq_ok_iff.1 hrest
    rw [QueryDto.source_text] at hsource
    obtain rfl := Except.ok.inj hsource
    exact ⟨QueryDto.unbounded_intText.1 hpage, QueryDto.bounded_intText (by decide) |>.1 hlimit, rfl, rfl⟩
  · rintro ⟨hpage, hlimit, hsource, hnew⟩
    refine ⟨(base.page, base.limit, some p.source), QueryDto.both_eq_ok_iff.2
      ⟨QueryDto.unbounded_intText.2 hpage, QueryDto.both_eq_ok_iff.2
        ⟨QueryDto.bounded_intText (by decide) |>.2 hlimit, QueryDto.source_text _⟩⟩, ?_⟩
    show BaseTrendsQuery.mk base.page base.limit p.source p.isNew = base
    rw [← hsource, ← hnew]

theorem list_eq_ok_iff {p : TrendsParams} {query : ListTrendsQuery} :
    listTrendsQueryDto p.object = Except.ok query ↔ p.asksList = some query := by
  rw [listTrendsQueryDto, QueryDto.map_eq_ok_iff, queryValue_sort, TrendsParams.asksList]
  simp only [Option.bind_eq_bind, Option.bind_eq_some_iff, Option.some.injEq]
  constructor
  · rintro ⟨⟨sort, base⟩, h, rfl⟩
    obtain ⟨hsort, hbase⟩ := QueryDto.both_eq_ok_iff.1 h
    obtain ⟨a, ha, rfl⟩ := QueryDto.namedProperty_eq_ok_iff.1 hsort
    exact ⟨base, base_eq_ok_iff.1 hbase, a, ha, rfl⟩
  · rintro ⟨base, hbase, sort, hsort, rfl⟩
    exact ⟨(some sort, base), QueryDto.both_eq_ok_iff.2
      ⟨QueryDto.namedProperty_eq_ok_iff.2 ⟨sort, hsort, rfl⟩, base_eq_ok_iff.2 hbase⟩, rfl⟩

/-- The checks of `SearchTrendsQueryDto` pass exactly for a search that the server takes, and
their values are the text, the kind of search and the rest of what the page has asked for. -/
theorem search_eq_ok_iff {p : TrendsParams} {search searchType : String} (hsearch : p.search = some (search, searchType))
    {query : SearchTrendsQuery} :
    searchTrendsQueryDto p.object = Except.ok query ↔ p.asksSearch search searchType = some query := by
  rw [searchTrendsQueryDto, QueryDto.map_eq_ok_iff, queryValue_sort, queryValue_search hsearch,
    queryValue_searchType hsearch, TrendsParams.asksSearch]
  simp only [Option.bind_eq_bind, Option.bind_eq_some_iff]
  constructor
  · rintro ⟨⟨⟨text, type, sort⟩, base⟩, h, rfl⟩
    obtain ⟨hown, hbase⟩ := QueryDto.both_eq_ok_iff.1 h
    obtain ⟨htext, hrest⟩ := QueryDto.both_eq_ok_iff.1 hown
    obtain ⟨htype, hsort⟩ := QueryDto.both_eq_ok_iff.1 hrest
    obtain ⟨hne, rfl⟩ := QueryDto.searchProperty_eq_ok_iff.1 htext
    obtain ⟨type, ht, rfl⟩ := QueryDto.namedProperty_eq_ok_iff.1 htype
    obtain ⟨sort, hs, rfl⟩ := QueryDto.namedProperty_eq_ok_iff.1 hsort
    exact ⟨base, base_eq_ok_iff.1 hbase, sort, hs, type, ht, by rw [if_neg hne]; rfl⟩
  · rintro ⟨base, hbase, sort, hsort, type, htype, hquery⟩
    split at hquery
    · cases hquery
    · next hne =>
      obtain rfl := Option.some.inj hquery
      exact ⟨((search, some type, some sort), base), QueryDto.both_eq_ok_iff.2 ⟨QueryDto.both_eq_ok_iff.2
        ⟨QueryDto.searchProperty_eq_ok_iff.2 ⟨hne, rfl⟩, QueryDto.both_eq_ok_iff.2
          ⟨QueryDto.namedProperty_eq_ok_iff.2 ⟨type, htype, rfl⟩,
            QueryDto.namedProperty_eq_ok_iff.2 ⟨sort, hsort, rfl⟩⟩⟩, base_eq_ok_iff.2 hbase⟩, rfl⟩

/-- The handler that a request arrives at is the one that the page's state asks for. -/
theorem received_ok_iff {p : TrendsParams} {handler : Handler} :
    p.received = some (Except.ok handler) ↔ p.asks = some handler := by
  rw [received_eq, TrendsParams.endpoint, TrendsParams.asks]
  cases hsearch : p.search with
  | none =>
    show some ((listTrendsQueryDto p.object).map _) = _ ↔ _
    rw [Option.some.injEq, QueryDto.map_eq_ok_iff, Option.map_eq_some_iff]
    simp only [list_eq_ok_iff]
  | some pair =>
    obtain ⟨search, searchType⟩ := pair
    show some ((searchTrendsQueryDto p.object).map _) = _ ↔ _
    rw [Option.some.injEq, QueryDto.map_eq_ok_iff, Option.map_eq_some_iff]
    simp only [search_eq_ok_iff hsearch]

/-- A refusal has its messages: `ValidationPipe` names at least one property that does not
hold. -/
theorem received_tells (p : TrendsParams) : ∃ answer, p.received = some answer ∧ Tells answer := by
  rw [received_eq, TrendsParams.endpoint]
  cases p.search with
  | none => exact ⟨_, rfl, QueryDto.tells_map (QueryDto.tells_list _)⟩
  | some pair => exact ⟨_, rfl, QueryDto.tells_map (QueryDto.tells_search _)⟩

/-- **A request arrives as what the page asks for, or is refused with a reason.** -/
theorem request_arrives (p : TrendsParams) : ∃ answer, p.received = some answer ∧ Tells answer ∧
    ∀ handler, answer = Except.ok handler ↔ p.asks = some handler := by
  obtain ⟨answer, hreceived, htells⟩ := received_tells p
  refine ⟨answer, hreceived, htells, fun handler => ?_⟩
  rw [← received_ok_iff, hreceived, Option.some.injEq]

/-! ## The requests of a run -/

/-- The list requests that were sent: those in flight, and those that were answered. -/
def Page.sent (s : Page) : List TrendsParams :=
  s.calls.filterMap Call.trendsKey ++ s.log.filterMap fun
    | Answered.trends params _ => some params
    | _ => none

def TrendsParams.Accepted (p : TrendsParams) : Prop := ∃ handler, p.received = some (Except.ok handler)

theorem accepted_iff {p : TrendsParams} : p.Accepted ↔ p.asks.isSome = true := by
  rw [TrendsParams.Accepted, Option.isSome_iff_exists]
  simp only [received_ok_iff]

/-- A state of the list that the server serves in either mode. -/
structure Acceptable (f : Filters) : Prop where
  page : ∃ n, f.page = some n ∧ 1 ≤ n
  limit : ∃ n, f.limit = some n ∧ 1 ≤ n ∧ n ≤ 100
  sort : f.sort ∈ sortOptions
  searchType : f.searchType ∈ ["hybrid", "keyword"]

/-- The page is a number that binary64 holds. -/
def SafePage (f : Filters) : Prop := ∀ n, f.page = some n → n < 2 ^ 53

theorem lookup_isSome_iff {α : Type} {names : List (String × α)} {value : String} :
    (names.lookup value).isSome = true ↔ value ∈ names.map Prod.fst := by
  rw [List.lookup_isSome_iff, List.mem_map]
  constructor
  · rintro ⟨pair, hpair, heq⟩
    exact ⟨pair, hpair, (eq_of_beq heq).symm⟩
  · rintro ⟨pair, hpair, rfl⟩
    exact ⟨pair, hpair, beq_self_eq_true _⟩

/-- The page and its size are taken when they are numbers from 1 on, and the size is at most
100. -/
theorem asksBase_isSome_iff {f : Filters} (hsafe : SafePage f) :
    f.params.asksBase.isSome = true ↔
      (∃ n, f.page = some n ∧ 1 ≤ n) ∧ ∃ n, f.limit = some n ∧ 1 ≤ n ∧ n ≤ 100 := by
  rw [Option.isSome_iff_exists]
  simp only [asksBase_eq_some_iff]
  constructor
  · rintro ⟨base, ⟨n, hn, hpos, -⟩, ⟨hlimit, hlow, hhigh⟩, -⟩
    exact ⟨⟨n, hn, hpos⟩, base.limit, hlimit, by omega, by omega⟩
  · rintro ⟨⟨n, hn, hpos⟩, l, hl, hlow, hhigh⟩
    refine ⟨⟨n.toNat, l.toNat, f.source, f.isNew⟩, ⟨n, hn, hpos, QueryDto.arrives_of_lt (hsafe n hn)⟩,
      ⟨?_, by show 1 ≤ l.toNat; omega, by show l.toNat ≤ 100; omega⟩, rfl, rfl⟩
    show f.limit = _
    rw [hl, Int.toNat_of_nonneg (by omega)]

/-- When the server takes the request for a state of the list. -/
theorem accepted_params_iff {f : Filters} (hsafe : SafePage f) : f.params.Accepted ↔
    ((∃ n, f.page = some n ∧ 1 ≤ n) ∧ ∃ n, f.limit = some n ∧ 1 ≤ n ∧ n ≤ 100) ∧
      if f.isSearching then f.sort ∈ sortOptions ∧ f.searchType ∈ ["hybrid", "keyword"]
      else f.sort ∈ sortOptions ∧ f.sort ≠ "RELEVANCE" := by
  have hlist : f.sort ∈ sortNames.map Prod.fst ↔ f.sort ∈ sortOptions ∧ f.sort ≠ "RELEVANCE" := by
    simp only [sortNames, sortOptions, List.map_cons, List.map_nil, List.mem_cons, List.not_mem_nil, or_false]
    constructor
    · rintro (h | h | h | h | h | h | h) <;> simp [h]
    · rintro ⟨h | h | h | h | h | h | h | h, hne⟩ <;> simp_all
  have hsearch : f.sort ∈ searchSortNames.map Prod.fst ↔ f.sort ∈ sortOptions := by
    simp only [searchSortNames, sortNames, sortOptions, List.map_cons, List.map_nil, List.mem_cons, List.not_mem_nil,
      or_false]
    tauto
  rw [accepted_iff, ← asksBase_isSome_iff hsafe, TrendsParams.asks]
  cases hmode : f.isSearching with
  -- the list takes every order but `RELEVANCE`
  | false =>
    have hnone : f.params.search = none := by rw [Filters.params, hmode]; rfl
    rw [hnone, if_neg Bool.false_ne_true, ← hlist, ← lookup_isSome_iff, Option.isSome_map, TrendsParams.asksList]
    have hsort : f.params.sort = f.sort := rfl
    rw [hsort]
    cases f.params.asksBase <;> cases sortNames.lookup f.sort <;> simp
  -- the search takes every order of the select, and a query that is not empty after `trim`
  | true =>
    have hsome : f.params.search = some (String.ofList (JsString.trim f.query.toList), f.searchType) := by
      rw [Filters.params, hmode]
      rfl
    have htext : String.ofList (JsString.trim f.query.toList) ≠ "" := by
      rw [Filters.isSearching] at hmode
      intro hempty
      have hnil := congrArg String.toList hempty
      rw [String.toList_ofList] at hnil
      rw [hnil] at hmode
      cases hmode
    have htypes : f.searchType ∈ searchTypeNames.map Prod.fst ↔ f.searchType ∈ ["hybrid", "keyword"] := Iff.rfl
    rw [hsome, if_pos rfl, ← hsearch, ← htypes, ← lookup_isSome_iff, ← lookup_isSome_iff]
    simp only [Option.isSome_map, TrendsParams.asksSearch, if_neg htext]
    have hsort : f.params.sort = f.sort := rfl
    rw [hsort]
    cases f.params.asksBase <;> cases searchSortNames.lookup f.sort <;>
      cases searchTypeNames.lookup f.searchType <;> simp

/-! ## Steps -/

/-- What an action sets in the state of the list. -/
def Act.set (f : Filters) : Act → Option Filters
  | Act.search value => some { f with query := String.ofList (JsString.trim value.toList), page := some 1 }
  | Act.goToPage p => some { f with page := some p }
  | Act.clear => some { f with query := "", sort := "CREATED_DESC", page := some 1 }
  | Act.toggleSearchType checked =>
    some { f with searchType := if checked then "hybrid" else "keyword", page := some 1 }
  | Act.selectSource value => some { f with source := value, page := some 1 }
  | Act.selectSort value => some { f with sort := value, page := some 1 }
  | Act.selectLimit value => some { f with limit := value, page := some 1 }
  | Act.toggleNew => some { f with isNew := !f.isNew, page := some 1 }
  | _ => none

/-- A request that was sent is in flight or has been answered. None is lost, since the log
keeps what leaves the list of calls. -/
theorem mem_sent_iff {s : Page} {p : TrendsParams} : p ∈ s.sent ↔
    (∃ c ∈ s.calls, c.trendsKey = some p) ∨ ∃ answer, Answered.trends p answer ∈ s.log := by
  rw [Page.sent, List.mem_append, List.mem_filterMap, List.mem_filterMap]
  refine or_congr Iff.rfl ⟨?_, ?_⟩
  · rintro ⟨entry, hentry, heq⟩
    split at heq
    · next answer =>
      obtain rfl := Option.some.inj heq
      exact ⟨answer, hentry⟩
    · cases heq
  · rintro ⟨answer, hanswer⟩
    exact ⟨_, hanswer, rfl⟩

/-- Nothing new is sent, and the state of the list stays. -/
def Quiet (s s' : Page) : Prop := s'.filters = s.filters ∧ ∀ p ∈ s'.sent, p ∈ s.sent

/-- The list is set, and nothing but a request for it is sent. -/
def Asks (s : Page) (a : Act) (s' : Page) : Prop := ∃ g, Act.set s.filters a = some g ∧
  s'.filters = g.syncUIWithState ∧ ∀ p ∈ s'.sent, p ∈ s.sent ∨ p = s'.filters.params

/-- The links stay, or an answer puts new ones. -/
def Links (s : Page) (a : Act) (s' : Page) : Prop := s'.view.pagination = s.view.pagination ∨
  ∃ i body, a = Act.trendsBody i (some body) ∧
    s'.view.pagination = renderPagination s.filters.page body.totalPages

theorem Quiet.refl (s : Page) : Quiet s s := ⟨rfl, fun _ h => h⟩

/-- A call for something else than the list, for an article or its related ones. -/
theorem quiet_call {s s' : Page} {c : Call} (hkey : c.trendsKey = none) (hfilters : s'.filters = s.filters)
    (hcalls : s'.calls = s.calls ++ [c]) (hlog : s'.log = s.log) : Quiet s s' := by
  refine ⟨hfilters, fun p hp => ?_⟩
  rw [mem_sent_iff, hcalls, hlog] at hp
  rw [mem_sent_iff]
  rcases hp with ⟨c', hc', hp⟩ | hp
  · rcases List.mem_append.1 hc' with hc' | hc'
    · exact Or.inl ⟨c', hc', hp⟩
    · rw [List.mem_singleton.1 hc', hkey] at hp
      cases hp
  · exact Or.inr hp

/-- A call that goes on, or ends, with what it was for. -/
theorem quiet_end {s s' : Page} {i : ℕ} (hfilters : s'.filters = s.filters)
    (hcalls : ∀ c ∈ s'.calls, c ∈ s.calls ∨ ∃ c₀, s.calls[i]? = some c₀ ∧ c.trendsKey = c₀.trendsKey)
    (hlog : ∀ p answer, Answered.trends p answer ∈ s'.log → Answered.trends p answer ∈ s.log ∨
      ∃ c₀, s.calls[i]? = some c₀ ∧ c₀.trendsKey = some p) : Quiet s s' := by
  refine ⟨hfilters, fun p hp => ?_⟩
  rw [mem_sent_iff] at hp ⊢
  rcases hp with ⟨c, hc, hp⟩ | ⟨answer, hanswer⟩
  · rcases hcalls c hc with hold | ⟨c₀, hc₀, hkey⟩
    · exact Or.inl ⟨c, hold, hp⟩
    · exact Or.inl ⟨c₀, List.mem_of_getElem? hc₀, by rw [← hkey, hp]⟩
  · rcases hlog p answer hanswer with hold | ⟨c₀, hc₀, hkey⟩
    · exact Or.inr ⟨answer, hold⟩
    · exact Or.inl ⟨c₀, List.mem_of_getElem? hc₀, hkey⟩

/-- `fetchTrends` sends one request, for the state that the page has. -/
theorem sent_fetchTrends {s : Page} {submitted : Bool} {p : TrendsParams} (hp : p ∈ (s.fetchTrends submitted).sent) :
    p ∈ s.sent ∨ p = s.filters.params := by
  rw [mem_sent_iff] at hp
  rcases hp with ⟨c, hc, hp⟩ | hp
  · rcases List.mem_append.1 hc with hc | hc
    · exact Or.inl (mem_sent_iff.2 (Or.inl ⟨c, hc, hp⟩))
    · rw [List.mem_singleton.1 hc] at hp
      exact Or.inr (Option.some.inj hp).symm
  · exact Or.inl (mem_sent_iff.2 (Or.inr hp))

/-- The controls are synchronised and the list is asked for, so that the request is for the
state after `syncUIWithState`, and so is the address. -/
theorem asks_fetch {s : Page} {a : Act} {g : Filters} {isSubmitting : Bool} (h : Act.set s.filters a = some g)
    (submitted : Bool) : Asks s a
      (Page.fetchTrends { s with isSubmitting := isSubmitting, filters := g.syncUIWithState } submitted) :=
  ⟨g, h, rfl, fun _ hp => sent_fetchTrends hp⟩

theorem asks_refetch {s : Page} {a : Act} {g : Filters} (h : Act.set s.filters a = some g) :
    Asks s a (s.refetch g) := ⟨g, h, filters_refetch s g, fun _ hp => sent_fetchTrends hp⟩

/-- A search sends nothing while one is running, and otherwise its request. -/
theorem step_handleSearch (s : Page) (value : String) :
    (Quiet s (s.handleSearch value) ∨ Asks s (Act.search value) (s.handleSearch value)) ∧
      (s.handleSearch value).view.pagination = s.view.pagination := by
  cases hsubmitting : s.isSubmitting with
  | true =>
    rw [Page.handleSearch, if_pos hsubmitting]
    exact ⟨Or.inl (Quiet.refl s), rfl⟩
  | false =>
    rw [Page.handleSearch, if_neg (by rw [hsubmitting]; exact Bool.false_ne_true)]
    exact ⟨Or.inr (asks_fetch rfl true), rfl⟩

/-- The switch of the kind of search synchronises, and asks for the list when there is a
keyword. -/
theorem step_toggleSearchType (s : Page) (checked : Bool) :
    Asks s (Act.toggleSearchType checked) (s.toggleSearchType checked) ∧
      (s.toggleSearchType checked).view.pagination = s.view.pagination := by
  rw [Page.toggleSearchType]
  split
  · exact ⟨asks_refetch rfl, rfl⟩
  · exact ⟨⟨_, rfl, rfl, fun p hp => Or.inl hp⟩, rfl⟩

theorem trendsKey_readBody {s : Page} {i : ℕ} {c₀ c : Call} (hcall : s.calls[i]? = some c₀)
    (hkey : c.trendsKey = c₀.trendsKey) : Quiet s (s.readBody i c) := by
  refine quiet_end (i := i) rfl (fun d hd => ?_) fun p answer h => Or.inl h
  rcases List.mem_or_eq_of_mem_set hd with hd | rfl
  · exact Or.inl hd
  · exact Or.inr ⟨c₀, hcall, hkey⟩

/-- The end of a call, which is taken out and perhaps noted. -/
theorem quiet_erase {s s' : Page} {i : ℕ} {c₀ : Call} {e : List Answered} (hcall : s.calls[i]? = some c₀)
    (hfilters : s'.filters = s.filters) (hcalls : s'.calls = s.calls.eraseIdx i) (hlog : s'.log = s.log ++ e)
    (hentry : ∀ p answer, Answered.trends p answer ∈ e → c₀.trendsKey = some p) : Quiet s s' := by
  refine quiet_end (i := i) hfilters (fun c hc => ?_) fun p answer h => ?_
  · rw [hcalls] at hc
    exact Or.inl (List.mem_of_mem_eraseIdx hc)
  · rw [hlog] at h
    rcases List.mem_append.1 h with h | h
    · exact Or.inl h
    · exact Or.inr ⟨c₀, hcall, hentry p answer h⟩

/-- A response sends nothing, and it leaves the links: an error keeps those of the list
before. -/
theorem step_respond {s s' : Page} {i : ℕ} {status : Option ℕ} (h : respond s i status = some s') :
    Quiet s s' ∧ s'.view.pagination = s.view.pagination := by
  rw [respond] at h
  split at h
  · next params submitted hcall =>
    obtain rfl := Option.some.inj h
    split
    · exact ⟨trendsKey_readBody hcall rfl, rfl⟩
    · refine ⟨quiet_erase hcall rfl rfl rfl fun p answer hp => ?_, ?_⟩
      · cases List.mem_singleton.1 hp
        rfl
      -- an error puts no links
      · show (TrendsView.answered _ _ (trendsError status)).pagination = _
        rw [trendsError]
        split <;> rfl
  · next id hcall =>
    obtain rfl := Option.some.inj h
    split
    · exact ⟨trendsKey_readBody hcall rfl, rfl⟩
    · exact ⟨quiet_erase hcall rfl rfl rfl fun p answer hp => (by cases List.mem_singleton.1 hp), rfl⟩
  · next id token hcall =>
    obtain rfl := Option.some.inj h
    split
    · split
      · exact ⟨quiet_erase (e := []) hcall rfl rfl (List.append_nil _).symm fun p answer hp => (by cases hp), rfl⟩
      · exact ⟨trendsKey_readBody hcall rfl, rfl⟩
    · exact ⟨quiet_erase hcall rfl rfl rfl fun p answer hp => (by cases List.mem_singleton.1 hp), rfl⟩
  · cases h

/-- An article that is shown asks for its related ones, and not for the list. -/
theorem step_detailBody {s s' : Page} {i : ℕ} {item : Option Json} (h : step s (Act.detailBody i item) = some s') :
    Quiet s s' ∧ s'.view.pagination = s.view.pagination := by
  rw [step] at h
  split at h
  · next id hcall =>
    obtain rfl := Option.some.inj h
    cases detailItem item with
    | none => exact ⟨quiet_erase hcall rfl rfl rfl fun p answer hp => (by cases List.mem_singleton.1 hp), rfl⟩
    | some item =>
      -- the article is shown, and what is related to it is asked for
      have hended : Quiet s { s with calls := s.calls.eraseIdx i, log := s.log ++ [Answered.detail id (some item)] } :=
        quiet_erase hcall rfl rfl rfl fun p answer hp => by cases List.mem_singleton.1 hp
      have hcalled : Quiet _ (Page.renderModalContent
          { s with calls := s.calls.eraseIdx i, log := s.log ++ [Answered.detail id (some item)] } item) :=
        quiet_call (s := { s with calls := s.calls.eraseIdx i, log := s.log ++ [Answered.detail id (some item)] })
          (c := Call.related (idText item) (s.modal.relatedRequestToken + 1) Stage.response) rfl rfl rfl rfl
      exact ⟨⟨rfl, fun p hp => hended.2 p (hcalled.2 p hp)⟩, rfl⟩
  · cases h

theorem step_relatedBody {s s' : Page} {i : ℕ} {data : Option (Option (List Json))}
    (h : step s (Act.relatedBody i data) = some s') : Quiet s s' ∧ s'.view.pagination = s.view.pagination := by
  rw [step] at h
  split at h
  · next id token hcall =>
    obtain rfl := Option.some.inj h
    exact ⟨quiet_erase hcall rfl rfl rfl fun p answer hp => (by cases List.mem_singleton.1 hp), rfl⟩
  · cases h

/-- The body of a list sends nothing. Its links are those around the page that the state has
when the body comes, for the number of pages that the answer tells. -/
theorem step_trendsBody {s s' : Page} {i : ℕ} {body : Option TrendsBody}
    (h : step s (Act.trendsBody i body) = some s') : Quiet s s' ∧ Links s (Act.trendsBody i body) s' := by
  rw [step] at h
  split at h
  · next params submitted hcall =>
    obtain rfl := Option.some.inj h
    refine ⟨quiet_erase hcall rfl rfl rfl fun p answer hp => ?_, ?_⟩
    · cases List.mem_singleton.1 hp
      rfl
    · cases body with
      | none => exact Or.inl rfl
      | some body => exact Or.inr ⟨i, body, rfl, rfl⟩
  · cases h

theorem quiet_openDetail (s : Page) (id : ArticleId) (isRelatedClick : Bool) :
    Quiet s (s.openDetail id isRelatedClick) := quiet_call (c := Call.detail id Stage.response) rfl rfl rfl rfl

theorem step_goBackModal (s : Page) :
    Quiet s s.goBackModal ∧ s.goBackModal.view.pagination = s.view.pagination := by
  rw [Page.goBackModal]
  split
  · exact ⟨Quiet.refl s, rfl⟩
  · next prevId _ => exact ⟨quiet_call (c := Call.detail prevId Stage.response) rfl rfl rfl rfl, rfl⟩

theorem step_popstate (s : Page) (currentUrlId : Option ArticleId) :
    Quiet s (s.popstate currentUrlId) ∧ (s.popstate currentUrlId).view.pagination = s.view.pagination := by
  cases currentUrlId with
  | none => exact ⟨⟨rfl, fun _ h => h⟩, rfl⟩
  | some id => exact ⟨quiet_call (c := Call.detail id Stage.response) rfl rfl rfl rfl, rfl⟩

/-- **What a step does to the list.** -/
theorem step_requests {s s' : Page} {a : Act} (h : step s a = some s') :
    (Quiet s s' ∨ Asks s a s') ∧ Links s a s' := by
  cases a with
  | search value =>
    obtain rfl := Option.some.inj h
    exact ⟨(step_handleSearch s value).1, Or.inl (step_handleSearch s value).2⟩
  -- the handlers that refetch ask once, with the filters they have just set
  | goToPage p =>
    obtain rfl := Option.some.inj h
    exact ⟨Or.inr (asks_refetch rfl), Or.inl rfl⟩
  | clear =>
    obtain rfl := Option.some.inj h
    exact ⟨Or.inr (asks_refetch rfl), Or.inl rfl⟩
  | toggleSearchType checked =>
    obtain rfl := Option.some.inj h
    exact ⟨Or.inr (step_toggleSearchType s checked).1, Or.inl (step_toggleSearchType s checked).2⟩
  | selectSource value =>
    obtain rfl := Option.some.inj h
    exact ⟨Or.inr (asks_refetch rfl), Or.inl rfl⟩
  | selectSort value =>
    obtain rfl := Option.some.inj h
    exact ⟨Or.inr (asks_refetch rfl), Or.inl rfl⟩
  | selectLimit value =>
    obtain rfl := Option.some.inj h
    exact ⟨Or.inr (asks_refetch rfl), Or.inl rfl⟩
  | toggleNew =>
    obtain rfl := Option.some.inj h
    exact ⟨Or.inr (asks_refetch rfl), Or.inl rfl⟩
  -- the modal and the answers send no request for the list
  | openDetail id isRelatedClick =>
    obtain rfl := Option.some.inj h
    exact ⟨Or.inl (quiet_openDetail s id isRelatedClick), Or.inl rfl⟩
  | goBackModal =>
    obtain rfl := Option.some.inj h
    exact ⟨Or.inl (step_goBackModal s).1, Or.inl (step_goBackModal s).2⟩
  | closeModal =>
    obtain rfl := Option.some.inj h
    exact ⟨Or.inl ⟨rfl, fun _ hp => hp⟩, Or.inl rfl⟩
  | popstate currentUrlId =>
    obtain rfl := Option.some.inj h
    exact ⟨Or.inl (step_popstate s currentUrlId).1, Or.inl (step_popstate s currentUrlId).2⟩
  | response i status => exact ⟨Or.inl (step_respond h).1, Or.inl (step_respond h).2⟩
  | trendsBody i body => exact ⟨Or.inl (step_trendsBody h).1, (step_trendsBody h).2⟩
  | detailBody i item => exact ⟨Or.inl (step_detailBody h).1, Or.inl (step_detailBody h).2⟩
  | relatedBody i data => exact ⟨Or.inl (step_relatedBody h).1, Or.inl (step_relatedBody h).2⟩

/-! ## Runs -/

/-- A step as the page and the server make it: a page is gone to by a link that is shown, and
a total is a number that binary64 holds. -/
def Follows (t : Tab) : TabStep → Prop
  | TabStep.act (Act.goToPage p) => ∃ link ∈ t.page.view.pagination, link.target = p
  | TabStep.act (Act.trendsBody _ (some body)) => body.totalPages < 2 ^ 53
  | _ => True

/-- What is so of a page that never sends a request in vain. -/
structure Serves (s : Page) : Prop where
  acceptable : Acceptable s.filters
  safe : SafePage s.filters
  synced : s.filters.syncUIWithState = s.filters
  links : ∀ link ∈ s.view.pagination, 1 ≤ link.target ∧ link.target < 2 ^ 53
  sent : ∀ p ∈ s.sent, p.Accepted

/-- `syncUIWithState` sets sort orders that `sortSelect` has. -/
theorem sort_sync {f : Filters} (h : f.sort ∈ sortOptions) : f.syncUIWithState.sort ∈ sortOptions := by
  have hrelevance : "RELEVANCE" ∈ sortOptions := by decide
  have hnewest : "CREATED_DESC" ∈ sortOptions := by decide
  rw [Filters.syncUIWithState]
  split
  · split
    · exact hrelevance
    · split
      · exact hrelevance
      · exact h
  · split
    · exact hnewest
    · exact h

/-- A state that the server serves stays one when the controls are synchronised. -/
theorem Acceptable.sync {f : Filters} (h : Acceptable f) : Acceptable f.syncUIWithState where
  page := by
    rw [page_sync]
    exact h.page
  limit := by
    rw [sync_eq]
    exact h.limit
  sort := sort_sync h.sort
  searchType := by
    rw [sync_eq]
    exact h.searchType

theorem SafePage.sync {f : Filters} (h : SafePage f) : SafePage f.syncUIWithState := by
  rw [SafePage, page_sync]
  exact h

/-- A list without a search is not sorted by relevance, which the class of the list would
refuse. -/
theorem sort_of_synced {f : Filters} (hsynced : f.syncUIWithState = f) (hmode : f.isSearching = false) :
    f.sort ≠ "RELEVANCE" := by
  intro hsort
  have hnew : f.syncUIWithState.sort = "CREATED_DESC" := by
    rw [Filters.syncUIWithState, if_neg (by rw [hmode]; exact Bool.false_ne_true), if_pos hsort]
  rw [hsynced, hsort] at hnew
  exact absurd hnew (by decide)

theorem Acceptable.accepted {f : Filters} (h : Acceptable f) (hsafe : SafePage f)
    (hsynced : f.syncUIWithState = f) : f.params.Accepted := by
  rw [accepted_params_iff hsafe]
  refine ⟨⟨h.page, h.limit⟩, ?_⟩
  split
  · exact ⟨h.sort, h.searchType⟩
  · next hmode => exact ⟨h.sort, sort_of_synced hsynced (Bool.eq_false_of_not_eq_true hmode)⟩

/-- What the controls set is acceptable: the values that they offer are among those that the
server takes, and a link leads to a page from 1 on. -/
theorem Serves.set {t : Tab} (h : Serves t.page) {a : Act} (hoffered : offered a = true)
    (hfollows : Follows t (TabStep.act a)) {g : Filters} (hset : Act.set t.page.filters a = some g) :
    Acceptable g ∧ SafePage g := by
  obtain ⟨hpage, hlimit, hsort, htype⟩ := h.acceptable
  have hone : ∃ n, some (1 : ℤ) = some n ∧ 1 ≤ n := ⟨1, rfl, Int.le_refl 1⟩
  have hsafeOne : ∀ n, some (1 : ℤ) = some n → n < 2 ^ 53 := by
    rintro n ⟨⟩
    decide
  cases a with
  | search value =>
    obtain rfl := Option.some.inj hset
    exact ⟨⟨hone, hlimit, hsort, htype⟩, hsafeOne⟩
  | goToPage p =>
    obtain rfl := Option.some.inj hset
    obtain ⟨link, hlink, rfl⟩ := hfollows
    obtain ⟨hlow, hhigh⟩ := h.links link hlink
    refine ⟨⟨⟨_, rfl, hlow⟩, hlimit, hsort, htype⟩, ?_⟩
    rintro n ⟨⟩
    exact hhigh
  | clear =>
    obtain rfl := Option.some.inj hset
    have hnewest : "CREATED_DESC" ∈ sortOptions := by decide
    exact ⟨⟨hone, hlimit, hnewest, htype⟩, hsafeOne⟩
  | toggleSearchType checked =>
    obtain rfl := Option.some.inj hset
    have hnew : (if checked then "hybrid" else "keyword") ∈ ["hybrid", "keyword"] := by cases checked <;> decide
    exact ⟨⟨hone, hlimit, hsort, hnew⟩, hsafeOne⟩
  | selectSource value =>
    obtain rfl := Option.some.inj hset
    exact ⟨⟨hone, hlimit, hsort, htype⟩, hsafeOne⟩
  | selectSort value =>
    obtain rfl := Option.some.inj hset
    rw [offered, decide_eq_true_eq] at hoffered
    exact ⟨⟨hone, hlimit, hoffered, htype⟩, hsafeOne⟩
  | selectLimit value =>
    obtain rfl := Option.some.inj hset
    rw [offered, decide_eq_true_eq] at hoffered
    have hnew : ∃ n, value = some n ∧ 1 ≤ n ∧ n ≤ 100 := by
      simp only [limitOptions, List.mem_cons, List.not_mem_nil, or_false] at hoffered
      rcases hoffered with rfl | rfl | rfl | rfl <;> exact ⟨_, rfl, by decide, by decide⟩
    exact ⟨⟨hone, hnew, hsort, htype⟩, hsafeOne⟩
  | toggleNew =>
    obtain rfl := Option.some.inj hset
    exact ⟨⟨hone, hlimit, hsort, htype⟩, hsafeOne⟩
  | openDetail | goBackModal | closeModal | popstate | response | trendsBody | detailBody | relatedBody => cases hset

/-- A handler keeps it that nothing is sent in vain. What is sent is for the state after it,
and new links are around an acceptable page. -/
theorem Serves.step {t : Tab} (h : Serves t.page) {a : Act} (hoffered : offered a = true)
    (hfollows : Follows t (TabStep.act a)) {s' : Page} (hstep : Frontend.step t.page a = some s') : Serves s' := by
  obtain ⟨hlist, hlinks⟩ := step_requests hstep
  have hnewLinks : ∀ link ∈ s'.view.pagination, 1 ≤ link.target ∧ link.target < 2 ^ 53 := by
    rcases hlinks with hsame | ⟨i, body, rfl, hnew⟩
    · rw [hsame]
      exact h.links
    · rw [hnew]
      obtain ⟨n, hn, hpos⟩ := h.acceptable.page
      have hsafe := h.safe n hn
      have htotal : body.totalPages < 2 ^ 53 := hfollows
      intro link hlink
      have hrange := target_range hpos (hn ▸ List.mem_map_of_mem hlink)
      omega
  rcases hlist with ⟨hfilters, hsent⟩ | ⟨g, hset, hfilters, hsent⟩
  · exact ⟨hfilters ▸ h.acceptable, hfilters ▸ h.safe, by rw [hfilters]; exact h.synced, hnewLinks,
      fun p hp => h.sent p (hsent p hp)⟩
  · obtain ⟨hacceptable, hsafe⟩ := h.set hoffered hfollows hset
    have hsynced : s'.filters.syncUIWithState = s'.filters := by rw [hfilters, syncUIWithState_idem]
    refine ⟨hfilters ▸ hacceptable.sync, hfilters ▸ hsafe.sync, hsynced, hnewLinks, fun p hp => ?_⟩
    rcases hsent p hp with hp | rfl
    · exact h.sent p hp
    · exact Acceptable.accepted (hfilters ▸ hacceptable.sync) (hfilters ▸ hsafe.sync) hsynced

theorem page_write (t : Tab) (page : Page) (w : UrlWrite) : (t.write page w).page = page := by cases w <;> rfl

/-- Back and Forward ask for an article, never for the list. -/
theorem Serves.popstate {s : Page} (h : Serves s) (currentUrlId : Option ArticleId) :
    Serves (s.popstate currentUrlId) := by
  obtain ⟨⟨hfilters, hsent⟩, hlinks⟩ := step_popstate s currentUrlId
  exact ⟨hfilters ▸ h.acceptable, hfilters ▸ h.safe, by rw [hfilters]; exact h.synced, hlinks ▸ h.links,
    fun p hp => h.sent p (hsent p hp)⟩

/-- **Step.** No step of the tab sends anything that the server refuses, when pages are gone
to by links. -/
theorem keepsIf_serves : tabMachine.KeepsIf Follows fun t => Serves t.page := by
  intro t e t' h hfollows hstep
  cases e with
  | act a =>
    replace hstep : t.step (TabStep.act a) = some t' := hstep
    rw [Tab.step] at hstep
    split at hstep
    · next hoffered =>
      obtain ⟨s', hs', rfl⟩ := Option.map_eq_some_iff.1 hstep
      rw [page_write]
      exact h.step hoffered hfollows hs'
    · cases hstep
  | back =>
    replace hstep : t.step TabStep.back = some t' := hstep
    rw [Tab.step] at hstep
    split at hstep
    · cases hstep
    · obtain rfl := Option.some.inj hstep
      exact h.popstate _
  | forward =>
    replace hstep : t.step TabStep.forward = some t' := hstep
    rw [Tab.step] at hstep
    split at hstep
    · cases hstep
    · obtain rfl := Option.some.inj hstep
      exact h.popstate _

/-- A fresh page has asked for its list, and for nothing else of a list. -/
theorem sent_init (f : Filters) (articleId : Option ArticleId) :
    (init f articleId).sent = [f.syncUIWithState.params] := by
  cases articleId <;> rfl

theorem filters_init (f : Filters) (articleId : Option ArticleId) :
    (init f articleId).filters = f.syncUIWithState := by
  cases articleId <;> rfl

/-- A fresh page sends nothing in vain when its address holds an acceptable state. -/
theorem serves_init {f : Filters} (h : Acceptable f.syncUIWithState) (hsafe : SafePage f)
    (articleId : Option ArticleId) : Serves (init f articleId) := by
  have hsynced : f.syncUIWithState.syncUIWithState = f.syncUIWithState := syncUIWithState_idem f
  refine ⟨by rw [filters_init]; exact h, by rw [filters_init]; exact hsafe.sync, by rw [filters_init, hsynced], ?_, ?_⟩
  · cases articleId <;> exact fun link hlink => by cases hlink
  · rw [sent_init]
    intro p hp
    rw [List.mem_singleton.1 hp]
    exact h.accepted hsafe.sync hsynced

theorem mem_sent_fetchTrends (s : Page) (submitted : Bool) :
    (s.fetchTrends submitted).filters.params ∈ (s.fetchTrends submitted).sent :=
  mem_sent_iff.2 (Or.inl ⟨Call.trends s.filters.params submitted Stage.response,
    List.mem_append_right _ List.mem_cons_self, rfl⟩)

/-- A search that is let in is sent. -/
theorem mem_sent_handleSearch {s : Page} (h : s.isSubmitting = false) (value : String) :
    (s.handleSearch value).filters.params ∈ (s.handleSearch value).sent := by
  rw [Page.handleSearch, if_neg (by rw [h]; exact Bool.false_ne_true)]
  exact mem_sent_fetchTrends _ true

/-- A search for a text can be the first thing on a fresh page. -/
theorem run_search (q : Query) (value : String) :
    (openTab q).page.isSubmitting = false ∧ ∃ t, tabMachine.run [TabStep.act (Act.search value)] (openTab q) = some t ∧
      t.page = (openTab q).page.handleSearch value := by
  have hsubmitting : (openTab q).page.isSubmitting = false := by
    rw [openTab]
    cases getId q <;> rfl
  refine ⟨hsubmitting, (openTab q).write ((openTab q).page.handleSearch value)
    (urlWrite (openTab q).page (Act.search value)), ?_, page_write _ _ _⟩
  rw [StepMachine.run_cons]
  rfl

theorem isSearching_sync (f : Filters) : f.syncUIWithState.isSearching = f.isSearching := by
  rw [sync_eq]
  rfl

/-- A search is taken only with a kind of search that the server knows. So an address with an
unknown one fails at the first keyword, though the list without a keyword is served. -/
theorem searchType_of_accepted {f : Filters} {text : String}
    (h : (Filters.syncUIWithState { f with query := text, page := some 1 }).params.Accepted)
    (htext : JsString.trim text.toList ≠ []) : f.searchType ∈ ["hybrid", "keyword"] := by
  have hsafe : SafePage { f with query := text, page := some 1 } := by
    rintro n ⟨⟩
    decide
  have hsearching : Filters.isSearching { f with query := text, page := some 1 } = true := by
    rw [Filters.isSearching, Bool.not_eq_true', List.isEmpty_eq_false_iff]
    exact htext
  have hmode := ((accepted_params_iff hsafe.sync).1 h).2
  rw [isSearching_sync, hsearching, if_pos rfl, sync_eq] at hmode
  exact hmode.2

/-- **Which addresses are safe to open.** Every request for the list that a tab sends, in any
run that follows the links, is served, exactly when the address holds a state that the
server serves. -/
theorem requests_accepted_iff (q : Query) (hsafe : SafePage (loadFilters q)) :
    (∀ steps t, tabMachine.Meets Follows steps (openTab q) → tabMachine.run steps (openTab q) = some t →
      ∀ p ∈ t.page.sent, p.Accepted) ↔ Acceptable (loadFilters q).syncUIWithState := by
  constructor
  · intro h
    have hfirst : (loadFilters q).syncUIWithState.params.Accepted := by
      refine h [] (openTab q) trivial rfl _ ?_
      rw [openTab, sent_init]
      exact List.mem_cons_self
    obtain ⟨⟨hpage, hlimit⟩, hmode⟩ := (accepted_params_iff hsafe.sync).1 hfirst
    have hsort : (loadFilters q).syncUIWithState.sort ∈ sortOptions := by
      split at hmode
      · exact hmode.1
      · exact hmode.1
    -- whoever searches sends the kind of search
    obtain ⟨hsubmitting, t, hrun, hpageOf⟩ := run_search q "a"
    have hmeets : tabMachine.Meets Follows [TabStep.act (Act.search "a")] (openTab q) :=
      ⟨trivial, fun _ _ => trivial⟩
    have hsearch := h _ t hmeets hrun _ (hpageOf ▸ mem_sent_handleSearch hsubmitting "a")
    have hinit : (openTab q).page.filters = (loadFilters q).syncUIWithState := filters_init _ _
    rw [hpageOf, filters_handleSearch hsubmitting, hinit] at hsearch
    exact ⟨hpage, hlimit, hsort, searchType_of_accepted hsearch (by decide)⟩
  · intro h steps t hmeets hrun
    exact (keepsIf_serves.run tabMachine (serves_init h hsafe (getId q)) hmeets hrun).sent

/-- An address with a search by keyword on its second page. -/
def searchAddress : Query := [("q", "rust"), ("searchType", "keyword"), ("page", "2")]

/-- A tab opened at a search by keyword on its second page never sends a request that is
refused. -/
theorem requests_accepted_searchAddress : SafePage (loadFilters searchAddress) ∧
    ∀ steps t, tabMachine.Meets Follows steps (openTab searchAddress) →
      tabMachine.run steps (openTab searchAddress) = some t → ∀ p ∈ t.page.sent, p.Accepted := by
  have hfilters : loadFilters searchAddress = ⟨"ALL", "rust", "keyword", false, "CREATED_DESC", some 2, some 5⟩ := by
    decide +kernel
  have hsync : (loadFilters searchAddress).syncUIWithState =
      ⟨"ALL", "rust", "keyword", false, "RELEVANCE", some 2, some 5⟩ := by
    rw [hfilters]
    decide +kernel
  have hsafe : SafePage (loadFilters searchAddress) := by
    rw [hfilters]
    rintro n ⟨⟩
    decide
  have hacceptable : Acceptable (loadFilters searchAddress).syncUIWithState := by
    rw [hsync]
    exact ⟨⟨2, rfl, by decide⟩, ⟨5, rfl, by decide, by decide⟩, by decide, by decide⟩
  exact ⟨hsafe, (requests_accepted_iff searchAddress hsafe).2 hacceptable⟩

end Frontend

end TechTrends
