/-
The pages of a list and of a keyword search put together.

Every option ends with the id, so its criteria tell any two rows of the table apart,
whatever is null and whatever ties. The statements for the rows and for their number
are written apart, and select the same rows.
-/
import TechTrends.TrendRepository

set_option autoImplicit false

namespace TechTrends

open TrendsQuery (SortOption ListTrendsQuery ListTrendsParams)
open Sql (OrderItem Separates Listing)

variable {Tsvector Tsquery Vector Rank Distance : Type}

/-! ## Reference -/

/-- The row passes the filters on the source and on `mined_at`. -/
def Selected (pg : Postgres Tsvector Tsquery Vector Rank Distance) (source : String) (isNew : Bool)
    (row : TechTrend) : Prop :=
  (source = "ALL" ∨ row.source = source) ∧
    (isNew = true → pg.currentDate ≤ row.mined_at ∧ row.mined_at < pg.currentDate + dayMs)

instance (pg : Postgres Tsvector Tsquery Vector Rank Distance) (source : String) (isNew : Bool) :
    DecidablePred (Selected pg source isNew) := fun row => by
  unfold Selected
  infer_instance

/-- The greater metric is first, a null is last, and `tie` decides between equals. -/
def MetricBefore (tie : Prop) : Option ℤ → Option ℤ → Prop
  | some x, some y => y < x ∨ x = y ∧ tie
  | some _, none => True
  | none, some _ => False
  | none, none => tie

/-- The option allows `a` before `b`. -/
def SortsBefore (pg : Postgres Tsvector Tsquery Vector Rank Distance) (a b : TechTrend) :
    SortOption → Prop
  | SortOption.CREATED_DESC => pg.createdAt b ≤ pg.createdAt a
  | SortOption.CREATED_ASC => pg.createdAt a ≤ pg.createdAt b
  | SortOption.MINED_DESC =>
    b.mined_at < a.mined_at ∨ a.mined_at = b.mined_at ∧ pg.createdAt b ≤ pg.createdAt a
  | SortOption.MINED_ASC =>
    a.mined_at < b.mined_at ∨ a.mined_at = b.mined_at ∧ pg.createdAt a ≤ pg.createdAt b
  | SortOption.LIKE_DESC => MetricBefore (pg.createdAt b ≤ pg.createdAt a) a.like_count b.like_count
  | SortOption.VIEW_DESC => MetricBefore (pg.createdAt b ≤ pg.createdAt a) a.view_count b.view_count
  | SortOption.COMMENT_DESC =>
    MetricBefore (pg.createdAt b ≤ pg.createdAt a) a.comment_count b.comment_count

/-- The same with relevance. -/
def SearchSortsBefore [LinearOrder Rank] (pg : Postgres Tsvector Tsquery Vector Rank Distance)
    (search : String) (a b : TechTrend) : SearchSortOption → Prop
  | SearchSortOption.common sort => SortsBefore pg a b sort
  | SearchSortOption.RELEVANCE =>
    pg.relevance search b < pg.relevance search a ∨
      pg.relevance search a = pg.relevance search b ∧ pg.createdAt b ≤ pg.createdAt a

namespace TechTrendRepository

variable {pg : Postgres Tsvector Tsquery Vector Rank Distance} {table : TrendTable}

/-! ## Filters -/

theorem minedToday_iff {row : TechTrend} :
    pg.minedToday row = true ↔
      pg.currentDate ≤ row.mined_at ∧ row.mined_at < pg.currentDate + dayMs := by
  simp [Postgres.minedToday]

theorem commonWhere_iff {source : String} {isNew : Bool} {row : TechTrend} :
    commonWhere pg source isNew row = true ↔ Selected pg source isNew row := by
  unfold commonWhere Selected
  rw [Bool.and_eq_true, Bool.or_eq_true, Bool.or_eq_true, minedToday_iff]
  cases isNew <;> simp

/-- The query builder selects what the common `WHERE` of the searches does. -/
theorem applyListFilters_eq (source : String) (isNew : Bool) (rows : List TechTrend) :
    applyListFilters pg source isNew rows = rows.filter (commonWhere pg source isNew) := by
  unfold applyListFilters commonWhere
  by_cases hsource : source = "ALL"
  · cases isNew <;> simp [hsource]
  · cases isNew <;> simp [hsource, List.filter_filter, Bool.and_comm]

theorem applyListFilters_eq_selected (source : String) (isNew : Bool) (rows : List TechTrend) :
    applyListFilters pg source isNew rows = rows.filter (Selected pg source isNew) := by
  rw [applyListFilters_eq]
  refine List.filter_congr fun row _ => ?_
  rw [Bool.eq_iff_iff, commonWhere_iff, decide_eq_true_iff]

theorem filter_keywordWhere (search source : String) (isNew : Bool) (rows : List TechTrend) :
    rows.filter (keywordWhere pg search source isNew) =
      rows.filter fun row => Selected pg source isNew row ∧ pg.found search row = true := by
  refine List.filter_congr fun row _ => ?_
  rw [Bool.eq_iff_iff, keywordWhere, Bool.and_eq_true, commonWhere_iff, decide_eq_true_iff]

/-! ## Orders -/

/-- The id tells the rows of the table apart. -/
theorem id_injOn {a b : TechTrend} (ha : a ∈ table.rows) (hb : b ∈ table.rows) (h : a.id = b.id) :
    a = b := List.inj_on_of_nodup_map table.ids_nodup ha hb h

theorem nodup_rows (table : TrendTable) : table.rows.Nodup := List.Nodup.of_map _ table.ids_nodup

/-- Criteria that have the id among them tell the rows of the table apart. -/
theorem separates_of_id {items : List (OrderItem TechTrend)}
    (h : OrderItem.desc (fun row : TechTrend => row.id) ∈ items ∨
      OrderItem.asc (fun row : TechTrend => row.id) ∈ items) : Separates items table.rows := by
  rcases h with hdesc | hasc
  · exact Separates.of_mem hdesc fun a ha b hb heq => id_injOn ha hb (OrderItem.desc_cmp_eq.1 heq)
  · exact Separates.of_mem hasc fun a ha b hb heq => id_injOn ha hb (OrderItem.asc_cmp_eq.1 heq)

theorem listItems_separates (pg : Postgres Tsvector Tsquery Vector Rank Distance)
    (sort : SortOption) : Separates (listItems pg sort) table.rows :=
  separates_of_id (Or.inl (by simp [listItems]))

theorem orderByClause_separates [LinearOrder Rank]
    (pg : Postgres Tsvector Tsquery Vector Rank Distance) (search : String) (sort : SearchSortOption) :
    Separates (orderByClause pg search sort) table.rows := by
  apply separates_of_id
  cases sort with
  | RELEVANCE => simp [orderByClause]
  | common sort => cases sort <;> simp [orderByClause]

section Criteria

variable {items : List (OrderItem TechTrend)} {a b : TechTrend}

theorem day_of_desc (h : Sql.LT (OrderItem.desc pg.createdAt :: items) a b) :
    pg.createdAt b ≤ pg.createdAt a := by
  rw [Sql.LT_cons_iff, OrderItem.desc_cmp_lt, OrderItem.desc_cmp_eq] at h
  exact h.elim LT.lt.le fun h => h.1.ge

theorem day_of_asc (h : Sql.LT (OrderItem.asc pg.createdAt :: items) a b) :
    pg.createdAt a ≤ pg.createdAt b := by
  rw [Sql.LT_cons_iff, OrderItem.asc_cmp_lt, OrderItem.asc_cmp_eq] at h
  exact h.elim LT.lt.le fun h => h.1.le

theorem mined_of_desc
    (h : Sql.LT (OrderItem.desc (fun row => row.mined_at) :: OrderItem.desc pg.createdAt :: items) a b) :
    SortsBefore pg a b SortOption.MINED_DESC := by
  rw [Sql.LT_cons_iff, OrderItem.desc_cmp_lt, OrderItem.desc_cmp_eq] at h
  exact h.imp_right (And.imp_right day_of_desc)

theorem mined_of_asc
    (h : Sql.LT (OrderItem.asc (fun row => row.mined_at) :: OrderItem.asc pg.createdAt :: items) a b) :
    SortsBefore pg a b SortOption.MINED_ASC := by
  rw [Sql.LT_cons_iff, OrderItem.asc_cmp_lt, OrderItem.asc_cmp_eq] at h
  exact h.imp_right (And.imp_right day_of_asc)

/-- By a metric, the greatest first, rows without one last, and the newer day where they tie. -/
theorem metric_of_desc {key : TechTrend → Option ℤ}
    (h : Sql.LT (OrderItem.descNullsLast key :: OrderItem.desc pg.createdAt :: items) a b) :
    MetricBefore (pg.createdAt b ≤ pg.createdAt a) (key a) (key b) := by
  rw [Sql.LT_cons_iff, OrderItem.descNullsLast_cmp, OrderItem.cmpNullsLast_lt,
    OrderItem.cmpNullsLast_eq] at h
  rcases h with ⟨x, hx, hlt⟩ | ⟨heq, hrest⟩
  · rw [hx]
    cases hy : key b with
    | none => trivial
    | some y => exact Or.inl (hlt y hy)
  · rw [heq]
    cases key b with
    | none => exact day_of_desc hrest
    | some y => exact Or.inr ⟨rfl, day_of_desc hrest⟩

end Criteria

/-- The list's criteria are those of the option. -/
theorem sortsBefore_of_list {sort : SortOption} {a b : TechTrend}
    (h : Sql.LT (listItems pg sort) a b) : SortsBefore pg a b sort := by
  cases sort with
  | CREATED_DESC => exact day_of_desc h
  | CREATED_ASC => exact day_of_asc h
  | MINED_DESC => exact mined_of_desc h
  | MINED_ASC => exact mined_of_asc h
  | LIKE_DESC => exact metric_of_desc h
  | VIEW_DESC => exact metric_of_desc h
  | COMMENT_DESC => exact metric_of_desc h

/-- The criteria of the keyword search are those of the option. -/
theorem searchSortsBefore_of_clause [LinearOrder Rank] {search : String} {sort : SearchSortOption}
    {a b : TechTrend} (h : Sql.LT (orderByClause pg search sort) a b) :
    SearchSortsBefore pg search a b sort := by
  cases sort with
  | RELEVANCE =>
    rw [orderByClause, Sql.LT_cons_iff, OrderItem.desc_cmp_lt, OrderItem.desc_cmp_eq] at h
    exact h.imp_right (And.imp_right day_of_desc)
  | common sort =>
    cases sort with
    | CREATED_DESC => exact day_of_desc h
    | CREATED_ASC => exact day_of_asc h
    | MINED_DESC => exact mined_of_desc h
    | MINED_ASC => exact mined_of_asc h
    | LIKE_DESC => exact metric_of_desc h
    | VIEW_DESC => exact metric_of_desc h
    | COMMENT_DESC => exact metric_of_desc h

/-! ## Pages -/

/-- `LIMIT` and `OFFSET` behind a condition: the rows that meet it are listed. -/
theorem listing_of_filter {ρ : Type} {limit : ℕ} (hlimit : 1 ≤ limit)
    {items : List (OrderItem TechTrend)} (hsep : Separates items table.rows)
    {before : TechTrend → TechTrend → Prop} (hbefore : ∀ a b, Sql.LT items a b → before a b)
    (columns : TechTrend → ρ) (where_ : TechTrend → Bool) (dataScan countScan : ℕ → Scan table) :
    Listing limit (table.rows.filter where_) before columns
      (fun p => (Sql.page limit ((p - 1) * limit)
        (Sql.orderBy items ((dataScan p).rows.filter where_))).map columns)
      (fun p => ((countScan p).rows.filter where_).length) := by
  refine Listing.of_orderBy hlimit ((nodup_rows table).filter _)
    (hsep.subset (List.filter_subset_self _)) (fun a _ b _ => hbefore a b)
    (fun p => (dataScan p).rows.filter where_) (fun p => (dataScan p).perm.filter _)
    (fun _ => rfl) ?_
  intro p
  exact ((countScan p).perm.filter _).length_eq

end TechTrendRepository

/-! ## `totalPages` -/

/-- The ceiling of an exact quotient is the number of pages. -/
theorem ceil_eq_pageCount {limit : ℕ} (hlimit : 1 ≤ limit) (n : ℕ) :
    -(-(n : ℤ) / limit) = (Sql.pageCount n limit : ℕ) := by
  have hle : n ≤ Sql.pageCount n limit * limit := Sql.le_pageCount_mul hlimit n
  have hlt : Sql.pageCount n limit * limit < n + limit := by
    have := Nat.div_mul_le_self (n + limit - 1) limit
    unfold Sql.pageCount
    omega
  have hdiv : -(n : ℤ) / limit = -(Sql.pageCount n limit : ℕ) := by
    have hpos : (0 : ℤ) < limit := by omega
    refine ((Int.ediv_emod_unique (r := (Sql.pageCount n limit * limit : ℕ) - (n : ℤ)) hpos).2
      ⟨?_, by omega, by omega⟩).1
    push_cast
    ring
  rw [hdiv, neg_neg]

/-- A quotient of whole numbers that binary64 holds is rounded to a whole number only when it is
one: it is farther from the one below it than half a unit in its last place. -/
theorem ceil_roundValue_div {n m : ℕ} (hn : n < 2 ^ 53) (hpos : 1 ≤ m) (hm : m < 2 ^ 53) :
    ⌈Binary64.roundValue ((n : ℚ) / m)⌉ = ⌈(n : ℚ) / m⌉ := by
  have hm0 : (0 : ℚ) < m := by exact_mod_cast hpos
  have hdiv : 0 ≤ (n : ℚ) / m := by positivity
  obtain ⟨k, hk⟩ := Int.eq_ofNat_of_zero_le (Int.ceil_nonneg hdiv)
  have hceil := Int.ceil_eq_iff.1 hk
  rw [Int.cast_natCast] at hceil
  have hkn : k ≤ n := by
    have hle : ⌈(n : ℚ) / m⌉ ≤ (n : ℤ) :=
      Int.ceil_le.2 (by rw [Int.cast_natCast]; exact div_le_self (Nat.cast_nonneg n) (by exact_mod_cast hpos))
    omega
  rw [hk, Int.ceil_eq_iff, Int.cast_natCast]
  refine ⟨?_, ?_⟩
  · rcases Nat.eq_zero_or_pos n with rfl | hn0
    · rw [Nat.cast_zero, zero_div] at hceil ⊢
      rw [show Binary64.roundValue 0 = 0 by decide +kernel]
      exact hceil.1
    -- the whole number below is at least one part in `m` away
    · have hgap : (k : ℚ) - 1 + 1 / m ≤ n / m := by
        have hlt : ((k : ℤ) - 1) * m < n := by
          have hcast : ((k : ℚ) - 1) * m < n := (lt_div_iff₀ hm0).1 hceil.1
          exact_mod_cast hcast
        have hle : (((k : ℤ) - 1) * m + 1 : ℚ) ≤ n := by exact_mod_cast hlt
        rw [le_div_iff₀ hm0, add_mul, one_div_mul_cancel hm0.ne']
        exact_mod_cast hle
      have hq : (0 : ℚ) < n / m := by positivity
      have hn' : (n : ℚ) ≤ 2 ^ 53 - 1 := by
        have hlt : n + 1 ≤ 2 ^ 53 := hn
        have hcast : ((n + 1 : ℕ) : ℚ) ≤ ((2 ^ 53 : ℕ) : ℚ) := Nat.cast_le.2 hlt
        push_cast at hcast
        linarith
      have hm' : (m : ℚ) ≤ 2 ^ 53 := by exact_mod_cast hm.le
      -- half a place of the quotient is less than that part, so rounding does not reach the
      -- whole number
      have hulp : Binary64.ulp (n / m) ≤ (2 ^ 53 - 1) * (2 : ℚ) ^ (-52 : ℤ) / m := by
        refine Binary64.ulp_le hq ?_ ?_
        · rw [div_mul_eq_mul_div]
          exact div_le_div_of_nonneg_right (mul_le_mul_of_nonneg_right hn' (by positivity)) hm0.le
        · rw [le_div_iff₀ hm0]
          calc (2 : ℚ) ^ (-1074 : ℤ) * m ≤ (2 : ℚ) ^ (-53 : ℤ) * 2 ^ 53 :=
                mul_le_mul (zpow_le_zpow_right₀ (by norm_num) (by norm_num)) hm' hm0.le (zpow_pos (by norm_num) _).le
            _ ≤ (2 ^ 53 - 1) * (2 : ℚ) ^ (-52 : ℤ) := by norm_num
      have hhalf : (2 ^ 53 - 1) * (2 : ℚ) ^ (-52 : ℤ) / m / 2 < 1 / m := by
        rw [div_right_comm]
        exact div_lt_div_of_pos_right (by norm_num) hm0
      have hround := Binary64.sub_half_ulp_le_roundValue ((n : ℚ) / m)
      linarith
  · -- rounding is monotone and keeps the whole number above
    have hexact := Binary64.roundValue_natCast (hkn.trans_lt hn)
    rw [← hexact]
    exact Binary64.roundValue_mono hceil.2

/-- `Math.ceil(totalCount / limit)` is the number of pages. -/
theorem totalPages_eq {limit : ℕ} (hlimit : 1 ≤ limit) {n : ℕ} (hn : n < 2 ^ 53) :
    TrendsQuery.totalPages (TrendsQuery.Value.totalCount n).toJson limit =
      Json.num (Binary64.ofInt (Sql.pageCount n limit : ℕ)) := by
  have hvalue : (Binary64.ofInt n).value = (n : ℤ) := Binary64.ofInt_value (by rw [Nat.abs_cast]; exact_mod_cast hn)
  show TrendsQuery.totalPages (Json.num (Binary64.ofInt n)) limit = _
  rw [TrendsQuery.totalPages, if_neg (by omega), hvalue, Rat.ceil_intCast_div_natCast, ceil_eq_pageCount hlimit]

/-! ## The listings -/

/-- The rows and the count of a `listTrends` request whose count is not cached. -/
def listPage (pg : Postgres Tsvector Tsquery Vector Rank Distance) {table : TrendTable}
    (dataScan countScan : Scan table) (params : ListTrendsParams) : SearchResult ListedTrend where
  data := TechTrendRepository.listTrends pg dataScan params
  totalCount := TechTrendRepository.countTrends pg countScan params.source params.isNew

theorem listPage_listing (pg : Postgres Tsvector Tsquery Vector Rank Distance) {table : TrendTable}
    (source : String) (isNew : Bool) {limit : ℕ} (hlimit : 1 ≤ limit) (sort : SortOption)
    (dataScan countScan : ℕ → Scan table) :
    Listing limit (table.rows.filter (Selected pg source isNew))
      (fun a b => SortsBefore pg a b sort) TechTrend.listed
      (fun p => (listPage pg (dataScan p) (countScan p) ⟨p, limit, source, isNew, sort⟩).data)
      (fun p => (listPage pg (dataScan p) (countScan p) ⟨p, limit, source, isNew, sort⟩).totalCount) := by
  simp only [listPage, TechTrendRepository.listTrends, TechTrendRepository.countTrends,
    TechTrendRepository.applyListFilters_eq_selected]
  exact TechTrendRepository.listing_of_filter hlimit
    (TechTrendRepository.listItems_separates pg sort)
    (fun _ _ => TechTrendRepository.sortsBefore_of_list) TechTrend.listed _ dataScan countScan

theorem searchKeyword_listing [LinearOrder Rank]
    (pg : Postgres Tsvector Tsquery Vector Rank Distance) {table : TrendTable} (source : String)
    (isNew : Bool) {limit : ℕ} (hlimit : 1 ≤ limit) (search : String) (sort : SearchSortOption)
    (dataScan countScan : ℕ → Scan table) :
    Listing limit
      (table.rows.filter fun row => Selected pg source isNew row ∧ pg.found search row = true)
      (fun a b => SearchSortsBefore pg search a b sort) (TechTrend.withRelevance pg search)
      (fun p => (TechTrendRepository.searchKeyword pg (dataScan p) (countScan p)
        ⟨p, limit, search, source, isNew, some sort⟩).data)
      (fun p => (TechTrendRepository.searchKeyword pg (dataScan p) (countScan p)
        ⟨p, limit, search, source, isNew, some sort⟩).totalCount) := by
  simp only [TechTrendRepository.searchKeyword, TechTrendRepository.filter_keywordWhere]
  exact TechTrendRepository.listing_of_filter hlimit
    (TechTrendRepository.orderByClause_separates pg search sort)
    (fun _ _ => TechTrendRepository.searchSortsBefore_of_clause)
    (TechTrend.withRelevance pg search) _ dataScan countScan

/-- **The pages of a list or of a keyword search are all that matches.** With each
page asked for on its own, every row that passes the filters is on one page once, in
the order of the option; all pages but the last are full, and `totalPages` is their
number. -/
theorem pages_list_all_matches [LinearOrder Rank]
    (pg : Postgres Tsvector Tsquery Vector Rank Distance) (table : TrendTable) (source : String)
    (isNew : Bool) (limit : ℕ) (hlimit : 1 ≤ limit) (dataScan countScan : ℕ → Scan table) :
    (∀ sort : SortOption,
      Listing limit (table.rows.filter (Selected pg source isNew))
        (fun a b => SortsBefore pg a b sort) TechTrend.listed
        (fun p => (listPage pg (dataScan p) (countScan p) ⟨p, limit, source, isNew, sort⟩).data)
        (fun p => (listPage pg (dataScan p) (countScan p) ⟨p, limit, source, isNew, sort⟩).totalCount)) ∧
    (∀ (search : String) (sort : SearchSortOption),
      Listing limit
        (table.rows.filter fun row => Selected pg source isNew row ∧ pg.found search row = true)
        (fun a b => SearchSortsBefore pg search a b sort) (TechTrend.withRelevance pg search)
        (fun p => (TechTrendRepository.searchKeyword pg (dataScan p) (countScan p)
          ⟨p, limit, search, source, isNew, some sort⟩).data)
        (fun p => (TechTrendRepository.searchKeyword pg (dataScan p) (countScan p)
          ⟨p, limit, search, source, isNew, some sort⟩).totalCount)) ∧
    ∀ totalCount ≤ table.rows.length,
      TrendsQuery.totalPages (TrendsQuery.Value.totalCount totalCount).toJson limit =
        Json.num (Binary64.ofInt (Sql.pageCount totalCount limit : ℕ)) := by
  refine ⟨?_, ?_, fun totalCount hcount =>
    totalPages_eq hlimit (lt_of_le_of_lt (hcount.trans table.length_rows_le) (by norm_num))⟩
  · exact fun sort => listPage_listing pg source isNew hlimit sort dataScan countScan
  · exact fun search sort =>
      searchKeyword_listing pg source isNew hlimit search sort dataScan countScan

/-! ## Two posts of one day -/

/-- A database for small examples: texts are found by their parts, all ranks are
equal, and vectors are equal or apart. -/
def Postgres.small : Postgres String String String ℕ ℕ where
  currentDate := 1704153600000
  date text := if text = "2024-01-01" then 1704067200000 else 1704153600000
  toTsvector := id
  setweight := id
  concat x y := x ++ " " ++ y
  plaintoTsquery := id
  matches_ := JsString.includes
  tsRank _ _ := 1
  vector v := TechTrendRepository.vectorString (v.map Json.num)
  castVector := id
  distance x y := if x = y then 0 else 1

/-- A post about react of the first day of 2024. -/
def samplePost (id : ℕ) (mined_at : ℤ) : TechTrend :=
  { source := "dev.to", source_id := toString id, title := "react " ++ toString id,
    short_summary := [], long_summary := none, link_url := "https://dev.to/" ++ toString id,
    technical_tags := none, embedding := none, view_count := none, like_count := none,
    comment_count := none, created_at := "2024-01-01", id := id, mined_at := mined_at }

def twoPosts : TrendTable where
  rows := [samplePost 1 1704153600000, samplePost 2 1704157200000]
  ids_lt := by decide
  ids_nodup := by decide
  sourceKeys_nodup := by decide
  urls_nodup := by decide

/-- One row a page, on the two posts. -/
theorem pages_list_all_matches_two :
    Listing 1 (twoPosts.rows.filter (Selected Postgres.small "ALL" true))
      (fun a b => SortsBefore Postgres.small a b SortOption.VIEW_DESC) TechTrend.listed
      (fun p => (listPage Postgres.small (Scan.stored twoPosts) (Scan.stored twoPosts)
        ⟨p, 1, "ALL", true, SortOption.VIEW_DESC⟩).data)
      (fun p => (listPage Postgres.small (Scan.stored twoPosts) (Scan.stored twoPosts)
        ⟨p, 1, "ALL", true, SortOption.VIEW_DESC⟩).totalCount) :=
  (pages_list_all_matches Postgres.small twoPosts "ALL" true 1 (by decide)
    (fun _ => Scan.stored twoPosts) (fun _ => Scan.stored twoPosts)).1 SortOption.VIEW_DESC

end TechTrends
