/-
`geek-news.scraper`: the articles of an RSS feed.

Each item has fallbacks for a missing link, title and date. A date that is there and
that `Date` cannot read has none: `toISOString` throws inside of the one `map` over the
items, and with it all of them are lost.
-/
import TechTrends.Pipeline
import TechTrends.Today

set_option autoImplicit false

namespace TechTrends

namespace GeekNewsScraper

open JsDate (civilDate isoYear padded toISOString)

/-! ## The feed -/

/-- An item as `rss-parser` gives it. -/
structure FeedItem where
  link : Option String
  id : Option String
  title : Option String
  pubDate : Option String
  isoDate : Option String
deriving DecidableEq

/-- `value || fallback`, for a text that may be missing. -/
def orElse (value : Option String) (fallback : String) : String :=
  match value with
  -- an empty text is falsy as well
  | some s => if s = "" then fallback else s
  | none => fallback

namespace FeedItem

def rawLink (item : FeedItem) : String := orElse item.link (orElse item.id "")

/-- The date that is read. -/
def dateText (item : FeedItem) : String := orElse item.pubDate (orElse item.isoDate "")

end FeedItem

def sourceName : String := "geeknews"

/-- The digits of the first match of `/id=(\d+)/`. -/
def matchTopicId : List Char → Option (List Char)
  | [] => none
  | c :: cs =>
    let digits := ((c :: cs).drop 3).takeWhile Char.isDigit
    if "id=".toList.isPrefixOf (c :: cs) ∧ digits ≠ [] then some digits else matchTopicId cs

def extractTopicId (urlOrId : String) : String :=
  match matchTopicId urlOrId.toList with
  | some digits => String.ofList digits
  | none => urlOrId

/-- `text.split('T')[0]`. -/
def beforeT (text : String) : String := String.ofList (text.toList.takeWhile (· ≠ 'T'))

/-- What an item becomes, with this date. -/
def article (item : FeedItem) (created_at : String) : Article :=
  { id := extractTopicId item.rawLink
    title := orElse (item.title.map fun title => String.ofList (JsString.trim title.toList)) "제목 없음"
    url := item.rawLink
    created_at := created_at
    source := sourceName }

section Articles

-- `Date.parse`, which gives milliseconds or `NaN`.
variable (dateParse : String → Option ℤ)

/-- `new Date(text).toISOString()`. -/
def isoString (text : String) : Except Error String :=
  match dateParse text with
  | some t => Except.ok (toISOString t)
  | none => Except.error "Invalid time value"

/-- `created_at` of an item. -/
def createdAt (item : FeedItem) : Except Error String :=
  if item.dateText = "" then Except.ok "" else (isoString dateParse item.dateText).map beforeT

/-- The callback of `map`. -/
def toArticle (item : FeedItem) : Except Error Article :=
  (createdAt dateParse item).map (article item)

/-- `getArticles`, once the feed is parsed. What is thrown is logged and thrown again. -/
def getArticles (items : Option (List FeedItem)) : Except Error (List Article) :=
  match items with
  | none => Except.ok []
  | some items => items.mapM (toArticle dateParse)

end Articles

-- The test of the repository.
example : getArticles (fun _ => some 1767225600000) (some [⟨some "https://news.hada.io/topic?id=12345", none,
    some " GeekNews 소식 ", some "Mon, 01 Jan 2026 00:00:00 GMT", none⟩]) =
    Except.ok [⟨"12345", "GeekNews 소식", "https://news.hada.io/topic?id=12345", "2026-01-01", "geeknews"⟩] := by
  decide +kernel

/-! ## The day of a date -/

/-- The day of an instant, in UTC. -/
def isoDay (t : ℤ) : String :=
  let date := civilDate (t / 86400000)
  isoYear date.year ++ "-" ++ padded 2 date.month ++ "-" ++ padded 2 date.day

theorem notMem_T_padded (width : ℕ) (n : ℤ) : 'T' ∉ (padded width n).toList := by
  rw [padded, String.toList_ofList]
  intro h
  rcases List.mem_append.1 h with h | h
  · exact absurd (List.eq_of_mem_replicate h) (by decide)
  · exact absurd (Nat.isDigit_of_mem_toDigits (by decide) (by decide) h) (by decide)

theorem notMem_T_isoDay (t : ℤ) : 'T' ∉ (isoDay t).toList := by
  have hyear : ∀ year, 'T' ∉ (isoYear year).toList := by
    intro year
    unfold isoYear
    split
    · exact notMem_T_padded 4 year
    · split <;> simp [notMem_T_padded]
  simp [isoDay, hyear, notMem_T_padded]

theorem beforeT_toISOString (t : ℤ) : beforeT (toISOString t) = isoDay t := by
  obtain ⟨rest, hrest⟩ : ∃ rest : String, toISOString t = isoDay t ++ ("T" ++ rest) :=
    ⟨_, by simp only [toISOString, isoDay, String.append_assoc]; rfl⟩
  refine String.toList_injective ?_
  have hday : ∀ c ∈ (isoDay t).toList, decide (c ≠ 'T') = true := fun c hc =>
    decide_eq_true fun h => notMem_T_isoDay t (h ▸ hc)
  rw [beforeT, String.toList_ofList, hrest, String.toList_append, String.toList_append,
    List.takeWhile_append_of_pos hday]
  simp

/-! ## One bad date -/

section Due

variable {dateParse : String → Option ℤ}

/-- The article that an item calls for: it has a link or an id, and its date can be read
or is missing. -/
def due (dateParse : String → Option ℤ) (item : FeedItem) : Option Article :=
  if item.rawLink = "" then none
  else if item.dateText = "" then some (article item "")
  else (dateParse item.dateText).map fun t => article item (isoDay t)

/-- The feed is read to its end, and the articles that are due are there in its order. -/
def KeepsOthers (dateParse : String → Option ℤ) (items : List FeedItem) : Prop :=
  ∃ articles, getArticles dateParse (some items) = Except.ok articles ∧
    (items.filterMap (due dateParse)).Sublist articles

/-- The item has no date, or one that can be read. -/
def DateUsable (dateParse : String → Option ℤ) (item : FeedItem) : Prop :=
  item.dateText ≠ "" → (dateParse item.dateText).isSome = true

theorem toArticle_of_due {item : FeedItem} {a : Article} (h : due dateParse item = some a) :
    toArticle dateParse item = Except.ok a := by
  unfold due at h
  split at h
  · cases h
  · split at h
    · next hdate =>
      obtain rfl := Option.some.inj h
      rw [toArticle, createdAt, if_pos hdate]
      rfl
    · next hdate =>
      obtain ⟨t, ht, rfl⟩ := Option.map_eq_some_iff.1 h
      rw [toArticle, createdAt, if_neg hdate, isoString, ht, ← beforeT_toISOString]
      rfl

/-- An item is mapped exactly when its date is usable. -/
theorem toArticle_ok_iff {item : FeedItem} :
    (∃ a, toArticle dateParse item = Except.ok a) ↔ DateUsable dateParse item := by
  unfold DateUsable toArticle createdAt
  by_cases hdate : item.dateText = ""
  · rw [if_pos hdate]
    exact iff_of_true ⟨_, rfl⟩ fun h => absurd hdate h
  · rw [if_neg hdate, isoString]
    cases hparse : dateParse item.dateText with
    | none =>
      refine iff_of_false ?_ fun h => absurd (h hdate) (by simp)
      rintro ⟨a, h⟩
      cases h
    | some t => exact iff_of_true ⟨_, rfl⟩ fun _ => rfl

theorem keepsOthers_of_usable {items : List FeedItem} (h : ∀ item ∈ items, DateUsable dateParse item) :
    KeepsOthers dateParse items := by
  induction items with
  | nil => exact ⟨[], rfl, List.Sublist.refl _⟩
  | cons item items ih =>
    obtain ⟨a, ha⟩ := toArticle_ok_iff.2 (h item List.mem_cons_self)
    obtain ⟨articles, hok, hsub⟩ := ih fun other hother => h other (List.mem_cons_of_mem item hother)
    refine ⟨a :: articles, ?_, ?_⟩
    -- one `map` over all items: it gives a value when every item does
    · rw [getArticles] at hok ⊢
      rw [List.mapM_cons, ha, hok]
      rfl
    · cases hdue : due dateParse item with
      -- an item without a link is an article, too, though none is due
      | none =>
        rw [List.filterMap_cons_none hdue]
        exact hsub.cons a
      | some b =>
        have hab : a = b := Except.ok.inj (ha.symm.trans (toArticle_of_due hdue))
        rw [List.filterMap_cons_some hdue, hab]
        exact hsub.cons_cons b

theorem usable_of_getArticles {items : List FeedItem} {articles : List Article}
    (h : getArticles dateParse (some items) = Except.ok articles) :
    ∀ item ∈ items, DateUsable dateParse item := by
  rw [getArticles] at h
  -- `map` has got past an item only where the item was mapped
  induction items generalizing articles with
  | nil => simp
  | cons item items ih =>
    rw [List.mapM_cons] at h
    cases hitem : toArticle dateParse item with
    | error e =>
      rw [hitem] at h
      cases h
    | ok a =>
      cases hrest : items.mapM (toArticle dateParse) with
      | error e =>
        rw [hitem, hrest] at h
        cases h
      | ok rest =>
        intro other hother
        rcases List.mem_cons.1 hother with rfl | hother
        · exact toArticle_ok_iff.1 ⟨a, hitem⟩
        · exact ih hrest other hother

end Due

/-- **When one item does not cost the others.** The articles of a feed are those that its
items call for, exactly when no item has a date that cannot be read. -/
theorem getArticles_keepsOthers_iff (dateParse : String → Option ℤ) (items : List FeedItem) :
    KeepsOthers dateParse items ↔
      ∀ item ∈ items, item.dateText ≠ "" → (dateParse item.dateText).isSome = true := by
  constructor
  · rintro ⟨articles, hok, -⟩
    exact usable_of_getArticles hok
  · intro h
    exact keepsOthers_of_usable h

/-- A good item and one whose date is no date: the feed gives no article at all. -/
theorem getArticles_one_bad_date :
    let dateParse := fun text => if text = "Mon, 01 Jan 2026 00:00:00 GMT" then some 1767225600000 else none
    let good : FeedItem := ⟨some "https://news.hada.io/topic?id=1", none, some "one",
      some "Mon, 01 Jan 2026 00:00:00 GMT", none⟩
    let bad : FeedItem := ⟨some "https://news.hada.io/topic?id=2", none, some "two", some "soon", none⟩
    due dateParse good = some ⟨"1", "one", "https://news.hada.io/topic?id=1", "2026-01-01", "geeknews"⟩ ∧
      getArticles dateParse (some [good, bad]) = Except.error "Invalid time value" ∧
      ¬ KeepsOthers dateParse [good, bad] := by
  intro dateParse good bad
  have hthrown : getArticles dateParse (some [good, bad]) = Except.error "Invalid time value" := by
    decide +kernel
  refine ⟨by decide +kernel, hthrown, ?_⟩
  rintro ⟨articles, hok, -⟩
  rw [hthrown] at hok
  cases hok

end GeekNewsScraper

end TechTrends
