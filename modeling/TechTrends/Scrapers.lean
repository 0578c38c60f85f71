/-
The scrapers: what each of them lists of the answer of its source, and what the pipeline
makes of it.

dev.to and Stack Overflow are asked for a week. What is not liked enough is left out, and the
rest is sorted, the most liked first; GeekNews lists its feed. So an attempt saves the best of
its source first, and no source gets rows of another one.
-/
import Mathlib.Data.List.Sort
import TechTrends.GeekNews
import TechTrends.PipelineOrder
import TechTrends.ScraperQuota
import TechTrends.StackOverflow

set_option autoImplicit false

/-! ## Sorting -/

namespace JsArray

variable {α : Type*} (key : α → ℤ)

/-- `items.sort((a, b) => key(b) - key(a))`, which leaves items that tie where they are. -/
def sortDescending (items : List α) : List α := items.insertionSort fun a b => key b ≤ key a

variable {key} {items : List α}

local instance descendingTotal : Std.Total fun a b : α => key b ≤ key a := ⟨fun a b => le_total (key b) (key a)⟩

local instance descendingTrans : IsTrans α fun a b => key b ≤ key a := ⟨fun _ _ _ hab hbc => hbc.trans hab⟩

theorem sortDescending_perm : (sortDescending key items).Perm items := List.perm_insertionSort _ _

theorem pairwise_sortDescending : (sortDescending key items).Pairwise fun a b => key b ≤ key a :=
  List.pairwise_insertionSort _ _

/-- Items with one key keep their order, as `Array.prototype.sort` keeps the order of what
compares as equal. -/
theorem sortDescending_stable (items : List α) (k : ℤ) :
    (sortDescending key items).filter (fun a => key a = k) = items.filter fun a => key a = k := by
  have hties : (items.filter fun a => key a = k).Pairwise fun a b => key b ≤ key a :=
    List.pairwise_of_forall_mem_list fun a ha b hb =>
      ((of_decide_eq_true (List.mem_filter.1 hb).2).trans (of_decide_eq_true (List.mem_filter.1 ha).2).symm).le
  have hsub : (items.filter fun a => key a = k).Sublist (sortDescending key items) :=
    List.sublist_insertionSort hties List.filter_sublist
  have hfilter := hsub.filter fun a => decide (key a = k)
  rw [List.filter_filter] at hfilter
  simp only [Bool.and_self] at hfilter
  exact (hfilter.eq_of_length_le ((sortDescending_perm.filter _).length_eq.le)).symm

end JsArray

namespace TechTrends

open JsArray (sortDescending)
open GeekNewsScraper (FeedItem beforeT orElse)

/-! ## dev.to -/

namespace DevToScraper

/-- An item of the answer. -/
structure Item where
  id : ℕ
  title : String
  url : String
  published_at : Option String
  positive_reactions_count : Option ℤ
  comments_count : Option ℤ
deriving DecidableEq

def sourceName : String := "dev.to"

def MIN_REACTIONS : ℤ := 10

def MIN_COMMENTS : ℤ := 1

namespace Item

def reactions (item : Item) : ℤ := item.positive_reactions_count.getD 0

def comments (item : Item) : ℤ := item.comments_count.getD 0

def idText (item : Item) : String := toString item.id

def qualifies (item : Item) : Bool := MIN_REACTIONS ≤ item.reactions && MIN_COMMENTS ≤ item.comments

def toArticle (item : Item) : Article :=
  { id := item.idText
    title := item.title
    url := item.url
    created_at := match item.published_at with
      | some date => if date = "" then "" else beforeT date
      | none => ""
    source := sourceName }

end Item

/-- `getArticles`, once there is an answer. `none` is one that is no array. -/
def getArticles : Option (List Item) → List Article
  | none => []
  | some articles => (sortDescending Item.reactions (articles.filter Item.qualifies)).map Item.toArticle

-- The test of the repository: filtered, and sorted by reactions.
example : getArticles (some [
      ⟨1, "조건 미달 아티클", "https://dev.to/1", some "2026-01-01T00:00:00Z", some 5, some 2⟩,
      ⟨2, "인기 아티클 1", "https://dev.to/2", some "2026-01-02T00:00:00Z", some 15, some 3⟩,
      ⟨3, "인기 아티클 2 (최고 좋아요)", "https://dev.to/3", some "2026-01-03T00:00:00Z", some 50, some 5⟩]) =
    [⟨"3", "인기 아티클 2 (최고 좋아요)", "https://dev.to/3", "2026-01-03", "dev.to"⟩,
      ⟨"2", "인기 아티클 1", "https://dev.to/2", "2026-01-02", "dev.to"⟩] := by decide +kernel

end DevToScraper

/-! ## Stack Overflow -/

namespace StackOverflowScraper

/-- A question of the answer. -/
structure Question where
  question_id : ℕ
  title : Option String
  link : Option String
  creation_date : Option ℤ
  score : Option ℤ
deriving DecidableEq

def sourceName : String := "stackoverflow"

def MIN_SCORE : ℤ := 3

/-- The last millisecond that a `Date` can be, on either side of 1970. -/
def maxTime : ℤ := 8640000000000000

/-- `new Date(seconds * 1000).toISOString().split('T')[0]`. -/
def dayOf (seconds : ℤ) : Except Error String :=
  let t := seconds * 1000
  if -maxTime ≤ t ∧ t ≤ maxTime then Except.ok (beforeT (JsDate.toISOString t)) else Except.error "Invalid time value"

namespace Question

def scoreOrZero (question : Question) : ℤ := question.score.getD 0

def idText (question : Question) : String := toString question.question_id

def qualifies (question : Question) : Bool := MIN_SCORE ≤ question.scoreOrZero

/-- `created_at` of a question. A `0` is as good as none. -/
def createdAt (question : Question) : Except Error String :=
  match question.creation_date with
  | none => Except.ok ""
  | some seconds => if seconds = 0 then Except.ok "" else dayOf seconds

def toArticle (question : Question) : Except Error Article :=
  question.createdAt.map fun created_at =>
    { id := question.idText
      title := orElse (question.title.map fun title => String.ofList (JsString.trim title.toList)) "제목 없음"
      url := orElse question.link ""
      created_at := created_at
      source := sourceName }

end Question

/-- `getArticles`, once there is an answer. What is thrown is logged and thrown again. -/
def getArticles : Option (List Question) → Except Error (List Article)
  | none => Except.ok []
  | some questions =>
    (sortDescending Question.scoreOrZero (questions.filter Question.qualifies)).mapM Question.toArticle

end StackOverflowScraper

/-! ## The scrapers together -/

/-- The answers of the three sources. -/
structure Web (ε : Type) where
  devTo : ε → Reply ε (Option (List DevToScraper.Item))
  geekNews : ε → Reply ε (Option (List FeedItem))
  stackOverflow : ε → Reply ε (Option (List StackOverflowScraper.Question))
  /-- `Date.parse`. -/
  dateParse : String → Option ℤ

namespace ScraperFactory

variable {ε : Type}

/-- What is listed of an answer. -/
def listing {α : Type} (reply : Reply ε α) (list : α → Except Error (List Article)) : Reply ε (List Article) :=
  { outcome := match reply.outcome with
      | Outcome.ret answer =>
        match list answer with
        | Except.ok articles => Outcome.ret articles
        | Except.error e => Outcome.throw e
      | Outcome.throw e => Outcome.throw e
      | Outcome.killed => Outcome.killed
    elapsed := reply.elapsed
    env := reply.env }

/-- `getScraper(sourceName).getArticles()`. -/
def getArticles (web : Web ε) (sourceName : String) (env : ε) : Reply ε (List Article) :=
  if sourceName = DevToScraper.sourceName then
    listing (web.devTo env) fun answer => Except.ok (DevToScraper.getArticles answer)
  else if sourceName = GeekNewsScraper.sourceName then
    listing (web.geekNews env) (GeekNewsScraper.getArticles web.dateParse)
  else if sourceName = StackOverflowScraper.sourceName then
    listing (web.stackOverflow env) StackOverflowScraper.getArticles
  else ⟨Outcome.throw ("[ScraperFactory] 등록되지 않은 스크래퍼 소스입니다: " ++ sourceName), 0, env⟩

/-- The services around the pipeline, with the listings of the three scrapers. -/
def scraping (ext : Externals ε) (web : Web ε) : Externals ε := { ext with getArticles := getArticles web }

variable {ext : Externals ε} {web : Web ε}

/-- A scraper that returns a list has had an answer of its source and has made the list of it. -/
theorem listing_ret {α : Type} {reply : Reply ε α} {list : α → Except Error (List Article)} {articles : List Article}
    (h : (listing reply list).outcome = Outcome.ret articles) :
    ∃ answer, reply.outcome = Outcome.ret answer ∧ list answer = Except.ok articles := by
  unfold listing at h
  cases houtcome : reply.outcome with
  | ret answer =>
    rw [houtcome] at h
    cases hlist : list answer with
    | ok listed =>
      simp only [hlist] at h
      exact ⟨answer, rfl, by rw [hlist, Outcome.ret.inj h]⟩
    | error e =>
      simp only [hlist] at h
      cases h
  | throw e =>
    rw [houtcome] at h
    cases h
  | killed =>
    rw [houtcome] at h
    cases h

end ScraperFactory

/-! ## Their own source -/

/-- Articles that are made of the items one by one, with the ids of the items and one source. -/
theorem mapM_articles {ι : Type} {f : ι → Except Error Article} {idText : ι → String} {source : String}
    (hf : ∀ item article, f item = Except.ok article → article.id = idText item ∧ article.source = source)
    {items : List ι} {articles : List Article} (h : items.mapM f = Except.ok articles) :
    articles.map Article.id = items.map idText ∧ ∀ article ∈ articles, article.source = source := by
  induction items generalizing articles with
  | nil =>
    rw [List.mapM_nil] at h
    cases h
    exact ⟨rfl, fun article h => by cases h⟩
  | cons item items ih =>
    rw [List.mapM_cons] at h
    cases hitem : f item with
    | error e =>
      rw [hitem] at h
      cases h
    | ok first =>
      cases hrest : items.mapM f with
      | error e =>
        rw [hitem, hrest] at h
        cases h
      | ok rest =>
        rw [hitem, hrest] at h
        cases h
        obtain ⟨hids, hsources⟩ := ih hrest
        obtain ⟨hid, hsource⟩ := hf item first hitem
        refine ⟨by rw [List.map_cons, List.map_cons, hid, hids], fun article harticle => ?_⟩
        rcases List.mem_cons.1 harticle with rfl | harticle
        · exact hsource
        · exact hsources article harticle

/-- What `Except.map` gives was made of a value. -/
theorem map_eq_ok {α β : Type} {x : Except Error α} {f : α → β} {b : β} (h : x.map f = Except.ok b) :
    ∃ a, x = Except.ok a ∧ f a = b := by
  cases x with
  | error e => cases h
  | ok a => exact ⟨a, rfl, Except.ok.inj h⟩

theorem DevToScraper.getArticles_spec (items : List DevToScraper.Item) :
    (DevToScraper.getArticles (some items)).map Article.id =
      (sortDescending DevToScraper.Item.reactions (items.filter DevToScraper.Item.qualifies)).map
        DevToScraper.Item.idText ∧
    ∀ article ∈ DevToScraper.getArticles (some items), article.source = DevToScraper.sourceName := by
  rw [DevToScraper.getArticles]
  refine ⟨by rw [List.map_map]; rfl, fun article harticle => ?_⟩
  obtain ⟨item, -, rfl⟩ := List.mem_map.1 harticle
  rfl

/-- Stack Overflow: the questions with a score high enough, in falling order of it, under its
name. -/
theorem StackOverflowScraper.getArticles_spec {questions : List StackOverflowScraper.Question} {articles : List Article}
    (h : StackOverflowScraper.getArticles (some questions) = Except.ok articles) :
    articles.map Article.id =
      (sortDescending StackOverflowScraper.Question.scoreOrZero
        (questions.filter StackOverflowScraper.Question.qualifies)).map StackOverflowScraper.Question.idText ∧
    ∀ article ∈ articles, article.source = StackOverflowScraper.sourceName := by
  refine mapM_articles (fun question article hmade => ?_) h
  obtain ⟨created_at, -, rfl⟩ := map_eq_ok hmade
  exact ⟨rfl, rfl⟩

/-- GeekNews: the entries of the feed, under its name. -/
theorem GeekNewsScraper.getArticles_source {dateParse : String → Option ℤ} {items : Option (List FeedItem)}
    {articles : List Article} (h : GeekNewsScraper.getArticles dateParse items = Except.ok articles) :
    ∀ article ∈ articles, article.source = GeekNewsScraper.sourceName := by
  cases items with
  | none =>
    cases h
    exact fun article harticle => by cases harticle
  | some items =>
    refine (mapM_articles (fun item article hmade => ?_) h :
      articles.map Article.id = items.map (fun item => GeekNewsScraper.extractTopicId item.rawLink) ∧ _).2
    obtain ⟨created_at, -, rfl⟩ := map_eq_ok hmade
    exact ⟨rfl, rfl⟩

namespace ScraperFactory

variable {ε : Type}

open Pipeline (OwnArticles)

/-- Every scraper lists articles of its own source, which is what the quota of a source rests
on. -/
theorem ownArticles_scraping (ext : Externals ε) (web : Web ε) : OwnArticles (scraping ext web) := by
  rintro scraper article ⟨env, articles, hlisted, hmem⟩
  replace hlisted : (getArticles web scraper env).outcome = Outcome.ret articles := hlisted
  rw [getArticles] at hlisted
  split at hlisted
  · next hsource =>
    obtain ⟨answer, -, hok⟩ := listing_ret hlisted
    obtain rfl := Except.ok.inj hok
    rw [hsource]
    cases answer with
    | none => cases hmem
    | some items => exact (DevToScraper.getArticles_spec items).2 article hmem
  split at hlisted
  · next hsource =>
    obtain ⟨answer, -, hok⟩ := listing_ret hlisted
    rw [hsource]
    exact GeekNewsScraper.getArticles_source hok article hmem
  split at hlisted
  · next hsource =>
    obtain ⟨answer, -, hok⟩ := listing_ret hlisted
    rw [hsource]
    cases answer with
    | none =>
      cases hok
      cases hmem
    | some questions => exact (StackOverflowScraper.getArticles_spec hok).2 article hmem
  · cases hlisted

/-- **Daily quota with the scrapers.** Whatever the sources answer, whatever jobs the queue hands
out and however the attempts come after one another, rows are only added, no two rows share a
source and source id, and on no day are more rows of a source added than were missing to the
target. -/
theorem scraped_within_quota {σ μ : Type} (queue : JobQueue.Service σ String String ScraperQueue.JobOptions μ)
    (ext : Externals ε) (web : Web ε) (cfg : PipelineConfig) (config : TrendQueueEventsListener.Config) (now : ℤ)
    (world : World ε) (q : σ) (as : List (ScraperQueue.Act μ)) (s : ScraperQueue.State ε σ)
    (h : (ScraperQueue.machine queue (scraping ext web) cfg config).run as (ScraperQueue.initial now world q) =
      some s) :
    ∃ inserted, s.rows = world.table.rows ++ inserted ∧
      (∀ source day, Pipeline.countOfDay inserted source day ≤
        cfg.TARGET_SAVE_COUNT - Pipeline.countOfDay world.table.rows source day) ∧
      (s.rows.map TechTrend.sourceKey).Nodup :=
  ScraperQueue.run_within_quota queue (scraping ext web) cfg config (ownArticles_scraping ext web) now world q as
    s h

/-- dev.to has one article that is liked enough, the others have none. -/
def oneLiked : Web Unit where
  devTo := fun env => ⟨Outcome.ret (some [⟨1, "first", "https://dev.to/1", none, some 12, some 1⟩,
    ⟨2, "second", "https://dev.to/2", none, some 3, some 1⟩]), 0, env⟩
  geekNews := fun env => ⟨Outcome.ret none, 0, env⟩
  stackOverflow := fun env => ⟨Outcome.throw "timeout", 0, env⟩
  dateParse := fun _ => none

/-- Two jobs of one day for dev.to: the first saves the article that is liked enough, and the
second finds the target met. -/
theorem scraped_within_quota_twoJobs :
    ∃ s, (ScraperQueue.machine ScraperQueue.jobLine (scraping ScraperQueue.answering oneLiked) Pipeline.oneWanted
        ⟨none, none, none⟩).run ScraperQueue.twoJobs (ScraperQueue.initial 0 Pipeline.newWorld ∅) = some s ∧
      s.rows.map TechTrend.sourceKey = [("dev.to", "1")] ∧
      ∃ inserted, s.rows = Pipeline.newWorld.table.rows ++ inserted ∧
        (∀ source day, Pipeline.countOfDay inserted source day ≤ Pipeline.oneWanted.TARGET_SAVE_COUNT -
          Pipeline.countOfDay Pipeline.newWorld.table.rows source day) ∧
        (s.rows.map TechTrend.sourceKey).Nodup := by
  have hrun : ((ScraperQueue.machine ScraperQueue.jobLine (scraping ScraperQueue.answering oneLiked)
      Pipeline.oneWanted ⟨none, none, none⟩).run ScraperQueue.twoJobs
        (ScraperQueue.initial 0 Pipeline.newWorld ∅)).map (fun s => s.rows.map TechTrend.sourceKey) = some [("dev.to", "1")] := by decide +kernel
  obtain ⟨s, hs, hrows⟩ := Option.map_eq_some_iff.1 hrun
  exact ⟨s, hs, hrows, scraped_within_quota ScraperQueue.jobLine ScraperQueue.answering oneLiked
    Pipeline.oneWanted ⟨none, none, none⟩ 0 Pipeline.newWorld ∅ ScraperQueue.twoJobs s hs⟩

end ScraperFactory

/-! ## The best first -/

section BestFirst

open Pipeline (Ordered newArticles newLines asksFor)

variable {ε ι : Type}

/-- The rows are those of some of the listed items, the best first and what ties as it was listed;
and for a new item that is better than one of them, the details were asked for. -/
def BestFirst (idText : ι → String) (key : ι → ℤ) (listed : List ι) (sourceName : String) (w w' : World ε)
    (inserted : List TechTrend) : Prop :=
  ∃ chosen : List ι, inserted.map (fun row => row.source_id) = chosen.map idText ∧
    chosen.Pairwise (fun a b => key b ≤ key a) ∧
    (∀ k, (chosen.filter fun item => key item = k).Sublist (listed.filter fun item => key item = k)) ∧
    ∀ item ∈ listed, (sourceName, idText item) ∉ w.table.rows.map TechTrend.sourceKey →
      ∀ other ∈ chosen, key other < key item → ∃ line ∈ newLines w w', asksFor (idText item) line

/-- The new articles of a listing that is made of items are those items whose ids the table
does not have. -/
theorem newArticles_ids {idText : ι → String} {sourceName : String} {table : TrendTable} {articles : List Article}
    {items : List ι} (h : articles.map Article.id = items.map idText) :
    (newArticles sourceName table articles).map Article.id =
      (items.filter fun item => !(table.rows.map TechTrend.sourceKey).contains (sourceName, idText item)).map
        idText := by
  have hfilter := congrArg (List.filter fun id => !(table.rows.map TechTrend.sourceKey).contains (sourceName, id)) h
  rw [List.filter_map, List.filter_map] at hfilter
  exact hfilter

/-- An attempt goes through sorted items from the first one on. What it has asked about is a
first part of the new ones, so whatever it inserts, all that is better has been asked for. -/
theorem bestFirst_of_done {idText : ι → String} {key : ι → ℤ} {listed : List ι} {sourceName : String}
    {w w' : World ε} {articles done : List Article} {inserted : List TechTrend}
    (hids : articles.map Article.id = (sortDescending key listed).map idText)
    (hdone : done <+: newArticles sourceName w.table articles)
    (hasked : ∀ article ∈ done, ∃ line ∈ newLines w w', asksFor article.id line)
    (hsub : (inserted.map fun row => row.source_id).Sublist (done.map Article.id)) :
    BestFirst idText key listed sourceName w w' inserted := by
  -- what is listed and not saved yet, best first
  let fresh := (sortDescending key listed).filter fun item =>
    !(w.table.rows.map TechTrend.sourceKey).contains (sourceName, idText item)
  have hsorted : fresh.Pairwise fun a b => key b ≤ key a := JsArray.pairwise_sortDescending.filter _
  have hprefix : done.map Article.id <+: fresh.map idText := by
    rw [← newArticles_ids hids]
    exact hdone.map _
  have htaken : done.map Article.id = (fresh.take done.length).map idText := by
    rw [List.map_take, ← List.length_map (f := Article.id)]
    exact List.prefix_iff_eq_take.1 hprefix
  rw [htaken] at hsub
  -- the inserted rows come from the items gone through, in their order
  obtain ⟨chosen, hchosen, hinserted⟩ := List.sublist_map_iff.1 hsub
  have hsorted' : chosen.Sublist (sortDescending key listed) :=
    (hchosen.trans (List.take_sublist _ _)).trans List.filter_sublist
  refine ⟨chosen, hinserted, JsArray.pairwise_sortDescending.sublist hsorted', fun k => ?_,
    fun item hitem hnew other hother hlt => ?_⟩
  · rw [← JsArray.sortDescending_stable listed k]
    exact hsorted'.filter _
  -- an item behind those that were gone through is no better than any of them
  · have hfresh : item ∈ fresh := by
      refine List.mem_filter.2 ⟨JsArray.sortDescending_perm.mem_iff.2 hitem, ?_⟩
      rw [Bool.not_eq_true', ← Bool.not_eq_true, List.contains_iff_mem]
      exact hnew
    have htake : item ∈ fresh.take done.length := by
      by_contra hbehind
      rw [← List.take_append_drop done.length fresh] at hsorted hfresh
      have hdrop := (List.mem_append.1 hfresh).resolve_left hbehind
      have hle := (List.pairwise_append.1 hsorted).2.2 other (hchosen.subset hother) item hdrop
      omega
    have hid : idText item ∈ done.map Article.id := by
      rw [htaken]
      exact List.mem_map_of_mem htake
    obtain ⟨article, harticle, hsame⟩ := List.mem_map.1 hid
    rw [← hsame]
    exact hasked article harticle

variable (ext : Externals ε) (web : Web ε) (cfg : PipelineConfig)

/-- **The best first.** However an attempt for dev.to or Stack Overflow ends, the rows that it
inserts are of items of the answer that it got, namely of those that are liked enough, in falling
order of their reactions or scores and in the order of the answer where these tie; and no item
gets a row unless the attempt asks for the details of every new one that is better. -/
theorem saves_best_first (w : World ε) :
    (∃ inserted, (Pipeline.executeScraperByName (ScraperFactory.scraping ext web) cfg DevToScraper.sourceName
        w).2.table.rows = w.table.rows ++ inserted ∧ (inserted = [] ∨ ∃ items,
      (web.devTo (ext.countSavedSince w.env).env).outcome = Outcome.ret (some items) ∧
      BestFirst DevToScraper.Item.idText DevToScraper.Item.reactions (items.filter DevToScraper.Item.qualifies)
        DevToScraper.sourceName w (Pipeline.executeScraperByName (ScraperFactory.scraping ext web) cfg
          DevToScraper.sourceName w).2 inserted)) ∧
    ∃ inserted, (Pipeline.executeScraperByName (ScraperFactory.scraping ext web) cfg StackOverflowScraper.sourceName
        w).2.table.rows = w.table.rows ++ inserted ∧ (inserted = [] ∨ ∃ questions,
      (web.stackOverflow (ext.countSavedSince w.env).env).outcome = Outcome.ret (some questions) ∧
      BestFirst StackOverflowScraper.Question.idText StackOverflowScraper.Question.scoreOrZero
        (questions.filter StackOverflowScraper.Question.qualifies) StackOverflowScraper.sourceName w
        (Pipeline.executeScraperByName (ScraperFactory.scraping ext web) cfg StackOverflowScraper.sourceName w).2
        inserted) := by
  constructor
  · obtain ⟨inserted, hrows, hnone | ⟨articles, done, hlisted, hdone, hasked, hsub⟩⟩ :=
      Pipeline.executeScraperByName_ordered (ScraperFactory.scraping ext web) cfg DevToScraper.sourceName w
    · exact ⟨inserted, hrows, Or.inl hnone⟩
    refine ⟨inserted, hrows, ?_⟩
    replace hlisted : (ScraperFactory.listing (web.devTo (ext.countSavedSince w.env).env) fun answer =>
        Except.ok (DevToScraper.getArticles answer)).outcome = Outcome.ret articles := hlisted
    obtain ⟨answer, hanswer, hok⟩ := ScraperFactory.listing_ret hlisted
    obtain rfl := Except.ok.inj hok
    cases answer with
    | none =>
      -- no array, so nothing is listed
      left
      have hnil : done = [] := List.prefix_nil.1 hdone
      rw [hnil] at hsub
      exact List.map_eq_nil_iff.1 (List.sublist_nil.1 hsub)
    -- the listing sorts what qualifies, and the attempt inserts a part of it in that order
    | some items =>
      exact Or.inr ⟨items, hanswer,
        bestFirst_of_done (DevToScraper.getArticles_spec items).1 hdone hasked hsub⟩
  · obtain ⟨inserted, hrows, hnone | ⟨articles, done, hlisted, hdone, hasked, hsub⟩⟩ :=
      Pipeline.executeScraperByName_ordered (ScraperFactory.scraping ext web) cfg StackOverflowScraper.sourceName w
    · exact ⟨inserted, hrows, Or.inl hnone⟩
    refine ⟨inserted, hrows, ?_⟩
    replace hlisted : (ScraperFactory.listing (web.stackOverflow (ext.countSavedSince w.env).env)
        StackOverflowScraper.getArticles).outcome = Outcome.ret articles := hlisted
    obtain ⟨answer, hanswer, hok⟩ := ScraperFactory.listing_ret hlisted
    cases answer with
    | none =>
      left
      cases hok
      have hnil : done = [] := List.prefix_nil.1 hdone
      rw [hnil] at hsub
      exact List.map_eq_nil_iff.1 (List.sublist_nil.1 hsub)
    | some questions =>
      exact Or.inr ⟨questions, hanswer,
        bestFirst_of_done (StackOverflowScraper.getArticles_spec hok).1 hdone hasked hsub⟩

end BestFirst

end TechTrends
