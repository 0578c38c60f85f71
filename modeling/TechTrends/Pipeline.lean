/-
`TrendsPipelineService`: one attempt to collect the articles of a source.

An attempt is a program over a `World`: the clock, the table, and whatever the
scrapers, the AI and the database decide from (`env`), which is not specified.
Each call to them is answered by `Externals`: with a value or an error, or the
process is killed there; and some time passes. An `INSERT` that fails inserts
nothing, and the process may also be killed right after one that succeeded.

The log holds the lines of the logger that tell what happened to an article,
with the data they are about.
-/
import TechTrends.Effect
import TechTrends.TechTrend
import TechTrends.TextUtil

set_option autoImplicit false

namespace TechTrends

/-! ## Data -/

structure Article where
  id : String
  title : String
  url : String
  created_at : String
  source : String
deriving DecidableEq

structure ArticleDetails where
  content : String
  view_count : Option ℤ
  like_count : Option ℤ
  comment_count : Option ℤ
deriving DecidableEq

structure SavedArticleInfo where
  id : ℕ
  sourceId : String
  title : String
  url : String
deriving DecidableEq

structure ScrapeJobResult where
  sourceName : String
  savedCount : ℕ
  savedArticles : List SavedArticleInfo
deriving DecidableEq

structure BatchEvaluationItem where
  id : String
  title : String
  snippet : JsString.Units
deriving DecidableEq

structure SummarizeContentParams where
  title : String
  content : JsString.Units
deriving DecidableEq

structure FinalSummaryResult where
  title : String
  short_summary : List String
  long_summary : String
  tags : Option String
deriving DecidableEq

structure SummarizedArticle where
  article : Article
  articleDetails : ArticleDetails
  summary : FinalSummaryResult

structure EmbeddedArticle extends SummarizedArticle where
  embeddingVector : List Binary64

/-- The settings of the service. -/
structure PipelineConfig where
  TARGET_SAVE_COUNT : ℕ
  BATCH_SIZE : ℕ
  batchSize_pos : 0 < BATCH_SIZE
  AI_DELAY_SECONDS : ℕ
  TEXT_SNIPPET_LENGTH : ℕ
  TEXT_CONTENT_LENGTH : ℕ

/-! ## The world of an attempt -/

abbrev Error := String

/-- What the logger is told about the articles. -/
inductive LogLine
  | batchStarted (batch : List Article) (remainingQuota : ℕ)
  | detailsFetched (articleId : String) (details : ArticleDetails)
  | detailsFailed (articleId : String)
  | filtered (items : List BatchEvaluationItem) (valuableIds : List String)
  | summarized (articleId : String) (summary : FinalSummaryResult)
  | summaryFailed (articleId : String)
  | embedded (texts : List String) (vectors : List (List Binary64))
  | saved (row : TechTrend)
  | saveFailed (data : TrendData)
deriving DecidableEq

/-- `nextId` is the next value of the sequence of the id column. -/
structure World (ε : Type) where
  now : ℤ
  table : TrendTable
  nextId : ℕ
  env : ε
  log : List LogLine

/-- The answer to a call: how it ends, how long it takes, and what it leaves. -/
structure Reply (ε α : Type) where
  outcome : Outcome Error α
  elapsed : ℕ
  env : ε

/-- How the database takes an `INSERT`. -/
inductive SaveFate
  | answered
  | refused (e : Error)
  | killedBefore
  | killedAfter

/-- Everything outside of the service. A query of the table is answered from the
table; whether it is answered is decided here. The filter's answer is the JSON
value `parsed.valuable_ids || []`. -/
structure Externals (ε : Type) where
  countSavedSince : ε → Reply ε Unit
  findExistingSourceIds : ε → Reply ε Unit
  getArticles : String → ε → Reply ε (List Article)
  getArticleDetails : String → String → ε → Reply ε (Option ArticleDetails)
  filterBatchWithAi : List BatchEvaluationItem → ε → Reply ε Json
  summarizeContentWithAi : SummarizeContentParams → ε → Reply ε (Option FinalSummaryResult)
  vectorEmbeddingWithAi : List String → ε → Reply ε (List (List Binary64))
  /-- The part of a pause beyond its delay, and whether the process is killed in it. -/
  delaySeconds : ε → ℕ × Bool × ε
  saveTrend : TrendData → ε → ℕ × SaveFate × ε

abbrev Attempt (ε α : Type) := Effect (World ε) Error α

namespace Pipeline

variable {ε : Type} (ext : Externals ε) (cfg : PipelineConfig)

/-! ## Calls -/

/-- A call that does not touch the table. -/
def call {α : Type} (f : ε → Reply ε α) : Attempt ε α := fun w =>
  let reply := f w.env
  (reply.outcome, { w with now := w.now + reply.elapsed, env := reply.env })

def logLine (line : LogLine) : Attempt ε Unit :=
  Effect.modify fun w => { w with log := w.log ++ [line] }

/-- `countSavedSince`. -/
def countSavedSince (source : String) (sinceDate : ℤ) : Attempt ε ℕ := do
  call ext.countSavedSince
  Effect.reads fun w => w.table.countSavedSince source sinceDate

/-- `findExistingSourceIds`, which asks nothing when there are no ids. -/
def findExistingSourceIds (source : String) (sourceIds : List String) : Attempt ε (List String) :=
  if sourceIds = [] then pure []
  else do
    call ext.findExistingSourceIds
    Effect.reads fun w => w.table.findExistingSourceIds source sourceIds

def delaySeconds (seconds : ℕ) : Attempt ε Unit := fun w =>
  let (extra, killed, env) := ext.delaySeconds w.env
  let w := { w with now := w.now + seconds * 1000 + extra, env := env }
  if killed then (Outcome.killed, w) else (Outcome.ret (), w)

/-- `saveTrend`: the row gets the next id and the instant of the insertion. -/
def saveTrend (data : TrendData) : Attempt ε TechTrend := fun w =>
  let (elapsed, fate, env) := ext.saveTrend data w.env
  let w := { w with now := w.now + elapsed, env := env }
  let row : TechTrend := { data with id := w.nextId, mined_at := w.now }
  match fate with
  | SaveFate.refused e => (Outcome.throw e, w)
  | SaveFate.killedBefore => (Outcome.killed, w)
  | SaveFate.answered =>
    match w.table.insert row with
    -- The sequence moves on also when the unique key refuses the row.
    | none => (Outcome.throw (TrendTable.refusal row), { w with nextId := w.nextId + 1 })
    | some table => (Outcome.ret row, { w with table := table, nextId := w.nextId + 1 })
  | SaveFate.killedAfter =>
    match w.table.insert row with
    | none => (Outcome.killed, { w with nextId := w.nextId + 1 })
    | some table => (Outcome.killed, { w with table := table, nextId := w.nextId + 1 })

/-! ## Batches -/

/-- The loop of `chunkArray` from index `i` on. It moves on by the size, so that
as many turns as the array is long are enough for a positive size. -/
def chunkLoop {α : Type} (array : List α) (size : ℕ) : ℕ → ℕ → List (List α)
  | 0, _ => []
  | turns + 1, i =>
    if i < array.length then (array.drop i).take size :: chunkLoop array size turns (i + size)
    else []

/-- `chunkArray`, for a positive size. -/
def chunkArray {α : Type} (array : List α) (size : ℕ) : List (List α) :=
  chunkLoop array size array.length 0

/-! ## Details -/

/-- `Map<string, ArticleDetails>`. -/
abbrev DetailsMap := String → Option ArticleDetails

/-- The `try` block of the loop of `fetchBatchDetailsMap`. -/
def fetchDetailsTry (scraper : String) (articleDetailsMap : DetailsMap) (id : String) :
    Attempt ε DetailsMap := do
  let details ← call (ext.getArticleDetails scraper id)
  match details with
  | some details =>
    -- `details?.content` is falsy for no details and for an empty text.
    if details.content ≠ "" then do
      logLine (LogLine.detailsFetched id details)
      pure (Function.update articleDetailsMap id (some details))
    else do
      logLine (LogLine.detailsFailed id)
      pure articleDetailsMap
  | none => do
    logLine (LogLine.detailsFailed id)
    pure articleDetailsMap

/-- The body of the loop of `fetchBatchDetailsMap`. -/
def fetchDetails (scraper : String) (articleDetailsMap : DetailsMap) (id : String) :
    Attempt ε DetailsMap :=
  Effect.tryCatch (fetchDetailsTry ext scraper articleDetailsMap id) fun _ => do
    logLine (LogLine.detailsFailed id)
    pure articleDetailsMap

def fetchBatchDetailsMap (scraper : String) : List String → DetailsMap → Attempt ε DetailsMap
  | [], articleDetailsMap => pure articleDetailsMap
  | id :: articleIds, articleDetailsMap => do
    let articleDetailsMap ← fetchDetails ext scraper articleDetailsMap id
    fetchBatchDetailsMap scraper articleIds articleDetailsMap

/-! ## The AI filter -/

/-- The snippet that the filter is shown. -/
def evaluationItem (articleDetailsMap : DetailsMap) (article : Article) : BatchEvaluationItem :=
  { id := article.id
    title := article.title
    -- `?.content ?? ''`, although every article here has its details.
    snippet :=
      TextUtil.sanitizeAndFilter
        (JsString.utf16 (((articleDetailsMap article.id).map fun d => d.content).getD ""))
        cfg.TEXT_SNIPPET_LENGTH }

/-- `String(value)` of the elements of the answer. An answer that is no array has
no `map`, and the call of it throws. -/
def selectValuableArticles (articles : List Article) (articleDetailsMap : DetailsMap) :
    Attempt ε (List Article) := do
  let items := articles.map (evaluationItem cfg articleDetailsMap)
  let answer ← call (ext.filterBatchWithAi items)
  match answer with
  | Json.arr values => do
    let valuableIds := values.map Json.toText
    logLine (LogLine.filtered items valuableIds)
    -- The order is that of the batch, and ids that nobody asked about do nothing.
    pure (articles.filter fun article => valuableIds.contains article.id)
  | _ => Effect.throw "map is not a function"

/-! ## Summaries -/

/-- The `try` block of the loop of `summarizeArticles`. The article is pushed
before the pause, which never fails. -/
def summarizeTry (article : Article) (details : ArticleDetails)
    (summarizedArticles : List SummarizedArticle) : Attempt ε (List SummarizedArticle) := do
  let summary ← call (ext.summarizeContentWithAi
    { title := article.title
      content := TextUtil.sanitizeAndFilter (JsString.utf16 details.content)
        cfg.TEXT_CONTENT_LENGTH })
  match summary with
  | none => do
    logLine (LogLine.summaryFailed article.id)
    pure summarizedArticles
  | some summary => do
    logLine (LogLine.summarized article.id summary)
    delaySeconds ext cfg.AI_DELAY_SECONDS
    pure (summarizedArticles ++ [{ article, articleDetails := details, summary }])

def summarizeArticle (article : Article) (details : ArticleDetails)
    (summarizedArticles : List SummarizedArticle) : Attempt ε (List SummarizedArticle) :=
  Effect.tryCatch (summarizeTry ext cfg article details summarizedArticles) fun _ => do
    logLine (LogLine.summaryFailed article.id)
    pure summarizedArticles

/-- The loop of `summarizeArticles`, which stops once `limit` articles are
summarized. -/
def summarizeLoop (articleDetailsMap : DetailsMap) (limit : ℕ) :
    List Article → List SummarizedArticle → Attempt ε (List SummarizedArticle)
  | [], summarizedArticles => pure summarizedArticles
  | article :: articles, summarizedArticles =>
    if limit ≤ summarizedArticles.length then pure summarizedArticles
    else
      -- `continue`, without a call, where there is no text.
      match articleDetailsMap article.id with
      | none => summarizeLoop articleDetailsMap limit articles summarizedArticles
      | some details =>
        if details.content = "" then
          summarizeLoop articleDetailsMap limit articles summarizedArticles
        else do
          let summarizedArticles ← summarizeArticle ext cfg article details summarizedArticles
          summarizeLoop articleDetailsMap limit articles summarizedArticles

def summarizeArticles (articles : List Article) (articleDetailsMap : DetailsMap) (limit : ℕ) :
    Attempt ε (List SummarizedArticle) :=
  summarizeLoop ext cfg articleDetailsMap limit articles []

/-! ## Embeddings -/

def buildEmbeddingText (summary : FinalSummaryResult) : String :=
  -- `tags ?? ''`; the summary is a list, and the other two are texts.
  "\n".intercalate
    ["[제목]: " ++ summary.title, "[태그]: " ++ summary.tags.getD "",
      "[요약]: " ++ " ".intercalate summary.short_summary, "[상세]: " ++ summary.long_summary]

def generateEmbeddingsForArticles (articles : List SummarizedArticle) :
    Attempt ε (List EmbeddedArticle) :=
  if articles = [] then pure []
  else do
    let embeddingTexts := articles.map fun article => buildEmbeddingText article.summary
    let embeddingVectors ← call (ext.vectorEmbeddingWithAi embeddingTexts)
    logLine (LogLine.embedded embeddingTexts embeddingVectors)
    if articles.length ≠ embeddingVectors.length then
      Effect.throw ("[Pipeline] 임베딩 개수 불일치! (요청: " ++ toString articles.length ++
        "개, 응답: " ++ toString embeddingVectors.length ++ "개)")
    else
      -- Vector `index` belongs to article `index`.
      pure ((articles.zip embeddingVectors).map fun p => { p.1 with embeddingVector := p.2 })

/-! ## Saving -/

/-- The columns of a row to save. -/
def trendData (item : EmbeddedArticle) : TrendData :=
  { source := item.article.source
    source_id := item.article.id
    title := item.summary.title
    short_summary := item.summary.short_summary
    long_summary := some item.summary.long_summary
    link_url := item.article.url
    technical_tags := item.summary.tags
    embedding := some item.embeddingVector
    view_count := item.articleDetails.view_count
    like_count := item.articleDetails.like_count
    comment_count := item.articleDetails.comment_count
    created_at := item.article.created_at }

/-- `savedCount` and `savedArticles`. -/
structure BatchResult where
  savedCount : ℕ
  savedArticles : List SavedArticleInfo
deriving DecidableEq

def BatchResult.none : BatchResult := ⟨0, []⟩

/-- The `try` block of the loop of `saveTrends`. -/
def saveTry (item : EmbeddedArticle) (result : BatchResult) : Attempt ε BatchResult := do
  let savedEntity ← saveTrend ext (trendData item)
  -- Counted only once the row is there.
  logLine (LogLine.saved savedEntity)
  pure
    { savedCount := result.savedCount + 1
      savedArticles := result.savedArticles ++
        [{ id := savedEntity.id, sourceId := savedEntity.source_id,
           title := savedEntity.title, url := savedEntity.link_url }] }

/-- The body of the loop of `saveTrends`. -/
def saveItem (item : EmbeddedArticle) (result : BatchResult) : Attempt ε BatchResult :=
  Effect.tryCatch (saveTry ext item result) fun _ => do
    logLine (LogLine.saveFailed (trendData item))
    pure result

def saveLoop : List EmbeddedArticle → BatchResult → Attempt ε BatchResult
  | [], result => pure result
  | item :: articles, result => do
    let result ← saveItem ext item result
    saveLoop articles result

def saveTrends (articles : List EmbeddedArticle) : Attempt ε BatchResult :=
  saveLoop ext articles BatchResult.none

/-! ## A batch -/

def processBatch (batch : List Article) (scraper : String) (limit : ℕ) :
    Attempt ε BatchResult := do
  let articleIds := batch.map fun article => article.id
  let articleDetailsMap ← fetchBatchDetailsMap ext scraper articleIds fun _ => none
  let validArticles := batch.filter fun article => (articleDetailsMap article.id).isSome
  if validArticles = [] then pure BatchResult.none
  else do
    let valuableArticles ← selectValuableArticles ext cfg validArticles articleDetailsMap
    if valuableArticles = [] then pure BatchResult.none
    else do
      let summarizedArticles ← summarizeArticles ext cfg valuableArticles articleDetailsMap limit
      if summarizedArticles = [] then pure BatchResult.none
      else do
        let embeddedArticles ← generateEmbeddingsForArticles ext summarizedArticles
        if embeddedArticles = [] then pure BatchResult.none
        else saveTrends ext embeddedArticles

/-! ## A source -/

/-- The loop of `processSource` over the batches, with `newlySavedCount` and
`savedArticles`. -/
def batchLoop (scraper : String) (savedBaseline : ℕ) :
    List (List Article) → BatchResult → Attempt ε BatchResult
  | [], sofar => pure sofar
  | batch :: batches, sofar =>
    let totalSoFar := savedBaseline + sofar.savedCount
    -- `break`
    if cfg.TARGET_SAVE_COUNT ≤ totalSoFar then pure sofar
    else do
      let remainingQuota := cfg.TARGET_SAVE_COUNT - totalSoFar
      logLine (LogLine.batchStarted batch remainingQuota)
      let batchResult ← processBatch ext cfg batch scraper remainingQuota
      batchLoop scraper savedBaseline batches
        { savedCount := sofar.savedCount + batchResult.savedCount
          savedArticles := sofar.savedArticles ++ batchResult.savedArticles }

def excludeExistingArticles (articles : List Article) (sourceName : String) :
    Attempt ε (List Article) := do
  let sourceIds := articles.map fun article => article.id
  let existingIds ← findExistingSourceIds ext sourceName sourceIds
  pure (articles.filter fun article => !existingIds.contains article.id)

/-- The `try` block of `processSource`. -/
def processArticles (scraper : String) (savedBaseline : ℕ) : Attempt ε ScrapeJobResult := do
  let articles ← call (ext.getArticles scraper)
  if articles = [] then pure ⟨scraper, 0, []⟩
  else do
    let newArticles ← excludeExistingArticles ext articles scraper
    if newArticles = [] then pure ⟨scraper, 0, []⟩
    else do
      let batches := chunkArray newArticles cfg.BATCH_SIZE
      let result ← batchLoop ext cfg scraper savedBaseline batches BatchResult.none
      pure ⟨scraper, result.savedCount, result.savedArticles⟩

def processSource (scraper : String) : Attempt ε ScrapeJobResult := do
  -- The day is that of the start of the attempt.
  let sinceDate ← Effect.reads fun w => getTodayStartUtc w.now
  let savedBaseline ← countSavedSince ext scraper sinceDate
  if cfg.TARGET_SAVE_COUNT ≤ savedBaseline then pure ⟨scraper, 0, []⟩
  else processArticles ext cfg scraper savedBaseline

/-- The names under which `ScraperFactory` has scrapers. -/
def allSourceNames : List String := ["dev.to", "geeknews", "stackoverflow"]

def executeScraperByName (sourceName : String) : Attempt ε ScrapeJobResult :=
  if allSourceNames.contains sourceName then processSource ext cfg sourceName
  else Effect.throw ("[ScraperFactory] 등록되지 않은 스크래퍼 소스입니다: " ++ sourceName)

end Pipeline

end TechTrends
