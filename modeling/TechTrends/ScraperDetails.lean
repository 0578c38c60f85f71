/-
The details of an article: what the three scrapers make of the pages that they get.

dev.to and Stack Overflow answer with numbers; GeekNews only has them in the text of its page.
A page that cannot be had is no details, never an error. So the numbers of a saved row are those
that its source gave for the article, read as they stand there.
-/
import TechTrends.Keyword
import TechTrends.SavedRows
import TechTrends.Scrapers
import TechTrends.ToNumber

set_option autoImplicit false

namespace TechTrends

open JsString (Units utf16 isWhitespace trim)

/-! ## Requests -/

/-- Requests one after the other, with the time that they take. -/
abbrev Requests (ε α : Type) := Effect (ε × ℕ) Error α

section Requests

variable {ε α : Type}

def request (f : ε → Reply ε α) : Requests ε α := fun s =>
  let reply := f s.1
  (reply.outcome, (reply.env, s.2 + reply.elapsed))

/-- What the requests come to, as one call. -/
def Requests.reply (x : Requests ε α) (env : ε) : Reply ε α :=
  let (outcome, env, elapsed) := x (env, 0)
  { outcome, elapsed, env }

/-- `text?.trim()`, where an empty text counts as none. -/
def trimmed (text : Option String) : Option String :=
  (text.map fun t => String.ofList (trim t.toList)).filter (· ≠ "")

end Requests

/-! ## dev.to -/

namespace DevToScraper

/-- The answer about an article. -/
structure ArticleData where
  body_markdown : Option String
  positive_reactions_count : Option ℤ
  comments_count : Option ℤ

/-- `getArticleDetails`, once there is an answer. -/
def details (data : ArticleData) : Option ArticleDetails :=
  (trimmed data.body_markdown).map fun content =>
    { content
      view_count := none
      like_count := data.positive_reactions_count
      comment_count := data.comments_count }

end DevToScraper

/-! ## Stack Overflow -/

namespace StackOverflowScraper

/-- The answer about a question. -/
structure QuestionData where
  body : Option String
  view_count : Option ℤ
  score : Option ℤ
  answer_count : Option ℤ

/-- An answer to a question. -/
structure Answer where
  is_accepted : Bool
  body : Option String

def noAnswer : String := "등록된 답변이 없거나 유효한 답변이 없습니다."

/-- `answers.find((a) => a.is_accepted) || answers[0]`. -/
def targetAnswer (answers : List Answer) : Option Answer := (answers.find? Answer.is_accepted).or answers.head?

/-- The text of the accepted answer, or of the first one. -/
def bestAnswerText (answers : Option (List Answer)) : Units :=
  match ((targetAnswer (answers.getD [])).bind Answer.body).filter (· ≠ "") with
  | some body => stripHtml (utf16 body)
  | none => utf16 noAnswer

def formatContent (questionBody answerText : Units) : Units :=
  utf16 "[질문 또는 본문(Problem)]\n" ++ questionBody ++ utf16 "\n\n" ++
    (utf16 "[해결 답변 (Solution)]\n" ++ answerText)

/-- The details of a question whose body is not empty. -/
def details (question : QuestionData) (rawQuestionBody : String) (answerText : Units) : ArticleDetails where
  content := String.ofList (JsString.toWellFormed (formatContent (stripHtml (utf16 rawQuestionBody)) answerText))
  view_count := question.view_count
  like_count := question.score
  comment_count := question.answer_count

end StackOverflowScraper

/-! ## GeekNews -/

namespace GeekNewsScraper

/-- What is selected of a page: the text of the topic, and that of the body. -/
structure TopicPage where
  topic : String
  body : String

/-- The text behind a word, whatever its case. The word is given in small letters. -/
def afterWord (word : String) (cs : List Char) : Option (List Char) :=
  if word.toList.isPrefixOf (cs.map Char.toLower) then some (cs.drop word.toList.length) else none

def skipSpaces (cs : List Char) : List Char := cs.dropWhile isWhitespace

/-- The text behind `\s+`. -/
def afterSpaces (cs : List Char) : Option (List Char) :=
  if cs.head?.any isWhitespace then some (skipSpaces cs) else none

/-- `(\d+)` with a pattern behind it, at the start of a text. A number that gives a digit back
leaves that digit for the pattern behind, and neither of the two takes one. -/
def numberAt (follow : List Char → Bool) (cs : List Char) : Option (List Char) :=
  let digits := cs.takeWhile Char.isDigit
  if digits ≠ [] ∧ follow (cs.dropWhile Char.isDigit) = true then some digits else none

/-- The number of the first match of a pattern before the number and one behind it. -/
def firstNumber (lead : List Char → Option (List Char)) (follow : List Char → Bool) :
    List Char → Option (List Char)
  | [] => none
  | c :: cs => ((lead (c :: cs)).bind (numberAt follow)).or (firstNumber lead follow cs)

/-- `\s*P\s+by\s+GN\+?`. -/
def byGeekNews (cs : List Char) : Bool :=
  ((afterWord "p" (skipSpaces cs)).bind fun cs => (afterSpaces cs).bind fun cs => (afterWord "by" cs).bind fun cs =>
    (afterSpaces cs).bind (afterWord "gn")).isSome

/-- `댓글\s*`. -/
def commentsLead (cs : List Char) : Option (List Char) :=
  if "댓글".toList.isPrefixOf cs then some (skipSpaces (cs.drop 2)) else none

/-- `\s*개`. -/
def commentsFollow (cs : List Char) : Bool := "개".toList.isPrefixOf (skipSpaces cs)

/-- `match ? Number(match[1]) : 0`. There is no number past the greatest one. -/
def matchNumber (digits : Option (List Char)) : Option ℤ :=
  match digits with
  | none => some 0
  | some ds =>
    match JsNumber.toNumber (String.ofList ds) with
    | JsNumber.finite q => some q.num
    | _ => none

def extractPoints (pageText : List Char) : Option ℤ := matchNumber (firstNumber some byGeekNews pageText)

def extractCommentCount (pageText : List Char) : Option ℤ :=
  matchNumber (firstNumber commentsLead commentsFollow pageText)

/-- The text of the body, with single spaces. -/
def pageText (page : TopicPage) : List Char := trim (AiService.collapseSpaces page.body.toList)

/-- `getArticleDetails`, once there is a page. -/
def details (page : TopicPage) : Option ArticleDetails :=
  (trimmed (some page.topic)).map fun content =>
    { content
      view_count := none
      like_count := extractPoints (pageText page)
      comment_count := extractCommentCount (pageText page) }

/-- The number that is found first is a whole one, with the pattern behind it: the match
begins at the first digit of a number and takes all of its digits. By induction on the text. -/
theorem firstNumber_whole {follow : List Char → Bool} {cs digits : List Char}
    (h : firstNumber some follow cs = some digits) :
    ∃ before rest, cs = before ++ (digits ++ rest) ∧ digits ≠ [] ∧ follow rest = true ∧
      (∀ c ∈ digits, c.isDigit = true) ∧ (∀ c ∈ before.getLast?, c.isDigit = false) ∧
      ∀ c ∈ rest.head?, c.isDigit = false := by
  induction cs with
  | nil => cases h
  | cons c cs ih =>
    -- the first number stands here, or in the rest of the text
    rw [firstNumber, Option.bind_some] at h
    cases hat : numberAt follow (c :: cs) with
    | some found =>
      rw [hat, Option.some_or] at h
      obtain rfl := Option.some.inj h
      rw [numberAt] at hat
      split at hat
      · next hfound =>
        obtain rfl := Option.some.inj hat
        have hrest : ∀ d ∈ ((c :: cs).dropWhile Char.isDigit).head?, d.isDigit = false := by
          intro d hd
          have hnot := List.head?_dropWhile_not Char.isDigit (c :: cs)
          rw [Option.mem_def.1 hd] at hnot
          exact hnot
        exact ⟨[], _, List.takeWhile_append_dropWhile.symm, hfound.1, hfound.2,
          fun d => List.mem_takeWhile_imp, by simp, hrest⟩
      · cases hat
    | none =>
      rw [hat, Option.none_or] at h
      obtain ⟨before, rest, rfl, hne, hfollow, hdigits, hbefore, hrest⟩ := ih h
      refine ⟨c :: before, rest, rfl, hne, hfollow, hdigits, ?_, hrest⟩
      cases before with
      | cons b before =>
        rw [List.getLast?_cons_cons]
        exact hbefore
      | nil =>
        -- a digit before the number would have been found with it
        intro d hd
        obtain rfl : c = d := Option.some.inj hd
        by_contra hdigit
        rw [Bool.not_eq_false] at hdigit
        have htake : (digits ++ rest).takeWhile Char.isDigit = digits := by
          rw [List.takeWhile_append_of_pos hdigits]
          cases rest with
          | nil => simp
          | cons r rest => simp [hrest r rfl]
        have hdrop : (digits ++ rest).dropWhile Char.isDigit = rest := by
          rw [List.dropWhile_append_of_pos hdigits]
          cases rest with
          | nil => rfl
          | cons r rest => simp [hrest r rfl]
        rw [List.nil_append, numberAt, List.dropWhile_cons_of_pos hdigit, hdrop, List.takeWhile_cons_of_pos hdigit,
          if_pos ⟨List.cons_ne_nil _ _, hfollow⟩] at hat
        cases hat

/-- The points are none, or the whole number in front of `P by GN` as the page has it. None
are saved as 0. -/
theorem extractPoints_whole (text : List Char) : extractPoints text = some 0 ∨
    ∃ before digits rest, text = before ++ (digits ++ rest) ∧ digits ≠ [] ∧ byGeekNews rest = true ∧
      (∀ c ∈ digits, c.isDigit = true) ∧ (∀ c ∈ before.getLast?, c.isDigit = false) ∧
      extractPoints text = matchNumber (some digits) := by
  rw [extractPoints]
  cases hfirst : firstNumber some byGeekNews text with
  | none => exact Or.inl rfl
  | some digits =>
    obtain ⟨before, rest, htext, hne, hfollow, hdigits, hbefore, -⟩ := firstNumber_whole hfirst
    exact Or.inr ⟨before, digits, rest, htext, hne, hfollow, hdigits, hbefore, rfl⟩

end GeekNewsScraper

/-! ## The scrapers together -/

/-- The pages about an article. `pause` is what GeekNews waits before. -/
structure Pages (ε : Type) where
  devTo : String → ε → Reply ε (Option DevToScraper.ArticleData)
  question : String → ε → Reply ε (Option (List StackOverflowScraper.QuestionData))
  answers : String → ε → Reply ε (Option (List StackOverflowScraper.Answer))
  topic : String → ε → Reply ε (Option GeekNewsScraper.TopicPage)
  pause : ε → Reply ε Unit

section Details

variable {ε : Type} (pages : Pages ε)

namespace DevToScraper

def getArticleDetails (articleId : String) : Requests ε (Option ArticleDetails) :=
  Effect.tryCatch (do
    let data ← request (pages.devTo articleId)
    pure (data.bind details)) fun _ => pure none

end DevToScraper

namespace StackOverflowScraper

/-- A failed request for the answers leaves the question. -/
def getArticleDetails (articleId : String) : Requests ε (Option ArticleDetails) :=
  Effect.tryCatch (do
    let items ← request (pages.question articleId)
    match items.bind List.head? with
    | none => pure none
    | some question =>
      match trimmed question.body with
      | none => pure none
      | some rawQuestionBody => do
        let answerText ← Effect.tryCatch (do
          let answers ← request (pages.answers articleId)
          pure (bestAnswerText answers)) fun _ => pure (utf16 noAnswer)
        pure (some (details question rawQuestionBody answerText))) fun _ => pure none

end StackOverflowScraper

namespace GeekNewsScraper

def getArticleDetails (articleId : String) : Requests ε (Option ArticleDetails) :=
  Effect.tryCatch (do
    request pages.pause
    let page ← request (pages.topic articleId)
    pure (page.bind details)) fun _ => pure none

end GeekNewsScraper

/-- `getScraper(sourceName).getArticleDetails(articleId)`. -/
def ScraperFactory.getArticleDetails (sourceName articleId : String) : ε → Reply ε (Option ArticleDetails) :=
  if sourceName = DevToScraper.sourceName then (DevToScraper.getArticleDetails pages articleId).reply
  else if sourceName = GeekNewsScraper.sourceName then (GeekNewsScraper.getArticleDetails pages articleId).reply
  else if sourceName = StackOverflowScraper.sourceName then
    (StackOverflowScraper.getArticleDetails pages articleId).reply
  else fun env => ⟨Outcome.throw ("[ScraperFactory] 등록되지 않은 스크래퍼 소스입니다: " ++ sourceName), 0, env⟩

/-- The services around the pipeline, with the details of the three scrapers. -/
def ScraperFactory.detailing (ext : Externals ε) : Externals ε :=
  { ext with getArticleDetails := ScraperFactory.getArticleDetails pages }

/-- The details are made of what the source answered about the article. -/
inductive FromPage (articleId : String) : String → ArticleDetails → Prop
  | devTo {data : DevToScraper.ArticleData} {details : ArticleDetails}
      (hpage : Pipeline.Replies (pages.devTo articleId) (some data)) (hdetails : DevToScraper.details data = some details) :
      FromPage articleId DevToScraper.sourceName details
  | stackOverflow {question : StackOverflowScraper.QuestionData} {rest : List StackOverflowScraper.QuestionData}
      {raw : String} {answerText : Units} (hpage : Pipeline.Replies (pages.question articleId) (some (question :: rest)))
      (hraw : trimmed question.body = some raw)
      (hanswer : answerText = utf16 StackOverflowScraper.noAnswer ∨ ∃ answers,
        Pipeline.Replies (pages.answers articleId) answers ∧ answerText = StackOverflowScraper.bestAnswerText answers) :
      FromPage articleId StackOverflowScraper.sourceName (StackOverflowScraper.details question raw answerText)
  | geekNews {page : GeekNewsScraper.TopicPage} {details : ArticleDetails}
      (hpage : Pipeline.Replies (pages.topic articleId) (some page))
      (hdetails : GeekNewsScraper.details page = some details) :
      FromPage articleId GeekNewsScraper.sourceName details

end Details

/-! ## Where the numbers come from -/

section Rows

open Effect (Yields yields_pure yields_bind yields_tryCatch)
open Pipeline (Replies ListedBy Chosen summaryRequest newLines executeScraperByName savesFrom_executeScraperByName)

variable {ε : Type} {pages : Pages ε}

theorem yields_request {α : Type} (f : ε → Reply ε α) (s : ε × ℕ) : Yields (request f) s fun a _ => Replies f a :=
  fun _ _ h => ⟨s.1, (Prod.mk.inj h).1⟩

/-- What is caught is no details, and so says nothing. -/
theorem yields_orNone {x : Requests ε (Option ArticleDetails)} {s : ε × ℕ} {P : ArticleDetails → Prop}
    (h : Yields x s fun d _ => ∀ details ∈ d, P details) :
    Yields (Effect.tryCatch x fun _ => pure none) s fun d _ => ∀ details ∈ d, P details :=
  yields_tryCatch h fun _ _ _ => yields_pure fun _ hmem => by cases hmem

theorem devTo_fromPage (articleId : String) (s : ε × ℕ) :
    Yields (DevToScraper.getArticleDetails pages articleId) s fun d _ =>
      ∀ details ∈ d, FromPage pages articleId DevToScraper.sourceName details := by
  refine yields_orNone (yields_bind (yields_request _ _) fun data _ hpage => yields_pure fun details hmem => ?_)
  obtain ⟨data, rfl, hdetails⟩ := Option.bind_eq_some_iff.1 hmem
  exact FromPage.devTo hpage hdetails

theorem geekNews_fromPage (articleId : String) (s : ε × ℕ) :
    Yields (GeekNewsScraper.getArticleDetails pages articleId) s fun d _ =>
      ∀ details ∈ d, FromPage pages articleId GeekNewsScraper.sourceName details := by
  refine yields_orNone (yields_bind (yields_request _ _) fun _ _ _ => yields_bind (yields_request _ _)
    fun page _ hpage => yields_pure fun details hmem => ?_)
  obtain ⟨page, rfl, hdetails⟩ := Option.bind_eq_some_iff.1 hmem
  exact FromPage.geekNews hpage hdetails

/-- A failed request for the answers leaves the text that there are none. -/
theorem answerText_of (articleId : String) (s : ε × ℕ) :
    Yields (Effect.tryCatch (do
        let answers ← request (pages.answers articleId)
        pure (StackOverflowScraper.bestAnswerText answers)) fun _ => pure (utf16 StackOverflowScraper.noAnswer) :
        Requests ε Units) s
      fun answerText _ => answerText = utf16 StackOverflowScraper.noAnswer ∨
        ∃ answers, Replies (pages.answers articleId) answers ∧ answerText = StackOverflowScraper.bestAnswerText answers := by
  refine yields_tryCatch (yields_bind (yields_request _ _) fun answers _ hanswers => ?_) fun _ _ _ => ?_
  · exact yields_pure (Or.inr ⟨answers, hanswers, rfl⟩)
  · exact yields_pure (Or.inl rfl)

/-- Stack Overflow: the numbers of the question, and its text with that of the best answer, or
with the line that there is none. -/
theorem stackOverflow_fromPage (articleId : String) (s : ε × ℕ) :
    Yields (StackOverflowScraper.getArticleDetails pages articleId) s fun d _ =>
      ∀ details ∈ d, FromPage pages articleId StackOverflowScraper.sourceName details := by
  have hnone : ∀ t : ε × ℕ, Yields (pure none : Requests ε (Option ArticleDetails)) t fun d _ =>
      ∀ details ∈ d, FromPage pages articleId StackOverflowScraper.sourceName details :=
    fun t => yields_pure fun _ hmem => by cases hmem
  refine yields_orNone (yields_bind (yields_request _ _) fun items t hpage => ?_)
  cases items with
  | none => exact hnone t
  | some questions =>
    cases questions with
    | nil => exact hnone t
    | cons question rest =>
      show Yields (match trimmed question.body with | none => _ | some raw => _) t _
      cases hraw : trimmed question.body with
      | none => exact hnone t
      | some raw =>
        refine yields_bind (answerText_of articleId t) fun answerText _ hanswer => yields_pure fun details hmem => ?_
        obtain rfl := Option.some.inj hmem
        exact FromPage.stackOverflow hpage hraw hanswer

/-- Details of a scraper are made of the pages of its source. -/
theorem getArticleDetails_fromPage {sourceName articleId : String} {details : ArticleDetails}
    (h : Replies (ScraperFactory.getArticleDetails pages sourceName articleId) (some details)) :
    FromPage pages articleId sourceName details := by
  obtain ⟨env, h⟩ := h
  rw [ScraperFactory.getArticleDetails] at h
  split at h
  · next heq => exact heq ▸ devTo_fromPage articleId (env, 0) (some details) _ (Prod.ext h rfl) details rfl
  · split at h
    · next heq => exact heq ▸ geekNews_fromPage articleId (env, 0) (some details) _ (Prod.ext h rfl) details rfl
    · split at h
      · next heq => exact heq ▸ stackOverflow_fromPage articleId (env, 0) (some details) _ (Prod.ext h rfl) details rfl
      · cases h

/-- The points on a row are none, or the whole number in front of `P by GN` on a page about its
article. -/
def PointsAsWritten (pages : Pages ε) (row : TechTrend) : Prop :=
  ∃ page, Replies (pages.topic row.source_id) (some page) ∧ (row.like_count = some 0 ∨
    ∃ before digits rest, GeekNewsScraper.pageText page = before ++ (digits ++ rest) ∧ digits ≠ [] ∧
      GeekNewsScraper.byGeekNews rest = true ∧ (∀ c ∈ digits, c.isDigit = true) ∧
      (∀ c ∈ before.getLast?, c.isDigit = false) ∧ row.like_count = GeekNewsScraper.matchNumber (some digits))

/-- The points in a row of GeekNews stand in its page, as a whole number in front of `P by
GN`, or there are none and the row has 0. -/
theorem pointsAsWritten {row : TechTrend} {details : ArticleDetails}
    (h : FromPage pages row.source_id GeekNewsScraper.sourceName details) (hlike : row.like_count = details.like_count) :
    PointsAsWritten pages row := by
  obtain ⟨sourceName, hsource⟩ : ∃ sourceName, sourceName = GeekNewsScraper.sourceName := ⟨_, rfl⟩
  rw [← hsource] at h
  cases h with
  | devTo => exact absurd hsource (by decide)
  | stackOverflow => exact absurd hsource (by decide)
  | @geekNews page _ hpage hdetails =>
    obtain ⟨content, -, rfl⟩ := Option.map_eq_some_iff.1 hdetails
    refine ⟨page, hpage, ?_⟩
    rw [hlike]
    exact GeekNewsScraper.extractPoints_whole (GeekNewsScraper.pageText page)

/-- **What is saved of an article.** However an attempt ends, each row that it inserts is of one
article of the list it got. The attempt was told details of this article, which are those of the
source's own page about it; the numbers of the row are theirs, the filter was shown their text and
chose the article, and the summary in the row is what the attempt was told in answer to a request
with that text. -/
theorem scraped_rows_from_pages (ext : Externals ε) (pages : Pages ε) (cfg : PipelineConfig) (sourceName : String)
    (w : World ε) :
    let services := ScraperFactory.detailing pages ext
    let after := (executeScraperByName services cfg sourceName w).2
    ∃ inserted, after.table.rows = w.table.rows ++ inserted ∧ ∀ row ∈ inserted,
      (∃ article details summary, (∃ articles, ListedBy services sourceName w articles ∧ article ∈ articles) ∧
        row.source_id = article.id ∧ row.link_url = article.url ∧
        LogLine.detailsFetched row.source_id details ∈ newLines w after ∧
        FromPage pages row.source_id sourceName details ∧
        row.view_count = details.view_count ∧ row.like_count = details.like_count ∧
        row.comment_count = details.comment_count ∧
        Chosen services cfg (newLines w after) article details ∧
        LogLine.summarized row.source_id summary ∈ newLines w after ∧
        Replies (ext.summarizeContentWithAi (summaryRequest cfg article details)) (some summary) ∧
        row.title = summary.title ∧ row.short_summary = summary.short_summary ∧
        row.long_summary = some summary.long_summary ∧ row.technical_tags = summary.tags) ∧
      (sourceName = GeekNewsScraper.sourceName → PointsAsWritten pages row) := by
  intro services after
  obtain ⟨inserted, hrows, hfrom⟩ := (savesFrom_executeScraperByName services cfg sourceName w).2
  refine ⟨inserted, hrows, fun row hrow => ?_⟩
  obtain ⟨item, hlisted, hanswered, hdata⟩ := hfrom row hrow
  have hid : row.source_id = item.article.id := congrArg TrendData.source_id hdata
  have hpage : FromPage pages row.source_id sourceName item.articleDetails := by
    rw [hid]
    exact getArticleDetails_fromPage hanswered.details.replied
  have hlike : row.like_count = item.articleDetails.like_count := congrArg TrendData.like_count hdata
  have hdetails : LogLine.detailsFetched row.source_id item.articleDetails ∈ newLines w after :=
    hid ▸ hanswered.details.told
  have hsummary : LogLine.summarized row.source_id item.summary ∈ newLines w after := hid ▸ hanswered.summary
  refine ⟨⟨item.article, item.articleDetails, item.summary, hlisted, hid, congrArg TrendData.link_url hdata,
    hdetails, hpage, congrArg TrendData.view_count hdata, hlike, congrArg TrendData.comment_count hdata,
    hanswered.chosen, hsummary, hanswered.summarized, congrArg TrendData.title hdata, congrArg TrendData.short_summary hdata,
    congrArg TrendData.long_summary hdata, congrArg TrendData.technical_tags hdata⟩, ?_⟩
  rintro rfl
  exact pointsAsWritten hpage hlike

end Rows

end TechTrends
