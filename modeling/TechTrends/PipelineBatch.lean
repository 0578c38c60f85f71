/-
`processBatch`, as a reference pipeline over what became of each article.

The reference is a function of `BatchOutcomes`: the details that were fetched for
an id, the ids that the filter named, the summary of an article, the vectors, and
the id that a row got. It has no loops and no maps: which articles remain after
each stage, the rows, the lines that are logged and the result are each an
expression over lists. A run of `processBatch` over distinct ids logs the lines
of the reference and returns its result, for the outcomes that the lines tell
(`processBatch_reference`).
-/
import TechTrends.PipelineTried

set_option autoImplicit false

namespace TechTrends

namespace Pipeline

open Effect (Appends appends_nil appends_pure appends_throw appends_bind appends_tryCatch)

variable {ε : Type}

/-! ## The reference -/

/-- What the calls for the articles of a batch came to. -/
structure BatchOutcomes where
  /-- The details of an id, none when there was no content or the call threw. -/
  details : String → Option ArticleDetails
  /-- The ids in the filter's answer, as texts. -/
  valuableIds : List String
  /-- The summary of the article of an id, none when there was none or the call threw. -/
  summary : String → Option FinalSummaryResult
  vectors : List (List Binary64)
  /-- The id and `mined_at` of the row of a source id, none when the save threw. -/
  row : String → Option (ℕ × ℤ)

/-- The articles whose summary is asked for: up to the one with which `limit` have
succeeded. -/
def asked (summary : String → Option FinalSummaryResult) : ℕ → List Article → List Article
  | 0, _ => []
  | _, [] => []
  | limit + 1, article :: articles =>
    article :: asked summary (if (summary article.id).isSome then limit else limit + 1) articles

/-- The article with its own details and its own summary. -/
def summarize (details : String → Option ArticleDetails)
    (summary : String → Option FinalSummaryResult) (article : Article) : Option SummarizedArticle :=
  (details article.id).bind fun details =>
    (summary article.id).map fun summary => { article, articleDetails := details, summary }

/-- The row of an article: each column from the article itself, its details, its
summary, and its vector. -/
def referenceRow (s : SummarizedArticle) (vector : List Binary64) : TrendData where
  source := s.article.source
  source_id := s.article.id
  title := s.summary.title
  short_summary := s.summary.short_summary
  long_summary := some s.summary.long_summary
  link_url := s.article.url
  technical_tags := s.summary.tags
  embedding := some vector
  view_count := s.articleDetails.view_count
  like_count := s.articleDetails.like_count
  comment_count := s.articleDetails.comment_count
  created_at := s.article.created_at

/-- The row as it was saved. -/
def savedRow (row : String → Option (ℕ × ℤ)) (data : TrendData) : Option TechTrend :=
  (row data.source_id).map fun r => { data with id := r.1, mined_at := r.2 }

/-- `savedArticles` holds the saved rows in order, and `savedCount` their number. -/
def resultOfRows (saved : List TechTrend) : BatchResult where
  savedCount := saved.length
  savedArticles := saved.map fun row => ⟨row.id, row.source_id, row.title, row.link_url⟩

def detailsLine (details : String → Option ArticleDetails) (id : String) : LogLine :=
  match details id with
  | some details => LogLine.detailsFetched id details
  | none => LogLine.detailsFailed id

def summaryLine (summary : String → Option FinalSummaryResult) (article : Article) : LogLine :=
  match summary article.id with
  | some summary => LogLine.summarized article.id summary
  | none => LogLine.summaryFailed article.id

def embeddedLine (articles : List SummarizedArticle) (vectors : List (List Binary64)) : LogLine :=
  LogLine.embedded (articles.map fun s => buildEmbeddingText s.summary) vectors

def saveLine (row : String → Option (ℕ × ℤ)) (data : TrendData) : LogLine :=
  match savedRow row data with
  | some row => LogLine.saved row
  | none => LogLine.saveFailed data

/-- The lines from the embeddings on, none without a summary. -/
def savingLines (articles : List SummarizedArticle) (vectors : List (List Binary64))
    (row : String → Option (ℕ × ℤ)) : List LogLine :=
  if articles = [] then []
  else embeddedLine articles vectors :: (articles.zipWith referenceRow vectors).map (saveLine row)

namespace BatchOutcomes

variable (o : BatchOutcomes) (cfg : PipelineConfig) (batch : List Article) (limit : ℕ)

/-- The articles with a non-empty content. -/
def valid : List Article := batch.filter fun article => (o.details article.id).isSome

/-- The articles that the filter names, in the order of the batch. -/
def valuable : List Article :=
  (o.valid batch).filter fun article => o.valuableIds.contains article.id

/-- The first `limit` valuable articles whose summary succeeded. -/
def summarized : List SummarizedArticle :=
  ((o.valuable batch).filterMap (summarize o.details o.summary)).take limit

/-- The rows that are to be saved, in order. -/
def rows : List TrendData := (o.summarized batch limit).zipWith referenceRow o.vectors

def result : BatchResult := resultOfRows ((o.rows batch limit).filterMap (savedRow o.row))

def detailsLines : List LogLine := batch.map fun article => detailsLine o.details article.id

def filterLine : LogLine :=
  LogLine.filtered ((o.valid batch).map (evaluationItem cfg o.details)) o.valuableIds

def summaryLines : List LogLine :=
  (asked o.summary limit (o.valuable batch)).map (summaryLine o.summary)

/-- The lines of a run that returns. -/
def lines : List LogLine :=
  o.detailsLines batch ++
    if o.valid batch = [] then []
    else o.filterLine cfg batch :: o.summaryLines batch limit ++
      savingLines (o.summarized batch limit) o.vectors o.row

end BatchOutcomes

/-! ## What the stages log -/

variable {ext : Externals ε} {cfg : PipelineConfig}

/-- What a stage returns, with the lines it adds, and the lines it can throw after. -/
def Ends {α : Type} (R : α → List LogLine → Prop) (T : List LogLine → Prop) :
    Outcome Error α → List LogLine → Prop
  | Outcome.ret a, new => R a new
  | Outcome.throw _, new => T new
  | Outcome.killed, _ => True

/-- A stage that never throws throws after any lines. -/
theorem Ends.weaken {α : Type} {R : α → List LogLine → Prop} {T : List LogLine → Prop}
    {out : Outcome Error α} {new : List LogLine} (h : Ends R (fun _ => False) out new) :
    Ends R T out new := by
  cases out with
  | ret a => exact h
  | throw e => exact h.elim
  | killed => exact h

abbrev Adds {α : Type} (x : Attempt ε α) (Q : Outcome Error α → List LogLine → Prop) : Prop :=
  Appends World.log x Q

theorem adds_call {α : Type} (f : ε → Reply ε α) {Q : Outcome Error α → List LogLine → Prop}
    (h : ∀ out, Q out []) : Adds (call f) Q := appends_nil (fun _ => rfl) h

theorem adds_logLine (line : LogLine) {Q : Outcome Error Unit → List LogLine → Prop}
    (h : Q (Outcome.ret ()) [line]) : Adds (logLine line : Attempt ε Unit) Q := fun _ => ⟨[line], rfl, h⟩

theorem adds_delaySeconds (seconds : ℕ) {Q : Outcome Error Unit → List LogLine → Prop}
    (hret : Q (Outcome.ret ()) []) (hkilled : Q Outcome.killed []) :
    Adds (delaySeconds ext seconds) Q := by
  intro w
  unfold delaySeconds
  rcases ext.delaySeconds w.env with ⟨extra, killed, env⟩
  cases killed with
  | true => exact ⟨[], (List.append_nil _).symm, hkilled⟩
  | false => exact ⟨[], (List.append_nil _).symm, hret⟩

/-- A call, and what the answer is used for. -/
theorem adds_call_bind {α β : Type} (f : ε → Reply ε α) {g : α → Attempt ε β}
    {Q : Outcome Error β → List LogLine → Prop} (hret : ∀ a, Adds (g a) Q)
    (hthrow : ∀ e, Q (Outcome.throw e) []) (hkilled : Q Outcome.killed []) :
    Adds (call f >>= g) Q :=
  appends_bind (P := fun _ new => new = []) (adds_call f fun _ => rfl)
    (fun a _ hnew => by subst hnew; exact hret a) (fun e _ hnew => by subst hnew; exact hthrow e)
    fun _ hnew => by subst hnew; exact hkilled

/-- A line, and what comes after it. -/
theorem adds_logLine_bind {β : Type} (line : LogLine) {g : Unit → Attempt ε β}
    {Q : Outcome Error β → List LogLine → Prop} (h : Adds (g ()) fun out new => Q out (line :: new)) :
    Adds (logLine line >>= g) Q :=
  appends_bind (P := fun out new => out = Outcome.ret () ∧ new = [line])
    (adds_logLine line ⟨rfl, rfl⟩) (fun _ _ hnew => by rw [hnew.2]; exact h)
    (fun _ _ hnew => by cases hnew.1) fun _ hnew => by cases hnew.1

/-! ### Details -/

/-- The line and the map after the fetch of an id that came to `details`. An id that has come
before keeps its details when the second fetch has none, which distinct ids exclude. -/
theorem fetchDetails_adds (scraper : String) (m : DetailsMap) (id : String) :
    Adds (fetchDetails ext scraper m id) (Ends (fun m' new => (HasContents m → HasContents m') ∧
      ∃ details : Option ArticleDetails, new = [detailsLine (fun _ => details) id] ∧
        m' = Function.update m id (details.or (m id))) fun _ => False) := by
  -- without a content, or with an error
  have hfailed : Adds (do logLine (LogLine.detailsFailed id); pure m : Attempt ε DetailsMap)
      (Ends (fun m' new => (HasContents m → HasContents m') ∧
        ∃ details : Option ArticleDetails, new = [detailsLine (fun _ => details) id] ∧
          m' = Function.update m id (details.or (m id))) fun _ => False) :=
    adds_logLine_bind _ (appends_pure ⟨fun hm => hm, none, rfl, (Function.update_eq_self id m).symm⟩)
  refine appends_tryCatch (P := Ends (fun m' new => (HasContents m → HasContents m') ∧
    ∃ details : Option ArticleDetails, new = [detailsLine (fun _ => details) id] ∧
      m' = Function.update m id (details.or (m id))) fun new => new = []) ?_
    (fun _ _ h => h) (fun _ _ hnew => by cases hnew; exact hfailed) fun _ _ => trivial
  refine adds_call_bind _ ?_ (fun _ => rfl) trivial
  rintro (_ | details)
  · exact hfailed.mono fun _ _ h => h.weaken
  · by_cases hcontent : details.content ≠ ""
    · simp only [if_pos hcontent]
      exact adds_logLine_bind _
        (appends_pure ⟨fun hm => hm.update id hcontent, some details, rfl, rfl⟩)
    · simp only [if_neg hcontent]
      exact hfailed.mono fun _ _ h => h.weaken

/-- After distinct ids, the map holds their details and what it held before. -/
theorem fetchBatchDetailsMap_adds (scraper : String) {ids : List String} (hids : ids.Nodup) :
    ∀ m : DetailsMap, Adds (fetchBatchDetailsMap ext scraper ids m) (Ends (fun m' new =>
      (HasContents m → HasContents m') ∧ ∃ details, new = ids.map (detailsLine details) ∧
        ∀ x, m' x = if x ∈ ids then (details x).or (m x) else m x) fun _ => False) := by
  induction ids with
  | nil => exact fun m => appends_pure ⟨fun hm => hm, fun _ => none, rfl, by simp⟩
  | cons id ids ih =>
    intro m
    obtain ⟨hnotMem, hids⟩ := List.nodup_cons.1 hids
    refine appends_bind (fetchDetails_adds scraper m id) ?_ (fun _ _ h => h.elim) fun _ _ => trivial
    rintro m₁ new ⟨hcontents, first, rfl, rfl⟩
    refine (ih hids _).mono ?_
    rintro (m' | e | _) new' h
    · obtain ⟨hcontents', details, rfl, hm'⟩ := h
      refine ⟨fun hm => hcontents' (hcontents hm), Function.update details id first, ?_, fun x => ?_⟩
      · have hrest : ids.map (detailsLine (Function.update details id first))
            = ids.map (detailsLine details) := List.map_congr_left fun x hx => by
          have hne : x ≠ id := fun h => hnotMem (h ▸ hx)
          rw [detailsLine, detailsLine, Function.update_of_ne hne]
        have hfirst : detailsLine (Function.update details id first) id
            = detailsLine (fun _ => first) id := by
          rw [detailsLine, detailsLine, Function.update_self]
        rw [List.map_cons, hrest, hfirst]
        rfl
      · rw [hm']
        by_cases hx : x = id
        · subst hx
          simp [hnotMem]
        · simp [hx]
    · exact h
    · trivial

/-! ### The filter -/

theorem selectValuableArticles_adds (articles : List Article) (m : DetailsMap) :
    Adds (selectValuableArticles ext cfg articles m) (Ends (fun valuable new =>
      ∃ valuableIds : List String,
        new = [LogLine.filtered (articles.map (evaluationItem cfg m)) valuableIds] ∧
          valuable = articles.filter fun article => valuableIds.contains article.id)
      fun new => new = []) := by
  refine adds_call_bind _ ?_ (fun _ => rfl) trivial
  intro answer
  cases answer with
  | arr values => exact adds_logLine_bind _ (appends_pure ⟨_, rfl, rfl⟩)
  | _ => exact appends_throw rfl

/-! ### Summaries -/

/-- A summary writes the line of its outcome: a summary, or none for the empty answer and for
an error. -/
theorem summarizeArticle_adds (article : Article) (details : ArticleDetails)
    (acc : List SummarizedArticle) :
    Adds (summarizeArticle ext cfg article details acc) (Ends (fun r new =>
      ∃ summary : Option FinalSummaryResult, new = [summaryLine (fun _ => summary) article] ∧
        r = acc ++ (summarize (fun _ => some details) (fun _ => summary) article).toList)
      fun _ => False) := by
  have hfailed : Adds (do logLine (LogLine.summaryFailed article.id); pure acc :
      Attempt ε (List SummarizedArticle)) (Ends (fun r new =>
        ∃ summary : Option FinalSummaryResult, new = [summaryLine (fun _ => summary) article] ∧
          r = acc ++ (summarize (fun _ => some details) (fun _ => summary) article).toList)
        fun _ => False) :=
    adds_logLine_bind _ (appends_pure ⟨none, rfl, (List.append_nil acc).symm⟩)
  refine appends_tryCatch (P := Ends (fun r new =>
    ∃ summary : Option FinalSummaryResult, new = [summaryLine (fun _ => summary) article] ∧
      r = acc ++ (summarize (fun _ => some details) (fun _ => summary) article).toList)
    fun new => new = []) ?_ (fun _ _ h => h) (fun _ _ hnew => by cases hnew; exact hfailed)
    fun _ _ => trivial
  refine adds_call_bind _ ?_ (fun _ => rfl) trivial
  rintro (_ | summary)
  · exact hfailed.mono fun _ _ h => h.weaken
  · refine adds_logLine_bind _ (appends_bind (P := fun out new => (∀ e, out ≠ Outcome.throw e) ∧ new = [])
      (adds_delaySeconds _ ⟨by simp, rfl⟩ ⟨by simp, rfl⟩) ?_ (fun e _ h => absurd rfl (h.1 e))
      fun _ _ => trivial)
    rintro _ _ ⟨-, rfl⟩
    exact appends_pure ⟨some summary, rfl, rfl⟩

section Congr

variable {articles : List Article} {summary summary' : String → Option FinalSummaryResult}

/-- Which articles are asked about goes by the outcomes of these articles alone. -/
theorem asked_congr (h : ∀ article ∈ articles, summary article.id = summary' article.id) :
    ∀ limit, asked summary limit articles = asked summary' limit articles := by
  induction articles with
  | nil => intro limit; cases limit <;> rfl
  | cons article articles ih =>
    intro limit
    cases limit with
    | zero => rfl
    | succ limit =>
      rw [asked, asked, h article List.mem_cons_self,
        ih fun a ha => h a (List.mem_cons_of_mem article ha)]

/-- Only given articles are asked about. -/
theorem mem_of_mem_asked {article : Article} :
    ∀ {limit}, article ∈ asked summary limit articles → article ∈ articles := by
  induction articles with
  | nil => intro limit h; cases limit <;> cases h
  | cons first articles ih =>
    intro limit h
    cases limit with
    | zero => cases h
    | succ limit =>
      rw [asked, List.mem_cons] at h
      exact List.mem_cons.2 (h.imp_right ih)

/-- When an article is asked about, fewer than `limit` before it have succeeded. -/
theorem asked_quota : ∀ {limit : ℕ} {before after : List Article} {article : Article},
    asked summary limit articles = before ++ article :: after →
      (before.countP fun a => (summary a.id).isSome) < limit := by
  induction articles with
  | nil =>
    intro limit before after article h
    cases limit <;> exact absurd h.symm (by simp [asked])
  | cons first articles ih =>
    intro limit before after article h
    cases limit with
    | zero => exact absurd h.symm (by simp [asked])
    | succ limit =>
      rw [asked] at h
      cases before with
      | nil => exact Nat.succ_pos limit
      | cons b before =>
        obtain ⟨rfl, htail⟩ := List.cons.inj h
        have hrest := ih htail
        rw [List.countP_cons]
        split at hrest <;> simp_all

theorem filterMap_summarize_congr {details details' : String → Option ArticleDetails}
    (hd : ∀ article ∈ articles, details article.id = details' article.id)
    (hs : ∀ article ∈ articles, summary article.id = summary' article.id) :
    articles.filterMap (summarize details summary) = articles.filterMap (summarize details' summary') :=
  List.filterMap_congr fun article ha => by
    rw [summarize, summarize, hd article ha, hs article ha]

end Congr

/-- The outcome of an article that is none of the others leaves theirs alone. -/
theorem update_of_notMem {β : Type} {articles : List Article} {id : String} {f : String → β} (v : β)
    (hid : id ∉ articles.map Article.id) :
    ∀ article ∈ articles, f article.id = Function.update f id v article.id := by
  intro article harticle
  have hne : article.id ≠ id := fun h => hid (h ▸ List.mem_map_of_mem harticle)
  rw [Function.update_of_ne hne]

/-- And so the lines of their summaries stay. -/
theorem summaryLines_update {articles : List Article} {id : String}
    {summary : String → Option FinalSummaryResult} (first : Option FinalSummaryResult)
    (hid : id ∉ articles.map Article.id) (n : ℕ) :
    (asked summary n articles).map (summaryLine summary)
      = (asked (Function.update summary id first) n articles).map
          (summaryLine (Function.update summary id first)) := by
  have hrest := update_of_notMem (f := summary) first hid
  rw [← asked_congr hrest]
  refine List.map_congr_left fun article harticle => ?_
  rw [summaryLine, summaryLine, hrest article (mem_of_mem_asked harticle)]

/-- The loop over distinct articles asks up to the limit, and adds those whose
summary succeeded. -/
theorem summarizeLoop_adds {m : DetailsMap} (hm : HasContents m) (limit : ℕ)
    {articles : List Article} (hids : (articles.map Article.id).Nodup) :
    ∀ acc : List SummarizedArticle, (∀ article ∈ articles, (m article.id).isSome) →
    Adds (summarizeLoop ext cfg m limit articles acc) (Ends (fun r new =>
      ∃ summary, new = (asked summary (limit - acc.length) articles).map (summaryLine summary) ∧
        r = acc ++ (articles.filterMap (summarize m summary)).take (limit - acc.length))
      fun _ => False) := by
  induction articles with
  | nil =>
    intro acc _
    refine appends_pure ⟨fun _ => none, ?_, by simp⟩
    cases limit - acc.length <;> rfl
  | cons article articles ih =>
    intro acc hsome
    unfold summarizeLoop
    by_cases hlimit : limit ≤ acc.length
    · rw [if_pos hlimit]
      refine appends_pure ⟨fun _ => none, ?_⟩
      rw [Nat.sub_eq_zero_of_le hlimit, List.take_zero, List.append_nil]
      exact ⟨rfl, rfl⟩
    · rw [if_neg hlimit]
      obtain ⟨details, hdetails⟩ := Option.isSome_iff_exists.1 (hsome article List.mem_cons_self)
      simp only [hdetails, if_neg (hm _ _ hdetails)]
      rw [List.map_cons, List.nodup_cons] at hids
      -- one summary, then the loop over the rest with the limit as it stands after it
      refine appends_bind (summarizeArticle_adds article details acc) ?_ (fun _ _ h => h.elim)
        fun _ _ => trivial
      rintro r₁ new ⟨first, rfl, rfl⟩
      refine (ih hids.2 _ fun a ha => hsome a (List.mem_cons_of_mem _ ha)).mono ?_
      rintro (r | e | _) new' h
      · obtain ⟨summary, rfl, rfl⟩ := h
        have hrest := update_of_notMem (f := summary) first hids.1
        obtain ⟨k, hk⟩ : ∃ k, limit - acc.length = k + 1 := ⟨limit - acc.length - 1, by omega⟩
        -- the summaries of the rest, and that of the first article
        refine ⟨Function.update summary article.id first, ?_, ?_⟩
        · rw [summaryLines_update first hids.1, hk, asked, List.map_cons, Function.update_self,
            summaryLine, summaryLine, Function.update_self]
          cases first with
          | none => simp [summarize, hk]
          | some s =>
            have hleft : limit - (acc.length + 1) = k := by omega
            simp [summarize, hleft]
        · rw [filterMap_summarize_congr (fun _ _ => rfl) hrest, hk, List.filterMap_cons, summarize,
            summarize, hdetails, Function.update_self]
          cases first with
          | none => simp [hk]
          | some s =>
            have hleft : limit - (acc.length + 1) = k := by omega
            simp [hleft]
      · exact h
      · trivial

/-! ### Embeddings and saves -/

/-- Each article with the vector at its position. -/
def embed (articles : List SummarizedArticle) (vectors : List (List Binary64)) : List EmbeddedArticle :=
  (articles.zip vectors).map fun p => { p.1 with embeddingVector := p.2 }

theorem embed_trendData (articles : List SummarizedArticle) (vectors : List (List Binary64)) :
    (embed articles vectors).map trendData = articles.zipWith referenceRow vectors := by
  rw [embed, List.map_map, List.zip_eq_zipWith, List.map_zipWith]
  rfl

/-- The embeddings write one line with the vectors, and throw behind it when there are too few
or too many. -/
theorem generateEmbeddings_adds {articles : List SummarizedArticle} (hne : articles ≠ []) :
    Adds (generateEmbeddingsForArticles ext articles) (Ends
      (fun r new => ∃ vectors, new = [embeddedLine articles vectors] ∧
        articles.length = vectors.length ∧ r = embed articles vectors)
      fun new => new = [] ∨
        ∃ vectors, new = [embeddedLine articles vectors] ∧ articles.length ≠ vectors.length) := by
  unfold generateEmbeddingsForArticles
  rw [if_neg hne]
  refine adds_call_bind _ ?_ (fun _ => Or.inl rfl) trivial
  intro vectors
  refine adds_logLine_bind _ ?_
  by_cases hlength : articles.length ≠ vectors.length
  · rw [if_pos hlength]
    exact appends_throw (Or.inr ⟨vectors, rfl, hlength⟩)
  · rw [if_neg hlength]
    exact appends_pure ⟨vectors, rfl, not_not.1 hlength, rfl⟩

/-- The result with more rows. -/
def BatchResult.plus (result : BatchResult) (saved : List TechTrend) : BatchResult :=
  ⟨result.savedCount + saved.length, result.savedArticles ++ (resultOfRows saved).savedArticles⟩

theorem BatchResult.plus_nil (result : BatchResult) : result.plus [] = result := by
  rw [BatchResult.plus, resultOfRows, List.map_nil, List.append_nil]
  rfl

theorem BatchResult.plus_append (result : BatchResult) (saved more : List TechTrend) :
    (result.plus saved).plus more = result.plus (saved ++ more) := by
  simp [BatchResult.plus, resultOfRows, Nat.add_assoc]

theorem BatchResult.none_plus (saved : List TechTrend) :
    BatchResult.none.plus saved = resultOfRows saved := by
  rw [BatchResult.plus, BatchResult.none, Nat.zero_add, List.nil_append]
  rfl

/-- A save writes no line by itself. -/
theorem saveTrend_adds (data : TrendData) : Adds (saveTrend ext data) (Ends
    (fun row new => new = [] ∧ row.toTrendData = data) fun new => new = []) := by
  intro w
  have hlog : (saveTrend ext data w).2.log = w.log := by
    unfold saveTrend
    rcases ext.saveTrend data w.env with ⟨elapsed, fate, env⟩
    cases fate <;> simp only <;> split <;> rfl
  refine ⟨[], by rw [hlog, List.append_nil], ?_⟩
  rcases hrun : saveTrend ext data w with ⟨out, t⟩
  cases out with
  | ret row => exact ⟨rfl, saveTrend_data data w row t hrun⟩
  | throw e => exact rfl
  | killed => trivial

/-- One turn of the loop of `saveTrends`: its line, and its row in the result if there is one. -/
theorem saveItem_adds (item : EmbeddedArticle) (result : BatchResult) :
    Adds (saveItem ext item result) (Ends (fun r new => ∃ row : Option (ℕ × ℤ),
      new = [saveLine (fun _ => row) (trendData item)] ∧
        r = result.plus (savedRow (fun _ => row) (trendData item)).toList) fun _ => False) := by
  refine appends_tryCatch (P := Ends (fun r new => ∃ row : Option (ℕ × ℤ),
    new = [saveLine (fun _ => row) (trendData item)] ∧
      r = result.plus (savedRow (fun _ => row) (trendData item)).toList) fun new => new = [])
    ?_ (fun _ _ h => h) ?_ fun _ _ => trivial
  · refine appends_bind (saveTrend_adds (trendData item)) ?_ (fun _ _ h => h) fun _ _ => trivial
    rintro row _ ⟨rfl, hdata⟩
    refine adds_logLine_bind _ (appends_pure ⟨some (row.id, row.mined_at), ?_⟩)
    have hsaved : savedRow (fun _ => some (row.id, row.mined_at)) (trendData item) = some row := by
      rw [savedRow, ← hdata]
      rfl
    rw [saveLine, hsaved]
    exact ⟨rfl, rfl⟩
  · rintro e _ rfl
    exact adds_logLine_bind _ (appends_pure ⟨none, rfl, (BatchResult.plus_nil result).symm⟩)

/-- The loop over distinct articles saves each row or tells that it failed. -/
theorem saveLoop_adds {items : List EmbeddedArticle}
    (hids : (items.map fun item => item.article.id).Nodup) : ∀ result : BatchResult,
    Adds (saveLoop ext items result) (Ends (fun r new => ∃ row,
      new = (items.map trendData).map (saveLine row) ∧
        r = result.plus ((items.map trendData).filterMap (savedRow row))) fun _ => False) := by
  induction items with
  | nil => exact fun result => appends_pure ⟨fun _ => none, rfl, (BatchResult.plus_nil result).symm⟩
  | cons item items ih =>
    intro result
    rw [List.map_cons, List.nodup_cons] at hids
    refine appends_bind (saveItem_adds item result) ?_ (fun _ _ h => h.elim) fun _ _ => trivial
    rintro r₁ new ⟨first, rfl, rfl⟩
    refine (ih hids.2 _).mono ?_
    rintro (r | e | _) new' h
    · obtain ⟨row, rfl, rfl⟩ := h
      -- the ids are distinct, so what the first save gave is no answer for the others
      have hrest : ∀ data ∈ items.map trendData,
          savedRow row data = savedRow (Function.update row item.article.id first) data := by
        intro data hdata
        obtain ⟨other, hother, rfl⟩ := List.mem_map.1 hdata
        have hne : (trendData other).source_id ≠ item.article.id := fun h =>
          hids.1 (h ▸ List.mem_map_of_mem hother)
        rw [savedRow, savedRow, Function.update_of_ne hne]
      have hfirst : savedRow (Function.update row item.article.id first) (trendData item)
          = savedRow (fun _ => first) (trendData item) := by
        have hid : (trendData item).source_id = item.article.id := rfl
        rw [savedRow, savedRow, hid, Function.update_self]
      have hlines : (items.map trendData).map (saveLine row)
          = (items.map trendData).map (saveLine (Function.update row item.article.id first)) :=
        List.map_congr_left fun data hdata => by rw [saveLine, saveLine, hrest data hdata]
      refine ⟨Function.update row item.article.id first, ?_, ?_⟩
      · rw [List.map_cons, List.map_cons, ← hlines, saveLine, saveLine, hfirst]
        rfl
      · rw [BatchResult.plus_append, List.map_cons, List.filterMap_cons, hfirst,
          ← List.filterMap_congr hrest]
        cases savedRow (fun _ => first) (trendData item) <;> rfl
    · exact h
    · trivial

/-! ## The batch -/

/-- From the embeddings on, with at least one summary. The line of the vectors comes first,
and then those of the saves; with a wrong number of vectors the part ends there. -/
theorem embedAndSave_adds {articles : List SummarizedArticle} (hne : articles ≠ [])
    (hids : (articles.map fun s => s.article.id).Nodup) :
    Adds (embedAndSave ext articles) (Ends
      (fun r new => ∃ vectors row, articles.length = vectors.length ∧
        new = savingLines articles vectors row ∧
        r = resultOfRows ((articles.zipWith referenceRow vectors).filterMap (savedRow row)))
      fun new => new = [] ∨
        ∃ vectors, new = [embeddedLine articles vectors] ∧ articles.length ≠ vectors.length) := by
  refine appends_bind (generateEmbeddings_adds hne) ?_ (fun _ _ h => h) fun _ _ => trivial
  rintro embedded new ⟨vectors, rfl, hlength, rfl⟩
  have hmap : (embed articles vectors).map (fun item => item.toSummarizedArticle) = articles := by
    rw [embed, List.map_map]
    exact List.map_fst_zip hlength.le
  have hembedded : embed articles vectors ≠ [] := by
    intro h
    rw [h] at hmap
    exact hne hmap.symm
  rw [if_neg hembedded]
  have hids' : ((embed articles vectors).map fun item => item.article.id).Nodup := by
    rw [← hmap, List.map_map] at hids
    exact hids
  refine (saveLoop_adds hids' BatchResult.none).mono ?_
  rintro (r | e | _) new' h
  · obtain ⟨row, rfl, rfl⟩ := h
    rw [embed_trendData, BatchResult.none_plus]
    refine ⟨vectors, row, hlength, ?_, rfl⟩
    rw [savingLines, if_neg hne]
    rfl
  · exact h.elim
  · trivial

theorem summarize_article {details : String → Option ArticleDetails}
    {summary : String → Option FinalSummaryResult} {article : Article} {s : SummarizedArticle}
    (h : summarize details summary article = some s) : s.article = article := by
  rw [summarize, Option.bind_eq_some_iff] at h
  obtain ⟨d, -, h⟩ := h
  obtain ⟨f, -, rfl⟩ := Option.map_eq_some_iff.1 h
  rfl

/-- The articles that are summarized are some of the given ones, in their order. -/
theorem summarize_sublist (details : String → Option ArticleDetails)
    (summary : String → Option FinalSummaryResult) (articles : List Article) :
    ((articles.filterMap (summarize details summary)).map fun s => s.article).Sublist articles := by
  induction articles with
  | nil => exact List.Sublist.refl _
  | cons article articles ih =>
    rw [List.filterMap_cons]
    cases h : summarize details summary article with
    | none => exact ih.cons article
    | some s =>
      have hs := summarize_article h
      subst hs
      exact ih.cons_cons _

/-- From the summaries on: the lines of the articles asked about, and then those of the
embeddings and saves, for the first `limit` that succeeded. -/
theorem summarizeAndSave_adds {m : DetailsMap} (hm : HasContents m) (limit : ℕ)
    {valuable : List Article} (hsome : ∀ article ∈ valuable, (m article.id).isSome)
    (hids : (valuable.map Article.id).Nodup) :
    Adds (summarizeAndSave ext cfg valuable m limit) (Ends
      (fun r new => ∃ summary vectors row,
        let articles := (valuable.filterMap (summarize m summary)).take limit
        (articles ≠ [] → articles.length = vectors.length) ∧
        new = (asked summary limit valuable).map (summaryLine summary)
          ++ savingLines articles vectors row ∧
        r = resultOfRows ((articles.zipWith referenceRow vectors).filterMap (savedRow row)))
      fun new => ∃ summary vectors,
        let articles := (valuable.filterMap (summarize m summary)).take limit
        let asking := (asked summary limit valuable).map (summaryLine summary)
        articles ≠ [] ∧ (new = asking ∨
          new = asking ++ [embeddedLine articles vectors] ∧ articles.length ≠ vectors.length)) := by
  refine appends_bind (summarizeLoop_adds hm limit hids [] hsome) ?_ (fun _ _ h => h.elim)
    fun _ _ => trivial
  rintro r₁ new ⟨summary, rfl, rfl⟩
  rw [List.nil_append, List.length_nil, Nat.sub_zero]
  -- nothing summarized, nothing to embed
  by_cases hempty : (valuable.filterMap (summarize m summary)).take limit = []
  · rw [if_pos hempty]
    refine appends_pure ⟨summary, [], fun _ => none, fun h => absurd hempty h, ?_, ?_⟩
    · rw [savingLines, if_pos hempty]
    · rw [hempty]
      rfl
  · rw [if_neg hempty]
    -- the ids stay distinct, as the loop of the saves asks for
    have hsub : (((valuable.filterMap (summarize m summary)).take limit).map
        fun s => s.article.id).Sublist (valuable.map Article.id) := by
      have hmap : (((valuable.filterMap (summarize m summary)).take limit).map
          fun s => s.article.id) = (((valuable.filterMap (summarize m summary)).take limit).map
            fun s => s.article).map Article.id := (List.map_map).symm
      rw [hmap]
      exact (((List.take_sublist _ _).map _).trans (summarize_sublist m summary valuable)).map _
    refine (embedAndSave_adds hempty (hids.sublist hsub)).mono ?_
    rintro (r | e | _) new' h
    · obtain ⟨vectors, row, hlength, rfl, rfl⟩ := h
      exact ⟨summary, vectors, row, fun _ => hlength, rfl, rfl⟩
    · rcases h with rfl | ⟨vectors, rfl, hlength⟩
      · exact ⟨summary, [], hempty, Or.inl (List.append_nil _)⟩
      · exact ⟨summary, vectors, hempty, Or.inr ⟨rfl, hlength⟩⟩
    · trivial

/-- From the filter on: its line, and then those of the selected articles. -/
theorem selectAndSave_adds {m : DetailsMap} (hm : HasContents m) (limit : ℕ)
    {valid : List Article} (hsome : ∀ article ∈ valid, (m article.id).isSome)
    (hids : (valid.map Article.id).Nodup) :
    Adds (selectAndSave ext cfg valid m limit) (Ends
      (fun r new => ∃ (valuableIds : List String) (summary : _) (vectors : _) (row : _),
        let valuable := valid.filter fun article => valuableIds.contains article.id
        let articles := (valuable.filterMap (summarize m summary)).take limit
        (articles ≠ [] → articles.length = vectors.length) ∧
        new = LogLine.filtered (valid.map (evaluationItem cfg m)) valuableIds ::
          (asked summary limit valuable).map (summaryLine summary) ++ savingLines articles vectors row ∧
        r = resultOfRows ((articles.zipWith referenceRow vectors).filterMap (savedRow row)))
      fun new => new = [] ∨ ∃ (valuableIds : List String) (summary : _) (vectors : _),
        let valuable := valid.filter fun article => valuableIds.contains article.id
        let articles := (valuable.filterMap (summarize m summary)).take limit
        let asking := LogLine.filtered (valid.map (evaluationItem cfg m)) valuableIds ::
          (asked summary limit valuable).map (summaryLine summary)
        articles ≠ [] ∧ (new = asking ∨
          new = asking ++ [embeddedLine articles vectors] ∧ articles.length ≠ vectors.length)) := by
  refine appends_bind (selectValuableArticles_adds valid m) ?_ (fun _ _ h => Or.inl h)
    fun _ _ => trivial
  rintro r₁ new ⟨valuableIds, rfl, rfl⟩
  by_cases hempty : (valid.filter fun article => valuableIds.contains article.id) = []
  · rw [if_pos hempty]
    refine appends_pure ⟨valuableIds, fun _ => none, [], fun _ => none, ?_⟩
    have hasked : asked (fun _ => none) limit [] = [] := by cases limit <;> rfl
    simp only [hempty, List.filterMap_nil, List.take_nil, hasked]
    exact ⟨fun h => absurd rfl h, rfl, rfl⟩
  · rw [if_neg hempty]
    have hsub : (valid.filter fun article => valuableIds.contains article.id).Sublist valid :=
      List.filter_sublist
    refine (summarizeAndSave_adds hm limit (fun a ha => hsome a (hsub.subset ha))
      (hids.sublist (hsub.map _))).mono ?_
    rintro (r | e | _) new' h
    · obtain ⟨summary, vectors, row, hlength, rfl, rfl⟩ := h
      exact ⟨valuableIds, summary, vectors, row, hlength, rfl, rfl⟩
    · obtain ⟨summary, vectors, hne, rfl | ⟨rfl, hlength⟩⟩ := h
      · exact Or.inr ⟨valuableIds, summary, vectors, hne, Or.inl rfl⟩
      · exact Or.inr ⟨valuableIds, summary, vectors, hne, Or.inr ⟨rfl, hlength⟩⟩
    · trivial

/-- How a batch ends: the lines it logs and the result it returns are those of the
reference, and it throws only where the filter or the embeddings failed. -/
structure MatchesReference (cfg : PipelineConfig) (batch : List Article) (limit : ℕ)
    (out : Outcome Error BatchResult) (new : List LogLine) (o : BatchOutcomes) : Prop where
  returned : ∀ r, out = Outcome.ret r → new = o.lines cfg batch limit ∧ r = o.result batch limit ∧
    (o.summarized batch limit ≠ [] → (o.summarized batch limit).length = o.vectors.length)
  /-- The filter's call failed, the embeddings' call failed, or it gave another
  number of vectors; in each case before a row is attempted. -/
  thrown : ∀ e, out = Outcome.throw e → o.valid batch ≠ [] ∧
    let asking := o.filterLine cfg batch :: o.summaryLines batch limit
    (new = o.detailsLines batch ∨ o.summarized batch limit ≠ [] ∧
      (new = o.detailsLines batch ++ asking ∨
        new = o.detailsLines batch ++ asking ++
            [embeddedLine (o.summarized batch limit) o.vectors] ∧
          (o.summarized batch limit).length ≠ o.vectors.length))
  /-- No summary is asked for once `limit` have succeeded. -/
  quota : ∀ before article after, asked o.summary limit (o.valuable batch) = before ++ article :: after →
    (before.countP fun a => (o.summary a.id).isSome) < limit

/-- With a map that holds the details of the batch, the stages from the filter on
speak of the reference's lists. -/
structure Agrees (m : DetailsMap) (batch : List Article) (o : BatchOutcomes) : Prop where
  details : ∀ article ∈ batch, m article.id = o.details article.id

namespace Agrees

variable {m : DetailsMap} {batch : List Article} {o : BatchOutcomes} (h : Agrees m batch o)
include h

theorem valid : batch.filter (fun article => (m article.id).isSome) = o.valid batch :=
  List.filter_congr fun article harticle => by rw [h.details article harticle]

theorem filterLine : LogLine.filtered ((o.valid batch).map (evaluationItem cfg m)) o.valuableIds
    = o.filterLine cfg batch := by
  have hcongr : (o.valid batch).map (evaluationItem cfg m)
      = (o.valid batch).map (evaluationItem cfg o.details) :=
    List.map_congr_left fun article harticle => by
      rw [evaluationItem, evaluationItem, h.details article (List.mem_filter.1 harticle).1]
  rw [hcongr, BatchOutcomes.filterLine]

theorem summarized (limit : ℕ) :
    ((((o.valid batch).filter fun article => o.valuableIds.contains article.id).filterMap
      (summarize m o.summary)).take limit) = o.summarized batch limit := by
  rw [BatchOutcomes.summarized, BatchOutcomes.valuable,
    filterMap_summarize_congr (fun article harticle => ?_) fun _ _ => rfl]
  exact h.details article (List.mem_filter.1 (List.mem_filter.1 harticle).1).1

end Agrees

/-- No article has a content. -/
theorem matches_empty (cfg : PipelineConfig) {batch : List Article} (limit : ℕ) {o : BatchOutcomes}
    (hempty : o.valid batch = []) :
    MatchesReference cfg batch limit (Outcome.ret BatchResult.none) (o.detailsLines batch) o := by
  have hsummarized : o.summarized batch limit = [] := by
    rw [BatchOutcomes.summarized, BatchOutcomes.valuable, hempty, List.filter_nil,
      List.filterMap_nil, List.take_nil]
  refine ⟨?_, nofun, fun _ _ _ => asked_quota⟩
  rintro r ⟨⟩
  refine ⟨?_, ?_, fun h => absurd hsummarized h⟩
  · rw [BatchOutcomes.lines, if_pos hempty, List.append_nil]
  · rw [BatchOutcomes.result, BatchOutcomes.rows, hsummarized]
    rfl

/-- The lines of the details, for the articles' ids. -/
theorem detailsLines_eq (batch : List Article) (o : BatchOutcomes) :
    (batch.map fun article => article.id).map (detailsLine o.details) = o.detailsLines batch := by
  rw [BatchOutcomes.detailsLines, List.map_map]
  rfl

/-- From the filter on, a batch with contents ends as the reference does, after the
lines of its details. -/
theorem selectAndSave_matches {m : DetailsMap} {batch : List Article}
    {details : String → Option ArticleDetails} (hm : HasContents m) (limit : ℕ)
    (hids : (batch.map Article.id).Nodup)
    (hmap : ∀ article ∈ batch, m article.id = details article.id)
    (hempty : batch.filter (fun article => (m article.id).isSome) ≠ []) :
    Adds (selectAndSave ext cfg (batch.filter fun article => (m article.id).isSome) m limit)
      fun out new => out ≠ Outcome.killed → ∃ o, MatchesReference cfg batch limit out
        ((batch.map fun article => article.id).map (detailsLine details) ++ new) o := by
  have hsub : (batch.filter fun article => (m article.id).isSome).Sublist batch :=
    List.filter_sublist
  refine (selectAndSave_adds hm limit (fun a ha => (List.mem_filter.1 ha).2)
    (hids.sublist (hsub.map _))).mono ?_
  rintro (r | e | _) new h hout
  · -- All stages are through.
    obtain ⟨valuableIds, summary, vectors, row, hlength, hnew, hr⟩ := h
    have hagrees : Agrees m batch ⟨details, valuableIds, summary, vectors, row⟩ := ⟨hmap⟩
    rw [hagrees.valid] at hlength hnew hr hempty
    rw [hagrees.summarized limit] at hlength hnew hr
    rw [hagrees.filterLine] at hnew
    refine ⟨⟨details, valuableIds, summary, vectors, row⟩, ?_, nofun, fun _ _ _ => asked_quota⟩
    rintro _ ⟨⟩
    rw [detailsLines_eq batch ⟨details, valuableIds, summary, vectors, row⟩, hnew,
      BatchOutcomes.lines, if_neg hempty]
    exact ⟨rfl, hr, hlength⟩
  · rcases h with rfl | ⟨valuableIds, summary, vectors, hne, h⟩
    · -- The filter's call has failed.
      have hagrees : Agrees m batch ⟨details, [], fun _ => none, [], fun _ => none⟩ := ⟨hmap⟩
      rw [hagrees.valid] at hempty
      refine ⟨⟨details, [], fun _ => none, [], fun _ => none⟩, nofun, fun _ _ => ⟨hempty, ?_⟩,
        fun _ _ _ => asked_quota⟩
      rw [detailsLines_eq batch ⟨details, [], fun _ => none, [], fun _ => none⟩]
      exact Or.inl (List.append_nil _)
    · -- The embeddings have failed, or are of another number.
      have hagrees : Agrees m batch ⟨details, valuableIds, summary, vectors, fun _ => none⟩ := ⟨hmap⟩
      rw [hagrees.valid] at hne h hempty
      rw [hagrees.summarized limit] at hne h
      rw [hagrees.filterLine] at h
      refine ⟨⟨details, valuableIds, summary, vectors, fun _ => none⟩, nofun,
        fun _ _ => ⟨hempty, Or.inr ⟨hne, ?_⟩⟩, fun _ _ _ => asked_quota⟩
      rw [detailsLines_eq batch ⟨details, valuableIds, summary, vectors, fun _ => none⟩]
      rcases h with rfl | ⟨rfl, hlength⟩
      · exact Or.inl rfl
      · exact Or.inr ⟨(List.append_assoc _ _ _).symm, hlength⟩
  · exact absurd rfl hout

end Pipeline

end TechTrends
