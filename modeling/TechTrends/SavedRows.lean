/-
Where the columns of a saved row come from.

An attempt asks the source and the AI about many articles, batch after batch, and any call can
fail. The answers of one article are never put together with those of another: the metrics, the
summary and the vector of a row are what was answered in this attempt about the article of the
row, which the filter was shown and chose.
-/
import TechTrends.PipelineOrder

set_option autoImplicit false

namespace TechTrends

namespace Pipeline

open Effect (Ensures Moves Yields yields_self yields_pure yields_throw yields_bind yields_tryCatch moves_pure
  moves_bind moves_bind_of)

variable {ε : Type} {ext : Externals ε} {cfg : PipelineConfig} {n : ℕ}

/-! ## Answers about an article -/

/-- The item that the filter is shown for an article with its details. -/
def shownItem (cfg : PipelineConfig) (article : Article) (details : ArticleDetails) : BatchEvaluationItem :=
  { id := article.id
    title := article.title
    snippet := TextUtil.sanitizeAndFilter (JsString.utf16 details.content) cfg.TEXT_SNIPPET_LENGTH }

/-- The details were told, are the answer about the article, and have a content. -/
structure DetailsTold (ext : Externals ε) (scraper : String) (lines : List LogLine) (id : String)
    (details : ArticleDetails) : Prop where
  told : LogLine.detailsFetched id details ∈ lines
  replied : Replies (ext.getArticleDetails scraper id) (some details)
  content : details.content ≠ ""

/-- The filter was shown the article with its text, and its answer names the article. -/
def Chosen (ext : Externals ε) (cfg : PipelineConfig) (lines : List LogLine) (article : Article)
    (details : ArticleDetails) : Prop :=
  ∃ items values, LogLine.filtered items (values.map Json.toText) ∈ lines ∧
    Replies (ext.filterBatchWithAi items) (Json.arr values) ∧ shownItem cfg article details ∈ items ∧
    article.id ∈ values.map Json.toText

/-- The vector stands in the answer where the text of the summary stands in the request. -/
def VectorTold (ext : Externals ε) (lines : List LogLine) (item : EmbeddedArticle) : Prop :=
  ∃ texts vectors, ∃ i : ℕ, LogLine.embedded texts vectors ∈ lines ∧
    Replies (ext.vectorEmbeddingWithAi texts) vectors ∧ texts.length = vectors.length ∧
    texts[i]? = some (buildEmbeddingText item.summary) ∧ vectors[i]? = some item.embeddingVector

/-- What an attempt is answered about an article: its details, the choice of the filter, the
summary and the vector. -/
structure Answered (ext : Externals ε) (cfg : PipelineConfig) (scraper : String) (lines : List LogLine)
    (item : EmbeddedArticle) : Prop where
  details : DetailsTold ext scraper lines item.article.id item.articleDetails
  chosen : Chosen ext cfg lines item.article item.articleDetails
  summary : LogLine.summarized item.article.id item.summary ∈ lines
  summarized : Replies (ext.summarizeContentWithAi (summaryRequest cfg item.article item.articleDetails))
    (some item.summary)
  vector : VectorTold ext lines item

section Mono

variable {scraper : String} {lines lines' : List LogLine} (hsub : lines ⊆ lines')

include hsub

theorem DetailsTold.mono {id : String} {details : ArticleDetails} (h : DetailsTold ext scraper lines id details) :
    DetailsTold ext scraper lines' id details := ⟨hsub h.told, h.replied, h.content⟩

theorem Chosen.mono {article : Article} {details : ArticleDetails} (h : Chosen ext cfg lines article details) :
    Chosen ext cfg lines' article details := by
  obtain ⟨items, values, hline, hchosen⟩ := h
  exact ⟨items, values, hsub hline, hchosen⟩

theorem VectorTold.mono {item : EmbeddedArticle} (h : VectorTold ext lines item) : VectorTold ext lines' item := by
  obtain ⟨texts, vectors, i, hline, hat⟩ := h
  exact ⟨texts, vectors, i, hsub hline, hat⟩

theorem Answered.mono {item : EmbeddedArticle} (h : Answered ext cfg scraper lines item) :
    Answered ext cfg scraper lines' item :=
  ⟨h.details.mono hsub, h.chosen.mono hsub, hsub h.summary, h.summarized, h.vector.mono hsub⟩

end Mono

theorem Logs.drop_subset {w w' : World ε} (h : Logs w w') (n : ℕ) : w.log.drop n ⊆ w'.log.drop n := by
  obtain ⟨lines, hlines⟩ := h
  rw [← hlines, List.drop_append]
  exact List.subset_append_left _ _

/-! ## The stages -/

/-- The details in the map were told. -/
def FromLines (ext : Externals ε) (scraper : String) (n : ℕ) (m : DetailsMap) (w : World ε) : Prop :=
  ∀ id details, m id = some details → DetailsTold ext scraper (w.log.drop n) id details

theorem FromLines.mono {scraper : String} {m : DetailsMap} {w w' : World ε} (h : FromLines ext scraper n m w)
    (hlog : Logs w w') : FromLines ext scraper n m w' := fun id details hm =>
  (h id details hm).mono (hlog.drop_subset n)

/-- The details that the map holds were answered for their own id, with a content. The map is
keyed by the id that was asked for, and not by anything in the answer. -/
theorem fetchDetails_fromLines (scraper : String) {m : DetailsMap} (id : String) {w : World ε}
    (hn : n ≤ w.log.length) (hm : FromLines ext scraper n m w) :
    Yields (fetchDetails ext scraper m id) w fun m' t => FromLines ext scraper n m' t := by
  have hfailed : ∀ t : World ε, FromLines ext scraper n m t →
      Yields (do logLine (LogLine.detailsFailed id); pure m) t fun m' t => FromLines ext scraper n m' t :=
    fun t ht => yields_bind ((logs_of_still (still_logLine _)).yields yields_self) fun _ _ h =>
      yields_pure (ht.mono h.1)
  have hlogs : Moves Logs (fetchDetailsTry ext scraper m id) := logs_of_still (still_fetchDetailsTry scraper m id)
  refine yields_tryCatch (yields_then (logs_of_still (still_call _)) hn (replies_call _ _) ?_) fun e t ht => ?_
  · rintro (_ | details) t ht hlog hreplied
    · exact hfailed t (hm.mono hlog)
    · by_cases h : details.content ≠ ""
      · simp only [if_pos h]
        refine yields_then (logs_of_still (still_logLine _)) ht (told_logLine ht _) ?_
        intro _ t' _ hlog' htold
        refine yields_pure fun x d hx => ?_
        by_cases hid : x = id
        · rw [hid, Function.update_self] at hx
          cases hx
          exact hid ▸ ⟨htold, hreplied, h⟩
        · rw [Function.update_of_ne hid] at hx
          exact hm.mono (trans_of Logs hlog hlog') x d hx
      · simp only [if_neg h]
        exact hfailed t (hm.mono hlog)
  · have hlog := hlogs w
    rw [ht] at hlog
    exact hfailed t (hm.mono hlog)

theorem fetchBatchDetailsMap_fromLines (scraper : String) (ids : List String) :
    ∀ (m : DetailsMap) (w : World ε), n ≤ w.log.length → FromLines ext scraper n m w →
      Yields (fetchBatchDetailsMap ext scraper ids m) w fun m' t => FromLines ext scraper n m' t := by
  induction ids with
  | nil => exact fun m w _ hm => yields_pure hm
  | cons id ids ih =>
    exact fun m w hn hm => yields_then (logs_of_still (still_fetchDetails _ _ _)) hn
      (fetchDetails_fromLines scraper id hn hm) fun m' t ht _ hm' => ih m' t ht hm'

/-- The articles that are selected were shown and chosen. -/
theorem selectValuableArticles_chosen (articles : List Article) (m : DetailsMap) {w : World ε}
    (hn : n ≤ w.log.length) :
    Yields (selectValuableArticles ext cfg articles m) w fun valuable t =>
      ∀ article ∈ valuable, article ∈ articles ∧ ∀ details, m article.id = some details →
        Chosen ext cfg (t.log.drop n) article details := by
  refine yields_then (logs_of_still (still_call _)) hn (replies_call _ _) ?_
  intro answer t ht _ hreplied
  cases answer with
  | arr values =>
    refine yields_bind (told_logLine ht _) fun _ t' htold => yields_pure fun article harticle => ?_
    obtain ⟨hmem, hid⟩ := List.mem_filter.1 harticle
    refine ⟨hmem, fun details hdetails => ⟨_, values, htold, hreplied, ?_, List.contains_iff_mem.1 hid⟩⟩
    have hshown : evaluationItem cfg m article = shownItem cfg article details := by
      rw [evaluationItem, hdetails]
      rfl
    rw [← hshown]
    exact List.mem_map_of_mem hmem
  | _ => exact yields_throw

/-- A vector stands where the text of its article stands. The texts go out in the order of the
articles, and the vectors are joined by index to these, when there are as many. -/
theorem generateEmbeddings_vectors (articles : List SummarizedArticle) {w : World ε} (hn : n ≤ w.log.length) :
    Yields (generateEmbeddingsForArticles ext articles) w fun r t =>
      ∀ item ∈ r, item.toSummarizedArticle ∈ articles ∧ VectorTold ext (t.log.drop n) item := by
  unfold generateEmbeddingsForArticles
  by_cases h : articles = []
  · rw [if_pos h]
    exact yields_pure fun item hitem => by cases hitem
  · rw [if_neg h]
    refine yields_then (logs_of_still (still_call _)) hn (replies_call _ _) fun vectors t ht _ hreplied => ?_
    refine yields_then (logs_of_still (still_logLine _)) ht (told_logLine ht _) fun _ t' _ _ htold => ?_
    by_cases hlen : articles.length ≠ vectors.length
    · rw [if_pos hlen]
      exact yields_throw
    · rw [if_neg hlen]
      refine yields_pure fun item hitem => ?_
      obtain ⟨⟨s, vector⟩, hpair, rfl⟩ := List.mem_map.1 hitem
      obtain ⟨i, hi⟩ := List.mem_iff_getElem?.1 hpair
      obtain ⟨hs, hvector⟩ := List.getElem?_zip_eq_some.1 hi
      refine ⟨List.mem_iff_getElem?.2 ⟨i, hs⟩, _, vectors, i, htold, hreplied, ?_, ?_, hvector⟩
      · rw [List.length_map]
        exact not_not.1 hlen
      · rw [List.getElem?_map, hs]
        rfl

/-! ## Rows -/

variable (ext cfg) in
/-- Rows are added, and each is of an article in `P` whose answers the lines from the `n`-th on
tell. -/
def RowsFrom (scraper : String) (n : ℕ) (P : Article → Prop) (w w' : World ε) : Prop :=
  ∃ inserted, w'.table.rows = w.table.rows ++ inserted ∧ ∀ row ∈ inserted, ∃ item : EmbeddedArticle,
    P item.article ∧ Answered ext cfg scraper (w'.log.drop n) item ∧ row.toTrendData = trendData item

section Rows

variable {scraper : String} {P : Article → Prop}

theorem Still.rowsFrom {w w' : World ε} (h : Still w w') : RowsFrom ext cfg scraper n P w w' :=
  ⟨[], by rw [h.table, List.append_nil], fun row hrow => by cases hrow⟩

theorem RowsFrom.after {w u t : World ε} (h : Still w u) (h' : RowsFrom ext cfg scraper n P u t) :
    RowsFrom ext cfg scraper n P w t := by
  rwa [RowsFrom, ← h.table]

/-- What the attempt knows of an article once it is summarized. -/
structure Known (ext : Externals ε) (cfg : PipelineConfig) (scraper : String) (n : ℕ) (w : World ε)
    (s : SummarizedArticle) : Prop where
  details : DetailsTold ext scraper (w.log.drop n) s.article.id s.articleDetails
  chosen : Chosen ext cfg (w.log.drop n) s.article s.articleDetails
  summary : SummaryTold ext cfg n w s

/-- From the embeddings on, each row is that of an article of which everything is known: it
was chosen, its details and its summary were told, and now its vector is. -/
theorem embedAndSave_rowsFrom (summarized : List SummarizedArticle) {w : World ε} (hn : n ≤ w.log.length)
    (hP : ∀ s ∈ summarized, P s.article) (hknown : ∀ s ∈ summarized, Known ext cfg scraper n w s) :
    RowsFrom ext cfg scraper n P w (embedAndSave ext summarized w).2 := by
  refine Moves.ensures_bind (Q := fun _ t => RowsFrom ext cfg scraper n P w t) (still_generateEmbeddings summarized)
    (generateEmbeddings_vectors summarized hn) ?_ (fun _ _ hs => hs.rowsFrom) fun _ hs => hs.rowsFrom
  intro embedded t hs hembedded
  by_cases hnone : embedded = []
  · rw [if_pos hnone]
    exact hs.rowsFrom
  rw [if_neg hnone]
  have hinserts : Moves (Inserts TechTrend.toTrendData (embedded.map trendData)) (saveTrends ext embedded) :=
    inserts_saveLoop embedded BatchResult.none
  obtain ⟨inserted, hrows, hdata⟩ := hinserts t
  have hlog : Logs t (saveTrends ext embedded t).2 := logs_saveLoop embedded BatchResult.none t
  refine RowsFrom.after hs ⟨inserted, hrows, fun row hrow => ?_⟩
  -- the row is of one of the items, and the lines about it stay
  obtain ⟨item, hitem, heq⟩ := List.mem_map.1 (hdata.subset (List.mem_map_of_mem hrow))
  obtain ⟨hmem, hvector⟩ := hembedded item hitem
  have hitemKnown := hknown _ hmem
  have hkept := trans_of Logs hs.log hlog
  have hsummary := hitemKnown.summary.mono hkept
  exact ⟨item, hP _ hmem,
    { details := hitemKnown.details.mono (hkept.drop_subset n)
      chosen := hitemKnown.chosen.mono (hkept.drop_subset n)
      summary := hsummary.told
      summarized := hsummary.replied
      vector := hvector.mono (hlog.drop_subset n) }, heq.symm⟩

/-- A batch inserts rows of its own articles, with what was answered about each of them. -/
theorem processBatch_rowsFrom (batch : List Article) (scraper : String) (limit : ℕ) {w : World ε}
    (hn : n ≤ w.log.length) : RowsFrom ext cfg scraper n (fun article => article ∈ batch) w
      (processBatch ext cfg batch scraper limit w).2 := by
  rw [processBatch_eq]
  refine Moves.ensures_bind (Q := fun _ t => RowsFrom ext cfg scraper n _ w t)
    (still_fetchBatchDetailsMap scraper _ _)
    (fetchBatchDetailsMap_fromLines scraper _ _ w hn fun id details h => by cases h) ?_
    (fun _ _ hs => hs.rowsFrom) fun _ hs => hs.rowsFrom
  intro m t hs hm
  by_cases hnone : batch.filter (fun article => (m article.id).isSome) = []
  · simp only [if_pos hnone]
    exact hs.rowsFrom
  simp only [if_neg hnone]
  -- the filter
  have ht := hn.trans hs.log.length_le
  refine Moves.ensures_bind (Q := fun _ t => RowsFrom ext cfg scraper n _ w t) (still_selectValuableArticles _ m)
    (selectValuableArticles_chosen _ m ht) ?_ (fun _ _ hs' => (trans_of Still hs hs').rowsFrom)
    fun _ hs' => (trans_of Still hs hs').rowsFrom
  intro valuable u hs' hchosen
  have hs₁ := trans_of Still hs hs'
  by_cases hnone : valuable = []
  · rw [if_pos hnone]
    exact hs₁.rowsFrom
  rw [if_neg hnone]
  -- the summaries
  have hu := hn.trans hs₁.log.length_le
  refine Moves.ensures_bind (Q := fun _ t => RowsFrom ext cfg scraper n _ w t)
    (still_summarizeLoop m limit valuable []) (summarizeLoop_added m limit valuable [] u hu) ?_
    (fun _ _ hs'' => (trans_of Still hs₁ hs'').rowsFrom) fun _ hs'' => (trans_of Still hs₁ hs'').rowsFrom
  rintro summarized v hs'' ⟨added, hadded, hsub, htold⟩
  obtain rfl : summarized = added := hadded
  have hs₂ := trans_of Still hs₁ hs''
  by_cases hnone : summarized = []
  · rw [if_pos hnone]
    exact hs₂.rowsFrom
  rw [if_neg hnone]
  have hvaluable : ∀ s ∈ summarized, s.article ∈ valuable := fun s hmem => hsub.subset (List.mem_map_of_mem hmem)
  refine RowsFrom.after hs₂ (embedAndSave_rowsFrom summarized (hn.trans hs₂.log.length_le)
    (fun s hmem => (List.mem_filter.1 (hchosen _ (hvaluable s hmem)).1).1) fun s hmem => ?_)
  obtain ⟨hdetails, hsummary⟩ := htold s hmem
  exact ⟨(hm _ _ hdetails).mono (Logs.drop_subset (trans_of Logs hs'.log hs''.log) n),
    ((hchosen _ (hvaluable s hmem)).2 _ hdetails).mono (Logs.drop_subset hs''.log n), hsummary⟩

end Rows

/-! ## An attempt -/

variable (ext cfg) in
/-- Lines and rows are added, each row of an article in `P` with its answers among the lines. -/
def SavesFrom (scraper : String) (P : Article → Prop) (w w' : World ε) : Prop :=
  Logs w w' ∧ RowsFrom ext cfg scraper w.log.length P w w'

instance (scraper : String) (P : Article → Prop) : IsPreorder (World ε) (SavesFrom ext cfg scraper P) where
  refl w := ⟨refl_of Logs w, (refl_of Still w).rowsFrom⟩
  trans w u t h h' := by
    obtain ⟨hlog, inserted, hrows, hfrom⟩ := h
    obtain ⟨hlog', inserted', hrows', hfrom'⟩ := h'
    refine ⟨trans_of Logs hlog hlog', inserted ++ inserted', by rw [hrows', hrows, List.append_assoc], ?_⟩
    intro row hrow
    rcases List.mem_append.1 hrow with hrow | hrow
    · obtain ⟨item, hP, hanswered, hdata⟩ := hfrom row hrow
      exact ⟨item, hP, hanswered.mono (hlog'.drop_subset _), hdata⟩
    · obtain ⟨item, hP, hanswered, hdata⟩ := hfrom' row hrow
      exact ⟨item, hP, hanswered.mono (List.drop_sublist_drop_left _ hlog.length_le).subset, hdata⟩

theorem Still.savesFrom {scraper : String} {P : Article → Prop} {w w' : World ε} (h : Still w w') :
    SavesFrom ext cfg scraper P w w' :=
  ⟨h.log, h.rowsFrom⟩

theorem savesFrom_processBatch {P : Article → Prop} {batch : List Article} (hbatch : ∀ article ∈ batch, P article)
    (scraper : String) (limit : ℕ) :
    Moves (SavesFrom ext cfg scraper P) (processBatch ext cfg batch scraper limit) := by
  intro w
  have hrowsFrom : RowsFrom ext cfg scraper w.log.length (fun article => article ∈ batch) w
      (processBatch ext cfg batch scraper limit w).2 := processBatch_rowsFrom batch scraper limit (Nat.le_refl _)
  obtain ⟨inserted, hrows, hfrom⟩ := hrowsFrom
  refine ⟨(processBatch_accounted _ _ batch scraper limit w).grew.log, inserted, hrows, fun row hrow => ?_⟩
  exact (hfrom row hrow).imp fun item h => ⟨hbatch _ h.1, h.2⟩

/-- The loop over the batches inserts rows of articles with the property, when all batches are
of such articles. By induction on the batches. -/
theorem savesFrom_batchLoop {P : Article → Prop} (scraper : String) (savedBaseline : ℕ)
    (batches : List (List Article)) (hbatches : ∀ batch ∈ batches, ∀ article ∈ batch, P article) :
    ∀ sofar : BatchResult, Moves (SavesFrom ext cfg scraper P) (batchLoop ext cfg scraper savedBaseline batches sofar) := by
  induction batches with
  | nil => exact fun sofar => moves_pure sofar
  | cons batch batches ih =>
    intro sofar
    unfold batchLoop
    simp only
    split
    · exact moves_pure sofar
    · refine moves_bind ((still_logLine _).mono fun _ _ hs => hs.savesFrom) fun _ => ?_
      refine moves_bind (savesFrom_processBatch (hbatches batch List.mem_cons_self) scraper _) fun _ => ?_
      exact ih (fun b hb => hbatches b (List.mem_cons_of_mem batch hb)) _

/-- The new articles are some of the listed ones. -/
theorem excludeExistingArticles_subset {P : Article → Prop} {articles : List Article}
    (h : ∀ article ∈ articles, P article) (sourceName : String) (w : World ε) :
    Yields (excludeExistingArticles ext articles sourceName) w fun new _ => ∀ article ∈ new, P article :=
  yields_bind yields_self fun _ _ _ => yields_pure fun article harticle => h article (List.mem_filter.1 harticle).1

/-- What is done for the listed articles. -/
theorem savesFrom_processArticles (scraper : String) (savedBaseline : ℕ) {P : Article → Prop} {w : World ε}
    (hlisted : ∀ articles, (ext.getArticles scraper w.env).outcome = Outcome.ret articles →
      ∀ article ∈ articles, P article) :
    SavesFrom ext cfg scraper P w (processArticles ext cfg scraper savedBaseline w).2 := by
  have hstill : ∀ {α : Type} {x : Attempt ε α}, Moves Still x → Moves (SavesFrom ext cfg scraper P) x :=
    fun h => h.mono fun _ _ hs => hs.savesFrom
  refine Moves.ensures_bind (Q := fun _ t => SavesFrom ext cfg scraper P w t) (hstill (still_call _))
    (P := fun articles _ => (ext.getArticles scraper w.env).outcome = Outcome.ret articles)
    (fun articles t h => (Prod.mk.inj h).1) ?_ (fun _ _ hs => hs) fun _ hs => hs
  intro articles t hs harticles
  by_cases hnone : articles = []
  · rw [if_pos hnone]
    exact hs
  rw [if_neg hnone]
  refine trans_of (SavesFrom ext cfg scraper P) hs (moves_bind_of (hstill (still_excludeExistingArticles ext
    articles scraper)) (excludeExistingArticles_subset (hlisted articles harticles) scraper) (fun new hnew => ?_) t)
  by_cases hnone : new = []
  · rw [if_pos hnone]
    exact moves_pure _
  rw [if_neg hnone]
  refine moves_bind (savesFrom_batchLoop scraper savedBaseline _ (fun batch hbatch article harticle => ?_) _)
    fun _ => moves_pure _
  refine hnew article ?_
  rw [← chunkArray_flatten new cfg.batchSize_pos]
  exact List.mem_flatten.2 ⟨batch, hbatch, harticle⟩

/-- An attempt inserts rows of the articles in the answer to its own request for the listing. -/
theorem savesFrom_executeScraperByName (ext : Externals ε) (cfg : PipelineConfig) (sourceName : String)
    (w : World ε) : SavesFrom ext cfg sourceName
      (fun article => ∃ articles, ListedBy ext sourceName w articles ∧ article ∈ articles) w
      (executeScraperByName ext cfg sourceName w).2 := by
  unfold executeScraperByName
  by_cases hknown : allSourceNames.contains sourceName = true
  · rw [if_pos hknown]
    unfold processSource
    refine Effect.ensures_bind (Q := fun _ t => SavesFrom ext cfg sourceName _ w t) (Effect.ensures_reads ?_)
    refine Moves.ensures_bind (Q := fun _ t => SavesFrom ext cfg sourceName _ w t)
      (still_countSavedSince ext sourceName _) (countSavedSince_env sourceName _ w) ?_
      (fun _ _ hs => hs.savesFrom) fun _ hs => hs.savesFrom
    intro savedBaseline t hs henv
    by_cases htarget : cfg.TARGET_SAVE_COUNT ≤ savedBaseline
    · rw [if_pos htarget]
      exact hs.savesFrom
    · rw [if_neg htarget]
      refine trans_of (SavesFrom ext cfg sourceName _) hs.savesFrom
        (savesFrom_processArticles sourceName savedBaseline fun articles harticles article harticle => ?_)
      rw [henv] at harticles
      exact ⟨articles, harticles, harticle⟩
  · rw [if_neg hknown]
    exact refl_of (SavesFrom ext cfg sourceName _) w

/-- **Where a row comes from.** Whatever the services answer and however an attempt ends, each
row that it inserts is that of one article of the list it got, and what stands in it was answered
in this attempt about this article, which the filter was shown and chose. -/
theorem saved_rows_answered (ext : Externals ε) (cfg : PipelineConfig) (sourceName : String) (w : World ε) :
    ∃ inserted, (executeScraperByName ext cfg sourceName w).2.table.rows = w.table.rows ++ inserted ∧
      ∀ row ∈ inserted, ∃ item : EmbeddedArticle,
        (∃ articles, ListedBy ext sourceName w articles ∧ item.article ∈ articles) ∧
        Answered ext cfg sourceName (newLines w (executeScraperByName ext cfg sourceName w).2) item ∧
        row.toTrendData = trendData item :=
  (savesFrom_executeScraperByName ext cfg sourceName w).2

end Pipeline

end TechTrends
