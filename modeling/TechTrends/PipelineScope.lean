/-
What an attempt is about: only new articles of its own source.

Every call that an attempt makes, and every row that it inserts, is about one of the
articles that its scraper returned and that were not in the table. So a relation on
worlds that these calls keep is kept by the whole attempt (`Confined`). The two uses are
the rows, which are of the attempt's source, and the calls to the services, which are
never about an article that the table has.
-/
import TechTrends.PipelineQuota
import TechTrends.PipelineTried

set_option autoImplicit false

namespace Effect

universe u

variable {σ ε : Type*} {α β : Type u} {R : σ → σ → Prop} [IsPreorder σ R]

/-- A sequence keeps `R` when its second part does for the values that can be returned. -/
theorem moves_bind_of {x : Effect σ ε α} {f : α → Effect σ ε β} {P : α → Prop} (hx : Moves R x)
    (hP : ∀ s, Yields x s fun a _ => P a) (hf : ∀ a, P a → Moves R (f a)) : Moves R (x >>= f) :=
  fun s => Moves.ensures_bind (Q := fun _ t => R s t) hx (hP s)
    (fun a t hs ha => trans_of R hs (hf a ha t)) (fun _ _ hs => hs) fun _ hs => hs

end Effect

namespace TechTrends

namespace Pipeline

open Effect (Ensures Moves Yields moves_bind moves_bind_of moves_pure moves_throw moves_reads
  moves_tryCatch ensures_bind ensures_pure ensures_reads yields_self yields_pure yields_throw
  yields_reads yields_bind yields_tryCatch)

variable {ε : Type} {ext : Externals ε} {cfg : PipelineConfig} {scraper : String}
  {P : Article → Prop} {R : World ε → World ε → Prop}

/-! ## The articles that go on -/

theorem selectValuableArticles_articles {articles : List Article} (harticles : ∀ article ∈ articles, P article)
    (m : DetailsMap) (w : World ε) :
    Yields (selectValuableArticles ext cfg articles m) w fun valuable _ =>
      ∀ article ∈ valuable, P article := by
  refine (selectValuableArticles_told (n := 0) articles m (Nat.zero_le _)).mono ?_
  rintro valuable _ ⟨valuableIds, -, rfl⟩ article harticle
  exact harticles article (List.mem_filter.1 harticle).1

/-- An article is summarized as itself. -/
theorem summarizeArticle_articles {article : Article} (harticle : P article) (details : ArticleDetails)
    {acc : List SummarizedArticle} (hacc : ∀ s ∈ acc, P s.article) (w : World ε) :
    Yields (summarizeArticle ext cfg article details acc) w fun r _ => ∀ s ∈ r, P s.article := by
  refine (summarizeArticle_told (n := 0) article details acc (Nat.zero_le _)).mono ?_
  rintro r _ (⟨rfl, -⟩ | ⟨s, rfl, rfl, -⟩)
  · exact hacc
  · intro s' hs'
    rcases List.mem_append.1 hs' with hs' | hs'
    · exact hacc s' hs'
    · rw [List.mem_singleton.1 hs']
      exact harticle

/-- The summarized articles are some of the given ones. -/
theorem summarizeLoop_articles (m : DetailsMap) (limit : ℕ) {articles : List Article}
    (harticles : ∀ article ∈ articles, P article) :
    ∀ (acc : List SummarizedArticle) (w : World ε), (∀ s ∈ acc, P s.article) →
      Yields (summarizeLoop ext cfg m limit articles acc) w fun r _ => ∀ s ∈ r, P s.article := by
  induction articles with
  | nil => exact fun acc w hacc => yields_pure hacc
  | cons article articles ih =>
    have ih := ih fun a ha => harticles a (List.mem_cons_of_mem article ha)
    intro acc w hacc
    unfold summarizeLoop
    by_cases hlimit : limit ≤ acc.length
    · rw [if_pos hlimit]
      exact yields_pure hacc
    · rw [if_neg hlimit]
      cases m article.id with
      | none => exact ih acc w hacc
      | some details =>
        by_cases hempty : details.content = ""
        · simp only [if_pos hempty]
          exact ih acc w hacc
        · simp only [if_neg hempty]
          exact yields_bind
            (summarizeArticle_articles (harticles article List.mem_cons_self) details hacc w) ih

theorem generateEmbeddings_keeps {articles : List SummarizedArticle} (harticles : ∀ s ∈ articles, P s.article)
    (w : World ε) :
    Yields (generateEmbeddingsForArticles ext articles) w fun items _ => ∀ item ∈ items, P item.article := by
  refine (generateEmbeddings_articles articles w).mono ?_
  intro items _ hitems item hitem
  have hmem : item.article ∈ articles.map fun s => s.article := by
    rw [← hitems]
    exact List.mem_map_of_mem hitem
  obtain ⟨s, hs, hsame⟩ := List.mem_map.1 hmem
  rw [← hsame]
  exact harticles s hs

/-- The new articles are articles whose ids the table did not have for the source. -/
theorem excludeExistingArticles_new (articles : List Article) (sourceName : String) (w : World ε) :
    Yields (excludeExistingArticles ext articles sourceName) w fun newArticles _ =>
      ∀ article ∈ newArticles, article ∈ articles ∧
        (sourceName, article.id) ∉ w.table.rows.map TechTrend.sourceKey := by
  have hexisting : Yields (findExistingSourceIds ext sourceName (articles.map fun article => article.id)) w
      fun existingIds _ =>
        existingIds = w.table.findExistingSourceIds sourceName (articles.map fun article => article.id) := by
    unfold findExistingSourceIds
    by_cases hnil : (articles.map fun article => article.id) = []
    · rw [if_pos hnil]
      refine yields_pure ?_
      simp [hnil, TrendTable.findExistingSourceIds]
    · rw [if_neg hnil]
      refine yields_bind yields_self fun _ t ht => yields_reads ?_
      have hs := still_call ext.findExistingSourceIds w
      rw [ht] at hs
      rw [hs.table]
  refine yields_bind hexisting ?_
  rintro _ t rfl
  refine yields_pure ?_
  intro article harticle
  obtain ⟨hmem, hnew⟩ := List.mem_filter.1 harticle
  refine ⟨hmem, fun hkey => ?_⟩
  obtain ⟨row, hrow, hsame⟩ := List.mem_map.1 hkey
  obtain ⟨hsource, hid⟩ := Prod.mk.inj hsame
  -- the query for the ids would have found the row
  have hfound : article.id ∈ w.table.findExistingSourceIds sourceName
      (articles.map fun article => article.id) := by
    refine List.mem_map.2 ⟨row, List.mem_filter.2 ⟨hrow, ?_⟩, hid⟩
    refine decide_eq_true ⟨hsource, ?_⟩
    rw [hid]
    exact List.mem_map_of_mem hmem
  simp [hfound] at hnew

/-! ## Relations that the calls about some articles keep -/

variable (ext) in
/-- `R` is kept by all that an attempt of a scraper does for the articles in `P`. -/
structure Confined (scraper : String) (P : Article → Prop) (R : World ε → World ε → Prop) : Prop where
  countSavedSince : Moves R (call ext.countSavedSince)
  findExistingSourceIds : Moves R (call ext.findExistingSourceIds)
  getArticles : Moves R (call (ext.getArticles scraper))
  logLine : ∀ line, Moves R (logLine line)
  getArticleDetails : ∀ article, P article → Moves R (call (ext.getArticleDetails scraper article.id))
  filterBatchWithAi : ∀ items : List BatchEvaluationItem,
    (∀ item ∈ items, ∃ article, P article ∧ item.id = article.id) →
      Moves R (call (ext.filterBatchWithAi items))
  summarizeContentWithAi : ∀ article params, P article → params.title = article.title →
    Moves R (call (ext.summarizeContentWithAi params))
  vectorEmbeddingWithAi : ∀ texts, Moves R (call (ext.vectorEmbeddingWithAi texts))
  delaySeconds : ∀ seconds, Moves R (delaySeconds ext seconds)
  saveTrend : ∀ article data, P article → data.source = article.source → data.source_id = article.id →
    Moves R (saveTrend ext data)

namespace Confined

variable [IsPreorder (World ε) R] (h : Confined ext scraper P R)

include h

theorem fetchDetails {m : DetailsMap} {article : Article} (harticle : P article) :
    Moves R (fetchDetails ext scraper m article.id) := by
  refine moves_tryCatch (moves_bind (h.getArticleDetails article harticle) ?_) fun _ =>
    moves_bind (h.logLine _) fun _ => moves_pure _
  rintro (_ | details)
  · exact moves_bind (h.logLine _) fun _ => moves_pure _
  · by_cases hcontent : details.content ≠ ""
    · simp only [if_pos hcontent]
      exact moves_bind (h.logLine _) fun _ => moves_pure _
    · simp only [if_neg hcontent]
      exact moves_bind (h.logLine _) fun _ => moves_pure _

theorem fetchBatchDetailsMap {batch : List Article} (hbatch : ∀ article ∈ batch, P article) :
    ∀ m, Moves R (fetchBatchDetailsMap ext scraper (batch.map fun article => article.id) m) := by
  induction batch with
  | nil => exact fun m => moves_pure _
  | cons article batch ih =>
    exact fun m => moves_bind (h.fetchDetails (hbatch article List.mem_cons_self))
      (ih fun a ha => hbatch a (List.mem_cons_of_mem article ha))

theorem selectValuableArticles {articles : List Article} (harticles : ∀ article ∈ articles, P article)
    (m : DetailsMap) : Moves R (selectValuableArticles ext cfg articles m) := by
  refine moves_bind (h.filterBatchWithAi _ ?_) ?_
  · intro item hitem
    obtain ⟨article, harticle, rfl⟩ := List.mem_map.1 hitem
    exact ⟨article, harticles article harticle, rfl⟩
  · intro answer
    cases answer with
    | arr values => exact moves_bind (h.logLine _) fun _ => moves_pure _
    | _ => exact moves_throw _

theorem summarizeArticle {article : Article} (harticle : P article) (details : ArticleDetails)
    (acc : List SummarizedArticle) : Moves R (summarizeArticle ext cfg article details acc) := by
  refine moves_tryCatch (moves_bind (h.summarizeContentWithAi article _ harticle rfl) ?_) fun _ =>
    moves_bind (h.logLine _) fun _ => moves_pure _
  rintro (_ | summary)
  · exact moves_bind (h.logLine _) fun _ => moves_pure _
  · exact moves_bind (h.logLine _) fun _ => moves_bind (h.delaySeconds _) fun _ => moves_pure _

/-- Summaries of a batch. -/
theorem summarizeLoop (m : DetailsMap) (limit : ℕ) {articles : List Article}
    (harticles : ∀ article ∈ articles, P article) :
    ∀ acc, Moves R (summarizeLoop ext cfg m limit articles acc) := by
  induction articles with
  | nil => exact fun acc => moves_pure _
  | cons article articles ih =>
    have ih := ih fun a ha => harticles a (List.mem_cons_of_mem article ha)
    intro acc
    unfold Pipeline.summarizeLoop
    by_cases hlimit : limit ≤ acc.length
    · rw [if_pos hlimit]
      exact moves_pure _
    · rw [if_neg hlimit]
      cases m article.id with
      | none => exact ih acc
      | some details =>
        by_cases hempty : details.content = ""
        · simp only [if_pos hempty]
          exact ih acc
        · simp only [if_neg hempty]
          exact moves_bind (h.summarizeArticle (harticles article List.mem_cons_self) details acc) ih

/-- The embeddings are asked for with the summaries alone, and are not about an article here. -/
theorem generateEmbeddings (articles : List SummarizedArticle) :
    Moves R (generateEmbeddingsForArticles ext articles) := by
  unfold generateEmbeddingsForArticles
  by_cases hnil : articles = []
  · rw [if_pos hnil]
    exact moves_pure _
  · rw [if_neg hnil]
    refine moves_bind (h.vectorEmbeddingWithAi _) fun vectors => moves_bind (h.logLine _) fun _ => ?_
    by_cases hlen : articles.length ≠ vectors.length
    · rw [if_pos hlen]
      exact moves_throw _
    · rw [if_neg hlen]
      exact moves_pure _

theorem saveLoop {items : List EmbeddedArticle} (hitems : ∀ item ∈ items, P item.article) :
    ∀ result, Moves R (saveLoop ext items result) := by
  induction items with
  | nil => exact fun result => moves_pure _
  | cons item items ih =>
    intro result
    refine moves_bind ?_ (ih fun x hx => hitems x (List.mem_cons_of_mem item hx))
    refine moves_tryCatch ?_ fun _ => moves_bind (h.logLine _) fun _ => moves_pure _
    exact moves_bind (h.saveTrend item.article _ (hitems item List.mem_cons_self) rfl rfl) fun _ =>
      moves_bind (h.logLine _) fun _ => moves_pure _

/-- A batch is about its articles, in all of its stages. -/
theorem processBatch {batch : List Article} (hbatch : ∀ article ∈ batch, P article) (limit : ℕ) :
    Moves R (processBatch ext cfg batch scraper limit) := by
  unfold Pipeline.processBatch
  refine moves_bind (h.fetchBatchDetailsMap hbatch _) fun m => ?_
  have hvalid : ∀ article ∈ batch.filter fun article => (m article.id).isSome, P article :=
    fun article harticle => hbatch article (List.mem_filter.1 harticle).1
  by_cases hnone : batch.filter (fun article => (m article.id).isSome) = []
  · simp only [if_pos hnone]
    exact moves_pure _
  simp only [if_neg hnone]
  refine moves_bind_of (h.selectValuableArticles hvalid m) (selectValuableArticles_articles hvalid m) ?_
  intro valuable hvaluable
  by_cases hnone : valuable = []
  · simp only [if_pos hnone]
    exact moves_pure _
  simp only [if_neg hnone]
  refine moves_bind_of (h.summarizeLoop m limit hvaluable [])
    (fun w => summarizeLoop_articles m limit hvaluable [] w (by simp)) ?_
  intro summarized hsummarized
  by_cases hnone : summarized = []
  · simp only [if_pos hnone]
    exact moves_pure _
  simp only [if_neg hnone]
  refine moves_bind_of (h.generateEmbeddings summarized) (generateEmbeddings_keeps hsummarized) ?_
  intro items hitems
  by_cases hnone : items = []
  · rw [if_pos hnone]
    exact moves_pure _
  · rw [if_neg hnone]
    exact h.saveLoop hitems _

/-- The batches of new articles are about new articles. -/
theorem batchLoop (savedBaseline : ℕ) {batches : List (List Article)}
    (hbatches : ∀ batch ∈ batches, ∀ article ∈ batch, P article) :
    ∀ sofar, Moves R (batchLoop ext cfg scraper savedBaseline batches sofar) := by
  induction batches with
  | nil => exact fun sofar => moves_pure _
  | cons batch batches ih =>
    intro sofar
    unfold Pipeline.batchLoop
    by_cases htarget : cfg.TARGET_SAVE_COUNT ≤ savedBaseline + sofar.savedCount
    · simp only [if_pos htarget]
      exact moves_pure _
    · simp only [if_neg htarget]
      refine moves_bind (h.logLine _) fun _ => ?_
      exact moves_bind (h.processBatch (hbatches batch List.mem_cons_self) _) fun _ =>
        ih (fun b hb => hbatches b (List.mem_cons_of_mem batch hb)) _

end Confined

/-! ## The whole attempt -/

variable (ext) in
/-- The articles that a scraper may list. -/
def Listed (scraper : String) (article : Article) : Prop :=
  ∃ env articles, (ext.getArticles scraper env).outcome = Outcome.ret articles ∧ article ∈ articles

/-- The articles of a scraper that are not in the table. -/
def New (scraper : String) (table : TrendTable) (article : Article) : Prop :=
  (scraper, article.id) ∉ table.rows.map TechTrend.sourceKey

theorem getArticles_listed (scraper : String) (w : World ε) :
    Yields (call (ext.getArticles scraper)) w fun articles _ =>
      ∀ article ∈ articles, Listed ext scraper article := by
  intro articles t h article harticle
  exact ⟨w.env, articles, (Prod.mk.inj h).1, harticle⟩

variable [IsPreorder (World ε) R]

/-- The loop over the batches is about the listed articles that are new. -/
theorem processArticles_confined (savedBaseline : ℕ) (w : World ε)
    (h : Confined ext scraper (fun article => Listed ext scraper article ∧ New scraper w.table article) R) :
    R w (processArticles ext cfg scraper savedBaseline w).2 := by
  unfold processArticles
  refine Moves.ensures_bind (Q := fun _ t => R w t) h.getArticles
    (Moves.yields (still_call _) (getArticles_listed scraper w)) ?_ (fun _ _ hs => hs) fun _ hs => hs
  rintro articles t hs ⟨hstill, hlisted⟩
  by_cases harticles : articles = []
  · rw [if_pos harticles]
    exact ensures_pure hs
  rw [if_neg harticles]
  -- with no article the query is not made
  have hexclude : Moves R (excludeExistingArticles ext articles scraper) := by
    refine moves_bind ?_ fun _ => moves_pure _
    unfold findExistingSourceIds
    by_cases hnil : (articles.map fun article => article.id) = []
    · rw [if_pos hnil]
      exact moves_pure _
    · rw [if_neg hnil]
      exact moves_bind h.findExistingSourceIds fun _ => moves_reads _
  refine Moves.ensures_bind (Q := fun _ t => R w t) hexclude
    (excludeExistingArticles_new articles scraper t) ?_ (fun _ _ hs' => trans_of R hs hs')
    fun _ hs' => trans_of R hs hs'
  intro newArticles t' hs' hnew
  have hs := trans_of R hs hs'
  by_cases hnone : newArticles = []
  · rw [if_pos hnone]
    exact ensures_pure hs
  rw [if_neg hnone]
  -- the batches hold the new articles and no others
  have hbatches : ∀ batch ∈ chunkArray newArticles cfg.BATCH_SIZE, ∀ article ∈ batch,
      Listed ext scraper article ∧ New scraper w.table article := by
    intro batch hbatch article harticle
    have hmem : article ∈ newArticles := by
      rw [← chunkArray_flatten newArticles cfg.batchSize_pos]
      exact List.mem_flatten.2 ⟨batch, hbatch, harticle⟩
    obtain ⟨hfetched, hfresh⟩ := hnew article hmem
    rw [hstill.table] at hfresh
    exact ⟨hlisted article hfetched, hfresh⟩
  exact trans_of R hs (moves_bind (h.batchLoop savedBaseline hbatches BatchResult.none)
    (fun _ => moves_pure _) t')

/-- **The rule for attempts.** A relation that is kept by all that is done for the listed
articles that are new is kept by an attempt. -/
theorem executeScraperByName_confined (sourceName : String) (w : World ε)
    (h : Confined ext sourceName
      (fun article => Listed ext sourceName article ∧ New sourceName w.table article) R) :
    R w (executeScraperByName ext cfg sourceName w).2 := by
  unfold executeScraperByName
  by_cases hknown : allSourceNames.contains sourceName = true
  · rw [if_pos hknown]
    unfold processSource
    refine ensures_bind (Q := fun _ t => R w t) (ensures_reads ?_)
    have hcount : Moves R (countSavedSince ext sourceName (getTodayStartUtc w.now)) :=
      moves_bind h.countSavedSince fun _ => moves_reads _
    refine Moves.ensures_bind (Q := fun _ t => R w t) hcount
      (Moves.yields (still_countSavedSince ext sourceName _) yields_self) ?_ (fun _ _ hs => hs) fun _ hs => hs
    rintro savedBaseline t hs ⟨hstill, -⟩
    by_cases htarget : cfg.TARGET_SAVE_COUNT ≤ savedBaseline
    · rw [if_pos htarget]
      exact ensures_pure hs
    · rw [if_neg htarget]
      rw [← hstill.table] at h
      exact trans_of R hs (processArticles_confined savedBaseline t h)
  · rw [if_neg hknown]
    exact refl_of R w

/-! ## Rows of its own source -/

/-- Every scraper lists articles of its own source. -/
def OwnArticles (ext : Externals ε) : Prop :=
  ∀ scraper article, Listed ext scraper article → article.source = scraper

/-- Rows of a source are added. -/
def AddsRowsOf (source : String) (w w' : World ε) : Prop :=
  ∃ inserted, w'.table.rows = w.table.rows ++ inserted ∧ ∀ row ∈ inserted, row.source = source

instance (source : String) : IsPreorder (World ε) (AddsRowsOf source) where
  refl w := ⟨[], (List.append_nil _).symm, by simp⟩
  trans _ _ _ h h' := by
    obtain ⟨xs, hxs, hsource⟩ := h
    obtain ⟨ys, hys, hsource'⟩ := h'
    refine ⟨xs ++ ys, by rw [hys, hxs, List.append_assoc], fun row hrow => ?_⟩
    exact (List.mem_append.1 hrow).elim (hsource row) (hsource' row)

theorem Still.addsRowsOf {w w' : World ε} (h : Still w w') (source : String) : AddsRowsOf source w w' :=
  ⟨[], by rw [h.table, List.append_nil], by simp⟩

/-- A save inserts the row of its data or none. -/
theorem addsRowsOf_saveTrend (data : TrendData) : Moves (AddsRowsOf data.source) (saveTrend ext data) := by
  intro w
  unfold saveTrend
  rcases ext.saveTrend data w.env with ⟨elapsed, fate, env⟩
  have hnone : ∀ w' : World ε, w'.table = w.table → AddsRowsOf data.source w w' := fun w' hw' =>
    ⟨[], by rw [hw', List.append_nil], by simp⟩
  have hinsert : ∀ (table : TrendTable) (row : TechTrend) (w' : World ε), w.table.insert row = some table →
      row.source = data.source → w'.table = table → AddsRowsOf data.source w w' := by
    rintro table row w' hins hsource rfl
    exact ⟨[row], TrendTable.insert_rows hins, by simpa using hsource⟩
  cases fate with
  | refused e => exact hnone _ rfl
  | killedBefore => exact hnone _ rfl
  | answered =>
    simp only
    split
    · exact hnone _ rfl
    · next table hins => exact hinsert table _ _ hins rfl rfl
  | killedAfter =>
    simp only
    split
    · exact hnone _ rfl
    · next table hins => exact hinsert table _ _ hins rfl rfl

/-- An attempt adds rows of its own source only, when the scraper's articles carry its name,
as those of the three scrapers do. -/
theorem executeScraperByName_addsRowsOf (hown : OwnArticles ext) (cfg : PipelineConfig) (sourceName : String)
    (w : World ε) : AddsRowsOf sourceName w (executeScraperByName ext cfg sourceName w).2 := by
  have hstill : ∀ {α : Type} {x : Attempt ε α}, Moves Still x → Moves (AddsRowsOf sourceName) x :=
    fun hx => hx.mono fun _ _ hs => hs.addsRowsOf sourceName
  refine executeScraperByName_confined sourceName w
    { countSavedSince := hstill (still_call _)
      findExistingSourceIds := hstill (still_call _)
      getArticles := hstill (still_call _)
      logLine := fun _ => hstill (still_logLine _)
      getArticleDetails := fun _ _ => hstill (still_call _)
      filterBatchWithAi := fun _ _ => hstill (still_call _)
      summarizeContentWithAi := fun _ _ _ _ => hstill (still_call _)
      vectorEmbeddingWithAi := fun _ => hstill (still_call _)
      delaySeconds := fun _ => hstill (still_delaySeconds _)
      saveTrend := fun article data harticle hsource _ => ?_ }
  rw [← hown sourceName article harticle.1, ← hsource]
  exact addsRowsOf_saveTrend data

/-! ## No work on what the table has -/

/-- The calls of an attempt to the services outside, with what they are asked about. -/
inductive ServiceCall
  | getArticleDetails (source articleId : String)
  | filterBatchWithAi (items : List BatchEvaluationItem)
  | summarizeContentWithAi (params : SummarizeContentParams)
  | saveTrend (data : TrendData)

/-- A reply, with the call added to the calls before it. -/
def noting {α : Type} (calls : List ServiceCall) (called : ServiceCall) (reply : Reply ε α) :
    Reply (ε × List ServiceCall) α := ⟨reply.outcome, reply.elapsed, (reply.env, calls ++ [called])⟩

def keeping {α : Type} (calls : List ServiceCall) (reply : Reply ε α) :
    Reply (ε × List ServiceCall) α := ⟨reply.outcome, reply.elapsed, (reply.env, calls)⟩

/-- The same world outside, which also keeps a list of the calls. -/
def noted (ext : Externals ε) : Externals (ε × List ServiceCall) where
  countSavedSince e := keeping e.2 (ext.countSavedSince e.1)
  findExistingSourceIds e := keeping e.2 (ext.findExistingSourceIds e.1)
  getArticles source e := keeping e.2 (ext.getArticles source e.1)
  getArticleDetails source articleId e :=
    noting e.2 (ServiceCall.getArticleDetails source articleId) (ext.getArticleDetails source articleId e.1)
  filterBatchWithAi items e :=
    noting e.2 (ServiceCall.filterBatchWithAi items) (ext.filterBatchWithAi items e.1)
  summarizeContentWithAi params e :=
    noting e.2 (ServiceCall.summarizeContentWithAi params) (ext.summarizeContentWithAi params e.1)
  vectorEmbeddingWithAi texts e := keeping e.2 (ext.vectorEmbeddingWithAi texts e.1)
  delaySeconds e := ((ext.delaySeconds e.1).1, (ext.delaySeconds e.1).2.1, (ext.delaySeconds e.1).2.2, e.2)
  saveTrend data e :=
    ((ext.saveTrend data e.1).1, (ext.saveTrend data e.1).2.1, (ext.saveTrend data e.1).2.2,
      e.2 ++ [ServiceCall.saveTrend data])

/-- The article is listed by the source's scraper, and the table does not have it. -/
def ListedNew (ext : Externals ε) (source : String) (table : TrendTable) (article : Article) : Prop :=
  Listed ext source article ∧ New source table article

/-- What the call asks about are new articles of the source. -/
def AboutNew (ext : Externals ε) (source : String) (table : TrendTable) : ServiceCall → Prop
  | ServiceCall.getArticleDetails s articleId =>
    s = source ∧ ∃ article, ListedNew ext source table article ∧ articleId = article.id
  | ServiceCall.filterBatchWithAi items =>
    ∀ item ∈ items, ∃ article, ListedNew ext source table article ∧ item.id = article.id
  | ServiceCall.summarizeContentWithAi params =>
    ∃ article, ListedNew ext source table article ∧ params.title = article.title
  | ServiceCall.saveTrend data =>
    ∃ article, ListedNew ext source table article ∧ data.source = article.source ∧
      data.source_id = article.id

/-- Calls in `Q` are added to the list. -/
def AddsCalls (Q : ServiceCall → Prop) (w w' : World (ε × List ServiceCall)) : Prop :=
  ∃ calls, w'.env.2 = w.env.2 ++ calls ∧ ∀ called ∈ calls, Q called

instance (Q : ServiceCall → Prop) : IsPreorder (World (ε × List ServiceCall)) (AddsCalls Q) where
  refl w := ⟨[], (List.append_nil _).symm, by simp⟩
  trans _ _ _ h h' := by
    obtain ⟨xs, hxs, hQ⟩ := h
    obtain ⟨ys, hys, hQ'⟩ := h'
    refine ⟨xs ++ ys, by rw [hys, hxs, List.append_assoc], fun called hcalled => ?_⟩
    exact (List.mem_append.1 hcalled).elim (hQ called) (hQ' called)

theorem addsCalls_noting {α : Type} {Q : ServiceCall → Prop} (called : ServiceCall) (hQ : Q called)
    (f : ε → Reply ε α) :
    Moves (AddsCalls Q) (call fun e : ε × List ServiceCall => noting e.2 called (f e.1)) :=
  fun _ => ⟨[called], rfl, by simpa using hQ⟩

theorem addsCalls_keeping {α : Type} {Q : ServiceCall → Prop} (f : ε → Reply ε α) :
    Moves (AddsCalls Q) (call fun e : ε × List ServiceCall => keeping e.2 (f e.1)) :=
  fun _ => ⟨[], (List.append_nil _).symm, by simp⟩

/-- Writing a line and waiting are no calls. -/
theorem addsCalls_of_env {α : Type} {Q : ServiceCall → Prop} {x : Attempt (ε × List ServiceCall) α}
    (h : ∀ w, (x w).2.env.2 = w.env.2) : Moves (AddsCalls Q) x :=
  fun w => ⟨[], by rw [h w, List.append_nil], by simp⟩

/-- Whatever becomes of the row, what the database decides from moves on. -/
theorem saveTrend_env (data : TrendData) (w : World ε) :
    (saveTrend ext data w).2.env = (ext.saveTrend data w.env).2.2 := by
  unfold saveTrend
  rcases ext.saveTrend data w.env with ⟨elapsed, fate, env⟩
  cases fate with
  | refused e => rfl
  | killedBefore => rfl
  | answered => simp only; split <;> rfl
  | killedAfter => simp only; split <;> rfl

theorem addsCalls_saveTrend {Q : ServiceCall → Prop} {data : TrendData} (hQ : Q (ServiceCall.saveTrend data)) :
    Moves (AddsCalls Q) (saveTrend (noted ext) data) := by
  intro w
  refine ⟨[ServiceCall.saveTrend data], ?_, by simpa using hQ⟩
  rw [saveTrend_env]
  rfl

theorem listed_noted {scraper : String} {article : Article} (h : Listed (noted ext) scraper article) :
    Listed ext scraper article := by
  obtain ⟨env, articles, hlisted, hmem⟩ := h
  exact ⟨env.1, articles, hlisted, hmem⟩

/-- **No work on what the table has.** Whatever the services answer and however an attempt
ends, it fetches, shows to the filter, summarizes and saves only articles that its scraper
lists and that were not in the table when it started. -/
theorem executeScraperByName_asks_new (ext : Externals ε) (cfg : PipelineConfig) (sourceName : String)
    (w : World (ε × List ServiceCall)) :
    ∃ calls, (executeScraperByName (noted ext) cfg sourceName w).2.env.2 = w.env.2 ++ calls ∧
      ∀ called ∈ calls, AboutNew ext sourceName w.table called := by
  have hnew : ∀ {article : Article},
      (Listed (noted ext) sourceName article ∧ New sourceName w.table article) →
        ListedNew ext sourceName w.table article := fun h => ⟨listed_noted h.1, h.2⟩
  exact executeScraperByName_confined (R := AddsCalls (AboutNew ext sourceName w.table)) sourceName w
    { countSavedSince := addsCalls_keeping _
      findExistingSourceIds := addsCalls_keeping _
      getArticles := addsCalls_keeping _
      logLine := fun _ => addsCalls_of_env fun _ => rfl
      getArticleDetails := fun article harticle => addsCalls_noting _ ⟨rfl, article, hnew harticle, rfl⟩ _
      filterBatchWithAi := fun items hitems =>
        addsCalls_noting (ServiceCall.filterBatchWithAi items)
          (fun item hitem => (hitems item hitem).imp fun _ h => ⟨hnew h.1, h.2⟩) _
      summarizeContentWithAi := fun article params harticle htitle =>
        addsCalls_noting (ServiceCall.summarizeContentWithAi params)
          ⟨article, hnew harticle, htitle⟩ _
      vectorEmbeddingWithAi := fun _ => addsCalls_keeping _
      delaySeconds := fun seconds => addsCalls_of_env fun w => by
        unfold delaySeconds
        dsimp only [noted]
        cases (ext.delaySeconds w.env.1).2.1 <;> rfl
      saveTrend := fun article data harticle hsource hid =>
        addsCalls_saveTrend ⟨article, hnew harticle, hsource, hid⟩ }

end Pipeline

end TechTrends
