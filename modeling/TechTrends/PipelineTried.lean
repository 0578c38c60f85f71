/-
What becomes of the new articles of an attempt that ends below its target.

A batch may summarize as many articles as are missing to the target, while only
the articles that are saved count towards it. So a selected article can be left
without a summary although the target is missed: when the articles summarized
before it were enough, but not all of them could be saved. Every other article
was saved or has its own line in the log that says where it was dropped.
-/
import TechTrends.PipelineQuota

set_option autoImplicit false

namespace TechTrends

namespace Pipeline

open Effect (Moves Yields yields_self yields_pure yields_throw yields_reads yields_modify
  yields_bind yields_tryCatch bind_eq_ret eq_of_outcome moves_bind moves_pure)

variable {ε : Type} {ext : Externals ε} {cfg : PipelineConfig} {n : ℕ}

/-! ## Lines of the log -/

/-- Lines are only added to the log. -/
def Logs (w w' : World ε) : Prop := w.log <+: w'.log

instance : IsPreorder (World ε) Logs where
  refl w := List.prefix_refl w.log
  trans _ _ _ h h' := List.IsPrefix.trans h h'

theorem Logs.length_le {w w' : World ε} (h : Logs w w') : w.log.length ≤ w'.log.length :=
  List.IsPrefix.length_le h

theorem logs_of_still {α : Type} {x : Attempt ε α} (h : Moves Still x) : Moves Logs x :=
  h.mono fun _ _ hs => hs.log

/-- The line was logged after the first `n` lines. -/
def Told (n : ℕ) (w : World ε) (line : LogLine) : Prop := line ∈ w.log.drop n

theorem Told.mono {w w' : World ε} {line : LogLine} (h : Told n w line) (hlog : Logs w w') :
    Told n w' line := by
  obtain ⟨lines, hlines⟩ := hlog
  rw [Told, ← hlines, List.drop_append]
  exact List.mem_append_left _ h

theorem told_logLine {w : World ε} (hn : n ≤ w.log.length) (line : LogLine) :
    Yields (logLine line) w fun _ t => Told n t line := by
  apply yields_modify
  rw [Told, List.drop_append_of_le_length hn]
  exact List.mem_append_right _ (List.mem_singleton_self line)

/-- A sequence, with the lines of its first part kept. -/
theorem yields_then {α β : Type} {x : Attempt ε α} {f : α → Attempt ε β} {w : World ε}
    {P : α → World ε → Prop} {Q : β → World ε → Prop} (hx : Moves Logs x)
    (hn : n ≤ w.log.length) (hP : Yields x w P)
    (hf : ∀ a t, n ≤ t.log.length → Logs w t → P a t → Yields (f a) t Q) :
    Yields (x >>= f) w Q := by
  refine yields_bind (hx.yields hP) ?_
  rintro a t ⟨hlog, ha⟩
  exact hf a t (hn.trans hlog.length_le) hlog ha

/-- A guarded part, with the lines of the guarded program kept. -/
theorem yields_guarded {α : Type} {x : Attempt ε α} {h : Error → Attempt ε α} {w : World ε}
    {P : α → World ε → Prop} (hx : Moves Logs x) (hn : n ≤ w.log.length) (hP : Yields x w P)
    (hh : ∀ e t, n ≤ t.log.length → Yields (h e) t P) : Yields (Effect.tryCatch x h) w P := by
  refine yields_tryCatch hP ?_
  intro e t ht
  have hlog := hx w
  rw [ht] at hlog
  exact hh e t (hn.trans hlog.length_le)

/-! ## Details -/

/-- The details kept have a content. -/
def HasContents (m : DetailsMap) : Prop := ∀ id details, m id = some details → details.content ≠ ""

theorem HasContents.update {m : DetailsMap} (hm : HasContents m) (id : String)
    {details : ArticleDetails} (h : details.content ≠ "") :
    HasContents (Function.update m id (some details)) := by
  intro x d hx
  by_cases hid : x = id
  · rw [hid, Function.update_self] at hx
    cases hx
    exact h
  · rw [Function.update_of_ne hid] at hx
    exact hm x d hx

/-- What a step of the fetching does to the map, and says about the ids. -/
structure Fetched (n : ℕ) (ids : List String) (m m' : DetailsMap) (t : World ε) : Prop where
  contents : HasContents m → HasContents m'
  kept : ∀ id, (m id).isSome → (m' id).isSome
  told : ∀ id ∈ ids, (m' id).isSome ∨ Told n t (LogLine.detailsFailed id)

theorem fetched_of_failed {m : DetailsMap} {id : String} {t : World ε}
    (h : Told n t (LogLine.detailsFailed id)) : Fetched n [id] m m t := by
  refine ⟨fun hm => hm, fun _ hx => hx, ?_⟩
  intro x hx
  rw [List.mem_singleton.1 hx]
  exact Or.inr h

/-- An id with a content is in the map. -/
theorem fetched_of_update {m : DetailsMap} {id : String} {details : ArticleDetails} {t : World ε}
    (h : details.content ≠ "") :
    Fetched n [id] m (Function.update m id (some details)) t := by
  refine ⟨fun hm => hm.update id h, ?_, ?_⟩
  · intro x hx
    by_cases hid : x = id
    · simp [hid]
    · rwa [Function.update_of_ne hid]
  · intro x hx
    rw [List.mem_singleton.1 hx]
    simp

theorem Fetched.trans {m m' m'' : DetailsMap} {id : String} {ids : List String} {t t' : World ε}
    (h : Fetched n [id] m m' t) (hlog : Logs t t') (h' : Fetched n ids m' m'' t') :
    Fetched n (id :: ids) m m'' t' := by
  refine ⟨fun hm => h'.contents (h.contents hm), fun x hx => h'.kept x (h.kept x hx), ?_⟩
  intro x hx
  rcases List.mem_cons.1 hx with rfl | hx
  · exact (h.told x (List.mem_singleton_self x)).imp (h'.kept x) fun htold => htold.mono hlog
  · exact h'.told x hx

/-- One turn of `fetchBatchDetailsMap`: the article has its details in the map, or a line that
says it has none. An error is caught in the turn. -/
theorem fetchDetails_told (scraper : String) (m : DetailsMap) (id : String) {w : World ε}
    (hn : n ≤ w.log.length) :
    Yields (fetchDetails ext scraper m id) w fun m' t => Fetched n [id] m m' t := by
  have hfailed : ∀ t : World ε, n ≤ t.log.length →
      Yields (do logLine (LogLine.detailsFailed id); pure m) t fun m' t => Fetched n [id] m m' t :=
    fun t ht => yields_bind (told_logLine ht _) fun _ _ h => yields_pure (fetched_of_failed h)
  refine yields_guarded ?_ hn (yields_then (logs_of_still (still_call _)) hn yields_self ?_)
    fun _ t ht => hfailed t ht
  · exact logs_of_still (still_fetchDetailsTry scraper m id)
  · rintro (_ | details) t ht _ _
    · exact hfailed t ht
    · by_cases h : details.content ≠ ""
      · simp only [if_pos h]
        exact yields_bind yields_self fun _ _ _ => yields_pure (fetched_of_update h)
      · simp only [if_neg h]
        exact hfailed t ht

theorem fetchBatchDetailsMap_told (scraper : String) (ids : List String) :
    ∀ (m : DetailsMap) (w : World ε), n ≤ w.log.length →
      Yields (fetchBatchDetailsMap ext scraper ids m) w fun m' t => Fetched n ids m m' t := by
  induction ids with
  | nil => exact fun m w _ => yields_pure ⟨fun hm => hm, fun _ hx => hx, by simp⟩
  | cons id ids ih =>
    intro m w hn
    refine yields_then (logs_of_still (still_fetchDetails _ _ _)) hn
      (fetchDetails_told scraper m id hn) fun m' t ht _ hm' => ?_
    refine (logs_of_still (still_fetchBatchDetailsMap _ _ m')).yields (ih m' t ht) |>.mono ?_
    rintro m'' t' ⟨hlog, hm''⟩
    exact hm'.trans hlog hm''

/-! ## The filter -/

/-- The articles selected are those whose ids the answer names. The line has the items that
the filter was shown, and the ids. -/
theorem selectValuableArticles_told (articles : List Article) (m : DetailsMap) {w : World ε}
    (hn : n ≤ w.log.length) :
    Yields (selectValuableArticles ext cfg articles m) w fun valuable t =>
      ∃ valuableIds,
        Told n t (LogLine.filtered (articles.map (evaluationItem cfg m)) valuableIds) ∧
          valuable = articles.filter fun article => valuableIds.contains article.id := by
  refine yields_then (logs_of_still (still_call _)) hn yields_self ?_
  intro answer t ht _ _
  cases answer with
  | arr values => exact yields_bind (told_logLine ht _) fun _ _ h => yields_pure ⟨_, h, rfl⟩
  | _ => exact yields_throw

/-! ## Summaries -/

/-- What the loop over `articles` says: `added` were summarized, and a selected
article that was not is one whose summary failed or one that came after the limit
was reached. -/
structure Summed (n limit : ℕ) (articles : List Article) (acc r : List SummarizedArticle)
    (t : World ε) (added : List SummarizedArticle) : Prop where
  result : r = acc ++ added
  order : (added.map fun s => s.article).Sublist articles
  summarized : ∀ s ∈ added, ∃ summary, Told n t (LogLine.summarized s.article.id summary)
  others : ∀ article ∈ articles, article ∈ added.map (fun s => s.article) ∨
    Told n t (LogLine.summaryFailed article.id) ∨
      (limit ≤ r.length ∧ (added.map (fun s => s.article) ++ [article]).Sublist articles)

/-- The article was summarized, or its summary failed. -/
theorem summarizeArticle_told (article : Article) (details : ArticleDetails)
    (acc : List SummarizedArticle) {w : World ε} (hn : n ≤ w.log.length) :
    Yields (summarizeArticle ext cfg article details acc) w fun r t =>
      (r = acc ∧ Told n t (LogLine.summaryFailed article.id)) ∨
        ∃ s : SummarizedArticle, r = acc ++ [s] ∧ s.article = article ∧
          ∃ summary, Told n t (LogLine.summarized article.id summary) := by
  have hfailed : ∀ t : World ε, n ≤ t.log.length →
      Yields (do logLine (LogLine.summaryFailed article.id); pure acc) t fun r t =>
        (r = acc ∧ Told n t (LogLine.summaryFailed article.id)) ∨
          ∃ s : SummarizedArticle, r = acc ++ [s] ∧ s.article = article ∧
            ∃ summary, Told n t (LogLine.summarized article.id summary) :=
    fun t ht => yields_bind (told_logLine ht _) fun _ _ h => yields_pure (Or.inl ⟨rfl, h⟩)
  refine yields_guarded (logs_of_still (still_summarizeTry _ _ _)) hn
    (yields_then (logs_of_still (still_call _)) hn yields_self ?_) fun _ t ht => hfailed t ht
  rintro (_ | summary) t ht _ _
  · exact hfailed t ht
  · refine yields_then (logs_of_still (still_logLine _)) ht (told_logLine ht _) ?_
    intro _ t' ht' _ htold
    refine yields_then (logs_of_still (still_delaySeconds _)) ht' yields_self ?_
    intro _ t'' _ hlog _
    exact yields_pure (Or.inr ⟨_, rfl, rfl, summary, htold.mono hlog⟩)

/-- The loop of `summarizeArticles`, by induction on the articles: the ones added are some of
them in their order, each has its line, and one that is not added has failed or came when the
quota was full. -/
theorem summarizeLoop_told {m : DetailsMap} (hm : HasContents m) (limit : ℕ)
    (articles : List Article) :
    ∀ (acc : List SummarizedArticle) (w : World ε), n ≤ w.log.length →
      (∀ article ∈ articles, (m article.id).isSome) →
      Yields (summarizeLoop ext cfg m limit articles acc) w fun r t =>
        ∃ added, Summed n limit articles acc r t added := by
  induction articles with
  | nil =>
    intro acc w _ _
    exact yields_pure ⟨[], by simp, List.Sublist.refl _, by simp, by simp⟩
  | cons article articles ih =>
    intro acc w hn hsome
    unfold summarizeLoop
    by_cases hlimit : limit ≤ acc.length
    · rw [if_pos hlimit]
      -- at the limit the loop stops, and every article is left over
      refine yields_pure ⟨[], by simp, List.nil_sublist _, by simp, ?_⟩
      intro a ha
      exact Or.inr (Or.inr ⟨hlimit, List.singleton_sublist.2 ha⟩)
    · rw [if_neg hlimit]
      obtain ⟨details, hdetails⟩ :=
        Option.isSome_iff_exists.1 (hsome article List.mem_cons_self)
      simp only [hdetails, if_neg (hm _ _ hdetails)]
      refine yields_then (logs_of_still (still_summarizeArticle _ _ _)) hn
        (summarizeArticle_told article details acc hn) fun r t ht _ hr => ?_
      refine (logs_of_still (still_summarizeLoop m limit articles r)).yields
        (ih r t ht fun a ha => hsome a (List.mem_cons_of_mem _ ha)) |>.mono ?_
      rintro r' t' ⟨hlog, added, hadded⟩
      rcases hr with ⟨rfl, hfailed⟩ | ⟨s, rfl, rfl, summary, hsummary⟩
      · -- the summary failed, and the rest adds what it adds
        refine ⟨added, hadded.result, hadded.order.cons _, hadded.summarized, ?_⟩
        intro a ha
        rcases List.mem_cons.1 ha with rfl | ha
        · exact Or.inr (Or.inl (hfailed.mono hlog))
        · exact (hadded.others a ha).imp_right
            (Or.imp_right fun h => ⟨h.1, h.2.cons _⟩)
      · -- the summary goes before what the rest adds, as `summarizeLoop` appends it
        refine ⟨s :: added, by rw [hadded.result]; simp, ?_, ?_, ?_⟩
        · rw [List.map_cons]
          exact hadded.order.cons_cons _
        · intro s' hs'
          rcases List.mem_cons.1 hs' with rfl | hs'
          · exact ⟨summary, hsummary.mono hlog⟩
          · exact hadded.summarized s' hs'
        · intro a ha
          rcases List.mem_cons.1 ha with rfl | ha
          · exact Or.inl (by simp)
          · refine (hadded.others a ha).imp (fun h => ?_) (Or.imp_right fun h => ⟨h.1, ?_⟩)
            · rw [List.map_cons]
              exact List.mem_cons_of_mem _ h
            · rw [List.map_cons, List.cons_append]
              exact h.2.cons_cons _

/-! ## Embeddings and saves -/

/-- The embedded articles are the summarized ones, in their order: as many vectors come as
there are texts, or the part throws. -/
theorem generateEmbeddings_articles (articles : List SummarizedArticle) (w : World ε) :
    Yields (generateEmbeddingsForArticles ext articles) w fun r _ =>
      r.map (fun item => item.article) = articles.map fun s => s.article := by
  unfold generateEmbeddingsForArticles
  by_cases h : articles = []
  · rw [if_pos h]
    apply yields_pure
    rw [h, List.map_nil, List.map_nil]
  · rw [if_neg h]
    refine yields_bind yields_self fun vectors _ _ => yields_bind yields_self fun _ t _ => ?_
    by_cases hlen : articles.length ≠ vectors.length
    · rw [if_pos hlen]
      exact yields_throw
    · rw [if_neg hlen]
      apply yields_pure
      have hfst : (articles.zip vectors).map Prod.fst = articles :=
        List.map_fst_zip (not_not.1 hlen).le
      rw [List.map_map]
      conv_rhs => rw [← hfst, List.map_map]
      rfl

/-- A row that is returned has the columns that were to be saved. -/
theorem saveTrend_data (data : TrendData) (w : World ε) :
    Yields (saveTrend ext data) w fun row _ => row.toTrendData = data := by
  intro row t h
  unfold saveTrend at h
  rcases hsave : ext.saveTrend data w.env with ⟨elapsed, fate, env⟩
  simp only [hsave] at h
  cases fate with
  | refused e => cases h
  | killedBefore => cases h
  | answered =>
    simp only at h
    split at h
    · cases h
    · cases h
      rfl
  | killedAfter =>
    simp only at h
    split at h <;> cases h

theorem logs_saveTrend (data : TrendData) : Moves Logs (saveTrend ext data) :=
  fun w => (saveTrend_spec _ data w).grew.log

theorem logs_saveTry (item : EmbeddedArticle) (result : BatchResult) :
    Moves Logs (saveTry ext item result) :=
  moves_bind (logs_saveTrend _) fun _ =>
    moves_bind (logs_of_still (still_logLine _)) fun _ => moves_pure _

/-- The article was saved, or its save failed. -/
def SaveTold (n : ℕ) (t : World ε) (item : EmbeddedArticle) : Prop :=
  (∃ row, Told n t (LogLine.saved row) ∧ row.source_id = item.article.id) ∨
    Told n t (LogLine.saveFailed (trendData item))

theorem SaveTold.mono {t t' : World ε} {item : EmbeddedArticle} (h : SaveTold n t item)
    (hlog : Logs t t') : SaveTold n t' item :=
  h.imp (fun ⟨row, hrow, hid⟩ => ⟨row, hrow.mono hlog, hid⟩) fun htold => htold.mono hlog

/-- One turn: the row was saved and counted, or its save failed and the line tells of it. -/
theorem saveItem_told (item : EmbeddedArticle) (result : BatchResult) {w : World ε}
    (hn : n ≤ w.log.length) :
    Yields (saveItem ext item result) w fun r t =>
      SaveTold n t item ∧
        (r.savedCount = result.savedCount + 1 ∨ Told n t (LogLine.saveFailed (trendData item))) := by
  refine yields_guarded (logs_saveTry item result) hn
    (yields_then (logs_saveTrend _) hn (saveTrend_data _ w) ?_) ?_
  · intro row t ht _ hrow
    refine yields_bind (told_logLine ht _) fun _ t' htold => yields_pure ⟨Or.inl ?_, Or.inl rfl⟩
    exact ⟨row, htold, congrArg TrendData.source_id hrow⟩
  · intro _ t ht
    exact yields_bind (told_logLine ht _) fun _ _ h => yields_pure ⟨Or.inr h, Or.inr h⟩

theorem logs_saveLoop (items : List EmbeddedArticle) (result : BatchResult) :
    Moves Logs (saveLoop ext items result) :=
  fun w => (saveLoop_accounted items result w).grew.log

/-- Each article was saved or its save failed, and a count below that of the
articles tells of one that failed. -/
theorem saveLoop_told (items : List EmbeddedArticle) :
    ∀ (result : BatchResult) (w : World ε), n ≤ w.log.length →
      Yields (saveLoop ext items result) w fun r t =>
        (∀ item ∈ items, SaveTold n t item) ∧
          (r.savedCount < result.savedCount + items.length →
            ∃ item ∈ items, Told n t (LogLine.saveFailed (trendData item))) := by
  induction items with
  | nil => exact fun result w _ => yields_pure ⟨by simp, by simp⟩
  | cons item items ih =>
    intro result w hn
    have hitem : Moves Logs (saveItem ext item result) :=
      fun w => (saveItem_accounted item result w).grew.log
    refine yields_then hitem hn (saveItem_told item result hn) fun r t ht _ hr => ?_
    refine ((logs_saveLoop items r).yields (ih r t ht)).mono ?_
    rintro r' t' ⟨hlog, htold, hcount⟩
    constructor
    · intro x hx
      rcases List.mem_cons.1 hx with rfl | hx
      · exact hr.1.mono hlog
      · exact htold x hx
    · intro hlt
      rcases hr.2 with hsaved | hfailed
      · rw [List.length_cons] at hlt
        obtain ⟨x, hx, hfailed⟩ := hcount (by omega)
        exact ⟨x, List.mem_cons_of_mem _ hx, hfailed⟩
      · exact ⟨item, List.mem_cons_self, hfailed.mono hlog⟩

/-! ## What becomes of an article -/

/-- The line says of the article with this id that it was saved, or where it was
dropped. -/
def settles (articleId : String) : LogLine → Prop
  | LogLine.saved row => row.source_id = articleId
  | LogLine.detailsFailed id => id = articleId
  | LogLine.filtered items valuableIds =>
    (∃ item ∈ items, item.id = articleId) ∧ articleId ∉ valuableIds
  | LogLine.summaryFailed id => id = articleId
  | LogLine.saveFailed data => data.source_id = articleId
  | _ => False

instance (articleId : String) : DecidablePred (settles articleId) := by
  intro line
  cases line <;> unfold settles <;> infer_instance

/-- The article was saved or was itself dropped. -/
def Tried (lines : List LogLine) (article : Article) : Prop :=
  ∃ line ∈ lines, settles article.id line

instance (lines : List LogLine) (article : Article) : Decidable (Tried lines article) := by
  unfold Tried
  infer_instance

theorem Tried.mono {w w' : World ε} {article : Article} (h : Tried (w.log.drop n) article)
    (hlog : Logs w w') : Tried (w'.log.drop n) article := by
  obtain ⟨line, hline, hsettles⟩ := h
  exact ⟨line, Told.mono (w := w) hline hlog, hsettles⟩

/-- The selected article was not summarized, since the articles `done` of its batch,
which came before it, used up the quota of the batch; but not all of them were
saved. -/
structure CutOff (lines : List LogLine) (batch : List Article) (quota : ℕ) (done : List Article)
    (article : Article) : Prop where
  started : LogLine.batchStarted batch quota ∈ lines
  selected : ∃ items valuableIds, LogLine.filtered items valuableIds ∈ lines ∧
    article.id ∈ valuableIds
  order : (done ++ [article]).Sublist batch
  used : done.length = quota
  summarized : ∀ a ∈ done, ∃ summary, LogLine.summarized a.id summary ∈ lines
  refused : ∃ a ∈ done, ∃ data, LogLine.saveFailed data ∈ lines ∧ data.source_id = a.id

/-- What the lines tell of an article of an attempt below its target. -/
def Settled (lines : List LogLine) (article : Article) : Prop :=
  Tried lines article ∨ ∃ batch quota done, CutOff lines batch quota done article

theorem Settled.mono {w w' : World ε} {article : Article} (h : Settled (w.log.drop n) article)
    (hlog : Logs w w') : Settled (w'.log.drop n) article := by
  have hsub : ∀ line ∈ w.log.drop n, line ∈ w'.log.drop n := fun line hline =>
    Told.mono (w := w) hline hlog
  rcases h with htried | ⟨batch, quota, done, h⟩
  · exact Or.inl (htried.mono hlog)
  · obtain ⟨items, valuableIds, hselected, hid⟩ := h.selected
    obtain ⟨a, ha, data, hdata, hrefused⟩ := h.refused
    exact Or.inr ⟨batch, quota, done, hsub _ h.started, ⟨items, valuableIds, hsub _ hselected, hid⟩,
      h.order, h.used, fun x hx => (h.summarized x hx).imp fun _ => hsub _,
      ⟨a, ha, data, hsub _ hdata, hrefused⟩⟩

theorem SaveTold.tried {t : World ε} {item : EmbeddedArticle} (h : SaveTold n t item) :
    Tried (t.log.drop n) item.article := by
  rcases h with ⟨row, hrow, hid⟩ | hfailed
  · exact ⟨_, hrow, hid⟩
  · exact ⟨_, hfailed, rfl⟩

/-! ## The stages of a batch -/

section Stages

variable (ext cfg)

/-- `processBatch` from the embeddings on. -/
def embedAndSave (summarizedArticles : List SummarizedArticle) : Attempt ε BatchResult := do
  let embeddedArticles ← generateEmbeddingsForArticles ext summarizedArticles
  if embeddedArticles = [] then pure BatchResult.none else saveTrends ext embeddedArticles

/-- `processBatch` from the summaries on. -/
def summarizeAndSave (valuableArticles : List Article) (articleDetailsMap : DetailsMap)
    (limit : ℕ) : Attempt ε BatchResult := do
  let summarizedArticles ← summarizeArticles ext cfg valuableArticles articleDetailsMap limit
  if summarizedArticles = [] then pure BatchResult.none else embedAndSave ext summarizedArticles

/-- `processBatch` from the filter on. -/
def selectAndSave (validArticles : List Article) (articleDetailsMap : DetailsMap) (limit : ℕ) :
    Attempt ε BatchResult := do
  let valuableArticles ← selectValuableArticles ext cfg validArticles articleDetailsMap
  if valuableArticles = [] then pure BatchResult.none
  else summarizeAndSave ext cfg valuableArticles articleDetailsMap limit

theorem processBatch_eq (batch : List Article) (scraper : String) (limit : ℕ) :
    processBatch ext cfg batch scraper limit =
      (fetchBatchDetailsMap ext scraper (batch.map fun article => article.id) fun _ => none) >>=
        fun articleDetailsMap =>
          let validArticles := batch.filter fun article => (articleDetailsMap article.id).isSome
          if validArticles = [] then pure BatchResult.none
          else selectAndSave ext cfg validArticles articleDetailsMap limit := rfl

theorem logs_unless {α : Type} {c : Prop} [Decidable c] {a : α} {x : Attempt ε α}
    (h : Moves Logs x) : Moves Logs (if c then pure a else x) := by
  by_cases hc : c
  · rw [if_pos hc]
    exact moves_pure _
  · rw [if_neg hc]
    exact h

theorem logs_embedAndSave (summarized : List SummarizedArticle) :
    Moves Logs (embedAndSave ext summarized) :=
  moves_bind (logs_of_still (still_generateEmbeddings _)) fun _ => logs_unless (logs_saveLoop _ _)

theorem logs_summarizeAndSave (valuable : List Article) (m : DetailsMap) (limit : ℕ) :
    Moves Logs (summarizeAndSave ext cfg valuable m limit) :=
  moves_bind (logs_of_still (still_summarizeLoop _ _ _ _)) fun _ =>
    logs_unless (logs_embedAndSave _ _)

theorem logs_selectAndSave (valid : List Article) (m : DetailsMap) (limit : ℕ) :
    Moves Logs (selectAndSave ext cfg valid m limit) :=
  moves_bind (logs_of_still (still_selectValuableArticles _ _)) fun _ =>
    logs_unless (logs_summarizeAndSave _ _ _ _ _)

end Stages

/-- Each summarized article is saved or its save fails, and a count below that of the
summarized articles tells of one that failed. -/
theorem embedAndSave_told (summarized : List SummarizedArticle) {w : World ε}
    (hn : n ≤ w.log.length) :
    Yields (embedAndSave ext summarized) w fun r t =>
      (∀ s ∈ summarized, Tried (t.log.drop n) s.article) ∧
        (r.savedCount < summarized.length → ∃ s ∈ summarized, ∃ data,
          Told n t (LogLine.saveFailed data) ∧ data.source_id = s.article.id) := by
  refine yields_then (logs_of_still (still_generateEmbeddings _)) hn
    (generateEmbeddings_articles _ _) fun embedded t ht _ hembedded => ?_
  have hlength : embedded.length = summarized.length := by
    simpa using congrArg List.length hembedded
  by_cases hempty : embedded = []
  · rw [hempty, List.length_nil] at hlength
    rw [if_pos hempty, List.length_eq_zero_iff.1 hlength.symm]
    exact yields_pure ⟨by simp, by simp⟩
  · rw [if_neg hempty]
    refine (saveLoop_told embedded BatchResult.none t ht).mono ?_
    rintro r t' ⟨hsaved, hcount⟩
    constructor
    · intro s hs
      have hmem : s.article ∈ embedded.map fun item => item.article :=
        hembedded ▸ List.mem_map_of_mem hs
      obtain ⟨item, hitem, harticle⟩ := List.mem_map.1 hmem
      exact harticle ▸ (hsaved item hitem).tried
    · intro hlt
      obtain ⟨item, hitem, hfailed⟩ := hcount (by simpa [BatchResult.none, hlength] using hlt)
      have hmem : item.article ∈ summarized.map fun s => s.article :=
        hembedded ▸ List.mem_map_of_mem hitem
      obtain ⟨s, hs, harticle⟩ := List.mem_map.1 hmem
      exact ⟨s, hs, _, hfailed, congrArg Article.id harticle.symm⟩

/-- The article was not summarized, since the articles `done`, which came before it,
took up the limit; but not all of them were saved. -/
structure LeftOut (n limit : ℕ) (articles : List Article) (t : World ε) (done : List Article)
    (article : Article) : Prop where
  order : (done ++ [article]).Sublist articles
  used : done.length = limit
  summarized : ∀ a ∈ done, ∃ summary, Told n t (LogLine.summarized a.id summary)
  refused : ∃ a ∈ done, ∃ data, Told n t (LogLine.saveFailed data) ∧ data.source_id = a.id

/-- Below the limit, a selected article has its line or was left out. When the quota was full
at the summaries and the batch still saved less, one of the articles that filled it was not
saved. -/
theorem summarizeAndSave_told (valuable : List Article) {m : DetailsMap} (hm : HasContents m)
    (limit : ℕ) {w : World ε} (hn : n ≤ w.log.length)
    (hsome : ∀ article ∈ valuable, (m article.id).isSome) :
    Yields (summarizeAndSave ext cfg valuable m limit) w fun r t =>
      r.savedCount < limit → ∀ article ∈ valuable, Tried (t.log.drop n) article ∨
        ∃ done, LeftOut n limit valuable t done article := by
  have hloop : Yields (summarizeLoop ext cfg m limit valuable []) w fun r t =>
      (∃ added, Summed n limit valuable [] r t added) ∧ r.length ≤ limit :=
    fun r t h => ⟨summarizeLoop_told hm limit valuable [] w hn hsome r t h,
      summarizeLoop_length m limit valuable [] w (Nat.zero_le _) r t h⟩
  refine yields_then (logs_of_still (still_summarizeLoop _ _ _ _)) hn hloop ?_
  rintro summarized t ht _ ⟨⟨added, hadded⟩, hlength⟩
  obtain rfl : summarized = added := hadded.result
  by_cases hnone : summarized = []
  · rw [if_pos hnone]
    apply yields_pure
    intro hlt article harticle
    rcases hadded.others article harticle with hdone | hfailed | ⟨hlimit, -⟩
    · rw [hnone] at hdone
      cases hdone
    · exact Or.inl ⟨_, hfailed, rfl⟩
    · -- a limit that nothing takes up is 0, and no count is below it
      rw [hnone, List.length_nil] at hlimit
      exact absurd hlt (by omega)
  · rw [if_neg hnone]
    refine ((logs_embedAndSave ext summarized).yields (embedAndSave_told summarized ht)).mono ?_
    rintro r t' ⟨hlog, hsaved, hcount⟩ hlt article harticle
    rcases hadded.others article harticle with hdone | hfailed | ⟨hlimit, horder⟩
    · obtain ⟨s, hs, rfl⟩ := List.mem_map.1 hdone
      exact Or.inl (hsaved s hs)
    · exact Or.inl ⟨_, hfailed.mono hlog, rfl⟩
    · have hused : summarized.length = limit := le_antisymm hlength hlimit
      refine Or.inr ⟨_, horder, (List.length_map _).trans hused, ?_, ?_⟩
      · intro a ha
        obtain ⟨s, hs, rfl⟩ := List.mem_map.1 ha
        exact (hadded.summarized s hs).imp fun _ h => h.mono hlog
      · obtain ⟨s, hs, hrefused⟩ := hcount (hused ▸ hlt)
        exact ⟨s.article, List.mem_map_of_mem hs, hrefused⟩

/-- Below the limit, an article with details has its line, or was selected and left
out. -/
theorem selectAndSave_told (valid : List Article) {m : DetailsMap} (hm : HasContents m)
    (limit : ℕ) {w : World ε} (hn : n ≤ w.log.length)
    (hsome : ∀ article ∈ valid, (m article.id).isSome) :
    Yields (selectAndSave ext cfg valid m limit) w fun r t =>
      r.savedCount < limit → ∀ article ∈ valid, Tried (t.log.drop n) article ∨
        ∃ items valuableIds done, Told n t (LogLine.filtered items valuableIds) ∧
          article.id ∈ valuableIds ∧ LeftOut n limit valid t done article := by
  refine yields_then (logs_of_still (still_selectValuableArticles _ _)) hn
    (selectValuableArticles_told valid m hn) ?_
  rintro valuable t ht _ ⟨valuableIds, hfiltered, hvaluable⟩
  have hmem : ∀ article, article ∈ valuable ↔ article ∈ valid ∧ article.id ∈ valuableIds := by
    intro article
    rw [hvaluable, List.mem_filter, List.contains_iff_mem]
  -- an article that the answer does not name was shown to the filter
  have hunselected : ∀ article ∈ valid, article ∉ valuable → Tried (t.log.drop n) article := by
    intro article harticle hnot
    refine ⟨_, hfiltered, ⟨_, List.mem_map_of_mem harticle, rfl⟩, ?_⟩
    exact fun hid => hnot ((hmem article).2 ⟨harticle, hid⟩)
  by_cases hnone : valuable = []
  · rw [if_pos hnone]
    refine yields_pure fun _ article harticle => Or.inl (hunselected article harticle ?_)
    rw [hnone]
    exact List.not_mem_nil
  · rw [if_neg hnone]
    refine ((logs_summarizeAndSave ext cfg valuable m limit).yields
      (summarizeAndSave_told valuable hm limit ht fun article harticle =>
        hsome article ((hmem article).1 harticle).1)).mono ?_
    rintro r t' ⟨hlog, htold⟩ hlt article harticle
    by_cases hin : article ∈ valuable
    · refine (htold hlt article hin).imp_right ?_
      rintro ⟨done, hleft⟩
      have hsub : valuable.Sublist valid := hvaluable ▸ List.filter_sublist
      exact ⟨_, valuableIds, done, hfiltered.mono hlog, ((hmem article).1 hin).2,
        hleft.order.trans hsub, hleft.used, hleft.summarized, hleft.refused⟩
    · exact Or.inl ((hunselected article harticle hin).mono hlog)

/-- A batch that saved less than its limit. The article is followed through the
stages in turn; each stage says what it dropped, and the last one says of the
articles that took up the limit that one was not saved. -/
theorem processBatch_told (batch : List Article) (scraper : String) (limit : ℕ) {w : World ε}
    (hn : n ≤ w.log.length) (hstarted : Told n w (LogLine.batchStarted batch limit)) :
    Yields (processBatch ext cfg batch scraper limit) w fun r t =>
      r.savedCount < limit → ∀ article ∈ batch, Settled (t.log.drop n) article := by
  rw [processBatch_eq]
  refine yields_then (logs_of_still (still_fetchBatchDetailsMap _ _ _)) hn
    (fetchBatchDetailsMap_told scraper _ _ w hn) fun m t ht hstart hm => ?_
  have hcontents : HasContents m := hm.contents (by rintro id details ⟨⟩)
  -- an article without details has failed
  have hinvalid : ∀ article ∈ batch, ¬ (m article.id).isSome → Tried (t.log.drop n) article := by
    intro article harticle hnot
    exact ⟨_, (hm.told article.id (List.mem_map_of_mem harticle)).resolve_left hnot, rfl⟩
  simp only
  by_cases hnone : batch.filter (fun article => (m article.id).isSome) = []
  · rw [if_pos hnone]
    refine yields_pure fun _ article harticle => Or.inl (hinvalid article harticle ?_)
    exact List.filter_eq_nil_iff.1 hnone article harticle
  · rw [if_neg hnone]
    refine ((logs_selectAndSave ext cfg _ m limit).yields
      (selectAndSave_told _ hcontents limit ht fun article harticle =>
        (List.mem_filter.1 harticle).2)).mono ?_
    rintro r t' ⟨hlog, htold⟩ hlt article harticle
    by_cases hsome : (m article.id).isSome
    · rcases htold hlt article (List.mem_filter.2 ⟨harticle, hsome⟩) with
        htried | ⟨items, valuableIds, done, hfiltered, hid, hleft⟩
      · exact Or.inl htried
      · exact Or.inr ⟨batch, limit, done, hstarted.mono (trans_of Logs hstart hlog),
          ⟨items, valuableIds, hfiltered, hid⟩, hleft.order.trans List.filter_sublist,
          hleft.used, hleft.summarized, hleft.refused⟩
    · exact Or.inl ((hinvalid article harticle hsome).mono hlog)

/-! ## The loop over the batches -/

/-- A positive size loses no element: each turn moves on by the chunk it makes. -/
theorem chunkLoop_flatten {α : Type} (array : List α) {size : ℕ} (hsize : 0 < size) (turns : ℕ) :
    ∀ i, array.length ≤ i + turns → (chunkLoop array size turns i).flatten = array.drop i := by
  induction turns with
  | zero =>
    intro i hi
    rw [chunkLoop, List.flatten_nil, List.drop_eq_nil_of_le (by omega)]
  | succ turns ih =>
    intro i hi
    rw [chunkLoop]
    by_cases hlt : i < array.length
    · rw [if_pos hlt, List.flatten_cons, ih (i + size) (by omega), ← List.drop_drop,
        List.take_append_drop]
    · rw [if_neg hlt, List.flatten_nil, List.drop_eq_nil_of_le (by omega)]

theorem chunkArray_flatten {α : Type} (array : List α) {size : ℕ} (hsize : 0 < size) :
    (chunkArray array size).flatten = array :=
  chunkLoop_flatten array hsize array.length 0 (by omega)

/-- The loop over the batches. Below the target no batch was skipped, as the `break` asks for
the target first, and each has saved less than what was left for it. -/
theorem batchLoop_told (scraper : String) (savedBaseline : ℕ) (batches : List (List Article)) :
    ∀ (sofar : BatchResult) (w : World ε), n ≤ w.log.length →
      Yields (batchLoop ext cfg scraper savedBaseline batches sofar) w fun r t =>
        sofar.savedCount ≤ r.savedCount ∧
          (savedBaseline + r.savedCount < cfg.TARGET_SAVE_COUNT →
            ∀ article ∈ batches.flatten, Settled (t.log.drop n) article) := by
  induction batches with
  | nil => exact fun sofar w _ => yields_pure ⟨le_rfl, by simp⟩
  | cons batch batches ih =>
    intro sofar w hn
    unfold batchLoop
    by_cases htarget : cfg.TARGET_SAVE_COUNT ≤ savedBaseline + sofar.savedCount
    · simp only [if_pos htarget]
      exact yields_pure ⟨le_rfl, fun hlt => absurd htarget (by omega)⟩
    · simp only [if_neg htarget]
      refine yields_then (logs_of_still (still_logLine _)) hn (told_logLine hn _)
        fun _ t₁ ht₁ _ hstarted => ?_
      have hbatch : Moves Logs (processBatch ext cfg batch scraper
          (cfg.TARGET_SAVE_COUNT - (savedBaseline + sofar.savedCount))) :=
        fun w => (processBatch_accounted _ _ batch scraper _ w).grew.log
      refine yields_then hbatch ht₁ (processBatch_told batch scraper _ ht₁ hstarted)
        fun r t₂ ht₂ _ hr => ?_
      have hrest : ∀ sofar, Moves Logs (batchLoop ext cfg scraper savedBaseline batches sofar) :=
        fun sofar w => (batchLoop_accounted _ _ scraper savedBaseline batches sofar w).grew.log
      refine ((hrest _).yields (ih ⟨sofar.savedCount + r.savedCount,
        sofar.savedArticles ++ r.savedArticles⟩ t₂ ht₂)).mono ?_
      rintro r' t₃ ⟨hlog, hle, htold⟩
      simp only at hle
      refine ⟨by omega, fun hlt article harticle => ?_⟩
      rw [List.flatten_cons] at harticle
      rcases List.mem_append.1 harticle with hin | hin
      · exact (hr (by omega) article hin).mono hlog
      · exact htold hlt article hin

/-! ## An attempt -/

/-- The lines logged between two worlds. -/
def newLines (w w' : World ε) : List LogLine := w'.log.drop w.log.length

/-- **Below the target.** An attempt that returns with less than its target has
tried each new article, but for the selected ones that came after the quota of
their batch was used up by articles that could not all be saved. -/
theorem processSource_settles (ext : Externals ε) (cfg : PipelineConfig) (scraper : String)
    (w w₁ w₂ w₃ w' : World ε) (savedBaseline : ℕ) (articles newArticles : List Article)
    (r : ScrapeJobResult)
    (hbaseline : countSavedSince ext scraper (getTodayStartUtc w.now) w =
      (Outcome.ret savedBaseline, w₁))
    (harticles : call (ext.getArticles scraper) w₁ = (Outcome.ret articles, w₂))
    (hnew : excludeExistingArticles ext articles scraper w₂ = (Outcome.ret newArticles, w₃))
    (hrun : processSource ext cfg scraper w = (Outcome.ret r, w'))
    (hbelow : savedBaseline + r.savedCount < cfg.TARGET_SAVE_COUNT) :
    ∀ article ∈ newArticles, Settled (newLines w w') article := by
  have hlog : Logs w w₃ := by
    have h₁ := logs_of_still (still_countSavedSince ext scraper (getTodayStartUtc w.now)) w
    have h₂ := logs_of_still (still_call (ext.getArticles scraper)) w₁
    have h₃ := logs_of_still (still_excludeExistingArticles ext articles scraper) w₂
    rw [hbaseline] at h₁
    rw [harticles] at h₂
    rw [hnew] at h₃
    exact trans_of Logs h₁ (trans_of Logs h₂ h₃)
  unfold processSource at hrun
  obtain ⟨_, _, hreads, hrun⟩ := bind_eq_ret hrun
  cases hreads
  obtain ⟨_, _, hcount, hrun⟩ := bind_eq_ret hrun
  cases hcount.symm.trans hbaseline
  rw [if_neg (by omega)] at hrun
  unfold processArticles at hrun
  obtain ⟨_, _, hget, hrun⟩ := bind_eq_ret hrun
  cases hget.symm.trans harticles
  intro article harticle
  by_cases hnone : articles = []
  · -- no articles, so no new ones
    rw [hnone] at hnew
    obtain ⟨_, _, _, hpure⟩ := bind_eq_ret hnew
    cases hpure
    cases harticle
  · rw [if_neg hnone] at hrun
    obtain ⟨_, _, hexclude, hrun⟩ := bind_eq_ret hrun
    cases hexclude.symm.trans hnew
    rw [if_neg (List.ne_nil_of_mem harticle)] at hrun
    obtain ⟨result, t, hloop, hpure⟩ := bind_eq_ret hrun
    cases hpure
    have htold := batchLoop_told scraper savedBaseline _ BatchResult.none w₃ hlog.length_le
      result w' hloop
    refine htold.2 hbelow article ?_
    rw [chunkArray_flatten newArticles cfg.batchSize_pos]
    exact harticle

/-- Everything answers at once, and every save is refused. -/
def refusing (articles : List Article) : Externals Unit where
  countSavedSince := fun env => ⟨Outcome.ret (), 0, env⟩
  findExistingSourceIds := fun env => ⟨Outcome.ret (), 0, env⟩
  getArticles := fun _ env => ⟨Outcome.ret articles, 0, env⟩
  getArticleDetails := fun _ _ env => ⟨Outcome.ret (some ⟨"content", none, none, none⟩), 0, env⟩
  filterBatchWithAi := fun items env =>
    ⟨Outcome.ret (Json.arr (items.map fun item => Json.str item.id)), 0, env⟩
  summarizeContentWithAi := fun params env =>
    ⟨Outcome.ret (some ⟨params.title, [], "", none⟩), 0, env⟩
  vectorEmbeddingWithAi := fun texts env => ⟨Outcome.ret (texts.map fun _ => []), 0, env⟩
  delaySeconds := fun env => (0, false, env)
  saveTrend := fun _ env => (0, SaveFate.refused "connection terminated", env)

/-- One article is wanted, and two are in a batch. -/
def oneWanted : PipelineConfig where
  TARGET_SAVE_COUNT := 1
  BATCH_SIZE := 2
  batchSize_pos := by decide
  AI_DELAY_SECONDS := 0
  TEXT_SNIPPET_LENGTH := 100
  TEXT_CONTENT_LENGTH := 100

def first : Article := ⟨"1", "first", "https://dev.to/1", "2025-01-01", "dev.to"⟩

def second : Article := ⟨"2", "second", "https://dev.to/2", "2025-01-01", "dev.to"⟩

def newWorld : World Unit := ⟨0, TrendTable.empty, 1, (), []⟩

/-- What the attempt for the two articles ends in. -/
def refusedWorld : World Unit :=
  (processSource (refusing [first, second]) oneWanted "dev.to" newWorld).2

theorem refused_run : processSource (refusing [first, second]) oneWanted "dev.to" newWorld =
    (Outcome.ret ⟨"dev.to", 0, []⟩, refusedWorld) := by
  unfold refusedWorld
  apply eq_of_outcome
  decide +kernel

theorem processSource_settles_refused :
    Settled (newLines newWorld refusedWorld) first ∧
      Settled (newLines newWorld refusedWorld) second := by
  have hsettled := processSource_settles (refusing [first, second]) oneWanted "dev.to" newWorld
    newWorld newWorld newWorld refusedWorld 0 [first, second] [first, second] ⟨"dev.to", 0, []⟩
    rfl rfl (Prod.ext (by decide +kernel) rfl) refused_run (by decide)
  exact ⟨hsettled first (by decide), hsettled second (by decide)⟩

/-- The first article is summarized and cannot be saved; the second is selected and
never summarized, and the attempt returns with nothing saved of the one wanted. -/
theorem processSource_refused_notTried :
    countSavedSince (refusing [first, second]) "dev.to" (getTodayStartUtc newWorld.now) newWorld =
        (Outcome.ret 0, newWorld) ∧
      (excludeExistingArticles (refusing [first, second]) [first, second] "dev.to" newWorld).1 =
        Outcome.ret [first, second] ∧
      ([first, second].map fun article => article.id).Nodup ∧
      processSource (refusing [first, second]) oneWanted "dev.to" newWorld =
        (Outcome.ret ⟨"dev.to", 0, []⟩, refusedWorld) ∧
      0 + 0 < oneWanted.TARGET_SAVE_COUNT ∧
      ¬ Tried (newLines newWorld refusedWorld) second :=
  ⟨rfl, by decide +kernel, by decide, refused_run, by decide, by decide +kernel⟩

end Pipeline

end TechTrends
