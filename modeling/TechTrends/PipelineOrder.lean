/-
The order in which an attempt goes through the listing of its scraper.

The rows of an attempt are inserted in the order of the listing, whatever is left out in
between and however the attempt ends. And it does not reach ahead: when the row of an
article is inserted, the attempt has asked for the details of every new article that is
listed before it.
-/
import TechTrends.PipelineScope

set_option autoImplicit false

namespace Effect

universe u

variable {σ ε : Type*} {α β : Type u}

/-- What is made of the value at the end leaves the state alone. -/
theorem bind_pure_state (x : Effect σ ε α) (f : α → β) (s : σ) : ((x >>= fun a => pure (f a)) s).2 = (x s).2 := by
  show (andThen (x s) fun a => pure (f a)).2 = (x s).2
  rcases x s with ⟨o, t⟩
  cases o <;> rfl

end Effect

namespace TechTrends

namespace Pipeline

open Effect (Moves Yields yields_self yields_pure yields_throw yields_reads yields_bind moves_pure
  moves_bind moves_tryCatch)

variable {ε : Type} {ext : Externals ε} {cfg : PipelineConfig} {n : ℕ}

/-! ## Rows in an order -/

/-- Rows with some of the keys are inserted, in their order. -/
def Inserts {κ : Type} (key : TechTrend → κ) (keys : List κ) (w w' : World ε) : Prop :=
  ∃ inserted, w'.table.rows = w.table.rows ++ inserted ∧ (inserted.map key).Sublist keys

section Inserts

variable {κ : Type} {key : TechTrend → κ} {keys keys' : List κ}

theorem inserts_of_table {w w' : World ε} (h : w'.table = w.table) (keys : List κ) : Inserts key keys w w' :=
  ⟨[], by rw [h, List.append_nil], List.nil_sublist _⟩

theorem Still.inserts {w w' : World ε} (h : Still w w') (keys : List κ) : Inserts key keys w w' :=
  inserts_of_table h.table keys

theorem Inserts.mono {w w' : World ε} (h : Inserts key keys w w') (hsub : keys.Sublist keys') :
    Inserts key keys' w w' := h.imp fun _ hins => ⟨hins.1, hins.2.trans hsub⟩

theorem Inserts.append {w u t : World ε} (h : Inserts key keys w u) (h' : Inserts key keys' u t) :
    Inserts key (keys ++ keys') w t := by
  obtain ⟨inserted, hrows, hkeys⟩ := h
  obtain ⟨inserted', hrows', hkeys'⟩ := h'
  refine ⟨inserted ++ inserted', by rw [hrows', hrows, List.append_assoc], ?_⟩
  rw [List.map_append]
  exact hkeys.append hkeys'

/-- A part of the key is kept in order as well. -/
theorem Inserts.map {κ' : Type} {key' : TechTrend → κ'} {f : κ → κ'} (hf : ∀ row, key' row = f (key row))
    {w w' : World ε} (h : Inserts key keys w w') : Inserts key' (keys.map f) w w' := by
  obtain ⟨inserted, hrows, hkeys⟩ := h
  refine ⟨inserted, hrows, ?_⟩
  have hmap := hkeys.map f
  rwa [List.map_map, ← show key' = f ∘ key from funext hf] at hmap

/-- **Sequence.** What the first part inserts comes before what the second one does. -/
theorem inserts_bind {α β : Type} {x : Attempt ε α} {f : α → Attempt ε β} (hx : Moves (Inserts key keys) x)
    (hf : ∀ a, Moves (Inserts key keys') (f a)) : Moves (Inserts key (keys ++ keys')) (x >>= f) := by
  intro w
  show Inserts key _ w (Effect.andThen (x w) f).2
  have hw := hx w
  rcases h : x w with ⟨o, u⟩
  rw [h] at hw
  cases o with
  | ret a => exact hw.append (hf a u)
  | throw e => exact hw.mono (List.sublist_append_left _ _)
  | killed => exact hw.mono (List.sublist_append_left _ _)

/-- A first part that inserts nothing, and a second one for the values that it returns. -/
theorem inserts_after {α β : Type} {x : Attempt ε α} {f : α → Attempt ε β} {P : α → Prop} (hx : Moves Still x)
    (hP : ∀ w, Yields x w fun a _ => P a) (hf : ∀ a, P a → Moves (Inserts key keys) (f a)) :
    Moves (Inserts key keys) (x >>= f) := by
  intro w
  refine Moves.ensures_bind (Q := fun _ t => Inserts key keys w t) hx (hP w) ?_
    (fun _ _ hs => hs.inserts keys) fun _ hs => hs.inserts keys
  intro a t hs ha
  exact (hs.inserts []).append (hf a ha t)

theorem inserts_unless {α : Type} {c : Prop} [Decidable c] {a : α} {x : Attempt ε α}
    (h : Moves (Inserts key keys) x) : Moves (Inserts key keys) (if c then pure a else x) := by
  by_cases hc : c
  · rw [if_pos hc]
    exact fun w => inserts_of_table rfl keys
  · rw [if_neg hc]
    exact h

end Inserts

/-! ## Saves -/

/-- A save inserts the row of its data or none. -/
theorem inserts_saveTrend (data : TrendData) :
    Moves (Inserts TechTrend.toTrendData [data]) (saveTrend ext data) := by
  intro w
  unfold saveTrend
  rcases ext.saveTrend data w.env with ⟨elapsed, fate, env⟩
  have hinsert : ∀ (table : TrendTable) (row : TechTrend) (w' : World ε), w.table.insert row = some table →
      row.toTrendData = data → w'.table = table → Inserts TechTrend.toTrendData [data] w w' := by
    rintro table row w' hins rfl rfl
    exact ⟨[row], TrendTable.insert_rows hins, List.Sublist.refl _⟩
  cases fate with
  | refused e => exact inserts_of_table rfl _
  | killedBefore => exact inserts_of_table rfl _
  | answered =>
    simp only
    split
    · exact inserts_of_table rfl _
    · next table hins => exact hinsert table _ _ hins rfl rfl
  | killedAfter =>
    simp only
    split
    · exact inserts_of_table rfl _
    · next table hins => exact hinsert table _ _ hins rfl rfl

/-- One turn of the loop of `saveTrends`, which catches the error of the save, inserts the row
of its article or none. -/
theorem inserts_saveItem (item : EmbeddedArticle) (result : BatchResult) :
    Moves (Inserts TechTrend.toTrendData [trendData item]) (saveItem ext item result) := by
  intro w
  have htry : Moves (Inserts TechTrend.toTrendData [trendData item]) (saveTry ext item result) := by
    have hline : ∀ row, Moves (Inserts TechTrend.toTrendData []) (do
        logLine (LogLine.saved row)
        pure { savedCount := result.savedCount + 1, savedArticles := result.savedArticles ++
          [{ id := row.id, sourceId := row.source_id, title := row.title, url := row.link_url }] } :
        Attempt ε BatchResult) := fun row w => inserts_of_table rfl []
    exact inserts_bind (inserts_saveTrend (trendData item)) hline
  show Inserts TechTrend.toTrendData [trendData item] w (saveItem ext item result w).2
  unfold saveItem Effect.tryCatch
  have hw := htry w
  rcases h : saveTry ext item result w with ⟨o, u⟩
  rw [h] at hw
  cases o with
  | ret r => exact hw
  -- the line of a failed save
  | throw e => exact hw.append (inserts_of_table rfl [])
  | killed => exact hw

/-- The loop inserts in the order of the articles. -/
theorem inserts_saveLoop (items : List EmbeddedArticle) : ∀ result : BatchResult,
    Moves (Inserts TechTrend.toTrendData (items.map trendData)) (saveLoop ext items result) := by
  induction items with
  | nil => exact fun result w => inserts_of_table rfl []
  | cons item items ih => exact fun result => inserts_bind (inserts_saveItem item result) ih

/-! ## A batch -/

/-- An answer that a call may get. -/
def Replies {α : Type} (f : ε → Reply ε α) (a : α) : Prop := ∃ env, (f env).outcome = Outcome.ret a

theorem replies_call {α : Type} (f : ε → Reply ε α) (w : World ε) : Yields (call f) w fun a _ => Replies f a :=
  fun _ _ h => ⟨w.env, (Prod.mk.inj h).1⟩

/-- The request for the summary of an article. -/
def summaryRequest (cfg : PipelineConfig) (article : Article) (details : ArticleDetails) : SummarizeContentParams where
  title := article.title
  content := TextUtil.sanitizeAndFilter (JsString.utf16 details.content) cfg.TEXT_CONTENT_LENGTH

/-- The summary was told, and is an answer to the request for it. -/
structure SummaryTold (ext : Externals ε) (cfg : PipelineConfig) (n : ℕ) (w : World ε) (s : SummarizedArticle) :
    Prop where
  told : Told n w (LogLine.summarized s.article.id s.summary)
  replied : Replies (ext.summarizeContentWithAi (summaryRequest cfg s.article s.articleDetails)) (some s.summary)

theorem SummaryTold.mono {w w' : World ε} {s : SummarizedArticle} (h : SummaryTold ext cfg n w s) (hlog : Logs w w') :
    SummaryTold ext cfg n w' s := ⟨h.told.mono hlog, h.replied⟩

/-- The article is added with the details it was summarized from, and a summary that the AI
gave for these; or nothing is added. -/
theorem summarizeArticle_added (article : Article) (details : ArticleDetails) (acc : List SummarizedArticle)
    {w : World ε} (hn : n ≤ w.log.length) :
    Yields (summarizeArticle ext cfg article details acc) w fun r t =>
      r = acc ∨ ∃ s, r = acc ++ [s] ∧ s.article = article ∧ s.articleDetails = details ∧ SummaryTold ext cfg n t s := by
  have hfailed : ∀ t : World ε, Yields (do logLine (LogLine.summaryFailed article.id); pure acc) t fun r t =>
      r = acc ∨ ∃ s, r = acc ++ [s] ∧ s.article = article ∧ s.articleDetails = details ∧ SummaryTold ext cfg n t s :=
    fun t => yields_bind yields_self fun _ _ _ => yields_pure (Or.inl rfl)
  refine yields_guarded (logs_of_still (still_summarizeTry _ _ _)) hn
    (yields_then (logs_of_still (still_call _)) hn (replies_call _ _) ?_) fun _ t _ => hfailed t
  rintro (_ | summary) t ht _ hreplied
  · exact hfailed t
  · refine yields_then (logs_of_still (still_logLine _)) ht (told_logLine ht _) ?_
    intro _ t' ht' _ htold
    refine yields_then (logs_of_still (still_delaySeconds _)) ht' yields_self ?_
    intro _ t'' _ hlog _
    exact yields_pure (Or.inr ⟨_, rfl, rfl, rfl, ⟨htold.mono hlog, hreplied⟩⟩)

/-- The articles that are summarized are some of the given ones, in their order, each with its
own details and a summary that was told for it. -/
theorem summarizeLoop_added (m : DetailsMap) (limit : ℕ) (articles : List Article) :
    ∀ (acc : List SummarizedArticle) (w : World ε), n ≤ w.log.length →
      Yields (summarizeLoop ext cfg m limit articles acc) w fun r t =>
        ∃ added, r = acc ++ added ∧ (added.map fun s => s.article).Sublist articles ∧
          ∀ s ∈ added, m s.article.id = some s.articleDetails ∧ SummaryTold ext cfg n t s := by
  induction articles with
  | nil => exact fun acc w _ => yields_pure ⟨[], (List.append_nil acc).symm, List.Sublist.refl _, by simp⟩
  | cons article articles ih =>
    intro acc w hn
    unfold summarizeLoop
    -- the rest of the loop, whatever the first article came to
    have hlater : ∀ (acc' : List SummarizedArticle) (t : World ε), n ≤ t.log.length →
        Yields (summarizeLoop ext cfg m limit articles acc') t fun r t =>
          ∃ added, r = acc' ++ added ∧ (added.map fun s => s.article).Sublist (article :: articles) ∧
            ∀ s ∈ added, m s.article.id = some s.articleDetails ∧ SummaryTold ext cfg n t s := by
      intro acc' t ht
      refine (ih acc' t ht).mono ?_
      rintro r t' ⟨added, hr, hsub, htold⟩
      exact ⟨added, hr, hsub.cons article, htold⟩
    by_cases hlimit : limit ≤ acc.length
    · rw [if_pos hlimit]
      exact yields_pure ⟨[], (List.append_nil acc).symm, List.nil_sublist _, by simp⟩
    · rw [if_neg hlimit]
      cases hdetails : m article.id with
      | none => exact hlater acc w hn
      | some details =>
        by_cases hempty : details.content = ""
        · simp only [if_pos hempty]
          exact hlater acc w hn
        · simp only [if_neg hempty]
          refine yields_then (logs_of_still (still_summarizeArticle _ _ _)) hn
            (summarizeArticle_added article details acc hn) ?_
          rintro r t ht - (rfl | ⟨s, rfl, rfl, rfl, hsummary⟩)
          · exact hlater r t ht
          · refine ((logs_of_still (still_summarizeLoop m limit articles _)).yields (ih _ t ht)).mono ?_
            rintro r' t' ⟨hlog, added, hr, hsub, htold⟩
            refine ⟨s :: added, ?_, hsub.cons_cons _, fun s' hs' => ?_⟩
            · rw [hr, List.append_assoc]
              rfl
            · rcases List.mem_cons.1 hs' with rfl | hs'
              · exact ⟨hdetails, hsummary.mono hlog⟩
              · exact htold s' hs'

/-- Rows of some of the articles are inserted, in their order. -/
abbrev InsertsInOrder (articles : List Article) (w w' : World ε) : Prop :=
  Inserts (fun row => row.source_id) (articles.map Article.id) w w'

/-- The rows come in the order of the summarized articles, as the vectors are joined to them
by index and the loop goes through them in order. -/
theorem inserts_embedAndSave (summarized : List SummarizedArticle) :
    Moves (InsertsInOrder (summarized.map fun s => s.article)) (embedAndSave ext summarized) := by
  refine inserts_after (still_generateEmbeddings summarized) (generateEmbeddings_articles summarized) ?_
  intro embedded hembedded
  rw [← hembedded]
  refine inserts_unless fun w => ?_
  have hsaved : Inserts (fun row => row.source_id) ((embedded.map trendData).map TrendData.source_id) w
      (saveTrends ext embedded w).2 := (inserts_saveLoop embedded BatchResult.none w).map
        (f := TrendData.source_id) fun _ => rfl
  rw [List.map_map] at hsaved
  rw [List.map_map]
  exact hsaved

theorem inserts_summarizeAndSave (valuable : List Article) (m : DetailsMap) (limit : ℕ) :
    Moves (InsertsInOrder valuable) (summarizeAndSave ext cfg valuable m limit) := by
  refine inserts_after (P := fun summarized => (summarized.map fun s => s.article).Sublist valuable)
    (still_summarizeLoop m limit valuable []) (fun w => ?_) ?_
  · refine (summarizeLoop_added (n := 0) m limit valuable [] w (Nat.zero_le _)).mono ?_
    rintro summarized _ ⟨added, rfl, hsub, -⟩
    exact hsub
  intro summarized hsub
  exact inserts_unless fun w => (inserts_embedAndSave summarized w).mono (hsub.map _)

theorem inserts_selectAndSave (valid : List Article) (m : DetailsMap) (limit : ℕ) :
    Moves (InsertsInOrder valid) (selectAndSave ext cfg valid m limit) := by
  refine inserts_after (P := fun valuable => valuable.Sublist valid) (still_selectValuableArticles valid m)
    (fun w => ?_) ?_
  · refine (selectValuableArticles_told (n := 0) valid m (Nat.zero_le _)).mono ?_
    rintro valuable _ ⟨valuableIds, -, rfl⟩
    exact List.filter_sublist
  · intro valuable hvaluable
    exact inserts_unless fun w => (inserts_summarizeAndSave valuable m limit w).mono (hvaluable.map _)

/-- The line says that the details of the article were asked for. -/
def asksFor (articleId : String) : LogLine → Prop
  | LogLine.detailsFetched id _ => id = articleId
  | LogLine.detailsFailed id => id = articleId
  | _ => False

/-- The lines from the `n`-th on say that the details of the article were asked for. -/
def Asked (n : ℕ) (w : World ε) (article : Article) : Prop := ∃ line, Told n w line ∧ asksFor article.id line

theorem Asked.mono {w w' : World ε} {article : Article} (h : Asked n w article) (hlog : Logs w w') :
    Asked n w' article := h.imp fun _ ⟨htold, hasks⟩ => ⟨htold.mono hlog, hasks⟩

/-- One turn of `fetchBatchDetailsMap` asks for its article, and the log has a line about it
either way. -/
theorem fetchDetails_asks (scraper : String) (m : DetailsMap) (article : Article) {w : World ε}
    (hn : n ≤ w.log.length) :
    Yields (fetchDetails ext scraper m article.id) w fun _ t => Asked n t article := by
  have hfailed : ∀ t : World ε, n ≤ t.log.length →
      Yields (do logLine (LogLine.detailsFailed article.id); pure m) t fun _ t => Asked n t article :=
    fun t ht => yields_bind (told_logLine ht _) fun _ _ h => yields_pure ⟨_, h, rfl⟩
  refine yields_guarded ?_ hn (yields_then (logs_of_still (still_call _)) hn yields_self ?_) fun _ t ht => hfailed t ht
  · exact logs_of_still (still_fetchDetailsTry scraper m article.id)
  · rintro (_ | details) t ht _ _
    · exact hfailed t ht
    · by_cases h : details.content ≠ ""
      · simp only [if_pos h]
        exact yields_bind (told_logLine ht _) fun _ _ htold => yields_pure ⟨_, htold, rfl⟩
      · simp only [if_neg h]
        exact hfailed t ht

/-- A batch is asked for as a whole, before the first of its articles is saved. -/
theorem fetchBatchDetailsMap_asks (scraper : String) (batch : List Article) :
    ∀ (m : DetailsMap) (w : World ε), n ≤ w.log.length →
      Yields (fetchBatchDetailsMap ext scraper (batch.map fun article => article.id) m) w fun _ t =>
        ∀ article ∈ batch, Asked n t article := by
  induction batch with
  | nil => exact fun m w _ => yields_pure fun article h => by cases h
  | cons first batch ih =>
    intro m w hn
    refine yields_then (logs_of_still (still_fetchDetails _ _ _)) hn (fetchDetails_asks scraper m first hn)
      fun m' t ht _ hfirst => ?_
    refine ((logs_of_still (still_fetchBatchDetailsMap _ _ m')).yields (ih m' t ht)).mono ?_
    rintro _ t' ⟨hlog, hrest⟩ article harticle
    rcases List.mem_cons.1 harticle with rfl | harticle
    · exact hfirst.mono hlog
    · exact hrest article harticle

/-- The articles `done` were all asked for, and rows of some of them were inserted in their order. -/
structure InOrder (n : ℕ) (done : List Article) (w w' : World ε) : Prop where
  asked : ∀ article ∈ done, Asked n w' article
  inserts : InsertsInOrder done w w'

theorem inOrder_nil {w w' : World ε} (h : w'.table = w.table) : InOrder n [] w w' :=
  ⟨fun _ h => (by cases h), inserts_of_table h []⟩

theorem InOrder.append {done done' : List Article} {w u t : World ε} (h : InOrder n done w u)
    (hlog : Logs u t) (h' : InOrder n done' u t) : InOrder n (done ++ done') w t where
  asked article harticle := (List.mem_append.1 harticle).elim (fun hin => (h.asked article hin).mono hlog)
    (h'.asked article)
  inserts := by
    rw [InsertsInOrder, List.map_append]
    exact h.inserts.append h'.inserts

variable (ext cfg) in
/-- A batch: all of it was asked for, or nothing was inserted, and then it does not return. -/
theorem processBatch_inOrder (batch : List Article) (scraper : String) (limit : ℕ) {w : World ε}
    (hn : n ≤ w.log.length) :
    Effect.Ensures (processBatch ext cfg batch scraper limit) w fun o t =>
      InOrder n batch w t ∨ InOrder n [] w t ∧ ∀ r, o ≠ Outcome.ret r := by
  rw [processBatch_eq]
  refine Moves.ensures_bind (still_fetchBatchDetailsMap scraper _ _) (fetchBatchDetailsMap_asks scraper batch _ w hn)
    ?_ (fun _ t hs => Or.inr ⟨inOrder_nil hs.table, fun r hr => by cases hr⟩)
    fun t hs => Or.inr ⟨inOrder_nil hs.table, fun r hr => by cases hr⟩
  intro m t hs hasked
  have hrest : Moves (InsertsInOrder batch) (if (batch.filter fun article => (m article.id).isSome) = []
      then pure BatchResult.none
      else selectAndSave ext cfg (batch.filter fun article => (m article.id).isSome) m limit) :=
    inserts_unless fun w => (inserts_selectAndSave _ m limit w).mono (List.filter_sublist.map _)
  have hlog : Moves Logs (if (batch.filter fun article => (m article.id).isSome) = []
      then pure BatchResult.none
      else selectAndSave ext cfg (batch.filter fun article => (m article.id).isSome) m limit) :=
    logs_unless (logs_selectAndSave ext cfg _ m limit)
  refine Or.inl ⟨fun article harticle => (hasked article harticle).mono (hlog t), ?_⟩
  exact (hs.inserts []).append (hrest t)

/-! ## The batches -/

variable (ext cfg) in
/-- The loop goes through the first articles of the batches, in their order. It ends with the
target, with an error or with a kill, and the batches behind are not touched. By induction on
the batches. -/
theorem batchLoop_inOrder (scraper : String) (savedBaseline : ℕ) (batches : List (List Article)) :
    ∀ (sofar : BatchResult) (w : World ε), n ≤ w.log.length →
      ∃ done, done <+: batches.flatten ∧
        InOrder n done w (batchLoop ext cfg scraper savedBaseline batches sofar w).2 := by
  induction batches with
  | nil => exact fun sofar w _ => ⟨[], List.nil_prefix, inOrder_nil rfl⟩
  | cons batch batches ih =>
    intro sofar w hn
    unfold batchLoop
    by_cases htarget : cfg.TARGET_SAVE_COUNT ≤ savedBaseline + sofar.savedCount
    · simp only [if_pos htarget]
      exact ⟨[], List.nil_prefix, inOrder_nil rfl⟩
    simp only [if_neg htarget]
    -- `u` is the world after the line of the batch
    let u : World ε := { w with
      log := w.log ++ [LogLine.batchStarted batch (cfg.TARGET_SAVE_COUNT - (savedBaseline + sofar.savedCount))] }
    have hu : n ≤ u.log.length := by
      show n ≤ (w.log ++ _).length
      rw [List.length_append]
      omega
    have hbatch := processBatch_inOrder ext cfg batch scraper
      (cfg.TARGET_SAVE_COUNT - (savedBaseline + sofar.savedCount)) hu
    have hgrown : Logs u (processBatch ext cfg batch scraper
        (cfg.TARGET_SAVE_COUNT - (savedBaseline + sofar.savedCount)) u).2 :=
      (processBatch_accounted _ _ batch scraper _ u).grew.log
    show ∃ done, done <+: (batch :: batches).flatten ∧ InOrder n done w (Effect.andThen (processBatch ext cfg batch
      scraper (cfg.TARGET_SAVE_COUNT - (savedBaseline + sofar.savedCount)) u) fun batchResult =>
        batchLoop ext cfg scraper savedBaseline batches
          { savedCount := sofar.savedCount + batchResult.savedCount
            savedArticles := sofar.savedArticles ++ batchResult.savedArticles }).2
    unfold Effect.Ensures at hbatch
    rcases hrun : processBatch ext cfg batch scraper
      (cfg.TARGET_SAVE_COUNT - (savedBaseline + sofar.savedCount)) u with ⟨o, t⟩
    rw [hrun] at hbatch hgrown
    rw [List.flatten_cons]
    -- a batch that throws or is killed ends the loop
    have hstop : (∀ r, o ≠ Outcome.ret r) → ∃ done, done <+: batch ++ batches.flatten ∧ InOrder n done w t := by
      intro _
      rcases hbatch with hall | ⟨hnone, -⟩
      · exact ⟨batch, List.prefix_append _ _, hall.asked, hall.inserts⟩
      · exact ⟨[], List.nil_prefix, hnone.asked, hnone.inserts⟩
    cases o with
    | ret r =>
      have hall : InOrder n batch u t := hbatch.resolve_right fun h => h.2 r rfl
      obtain ⟨done, hdone, hrest⟩ := ih ⟨sofar.savedCount + r.savedCount, sofar.savedArticles ++ r.savedArticles⟩ t
        (hu.trans hgrown.length_le)
      have hlog : Logs t (batchLoop ext cfg scraper savedBaseline batches
          ⟨sofar.savedCount + r.savedCount, sofar.savedArticles ++ r.savedArticles⟩ t).2 :=
        (batchLoop_accounted _ _ scraper savedBaseline batches _ t).grew.log
      obtain ⟨rest, hrest'⟩ := hdone
      refine ⟨batch ++ done, ⟨rest, by rw [List.append_assoc, hrest']⟩, ?_⟩
      have hboth := hall.append hlog hrest
      exact ⟨hboth.asked, hboth.inserts⟩
    | throw e => exact hstop fun r hr => (by cases hr)
    | killed => exact hstop fun r hr => (by cases hr)

/-! ## An attempt -/

/-- The articles of a listing that the table does not have for the source. -/
def newArticles (sourceName : String) (table : TrendTable) (articles : List Article) : List Article :=
  articles.filter fun article => !(table.rows.map TechTrend.sourceKey).contains (sourceName, article.id)

/-- The new articles are those of the listing whose ids the table does not have for the
source. The query asks for many ids at once, and its answer is the ids that are there. -/
theorem excludeExistingArticles_eq (articles : List Article) (sourceName : String) (w : World ε) :
    Yields (excludeExistingArticles ext articles sourceName) w fun r t =>
      t.table = w.table ∧ r = newArticles sourceName w.table articles := by
  intro r t hrun
  have hstill := still_excludeExistingArticles ext articles sourceName w
  rw [hrun] at hstill
  refine ⟨hstill.table, ?_⟩
  obtain ⟨existingIds, u, hfind, hpure⟩ := Effect.bind_eq_ret hrun
  cases hpure
  -- with no article there is no query, and its answer would be empty
  have hexisting : existingIds = w.table.findExistingSourceIds sourceName (articles.map fun article => article.id) := by
    unfold findExistingSourceIds at hfind
    by_cases hnil : (articles.map fun article => article.id) = []
    · rw [if_pos hnil] at hfind
      cases hfind
      simp [hnil, TrendTable.findExistingSourceIds]
    · rw [if_neg hnil] at hfind
      obtain ⟨_, v, hcall, hreads⟩ := Effect.bind_eq_ret hfind
      have hs := still_call ext.findExistingSourceIds w
      rw [hcall] at hs
      cases hreads
      have hsame : t.table = w.table := hs.table
      exact congrArg (fun table : TrendTable => table.findExistingSourceIds sourceName
        (articles.map fun article => article.id)) hsame
  rw [hexisting, newArticles]
  refine List.filter_congr fun article harticle => ?_
  -- an id that the query finds is one of a row of the source
  have hfound : article.id ∈ w.table.findExistingSourceIds sourceName (articles.map fun article => article.id) ↔
      (sourceName, article.id) ∈ w.table.rows.map TechTrend.sourceKey := by
    constructor
    · intro h
      obtain ⟨row, hrow, hid⟩ := List.mem_map.1 h
      obtain ⟨hmem, hsource⟩ := List.mem_filter.1 hrow
      exact List.mem_map.2 ⟨row, hmem, Prod.ext (of_decide_eq_true hsource).1 hid⟩
    · intro h
      obtain ⟨row, hrow, hsame⟩ := List.mem_map.1 h
      obtain ⟨hsource, hid⟩ := Prod.mk.inj hsame
      refine List.mem_map.2 ⟨row, List.mem_filter.2 ⟨hrow, decide_eq_true ⟨hsource, ?_⟩⟩, hid⟩
      rw [hid]
      exact List.mem_map_of_mem harticle
  rw [Bool.eq_iff_iff, Bool.not_eq_true', ← Bool.not_eq_true, List.contains_iff_mem, hfound, Bool.not_eq_true',
    ← Bool.not_eq_true, List.contains_iff_mem]

variable (ext) in
/-- The list that the attempt from `w` on is answered with. `processSource` asks its scraper once,
right after it has counted the rows of the day. -/
def ListedBy (sourceName : String) (w : World ε) (articles : List Article) : Prop :=
  (ext.getArticles sourceName (ext.countSavedSince w.env).env).outcome = Outcome.ret articles

/-- The scraper is asked in what the count leaves behind. -/
theorem countSavedSince_env (source : String) (sinceDate : ℤ) (w : World ε) :
    Yields (countSavedSince ext source sinceDate) w fun _ t => t.env = (ext.countSavedSince w.env).env := by
  refine yields_bind (P := fun _ t => t.env = (ext.countSavedSince w.env).env) (fun _ t h => ?_) fun _ t ht => ?_
  · rw [← (Prod.mk.inj h).2]
  · intro _ u h
    rw [← (Prod.mk.inj h).2]
    exact ht

variable (ext) in
/-- Nothing is inserted, or rows of the first new articles of the list, in its order; and all of
these have been asked for. -/
def Ordered (sourceName : String) (w w' : World ε) : Prop :=
  ∃ inserted, w'.table.rows = w.table.rows ++ inserted ∧ (inserted = [] ∨ ∃ articles done,
    ListedBy ext sourceName w articles ∧ done <+: newArticles sourceName w.table articles ∧
    (∀ article ∈ done, ∃ line ∈ newLines w w', asksFor article.id line) ∧
    (inserted.map fun row => row.source_id).Sublist (done.map Article.id))

theorem ordered_of_table {sourceName : String} {w w' : World ε} (h : w'.table = w.table) :
    Ordered ext sourceName w w' := ⟨[], by rw [h, List.append_nil], Or.inl rfl⟩

/-- From the listing on. -/
theorem processArticles_ordered (scraper : String) (savedBaseline : ℕ) {w₀ w : World ε} (hlog : Logs w₀ w)
    (htable : w.table = w₀.table) (henv : w.env = (ext.countSavedSince w₀.env).env) :
    Ordered ext scraper w₀ (processArticles ext cfg scraper savedBaseline w).2 := by
  have hlists : ∀ articles, (ext.getArticles scraper w.env).outcome = Outcome.ret articles →
      ListedBy ext scraper w₀ articles := by
    intro articles h
    rw [henv] at h
    exact h
  unfold processArticles
  refine Moves.ensures_bind (R := Still) (Q := fun _ t => Ordered ext scraper w₀ t)
    (P := fun articles _ => ListedBy ext scraper w₀ articles) (still_call _)
    (fun articles t h => hlists articles (Prod.mk.inj h).1) ?_ (fun _ _ hs => ordered_of_table (hs.table.trans htable))
    fun _ hs => ordered_of_table (hs.table.trans htable)
  intro articles t hs harticles
  have hlog := trans_of Logs hlog hs.log
  have htable := hs.table.trans htable
  by_cases hnone : articles = []
  · rw [if_pos hnone]
    exact ordered_of_table htable
  rw [if_neg hnone]
  refine Moves.ensures_bind (Q := fun _ t => Ordered ext scraper w₀ t)
    (still_excludeExistingArticles ext articles scraper) (excludeExistingArticles_eq articles scraper t) ?_
    (fun _ _ hs => ordered_of_table (hs.table.trans htable)) fun _ hs => ordered_of_table (hs.table.trans htable)
  rintro new u hs' ⟨-, rfl⟩
  have hlog := trans_of Logs hlog hs'.log
  have hsame := hs'.table.trans htable
  by_cases hnone : newArticles scraper t.table articles = []
  · rw [if_pos hnone]
    exact ordered_of_table hsame
  rw [if_neg hnone]
  -- the result of the loop is only wrapped up
  have hloop := batchLoop_inOrder (n := w₀.log.length) ext cfg scraper savedBaseline
    (chunkArray (newArticles scraper t.table articles) cfg.BATCH_SIZE) BatchResult.none u hlog.length_le
  rw [chunkArray_flatten _ cfg.batchSize_pos, htable] at hloop
  obtain ⟨done, hdone, hasked, inserted, hrows, hids⟩ := hloop
  unfold Effect.Ensures
  rw [Effect.bind_pure_state, htable]
  rw [hsame] at hrows
  exact ⟨inserted, hrows, Or.inr ⟨articles, done, harticles, hdone, hasked, hids⟩⟩

/-- **The order of an attempt.** However it ends, the rows that it inserts are those of some of
the first new articles of the list it got, in the order of the list, and it has asked for the
details of all of these. -/
theorem executeScraperByName_ordered (ext : Externals ε) (cfg : PipelineConfig) (sourceName : String)
    (w : World ε) : Ordered ext sourceName w (executeScraperByName ext cfg sourceName w).2 := by
  unfold executeScraperByName
  by_cases hknown : allSourceNames.contains sourceName = true
  · rw [if_pos hknown]
    unfold processSource
    refine Effect.ensures_bind (Q := fun _ t => Ordered ext sourceName w t) (Effect.ensures_reads ?_)
    refine Moves.ensures_bind (Q := fun _ t => Ordered ext sourceName w t)
      (still_countSavedSince ext sourceName _) (countSavedSince_env sourceName _ w) ?_
      (fun _ _ hs => ordered_of_table hs.table) fun _ hs => ordered_of_table hs.table
    intro savedBaseline t hs henv
    by_cases htarget : cfg.TARGET_SAVE_COUNT ≤ savedBaseline
    · rw [if_pos htarget]
      exact ordered_of_table hs.table
    · rw [if_neg htarget]
      exact processArticles_ordered sourceName savedBaseline hs.log hs.table henv
  · rw [if_neg hknown]
    exact ordered_of_table rfl

end Pipeline

end TechTrends
