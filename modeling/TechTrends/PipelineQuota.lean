/-
The daily quota of a source, over any sequence of attempts.

An attempt counts today's rows of its source once, at its start, and from then on
keeps its own account of what it saved. The account is exact while the attempt
runs, and when it is killed in the middle of a batch no more than the quota of
that batch was inserted. So an attempt that found `b` rows of its day inserts at
most `TARGET_SAVE_COUNT - b`, on whatever days it runs; and all days keep to the
target, since on the later days there was no row before.
-/
import TechTrends.Pipeline

set_option autoImplicit false

namespace TechTrends

namespace Pipeline

open Effect (Ensures Moves After Handled ensures_bind ensures_pure ensures_tryCatch
  ensures_modify ensures_reads moves_bind moves_pure moves_throw moves_reads moves_tryCatch
  Yields yields_self yields_pure yields_throw yields_reads yields_bind yields_tryCatch)

variable {ε : Type} {ext : Externals ε} {cfg : PipelineConfig}

/-! ## How the world moves -/

/-- Time passes and lines are logged, and the table stays as it is. -/
structure Still (w w' : World ε) : Prop where
  now : w.now ≤ w'.now
  log : w.log <+: w'.log
  table : w'.table = w.table

instance : IsPreorder (World ε) Still where
  refl w := ⟨le_refl _, List.prefix_refl w.log, rfl⟩
  trans _ _ _ h h' := ⟨h.now.trans h'.now, h.log.trans h'.log, h'.table.trans h.table⟩

/-- Time passes and lines are logged, and rows are added that are mined meanwhile. -/
structure Grew (w w' : World ε) : Prop where
  now : w.now ≤ w'.now
  log : w.log <+: w'.log
  rows : ∃ inserted, w'.table.rows = w.table.rows ++ inserted ∧
    ∀ row ∈ inserted, w.now ≤ row.mined_at ∧ row.mined_at ≤ w'.now

theorem Still.grew {w w' : World ε} (h : Still w w') : Grew w w' :=
  ⟨h.now, h.log, [], by rw [h.table, List.append_nil], by simp⟩

/-- Rows added by one part and then by another are rows added, each mined while its part ran. -/
theorem Grew.trans {w w' w'' : World ε} (h : Grew w w') (h' : Grew w' w'') : Grew w w'' := by
  obtain ⟨xs, hxs, hmined⟩ := h.rows
  obtain ⟨ys, hys, hmined'⟩ := h'.rows
  refine ⟨h.now.trans h'.now, h.log.trans h'.log, xs ++ ys,
    by rw [hys, hxs, List.append_assoc], ?_⟩
  intro row hrow
  rcases List.mem_append.1 hrow with hx | hy
  · exact ⟨(hmined row hx).1, (hmined row hx).2.trans h'.now⟩
  · exact ⟨h.now.trans (hmined' row hy).1, (hmined' row hy).2⟩

/-- The number of rows. -/
def World.size (w : World ε) : ℕ := w.table.rows.length

theorem Still.size {w w' : World ε} (h : Still w w') : World.size w' = World.size w := by
  rw [World.size, World.size, h.table]

/-! ## Programs that do not touch the table -/

theorem still_call {α : Type} (f : ε → Reply ε α) : Moves Still (call f) := by
  intro w
  exact ⟨by simp [call], List.prefix_refl w.log, rfl⟩

theorem still_logLine (line : LogLine) : Moves Still (logLine line : Attempt ε Unit) := by
  intro w
  exact ⟨le_refl _, List.prefix_append w.log [line], rfl⟩

theorem still_delaySeconds (seconds : ℕ) : Moves Still (delaySeconds ext seconds) := by
  intro w
  unfold delaySeconds
  rcases ext.delaySeconds w.env with ⟨extra, killed, env⟩
  have hnow : w.now ≤ w.now + seconds * 1000 + extra := by omega
  cases killed <;> exact ⟨hnow, List.prefix_refl w.log, rfl⟩

/-- The stages before the save leave the table alone, whatever they come to. The first is the
fetch of one article's details. -/
theorem still_fetchDetailsTry (scraper : String) (m : DetailsMap) (id : String) :
    Moves Still (fetchDetailsTry ext scraper m id) := by
  refine moves_bind (still_call _) ?_
  rintro (_ | details)
  · exact moves_bind (still_logLine _) fun _ => moves_pure _
  · by_cases h : details.content ≠ ""
    · simp only [if_pos h]
      exact moves_bind (still_logLine _) fun _ => moves_pure _
    · simp only [if_neg h]
      exact moves_bind (still_logLine _) fun _ => moves_pure _

theorem still_fetchDetails (scraper : String) (m : DetailsMap) (id : String) :
    Moves Still (fetchDetails ext scraper m id) :=
  moves_tryCatch (still_fetchDetailsTry _ _ _) fun _ =>
    moves_bind (still_logLine _) fun _ => moves_pure _

theorem still_fetchBatchDetailsMap (scraper : String) (ids : List String) :
    ∀ m, Moves Still (fetchBatchDetailsMap ext scraper ids m) := by
  induction ids with
  | nil => exact fun m => moves_pure _
  | cons id ids ih => exact fun m => moves_bind (still_fetchDetails _ _ _) ih

theorem still_selectValuableArticles (articles : List Article) (m : DetailsMap) :
    Moves Still (selectValuableArticles ext cfg articles m) := by
  refine moves_bind (still_call _) ?_
  intro answer
  cases answer with
  | arr values => exact moves_bind (still_logLine _) fun _ => moves_pure _
  | _ => exact moves_throw _

theorem still_summarizeTry (article : Article) (details : ArticleDetails)
    (acc : List SummarizedArticle) :
    Moves Still (summarizeTry ext cfg article details acc) := by
  refine moves_bind (still_call _) ?_
  rintro (_ | summary)
  · exact moves_bind (still_logLine _) fun _ => moves_pure _
  · refine moves_bind (still_logLine _) fun _ => ?_
    exact moves_bind (still_delaySeconds _) fun _ => moves_pure _

theorem still_summarizeArticle (article : Article) (details : ArticleDetails)
    (acc : List SummarizedArticle) :
    Moves Still (summarizeArticle ext cfg article details acc) :=
  moves_tryCatch (still_summarizeTry _ _ _) fun _ =>
    moves_bind (still_logLine _) fun _ => moves_pure _

/-- The summaries of a batch. -/
theorem still_summarizeLoop (m : DetailsMap) (limit : ℕ) (articles : List Article) :
    ∀ acc, Moves Still (summarizeLoop ext cfg m limit articles acc) := by
  induction articles with
  | nil => exact fun acc => moves_pure _
  | cons article articles ih =>
    intro acc
    unfold summarizeLoop
    by_cases hlimit : limit ≤ acc.length
    · rw [if_pos hlimit]
      exact moves_pure _
    · rw [if_neg hlimit]
      -- An article without a text is passed over.
      cases m article.id with
      | none => exact ih acc
      | some details =>
        by_cases hempty : details.content = ""
        · simp only [if_pos hempty]
          exact ih acc
        · simp only [if_neg hempty]
          exact moves_bind (still_summarizeArticle _ _ _) ih

/-- The embeddings. -/
theorem still_generateEmbeddings (articles : List SummarizedArticle) :
    Moves Still (generateEmbeddingsForArticles ext articles) := by
  unfold generateEmbeddingsForArticles
  by_cases h : articles = []
  · rw [if_pos h]
    exact moves_pure _
  · rw [if_neg h]
    refine moves_bind (still_call _) fun vectors => moves_bind (still_logLine _) fun _ => ?_
    by_cases hlen : articles.length ≠ vectors.length
    · rw [if_pos hlen]
      exact moves_throw _
    · rw [if_neg hlen]
      exact moves_pure _

variable (ext) in
theorem still_countSavedSince (source : String) (sinceDate : ℤ) :
    Moves Still (countSavedSince ext source sinceDate) :=
  moves_bind (still_call _) fun _ => moves_reads _

variable (ext) in
/-- To look for the articles that are there already. -/
theorem still_excludeExistingArticles (articles : List Article) (sourceName : String) :
    Moves Still (excludeExistingArticles ext articles sourceName) := by
  refine moves_bind ?_ fun _ => moves_pure _
  unfold findExistingSourceIds
  by_cases h : (articles.map fun article => article.id) = []
  · rw [if_pos h]
    exact moves_pure _
  · rw [if_neg h]
    exact moves_bind (still_call _) fun _ => moves_reads _

/-! ## How many articles go on -/

/-- One more article is summarized, or none. -/
theorem summarizeArticle_length (article : Article) (details : ArticleDetails)
    (acc : List SummarizedArticle) (w : World ε) :
    Yields (summarizeArticle ext cfg article details acc) w fun r _ =>
      r.length ≤ acc.length + 1 := by
  refine yields_tryCatch (yields_bind yields_self ?_) ?_
  · rintro (_ | summary) t _
    · exact yields_bind yields_self fun _ _ _ => yields_pure (Nat.le_succ _)
    · refine yields_bind yields_self fun _ _ _ => yields_bind yields_self fun _ _ _ => ?_
      exact yields_pure (by simp)
  · intro _ t _
    exact yields_bind yields_self fun _ _ _ => yields_pure (Nat.le_succ _)

/-- At most `limit` articles are summarized, and so at most as many can be saved: this is
where the quota of a batch is kept. -/
theorem summarizeLoop_length (m : DetailsMap) (limit : ℕ) (articles : List Article) :
    ∀ (acc : List SummarizedArticle) (w : World ε), acc.length ≤ limit →
      Yields (summarizeLoop ext cfg m limit articles acc) w fun r _ => r.length ≤ limit := by
  induction articles with
  | nil => exact fun acc w hacc => yields_pure hacc
  | cons article articles ih =>
    intro acc w hacc
    unfold summarizeLoop
    by_cases hlimit : limit ≤ acc.length
    · rw [if_pos hlimit]
      exact yields_pure hacc
    · rw [if_neg hlimit]
      cases m article.id with
      | none => exact ih acc w hacc
      | some details =>
        by_cases hempty : details.content = ""
        · simp only [if_pos hempty]
          exact ih acc w hacc
        · -- There is room for one more.
          simp only [if_neg hempty]
          refine yields_bind (summarizeArticle_length _ _ _ _) ?_
          intro r t hr
          exact ih r t (by omega)

/-- Each summarized article gets one embedding. -/
theorem generateEmbeddings_length (articles : List SummarizedArticle) (w : World ε) :
    Yields (generateEmbeddingsForArticles ext articles) w fun r _ =>
      r.length = articles.length := by
  unfold generateEmbeddingsForArticles
  by_cases h : articles = []
  · rw [if_pos h]
    apply yields_pure
    rw [h, List.length_nil, List.length_nil]
  · rw [if_neg h]
    refine yields_bind yields_self fun vectors _ _ => yields_bind yields_self fun _ t _ => ?_
    by_cases hlen : articles.length ≠ vectors.length
    · rw [if_pos hlen]
      exact yields_throw
    · rw [if_neg hlen]
      apply yields_pure
      simp [not_not.1 hlen]

/-! ## The account of a program that saves -/

/-- From `w`, at most `limit` rows are inserted; and a result that is returned
has counted each of them, from `start` on. -/
structure Accounted (w : World ε) (limit start : ℕ) (o : Outcome Error BatchResult)
    (w' : World ε) : Prop where
  grew : Grew w w'
  bound : World.size w' ≤ World.size w + limit
  exact : ∀ r, o = Outcome.ret r → World.size w' + start = World.size w + r.savedCount

/-- A part that leaves the table alone has saved what its result says, when that is what was
counted before. -/
theorem Still.accounted {w w' : World ε} (h : Still w w') (limit start : ℕ)
    {o : Outcome Error BatchResult} (ho : ∀ r, o = Outcome.ret r → r.savedCount = start) :
    Accounted w limit start o w' := by
  refine ⟨h.grew, by rw [h.size]; omega, ?_⟩
  intro r hr
  rw [h.size, ho r hr]

theorem Still.accounted_throw {w w' : World ε} (h : Still w w') (limit start : ℕ) (e : Error) :
    Accounted w limit start (Outcome.throw e) w' :=
  h.accounted limit start (by rintro r ⟨⟩)

theorem Still.accounted_killed {w w' : World ε} (h : Still w w') (limit start : ℕ) :
    Accounted w limit start Outcome.killed w' :=
  h.accounted limit start (by rintro r ⟨⟩)

theorem Still.trans_accounted {w w' w'' : World ε} {limit limit' start : ℕ}
    {o : Outcome Error BatchResult} (h : Still w w') (h' : Accounted w' limit start o w'')
    (hle : limit ≤ limit') : Accounted w limit' start o w'' := by
  have hsize := h.size
  refine ⟨h.grew.trans h'.grew, by have := h'.bound; omega, ?_⟩
  intro r hr
  rw [h'.exact r hr, hsize]

/-- A part that saves, after one that returned what it saved. -/
theorem Accounted.trans {w w' w'' : World ε} {limit limit' limit'' start : ℕ} {r : BatchResult}
    {o : Outcome Error BatchResult} (h : Accounted w limit start (Outcome.ret r) w')
    (h' : Accounted w' limit' r.savedCount o w'')
    (hle : r.savedCount + limit' ≤ start + limit'') : Accounted w limit'' start o w'' := by
  have hexact := h.exact r rfl
  refine ⟨h.grew.trans h'.grew, by have := h'.bound; omega, ?_⟩
  intro r' hr'
  have := h'.exact r' hr'
  omega

/-- Nothing is inserted, and the result is that of before. -/
theorem accounted_pure (result : BatchResult) (w : World ε) (limit : ℕ) :
    Ensures (pure result : Attempt ε BatchResult) w (Accounted w limit result.savedCount) := by
  refine ensures_pure (Still.accounted (refl_of Still w) limit result.savedCount ?_)
  rintro r ⟨⟩
  rfl

/-! ## Saving -/

/-- What `saveTrend` leaves: a row that was returned is the one row inserted, one
that was refused is not, and a killed call may have inserted it. -/
structure SavedOne (w : World ε) (o : Outcome Error TechTrend) (w' : World ε) : Prop where
  grew : Grew w w'
  bound : World.size w' ≤ World.size w + 1
  ret : ∀ row, o = Outcome.ret row → World.size w' = World.size w + 1
  throw : ∀ e, o = Outcome.throw e → Still w w'

theorem grew_of_insert {w w' : World ε} {row : TechTrend} (hnow : w.now ≤ w'.now)
    (hlog : w'.log = w.log)
    (hmined : row.mined_at = w'.now) (hins : w.table.insert row = some w'.table) :
    Grew w w' ∧ World.size w' = World.size w + 1 := by
  have hrows := TrendTable.insert_rows hins
  refine ⟨⟨hnow, hlog ▸ List.prefix_refl w.log, [row], hrows, ?_⟩, ?_⟩
  · intro x hx
    rw [List.mem_singleton.1 hx, hmined]
    exact ⟨hnow, le_refl _⟩
  · rw [World.size, World.size, hrows, List.length_append, List.length_singleton]

variable (ext) in
/-- A save inserts its row and returns it, inserts nothing and throws, or is killed before or
after the row is there. -/
theorem saveTrend_spec (data : TrendData) (w : World ε) :
    Ensures (saveTrend ext data) w (SavedOne w) := by
  unfold Ensures saveTrend
  rcases ext.saveTrend data w.env with ⟨elapsed, fate, env⟩
  have hnow : w.now ≤ w.now + elapsed := by omega
  have hpassed : ∀ nextId env, Still w { w with now := w.now + elapsed, nextId, env } :=
    fun _ _ => ⟨hnow, List.prefix_refl w.log, rfl⟩
  have hstill : ∀ (o : Outcome Error TechTrend) (w' : World ε), Still w w' →
      (∀ row, o ≠ Outcome.ret row) → SavedOne w o w' := by
    intro o w' hs hno
    exact ⟨hs.grew, by rw [hs.size]; omega, fun row ho => absurd ho (hno row), fun _ _ => hs⟩
  have hinserted : ∀ table,
      w.table.insert { data with id := w.nextId, mined_at := w.now + elapsed } = some table →
        Grew w { w with now := w.now + elapsed, table, env, nextId := w.nextId + 1 } ∧
          World.size { w with now := w.now + elapsed, table, env, nextId := w.nextId + 1 } =
            World.size w + 1 :=
    fun table hins => grew_of_insert hnow rfl rfl hins
  cases fate with
  | refused e => exact hstill _ _ (hpassed _ _) (by rintro row ⟨⟩)
  | killedBefore => exact hstill _ _ (hpassed _ _) (by rintro row ⟨⟩)
  | answered =>
    simp only
    -- The unique key may still refuse the row.
    rcases hins : w.table.insert { data with id := w.nextId, mined_at := w.now + elapsed } with
      _ | table
    · exact hstill _ _ (hpassed _ _) (by rintro row ⟨⟩)
    · obtain ⟨hgrew, hsize⟩ := hinserted table hins
      exact ⟨hgrew, hsize.le, fun _ _ => hsize, by rintro e ⟨⟩⟩
  | killedAfter =>
    simp only
    rcases hins : w.table.insert { data with id := w.nextId, mined_at := w.now + elapsed } with
      _ | table
    · exact hstill _ _ (hpassed _ _) (by rintro row ⟨⟩)
    · obtain ⟨hgrew, hsize⟩ := hinserted table hins
      exact ⟨hgrew, hsize.le, fun _ _ => hsize, by rintro e ⟨⟩⟩

/-- One turn of the loop of `saveTrends`. A save that throws is caught and not counted, and it
has inserted nothing; only a kill can come between the row and its count. -/
theorem saveItem_accounted (item : EmbeddedArticle) (result : BatchResult) (w : World ε) :
    Ensures (saveItem ext item result) w (Accounted w 1 result.savedCount) := by
  apply ensures_tryCatch
  apply ensures_bind
  refine (saveTrend_spec ext (trendData item) w).mono ?_
  intro o t h
  cases o with
  | ret row =>
    refine ensures_bind (ensures_modify (ensures_pure ?_))
    have hlog : w.log <+: t.log ++ [LogLine.saved row] :=
      h.grew.log.trans (List.prefix_append t.log _)
    refine ⟨⟨h.grew.now, hlog, h.grew.rows⟩, h.bound, ?_⟩
    rintro r ⟨⟩
    have hsize := h.ret row rfl
    simp only [World.size] at hsize ⊢
    omega
  -- A refused row is not counted, and the loop goes on.
  | throw e =>
    refine ensures_bind (ensures_modify (ensures_pure ?_))
    have hs : Still w { t with log := t.log ++ [LogLine.saveFailed (trendData item)] } :=
      trans_of Still (h.throw e rfl) (still_logLine _ t)
    refine hs.accounted 1 result.savedCount ?_
    rintro r ⟨⟩
    rfl
  | killed => exact ⟨h.grew, h.bound, by rintro r ⟨⟩⟩

/-- The loop of `saveTrends` saves no more articles than it is given. -/
theorem saveLoop_accounted (articles : List EmbeddedArticle) :
    ∀ (result : BatchResult) (w : World ε),
      Ensures (saveLoop ext articles result) w
        (Accounted w articles.length result.savedCount) := by
  induction articles with
  | nil => exact fun result w => accounted_pure result w 0
  | cons item articles ih =>
    intro result w
    apply ensures_bind
    refine (saveItem_accounted item result w).mono ?_
    intro o t h
    cases o with
    | ret r =>
      -- One row at most for the first article, and the rest by induction.
      refine (ih r t).mono fun o' t' h' => h.trans h' ?_
      have := h.exact r rfl
      have := h.bound
      rw [List.length_cons]
      omega
    | throw e => exact ⟨h.grew, h.bound.trans (by simp), by rintro r ⟨⟩⟩
    | killed => exact ⟨h.grew, h.bound.trans (by simp), by rintro r ⟨⟩⟩

/-- A first part that does not touch the table, before a part with an account. -/
theorem accounted_after {α : Type} {x : Attempt ε α} {f : α → Attempt ε BatchResult} {w : World ε}
    {limit start : ℕ} {P : α → World ε → Prop} (hx : Moves Still x) (hP : Yields x w P)
    (hf : ∀ a t, P a t → Ensures (f a) t (Accounted t limit start)) :
    Ensures (x >>= f) w (Accounted w limit start) := by
  refine hx.ensures_bind hP ?_ (fun e t h => h.accounted_throw limit start e)
    fun t h => h.accounted_killed limit start
  intro a t hs ha
  exact (hf a t ha).mono fun o t' h => hs.trans_accounted h le_rfl

variable (ext cfg) in
/-- A batch saves at most `limit` articles, and exactly as many as it counts, if it returns. -/
theorem processBatch_accounted (batch : List Article) (scraper : String) (limit : ℕ)
    (w : World ε) :
    Ensures (processBatch ext cfg batch scraper limit) w (Accounted w limit 0) := by
  unfold processBatch
  refine accounted_after (still_fetchBatchDetailsMap _ _ _) yields_self fun m t _ => ?_
  by_cases hvalid : batch.filter (fun article => (m article.id).isSome) = []
  · simp only [if_pos hvalid]
    exact accounted_pure BatchResult.none t limit
  · simp only [if_neg hvalid]
    refine accounted_after (still_selectValuableArticles _ _) yields_self fun valuable t _ => ?_
    by_cases hvaluable : valuable = []
    · simp only [if_pos hvaluable]
      exact accounted_pure BatchResult.none t limit
    · simp only [if_neg hvaluable]
      refine accounted_after (still_summarizeLoop _ _ _ _)
        (summarizeLoop_length m limit valuable [] t (Nat.zero_le _)) fun summarized t hlen => ?_
      by_cases hsummarized : summarized = []
      · simp only [if_pos hsummarized]
        exact accounted_pure BatchResult.none t limit
      · simp only [if_neg hsummarized]
        refine accounted_after (still_generateEmbeddings _) (generateEmbeddings_length _ _)
          fun embedded t hembedded => ?_
        by_cases hnone : embedded = []
        · rw [if_pos hnone]
          exact accounted_pure BatchResult.none t limit
        · rw [if_neg hnone]
          refine (saveLoop_accounted embedded BatchResult.none t).mono fun o t' h => ?_
          exact ⟨h.grew, h.bound.trans (by omega), h.exact⟩

/-! ## An attempt -/

variable (ext cfg) in
/-- The batches together save what is left of the target. The induction is on the
batches; `sofar` has counted every row inserted before. -/
theorem batchLoop_accounted (scraper : String) (savedBaseline : ℕ) (batches : List (List Article)) :
    ∀ (sofar : BatchResult) (w : World ε),
      Ensures (batchLoop ext cfg scraper savedBaseline batches sofar) w
        (Accounted w (cfg.TARGET_SAVE_COUNT - (savedBaseline + sofar.savedCount))
          sofar.savedCount) := by
  induction batches with
  | nil => exact fun sofar w => accounted_pure sofar w _
  | cons batch batches ih =>
    intro sofar w
    unfold batchLoop
    by_cases htarget : cfg.TARGET_SAVE_COUNT ≤ savedBaseline + sofar.savedCount
    · simp only [if_pos htarget]
      exact accounted_pure sofar w _
    · simp only [if_neg htarget]
      refine accounted_after (still_logLine _) yields_self fun _ t _ => ?_
      apply ensures_bind
      refine (processBatch_accounted ext cfg batch scraper _ t).mono ?_
      intro o t' h
      cases o with
      | ret r =>
        have hexact := h.exact r rfl
        have hbound := h.bound
        -- The account goes on with what this batch has saved.
        have h' : Accounted t (cfg.TARGET_SAVE_COUNT - (savedBaseline + sofar.savedCount))
            sofar.savedCount
            (Outcome.ret ⟨sofar.savedCount + r.savedCount,
              sofar.savedArticles ++ r.savedArticles⟩) t' := by
          refine ⟨h.grew, h.bound, ?_⟩
          rintro r' ⟨⟩
          simp only
          omega
        refine (ih _ t').mono fun o' t'' h'' => h'.trans h'' ?_
        simp only
        omega
      | throw e => exact ⟨h.grew, h.bound, by rintro r ⟨⟩⟩
      | killed => exact ⟨h.grew, h.bound, by rintro r ⟨⟩⟩

/-- What an attempt leaves that found `savedBaseline` rows, however it ends. -/
structure Filled (target savedBaseline : ℕ) (w w' : World ε) : Prop where
  grew : Grew w w'
  bound : World.size w' ≤ World.size w + (target - savedBaseline)

theorem Still.filled {w w' : World ε} (h : Still w w') (target savedBaseline : ℕ) :
    Filled target savedBaseline w w' := ⟨h.grew, by rw [h.size]; omega⟩

theorem Still.trans_filled {w w' w'' : World ε} {target savedBaseline : ℕ} (h : Still w w')
    (h' : Filled target savedBaseline w' w'') : Filled target savedBaseline w w'' := by
  have hsize := h.size
  have hbound := h'.bound
  exact ⟨h.grew.trans h'.grew, by omega⟩

/-- From the listing on, an attempt saves what was left of the target at its start. -/
theorem processArticles_filled (scraper : String) (savedBaseline : ℕ) (w : World ε) :
    Ensures (processArticles ext cfg scraper savedBaseline) w fun _ =>
      Filled cfg.TARGET_SAVE_COUNT savedBaseline w := by
  unfold processArticles
  refine (still_call _).ensures_bind yields_self ?_ (fun _ _ h => h.filled _ _)
    fun _ h => h.filled _ _
  intro articles t hs _
  by_cases harticles : articles = []
  · rw [if_pos harticles]
    exact ensures_pure (hs.filled _ _)
  · rw [if_neg harticles]
    refine (still_excludeExistingArticles _ _ _).ensures_bind yields_self ?_
      (fun _ _ h => (trans_of Still hs h).filled _ _) fun _ h => (trans_of Still hs h).filled _ _
    intro newArticles t' hs' _
    have hs := trans_of Still hs hs'
    by_cases hnew : newArticles = []
    · rw [if_pos hnew]
      exact ensures_pure (hs.filled _ _)
    · rw [if_neg hnew]
      apply ensures_bind
      refine (batchLoop_accounted ext cfg scraper savedBaseline
        (chunkArray newArticles cfg.BATCH_SIZE) BatchResult.none t').mono fun o t'' h => ?_
      have hfilled : Filled cfg.TARGET_SAVE_COUNT savedBaseline w t'' :=
        hs.trans_filled ⟨h.grew, h.bound⟩
      cases o <;> exact hfilled

/-- The baseline counts the rows of the day at the start of the attempt. -/
theorem processSource_filled (scraper : String) (w : World ε) :
    Ensures (processSource ext cfg scraper) w fun _ =>
      Filled cfg.TARGET_SAVE_COUNT
        (w.table.countSavedSince scraper (getTodayStartUtc w.now)) w := by
  apply ensures_bind
  apply ensures_reads
  -- The table does not change while the count is under way.
  have hbaseline : Yields (countSavedSince ext scraper (getTodayStartUtc w.now)) w fun n _ =>
      n = w.table.countSavedSince scraper (getTodayStartUtc w.now) := by
    refine yields_bind yields_self fun _ t ht => yields_reads ?_
    have hs := still_call ext.countSavedSince w
    rw [ht] at hs
    rw [hs.table]
  show Ensures (_ >>= _) w fun _ => Filled cfg.TARGET_SAVE_COUNT
    (w.table.countSavedSince scraper (getTodayStartUtc w.now)) w
  refine (still_countSavedSince _ _ _).ensures_bind hbaseline ?_ (fun _ _ h => h.filled _ _)
    fun _ h => h.filled _ _
  rintro _ t hs rfl
  by_cases htarget :
      cfg.TARGET_SAVE_COUNT ≤ w.table.countSavedSince scraper (getTodayStartUtc w.now)
  · rw [if_pos htarget]
    exact ensures_pure (hs.filled _ _)
  · rw [if_neg htarget]
    exact (processArticles_filled scraper _ t).mono fun _ _ h => hs.trans_filled h

variable (ext cfg) in
/-- An attempt, with its two lines around `processSource`, inserts no more than was left of
the target when it counted. -/
theorem executeScraperByName_filled (sourceName : String) (w : World ε) :
    Filled cfg.TARGET_SAVE_COUNT (w.table.countSavedSince sourceName (getTodayStartUtc w.now)) w
      (executeScraperByName ext cfg sourceName w).2 := by
  unfold executeScraperByName
  by_cases h : allSourceNames.contains sourceName = true
  · rw [if_pos h]
    exact processSource_filled sourceName w
  · rw [if_neg h]
    exact (refl_of Still w).filled _ _

/-! ## Days -/

/-- The rows of a source mined on a day. -/
def countOfDay (rows : List TechTrend) (source : String) (day : ℤ) : ℕ :=
  rows.countP fun row => row.source = source ∧ seoulDay row.mined_at = day

theorem countOfDay_append (rows rows' : List TechTrend) (source : String) (day : ℤ) :
    countOfDay (rows ++ rows') source day = countOfDay rows source day + countOfDay rows' source day :=
  List.countP_append

/-- The rows of today and of any later day are among those since the start of today, which the
baseline counts. So an attempt that runs over midnight is bounded on both days. -/
theorem countOfDay_le_countSavedSince (table : TrendTable) (source : String) {now day : ℤ}
    (h : seoulDay now ≤ day) :
    countOfDay table.rows source day ≤ table.countSavedSince source (getTodayStartUtc now) := by
  apply List.countP_mono_left
  intro row _ hrow
  obtain ⟨hsource, hday⟩ := of_decide_eq_true hrow
  refine decide_eq_true ⟨hsource, (getTodayStartUtc_le_iff now row.mined_at).2 ?_⟩
  rw [hday]
  exact h

/-- An attempt fills no day of the source beyond the target. -/
theorem Filled.countOfDay_le {target : ℕ} {source : String} {w w' : World ε}
    (h : Filled target (w.table.countSavedSince source (getTodayStartUtc w.now)) w w') (day : ℤ) :
    countOfDay w'.table.rows source day ≤ max (countOfDay w.table.rows source day) target := by
  obtain ⟨inserted, hrows, hmined⟩ := h.grew.rows
  have hlen : inserted.length ≤
      target - w.table.countSavedSince source (getTodayStartUtc w.now) := by
    have hbound := h.bound
    rw [World.size, World.size, hrows, List.length_append] at hbound
    omega
  rw [hrows, countOfDay_append]
  by_cases hday : seoulDay w.now ≤ day
  · have hbaseline := countOfDay_le_countSavedSince w.table source hday
    have hcount : countOfDay inserted source day ≤ inserted.length := List.countP_le_length
    omega
  · -- nothing is mined on a day before the attempt
    have hzero : countOfDay inserted source day = 0 := by
      apply List.countP_eq_zero.2
      intro row hrow hcontra
      have hlate := seoulDay_mono (hmined row hrow).1
      have := (of_decide_eq_true hcontra).2
      omega
    omega

/-! ## Sequences of attempts -/

/-- Attempts for one source, one after another. Before each of them some time
passes, and what the world outside decides from may become anything. -/
def runAttempts (ext : Externals ε) (cfg : PipelineConfig) (sourceName : String) :
    List (ℕ × ε) → World ε → World ε
  | [], w => w
  | (idle, env) :: starts, w =>
    runAttempts ext cfg sourceName starts
      (executeScraperByName ext cfg sourceName { w with now := w.now + idle, env := env }).2

variable (ext cfg) in
/-- A run only adds rows, and fills no day of the source beyond the target. -/
theorem runAttempts_countOfDay_le (sourceName : String) (starts : List (ℕ × ε)) :
    ∀ w : World ε,
      (∃ inserted, (runAttempts ext cfg sourceName starts w).table.rows =
        w.table.rows ++ inserted) ∧
      ∀ day, countOfDay (runAttempts ext cfg sourceName starts w).table.rows sourceName day ≤
        max (countOfDay w.table.rows sourceName day) cfg.TARGET_SAVE_COUNT := by
  induction starts with
  | nil => exact fun w => ⟨⟨[], by simp [runAttempts]⟩, fun day => by simp [runAttempts]⟩
  | cons start starts ih =>
    obtain ⟨idle, env⟩ := start
    intro w
    -- The world in which the first attempt starts.
    let w₁ : World ε := { w with now := w.now + idle, env := env }
    have hfilled := executeScraperByName_filled ext cfg sourceName w₁
    obtain ⟨first, hfirst, -⟩ := hfilled.grew.rows
    obtain ⟨⟨rest, hrest⟩, hdays⟩ := ih (executeScraperByName ext cfg sourceName w₁).2
    refine ⟨⟨first ++ rest, ?_⟩, ?_⟩
    · rw [← List.append_assoc]
      exact hrest.trans (congrArg (fun rows => rows ++ rest) hfirst)
    · intro day
      calc countOfDay (runAttempts ext cfg sourceName ((idle, env) :: starts) w).table.rows
              sourceName day
          ≤ max (countOfDay (executeScraperByName ext cfg sourceName w₁).2.table.rows
              sourceName day) cfg.TARGET_SAVE_COUNT := hdays day
        _ ≤ max (max (countOfDay w₁.table.rows sourceName day) cfg.TARGET_SAVE_COUNT)
              cfg.TARGET_SAVE_COUNT := max_le_max (hfilled.countOfDay_le day) le_rfl
        _ = max (countOfDay w.table.rows sourceName day) cfg.TARGET_SAVE_COUNT := by
            rw [max_assoc, max_self]

/-- **Daily quota.** Whatever the attempts run into, they only add rows, no two
rows share a source and source id, and on no day do they add more rows of the
source than were missing to the target. -/
theorem runAttempts_within_quota (ext : Externals ε) (cfg : PipelineConfig) (sourceName : String)
    (starts : List (ℕ × ε)) (w : World ε) :
    ∃ inserted, (runAttempts ext cfg sourceName starts w).table.rows = w.table.rows ++ inserted ∧
      (∀ day, countOfDay inserted sourceName day ≤
        cfg.TARGET_SAVE_COUNT - countOfDay w.table.rows sourceName day) ∧
      ((runAttempts ext cfg sourceName starts w).table.rows.map TechTrend.sourceKey).Nodup := by
  obtain ⟨⟨inserted, hrows⟩, hdays⟩ := runAttempts_countOfDay_le ext cfg
    sourceName starts w
  refine ⟨inserted, hrows, ?_, TrendTable.sourceKeys_nodup _⟩
  intro day
  have hday := hdays day
  rw [hrows, countOfDay_append] at hday
  omega

end Pipeline

end TechTrends
