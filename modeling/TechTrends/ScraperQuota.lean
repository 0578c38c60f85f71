/-
The daily quota of every source, and the calls that are never made twice, over whole runs
of the scrape jobs.

Only the worker adds rows, and it runs one attempt at a time. An attempt keeps its own
source within the target, and adds no rows of another source; so every source stays within
the target of every day, however the attempts of the sources come after one another and
whatever the dispatches, retries and restarts in between. Nothing is asked of the queue: the
worker may be handed any names with any data, again and again.
-/
import TechTrends.ScraperQueue

set_option autoImplicit false

namespace TechTrends

namespace ScraperQueue

open JobQueue (Service line)
open Pipeline (countOfDay countOfDay_append OwnArticles executeScraperByName_addsRowsOf executeScraperByName_filled
  executeScraperByName_asks_new ServiceCall AboutNew ListedNew noted)

variable {ε σ μ : Type} {queue : Service σ String String JobOptions μ} {ext : Externals ε}
  {cfg : PipelineConfig} {config : TrendQueueEventsListener.Config}

/-! ## An attempt -/

variable (ext cfg) in
/-- The rows are only added to, in an attempt of any source. -/
theorem attempt_grows (s : State ε σ) (sourceName : String) :
    s.world.table.rows <+: (attempt ext cfg s sourceName).2.table.rows := by
  obtain ⟨inserted, hrows, -⟩ :=
    (executeScraperByName_filled ext cfg sourceName { s.world with now := s.now }).grew.rows
  exact ⟨inserted, hrows.symm⟩

/-- An attempt of one source leaves every source within the target of every day: its own by
the quota of the attempt, the others as they were. -/
theorem attempt_countOfDay_le (hown : OwnArticles ext) (s : State ε σ) (sourceName source : String) (day : ℤ) :
    countOfDay (attempt ext cfg s sourceName).2.table.rows source day ≤
      max (countOfDay s.world.table.rows source day) cfg.TARGET_SAVE_COUNT := by
  by_cases hsame : source = sourceName
  · rw [hsame]
    exact (executeScraperByName_filled ext cfg sourceName { s.world with now := s.now }).countOfDay_le day
  · -- the rows that are added are of another source
    obtain ⟨inserted, hrows, hsource⟩ :=
      executeScraperByName_addsRowsOf hown cfg sourceName { s.world with now := s.now }
    have hnone : countOfDay inserted source day = 0 := by
      refine List.countP_eq_zero.2 fun row hrow hcounted => hsame ?_
      rw [← (of_decide_eq_true hcounted).1, hsource row hrow]
    have hadded : (attempt ext cfg s sourceName).2.table.rows = s.world.table.rows ++ inserted := hrows
    rw [hadded, countOfDay_append, hnone, Nat.add_zero]
    exact le_max_left _ _

/-! ## The invariant -/

/-- The rows that a run added to those it started with. -/
structure Within (target : ℕ) (rows : List TechTrend) (s : State ε σ) : Prop where
  visible : s.visible ≤ s.world.table.rows.length
  idle : s.running = none → s.visible = s.world.table.rows.length
  grown : rows <+: s.world.table.rows
  seen : rows.length ≤ s.visible
  quota : ∀ source day, countOfDay s.world.table.rows source day ≤ max (countOfDay rows source day) target

theorem within_initial (target : ℕ) (now : ℤ) (world : World ε) (q : σ) :
    Within target world.table.rows (initial now world q) :=
  ⟨le_rfl, fun _ => rfl, List.prefix_rfl, le_rfl, fun _ _ => le_max_left _ _⟩

/-- A step that keeps the table, and what is seen of it. -/
theorem Within.of_same {target : ℕ} {rows : List TechTrend} {s s' : State ε σ} (h : Within target rows s)
    (hworld : s'.world = s.world) (hvisible : s'.visible = s.visible)
    (hidle : s'.running = none → s.running = none ∨ s.visible = s.world.table.rows.length) :
    Within target rows s' := by
  refine ⟨?_, fun hnone => ?_, ?_, ?_, ?_⟩
  · rw [hworld, hvisible]
    exact h.visible
  · rw [hworld, hvisible]
    exact (hidle hnone).elim h.idle fun hall => hall
  · rw [hworld]
    exact h.grown
  · rw [hvisible]
    exact h.seen
  · rw [hworld]
    exact h.quota

/-- **Step.** No step takes any source beyond the target of any day. Rows are computed when
the job is taken and seen one by one, so what is seen is always a first part of what is there. -/
theorem within_kept (hown : OwnArticles ext) (rows : List TechTrend) :
    (machine queue ext cfg config).Keeps (Within cfg.TARGET_SAVE_COUNT rows) := by
  intro s a s' hs h
  cases moves_of_step queue ext cfg config h with
  | tick => exact hs.of_same rfl rfl Or.inl
  | dispatch => exact hs.of_same rfl rfl Or.inl
  | found => exact hs.of_same rfl rfl Or.inl
  | missing => exact hs.of_same rfl rfl Or.inl
  | add => exact hs.of_same rfl rfl Or.inl
  | abort => exact hs.of_same rfl rfl Or.inl
  | @take jobId sourceName q hidle htake =>
    have hprefix := attempt_grows ext cfg s sourceName
    refine ⟨hs.visible.trans hprefix.length_le, nofun, hs.grown.trans hprefix, hs.seen, fun source day => ?_⟩
    calc countOfDay (attempt ext cfg s sourceName).2.table.rows source day
        ≤ max (countOfDay s.world.table.rows source day) cfg.TARGET_SAVE_COUNT :=
          attempt_countOfDay_le hown s sourceName source day
      _ ≤ max (max (countOfDay rows source day) cfg.TARGET_SAVE_COUNT) cfg.TARGET_SAVE_COUNT :=
          max_le_max (hs.quota source day) le_rfl
      _ = max (countOfDay rows source day) cfg.TARGET_SAVE_COUNT := by rw [max_assoc, max_self]
  | insert hrow =>
    have hlt := (List.getElem?_eq_some_iff.1 hrow).1
    refine ⟨hlt, fun hnone => ?_, hs.grown, hs.seen.trans (Nat.le_succ _), hs.quota⟩
    -- nothing appears while no attempt runs
    exact absurd (hs.idle hnone) (Nat.ne_of_lt hlt)
  | complete _ hvisible => exact hs.of_same rfl rfl fun _ => Or.inr hvisible
  | fail hvisible => exact hs.of_same rfl rfl fun _ => Or.inr hvisible
  | lost hvisible => exact hs.of_same rfl rfl fun _ => Or.inr hvisible
  | killed hvisible => exact hs.of_same rfl rfl fun _ => Or.inr hvisible
  | move => exact hs.of_same rfl rfl Or.inl
  | ask => exact hs.of_same rfl rfl Or.inl
  | answer => exact hs.of_same rfl rfl Or.inl
  | restart hidle => exact hs.of_same rfl rfl fun _ => Or.inl hidle

/-- The rows seen are those of the start and some more. -/
theorem Within.rows_eq {target : ℕ} {rows : List TechTrend} {s : State ε σ} (h : Within target rows s) :
    ∃ inserted, s.rows = rows ++ inserted := by
  obtain ⟨more, hmore⟩ := h.grown
  refine ⟨more.take (s.visible - rows.length), ?_⟩
  rw [State.rows, ← hmore, List.take_append, List.take_of_length_le h.seen]

/-- **Daily quota of the system.** In every run, with any number of dispatches, attempts of
all sources, retries, stalls and restarts, rows are only added, no two rows share a source
and source id, and on no day are more rows of a source added than were missing to the
target. The queue may be any: it is what keeps attempts from running at the same time that
counts, the worker's concurrency of one. -/
theorem run_within_quota (queue : Service σ String String JobOptions μ) (ext : Externals ε)
    (cfg : PipelineConfig) (config : TrendQueueEventsListener.Config) (hown : OwnArticles ext) (now : ℤ)
    (world : World ε) (q : σ) (as : List (Act μ)) (s : State ε σ)
    (h : (machine queue ext cfg config).run as (initial now world q) = some s) :
    ∃ inserted, s.rows = world.table.rows ++ inserted ∧
      (∀ source day, countOfDay inserted source day ≤
        cfg.TARGET_SAVE_COUNT - countOfDay world.table.rows source day) ∧
      (s.rows.map TechTrend.sourceKey).Nodup := by
  have hwithin := (within_kept hown world.table.rows).run _ (within_initial cfg.TARGET_SAVE_COUNT now world q) h
  obtain ⟨inserted, hinserted⟩ := hwithin.rows_eq
  refine ⟨inserted, hinserted, fun source day => ?_, ?_⟩
  · have hseen : countOfDay s.rows source day ≤ countOfDay s.world.table.rows source day :=
      (List.take_sublist _ _).countP_le
    have hquota := hwithin.quota source day
    rw [hinserted, countOfDay_append] at hseen
    omega
  · exact s.world.table.sourceKeys_nodup.sublist ((List.take_sublist _ _).map _)

/-- Everything answers at once, and every scraper lists one article. -/
def answering : Externals Unit where
  countSavedSince := fun env => ⟨Outcome.ret (), 0, env⟩
  findExistingSourceIds := fun env => ⟨Outcome.ret (), 0, env⟩
  getArticles := fun source env =>
    ⟨Outcome.ret [⟨"1", "first", "https://" ++ source, "2026-01-01", source⟩], 0, env⟩
  getArticleDetails := fun _ _ env => ⟨Outcome.ret (some ⟨"content", none, none, none⟩), 0, env⟩
  filterBatchWithAi := fun items env =>
    ⟨Outcome.ret (Json.arr (items.map fun item => Json.str item.id)), 0, env⟩
  summarizeContentWithAi := fun params env => ⟨Outcome.ret (some ⟨params.title, [], "", none⟩), 0, env⟩
  vectorEmbeddingWithAi := fun texts env => ⟨Outcome.ret (texts.map fun _ => []), 0, env⟩
  delaySeconds := fun env => (0, false, env)
  saveTrend := fun _ env => (0, SaveFate.answered, env)

/-- A line of jobs with the options of the scrape jobs, which it does not look at. -/
def jobLine : Service (AList fun _ : String => String) String String JobOptions String := line

/-- The job of a source is dispatched, taken and completed, twice on a day. -/
def twoJobs : List (Act String) :=
  [Act.dispatch 0, Act.lookup 0, Act.add 0, Act.take "dev.to-1970-01-01", Act.insert, Act.finish,
    Act.dispatch 1, Act.lookup 1, Act.add 1, Act.take "dev.to-1970-01-01", Act.finish]

/-! ## No work twice -/

/-- The table only grows along a run, and so it does not lose what was in it when an attempt
begins. -/
theorem run_table_grows {as : List (Act μ)} {s t : State ε σ}
    (h : (machine queue ext cfg config).run as s = some t) : s.world.table.rows <+: t.world.table.rows := by
  refine (machine queue ext cfg config).run_rel (R := fun s t => s.world.table.rows <+: t.world.table.rows)
    (fun s => List.prefix_rfl) (fun s t u hst htu => hst.trans htu) ?_ h
  intro s a t hstep
  cases moves_of_step queue ext cfg config hstep with
  | @take jobId sourceName => exact attempt_grows ext cfg s sourceName
  | _ => exact List.prefix_rfl

/-- What is new for a table is new for a part of it. -/
theorem aboutNew_of_prefix {source : String} {table table' : TrendTable} (h : table.rows <+: table'.rows)
    {called : ServiceCall} (hcalled : AboutNew ext source table' called) : AboutNew ext source table called := by
  have hnew : ∀ {article : Article}, ListedNew ext source table' article → ListedNew ext source table article :=
    fun ⟨hlisted, hfresh⟩ => ⟨hlisted, fun hold => hfresh ((h.map _).subset hold)⟩
  cases called with
  | getArticleDetails s articleId => exact ⟨hcalled.1, hcalled.2.imp fun _ h => ⟨hnew h.1, h.2⟩⟩
  | filterBatchWithAi items => exact fun item hitem => (hcalled item hitem).imp fun _ h => ⟨hnew h.1, h.2⟩
  | summarizeContentWithAi params => exact hcalled.imp fun _ h => ⟨hnew h.1, h.2⟩
  | saveTrend data => exact hcalled.imp fun _ h => ⟨hnew h.1, h.2⟩

/-- **No work twice.** Once a row is in the table, no job taken after it has the details of
its article fetched, shows them to the filter, has them summarized or saves them again,
whatever the run does in between and whatever jobs the queue hands out. All of it is for
articles that the scraper of the job lists and that the table did not have. -/
theorem take_asks_new (queue : Service σ String String JobOptions μ) (ext : Externals ε)
    (cfg : PipelineConfig) (config : TrendQueueEventsListener.Config) (as : List (Act μ))
    (s u u' : State (ε × List ServiceCall) σ) (jobId : String)
    (h : (machine queue (noted ext) cfg config).run as s = some u)
    (htake : step queue (noted ext) cfg config u (Act.take jobId) = some u') :
    ∃ sourceName q calls, queue.take u.queue jobId = some (sourceName, q) ∧
      u'.world.env.2 = u.world.env.2 ++ calls ∧
      ∀ called ∈ calls, AboutNew ext sourceName s.world.table called := by
  cases moves_of_step queue (noted ext) cfg config htake with
  | @take _ sourceName q hidle htaken =>
    obtain ⟨calls, hcalls, hnew⟩ :=
      executeScraperByName_asks_new ext cfg sourceName { u.world with now := u.now }
    exact ⟨sourceName, q, calls, htaken, hcalls, fun called hcalled =>
      aboutNew_of_prefix (run_table_grows h) (hnew called hcalled)⟩

/-- The second job of the day, after a first one has saved the article, asks nothing about it. -/
theorem take_asks_new_twoJobs :
    ∃ s u u', (machine jobLine (noted answering) Pipeline.oneWanted ⟨none, none, none⟩).run (twoJobs.take 6)
        (initial 0 ⟨0, TrendTable.empty, 1, ((), []), []⟩ ∅) = some s ∧
      (machine jobLine (noted answering) Pipeline.oneWanted ⟨none, none, none⟩).run ((twoJobs.drop 6).take 3) s =
        some u ∧
      step jobLine (noted answering) Pipeline.oneWanted ⟨none, none, none⟩ u (Act.take "dev.to-1970-01-01") =
        some u' ∧
      ∃ sourceName q calls, jobLine.take u.queue "dev.to-1970-01-01" = some (sourceName, q) ∧
        u'.world.env.2 = u.world.env.2 ++ calls ∧
        ∀ called ∈ calls, AboutNew answering sourceName s.world.table called := by
  let start : State (Unit × List ServiceCall) (AList fun _ : String => String) :=
    initial 0 ⟨0, TrendTable.empty, 1, ((), []), []⟩ ∅
  obtain ⟨s, hs⟩ := Option.isSome_iff_exists.1 (show ((machine jobLine (noted answering) Pipeline.oneWanted
    ⟨none, none, none⟩).run (twoJobs.take 6) start).isSome = true by decide +kernel)
  obtain ⟨u', hu'⟩ := Option.isSome_iff_exists.1 (show ((machine jobLine (noted answering) Pipeline.oneWanted
    ⟨none, none, none⟩).run (twoJobs.take 6 ++ ((twoJobs.drop 6).take 3 ++ [Act.take "dev.to-1970-01-01"]))
      start).isSome = true by decide +kernel)
  obtain ⟨s', hs', hrest⟩ := ((machine jobLine (noted answering) Pipeline.oneWanted
    ⟨none, none, none⟩).run_append_eq_some).1 hu'
  obtain rfl : s = s' := Option.some.inj (hs.symm.trans hs')
  obtain ⟨u, hu, hlast⟩ := ((machine jobLine (noted answering) Pipeline.oneWanted
    ⟨none, none, none⟩).run_append_eq_some).1 hrest
  obtain ⟨t, ht, hnil⟩ := ((machine jobLine (noted answering) Pipeline.oneWanted
    ⟨none, none, none⟩).run_cons_eq_some).1 hlast
  exact ⟨s, u, t, hs, hu, ht,
    take_asks_new jobLine answering Pipeline.oneWanted ⟨none, none, none⟩ _ s u t _ hu ht⟩

end ScraperQueue

end TechTrends
