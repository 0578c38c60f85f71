/-
What is announced of the jobs that complete.

A handler may run long after its job completed, while other attempts add rows. What it
asks for is the table of some moment since the job completed: so nothing that the job saved
on the day of the handler is missing from the answer, and nothing of another source or an
earlier day is in it. The message for the readers (`trends-queue.events.ts`, from line 64)
then lists as many of these rows as fit in 1800 characters, and counts the rest.
-/
import TechTrends.ScraperDispatch

set_option autoImplicit false

namespace TechTrends

namespace Pipeline

open Effect (Yields yields_self yields_pure yields_throw yields_bind)

variable {ε : Type} {ext : Externals ε} {cfg : PipelineConfig}

/-- The result names the source of the attempt, whichever way it returns. -/
theorem executeScraperByName_sourceName (sourceName : String) (w : World ε) :
    Yields (executeScraperByName ext cfg sourceName) w fun result _ => result.sourceName = sourceName := by
  unfold executeScraperByName
  by_cases hknown : allSourceNames.contains sourceName = true
  · rw [if_pos hknown]
    refine yields_bind yields_self fun sinceDate _ _ => yields_bind yields_self fun savedBaseline t _ => ?_
    by_cases htarget : cfg.TARGET_SAVE_COUNT ≤ savedBaseline
    · rw [if_pos htarget]
      exact yields_pure rfl
    · rw [if_neg htarget]
      refine yields_bind yields_self fun articles t _ => ?_
      by_cases harticles : articles = []
      · rw [if_pos harticles]
        exact yields_pure rfl
      · rw [if_neg harticles]
        refine yields_bind yields_self fun newArticles t _ => ?_
        by_cases hnew : newArticles = []
        · rw [if_pos hnew]
          exact yields_pure rfl
        · rw [if_neg hnew]
          exact yields_bind yields_self fun _ _ _ => yields_pure rfl
  · rw [if_neg hknown]
    exact yields_throw

end Pipeline

namespace ScraperQueue

open JobQueue (Service line_lawful)
open JsString (Units utf16)
open Pipeline (allSourceNames)
open TrendQueueEventsListener (Call entries header remainderLine adminMessage sendNotification onCompleted
  entries_length userMessage_spec onCompleted_of_found)
open GreedyFill (Fits)

variable {ε σ μ : Type} {queue : Service σ String String JobOptions μ} {ext : Externals ε}
  {cfg : PipelineConfig} {config : TrendQueueEventsListener.Config}

/-! ## The invariant -/

/-- An event of a job that was dispatched for its source. -/
structure Reported (first : ℤ) (s : State ε σ) (event : Completed) : Prop where
  rowsThen : event.rowsThen ≤ s.visible
  job : Named first s.now event.jobId event.returnvalue.sourceName
  since : ∀ sinceDate ∈ event.sinceDate, ∃ t, t ≤ s.now ∧ sinceDate = getTodayStartUtc t

/-- The answer is from the table of a moment since the job completed. -/
def Answered (s : State ε σ) (a : Announcement) : Prop :=
  ∀ rows ∈ a.found, ∃ k, a.event.rowsThen ≤ k ∧ k ≤ s.visible ∧
    IsAnswer (s.world.table.rows.take k) a.event.returnvalue.sourceName a.sinceDate rows

/-- What was posted is what the handler of an event posts on such an answer. -/
structure Posted (config : TrendQueueEventsListener.Config) (first : ℤ) (s : State ε σ) (a : Announcement) :
    Prop where
  reported : Reported first s a.event
  since : a.event.sinceDate = some a.sinceDate
  answered : Answered s a
  posts : a = announce config a.event a.sinceDate a.found

/-- Every completion that the queue took has at most one event, and every event at most one
message. -/
structure Told (config : TrendQueueEventsListener.Config) (first : ℤ) (s : State ε σ) : Prop where
  running : ∀ running, s.running = some running → ∀ result, running.outcome = Outcome.ret result →
    result.sourceName = running.sourceName
  events : ∀ event ∈ s.completed, Reported first s event
  announced : ∀ a ∈ s.announced, Posted config first s a
  once : ∀ id, (s.announced.map fun a => a.event.jobId).count id + (s.completed.map fun e => e.jobId).count id ≤
    s.completions.count id

theorem told_initial (first now : ℤ) (world : World ε) (q : σ) : Told config first (initial now world q) :=
  ⟨nofun, by simp [initial], by simp [initial], fun id => by simp [initial]⟩

theorem Reported.mono {first : ℤ} {s s' : State ε σ} {event : Completed} (h : Reported first s event)
    (hvisible : s.visible ≤ s'.visible) (hnow : s.now ≤ s'.now) : Reported first s' event := by
  refine ⟨h.rowsThen.trans hvisible, h.job.mono hnow, fun sinceDate hsince => ?_⟩
  obtain ⟨t, ht, hday⟩ := h.since sinceDate hsince
  exact ⟨t, ht.trans hnow, hday⟩

/-- Rows that are added do not change what the table was, and so an answer stays one. -/
theorem Answered.mono {s s' : State ε σ} {a : Announcement} (h : Answered s a)
    (hlength : s.visible ≤ s.world.table.rows.length) (hvisible : s.visible ≤ s'.visible)
    (hgrown : s.world.table.rows <+: s'.world.table.rows) : Answered s' a := by
  intro rows hrows
  obtain ⟨k, hthen, hk, hanswer⟩ := h rows hrows
  obtain ⟨more, hmore⟩ := hgrown
  refine ⟨k, hthen, hk.trans hvisible, ?_⟩
  rw [← hmore, List.take_append_of_le_length (hk.trans hlength)]
  exact hanswer

theorem Posted.mono {first : ℤ} {s s' : State ε σ} {a : Announcement} (h : Posted config first s a)
    (hlength : s.visible ≤ s.world.table.rows.length) (hvisible : s.visible ≤ s'.visible)
    (hgrown : s.world.table.rows <+: s'.world.table.rows) (hnow : s.now ≤ s'.now) : Posted config first s' a :=
  ⟨h.reported.mono hvisible hnow, h.since, h.answered.mono hlength hvisible hgrown, h.posts⟩

/-- A step that completes no job and moves no handler. Handlers may be gone after it, as a
restart drops them. -/
theorem Told.of_same {first : ℤ} {s s' : State ε σ} (h : Told config first s)
    (hlength : s.visible ≤ s.world.table.rows.length) (hvisible : s.visible ≤ s'.visible)
    (hgrown : s.world.table.rows <+: s'.world.table.rows) (hnow : s.now ≤ s'.now)
    (hcompletions : s'.completions = s.completions) (hcompleted : s'.completed.Sublist s.completed)
    (hannounced : s'.announced = s.announced)
    (hrunning : ∀ running, s'.running = some running → s.running = some running ∨
      ∀ result, running.outcome = Outcome.ret result → result.sourceName = running.sourceName) :
    Told config first s' := by
  refine ⟨fun running hr result hresult => ?_, fun event hevent => ?_, fun a ha => ?_, fun id => ?_⟩
  · rcases hrunning running hr with hold | hnew
    · exact h.running running hold result hresult
    · exact hnew result hresult
  · exact (h.events event (hcompleted.subset hevent)).mono hvisible hnow
  · rw [hannounced] at ha
    exact (h.announced a ha).mono hlength hvisible hgrown hnow
  · have honce := h.once id
    have hpending := (hcompleted.map fun e => e.jobId).count_le id
    rw [hannounced, hcompletions]
    omega

/-! ## Steps -/

/-- The event of the job that completes has the result of its attempt and the rows that there
are now. -/
theorem Told.complete {first : ℤ} {s : State ε σ} {jobId sourceName : String} {result : ScrapeJobResult} {q : σ}
    (h : Told config first s) (hordered : Ordered queue first s)
    (hrunning : s.running = some ⟨jobId, sourceName, Outcome.ret result⟩) :
    Told config first { ended s with
      queue := q
      completions := s.completions ++ [jobId]
      completed := s.completed ++ [⟨jobId, result, s.visible, none⟩] } := by
  have hnow : s.now ≤ max s.now s.world.now := le_max_left _ _
  refine ⟨nofun, fun event hevent => ?_,
    fun a ha => (h.announced a ha).mono hordered.visible le_rfl List.prefix_rfl hnow, fun id => ?_⟩
  · rcases List.mem_append.1 hevent with hevent | hevent
    · exact (h.events event hevent).mono le_rfl hnow
    · rw [List.mem_singleton.1 hevent]
      -- the result is of the source that the job was dispatched for
      have hsource : result.sourceName = sourceName := h.running _ hrunning result rfl
      have hjob : Named first s.now jobId result.sourceName := hsource ▸ hordered.running _ hrunning
      exact ⟨le_rfl, hjob.mono hnow, nofun⟩
  · have honce := h.once id
    simp only [ended, List.map_append, List.map_cons, List.map_nil, List.count_append]
    omega

/-- The handler asks for the rows of its day, which is the day on which it runs and not that
of the job. -/
theorem Told.ask {first : ℤ} {s : State ε σ} {i : ℕ} {jobId : String} {returnvalue : ScrapeJobResult}
    {rowsThen : ℕ} (h : Told config first s) (hlength : s.visible ≤ s.world.table.rows.length)
    (hevent : s.completed[i]? = some ⟨jobId, returnvalue, rowsThen, none⟩) :
    Told config first { s with
      completed := s.completed.set i ⟨jobId, returnvalue, rowsThen, some (getTodayStartUtc s.now)⟩ } := by
  refine ⟨h.running, fun event hmem => ?_, fun a ha => (h.announced a ha).mono hlength le_rfl List.prefix_rfl
    le_rfl, fun id => ?_⟩
  · rcases List.mem_or_eq_of_mem_set hmem with hmem | rfl
    · exact (h.events event hmem).mono le_rfl le_rfl
    · obtain ⟨hthen, hjob, -⟩ := h.events _ (List.mem_of_getElem? hevent)
      refine ⟨hthen, hjob, ?_⟩
      rintro _ ⟨⟩
      exact ⟨s.now, le_rfl, rfl⟩
  · have hsame : (s.completed.set i ⟨jobId, returnvalue, rowsThen, some (getTodayStartUtc s.now)⟩).map
        (fun e => e.jobId) = s.completed.map fun e => e.jobId := by
      obtain ⟨hlt, hget⟩ := List.getElem?_eq_some_iff.1 hevent
      have hlt' : i < (s.completed.map fun e => e.jobId).length := by rwa [List.length_map]
      have hid : (s.completed.map fun e => e.jobId)[i] = jobId := by rw [List.getElem_map, hget]
      rw [List.map_set]
      conv_lhs => rw [← hid]
      exact List.set_getElem_self hlt'
    rw [hsame]
    exact h.once id

/-- The handler posts what it found in the table at this moment, or that it could not find
out. -/
theorem Told.answer {first : ℤ} {s : State ε σ} {i : ℕ} {event : Completed} {sinceDate : ℤ}
    {found : Option (List TechTrend)} (h : Told config first s)
    (hlength : s.visible ≤ s.world.table.rows.length) (hevent : s.completed[i]? = some event)
    (hsince : event.sinceDate = some sinceDate)
    (hfound : ∀ rows ∈ found, IsAnswer s.rows event.returnvalue.sourceName sinceDate rows) :
    Told config first { s with
      completed := s.completed.eraseIdx i
      announced := s.announced ++ [announce config event sinceDate found] } := by
  have hreported := h.events event (List.mem_of_getElem? hevent)
  refine ⟨h.running, fun other hother => (h.events other (List.mem_of_mem_eraseIdx hother)).mono le_rfl
    le_rfl, fun a ha => ?_, fun id => ?_⟩
  · rcases List.mem_append.1 ha with ha | ha
    · exact (h.announced a ha).mono hlength le_rfl List.prefix_rfl le_rfl
    · rw [List.mem_singleton.1 ha]
      exact ⟨hreported.mono le_rfl le_rfl, hsince,
        fun rows hrows => ⟨s.visible, hreported.rowsThen, le_rfl, hfound rows hrows⟩, rfl⟩
  · -- the event has become the announcement
    have hperm : s.completed.Perm (event :: s.completed.eraseIdx i) := by
      obtain ⟨hlt, hget⟩ := List.getElem?_eq_some_iff.1 hevent
      rw [← hget]
      exact (List.getElem_cons_eraseIdx_perm hlt).symm
    have hcount := (hperm.map fun e => e.jobId).count_eq id
    have honce := h.once id
    rw [List.map_cons, List.count_cons] at hcount
    simp only [List.map_append, List.map_cons, List.map_nil, List.count_append, List.count_singleton, announce]
    omega

/-- **Step.** What is announced goes back to a completion, and its rows to the table of a
moment since then. Together with the order of the jobs, since an event is named after its job. -/
theorem told_kept (hlawful : queue.Lawful) (first : ℤ) :
    (machine queue ext cfg config).Keeps fun s => Ordered queue first s ∧ Told config first s := by
  intro s a s' ⟨hordered, hs⟩ hstep
  refine ⟨ordered_kept hlawful first s a s' hordered hstep, ?_⟩
  have hlength := hordered.visible
  cases moves_of_step queue ext cfg config hstep with
  | @tick ms =>
    have hnow : s.now ≤ s.now + ms := by omega
    exact hs.of_same hlength le_rfl List.prefix_rfl hnow rfl (List.Sublist.refl _) rfl fun _ => Or.inl
  | @take jobId sourceName q _ htake =>
    refine hs.of_same hlength le_rfl (attempt_grows ext cfg s sourceName) le_rfl rfl (List.Sublist.refl _) rfl ?_
    rintro _ ⟨⟩
    exact Or.inr fun result hresult =>
      Pipeline.executeScraperByName_sourceName sourceName _ result _ (Effect.eq_of_outcome hresult)
  | insert =>
    exact hs.of_same hlength (Nat.le_succ _) List.prefix_rfl (le_max_left _ _) rfl (List.Sublist.refl _) rfl
      fun _ => Or.inl
  | complete hrunning => exact hs.complete hordered hrunning
  | fail =>
    exact hs.of_same hlength le_rfl List.prefix_rfl (le_max_left _ _) rfl (List.Sublist.refl _) rfl nofun
  | lost =>
    exact hs.of_same hlength le_rfl List.prefix_rfl (le_max_left _ _) rfl (List.Sublist.refl _) rfl nofun
  | killed =>
    exact hs.of_same hlength le_rfl List.prefix_rfl (le_max_left _ _) rfl (List.nil_sublist _) rfl nofun
  | ask hevent => exact hs.ask hlength hevent
  | answer hevent hsince hfound => exact hs.answer hlength hevent hsince hfound
  | restart =>
    exact hs.of_same hlength le_rfl List.prefix_rfl le_rfl rfl (List.nil_sublist _) rfl nofun
  | _ =>
    exact hs.of_same hlength le_rfl List.prefix_rfl le_rfl rfl (List.Sublist.refl _) rfl fun _ => Or.inl

/-! ## What a message lists -/

/-- The rows of an answer, read off the table. -/
theorem IsAnswer.spec {table : TrendTable} {k : ℕ} {sourceName : String} {t : ℤ} {rows : List TechTrend}
    (h : IsAnswer (table.rows.take k) sourceName (getTodayStartUtc t) rows) :
    rows.Nodup ∧ ∀ row, row ∈ rows ↔
      row ∈ table.rows.take k ∧ row.source = sourceName ∧ seoulDay t ≤ seoulDay row.mined_at := by
  refine ⟨h.1.nodup_iff.2 ?_, fun row => ?_⟩
  · exact ((table.ids_nodup.of_map _).sublist (List.take_sublist _ _)).filter _
  · rw [h.1.mem_iff, List.mem_filter, decide_eq_true_eq, getTodayStartUtc_le_iff]

/-- The rows of an answer are no more than the table can hold. -/
theorem IsAnswer.length_lt {table : TrendTable} {k : ℕ} {sourceName : String} {sinceDate : ℤ}
    {rows : List TechTrend} (h : IsAnswer (table.rows.take k) sourceName sinceDate rows) :
    rows.length < 2 ^ 32 := by
  have hrows : rows.length ≤ table.rows.length := by
    rw [h.1.length_eq]
    exact (List.filter_sublist.length_le).trans (List.take_sublist _ _).length_le
  have htable := table.length_rows_le
  omega

/-- The name of a source is short. -/
theorem header_length_le {sourceName : String} (h : sourceName ∈ allSourceNames) :
    (header (utf16 sourceName)).length ≤ 1800 := by
  simp only [allSourceNames, List.mem_cons, List.not_mem_nil, or_false] at h
  rcases h with rfl | rfl | rfl
  · decide
  · decide
  · decide

/-- The message to the readers about `rows`: the header and the entries of the first `k` of
them, numbered from one, where `k` is the greatest number of entries that fit in 1800 units;
and a line with the number of the others. -/
def Lists (baseUrl : Units) (sourceName : String) (rows : List TechTrend) (message : Units) : Prop :=
  ∃ k, IsGreatest {k | k ≤ rows.length ∧ ∀ j ≤ k, (header (utf16 sourceName) ++
      ((entries baseUrl 0 (rows.map savedArticleInfo)).take j).flatten).length ≤ 1800} k ∧
    message = header (utf16 sourceName) ++ ((entries baseUrl 0 (rows.map savedArticleInfo)).take k).flatten ++
      if k < rows.length then remainderLine (rows.length - k) else []

/-- What a handler posts when its query is answered. -/
def Posts (config : TrendQueueEventsListener.Config) (jobId sourceName : String) (rows : List TechTrend)
    (calls : List Call) : Prop :=
  ∀ webhookUrl, config.DISCORD_USER_WEBHOOK_URL = some webhookUrl → webhookUrl ≠ [] → rows ≠ [] →
    ∃ message, Lists config.baseUrl sourceName rows message ∧
      calls = sendNotification config (adminMessage (utf16 jobId) (some (utf16 sourceName)) rows.length) .ADMIN ++
        [Call.post webhookUrl message, Call.invalidateSources]

/-- The messages for an answer: one to each channel that is configured, the one for readers
with as many rows as fit. -/
theorem posts_announce {event : Completed} {sinceDate : ℤ} {rows : List TechTrend}
    (hsource : event.returnvalue.sourceName ∈ allSourceNames) (hlt : rows.length < 2 ^ 32) :
    Posts config event.jobId event.returnvalue.sourceName rows
      (announce config event sinceDate (some rows)).calls := by
  intro webhookUrl hurl hwebhook hne
  have hheader := header_length_le hsource
  have hmap : rows.map savedArticleInfo ≠ [] := fun h => hne (List.map_eq_nil_iff.1 h)
  have hlength : (rows.map savedArticleInfo).length = rows.length := List.length_map ..
  have hname : (TrendQueueEventsListener.ReturnValue.object
      (some (utf16 event.returnvalue.sourceName))).sourceName = some (utf16 event.returnvalue.sourceName) := by
    simp only [allSourceNames, List.mem_cons, List.not_mem_nil, or_false] at hsource
    rcases hsource with h | h | h
    · rw [h]
      rfl
    · rw [h]
      rfl
    · rw [h]
      rfl
  obtain ⟨k, hk, hmessage, -⟩ := userMessage_spec config.baseUrl hmap (hlength ▸ hlt) hheader
  simp only [Fits, entries_length, hlength] at hk hmessage
  have hcalls := onCompleted_of_found config (fun _ => some (rows.map savedArticleInfo)) (utf16 event.jobId)
    (.object (some (utf16 event.returnvalue.sourceName))) hname rfl hmap (hlength ▸ hlt) hheader hurl hwebhook
  rw [hlength] at hcalls
  exact ⟨_, ⟨k, hk, hmessage⟩, hcalls⟩

/-- The row that the job of the first day saves. -/
def savedFirst : TechTrend where
  source := "dev.to"
  source_id := "1"
  title := "first"
  short_summary := []
  long_summary := some ""
  link_url := "https://dev.to"
  technical_tags := none
  embedding := some []
  view_count := none
  like_count := none
  comment_count := none
  created_at := "2026-01-01"
  id := 1
  mined_at := 0

end ScraperQueue

end TechTrends
