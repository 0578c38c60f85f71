/-
When the cached list of sources is the list of the table.

What is cached or on its way there is the list of the table at some earlier time. So
it can only lack sources, and each source that it lacks was brought in by an attempt
since. The deletion after that attempt takes the stale list out of the cache, unless
there is no deletion, for a failed attempt, or the list is written only after it.
-/
import TechTrends.Sources

set_option autoImplicit false

namespace TechTrends

namespace Sources

open TrendsQuery (CallId Load LoadPhase Result Value Flights update_eq_some)

variable {cfg : TrendsCacheConfig} {collation : Collation} {table : TrendTable} {s t : State}
  {q q' : TrendsQuery.State} {P : Json → Prop} {l : CallId} {target : Target} {result : Result}
  {rows₀ rows rows' : List TechTrend} {j : ℕ}

/-! ## What the requests carry -/

/-- The lists that are cached, under way to the cache, or given by a load meet `P`. -/
structure Carries (P : Json → Prop) (q : TrendsQuery.State) : Prop where
  store : ∀ entry, q.store TRENDS_SOURCES_CACHE_KEY = some entry →
    ∃ v, P v ∧ entry.value = RedisService.serialized v
  writes : ∀ w ∈ q.writes, w.target = Target.sources → P w.value
  loads : ∀ l load v, q.loads l = some load → load.target = Target.sources →
    load.result? = some (Except.ok v) → P v.toJson

theorem Carries.mono {P' : Json → Prop} (h : Carries P q) (hp : ∀ v, P v → P' v) :
    Carries P' q := by
  refine ⟨?_, fun w hw htarget => hp _ (h.writes w hw htarget),
    fun l load v hl htarget hresult => hp _ (h.loads l load v hl htarget hresult)⟩
  intro entry hentry
  obtain ⟨v, hv, htext⟩ := h.store entry hentry
  exact ⟨v, hp v hv, htext⟩

/-- A step that touches neither the store nor the writes nor the loads changes nothing. -/
theorem Carries.of_eq (h : Carries P q) (hstore : q'.store = q.store)
    (hwrites : q'.writes = q.writes) (hloads : q'.loads = q.loads) : Carries P q' := by
  refine ⟨?_, ?_, ?_⟩
  · rw [hstore]
    exact h.store
  · rw [hwrites]
    exact h.writes
  · rw [hloads]
    exact h.loads

/-- A load goes on, with a list for its result or none yet. -/
theorem Carries.setLoad (h : Carries P q) {phase : LoadPhase}
    (hresult : ∀ v, target = Target.sources →
      Load.result? ⟨target, phase⟩ = some (Except.ok v) → P v.toJson) :
    Carries P (q.setLoad l target phase) := by
  refine ⟨h.store, h.writes, ?_⟩
  intro l' load v hl' htarget hv
  rcases update_eq_some hl' with ⟨-, hnew⟩ | ⟨-, hold⟩
  · cases hnew
    exact hresult v htarget hv
  · exact h.loads l' load v hold htarget hv

/-- A load ends, and its list is on its way to the cache. -/
theorem Carries.finish (h : Carries P q)
    (hresult : ∀ v, target = Target.sources → result = Except.ok v → P v.toJson) :
    Carries P (q.finish l target result) := by
  refine ⟨?_, ?_, ?_⟩
  · rw [TrendsQuery.finish_store]
    exact h.store
  · intro w hw htarget
    rcases TrendsQuery.finish_writes q l target result with heq | ⟨v, hv, heq⟩
    · exact h.writes w (heq ▸ hw) htarget
    · rw [heq] at hw
      rcases List.mem_append.1 hw with hold | hnew
      · exact h.writes w hold htarget
      · rw [List.mem_singleton.1 hnew] at htarget ⊢
        exact hresult v htarget hv
  · intro l' load v hl' htarget hv
    rw [TrendsQuery.finish_loads] at hl'
    rcases update_eq_some hl' with ⟨-, hnew⟩ | ⟨-, hold⟩
    · cases hnew
      cases hv
      exact hresult v htarget rfl
    · exact h.loads l' load v hold htarget hv

/-- A load starts, without a result. -/
theorem Carries.start (h : Carries P q) (c : CallId) : Carries P (q.start c target) := by
  have hlead : Carries P (q.lead c target) := by
    refine ⟨?_, ?_, ?_⟩
    · rw [TrendsQuery.lead_store]
      exact h.store
    · rw [TrendsQuery.lead_writes]
      exact h.writes
    · intro l load v hl htarget hv
      rw [TrendsQuery.lead_loads] at hl
      rcases update_eq_some hl with ⟨-, hnew⟩ | ⟨-, hold⟩
      · cases hnew
        cases target <;> cases hv
      · exact h.loads l load v hold htarget hv
  cases target with
  | related id limit => exact hlead.of_eq rfl rfl rfl
  | _ => exact hlead

/-- A load of related articles goes on after its article, which is no matter of the list. -/
theorem Carries.afterArticle (h : Carries P q) (id limit : Binary64) :
    Carries P (TrendsQuery.afterArticle q l id limit result) := by
  rcases TrendsQuery.afterArticle_cases q l id limit result with ⟨r, heq⟩ | ⟨query, heq⟩
  · rw [heq]
    apply h.finish
    rintro v ⟨⟩
  · rw [heq]
    apply h.setLoad
    rintro v ⟨⟩

/-- What a step of the requests can do to the key: nothing, take it out, or write it. The keys
of the other families are different ones. -/
theorem store_query {a : TrendsQuery.Act} (hallowed : allowed collation table a = true)
    (hstep : TrendsQuery.step cfg q a = some q') {entry : Entry}
    (hentry : q'.store TRENDS_SOURCES_CACHE_KEY = some entry) :
    q.store TRENDS_SOURCES_CACHE_KEY = some entry ∨
      noted q a = [Event.wrote] ∧ ∃ w ∈ q.writes, w.target = Target.sources ∧
        entry.value = RedisService.serialized w.value := by
  rcases TrendsQuery.store_moves (TrendsQuery.step_moves hstep) with heq |
      ⟨n, carriedOut, w, rfl, hw, heq⟩ | ⟨key, entry', rfl, heq⟩
  · exact Or.inl (heq ▸ hentry)
  · rw [heq] at hentry
    cases carriedOut with
    | false => exact Or.inl hentry
    | true =>
      have hset : TrendsCacheService.set cfg q.now q.store w.target w.value
          Target.sources.cacheKey = some entry := hentry
      rcases TrendsCacheService.set_entry hset with ⟨htarget, hvalue⟩ | hold
      · refine Or.inr ⟨?_, w, List.mem_of_getElem? hw, htarget.symm, hvalue⟩
        simp [noted, hw, ← htarget]
      · exact Or.inl hold
  · rw [heq] at hentry
    rcases update_eq_some hentry with ⟨hkey, hnew⟩ | ⟨-, hold⟩
    · rw [hnew, ← hkey] at hallowed
      simp [allowed] at hallowed
    · exact Or.inl hold

/-- **Step of the requests.** The queries for the list are answered from the table, and
the rest is passed on. -/
theorem Carries.query (hf : Flights q) (h : Carries P q)
    (hlist : P (textsJson (table.findUniqueSources collation))) {a : TrendsQuery.Act}
    (hallowed : allowed collation table a = true)
    (hstep : TrendsQuery.step cfg q a = some q') : Carries P q' := by
  have hstore : ∀ entry, q'.store TRENDS_SOURCES_CACHE_KEY = some entry →
      ∃ v, P v ∧ entry.value = RedisService.serialized v := by
    intro entry hentry
    rcases store_query hallowed hstep hentry with hold | ⟨-, w, hw, htarget, hvalue⟩
    · exact h.store entry hold
    · exact ⟨w.value, h.writes w hw htarget, hvalue⟩
  cases TrendsQuery.step_moves hstep with
  | @request i r hcall hnone => cases r <;> exact h.of_eq rfl rfl rfl
  | @starts c target cached hc husable hload => exact h.start c
  -- a load that succeeds hands its value to a write, and only then
  | @ends c l target load result hc hl hresult =>
    unfold TrendsQuery.afterLoad
    simp only
    split
    · refine (h.finish ?_).of_eq rfl rfl rfl
      rintro v htarget rfl
      exact h.loads l load v hl ((hf.waits_target hc hl).trans htarget) hresult
    · exact h.of_eq rfl rfl rfl
  -- the names of the table as it is now
  | @query l target query answer hl hfits =>
    apply h.setLoad
    rintro v rfl hv
    have hloaded : TrendsQuery.loaded Target.sources answer = Except.ok v := by
      simpa [Load.result?, TrendsQuery.cleansUpInCall] using hv
    rcases answer with _ | (names | row | data | n)
    · cases hloaded
    · cases hloaded
      have hnames : names = table.findUniqueSources collation := by simpa [allowed] using hallowed
      rw [hnames]
      exact hlist
    all_goals cases hloaded
  | @loaded l target answer hl hown =>
    apply h.finish
    rintro v rfl
    cases hown
  | @article l id limit result hl hresult => exact h.afterArticle id limit
  | @write n carriedOut w hw =>
    exact ⟨hstore, fun w' hw' => h.writes w' (List.mem_of_mem_eraseIdx hw'), h.loads⟩
  | outside => exact ⟨hstore, h.writes, h.loads⟩
  | _ => exact h.of_eq rfl rfl rfl

/-! ## The invariant -/

/-- The list of the table at some time since it had the rows `rows₀`. -/
def Earlier (collation : Collation) (rows₀ rows : List TechTrend) (v : Json) : Prop :=
  ∃ mid, rows₀ <+: mid ∧ mid <+: rows ∧ v = textsJson (sourcesOf collation mid)

theorem Earlier.mono {v : Json} (h : Earlier collation rows₀ rows v) (hgrown : rows <+: rows') :
    Earlier collation rows₀ rows' v := by
  obtain ⟨mid, hstart, hmid, hv⟩ := h
  exact ⟨mid, hstart, hmid.trans hgrown, hv⟩

theorem mem_sourcesOf_mono {source : String} (hgrown : rows <+: rows')
    (h : source ∈ sourcesOf collation rows) : source ∈ sourcesOf collation rows' := by
  rw [sourcesOf, Collation.mem_uniqueTexts] at h ⊢
  exact ⟨(hgrown.map _).subset h.1, h.2⟩

/-- An attempt that is running, has failed, or is completed with a handler that
deletes the key before it is done. -/
def Accounted (s : State) (j : ℕ) : Prop :=
  s.attempts j = some AttemptState.running ∨ Event.failed j ∈ s.history ∨
    ∃ handler, s.handlers j = some handler ∧ handler ≠ Handler.notifyFailure ∧
      (handler = Handler.done → Event.cleared j ∈ s.history)

structure Coherent (collation : Collation) (rows₀ : List TechTrend) (s : State) : Prop where
  flights : Flights s.query
  grown : rows₀ <+: s.table.rows
  carries : Carries (Earlier collation rows₀ s.table.rows) s.query
  overwritten : ∀ entry j, s.query.store TRENDS_SOURCES_CACHE_KEY = some entry →
    Event.cleared j ∈ s.history → [Event.cleared j, Event.wrote].Sublist s.history
  news : ∀ source ∈ sourcesOf collation s.table.rows, source ∉ sourcesOf collation rows₀ →
    ∃ j, Event.added j source ∈ s.history
  added : ∀ j source, Event.added j source ∈ s.history →
    source ∈ sourcesOf collation s.table.rows
  accounted : ∀ j source, Event.added j source ∈ s.history → Accounted s j

/-- What another attempt does changes nothing for this one. -/
theorem Accounted.frame (h : Accounted s j) (hattempts : t.attempts j = s.attempts j)
    (hhandlers : t.handlers j = s.handlers j) (hhistory : s.history <+: t.history) :
    Accounted t j := by
  rcases h with hrunning | hfailed | ⟨handler, hj, hne, hdone⟩
  · exact Or.inl (hattempts.trans hrunning)
  · exact Or.inr (Or.inl (hhistory.subset hfailed))
  · exact Or.inr (Or.inr ⟨handler, hhandlers.trans hj, hne, fun hd => hhistory.subset (hdone hd)⟩)

/-- Later events leave the order of the earlier ones. -/
theorem Coherent.overwritten_append (h : Coherent collation rows₀ s) {entry : Entry}
    (hentry : s.query.store TRENDS_SOURCES_CACHE_KEY = some entry) {events : List Event}
    (hnone : Event.cleared j ∉ events) (hcleared : Event.cleared j ∈ s.history ++ events) :
    [Event.cleared j, Event.wrote].Sublist (s.history ++ events) := by
  rcases List.mem_append.1 hcleared with hold | hnew
  · exact (h.overwritten entry j hentry hold).trans (List.sublist_append_left _ _)
  · exact absurd hnew hnone

theorem noted_eq (q : TrendsQuery.State) (a : TrendsQuery.Act) :
    noted q a = [] ∨ noted q a = [Event.wrote] := by
  unfold noted
  split
  · split
    · exact Or.inr rfl
    · exact Or.inl rfl
  · exact Or.inl rfl

/-- **Step of a request.** It reads the list, loads it from the table as it is now, or writes
one that was loaded at some time before. -/
theorem Coherent.query (h : Coherent collation rows₀ s) {a : TrendsQuery.Act}
    (hallowed : allowed collation s.table a = true)
    (hstep : TrendsQuery.step cfg s.query a = some q) :
    Coherent collation rows₀ { s with query := q, history := s.history ++ noted s.query a } := by
  have hnews : ∀ event ∈ noted s.query a, event = Event.wrote := by
    rcases noted_eq s.query a with hnone | hwrote
    · rw [hnone]
      rintro event ⟨⟩
    · rw [hwrote]
      exact fun event => List.mem_singleton.1
  have hold : ∀ event ∈ s.history ++ noted s.query a, event ≠ Event.wrote → event ∈ s.history := by
    intro event hevent hne
    rcases List.mem_append.1 hevent with hold | hnew
    · exact hold
    · exact absurd (hnews event hnew) hne
  refine ⟨(TrendsQuery.flights_step h.flights hstep).flights, h.grown, ?_, ?_, ?_, ?_, ?_⟩
  · exact h.carries.query h.flights ⟨_, h.grown, List.prefix_refl _, rfl⟩ hallowed hstep
  · intro entry j hentry hcleared
    have hcleared := hold _ hcleared (by rintro ⟨⟩)
    rcases store_query hallowed hstep hentry with hsame | ⟨hwrote, -⟩
    · exact (h.overwritten entry j hsame hcleared).trans (List.sublist_append_left _ _)
    · -- the write comes after all that has been deleted
      show [Event.cleared j, Event.wrote].Sublist (s.history ++ noted s.query a)
      rw [hwrote]
      exact (List.singleton_sublist.2 hcleared).append (List.Sublist.refl [Event.wrote])
  · intro source hsource hnew
    obtain ⟨j, hj⟩ := h.news source hsource hnew
    exact ⟨j, List.mem_append_left _ hj⟩
  · exact fun j source hj => h.added j source (hold _ hj (by rintro ⟨⟩))
  · intro j source hj
    exact (h.accounted j source (hold _ hj (by rintro ⟨⟩))).frame rfl rfl (List.prefix_append _ _)

/-- **Step of an attempt that inserts a row.** The lists on their way are older from now on,
and when the row is the first of its source, they may lack this one source; the attempt
answers for it. -/
theorem Coherent.insert (h : Coherent collation rows₀ s) {row : TechTrend}
    (hrunning : s.attempts j = some AttemptState.running) (hinsert : s.table.insert row = some table) :
    Coherent collation rows₀
      { s with table := table, history := s.history ++ addition collation j s.table row } := by
  have hrows := TrendTable.insert_rows hinsert
  have hgrown : s.table.rows <+: table.rows := ⟨[row], hrows.symm⟩
  have hmem : ∀ source, source ∈ sourcesOf collation table.rows ↔
      source ∈ sourcesOf collation s.table.rows ∨ source = row.source ∧ source ≠ "" := by
    intro source
    simp only [sourcesOf, Collation.mem_uniqueTexts, hrows, List.map_append, List.mem_append,
      List.map_singleton, List.mem_singleton]
    tauto
  have haddition : ∀ event ∈ addition collation j s.table row,
      event = Event.added j row.source ∧ row.source ≠ "" := by
    intro event hevent
    unfold addition at hevent
    split at hevent
    · rename_i hfirst
      exact ⟨List.mem_singleton.1 hevent, hfirst.1⟩
    · cases hevent
  -- a clause for a clause: the entry, the new names, the added names, their account
  refine ⟨h.flights, h.grown.trans hgrown, h.carries.mono fun v hv => hv.mono hgrown, ?_, ?_, ?_, ?_⟩
  · intro entry i hentry hcleared
    refine h.overwritten_append hentry ?_ hcleared
    intro hnew
    cases (haddition _ hnew).1
  · -- a name that is in the table now was there before or came with this row
    intro source hsource hnew
    by_cases hold : source ∈ sourcesOf collation s.table.rows
    · obtain ⟨i, hi⟩ := h.news source hold hnew
      exact ⟨i, List.mem_append_left _ hi⟩
    · obtain ⟨rfl, hne⟩ := ((hmem source).1 hsource).resolve_left hold
      refine ⟨j, List.mem_append_right _ ?_⟩
      have hfirst : row.source ≠ "" ∧ row.source ∉ s.table.findUniqueSources collation :=
        ⟨hne, hold⟩
      rw [addition, if_pos hfirst]
      exact List.mem_singleton_self _
  · intro i source hi
    rcases List.mem_append.1 hi with hold | hnew
    · exact mem_sourcesOf_mono hgrown (h.added i source hold)
    · obtain ⟨heq, hne⟩ := haddition _ hnew
      cases heq
      exact (hmem _).2 (Or.inr ⟨rfl, hne⟩)
  · intro i source hi
    rcases List.mem_append.1 hi with hold | hnew
    · exact (h.accounted i source hold).frame rfl rfl (List.prefix_append _ _)
    · obtain ⟨heq, -⟩ := haddition _ hnew
      cases heq
      exact Or.inl hrunning

/-- An attempt or its handler goes on, which the others do not see, and no source is
added. -/
theorem Coherent.attempt (h : Coherent collation rows₀ s) (event : Option Event)
    (hquery : t.query = s.query) (htable : t.table = s.table) (hhistory : t.history = s.history ++ event.toList)
    (hcleared : ∀ i, event ≠ some (Event.cleared i))
    (hadded : ∀ i source, event ≠ some (Event.added i source))
    (hothers : ∀ i, i ≠ j → t.attempts i = s.attempts i ∧ t.handlers i = s.handlers i)
    (hj : Accounted s j → Accounted t j) : Coherent collation rows₀ t := by
  have hprefix : s.history <+: t.history := ⟨event.toList, hhistory.symm⟩
  have hold : ∀ e ∈ t.history, event ≠ some e → e ∈ s.history := by
    intro e he hne
    rw [hhistory] at he
    rcases List.mem_append.1 he with hold | hnew
    · exact hold
    · exact absurd (Option.mem_toList.1 hnew) hne
  refine ⟨hquery ▸ h.flights, htable ▸ h.grown, ?_, ?_, ?_, ?_, ?_⟩
  · rw [hquery, htable]
    exact h.carries
  · intro entry i hentry hi
    rw [hquery] at hentry
    exact (h.overwritten entry i hentry (hold _ hi (hcleared i))).trans hprefix.sublist
  · rw [htable]
    intro source hsource hnew
    obtain ⟨i, hi⟩ := h.news source hsource hnew
    exact ⟨i, hprefix.subset hi⟩
  · rw [htable]
    exact fun i source hi => h.added i source (hold _ hi (hadded i source))
  · intro i source hi
    have hi := h.accounted i source (hold _ hi (hadded i source))
    by_cases hij : i = j
    · exact hij ▸ hj (hij ▸ hi)
    · exact hi.frame (hothers i hij).1 (hothers i hij).2 hprefix

/-- A handler of a completed job that is not at its deletion is not through after. -/
theorem next_ne_done {now : ℤ} {handler handler' : Handler}
    (h : handler.next now table = some handler') (hclear : handler ≠ Handler.invalidateSources)
    (hfailure : handler ≠ Handler.notifyFailure) :
    handler' ≠ Handler.notifyFailure ∧ handler' ≠ Handler.done := by
  cases handler with
  | findSavedSince sourceName =>
    cases h
    exact ⟨by rintro ⟨⟩, by rintro ⟨⟩⟩
  | notifyAdmin savedCount =>
    cases h
    split
    · exact ⟨by rintro ⟨⟩, by rintro ⟨⟩⟩
    · exact ⟨by rintro ⟨⟩, by rintro ⟨⟩⟩
  | notifyUser =>
    cases h
    exact ⟨by rintro ⟨⟩, by rintro ⟨⟩⟩
  | invalidateSources => exact absurd rfl hclear
  | notifyFailure => exact absurd rfl hfailure
  | done => cases h

/-- **Step of a handler that deletes the key.** What is cached afterwards was written after
the deletion, so each list that lacks a source of this attempt has been written late. -/
theorem Coherent.clear (h : Coherent collation rows₀ s)
    (hj : s.handlers j = some Handler.invalidateSources) :
    Coherent collation rows₀
      { s with
        handlers := Function.update s.handlers j (some Handler.done)
        query := { s.query with store := TrendsCacheService.invalidateSources s.query.store }
        history := s.history ++ [Event.cleared j] } := by
  have hstore : TrendsCacheService.invalidateSources s.query.store TRENDS_SOURCES_CACHE_KEY = none := by
    simp [TrendsCacheService.invalidateSources, RedisService.delCache, Redis.del]
  -- to the requests, it is a deletion by another party
  have houtside : TrendsQuery.step TrendsQuery.testConfig s.query
      (TrendsQuery.Act.outside TRENDS_SOURCES_CACHE_KEY none) =
        some { s.query with store := TrendsCacheService.invalidateSources s.query.store } := rfl
  refine ⟨(TrendsQuery.flights_step h.flights houtside).flights, h.grown, ⟨?_, h.carries.writes, h.carries.loads⟩, ?_, ?_, ?_, ?_⟩
  · intro entry hentry
    cases hstore.symm.trans hentry
  · intro entry i hentry
    cases hstore.symm.trans hentry
  · intro source hsource hnew
    obtain ⟨i, hi⟩ := h.news source hsource hnew
    exact ⟨i, List.mem_append_left _ hi⟩
  · intro i source hi
    exact h.added i source (by simpa using hi)
  · intro i source hi
    have hi := h.accounted i source (by simpa using hi)
    by_cases hij : i = j
    · subst hij
      exact Or.inr (Or.inr ⟨Handler.done, Function.update_self .., by rintro ⟨⟩,
        fun _ => List.mem_append_right _ (List.mem_singleton_self _)⟩)
    · exact hi.frame rfl (Function.update_of_ne hij ..) (List.prefix_append _ _)

/-- **Step of a handler.** It has its notifications to send before the deletion, and they are
no matter of the list. -/
theorem Coherent.handle (h : Coherent collation rows₀ s) {handler handler' : Handler}
    (hj : s.handlers j = some handler)
    (hnext : handler.next s.query.now s.table = some handler')
    (hclear : handler ≠ Handler.invalidateSources) :
    Coherent collation rows₀ { s with handlers := Function.update s.handlers j (some handler') } := by
  refine h.attempt none rfl rfl (List.append_nil _).symm (by rintro i ⟨⟩)
    (by rintro i source ⟨⟩) (fun i hij => ⟨rfl, Function.update_of_ne hij ..⟩) ?_
  rintro (hrunning | hfailed | ⟨handler'', hj', hfailure, -⟩)
  · exact Or.inl hrunning
  · exact Or.inr (Or.inl hfailed)
  · rw [hj] at hj'
    cases hj'
    obtain ⟨hfailure', hdone'⟩ := next_ne_done hnext hclear hfailure
    exact Or.inr (Or.inr ⟨handler', Function.update_self .., hfailure', fun hd => absurd hd hdone'⟩)

/-- **Step.** What is cached or on its way is a list of an earlier time, and each source that
it lacks is accounted for. By cases on who makes the step. -/
theorem coherent_step (h : Coherent collation rows₀ s) {a : Act}
    (hstep : step cfg collation s a = some t) : Coherent collation rows₀ t := by
  cases step_moves hstep with
  | query hallowed hq => exact h.query hallowed hq
  | @start i hattempt hhandler =>
    refine h.attempt (j := i) none rfl rfl (List.append_nil _).symm (by rintro k ⟨⟩)
      (by rintro k source ⟨⟩) (fun k hk => ⟨Function.update_of_ne hk .., rfl⟩) ?_
    exact fun _ => Or.inl (Function.update_self ..)
  | insert hrunning hinsert => exact h.insert hrunning hinsert
  | @complete i result hrunning =>
    refine h.attempt (j := i) none rfl rfl (List.append_nil _).symm (by rintro k ⟨⟩)
      (by rintro k source ⟨⟩)
      (fun k hk => ⟨Function.update_of_ne hk .., Function.update_of_ne hk ..⟩) ?_
    refine fun _ => Or.inr (Or.inr ⟨onCompleted result, Function.update_self .., ?_, ?_⟩)
    · unfold onCompleted
      split <;> rintro ⟨⟩
    · unfold onCompleted
      split <;> rintro ⟨⟩
  | @fail i reported hrunning =>
    refine h.attempt (j := i) (some (Event.failed i)) rfl rfl rfl (by rintro k ⟨⟩)
      (by rintro k source ⟨⟩) ?_ ?_
    · intro k hk
      refine ⟨Function.update_of_ne hk .., ?_⟩
      cases reported with
      | true => exact Function.update_of_ne hk ..
      | false => rfl
    · exact fun _ => Or.inr (Or.inl (List.mem_append_right _ (List.mem_singleton_self _)))
  | clear hj => exact h.clear hj
  | handle hj hnext hclear => exact h.handle hj hnext hclear

/-- The key is absent at the start, or holds the list of the table. -/
theorem coherent_initial (now : ℕ) {store : Store}
    (hstore : ∀ entry, store TRENDS_SOURCES_CACHE_KEY = some entry →
      entry.value = RedisService.serialized (textsJson (table.findUniqueSources collation))) :
    Coherent collation table.rows (initial now store table) := by
  refine ⟨TrendsQuery.flights_initial now store, List.prefix_refl _, ⟨?_, ?_, ?_⟩, ?_, ?_, ?_, ?_⟩
  · exact fun entry hentry =>
      ⟨_, ⟨table.rows, List.prefix_refl _, List.prefix_refl _, rfl⟩, hstore entry hentry⟩
  · rintro w ⟨⟩
  · rintro l load v ⟨⟩
  · rintro entry j - ⟨⟩
  · exact fun source hsource hnew => absurd hsource hnew
  · rintro j source ⟨⟩
  · rintro j source ⟨⟩

/-! ## Coherence -/

/-- The list lacks a source whose first row came from an attempt that failed, or from
one whose handler had deleted the key before the list was written. -/
def Missed (s : State) (names : List String) : Prop :=
  ∃ j source, Event.added j source ∈ s.history ∧ source ∉ names ∧
    (Event.failed j ∈ s.history ∨ [Event.cleared j, Event.wrote].Sublist s.history)

/-- An earlier list with all of the sources is the list. -/
theorem sourcesOf_eq_of_prefix (hgrown : rows <+: rows')
    (h : ∀ source ∈ sourcesOf collation rows', source ∈ sourcesOf collation rows) :
    sourcesOf collation rows = sourcesOf collation rows' := by
  apply collation.uniqueTexts_congr
  intro source hne
  constructor
  · exact fun hmem => (hgrown.map _).subset hmem
  · intro hmem
    exact ((collation.mem_uniqueTexts).1 (h source ((collation.mem_uniqueTexts).2 ⟨hmem, hne⟩))).1

/-- Rows are inserted one at a time, and never removed. -/
theorem step_rows {a : Act} (h : step cfg collation s a = some t) :
    s.table.rows <+: t.table.rows ∧ t.table.rows.length ≤ s.table.rows.length + 1 := by
  cases step_moves h with
  | @insert j row table hrunning hinsert =>
    have hrows : table.rows = s.table.rows ++ [row] := TrendTable.insert_rows hinsert
    show s.table.rows <+: table.rows ∧ table.rows.length ≤ _
    rw [hrows, List.length_append, List.length_singleton]
    exact ⟨List.prefix_append _ _, Nat.le_refl _⟩
  | _ => exact ⟨List.prefix_rfl, Nat.le_succ _⟩

/-- Rows between those of the first and those of the last state are the rows of a state. -/
theorem exists_state_of_rows {as : List Act} (hrun : (machine cfg collation).run as s = some t)
    {rows : List TechTrend} (hlow : s.table.rows <+: rows) (hhigh : rows <+: t.table.rows) :
    ∃ pre post u, as = pre ++ post ∧ (machine cfg collation).run pre s = some u ∧ u.table.rows = rows := by
  obtain ⟨pre, post, u, hsplit, hpre, hpost, hlength⟩ := StepMachine.run_passes (machine cfg collation)
    (f := fun s => s.table.rows.length) (fun _ _ _ hstep => (step_rows hstep).2) hrun hlow.length_le hhigh.length_le
  have hgrown : u.table.rows <+: t.table.rows :=
    StepMachine.run_rel (machine cfg collation) (R := fun s t => s.table.rows <+: t.table.rows)
      (fun _ => List.prefix_rfl) (fun _ _ _ => List.IsPrefix.trans) (fun _ _ _ hstep => (step_rows hstep).1) hpost
  -- both are the first rows of the last table, and equally many
  refine ⟨pre, post, u, hsplit, hpre, ?_⟩
  rw [List.prefix_iff_eq_take.1 hgrown, List.prefix_iff_eq_take.1 hhigh, hlength]

/-- **Coherence.** When nothing is in progress, a cached list is the list that the table had
in some state of the run, and it is the list of the table now unless an attempt has been
missed. -/
theorem sources_coherent (cfg : TrendsCacheConfig) (collation : Collation) (now : ℕ) (store : Store)
    (table : TrendTable)
    (hstore : ∀ entry, store TRENDS_SOURCES_CACHE_KEY = some entry →
      entry.value = RedisService.serialized (textsJson (table.findUniqueSources collation)))
    (as : List Act) (s : State)
    (hrun : (machine cfg collation).run as (initial now store table) = some s)
    (hquiet : Quiescent s) (text : String)
    (htext : Redis.get s.query.now s.query.store TRENDS_SOURCES_CACHE_KEY = some text) :
    ∃ pre post u, as = pre ++ post ∧ (machine cfg collation).run pre (initial now store table) = some u ∧
      table.rows <+: u.table.rows ∧ u.table.rows <+: s.table.rows ∧
      text = RedisService.serialized (textsJson (u.table.findUniqueSources collation)) ∧
      (u.table.findUniqueSources collation = s.table.findUniqueSources collation ↔
        ¬ Missed s (u.table.findUniqueSources collation)) := by
  have hkeeps : (machine cfg collation).Keeps (Coherent collation table.rows) :=
    fun s a t h hstep => coherent_step h hstep
  have h := StepMachine.Keeps.run _ hkeeps (coherent_initial now hstore) hrun
  obtain ⟨entry, hlookup, rfl⟩ := Option.map_eq_some_iff.1 htext
  obtain ⟨hentry, -⟩ := Option.filter_eq_some_iff.1 hlookup
  obtain ⟨v, ⟨rows, hstart, hrows, rfl⟩, hvalue⟩ := h.carries.store entry hentry
  obtain ⟨pre, post, u, hsplit, hpre, rfl⟩ := exists_state_of_rows hrun hstart hrows
  refine ⟨pre, post, u, hsplit, hpre, hstart, hrows, hvalue, ?_⟩
  constructor
  · rintro heq ⟨j, source, hadded, hlacks, -⟩
    rw [heq] at hlacks
    exact hlacks (h.added j source hadded)
  · intro hmissed
    apply sourcesOf_eq_of_prefix hrows
    intro source hsource
    by_contra hlacks
    -- the source is new, and its attempt and its handler are through
    obtain ⟨j, hj⟩ := h.news source hsource fun hold => hlacks (mem_sourcesOf_mono hstart hold)
    refine hmissed ⟨j, source, hj, hlacks, ?_⟩
    rcases h.accounted j source hj with hrunning | hfailed | ⟨handler, hhandler, -, hdone⟩
    · exact absurd hrunning (hquiet.attempts j)
    · exact Or.inl hfailed
    · exact Or.inr (h.overwritten entry j hentry (hdone (hquiet.handlers j handler hhandler)))

/-! ## Runs -/

/-- The first row of a source. -/
def firstRow : TechTrend where
  source := "dev.to"
  source_id := "1"
  title := ""
  short_summary := []
  long_summary := none
  link_url := ""
  technical_tags := none
  embedding := none
  view_count := none
  like_count := none
  comment_count := none
  created_at := ""
  id := 1
  mined_at := 0

/-- A request up to the answer to its query. -/
def readList (names : List String) : List Act :=
  [Act.query (TrendsQuery.Act.request 0 TrendsQuery.Request.getUniqueSources),
    Act.query (TrendsQuery.Act.lookup (CallId.request 0) true),
    Act.query (TrendsQuery.Act.resumeCall (CallId.request 0)),
    Act.query (TrendsQuery.Act.query (CallId.request 0) (some (TrendsQuery.Answer.sources names)))]

/-- The rest of the request, and its write. -/
def writeList : List Act :=
  [Act.query (TrendsQuery.Act.resumeCall (CallId.request 0)),
    Act.query (TrendsQuery.Act.write 0 true)]

/-- An attempt that saves a row, and its handler. -/
def saves : List Act :=
  [Act.start 0, Act.insert 0 firstRow, Act.complete 0 ⟨"dev.to", 1, []⟩, Act.handle 0, Act.handle 0,
    Act.handle 0, Act.handle 0]

/-- An attempt that saves a row and fails, and its handler. -/
def savesAndFails : List Act :=
  [Act.start 0, Act.insert 0 firstRow, Act.fail 0 true, Act.handle 0]

/-- A run that only has one request and one attempt. -/
theorem quiescent_of_run (cfg : TrendsCacheConfig) (collation : Collation) (now : ℕ) (store : Store)
    (table : TrendTable) (as : List Act) {s : State}
    (hrun : (machine cfg collation).run as (initial now store table) = some s)
    (hcalls : ∀ a ∈ as, ∀ c ∈ a.calls, c = CallId.request 0 ∨ c = CallId.inner (CallId.request 0))
    (hattempts : ∀ a ∈ as, ∀ j, a.attempt? = some j → j = 0)
    (hrequest : ∃ call, s.query.calls (CallId.request 0) = some call ∧ call.done)
    (hinner : s.query.calls (CallId.inner (CallId.request 0)) = none)
    (hlists : s.query.lists = fun _ => none) (hwrites : s.query.writes = [])
    (hattempt : s.attempts 0 ≠ some AttemptState.running)
    (hhandler : s.handlers 0 = some Handler.done) : Quiescent s := by
  refine ⟨?_, ?_, hwrites, ?_, ?_⟩
  · intro c call hc
    by_cases hr : c = CallId.request 0
    · obtain ⟨call', hcall', hdone⟩ := hrequest
      rw [hr, hcall'] at hc
      cases hc
      exact hdone
    · by_cases hi : c = CallId.inner (CallId.request 0)
      · rw [hi, hinner] at hc
        cases hc
      · have hframe := run_calls (c := c) hrun fun a ha hmem => (hcalls a ha c hmem).elim hr hi
        rw [hframe] at hc
        cases hc
  · intro i list hi
    rw [hlists] at hi
    cases hi
  · intro j hj
    by_cases h0 : j = 0
    · exact hattempt (h0 ▸ hj)
    · have hframe := run_attempts (j := j) hrun fun a ha hmem => h0 (hattempts a ha j hmem)
      rw [hframe.1] at hj
      cases hj
  · intro j handler hj
    by_cases h0 : j = 0
    · rw [h0, hhandler] at hj
      cases hj
      rfl
    · have hframe := run_attempts (j := j) hrun fun a ha hmem => h0 (hattempts a ha j hmem)
      rw [hframe.2] at hj
      cases hj

theorem sources_coherent_saves :
    ∃ s, (machine TrendsQuery.testConfig Collation.byCodePoint).run
        (saves ++ readList ["dev.to"] ++ writeList)
        (initial 0 (fun _ => none) TrendTable.empty) = some s ∧
      ∃ pre post u, saves ++ readList ["dev.to"] ++ writeList = pre ++ post ∧
        (machine TrendsQuery.testConfig Collation.byCodePoint).run pre
          (initial 0 (fun _ => none) TrendTable.empty) = some u ∧
        TrendTable.empty.rows <+: u.table.rows ∧ u.table.rows <+: s.table.rows ∧
        RedisService.serialized (textsJson ["dev.to"]) =
          RedisService.serialized (textsJson (u.table.findUniqueSources Collation.byCodePoint)) ∧
        (u.table.findUniqueSources Collation.byCodePoint = s.table.findUniqueSources Collation.byCodePoint ↔
          ¬ Missed s (u.table.findUniqueSources Collation.byCodePoint)) := by
  refine ⟨_, rfl, sources_coherent TrendsQuery.testConfig Collation.byCodePoint 0 (fun _ => none)
    TrendTable.empty (by rintro entry ⟨⟩) (saves ++ readList ["dev.to"] ++ writeList) _ rfl ?_ _ rfl⟩
  refine quiescent_of_run TrendsQuery.testConfig Collation.byCodePoint 0 (fun _ => none)
    TrendTable.empty (saves ++ readList ["dev.to"] ++ writeList) rfl (by decide) ?_
    ⟨_, rfl, _, rfl⟩ rfl rfl rfl (by rintro ⟨⟩) rfl
  simp [saves, readList, writeList, Act.attempt?]

/-- The empty list is cached, and the table has a source. -/
def Stale (s : State) : Prop :=
  Quiescent s ∧
    Redis.get s.query.now s.query.store TRENDS_SOURCES_CACHE_KEY =
      some (RedisService.serialized (textsJson [])) ∧
    s.table.findUniqueSources Collation.byCodePoint = ["dev.to"]

/-- The list stays after a failed attempt, and a list that is read before a row and
written after the deletion stays too. -/
theorem sources_stale :
    (∃ s, (machine TrendsQuery.testConfig Collation.byCodePoint).run
        (readList [] ++ writeList ++ savesAndFails)
        (initial 0 (fun _ => none) TrendTable.empty) = some s ∧ Stale s) ∧
      ∃ s, (machine TrendsQuery.testConfig Collation.byCodePoint).run
        (readList [] ++ saves ++ writeList)
        (initial 0 (fun _ => none) TrendTable.empty) = some s ∧ Stale s := by
  constructor
  · refine ⟨_, rfl, quiescent_of_run TrendsQuery.testConfig Collation.byCodePoint 0 (fun _ => none)
      TrendTable.empty (readList [] ++ writeList ++ savesAndFails) rfl (by decide) ?_
      ⟨_, rfl, _, rfl⟩ rfl rfl rfl (by rintro ⟨⟩) rfl, rfl, rfl⟩
    simp [savesAndFails, readList, writeList, Act.attempt?]
  · refine ⟨_, rfl, quiescent_of_run TrendsQuery.testConfig Collation.byCodePoint 0 (fun _ => none)
      TrendTable.empty (readList [] ++ saves ++ writeList) rfl (by decide) ?_
      ⟨_, rfl, _, rfl⟩ rfl rfl rfl (by rintro ⟨⟩) rfl, rfl, rfl⟩
    simp [saves, readList, writeList, Act.attempt?]

end Sources

end TechTrends
