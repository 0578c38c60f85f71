/-
The cache is transparent.

`direct` is what a call comes to that asks the database itself. The cache, the
writes under way, and the loads hold nothing else: an entry is the text of the
direct answer for its own key, which reads back as the answer. So with a database
that answers from one table, what the lookups hit, which writes and reads fail and
who waits for whose load does not show in a response.
-/
import TechTrends.TrendsQueryLoads

set_option autoImplicit false

namespace TechTrends

namespace TrendsQuery

variable {cfg : TrendsCacheConfig} {s t : State} {a : Act} {c l : CallId} {target : Target}

/-! ## Direct answers -/

/-- A table that does not change, through the queries of the repository. -/
structure Database where
  findUniqueSources : List String
  findById : Binary64 → Option TechTrend
  findRelatedByEmbedding : Binary64 → String → Binary64 → List RelatedTrendRow
  countTrends : String → Bool → ℕ
  listTrends : ListTrendsParams → List Json

variable (db : Database)

def Database.answer : Query → Answer
  | Query.findUniqueSources => Answer.sources db.findUniqueSources
  | Query.findById id => Answer.trend (db.findById id)
  | Query.findRelatedByEmbedding excludeId vector limit =>
    Answer.related (db.findRelatedByEmbedding excludeId vector limit)
  | Query.countTrends source isNew => Answer.count (db.countTrends source isNew)

/-- The articles related to one with this embedding. -/
def directRelated (id limit : Binary64) : Option (List Binary64) → List RelatedTrendRow
  -- `!article.embedding || article.embedding.length === 0`.
  | none => []
  | some [] => []
  | some (x :: xs) =>
    db.findRelatedByEmbedding id ("[" ++ ",".intercalate ((x :: xs).map numberText) ++ "]") limit

/-- What a call comes to without cache and shared loads. -/
def direct : Target → Result
  | Target.sources => Except.ok (Value.sources db.findUniqueSources)
  | Target.detail id =>
    match db.findById id with
    | none => Except.error (Failure.http (notFound id))
    | some row => Except.ok (Value.trend row)
  | Target.related id limit =>
    match db.findById id with
    | none => Except.error (Failure.http (notFound id))
    | some row => Except.ok (Value.related (directRelated db id limit row.embedding))
  | Target.listCount source isNew => Except.ok (Value.totalCount (db.countTrends source isNew))

/-- The response of `listTrends` without cache and shared loads. -/
def directList (query : ListTrendsQuery) : Except HttpError Json :=
  Except.ok (listResponse query.params (db.listTrends query.params)
    (Value.totalCount (db.countTrends query.params.source query.params.isNew)).toJson)

/-- The text of a response, or its error. -/
def body (result : Result) : Except Failure String :=
  result.map fun v => Json.stringify v.toJson

/-- The same as JSON sees it. -/
def Agrees (r r' : Result) : Prop := r.map Value.toJson = r'.map Value.toJson

theorem Agrees.body {r r' : Result} (h : Agrees r r') : TrendsQuery.body r = TrendsQuery.body r' := by
  have hmap := congrArg (Except.map Json.stringify) h
  cases r <;> cases r' <;> exact hmap

/-- `v` is the direct answer. -/
def Holds (target : Target) (v : Json) : Prop :=
  ∃ value, direct db target = Except.ok value ∧ v = value.toJson

variable {db}

/-- A direct answer is an object, an array or a number, with distinct keys, and so its text
reads back as itself. `get` hands out a string that does not parse as it is, and a direct
answer is none. -/
theorem Holds.readable {v : Json} (h : Holds db target v) :
    v.WellFormed ∧ ∀ text, v ≠ Json.str text := by
  obtain ⟨value, hdirect, rfl⟩ := h
  cases target with
  | sources =>
    cases hdirect
    exact ⟨textsJson_wellFormed _, by rintro text ⟨⟩⟩
  | detail id =>
    simp only [direct] at hdirect
    cases hrow : db.findById id with
    | none =>
      rw [hrow] at hdirect
      cases hdirect
    | some row =>
      rw [hrow] at hdirect
      cases hdirect
      exact ⟨TechTrend.toJson_wellFormed _, by rintro text ⟨⟩⟩
  | related id limit =>
    simp only [direct] at hdirect
    cases hrow : db.findById id with
    | none =>
      rw [hrow] at hdirect
      cases hdirect
    | some row =>
      rw [hrow] at hdirect
      cases hdirect
      refine ⟨?_, by rintro text ⟨⟩⟩
      unfold Value.toJson Json.WellFormed
      refine ⟨by simp, ?_⟩
      simp only [Json.WellFormedMembers, and_true]
      exact arr_map_wellFormed _ RelatedTrendRow.toJson_wellFormed _
  | listCount source isNew =>
    cases hdirect
    exact ⟨trivial, by rintro text ⟨⟩⟩

/-- The `catch` blocks let the direct errors through: the only one is the `NotFoundException`,
and they ask for `HttpException` first. -/
theorem settles_direct (target : Target) : settles target (direct db target) = direct db target := by
  cases target with
  | sources => rfl
  | listCount source isNew => rfl
  | detail id =>
    simp only [direct]
    cases db.findById id <;> rfl
  | related id limit =>
    simp only [direct]
    cases db.findById id <;> rfl

/-- The first query of a load, answered from the table, gives the direct answer. -/
theorem loaded_firstPhase {q : Query} (h : firstPhase target = LoadPhase.querying q) :
    loaded target (some (db.answer q)) = direct db target := by
  cases target with
  | sources =>
    cases h
    rfl
  | detail id =>
    cases h
    simp only [direct, Database.answer]
    cases db.findById id <;> rfl
  | related id limit => cases h
  | listCount source isNew =>
    cases h
    rfl

/-! ## The article of a load of related articles -/

/-- `embedding.join(',')` of an embedding that came through JSON is that of the numbers
themselves. -/
theorem elementTexts_nums (xs : List Binary64) :
    Json.elementTexts (xs.map Json.num) = xs.map numberText := by
  induction xs with
  | nil => rfl
  | cons x xs ih =>
    show Json.toText (Json.num x) :: Json.elementTexts (xs.map Json.num) = _
    rw [ih]
    rfl

/-- With the article, the load ends with the direct answer or goes on to the query that gives
it. The article may be the row or what JSON has kept of it, and the vector of the query has
one text for both. -/
theorem afterArticle_spec {id : Binary64} (limit : Binary64) {result : Result}
    (h : Agrees result (direct db (Target.detail id))) :
    afterArticle s l id limit result =
        s.finish l (Target.related id limit) (direct db (Target.related id limit)) ∨
      ∃ q, afterArticle s l id limit result =
          s.setLoad l (Target.related id limit) (LoadPhase.querying q) ∧
        loaded (Target.related id limit) (some (db.answer q)) =
          direct db (Target.related id limit) := by
  simp only [Agrees, direct] at h
  simp only [direct]
  cases hrow : db.findById id with
  | none =>
    rw [hrow] at h
    cases result with
    -- Both are the `NotFoundException`.
    | error e =>
      cases h
      exact Or.inl rfl
    | ok article => cases h
  | some row =>
    rw [hrow] at h
    cases result with
    | error e => cases h
    | ok article =>
      -- The article may be the row, or what was read from the cache.
      have hjson : article.toJson = row.toJson := by
        simpa [Except.map, Value.toJson] using h
      have hembedding : embedding article = vectorJson row.embedding := by
        rw [embedding, hjson, TechTrend.field_embedding]
      simp only [afterArticle, lacksEmbedding, hembedding]
      -- Without a vector there is no query, and the empty list is the answer.
      rcases row.embedding with _ | (_ | ⟨x, xs⟩)
      · exact Or.inl rfl
      · exact Or.inl rfl
      · refine Or.inr ⟨Query.findRelatedByEmbedding id
          ("[" ++ ",".intercalate ((x :: xs).map numberText) ++ "]") limit, ?_, rfl⟩
        rw [← elementTexts_nums]
        rfl

/-! ## What is cached and under way -/

/-- The steps of the database are answers from the table, and other parties only take
entries out of the cache. -/
def FromDatabase (db : Database) (s : State) : Act → Prop
  | Act.query l answer => ∀ load q, s.loads l = some load → load.phase = LoadPhase.querying q →
      answer = some (db.answer q)
  | Act.rows i answer => ∀ list, s.lists i = some list →
      answer = some (db.listTrends list.query.params)
  | Act.outside _ entry => entry = none
  | _ => True

def CallTrue (db : Database) (call : Call) : Prop :=
  match call.phase with
  | Phase.looked cached => cached = Json.null ∨ Holds db call.target cached
  | Phase.settled result => Agrees result (direct db call.target)
  | _ => True

def LoadTrue (db : Database) (load : Load) : Prop :=
  match load.phase with
  | LoadPhase.article => True
  | LoadPhase.querying q => loaded load.target (some (db.answer q)) = direct db load.target
  | LoadPhase.answered answer => loaded load.target answer = direct db load.target
  | LoadPhase.finished result => result = direct db load.target

structure Transparent (db : Database) (s : State) : Prop where
  store : ∀ target entry, s.store target.cacheKey = some entry →
    ∃ v, Holds db target v ∧ entry.value = RedisService.serialized v
  writes : ∀ w ∈ s.writes, Holds db w.target w.value
  calls : ∀ c call, s.calls c = some call → CallTrue db call
  loads : ∀ l load, s.loads l = some load → LoadTrue db load
  rows : ∀ i list answer, s.lists i = some list → list.rows = some answer →
    answer = some (db.listTrends list.query.params)

/-- A lookup that is answered reads nothing or the direct answer. -/
theorem Transparent.get (h : Transparent db s) (target : Target) :
    TrendsCacheService.get s.now s.store target = Json.null ∨
      Holds db target (TrendsCacheService.get s.now s.store target) :=
  RedisService.getCache_of_entries (fun _ hv => hv.readable) (h.store target) s.now

/-- What a load gives those that wait for it is the direct answer. -/
theorem LoadTrue.result {load : Load} {result : Result} (h : LoadTrue db load)
    (hresult : load.result? = some result) : result = direct db load.target := by
  unfold LoadTrue at h
  unfold Load.result? at hresult
  split at hresult
  · rename_i r hphase
    rw [hphase] at h
    cases hresult
    exact h
  · -- An answer that is given before the cleanup.
    rename_i answer hphase
    rw [hphase] at h
    split at hresult
    · cases hresult
      exact h
    · cases hresult
  · cases hresult

/-- What a call has settled with is the direct answer, up to what JSON sees. -/
theorem Transparent.settled (h : Transparent db s) {call : Call} {result : Result}
    (hc : s.calls c = some call) (hphase : call.phase = Phase.settled result) :
    Agrees result (direct db call.target) := by
  have htrue := h.calls c call hc
  unfold CallTrue at htrue
  rw [hphase] at htrue
  exact htrue

/-! ## What each change keeps -/

/-- A call goes on to a phase in which it holds nothing or the direct answer. -/
theorem Transparent.setCall (h : Transparent db s) {phase : Phase} (hcall : CallTrue db ⟨target, phase⟩) :
    Transparent db (s.setCall c target phase) := by
  refine ⟨h.store, h.writes, ?_, h.loads, h.rows⟩
  intro c' call hc'
  rcases update_eq_some hc' with ⟨-, hnew⟩ | ⟨-, hold⟩
  · cases hnew
    exact hcall
  · exact h.calls c' call hold

theorem Transparent.note (h : Transparent db s) (event : Event) : Transparent db (s.note event) :=
  ⟨h.store, h.writes, h.calls, h.loads, h.rows⟩

theorem Transparent.setEntry (h : Transparent db s) (entry : Option CallId) :
    Transparent db (s.setEntry target entry) := by
  unfold State.setEntry
  split
  · exact h
  · exact ⟨h.store, h.writes, h.calls, h.loads, h.rows⟩

/-- A load goes on to a phase in which it leads to the direct answer. -/
theorem Transparent.setLoad (h : Transparent db s) {phase : LoadPhase}
    (hload : LoadTrue db ⟨target, phase⟩) : Transparent db (s.setLoad l target phase) := by
  refine ⟨h.store, h.writes, h.calls, ?_, h.rows⟩
  intro l' load hl'
  rcases update_eq_some hl' with ⟨-, hnew⟩ | ⟨-, hold⟩
  · cases hnew
    exact hload
  · exact h.loads l' load hold

/-- A load that ends with the direct answer writes the direct answer. -/
theorem Transparent.finish (h : Transparent db s) :
    Transparent db (s.finish l target (direct db target)) := by
  unfold State.finish
  refine Transparent.setLoad (Transparent.setEntry ?_ none) rfl
  cases hdirect : direct db target with
  | error e => exact h
  | ok value =>
    refine ⟨h.store, ?_, h.calls, h.loads, h.rows⟩
    intro w hw
    rcases List.mem_append.1 hw with hold | hnew
    · exact h.writes w hold
    · rw [List.mem_singleton.1 hnew]
      exact ⟨value, hdirect, rfl⟩

theorem Transparent.wait (h : Transparent db s) (load : CallId) :
    Transparent db (s.wait c target load) := (h.note _).setCall trivial

/-- A load starts, and its call for the article if it makes one. -/
theorem Transparent.start (h : Transparent db s) : Transparent db (s.start c target) := by
  -- A load begins with the article or with the one query of its target.
  have hfirst : LoadTrue db ⟨target, firstPhase target⟩ := by
    unfold LoadTrue
    cases hphase : firstPhase target with
    | article => trivial
    | querying q => exact loaded_firstPhase hphase
    | answered answer => cases target <;> cases hphase
    | finished result => cases target <;> cases hphase
  have hlead : Transparent db (s.lead c target) := ((h.setEntry _).setLoad hfirst).wait c
  unfold State.start
  split
  · exact hlead.setCall trivial
  · exact hlead

/-- Usable means more than `null`, for the count as for the others. -/
theorem not_usable_null (target : Target) : usable target Json.null = false := by
  cases target <;> rfl

/-- A write is carried out: it is seen under its own key, and no other target has it. -/
theorem Transparent.write (h : Transparent db s) {n : ℕ} {carriedOut : Bool} {w : Write}
    (hw : s.writes[n]? = some w) :
    Transparent db
      { s with
        writes := s.writes.eraseIdx n
        store :=
          if carriedOut then TrendsCacheService.set cfg s.now s.store w.target w.value
          else s.store } := by
  refine ⟨?_, fun w' hw' => h.writes w' (List.mem_of_mem_eraseIdx hw'), h.calls, h.loads, h.rows⟩
  intro target entry hentry
  cases carriedOut with
  | false => exact h.store target entry hentry
  | true =>
    rcases TrendsCacheService.set_entry hentry with ⟨rfl, hvalue⟩ | hold
    · exact ⟨w.value, h.writes w (List.mem_of_getElem? hw), hvalue⟩
    · exact h.store target entry hold

theorem Transparent.evict (h : Transparent db s) (key : String) :
    Transparent db { s with store := Function.update s.store key none } := by
  refine ⟨?_, h.writes, h.calls, h.loads, h.rows⟩
  intro target entry hentry
  rcases update_eq_some hentry with ⟨-, ⟨⟩⟩ | ⟨-, hold⟩
  exact h.store target entry hold

theorem Transparent.setList (h : Transparent db s) {i : ℕ} {list : ListCall}
    (hrows : ∀ answer, list.rows = some answer → answer = some (db.listTrends list.query.params)) :
    Transparent db { s with lists := Function.update s.lists i (some list) } := by
  refine ⟨h.store, h.writes, h.calls, h.loads, ?_⟩
  intro j list' answer hj
  rcases update_eq_some hj with ⟨-, hnew⟩ | ⟨-, hold⟩
  · cases hnew
    exact hrows answer
  · exact h.rows j list' answer hold

/-- A call settles after a load that has the direct answer. -/
theorem Transparent.ends (h : Transparent db s) :
    Transparent db (afterLoad s c target l (direct db target)) := by
  have hcall : CallTrue db ⟨target, Phase.settled (settles target (direct db target))⟩ :=
    congrArg (Except.map Value.toJson) (settles_direct target)
  unfold afterLoad
  simp only
  split
  · exact h.finish.setCall hcall
  · exact h.setCall hcall

/-- The inner call of a list is for its count. -/
theorem Flights.count_target (hf : Flights s) {i : ℕ} {list : ListCall} {call : Call}
    (hi : s.lists i = some list) (hc : s.calls (CallId.inner (CallId.request i)) = some call) :
    call.target = list.query.countTarget := by
  rcases (hf.calls _ call hc).owner _ rfl with ⟨j, list', hj, hlist', htarget⟩ |
      ⟨load, id, limit, hl, -⟩
  · cases hj
    rw [hi] at hlist'
    cases hlist'
    exact htarget
  · rw [hf.loads_none_of_calls (hf.lists i list hi)] at hl
    cases hl

/-- **Step.** With the answers of one table, a step keeps every place that holds a value to
the direct answer of its own target. -/
theorem transparent_step (hf : Flights s) (h : Transparent db s) (hok : FromDatabase db s a)
    (hstep : step cfg s a = some t) : Transparent db t := by
  cases step_moves hstep with
  | @request i r hcall hlist =>
    cases r with
    | listTrends query => exact (h.setList (by rintro answer ⟨⟩)).setCall trivial
    | _ => exact h.setCall trivial
  | @lookup c target answered hc =>
    apply h.setCall
    cases answered with
    | true => exact h.get target
    | false => exact Or.inl rfl
  | @found c target cached hc husable =>
    apply (h.note _).setCall
    rcases h.calls c _ hc with rfl | ⟨value, hdirect, rfl⟩
    · -- A lookup that failed or missed is not usable.
      rw [not_usable_null] at husable
      cases husable
    · show Agrees _ (direct db target)
      rw [hdirect]
      rfl
  | joins hc husable hload => exact h.wait _
  | starts hc husable hload => exact h.start
  | @ends c l target load result hc hl hresult =>
    have hdirect := (h.loads l load hl).result hresult
    rw [hf.waits_target hc hl] at hdirect
    rw [hdirect]
    exact h.ends
  | @query l target q answer hl hfits =>
    apply h.setLoad
    -- The database answers from the table, with no error.
    have hquery : loaded target (some (db.answer q)) = direct db target := h.loads l _ hl
    rw [hok _ q hl rfl]
    exact hquery
  | @loaded l target answer hl hown =>
    have hdirect : loaded target answer = direct db target := h.loads l _ hl
    rw [hdirect]
    exact h.finish
  -- the inner call is settled with the article of the database, or with its absence
  | @article l id limit result hl hresult =>
    obtain ⟨call, hc, hphase⟩ := callResult_eq_some hresult
    have hagrees := h.settled hc hphase
    rw [hf.inner_target hl hc] at hagrees
    rcases afterArticle_spec (s := s) (l := l) limit hagrees with heq | ⟨q, heq, hq⟩
    · rw [heq]
      exact h.finish
    · rw [heq]
      exact h.setLoad hq
  | @rows i query response answer hlist =>
    apply h.setList
    rintro _ ⟨⟩
    have hanswer : answer = some (db.listTrends query.params) := hok _ hlist
    exact hanswer
  | @list i query rows response hlist hall =>
    apply h.setList
    have hbefore := h.rows i ⟨query, rows, none⟩
    exact fun answer hrows => hbefore answer hlist hrows
  | write hw => exact h.write hw
  -- what is outside the service may only take entries away
  | @outside key entry =>
    rw [show entry = none from hok]
    exact h.evict key
  | tick => exact ⟨h.store, h.writes, h.calls, h.loads, h.rows⟩

theorem transparent_initial (db : Database) (now : ℕ) : Transparent db (initial now fun _ => none) := by
  refine ⟨?_, ?_, ?_, ?_, ?_⟩
  · rintro target entry ⟨⟩
  · rintro w ⟨⟩
  · rintro c call ⟨⟩
  · rintro l load ⟨⟩
  · rintro i list answer ⟨⟩

/-! ## Responses -/

/-- A list that has its response has the direct one. Its count is that of the inner call, and
the number of pages is made of it as without a cache. -/
theorem Transparent.list (h : Transparent db s) (hf : Flights s) (hresponds : Responds s) {i : ℕ}
    {list : ListCall} {response : Except HttpError Json} (hi : s.lists i = some list)
    (hresponse : list.response = some response) : response = directList db list.query := by
  have hall := hresponds i list response hi hresponse
  have hcount : ∀ result, s.callResult (CallId.inner (CallId.request i)) = some result →
      Agrees result (direct db list.query.countTarget) := by
    intro result hresult
    obtain ⟨call, hc, hphase⟩ := callResult_eq_some hresult
    rw [← hf.count_target hi hc]
    exact h.settled hc hphase
  have hrows := h.rows i list
  obtain ⟨query, rows, _⟩ := list
  cases hresult : s.callResult (CallId.inner (CallId.request i)) with
  -- Only failed rows settle a list without its count, and they do not fail.
  | none =>
    rw [hresult] at hall
    rcases rows with _ | (_ | data) <;> cases hall
    cases hrows none hi rfl
  | some result =>
    rw [hresult] at hall
    have hagrees := hcount result hresult
    cases result with
    -- A count has a direct answer, so its call does not fail.
    | error e => cases hagrees
    | ok totalCount =>
      rcases rows with _ | (_ | data) <;> cases hall
      · cases hrows none hi rfl
      · have hdata := hrows (some data) hi rfl
        simp only [Option.some.injEq] at hdata
        have hjson : totalCount.toJson = Json.num (Binary64.ofInt
            (db.countTrends query.params.source query.params.isNew)) := by
          simpa [Agrees, Except.map, direct, ListTrendsQuery.countTarget, Value.toJson] using hagrees
        rw [hjson, hdata]
        rfl

/-- **Transparent cache.** With a database that answers from one table, each request
gets the text, or the error, that it gets without cache and shared loads, whatever
the lookups hit, whichever commands of the cache fail, and whatever is evicted. -/
theorem trendsQuery_transparent (cfg : TrendsCacheConfig) (db : Database) (now : ℕ) (as : List Act)
    (s : State) (hrun : (machine cfg).run as (initial now fun _ => none) = some s)
    (hdb : (machine cfg).Meets (FromDatabase db) as (initial now fun _ => none)) :
    (∀ i call result, s.calls (CallId.request i) = some call →
      call.phase = Phase.settled result → body result = body (direct db call.target)) ∧
    ∀ i list response, s.lists i = some list → list.response = some response →
      response.map Json.stringify = (directList db list.query).map Json.stringify := by
  have hkeeps : (machine cfg).KeepsIf (FromDatabase db)
      fun s => Flights s ∧ Responds s ∧ Transparent db s := by
    rintro s a t ⟨hf, hresponds, h⟩ hok hstep
    have hkept := flights_step hf hstep
    exact ⟨hkept.flights, responds_step hresponds (step_moves hstep) hkept.grows,
      transparent_step hf h hok hstep⟩
  have hinit : Responds (initial now fun _ => none) := by
    rintro i list response ⟨⟩
  obtain ⟨hf, hresponds, h⟩ := StepMachine.KeepsIf.run _ hkeeps
    ⟨flights_initial now _, hinit, transparent_initial db now⟩ hdb hrun
  constructor
  · intro i call result hc hphase
    exact (h.settled hc hphase).body
  · intro i list response hi hresponse
    rw [h.list hf hresponds hi hresponse]

/-- Two lists of an empty table, with the second count from the cache. -/
def emptyTwice : List Act :=
  [Act.request 0 (Request.listTrends ⟨none, none, none, none, none⟩),
    Act.lookup (CallId.inner (CallId.request 0)) true,
    Act.resumeCall (CallId.inner (CallId.request 0)),
    Act.query (CallId.inner (CallId.request 0)) (some (Answer.count 0)),
    Act.resumeCall (CallId.inner (CallId.request 0)), Act.write 0 true, Act.rows 0 (some []),
    Act.resumeList 0, Act.request 1 (Request.listTrends ⟨none, none, none, none, none⟩),
    Act.lookup (CallId.inner (CallId.request 1)) true,
    Act.resumeCall (CallId.inner (CallId.request 1)), Act.rows 1 (some []), Act.resumeList 1]

/-- A table without rows. -/
def Database.empty : Database :=
  ⟨[], fun _ => none, fun _ _ _ => [], fun _ _ => 0, fun _ => []⟩

/-- The answers of the run below are those of a table without articles. -/
theorem emptyTwice_fromDatabase :
    (machine testConfig).Meets (FromDatabase Database.empty) emptyTwice
      (initial 0 fun _ => none) := by
  have hquery : ∀ {s : State} {l : CallId} {target : Target} {q : Query},
      s.loads l = some ⟨target, LoadPhase.querying q⟩ →
        FromDatabase Database.empty s (Act.query l (some (Database.empty.answer q))) := by
    intro s l target q hl load q' hl' hphase
    rw [hl] at hl'
    cases hl'
    cases hphase
    rfl
  unfold emptyTwice
  iterate 3 refine StepMachine.Meets.cons _ rfl trivial ?_
  refine StepMachine.Meets.cons _ rfl (hquery (q := Query.countTrends "ALL" false) rfl) ?_
  -- nothing more is asked for but the rows, of which there are none
  exact StepMachine.Meets.of_labels _ (by simp [FromDatabase, Database.empty])

/-- A list is asked for twice, and the second time its count, which is 0, is read from the
cache. -/
theorem trendsQuery_transparent_emptyTwice :
    ∃ s, (machine testConfig).run emptyTwice (initial 0 fun _ => none) = some s ∧
      ∀ i list response, s.lists i = some list → list.response = some response →
        response.map Json.stringify =
          (directList Database.empty list.query).map Json.stringify := by
  obtain ⟨s, hs⟩ := Option.isSome_iff_exists.1 (show
    ((machine testConfig).run emptyTwice (initial 0 fun _ => none)).isSome = true by decide +kernel)
  exact ⟨s, hs, (trendsQuery_transparent testConfig Database.empty 0 emptyTwice s hs emptyTwice_fromDatabase).2⟩

end TrendsQuery

end TechTrends
