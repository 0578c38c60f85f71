/-
`TrendsQueryService`, for any number of concurrent requests in one process.

A call finds one thing: the list of sources, an article, the articles related to
one, or a count. It looks into the cache, and on a miss it waits for the load of
its key that is open, or starts one. A load asks the database; the load of related
articles makes a call for the article first. `listTrends` is its own read of the
rows and a call for the count, side by side.

Each step of the machine is a command of the cache, a query of the database, or a
continuation: what runs from one `await` to the next one. Continuations run in any
order. The labels hold what the code does not decide: how the database answers,
which commands fail, how much time passes, and what other parties and expiry do to
the cache. Writes to the cache are under way on their own.
-/
import TechTrends.StepMachine
import TechTrends.SingleFlight
import TechTrends.TrendsCache
import TechTrends.TrendJson

set_option autoImplicit false

namespace TechTrends

namespace TrendsQuery

/-! ## Requests -/

inductive SortOption
  | CREATED_DESC
  | CREATED_ASC
  | MINED_DESC
  | MINED_ASC
  | LIKE_DESC
  | VIEW_DESC
  | COMMENT_DESC
deriving DecidableEq

/-- `ListTrendsQueryDto`. -/
structure ListTrendsQuery where
  page : Option ℕ
  limit : Option ℕ
  source : Option String
  isNew : Option Bool
  sort : Option SortOption
deriving DecidableEq

structure ListTrendsParams where
  page : ℕ
  limit : ℕ
  source : String
  isNew : Bool
  sort : SortOption
deriving DecidableEq

/-- The defaults of `listTrends`. -/
def ListTrendsQuery.params (query : ListTrendsQuery) : ListTrendsParams where
  page := query.page.getD 1
  limit := query.limit.getD 5
  source := query.source.getD "ALL"
  isNew := query.isNew.getD false
  sort := query.sort.getD SortOption.CREATED_DESC

inductive Request
  | listTrends (query : ListTrendsQuery)
  | getUniqueSources
  | getTrendById (id : Binary64)
  | getRelatedTrends (id limit : Binary64)

/-! ## Values and errors -/

/-- What a call or a load can come to: what the database gave, or what was read
from the cache. -/
inductive Value
  | sources (names : List String)
  | trend (row : TechTrend)
  | related (data : List RelatedTrendRow)
  | totalCount (n : ℕ)
  | parsed (v : Json)

/-- The value as `JSON.stringify` sees it. -/
def Value.toJson : Value → Json
  | sources names => textsJson names
  | trend row => row.toJson
  | related data => Json.obj [("data", Json.arr (data.map RelatedTrendRow.toJson))]
  | totalCount n => Json.num (Binary64.ofInt n)
  | parsed v => v

/-- `HttpException`. -/
inductive HttpError
  | notFound (message : String)
  | internal (message : String)
deriving DecidableEq

inductive Failure
  | http (e : HttpError)
  | other
deriving DecidableEq

abbrev Result := Except Failure Value

/-! ## The database -/

inductive Query
  | findUniqueSources
  | findById (id : Binary64)
  | findRelatedByEmbedding (excludeId : Binary64) (vectorString : String) (limit : Binary64)
  | countTrends (source : String) (isNew : Bool)

inductive Answer
  | sources (names : List String)
  | trend (row : Option TechTrend)
  | related (data : List RelatedTrendRow)
  | count (n : ℕ)

/-- A query is answered in its own kind. -/
def Answer.fits : Query → Answer → Bool
  | Query.findUniqueSources, sources _ => true
  | Query.findById _, trend _ => true
  | Query.findRelatedByEmbedding _ _ _, related _ => true
  | Query.countTrends _ _, count _ => true
  | _, _ => false

/-! ## Calls and loads -/

/-- A request's own call, or the call that a load or a `listTrends` makes. -/
inductive CallId
  | request (i : ℕ)
  | inner (c : CallId)
deriving DecidableEq

/-- A call waits for its lookup in the cache, goes on from what it read (`null` also
for a failed lookup), waits for a load, or is through. -/
inductive Phase
  | reading
  | looked (cached : Json)
  | waiting (load : CallId)
  | settled (result : Result)

structure Call where
  target : Target
  phase : Phase

/-- A load is named after the call that started it. It waits for the inner call for
the article, waits for the database, has its answer (`none` for an error), or has
done its cleanup. -/
inductive LoadPhase
  | article
  | querying (query : Query)
  | answered (answer : Option Answer)
  | finished (result : Result)

structure Load where
  target : Target
  phase : LoadPhase

/-- The keys of `detailLoads`, `relatedLoads` and `listCountLoads`. -/
inductive LoadKey
  | detail (id : Binary64)
  | related (key : String)
  | listCount (key : String)
deriving DecidableEq

/-- A `listTrends` request: its own read of the rows, and its response. -/
structure ListCall where
  query : ListTrendsQuery
  rows : Option (Option (List Json))
  response : Option (Except HttpError Json)

/-- A write to the cache that is under way. -/
structure Write where
  target : Target
  value : Json

inductive Event
  | found (call : CallId) (cached : Json)
  | waits (call load : CallId)

structure State where
  now : ℕ
  store : Store
  writes : List Write
  calls : CallId → Option Call
  loads : CallId → Option Load
  /-- `detailLoads`, `relatedLoads` and `listCountLoads`. -/
  entries : LoadKey → Option CallId
  lists : ℕ → Option ListCall
  log : List Event

/-! ## The members of the family -/

/-- The key of the load, for the calls that share loads. -/
def loadKey : Target → Option LoadKey
  | Target.sources => none
  | Target.detail id => some (LoadKey.detail id)
  | Target.related id limit =>
    some (LoadKey.related (numberText id ++ ":" ++ numberText limit))
  | Target.listCount source isNew =>
    some (LoadKey.listCount (source ++ ":" ++ boolText isNew))

/-- The test for a hit: `cached !== null` of `getListCount`, `cached` of the others. -/
def usable : Target → Json → Bool
  -- A count of 0 is a hit, which `if (cached)` would not see.
  | Target.listCount _ _, Json.null => false
  | Target.listCount _ _, _ => true
  | _, cached => cached.truthy

/-- What a load begins with. -/
def firstPhase : Target → LoadPhase
  | Target.sources => LoadPhase.querying Query.findUniqueSources
  | Target.detail id => LoadPhase.querying (Query.findById id)
  | Target.related _ _ => LoadPhase.article
  | Target.listCount source isNew => LoadPhase.querying (Query.countTrends source isNew)

def notFound (id : Binary64) : HttpError :=
  HttpError.notFound ("ID가 " ++ numberText id ++ "인 아티클을 찾을 수 없습니다.")

/-- What the load makes of the answer to its last query. -/
def loaded : Target → Option Answer → Result
  | Target.sources, some (Answer.sources names) => Except.ok (Value.sources names)
  | Target.detail _, some (Answer.trend (some row)) => Except.ok (Value.trend row)
  | Target.detail id, some (Answer.trend none) => Except.error (Failure.http (notFound id))
  | Target.related _ _, some (Answer.related data) => Except.ok (Value.related data)
  | Target.listCount _ _, some (Answer.count n) => Except.ok (Value.totalCount n)
  | _, _ => Except.error Failure.other

/-- The `catch` block of the call. `getListCount` has none. -/
def caught : Target → Failure → Failure
  -- Without the test for an `HttpException` that the next two make.
  | Target.sources, _ =>
    Failure.http (HttpError.internal "출처 목록을 불러오지 못했습니다.")
  | Target.detail _, Failure.other =>
    Failure.http (HttpError.internal "아티클 상세 정보를 불러오는 중 에러가 발생했습니다.")
  | Target.related _ _, Failure.other =>
    Failure.http (HttpError.internal "연관 아티클을 불러오는 중 에러가 발생했습니다.")
  | _, e => e

/-- What a call settles with after a load. -/
def settles (target : Target) : Result → Result
  | Except.ok v => Except.ok v
  | Except.error e => Except.error (caught target e)

/-- The count and the list of sources have no function of their own around the
query: the query's promise is the load, and the call that started it cleans up. -/
def cleansUpInCall : Target → Bool
  | Target.sources => true
  | Target.listCount _ _ => true
  | _ => false

/-- What those that wait for the load are given, once there is something. -/
def Load.result? (load : Load) : Option Result :=
  match load.phase with
  | LoadPhase.finished result => some result
  -- The promise of the query settles before anybody deletes its entry.
  | LoadPhase.answered answer =>
    if cleansUpInCall load.target then some (loaded load.target answer) else none
  | _ => none

/-! ## Changes of the state -/

def State.setCall (s : State) (c : CallId) (target : Target) (phase : Phase) : State :=
  { s with calls := Function.update s.calls c (some ⟨target, phase⟩) }

def State.setLoad (s : State) (l : CallId) (target : Target) (phase : LoadPhase) : State :=
  { s with loads := Function.update s.loads l (some ⟨target, phase⟩) }

def State.note (s : State) (event : Event) : State := { s with log := s.log ++ [event] }

/-- `set` or `delete` of the map that the target's loads are in. -/
def State.setEntry (s : State) (target : Target) (entry : Option CallId) : State :=
  match loadKey target with
  -- The list of sources has no map, so every miss starts a load of its own.
  | none => s
  | some key => { s with entries := Function.update s.entries key entry }

/-- `writeCache`: the write is started, and nobody waits for it. -/
def State.writeCache (s : State) (target : Target) (value : Json) : State :=
  { s with writes := s.writes ++ [⟨target, value⟩] }

/-- The end of a load: a value is written to the cache, and the entry is deleted. -/
def State.finish (s : State) (l : CallId) (target : Target) (result : Result) : State :=
  -- The write comes before the `finally` block, which deletes the entry.
  let s :=
    match result with
    | Except.ok value => s.writeCache target value.toJson
    | Except.error _ => s
  (s.setEntry target none).setLoad l target (LoadPhase.finished result)

/-- The call waits for a load. -/
def State.wait (s : State) (c : CallId) (target : Target) (load : CallId) : State :=
  (s.note (Event.waits c load)).setCall c target (Phase.waiting load)

/-- The call starts a load, enters it, and waits for it. -/
def State.lead (s : State) (c : CallId) (target : Target) : State :=
  ((s.setEntry target (some c)).setLoad c target (firstPhase target)).wait c target c

/-- The same, with the call for the article that a load of related articles makes. -/
def State.start (s : State) (c : CallId) (target : Target) : State :=
  match target with
  -- `loadRelated` calls `getTrendById`, which looks into the cache by itself.
  | Target.related id _ =>
    (s.lead c target).setCall (CallId.inner c) (Target.detail id) Phase.reading
  | _ => s.lead c target

/-! ## Continuations -/

/-- `getUniqueSources`, `getTrendById`, `getRelatedTrends` and `getListCount` after
the lookup in the cache. -/
def afterLookup (s : State) (c : CallId) (target : Target) (cached : Json) : State :=
  if usable target cached then
    (s.note (Event.found c cached)).setCall c target
      (Phase.settled (Except.ok (Value.parsed cached)))
  else
    match (loadKey target).bind s.entries with
    | some load => s.wait c target load
    | none => s.start c target

/-- The same after the load. -/
def afterLoad (s : State) (c : CallId) (target : Target) (load : CallId) (result : Result) :
    State :=
  -- Only the call that started the load writes and deletes.
  let s := if cleansUpInCall target ∧ load = c then s.finish c target result else s
  s.setCall c target (Phase.settled (settles target result))

/-- `article.embedding`. -/
def embedding (article : Value) : Json := article.toJson.field "embedding"

/-- `!article.embedding || article.embedding.length === 0`. -/
def lacksEmbedding (article : Value) : Bool :=
  !(embedding article).truthy || embedding article matches Json.arr []

/-- `[${embedding.join(',')}]`, which only an array has. -/
def vectorString : Json → Option String
  | Json.arr vs => some ("[" ++ ",".intercalate (Json.elementTexts vs) ++ "]")
  | _ => none

/-- `loadRelated` after the call for the article. -/
def afterArticle (s : State) (l : CallId) (id limit : Binary64) : Result → State
  | Except.error e => s.finish l (Target.related id limit) (Except.error e)
  | Except.ok article =>
    if lacksEmbedding article then
      s.finish l (Target.related id limit) (Except.ok (Value.related []))
    else
      match vectorString (embedding article) with
      | none => s.finish l (Target.related id limit) (Except.error Failure.other)
      | some vector =>
        s.setLoad l (Target.related id limit)
          (LoadPhase.querying (Query.findRelatedByEmbedding id vector limit))

/-- `Math.ceil(totalCount / limit)`, which is not finite for no limit. The quotient is the exact
one here; `TrendPaging` shows that rounding it first makes no difference. -/
def totalPages (totalCount : Json) (limit : ℕ) : Json :=
  match totalCount with
  | Json.num x =>
    -- `JSON.stringify` writes `Infinity` and `NaN` as `null`.
    if limit = 0 then Json.null
    else Json.num (Binary64.ofInt ⌈x.value / limit⌉)
  | _ => Json.null

/-- The response of `listTrends`. -/
def listResponse (params : ListTrendsParams) (data : List Json) (totalCount : Json) : Json :=
  Json.obj
    [("data", Json.arr data),
      ("meta", Json.obj
        [("totalCount", totalCount),
          ("totalPages", totalPages totalCount params.limit),
          ("itemsPerPage", Json.num (Binary64.ofInt params.limit)),
          ("currentPage", Json.num (Binary64.ofInt params.page))])]

def listError : HttpError := HttpError.internal "트렌드 목록 조회 중 에러가 발생했습니다."

/-- `listTrends` after `Promise.all`, which is rejected by the first of the two that
fails and fulfilled by both. -/
def afterAll (list : ListCall) (count : Option Result) : Option (Except HttpError Json) :=
  match list.rows, count with
  -- Either failure alone settles the list; the other half is not waited for then.
  | some none, _ => some (Except.error listError)
  | _, some (Except.error _) => some (Except.error listError)
  | some (some data), some (Except.ok totalCount) =>
    some (Except.ok (listResponse list.query.params data totalCount.toJson))
  | _, _ => none

/-! ## Steps -/

inductive Act
  | request (i : ℕ) (r : Request)
  /-- The cache answers a lookup, or fails. -/
  | lookup (c : CallId) (answered : Bool)
  /-- The database answers the query of a load, or fails. -/
  | query (l : CallId) (answer : Option Answer)
  /-- The database answers the rows of a list, or fails. -/
  | rows (i : ℕ) (answer : Option (List Json))
  | resumeCall (c : CallId)
  | resumeLoad (l : CallId)
  | resumeList (i : ℕ)
  /-- The write at an index is carried out, or fails. -/
  | write (n : ℕ) (carriedOut : Bool)
  /-- Expiry, eviction, or a write of another party. -/
  | outside (key : String) (entry : Option Entry)
  | tick (ms : ℕ)

def Phase.result? : Phase → Option Result
  | settled result => some result
  | _ => none

def State.callResult (s : State) (c : CallId) : Option Result :=
  (s.calls c).bind fun call => call.phase.result?

/-- What `getListCount` is called for. -/
def ListTrendsQuery.countTarget (query : ListTrendsQuery) : Target :=
  Target.listCount query.params.source query.params.isNew

/-- A new request. -/
def State.open (s : State) (i : ℕ) : Request → State
  | Request.listTrends query =>
    { s with lists := Function.update s.lists i (some ⟨query, none, none⟩) }.setCall
      (CallId.inner (CallId.request i)) query.countTarget Phase.reading
  | Request.getUniqueSources => s.setCall (CallId.request i) Target.sources Phase.reading
  | Request.getTrendById id => s.setCall (CallId.request i) (Target.detail id) Phase.reading
  | Request.getRelatedTrends id limit =>
    s.setCall (CallId.request i) (Target.related id limit) Phase.reading

def step (cfg : TrendsCacheConfig) (s : State) : Act → Option State
  | Act.request i r =>
    if (s.calls (CallId.request i)).isNone ∧ (s.lists i).isNone then some (s.open i r) else none
  | Act.lookup c answered =>
    match s.calls c with
    | some ⟨target, Phase.reading⟩ =>
      let cached := if answered then TrendsCacheService.get s.now s.store target else Json.null
      some (s.setCall c target (Phase.looked cached))
    | _ => none
  | Act.query l answer =>
    match s.loads l with
    | some ⟨target, LoadPhase.querying query⟩ =>
      -- An error of the database (`none`) fits every query.
      if answer.all (Answer.fits query) then
        some (s.setLoad l target (LoadPhase.answered answer))
      else none
    | _ => none
  | Act.rows i answer =>
    match s.lists i with
    | some ⟨query, none, response⟩ =>
      some { s with lists := Function.update s.lists i (some ⟨query, some answer, response⟩) }
    | _ => none
  | Act.resumeCall c =>
    match s.calls c with
    | some ⟨target, Phase.looked cached⟩ => some (afterLookup s c target cached)
    -- Blocked while the load has no result.
    | some ⟨target, Phase.waiting l⟩ =>
      ((s.loads l).bind Load.result?).map (afterLoad s c target l)
    | _ => none
  | Act.resumeLoad l =>
    match s.loads l with
    | some ⟨Target.detail id, LoadPhase.answered answer⟩ =>
      some (s.finish l (Target.detail id) (loaded (Target.detail id) answer))
    | some ⟨Target.related id limit, LoadPhase.answered answer⟩ =>
      some (s.finish l (Target.related id limit) (loaded (Target.related id limit) answer))
    -- Blocked while the call for the article is not through.
    | some ⟨Target.related id limit, LoadPhase.article⟩ =>
      (s.callResult (CallId.inner l)).map (afterArticle s l id limit)
    | _ => none
  | Act.resumeList i =>
    match s.lists i with
    | some ⟨query, rows, none⟩ =>
      let list : ListCall := ⟨query, rows, none⟩
      (afterAll list (s.callResult (CallId.inner (CallId.request i)))).map fun response =>
        { s with lists := Function.update s.lists i (some { list with response := some response }) }
    | _ => none
  | Act.write n carriedOut =>
    (s.writes[n]?).map fun w =>
      { s with
        writes := s.writes.eraseIdx n
        -- A write that fails is given up: `writeCache` only logs the error.
        store :=
          if carriedOut then TrendsCacheService.set cfg s.now s.store w.target w.value
          else s.store }
  | Act.outside key entry => some { s with store := Function.update s.store key entry }
  | Act.tick ms => some { s with now := s.now + ms }

def machine (cfg : TrendsCacheConfig) : StepMachine State Act := ⟨step cfg⟩

/-- The times to live by default. -/
def testConfig : TrendsCacheConfig := ⟨86400, 900, 300⟩

/-- No request yet. -/
def initial (now : ℕ) (store : Store) : State where
  now := now
  store := store
  writes := []
  calls := fun _ => none
  loads := fun _ => none
  entries := fun _ => none
  lists := fun _ => none
  log := []

/-! ## What the changes leave alone -/

section Fields

variable (s : State) (c l : CallId) (target : Target) (phase : Phase) (loadPhase : LoadPhase)
  (event : Event) (entry : Option CallId) (value : Json) (result : Result)

@[simp] theorem setCall_calls :
    (s.setCall c target phase).calls = Function.update s.calls c (some ⟨target, phase⟩) := rfl
@[simp] theorem setCall_loads : (s.setCall c target phase).loads = s.loads := rfl
@[simp] theorem setCall_entries : (s.setCall c target phase).entries = s.entries := rfl
@[simp] theorem setCall_lists : (s.setCall c target phase).lists = s.lists := rfl
@[simp] theorem setCall_log : (s.setCall c target phase).log = s.log := rfl
@[simp] theorem setCall_store : (s.setCall c target phase).store = s.store := rfl
@[simp] theorem setCall_writes : (s.setCall c target phase).writes = s.writes := rfl

@[simp] theorem setLoad_calls : (s.setLoad l target loadPhase).calls = s.calls := rfl
@[simp] theorem setLoad_loads : (s.setLoad l target loadPhase).loads =
    Function.update s.loads l (some ⟨target, loadPhase⟩) := rfl
@[simp] theorem setLoad_entries : (s.setLoad l target loadPhase).entries = s.entries := rfl
@[simp] theorem setLoad_lists : (s.setLoad l target loadPhase).lists = s.lists := rfl
@[simp] theorem setLoad_log : (s.setLoad l target loadPhase).log = s.log := rfl
@[simp] theorem setLoad_store : (s.setLoad l target loadPhase).store = s.store := rfl
@[simp] theorem setLoad_writes : (s.setLoad l target loadPhase).writes = s.writes := rfl

@[simp] theorem note_calls : (s.note event).calls = s.calls := rfl
@[simp] theorem note_loads : (s.note event).loads = s.loads := rfl
@[simp] theorem note_entries : (s.note event).entries = s.entries := rfl
@[simp] theorem note_lists : (s.note event).lists = s.lists := rfl
@[simp] theorem note_log : (s.note event).log = s.log ++ [event] := rfl
@[simp] theorem note_store : (s.note event).store = s.store := rfl
@[simp] theorem note_writes : (s.note event).writes = s.writes := rfl

@[simp] theorem setEntry_calls : (s.setEntry target entry).calls = s.calls := by
  unfold State.setEntry
  split <;> rfl
@[simp] theorem setEntry_loads : (s.setEntry target entry).loads = s.loads := by
  unfold State.setEntry
  split <;> rfl
@[simp] theorem setEntry_lists : (s.setEntry target entry).lists = s.lists := by
  unfold State.setEntry
  split <;> rfl
@[simp] theorem setEntry_log : (s.setEntry target entry).log = s.log := by
  unfold State.setEntry
  split <;> rfl
@[simp] theorem setEntry_store : (s.setEntry target entry).store = s.store := by
  unfold State.setEntry
  split <;> rfl
@[simp] theorem setEntry_writes : (s.setEntry target entry).writes = s.writes := by
  unfold State.setEntry
  split <;> rfl

theorem setEntry_of_key {key : LoadKey} (h : loadKey target = some key) :
    (s.setEntry target entry).entries = Function.update s.entries key entry := by
  unfold State.setEntry
  rw [h]

theorem setEntry_of_none (h : loadKey target = none) : s.setEntry target entry = s := by
  unfold State.setEntry
  rw [h]

@[simp] theorem finish_calls : (s.finish l target result).calls = s.calls := by
  unfold State.finish
  cases result <;> simp [State.writeCache]
@[simp] theorem finish_loads : (s.finish l target result).loads =
    Function.update s.loads l (some ⟨target, LoadPhase.finished result⟩) := by
  unfold State.finish
  cases result <;> simp [State.writeCache]
@[simp] theorem finish_lists : (s.finish l target result).lists = s.lists := by
  unfold State.finish
  cases result <;> simp [State.writeCache]
@[simp] theorem finish_log : (s.finish l target result).log = s.log := by
  unfold State.finish
  cases result <;> simp [State.writeCache]
@[simp] theorem finish_store : (s.finish l target result).store = s.store := by
  unfold State.finish
  cases result <;> simp [State.writeCache]
@[simp] theorem finish_entries :
    (s.finish l target result).entries = (s.setEntry target none).entries := by
  unfold State.finish State.setEntry
  cases result <;> cases loadKey target <;> rfl

@[simp] theorem lead_calls : (s.lead c target).calls =
    Function.update s.calls c (some ⟨target, Phase.waiting c⟩) := by
  simp [State.lead, State.wait]
@[simp] theorem lead_loads : (s.lead c target).loads =
    Function.update s.loads c (some ⟨target, firstPhase target⟩) := by
  simp [State.lead, State.wait]
@[simp] theorem lead_entries :
    (s.lead c target).entries = (s.setEntry target (some c)).entries := rfl
@[simp] theorem lead_lists : (s.lead c target).lists = s.lists := by
  simp [State.lead, State.wait]
@[simp] theorem lead_log : (s.lead c target).log = s.log ++ [Event.waits c c] := by
  simp [State.lead, State.wait]
@[simp] theorem lead_store : (s.lead c target).store = s.store := by
  simp [State.lead, State.wait]
@[simp] theorem lead_writes : (s.lead c target).writes = s.writes := by
  simp [State.lead, State.wait]

/-- A load that ends with a value starts one write of it to the cache, and a failed one starts
none: `writeCache` stands behind every check of the answer. -/
theorem finish_writes :
    (s.finish l target result).writes = s.writes ∨
      ∃ value, result = Except.ok value ∧
        (s.finish l target result).writes = s.writes ++ [⟨target, value.toJson⟩] := by
  cases result with
  | error e => exact Or.inl (by simp [State.finish])
  | ok value => exact Or.inr ⟨value, rfl, by simp [State.finish, State.writeCache]⟩

end Fields

/-- `loadRelated` after `await this.getTrendById(id)`. It ends there, with the article's
error, with no articles for an article without an embedding, or with a `TypeError` for an
embedding that has no `join`; or it goes on to the query for the nearest articles. -/
theorem afterArticle_cases (s : State) (l : CallId) (id limit : Binary64) (result : Result) :
    (∃ r, afterArticle s l id limit result = s.finish l (Target.related id limit) r) ∨
      ∃ query, afterArticle s l id limit result =
        s.setLoad l (Target.related id limit) (LoadPhase.querying query) := by
  cases result with
  | error e => exact Or.inl ⟨Except.error e, rfl⟩
  | ok article =>
    simp only [afterArticle]
    split
    · exact Or.inl ⟨_, rfl⟩
    · split
      · exact Or.inl ⟨_, rfl⟩
      · exact Or.inr ⟨_, rfl⟩

/-- The continuation of `loadRelated` touches no call, not even the inner one that it has
waited for. -/
theorem afterArticle_calls (s : State) (l : CallId) (id limit : Binary64) (result : Result) :
    (afterArticle s l id limit result).calls = s.calls := by
  rcases afterArticle_cases s l id limit result with ⟨r, heq⟩ | ⟨query, heq⟩
  · rw [heq, finish_calls]
  · rw [heq, setLoad_calls]

/-- A call that goes on after its load settles with what the load came to, seen through the
`catch` of the call, whether it started the load or joined it. -/
theorem afterLoad_calls (s : State) (c : CallId) (target : Target) (l : CallId) (result : Result) :
    (afterLoad s c target l result).calls =
      Function.update s.calls c (some ⟨target, Phase.settled (settles target result)⟩) := by
  unfold afterLoad
  simp only [setCall_calls]
  split
  · rw [finish_calls]
  · rfl

/-! ## What a step can be -/

/-- The steps, case by case. -/
inductive Moves (cfg : TrendsCacheConfig) (s : State) : Act → State → Prop
  | request {i : ℕ} {r : Request} (hcall : s.calls (CallId.request i) = none)
      (hlist : s.lists i = none) : Moves cfg s (Act.request i r) (s.open i r)
  | lookup {c : CallId} {target : Target} {answered : Bool}
      (hc : s.calls c = some ⟨target, Phase.reading⟩) :
      Moves cfg s (Act.lookup c answered) (s.setCall c target (Phase.looked
        (if answered then TrendsCacheService.get s.now s.store target else Json.null)))
  | found {c : CallId} {target : Target} {cached : Json}
      (hc : s.calls c = some ⟨target, Phase.looked cached⟩) (husable : usable target cached = true) :
      Moves cfg s (Act.resumeCall c) ((s.note (Event.found c cached)).setCall c target
        (Phase.settled (Except.ok (Value.parsed cached))))
  | joins {c load : CallId} {target : Target} {cached : Json}
      (hc : s.calls c = some ⟨target, Phase.looked cached⟩) (husable : usable target cached = false)
      (hload : (loadKey target).bind s.entries = some load) :
      Moves cfg s (Act.resumeCall c) (s.wait c target load)
  | starts {c : CallId} {target : Target} {cached : Json}
      (hc : s.calls c = some ⟨target, Phase.looked cached⟩) (husable : usable target cached = false)
      (hload : (loadKey target).bind s.entries = none) :
      Moves cfg s (Act.resumeCall c) (s.start c target)
  | ends {c l : CallId} {target : Target} {load : Load} {result : Result}
      (hc : s.calls c = some ⟨target, Phase.waiting l⟩) (hl : s.loads l = some load)
      (hresult : load.result? = some result) :
      Moves cfg s (Act.resumeCall c) (afterLoad s c target l result)
  | query {l : CallId} {target : Target} {query : Query} {answer : Option Answer}
      (hl : s.loads l = some ⟨target, LoadPhase.querying query⟩)
      (hfits : answer.all (Answer.fits query) = true) :
      Moves cfg s (Act.query l answer) (s.setLoad l target (LoadPhase.answered answer))
  | loaded {l : CallId} {target : Target} {answer : Option Answer}
      (hl : s.loads l = some ⟨target, LoadPhase.answered answer⟩)
      (hown : cleansUpInCall target = false) :
      Moves cfg s (Act.resumeLoad l) (s.finish l target (loaded target answer))
  | article {l : CallId} {id limit : Binary64} {result : Result}
      (hl : s.loads l = some ⟨Target.related id limit, LoadPhase.article⟩)
      (hresult : s.callResult (CallId.inner l) = some result) :
      Moves cfg s (Act.resumeLoad l) (afterArticle s l id limit result)
  | rows {i : ℕ} {query : ListTrendsQuery} {response : Option (Except HttpError Json)}
      {answer : Option (List Json)} (hlist : s.lists i = some ⟨query, none, response⟩) :
      Moves cfg s (Act.rows i answer)
        { s with lists := Function.update s.lists i (some ⟨query, some answer, response⟩) }
  | list {i : ℕ} {query : ListTrendsQuery} {rows : Option (Option (List Json))}
      {response : Except HttpError Json} (hlist : s.lists i = some ⟨query, rows, none⟩)
      (hall : afterAll ⟨query, rows, none⟩ (s.callResult (CallId.inner (CallId.request i))) =
        some response) :
      Moves cfg s (Act.resumeList i)
        { s with lists := Function.update s.lists i (some ⟨query, rows, some response⟩) }
  | write {n : ℕ} {carriedOut : Bool} {w : Write} (hw : s.writes[n]? = some w) :
      Moves cfg s (Act.write n carriedOut)
        { s with
          writes := s.writes.eraseIdx n
          store :=
            if carriedOut then TrendsCacheService.set cfg s.now s.store w.target w.value
            else s.store }
  | outside {key : String} {entry : Option Entry} :
      Moves cfg s (Act.outside key entry) { s with store := Function.update s.store key entry }
  | tick {ms : ℕ} : Moves cfg s (Act.tick ms) { s with now := s.now + ms }

/-- The continuation after the lookup, as one of three moves: the call takes what it found,
waits for the load that is open, or starts one. -/
theorem afterLookup_moves (cfg : TrendsCacheConfig) {s : State} {c : CallId} {target : Target}
    {cached : Json} (hc : s.calls c = some ⟨target, Phase.looked cached⟩) :
    Moves cfg s (Act.resumeCall c) (afterLookup s c target cached) := by
  unfold afterLookup
  by_cases husable : usable target cached = true
  · rw [if_pos husable]
    exact Moves.found hc husable
  · rw [if_neg husable]
    have husable : usable target cached = false := by simpa using husable
    cases hload : (loadKey target).bind s.entries with
    | none => exact Moves.starts hc husable hload
    | some load => exact Moves.joins hc husable hload

/-- Every step is one of the moves. What a step keeps is proved by cases on the moves from
here on, and never by unfolding `step` again. -/
theorem step_moves {cfg : TrendsCacheConfig} {s t : State} {a : Act} (h : step cfg s a = some t) :
    Moves cfg s a t := by
  -- one case for each label; what its guard says goes into the move
  cases a with
  | request i r =>
    simp only [step] at h
    split at h
    · rename_i hfresh
      cases h
      exact Moves.request (by simpa using hfresh.1) (by simpa using hfresh.2)
    · cases h
  | lookup c answered =>
    simp only [step] at h
    split at h
    · cases h
      exact Moves.lookup ‹_›
    · cases h
  | query l answer =>
    simp only [step] at h
    split at h
    · split at h
      · cases h
        exact Moves.query ‹_› ‹_›
      · cases h
    · cases h
  | rows i answer =>
    simp only [step] at h
    split at h
    · cases h
      exact Moves.rows ‹_›
    · cases h
  | resumeCall c =>
    simp only [step] at h
    split at h
    · cases h
      exact afterLookup_moves cfg ‹_›
    · obtain ⟨result, hresult, rfl⟩ := Option.map_eq_some_iff.1 h
      obtain ⟨load, hl, hresult⟩ := Option.bind_eq_some_iff.1 hresult
      exact Moves.ends ‹_› hl hresult
    · cases h
  | resumeLoad l =>
    simp only [step] at h
    split at h
    · cases h
      exact Moves.loaded ‹_› rfl
    · cases h
      exact Moves.loaded ‹_› rfl
    · obtain ⟨result, hresult, rfl⟩ := Option.map_eq_some_iff.1 h
      exact Moves.article ‹_› hresult
    · cases h
  | resumeList i =>
    simp only [step] at h
    split at h
    · obtain ⟨response, hall, rfl⟩ := Option.map_eq_some_iff.1 h
      exact Moves.list ‹_› hall
    · cases h
  | write n carriedOut =>
    simp only [step] at h
    obtain ⟨w, hw, rfl⟩ := Option.map_eq_some_iff.1 h
    exact Moves.write hw
  | outside key entry =>
    cases h
    exact Moves.outside
  | tick ms =>
    cases h
    exact Moves.tick

/-- What a step can do to the store: nothing, a write that was under way, which its command
carries out or not, or what other parties and expiry do. -/
theorem store_moves {cfg : TrendsCacheConfig} {s t : State} {a : Act} (h : Moves cfg s a t) :
    t.store = s.store ∨
      (∃ n carriedOut w, a = Act.write n carriedOut ∧ s.writes[n]? = some w ∧
        t.store = if carriedOut then TrendsCacheService.set cfg s.now s.store w.target w.value
          else s.store) ∨
      ∃ key entry, a = Act.outside key entry ∧ t.store = Function.update s.store key entry := by
  cases h with
  | @request i r hcall hlist => cases r <;> exact Or.inl rfl
  | @starts c target cached hc husable hload => cases target <;> exact Or.inl (by simp [State.start])
  | @ends c l target load result hc hl hresult =>
    refine Or.inl ?_
    unfold afterLoad
    simp only
    split <;> simp
  | loaded hl hown => exact Or.inl (finish_store ..)
  | @article l id limit result hl hresult =>
    refine Or.inl ?_
    rcases afterArticle_cases s l id limit result with ⟨r, heq⟩ | ⟨query, heq⟩
    · rw [heq, finish_store]
    · rw [heq, setLoad_store]
  | write hw => exact Or.inr (Or.inl ⟨_, _, _, rfl, hw, rfl⟩)
  | outside => exact Or.inr (Or.inr ⟨_, _, rfl, rfl⟩)
  | _ => exact Or.inl rfl

/-- The calls that a step may begin or take on. -/
def Act.calls : Act → List CallId
  | request i _ => [CallId.request i, CallId.inner (CallId.request i)]
  | lookup c _ => [c]
  | resumeCall c => [c, CallId.inner c]
  | _ => []

/-- The calls that a label does not name stay as they are. A label names the call that goes
on, the call that a load makes, and the calls of a request. -/
theorem calls_frame {cfg : TrendsCacheConfig} {s t : State} {a : Act} {c : CallId}
    (h : Moves cfg s a t) (hc : c ∉ a.calls) : t.calls c = s.calls c := by
  cases h with
  | @request i r hcall hlist =>
    have hne : c ≠ CallId.request i ∧ c ≠ CallId.inner (CallId.request i) := by
      simpa [Act.calls] using hc
    cases r with
    | listTrends query => exact Function.update_of_ne hne.2 ..
    | _ => exact Function.update_of_ne hne.1 ..
  | lookup hlooked => exact Function.update_of_ne (by simpa [Act.calls] using hc) ..
  | @starts c' target cached hc' husable hload =>
    have hne : c ≠ c' ∧ c ≠ CallId.inner c' := by simpa [Act.calls] using hc
    have hlead : (s.lead c' target).calls c = s.calls c := by
      rw [lead_calls]
      exact Function.update_of_ne hne.1 ..
    cases target with
    | related id limit => exact (Function.update_of_ne hne.2 ..).trans hlead
    | _ => exact hlead
  | @ends c' l target load result hc' hl hresult =>
    have hne : c ≠ c' ∧ c ≠ CallId.inner c' := by simpa [Act.calls] using hc
    rw [afterLoad_calls]
    exact Function.update_of_ne hne.1 ..
  | @found c' target cached hc' husable =>
    have hne : c ≠ c' ∧ c ≠ CallId.inner c' := by simpa [Act.calls] using hc
    exact Function.update_of_ne hne.1 ..
  | @joins c' load target cached hc' husable hload =>
    have hne : c ≠ c' ∧ c ≠ CallId.inner c' := by simpa [Act.calls] using hc
    exact Function.update_of_ne hne.1 ..
  | loaded hl hown => rw [finish_calls]
  | article hl hresult => rw [afterArticle_calls]
  | _ => rfl

end TrendsQuery

end TechTrends
