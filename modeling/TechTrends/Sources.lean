/-
The list of sources, its cache, and everything that changes one of them.

Requests read the list through the cache and write it there. Attempts of the
pipeline insert rows, which may be the first of their source, and then complete or
fail. The events of the queue run a handler each: the one of a completed job deletes
the key in the cache, after its notifications; the one of a failed job only notifies.

The requests are the machine of `TrendsQuery`, whose queries for the list are
answered from the table. The steps of the attempts and the handlers go on between
its steps in any order. No other party writes the key, and no deletion fails.
-/
import TechTrends.PipelineQuota
import TechTrends.TrendsQueryLoads
import Mathlib.Data.List.Dedup
import Mathlib.Data.List.Sort
import Mathlib.Data.String.Basic

set_option autoImplicit false

namespace TechTrends

/-! ## The list -/

/-- How the database orders texts. -/
structure Collation where
  le : String → String → Bool
  total : ∀ x y, le x y ∨ le y x
  trans : ∀ x y z, le x y → le y z → le x z
  antisymm : ∀ x y, le x y → le y x → x = y

/-- The order by code points. -/
def Collation.byCodePoint : Collation where
  le x y := decide (x ≤ y)
  total x y := by simpa using le_total x y
  trans x y z hxy hyz := by
    rw [decide_eq_true_eq] at hxy hyz ⊢
    exact hxy.trans hyz
  antisymm x y hxy hyx := by
    rw [decide_eq_true_eq] at hxy hyx
    exact le_antisymm hxy hyx

namespace Collation

variable (collation : Collation)

def LE (x y : String) : Prop := collation.le x y = true

instance : DecidableRel collation.LE := fun x y => inferInstanceAs (Decidable (collation.le x y = true))

instance : Std.Total collation.LE := ⟨collation.total⟩

instance : IsTrans String collation.LE := ⟨collation.trans⟩

instance : Std.Antisymm collation.LE := ⟨collation.antisymm⟩

/-- The distinct texts of a column in order, without the empty one. -/
def uniqueTexts (column : List String) : List String :=
  (column.dedup.insertionSort collation.LE).filter fun source => source ≠ ""

theorem mem_uniqueTexts {column : List String} {source : String} :
    source ∈ collation.uniqueTexts column ↔ source ∈ column ∧ source ≠ "" := by
  simp [uniqueTexts, List.mem_filter, List.mem_insertionSort, List.mem_dedup]

theorem nodup_uniqueTexts (column : List String) : (collation.uniqueTexts column).Nodup :=
  ((List.perm_insertionSort _ _).nodup_iff.2 (List.nodup_dedup column)).filter _

theorem pairwise_uniqueTexts (column : List String) :
    (collation.uniqueTexts column).Pairwise collation.LE :=
  (List.pairwise_insertionSort _ _).filter _

/-- The list depends only on which texts there are, and not on how often or in which order the
rows have them. -/
theorem uniqueTexts_congr {column column' : List String}
    (h : ∀ source ≠ "", source ∈ column ↔ source ∈ column') :
    collation.uniqueTexts column = collation.uniqueTexts column' := by
  have hperm : (collation.uniqueTexts column).Perm (collation.uniqueTexts column') := by
    rw [List.perm_ext_iff_of_nodup (collation.nodup_uniqueTexts _) (collation.nodup_uniqueTexts _)]
    intro source
    rw [mem_uniqueTexts, mem_uniqueTexts]
    exact and_congr_left fun hne => h source hne
  exact hperm.eq_of_pairwise' (collation.pairwise_uniqueTexts _) (collation.pairwise_uniqueTexts _)

end Collation

/-- `findUniqueSources` on these rows. -/
def sourcesOf (collation : Collation) (rows : List TechTrend) : List String :=
  collation.uniqueTexts (rows.map fun row => row.source)

/-- `findUniqueSources`. -/
def TrendTable.findUniqueSources (collation : Collation) (table : TrendTable) : List String :=
  sourcesOf collation table.rows

namespace Sources

/-! ## States -/

inductive AttemptState
  | running
  | completed
  | failed
deriving DecidableEq

/-- What a handler waits for: `onCompleted` the query for today's rows, the two
notifications and the deletion, `onFailed` its notification. -/
inductive Handler
  | findSavedSince (sourceName : String)
  | notifyAdmin (savedCount : ℕ)
  | notifyUser
  | invalidateSources
  | notifyFailure
  | done
deriving DecidableEq

inductive Event
  | added (attempt : ℕ) (source : String)
  | failed (attempt : ℕ)
  | cleared (attempt : ℕ)
  | wrote
deriving DecidableEq

/-- An attempt and the event of its end have one name. -/
structure State where
  query : TrendsQuery.State
  table : TrendTable
  attempts : ℕ → Option AttemptState
  handlers : ℕ → Option Handler
  history : List Event

/-! ## Handlers -/

/-- `onCompleted` up to its first `await`. -/
def onCompleted (result : ScrapeJobResult) : Handler :=
  if result.sourceName = "" then Handler.notifyAdmin 0
  else Handler.findSavedSince result.sourceName

/-- `onFailed` up to its first `await`. -/
def onFailed : Handler := Handler.notifyFailure

/-- What a handler does from one `await` to the next one. -/
def Handler.next (now : ℤ) (table : TrendTable) : Handler → Option Handler
  | findSavedSince sourceName =>
    some (notifyAdmin (table.countSavedSince sourceName (getTodayStartUtc now)))
  | notifyAdmin savedCount => some (if 0 < savedCount then notifyUser else invalidateSources)
  | notifyUser => some invalidateSources
  | invalidateSources => some done
  | notifyFailure => some done
  | done => none

/-! ## Steps -/

inductive Act
  | query (a : TrendsQuery.Act)
  | start (j : ℕ)
  | insert (j : ℕ) (row : TechTrend)
  | complete (j : ℕ) (result : ScrapeJobResult)
  /-- The failure is reported when the job has no attempts left. -/
  | fail (j : ℕ) (reported : Bool)
  | handle (j : ℕ)

variable (cfg : TrendsCacheConfig) (collation : Collation)

/-- A query for the list is answered from the table, and other parties only take the
key out of the cache. -/
def allowed (table : TrendTable) : TrendsQuery.Act → Bool
  | TrendsQuery.Act.query _ (some (TrendsQuery.Answer.sources names)) =>
    names = table.findUniqueSources collation
  | TrendsQuery.Act.outside key entry => key ≠ TRENDS_SOURCES_CACHE_KEY ∨ entry = none
  | _ => true

/-- A write of the list that is carried out. -/
def noted (q : TrendsQuery.State) : TrendsQuery.Act → List Event
  | TrendsQuery.Act.write n true =>
    if (q.writes[n]?).any fun w => w.target = Target.sources then [Event.wrote] else []
  | _ => []

/-- The row is the first of its source. -/
def addition (j : ℕ) (table : TrendTable) (row : TechTrend) : List Event :=
  if row.source ≠ "" ∧ row.source ∉ table.findUniqueSources collation then
    [Event.added j row.source]
  else []

def step (s : State) : Act → Option State
  | Act.query a =>
    if allowed collation s.table a then
      (TrendsQuery.step cfg s.query a).map fun q =>
        { s with query := q, history := s.history ++ noted s.query a }
    else none
  | Act.start j =>
    if s.attempts j = none ∧ s.handlers j = none then
      some { s with attempts := Function.update s.attempts j (some AttemptState.running) }
    else none
  | Act.insert j row =>
    if s.attempts j = some AttemptState.running then
      (s.table.insert row).map fun table =>
        { s with table := table, history := s.history ++ addition collation j s.table row }
    else none
  | Act.complete j result =>
    if s.attempts j = some AttemptState.running then
      some
        { s with
          attempts := Function.update s.attempts j (some AttemptState.completed)
          handlers := Function.update s.handlers j (some (onCompleted result)) }
    else none
  | Act.fail j reported =>
    if s.attempts j = some AttemptState.running then
      some
        { s with
          attempts := Function.update s.attempts j (some AttemptState.failed)
          handlers :=
            if reported then Function.update s.handlers j (some onFailed) else s.handlers
          history := s.history ++ [Event.failed j] }
    else none
  | Act.handle j =>
    (s.handlers j).bind fun handler =>
      (handler.next s.query.now s.table).map fun handler' =>
        let s := { s with handlers := Function.update s.handlers j (some handler') }
        if handler = Handler.invalidateSources then
          { s with
            query :=
              { s.query with store := TrendsCacheService.invalidateSources s.query.store }
            history := s.history ++ [Event.cleared j] }
        else s

def machine : StepMachine State Act := ⟨step cfg collation⟩

/-- No request, attempt or event yet. -/
def initial (now : ℕ) (store : Store) (table : TrendTable) : State where
  query := TrendsQuery.initial now store
  table := table
  attempts := fun _ => none
  handlers := fun _ => none
  history := []

/-- No request, attempt, handler or write to the cache is in progress. -/
structure Quiescent (s : State) : Prop where
  calls : ∀ c call, s.query.calls c = some call → call.done
  lists : ∀ i list, s.query.lists i = some list → list.response ≠ none
  writes : s.query.writes = []
  attempts : ∀ j, s.attempts j ≠ some AttemptState.running
  handlers : ∀ j handler, s.handlers j = some handler → handler = Handler.done

/-! ## What a step can be -/

/-- The steps, case by case. -/
inductive Moves (s : State) : Act → State → Prop
  | query {a : TrendsQuery.Act} {q : TrendsQuery.State} (hallowed : allowed collation s.table a = true)
      (hq : TrendsQuery.step cfg s.query a = some q) :
      Moves s (Act.query a) { s with query := q, history := s.history ++ noted s.query a }
  | start {j : ℕ} (hattempt : s.attempts j = none) (hhandler : s.handlers j = none) :
      Moves s (Act.start j)
        { s with attempts := Function.update s.attempts j (some AttemptState.running) }
  | insert {j : ℕ} {row : TechTrend} {table : TrendTable}
      (hrunning : s.attempts j = some AttemptState.running)
      (hinsert : s.table.insert row = some table) :
      Moves s (Act.insert j row)
        { s with table := table, history := s.history ++ addition collation j s.table row }
  | complete {j : ℕ} {result : ScrapeJobResult}
      (hrunning : s.attempts j = some AttemptState.running) :
      Moves s (Act.complete j result)
        { s with
          attempts := Function.update s.attempts j (some AttemptState.completed)
          handlers := Function.update s.handlers j (some (onCompleted result)) }
  | fail {j : ℕ} {reported : Bool} (hrunning : s.attempts j = some AttemptState.running) :
      Moves s (Act.fail j reported)
        { s with
          attempts := Function.update s.attempts j (some AttemptState.failed)
          handlers :=
            if reported then Function.update s.handlers j (some onFailed) else s.handlers
          history := s.history ++ [Event.failed j] }
  | clear {j : ℕ} (hj : s.handlers j = some Handler.invalidateSources) :
      Moves s (Act.handle j)
        { s with
          handlers := Function.update s.handlers j (some Handler.done)
          query := { s.query with store := TrendsCacheService.invalidateSources s.query.store }
          history := s.history ++ [Event.cleared j] }
  | handle {j : ℕ} {handler handler' : Handler} (hj : s.handlers j = some handler)
      (hnext : handler.next s.query.now s.table = some handler')
      (hclear : handler ≠ Handler.invalidateSources) :
      Moves s (Act.handle j)
        { s with handlers := Function.update s.handlers j (some handler') }

variable {cfg collation} {s t : State} {a : Act}

/-- What a step does, with its guard. -/
theorem step_moves (h : step cfg collation s a = some t) : Moves cfg collation s a t := by
  cases a with
  | query a =>
    simp only [step] at h
    split at h
    · obtain ⟨q, hq, rfl⟩ := Option.map_eq_some_iff.1 h
      exact Moves.query ‹_› hq
    · cases h
  | start j =>
    simp only [step] at h
    split at h
    · rename_i hfresh
      cases h
      exact Moves.start hfresh.1 hfresh.2
    · cases h
  | insert j row =>
    simp only [step] at h
    split at h
    · obtain ⟨table, hinsert, rfl⟩ := Option.map_eq_some_iff.1 h
      exact Moves.insert ‹_› hinsert
    · cases h
  | complete j result =>
    simp only [step] at h
    split at h
    · cases h
      exact Moves.complete ‹_›
    · cases h
  | fail j reported =>
    simp only [step] at h
    split at h
    · cases h
      exact Moves.fail ‹_›
    · cases h
  | handle j =>
    simp only [step] at h
    obtain ⟨handler, hj, h⟩ := Option.bind_eq_some_iff.1 h
    obtain ⟨handler', hnext, rfl⟩ := Option.map_eq_some_iff.1 h
    split
    · rename_i hclear
      subst hclear
      cases hnext
      exact Moves.clear hj
    · exact Moves.handle hj hnext ‹_›

/-! ## What a step leaves alone -/

/-- The calls that a step may begin or take on. -/
def Act.calls : Act → List TrendsQuery.CallId
  | query a => a.calls
  | _ => []

/-- The attempt of a step. -/
def Act.attempt? : Act → Option ℕ
  | query _ => none
  | start j => some j
  | insert j _ => some j
  | complete j _ => some j
  | fail j _ => some j
  | handle j => some j

theorem calls_frame {c : TrendsQuery.CallId} (h : step cfg collation s a = some t)
    (hc : c ∉ a.calls) : t.query.calls c = s.query.calls c := by
  cases step_moves h with
  | query hallowed hq => exact TrendsQuery.calls_frame (TrendsQuery.step_moves hq) hc
  | _ => rfl

/-- An attempt and its handler go on by their own steps only. -/
theorem attempts_frame {j : ℕ} (h : step cfg collation s a = some t) (hj : a.attempt? ≠ some j) :
    t.attempts j = s.attempts j ∧ t.handlers j = s.handlers j := by
  have hne : ∀ i, a.attempt? = some i → j ≠ i := fun i hi hij => hj (hij ▸ hi)
  cases step_moves h with
  | query hallowed hq => exact ⟨rfl, rfl⟩
  | start hattempt hhandler => exact ⟨Function.update_of_ne (hne _ rfl) .., rfl⟩
  | insert hrunning hinsert => exact ⟨rfl, rfl⟩
  | complete hrunning =>
    exact ⟨Function.update_of_ne (hne _ rfl) .., Function.update_of_ne (hne _ rfl) ..⟩
  | @fail i reported hrunning =>
    refine ⟨Function.update_of_ne (hne _ rfl) .., ?_⟩
    cases reported with
    | true => exact Function.update_of_ne (hne _ rfl) ..
    | false => rfl
  | clear hj => exact ⟨rfl, Function.update_of_ne (hne _ rfl) ..⟩
  | handle hj hnext hclear => exact ⟨rfl, Function.update_of_ne (hne _ rfl) ..⟩

/-- A call that no step of a run touches is not there after it. -/
theorem run_calls {as : List Act} {c : TrendsQuery.CallId}
    (hrun : (machine cfg collation).run as s = some t) (hc : ∀ a ∈ as, c ∉ a.calls) :
    t.query.calls c = s.query.calls c := by
  have hkeeps : (machine cfg collation).KeepsIf (fun _ a => c ∉ a.calls)
      fun t => t.query.calls c = s.query.calls c :=
    fun t a u ht ha hstep => (calls_frame hstep ha).trans ht
  exact StepMachine.KeepsIf.run _ hkeeps rfl
    (StepMachine.Meets.of_labels _ fun a ha _ => hc a ha) hrun

/-- An attempt that no step of a run is of stays as it is, with its handler. -/
theorem run_attempts {as : List Act} {j : ℕ}
    (hrun : (machine cfg collation).run as s = some t) (hj : ∀ a ∈ as, a.attempt? ≠ some j) :
    t.attempts j = s.attempts j ∧ t.handlers j = s.handlers j := by
  have hkeeps : (machine cfg collation).KeepsIf (fun _ a => a.attempt? ≠ some j)
      fun t => t.attempts j = s.attempts j ∧ t.handlers j = s.handlers j := by
    intro t a u ht ha hstep
    have hframe := attempts_frame hstep ha
    exact ⟨hframe.1.trans ht.1, hframe.2.trans ht.2⟩
  exact StepMachine.KeepsIf.run _ hkeeps ⟨rfl, rfl⟩
    (StepMachine.Meets.of_labels _ fun a ha _ => hj a ha) hrun

/-! ## The attempts of the pipeline -/

/-- The step that ends an attempt with this outcome. -/
def ending (j : ℕ) (reported : Bool) : Outcome Error ScrapeJobResult → Act
  | Outcome.ret result => Act.complete j result
  | _ => Act.fail j reported

/-- The first of the rows that a table has more is admitted by the smaller table. -/
theorem admits_of_append {table table' : TrendTable} {row : TechTrend} {rows : List TechTrend}
    (h : table'.rows = table.rows ++ row :: rows) : table.admits row := by
  have hkey : ∀ {κ : Type} (key : TechTrend → κ), (table'.rows.map key).Nodup →
      key row ∉ table.rows.map key := by
    intro κ key hnodup hmem
    rw [h, List.map_append, List.map_cons, List.nodup_append] at hnodup
    exact hnodup.2.2 _ hmem _ List.mem_cons_self rfl
  exact ⟨table'.ids_lt row (by rw [h]; simp), hkey _ table'.ids_nodup, hkey _ table'.sourceKeys_nodup, hkey _ table'.urls_nodup⟩

theorem table_ext {table table' : TrendTable} (h : table.rows = table'.rows) : table = table' := by
  cases table
  cases table'
  cases h
  rfl

variable (cfg collation) in
/-- The rows that a table has more can be inserted one after the other, as the steps of one
attempt. -/
theorem run_inserts {j : ℕ} {table : TrendTable} (rows : List TechTrend) :
    ∀ {s : State}, s.attempts j = some AttemptState.running →
      table.rows = s.table.rows ++ rows →
      ∃ t, (machine cfg collation).run (rows.map (Act.insert j)) s = some t ∧ t.table = table ∧
        t.query = s.query ∧ t.attempts j = some AttemptState.running := by
  induction rows with
  | nil =>
    intro s hrunning hrows
    rw [List.append_nil] at hrows
    exact ⟨s, rfl, table_ext hrows.symm, rfl, hrunning⟩
  | cons row rows ih =>
    intro s hrunning hrows
    have hinsert : ∃ table', s.table.insert row = some table' := by
      unfold TrendTable.insert
      rw [dif_pos (admits_of_append hrows)]
      exact ⟨_, rfl⟩
    obtain ⟨table', hinsert⟩ := hinsert
    have hstep : step cfg collation s (Act.insert j row) =
        some { s with table := table', history := s.history ++ addition collation j s.table row } := by
      simp only [step, if_pos hrunning, hinsert, Option.map_some]
    have hrows' : table.rows = table'.rows ++ rows := by
      rw [TrendTable.insert_rows hinsert, hrows, List.append_assoc, List.singleton_append]
    obtain ⟨t, hrun, htable, hquery, hj⟩ := ih
      (s := { s with table := table', history := s.history ++ addition collation j s.table row })
      hrunning hrows'
    exact ⟨t, (StepMachine.run_cons_eq_some _).2 ⟨_, hstep, hrun⟩, htable, hquery, hj⟩

/-- What the pipeline does in an attempt, however it ends, is a run of steps of one attempt
here. This is what connects the attempts of this machine to the program of
`TrendsPipelineService`. -/
theorem run_executeScraperByName {ε : Type} (ext : Externals ε) (config : PipelineConfig)
    (sourceName : String) (w : World ε) {j : ℕ} (reported : Bool) (htable : w.table = s.table)
    (hattempt : s.attempts j = none) (hhandler : s.handlers j = none) :
    ∃ (rows : List TechTrend) (t : State), (machine cfg collation).run
        (Act.start j :: rows.map (Act.insert j) ++
          [ending j reported (Pipeline.executeScraperByName ext config sourceName w).1]) s = some t ∧
      t.table = (Pipeline.executeScraperByName ext config sourceName w).2.table ∧
      t.query = s.query := by
  rcases hend : Pipeline.executeScraperByName ext config sourceName w with ⟨outcome, w'⟩
  have hgrew : Pipeline.Grew w w' := by
    have hfilled := Pipeline.executeScraperByName_filled ext config sourceName w
    rw [hend] at hfilled
    exact hfilled.grew
  obtain ⟨rows, hrows, -⟩ := hgrew.rows
  rw [htable] at hrows
  have hstart : step cfg collation s (Act.start j) =
      some { s with attempts := Function.update s.attempts j (some AttemptState.running) } := by
    simp only [step, hattempt, hhandler, and_self, if_true]
  obtain ⟨t, hrun, htable', hquery, hrunning⟩ := run_inserts cfg collation
    (s := { s with attempts := Function.update s.attempts j (some AttemptState.running) })
    (j := j) rows (Function.update_self ..) hrows
  have hending : ∃ u, step cfg collation t (ending j reported outcome) = some u ∧
      u.table = t.table ∧ u.query = t.query := by
    cases outcome with
    | ret result => exact ⟨_, if_pos hrunning, rfl, rfl⟩
    | throw e => exact ⟨_, if_pos hrunning, rfl, rfl⟩
    | killed => exact ⟨_, if_pos hrunning, rfl, rfl⟩
  obtain ⟨u, hu, hutable, huquery⟩ := hending
  refine ⟨rows, u, ?_, hutable.trans htable', huquery.trans hquery⟩
  refine (StepMachine.run_append_eq_some _).2 ⟨t, ?_, (StepMachine.run_cons_eq_some _).2 ⟨u, hu, rfl⟩⟩
  exact (StepMachine.run_cons_eq_some _).2 ⟨_, hstart, hrun⟩

end Sources

end TechTrends
