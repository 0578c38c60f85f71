/-
The scrape jobs as a system: whoever dispatches them, the queue, the worker, and what is
announced of the jobs that complete.

`dispatchAllScrapersToQueue` runs for the schedule and for the endpoint, any number of
times at once; it looks a job up and adds it in two steps. The worker takes one job at a
time and runs an attempt of the pipeline. What the attempt comes to is fixed by the
answers that it gets, so it is computed when the job is taken, and its rows appear one by
one while everything else goes on. A job that completes leaves an event, whose handler
asks for the rows of the day and posts them. The process may stop, in an attempt or
between attempts, and then the dispatches and handlers in it are gone.

The queue is a parameter. `dispatchAllScrapersToQueue` hands it the options of a job, and
the retries, pauses and removals that come of them are its own moves, made at any time and
in any order. What is proved with no word about the queue holds whatever it does.
-/
import TechTrends.JobQueue
import TechTrends.Notification
import TechTrends.PipelineScope
import TechTrends.StepMachine
import TechTrends.Today
import Mathlib.Data.List.Perm.Basic

set_option autoImplicit false

namespace TechTrends

namespace ScraperQueue

open JobQueue (Service)
open JsString (utf16)

/-! ## States -/

/-- The options that a job is added with, beside its name. `backoffType` and `backoffDelay`
are the two fields of `backoff`, `removeOnFailCount` is the one of `removeOnFail`. -/
structure JobOptions where
  attempts : ℕ
  backoffType : String
  backoffDelay : ℕ
  removeOnComplete : Bool
  removeOnFailCount : ℕ
deriving DecidableEq

def jobOptions : JobOptions where
  attempts := 3
  backoffType := "exponential"
  backoffDelay := 5000
  removeOnComplete := true
  removeOnFailCount := 50

/-- A run of `dispatchAllScrapersToQueue`: the sources that are left, and the job of the
first of them when `getJob` did not find it. -/
structure Dispatch where
  startedAt : ℤ
  remaining : List String
  adding : Option String
deriving DecidableEq

/-- The attempt that the worker runs: the job it was handed, the source that is the job's
data, and how the attempt is going to end. -/
structure Running where
  jobId : String
  sourceName : String
  outcome : Outcome Error ScrapeJobResult
deriving DecidableEq

/-- The event of a completed job, and what its handler waits for. -/
structure Completed where
  jobId : String
  returnvalue : ScrapeJobResult
  /-- The rows that were there when the job completed. -/
  rowsThen : ℕ
  /-- The start of the day, once the handler has asked for the rows. -/
  sinceDate : Option ℤ
deriving DecidableEq

/-- What a handler posted. The answer is nothing where the query failed. -/
structure Announcement where
  event : Completed
  sinceDate : ℤ
  found : Option (List TechTrend)
  calls : List TrendQueueEventsListener.Call
deriving DecidableEq

structure State (ε σ : Type) where
  now : ℤ
  /-- The world at the end of the attempt that runs, or as it is when none does. -/
  world : World ε
  /-- How many of its rows are in the table by now. -/
  visible : ℕ
  running : Option Running
  queue : σ
  dispatches : ℕ → Option Dispatch
  /-- The names of the jobs whose completion the queue took, in order. -/
  completions : List String
  completed : List Completed
  announced : List Announcement

variable {ε σ μ : Type}

/-- The rows of the table. -/
def State.rows (s : State ε σ) : List TechTrend := s.world.table.rows.take s.visible

/-! ## Steps -/

/-- The steps, with the moves in `μ` that the queue makes by itself. -/
inductive Act (μ : Type)
  | tick (ms : ℕ)
  | dispatch (d : ℕ)
  | lookup (d : ℕ)
  | add (d : ℕ)
  /-- A call to the queue failed, and the dispatch with it. -/
  | abort (d : ℕ)
  | take (jobId : String)
  | insert
  | finish
  | move (m : μ)
  /-- The handler of an event asks for the rows of the day. -/
  | ask (i : ℕ)
  | answer (i : ℕ) (found : Option (List TechTrend))
  /-- The process is stopped and started again between two attempts. -/
  | restart

variable (queue : Service σ String String JobOptions μ) (ext : Externals ε) (cfg : PipelineConfig)
  (config : TrendQueueEventsListener.Config)

/-- The dispatches and handlers of a process that stopped are gone. -/
def stopped (s : State ε σ) : State ε σ :=
  { s with running := none, dispatches := fun _ => none, completed := [] }

def setDispatch (s : State ε σ) (d : ℕ) (dispatch : Option Dispatch) : State ε σ :=
  { s with dispatches := Function.update s.dispatches d dispatch }

/-- `scraperQueue.getJob(jobId)`, for the name of the job of a source at this moment. -/
def lookup (s : State ε σ) (d : ℕ) : Option (State ε σ) :=
  match s.dispatches d with
  | some ⟨startedAt, sourceName :: remaining, none⟩ =>
    let jobId := dispatchJobId sourceName s.now
    let dispatch : Dispatch :=
      if (queue.getJob s.queue jobId).isSome then ⟨startedAt, remaining, none⟩
      else ⟨startedAt, sourceName :: remaining, some jobId⟩
    some (setDispatch s d (some dispatch))
  | _ => none

/-- `scraperQueue.add('scrape-articles', sourceName, { jobId, … })`. -/
def add (s : State ε σ) (d : ℕ) : Option (State ε σ) :=
  match s.dispatches d with
  | some ⟨startedAt, sourceName :: remaining, some jobId⟩ =>
    some
      { setDispatch s d (some ⟨startedAt, remaining, none⟩) with
        queue := queue.add s.queue jobId sourceName jobOptions }
  | _ => none

/-- An attempt for a source that starts now. -/
def attempt (s : State ε σ) (sourceName : String) : Outcome Error ScrapeJobResult × World ε :=
  Pipeline.executeScraperByName ext cfg sourceName { s.world with now := s.now }

/-- The worker takes a job and runs `executeScraperByName` on its data. -/
def take (s : State ε σ) (jobId : String) : Option (State ε σ) :=
  if s.running = none then
    (queue.take s.queue jobId).map fun taken =>
      { s with
        world := (attempt ext cfg s taken.1).2
        running := some ⟨jobId, taken.1, (attempt ext cfg s taken.1).1⟩
        queue := taken.2 }
  else none

/-- The state when the attempt has ended. -/
def ended (s : State ε σ) : State ε σ := { s with now := max s.now s.world.now, running := none }

/-- The attempt ends, and the worker reports how. A job that is not this worker's any more
is left alone. -/
def finish (s : State ε σ) : Option (State ε σ) :=
  s.running.bind fun running =>
    if s.visible = s.world.table.rows.length then
      match running.outcome with
      | Outcome.ret result =>
        match queue.complete s.queue running.jobId with
        | some q =>
          some
            { ended s with
              queue := q
              completions := s.completions ++ [running.jobId]
              completed := s.completed ++ [⟨running.jobId, result, s.visible, none⟩] }
        | none => some (ended s)
      | Outcome.throw _ =>
        match queue.fail s.queue running.jobId with
        | some q => some { ended s with queue := q }
        | none => some (ended s)
      | Outcome.killed => some (stopped (ended s))
    else none

/-- The answers to `findSavedSince`: the rows of the source since then, by `mined_at`. -/
def IsAnswer (rows : List TechTrend) (sourceName : String) (sinceDate : ℤ) (found : List TechTrend) : Prop :=
  found.Perm (rows.filter fun row => row.source = sourceName ∧ sinceDate ≤ row.mined_at) ∧
    found.Pairwise fun row row' => row.mined_at ≤ row'.mined_at

instance (rows : List TechTrend) (sourceName : String) (sinceDate : ℤ) (found : List TechTrend) :
    Decidable (IsAnswer rows sourceName sinceDate found) := by
  unfold IsAnswer
  infer_instance

/-- What `findSavedSince` returns of a row. -/
def savedArticleInfo (row : TechTrend) : TrendQueueEventsListener.SavedArticleInfo :=
  ⟨Binary64.ofInt row.id, utf16 row.title⟩

/-- `onCompleted` from the answer to its query on. -/
def announce (event : Completed) (sinceDate : ℤ) (found : Option (List TechTrend)) : Announcement where
  event := event
  sinceDate := sinceDate
  found := found
  calls :=
    TrendQueueEventsListener.onCompleted config (fun _ => found.map fun rows => rows.map savedArticleInfo)
      (utf16 event.jobId) (.object (some (utf16 event.returnvalue.sourceName)))

def ask (s : State ε σ) (i : ℕ) : Option (State ε σ) :=
  match s.completed[i]? with
  | some ⟨jobId, returnvalue, rowsThen, none⟩ =>
    some
      { s with
        completed := s.completed.set i ⟨jobId, returnvalue, rowsThen, some (getTodayStartUtc s.now)⟩ }
  | _ => none

def answer (s : State ε σ) (i : ℕ) (found : Option (List TechTrend)) : Option (State ε σ) :=
  match s.completed[i]? with
  | some ⟨jobId, returnvalue, rowsThen, some sinceDate⟩ =>
    if ∀ rows ∈ found, IsAnswer s.rows returnvalue.sourceName sinceDate rows then
      some
        { s with
          completed := s.completed.eraseIdx i
          announced := s.announced ++
            [announce config ⟨jobId, returnvalue, rowsThen, some sinceDate⟩ sinceDate found] }
    else none
  | _ => none

def step (s : State ε σ) : Act μ → Option (State ε σ)
  | Act.tick ms => some { s with now := s.now + ms }
  | Act.dispatch d =>
    if s.dispatches d = none then some (setDispatch s d (some ⟨s.now, Pipeline.allSourceNames, none⟩))
    else none
  | Act.lookup d => lookup queue s d
  | Act.add d => add queue s d
  | Act.abort d => (s.dispatches d).map fun _ => setDispatch s d none
  | Act.take jobId => take queue ext cfg s jobId
  | Act.insert =>
    (s.world.table.rows[s.visible]?).map fun row =>
      { s with visible := s.visible + 1, now := max s.now row.mined_at }
  | Act.finish => finish queue s
  | Act.move m => (queue.move s.queue m).map fun q => { s with queue := q }
  | Act.ask i => ask s i
  | Act.answer i found => answer config s i found
  | Act.restart => if s.running = none then some (stopped s) else none

def machine : StepMachine (State ε σ) (Act μ) := ⟨step queue ext cfg config⟩

/-- A table and a queue, and nothing that goes on. -/
def initial (now : ℤ) (world : World ε) (q : σ) : State ε σ where
  now := now
  world := world
  visible := world.table.rows.length
  running := none
  queue := q
  dispatches := fun _ => none
  completions := []
  completed := []
  announced := []

/-! ## What a step can be -/

/-- The steps, case by case. -/
inductive Moves (s : State ε σ) : Act μ → State ε σ → Prop
  | tick {ms : ℕ} : Moves s (Act.tick ms) { s with now := s.now + ms }
  | dispatch {d : ℕ} (h : s.dispatches d = none) :
      Moves s (Act.dispatch d) (setDispatch s d (some ⟨s.now, Pipeline.allSourceNames, none⟩))
  | found {d : ℕ} {startedAt : ℤ} {sourceName : String} {remaining : List String}
      (h : s.dispatches d = some ⟨startedAt, sourceName :: remaining, none⟩)
      (hfound : (queue.getJob s.queue (dispatchJobId sourceName s.now)).isSome) :
      Moves s (Act.lookup d) (setDispatch s d (some ⟨startedAt, remaining, none⟩))
  | missing {d : ℕ} {startedAt : ℤ} {sourceName : String} {remaining : List String}
      (h : s.dispatches d = some ⟨startedAt, sourceName :: remaining, none⟩) :
      Moves s (Act.lookup d)
        (setDispatch s d (some ⟨startedAt, sourceName :: remaining, some (dispatchJobId sourceName s.now)⟩))
  | add {d : ℕ} {startedAt : ℤ} {sourceName jobId : String} {remaining : List String}
      (h : s.dispatches d = some ⟨startedAt, sourceName :: remaining, some jobId⟩) :
      Moves s (Act.add d)
        { setDispatch s d (some ⟨startedAt, remaining, none⟩) with
          queue := queue.add s.queue jobId sourceName jobOptions }
  | abort {d : ℕ} : Moves s (Act.abort d) (setDispatch s d none)
  | take {jobId sourceName : String} {q : σ} (hidle : s.running = none)
      (htake : queue.take s.queue jobId = some (sourceName, q)) :
      Moves s (Act.take jobId)
        { s with
          world := (attempt ext cfg s sourceName).2
          running := some ⟨jobId, sourceName, (attempt ext cfg s sourceName).1⟩
          queue := q }
  | insert {row : TechTrend} (h : s.world.table.rows[s.visible]? = some row) :
      Moves s Act.insert { s with visible := s.visible + 1, now := max s.now row.mined_at }
  | complete {jobId sourceName : String} {result : ScrapeJobResult} {q : σ}
      (h : s.running = some ⟨jobId, sourceName, Outcome.ret result⟩)
      (hvisible : s.visible = s.world.table.rows.length)
      (hqueue : queue.complete s.queue jobId = some q) :
      Moves s Act.finish
        { ended s with
          queue := q
          completions := s.completions ++ [jobId]
          completed := s.completed ++ [⟨jobId, result, s.visible, none⟩] }
  | fail {jobId : String} {q : σ} (hvisible : s.visible = s.world.table.rows.length)
      (hqueue : queue.fail s.queue jobId = some q) : Moves s Act.finish { ended s with queue := q }
  /-- The job is not this worker's any more. -/
  | lost (hvisible : s.visible = s.world.table.rows.length) : Moves s Act.finish (ended s)
  | killed (hvisible : s.visible = s.world.table.rows.length) : Moves s Act.finish (stopped (ended s))
  | move {m : μ} {q : σ} (hqueue : queue.move s.queue m = some q) :
      Moves s (Act.move m) { s with queue := q }
  | ask {i : ℕ} {jobId : String} {returnvalue : ScrapeJobResult} {rowsThen : ℕ}
      (h : s.completed[i]? = some ⟨jobId, returnvalue, rowsThen, none⟩) :
      Moves s (Act.ask i)
        { s with
          completed := s.completed.set i ⟨jobId, returnvalue, rowsThen, some (getTodayStartUtc s.now)⟩ }
  | answer {i : ℕ} {found : Option (List TechTrend)} {event : Completed} {sinceDate : ℤ}
      (h : s.completed[i]? = some event) (hsince : event.sinceDate = some sinceDate)
      (hfound : ∀ rows ∈ found, IsAnswer s.rows event.returnvalue.sourceName sinceDate rows) :
      Moves s (Act.answer i found)
        { s with
          completed := s.completed.eraseIdx i
          announced := s.announced ++ [announce config event sinceDate found] }
  | restart (hidle : s.running = none) : Moves s Act.restart (stopped s)

/-- A dispatch that has looked a job up goes on: there is one, and the source is done; or
there is none, and it will add one; or the lookup fails, and the dispatch with it. -/
theorem moves_of_lookup {s s' : State ε σ} {d : ℕ} (h : lookup queue s d = some s') :
    Moves queue ext cfg config s (Act.lookup d) s' := by
  unfold lookup at h
  split at h
  · next startedAt sourceName remaining hdispatch =>
    rw [Option.some.injEq] at h
    subst h
    by_cases hfound : (queue.getJob s.queue (dispatchJobId sourceName s.now)).isSome
    · simp only [if_pos hfound]
      exact Moves.found hdispatch hfound
    · simp only [if_neg hfound]
      exact Moves.missing hdispatch
  · cases h

/-- The end of an attempt tells the queue how it ended, and leaves an event if the job
completed. -/
theorem moves_of_finish {s s' : State ε σ} (h : finish queue s = some s') :
    Moves queue ext cfg config s Act.finish s' := by
  obtain ⟨⟨jobId, sourceName, outcome⟩, hrunning, h⟩ := Option.bind_eq_some_iff.1 h
  rw [Option.ite_none_right_eq_some] at h
  obtain ⟨hvisible, h⟩ := h
  cases outcome with
  | ret result =>
    simp only at h
    split at h
    · next q hqueue =>
      rw [Option.some.injEq] at h
      exact h ▸ Moves.complete hrunning hvisible hqueue
    · rw [Option.some.injEq] at h
      exact h ▸ Moves.lost hvisible
  | throw e =>
    simp only at h
    split at h
    · next q hqueue =>
      rw [Option.some.injEq] at h
      exact h ▸ Moves.fail hvisible hqueue
    · rw [Option.some.injEq] at h
      exact h ▸ Moves.lost hvisible
  | killed =>
    rw [Option.some.injEq] at h
    exact h ▸ Moves.killed hvisible

/-- What a step does, with its guard. What is proved of the system is proved by cases on this. -/
theorem moves_of_step {s s' : State ε σ} {a : Act μ} (h : step queue ext cfg config s a = some s') :
    Moves queue ext cfg config s a s' := by
  cases a with
  | tick ms =>
    cases h
    exact Moves.tick
  | dispatch d =>
    rw [step, Option.ite_none_right_eq_some, Option.some.injEq] at h
    exact h.2 ▸ Moves.dispatch h.1
  -- looking up and finishing branch on what they find, so each has a lemma
  | lookup d => exact moves_of_lookup queue ext cfg config h
  | add d =>
    change add queue s d = some s' at h
    unfold add at h
    split at h
    · next hdispatch =>
      rw [Option.some.injEq] at h
      exact h ▸ Moves.add hdispatch
    · cases h
  | abort d =>
    obtain ⟨_, -, rfl⟩ := Option.map_eq_some_iff.1 h
    exact Moves.abort
  | take jobId =>
    change take queue ext cfg s jobId = some s' at h
    rw [take, Option.ite_none_right_eq_some] at h
    obtain ⟨hidle, h⟩ := h
    obtain ⟨taken, htake, rfl⟩ := Option.map_eq_some_iff.1 h
    exact Moves.take hidle htake
  | insert =>
    obtain ⟨row, hrow, rfl⟩ := Option.map_eq_some_iff.1 h
    exact Moves.insert hrow
  | finish => exact moves_of_finish queue ext cfg config h
  | move m =>
    obtain ⟨q, hqueue, rfl⟩ := Option.map_eq_some_iff.1 h
    exact Moves.move hqueue
  | ask i =>
    change ask s i = some s' at h
    unfold ask at h
    split at h
    · next hevent =>
      rw [Option.some.injEq] at h
      exact h ▸ Moves.ask hevent
    · cases h
  | answer i found =>
    change answer config s i found = some s' at h
    unfold answer at h
    split at h
    · next hevent =>
      rw [Option.ite_none_right_eq_some, Option.some.injEq] at h
      exact h.2 ▸ Moves.answer hevent rfl h.1
    · cases h
  | restart =>
    rw [step, Option.ite_none_right_eq_some, Option.some.injEq] at h
    exact h.2 ▸ Moves.restart h.1

end ScraperQueue

end TechTrends
