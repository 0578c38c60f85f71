/-
What becomes of the jobs that are dispatched.

A name stands for a source and a day, so that dispatches of one day that go on at the same
time, or one after another, meet in one job. `dispatchAllScrapersToQueue` looks a name up
and adds it in two steps, and another dispatch, the worker or the queue may come in between;
what it relies on is that a queue takes a name once, and that nobody else adds jobs.
-/
import TechTrends.ScraperQuota

set_option autoImplicit false

namespace TechTrends

namespace ScraperQueue

open JobQueue (Service line_lawful)
open Pipeline (allSourceNames)

variable {ε σ μ : Type} {queue : Service σ String String JobOptions μ} {ext : Externals ε}
  {cfg : PipelineConfig} {config : TrendQueueEventsListener.Config}

/-! ## Names -/

/-- The name of a job tells its source: the three sources have different first letters. -/
theorem source_of_dispatchJobId {source source' : String} (hsource : source ∈ allSourceNames)
    (hsource' : source' ∈ allSourceNames) {t t' : ℤ} (h : dispatchJobId source t = dispatchJobId source' t') :
    source = source' := by
  -- the sources differ in their first letters
  have hfirst := congrArg (fun name : String => name.toList.head?) h
  simp only [dispatchJobId, String.toList_append] at hfirst
  simp only [allSourceNames, List.mem_cons, List.not_mem_nil, or_false] at hsource hsource'
  rcases hsource with rfl | rfl | rfl <;> rcases hsource' with rfl | rfl | rfl <;>
    first
    | rfl
    | exact absurd hfirst (by simp)

/-- On one day, the name of the job of a source stays the same. -/
theorem dispatchJobId_of_seoulDay (source : String) {t t' : ℤ} (h : seoulDay t = seoulDay t') :
    dispatchJobId source t = dispatchJobId source t' := by
  rw [dispatchJobId, dispatchJobId, getTodayDateString, getTodayDateString]
  exact congrArg (fun day => source ++ "-" ++ formatDate (JsDate.civilDate day)) h

/-! ## The invariant -/

/-- The job is for a source, under its name at a moment from `first` to `now`. -/
def Named (first now : ℤ) (id source : String) : Prop :=
  source ∈ allSourceNames ∧ ∃ t, first ≤ t ∧ t ≤ now ∧ id = dispatchJobId source t

theorem Named.mono {first now now' : ℤ} {id source : String} (h : Named first now id source)
    (hnow : now ≤ now') : Named first now' id source := by
  obtain ⟨hsource, t, hfirst, ht, hname⟩ := h
  exact ⟨hsource, t, hfirst, ht.trans hnow, hname⟩

/-- The name of a job tells its source. -/
theorem Named.source_eq {first now : ℤ} {id source : String} (h : Named first now id source)
    {other : String} (hother : other ∈ allSourceNames) {t : ℤ} (hname : id = dispatchJobId other t) :
    source = other := by
  obtain ⟨hsource, t', -, -, hname'⟩ := h
  exact source_of_dispatchJobId hsource hother (hname'.symm.trans hname)

/-- A dispatch on its way. What it is about to add is named for the first of the sources
that are left, at a moment since it began. -/
structure OnItsWay (first now : ℤ) (dispatch : Dispatch) : Prop where
  first : first ≤ dispatch.startedAt
  started : dispatch.startedAt ≤ now
  sources : ∀ source ∈ dispatch.remaining, source ∈ allSourceNames
  adding : ∀ jobId ∈ dispatch.adding, ∀ source ∈ dispatch.remaining.head?,
    ∃ t, dispatch.startedAt ≤ t ∧ t ≤ now ∧ jobId = dispatchJobId source t

theorem OnItsWay.mono {first now now' : ℤ} {dispatch : Dispatch} (h : OnItsWay first now dispatch)
    (hnow : now ≤ now') : OnItsWay first now' dispatch := by
  refine ⟨h.first, h.started.trans hnow, h.sources, fun jobId hjobId source hsource => ?_⟩
  obtain ⟨t, hstart, ht, hname⟩ := h.adding jobId hjobId source hsource
  exact ⟨t, hstart, ht.trans hnow, hname⟩

/-- The dispatch is through with its first source. -/
theorem OnItsWay.next {first now startedAt : ℤ} {source : String} {remaining : List String}
    {adding : Option String} (h : OnItsWay first now ⟨startedAt, source :: remaining, adding⟩) :
    OnItsWay first now ⟨startedAt, remaining, none⟩ := by
  refine ⟨h.first, h.started, fun x hx => h.sources x (List.mem_cons_of_mem _ hx), ?_⟩
  intro jobId hjobId
  cases hjobId

/-- Everything named in the state is named for a source and a moment: the jobs of the queue,
the attempt that runs, and what the dispatches are about to add. -/
structure Ordered (queue : Service σ String String JobOptions μ) (first : ℤ) (s : State ε σ) : Prop where
  now : first ≤ s.now
  visible : s.visible ≤ s.world.table.rows.length
  jobs : ∀ id source, queue.getJob s.queue id = some source → Named first s.now id source
  running : ∀ running, s.running = some running → Named first s.now running.jobId running.sourceName
  dispatches : ∀ d dispatch, s.dispatches d = some dispatch → OnItsWay first s.now dispatch

theorem ordered_initial {first now : ℤ} (hfirst : first ≤ now) (world : World ε) {q : σ}
    (hq : ∀ id source, queue.getJob q id = some source → Named first now id source) :
    Ordered queue first (initial now world q) :=
  ⟨hfirst, le_rfl, hq, nofun, nofun⟩

/-- A step that starts or moves no dispatch and no attempt, and adds no job. -/
theorem Ordered.of_drops {first : ℤ} {s s' : State ε σ} (h : Ordered queue first s) (hnow : s.now ≤ s'.now)
    (hvisible : s'.visible ≤ s'.world.table.rows.length) (hqueue : queue.OnlyDrops s.queue s'.queue)
    (hrunning : ∀ running, s'.running = some running → s.running = some running)
    (hdispatches : ∀ d dispatch, s'.dispatches d = some dispatch → s.dispatches d = some dispatch) :
    Ordered queue first s' := by
  refine ⟨h.now.trans hnow, hvisible, fun id source hjob => ?_, fun running hr => ?_, fun d dispatch hd => ?_⟩
  · exact (h.jobs id source (hqueue id source hjob)).mono hnow
  · exact (h.running running (hrunning running hr)).mono hnow
  · exact (h.dispatches d dispatch (hdispatches d dispatch hd)).mono hnow

/-- A step of one dispatch that does not touch the queue. -/
theorem Ordered.setDispatch {first : ℤ} {s : State ε σ} (h : Ordered queue first s) (d : ℕ)
    {dispatch : Option Dispatch} (hdispatch : ∀ moved, dispatch = some moved → OnItsWay first s.now moved) :
    Ordered queue first (setDispatch s d dispatch) := by
  refine ⟨h.now, h.visible, h.jobs, h.running, fun x other hx => ?_⟩
  change Function.update s.dispatches d dispatch x = some other at hx
  by_cases hd : x = d
  · rw [hd, Function.update_self] at hx
    exact hdispatch other hx
  · rw [Function.update_of_ne hd] at hx
    exact h.dispatches x other hx

/-- A dispatch adds the job it looked for in vain. -/
theorem Ordered.add (hlawful : queue.Lawful) {first : ℤ} {s : State ε σ} (h : Ordered queue first s)
    {d : ℕ} {startedAt : ℤ} {source jobId : String} {remaining : List String}
    (hdispatch : s.dispatches d = some ⟨startedAt, source :: remaining, some jobId⟩) :
    Ordered queue first
      { ScraperQueue.setDispatch s d (some ⟨startedAt, remaining, none⟩) with
        queue := queue.add s.queue jobId source jobOptions } := by
  have hway := h.dispatches d _ hdispatch
  have hmoved : Ordered queue first (ScraperQueue.setDispatch s d (some ⟨startedAt, remaining, none⟩)) := by
    refine h.setDispatch d ?_
    rintro _ ⟨⟩
    exact hway.next
  refine ⟨hmoved.now, hmoved.visible, fun id found hjob => ?_, hmoved.running, hmoved.dispatches⟩
  rcases hlawful.eq_or_eq_of_getJob_add hjob with hold | ⟨rfl, rfl⟩
  · exact h.jobs id found hold
  · obtain ⟨t, hstart, ht, hname⟩ := hway.adding id rfl found rfl
    exact ⟨hway.sources found List.mem_cons_self, t, hway.first.trans hstart, ht, hname⟩

/-- The worker is handed a job, and runs an attempt for the source that is its data. -/
theorem Ordered.take (hlawful : queue.Lawful) {first : ℤ} {s : State ε σ} (h : Ordered queue first s)
    {jobId sourceName : String} {q : σ} (htake : queue.take s.queue jobId = some (sourceName, q)) :
    Ordered queue first
      { s with
        world := (attempt ext cfg s sourceName).2
        running := some ⟨jobId, sourceName, (attempt ext cfg s sourceName).1⟩
        queue := q } := by
  refine ⟨h.now, h.visible.trans (attempt_grows ext cfg s sourceName).length_le, fun id source hjob => ?_, ?_,
    h.dispatches⟩
  · change queue.getJob q id = some source at hjob
    rw [hlawful.take_keeps _ _ _ _ htake] at hjob
    exact h.jobs id source hjob
  · rintro _ ⟨⟩
    exact h.jobs jobId sourceName (hlawful.take_data _ _ _ _ htake)

/-- **Step.** Jobs, attempts and dispatches stay what they say: each of them is for a source,
under its name at some moment. By cases on the steps; of the queue's own moves only this is
used, that they drop jobs and add none. -/
theorem ordered_kept (hlawful : queue.Lawful) (first : ℤ) :
    (machine queue ext cfg config).Keeps (Ordered queue first) := by
  intro s a s' hs h
  -- what most moves do to the queue: nothing
  have hsame : queue.OnlyDrops s.queue s.queue := fun _ _ hjob => hjob
  cases moves_of_step queue ext cfg config h with
  | @tick ms =>
    have hnow : s.now ≤ s.now + ms := by omega
    exact hs.of_drops hnow hs.visible hsame (fun _ hr => hr) fun _ _ hd => hd
  | @dispatch d hnone =>
    refine hs.setDispatch d ?_
    rintro _ ⟨⟩
    refine ⟨hs.now, le_rfl, fun _ hsource => hsource, ?_⟩
    intro jobId hjobId
    cases hjobId
  | @found d startedAt source remaining hdispatch hfound =>
    refine hs.setDispatch d ?_
    rintro _ ⟨⟩
    exact (hs.dispatches d _ hdispatch).next
  -- the id is made here, with the time of this very moment
  | @missing d startedAt source remaining hdispatch =>
    have hway := hs.dispatches d _ hdispatch
    refine hs.setDispatch d ?_
    rintro _ ⟨⟩
    refine ⟨hway.first, hway.started, hway.sources, ?_⟩
    rintro _ ⟨⟩ _ ⟨⟩
    exact ⟨s.now, hway.started, le_rfl, rfl⟩
  | add hdispatch => exact hs.add hlawful hdispatch
  | @abort d => exact hs.setDispatch d nofun
  | take hidle htake => exact hs.take hlawful htake
  | insert hrow =>
    have hlt := (List.getElem?_eq_some_iff.1 hrow).1
    exact hs.of_drops (le_max_left _ _) hlt hsame (fun _ hr => hr) fun _ _ hd => hd
  | complete _ _ hqueue =>
    exact hs.of_drops (le_max_left _ _) hs.visible (hlawful.complete _ _ _ hqueue) nofun fun _ _ hd => hd
  | fail _ hqueue =>
    exact hs.of_drops (le_max_left _ _) hs.visible (hlawful.fail _ _ _ hqueue) nofun fun _ _ hd => hd
  | lost => exact hs.of_drops (le_max_left _ _) hs.visible hsame nofun fun _ _ hd => hd
  | killed => exact hs.of_drops (le_max_left _ _) hs.visible hsame nofun nofun
  | move hqueue =>
    exact hs.of_drops le_rfl hs.visible (hlawful.move _ _ _ hqueue) (fun _ hr => hr) fun _ _ hd => hd
  | ask => exact hs.of_drops le_rfl hs.visible hsame (fun _ hr => hr) fun _ _ hd => hd
  | answer => exact hs.of_drops le_rfl hs.visible hsame (fun _ hr => hr) fun _ _ hd => hd
  | restart => exact hs.of_drops le_rfl hs.visible hsame nofun nofun

/-- **The jobs of a run.** Take any queue that follows the rules, with jobs in it that were
dispatched from the moment `first` on. In every run, with any number of dispatches at once
and whatever the queue does between their steps, every job in the queue is for a source,
under the source's name at a moment up to now, and so is every attempt that the worker
runs. Two jobs of one source are of different days: no two dispatches of a day have put a
source into the queue twice. -/
theorem run_jobs (queue : Service σ String String JobOptions μ) (hlawful : queue.Lawful)
    (ext : Externals ε) (cfg : PipelineConfig) (config : TrendQueueEventsListener.Config) (first now : ℤ)
    (hfirst : first ≤ now) (world : World ε) (q : σ)
    (hq : ∀ id source, queue.getJob q id = some source → Named first now id source)
    (as : List (Act μ)) (s : State ε σ)
    (h : (machine queue ext cfg config).run as (initial now world q) = some s) :
    (∀ id source, queue.getJob s.queue id = some source → Named first s.now id source) ∧
    (∀ running, s.running = some running → Named first s.now running.jobId running.sourceName) ∧
    ∀ id id' source, queue.getJob s.queue id = some source → queue.getJob s.queue id' = some source →
      id ≠ id' → ∃ t t', id = dispatchJobId source t ∧ id' = dispatchJobId source t' ∧
        seoulDay t ≠ seoulDay t' := by
  have hordered := (ordered_kept hlawful first).run _ (ordered_initial hfirst world hq) h
  refine ⟨hordered.jobs, hordered.running, fun id id' source hid hid' hne => ?_⟩
  obtain ⟨-, t, -, -, hname⟩ := hordered.jobs id source hid
  obtain ⟨-, t', -, -, hname'⟩ := hordered.jobs id' source hid'
  refine ⟨t, t', hname, hname', fun hday => hne ?_⟩
  rw [hname, hname', dispatchJobId_of_seoulDay source hday]

/-- Two dispatches at once, both of which miss the first job and add it, and its attempt. -/
def meetingDispatches : List (Act String) :=
  [Act.dispatch 0, Act.dispatch 1, Act.lookup 0, Act.lookup 1, Act.add 0, Act.add 1, Act.lookup 1, Act.add 1,
    Act.take "dev.to-1970-01-01"]

/-- Two dispatches that look for the same job at the same time, find none, and both add it:
the queue has it once. -/
theorem run_jobs_meetingDispatches :
    ∃ s, (machine jobLine answering Pipeline.oneWanted ⟨none, none, none⟩).run meetingDispatches
        (initial 0 Pipeline.newWorld ∅) = some s ∧
      (jobLine.getJob s.queue "dev.to-1970-01-01" = some "dev.to" ∧
        jobLine.getJob s.queue "geeknews-1970-01-01" = some "geeknews") ∧
      (∀ id source, jobLine.getJob s.queue id = some source → Named 0 s.now id source) ∧
      (∀ running, s.running = some running → Named 0 s.now running.jobId running.sourceName) ∧
      ∀ id id' source, jobLine.getJob s.queue id = some source → jobLine.getJob s.queue id' = some source →
        id ≠ id' → ∃ t t', id = dispatchJobId source t ∧ id' = dispatchJobId source t' ∧
          seoulDay t ≠ seoulDay t' := by
  let M := machine jobLine answering Pipeline.oneWanted ⟨none, none, none⟩
  let start : State Unit (AList fun _ : String => String) := initial 0 Pipeline.newWorld ∅
  obtain ⟨s, hs⟩ := Option.isSome_iff_exists.1
    (show (M.run meetingDispatches start).isSome = true by decide +kernel)
  have hjobs : (M.run meetingDispatches start).map (fun s =>
      (jobLine.getJob s.queue "dev.to-1970-01-01", jobLine.getJob s.queue "geeknews-1970-01-01")) =
        some (some "dev.to", some "geeknews") := by
    decide +kernel
  rw [hs, Option.map_some, Option.some.injEq, Prod.mk.injEq] at hjobs
  exact ⟨s, hs, hjobs, run_jobs jobLine line_lawful answering Pipeline.oneWanted ⟨none, none, none⟩ 0 0 le_rfl
    Pipeline.newWorld ∅ (fun _ _ hjob => by cases hjob) meetingDispatches s hs⟩

/-! ## No source is lost

What a dispatch saw or did is in the past when it is through: the worker may have taken the
job by then, the queue may have dropped it. So the invariant speaks of the steps since the
dispatch began, and of the state of that moment. -/

/-- Somewhere along the steps `as` from `s`, the queue had the job of the source under its
name at a moment since `s`. -/
def Provided (queue : Service σ String String JobOptions μ) (ext : Externals ε) (cfg : PipelineConfig)
    (config : TrendQueueEventsListener.Config) (s : State ε σ) (as : List (Act μ)) (source : String) : Prop :=
  ∃ bs cs u t, as = bs ++ cs ∧ (machine queue ext cfg config).run bs s = some u ∧ s.now ≤ t ∧ t ≤ u.now ∧
    queue.getJob u.queue (dispatchJobId source t) = some source

theorem Provided.append {s : State ε σ} {as : List (Act μ)} {source : String}
    (h : Provided queue ext cfg config s as source) (a : Act μ) :
    Provided queue ext cfg config s (as ++ [a]) source := by
  obtain ⟨bs, cs, u, t, rfl, hrest⟩ := h
  exact ⟨bs, cs ++ [a], u, t, List.append_assoc _ _ _, hrest⟩

/-- A dispatch that began at `s` or later has provided for the sources it is through with. -/
structure Provides (queue : Service σ String String JobOptions μ) (ext : Externals ε) (cfg : PipelineConfig)
    (config : TrendQueueEventsListener.Config) (s : State ε σ) (d : ℕ) (as : List (Act μ)) (t : State ε σ) :
    Prop where
  run : (machine queue ext cfg config).run as s = some t
  now : s.now ≤ t.now
  started : ∀ dispatch, t.dispatches d = some dispatch → s.now ≤ dispatch.startedAt
  done : ∀ dispatch, t.dispatches d = some dispatch → ∀ source ∈ allSourceNames,
    source ∈ dispatch.remaining ∨ Provided queue ext cfg config s as source

/-- A step that does not move the dispatch. -/
theorem Provides.of_same {s t u : State ε σ} {d : ℕ} {as : List (Act μ)} {a : Act μ}
    (h : Provides queue ext cfg config s d as t) (hstep : step queue ext cfg config t a = some u)
    (hnow : t.now ≤ u.now) (hdispatch : ∀ dispatch, u.dispatches d = some dispatch →
      t.dispatches d = some dispatch) : Provides queue ext cfg config s d (as ++ [a]) u := by
  refine ⟨((machine queue ext cfg config).run_append_eq_some).2 ⟨t, h.run,
    ((machine queue ext cfg config).run_cons_eq_some).2 ⟨u, hstep, rfl⟩⟩, h.now.trans hnow,
    fun dispatch hd => h.started dispatch (hdispatch dispatch hd), fun dispatch hd source hsource => ?_⟩
  exact (h.done dispatch (hdispatch dispatch hd) source hsource).imp_right fun hp => hp.append a

/-- A step of one dispatch, which may be this one. -/
theorem Provides.of_dispatch {s t u : State ε σ} {d d' : ℕ} {as : List (Act μ)} {a : Act μ}
    {moved : Option Dispatch} (h : Provides queue ext cfg config s d as t)
    (hstep : step queue ext cfg config t a = some u) (hnow : u.now = t.now)
    (hupdate : u.dispatches = Function.update t.dispatches d' moved)
    (hmoved : ∀ dispatch, d = d' → moved = some dispatch → s.now ≤ dispatch.startedAt ∧
      ∀ source ∈ allSourceNames, source ∈ dispatch.remaining ∨
        Provided queue ext cfg config s (as ++ [a]) source) :
    Provides queue ext cfg config s d (as ++ [a]) u := by
  by_cases hd : d = d'
  · have hself : u.dispatches d = moved := by rw [hupdate, hd, Function.update_self]
    refine ⟨((machine queue ext cfg config).run_append_eq_some).2 ⟨t, h.run,
      ((machine queue ext cfg config).run_cons_eq_some).2 ⟨u, hstep, rfl⟩⟩, h.now.trans_eq hnow.symm,
      fun dispatch hdispatch => ?_, fun dispatch hdispatch => ?_⟩
    · exact (hmoved dispatch hd (hself.symm.trans hdispatch)).1
    · exact (hmoved dispatch hd (hself.symm.trans hdispatch)).2
  · refine h.of_same hstep hnow.ge fun dispatch hdispatch => ?_
    rwa [hupdate, Function.update_of_ne hd] at hdispatch

/-- The dispatch is through with its first source, whose job is in the queue now or was
when it looked. -/
theorem Provides.next {s t : State ε σ} {d : ℕ} {as bs : List (Act μ)} {startedAt : ℤ} {source : String}
    {remaining : List String} {adding : Option String} (h : Provides queue ext cfg config s d as t)
    (hdispatch : t.dispatches d = some ⟨startedAt, source :: remaining, adding⟩)
    (hsource : Provided queue ext cfg config s bs source)
    (hmore : ∀ other, Provided queue ext cfg config s as other → Provided queue ext cfg config s bs other)
    (dispatch : Dispatch) (hnext : some (⟨startedAt, remaining, none⟩ : Dispatch) = some dispatch) :
    s.now ≤ dispatch.startedAt ∧ ∀ other ∈ allSourceNames, other ∈ dispatch.remaining ∨
      Provided queue ext cfg config s bs other := by
  have hstart : s.now ≤ startedAt := h.started _ hdispatch
  cases hnext
  refine ⟨hstart, fun other hother => ?_⟩
  rcases h.done _ hdispatch other hother with hrest | hprovided
  · rcases List.mem_cons.1 hrest with rfl | hrest
    · exact Or.inr hsource
    · exact Or.inl hrest
  · exact Or.inr (hmore other hprovided)
/-- The job that a lookup finds under the name of a source is the job of the source. -/
theorem Ordered.getJob_of_isSome {first : ℤ} {s : State ε σ} (h : Ordered queue first s) {source : String}
    (hsource : source ∈ allSourceNames) {t : ℤ}
    (hfound : (queue.getJob s.queue (dispatchJobId source t)).isSome) :
    queue.getJob s.queue (dispatchJobId source t) = some source := by
  obtain ⟨found, hjob⟩ := Option.isSome_iff_exists.1 hfound
  rw [hjob, (h.jobs _ found hjob).source_eq hsource rfl]

/-- **Step, with the past.** What a dispatch is through with has been provided at some moment
since it began. It goes past a source when it finds the job there, or when it has added one,
by itself or after another dispatch that did so first. -/
theorem provides_step (hlawful : queue.Lawful) {first : ℤ} {s t u : State ε σ} {d : ℕ} {as : List (Act μ)}
    {a : Act μ} (ht : Ordered queue first t) (h : Provides queue ext cfg config s d as t)
    (hstep : step queue ext cfg config t a = some u) : Provides queue ext cfg config s d (as ++ [a]) u := by
  have hu : Ordered queue first u := ordered_kept hlawful first t a u ht hstep
  have hrun : (machine queue ext cfg config).run (as ++ [a]) s = some u :=
    ((machine queue ext cfg config).run_append_eq_some).2
      ⟨t, h.run, ((machine queue ext cfg config).run_cons_eq_some).2 ⟨u, hstep, rfl⟩⟩
  have hmore : ∀ other, Provided queue ext cfg config s as other →
      Provided queue ext cfg config s (as ++ [a]) other := fun _ hp => hp.append a
  cases moves_of_step queue ext cfg config hstep with
  | @tick ms =>
    have hnow : t.now ≤ t.now + ms := by omega
    exact h.of_same hstep hnow fun _ hd => hd
  | @dispatch d' hnone =>
    refine h.of_dispatch hstep rfl rfl ?_
    rintro _ - ⟨⟩
    exact ⟨h.now, fun _ hsource => Or.inl hsource⟩
  | @found d' startedAt source remaining hdispatch hfound =>
    refine h.of_dispatch hstep rfl rfl fun dispatch hd hnext => ?_
    rw [← hd] at hdispatch
    have hsource := (ht.dispatches d _ hdispatch).sources source List.mem_cons_self
    -- the job is there, in the state that the lookup saw
    have hprovided : Provided queue ext cfg config s (as ++ [Act.lookup d']) source :=
      ⟨as, [Act.lookup d'], t, t.now, rfl, h.run, h.now, le_rfl, ht.getJob_of_isSome hsource hfound⟩
    exact h.next hdispatch hprovided hmore dispatch hnext
  | @missing d' startedAt source remaining hdispatch =>
    refine h.of_dispatch hstep rfl rfl ?_
    rintro _ hd ⟨⟩
    rw [← hd] at hdispatch
    have hstarted : s.now ≤ startedAt := h.started _ hdispatch
    exact ⟨hstarted, fun other hother => (h.done _ hdispatch other hother).imp_right (hmore other)⟩
  | @add d' startedAt source jobId remaining hdispatch =>
    refine h.of_dispatch hstep rfl rfl fun dispatch hd hnext => ?_
    rw [← hd] at hdispatch
    have hway := ht.dispatches d _ hdispatch
    have hsource := hway.sources source List.mem_cons_self
    obtain ⟨moment, hstart, hnow, rfl⟩ := hway.adding jobId rfl source rfl
    -- the job is there after the step, whoever was the first to add it
    obtain ⟨found, hjob⟩ := hlawful.exists_getJob_add t.queue (dispatchJobId source moment) source jobOptions
    have hprovided : Provided queue ext cfg config s (as ++ [Act.add d']) source :=
      ⟨as ++ [Act.add d'], [], _, moment, (List.append_nil _).symm, hrun,
        (h.started _ hdispatch).trans hstart, hnow,
        hu.getJob_of_isSome hsource (Option.isSome_iff_exists.2 ⟨found, hjob⟩)⟩
    exact h.next hdispatch hprovided hmore dispatch hnext
  | @abort d' => exact h.of_dispatch hstep rfl rfl fun _ _ hnext => by cases hnext
  | take => exact h.of_same hstep le_rfl fun _ hd => hd
  | insert => exact h.of_same hstep (le_max_left _ _) fun _ hd => hd
  | complete => exact h.of_same hstep (le_max_left _ _) fun _ hd => hd
  | fail => exact h.of_same hstep (le_max_left _ _) fun _ hd => hd
  | lost => exact h.of_same hstep (le_max_left _ _) fun _ hd => hd
  | killed => exact h.of_same hstep (le_max_left _ _) nofun
  | move => exact h.of_same hstep le_rfl fun _ hd => hd
  | ask => exact h.of_same hstep le_rfl fun _ hd => hd
  | answer => exact h.of_same hstep le_rfl fun _ hd => hd
  | restart => exact h.of_same hstep le_rfl nofun

/-! ### What keeps a job -/

/-- The steps that the queue takes no part in, or only adds a job or hands one out. -/
def Act.KeepsJobs : Act μ → Prop
  | Act.finish => False
  | Act.move _ => False
  | _ => True

/-- A step that ends no attempt and is no move of the queue leaves every job where it is. -/
theorem getJob_of_keepsJobs (hlawful : queue.Lawful) {s s' : State ε σ} {a : Act μ}
    (hstep : step queue ext cfg config s a = some s') (ha : a.KeepsJobs) {id source : String}
    (hjob : queue.getJob s.queue id = some source) : queue.getJob s'.queue id = some source := by
  cases moves_of_step queue ext cfg config hstep with
  | add => exact hlawful.getJob_add_of_some hjob
  | take _ htake => exact (hlawful.take_keeps _ _ _ _ htake id).trans hjob
  | complete => exact ha.elim
  | fail => exact ha.elim
  | move => exact ha.elim
  | _ => exact hjob

/-- The clock does not go back. -/
theorem run_now_le {as : List (Act μ)} {s t : State ε σ} (h : (machine queue ext cfg config).run as s = some t) :
    s.now ≤ t.now := by
  refine (machine queue ext cfg config).run_rel (R := fun s t => s.now ≤ t.now) (fun _ => le_rfl)
    (fun _ _ _ => le_trans) ?_ h
  intro s a t hstep
  cases moves_of_step queue ext cfg config hstep with
  | @tick ms =>
    have hnow : s.now ≤ s.now + ms := by omega
    exact hnow
  | insert => exact le_max_left _ _
  | complete => exact le_max_left _ _
  | fail => exact le_max_left _ _
  | lost => exact le_max_left _ _
  | killed => exact le_max_left _ _
  | _ => exact le_rfl

theorem run_getJob_of_keepsJobs (hlawful : queue.Lawful) {id source : String} :
    ∀ {as : List (Act μ)} {s s' : State ε σ}, (∀ a ∈ as, Act.KeepsJobs a) →
      (machine queue ext cfg config).run as s = some s' → queue.getJob s.queue id = some source →
        queue.getJob s'.queue id = some source := by
  intro as s s' has h hjob
  have hkeeps : (machine queue ext cfg config).KeepsIf (fun _ a => a.KeepsJobs)
      fun s => queue.getJob s.queue id = some source :=
    fun s a t hs ha hstep => getJob_of_keepsJobs hlawful hstep ha hs
  exact hkeeps.run _ hjob (StepMachine.Meets.of_labels _ fun a ha _ => has a ha) h

/-- A dispatch begins with all sources before it, at the time of its beginning. -/
theorem begins {s t : State ε σ} {d : ℕ} (h : step queue ext cfg config s (Act.dispatch d) = some t) :
    t.now = s.now ∧ t.dispatches d = some ⟨s.now, allSourceNames, none⟩ := by
  rw [step, Option.ite_none_right_eq_some] at h
  obtain ⟨-, h⟩ := h
  obtain rfl := Option.some.inj h
  exact ⟨rfl, Function.update_self ..⟩

/-- **A dispatch loses no source.** Take any run, a dispatch that begins in it, and a later
state in which the dispatch is through. Whatever other dispatches, attempts, failed calls and
restarts there were meanwhile, and whatever the queue did, at a state since the dispatch
began the queue had the job of each source, under its name at a moment of the dispatch and
with the source as its data. From that state on only the end of an attempt and the queue
itself can drop it. A dispatch within one day has one name for each source. -/
theorem dispatch_loses_no_source (queue : Service σ String String JobOptions μ) (hlawful : queue.Lawful)
    (ext : Externals ε) (cfg : PipelineConfig) (config : TrendQueueEventsListener.Config) (first now : ℤ)
    (hfirst : first ≤ now) (world : World ε) (q : σ)
    (hq : ∀ id source, queue.getJob q id = some source → Named first now id source)
    (as bs : List (Act μ)) (d : ℕ) (startedAt : ℤ) (s t u : State ε σ)
    (h : (machine queue ext cfg config).run as (initial now world q) = some s)
    (hbegins : step queue ext cfg config s (Act.dispatch d) = some t)
    (hrun : (machine queue ext cfg config).run bs t = some u)
    (hthrough : u.dispatches d = some ⟨startedAt, [], none⟩) :
    ∀ source ∈ allSourceNames, ∃ cs cs' v moment, bs = cs ++ cs' ∧
      (machine queue ext cfg config).run cs t = some v ∧
      (machine queue ext cfg config).run cs' v = some u ∧ s.now ≤ moment ∧ moment ≤ v.now ∧
      queue.getJob v.queue (dispatchJobId source moment) = some source ∧
      (∀ ds w, (∀ a ∈ ds, Act.KeepsJobs a) → (machine queue ext cfg config).run ds v = some w →
        queue.getJob w.queue (dispatchJobId source moment) = some source) ∧
      (seoulDay s.now = seoulDay u.now → dispatchJobId source moment = dispatchJobId source s.now) := by
  have hs : Ordered queue first s := (ordered_kept hlawful first).run _ (ordered_initial hfirst world hq) h
  have ht : Ordered queue first t :=
    @ordered_kept ε σ μ queue ext cfg config hlawful first s (Act.dispatch d) t hs hbegins
  obtain ⟨hnow, hdispatch⟩ := begins hbegins
  have hinit : Provides queue ext cfg config t d [] t := by
    refine ⟨rfl, le_rfl, fun dispatch hd => ?_, fun dispatch hd source hsource => ?_⟩
    · obtain rfl := Option.some.inj (hdispatch.symm.trans hd)
      exact hnow.le
    · obtain rfl := Option.some.inj (hdispatch.symm.trans hd)
      exact Or.inl hsource
  obtain ⟨-, hprovides⟩ := (machine queue ext cfg config).run_history
    (P := fun cs v => Ordered queue first v ∧ Provides queue ext cfg config t d cs v) ⟨ht, hinit⟩
    (fun cs v a w hv hstep => ⟨ordered_kept hlawful first v a w hv.1 hstep,
      provides_step hlawful hv.1 hv.2 hstep⟩) hrun
  intro source hsource
  obtain ⟨cs, cs', v, moment, hsplit, hcs, hlow, hhigh, hjob⟩ :=
    (hprovides.done _ hthrough source hsource).resolve_left List.not_mem_nil
  rw [hsplit] at hrun
  obtain ⟨v', hv', hrest⟩ := ((machine queue ext cfg config).run_append_eq_some).1 hrun
  obtain rfl : v = v' := Option.some.inj (hcs.symm.trans hv')
  rw [hnow] at hlow
  refine ⟨cs, cs', v, moment, hsplit, hcs, hrest, hlow, hhigh, hjob,
    fun ds w hds hw => run_getJob_of_keepsJobs hlawful hds hw hjob, fun hday => ?_⟩
  refine dispatchJobId_of_seoulDay source ?_
  have hbefore := seoulDay_mono hlow
  have hafter := seoulDay_mono (hhigh.trans (run_now_le hrest))
  exact Int.le_antisymm (hafter.trans_eq hday.symm) hbefore

/-- What goes on after a dispatch began: the worker takes and completes a job that was there,
and an operator removes the one the dispatch has just added. -/
def meanwhile : List (Act String) :=
  [Act.lookup 0, Act.take "dev.to-1970-01-01", Act.insert, Act.finish, Act.lookup 0, Act.add 0,
    Act.move "geeknews-1970-01-01", Act.lookup 0, Act.add 0]

/-- A dispatch that finds the first job added by an older one, whose attempt then ends; adds
the second, which the queue drops; and adds the third, with which it is through. -/
theorem dispatch_loses_no_source_meanwhile :
    ∃ s t u, (machine jobLine answering Pipeline.oneWanted ⟨none, none, none⟩).run
        [Act.dispatch 1, Act.lookup 1, Act.add 1] (initial 0 Pipeline.newWorld ∅) = some s ∧
      step jobLine answering Pipeline.oneWanted ⟨none, none, none⟩ s (Act.dispatch 0) = some t ∧
      (machine jobLine answering Pipeline.oneWanted ⟨none, none, none⟩).run meanwhile t = some u ∧
      u.dispatches 0 = some ⟨0, [], none⟩ ∧
      ∀ source ∈ allSourceNames, ∃ cs cs' v moment, meanwhile = cs ++ cs' ∧
        (machine jobLine answering Pipeline.oneWanted ⟨none, none, none⟩).run cs t = some v ∧
        (machine jobLine answering Pipeline.oneWanted ⟨none, none, none⟩).run cs' v = some u ∧
        s.now ≤ moment ∧ moment ≤ v.now ∧
        jobLine.getJob v.queue (dispatchJobId source moment) = some source ∧
        (∀ ds w, (∀ a ∈ ds, Act.KeepsJobs a) →
          (machine jobLine answering Pipeline.oneWanted ⟨none, none, none⟩).run ds v = some w →
          jobLine.getJob w.queue (dispatchJobId source moment) = some source) ∧
        (seoulDay s.now = seoulDay u.now → dispatchJobId source moment = dispatchJobId source s.now) := by
  let M := machine jobLine answering Pipeline.oneWanted ⟨none, none, none⟩
  let start : State Unit (AList fun _ : String => String) := initial 0 Pipeline.newWorld ∅
  have hall : (M.run ([Act.dispatch 1, Act.lookup 1, Act.add 1] ++ (Act.dispatch 0 :: meanwhile)) start).map
      (fun s => s.dispatches 0) = some (some ⟨0, [], none⟩) := by
    decide +kernel
  obtain ⟨u, hu, hthrough⟩ := Option.map_eq_some_iff.1 hall
  obtain ⟨s, hs, hrest⟩ := (M.run_append_eq_some).1 hu
  obtain ⟨t, ht, hrun⟩ := (M.run_cons_eq_some).1 hrest
  exact ⟨s, t, u, hs, ht, hrun, hthrough, dispatch_loses_no_source jobLine line_lawful answering
    Pipeline.oneWanted ⟨none, none, none⟩ 0 0 le_rfl Pipeline.newWorld ∅ (fun _ _ hjob => by cases hjob)
    _ meanwhile 0 0 s t u hs ht hrun hthrough⟩

end ScraperQueue

end TechTrends
