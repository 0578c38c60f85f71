/-
Uniform errors, whoever runs the load.

What a load came to is told by the answers that the database has given to it: one
answer to its last query, or none when the call for the article has decided it. A
call that waited for the load settles with the same, so the one that started it,
those that joined it and a load around it see one error. The `catch` blocks leave
two kinds of it: the article is not there, or something else failed.

A load that has ended is not in its map. So a call that begins afterwards waits for
a later load, with answers of its own.
-/
import TechTrends.TrendsQueryLoads

set_option autoImplicit false

namespace TechTrends

namespace TrendsQuery

variable {cfg : TrendsCacheConfig} {s t : State} {a : Act} {c l : CallId} {target : Target}
  {as bs : List Act}

/-! ## What a step does to the loads -/

/-- The phase of a load of related articles that has the article. -/
def articlePhase (id limit : Binary64) : Result → LoadPhase
  | Except.error e => LoadPhase.finished (Except.error e)
  | Except.ok article =>
    if lacksEmbedding article then LoadPhase.finished (Except.ok (Value.related []))
    else
      match vectorString (embedding article) with
      | none => LoadPhase.finished (Except.error Failure.other)
      | some vector => LoadPhase.querying (Query.findRelatedByEmbedding id vector limit)

/-- What `loadRelated` makes of its article, said of its load alone: it has ended, or it waits
for its query. -/
theorem afterArticle_loads (s : State) (l : CallId) (id limit : Binary64) (result : Result) :
    (afterArticle s l id limit result).loads =
      Function.update s.loads l (some ⟨Target.related id limit, articlePhase id limit result⟩) := by
  cases result with
  | error e => exact finish_loads ..
  | ok article =>
    simp only [afterArticle, articlePhase]
    by_cases hlacks : lacksEmbedding article = true
    · rw [if_pos hlacks, if_pos hlacks, finish_loads]
    · rw [if_neg hlacks, if_neg hlacks]
      cases vectorString (embedding article) with
      | none => exact finish_loads ..
      | some vector => rfl

/-- The answer that a step gives to the load, if it gives one. -/
def Act.answerOf (l : CallId) : Act → Option (Option Answer)
  | query l' answer => if l' = l then some answer else none
  | _ => none

/-- The answers of the database to the queries of a load, along the steps. -/
def answersOf (l : CallId) (as : List Act) : List (Option Answer) :=
  as.filterMap (Act.answerOf l)

theorem answersOf_append (l : CallId) (as bs : List Act) :
    answersOf l (as ++ bs) = answersOf l as ++ answersOf l bs :=
  List.filterMap_append

theorem answersOf_concat_of_none (h : a.answerOf l = none) (as : List Act) :
    answersOf l (as ++ [a]) = answersOf l as := by
  rw [answersOf_append, answersOf, answersOf, List.filterMap_cons_none h, List.filterMap_nil,
    List.append_nil]

theorem answersOf_concat_query (l : CallId) (answer : Option Answer) (as : List Act) :
    answersOf l (as ++ [Act.query l answer]) = answersOf l as ++ [answer] := by
  simp [answersOf, Act.answerOf]

/-- A step leaves the loads as they are, starts one, or moves one on. -/
inductive LoadsMove (s : State) : Act → (CallId → Option Load) → Prop
  | same {a : Act} (ha : ∀ l, a.answerOf l = none) : LoadsMove s a s.loads
  | starts {a : Act} {c : CallId} {target : Target} (ha : ∀ l, a.answerOf l = none)
      (hc : s.loads c = none) :
      LoadsMove s a (Function.update s.loads c (some ⟨target, firstPhase target⟩))
  | query {l : CallId} {target : Target} {query : Query} {answer : Option Answer}
      (hl : s.loads l = some ⟨target, LoadPhase.querying query⟩)
      (hfits : answer.all (Answer.fits query) = true) :
      LoadsMove s (Act.query l answer)
        (Function.update s.loads l (some ⟨target, LoadPhase.answered answer⟩))
  | loaded {a : Act} {l : CallId} {target : Target} {answer : Option Answer}
      (ha : ∀ l, a.answerOf l = none) (hl : s.loads l = some ⟨target, LoadPhase.answered answer⟩) :
      LoadsMove s a
        (Function.update s.loads l (some ⟨target, LoadPhase.finished (loaded target answer)⟩))
  | article {a : Act} {l : CallId} {id limit : Binary64} {result : Result}
      (ha : ∀ l, a.answerOf l = none)
      (hl : s.loads l = some ⟨Target.related id limit, LoadPhase.article⟩)
      (hresult : s.callResult (CallId.inner l) = some result) :
      LoadsMove s a
        (Function.update s.loads l (some ⟨Target.related id limit, articlePhase id limit result⟩))

/-- A call that settles ends its load, or the load has ended or is not its own. The first case
is that of the count and the sources, whose caller has the `finally`. -/
theorem afterLoad_loadsMove {load : Load} {result : Result} (ha : ∀ l, a.answerOf l = none)
    (htarget : load.target = target) (hl : s.loads l = some load)
    (hresult : load.result? = some result) :
    LoadsMove s a (afterLoad s c target l result).loads := by
  by_cases hown : cleansUpInCall target = true ∧ l = c
  · obtain ⟨hown, rfl⟩ := hown
    rw [afterLoad_own s hown, setCall_loads, finish_loads]
    unfold Load.result? at hresult
    obtain ⟨target', phase⟩ := load
    cases htarget
    cases phase with
    | article => cases hresult
    | querying q => cases hresult
    | finished r =>
      cases hresult
      rw [← hl, Function.update_eq_self]
      exact LoadsMove.same ha
    | answered answer =>
      simp only [hown, if_true, Option.some.injEq] at hresult
      rw [← hresult]
      exact LoadsMove.loaded ha hl
  · rw [afterLoad_other s hown, setCall_loads]
    exact LoadsMove.same ha

/-- What a step does to the loads, with the answer of the database that it brings, if any.
There are five ways for a load to move, and everything about answers is proved by cases on
them. -/
theorem loads_moves (hf : Flights s) (hm : Moves cfg s a t) : LoadsMove s a t.loads := by
  cases hm with
  | @request i r hcall hlist => cases r <;> exact LoadsMove.same fun _ => rfl
  | @starts c target cached hc husable hload =>
    have hstart : (s.start c target).loads =
        Function.update s.loads c (some ⟨target, firstPhase target⟩) := by
      cases target <;> exact lead_loads ..
    rw [hstart]
    exact LoadsMove.starts (fun _ => rfl) (hf.loads_none hc (Or.inl ⟨cached, rfl⟩))
  | ends hc hl hresult =>
    exact afterLoad_loadsMove (fun _ => rfl) (hf.waits_target hc hl) hl hresult
  | query hl hfits => exact LoadsMove.query hl hfits
  | loaded hl hown =>
    rw [finish_loads]
    exact LoadsMove.loaded (fun _ => rfl) hl
  | article hl hresult =>
    rw [afterArticle_loads]
    exact LoadsMove.article (fun _ => rfl) hl hresult
  | _ => exact LoadsMove.same fun _ => rfl

/-! ## What the answers tell -/

/-- An answer of the query's kind gives a load for the target no raw error. -/
def Query.Serves (target : Target) (query : Query) : Prop :=
  ∀ answer, Answer.fits query answer = true →
    loaded target (some answer) ≠ Except.error Failure.other

/-- The first query of a load serves its target: an answer that fits it makes a value or, for
an article that is not there, the error of that. -/
theorem serves_firstPhase {query : Query} (h : firstPhase target = LoadPhase.querying query) :
    query.Serves target := by
  intro answer hfits
  cases target <;> cases h <;> cases answer <;> cases hfits
  case sources.refl.sources names => rintro ⟨⟩
  case detail.refl.trend row => cases row <;> rintro ⟨⟩
  case listCount.refl.count n => rintro ⟨⟩

theorem serves_related (id limit : Binary64) (vector : String) :
    (Query.findRelatedByEmbedding id vector limit).Serves (Target.related id limit) := by
  intro answer hfits
  cases answer <;> cases hfits
  rintro ⟨⟩

/-- The answer gives a load for the target a raw error only when it is one. -/
def Suits (target : Target) (answer : Option Answer) : Prop :=
  loaded target answer = Except.error Failure.other → answer = none

/-- When a query serves its load, an answer that leaves the load with some other failure is no
answer at all but an error of the database. -/
theorem Query.Serves.suits {query : Query} {answer : Option Answer} (h : query.Serves target)
    (hfits : answer.all (Answer.fits query) = true) : Suits target answer := by
  intro hother
  cases answer with
  | none => rfl
  | some answer => exact absurd hother (h answer hfits)

/-- A load of related articles has its article. -/
def HasArticle (s : State) (l : CallId) (target : Target) : Prop :=
  ∀ id limit, target = Target.related id limit →
    ∃ article, s.callResult (CallId.inner l) = some (Except.ok article)

/-- How a load has come to its result: by its last query, or by the article alone. -/
inductive Ended (s : State) (l : CallId) : Target → List (Option Answer) → Result → Prop
  | read {target : Target} {answer : Option Answer} (hsuits : Suits target answer)
      (harticle : HasArticle s l target) : Ended s l target [answer] (loaded target answer)
  | noArticle {id limit : Binary64} {e : Failure}
      (hresult : s.callResult (CallId.inner l) = some (Except.error e)) :
      Ended s l (Target.related id limit) [] (Except.error e)
  | noVector {id limit : Binary64} {article : Value}
      (hresult : s.callResult (CallId.inner l) = some (Except.ok article))
      (hlacks : lacksEmbedding article = true) :
      Ended s l (Target.related id limit) [] (Except.ok (Value.related []))
  | notArray {id limit : Binary64} {article : Value}
      (hresult : s.callResult (CallId.inner l) = some (Except.ok article))
      (hlacks : lacksEmbedding article = false) (hvector : vectorString (embedding article) = none) :
      Ended s l (Target.related id limit) [] (Except.error Failure.other)

/-- What the answers so far tell of a load. -/
def LoadTold (s : State) (l : CallId) (load : Load) (answers : List (Option Answer)) : Prop :=
  match load.phase with
  | LoadPhase.article => answers = []
  | LoadPhase.querying query =>
    answers = [] ∧ query.Serves load.target ∧ HasArticle s l load.target
  | LoadPhase.answered answer =>
    answers = [answer] ∧ Suits load.target answer ∧ HasArticle s l load.target
  | LoadPhase.finished result => Ended s l load.target answers result

/-- The steps so far tell of every load. -/
structure Recorded (as : List Act) (s : State) : Prop where
  fresh : ∀ l, s.loads l = none → answersOf l as = []
  told : ∀ l load, s.loads l = some load → LoadTold s l load (answersOf l as)

theorem HasArticle.mono (h : HasArticle s l target) (hgrow : Grows s t) : HasArticle t l target := by
  intro id limit htarget
  obtain ⟨article, hresult⟩ := h id limit htarget
  exact ⟨article, hgrow.callResult hresult⟩

theorem Ended.mono {answers : List (Option Answer)} {result : Result}
    (h : Ended s l target answers result) (hgrow : Grows s t) : Ended t l target answers result := by
  cases h with
  | read hsuits harticle => exact Ended.read hsuits (harticle.mono hgrow)
  | noArticle hresult => exact Ended.noArticle (hgrow.callResult hresult)
  | noVector hresult hlacks => exact Ended.noVector (hgrow.callResult hresult) hlacks
  | notArray hresult hlacks hvector =>
    exact Ended.notArray (hgrow.callResult hresult) hlacks hvector

theorem LoadTold.mono {load : Load} {answers : List (Option Answer)} (h : LoadTold s l load answers)
    (hgrow : Grows s t) : LoadTold t l load answers := by
  unfold LoadTold at h ⊢
  split at h
  · exact h
  · exact ⟨h.1, h.2.1, h.2.2.mono hgrow⟩
  · exact ⟨h.1, h.2.1, h.2.2.mono hgrow⟩
  · exact Ended.mono h hgrow

/-- A load that has just started has nothing told of it. -/
theorem loadTold_firstPhase (s : State) (l : CallId) (target : Target) :
    LoadTold s l ⟨target, firstPhase target⟩ [] := by
  have hno : (∀ id limit, target ≠ Target.related id limit) → HasArticle s l target :=
    fun hne id limit htarget => absurd htarget (hne id limit)
  cases target with
  | related id limit => exact rfl
  | sources => exact ⟨rfl, serves_firstPhase rfl, hno (by rintro id limit ⟨⟩)⟩
  | detail id => exact ⟨rfl, serves_firstPhase rfl, hno (by rintro id limit ⟨⟩)⟩
  | listCount source isNew => exact ⟨rfl, serves_firstPhase rfl, hno (by rintro id limit ⟨⟩)⟩

/-- The article ends a load of related articles or leads it to its query, with no answer of
the database to the load itself so far. -/
theorem loadTold_article {id limit : Binary64} {result : Result}
    (h : s.callResult (CallId.inner l) = some result) :
    LoadTold s l ⟨Target.related id limit, articlePhase id limit result⟩ [] := by
  cases result with
  | error e => exact Ended.noArticle h
  | ok article =>
    simp only [articlePhase]
    by_cases hlacks : lacksEmbedding article = true
    · rw [if_pos hlacks]
      exact Ended.noVector h hlacks
    · rw [if_neg hlacks]
      have hlacks : lacksEmbedding article = false := by simpa using hlacks
      cases hvector : vectorString (embedding article) with
      | none => exact Ended.notArray h hlacks hvector
      | some vector => exact ⟨rfl, serves_related id limit vector, fun _ _ _ => ⟨article, h⟩⟩

/-- A step that tells nothing of the loads it does not touch, and enough of the one that it
does. What has been told before is carried over by growth. -/
theorem Recorded.next (h : Recorded as s) (hgrow : Grows s t) {load : Load}
    (hloads : t.loads = Function.update s.loads l (some load))
    (hother : ∀ l', l' ≠ l → a.answerOf l' = none)
    (htold : LoadTold t l load (answersOf l (as ++ [a]))) : Recorded (as ++ [a]) t := by
  refine ⟨?_, ?_⟩
  · intro l' hl'
    rw [hloads] at hl'
    have hne : l' ≠ l := by
      rintro rfl
      rw [Function.update_self] at hl'
      cases hl'
    rw [Function.update_of_ne hne] at hl'
    rw [answersOf_concat_of_none (hother l' hne)]
    exact h.fresh l' hl'
  · intro l' load' hl'
    rw [hloads] at hl'
    rcases update_eq_some hl' with ⟨rfl, hnew⟩ | ⟨hne, hold⟩
    · cases hnew
      exact htold
    · rw [answersOf_concat_of_none (hother l' hne)]
      exact (h.told l' load' hold).mono hgrow

/-- **Step.** Every step keeps what the answers tell of the loads. -/
theorem recorded_step (hf : Flights s) (h : Recorded as s) (hstep : step cfg s a = some t) :
    Recorded (as ++ [a]) t := by
  have hgrow := (flights_step hf hstep).grows
  have hmove := loads_moves hf (step_moves hstep)
  generalize hloads : t.loads = loads at hmove
  cases hmove with
  | same ha =>
    refine ⟨?_, ?_⟩
    · intro l hl
      rw [answersOf_concat_of_none (ha l)]
      exact h.fresh l (hloads ▸ hl)
    · intro l load hl
      rw [answersOf_concat_of_none (ha l)]
      exact (h.told l load (hloads ▸ hl)).mono hgrow
  | @starts _ c target ha hc =>
    refine h.next hgrow hloads (fun l _ => ha l) ?_
    rw [answersOf_concat_of_none (ha c), h.fresh c hc]
    exact loadTold_firstPhase t c target
  | @query l target query answer hl hfits =>
    obtain ⟨hnone, hserves, harticle⟩ : _ ∧ _ ∧ _ := h.told l _ hl
    refine h.next hgrow hloads (fun l' hne => if_neg (Ne.symm hne)) ?_
    rw [answersOf_concat_query, hnone]
    exact ⟨rfl, hserves.suits hfits, harticle.mono hgrow⟩
  | @loaded _ l target answer ha hl =>
    obtain ⟨hone, hsuits, harticle⟩ : _ ∧ _ ∧ _ := h.told l _ hl
    refine h.next hgrow hloads (fun l' _ => ha l') ?_
    rw [answersOf_concat_of_none (ha l), hone]
    exact Ended.read hsuits (harticle.mono hgrow)
  | @article _ l id limit result ha hl hresult =>
    have hnone : answersOf l as = [] := h.told l _ hl
    refine h.next hgrow hloads (fun l' _ => ha l') ?_
    rw [answersOf_concat_of_none (ha l), hnone]
    exact loadTold_article (hgrow.callResult hresult)

/-- **Run.** The steps of a run tell of every load in its last state. The record grows with
the run, so the induction adds one step at the end and not at the beginning. -/
theorem recorded_run {now : ℕ} {store : Store}
    (hrun : (machine cfg).run as (initial now store) = some s) : Flights s ∧ Recorded as s := by
  refine StepMachine.run_history (P := fun as s => Flights s ∧ Recorded as s) _ ?_ ?_ hrun
  · refine ⟨flights_initial now store, fun _ _ => rfl, ?_⟩
    rintro l load ⟨⟩
  · rintro as s a t ⟨hf, h⟩ hstep
    exact ⟨(flights_step hf hstep).flights, recorded_step hf h hstep⟩

/-! ## What a call settles with -/

/-- The calls of `getTrendById` that a call has come down to. -/
def detailCalls (s : State) (c : CallId) : Target → List CallId
  | Target.detail _ => [c]
  | Target.related _ _ => (loadsOf c s.log).map CallId.inner
  | _ => []

/-- A load that the call has waited for was given the answer. -/
def Given (as : List Act) (s : State) (c : CallId) (answer : Option Answer) : Prop :=
  ∃ l ∈ loadsOf c s.log, answer ∈ answersOf l as

/-- The detail read that the call has depended on found no row. -/
def NoRow (as : List Act) (s : State) (c : CallId) (target : Target) : Prop :=
  ∃ d ∈ detailCalls s c target, Given as s d (some (Answer.trend none))

/-- A read that the call has depended on failed. -/
def ReadFailed (as : List Act) (s : State) (c : CallId) (target : Target) : Prop :=
  Given as s c none ∨ ∃ d ∈ detailCalls s c target, Given as s d none

/-- The article was read from the cache, and its embedding is not an array. -/
def NotArray (s : State) (c : CallId) (target : Target) : Prop :=
  ∃ d ∈ detailCalls s c target, ∃ cached,
    s.callResult d = some (Except.ok (Value.parsed cached)) ∧
    lacksEmbedding (Value.parsed cached) = false ∧
    vectorString (embedding (Value.parsed cached)) = none

/-- What a call for an article, or for those related to it, settles with. -/
inductive Outcome (as : List Act) (s : State) (c : CallId) (target : Target) (id : Binary64) :
    Result → Prop
  | fulfilled (hrow : ¬ NoRow as s c target) (v : Value) : Outcome as s c target id (Except.ok v)
  | missing (hrow : NoRow as s c target) :
      Outcome as s c target id (Except.error (Failure.http (notFound id)))
  | failed (hrow : ¬ NoRow as s c target) (hcause : ReadFailed as s c target ∨ NotArray s c target)
      (message : String) :
      Outcome as s c target id (Except.error (Failure.http (HttpError.internal message)))

theorem not_given_of_found {answer : Option Answer} (h : loadsOf c s.log = []) :
    ¬ Given as s c answer := by
  rintro ⟨l, hl, -⟩
  rw [h] at hl
  cases hl

/-- A call that has waited for one load, which had one answer, has been given that answer and
no other. -/
theorem given_iff {answer answer' : Option Answer} (hone : loadsOf c s.log = [l])
    (hanswer : answersOf l as = [answer]) : Given as s c answer' ↔ answer' = answer := by
  unfold Given
  rw [hone]
  simp only [List.mem_singleton, exists_eq_left, hanswer]

theorem noRow_detail {id : Binary64} :
    NoRow as s c (Target.detail id) ↔ Given as s c (some (Answer.trend none)) := by
  unfold NoRow detailCalls
  simp only [List.mem_singleton, exists_eq_left]

/-- The call for the article that a call for related articles has depended on is the inner
call of the one load that it has waited for, its own or another call's. -/
theorem detailCalls_related {id limit : Binary64} (hone : loadsOf c s.log = [l]) :
    detailCalls s c (Target.related id limit) =
      detailCalls s (CallId.inner l) (Target.detail id) := by
  unfold detailCalls
  rw [hone]
  rfl

theorem noRow_related {id limit : Binary64} (hone : loadsOf c s.log = [l]) :
    NoRow as s c (Target.related id limit) ↔ NoRow as s (CallId.inner l) (Target.detail id) := by
  unfold NoRow
  rw [detailCalls_related hone]

/-- A load of a function of its own gives its result when it has ended. -/
theorem result?_eq_some_iff {load : Load} {r : Result} (hown : cleansUpInCall load.target = false) :
    load.result? = some r ↔ load.phase = LoadPhase.finished r := by
  obtain ⟨target, phase⟩ := load
  have hown : cleansUpInCall target = false := hown
  cases phase with
  | finished r' =>
    show some r' = some r ↔ LoadPhase.finished r' = LoadPhase.finished r
    rw [Option.some.injEq, LoadPhase.finished.injEq]
  | answered answer => simp [Load.result?, hown]
  | article => simp [Load.result?]
  | querying query => simp [Load.result?]

/-- A call of a load of its own function settles with what it found, or with what the load has
ended with. Joining a load and starting one are the same here. -/
theorem settled_ended {result : Result} (hf : Flights s) (h : Recorded as s)
    (hown : cleansUpInCall target = false)
    (hc : s.calls c = some ⟨target, Phase.settled result⟩) :
    (loadsOf c s.log = [] ∧ ∃ cached, result = Except.ok (Value.parsed cached)) ∨
      ∃ l r, loadsOf c s.log = [l] ∧ s.loads l = some ⟨target, LoadPhase.finished r⟩ ∧
        Ended s l target (answersOf l as) r ∧ result = settles target r := by
  rcases (hf.calls c _ hc).told with ⟨cached, -, -, hnone, hresult⟩ |
      ⟨l, ⟨target', phase⟩, r, hone, hl, rfl, hr, hresult⟩
  · exact Or.inl ⟨hnone, cached, hresult⟩
  · have hphase : phase = LoadPhase.finished r := (result?_eq_some_iff hown).1 hr
    rw [hphase] at hl
    exact Or.inr ⟨l, r, hone, hl, h.told l _ hl, hresult⟩

/-- A call for an article: found in the cache, loaded, missing, or failed over its one read. -/
theorem detail_outcome {id : Binary64} {result : Result} (hf : Flights s) (h : Recorded as s)
    (hc : s.calls c = some ⟨Target.detail id, Phase.settled result⟩) :
    Outcome as s c (Target.detail id) id result := by
  rcases settled_ended hf h rfl hc with ⟨hnone, cached, rfl⟩ | ⟨l, r, hone, -, hended, rfl⟩
  · exact Outcome.fulfilled (noRow_detail.not.2 (not_given_of_found hnone)) _
  · generalize hanswers : answersOf l as = answers at hended
    cases hended with
    | @read _ answer hsuits _ =>
      have hgiven : ∀ answer', Given as s c answer' ↔ answer' = answer :=
        fun _ => given_iff hone hanswers
      have hrow : NoRow as s c (Target.detail id) ↔ some (Answer.trend none) = answer :=
        noRow_detail.trans (hgiven _)
      rcases answer with _ | (names | (_ | row) | data | n)
      · exact Outcome.failed (hrow.not.2 (by rintro ⟨⟩)) (Or.inl (Or.inl ((hgiven _).2 rfl))) _
      · cases hsuits rfl
      · exact Outcome.missing (hrow.2 rfl)
      · exact Outcome.fulfilled (hrow.not.2 (by rintro ⟨⟩)) _
      · cases hsuits rfl
      · cases hsuits rfl

/-- The value of an article, as JSON sees it. -/
def IsRow (v : Json) : Prop := ∃ row : TechTrend, v = row.toJson

/-- The embedding of a row is `null` or an array, so that `join` is there whenever the check
before it lets the article through. -/
theorem IsRow.vectorString_ne_none {article : Value} (h : IsRow article.toJson)
    (hlacks : lacksEmbedding article = false) : vectorString (embedding article) ≠ none := by
  obtain ⟨row, hjson⟩ := h
  have hembedding : embedding article = vectorJson row.embedding := by
    rw [embedding, hjson, TechTrend.field_embedding]
  unfold lacksEmbedding at hlacks
  rw [hembedding] at hlacks ⊢
  cases hrow : row.embedding with
  | none =>
    rw [hrow] at hlacks
    cases hlacks
  | some vector => rintro ⟨⟩

/-- An article that is not usable for a query did not come from the database: what the inner
call settled with was read from the cache. -/
theorem article_parsed {id : Binary64} {article : Value} (hf : Flights s) (h : Recorded as s)
    (hc : s.calls c = some ⟨Target.detail id, Phase.settled (Except.ok article)⟩)
    (hlacks : lacksEmbedding article = false) (hvector : vectorString (embedding article) = none) :
    ∃ cached, article = Value.parsed cached := by
  rcases settled_ended hf h rfl hc with ⟨-, cached, hresult⟩ | ⟨l, r, -, -, hended, hresult⟩
  · cases hresult
    exact ⟨cached, rfl⟩
  · generalize answersOf l as = answers at hended
    cases hended with
    | @read _ answer _ _ =>
      rcases answer with _ | (names | (_ | row) | data | n) <;> cases hresult
      exact absurd hvector (IsRow.vectorString_ne_none ⟨row, rfl⟩ hlacks)

/-- A call waits for a load of related articles, which waits for a call for the article. Its
own result is that of the load; and the load's, when the article decides it, is that of the
inner call, where `detail_outcome` goes on. -/
theorem related_outcome {id limit : Binary64} {result : Result} (hf : Flights s) (h : Recorded as s)
    (hc : s.calls c = some ⟨Target.related id limit, Phase.settled result⟩) :
    Outcome as s c (Target.related id limit) id result := by
  rcases settled_ended hf h rfl hc with ⟨hnone, cached, rfl⟩ | ⟨l, r, hone, hl, hended, rfl⟩
  · refine Outcome.fulfilled ?_ _
    rintro ⟨d, hd, -⟩
    rw [detailCalls, hnone] at hd
    cases hd
  · have hinner : ∀ r, s.callResult (CallId.inner l) = some r →
        s.calls (CallId.inner l) = some ⟨Target.detail id, Phase.settled r⟩ := by
      intro r hr
      obtain ⟨⟨target, phase⟩, hcall, rfl⟩ := callResult_eq_some hr
      have htarget : target = Target.detail id := hf.inner_target hl hcall
      rw [hcall, htarget]
    -- An article that is there was found.
    have hrow : ∀ article, s.callResult (CallId.inner l) = some (Except.ok article) →
        ¬ NoRow as s c (Target.related id limit) := by
      intro article hr
      rw [noRow_related hone]
      cases detail_outcome hf h (hinner _ hr) with
      | fulfilled hrow v => exact hrow
    generalize hanswers : answersOf l as = answers at hended
    -- the inner detail call settles first; its outcome decides whether the second query is
    -- made
    cases hended with
    | @read _ answer hsuits harticle =>
      obtain ⟨article, hr⟩ := harticle id limit rfl
      rcases answer with _ | (names | row | data | n)
      · exact Outcome.failed (hrow article hr) (Or.inl (Or.inl ((given_iff hone hanswers).2 rfl))) _
      · cases hsuits rfl
      · cases hsuits rfl
      · exact Outcome.fulfilled (hrow article hr) _
      · cases hsuits rfl
    -- no article: the error of the inner call is handed on as it is
    | @noArticle _ _ e hr =>
      have hmissing : NoRow as s c (Target.related id limit) ↔ _ := noRow_related hone
      cases detail_outcome hf h (hinner _ hr) with
      | missing hrow => exact Outcome.missing (hmissing.2 hrow)
      | failed hrow hcause message =>
        refine Outcome.failed (hmissing.not.2 hrow) ?_ message
        unfold ReadFailed NotArray at hcause ⊢
        rw [detailCalls_related hone]
        rcases hcause with (hgiven | hread) | hforeign
        · exact Or.inl (Or.inr ⟨CallId.inner l, List.mem_singleton_self _, hgiven⟩)
        · exact Or.inl (Or.inr hread)
        · exact Or.inr hforeign
    | noVector hr _ => exact Outcome.fulfilled (hrow _ hr) _
    | @notArray _ _ article hr hlacks hvector =>
      obtain ⟨cached, rfl⟩ := article_parsed hf h (hinner _ hr) hlacks hvector
      refine Outcome.failed (hrow _ hr) (Or.inr ?_) _
      unfold NotArray
      rw [detailCalls_related hone]
      exact ⟨CallId.inner l, List.mem_singleton_self _, cached, hr, hlacks, hvector⟩

/-! ## What a step does to a call and to the writes -/

/-- A call is as it was, is new, or has gone on. -/
inductive CallMove (s : State) (c : CallId) : Call → Prop
  | same {call : Call} (hc : s.calls c = some call) : CallMove s c call
  | opened (target : Target) : CallMove s c ⟨target, Phase.reading⟩
  | looks {target : Target} (hc : s.calls c = some ⟨target, Phase.reading⟩) (answered : Bool) :
      CallMove s c ⟨target, Phase.looked
        (if answered then TrendsCacheService.get s.now s.store target else Json.null)⟩
  | finds {target : Target} {cached : Json} (hc : s.calls c = some ⟨target, Phase.looked cached⟩)
      (husable : usable target cached = true) :
      CallMove s c ⟨target, Phase.settled (Except.ok (Value.parsed cached))⟩
  | waits {target : Target} {cached : Json} (hc : s.calls c = some ⟨target, Phase.looked cached⟩)
      (l : CallId) : CallMove s c ⟨target, Phase.waiting l⟩
  | ends {target : Target} {l : CallId} {load : Load} {result : Result}
      (hc : s.calls c = some ⟨target, Phase.waiting l⟩) (hl : s.loads l = some load)
      (hresult : load.result? = some result) :
      CallMove s c ⟨target, Phase.settled (settles target result)⟩

/-- What a step does to one call: it is new, has its lookup answered, finds, waits, or ends. -/
theorem calls_moves {call : Call} (hm : Moves cfg s a t) (hc : t.calls c = some call) :
    CallMove s c call := by
  -- a move writes one call; the others are as they were
  have hupdate : ∀ {calls : CallId → Option Call} {c' : CallId} {new : Call},
      Function.update calls c' (some new) c = some call →
        (c = c' → CallMove s c new) → (calls c = some call → CallMove s c call) →
          CallMove s c call := by
    intro calls c' new hcall hnew hold
    rcases update_eq_some hcall with ⟨hcc, hsome⟩ | ⟨-, hsome⟩
    · cases hsome
      exact hnew hcc
    · exact hold hsome
  cases hm with
  | request hcall hlist =>
    rename_i i r
    cases r <;> exact hupdate hc (fun _ => CallMove.opened _) fun hold => CallMove.same hold
  | lookup hc' =>
    exact hupdate hc (fun hcc => CallMove.looks (hcc ▸ hc') _) CallMove.same
  | found hc' husable =>
    exact hupdate hc (fun hcc => CallMove.finds (hcc ▸ hc') husable)
      fun hold => CallMove.same hold
  | joins hc' husable hload =>
    exact hupdate hc (fun hcc => CallMove.waits (hcc ▸ hc') _) fun hold => CallMove.same hold
  | @starts c' target cached hc' husable hload =>
    have hlead : (s.lead c' target).calls c = some call → CallMove s c call := by
      intro hcall
      rw [lead_calls] at hcall
      exact hupdate hcall (fun hcc => CallMove.waits (hcc ▸ hc') _) CallMove.same
    cases target with
    | related id limit => exact hupdate hc (fun _ => CallMove.opened _) hlead
    | _ => exact hlead hc
  | ends hc' hl hresult =>
    rw [afterLoad_calls] at hc
    exact hupdate hc (fun hcc => CallMove.ends (hcc ▸ hc') hl hresult) CallMove.same
  | loaded hl hown =>
    rw [finish_calls] at hc
    exact CallMove.same hc
  | article hl hresult =>
    rw [afterArticle_calls] at hc
    exact CallMove.same hc
  | _ => exact CallMove.same hc

/-- What a step writes is the value that a load has ended with, under the target of the load.
So an error is never written. -/
theorem writes_moves {w : Write} (hm : Moves cfg s a t) (hw : w ∈ t.writes) :
    w ∈ s.writes ∨ ∃ l value, t.loads l = some ⟨w.target, LoadPhase.finished (Except.ok value)⟩ ∧
      w.value = value.toJson := by
  have hfinish : ∀ {l : CallId} {target : Target} {result : Result},
      w ∈ (s.finish l target result).writes → w ∈ s.writes ∨ ∃ l' value,
        (s.finish l target result).loads l' =
          some ⟨w.target, LoadPhase.finished (Except.ok value)⟩ ∧ w.value = value.toJson := by
    intro l target result hw
    rcases finish_writes s l target result with hsame | ⟨value, rfl, hnew⟩
    · exact Or.inl (hsame ▸ hw)
    · rw [hnew, List.mem_append, List.mem_singleton] at hw
      refine hw.imp_right ?_
      rintro rfl
      exact ⟨l, value, by rw [finish_loads, Function.update_self], rfl⟩
  cases hm with
  | @request i r hcall hlist => cases r <;> exact Or.inl hw
  | @starts c target cached hc husable hload =>
    refine Or.inl ?_
    cases target <;> simpa [State.start] using hw
  | @ends c l target load result hc hl hresult =>
    unfold afterLoad at hw ⊢
    simp only at hw ⊢
    split at hw
    · rw [if_pos ‹_›]
      exact hfinish hw
    · exact Or.inl hw
  | loaded hl hown => exact hfinish hw
  | @article l id limit result hl hresult =>
    rcases afterArticle_cases s l id limit result with ⟨r, heq⟩ | ⟨query, heq⟩
    · rw [heq] at hw ⊢
      exact hfinish hw
    · rw [heq] at hw
      exact Or.inl hw
  | write hw' => exact Or.inl (List.mem_of_mem_eraseIdx hw)
  | _ => exact Or.inl hw

/-! ## A cache of the service's own -/

/-- The entry of an article is the text of a row. -/
def OwnEntries (store : Store) : Prop :=
  ∀ id entry, store (Target.detail id).cacheKey = some entry →
    ∃ v, IsRow v ∧ entry.value = RedisService.serialized v

/-- Other parties only take entries out of the cache. -/
def OnlyEvicts (as : List Act) : Prop := ∀ key entry, Act.outside key entry ∈ as → entry = none

/-- What the cache, the writes, the calls and the loads for articles hold are rows. -/
structure HoldsRows (s : State) : Prop where
  store : OwnEntries s.store
  writes : ∀ w ∈ s.writes, ∀ id, w.target = Target.detail id → IsRow w.value
  looked : ∀ c id cached, s.calls c = some ⟨Target.detail id, Phase.looked cached⟩ →
    cached = Json.null ∨ IsRow cached
  settled : ∀ c id v, s.calls c = some ⟨Target.detail id, Phase.settled (Except.ok v)⟩ →
    IsRow v.toJson
  loads : ∀ l id v, s.loads l = some ⟨Target.detail id, LoadPhase.finished (Except.ok v)⟩ →
    IsRow v.toJson

theorem IsRow.readable {v : Json} (h : IsRow v) : v.WellFormed ∧ ∀ text, v ≠ Json.str text := by
  obtain ⟨row, rfl⟩ := h
  exact ⟨row.toJson_wellFormed, by rintro text ⟨⟩⟩

/-- A lookup of an article reads nothing or a row: every entry under the key of an article is
the text of one, or it has expired. -/
theorem OwnEntries.get {store : Store} (h : OwnEntries store) (now : ℕ) (id : Binary64) :
    TrendsCacheService.get now store (Target.detail id) = Json.null ∨
      IsRow (TrendsCacheService.get now store (Target.detail id)) :=
  RedisService.getCache_of_entries (fun _ hv => hv.readable) (h id) now

theorem OwnEntries.evict {store : Store} (h : OwnEntries store) (key : String) :
    OwnEntries (Function.update store key none) := by
  intro id entry hentry
  rcases update_eq_some hentry with ⟨-, ⟨⟩⟩ | ⟨-, hold⟩
  exact h id entry hold

/-- A write of an article is one of a row, and the other writes have other keys. -/
theorem OwnEntries.set {store : Store} (h : OwnEntries store) (now : ℕ) {value : Json}
    (hvalue : ∀ id, target = Target.detail id → IsRow value) :
    OwnEntries (TrendsCacheService.set cfg now store target value) := by
  intro id entry hentry
  rcases TrendsCacheService.set_entry hentry with ⟨htarget, htext⟩ | hold
  · exact ⟨value, hvalue id htarget.symm, htext⟩
  · exact h id entry hold

/-- The loads for articles end with rows, as they end with what `findById` answers. -/
theorem HoldsRows.loads_step (hf : Flights s) (h : HoldsRows s) (hm : Moves cfg s a t) :
    ∀ l id v, t.loads l = some ⟨Target.detail id, LoadPhase.finished (Except.ok v)⟩ →
      IsRow v.toJson := by
  intro l id v hl
  have hmove := loads_moves hf hm
  generalize t.loads = loads at hmove hl
  cases hmove with
  | same ha => exact h.loads l id v hl
  | starts ha hc =>
    rcases update_eq_some hl with ⟨-, ⟨⟩⟩ | ⟨-, hold⟩
    exact h.loads l id v hold
  | query hl' hfits =>
    rcases update_eq_some hl with ⟨-, ⟨⟩⟩ | ⟨-, hold⟩
    exact h.loads l id v hold
  | @loaded _ _ target answer ha hl' =>
    rcases update_eq_some hl with ⟨-, hnew⟩ | ⟨-, hold⟩
    · obtain ⟨rfl, hfinished⟩ := Load.mk.inj (Option.some.inj hnew)
      have hok : loaded (Target.detail id) answer = Except.ok v := LoadPhase.finished.inj hfinished
      -- Only a row makes the load end with a value.
      rcases answer with _ | (names | (_ | row) | data | n) <;> cases hok
      exact ⟨row, rfl⟩
    · exact h.loads l id v hold
  | article ha hl' hresult =>
    rcases update_eq_some hl with ⟨-, hnew⟩ | ⟨-, hold⟩
    · cases (Load.mk.inj (Option.some.inj hnew)).1
    · exact h.loads l id v hold

/-- The store keeps to rows under the keys of articles, when other parties only take entries
out. -/
theorem HoldsRows.store_step (h : HoldsRows s) (hevict : OnlyEvicts [a]) (hm : Moves cfg s a t) :
    OwnEntries t.store := by
  rcases store_moves hm with hsame | ⟨n, carriedOut, w, -, hw, hset⟩ | ⟨key, entry, rfl, hset⟩
  · rw [hsame]
    exact h.store
  · rw [hset]
    cases carriedOut with
    | false => exact h.store
    | true => exact h.store.set s.now (h.writes w (List.mem_of_getElem? hw))
  · rw [hset, hevict key entry (List.mem_singleton_self _)]
    exact h.store.evict key

/-- A call for an article settles with a row that it has found or that was loaded. -/
theorem HoldsRows.settled_step (hf : Flights s) (h : HoldsRows s) (hm : Moves cfg s a t) :
    ∀ c id v, t.calls c = some ⟨Target.detail id, Phase.settled (Except.ok v)⟩ →
      IsRow v.toJson := by
  intro c id v hc
  generalize hcall : (⟨Target.detail id, Phase.settled (Except.ok v)⟩ : Call) = call at hc
  cases calls_moves hm hc with
  | same hbefore =>
    rw [← hcall] at hbefore
    exact h.settled c id v hbefore
  | finds hbefore husable =>
    cases hcall
    rcases h.looked c id _ hbefore with rfl | hrow
    · cases husable
    · exact hrow
  | @ends _ l load result hbefore hl hresult =>
    obtain ⟨rfl, hsettled⟩ := Call.mk.inj hcall
    have hload : load.target = Target.detail id := hf.waits_target hbefore hl
    have hphase := (result?_eq_some_iff (hload ▸ rfl)).1 hresult
    cases result with
    | error e => cases hsettled
    | ok v' =>
      cases hsettled
      exact h.loads l id v (by rw [hl, ← hload, ← hphase])
  | _ => cases hcall

/-- **Step.** The cache, the writes, the calls and the loads for articles keep to rows. -/
theorem holdsRows_step (hf : Flights s) (h : HoldsRows s) (hevict : OnlyEvicts [a])
    (hstep : step cfg s a = some t) : HoldsRows t := by
  have hm := step_moves hstep
  have hloads := h.loads_step hf hm
  refine ⟨h.store_step hevict hm, ?_, ?_, h.settled_step hf hm, hloads⟩
  · intro w hw id htarget
    rcases writes_moves hm hw with hold | ⟨l, value, hl, hvalue⟩
    · exact h.writes w hold id htarget
    · rw [htarget] at hl
      rw [hvalue]
      exact hloads l id value hl
  · intro c id cached hc
    cases calls_moves hm hc with
    | same hc => exact h.looked c id cached hc
    | looks hc answered =>
      cases answered with
      | true => exact h.store.get s.now id
      | false => exact Or.inl rfl

/-- **Run.** They hold rows all along, from a store that does, when other parties write
nothing. -/
theorem holdsRows_run {now : ℕ} {store : Store} (hstore : OwnEntries store) (hevict : OnlyEvicts as)
    (hrun : (machine cfg).run as (initial now store) = some s) : HoldsRows s := by
  have hkeeps : (machine cfg).KeepsIf (fun _ a => OnlyEvicts [a])
      fun s => Flights s ∧ HoldsRows s := by
    rintro s a t ⟨hf, h⟩ hok hstep
    exact ⟨(flights_step hf hstep).flights, holdsRows_step hf h hok hstep⟩
  have hmeets : (machine cfg).Meets (fun _ a => OnlyEvicts [a]) as (initial now store) := by
    refine StepMachine.Meets.of_labels _ fun a ha _ key entry hmem => ?_
    rw [← List.mem_singleton.1 hmem] at ha
    exact hevict key entry ha
  have hinit : HoldsRows (initial now store) := by
    refine ⟨hstore, ?_, ?_, ?_, ?_⟩
    · rintro w ⟨⟩
    · rintro c id cached ⟨⟩
    · rintro c id v ⟨⟩
    · rintro l id v ⟨⟩
  exact (StepMachine.KeepsIf.run _ hkeeps ⟨flights_initial now store, hinit⟩ hmeets hrun).2

/-- The loads that a call has waited for are loads for its target, whoever started them. -/
theorem Flights.loadsOf_target (hf : Flights s) {call : Call} (hc : s.calls c = some call)
    (hl : l ∈ loadsOf c s.log) : ∃ load, s.loads l = some load ∧ load.target = call.target := by
  obtain ⟨target, phase⟩ := call
  have htold := (hf.calls c _ hc).told
  unfold Told at htold
  cases phase with
  | reading =>
    rw [htold] at hl
    cases hl
  | looked cached =>
    rw [htold] at hl
    cases hl
  | waiting l' =>
    rw [htold, List.mem_singleton] at hl
    rw [hl]
    exact (hf.calls c _ hc).waits l' rfl
  | settled result =>
    rcases htold with ⟨-, -, -, hnone, -⟩ | ⟨l', load, -, hone, hload, htarget, -⟩
    · rw [hnone] at hl
      cases hl
    · rw [hone, List.mem_singleton] at hl
      rw [hl]
      exact ⟨load, hload, htarget⟩

/-- The calls for an article that a call has depended on are what they say. -/
theorem Flights.detailCalls_target (hf : Flights s) {phase : Phase} {d : CallId} {result : Result}
    (hc : s.calls c = some ⟨target, phase⟩) (hd : d ∈ detailCalls s c target)
    (hresult : s.callResult d = some result) :
    ∃ id, s.calls d = some ⟨Target.detail id, Phase.settled result⟩ := by
  obtain ⟨⟨target', phase'⟩, hcall, rfl⟩ := callResult_eq_some hresult
  cases target with
  | detail id =>
    rw [detailCalls, List.mem_singleton] at hd
    rw [hd, hc] at hcall
    cases hcall
    exact ⟨id, hd ▸ hc⟩
  | related id limit =>
    obtain ⟨l, hl, rfl⟩ := List.mem_map.1 hd
    obtain ⟨⟨target'', phase''⟩, hload, rfl⟩ := hf.loadsOf_target hc hl
    have htarget : target' = Target.detail id := hf.inner_target hload hcall
    exact ⟨id, htarget ▸ hcall⟩
  | sources => cases hd
  | listCount source isNew => cases hd

/-- An article that is a row has a vector for the query, or none, so nothing fails over its
embedding. -/
theorem HoldsRows.not_notArray (h : HoldsRows s) (hf : Flights s) {phase : Phase}
    (hc : s.calls c = some ⟨target, phase⟩) : ¬ NotArray s c target := by
  rintro ⟨d, hd, cached, hresult, hlacks, hvector⟩
  obtain ⟨id, hcall⟩ := hf.detailCalls_target hc hd hresult
  exact (h.settled d id _ hcall).vectorString_ne_none hlacks hvector

/-! ## Calls after a load has ended -/

theorem Grows.done {load load' : Load} (hgrow : Grows s t)
    (hown : cleansUpInCall load.target = false) (hl : s.loads l = some load)
    (hl' : t.loads l = some load') (hdone : load.done) : load'.target = load.target ∧ load'.done := by
  obtain ⟨r, hr⟩ := hdone
  obtain ⟨load'', hl'', htarget, hresult⟩ := hgrow.loads l load hl
  rw [hl'] at hl''
  cases hl''
  exact ⟨htarget, r, (result?_eq_some_iff (htarget ▸ hown)).1
    (hresult r ((result?_eq_some_iff hown).2 hr))⟩

/-- A call that comes to wait for a load waits for one that has not ended: it is in its map,
or it is the call's own and just started. -/
theorem loadsOf_moves (hf : Flights s) (hm : Moves cfg s a t) (hl : l ∈ loadsOf c t.log) :
    l ∈ loadsOf c s.log ∨ ∃ load, t.loads l = some load ∧ ¬ load.done := by
  have hnote : ∀ {c' l' : CallId}, l ∈ loadsOf c (s.log ++ [Event.waits c' l']) →
      l ∈ loadsOf c s.log ∨ l = l' := by
    intro c' l' hmem
    by_cases hcc : c' = c
    · rw [hcc, loadsOf_waits_self, List.mem_append, List.mem_singleton] at hmem
      exact hmem
    · rw [loadsOf_waits_ne hcc] at hmem
      exact Or.inl hmem
  cases hm with
  | @request i r hcall hlist => cases r <;> exact Or.inl hl
  | found hc husable => exact Or.inl (by rwa [setCall_log, note_log, loadsOf_found] at hl)
  | @joins c' load target cached hc husable hload =>
    refine (hnote hl).imp_right ?_
    rintro rfl
    obtain ⟨key, -, hentry⟩ := Option.bind_eq_some_iff.1 hload
    obtain ⟨load, hload, -, hdone⟩ := open_iff.1 ((hf.tracks key _).1 hentry)
    exact ⟨load, hload, hdone⟩
  -- a load that has just started is not done
  | @starts c' target cached hc husable hload =>
    have hlog : (s.start c' target).log = s.log ++ [Event.waits c' c'] := by
      cases target <;> exact lead_log ..
    have hloads : (s.start c' target).loads =
        Function.update s.loads c' (some ⟨target, firstPhase target⟩) := by
      cases target <;> exact lead_loads ..
    rw [hlog] at hl
    refine (hnote hl).imp_right ?_
    rintro rfl
    refine ⟨_, by rw [hloads, Function.update_self], ?_⟩
    rintro ⟨r, hr⟩
    cases target <;> cases hr
  -- what is left notes no load
  | ends hc hl' hresult =>
    refine Or.inl ?_
    unfold afterLoad at hl
    simp only [setCall_log] at hl
    split at hl
    · rwa [finish_log] at hl
    · exact hl
  | loaded hl' hown => exact Or.inl (by rwa [finish_log] at hl)
  | @article l' id limit result hl' hresult =>
    refine Or.inl ?_
    rcases afterArticle_cases s l' id limit result with ⟨r, heq⟩ | ⟨query, heq⟩
    · rwa [heq, finish_log] at hl
    · rwa [heq, setLoad_log] at hl
  | _ => exact Or.inl hl

/-- The loads for the target have ended. -/
def AllDone (s : State) (target : Target) : Prop :=
  ∀ l load, s.loads l = some load → load.target = target → load.done

/-- A step touches one load at most, since a continuation runs for one call or one load. -/
theorem LoadsMove.frame {loads : CallId → Option Load} (h : LoadsMove s a loads) :
    ∃ l, ∀ l', l' ≠ l → loads l' = s.loads l' := by
  cases h with
  | same ha => exact ⟨CallId.request 0, fun _ _ => rfl⟩
  | @starts _ c target ha hc => exact ⟨c, fun _ hne => Function.update_of_ne hne ..⟩
  | @query l target query answer hl hfits => exact ⟨l, fun _ hne => Function.update_of_ne hne ..⟩
  | @loaded _ l target answer ha hl => exact ⟨l, fun _ hne => Function.update_of_ne hne ..⟩
  | @article _ l id limit result ha hl hresult =>
    exact ⟨l, fun _ hne => Function.update_of_ne hne ..⟩

/-- When a load ends there is no other one for its target: the map has had this one under the
key, and two open loads would both be there. -/
theorem allDone_of_ends {before after : Load} (hf : Flights s) (hstep : step cfg s a = some t)
    (hl : s.loads l = some before) (hbefore : ¬ before.done) (hl' : t.loads l = some after)
    (hafter : after.done) (hown : cleansUpInCall after.target = false) :
    AllDone t after.target := by
  obtain ⟨key, hkey⟩ : ∃ key, loadKey after.target = some key := by
    generalize after.target = target at hown
    cases target with
    | sources => cases hown
    | detail id => exact ⟨_, rfl⟩
    | related id limit => exact ⟨_, rfl⟩
    | listCount source isNew => cases hown
  obtain ⟨moved, hframe⟩ := (loads_moves hf (step_moves hstep)).frame
  have hmoved : l = moved := by
    by_contra hne
    rw [hframe l hne, hl] at hl'
    cases hl'
    exact hbefore hafter
  have htarget : before.target = after.target := by
    obtain ⟨load, hload, htarget, -⟩ := (flights_step hf hstep).grows.loads l before hl
    rw [hl'] at hload
    cases hload
    exact htarget.symm
  intro l' load' hload' htarget'
  by_cases hne : l' = l
  · rw [hne, hl'] at hload'
    cases hload'
    exact hafter
  · -- It was there before the step, when `l` had the only entry of the key.
    by_contra hnot
    rw [hframe l' (hmoved ▸ hne)] at hload'
    have hopen : Open s key l := ⟨before, hl, htarget ▸ hkey, hbefore⟩
    have hopen' : Open s key l' := ⟨load', hload', htarget' ▸ hkey, hnot⟩
    exact hne (hf.tracks.unique (open_iff.2 hopen') (open_iff.2 hopen))

/-- The calls that have begun since `s` wait for loads that have started since `s`. -/
def WaitsAnew (s t : State) (target : Target) : Prop :=
  ∀ c l load, s.calls c = none → l ∈ loadsOf c t.log → t.loads l = some load →
    load.target = target → s.loads l = none

/-- **Step.** Calls that are new since then wait for loads that are new since then. -/
theorem waitsAnew_step {u : State} (hown : cleansUpInCall target = false) (hdone : AllDone s target)
    (hf : Flights t) (hgrow : Grows s t) (h : WaitsAnew s t target) (hstep : step cfg t a = some u) :
    WaitsAnew s u target := by
  have hkept := flights_step hf hstep
  intro c l load hnew hl hload htarget
  rcases loadsOf_moves hf (step_moves hstep) hl with hold | ⟨load', hload', hnot⟩
  · obtain ⟨call, hc⟩ : ∃ call, t.calls c = some call := by
      rw [← Option.ne_none_iff_exists']
      intro hnone
      rw [hf.fresh c hnone] at hold
      cases hold
    obtain ⟨before, hbefore, -⟩ := hf.loadsOf_target hc hold
    obtain ⟨after, hafter, hsame, -⟩ := hkept.grows.loads l before hbefore
    rw [hload] at hafter
    cases hafter
    exact h c l before hnew hold hbefore (hsame ▸ htarget)
  · -- The load has not ended, and those that were there in `s` have.
    rw [hload] at hload'
    cases hload'
    rw [Option.eq_none_iff_forall_ne_some]
    intro before hbefore
    obtain ⟨after, hafter, hsame, -⟩ := (hgrow.trans hkept.grows).loads l before hbefore
    rw [hload] at hafter
    cases hafter
    have htarget' : before.target = target := hsame.symm.trans htarget
    exact hnot ((hgrow.trans hkept.grows).done (htarget' ▸ hown) hbefore hload
      (hdone l before hbefore htarget')).2

/-- **Run.** So a call that begins when all loads of its target have ended is not told of
their results, and a failure is not remembered. -/
theorem waitsAnew_run (hown : cleansUpInCall target = false) (hf : Flights s)
    (hdone : AllDone s target) (hrun : (machine cfg).run as s = some t) : WaitsAnew s t target := by
  have hkeeps : (machine cfg).Keeps fun t => Flights t ∧ Grows s t ∧ WaitsAnew s t target := by
    rintro t a u ⟨hf, hgrow, h⟩ hstep
    have hkept := flights_step hf hstep
    exact ⟨hkept.flights, hgrow.trans hkept.grows, waitsAnew_step hown hdone hf hgrow h hstep⟩
  refine (StepMachine.Keeps.run _ hkeeps ⟨hf, Grows.refl s, ?_⟩ hrun).2.2
  intro c l load hnew hl
  rw [hf.fresh c hnew] at hl
  cases hl

/-! ## Uniform errors -/

/-- The article that a call is about. -/
def articleId : Target → Option Binary64
  | Target.detail id => some id
  | Target.related id _ => some id
  | _ => none

/-- The run `as` from `initial now store` to `s`. -/
structure UniformErrors (cfg : TrendsCacheConfig) (now : ℕ) (store : Store) (as : List Act)
    (s : State) : Prop where
  /-- A call settles with the `NotFoundException` of its article exactly when the
  detail read that it has depended on found no row. -/
  notFound : ∀ c call id result, s.calls c = some call → articleId call.target = some id →
    call.phase = Phase.settled result →
      (result = Except.error (Failure.http (notFound id)) ↔ NoRow as s c call.target)
  /-- Otherwise it fails with an `InternalServerErrorException`. -/
  internal : ∀ c call id failure, s.calls c = some call → articleId call.target = some id →
    call.phase = Phase.settled (Except.error failure) → ¬ NoRow as s c call.target →
      ∃ message, failure = Failure.http (HttpError.internal message)
  /-- It fails over a read of the database that found no row or failed, or over what
  somebody else has put into the cache. -/
  cause : ∀ c call id failure, s.calls c = some call → articleId call.target = some id →
    call.phase = Phase.settled (Except.error failure) →
      NoRow as s c call.target ∨ ReadFailed as s c call.target ∨
        (NotArray s c call.target ∧ ¬ (OwnEntries store ∧ OnlyEvicts as))
  /-- After a load has ended, a call that begins and misses the cache waits for a load
  that has started since, and that has all its answers since. -/
  anew : ∀ pre a post s₀ s₁ l before after, as = pre ++ a :: post →
    (machine cfg).run pre (initial now store) = some s₀ → step cfg s₀ a = some s₁ →
    s₀.loads l = some before → ¬ before.done → s₁.loads l = some after → after.done →
    articleId after.target ≠ none →
      ∀ c call, s₁.calls c = none → s.calls c = some call → call.target = after.target →
        ∀ l' ∈ loadsOf c s.log, s₁.loads l' = none ∧ answersOf l' as = answersOf l' post

/-- The outcome of a call for an article or for those related to it. -/
theorem outcome {id : Binary64} {call : Call} {result : Result} (hf : Flights s) (h : Recorded as s)
    (hc : s.calls c = some call) (hid : articleId call.target = some id)
    (hphase : call.phase = Phase.settled result) : Outcome as s c call.target id result := by
  obtain ⟨target, phase⟩ := call
  cases hphase
  cases target with
  | sources => cases hid
  | detail id' =>
    cases hid
    exact detail_outcome hf h hc
  | related id' limit =>
    cases hid
    exact related_outcome hf h hc
  | listCount source isNew => cases hid

/-- The families of articles and of related articles have a load function of their own,
`loadDetail` and `loadRelated`. -/
theorem cleansUpInCall_of_articleId (h : articleId target ≠ none) : cleansUpInCall target = false := by
  cases target with
  | sources => exact absurd rfl h
  | detail id => rfl
  | related id limit => rfl
  | listCount source isNew => exact absurd rfl h

/-- **Uniform errors.** In every run, with the cache failing and the database
answering as they may, a call for an article or those related to it fails as the reads
that it has depended on tell, whether it has started the load, joined it, or is that
of another load; and no load is remembered after its end. -/
theorem trendsQuery_uniformErrors (cfg : TrendsCacheConfig) (now : ℕ) (store : Store)
    (as : List Act) (s : State) (hrun : (machine cfg).run as (initial now store) = some s) :
    UniformErrors cfg now store as s := by
  obtain ⟨hf, h⟩ := recorded_run hrun
  refine ⟨?_, ?_, ?_, ?_⟩
  · -- each clause reads the outcome of the one call it is about; the last one is about the
    -- run
    intro c call id result hc hid hphase
    cases outcome hf h hc hid hphase with
    | fulfilled hrow v => exact ⟨by rintro ⟨⟩, fun hrow' => absurd hrow' hrow⟩
    | missing hrow => exact ⟨fun _ => hrow, fun _ => rfl⟩
    | failed hrow hcause message => exact ⟨by rintro ⟨⟩, fun hrow' => absurd hrow' hrow⟩
  · intro c call id failure hc hid hphase hrow
    cases outcome hf h hc hid hphase with
    | missing hrow' => exact absurd hrow' hrow
    | failed hrow' hcause message => exact ⟨message, rfl⟩
  · intro c call id failure hc hid hphase
    cases outcome hf h hc hid hphase with
    | missing hrow => exact Or.inl hrow
    | failed hrow hcause message =>
      refine Or.inr (hcause.imp_right fun hnot => ⟨hnot, ?_⟩)
      rintro ⟨hstore, hevict⟩
      exact (holdsRows_run hstore hevict hrun).not_notArray hf hc hnot
  · intro pre a post s₀ s₁ l before after has hpre hstep hl hbefore hl' hafter hid c call hnew hc
      htarget l' hwaits
    have hown := cleansUpInCall_of_articleId hid
    have hrun₁ : (machine cfg).run (pre ++ [a]) (initial now store) = some s₁ :=
      (StepMachine.run_append_eq_some _).2 ⟨s₀, hpre,
        (StepMachine.run_cons_eq_some _).2 ⟨s₁, hstep, rfl⟩⟩
    obtain ⟨hf₁, h₁⟩ := recorded_run hrun₁
    have hsplit : as = (pre ++ [a]) ++ post := by rw [has, List.append_assoc, List.singleton_append]
    have hpost : (machine cfg).run post s₁ = some s := by
      rw [hsplit, StepMachine.run_append, hrun₁, Option.bind_some] at hrun
      exact hrun
    -- The end of the load leaves none for the target, and later calls find later ones.
    have hdone := allDone_of_ends (recorded_run hpre).1 hstep hl hbefore hl' hafter hown
    obtain ⟨load, hload, hsame⟩ := hf.loadsOf_target hc hwaits
    have hnone := waitsAnew_run hown hf₁ hdone hpost c l' load hnew hwaits hload (hsame.trans htarget)
    refine ⟨hnone, ?_⟩
    rw [hsplit, answersOf_append, h₁.fresh l' hnone, List.nil_append]

/-- A call for an article joins the load that a load of related articles has made its
own call for; there is no row. A later call reads again, and the database fails. -/
def missingThenFails : List Act :=
  let id := Binary64.ofInt 1
  let related := CallId.request 0
  let article := CallId.inner related
  [Act.request 0 (Request.getRelatedTrends id (Binary64.ofInt 5)), Act.lookup related false,
    Act.resumeCall related, Act.lookup article true, Act.resumeCall article,
    Act.request 1 (Request.getTrendById id), Act.lookup (CallId.request 1) true,
    Act.resumeCall (CallId.request 1), Act.query article (some (Answer.trend none)),
    Act.resumeLoad article, Act.resumeCall (CallId.request 1), Act.resumeCall article,
    Act.resumeLoad related, Act.resumeCall related, Act.request 2 (Request.getTrendById id),
    Act.lookup (CallId.request 2) true, Act.resumeCall (CallId.request 2),
    Act.query (CallId.request 2) none, Act.resumeLoad (CallId.request 2),
    Act.resumeCall (CallId.request 2)]

/-- The first two requests, for the articles related to one and for the article itself, share
a load that finds no row, and both are told that the article is not there. -/
theorem trendsQuery_uniformErrors_missingThenFails :
    ∃ s, (machine testConfig).run missingThenFails (initial 0 fun _ => none) = some s ∧
      UniformErrors testConfig 0 (fun _ => none) missingThenFails s ∧
      s.callResult (CallId.request 0) =
        some (Except.error (Failure.http (notFound (Binary64.ofInt 1)))) ∧
      s.callResult (CallId.request 1) =
        some (Except.error (Failure.http (notFound (Binary64.ofInt 1)))) :=
  ⟨_, rfl, trendsQuery_uniformErrors testConfig 0 (fun _ => none) missingThenFails _ rfl, rfl, rfl⟩

end TrendsQuery

end TechTrends
