/-
Progress of `TrendsQueryService`: nobody who calls it waits for the service itself.

A call that misses the cache waits for a load, and a load of related articles waits for
a call, the one that `loadRelated` makes for the article. It ends there: the inner call is
for an article, and the load of an article makes no call. So whatever state a run has
reached, and however the cache and the database answer from then on, a fixed number of
their answers and of continuations is enough to settle any call, and to give any list its
response. None of these steps is a new request, and none is a write to the cache, which
nobody waits for.
-/
import TechTrends.TrendsQueryLoads

set_option autoImplicit false

namespace TechTrends

namespace TrendsQuery

variable {cfg : TrendsCacheConfig} {s t : State} {a : Act} {c l : CallId} {target : Target}

/-! ## The inner calls -/

/-- Whoever waits for an inner call has made it. `loadRelated` calls `getTrendById` before
it waits for anything, `listTrends` calls `getListCount` together with its own read, and no
other load begins with a call. -/
structure Attended (s : State) : Prop extends Flights s where
  ofLoad : ∀ l load id limit, s.loads l = some load → load.target = Target.related id limit →
    ∃ call, s.calls (CallId.inner l) = some call
  ofList : ∀ i list, s.lists i = some list →
    ∃ call, s.calls (CallId.inner (CallId.request i)) = some call
  forArticle : ∀ l load, s.loads l = some load → load.phase = LoadPhase.article →
    ∃ id limit, load.target = Target.related id limit

/-- What a step does to a load: an old one goes on for its target, and does not go back to
the article; a new one has its inner call. -/
theorem loads_of_moves (h : Flights s) (hm : Moves cfg s a t) {load : Load}
    (hl : t.loads l = some load) :
    (∃ old, s.loads l = some old ∧ old.target = load.target ∧
        (load.phase = LoadPhase.article → old.phase = LoadPhase.article)) ∨
      load.phase = firstPhase load.target ∧
        ∀ id limit, load.target = Target.related id limit →
          ∃ call, t.calls (CallId.inner l) = some call := by
  have hsame : s.loads l = some load →
      ∃ old, s.loads l = some old ∧ old.target = load.target ∧
        (load.phase = LoadPhase.article → old.phase = LoadPhase.article) :=
    fun hold => ⟨load, hold, rfl, fun hphase => hphase⟩
  cases hm with
  | @request i r hcall hlist => cases r <;> exact Or.inl (hsame hl)
  | lookup hc => exact Or.inl (hsame hl)
  | found hc husable => exact Or.inl (hsame hl)
  | joins hc husable hload => exact Or.inl (hsame hl)
  -- the call opens a load of its own, in its first phase
  | @starts c target cached hc husable hload =>
    have hl' : (s.lead c target).loads l = some load := by
      cases target <;> exact hl
    rw [lead_loads] at hl'
    rcases update_eq_some hl' with ⟨rfl, hnew⟩ | ⟨-, hold⟩
    · cases hnew
      refine Or.inr ⟨rfl, ?_⟩
      rintro id limit rfl
      exact ⟨_, Function.update_self _ _ _⟩
    · exact Or.inl (hsame hold)
  | ends hc hload hresult =>
    unfold afterLoad at hl
    split at hl
    · -- the call cleans up after its own load
      rename_i hown
      rw [setCall_loads, finish_loads] at hl
      rcases update_eq_some hl with ⟨rfl, hnew⟩ | ⟨-, hold⟩
      · cases hnew
        obtain ⟨-, rfl⟩ := hown
        exact Or.inl ⟨_, hload, h.waits_target hc hload, by rintro ⟨⟩⟩
      · exact Or.inl (hsame hold)
    · exact Or.inl (hsame hl)
  -- the other moves that touch a load end it or take it to its next phase
  | query hload hfits =>
    rw [setLoad_loads] at hl
    rcases update_eq_some hl with ⟨rfl, hnew⟩ | ⟨-, hold⟩
    · cases hnew
      exact Or.inl ⟨_, hload, rfl, by rintro ⟨⟩⟩
    · exact Or.inl (hsame hold)
  | loaded hload hown =>
    rw [finish_loads] at hl
    rcases update_eq_some hl with ⟨rfl, hnew⟩ | ⟨-, hold⟩
    · cases hnew
      exact Or.inl ⟨_, hload, rfl, by rintro ⟨⟩⟩
    · exact Or.inl (hsame hold)
  | @article l' id limit result hload hresult =>
    rcases afterArticle_cases s l' id limit result with ⟨r, heq⟩ | ⟨query, heq⟩
    · rw [heq, finish_loads] at hl
      rcases update_eq_some hl with ⟨rfl, hnew⟩ | ⟨-, hold⟩
      · cases hnew
        exact Or.inl ⟨_, hload, rfl, by rintro ⟨⟩⟩
      · exact Or.inl (hsame hold)
    · rw [heq, setLoad_loads] at hl
      rcases update_eq_some hl with ⟨rfl, hnew⟩ | ⟨-, hold⟩
      · cases hnew
        exact Or.inl ⟨_, hload, rfl, by rintro ⟨⟩⟩
      · exact Or.inl (hsame hold)
  -- from here on no move touches the loads
  | rows hlist => exact Or.inl (hsame hl)
  | list hlist hall => exact Or.inl (hsame hl)
  | write hw => exact Or.inl (hsame hl)
  | outside => exact Or.inl (hsame hl)
  | tick => exact Or.inl (hsame hl)

/-- **Step.** Every step keeps it that a load has its inner call and a list its call for the
count, and that only a load of related articles waits for an article. -/
theorem attended_step (h : Attended s) (hstep : step cfg s a = some t) : Attended t := by
  have hm := step_moves hstep
  have hkept := flights_step h.toFlights hstep
  have hcalls : ∀ c, (∃ call, s.calls c = some call) → ∃ call, t.calls c = some call := by
    rintro c ⟨call, hc⟩
    obtain ⟨call', hc', -⟩ := hkept.grows.calls c call hc
    exact ⟨call', hc'⟩
  refine { toFlights := hkept.flights, ofLoad := ?_, ofList := ?_, forArticle := ?_ }
  · intro l load id limit hl htarget
    rcases loads_of_moves h.toFlights hm hl with ⟨old, hold, hsame, -⟩ | ⟨-, hnew⟩
    · exact hcalls _ (h.ofLoad l old id limit hold (hsame.trans htarget))
    · exact hnew id limit htarget
  · intro i list hi
    rcases lists_of_moves hm hi with hold | ⟨-, hnew⟩ | ⟨list', hold, -⟩ | ⟨list', -, hold, -⟩
    · exact hcalls _ (h.ofList i list hold)
    · exact hnew
    · exact hcalls _ (h.ofList i list' hold)
    · exact hcalls _ (h.ofList i list' hold)
  · intro l load hl hphase
    rcases loads_of_moves h.toFlights hm hl with ⟨old, hold, hsame, hback⟩ | ⟨hfirst, -⟩
    · obtain ⟨id, limit, htarget⟩ := h.forArticle l old hold (hback hphase)
      exact ⟨id, limit, hsame.symm.trans htarget⟩
    · -- of the first phases only that of related articles is the article
      rw [hphase] at hfirst
      cases htarget : load.target with
      | related id limit => exact ⟨id, limit, rfl⟩
      | _ =>
        rw [htarget] at hfirst
        cases hfirst

theorem attended_initial (now : ℕ) (store : Store) : Attended (initial now store) := by
  refine { toFlights := flights_initial now store, ofLoad := ?_, ofList := ?_, forArticle := ?_ }
  · rintro l load id limit ⟨⟩
  · rintro i list ⟨⟩
  · rintro l load ⟨⟩

/-- **Run.** It is so in every state, and what has settled on the way stays settled. -/
theorem attended_run (h : Attended s) {as : List Act} (hrun : (machine cfg).run as s = some t) :
    Attended t ∧ Grows s t := by
  refine StepMachine.Keeps.run (machine cfg) (P := fun u => Attended u ∧ Grows s u) ?_
    ⟨h, Grows.refl s⟩ hrun
  rintro u a v ⟨hu, hgrow⟩ hstep
  exact ⟨attended_step hu hstep, hgrow.trans (flights_step hu.toFlights hstep).grows⟩

/-- A call that waits for a load goes on waiting for this one until it settles. -/
theorem waits_or_settled (h : Flights s) (ht : Flights t) (hgrow : Grows s t)
    (hc : s.calls c = some ⟨target, Phase.waiting l⟩) :
    t.calls c = some ⟨target, Phase.waiting l⟩ ∨ ∃ r, t.callResult c = some r := by
  obtain ⟨⟨target', phase⟩, hc', htarget, -⟩ := hgrow.calls c _ hc
  obtain rfl : target' = target := htarget
  have hone : loadsOf c s.log = [l] := (h.calls c _ hc).told
  have hlog : [l] <+: loadsOf c t.log := by
    rw [← hone]
    exact hgrow.log.filterMap _
  have htold := (ht.calls c _ hc').told
  cases phase with
  | reading =>
    rw [show loadsOf c t.log = [] from htold] at hlog
    exact absurd hlog.length_le (by simp)
  | looked cached =>
    rw [show loadsOf c t.log = [] from htold] at hlog
    exact absurd hlog.length_le (by simp)
  | waiting l' =>
    rw [show loadsOf c t.log = [l'] from htold] at hlog
    obtain rfl : l = l' := by simpa using hlog.subset (List.mem_singleton_self l)
    exact Or.inl hc'
  | settled r =>
    refine Or.inr ⟨r, ?_⟩
    rw [State.callResult, hc']
    rfl

/-! ## Steps that answer and go on -/

/-- What the service waits for: whether the cache answers, and what the database answers,
`none` for an error. -/
structure Answers where
  cacheUp : Bool
  answer : Query → Option Answer
  fits : ∀ query, (answer query).all (Answer.fits query) = true
  rows : ListTrendsQuery → Option (List Json)

/-- One of these answers, or a continuation. -/
def Served (given : Answers) (s : State) : Act → Prop
  | Act.lookup _ answered => answered = given.cacheUp
  | Act.query l answer => ∀ target query, s.loads l = some ⟨target, LoadPhase.querying query⟩ →
      answer = given.answer query
  | Act.rows i rows => ∀ query response, s.lists i = some ⟨query, none, response⟩ →
      rows = given.rows query
  | Act.resumeCall _ => True
  | Act.resumeLoad _ => True
  | Act.resumeList _ => True
  | _ => False

def Settled (c : CallId) (s : State) : Prop := ∃ r, s.callResult c = some r

/-- Those that wait for the load can go on. -/
def HasResult (l : CallId) (s : State) : Prop :=
  ∃ load r, s.loads l = some load ∧ load.result? = some r

def Responded (i : ℕ) (s : State) : Prop :=
  ∃ list response, s.lists i = some list ∧ list.response = some response

variable (cfg) (given : Answers)

/-- At most `n` answers and continuations lead to `P`. -/
abbrev Comes (n : ℕ) (P : State → Prop) (s : State) : Prop :=
  (machine cfg).Reaches (Served given) n P s

variable {cfg given}

/-- One of them, and then the others. -/
theorem comes_of_step {n : ℕ} {P : State → Prop} (hstep : step cfg s a = some t)
    (hserved : Served given s a) (h : Comes cfg given n P t) : Comes cfg given (n + 1) P s :=
  StepMachine.Reaches.next hserved hstep h

/-! ## Loads -/

/-- A load whose query is answered, or has failed, goes on to its result in one continuation,
or it has it already where the caller cleans up. -/
theorem answered_comes {answer : Option Answer}
    (hl : s.loads l = some ⟨target, LoadPhase.answered answer⟩) :
    Comes cfg given 1 (HasResult l) s := by
  by_cases hown : cleansUpInCall target = true
  · -- the promise of the query is the load
    refine StepMachine.Reaches.now ⟨_, loaded target answer, hl, ?_⟩
    simp [Load.result?, hown]
  · have hstep : step cfg s (Act.resumeLoad l) = some (s.finish l target (loaded target answer)) := by
      cases target with
      | sources => exact absurd rfl hown
      | listCount source isNew => exact absurd rfl hown
      | detail id => simp only [step, hl]
      | related id limit => simp only [step, hl]
    refine comes_of_step hstep trivial (StepMachine.Reaches.now ?_)
    exact ⟨_, _, by rw [finish_loads, Function.update_self], rfl⟩

/-- A load that waits for its query has a result after the answer and a continuation. -/
theorem querying_comes {query : Query} (hl : s.loads l = some ⟨target, LoadPhase.querying query⟩) :
    Comes cfg given 2 (HasResult l) s := by
  have hstep : step cfg s (Act.query l (given.answer query)) =
      some (s.setLoad l target (LoadPhase.answered (given.answer query))) := by
    simp only [step, hl]
    exact if_pos (given.fits query)
  refine comes_of_step hstep ?_ (answered_comes (Function.update_self _ _ _))
  intro target' query' hl'
  rw [hl] at hl'
  cases hl'
  rfl

/-- A load that does not wait for a call. -/
theorem load_comes {load : Load} (hl : s.loads l = some load)
    (hphase : load.phase ≠ LoadPhase.article) : Comes cfg given 2 (HasResult l) s := by
  obtain ⟨target, phase⟩ := load
  cases phase with
  | article => exact absurd rfl hphase
  | querying query => exact querying_comes hl
  | answered answer => exact (answered_comes hl).mono (by omega)
  | finished r => exact StepMachine.Reaches.now ⟨_, r, hl, rfl⟩

/-- A load of related articles once its call is through. -/
theorem article_comes {id limit : Binary64} {r : Result}
    (hl : s.loads l = some ⟨Target.related id limit, LoadPhase.article⟩)
    (hcall : s.callResult (CallId.inner l) = some r) : Comes cfg given 3 (HasResult l) s := by
  have hstep : step cfg s (Act.resumeLoad l) = some (afterArticle s l id limit r) := by
    simp only [step, hl, hcall, Option.map_some]
  refine comes_of_step hstep trivial ?_
  rcases afterArticle_cases s l id limit r with ⟨r', heq⟩ | ⟨query, heq⟩
  · rw [heq]
    exact StepMachine.Reaches.now ⟨_, r', by rw [finish_loads, Function.update_self], rfl⟩
  · rw [heq]
    exact querying_comes (Function.update_self _ _ _)

/-! ## Calls -/

/-- A call settles when the load that it waits for has a result. -/
theorem waiting_comes (h : Attended s) {n : ℕ} (hc : s.calls c = some ⟨target, Phase.waiting l⟩)
    (hload : Comes cfg given n (HasResult l) s) : Comes cfg given (n + 1) (Settled c) s := by
  refine hload.bind ?_
  rintro as t hrun ⟨load, r, hl, hr⟩
  obtain ⟨ht, hgrow⟩ := attended_run h hrun
  rcases waits_or_settled h.toFlights ht.toFlights hgrow hc with hwaits | hsettled
  · have hstep : step cfg t (Act.resumeCall c) = some (afterLoad t c target l r) := by
      simp only [step, hwaits, hl, Option.bind_some, hr, Option.map_some]
    refine comes_of_step hstep trivial (StepMachine.Reaches.now ⟨settles target r, ?_⟩)
    simp only [State.callResult, afterLoad, setCall_calls, Function.update_self, Option.bind_some,
      Phase.result?]
  · exact StepMachine.Reaches.now hsettled

/-- What a call goes on with after its lookup. -/
theorem afterLookup_calls (s : State) (c : CallId) (target : Target) (cached : Json) :
    ∃ phase, (afterLookup s c target cached).calls c = some ⟨target, phase⟩ ∧
      ((∃ r, phase = Phase.settled r) ∨ ∃ l, phase = Phase.waiting l) := by
  unfold afterLookup
  split
  · exact ⟨_, Function.update_self _ _ _, Or.inl ⟨_, rfl⟩⟩
  · split
    · exact ⟨_, Function.update_self _ _ _, Or.inr ⟨_, rfl⟩⟩
    · refine ⟨Phase.waiting c, ?_, Or.inr ⟨c, rfl⟩⟩
      cases target with
      | related id limit =>
        have hne : c ≠ CallId.inner c := by
          intro heq
          have := congrArg sizeOf heq
          simp at this
        rw [State.start, setCall_calls, Function.update_of_ne hne, lead_calls, Function.update_self]
      | _ => exact congrFun (lead_calls s c _) c |>.trans (Function.update_self _ _ _)

/-- A call settles within two steps more than it takes when it waits. -/
theorem call_comes (h : Attended s) {n : ℕ} {call : Call} (hc : s.calls c = some call)
    (hwaiting : ∀ t l, Attended t → t.calls c = some ⟨call.target, Phase.waiting l⟩ →
      Comes cfg given n (Settled c) t) : Comes cfg given (n + 2) (Settled c) s := by
  obtain ⟨target, phase⟩ := call
  have hlooked : ∀ t cached, Attended t → t.calls c = some ⟨target, Phase.looked cached⟩ →
      Comes cfg given (n + 1) (Settled c) t := by
    intro t cached ht hc
    have hstep : step cfg t (Act.resumeCall c) = some (afterLookup t c target cached) := by
      simp only [step, hc]
    refine comes_of_step hstep trivial ?_
    obtain ⟨phase, hc', ⟨r, rfl⟩ | ⟨l, rfl⟩⟩ := afterLookup_calls t c target cached
    · refine StepMachine.Reaches.now ⟨r, ?_⟩
      rw [State.callResult, hc']
      rfl
    · exact hwaiting _ l (attended_step ht hstep) hc'
  cases phase with
  | reading =>
    have hstep : step cfg s (Act.lookup c given.cacheUp) = some (s.setCall c target (Phase.looked
        (if given.cacheUp then TrendsCacheService.get s.now s.store target else Json.null))) := by
      simp only [step, hc]
    exact comes_of_step hstep rfl
      (hlooked _ _ (attended_step h hstep) (Function.update_self _ _ _))
  | looked cached => exact (hlooked s cached h hc).mono (by omega)
  | waiting l => exact (hwaiting s l h hc).mono (by omega)
  | settled r =>
    refine StepMachine.Reaches.now ⟨r, ?_⟩
    rw [State.callResult, hc]
    rfl

/-- The call for the list of sources, for an article or for a count. -/
theorem plain_call_comes (h : Attended s) {call : Call} (hc : s.calls c = some call)
    (hplain : ∀ id limit, call.target ≠ Target.related id limit) :
    Comes cfg given 5 (Settled c) s := by
  refine call_comes (n := 3) h hc ?_
  intro t l ht hwaits
  obtain ⟨load, hl, htarget⟩ := (ht.calls c _ hwaits).waits l rfl
  refine waiting_comes ht hwaits (load_comes hl ?_)
  intro hphase
  obtain ⟨id, limit, hrelated⟩ := ht.forArticle l load hl hphase
  exact hplain id limit (htarget.symm.trans hrelated)

/-- A load of related articles: its call for the article, and its own query. -/
theorem related_load_comes (h : Attended s) {id limit : Binary64} {phase : LoadPhase}
    (hl : s.loads l = some ⟨Target.related id limit, phase⟩) :
    Comes cfg given 8 (HasResult l) s := by
  obtain ⟨call, hc⟩ := h.ofLoad l _ id limit hl rfl
  have hdetail := h.toFlights.inner_target hl hc
  have hcall : Comes cfg given 5 (Settled (CallId.inner l)) s := by
    refine plain_call_comes h hc ?_
    rw [hdetail]
    rintro _ _ ⟨⟩
  refine hcall.bind (n := 3) ?_
  rintro as t hrun ⟨r, hr⟩
  obtain ⟨ht, hgrow⟩ := attended_run h hrun
  obtain ⟨⟨target, phase'⟩, hl', htarget, -⟩ := hgrow.loads l _ hl
  obtain rfl : target = Target.related id limit := htarget
  by_cases hphase : phase' = LoadPhase.article
  · rw [hphase] at hl'
    exact article_comes hl' hr
  · exact (load_comes hl' hphase).mono (by omega)

/-- Any call settles within eleven steps: one more than a load of related articles takes, and
two for its lookup and what it goes on with. -/
theorem any_call_comes (h : Attended s) {call : Call} (hc : s.calls c = some call) :
    Comes cfg given 11 (Settled c) s := by
  refine call_comes (n := 9) h hc ?_
  intro t l ht hwaits
  obtain ⟨⟨target, phase⟩, hl, htarget⟩ := (ht.calls c _ hwaits).waits l rfl
  refine waiting_comes ht hwaits ?_
  cases target with
  | related id limit => exact related_load_comes ht hl
  | _ =>
    refine (load_comes hl ?_).mono (by omega)
    intro hphase
    obtain ⟨id, limit, hrelated⟩ := ht.forArticle l _ hl hphase
    cases hrelated

/-! ## Lists -/

variable {i : ℕ}

/-- Rows and a count, or either failure, are enough for a response. -/
theorem afterAll_some (query : ListTrendsQuery) (rows : Option (List Json)) (r : Result) :
    ∃ response, afterAll ⟨query, some rows, none⟩ (some r) = some response := by
  cases rows <;> cases r <;> exact ⟨_, rfl⟩

/-- With the rows and the count there, the continuation behind `Promise.all` gives the
response. -/
theorem rows_comes {query : ListTrendsQuery} {rows : Option (List Json)} {r : Result}
    (hi : s.lists i = some ⟨query, some rows, none⟩)
    (hcount : s.callResult (CallId.inner (CallId.request i)) = some r) :
    Comes cfg given 1 (Responded i) s := by
  obtain ⟨response, hall⟩ := afterAll_some query rows r
  have hstep : step cfg s (Act.resumeList i) = some { s with
      lists := Function.update s.lists i (some ⟨query, some rows, some response⟩) } := by
    simp only [step, hi, hcount, hall, Option.map_some]
  refine comes_of_step hstep trivial (StepMachine.Reaches.now ?_)
  exact ⟨_, response, Function.update_self _ _ _, rfl⟩

/-- With the count there, the answer to the rows and that continuation are left, or it alone. -/
theorem count_comes {list : ListCall} {r : Result} (hi : s.lists i = some list)
    (hcount : s.callResult (CallId.inner (CallId.request i)) = some r) :
    Comes cfg given 2 (Responded i) s := by
  obtain ⟨query, rows, response⟩ := list
  cases response with
  | some response => exact StepMachine.Reaches.now ⟨_, response, hi, rfl⟩
  | none =>
    cases rows with
    | some rows => exact (rows_comes hi hcount).mono (by omega)
    | none =>
      have hstep : step cfg s (Act.rows i (given.rows query)) = some { s with
          lists := Function.update s.lists i (some ⟨query, some (given.rows query), none⟩) } := by
        simp only [step, hi]
      refine comes_of_step hstep ?_ (rows_comes (Function.update_self _ _ _) hcount)
      intro query' response hi'
      rw [hi] at hi'
      cases hi'
      rfl

/-- A list waits for its rows and its count side by side; the count takes five steps, and then
two are left. -/
theorem list_comes (h : Attended s) {list : ListCall} (hi : s.lists i = some list) :
    Comes cfg given 7 (Responded i) s := by
  obtain ⟨call, hc⟩ := h.ofList i list hi
  -- The inner call of a list is for its count: a load has none that is a request's.
  have hplain : ∀ id limit, call.target ≠ Target.related id limit := by
    intro id limit hrelated
    rcases (h.calls _ call hc).owner _ rfl with ⟨j, list', -, -, htarget⟩ | ⟨load, id', limit', -, -, htarget⟩
    · rw [hrelated] at htarget
      cases htarget
    · rw [hrelated] at htarget
      cases htarget
  have hcall : Comes cfg given 5 (Settled (CallId.inner (CallId.request i))) s :=
    plain_call_comes h hc hplain
  refine hcall.bind (n := 2) ?_
  rintro as t hrun ⟨r, hr⟩
  obtain ⟨list', hi', -⟩ := (attended_run h hrun).2.lists i list hi
  exact count_comes hi' hr

/-! ## Progress -/

/-- **Progress.** In every state that the service can reach, eleven answers and continuations
are enough to settle any call, and seven to give any list its response, whatever the answers
say. The longest way is that of related articles that are not cached: two lookups, two
queries, and seven continuations. -/
theorem trendsQuery_progress (now : ℕ) (store : Store) (as : List Act)
    (hrun : (machine cfg).run as (initial now store) = some s) :
    (∀ c call, s.calls c = some call → Comes cfg given 11 (Settled c) s) ∧
      ∀ i list, s.lists i = some list → Comes cfg given 7 (Responded i) s := by
  obtain ⟨h, -⟩ := attended_run (attended_initial now store) hrun
  exact ⟨fun c call hc => any_call_comes h hc, fun i list hi => list_comes h hi⟩

end TrendsQuery

end TechTrends
