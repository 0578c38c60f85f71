/-
The embedding requests of one process: those of searches and those of the pipeline.

A search makes its request inside the semaphore. An attempt of the pipeline calls
`vectorEmbeddingWithAi` as it is, so its request takes no permit; what bounds the
attempts is the worker, which runs one at a time. Both go through the same retries,
and a request in a pause between two attempts is not under way.
-/
import TechTrends.SearchResolves
import Mathlib.Data.Set.Card

set_option autoImplicit false

namespace TechTrends

namespace EmbeddingCalls

open EmbedSearchQuery (Config Phase Critical Reply embedRetries embedBaseDelayMs semaphorePermits)
open AiService (Verdict onError plainError)

/-! ## States -/

/-- An attempt is at other work, waits for the answer to its `attempt`-th request, is
in a pause of `executeWithRetry`, or is over. -/
inductive AttemptPhase
  | working
  | calling (attempt : ℕ)
  | pausing (attempt wakeAt : ℕ)
  | ended
deriving DecidableEq

structure State where
  search : EmbedSearchQuery.State
  attempts : ℕ → Option AttemptPhase
  /-- The jobs that the worker is processing. -/
  active : List ℕ

/-- `concurrency` of the worker. -/
def workerConcurrency : ℕ := 1

inductive Act
  | search (a : EmbedSearchQuery.Act)
  /-- The worker takes a job. -/
  | begin (j : ℕ)
  /-- `generateEmbeddingsForArticles` on texts. -/
  | embed (j : ℕ) (texts : List String)
  | answer (j : ℕ) (reply : Reply)
  | wake (j : ℕ)
  /-- The attempt completes or fails. -/
  | ends (j : ℕ)

/-! ## Steps -/

def State.setAttempt (s : State) (j : ℕ) (phase : AttemptPhase) : State :=
  { s with attempts := Function.update s.attempts j (some phase) }

@[simp] theorem setAttempt_self (s : State) (j : ℕ) (phase : AttemptPhase) :
    (s.setAttempt j phase).attempts j = some phase := Function.update_self _ _ _

theorem setAttempt_ne (s : State) {j k : ℕ} (phase : AttemptPhase) (h : k ≠ j) :
    (s.setAttempt j phase).attempts k = s.attempts k := Function.update_of_ne h _ _

/-- `executeWithRetry` after a failed request. -/
def attemptFailed (s : State) (attempt : ℕ) (e : ApiError) : AttemptPhase :=
  match onError embedRetries embedBaseDelayMs attempt e with
  -- The error goes through `generateEmbeddingsForArticles` to the attempt.
  | Verdict.rethrow => AttemptPhase.working
  | Verdict.retryAfter delay => AttemptPhase.pausing attempt (s.search.now + delay.timerMs)

/-- The answer of the API to an attempt. -/
def answered (s : State) (attempt : ℕ) : Reply → AttemptPhase
  | Reply.error e => attemptFailed s attempt e
  | Reply.embeddings [] => attemptFailed s attempt (plainError "임베딩 결과가 비어 있습니다.")
  | Reply.embeddings (_ :: _) => AttemptPhase.working

def step (cfg : Config) (s : State) : Act → Option State
  | Act.search a => (EmbedSearchQuery.step cfg s.search a).map fun search => { s with search := search }
  | Act.begin j =>
    if s.attempts j = none ∧ s.active.length < workerConcurrency then
      some { s.setAttempt j AttemptPhase.working with active := j :: s.active }
    else none
  | Act.embed j texts =>
    match s.attempts j with
    | some AttemptPhase.working =>
      -- No texts, no request.
      if texts = [] then some s else some (s.setAttempt j (AttemptPhase.calling 1))
    | _ => none
  | Act.answer j reply =>
    match s.attempts j with
    | some (AttemptPhase.calling attempt) => some (s.setAttempt j (answered s attempt reply))
    | _ => none
  | Act.wake j =>
    match s.attempts j with
    | some (AttemptPhase.pausing attempt wakeAt) =>
      if wakeAt ≤ s.search.now then some (s.setAttempt j (AttemptPhase.calling (attempt + 1)))
      else none
    | _ => none
  | Act.ends j =>
    match s.attempts j with
    | some AttemptPhase.working =>
      some { s.setAttempt j AttemptPhase.ended with active := s.active.erase j }
    | _ => none

def machine (cfg : Config) : StepMachine State Act := ⟨step cfg⟩

/-- Nothing has been asked for, and the worker has no job. -/
def initial (now : ℕ) (store : Store) : State :=
  { search := EmbedSearchQuery.initial now store, attempts := fun _ => none, active := [] }

/-! ## Requests -/

/-- What makes a request to the API: a search, or an attempt of the pipeline. -/
inductive Caller
  | search (i : ℕ)
  | attempt (j : ℕ)
deriving DecidableEq

/-- The searches that wait for an answer of `embedContent`. -/
def State.searching (s : State) : Set Caller :=
  {caller | ∃ i c lease n, caller = Caller.search i ∧ s.search.calls i = some c ∧
    c.phase = Phase.locked lease (Critical.calling n)}

/-- The attempts that wait for an answer of `embedContent`. -/
def State.embedding (s : State) : Set Caller :=
  {caller | ∃ j n, caller = Caller.attempt j ∧ s.attempts j = some (AttemptPhase.calling n)}

/-- The requests to the API that are in flight. -/
def State.inFlight (s : State) : Set Caller := s.searching ∪ s.embedding

/-! ## The invariant -/

/-- Searches inside the semaphore hold the permits, and attempts that are not over are
jobs of the worker. -/
structure Bounded (s : State) : Prop where
  permitted : EmbedSearchQuery.Permitted s.search
  processed : ∀ j phase, s.attempts j = some phase → phase ≠ AttemptPhase.ended → j ∈ s.active
  room : s.active.length ≤ workerConcurrency

theorem bounded_initial (now : ℕ) (store : Store) : Bounded (initial now store) := by
  refine ⟨EmbedSearchQuery.permitted_initial now store, ?_, Nat.zero_le _⟩
  intro j phase h
  cases h

variable {cfg : Config} {s t : State}

/-- An attempt that is a job of the worker moves on, with as many jobs as before. -/
theorem Bounded.setAttempt (hs : Bounded s) {j : ℕ} (hj : j ∈ s.active) (next : AttemptPhase) :
    Bounded (s.setAttempt j next) := by
  refine ⟨hs.permitted, ?_, hs.room⟩
  intro k phase hk hphase
  by_cases hkj : k = j
  · exact hkj ▸ hj
  · rw [setAttempt_ne s next hkj] at hk
    exact hs.processed k phase hk hphase

/-- A job is begun where the worker has room: its concurrency is 1, which is what BullMQ has
without an option. -/
theorem Bounded.begin (hs : Bounded s) (j : ℕ) (hroom : s.active.length < workerConcurrency) :
    Bounded { s.setAttempt j AttemptPhase.working with active := j :: s.active } := by
  refine ⟨hs.permitted, ?_, hroom⟩
  intro k phase hk hphase
  by_cases hkj : k = j
  · exact List.mem_cons.2 (Or.inl hkj)
  · have hk : (s.setAttempt j AttemptPhase.working).attempts k = some phase := hk
    rw [setAttempt_ne s _ hkj] at hk
    exact List.mem_cons_of_mem j (hs.processed k phase hk hphase)

theorem Bounded.ends (hs : Bounded s) (j : ℕ) :
    Bounded { s.setAttempt j AttemptPhase.ended with active := s.active.erase j } := by
  refine ⟨hs.permitted, ?_, List.length_erase_le.trans hs.room⟩
  intro k phase hk hphase
  have hk : (s.setAttempt j AttemptPhase.ended).attempts k = some phase := hk
  by_cases hkj : k = j
  · subst hkj
    rw [setAttempt_self] at hk
    exact absurd (Option.some.inj hk).symm hphase
  · rw [setAttempt_ne s _ hkj] at hk
    exact (List.mem_erase_of_ne hkj).2 (hs.processed k phase hk hphase)

/-- **Step.** Searches in flight hold permits, attempts in flight are jobs of the worker, and
there are no more of either than that allows. -/
theorem bounded_step : (machine cfg).Keeps Bounded := by
  intro s a t hs h
  have h : step cfg s a = some t := h
  cases a with
  | search a =>
    obtain ⟨search, hstep, rfl⟩ := Option.map_eq_some_iff.1 h
    exact ⟨EmbedSearchQuery.permitted_step _ _ _ hs.permitted hstep, hs.processed, hs.room⟩
  | begin j =>
    obtain ⟨⟨-, hroom⟩, heq⟩ := Option.ite_none_right_eq_some.1 h
    exact Option.some.inj heq ▸ hs.begin j hroom
  | embed j texts =>
    simp only [step] at h
    split at h
    next hj =>
      split at h
      · exact Option.some.inj h ▸ hs
      · exact Option.some.inj h ▸ hs.setAttempt (hs.processed j _ hj (by decide)) _
    next => cases h
  | answer j reply =>
    simp only [step] at h
    split at h
    next attempt hj =>
      exact Option.some.inj h ▸ hs.setAttempt (hs.processed j _ hj (by simp)) _
    next => cases h
  | wake j =>
    simp only [step] at h
    split at h
    next attempt wakeAt hj =>
      obtain ⟨-, heq⟩ := Option.ite_none_right_eq_some.1 h
      exact Option.some.inj heq ▸ hs.setAttempt (hs.processed j _ hj (by simp)) _
    next => cases h
  | ends j =>
    simp only [step] at h
    split at h
    next => exact Option.some.inj h ▸ hs.ends j
    next => cases h

/-! ## Bounds -/

theorem encard_le_of_list {callers : Set Caller} (l : List Caller)
    (h : ∀ caller ∈ callers, caller ∈ l) : callers.encard ≤ l.length := by
  have hsub : callers ⊆ (l.toFinset : Set Caller) := fun caller hc => by simpa using h caller hc
  calc callers.encard ≤ (l.toFinset : Set Caller).encard := Set.encard_le_encard hsub
    _ = l.toFinset.card := Set.encard_coe_eq_coe_finsetCard _
    _ ≤ l.length := by exact_mod_cast l.toFinset_card_le

/-- Searches in flight are inside the semaphore. -/
theorem Bounded.searching_le (hs : Bounded s) : s.searching.encard ≤ semaphorePermits := by
  refine (encard_le_of_list (s.search.permits.map Caller.search) ?_).trans ?_
  · rintro caller ⟨i, c, lease, n, rfl, hc, hphase⟩
    refine List.mem_map_of_mem ((hs.permitted.holder i).2 ⟨c, hc, ?_⟩)
    rw [hphase]
    trivial
  · rw [List.length_map]
    exact_mod_cast hs.permitted.bounded

/-- Attempts in flight are jobs of the worker. -/
theorem Bounded.embedding_le (hs : Bounded s) : s.embedding.encard ≤ workerConcurrency := by
  refine (encard_le_of_list (s.active.map Caller.attempt) ?_).trans ?_
  · rintro caller ⟨j, n, rfl, hj⟩
    exact List.mem_map_of_mem (hs.processed j _ hj (by simp))
  · rw [List.length_map]
    exact_mod_cast hs.room

/-- **How many embedding requests are in flight.** In every state of one process, at most
three are of searches and at most one is of an attempt of the pipeline: four in all, and three
while no attempt is at its request. The semaphore of `AiService` is around the request in
`embedSearchQuery` and not around the one in `vectorEmbeddingWithAi`, which the pipeline
calls. -/
theorem embedContent_in_flight (cfg : Config) (now : ℕ) (store : Store) (as : List Act) (t : State)
    (h : (machine cfg).run as (initial now store) = some t) :
    t.searching.encard ≤ 3 ∧ t.embedding.encard ≤ 1 ∧ t.inFlight.encard ≤ 4 ∧
      (t.embedding = ∅ → t.inFlight.encard ≤ 3) := by
  have ht : Bounded t := StepMachine.Keeps.run (machine cfg) bounded_step (bounded_initial now store) h
  have hsearching : t.searching.encard ≤ 3 := ht.searching_le
  have hembedding : t.embedding.encard ≤ 1 := ht.embedding_le
  refine ⟨hsearching, hembedding, ?_, ?_⟩
  · calc t.inFlight.encard ≤ t.searching.encard + t.embedding.encard := Set.encard_union_le _ _
      _ ≤ 3 + 1 := add_le_add hsearching hembedding
      _ = 4 := by norm_num
  · intro hnone
    rwa [State.inFlight, hnone, Set.union_empty]

/-! ## Four requests at once -/

/-- A search for a text comes to its request. -/
def searches (i : ℕ) (query : String) : List Act :=
  [EmbedSearchQuery.Act.start i query,
    EmbedSearchQuery.Act.call i (EmbedSearchQuery.Op.redis EmbedSearchQuery.Fate.ok),
    EmbedSearchQuery.Act.call i (EmbedSearchQuery.Op.redis EmbedSearchQuery.Fate.ok),
    EmbedSearchQuery.Act.call i EmbedSearchQuery.Op.permit].map Act.search

/-- Three searches take all permits, and an attempt embeds its articles. -/
def threeSearchesAndAttempt : List Act :=
  searches 0 "redis" ++ searches 1 "kafka" ++ searches 2 "nestjs" ++
    [Act.begin 0, Act.embed 0 ["summary"]]

/-- The request of call `i`, when it waits for the API. -/
def requestOf (s : State) (i : ℕ) : Option ℕ :=
  match s.search.calls i with
  | some ⟨_, Phase.locked _ (Critical.calling n)⟩ => some n
  | _ => none

theorem mem_searching {i n : ℕ} (h : requestOf s i = some n) : Caller.search i ∈ s.searching := by
  unfold requestOf at h
  split at h
  next query lease n' hc => exact ⟨i, _, lease, n', rfl, hc, rfl⟩
  next => cases h

theorem threeSearchesAndAttempt_run :
    ∃ t, (machine EmbedSearchQuery.testConfig).run threeSearchesAndAttempt
        (initial 0 EmbedSearchQuery.emptyStore) = some t ∧
      {Caller.search 0, Caller.search 1, Caller.search 2, Caller.attempt 0} ⊆ t.inFlight := by
  have hproj : ((machine EmbedSearchQuery.testConfig).run threeSearchesAndAttempt
      (initial 0 EmbedSearchQuery.emptyStore)).map
      (fun t => (requestOf t 0, requestOf t 1, requestOf t 2, t.attempts 0)) =
      some (some 1, some 1, some 1, some (AttemptPhase.calling 1)) := by
    decide +kernel
  obtain ⟨t, ht, hreq⟩ := Option.map_eq_some_iff.1 hproj
  simp only [Prod.mk.injEq] at hreq
  obtain ⟨h0, h1, h2, hj⟩ := hreq
  refine ⟨t, ht, ?_⟩
  rintro caller (rfl | rfl | rfl | rfl)
  · exact Or.inl (mem_searching h0)
  · exact Or.inl (mem_searching h1)
  · exact Or.inl (mem_searching h2)
  · exact Or.inr ⟨0, 1, rfl, hj⟩

/-- Four requests of one process are in flight. -/
theorem four_in_flight :
    ∃ t, (machine EmbedSearchQuery.testConfig).run threeSearchesAndAttempt
        (initial 0 EmbedSearchQuery.emptyStore) = some t ∧ ¬ t.inFlight.encard ≤ 3 := by
  obtain ⟨t, ht, hsub⟩ := threeSearchesAndAttempt_run
  refine ⟨t, ht, ?_⟩
  have hfour : ({Caller.search 0, Caller.search 1, Caller.search 2, Caller.attempt 0} :
      Set Caller).encard = 4 := by
    have := Set.encard_coe_eq_coe_finsetCard
      ({Caller.search 0, Caller.search 1, Caller.search 2, Caller.attempt 0} : Finset Caller)
    simpa using this
  intro hle
  have hcontra : (4 : ℕ∞) ≤ 3 := hfour ▸ (Set.encard_le_encard hsub).trans hle
  exact absurd hcontra (by decide)

/-- The bounds in the state with four requests. -/
theorem embedContent_in_flight_four :
    ∃ t, (machine EmbedSearchQuery.testConfig).run threeSearchesAndAttempt
        (initial 0 EmbedSearchQuery.emptyStore) = some t ∧
      t.searching.encard ≤ 3 ∧ t.embedding.encard ≤ 1 ∧ t.inFlight.encard ≤ 4 ∧
        (t.embedding = ∅ → t.inFlight.encard ≤ 3) := by
  obtain ⟨t, ht, -⟩ := threeSearchesAndAttempt_run
  exact ⟨t, ht, embedContent_in_flight EmbedSearchQuery.testConfig 0 EmbedSearchQuery.emptyStore
    threeSearchesAndAttempt t ht⟩

end EmbeddingCalls

end TechTrends
