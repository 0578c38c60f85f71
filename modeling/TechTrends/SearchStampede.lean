/-
How many API calls the concurrent searches for one text make.

The code reads the cache before it takes the lock and not again afterwards. A
call that missed the cache and takes the lock only after an earlier holder has
filled the cache and left calls the API once more. Where no lock is taken over a
filled cache, the searches for one text go through three stages, and make one
call in all: nobody is inside the section, then one call is, and then the cache
is filled and calls inside the section are on their way out.
-/
import TechTrends.SearchLock

set_option autoImplicit false

namespace TechTrends

namespace EmbedSearchQuery

open AiService (cacheKey lockKey normalizeKeyword cacheKey_ne_lockKey)

variable {cfg : Config} {s t : State} {i : ℕ} {text : String}

/-! ## Runs without faults -/

/-- A step of the searches for one text: no Redis command fails, and nobody else
touches the two keys of the text. -/
def FaultFree (cfg : Config) (text : String) (_ : State) : Act → Prop
  | Act.start _ query => normalizeKeyword query = text
  | Act.call _ (Op.redis fate) => fate = Fate.ok
  | Act.outside key _ =>
    key ≠ cacheKey cfg.embeddingModelName text ∧ key ≠ lockKey cfg.embeddingModelName text
  | _ => True

/-- The step lets no entry of the key expire. -/
def Unexpired (key : String) (s : State) : Act → Prop
  | Act.tick ms => ∀ e, Redis.lookup s.now s.store key = some e → e.live (s.now + ms) = true
  | _ => True

/-- The API answers with a vector that is not empty. -/
def Answers (_ : State) : Act → Prop
  | Act.call _ (Op.answer reply) =>
    ∃ vector rest, vector ≠ [] ∧ reply = Reply.embeddings (vector :: rest)
  | _ => True

instance (s : State) (a : Act) : Decidable (FaultFree cfg text s a) := by
  unfold FaultFree
  split <;> infer_instance

instance (key : String) (s : State) (a : Act) : Decidable (Unexpired key s a) :=
  match a with
  | Act.tick ms =>
    match h : Redis.lookup s.now s.store key with
    | none => isTrue fun e he => by rw [h] at he; cases he
    | some e =>
      decidable_of_iff (e.live (s.now + ms) = true)
        ⟨fun hl e' he => by rw [h] at he; cases he; exact hl, fun hall => hall e h⟩
  | Act.start _ _ | Act.call _ _ | Act.outside _ _ => isTrue trivial

/-- An entry that has expired stays expired. -/
theorem lookup_tick {now ms : ℕ} {store : Store} {key : String}
    (h : ∀ e, Redis.lookup now store key = some e → e.live (now + ms) = true) :
    Redis.lookup (now + ms) store key = Redis.lookup now store key := by
  have hlater : ∀ e : Entry, e.live (now + ms) = true → e.live now = true := by
    rintro ⟨value, deadline⟩ hlive
    cases deadline with
    | none => rfl
    | some d =>
      simp only [Entry.live, decide_eq_true_eq] at hlive ⊢
      omega
  unfold Redis.lookup at h ⊢
  cases hs : store key with
  | none => rfl
  | some e =>
    rw [hs] at h
    by_cases hnow : e.live now = true
    · -- The entry is read now, so it may not expire on the way.
      have hl := h e (by rw [Option.filter_some, if_pos hnow])
      rw [Option.filter_some, Option.filter_some, if_pos hnow, if_pos hl]
    · rw [Option.filter_some, Option.filter_some, if_neg hnow,
        if_neg fun hl => hnow (hlater e hl)]

/-- The call is not inside the section. -/
def Phase.outside (phase : Phase) : Prop := ∀ lease critical, phase ≠ Phase.locked lease critical

/-- The number of calls to the API. -/
def apiCalls (log : List Event) : ℕ :=
  log.countP fun e => match e with | Event.embedContent _ _ => true | _ => false

theorem apiCalls_append (log events : List Event) :
    apiCalls (log ++ events) = apiCalls log + apiCalls events := List.countP_append

/-- **A fault-free step from outside the section** changes nothing that is shared and stays
outside, or takes the free lock. So the stages below are left by nobody but the holder. -/
theorem Moves.from_outside {phase : Phase} {op : Op} {change : Change}
    (h : Moves cfg s i text phase op change) (hout : phase.outside)
    (hok : ∀ fate, op = Op.redis fate → fate = Fate.ok) :
    apiCalls change.events = 0 ∧
      (change.store = s.store ∧ change.phase.outside ∨
        phase = Phase.acquiring ∧
          Redis.keyExists s.now s.store (lockKey cfg.embeddingModelName text) = false ∧
          change.phase = Phase.locked ⟨cfg.randomUUID i, s.now⟩ Critical.queued ∧
          change.store = Redis.set s.store (lockKey cfg.embeddingModelName text)
            (cfg.randomUUID i) (some (s.now + lockTtlMs))) := by
  cases h with
  | acquired free => exact ⟨rfl, Or.inr ⟨rfl, free, rfl, rfl⟩⟩
  | acquireLost => cases hok _ rfl
  -- These steps are taken inside the section only.
  | permit | retried | answered | rethrown | paused | stored | released => exact absurd rfl (hout _ _)
  | _ => exact ⟨rfl, Or.inl ⟨rfl, by simp [Phase.outside, State.goto, State.giveUp]⟩⟩

/-! ## The three stages -/

/-- Nobody has been inside the section. -/
structure Quiet (s : State) : Prop where
  count : apiCalls s.log = 0
  outside : ∀ j c, s.calls j = some c → c.phase.outside

/-- Call `holder` is inside the section and has not filled the cache yet. -/
structure Working (cfg : Config) (text : String) (s : State) (holder : ℕ) : Prop where
  taken : Redis.keyExists s.now s.store (lockKey cfg.embeddingModelName text) = true
  others : ∀ j c, j ≠ holder → s.calls j = some c → c.phase.outside
  stage : ∃ query lease critical,
    s.calls holder = some ⟨query, Phase.locked lease critical⟩ ∧
      (critical = Critical.queued ∧ apiCalls s.log = 0 ∨
        (∃ attempt, critical = Critical.calling attempt) ∧ apiCalls s.log = 1 ∨
        (∃ vector, critical = Critical.storing vector) ∧ apiCalls s.log = 1)

/-- The cache is filled, and whoever is inside the section is about to leave. -/
structure Filled (cfg : Config) (text : String) (s : State) : Prop where
  count : apiCalls s.log = 1
  cached : Redis.keyExists s.now s.store (cacheKey cfg.embeddingModelName text) = true
  leaving : ∀ j c lease critical, s.calls j = some c → c.phase = Phase.locked lease critical →
    ∃ completion, critical = Critical.releasing completion

/-- The stage the searches for `text` are in. -/
def Staged (cfg : Config) (text : String) (s : State) : Prop :=
  Quiet s ∨ (∃ holder, Working cfg text s holder) ∨ Filled cfg text s

theorem Staged.apiCalls_le (h : Staged cfg text s) : apiCalls s.log ≤ 1 := by
  rcases h with hq | ⟨holder, hw⟩ | hf
  · rw [hq.count]
    exact Nat.zero_le 1
  · obtain ⟨query, lease, critical, -, hstage⟩ := hw.stage
    omega
  · rw [hf.count]

/-- A call that is outside the section, stays outside and changes nothing shared
leaves the stage as it is. -/
theorem Staged.apply_outside (hs : Staged cfg text s) {query : String} {change : Change}
    (hbefore : ∀ c, s.calls i = some c → c.phase.outside) (hafter : change.phase.outside)
    (hstore : change.store = s.store) (hevents : apiCalls change.events = 0) :
    Staged cfg text (s.apply i query change) := by
  have hcount : apiCalls (s.apply i query change).log = apiCalls s.log := by
    rw [State.apply, apiCalls_append, hevents, Nat.add_zero]
  have hlookup : (s.apply i query change).store = s.store := hstore
  rcases hs with hq | ⟨holder, hw⟩ | hf
  · refine Or.inl ⟨hcount.trans hq.count, ?_⟩
    intro j c hc
    rcases apply_calls_some hc with ⟨rfl, rfl⟩ | ⟨hj, hc⟩
    · exact hafter
    · exact hq.outside j c hc
  · obtain ⟨query', lease, critical, hh, hstage⟩ := hw.stage
    -- The holder is inside and call `i` is not.
    have hne : holder ≠ i := by
      rintro rfl
      exact hbefore _ hh _ _ rfl
    refine Or.inr (Or.inl ⟨holder, ?_, ?_, ?_⟩)
    · rw [hlookup]
      exact hw.taken
    · intro j c hj hc
      rcases apply_calls_some hc with ⟨rfl, rfl⟩ | ⟨hji, hc⟩
      · exact hafter
      · exact hw.others j c hj hc
    · rw [hcount]
      exact ⟨query', lease, critical, (apply_calls_ne _ _ hne).trans hh, hstage⟩
  · refine Or.inr (Or.inr ⟨hcount.trans hf.count, ?_, ?_⟩)
    · rw [hlookup]
      exact hf.cached
    · intro j c lease critical hc hp
      rcases apply_calls_some hc with ⟨rfl, rfl⟩ | ⟨hj, hc⟩
      · exact absurd hp (hafter _ _)
      · exact hf.leaving j c lease critical hc hp

/-- A call takes the free lock: it becomes the holder when nobody was inside the section, and
there is no such step in the later stages, unless it is over a filled cache. That last case is
the late lock, which `NoLateLock` keeps out. -/
theorem Staged.apply_acquired (hs : Staged cfg text s) {query : String} {change : Change}
    (hfree : Redis.keyExists s.now s.store (lockKey cfg.embeddingModelName text) = false)
    (hfresh : Redis.keyExists s.now s.store (cacheKey cfg.embeddingModelName text) = false)
    (hevents : apiCalls change.events = 0)
    (hphase : change.phase = Phase.locked ⟨cfg.randomUUID i, s.now⟩ Critical.queued)
    (hstore : change.store = Redis.set s.store (lockKey cfg.embeddingModelName text)
      (cfg.randomUUID i) (some (s.now + lockTtlMs))) :
    Staged cfg text (s.apply i query change) := by
  rcases hs with hq | ⟨holder, hw⟩ | hf
  · refine Or.inr (Or.inl ⟨i, ?_, ?_, ?_⟩)
    · simp only [State.apply, hstore, Redis.keyExists, Redis.lookup_set_self]
      rw [Option.filter_some, if_pos (by simp [Entry.live])]
      rfl
    · intro j c hj hc
      rw [apply_calls_ne _ _ hj] at hc
      exact hq.outside j c hc
    · refine ⟨query, _, _, (apply_calls_self _ _).trans (by rw [hphase]), Or.inl ⟨rfl, ?_⟩⟩
      rw [State.apply, apiCalls_append, hevents, hq.count]
  · -- Somebody works inside the section, so the lock is not free.
    rw [hw.taken] at hfree
    cases hfree
  · -- The cache is filled: the step would be the late one.
    rw [hf.cached] at hfresh
    cases hfresh

/-- A step of the call inside the section while it works. It calls the API once, since the API
answers, stores the vector and goes on to release the lock. -/
theorem Working.apply_holder {query : String} {op : Op} {change : Change}
    {lease : Lease} {critical : Critical} (hw : Working cfg text s i)
    (hi : s.calls i = some ⟨query, Phase.locked lease critical⟩)
    (hm : Moves cfg s i text (Phase.locked lease critical) op change)
    (hok : ∀ fate, op = Op.redis fate → fate = Fate.ok)
    (hans : ∀ reply, op = Op.answer reply →
      ∃ vector rest, vector ≠ [] ∧ reply = Reply.embeddings (vector :: rest)) :
    Staged cfg text (s.apply i query change) := by
  obtain ⟨query', lease', critical', hi', hstage⟩ := hw.stage
  rw [hi] at hi'
  obtain ⟨rfl, rfl, rfl⟩ : query = query' ∧ lease = lease' ∧ critical = critical' := by
    simpa using hi'
  have hothers : ∀ j c, j ≠ i → (s.apply i query change).calls j = some c → c.phase.outside := by
    intro j c hj hc
    rw [apply_calls_ne _ _ hj] at hc
    exact hw.others j c hj hc
  have hone : critical ≠ Critical.queued → apiCalls s.log = 1 := by
    intro hne
    rcases hstage with ⟨h, -⟩ | ⟨-, hz⟩ | ⟨-, hz⟩
    · exact absurd h hne
    · exact hz
    · exact hz
  cases hm with
  -- these two are moves of a call without the lock
  | giveUp unlocked failed => exact unlocked.elim
  | hit reads => exact reads.elim
  | permit room =>
    -- A call that still waits for its permit has not called the API.
    have hzero : apiCalls s.log = 0 := by
      rcases hstage with ⟨-, hz⟩ | ⟨⟨attempt, h⟩, -⟩ | ⟨⟨vector, h⟩, -⟩
      · exact hz
      · cases h
      · cases h
    refine Or.inr (Or.inl ⟨i, hw.taken, hothers, query, lease, _, apply_calls_self _ _,
      Or.inr (Or.inl ⟨⟨1, rfl⟩, ?_⟩)⟩)
    rw [State.apply, apiCalls_append, hzero]
    rfl
  | retried due =>
    rcases hstage with ⟨h, -⟩ | ⟨⟨attempt, h⟩, -⟩ | ⟨⟨vector, h⟩, -⟩ <;> cases h
  | @answered _ attempt vector rest =>
    obtain ⟨v, r, hv, hreply⟩ := hans _ rfl
    cases hreply
    refine Or.inr (Or.inl ⟨i, hw.taken, hothers, query, lease, _, apply_calls_self _ _,
      Or.inr (Or.inr ⟨⟨_, if_neg hv⟩, ?_⟩)⟩)
    rw [State.apply, apiCalls_append, hone (by simp)]
    rfl
  -- The API answers in these runs, so the retry loop ends with its first round.
  | rethrown bad =>
    obtain ⟨v, r, hv, hreply⟩ := hans _ rfl
    exact absurd hreply (bad v r)
  | paused bad more =>
    obtain ⟨v, r, hv, hreply⟩ := hans _ rfl
    exact absurd hreply (bad v r)
  | @stored _ vector fate =>
    cases hok _ rfl
    refine Or.inr (Or.inr ⟨?_, ?_, ?_⟩)
    · rw [State.apply, apiCalls_append, hone (by simp)]
      rfl
    · simp only [State.apply, setCached, RedisService.setCache, Redis.keyExists,
        Redis.lookup_set_self]
      rw [Option.filter_some, if_pos ?_]
      · rfl
      · unfold Entry.live
        split_ifs with h
        · simp
        · rfl
    · intro j c l cr hc hp
      rcases apply_calls_some hc with ⟨rfl, rfl⟩ | ⟨hj, hc⟩
      · cases hp
        exact ⟨_, rfl⟩
      · exact absurd hp (hw.others j c hj hc _ _)
  | released =>
    rcases hstage with ⟨h, -⟩ | ⟨⟨attempt, h⟩, -⟩ | ⟨⟨vector, h⟩, -⟩ <;> cases h

/-- A step of the call that leaves the section once the cache is filled. It calls the API no
more. -/
theorem Filled.apply_leaving {query : String} {op : Op} {change : Change}
    {lease : Lease} {critical : Critical} (hf : Filled cfg text s)
    (hi : s.calls i = some ⟨query, Phase.locked lease critical⟩)
    (hm : Moves cfg s i text (Phase.locked lease critical) op change) :
    Filled cfg text (s.apply i query change) := by
  obtain ⟨completion, rfl⟩ := hf.leaving i _ lease critical hi rfl
  -- A call that leaves writes nothing but the lock.
  have hcache := hm.store_cacheKey text
  rcases hcache with hsame | ⟨-, l, v, d, hphase, -⟩
  · cases hm with
    | giveUp unlocked failed => exact unlocked.elim
    | hit reads => exact reads.elim
    | released =>
      rename_i fate
      refine ⟨?_, ?_, ?_⟩
      · rw [State.apply, apiCalls_append, hf.count]
        cases fate <;> rfl
      · have hkey : (s.apply i query (releaseLock cfg s i text lease completion fate)).store
            (cacheKey cfg.embeddingModelName text) =
            s.store (cacheKey cfg.embeddingModelName text) := hsame
        rw [Redis.keyExists, Redis.lookup, hkey]
        exact hf.cached
      · intro j c l cr hc hp
        rcases apply_calls_some hc with ⟨rfl, rfl⟩ | ⟨hj, hc⟩
        · cases fate <;> cases hp
        · exact hf.leaving j c l cr hc hp
  · cases hphase

/-! ## At most one API call -/

/-- No call takes the lock while the cache is filled: at its `acquireLock`, the
cache entry is still absent or the lock is still held. -/
def NoLateLock (cfg : Config) (s : State) : Act → Prop
  | Act.call i (Op.redis _) => ∀ c, s.calls i = some c → c.phase = Phase.acquiring →
      Redis.keyExists s.now s.store (cacheKey cfg.embeddingModelName c.text) = true →
      Redis.keyExists s.now s.store (lockKey cfg.embeddingModelName c.text) = true
  | _ => True

/-- The steps of the searches for one text without faults or expiry. -/
structure Smooth (cfg : Config) (text : String) (s : State) (a : Act) : Prop where
  faultFree : FaultFree cfg text s a
  lock : Unexpired (lockKey cfg.embeddingModelName text) s a
  cache : Unexpired (cacheKey cfg.embeddingModelName text) s a
  answers : Answers s a

/-- All calls are for one text. -/
def SameText (text : String) (s : State) : Prop := ∀ j c, s.calls j = some c → c.text = text

theorem SameText.apply {query : String} {change : Change} (hs : SameText text s)
    (hq : normalizeKeyword query = text) : SameText text (s.apply i query change) := by
  intro j c hc
  rcases apply_calls_some hc with ⟨rfl, rfl⟩ | ⟨hj, hc⟩
  · exact hq
  · exact hs j c hc

/-- All calls of the run are for one text. -/
theorem sameText_step : (machine cfg).KeepsIf (FaultFree cfg text) (SameText text) := by
  intro s a t hs hok h
  rcases step_cases h with ⟨i, query, rfl, hc, rfl⟩ | ⟨i, op, c, change, rfl, hc, hm, rfl⟩ |
    ⟨key, entry, rfl, hkey, rfl⟩ | ⟨ms, rfl, rfl⟩
  · exact hs.apply hok
  · exact hs.apply (hs i c hc)
  · exact hs
  · exact hs

theorem begins_outside (query : String) :
    (begins s query).phase.outside ∧ (begins s query).store = s.store := by
  unfold begins
  split <;> exact ⟨by simp [Phase.outside, State.giveUp, State.goto], rfl⟩

/-- What other parties and the clock do to the rest of the world leaves the stage as it is,
when the two keys of the text look the same. The run is one without expiry, which is what
makes them look the same after a tick. -/
theorem Staged.of_same_lookups (hs : Staged cfg text s) {u : State} (hcalls : u.calls = s.calls)
    (hlog : u.log = s.log)
    (hlock : Redis.lookup u.now u.store (lockKey cfg.embeddingModelName text) =
      Redis.lookup s.now s.store (lockKey cfg.embeddingModelName text))
    (hcache : Redis.lookup u.now u.store (cacheKey cfg.embeddingModelName text) =
      Redis.lookup s.now s.store (cacheKey cfg.embeddingModelName text)) :
    Staged cfg text u := by
  rcases hs with hq | ⟨holder, hw⟩ | hf
  · refine Or.inl ⟨by rw [hlog, hq.count], ?_⟩
    rw [hcalls]
    exact hq.outside
  · refine Or.inr (Or.inl ⟨holder, ?_, ?_, ?_⟩)
    · rw [Redis.keyExists, hlock]
      exact hw.taken
    · rw [hcalls]
      exact hw.others
    · rw [hcalls, hlog]
      exact hw.stage
  · refine Or.inr (Or.inr ⟨by rw [hlog, hf.count], ?_, ?_⟩)
    · rw [Redis.keyExists, hcache]
      exact hf.cached
    · rw [hcalls]
      exact hf.leaving

/-- All calls are for one text, and the searches are in one of the stages. -/
def Searching (cfg : Config) (text : String) (s : State) : Prop :=
  SameText text s ∧ Staged cfg text s

/-- A step of a call, when no operation fails and no lock is taken late. -/
theorem Staged.apply_call (hs : Staged cfg text s) {c : Call} {op : Op} {change : Change}
    (hc : s.calls i = some c) (htext : c.text = text) (hm : Moves cfg s i text c.phase op change)
    (hok : ∀ fate, op = Op.redis fate → fate = Fate.ok)
    (hans : ∀ reply, op = Op.answer reply →
      ∃ vector rest, vector ≠ [] ∧ reply = Reply.embeddings (vector :: rest))
    (hlate : NoLateLock cfg s (Act.call i op)) : Staged cfg text (s.apply i c.query change) := by
  -- a call outside the section can enter it with this step; one inside is the holder or on
  -- its way out
  by_cases hout : c.phase.outside
  · obtain ⟨hevents, ⟨hstore, hafter⟩ | ⟨hphase, hfree, hnew, hstore⟩⟩ :=
      hm.from_outside hout hok
    · refine hs.apply_outside ?_ hafter hstore hevents
      intro c' hc'
      rw [hc] at hc'
      cases hc'
      exact hout
    · refine hs.apply_acquired hfree ?_ hevents hnew hstore
      rw [hphase] at hm
      -- It takes the lock, which `hlate` allows only while the cache is empty.
      have hop : ∃ fate, op = Op.redis fate := by
        cases hm <;> exact ⟨_, rfl⟩
      obtain ⟨fate, rfl⟩ := hop
      by_contra hfilled
      have htaken := hlate c hc hphase (by rw [htext]; simpa using hfilled)
      rw [htext, hfree] at htaken
      cases htaken
  · -- the call is inside the section
    obtain ⟨query, phase⟩ := c
    unfold Phase.outside at hout
    push Not at hout
    obtain ⟨lease, critical, rfl⟩ := hout
    rcases hs with hq | ⟨holder, hw⟩ | hf
    · -- Nobody, one call or only calls on their way out can be inside.
      exact absurd rfl (hq.outside i _ hc _ _)
    · by_cases hi : i = holder
      · subst hi
        exact hw.apply_holder hc hm hok hans
      · exact absurd rfl (hw.others i _ hi hc _ _)
    · exact Or.inr (Or.inr (hf.apply_leaving hc hm))

/-- **Step.** Every step without faults, without expiry and without a late lock keeps the
stage. -/
theorem searching_step :
    (machine cfg).KeepsIf (fun s a => Smooth cfg text s a ∧ NoLateLock cfg s a)
      (Searching cfg text) := by
  rintro s a t ⟨htexts, hs⟩ ⟨hsmooth, hlate⟩ h
  refine ⟨sameText_step s a t htexts hsmooth.faultFree h, ?_⟩
  rcases step_cases h with ⟨i, query, rfl, hc, rfl⟩ | ⟨i, op, c, change, rfl, hc, hm, rfl⟩ |
    ⟨key, entry, rfl, hkey, rfl⟩ | ⟨ms, rfl, rfl⟩
  · -- A new call.
    have hb := begins_outside (s := s) query
    refine hs.apply_outside ?_ hb.1 hb.2 ?_
    · intro c hc'
      rw [hc] at hc'
      cases hc'
    · rw [begins_events]
      rfl
  · have htext := htexts i c hc
    have hok : ∀ fate, op = Op.redis fate → fate = Fate.ok := by
      rintro fate rfl
      exact hsmooth.faultFree
    have hans : ∀ reply, op = Op.answer reply →
        ∃ vector rest, vector ≠ [] ∧ reply = Reply.embeddings (vector :: rest) := by
      rintro reply rfl
      exact hsmooth.answers
    rw [htext] at hm
    exact hs.apply_call hc htext hm hok hans hlate
  · -- Other parties, and then time.
    obtain ⟨hcache, hlock⟩ := hsmooth.faultFree
    refine hs.of_same_lookups rfl rfl ?_ ?_
    · simp only [Redis.lookup, Function.update_of_ne hlock.symm]
    · simp only [Redis.lookup, Function.update_of_ne hcache.symm]
  · refine hs.of_same_lookups rfl rfl ?_ ?_
    · exact lookup_tick hsmooth.lock
    · exact lookup_tick hsmooth.cache

/-! ## A late lock costs a second call -/

/-- Call `i` called the API. -/
def CalledApi (i : ℕ) (log : List Event) : Prop := ∃ u, Event.embedContent i u ∈ log

/-- What the phase of a call says about its call to the API: it comes after the
acquisition of the lock and before the first `setCache` or `releaseLock`. -/
def Accounts (called locked : Prop) : Phase → Prop
  | Phase.locked _ Critical.queued => True
  | Phase.locked _ _ => called
  | Phase.settled _ => locked → called
  | _ => ¬ called

structure Accounted (cfg : Config) (text : String) (s : State) : Prop where
  fresh : ∀ i, s.calls i = none → ¬ CalledApi i s.log
  calls : ∀ i c, s.calls i = some c →
    Accounts (CalledApi i s.log) (lockTrace i s.log ≠ []) c.phase
  cached : s.store (cacheKey cfg.embeddingModelName text) ≠ none → ∃ j, CalledApi j s.log

theorem CalledApi.append {log : List Event} (events : List Event) (h : CalledApi i log) :
    CalledApi i (log ++ events) := by
  obtain ⟨u, hu⟩ := h
  exact ⟨u, List.mem_append_left _ hu⟩

/-- What the phase of a call says about its past: a call that has the lock and is past its
request has called the API. This is for the converse, where every call that took the lock is
held to have made its request. -/
theorem Moves.accounts {phase : Phase} {op : Op} {change : Change} {called locked : Prop}
    (h : Moves cfg s i text phase op change) (hold : Accounts called locked phase)
    (hopen : phase.unlocked → ¬ locked) :
    Accounts (called ∨ CalledApi i change.events)
      (locked ∨ lockTrace i change.events ≠ []) change.phase := by
  have hcall : ∀ lease attempt permits,
      CalledApi i (callApi s i text lease attempt permits).events :=
    fun _ _ _ => ⟨text, List.mem_singleton.2 rfl⟩
  -- A call that ends before it took the lock owes no call to the API.
  have hnever : ∀ {events : List Event}, lockTrace i events = [] → phase.unlocked →
      (locked ∨ lockTrace i events ≠ []) → called ∨ CalledApi i events := by
    rintro events hnil hun (hl | hl)
    · exact absurd hl (hopen hun)
    · exact absurd hnil hl
  -- A step without events makes no call to the API.
  have hstays : ∀ {events : List Event}, events = [] → ¬ called →
      ¬ (called ∨ CalledApi i events) := by
    rintro events rfl hc (h | ⟨u, hu⟩)
    · exact hc h
    · cases hu
  cases h with
  | giveUp unlocked failed => exact hnever rfl unlocked
  | hit reads found => exact hnever rfl reads.unlocked
  | acquireLost => exact hnever rfl trivial
  | timedOut last held => exact hnever rfl trivial
  | lockGone free => exact hnever rfl trivial
  | readMiss missed => exact hstays rfl hold
  | pollMiss missed => exact hstays rfl hold
  | woke due => exact hstays rfl hold
  | again more held => exact hstays rfl hold
  | acquired free => trivial
  | busy taken =>
    rintro (hc | ⟨u, hu⟩)
    · exact hold hc
    · cases List.mem_singleton.1 hu
  | permit room => exact Or.inr (hcall _ _ _)
  | retried due => exact Or.inr (hcall _ _ _)
  | rethrown bad => exact Or.inl hold
  | paused bad more => exact Or.inl hold
  | answered =>
    simp only [EmbedSearchQuery.answered, leave]
    split <;> exact Or.inl hold
  | stored => rename_i fate; cases fate <;> exact Or.inl hold
  | released => rename_i fate; cases fate <;> exact fun _ => Or.inl hold

theorem Accounts.iff {called called' locked locked' : Prop} {phase : Phase}
    (h : Accounts called locked phase) (hc : called ↔ called') (hl : locked' ↔ locked) :
    Accounts called' locked' phase := by
  rwa [← propext hc, propext hl]

theorem calledApi_append {log events : List Event} :
    CalledApi i (log ++ events) ↔ CalledApi i log ∨ CalledApi i events := by
  simp only [CalledApi, List.mem_append, exists_or]

theorem lockTrace_append_ne {log events : List Event} :
    lockTrace i (log ++ events) ≠ [] ↔ lockTrace i log ≠ [] ∨ lockTrace i events ≠ [] := by
  rw [lockTrace_append, Ne, List.append_eq_nil_iff, not_and_or]

/-- The account of the calls after a step of call `i`. The cache is filled by calls that
called the API, and by nobody else. -/
theorem Accounted.apply (hs : Accounted cfg text s) {query : String} {change : Change}
    (hother : ∀ j, j ≠ i → ¬ CalledApi j change.events ∧ lockTrace j change.events = [])
    (hself : Accounts (CalledApi i s.log ∨ CalledApi i change.events)
      (lockTrace i s.log ≠ [] ∨ lockTrace i change.events ≠ []) change.phase)
    (hcached : change.store (cacheKey cfg.embeddingModelName text) ≠ none →
      ∃ j, CalledApi j s.log) :
    Accounted cfg text (s.apply i query change) := by
  refine ⟨?_, ?_, ?_⟩
  · intro j hj
    obtain ⟨hji, hj⟩ := apply_calls_none hj
    simp only [State.apply, calledApi_append, not_or]
    exact ⟨hs.fresh j hj, (hother j hji).1⟩
  · intro j c hc
    rcases apply_calls_some hc with ⟨rfl, rfl⟩ | ⟨hji, hc⟩
    · exact hself.iff calledApi_append.symm lockTrace_append_ne
    · refine (hs.calls j c hc).iff ?_ ?_
      · simp only [State.apply, calledApi_append, (hother j hji).1, or_false]
      · simp only [State.apply, lockTrace_append, (hother j hji).2, List.append_nil]
  · intro hne
    obtain ⟨j, hj⟩ := hcached hne
    exact ⟨j, hj.append _⟩

/-- A call that begins has called nobody. -/
theorem Accounted.begins (hs : Accounted cfg text s) (htr : Traced cfg s) (query : String)
    (hc : s.calls i = none) : Accounted cfg text (s.apply i query (begins s query)) := by
  have hev := begins_events (s := s) query
  have hnone : ¬ (CalledApi i s.log ∨ CalledApi i (EmbedSearchQuery.begins s query).events) := by
    rintro (hold | ⟨u, hu⟩)
    · exact hs.fresh i hc hold
    · rw [hev] at hu
      cases hu
  refine hs.apply ?_ ?_ ?_
  · intro j _
    rw [hev]
    refine ⟨?_, rfl⟩
    rintro ⟨u, hu⟩
    cases hu
  · -- A blank query ends at once, and without a lock.
    unfold EmbedSearchQuery.begins at hnone ⊢
    split
    · rintro (hl | hl)
      · exact absurd (htr.1 i hc) hl
      · exact absurd rfl hl
    · next hblank =>
      rw [if_neg hblank] at hnone
      exact hnone
  · rw [(begins_outside (s := s) query).2]
    exact hs.cached

/-- **Step.** Every step keeps the account, faults or not. -/
theorem accounted_step :
    (machine cfg).Keeps (fun s => Traced cfg s ∧ Accounted cfg text s) := by
  rintro s a t ⟨htr, hs⟩ h
  refine ⟨traced_step s a t htr h, ?_⟩
  rcases step_cases h with ⟨i, query, rfl, hc, rfl⟩ | ⟨i, op, c, change, rfl, hc, hm, rfl⟩ |
    ⟨key, entry, rfl, hkey, rfl⟩ | ⟨ms, rfl, rfl⟩
  · exact hs.begins htr query hc
  · have htrace := htr.2 i c hc
    have haccount := hs.calls i c hc
    refine hs.apply ?_ ?_ ?_
    · intro j hj
      exact ⟨fun ⟨_, hcall⟩ => hj (hm.embedContent_mem hcall).1, hm.lockTrace_ne hj⟩
    · refine hm.accounts haccount ?_
      intro hun hne
      obtain ⟨query, phase⟩ := c
      cases phase with
      | locked | settled | sleeping => exact hun.elim
      | _ => exact hne htrace
    · intro hne
      rcases hm.store_cacheKey text with hsame | ⟨-, lease, v, d, hphase, -⟩
      · rw [hsame] at hne
        exact hs.cached hne
      · -- The entry is written by a call that has a vector from the API.
        rw [hphase] at haccount
        exact ⟨i, haccount⟩
  · refine ⟨hs.fresh, hs.calls, ?_⟩
    intro hne
    by_cases hk : cacheKey cfg.embeddingModelName text = key
    · rw [← hk] at hkey hne
      simp only [Function.update_self] at hne
      exact absurd (isPrefixOf_cacheKey _ _) (hkey (Option.isSome_iff_ne_none.2 hne))
    · simp only [Function.update_of_ne hk] at hne
      exact hs.cached hne
  · exact ⟨hs.fresh, hs.calls, hs.cached⟩

/-- The log only grows. -/
theorem log_grows {as : List Act} (h : (machine cfg).run as s = some t) : s.log <+: t.log := by
  refine StepMachine.run_rel (R := fun s t : State => s.log <+: t.log) _
    (fun s => List.prefix_refl s.log) (fun s t u => List.IsPrefix.trans) ?_ h
  intro s a t h
  rcases step_cases h with ⟨i, query, rfl, hc, rfl⟩ | ⟨i, op, c, change, rfl, hc, hm, rfl⟩ |
    ⟨key, entry, rfl, hkey, rfl⟩ | ⟨ms, rfl, rfl⟩
  · exact List.prefix_append _ _
  · exact List.prefix_append _ _
  · exact List.prefix_refl _
  · exact List.prefix_refl _

/-- Two calls that called the API made two calls to it. -/
theorem two_le_apiCalls {log : List Event} {i j : ℕ} (hi : CalledApi i log)
    (hj : CalledApi j log) (hne : i ≠ j) : 2 ≤ apiCalls log := by
  obtain ⟨u, hu⟩ := hi
  obtain ⟨v, hv⟩ := hj
  have hnodup : [Event.embedContent i u, Event.embedContent j v].Nodup := by
    simp [hne]
  -- The two events differ in the call, so the log holds both.
  have hsub : [Event.embedContent i u, Event.embedContent j v].Subperm log := by
    refine List.subperm_of_subset hnodup ?_
    intro e he
    rcases List.mem_cons.1 he with rfl | he
    · exact hu
    · rw [List.mem_singleton.1 he]
      exact hv
  exact hsub.countP_le fun e => match e with | Event.embedContent _ _ => true | _ => false

/-- An `acquireLock` on a free lock shows in the log. -/
theorem log_of_acquire {c : Call} (hc : s.calls i = some c) (hphase : c.phase = Phase.acquiring)
    (hfree : Redis.keyExists s.now s.store (lockKey cfg.embeddingModelName c.text) = false)
    (h : step cfg s (Act.call i (Op.redis Fate.ok)) = some t) :
    ∃ key token, t.log = s.log ++ [Event.acquired i key token] := by
  obtain ⟨change, hm, rfl⟩ := step_call hc h
  rw [hphase] at hm
  cases hm with
  | giveUp unlocked failed => exact absurd rfl failed
  | hit reads => exact reads.elim
  | busy taken =>
    rw [hfree] at taken
    cases taken
  | acquired free => exact ⟨_, _, rfl⟩

/-- A call that takes the lock over a filled cache calls the API, as the one that has filled
the cache did. It does not look into the cache again once it has the lock, so the filled cache
does not keep it from its request. -/
theorem two_le_of_lateLock {n : State} {post : List Act} {c : Call} (hs : Accounted cfg text s)
    (ht : Accounted cfg text t) (hc : s.calls i = some c) (hphase : c.phase = Phase.acquiring)
    (hfilled : s.store (cacheKey cfg.embeddingModelName text) ≠ none)
    (hfree : Redis.keyExists s.now s.store (lockKey cfg.embeddingModelName c.text) = false)
    (hstep : step cfg s (Act.call i (Op.redis Fate.ok)) = some n)
    (hpost : (machine cfg).run post n = some t)
    (hended : ∀ i c, t.calls i = some c → ∃ r, c.phase = Phase.settled r) : 2 ≤ apiCalls t.log := by
  -- an earlier call filled the cache
  obtain ⟨j, u, hj⟩ := hs.cached hfilled
  have haccount := hs.calls i c hc
  rw [hphase] at haccount
  have hne : i ≠ j := by
    rintro rfl
    exact haccount ⟨u, hj⟩
  have hrun : (machine cfg).run (Act.call i (Op.redis Fate.ok) :: post) s = some t :=
    ((machine cfg).run_cons_eq_some).2 ⟨n, hstep, hpost⟩
  -- and call `i` takes the lock and calls the API as well
  have hlocked : lockTrace i n.log ≠ [] := by
    obtain ⟨key, token, hlog⟩ := log_of_acquire hc hphase hfree hstep
    rw [hlog, lockTrace_append_ne]
    exact Or.inr (by simp [lockTrace, Event.lockOf])
  -- It has ended in `t`, and a call that held the lock ends with a call to the API behind it.
  obtain ⟨d, hd, -⟩ := calls_step hstep hc
  obtain ⟨e, he, -⟩ := calls_run hpost hd
  obtain ⟨r, hr⟩ := hended i e he
  have hend := ht.calls i e he
  rw [hr] at hend
  have hi : CalledApi i t.log := by
    apply hend
    obtain ⟨rest, hrest⟩ := log_grows hpost
    rw [← hrest, lockTrace_append_ne]
    exact Or.inl hlocked
  exact two_le_apiCalls hi ⟨u, (log_grows hrun).subset hj⟩ hne

/-- **When the searches for one text make one API call.** Without faults and expiry, they make
at most one call in every run in which no call takes the lock over a filled cache; and a run
in which every call has ended made at most one only if it is such a run. What the notes on
load tests promise for concurrent requests, exactly one call, is thus right for all but these
orders of steps (`lateLock_calls_twice`). -/
theorem embedContent_once (cfg : Config) (now : ℕ) (store : Store) (text : String)
    (hcache : store (cacheKey cfg.embeddingModelName text) = none) (as : List Act) (t : State)
    (hrun : (machine cfg).run as (initial now store) = some t)
    (hsmooth : (machine cfg).Meets (Smooth cfg text) as (initial now store)) :
    ((machine cfg).Meets (NoLateLock cfg) as (initial now store) → apiCalls t.log ≤ 1) ∧
    ((∀ i c, t.calls i = some c → ∃ r, c.phase = Phase.settled r) → apiCalls t.log ≤ 1 →
      (machine cfg).Meets (NoLateLock cfg) as (initial now store)) := by
  have hnone : ∀ {i : ℕ} {c : Call}, (initial now store).calls i = some c → False := by
    intro i c hc
    cases hc
  constructor
  · -- enough: no late lock, so the run stays in `Searching`
    intro hlate
    have hinit : Searching cfg text (initial now store) :=
      ⟨fun _ _ hc => (hnone hc).elim, Or.inl ⟨rfl, fun _ _ hc => (hnone hc).elim⟩⟩
    exact (StepMachine.KeepsIf.run _ searching_step hinit (hsmooth.and _ hlate) hrun).2.apiCalls_le
  · -- necessary: a late lock leads to a second call of the API by the end of the run
    intro hended hle
    -- The step `a` after the run `pre`; only an `acquireLock` is asked about.
    rw [StepMachine.meets_iff]
    intro pre a post m has hpre
    have hinit : Traced cfg (initial now store) ∧ Accounted cfg text (initial now store) := by
      refine ⟨⟨fun _ _ => rfl, fun _ _ hc => (hnone hc).elim⟩, ?_, fun _ _ hc => (hnone hc).elim, ?_⟩
      · rintro i - ⟨u, hu⟩
        cases hu
      · exact fun hne => absurd hcache hne
    have hm := StepMachine.Keeps.run _ accounted_step hinit hpre
    have ht := StepMachine.Keeps.run _ accounted_step hinit hrun
    have hfault := ((StepMachine.meets_iff _).1 hsmooth pre a post m has hpre).faultFree
    rw [has] at hrun hsmooth
    have htexts : SameText text m := by
      refine StepMachine.KeepsIf.run _ sameText_step (fun _ _ hc => (hnone hc).elim) ?_ hpre
      exact StepMachine.Meets.mono _ (fun _ _ h => h.faultFree) (hsmooth.left _)
    obtain ⟨m', hpre', hrun⟩ := (StepMachine.run_append_eq_some _).1 hrun
    obtain rfl : m = m' := Option.some.inj (hpre.symm.trans hpre')
    obtain ⟨n, hstep, hpost⟩ := ((machine cfg).run_cons_eq_some).1 hrun
    have hstep : step cfg m a = some n := hstep
    cases a with
    | call i op =>
      cases op with
      | redis fate =>
        intro c hc hphase hcached
        by_contra hfree
        obtain rfl : fate = Fate.ok := hfault
        have htext : c.text = text := htexts i c hc
        have hfilled : m.store (cacheKey cfg.embeddingModelName text) ≠ none := by
          intro hnil
          rw [htext, Redis.keyExists, Redis.lookup, hnil] at hcached
          cases hcached
        have htwo := two_le_of_lateLock hm.2 ht.2 hc hphase hfilled (by simpa using hfree) hstep
          hpost hended
        omega
      | _ => trivial
    | _ => trivial

/-! ## The late call -/

/-- Two searches miss the cache; the first fills it and leaves before the second
asks for the lock. -/
def lateLock : List Act :=
  [Act.start 0 "redis", Act.start 1 "redis", Act.call 0 (Op.redis Fate.ok),
    Act.call 1 (Op.redis Fate.ok), Act.call 0 (Op.redis Fate.ok), Act.call 0 Op.permit,
    Act.call 0 (Op.answer (Reply.embeddings [[Binary64.ofInt 7]])), Act.call 0 (Op.redis Fate.ok),
    Act.call 0 (Op.redis Fate.ok), Act.call 1 (Op.redis Fate.ok), Act.call 1 Op.permit,
    Act.call 1 (Op.answer (Reply.embeddings [[Binary64.ofInt 7]])), Act.call 1 (Op.redis Fate.ok),
    Act.call 1 (Op.redis Fate.ok)]

/-- No command fails in the run, no time passes and the API answers. -/
theorem lateLock_smooth (s : State) :
    (machine testConfig).Meets (Smooth testConfig "redis") lateLock s := by
  apply StepMachine.Meets.of_labels
  intro a ha s
  have hnorm : normalizeKeyword "redis" = "redis" := by decide +kernel
  simp only [lateLock, List.mem_cons, List.not_mem_nil, or_false] at ha
  rcases ha with rfl | rfl | rfl | rfl | rfl | rfl | rfl | rfl | rfl | rfl | rfl | rfl | rfl | rfl <;>
    exact ⟨by first | exact hnorm | rfl | trivial, trivial, trivial,
      by first | trivial | exact ⟨_, _, by simp, rfl⟩⟩

theorem lateLock_run :
    ∃ t, (machine testConfig).run lateLock (initial 0 emptyStore) = some t ∧ apiCalls t.log = 2 := by
  have hcalls : ((machine testConfig).run lateLock (initial 0 emptyStore)).map
      (fun t => apiCalls t.log) = some 2 := by
    decide +kernel
  exact Option.map_eq_some_iff.1 hcalls

/-- The second search calls the API although the cache is filled. -/
theorem lateLock_calls_twice :
    ∃ t, (machine testConfig).run lateLock (initial 0 emptyStore) = some t ∧
      (machine testConfig).Meets (Smooth testConfig "redis") lateLock (initial 0 emptyStore) ∧
      ¬ apiCalls t.log ≤ 1 := by
  obtain ⟨t, ht, hcount⟩ := lateLock_run
  exact ⟨t, ht, lateLock_smooth _, by omega⟩

/-- The run has a late lock. -/
theorem embedContent_once_lateLock :
    ¬ (machine testConfig).Meets (NoLateLock testConfig) lateLock (initial 0 emptyStore) := by
  obtain ⟨t, ht, hcount⟩ := lateLock_run
  intro hlate
  have hle := (embedContent_once testConfig 0 emptyStore "redis" rfl lateLock t ht
    (lateLock_smooth _)).1 hlate
  omega

end EmbedSearchQuery

end TechTrends
