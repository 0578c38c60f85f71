/-
What a search embedding can be: whatever fails and in whatever order the calls
run, a call ends with `null` or with a vector that the API gave for its own text.

Vectors travel between calls through the cache, so the invariant `Sound` speaks
of the store as well as of the calls: every entry under a cache key is the text
of a vector that the API returned for the key's text. The bookkeeping of the
lock and of the semaphore, and the fact that a call always comes to an end, are
invariants of their own.
-/
import TechTrends.SearchEmbedding

set_option autoImplicit false

namespace TechTrends

namespace EmbedSearchQuery

open AiService (cacheKey lockKey normalizeKeyword isBlank cacheKey_inj cacheKey_ne_lockKey)

variable {cfg : Config} {s t : State} {i : ℕ} {text : String}

/-! ## Vectors -/

theorem vectorJson_wellFormed (vector : List Binary64) : (vectorJson vector).WellFormed := by
  unfold vectorJson Json.WellFormed
  induction vector with
  | nil => trivial
  | cons d ds ih => exact ⟨trivial, ih⟩

/-- A nonempty vector is usable as it is. -/
theorem usableVector_vectorJson {vector : List Binary64} (h : vector ≠ []) :
    usableVector (vectorJson vector) = some (vector.map Json.num) := by
  obtain ⟨d, ds, rfl⟩ := List.exists_cons_of_ne_nil h
  rfl

/-- The API returned this vector for this text. -/
def Returned (log : List Event) (text : String) (vector : List Binary64) : Prop :=
  vector ≠ [] ∧ Event.embedded text vector ∈ log

theorem Returned.append {log : List Event} {vector : List Binary64} (events : List Event)
    (h : Returned log text vector) : Returned (log ++ events) text vector :=
  ⟨h.1, List.mem_append_left _ h.2⟩

/-- The vectors a phase carries were returned. -/
def Backed (returned : List Binary64 → Prop) : Phase → Prop
  | Phase.locked _ (Critical.storing vector) => returned vector
  | Phase.locked _ (Critical.releasing (Completion.returns (some vector))) => returned vector
  | Phase.settled (some result) => ∃ vector, returned vector ∧ result = vector.map Json.num
  | _ => True

/-- A weaker property of the vector at hand. -/
theorem Backed.mono {P Q : List Binary64 → Prop} (h : ∀ v, P v → Q v) {phase : Phase}
    (hb : Backed P phase) : Backed Q phase := by
  unfold Backed at hb ⊢
  split
  · exact h _ hb
  · exact h _ hb
  · obtain ⟨v, hv, hr⟩ := hb
    exact ⟨v, h v hv, hr⟩
  · trivial

/-- The entry is the text of a vector that the API returned for `text`. -/
def BackedEntry (log : List Event) (text : String) (e : Entry) : Prop :=
  ∃ vector, Returned log text vector ∧ e.value = RedisService.serialized (vectorJson vector)

/-- Every vector a call carries, the store holds or the log shows being written
was returned by the API for the text it stands under. -/
structure Sound (cfg : Config) (s : State) : Prop where
  calls : ∀ i c, s.calls i = some c → Backed (Returned s.log c.text) c.phase
  store : ∀ text e, s.store (cacheKey cfg.embeddingModelName text) = some e →
    BackedEntry s.log text e
  written : ∀ key value, Event.setCache key value ∈ s.log →
    ∃ text vector, Returned s.log text vector ∧ key = cacheKey cfg.embeddingModelName text ∧
      value = vectorJson vector

/-- A hit on a backed entry is a returned vector: what was written by `JSON.stringify` is read
back as it was. -/
theorem Sound.hit (h : Sound cfg s) {vector : List Json}
    (hv : usableVector
      (RedisService.getCache s.now s.store (cacheKey cfg.embeddingModelName text)) = some vector) :
    ∃ v, Returned s.log text v ∧ vector = v.map Json.num := by
  have hread : ∀ json, (∃ v, Returned s.log text v ∧ json = vectorJson v) →
      json.WellFormed ∧ ∀ t, json ≠ Json.str t := by
    rintro json ⟨v, -, rfl⟩
    exact ⟨vectorJson_wellFormed v, by simp [vectorJson]⟩
  have hentries : ∀ e, s.store (cacheKey cfg.embeddingModelName text) = some e →
      ∃ json, (∃ v, Returned s.log text v ∧ json = vectorJson v) ∧
        e.value = RedisService.serialized json := by
    intro e he
    obtain ⟨v, hret, htext⟩ := h.store text e he
    exact ⟨vectorJson v, ⟨v, hret, rfl⟩, htext⟩
  rcases RedisService.getCache_of_entries hread hentries s.now with hnull | ⟨v, hret, hjson⟩
  · rw [hnull] at hv
    cases hv
  · rw [hjson, usableVector_vectorJson hret.1] at hv
    exact ⟨v, hret, (Option.some.inj hv).symm⟩

/-! ## What one step writes -/

/-- A step changes the cache entry of its own text only, and only from `storing`. So a vector
gets under a key by one way, from the request for its text. -/
theorem Moves.store_cacheKey {phase : Phase} {op : Op} {change : Change}
    (h : Moves cfg s i text phase op change) (u : String) :
    change.store (cacheKey cfg.embeddingModelName u) =
        s.store (cacheKey cfg.embeddingModelName u) ∨
      u = text ∧ ∃ lease vector deadline, phase = Phase.locked lease (Critical.storing vector) ∧
        change.store (cacheKey cfg.embeddingModelName u) =
          some ⟨RedisService.serialized (vectorJson vector), deadline⟩ := by
  have hlock := cacheKey_ne_lockKey cfg.embeddingModelName u text
  cases h with
  | acquireLost =>
    left
    unfold RedisService.acquireLock
    split
    · rfl
    · simp only [Redis.set, Function.update_of_ne hlock]
  | acquired free =>
    left
    simp only [Redis.set, Function.update_of_ne hlock]
  | @stored lease vector fate =>
    by_cases hu : u = text
    · subst hu
      obtain ⟨deadline, hset⟩ := RedisService.setCache_self s.now s.store
        (cacheKey cfg.embeddingModelName u) (vectorJson vector) cfg.embeddingTtlSeconds
      cases fate with
      | failed => exact Or.inl rfl
      | ok => exact Or.inr ⟨rfl, lease, vector, deadline, rfl, hset⟩
      | lost => exact Or.inr ⟨rfl, lease, vector, deadline, rfl, hset⟩
    · left
      have hne : cacheKey cfg.embeddingModelName u ≠ cacheKey cfg.embeddingModelName text :=
        fun hk => hu (cacheKey_inj hk)
      cases fate with
      | failed => rfl
      | ok => exact RedisService.setCache_ne _ _ _ _ hne
      | lost => exact RedisService.setCache_ne _ _ _ _ hne
  | @released lease completion fate =>
    left
    cases fate <;> simp only [releaseLock, RedisService.releaseLock]
    all_goals
      split <;> simp only [Redis.del, Function.update_of_ne hlock]
  | answered =>
    left
    rfl
  | _ => exact Or.inl rfl

/-- Only a `storing` step calls `setCache`, with its vector under its own key. -/
theorem Moves.setCache_mem {phase : Phase} {op : Op} {change : Change}
    (h : Moves cfg s i text phase op change) {key : String} {value : Json}
    (hmem : Event.setCache key value ∈ change.events) :
    ∃ lease vector, phase = Phase.locked lease (Critical.storing vector) ∧
      key = cacheKey cfg.embeddingModelName text ∧ value = vectorJson vector := by
  cases h with
  | @stored lease vector fate =>
    have he : Event.setCache key value ∈
        [Event.setCache (cacheKey cfg.embeddingModelName text) (vectorJson vector)] := by
      cases fate <;> exact hmem
    rw [List.mem_singleton, Event.setCache.injEq] at he
    exact ⟨lease, vector, rfl, he.1, he.2⟩
  | released => rename_i fate; cases fate <;> simp [releaseLock] at hmem
  | _ => simp [State.goto, State.giveUp, callApi, leave, EmbedSearchQuery.answered] at hmem

/-- A step carries on a vector that was returned, or one the API returns in it. No phase makes
up a vector, not even an empty one: an answer without a vector is an error. -/
theorem Moves.backed {phase : Phase} {op : Op} {change : Change} (hs : Sound cfg s)
    (h : Moves cfg s i text phase op change) (hb : Backed (Returned s.log text) phase) :
    Backed (Returned (s.log ++ change.events) text) change.phase := by
  cases h with
  | hit reads found =>
    obtain ⟨v, hret, hv⟩ := hs.hit found
    exact ⟨v, hret.append _, hv⟩
  | @answered lease attempt vector rest =>
    simp only [EmbedSearchQuery.answered, leave]
    by_cases hv : vector = []
    · rw [if_pos hv]
      trivial
    · rw [if_neg hv]
      exact ⟨hv, List.mem_append_right _ (List.mem_singleton.2 rfl)⟩
  | @stored lease vector fate =>
    cases fate with
    | ok => exact Returned.append _ hb
    | failed => trivial
    | lost => trivial
  | @released lease completion fate =>
    cases fate with
    | failed => trivial
    | lost => trivial
    | ok =>
      cases completion with
      | throws => trivial
      | returns vector =>
        cases vector with
        | none => trivial
        | some v => exact ⟨v, Returned.append _ hb, rfl⟩
  | _ => trivial

theorem begins_backed (query : String) (returned : List Binary64 → Prop) :
    Backed returned (begins s query).phase := by
  unfold begins
  split <;> trivial

/-! ## `Sound` is an invariant -/

/-- At the start the cache has no vectors, or none that the service can use. -/
theorem sound_initial (now : ℕ) {store : Store} (h : NoVectors cfg store) :
    Sound cfg (initial now store) := by
  refine ⟨?_, ?_, ?_⟩
  · intro i c hc
    cases hc
  · intro text e he
    have hnone : (initial now store).store (cacheKey cfg.embeddingModelName text) = none := h text
    rw [hnone] at he
    cases he
  · intro key value hm
    cases hm

theorem Sound.apply_calls (hs : Sound cfg s) {query : String} {change : Change}
    (hphase : Backed (Returned (s.log ++ change.events) (normalizeKeyword query)) change.phase) :
    ∀ j c, (s.apply i query change).calls j = some c →
      Backed (Returned (s.apply i query change).log c.text) c.phase := by
  intro j c hc
  rcases apply_calls_some hc with ⟨rfl, rfl⟩ | ⟨hj, hc⟩
  · exact hphase
  · exact (hs.calls j c hc).mono fun v hv => hv.append _

theorem BackedEntry.append {log : List Event} {e : Entry} (events : List Event)
    (h : BackedEntry log text e) : BackedEntry (log ++ events) text e := by
  obtain ⟨v, hv, he⟩ := h
  exact ⟨v, hv.append _, he⟩

/-- **Step.** Calls and entries have only vectors that the API returned for their text. An
entry that goes, by expiry or by another party, is no harm. -/
theorem sound_step : (machine cfg).Keeps (Sound cfg) := by
  intro s a t hs h
  rcases step_cases h with ⟨i, query, rfl, hc, rfl⟩ | ⟨i, op, c, change, rfl, hc, hm, rfl⟩ |
    ⟨key, entry, rfl, hkey, rfl⟩ | ⟨ms, rfl, rfl⟩
  · have hb : (begins s query).events = [] ∧ (begins s query).store = s.store := by
      unfold begins
      split <;> exact ⟨rfl, rfl⟩
    refine ⟨hs.apply_calls (begins_backed _ _), ?_, ?_⟩
    · intro text e he
      simp only [State.apply, hb.2] at he
      exact (hs.store text e he).append _
    · intro key value hv
      simp only [State.apply, hb.1, List.append_nil] at hv ⊢
      exact hs.written key value hv
  · have hback := hs.calls i c hc
    refine ⟨hs.apply_calls (hm.backed hs hback), ?_, ?_⟩
    · intro u e he
      rcases hm.store_cacheKey u with hsame | ⟨rfl, lease, vector, deadline, hphase, hnew⟩
      · simp only [State.apply, hsame] at he
        exact (hs.store u e he).append _
      · simp only [State.apply, hnew, Option.some.injEq] at he
        rw [hphase] at hback
        exact ⟨vector, Returned.append _ hback, by rw [← he]⟩
    · intro key value hv
      simp only [State.apply, List.mem_append] at hv
      rcases hv with hold | hnew
      · obtain ⟨u, v, hret, hk, hval⟩ := hs.written key value hold
        exact ⟨u, v, hret.append _, hk, hval⟩
      · obtain ⟨lease, vector, hphase, hk, hval⟩ := hm.setCache_mem hnew
        rw [hphase] at hback
        exact ⟨_, vector, Returned.append _ hback, hk, hval⟩
  · -- an outside change never writes an embedding
    refine ⟨hs.calls, ?_, hs.written⟩
    intro u e he
    by_cases hk : cacheKey cfg.embeddingModelName u = key
    · -- the entry can only have vanished
      rw [← hk] at he hkey
      simp only [Function.update_self] at he
      rw [he] at hkey
      exact absurd (isPrefixOf_cacheKey _ _) (hkey rfl)
    · simp only [Function.update_of_ne hk] at he
      exact hs.store u e he
  · exact ⟨hs.calls, hs.store, hs.written⟩

end EmbedSearchQuery

end TechTrends
