/-
Which queries are embedded as something.

`embedSearchQuery` checks the query for blanks, and works with the normalized text
from there on: it is in the cache key, and it is what the API is given. The text
can be empty although the query is not.
-/
import TechTrends.KeywordNormal
import TechTrends.SearchEmbedding

set_option autoImplicit false

namespace TechTrends

namespace AiService

/-- A letter, a digit or a sign is left of a text exactly when it has one. The filter drops
all others, and blanks at the ends are trimmed. -/
theorem tidy_ne_nil_iff (cs : List Char) : tidy cs ≠ [] ↔ cs.any isInkChar = true := by
  rw [List.any_eq_true, ← List.countP_pos_iff, ← countP_tidy, List.countP_pos_iff]
  constructor
  · intro hne
    have htidy := tidy_tidy cs
    obtain ⟨c, hc⟩ : ∃ c, (tidy cs).head? = some c := ⟨_, List.head?_eq_some_head hne⟩
    have hmem := List.mem_of_mem_head? hc
    refine ⟨c, hmem, ?_⟩
    rw [isInkChar, htidy.kept c hmem, htidy.head c hc]
    rfl
  · rintro ⟨c, hc, -⟩
    exact List.ne_nil_of_mem hc

/-- The normal form is empty when nothing of it is left: when the text has only characters
outside the pattern, as Japanese ones, or when it is a question ending alone. -/
theorem normalizeKeyword_ne_empty_iff (keyword : String) :
    normalizeKeyword keyword ≠ "" ↔ (dropQuestionSuffix (lower keyword)).any isInkChar = true := by
  rw [normalizeKeyword_eq, ← tidy_ne_nil_iff, ne_eq, ne_eq, not_iff_not]
  exact ⟨fun h => String.ofList_injective h, fun h => by rw [h]⟩

end AiService

namespace EmbedSearchQuery

open AiService (cacheKey lower dropQuestionSuffix isInkChar normalizeKeyword isBlank
  normalizeKeyword_ne_empty_iff)

variable {cfg : Config}

/-! ## The text of a call -/

/-- Every request to the API carries the normalized query of a call that was made. -/
def SendsText (s : State) : Prop :=
  ∀ i text, Event.embedContent i text ∈ s.log → ∃ c, s.calls i = some c ∧ text = c.text

/-- A step of a call leaves its query as it is, and what it sends to the API is the normal
form of it. -/
theorem SendsText.apply {s : State} (h : SendsText s) {i : ℕ} {query : String} {change : Change}
    (hquery : ∀ c, s.calls i = some c → c.query = query)
    (hevents : ∀ j text, Event.embedContent j text ∈ change.events →
      j = i ∧ text = normalizeKeyword query) : SendsText (s.apply i query change) := by
  intro j text hmem
  rcases List.mem_append.1 hmem with hold | hnew
  · obtain ⟨c, hc, htext⟩ := h j text hold
    by_cases hj : j = i
    · rw [hj] at hc ⊢
      refine ⟨_, apply_calls_self query change, ?_⟩
      rw [htext, Call.text, hquery c hc]
      rfl
    · exact ⟨c, (apply_calls_ne query change hj).trans hc, htext⟩
  · obtain ⟨rfl, rfl⟩ := hevents j text hnew
    exact ⟨_, apply_calls_self query change, rfl⟩

/-- **Step.** What is sent is always such a text. -/
theorem sendsText_step : (machine cfg).Keeps SendsText := by
  intro s a t hs hstep
  rcases step_cases hstep with ⟨i, query, -, hnone, rfl⟩ | ⟨i, op, c, change, -, hc, hm, rfl⟩ |
    ⟨key, entry, -, -, rfl⟩ | ⟨ms, -, rfl⟩
  · refine hs.apply (fun c hc => by rw [hnone] at hc; cases hc) fun j text hmem => ?_
    unfold begins at hmem
    split at hmem <;> cases hmem
  · refine hs.apply (fun d hd => by rw [hc] at hd; cases hd; rfl) fun j text hmem => ?_
    exact hm.embedContent_mem hmem
  · exact hs
  · exact hs

/-! ## What is done for a query -/

/-- In a state: the text that is looked up in the cache for the query, that the API
is called with, and that a vector was found or made for is not empty. -/
structure UsesText (s : State) (query : String) : Prop where
  reads : ∀ i c, s.calls i = some c → c.query = query → c.phase.readsCache → c.text ≠ ""
  sends : ∀ i c text, s.calls i = some c → c.query = query → Event.embedContent i text ∈ s.log →
    text ≠ ""
  served : ∀ i c vector, s.calls i = some c → c.query = query →
    c.phase = Phase.settled (some vector) → c.text ≠ ""

/-- No run ever does anything for the query with an empty text. -/
def NeverEmpty (cfg : Config) (query : String) : Prop :=
  ∀ now store acts s, (machine cfg).run acts (initial now store) = some s → UsesText s query

/-- A query that passes the check for blanks is never embedded as nothing exactly
when something of it is left: without its question ending it has a character that
the filter keeps and that is no blank. -/
theorem neverEmpty_iff (cfg : Config) {query : String} (hquery : isBlank query = false) :
    NeverEmpty cfg query ↔ (dropQuestionSuffix (lower query)).any isInkChar = true := by
  rw [← normalizeKeyword_ne_empty_iff]
  constructor
  · intro h
    -- the first await of the call is the look into the cache
    have hrun : (machine cfg).run [Act.start 0 query] (initial 0 emptyStore)
        = some ((initial 0 emptyStore).apply 0 query ((initial 0 emptyStore).goto Phase.reading)) := by
      have hbegins : begins (initial 0 emptyStore) query = (initial 0 emptyStore).goto Phase.reading :=
        if_neg (by rw [hquery]; decide)
      rw [← hbegins]
      rfl
    exact (h 0 emptyStore _ _ hrun).reads 0 _ (apply_calls_self _ _) rfl trivial
  · intro hne now store acts s hrun
    have htext : ∀ c : Call, c.query = query → c.text ≠ "" := by
      rintro c rfl
      exact hne
    have hsends : SendsText s := sendsText_step.run _ (fun i text hmem => absurd hmem List.not_mem_nil) hrun
    refine ⟨fun i c _ hq _ => htext c hq, fun i c text hc hq hmem => ?_, fun i c vector _ hq _ => htext c hq⟩
    obtain ⟨d, hd, rfl⟩ := hsends i text hmem
    rw [hc] at hd
    cases hd
    exact htext c hq

/-- Among the queries for which it holds is one in two scripts. -/
theorem neverEmpty_redis : NeverEmpty testConfig "redis 캐시" ↔
    (dropQuestionSuffix (lower "redis 캐시")).any isInkChar = true :=
  neverEmpty_iff testConfig (by decide +kernel)

/-- A query in another script is embedded as the empty text, and one that is only a
polite ending is served from its entry. -/
def twoEmptyTexts : List Act :=
  [Act.start 0 "日本語", Act.call 0 (Op.redis Fate.ok), Act.call 0 (Op.redis Fate.ok),
    Act.call 0 Op.permit, Act.call 0 (Op.answer (Reply.embeddings [[Binary64.ofInt 1]])),
    Act.call 0 (Op.redis Fate.ok), Act.call 0 (Op.redis Fate.ok),
    Act.start 1 "알려줘", Act.call 1 (Op.redis Fate.ok)]

/-- The text of a request to the API. -/
def Event.sentText : Event → Option String
  | Event.embedContent _ text => some text
  | _ => none

/-- The query of call `i`, when the call ended with a vector. -/
def servedQuery (s : State) (i : ℕ) : Option String :=
  match s.calls i with
  | some ⟨query, Phase.settled (some _)⟩ => some query
  | _ => none

theorem settled_of_servedQuery {s : State} {i : ℕ} {query : String} (h : servedQuery s i = some query) :
    ∃ vector, s.calls i = some ⟨query, Phase.settled (some vector)⟩ := by
  unfold servedQuery at h
  split at h
  · next q vector hc =>
    cases h
    exact ⟨vector, hc⟩
  · cases h

/-- Both queries pass the check for blanks, the API is called with nothing, and the
second query is answered with the vector that was made of the first one. -/
theorem twoEmptyTexts_run : isBlank "日本語" = false ∧ isBlank "알려줘" = false ∧
    ∃ t, (machine testConfig).run twoEmptyTexts (initial 0 emptyStore) = some t ∧
      t.log.filterMap Event.sentText = [""] ∧
      (∃ vector, t.calls 0 = some ⟨"日本語", Phase.settled (some vector)⟩) ∧
      ∃ vector, t.calls 1 = some ⟨"알려줘", Phase.settled (some vector)⟩ := by
  refine ⟨by decide +kernel, by decide +kernel, ?_⟩
  have hproj : ((machine testConfig).run twoEmptyTexts (initial 0 emptyStore)).map
      (fun t => (t.log.filterMap Event.sentText, servedQuery t 0, servedQuery t 1))
      = some ([""], some "日本語", some "알려줘") := by
    decide +kernel
  obtain ⟨t, ht, hseen⟩ := Option.map_eq_some_iff.1 hproj
  simp only [Prod.mk.injEq] at hseen
  obtain ⟨hsent, hfirst, hsecond⟩ := hseen
  exact ⟨t, ht, hsent, settled_of_servedQuery hfirst, settled_of_servedQuery hsecond⟩

end EmbedSearchQuery

end TechTrends
