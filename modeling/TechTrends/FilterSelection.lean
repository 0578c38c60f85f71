/-
The AI filter from its prompt to the selection.

What is selected is up to the model. A model that goes by the list in its prompt, and picks some
items of it, gets exactly these selected, and no title or snippet in a batch decides about another
article. Requests that fail and are made again change nothing.
-/
import TechTrends.FilterPrompt
import TechTrends.SavedRows
import TechTrends.Summary

set_option autoImplicit false

namespace TechTrends

namespace AiService

/-! ## `filterBatchWithAi` -/

/-- `parsed.valuable_ids || []`, where reading a property of `null` throws. -/
def valuableIds (parsed : Json) : Option Json :=
  match parsed with
  | Json.null => none
  | parsed => some (orElse (property "valuable_ids" parsed) (Json.arr []))

/-- `filterBatchWithAi`, with the reply to each attempt. A reply is read as for a summary. No
result means that it throws. -/
def filterBatchWithAi (replies : ℕ → GroqReply) : Option Json := (summaryMessage replies).bind valuableIds

/-! ## A model that goes by the list -/

/-- The ids of the items in a prompt that are picked. -/
def pickedIds (pick : Json → Bool) (prompt : String) : List Json :=
  match shownItems prompt with
  | some (Json.arr items) => (items.filter pick).map fun item => item.field "id"
  | _ => []

/-- The message that the prompt asks for. -/
def filterMessage (pick : Json → Bool) (prompt : String) : Json :=
  Json.obj [("valuable_ids", Json.arr (pickedIds pick prompt))]

/-- Each attempt fails or is answered with the ids that are picked from the prompt. -/
def GoesBy (pick : Json → Bool) (prompt : String) (replies : ℕ → GroqReply) : Prop :=
  ∀ attempt, replies attempt = GroqReply.content (some (filterMessage pick prompt).stringify) ∨
    ∃ error, replies attempt = GroqReply.failed error

theorem pickedIds_eq (pick : Json → Bool) {prompt : String} {items : List Json}
    (h : shownItems prompt = some (Json.arr items)) :
    pickedIds pick prompt = (items.filter pick).map fun item => item.field "id" := by
  unfold pickedIds
  rw [h]

theorem pickedIds_prompt (pick : Json → Bool) (items : List BatchEvaluationItem) :
    pickedIds pick (buildFilterBatchPrompt items) =
      (items.filter fun item => pick (itemJson item)).map fun item => Json.str item.id := by
  rw [pickedIds_eq pick (shownItems_prompt items), List.filter_map, List.map_map]
  rfl

/-- Its message is JSON with distinct keys. -/
theorem wellFormed_filterMessage (pick : Json → Bool) (items : List BatchEvaluationItem) :
    (filterMessage pick (buildFilterBatchPrompt items)).WellFormed := by
  have hids : ∀ items : List BatchEvaluationItem,
      Json.WellFormedElements (items.map fun item => Json.str item.id) := by
    intro items
    induction items with
    | nil => trivial
    | cons item items ih => exact ⟨trivial, ih⟩
  rw [filterMessage, pickedIds_prompt]
  exact ⟨List.nodup_singleton _, hids _, trivial⟩

/-- The operation that is retried, on such a reply. -/
theorem summarizeOperation_goesBy {pick : Json → Bool} {items : List BatchEvaluationItem} {replies : ℕ → GroqReply}
    (h : GoesBy pick (buildFilterBatchPrompt items) replies) {attempt : ℕ} {parsed : Json}
    (hok : summarizeOperation (replies attempt) = Except.ok parsed) :
    parsed = filterMessage pick (buildFilterBatchPrompt items) := by
  rcases h attempt with hcontent | ⟨error, hfailed⟩
  · have hne := Json.stringify_ne_empty (filterMessage pick (buildFilterBatchPrompt items))
    rw [hcontent, summarizeOperation, Option.filter_some, if_pos (decide_eq_true hne)] at hok
    dsimp only at hok
    rw [Json.parse_stringify _ (wellFormed_filterMessage pick items)] at hok
    exact (Except.ok.inj hok).symm
  · rw [hfailed] at hok
    cases hok

/-- Whatever fails in between, the answer is the picked ids. -/
theorem filterBatchWithAi_goesBy {pick : Json → Bool} {items : List BatchEvaluationItem} {replies : ℕ → GroqReply}
    (h : GoesBy pick (buildFilterBatchPrompt items) replies) {answer : Json}
    (hanswer : filterBatchWithAi replies = some answer) :
    answer = Json.arr ((items.filter fun item => pick (itemJson item)).map fun item => Json.str item.id) := by
  obtain ⟨parsed, hmessage, hids⟩ := Option.bind_eq_some_iff.1 hanswer
  have hresult : (executeWithRetry defaultMaxRetries defaultBaseDelayMs
      fun attempt => summarizeOperation (replies attempt)).result = some (Except.ok parsed) := by
    rw [summaryMessage] at hmessage
    split at hmessage
    · next heq => rw [heq, Option.some.inj hmessage]
    · cases hmessage
  obtain ⟨attempt, hok⟩ := RetryLoop.retryLoop_result hresult
  obtain rfl := summarizeOperation_goesBy h hok
  rw [← pickedIds_prompt]
  exact (Option.some.inj hids).symm

end AiService

/-! ## The selection -/

namespace Pipeline

open AiService (GoesBy GroqReply buildFilterBatchPrompt filterBatchWithAi filterBatchWithAi_goesBy filterMessage itemJson
  pickedIds pickedIds_prompt summaryMessage_of_stringify wellFormed_filterMessage)
open Effect (Yields yields_pure yields_throw yields_bind yields_self)

variable {ε : Type} {ext : Externals ε}

/-- The answers of the filter are those of a model that goes by the list. -/
def FilteredBy (ext : Externals ε) (pick : Json → Bool) : Prop :=
  ∀ items answer, Replies (ext.filterBatchWithAi items) answer →
    ∃ replies, GoesBy pick (buildFilterBatchPrompt items) replies ∧ filterBatchWithAi replies = some answer

/-- The ids in an answer are those of the items that are picked. -/
theorem FilteredBy.ids {pick : Json → Bool} (h : FilteredBy ext pick) {items : List BatchEvaluationItem}
    {values : List Json} (hreplied : Replies (ext.filterBatchWithAi items) (Json.arr values)) :
    values.map Json.toText = (items.filter fun item => pick (itemJson item)).map BatchEvaluationItem.id := by
  obtain ⟨replies, hgoes, hanswer⟩ := h items _ hreplied
  have hvalues := Json.arr.inj (filterBatchWithAi_goesBy hgoes hanswer)
  rw [hvalues, List.map_map]
  rfl

/-- A filter that picks at its first attempt. -/
def picking (pick : Json → Bool) (ext : Externals ε) : Externals ε :=
  { ext with
    filterBatchWithAi := fun items env =>
      ⟨Outcome.ret (Json.arr (pickedIds pick (buildFilterBatchPrompt items))), 0, env⟩ }

/-- What it answers, without the prompt in between. -/
theorem picking_eq (pick : Json → Bool) (ext : Externals ε) :
    picking pick ext = { ext with
      filterBatchWithAi := fun items env => ⟨Outcome.ret (Json.arr
        ((items.filter fun item => pick (itemJson item)).map fun item => Json.str item.id)), 0, env⟩ } := by
  have hanswers : (fun (items : List BatchEvaluationItem) (env : ε) => (⟨Outcome.ret (Json.arr (pickedIds pick
      (buildFilterBatchPrompt items))), 0, env⟩ : Reply ε Json)) = fun items env => ⟨Outcome.ret (Json.arr
        ((items.filter fun item => pick (itemJson item)).map fun item => Json.str item.id)), 0, env⟩ := by
    funext items env
    rw [pickedIds_prompt]
  rw [picking, hanswers]

theorem filteredBy_picking (pick : Json → Bool) (ext : Externals ε) : FilteredBy (picking pick ext) pick := by
  rintro items answer ⟨env, hanswer⟩
  obtain rfl : Json.arr (pickedIds pick (buildFilterBatchPrompt items)) = answer := Outcome.ret.inj hanswer
  refine ⟨fun _ => GroqReply.content (some (filterMessage pick (buildFilterBatchPrompt items)).stringify),
    fun _ => Or.inl rfl, ?_⟩
  rw [filterBatchWithAi, summaryMessage_of_stringify (wellFormed_filterMessage pick items) rfl]
  rfl

/-- The selected articles are those with an item that is picked. Two articles with one id are
selected together, as the ids alone come back. -/
theorem selectValuableArticles_picked {pick : Json → Bool} (h : FilteredBy ext pick) (cfg : PipelineConfig)
    (articles : List Article) (m : DetailsMap) (w : World ε) :
    Yields (selectValuableArticles ext cfg articles m) w fun valuable _ =>
      valuable = articles.filter fun article =>
        articles.any fun other => pick (itemJson (evaluationItem cfg m other)) && other.id == article.id := by
  refine yields_bind (replies_call _ _) fun answer t hreplied => ?_
  cases answer with
  | arr values =>
    refine yields_bind yields_self fun _ _ _ => yields_pure (List.filter_congr fun article _ => ?_)
    rw [h.ids hreplied, Bool.eq_iff_iff, List.contains_iff_mem, List.any_eq_true]
    simp only [List.mem_map, List.mem_filter, Bool.and_eq_true, beq_iff_eq]
    constructor
    · rintro ⟨item, ⟨⟨other, hother, rfl⟩, hpick⟩, hid⟩
      exact ⟨other, hother, hpick, hid⟩
    · rintro ⟨other, hother, hpick, hid⟩
      exact ⟨_, ⟨⟨other, hother, rfl⟩, hpick⟩, hid⟩
  | _ => exact yields_throw

/-- **The filter decides item by item.** With a model that goes by the list in its prompt, whatever
fails and is tried again: the articles selected from a batch are those whose items the model
picks, and each row that an attempt inserts is of an article with such an item. -/
theorem filter_goes_by_items {pick : Json → Bool} (h : FilteredBy ext pick) (cfg : PipelineConfig) :
    (∀ articles m (w : World ε), Yields (selectValuableArticles ext cfg articles m) w fun valuable _ =>
      valuable = articles.filter fun article =>
        articles.any fun other => pick (itemJson (evaluationItem cfg m other)) && other.id == article.id) ∧
    ∀ sourceName (w : World ε), ∃ inserted,
      (executeScraperByName ext cfg sourceName w).2.table.rows = w.table.rows ++ inserted ∧
        ∀ row ∈ inserted, ∃ items ids item,
          LogLine.filtered items ids ∈ newLines w (executeScraperByName ext cfg sourceName w).2 ∧ item ∈ items ∧
            item.id = row.source_id ∧ pick (itemJson item) = true := by
  refine ⟨selectValuableArticles_picked h cfg, fun sourceName w => ?_⟩
  obtain ⟨inserted, hrows, hfrom⟩ := (savesFrom_executeScraperByName ext cfg sourceName w).2
  refine ⟨inserted, hrows, fun row hrow => ?_⟩
  obtain ⟨item, -, hanswered, hdata⟩ := hfrom row hrow
  obtain ⟨items, values, hline, hreplied, -, hid⟩ := hanswered.chosen
  rw [h.ids hreplied] at hid
  obtain ⟨shown, hshown, hshownId⟩ := List.mem_map.1 hid
  obtain ⟨hmem, hpick⟩ := List.mem_filter.1 hshown
  refine ⟨items, _, shown, hline, hmem, ?_, hpick⟩
  rw [hshownId]
  exact (congrArg TrendData.source_id hdata).symm

/-- Only the item with this title is picked. -/
def pickFirst (item : Json) : Bool := (item.field "title").toText == "first"

/-- Everything answers at once, and every save succeeds. -/
def saving (articles : List Article) : Externals Unit :=
  { refusing articles with saveTrend := fun _ env => (0, SaveFate.answered, env) }

/-- Of two articles, the one that the model picks is selected and saved. -/
theorem filter_goes_by_items_first :
    (∀ valuable t,
        selectValuableArticles (picking pickFirst (saving [second, first])) oneWanted [second, first] (fun _ => none)
          newWorld = (Outcome.ret valuable, t) → valuable = [first]) ∧
      ∃ inserted,
        (executeScraperByName (picking pickFirst (saving [second, first])) oneWanted "dev.to" newWorld).2.table.rows =
          newWorld.table.rows ++ inserted ∧
        inserted.map (fun row => row.title) = ["first"] ∧
        ∀ row ∈ inserted, ∃ items ids item, LogLine.filtered items ids ∈ newLines newWorld
            (executeScraperByName (picking pickFirst (saving [second, first])) oneWanted "dev.to" newWorld).2 ∧
          item ∈ items ∧ item.id = row.source_id ∧ pickFirst (itemJson item) = true := by
  obtain ⟨hselected, hrows⟩ := filter_goes_by_items (filteredBy_picking pickFirst (saving [second, first])) oneWanted
  obtain ⟨inserted, hinserted, hitems⟩ := hrows "dev.to" newWorld
  have htitles : ((executeScraperByName (picking pickFirst (saving [second, first])) oneWanted "dev.to"
      newWorld).2.table.rows).map (fun row => row.title) = ["first"] := by
    rw [picking_eq]
    decide +kernel
  have hempty : newWorld.table.rows = [] := rfl
  rw [hinserted, hempty, List.nil_append] at htitles
  refine ⟨fun valuable t h => ?_, inserted, hinserted, htitles, hitems⟩
  have hvaluable := hselected [second, first] (fun _ => none) newWorld valuable t h
  rw [hvaluable]
  decide +kernel

end Pipeline

end TechTrends
