/-
What the AI filter is shown: the prompt of a batch, and what can be read out of it.

The titles and snippets come from pages that anyone can write. They stand in the prompt as one
indented JSON text between two fixed parts, and no title or snippet ends it: the items can be
read back out of the prompt as they were put in, whatever they say.
-/
import TechTrends.JsReplace
import TechTrends.JsonIndent
import TechTrends.PipelineScope

set_option autoImplicit false

namespace TechTrends

open Json (Doc Literal)

namespace AiService

/-! ## The prompt -/

/-- The template up to the items. -/
def filterHeader : String :=
  "당신은 백엔드 개발자 시각의 IT 트렌드 큐레이터입니다.\n" ++
  "  아래 아티클 목록(제목 및 요약)을 읽고, 백엔드/DevOps/CS/개발기술 측면에서 실무에 도움이 되는 가치 있는 글의 ID만 선택하세요.\n\n" ++
  "  [제외 대상]\n" ++
  "  - 수필, 개인 회고, 개발 커리어 고민, 소소한 일상, 단순 질문 글\n" ++
  "  - 단순 광고/홍보성 글\n\n" ++
  "  [평가 대상]\n  "

/-- The template behind the items, after the blank line. -/
def filterFooter : String :=
  "  [응답 포맷 (JSON)]\n  \x7b\n    \"valuable_ids\": [12345, 67890]\n  \x7d"

/-- An item, as `JSON.stringify` writes it. -/
def itemDoc (item : BatchEvaluationItem) : Doc :=
  Doc.obj [("id", Doc.str (Literal.ofString item.id)), ("title", Doc.str (Literal.ofString item.title)),
    ("snippet", Doc.str (Literal.ofUnits item.snippet))]

/-- `buildFilterBatchPrompt`. -/
def buildFilterBatchPrompt (items : List BatchEvaluationItem) : String :=
  String.ofList (JsString.trim ("\n  ".toList ++ filterHeader.toList ++
    Doc.indented 0 (Doc.arr (items.map itemDoc)) ++ "\n\n".toList ++ filterFooter.toList ++ "\n  ".toList))

/-- What trimming leaves of a template with a text in it. The fixed parts begin and end with
signs that are no blanks, so the text is not touched. -/
theorem trim_template {header footer : List Char} {c d : Char} (hhead : header.head? = some c)
    (hlast : footer.getLast? = some d) (hc : JsString.isWhitespace c = false) (hd : JsString.isWhitespace d = false)
    (text : List Char) :
    JsString.trim ("\n  ".toList ++ header ++ text ++ "\n\n".toList ++ footer ++ "\n  ".toList) =
      header ++ (text ++ '\n' :: '\n' :: footer) := by
  have hhead' : (header ++ (text ++ '\n' :: '\n' :: footer)).head? = some c := by
    rw [List.head?_append, hhead, Option.some_or]
  have hlast' : (header ++ (text ++ '\n' :: '\n' :: footer)).getLast? = some d := by
    rw [List.getLast?_append, List.getLast?_append, List.getLast?_cons_cons, List.getLast?_cons, hlast]
    rfl
  have hframe : "\n  ".toList ++ header ++ text ++ "\n\n".toList ++ footer ++ "\n  ".toList =
      ((("\n  ".toList ++ (header ++ (text ++ '\n' :: '\n' :: footer))) ++ ['\n']) ++ [' ']) ++ [' '] := by
    rw [show "\n  ".toList = ['\n', ' ', ' '] from rfl, show "\n\n".toList = ['\n', '\n'] from rfl]
    simp only [List.append_assoc, List.cons_append, List.nil_append]
  rw [hframe, JsString.trim, JsString.trimBy_concat (by decide), JsString.trimBy_concat (by decide),
    JsString.trimBy_concat (by decide), JsString.trimBy_append]
  · rfl
  · intro h
    rw [h] at hhead'
    cases hhead'
  · intro u hu
    rw [hhead'] at hu
    cases hu
    exact hc
  · intro u hu
    rw [hlast'] at hu
    cases hu
    exact hd

theorem buildFilterBatchPrompt_eq (items : List BatchEvaluationItem) :
    (buildFilterBatchPrompt items).toList = filterHeader.toList ++
      (Doc.indented 0 (Doc.arr (items.map itemDoc)) ++ '\n' :: '\n' :: filterFooter.toList) := by
  rw [buildFilterBatchPrompt, String.toList_ofList]
  exact trim_template (show filterHeader.toList.head? = some '당' by decide +kernel)
    (show filterFooter.toList.getLast? = some '}' by decide +kernel) (by decide) (by decide) _

/-! ## Reading it -/

/-- What a reader of the template makes of a prompt: the value between the header and the first
blank line. -/
def shownItems (prompt : String) : Option Json :=
  Json.parse (String.ofList (Doc.paragraph (prompt.toList.drop filterHeader.toList.length)))

/-- An item, as it is read. -/
def itemJson (item : BatchEvaluationItem) : Json :=
  Json.obj [("id", Json.str item.id), ("title", Json.str item.title),
    ("snippet", Json.str (String.ofList (JsString.toWellFormed item.snippet)))]

theorem value_itemDocs (items : List BatchEvaluationItem) :
    Doc.value (Doc.arr (items.map itemDoc)) = Json.arr (items.map itemJson) := by
  rw [Doc.value]
  congr 1
  induction items with
  | nil => rfl
  | cons item items ih =>
    rw [List.map_cons, Doc.values, ih]
    rfl

/-- Each item is an object with three keys. -/
theorem wellFormed_itemJsons (items : List BatchEvaluationItem) :
    Json.WellFormed (Json.arr (items.map itemJson)) := by
  rw [Json.WellFormed]
  induction items with
  | nil => trivial
  | cons item items ih =>
    refine ⟨⟨?_, trivial, trivial, trivial, trivial⟩, ih⟩
    show ["id", "title", "snippet"].Nodup
    decide

/-- The items are read back out of their prompt, halves of surrogate pairs as U+FFFD. -/
theorem shownItems_prompt (items : List BatchEvaluationItem) :
    shownItems (buildFilterBatchPrompt items) = some (Json.arr (items.map itemJson)) := by
  have hwell : Json.WellFormed (Doc.value (Doc.arr (items.map itemDoc))) := by
    rw [value_itemDocs]
    exact wellFormed_itemJsons items
  rw [shownItems, buildFilterBatchPrompt_eq, List.drop_left, Doc.parse_paragraph _ hwell, value_itemDocs]

/-- **The prompt reads back.** Whatever the ids, titles and snippets say, the items are read back
out of their prompt, so two lists with one prompt have the same items. -/
theorem prompt_reads_back (items : List BatchEvaluationItem) :
    shownItems (buildFilterBatchPrompt items) = some (Json.arr (items.map itemJson)) ∧
      ∀ items', buildFilterBatchPrompt items' = buildFilterBatchPrompt items →
        items'.map itemJson = items.map itemJson := by
  refine ⟨shownItems_prompt items, fun items' h => ?_⟩
  have hread := shownItems_prompt items'
  rw [h, shownItems_prompt] at hread
  exact (Json.arr.inj (Option.some.inj hread)).symm

end AiService

end TechTrends
