/-
What `JSON.stringify` sees of the rows that the queries give out.

A `date` column is a text and a `timestamp` a `Date` in an entity; a raw query has
a `Date` for both. A `Date` is written as its `toISOString`.
-/
import TechTrends.TechTrend
import TechTrends.JsDate
import TechTrends.JsonRoundTrip

set_option autoImplicit false

namespace TechTrends

/-! ## Fields -/

def textJson : Option String → Json
  | none => Json.null
  | some s => Json.str s

def intJson : Option ℤ → Json
  | none => Json.null
  | some n => Json.num (Binary64.ofInt n)

def textsJson (texts : List String) : Json := Json.arr (texts.map Json.str)

def vectorJson : Option (List Binary64) → Json
  | none => Json.null
  | some vector => Json.arr (vector.map Json.num)

theorem textJson_wellFormed (o : Option String) : (textJson o).WellFormed := by
  cases o <;> trivial

theorem intJson_wellFormed (o : Option ℤ) : (intJson o).WellFormed := by
  cases o <;> trivial

/-- The elements of an array that is a list of well-formed values. -/
theorem arr_map_wellFormed {α : Type} (f : α → Json) (hf : ∀ a, (f a).WellFormed) (as : List α) :
    (Json.arr (as.map f)).WellFormed := by
  unfold Json.WellFormed
  induction as with
  | nil => trivial
  | cons a as ih => exact ⟨hf a, ih⟩

theorem textsJson_wellFormed (texts : List String) : (textsJson texts).WellFormed :=
  arr_map_wellFormed Json.str (fun _ => trivial) texts

theorem vectorJson_wellFormed (o : Option (List Binary64)) : (vectorJson o).WellFormed := by
  cases o with
  | none => trivial
  | some vector => exact arr_map_wellFormed Json.num (fun _ => trivial) vector

/-! ## Rows -/

/-- The entity that `findOneBy` gives. -/
def TechTrend.toJson (row : TechTrend) : Json :=
  Json.obj
    [("id", Json.num (Binary64.ofInt row.id)), ("source", Json.str row.source),
      ("source_id", Json.str row.source_id), ("title", Json.str row.title),
      ("short_summary", textsJson row.short_summary),
      ("long_summary", textJson row.long_summary), ("link_url", Json.str row.link_url),
      ("technical_tags", textJson row.technical_tags), ("view_count", intJson row.view_count),
      ("like_count", intJson row.like_count), ("comment_count", intJson row.comment_count),
      ("embedding", vectorJson row.embedding), ("created_at", Json.str row.created_at),
      ("mined_at", Json.str (JsDate.toISOString row.mined_at))]

structure RelatedTrendRow where
  id : ℕ
  source : String
  title : String
  short_summary : List String
  link_url : String
  technical_tags : Option String
  view_count : Option ℤ
  like_count : Option ℤ
  comment_count : Option ℤ
  created_at : ℤ
  mined_at : ℤ
deriving DecidableEq

def RelatedTrendRow.toJson (row : RelatedTrendRow) : Json :=
  Json.obj
    [("id", Json.num (Binary64.ofInt row.id)), ("source", Json.str row.source),
      ("title", Json.str row.title), ("short_summary", textsJson row.short_summary),
      ("link_url", Json.str row.link_url), ("technical_tags", textJson row.technical_tags),
      ("view_count", intJson row.view_count), ("like_count", intJson row.like_count),
      ("comment_count", intJson row.comment_count),
      ("created_at", Json.str (JsDate.toISOString row.created_at)),
      ("mined_at", Json.str (JsDate.toISOString row.mined_at))]

theorem TechTrend.toJson_wellFormed (row : TechTrend) : row.toJson.WellFormed := by
  unfold TechTrend.toJson Json.WellFormed
  refine ⟨by simp only [List.map_cons, List.map_nil]; decide, ?_⟩
  simp only [Json.WellFormedMembers, Json.WellFormed, textsJson_wellFormed, textJson_wellFormed,
    intJson_wellFormed, vectorJson_wellFormed, and_self]

theorem RelatedTrendRow.toJson_wellFormed (row : RelatedTrendRow) : row.toJson.WellFormed := by
  unfold RelatedTrendRow.toJson Json.WellFormed
  refine ⟨by simp only [List.map_cons, List.map_nil]; decide, ?_⟩
  simp only [Json.WellFormedMembers, Json.WellFormed, textsJson_wellFormed, textJson_wellFormed,
    intJson_wellFormed, and_self]

/-- The embedding of an entity is a property of its text, under its own name. -/
theorem TechTrend.field_embedding (row : TechTrend) :
    row.toJson.field "embedding" = vectorJson row.embedding := by
  unfold TechTrend.toJson Json.field
  simp

end TechTrends
