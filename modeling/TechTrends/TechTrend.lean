/-
The table `tbl_tech_trends`, and the repository's queries on it that the pipeline
makes.

A table carries its unique keys: no two rows share an id, a pair of source and
source id, or a link. It carries the type of its `SERIAL` column too, so that it has
at most as many rows as that column has values. An insertion that would break one of
these is refused, and the table has no other operation that the pipeline uses.
-/
import TechTrends.Json
import TechTrends.Time
import Mathlib.Data.List.Nodup

set_option autoImplicit false

namespace TechTrends

/-! ## Rows -/

/-- The columns that `saveTrend` is given. `created_at` is the text that the `Date`
of the column is made from. -/
structure TrendData where
  source : String
  source_id : String
  title : String
  short_summary : List String
  long_summary : Option String
  link_url : String
  technical_tags : Option String
  embedding : Option (List Binary64)
  view_count : Option ℤ
  like_count : Option ℤ
  comment_count : Option ℤ
  created_at : String
deriving DecidableEq

/-- A row, with the id and the `mined_at` that the database adds. -/
structure TechTrend extends TrendData where
  id : ℕ
  mined_at : ℤ
deriving DecidableEq

/-- The columns of `UQ_source_source_id`. -/
def TechTrend.sourceKey (row : TechTrend) : String × String := (row.source, row.source_id)

/-! ## The table -/

structure TrendTable where
  rows : List TechTrend
  ids_lt : ∀ row ∈ rows, row.id < 2 ^ 31
  ids_nodup : (rows.map TechTrend.id).Nodup
  sourceKeys_nodup : (rows.map TechTrend.sourceKey).Nodup
  urls_nodup : (rows.map fun row => row.link_url).Nodup

namespace TrendTable

/-- The row has an id of the column's type, and breaks none of the unique keys. -/
def admits (table : TrendTable) (row : TechTrend) : Prop :=
  row.id < 2 ^ 31 ∧
    row.id ∉ table.rows.map TechTrend.id ∧
    row.sourceKey ∉ table.rows.map TechTrend.sourceKey ∧
    row.link_url ∉ table.rows.map fun row => row.link_url

instance (table : TrendTable) (row : TechTrend) : Decidable (table.admits row) := by
  unfold admits
  infer_instance

/-- A key that no row has stays unique with one more row. -/
theorem nodup_map_append {κ : Type} (key : TechTrend → κ) {rows : List TechTrend} {row : TechTrend}
    (h : (rows.map key).Nodup) (hnew : key row ∉ rows.map key) :
    ((rows ++ [row]).map key).Nodup := by
  rw [List.map_append, List.map_singleton, List.nodup_append]
  refine ⟨h, by simp, ?_⟩
  intro a ha b hb
  rw [List.mem_singleton.1 hb]
  exact fun hab => hnew (hab ▸ ha)

/-- `INSERT`, or `none` for a violated unique key and for a sequence without a next value. -/
def insert (table : TrendTable) (row : TechTrend) : Option TrendTable :=
  if h : table.admits row then
    some
      { rows := table.rows ++ [row]
        ids_lt := fun other hother => (List.mem_append.1 hother).elim (table.ids_lt other)
          fun hnew => List.mem_singleton.1 hnew ▸ h.1
        ids_nodup := nodup_map_append _ table.ids_nodup h.2.1
        sourceKeys_nodup := nodup_map_append _ table.sourceKeys_nodup h.2.2.1
        urls_nodup := nodup_map_append _ table.urls_nodup h.2.2.2 }
  else none

/-- The error of a refused `INSERT`. -/
def refusal (row : TechTrend) : String :=
  if row.id < 2 ^ 31 then "duplicate key value" else "nextval: reached maximum value of sequence"

theorem insert_rows {table table' : TrendTable} {row : TechTrend}
    (h : table.insert row = some table') : table'.rows = table.rows ++ [row] := by
  unfold insert at h
  split at h
  · cases h
    rfl
  · cases h

/-- A table without rows. -/
def empty : TrendTable :=
  { rows := []
    ids_lt := by simp
    ids_nodup := List.nodup_nil
    sourceKeys_nodup := List.nodup_nil
    urls_nodup := List.nodup_nil }

/-- The ids are different values of one column, of which there are 2 ^ 31 and no more. -/
theorem length_rows_le (table : TrendTable) : table.rows.length ≤ 2 ^ 31 := by
  have hsub : table.rows.map TechTrend.id ⊆ List.range (2 ^ 31) := by
    intro id hid
    obtain ⟨row, hrow, rfl⟩ := List.mem_map.1 hid
    exact List.mem_range.2 (table.ids_lt row hrow)
  have hlength := (table.ids_nodup.subperm hsub).length_le
  rwa [List.length_map, List.length_range] at hlength

/-! ## Queries -/

/-- `findExistingSourceIds`. -/
def findExistingSourceIds (table : TrendTable) (source : String) (sourceIds : List String) :
    List String :=
  (table.rows.filter fun row => row.source = source ∧ row.source_id ∈ sourceIds).map
    fun row => row.source_id

/-- `countSavedSince`. -/
def countSavedSince (table : TrendTable) (source : String) (sinceDate : ℤ) : ℕ :=
  table.rows.countP fun row => row.source = source ∧ sinceDate ≤ row.mined_at

end TrendTable

end TechTrends
