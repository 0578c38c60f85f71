/-
Schema statements of PostgreSQL on one table, and what they do to its stored rows.

Whether a statement succeeds, and the schema it leaves, depend on the schema alone. The
rows follow: a new column is filled, a dropped one is gone, and what a statement does not
name stays as it was in every row.
-/
import Mathlib.Data.List.Forall2

set_option autoImplicit false

namespace Sql

/-! ## Schemas -/

inductive ColumnType where
  | serial
  | varchar (length : ℕ)
  | text
  | jsonb
  | date
  | timestamp
  | integer
  | vector (dimensions : ℕ)
  | tsvector
  deriving DecidableEq

structure Column where
  name : String
  type : ColumnType
  notNull : Bool := false
  default : Option String := none
  /-- `GENERATED ALWAYS AS (…) STORED`. -/
  generated : Option String := none
  deriving DecidableEq

inductive ConstraintKind where
  | unique
  | primaryKey
  deriving DecidableEq

structure TableConstraint where
  name : String
  kind : ConstraintKind
  columns : List String
  deriving DecidableEq

inductive IndexMethod where
  | btree
  | gin
  | hnsw
  deriving DecidableEq

/-- A key is a column and what stands behind it: its order, or an operator class. -/
structure Index where
  name : String
  method : IndexMethod
  keys : List (String × String)
  deriving DecidableEq

structure Table where
  name : String
  columns : List Column
  constraints : List TableConstraint
  indexes : List Index
  deriving DecidableEq

/-- A schema with at most one table. -/
structure Schema where
  extensions : List String
  table : Option Table
  deriving DecidableEq

def Schema.empty : Schema := ⟨[], none⟩

/-! ## Statements -/

inductive Ddl where
  /-- `CREATE EXTENSION IF NOT EXISTS`. -/
  | createExtension (name : String)
  | createTable (name : String) (columns : List Column) (constraints : List TableConstraint)
  | createIndex (ifNotExists : Bool) (table : String) (index : Index)
  /-- `ALTER TABLE … ADD COLUMN …, ADD COLUMN …`. -/
  | addColumns (table : String) (columns : List Column)
  /-- `DROP INDEX IF EXISTS`. -/
  | dropIndex (name : String)
  /-- `ALTER TABLE … DROP COLUMN IF EXISTS …, DROP COLUMN IF EXISTS …`. -/
  | dropColumns (table : String) (columns : List String)
  /-- `DROP TABLE IF EXISTS`. -/
  | dropTable (name : String)

namespace Table

/-- The names that an index of the table cannot take. -/
def relations (t : Table) : List String :=
  t.name :: (t.indexes.map Index.name ++ t.constraints.map TableConstraint.name)

def addColumn (t : Table) (c : Column) : Except String Table :=
  if c.name ∈ t.columns.map Column.name then
    Except.error ("column \"" ++ c.name ++ "\" of relation \"" ++ t.name ++ "\" already exists")
  else Except.ok { t with columns := t.columns ++ [c] }

/-- A column takes the indexes and the constraints with it that it is part of. -/
def dropColumn (t : Table) (column : String) : Table :=
  { t with
    columns := t.columns.filter fun c => c.name ≠ column
    constraints := t.constraints.filter fun c => column ∉ c.columns
    indexes := t.indexes.filter fun i => column ∉ i.keys.map Prod.fst }

def createIndex (ifNotExists : Bool) (index : Index) (t : Table) : Except String Table :=
  -- the name is looked for first: with `IF NOT EXISTS` the keys are not looked at
  if index.name ∈ t.relations then
    if ifNotExists then Except.ok t
    else Except.error ("relation \"" ++ index.name ++ "\" already exists")
  else
    match index.keys.find? fun key => key.1 ∉ t.columns.map Column.name with
    | some key => Except.error ("column \"" ++ key.1 ++ "\" does not exist")
    | none => Except.ok { t with indexes := t.indexes ++ [index] }

def dropIndex (name : String) (t : Table) : Table :=
  { t with indexes := t.indexes.filter fun i => i.name ≠ name }

end Table

/-- What the statement does to the table of that name, which has to be there. -/
def Schema.alter (s : Schema) (name : String) (change : Table → Except String Table) : Except String Schema :=
  match s.table with
  | some t =>
    if t.name = name then (change t).map fun t => { s with table := some t }
    else Except.error ("relation \"" ++ name ++ "\" does not exist")
  | none => Except.error ("relation \"" ++ name ++ "\" does not exist")

def ColumnType.isVector : ColumnType → Bool
  | vector _ => true
  | _ => false

def Ddl.onSchema (s : Schema) : Ddl → Except String Schema
  | createExtension name => Except.ok { s with extensions := s.extensions.insert name }
  | createTable name columns constraints =>
    if s.table.isSome then Except.error ("relation \"" ++ name ++ "\" already exists")
    else if columns.any (fun c => c.type.isVector) && "vector" ∉ s.extensions then
      Except.error "type \"vector\" does not exist"
    else Except.ok { s with table := some ⟨name, columns, constraints, []⟩ }
  | createIndex ifNotExists table index => s.alter table (Table.createIndex ifNotExists index)
  | addColumns table columns => s.alter table fun t => columns.foldlM Table.addColumn t
  | dropIndex name => Except.ok { s with table := s.table.map (Table.dropIndex name) }
  | dropColumns table columns => s.alter table fun t => Except.ok (columns.foldl Table.dropColumn t)
  | dropTable name => Except.ok { s with table := s.table.filter fun t => t.name ≠ name }

/-- The statements of a transaction. -/
def applyAll (statements : List Ddl) (s : Schema) : Except String Schema :=
  statements.foldlM (fun s d => d.onSchema s) s

/-! ## Rows -/

section Rows

variable {V : Type*}

/-- The value of each column, `none` for `NULL` and for what is no column. -/
abbrev Row (V : Type*) := String → Option V

/-- What an expression is for a row. -/
abbrev Evaluate (V : Type*) := String → Row V → Option V

/-- The value that a new column has in a stored row. -/
def Column.initial (evaluate : Evaluate V) (c : Column) (r : Row V) : Option V :=
  match c.generated, c.default with
  -- a generated column has no default
  | some expression, _ => evaluate expression r
  | none, some expression => evaluate expression r
  | none, none => none

def Row.set (r : Row V) (column : String) (v : Option V) : Row V :=
  fun c => if c = column then v else r c

def Ddl.onRows (evaluate : Evaluate V) (rows : List (Row V)) : Ddl → List (Row V)
  -- one table: with it the rows are gone, and a new one has none
  | createTable _ _ _ | dropTable _ => []
  | addColumns _ columns =>
    rows.map fun r => columns.foldl (fun r c => Row.set r c.name (c.initial evaluate r)) r
  | dropColumns _ columns => rows.map fun r => columns.foldl (fun r c => Row.set r c none) r
  | createExtension _ | createIndex _ _ _ | dropIndex _ => rows

def rowsAfter (evaluate : Evaluate V) (statements : List Ddl) (rows : List (Row V)) : List (Row V) :=
  statements.foldl (fun rows d => d.onRows evaluate rows) rows

/-! ## What a statement leaves alone -/

/-- The columns that a statement adds or drops. -/
def Ddl.touches : Ddl → List String
  | addColumns _ columns => columns.map Column.name
  | dropColumns _ columns => columns
  | _ => []

/-- The statement is about a table that is there and stays. -/
def Ddl.keepsTable : Ddl → Bool
  | createTable _ _ _ | dropTable _ => false
  | _ => true

theorem Row.set_of_ne {r : Row V} {column c : String} {v : Option V} (h : c ≠ column) :
    Row.set r column v c = r c := if_neg h

theorem foldl_set_of_notMem {α : Type*} (name : α → String) (value : Row V → α → Option V) {as : List α}
    {c : String} (h : c ∉ as.map name) (r : Row V) :
    as.foldl (fun r a => Row.set r (name a) (value r a)) r c = r c := by
  induction as generalizing r with
  | nil => rfl
  | cons a as ih =>
    rw [List.map_cons, List.mem_cons, not_or] at h
    rw [List.foldl_cons, ih h.2]
    exact Row.set_of_ne h.1

/-- The rows are the same ones, with the same values in the columns not in `touched`. -/
def SameBut (touched : List String) (rows rows' : List (Row V)) : Prop :=
  List.Forall₂ (fun r r' => ∀ c, c ∉ touched → r' c = r c) rows rows'

theorem SameBut.of_map {touched : List String} {f : Row V → Row V} (rows : List (Row V))
    (h : ∀ r c, c ∉ touched → f r c = r c) : SameBut touched rows (rows.map f) :=
  List.forall₂_map_right_iff.2 (List.forall₂_same.2 fun r _ c hc => h r c hc)

theorem SameBut.refl (touched : List String) (rows : List (Row V)) : SameBut touched rows rows :=
  List.forall₂_same.2 fun _ _ _ _ => rfl

/-- One thing done to the rows and then another touches what either of them touches. -/
theorem SameBut.trans {touched₁ touched₂ : List String} {rows₁ rows₂ rows₃ : List (Row V)}
    (h₁ : SameBut touched₁ rows₁ rows₂) (h₂ : SameBut touched₂ rows₂ rows₃) :
    SameBut (touched₁ ++ touched₂) rows₁ rows₃ := by
  induction h₁ generalizing rows₃ with
  | nil =>
    cases h₂
    exact List.Forall₂.nil
  | cons hr _ ih =>
    cases h₂ with
    | cons hr' hrows' =>
      refine List.Forall₂.cons (fun c hc => ?_) (ih hrows')
      rw [List.mem_append, not_or] at hc
      rw [hr' c hc.2, hr c hc.1]

/-- A statement that keeps the table touches the columns that it names, in every row. -/
theorem Ddl.onRows_sameBut (evaluate : Evaluate V) {d : Ddl} (h : d.keepsTable = true) (rows : List (Row V)) :
    SameBut d.touches rows (d.onRows evaluate rows) := by
  cases d with
  | createTable => cases h
  | dropTable => cases h
  | addColumns table columns =>
    exact SameBut.of_map rows fun r c hc =>
      foldl_set_of_notMem Column.name (fun r c => c.initial evaluate r) hc r
  | dropColumns table columns =>
    exact SameBut.of_map rows fun r c hc =>
      foldl_set_of_notMem id (fun _ _ => none) ((List.map_id columns).symm ▸ hc) r
  | createExtension => exact SameBut.refl _ rows
  | createIndex => exact SameBut.refl _ rows
  | dropIndex => exact SameBut.refl _ rows

/-- Statements leave the columns alone that none of them adds or drops. -/
theorem rowsAfter_sameBut (evaluate : Evaluate V) {statements : List Ddl}
    (h : statements.all Ddl.keepsTable = true) (rows : List (Row V)) :
    SameBut (statements.flatMap Ddl.touches) rows (rowsAfter evaluate statements rows) := by
  induction statements generalizing rows with
  | nil => exact SameBut.refl _ rows
  | cons d statements ih =>
    rw [List.all_cons, Bool.and_eq_true] at h
    exact (d.onRows_sameBut evaluate h.1 rows).trans (ih h.2 (d.onRows evaluate rows))

end Rows

end Sql
