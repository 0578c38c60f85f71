/-
The migrations of `tbl_tech_trends`, applied and reverted one by one.

Each `up` and `down` is its list of statements, in the source's order. A step runs the
statements of one migration in a transaction; rows come and go between the steps. What the
runs can reach is a handful of schemas, whatever the rows are.
-/
import Mathlib.Tactic.IntervalCases
import TechTrends.Ddl
import TechTrends.StepMachine

set_option autoImplicit false

namespace TechTrends

open Sql

/-! ## The migrations -/

structure Migration where
  up : List Ddl
  down : List Ddl

/-- The expression of `search_document` in the first migration. -/
def englishDocument : String :=
  "to_tsvector('english', coalesce(\"title\", '') || ' ' || coalesce(\"technical_tags\", ''))"

def InitTechTrendSchema : Migration where
  up := [
    .createExtension "vector",
    .createTable "tbl_tech_trends"
      [ { name := "id", type := .serial, notNull := true },
        { name := "source", type := .varchar 50, notNull := true },
        { name := "source_id", type := .varchar 100, notNull := true },
        { name := "title", type := .varchar 255, notNull := true },
        { name := "short_summary", type := .jsonb, notNull := true },
        { name := "long_summary", type := .text },
        { name := "link_url", type := .varchar 512, notNull := true },
        { name := "technical_tags", type := .varchar 255 },
        { name := "embedding", type := .vector 1536 },
        { name := "created_at", type := .date, notNull := true },
        { name := "mined_at", type := .timestamp, notNull := true, default := some "now()" } ]
      [ ⟨"UQ_link_url", .unique, ["link_url"]⟩,
        ⟨"UQ_source_source_id", .unique, ["source", "source_id"]⟩,
        ⟨"PK_tbl_tech_trends_id", .primaryKey, ["id"]⟩ ],
    .createIndex false "tbl_tech_trends"
      ⟨"IDX_source_created_at", .btree, [("source", ""), ("created_at", "")]⟩,
    .createIndex false "tbl_tech_trends" ⟨"IDX_technical_tags", .btree, [("technical_tags", "")]⟩,
    .addColumns "tbl_tech_trends"
      [ { name := "search_document", type := .tsvector, generated := some englishDocument } ],
    .createIndex false "tbl_tech_trends" ⟨"IDX_tech_trends_fts", .gin, [("search_document", "")]⟩,
    .createIndex false "tbl_tech_trends"
      ⟨"IDX_tech_trends_embedding", .hnsw, [("embedding", "vector_cosine_ops")]⟩ ]
  down := [
    .dropIndex "IDX_tech_trends_embedding",
    .dropIndex "IDX_tech_trends_fts",
    .dropColumns "tbl_tech_trends" ["search_document"],
    .dropIndex "IDX_technical_tags",
    .dropIndex "IDX_source_created_at",
    .dropTable "tbl_tech_trends" ]

/-- The expression of `search_document` from the second migration on. -/
def simpleDocument : String :=
  "setweight(to_tsvector('simple', coalesce(\"title\", '')), 'A') || " ++
    "setweight(to_tsvector('simple', coalesce(\"technical_tags\", '')), 'A')"

def AddTechTrendSearchIndexes : Migration where
  up := [
    .createIndex true "tbl_tech_trends" ⟨"IDX_created_at", .btree, [("created_at", "DESC")]⟩,
    .createIndex true "tbl_tech_trends" ⟨"IDX_mined_at", .btree, [("mined_at", "DESC")]⟩,
    .dropIndex "IDX_tech_trends_fts",
    .dropColumns "tbl_tech_trends" ["search_document"],
    .addColumns "tbl_tech_trends"
      [ { name := "search_document", type := .tsvector, generated := some simpleDocument } ],
    .createIndex false "tbl_tech_trends" ⟨"IDX_tech_trends_fts", .gin, [("search_document", "")]⟩ ]
  down := [
    .dropIndex "IDX_tech_trends_fts",
    .dropColumns "tbl_tech_trends" ["search_document"],
    .dropIndex "IDX_mined_at",
    .dropIndex "IDX_created_at" ]

def AddMetricsToTechTrend : Migration where
  up := [
    .addColumns "tbl_tech_trends"
      [ { name := "view_count", type := .integer },
        { name := "like_count", type := .integer },
        { name := "comment_count", type := .integer } ] ]
  down := [
    .dropColumns "tbl_tech_trends" ["comment_count", "like_count", "view_count"] ]

def AddTrendSortIndexes : Migration where
  up := [
    .createIndex true "tbl_tech_trends" ⟨"idx_tech_trends_like_created", .btree,
      [("like_count", "DESC NULLS LAST"), ("created_at", "DESC"), ("id", "DESC")]⟩,
    .createIndex true "tbl_tech_trends" ⟨"idx_tech_trends_view_created", .btree,
      [("view_count", "DESC NULLS LAST"), ("created_at", "DESC"), ("id", "DESC")]⟩,
    .createIndex true "tbl_tech_trends" ⟨"idx_tech_trends_comment_created", .btree,
      [("comment_count", "DESC NULLS LAST"), ("created_at", "DESC"), ("id", "DESC")]⟩ ]
  down := [
    .dropIndex "idx_tech_trends_comment_created",
    .dropIndex "idx_tech_trends_view_created",
    .dropIndex "idx_tech_trends_like_created" ]

/-- In the order of their registration. -/
def migrations : List Migration :=
  [InitTechTrendSchema, AddTechTrendSearchIndexes, AddMetricsToTechTrend, AddTrendSortIndexes]

/-! ## Steps -/

section Steps

variable {V : Type*}

/-- The schema, the stored rows, and how many migrations are applied. -/
structure Database (V : Type*) where
  schema : Schema
  rows : List (Row V)
  applied : ℕ

def Database.empty : Database V := ⟨Schema.empty, [], 0⟩

namespace Database

variable (evaluate : Evaluate V)

/-- The next migration in a transaction: where a statement fails nothing is done. -/
def migrate (db : Database V) : Database V :=
  match migrations[db.applied]? with
  | none => db
  | some m =>
    match applyAll m.up db.schema with
    | .ok schema => ⟨schema, rowsAfter evaluate m.up db.rows, db.applied + 1⟩
    | .error _ => db

/-- The last applied migration is taken back, in a transaction as well. -/
def revert (db : Database V) : Database V :=
  match db.applied with
  | 0 => db
  | n + 1 =>
    match migrations[n]? with
    | none => db
    | some m =>
      match applyAll m.down db.schema with
      | .ok schema => ⟨schema, rowsAfter evaluate m.down db.rows, n⟩
      | .error _ => db

/-- What is stored of the values given for a row. -/
def stored (t : Table) (values : Row V) : Row V := fun name =>
  match t.columns.find? fun c => c.name = name with
  | none => none
  | some c =>
    match c.generated with
    | some expression => evaluate expression values
    | none => values name

end Database

inductive DatabaseStep (V : Type*) where
  | migrate
  | revert
  /-- A row with these values; that one violates a constraint is not excluded. -/
  | insert (values : Row V)
  | delete (gone : Row V → Bool)

namespace Database

variable (evaluate : Evaluate V)

def step (db : Database V) : DatabaseStep V → Database V
  | .migrate => db.migrate evaluate
  | .revert => db.revert evaluate
  | .insert values =>
    match db.schema.table with
    | none => db
    | some t => { db with rows := db.rows ++ [stored evaluate t values] }
  | .delete gone => { db with rows := db.rows.filter fun r => !gone r }

/-- Every step is possible everywhere. -/
def machine : StepMachine (Database V) (DatabaseStep V) := ⟨fun db a => some (db.step evaluate a)⟩

end Database

end Steps

/-! ## What reversible means -/

/-- The schema after the first `n` migrations, with none reverted. -/
def schemaAfter (n : ℕ) : Schema :=
  match applyAll ((migrations.take n).flatMap Migration.up) Schema.empty with
  | .ok schema => schema
  | .error _ => Schema.empty

/-- The same sets of columns, constraints and indexes. -/
def SameTables (s s' : Schema) : Prop :=
  (s.table.isSome = s'.table.isSome) ∧ ∀ t ∈ s.table, ∀ t' ∈ s'.table,
    (∀ c, c ∈ t.columns ↔ c ∈ t'.columns) ∧ (∀ c, c ∈ t.constraints ↔ c ∈ t'.constraints) ∧
      ∀ i, i ∈ t.indexes ↔ i ∈ t'.indexes

/-- What is asked of a state: its tables are those of its number of migrations, no
step fails, and to revert the last migration and to apply it again leaves in every stored
row the values of the columns that remained. -/
structure Reversible {V : Type*} (evaluate : Evaluate V) (db : Database V) : Prop where
  tables : SameTables db.schema (schemaAfter db.applied)
  migrates : db.applied < migrations.length → (db.migrate evaluate).applied = db.applied + 1
  reverts : ∀ n, db.applied = n + 1 → (db.revert evaluate).applied = n
  reapplied : ∀ t ∈ (db.revert evaluate).schema.table,
    List.Forall₂ (fun before after : Row V => ∀ c ∈ t.columns, after c.name = before c.name)
      db.rows ((db.revert evaluate).migrate evaluate).rows

/-! ## The schemas that are reached -/

/-- What the second migration leaves when it is reverted. -/
def withoutSearchDocument : Schema :=
  { schemaAfter 1 with table := (schemaAfter 1).table.map fun t => t.dropColumn "search_document" }

inductive Reached : Schema → ℕ → Prop where
  | applied (n : ℕ) (h : n ≤ migrations.length) : Reached (schemaAfter n) n
  /-- The first migration does not take the extension back. -/
  | dropped : Reached ⟨["vector"], none⟩ 0
  | incomplete : Reached withoutSearchDocument 1

/-! ## Which of them are the schema of their number -/

theorem SameTables.refl (s : Schema) : SameTables s s :=
  ⟨rfl, fun t ht t' ht' => by
    obtain rfl := Option.some.inj ((Option.mem_def.1 ht).symm.trans ht')
    exact ⟨fun _ => Iff.rfl, fun _ => Iff.rfl, fun _ => Iff.rfl⟩⟩

theorem sameTables_dropped : SameTables ⟨["vector"], none⟩ (schemaAfter 0) :=
  ⟨rfl, fun _ ht => by cases ht⟩

/-- The column is missing, and with it the index on it. -/
theorem not_sameTables_withoutSearchDocument : ¬ SameTables withoutSearchDocument (schemaAfter 1) := by
  rintro ⟨-, h⟩
  have hcolumn : ∃ t ∈ withoutSearchDocument.table, ∃ t' ∈ (schemaAfter 1).table,
      ∃ c ∈ t'.columns, c ∉ t.columns := by
    refine ⟨_, rfl, _, rfl, { name := "search_document", type := .tsvector, generated := some englishDocument },
      by decide +kernel, by decide +kernel⟩
  obtain ⟨t, ht, t', ht', c, hc, hmissing⟩ := hcolumn
  exact hmissing (((h t ht t' ht').1 c).2 hc)

/-! ## What the migrations do to them -/

/-- The columns that the statements of a migration add or drop. -/
def Migration.touches (m : Migration) : List String :=
  m.down.flatMap Ddl.touches ++ m.up.flatMap Ddl.touches

/-- A column of the table is no business of the migration. -/
def Migration.Spares (m : Migration) (t : Table) : Prop :=
  m.down.all Ddl.keepsTable = true ∧ m.up.all Ddl.keepsTable = true ∧
    ∀ c ∈ t.columns, c.name ∉ m.touches

instance (m : Migration) (t : Table) : Decidable (m.Spares t) :=
  inferInstanceAs (Decidable (_ ∧ _ ∧ ∀ c ∈ t.columns, c.name ∉ m.touches))

theorem Migration.spares_of_all {m : Migration} {s : Schema}
    (h : (s.table.all fun t => decide (m.Spares t)) = true) : ∀ t ∈ s.table, m.Spares t := by
  intro t ht
  rw [Option.mem_def.1 ht] at h
  exact of_decide_eq_true h

theorem Reached.le {s : Schema} {n : ℕ} (h : Reached s n) : n ≤ 4 := by
  cases h with
  | applied n h => exact h
  | dropped => decide
  | incomplete => decide

theorem Reached.table_zero {s : Schema} (h : Reached s 0) : s.table = none := by
  cases h <;> rfl

/-- Whatever came before, the next migration gives its own schema: each creates what it needs,
and `IF NOT EXISTS` lets what is there already stay. -/
theorem Reached.migrate {s : Schema} {n : ℕ} (h : Reached s n) {m : Migration}
    (hm : migrations[n]? = some m) : applyAll m.up s = Except.ok (schemaAfter (n + 1)) := by
  cases h with
  | applied n h =>
    -- four migrations, each on the one schema that those before it left
    have hn : n < 4 := (List.getElem?_eq_some_iff.1 hm).1
    interval_cases n <;> obtain rfl := Option.some.inj hm <;> rfl
  | dropped =>
    obtain rfl := Option.some.inj hm
    rfl
  -- `DROP INDEX IF EXISTS` and `DROP COLUMN IF EXISTS` put up with what is missing
  | incomplete =>
    obtain rfl := Option.some.inj hm
    rfl

/-- What a revert leaves; only that of the second migration leaves something else than was
there before. -/
theorem Reached.revert {s : Schema} {n : ℕ} (h : Reached s (n + 1)) {m : Migration}
    (hm : migrations[n]? = some m) :
    ∃ s', applyAll m.down s = Except.ok s' ∧ Reached s' n ∧
      (SameTables s' (schemaAfter n) ↔ n ≠ 1) ∧ ∀ t ∈ s'.table, m.Spares t := by
  cases h with
  | applied _ h =>
    have hn : n < 4 := h
    -- only the first two of them leave a schema that no migration made
    interval_cases n <;> obtain rfl := Option.some.inj hm
    · exact ⟨_, rfl, Reached.dropped, iff_of_true sameTables_dropped (by decide), fun t ht => by cases ht⟩
    · exact ⟨_, rfl, Reached.incomplete, iff_of_false not_sameTables_withoutSearchDocument (by decide),
        Migration.spares_of_all (by decide +kernel)⟩
    · exact ⟨_, rfl, Reached.applied 2 (by decide), iff_of_true (SameTables.refl _) (by decide),
        Migration.spares_of_all (by decide +kernel)⟩
    · exact ⟨_, rfl, Reached.applied 3 (by decide), iff_of_true (SameTables.refl _) (by decide),
        Migration.spares_of_all (by decide +kernel)⟩
  | incomplete =>
    obtain rfl := Option.some.inj hm
    exact ⟨_, rfl, Reached.dropped, iff_of_true sameTables_dropped (by decide), fun t ht => by cases ht⟩

/-- What a migration spares comes through its revert and its repetition. -/
theorem Migration.Spares.reapplied {V : Type*} {m : Migration} {t : Table} (h : m.Spares t)
    (evaluate : Evaluate V) (rows : List (Row V)) :
    List.Forall₂ (fun before after : Row V => ∀ c ∈ t.columns, after c.name = before c.name) rows
      (rowsAfter evaluate m.up (rowsAfter evaluate m.down rows)) := by
  obtain ⟨hdown, hup, hcolumns⟩ := h
  have hsame := (rowsAfter_sameBut evaluate hdown rows).trans
    (rowsAfter_sameBut evaluate hup (rowsAfter evaluate m.down rows))
  exact hsame.imp fun before after hrow c hc => hrow c.name (hcolumns c hc)

section Runs

variable {V : Type*} (evaluate : Evaluate V)

namespace Database

/-- A step of a reached state, with what it makes of the schema. -/
theorem migrate_eq {db : Database V} (h : Reached db.schema db.applied) {m : Migration}
    (hm : migrations[db.applied]? = some m) :
    db.migrate evaluate = ⟨schemaAfter (db.applied + 1), rowsAfter evaluate m.up db.rows, db.applied + 1⟩ := by
  rw [Database.migrate, hm]
  dsimp only
  rw [h.migrate hm]

theorem migrate_eq_self {db : Database V} (h : migrations[db.applied]? = none) : db.migrate evaluate = db := by
  rw [Database.migrate, h]

/-- A revert takes back the last migration, and spares the columns that it does not name. -/
theorem revert_eq {db : Database V} {n : ℕ} (h : Reached db.schema (n + 1)) (hn : db.applied = n + 1) :
    ∃ m s, migrations[n]? = some m ∧ db.revert evaluate = ⟨s, rowsAfter evaluate m.down db.rows, n⟩ ∧
      Reached s n ∧ (SameTables s (schemaAfter n) ↔ n ≠ 1) ∧ ∀ t ∈ s.table, m.Spares t := by
  have hlt : n < migrations.length := h.le
  obtain ⟨s, happly, hreached, htables, hspares⟩ := h.revert (List.getElem?_eq_getElem hlt)
  refine ⟨_, s, List.getElem?_eq_getElem hlt, ?_, hreached, htables, hspares⟩
  rw [Database.revert, hn]
  dsimp only
  rw [List.getElem?_eq_getElem hlt]
  dsimp only
  rw [happly]

theorem revert_eq_self {db : Database V} (h : db.applied = 0) : db.revert evaluate = db := by
  rw [Database.revert, h]

/-- Of a reached state only the tables are in question: the statements of a revert and of its
repetition succeed, and they leave the rows as they were, but for what is computed anew. -/
theorem reversible_iff {db : Database V} (h : Reached db.schema db.applied) :
    Reversible evaluate db ↔ SameTables db.schema (schemaAfter db.applied) := by
  refine ⟨Reversible.tables, fun htables => ⟨htables, fun hlt => ?_, fun n hn => ?_, ?_⟩⟩
  · rw [migrate_eq evaluate h (List.getElem?_eq_getElem hlt)]
  · obtain ⟨m, s, -, hrevert, -⟩ := revert_eq evaluate (hn ▸ h) hn
    rw [hrevert]
  · cases happlied : db.applied with
    | zero =>
      -- nothing to revert, and no column to keep
      rw [revert_eq_self evaluate happlied]
      rw [happlied] at h
      intro t ht
      rw [h.table_zero] at ht
      cases ht
    | succ n =>
      obtain ⟨m, s, hm, hrevert, hreached, -, hspares⟩ := revert_eq evaluate (happlied ▸ h) happlied
      rw [hrevert, migrate_eq evaluate hreached hm]
      exact fun t ht => (hspares t ht).reapplied evaluate db.rows

/-- The step that the second migration does not survive. -/
def revertsSecond (db : Database V) : DatabaseStep V → Prop
  | .revert => db.applied = 2
  | _ => False

/-- Writing rows changes no schema. -/
theorem step_rows (db : Database V) {a : DatabaseStep V} (hmigrate : a ≠ .migrate) (hrevert : a ≠ .revert) :
    (db.step evaluate a).schema = db.schema ∧ (db.step evaluate a).applied = db.applied := by
  cases a with
  | migrate => exact absurd rfl hmigrate
  | revert => exact absurd rfl hrevert
  | insert values =>
    rw [step]
    split <;> exact ⟨rfl, rfl⟩
  | delete gone => exact ⟨rfl, rfl⟩

/-- Every step leads to a state that is reached, whatever it does. -/
theorem reached_step {db : Database V} (h : Reached db.schema db.applied) (a : DatabaseStep V) :
    Reached (db.step evaluate a).schema (db.step evaluate a).applied := by
  cases a with
  | migrate =>
    show Reached (db.migrate evaluate).schema (db.migrate evaluate).applied
    cases hm : migrations[db.applied]? with
    | none => rwa [migrate_eq_self evaluate hm]
    | some m =>
      rw [migrate_eq evaluate h hm]
      exact Reached.applied _ (List.getElem?_eq_some_iff.1 hm).1
  | revert =>
    show Reached (db.revert evaluate).schema (db.revert evaluate).applied
    cases happlied : db.applied with
    | zero => rwa [revert_eq_self evaluate happlied]
    | succ n =>
      obtain ⟨m, s, -, hrevert, hreached, -⟩ := revert_eq evaluate (happlied ▸ h) happlied
      rw [hrevert]
      exact hreached
  | insert values =>
    obtain ⟨hschema, happlied⟩ := step_rows evaluate db (a := .insert values) nofun nofun
    rwa [hschema, happlied]
  | delete gone =>
    obtain ⟨hschema, happlied⟩ := step_rows evaluate db (a := .delete gone) nofun nofun
    rwa [hschema, happlied]

/-- From a state with the tables of its number, a step keeps to them exactly when it is not
the revert of the second migration, whose `down` drops a column that the first one has made. -/
theorem sameTables_step_iff {db : Database V} (h : Reached db.schema db.applied)
    (htables : SameTables db.schema (schemaAfter db.applied)) (a : DatabaseStep V) :
    SameTables (db.step evaluate a).schema (schemaAfter (db.step evaluate a).applied) ↔
      ¬ db.revertsSecond a := by
  cases a with
  | migrate =>
    refine iff_of_true ?_ id
    show SameTables (db.migrate evaluate).schema (schemaAfter (db.migrate evaluate).applied)
    cases hm : migrations[db.applied]? with
    | none => rwa [migrate_eq_self evaluate hm]
    | some m =>
      rw [migrate_eq evaluate h hm]
      exact SameTables.refl _
  | revert =>
    show SameTables (db.revert evaluate).schema (schemaAfter (db.revert evaluate).applied) ↔ ¬ db.applied = 2
    cases happlied : db.applied with
    | zero =>
      rw [revert_eq_self evaluate happlied]
      exact iff_of_true htables (by decide)
    | succ n =>
      obtain ⟨m, s, -, hrevert, -, hsame, -⟩ := revert_eq evaluate (happlied ▸ h) happlied
      rw [hrevert]
      exact hsame.trans (by omega)
  | insert values =>
    obtain ⟨hschema, happlied⟩ := step_rows evaluate db (a := .insert values) nofun nofun
    rw [hschema, happlied]
    exact iff_of_true htables id
  | delete gone =>
    obtain ⟨hschema, happlied⟩ := step_rows evaluate db (a := .delete gone) nofun nofun
    rw [hschema, happlied]
    exact iff_of_true htables id

/-- **When migrations are reversible.** Along a run from the empty database every state has the
tables of its number of migrations, and can revert and repeat the last one with the rows as
they were, exactly when no step of the run reverts the second migration. -/
theorem reversible_throughout_iff (steps : List (DatabaseStep V)) :
    (∀ pre post db, steps = pre ++ post → (machine evaluate).run pre empty = some db →
      Reversible evaluate db) ↔
      (machine evaluate).Meets (fun db a => ¬ db.revertsSecond a) steps empty := by
  have hempty : Reached (empty : Database V).schema (empty : Database V).applied :=
    Reached.applied 0 (by decide)
  have hreached : ∀ {pre : List (DatabaseStep V)} {db : Database V},
      (machine evaluate).run pre empty = some db → Reached db.schema db.applied := fun hrun =>
    StepMachine.Keeps.run (machine evaluate) (P := fun db : Database V => Reached db.schema db.applied)
      (fun db a db' h hstep => Option.some.inj hstep ▸ reached_step evaluate h a) hempty hrun
  -- which schemas are reached does not depend on the condition, whether they are right does
  have hexact : (∀ pre post db, steps = pre ++ post → (machine evaluate).run pre empty = some db →
      Reached db.schema db.applied ∧ SameTables db.schema (schemaAfter db.applied)) ↔
      (machine evaluate).Meets (fun db a => ¬ db.revertsSecond a) steps empty := by
    refine StepMachine.throughout_iff (machine evaluate) (fun db a => ⟨_, rfl⟩) (fun db a db' h hstep => ?_)
      ⟨hempty, SameTables.refl _⟩
    obtain rfl := Option.some.inj hstep
    rw [and_iff_right (reached_step evaluate h.1 a)]
    exact sameTables_step_iff evaluate h.1 h.2 a
  rw [← hexact]
  constructor
  · intro h pre post db hsplit hrun
    exact ⟨hreached hrun, (h pre post db hsplit hrun).tables⟩
  · intro h pre post db hsplit hrun
    exact (reversible_iff evaluate (hreached hrun)).2 (h pre post db hsplit hrun).2

/-- Two migrations, and the second one reverted: the column for the search is gone, which the
first migration had made. -/
theorem reverted_without_searchDocument :
    ∃ db, (machine fun _ _ => (none : Option Unit)).run [.migrate, .migrate, .revert] empty = some db ∧
      db.applied = 1 ∧ ¬ SameTables db.schema (schemaAfter 1) :=
  ⟨⟨withoutSearchDocument, [], 1⟩, rfl, rfl, not_sameTables_withoutSearchDocument⟩

end Database

end Runs

end TechTrends
