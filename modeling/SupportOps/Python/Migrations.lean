import SupportOps.Library.Scripts
import SupportOps.Library.Tables

/-!
# Schema migrations

`run_migrations` on a SQLite database. Every statement that it sends commits, so a call can end
between any two of them and leave the schema half way; the next call asks again what is missing.
-/
namespace SupportOps.Python

open Library

/-! ## The database -/

inductive SqlValue where
  | null
  | integer (n : Int)
  | real (bits : UInt64)
  | text (s : String)
  | blob (bytes : List UInt8)
  deriving DecidableEq, Repr

/-- SQLite compares names without case, in ASCII. -/
def nocase (name : String) : String := String.ofList (name.toList.map Char.toLower)

/-- A column, with what its definition says after the name. -/
structure Column where
  name : String
  ddl : String
  deriving DecidableEq, Repr

instance : Keyed Column String := ⟨fun c => nocase c.name⟩

@[simp] theorem key_column (c : Column) : Keyed.key c = nocase c.name := rfl

/-- A table other than `schema_versions`, with a value for every column in each of its rows. -/
structure SqlTable where
  name : String
  unversioned : nocase name ≠ "schema_versions"
  columns : Table Column
  rows : List (List SqlValue)
  aligned : ∀ row ∈ rows, row.length = columns.rows.length

instance : Keyed SqlTable String := ⟨fun t => nocase t.name⟩

@[simp] theorem key_sqlTable (t : SqlTable) : Keyed.key t = nocase t.name := rfl

structure Database where
  /-- `schema_versions`, if it exists: the version in its row. The primary key with its CHECK admits
  one row at most. -/
  schemaVersions : Option (Option Int)
  tables : Table SqlTable

inductive SqlError where
  | noSuchTable | duplicateColumn | constraint | noResultFound
  deriving DecidableEq, Repr

/-! ## Statements -/

namespace Database

/-- `CREATE TABLE IF NOT EXISTS schema_versions …`. -/
def createSchemaVersions (db : Database) : Except SqlError Database :=
  .ok { db with schemaVersions := db.schemaVersions.or (some none) }

/-- `SELECT version FROM schema_versions WHERE id = 1`. -/
def selectVersion (db : Database) : Except SqlError (Option Int) :=
  match db.schemaVersions with
  | none => .error .noSuchTable
  | some row => .ok row

/-- `INSERT INTO schema_versions (id, version) VALUES (1, 0)`. -/
def insertVersion (db : Database) : Except SqlError Database :=
  match db.schemaVersions with
  | none => .error .noSuchTable
  | some (some _) => .error .constraint
  | some none => .ok { db with schemaVersions := some (some 0) }

/-- `UPDATE schema_versions SET version = :version WHERE id = 1`. -/
def updateVersion (version : Int) (db : Database) : Except SqlError Database :=
  match db.schemaVersions with
  | none => .error .noSuchTable
  | some row => .ok { db with schemaVersions := some (row.map fun _ => version) }

end Database

/-- The arguments of `_add_column_if_missing`: `ddl` is a type, and a text as default or none. -/
structure NewColumn where
  table : String
  name : String
  type : String
  default : Option String
  deriving DecidableEq, Repr

namespace NewColumn

def ddl (c : NewColumn) : String :=
  c.type ++ c.default.elim "" fun literal => " DEFAULT '" ++ literal ++ "'"

def column (c : NewColumn) : Column := ⟨c.name, c.ddl⟩

@[simp] theorem key_column (c : NewColumn) : Keyed.key c.column = nocase c.name := rfl

/-- The value of the rows that are there already. -/
def fill (c : NewColumn) : SqlValue := c.default.elim .null .text

end NewColumn

/-- The table with the column at its end, unless the name is taken. -/
def SqlTable.addColumn (t : SqlTable) (c : NewColumn) : SqlTable :=
  if fresh : t.columns.find? (Keyed.key c.column) = none then
    { t with
      columns := t.columns.insert c.column
      rows := t.rows.map (· ++ [c.fill])
      aligned := by
        intro row mem
        obtain ⟨old, stored, rfl⟩ := List.mem_map.mp mem
        rw [t.columns.rows_insert_of_fresh fresh]
        simp [t.aligned old stored] }
  else t

namespace SqlTable

variable {t : SqlTable} {c d : NewColumn}

@[simp] theorem name_addColumn (t : SqlTable) (c : NewColumn) : (t.addColumn c).name = t.name := by
  unfold addColumn; split <;> rfl

theorem addColumn_of_taken {column : Column}
    (taken : t.columns.find? (nocase c.name) = some column) : t.addColumn c = t := by
  unfold addColumn
  rw [dif_neg]
  rw [NewColumn.key_column, taken]
  exact Option.some_ne_none column

theorem columns_addColumn (fresh : t.columns.find? (nocase c.name) = none) :
    (t.addColumn c).columns.rows = t.columns.rows ++ [c.column] := by
  have fresh : t.columns.find? (Keyed.key c.column) = none := fresh
  simp only [addColumn, dif_pos fresh]
  exact t.columns.rows_insert_of_fresh fresh

theorem rows_addColumn (fresh : t.columns.find? (nocase c.name) = none) :
    (t.addColumn c).rows = t.rows.map (· ++ [c.fill]) := by
  have fresh : t.columns.find? (Keyed.key c.column) = none := fresh
  simp only [addColumn, dif_pos fresh]

theorem columns_subset_addColumn (t : SqlTable) (c : NewColumn) :
    t.columns.rows ⊆ (t.addColumn c).columns.rows := by
  cases found : t.columns.find? (nocase c.name) with
  | some column => rw [addColumn_of_taken found]; exact List.Subset.refl _
  | none => rw [columns_addColumn found]; exact List.subset_append_left _ _

/-- The column is there afterwards. -/
theorem exists_addColumn (t : SqlTable) (c : NewColumn) :
    ∃ column, (t.addColumn c).columns.find? (nocase c.name) = some column := by
  cases found : t.columns.find? (nocase c.name) with
  | some column => exact ⟨column, by rw [addColumn_of_taken found, found]⟩
  | none =>
    refine ⟨c.column, (Table.find?_eq_some_iff _).mpr ⟨?_, rfl⟩⟩
    rw [columns_addColumn found]
    exact List.mem_append_right _ (.head _)

/-- Adding the column changes nothing exactly if there is one of its name. -/
theorem addColumn_eq_self_iff :
    t.addColumn c = t ↔ ∃ column, t.columns.find? (nocase c.name) = some column := by
  constructor
  · intro same
    exact same ▸ t.exists_addColumn c
  · rintro ⟨column, taken⟩
    exact addColumn_of_taken taken

theorem addColumn_idem (t : SqlTable) (c : NewColumn) :
    (t.addColumn c).addColumn c = t.addColumn c :=
  addColumn_eq_self_iff.mpr (t.exists_addColumn c)

theorem addColumn_stays (there : t.addColumn c = t) (d : NewColumn) :
    (t.addColumn d).addColumn c = t.addColumn d := by
  obtain ⟨column, taken⟩ := addColumn_eq_self_iff.mp there
  exact addColumn_of_taken (Table.find?_of_subset (t.columns_subset_addColumn d) taken)

end SqlTable

namespace Database

/-- `ALTER TABLE … ADD COLUMN …`. -/
def addColumn (c : NewColumn) (db : Database) : Except SqlError Database :=
  match db.tables.find? (nocase c.table) with
  | none => .error .noSuchTable
  | some t =>
    match t.columns.find? (nocase c.name) with
    | some _ => .error .duplicateColumn
    | none => .ok { db with
        tables := db.tables.modify (nocase c.table) (·.addColumn c) fun t => by simp }

/-- `inspector.get_table_names()`. -/
def tableNames (db : Database) : List String :=
  (db.schemaVersions.elim [] fun _ => ["schema_versions"]) ++ db.tables.rows.map SqlTable.name

/-- The names among `inspector.get_columns(table_name)`, of a table other than
`schema_versions`. -/
def columnNames (table : String) (db : Database) : Except SqlError (List String) :=
  match db.tables.find? (nocase table) with
  | none => .error .noSuchTable
  | some t => .ok (t.columns.rows.map Column.name)

end Database

/-! ## The migration -/

/-- What runs on the engine: each statement commits, and each error ends the call. -/
abbrev Migration := Script Database SqlError

namespace BaseSchemaVersion

def ensureTable : Migration Unit := do
  Script.execute Database.createSchemaVersions
  let current ← Script.query Database.selectVersion
  if current = none then
    Script.execute Database.insertVersion

/-- `scalar_one` raises where there is no row. -/
def current : Migration Int := do
  match ← Script.query Database.selectVersion with
  | some version => pure version
  | none => Script.raise .noResultFound

def setCurrent (version : Int) : Migration Unit := Script.execute (Database.updateVersion version)

end BaseSchemaVersion

def addColumnIfMissing (c : NewColumn) : Migration Unit := do
  let tables ← Script.query fun db => .ok db.tableNames
  if c.table ∉ tables then
    pure ()
  else
    let existing ← Script.query (Database.columnNames c.table)
    if c.name ∈ existing then
      pure ()
    else
      Script.execute (Database.addColumn c)

def correlationId : NewColumn := ⟨"operational_events", "correlation_id", "VARCHAR(80)", some ""⟩
def nextAttemptAt : NewColumn := ⟨"actions", "next_attempt_at", "DATETIME", none⟩
def leaseId : NewColumn := ⟨"actions", "lease_id", "VARCHAR(80)", none⟩
def leasedAt : NewColumn := ⟨"actions", "leased_at", "DATETIME", none⟩

def upgradeTo1 : Migration Unit := do
  addColumnIfMissing correlationId
  addColumnIfMissing nextAttemptAt
  addColumnIfMissing leaseId
  addColumnIfMissing leasedAt

def runMigrations : Migration Unit := do
  BaseSchemaVersion.ensureTable
  let version ← BaseSchemaVersion.current
  if version < 1 then
    upgradeTo1
    BaseSchemaVersion.setCurrent 1

/-! ## What one column comes to -/

/-- The columns of the first wave, in the order in which they are added. -/
def wave1 : List NewColumn := [correlationId, nextAttemptAt, leaseId, leasedAt]

/-- No column of a table is a wave-1 column of it in other letters. -/
def Named (tables : Table SqlTable) : Prop :=
  ∀ t ∈ tables.rows, ∀ c ∈ wave1, c.table = t.name →
    ∀ column ∈ t.columns.rows, nocase column.name = nocase c.name → column.name = c.name

instance (tables : Table SqlTable) : Decidable (Named tables) :=
  inferInstanceAs (Decidable (∀ t ∈ tables.rows, ∀ c ∈ wave1, c.table = t.name →
    ∀ column ∈ t.columns.rows, nocase column.name = nocase c.name → column.name = c.name))

/-- The table with the column, if it is the one that the column is for. -/
def SqlTable.withColumn (t : SqlTable) (c : NewColumn) : SqlTable :=
  if t.name = c.table then t.addColumn c else t

namespace SqlTable

variable {t : SqlTable} {c : NewColumn}

@[simp] theorem name_withColumn (t : SqlTable) (c : NewColumn) :
    (t.withColumn c).name = t.name := by
  unfold withColumn; split <;> simp

theorem withColumn_idem (t : SqlTable) (c : NewColumn) :
    (t.withColumn c).withColumn c = t.withColumn c := by
  by_cases table : t.name = c.table
  · have own : t.withColumn c = t.addColumn c := if_pos table
    rw [own, withColumn, if_pos (by simpa using table)]
    exact t.addColumn_idem c
  · have other : t.withColumn c = t := if_neg table
    rw [other, other]

theorem withColumn_stays (there : t.withColumn c = t) (d : NewColumn) :
    (t.withColumn d).withColumn c = t.withColumn d := by
  by_cases table : t.name = c.table
  · have own : (t.withColumn d).withColumn c = (t.withColumn d).addColumn c :=
      if_pos (by simpa using table)
    rw [withColumn, if_pos table] at there
    rw [own]
    unfold withColumn
    split
    · exact addColumn_stays there d
    · exact there
  · exact if_neg (by simpa using table)

theorem mem_withColumn {column : Column} (there : column ∈ (t.withColumn c).columns.rows) :
    column ∈ t.columns.rows ∨ column = c.column := by
  unfold withColumn at there
  split at there
  · cases found : t.columns.find? (nocase c.name) with
    | some taken => exact .inl (addColumn_of_taken found ▸ there)
    | none => simpa [columns_addColumn found] using there
  · exact .inl there

end SqlTable

namespace Database

/-- The database with the column in the table that it is for. -/
def withColumn (c : NewColumn) (db : Database) : Database :=
  { db with tables := db.tables.modify (nocase c.table) (·.withColumn c) fun t => by simp }

theorem rows_withColumn (c : NewColumn) (db : Database) :
    (db.withColumn c).tables.rows = db.tables.rows.map (·.withColumn c) := by
  refine List.map_congr_left fun t _ => ?_
  split
  · rfl
  · next other =>
    have name : t.name ≠ c.table := fun same => other (congrArg nocase same)
    rw [SqlTable.withColumn, if_neg name]

theorem withColumn_eq_self_iff {c : NewColumn} {db : Database} :
    db.withColumn c = db ↔ ∀ t ∈ db.tables.rows, t.withColumn c = t := by
  constructor
  · intro same t mem
    have there : t.withColumn c ∈ db.tables.rows := by
      rw [← congrArg Database.tables same, rows_withColumn]
      exact List.mem_map_of_mem mem
    exact db.tables.eq_of_key_eq there mem (by simp)
  · intro fixed
    have tables : (db.withColumn c).tables = db.tables := by
      refine Table.ext ?_
      rw [rows_withColumn]
      exact (List.map_congr_left fixed).trans (List.map_id _)
    exact congrArg (Database.mk db.schemaVersions) tables

theorem stable_withColumn (cs : List NewColumn) : Script.Stable (cs.map withColumn) where
  idem := by
    intro f hf db
    obtain ⟨c, -, rfl⟩ := List.mem_map.mp hf
    refine withColumn_eq_self_iff.mpr fun t ht => ?_
    rw [rows_withColumn] at ht
    obtain ⟨r, -, rfl⟩ := List.mem_map.mp ht
    exact r.withColumn_idem c
  stays := by
    refine List.pairwise_of_forall_mem_list fun f hf g hg db there => ?_
    obtain ⟨c, -, rfl⟩ := List.mem_map.mp hf
    obtain ⟨d, -, rfl⟩ := List.mem_map.mp hg
    refine withColumn_eq_self_iff.mpr fun t ht => ?_
    rw [rows_withColumn] at ht
    obtain ⟨r, hr, rfl⟩ := List.mem_map.mp ht
    exact SqlTable.withColumn_stays (withColumn_eq_self_iff.mp there r hr) d

/-- The database with all columns of the first wave. -/
def upgraded (db : Database) : Database := Script.applyAll (wave1.map withColumn) db

end Database

/-! ## One column, as the code adds it -/

section Step

variable {c : NewColumn} {db : Database}

/-- Only a wave-1 column of a table takes its name, in whatever letters. -/
theorem Named.find? (named : Named db.tables) (mem : c ∈ wave1) {t : SqlTable}
    (stored : t ∈ db.tables.rows) (table : c.table = t.name) :
    (∃ column, t.columns.find? (nocase c.name) = some column) ↔
      c.name ∈ t.columns.rows.map Column.name := by
  constructor
  · rintro ⟨column, found⟩
    obtain ⟨there, same⟩ := t.columns.find?_eq_some_iff.mp found
    rw [← named t stored c mem table column there same]
    exact List.mem_map_of_mem there
  · intro there
    obtain ⟨column, there, name⟩ := List.mem_map.mp there
    exact ⟨column, t.columns.find?_eq_some_iff.mpr ⟨there, by rw [key_column, name]⟩⟩

theorem Named.withColumn (named : Named db.tables) (mem : c ∈ wave1) :
    Named (db.withColumn c).tables := by
  have apart : ∀ c ∈ wave1, ∀ d ∈ wave1, nocase c.name = nocase d.name → c.name = d.name := by
    decide
  intro t ht d hd table column there same
  rw [Database.rows_withColumn] at ht
  obtain ⟨r, hr, rfl⟩ := List.mem_map.mp ht
  rw [SqlTable.name_withColumn] at table
  rcases SqlTable.mem_withColumn there with old | rfl
  · exact named r hr d hd table column old same
  · exact apart c mem d hd same

theorem exists_of_mem_tableNames (mem : c ∈ wave1) (listed : c.table ∈ db.tableNames) :
    ∃ t ∈ db.tables.rows, c.table = t.name := by
  have versions : ∀ c ∈ wave1, c.table ≠ "schema_versions" := by decide
  rcases List.mem_append.mp listed with own | other
  · cases present : db.schemaVersions with
    | none => rw [present] at own; cases own
    | some row =>
      rw [present] at own
      exact absurd (List.mem_singleton.mp own) (versions c mem)
  · obtain ⟨t, stored, table⟩ := List.mem_map.mp other
    exact ⟨t, stored, table.symm⟩

theorem find?_table {t : SqlTable} (stored : t ∈ db.tables.rows) (table : c.table = t.name) :
    db.tables.find? (nocase c.table) = some t :=
  db.tables.find?_eq_some_iff.mpr ⟨stored, by rw [table, key_sqlTable]⟩

theorem columnNames_eq {t : SqlTable} (stored : t ∈ db.tables.rows) (table : c.table = t.name) :
    db.columnNames c.table = .ok (t.columns.rows.map Column.name) := by
  simp only [Database.columnNames, find?_table stored table]

/-- The statement for a missing column succeeds. -/
theorem addColumn_eq {t : SqlTable} (stored : t ∈ db.tables.rows) (table : c.table = t.name)
    (fresh : t.columns.find? (nocase c.name) = none) : db.addColumn c = .ok (db.withColumn c) := by
  have tables : db.tables.modify (nocase c.table) (·.addColumn c) (fun t => by simp) =
      (db.withColumn c).tables := by
    refine Table.ext (List.map_congr_left fun r hr => ?_)
    split
    · next same =>
      have name : r.name = c.table := by
        rw [table, db.tables.eq_of_key_eq hr stored (same.trans (by rw [table, key_sqlTable]))]
      exact (if_pos name).symm
    · rfl
  simp only [Database.addColumn, find?_table stored table, fresh]
  exact congrArg (fun tables => Except.ok (Database.mk db.schemaVersions tables)) tables

/-- `_add_column_if_missing` adds the column in one statement, or there is nothing to add. -/
theorem atomic_addColumnIfMissing (named : Named db.tables) (mem : c ∈ wave1) :
    Script.Atomic (addColumnIfMissing c) db (db.withColumn c) := by
  simp only [addColumnIfMissing, Script.bind_eq, Script.pure_eq]
  refine .query rfl ?_
  by_cases listed : c.table ∈ db.tableNames
  · obtain ⟨t, stored, table⟩ := exists_of_mem_tableNames mem listed
    rw [if_neg (not_not_intro listed)]
    refine .query (columnNames_eq stored table) ?_
    have taken := named.find? mem stored table
    by_cases there : c.name ∈ t.columns.rows.map Column.name
    · have same : db.withColumn c = db := by
        refine Database.withColumn_eq_self_iff.mpr fun r hr => ?_
        unfold SqlTable.withColumn
        split
        · next name =>
          rw [db.tables.eq_of_key_eq hr stored (congrArg nocase (name.trans table))]
          exact SqlTable.addColumn_eq_self_iff.mpr (taken.mpr there)
        · rfl
      rw [if_pos there, same]
      exact .ret
    · have fresh : t.columns.find? (nocase c.name) = none :=
        Option.eq_none_iff_forall_ne_some.mpr fun column found => there (taken.mp ⟨column, found⟩)
      rw [if_neg there]
      exact .execute (addColumn_eq stored table fresh)
  · have same : db.withColumn c = db := by
      refine Database.withColumn_eq_self_iff.mpr fun t ht => if_neg fun table => listed ?_
      exact List.mem_append_right _ (table ▸ List.mem_map_of_mem ht)
    rw [if_pos listed, same]
    exact .ret

end Step

/-! ## What a call leaves -/

/-- What a call that is cut off can leave of a database whose tables shall become `goal`. -/
structure Pending (goal : Table SqlTable) (db : Database) : Prop where
  named : Named db.tables
  upgraded : db.upgraded.tables = goal
  version : ∀ version, db.schemaVersions = some (some version) →
    version = 0 ∨ version = 1 ∧ db.tables = goal

/-- The columns do not depend on the version. -/
theorem upgraded_mk (v w : Option (Option Int)) (tables : Table SqlTable) :
    (Database.mk v tables).upgraded = ⟨v, (Database.mk w tables).upgraded.tables⟩ := by
  unfold Database.upgraded
  generalize wave1 = cs
  induction cs generalizing tables with
  | nil => rfl
  | cons c cs ih => exact ih _

section Call

variable {goal : Table SqlTable}

theorem Pending.setVersions {db : Database} (h : Pending goal db) {v : Option (Option Int)}
    (version : ∀ version, v = some (some version) → version = 0 ∨ version = 1 ∧ db.tables = goal) :
    Pending goal ⟨v, db.tables⟩ where
  named := h.named
  upgraded := by
    rw [upgraded_mk v db.schemaVersions]
    exact h.upgraded
  version := version

theorem spec_ensureTable :
    Script.Spec (Pending goal) BaseSchemaVersion.ensureTable
      (fun _ db => Pending goal db ∧ ∃ version, db.schemaVersions = some (some version))
      (Pending goal) := by
  simp only [BaseSchemaVersion.ensureTable, Script.bind_eq, Script.pure_eq]
  refine .andThen (Q := fun _ db => Pending goal db ∧ db.schemaVersions ≠ none) ?create fun _ =>
    .andThen (Q := fun row db => Pending goal db ∧ db.schemaVersions = some row) ?select
      fun row => ?insert
  case create =>
    refine .execute fun db h => ⟨h, _, rfl, ?_⟩
    cases present : db.schemaVersions with
    | none =>
      have created : Pending goal ⟨some none, db.tables⟩ :=
        h.setVersions fun _ same => by cases same
      exact ⟨created, created, Option.some_ne_none _⟩
    | some row =>
      have same : Database.mk (some row) db.tables = db :=
        congrArg (fun v => Database.mk v db.tables) present.symm
      exact ⟨same.symm ▸ h, same.symm ▸ h, Option.some_ne_none _⟩
  case select =>
    refine .query fun db h => ⟨h.1, ?_⟩
    obtain ⟨row, present⟩ := Option.ne_none_iff_exists'.mp h.2
    exact ⟨row, by rw [Database.selectVersion, present], h.1, present⟩
  case insert =>
    split
    · next missing =>
      refine .execute fun db h => ⟨h.1, ⟨some (some 0), db.tables⟩, ?_, ?_⟩
      · rw [Database.insertVersion, h.2, missing]
      · have inserted : Pending goal ⟨some (some 0), db.tables⟩ :=
          h.1.setVersions fun version same => .inl (by cases same; rfl)
        exact ⟨inserted, inserted, 0, rfl⟩
    · next present =>
      refine .ret fun db h => ⟨h.1, h.1, ?_⟩
      obtain ⟨version, rfl⟩ := Option.ne_none_iff_exists'.mp present
      exact ⟨version, h.2⟩

theorem spec_current :
    Script.Spec (fun db => Pending goal db ∧ ∃ version, db.schemaVersions = some (some version))
      BaseSchemaVersion.current
      (fun version db => Pending goal db ∧ db.schemaVersions = some (some version))
      (Pending goal) := by
  intro db start
  obtain ⟨h, version, present⟩ := start
  have answer : db.selectVersion = .ok (some version) := by rw [Database.selectVersion, present]
  refine ⟨fun k => ?_, version, db, ?_, h, present⟩
  · simpa only [BaseSchemaVersion.current, Script.bind_eq, Script.pure_eq, Script.query,
      Script.andThen, Script.cut, answer] using h
  · simp only [BaseSchemaVersion.current, Script.bind_eq, Script.pure_eq, Script.query,
      Script.andThen, Script.run, answer]

theorem upgradeTo1_eq : upgradeTo1 = Script.all (wave1.map addColumnIfMissing) := by
  simp only [upgradeTo1, wave1, List.map_cons, List.map_nil, Script.all, Script.bind_eq,
    Script.andThen_ret]

theorem spec_upgradeTo1 :
    Script.Spec (fun db => Pending goal db ∧ db.schemaVersions = some (some 0)) upgradeTo1
      (fun _ db => Pending goal db ∧ db = ⟨some (some 0), goal⟩) (Pending goal) := by
  have performs : ∀ c ∈ wave1, ∀ db : Database,
      Named db.tables ∧ db.schemaVersions = some (some 0) →
        (Named (db.withColumn c).tables ∧ (db.withColumn c).schemaVersions = some (some 0)) ∧
          Script.Atomic (addColumnIfMissing c) db (db.withColumn c) := by
    intro c mem db start
    exact ⟨⟨start.1.withColumn mem, start.2⟩, atomic_addColumnIfMissing start.1 mem⟩
  have steps := Script.spec_all (I := fun db => Named db.tables ∧
    db.schemaVersions = some (some 0)) performs (Database.stable_withColumn wave1)
    ⟨some (some 0), goal⟩
  have pending : ∀ db : Database, (Named db.tables ∧ db.schemaVersions = some (some 0)) ∧
      db.upgraded = ⟨some (some 0), goal⟩ → Pending goal db := by
    intro db h
    exact
      { named := h.1.1
        upgraded := congrArg Database.tables h.2
        version := fun version present => .inl (by rw [h.1.2] at present; cases present; rfl) }
  rw [upgradeTo1_eq]
  refine steps.mono (fun db start => ?_) (fun _ db h => ⟨pending db h.1, h.2⟩) pending
  obtain ⟨h, zero⟩ := start
  refine ⟨⟨h.named, zero⟩, ?_⟩
  have whole : db.upgraded = ⟨db.schemaVersions, db.upgraded.tables⟩ := upgraded_mk _ _ _
  rw [zero, h.upgraded] at whole
  exact whole

/-- A call leaves what the next one can start from, and ends in the same database in any case. -/
theorem spec_runMigrations :
    Script.Spec (Pending goal) runMigrations (fun _ db => db = ⟨some (some 1), goal⟩)
      (Pending goal) := by
  simp only [runMigrations, Script.bind_eq, Script.pure_eq]
  refine .andThen spec_ensureTable fun _ => .andThen spec_current fun version => ?_
  split
  · next older =>
    have zero : ∀ db : Database, Pending goal db ∧ db.schemaVersions = some (some version) →
        Pending goal db ∧ db.schemaVersions = some (some 0) := by
      intro db start
      obtain ⟨h, present⟩ := start
      rcases h.version version present with rfl | ⟨rfl, -⟩
      · exact ⟨h, present⟩
      · exact absurd older (by decide)
    refine .andThen (spec_upgradeTo1.mono zero (fun _ _ h => h) fun _ h => h) fun _ => ?_
    refine .execute fun db h => ⟨h.1, ⟨some (some 1), goal⟩, ?_, ?_, rfl⟩
    · rw [h.2]
      rfl
    · have tables : db.tables = goal := by rw [h.2]
      have ended : Pending goal ⟨some (some 1), db.tables⟩ :=
        h.1.setVersions fun version same => .inr ⟨by cases same; rfl, tables⟩
      exact tables ▸ ended
  · next newer =>
    refine .ret fun db h => ⟨h.1, ?_⟩
    rcases h.1.version version h.2 with rfl | ⟨rfl, ended⟩
    · exact absurd (by decide) newer
    · rw [← ended, ← h.2]

end Call

/-! ## The upgraded schema -/

/-- The table has got columns at its end, with one value of each in every row. -/
structure Grown (added : List NewColumn) (old new : SqlTable) : Prop where
  name : new.name = old.name
  columns : new.columns.rows = old.columns.rows ++ added.map NewColumn.column
  rows : new.rows = old.rows.map (· ++ added.map NewColumn.fill)

theorem Grown.refl (t : SqlTable) : Grown [] t t := ⟨rfl, by simp, by simp⟩

theorem Grown.trans {first second : List NewColumn} {t u v : SqlTable} (h : Grown first t u)
    (g : Grown second u v) : Grown (first ++ second) t v where
  name := g.name.trans h.name
  columns := by rw [g.columns, h.columns, List.map_append, List.append_assoc]
  rows := by
    rw [g.rows, h.rows, List.map_map, List.map_append]
    exact List.map_congr_left fun row _ => List.append_assoc ..

/-- A new column has a new name. -/
theorem Grown.fresh {added : List NewColumn} {old new : SqlTable} (h : Grown added old new)
    {c : NewColumn} (mem : c ∈ added) : c.name ∉ old.columns.rows.map Column.name := by
  intro there
  obtain ⟨column, stored, name⟩ := List.mem_map.mp there
  refine Table.key_notMem_of_append h.columns (List.mem_map_of_mem mem) ?_
  rw [NewColumn.key_column, ← name]
  exact List.mem_map_of_mem stored

theorem grown_withColumn (t : SqlTable) (c : NewColumn) :
    ∃ added, Grown added t (t.withColumn c) ∧ added.Sublist [c] ∧
      ∀ d ∈ added, d.table = t.name := by
  unfold SqlTable.withColumn
  split
  · next table =>
    cases found : t.columns.find? (nocase c.name) with
    | some column =>
      rw [SqlTable.addColumn_of_taken found]
      exact ⟨[], .refl t, List.nil_sublist _, fun _ h => by cases h⟩
    | none =>
      refine ⟨[c], ⟨by simp, SqlTable.columns_addColumn found, SqlTable.rows_addColumn found⟩,
        .refl _, fun d hd => ?_⟩
      rw [List.mem_singleton.mp hd, table]
  · exact ⟨[], .refl t, List.nil_sublist _, fun _ h => by cases h⟩

/-- Columns added one after another: those that were missing, and then all are there. -/
theorem grown_foldl (cs : List NewColumn) (t : SqlTable) :
    (∃ added, Grown added t (cs.foldl SqlTable.withColumn t) ∧ added.Sublist cs ∧
      ∀ c ∈ added, c.table = t.name) ∧
    ∀ c ∈ cs, c.table = t.name →
      ∃ column, (cs.foldl SqlTable.withColumn t).columns.find? (nocase c.name) = some column := by
  induction cs generalizing t with
  | nil => exact ⟨⟨[], .refl t, .refl _, fun _ h => by cases h⟩, fun _ h => by cases h⟩
  | cons c cs ih =>
    obtain ⟨first, here, one, own⟩ := grown_withColumn t c
    obtain ⟨⟨rest, there, later, own'⟩, all⟩ := ih (t.withColumn c)
    rw [SqlTable.name_withColumn] at own' all
    refine ⟨⟨first ++ rest, here.trans there, one.append later, fun d hd => ?_⟩,
      fun d hd table => ?_⟩
    · rcases List.mem_append.mp hd with early | late
      · exact own d early
      · exact own' d late
    · rcases List.mem_cons.mp hd with rfl | late
      · obtain ⟨column, found⟩ := t.exists_addColumn d
        have own : t.withColumn d = t.addColumn d := if_pos table.symm
        have subset : (t.addColumn d).columns.rows ⊆
            (cs.foldl SqlTable.withColumn (t.withColumn d)).columns.rows := by
          rw [there.columns, own]
          exact List.subset_append_left _ _
        exact ⟨column, Table.find?_of_subset subset found⟩
      · exact all d late table

/-- What the first wave does to a table: it keeps its columns and the values in its rows, gets the
columns of the wave that it lacks, and has each of its columns of the wave once. -/
structure Upgraded (old new : SqlTable) : Prop where
  grown : ∃ added, Grown added old new ∧ ∀ c ∈ added, c ∈ wave1 ∧ c.table = old.name ∧
    c.name ∉ old.columns.rows.map Column.name ∧
    c.fill = if c.name = "correlation_id" then .text "" else .null
  once : ∀ c ∈ wave1, c.table = old.name → c.name ∈ new.columns.rows.map Column.name ∧
    new.columns.rows.countP (fun column => nocase column.name = nocase c.name) = 1

theorem Database.rows_applyAll (cs : List NewColumn) (db : Database) :
    (Script.applyAll (cs.map withColumn) db).tables.rows =
      db.tables.rows.map (cs.foldl SqlTable.withColumn) := by
  induction cs generalizing db with
  | nil => exact (List.map_id _).symm
  | cons c cs ih =>
    refine (ih (db.withColumn c)).trans ?_
    rw [rows_withColumn, List.map_map]
    rfl

theorem Named.upgraded {db : Database} (named : Named db.tables) : Named db.upgraded.tables := by
  refine Script.applyAll_invariant (I := fun db : Database => Named db.tables)
    (fun f hf db named => ?_) named
  obtain ⟨c, mem, rfl⟩ := List.mem_map.mp hf
  exact named.withColumn mem

theorem upgraded_tables {db : Database} (named : Named db.tables) :
    List.Forall₂ Upgraded db.tables.rows db.upgraded.tables.rows := by
  have rows := Database.rows_applyAll wave1 db
  have after := named.upgraded
  unfold Database.upgraded at *
  rw [rows, List.forall₂_map_right_iff, List.forall₂_same]
  intro t stored
  obtain ⟨⟨added, grown, known, own⟩, all⟩ := grown_foldl wave1 t
  have fills : ∀ c ∈ wave1, c.fill =
      if c.name = "correlation_id" then SqlValue.text "" else .null := by decide
  refine ⟨⟨added, grown, fun c mem => ⟨known.subset mem, own c mem, grown.fresh mem,
    fills c (known.subset mem)⟩⟩, fun c mem table => ?_⟩
  have there := all c mem table
  have name : c.name ∈ (wave1.foldl SqlTable.withColumn t).columns.rows.map Column.name := by
    refine (Named.find? after mem ?_ (table.trans grown.name.symm)).mp there
    rw [rows]
    exact List.mem_map_of_mem stored
  refine ⟨name, ?_⟩
  obtain ⟨column, found⟩ := there
  have nodup := (wave1.foldl SqlTable.withColumn t).columns.nodup
  have one := List.count_eq_one_of_mem nodup (List.mem_map_of_mem (Table.mem_of_find? _ found))
  rw [Table.key_of_find? _ found, List.count_eq_countP, List.countP_map] at one
  refine (List.countP_congr fun column _ => ?_).trans one
  simp

/-! ## Calls after calls -/

/-- A call on a migrated database changes nothing, wherever it is cut off. -/
theorem runMigrations_again (tables : Table SqlTable) :
    runMigrations.run ⟨some (some 1), tables⟩ = (.ok (), ⟨some (some 1), tables⟩) ∧
      ∀ k, runMigrations.cut k ⟨some (some 1), tables⟩ = ⟨some (some 1), tables⟩ := by
  refine ⟨rfl, fun k => ?_⟩
  cases k with
  | zero => rfl
  | succ k => cases k <;> rfl

/-- A database without versions is migrated by the last of any calls, all others of which may have
been cut off between any two statements; it is the database that one call makes of it. -/
theorem runMigrations_restarts (db : Database) (unversioned : db.schemaVersions = none)
    (named : Named db.tables) (ks : List Nat) :
    ∃ t, runMigrations.run (runMigrations.interrupted ks db) = (.ok (), t) ∧
      t.schemaVersions = some (some 1) ∧ List.Forall₂ Upgraded db.tables.rows t.tables.rows ∧
      runMigrations.run db = (.ok (), t) ∧
      runMigrations.run t = (.ok (), t) ∧ ∀ k, runMigrations.cut k t = t := by
  have start : Pending db.upgraded.tables db :=
    { named := named
      upgraded := rfl
      version := fun version present => by rw [unversioned] at present; cases present }
  have ends : ∀ ks, runMigrations.run (runMigrations.interrupted ks db) =
      (.ok (), ⟨some (some 1), db.upgraded.tables⟩) := by
    intro ks
    obtain ⟨_, t, ran, rfl⟩ := spec_runMigrations.interrupted ks db start
    exact ran
  exact ⟨_, ends ks, rfl, upgraded_tables named, ends [], runMigrations_again _⟩

/-- A database from before the first wave, with an event, an action and one column of the wave. -/
def oldSchema : Database where
  schemaVersions := none
  tables :=
    { rows :=
        [{ name := "operational_events"
           unversioned := by decide
           columns := ⟨[⟨"id", "INTEGER PRIMARY KEY"⟩, ⟨"category", "VARCHAR(80) NOT NULL"⟩],
             by decide⟩
           rows := [[.integer 1, .text "offline"]]
           aligned := by decide },
         { name := "actions"
           unversioned := by decide
           columns := ⟨[⟨"id", "INTEGER PRIMARY KEY"⟩, ⟨"lease_id", "VARCHAR(80)"⟩], by decide⟩
           rows := [[.integer 1, .text "worker-1"]]
           aligned := by decide }]
      nodup := by decide }

/-- Three calls that are cut off, before the version is inserted, before the first column and
before the last one, and a fourth. -/
theorem runMigrations_restarts_oldSchema :
    ∃ t, runMigrations.run (runMigrations.interrupted [1, 2, 3] oldSchema) = (.ok (), t) ∧
      t.schemaVersions = some (some 1) ∧
      List.Forall₂ Upgraded oldSchema.tables.rows t.tables.rows ∧
      runMigrations.run oldSchema = (.ok (), t) ∧
      runMigrations.run t = (.ok (), t) ∧ ∀ k, runMigrations.cut k t = t :=
  runMigrations_restarts oldSchema rfl (by decide) [1, 2, 3]

end SupportOps.Python
