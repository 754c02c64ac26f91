import Mathlib.Data.List.Basic
import Mathlib.Data.List.Sort
import SupportOps.Library.FixedWidth
import SupportOps.Library.Tables

/-!
# Rows of cells

Tables as an SQL database has them: a row gives each column a cell, statements name columns and
bind values in the order of their texts, and a reader takes the columns of a query by position. An
`ORDER BY` leaves the order of equal rows to the database. A program's rows are encoded by a
function into such rows; a query whose condition and order agree with a condition and an order on
the encoded values returns the encoded answer.
-/
namespace SupportOps.Library.Sql

inductive Cell where
  | null
  | integer (n : Int)
  | text (s : String)
  deriving DecidableEq, Repr

namespace Cell

/-- The order of `ORDER BY`: nulls, integers, texts by their bytes. -/
def before : Cell → Cell → Prop
  | .null, _ => True
  | .integer m, .integer n => m ≤ n
  | .integer _, .text _ => True
  | .text s, .text t => bytes s ≤ bytes t
  | _, _ => False

instance : DecidableRel before := fun a b => by
  cases a <;> cases b <;> unfold before <;> infer_instance

/-- `a = b`, which is not true of nulls. -/
def equals (a b : Cell) : Bool := decide (a ≠ .null ∧ a = b)

/-- `a <= b`, which is not true of nulls. -/
def atMost (a b : Cell) : Bool := decide (a ≠ .null ∧ b ≠ .null ∧ a.before b)

@[simp] theorem equals_text (s t : String) : (text s).equals (text t) = decide (s = t) := by
  simp [equals]

@[simp] theorem atMost_text (s t : String) :
    (text s).atMost (text t) = decide (bytes s ≤ bytes t) := by
  simp [atMost, before]

@[simp] theorem before_text (s t : String) : (text s).before (text t) ↔ bytes s ≤ bytes t := Iff.rfl

end Cell

/-- A row: the cell of each column. -/
abbrev Row (κ : Type*) := κ → Cell

/-- Declared constraints. -/
structure Schema (κ : Type*) where
  primaryKey : κ
  notNull : List κ

inductive Constraint where
  | notNull | primaryKey
  deriving DecidableEq, Repr

section Statements

variable {κ : Type*} [DecidableEq κ]

/-- `(columns) VALUES (values)`. -/
def row (columns : List κ) (values : List Cell) : Row κ := fun c =>
  ((columns.zip values).lookup c).getD .null

/-- `SET column = value, …`. -/
def assign (sets : List (κ × Cell)) (r : Row κ) : Row κ := fun c => (sets.lookup c).getD (r c)

/-- `INSERT`. -/
def insert (schema : Schema κ) (rows : List (Row κ)) (r : Row κ) :
    Except Constraint (List (Row κ)) :=
  if schema.notNull.any fun c => r c = .null then .error .notNull
  else if rows.any fun s => (s schema.primaryKey).equals (r schema.primaryKey) then
    .error .primaryKey
  else .ok (rows ++ [r])

/-- `UPDATE … SET … WHERE key = value`. -/
def update (schema : Schema κ) (rows : List (Row κ)) (value : Cell) (sets : List (κ × Cell)) :
    Except Constraint (List (Row κ)) :=
  let updated := rows.map fun r =>
    if (r schema.primaryKey).equals value then assign sets r else r
  if updated.any fun r => schema.notNull.any fun c => r c = .null then .error .notNull
  else .ok updated

end Statements

/-- `LIMIT`; a negative one does not limit. -/
def limited {ρ : Type*} (limit : Int) (rows : List ρ) : List ρ :=
  if limit < 0 then rows else rows.take limit.toNat

/-- `SELECT … WHERE … ORDER BY … LIMIT`, equal rows in the order of `ties` of their keys. -/
def select {ρ κ : Type*} [DecidableEq κ] (rows : List ρ) (key : ρ → κ) (ties : List κ)
    (p : ρ → Bool) (le : ρ → ρ → Prop) [DecidableRel le] (limit : Int) : List ρ :=
  limited limit ((rows.filter p).insertionSort (tied key ties le))

/-- The cells of a query's columns, in their order. -/
def project {κ : Type*} (columns : List κ) (r : Row κ) : List Cell := columns.map r

/-! ## Readers -/

/-- `reader.GetString(i)`. -/
def getString (cells : List Cell) (i : Nat) : Option String :=
  match cells[i]? with
  | some (.text s) => some s
  | some (.integer n) => some (toString n)
  | _ => none

def Int32 (n : Int) : Prop := -2147483648 ≤ n ∧ n ≤ 2147483647

instance (n : Int) : Decidable (Int32 n) := inferInstanceAs (Decidable (_ ∧ _))

/-- `reader.GetInt32(i)`, of integers. -/
def getInt32 (cells : List Cell) (i : Nat) : Option Int :=
  match cells[i]? with
  | some (.integer n) => if Int32 n then some n else none
  | _ => none

/-- `reader.IsDBNull(i)`. -/
def isDBNull (cells : List Cell) (i : Nat) : Bool := cells[i]? = some .null

/-! ## Encoded rows -/

section Encoded

variable {ρ σ κ ν : Type*} [DecidableEq κ] [DecidableEq ν]

theorem mem_select {rows : List ρ} {key : ρ → κ} {ties : List κ} {p : ρ → Bool} {le : ρ → ρ → Prop}
    [DecidableRel le] {limit : Int} {r : ρ} (h : r ∈ select rows key ties p le limit) :
    r ∈ rows := by
  have sorted : r ∈ (rows.filter p).insertionSort (tied key ties le) := by
    unfold select limited at h
    split at h
    · exact h
    · exact List.mem_of_mem_take h
  exact List.mem_of_mem_filter ((List.mem_insertionSort _).mp sorted)

/-- A query on encoded rows returns the encoded answer. -/
theorem select_map (encode : ρ → σ) {rows : List ρ} (key : ρ → κ) {key' : σ → ν} {g : κ → ν}
    (keys : ∀ r ∈ rows, key' (encode r) = g (key r) ∧ ∀ k, g k = g (key r) → k = key r)
    {p : ρ → Bool} {q : σ → Bool} {le : ρ → ρ → Prop} {le' : σ → σ → Prop} [DecidableRel le]
    [DecidableRel le'] (condition : ∀ r ∈ rows, q (encode r) = p r)
    (order : ∀ r ∈ rows, ∀ s ∈ rows, le r s ↔ le' (encode r) (encode s)) (ties : List κ)
    (limit : Int) : select (rows.map encode) key' (ties.map g) q le' limit =
      (select rows key ties p le limit).map encode := by
  have filtered : (rows.map encode).filter q = (rows.filter p).map encode := by
    rw [List.filter_map]
    exact congrArg (List.map encode) (List.filter_congr condition)
  have sorted := List.map_insertionSort (tied key ties le) (tied key' (ties.map g) le') encode
    (rows.filter p) fun r hr s hs => by
      have hr := List.mem_of_mem_filter hr
      have hs := List.mem_of_mem_filter hs
      exact tied_iff (keys r hr) (keys s hs) (order r hr s hs) (order s hs r hr)
  unfold select limited
  rw [filtered, ← sorted]
  split
  · rfl
  · rw [List.map_take]

/-- The same for rows of cells, one of which holds the key. -/
theorem select_rows {τ : Type*} (encode : ρ → Row τ) (column : τ) {rows : List ρ}
    (key : ρ → String) (keys : ∀ r ∈ rows, encode r column = .text (key r)) {p : ρ → Bool}
    {q : Row τ → Bool} {le : ρ → ρ → Prop} {le' : Row τ → Row τ → Prop} [DecidableRel le]
    [DecidableRel le'] (condition : ∀ r ∈ rows, q (encode r) = p r)
    (order : ∀ r ∈ rows, ∀ s ∈ rows, le r s ↔ le' (encode r) (encode s)) (ties : List String)
    (limit : Int) : select (rows.map encode) (fun r => r column) (ties.map .text) q le' limit =
      (select rows key ties p le limit).map encode :=
  select_map encode key (fun r hr => ⟨keys r hr, fun _ => Cell.text.inj⟩) condition order ties limit

/-- Reading values from encoded rows, one after another. -/
theorem mapM_map_eq {τ : Type*} {encode : ρ → σ} {decode : σ → Option τ} {value : ρ → τ}
    {rows : List ρ} (read : ∀ r ∈ rows, decode (encode r) = some (value r)) :
    (rows.map encode).mapM decode = some (rows.map value) := by
  induction rows with
  | nil => rfl
  | cons r rows ih =>
    rw [List.map_cons, List.mapM_cons, read r (.head _), ih fun s hs => read s (.tail _ hs)]
    rfl

/-- Reading encoded rows back. -/
theorem mapM_map {encode : ρ → σ} {decode : σ → Option ρ} {rows : List ρ}
    (read : ∀ r ∈ rows, decode (encode r) = some r) :
    (rows.map encode).mapM decode = some rows := by
  exact (mapM_map_eq read).trans (congrArg some (List.map_id rows))

theorem countP_map {encode : ρ → σ} {p : ρ → Bool} {q : σ → Bool} {rows : List ρ}
    (condition : ∀ r ∈ rows, q (encode r) = p r) : (rows.map encode).countP q = rows.countP p := by
  rw [List.countP_map]
  exact List.countP_congr fun r hr => by rw [Function.comp_apply, condition r hr]

end Encoded

section Keyed

variable {κ ρ : Type*} [Keyed ρ String] (schema : Schema κ) (encode : ρ → Row κ)

/-- `INSERT` of an encoded row into an encoded table. -/
theorem insert_map (keys : ∀ r, encode r schema.primaryKey = .text (Keyed.key r))
    (full : ∀ r, (schema.notNull.any fun c => encode r c = .null) = false) (t : Table ρ) (r : ρ) :
    insert schema (t.rows.map encode) (encode r) =
      if (t.find? (Keyed.key r)).isSome then .error .primaryKey
      else .ok ((t.insert r).rows.map encode) := by
  have taken : ((t.rows.map encode).any fun s =>
      (s schema.primaryKey).equals (encode r schema.primaryKey)) =
      (t.find? (Keyed.key r)).isSome := by
    rw [List.any_map, Table.find?, List.isSome_find?]
    congr 1
    funext s
    simp only [Function.comp_apply, keys, Cell.equals_text]
  rw [insert, full, taken]
  cases found : t.find? (Keyed.key r) with
  | some s => rfl
  | none => simp [t.rows_insert_of_fresh found]

/-- `UPDATE` by key of an encoded table. -/
theorem update_map [DecidableEq κ]
    (keys : ∀ r, encode r schema.primaryKey = .text (Keyed.key r))
    (full : ∀ r, (schema.notNull.any fun c => encode r c = .null) = false) (t : Table ρ)
    {k : String} {f : ρ → ρ} (hf : ∀ r, Keyed.key (f r) = Keyed.key r) {sets : List (κ × Cell)}
    (assigned : ∀ r, assign sets (encode r) = encode (f r)) :
    update schema (t.rows.map encode) (.text k) sets = .ok ((t.modify k f hf).rows.map encode) := by
  have updated : ((t.rows.map encode).map fun r =>
      if (r schema.primaryKey).equals (.text k) then assign sets r else r) =
      (t.modify k f hf).rows.map encode := by
    rw [t.rows_modify, List.map_map, List.map_map]
    refine List.map_congr_left fun r _ => ?_
    simp only [Function.comp_apply, keys, Cell.equals_text, assigned, decide_eq_true_eq]
    split <;> rfl
  have none : (((t.modify k f hf).rows.map encode).any fun r =>
      schema.notNull.any fun c => r c = .null) = false := by
    rw [List.any_map, List.any_eq_false]
    intro r _
    simp only [Function.comp_apply, full, Bool.false_eq_true, not_false_eq_true]
  simp only [update, updated, none, Bool.false_eq_true, if_false]

end Keyed

end SupportOps.Library.Sql
