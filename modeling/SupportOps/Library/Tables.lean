import Mathlib.Algebra.GroupWithZero.Nat
import Mathlib.Data.List.Basic
import Mathlib.Data.List.Nodup
import Mathlib.Data.List.Sort
import Mathlib.Data.List.Count

/-!
# Tables with a primary key

A table is a list of rows, in storage order, whose keys are pairwise different. Rows are
addressed by key only: `modify` cannot change a key and `insert` refuses a key that is
taken, so every table that can be built is a legal one.
-/
namespace SupportOps.Library

/-- Rows of type `ρ` have a primary key. -/
class Keyed (ρ : Type*) (κ : outParam Type*) where
  key : ρ → κ

/-- Rows in storage order, with the primary key constraint. -/
structure Table (ρ : Type*) {κ : Type*} [Keyed ρ κ] where
  rows : List ρ
  nodup : (rows.map Keyed.key).Nodup

section Ties

variable {ρ σ κ ν : Type*} [DecidableEq κ] [DecidableEq ν]

/-- The order `le`, in which rows that it leaves equal stand as their keys do in `ties`, and after
them the rows whose keys are not there. -/
def tied (f : ρ → κ) (ties : List κ) (le : ρ → ρ → Prop) (r s : ρ) : Prop :=
  le r s ∧ (le s r → ties.idxOf (f r) ≤ ties.idxOf (f s))

variable {f : ρ → κ} {ties : List κ} {le : ρ → ρ → Prop}

instance [DecidableRel le] : DecidableRel (tied f ties le) := fun _ _ =>
  inferInstanceAs (Decidable (_ ∧ _))

instance tied.total [total : Std.Total le] : Std.Total (tied f ties le) where
  total r s := by
    by_cases there : le r s
    · by_cases back : le s r
      · exact (Nat.le_total (ties.idxOf (f r)) (ties.idxOf (f s))).imp
          (fun place => ⟨there, fun _ => place⟩) fun place => ⟨back, fun _ => place⟩
      · exact .inl ⟨there, fun h => absurd h back⟩
    · exact .inr ⟨(total.total r s).resolve_left there, fun h => absurd h there⟩

instance tied.trans [trans : IsTrans ρ le] : IsTrans ρ (tied f ties le) where
  trans r s t rs st := by
    refine ⟨trans.trans r s t rs.1 st.1, fun back => ?_⟩
    exact (rs.2 (trans.trans s t r st.1 back)).trans (st.2 (trans.trans t r s back rs.1))

theorem tied_congr {le' : ρ → ρ → Prop} {r s : ρ} (there : le r s ↔ le' r s)
    (back : le s r ↔ le' s r) : tied f ties le r s ↔ tied f ties le' r s := by
  rw [tied, tied, there, back]

/-- Rows in another form, their keys too. -/
theorem tied_iff {g : κ → ν} {encode : ρ → σ} {f' : σ → ν} {le' : σ → σ → Prop} {r s : ρ}
    (key : f' (encode r) = g (f r) ∧ ∀ k, g k = g (f r) → k = f r)
    (key' : f' (encode s) = g (f s) ∧ ∀ k, g k = g (f s) → k = f s)
    (there : le r s ↔ le' (encode r) (encode s)) (back : le s r ↔ le' (encode s) (encode r)) :
    tied f ties le r s ↔ tied f' (ties.map g) le' (encode r) (encode s) := by
  have place {k : κ} (inj : ∀ j, g j = g k → j = k) :
      (ties.map g).idxOf (g k) = ties.idxOf k := by
    induction ties with
    | nil => rfl
    | cons j ties ih =>
      have first : (g j == g k) = (j == k) := by
        rw [Bool.eq_iff_iff, beq_iff_eq, beq_iff_eq]
        exact ⟨inj j, congrArg g⟩
      rw [List.map_cons, List.idxOf_cons, List.idxOf_cons, first, ih]
  rw [tied, tied, key.1, key'.1, place key.2, place key'.2, there, back]

end Ties

namespace Table

variable {ρ κ : Type*} [Keyed ρ κ]

open Keyed

@[ext] theorem ext {t u : Table ρ} (h : t.rows = u.rows) : t = u := by
  cases t; cases u; simp only at h; subst h; rfl

def empty : Table ρ := ⟨[], List.nodup_nil⟩

@[simp] theorem rows_empty : (empty : Table ρ).rows = [] := rfl

/-- Two rows with one key are one row. -/
theorem eq_of_key_eq (t : Table ρ) {r s : ρ} (hr : r ∈ t.rows) (hs : s ∈ t.rows)
    (h : key r = key s) : r = s :=
  List.inj_on_of_nodup_map t.nodup hr hs h

section Lookup

variable [DecidableEq κ]

/-- `SELECT … WHERE key = k`. -/
def find? (t : Table ρ) (k : κ) : Option ρ := t.rows.find? fun r => key r = k

theorem find?_eq_some_iff (t : Table ρ) {k : κ} {r : ρ} :
    t.find? k = some r ↔ r ∈ t.rows ∧ key r = k := by
  constructor
  · intro h
    exact ⟨List.mem_of_find?_eq_some h, by simpa using List.find?_some h⟩
  · rintro ⟨mem, rfl⟩
    cases h : t.rows.find? (fun s => key s = key r) with
    | none => simpa using List.find?_eq_none.mp h r mem
    | some s =>
      have same : key s = key r := by simpa using List.find?_some h
      exact h.trans (congrArg some (t.eq_of_key_eq (List.mem_of_find?_eq_some h) mem same))

theorem find?_eq_none_iff (t : Table ρ) {k : κ} :
    t.find? k = none ↔ ∀ r ∈ t.rows, key r ≠ k := by
  simp [find?]

theorem find?_of_mem (t : Table ρ) {r : ρ} (h : r ∈ t.rows) : t.find? (key r) = some r :=
  t.find?_eq_some_iff.mpr ⟨h, rfl⟩

theorem mem_of_find? (t : Table ρ) {k : κ} {r : ρ} (h : t.find? k = some r) : r ∈ t.rows :=
  (t.find?_eq_some_iff.mp h).1

theorem key_of_find? (t : Table ρ) {k : κ} {r : ρ} (h : t.find? k = some r) : key r = k :=
  (t.find?_eq_some_iff.mp h).2

/-- A table with more rows finds what was found before. -/
theorem find?_of_subset {t u : Table ρ} (rows : t.rows ⊆ u.rows) {k : κ} {r : ρ}
    (h : t.find? k = some r) : u.find? k = some r :=
  u.find?_eq_some_iff.mpr ⟨rows (t.mem_of_find? h), t.key_of_find? h⟩

/-- `UPDATE … WHERE key = k`; the update leaves the key alone. -/
def modify (t : Table ρ) (k : κ) (f : ρ → ρ) (hf : ∀ r, key (f r) = key r) : Table ρ where
  rows := t.rows.map fun r => if key r = k then f r else r
  nodup := by
    have same : (t.rows.map fun r => if key r = k then f r else r).map key
        = t.rows.map key := by
      rw [List.map_map]
      refine List.map_congr_left fun r _ => ?_
      simp only [Function.comp_apply]
      split <;> simp [hf]
    rw [same]; exact t.nodup

theorem rows_modify (t : Table ρ) (k : κ) (f : ρ → ρ) (hf : ∀ r, key (f r) = key r) :
    (t.modify k f hf).rows = t.rows.map fun r => if key r = k then f r else r := rfl

theorem mem_modify (t : Table ρ) {k : κ} {f : ρ → ρ} {hf : ∀ r, key (f r) = key r} {s : ρ} :
    s ∈ (t.modify k f hf).rows ↔ ∃ r ∈ t.rows, s = if key r = k then f r else r := by
  simp [rows_modify, eq_comm]

/-- Looking up a row after a change that leaves every key alone. -/
theorem find?_of_rows_map {t u : Table ρ} {g : ρ → ρ} (keys : ∀ r, key (g r) = key r)
    (rows : u.rows = t.rows.map g) (k : κ) : u.find? k = (t.find? k).map g := by
  cases found : t.find? k with
  | none =>
    refine u.find?_eq_none_iff.mpr fun s hs => ?_
    rw [rows] at hs
    obtain ⟨r, hr, rfl⟩ := List.mem_map.mp hs
    rw [keys]
    exact t.find?_eq_none_iff.mp found r hr
  | some r =>
    obtain ⟨mem, rfl⟩ := t.find?_eq_some_iff.mp found
    refine u.find?_eq_some_iff.mpr ⟨?_, keys r⟩
    rw [rows]
    exact List.mem_map_of_mem mem

/-- Looking up a row after one stored row has been replaced. -/
theorem find?_of_rows_replace {t u : Table ρ} {a b : ρ} (current : t.find? (key a) = some a)
    (same : key b = key a) (rows : u.rows = t.rows.map fun r => if key r = key a then b else r)
    (k : κ) : u.find? k = if k = key a then some b else t.find? k := by
  have keys : ∀ r, key (if key r = key a then b else r) = key r := by
    intro r
    split
    · next here => rw [same, here]
    · rfl
  rw [find?_of_rows_map keys rows]
  split
  · next here => rw [here, current, Option.map_some, if_pos rfl]
  · next other =>
    refine (Option.map_congr fun r hr => ?_).trans (congrFun Option.map_id _)
    exact if_neg (t.key_of_find? hr ▸ other)

theorem find?_modify (t : Table ρ) (k : κ) (f : ρ → ρ) (hf : ∀ r, key (f r) = key r) (j : κ) :
    (t.modify k f hf).find? j = if j = k then (t.find? j).map f else t.find? j := by
  have keys : ∀ r, key (if key r = k then f r else r) = key r := by
    intro r; split <;> simp [hf]
  rw [find?_of_rows_map keys (t.rows_modify k f hf)]
  cases found : t.find? j with
  | none => simp
  | some r =>
    rw [t.key_of_find? found |>.symm]
    split <;> simp_all

/-- A sum over a column that an update of one row raises by `n`. -/
theorem sum_modify (t : Table ρ) {f : ρ → ρ} (hf : ∀ r, key (f r) = key r) {g : ρ → Nat} {n : Nat}
    (raised : ∀ r, g (f r) = g r + n) {r : ρ} (mem : r ∈ t.rows) :
    ((t.modify (key r) f hf).rows.map g).sum = (t.rows.map g).sum + n := by
  have rows : ∀ l : List ρ, (l.map key).Nodup → r ∈ l →
      ((l.map fun s => if key s = key r then f s else s).map g).sum = (l.map g).sum + n := by
    intro l nodup mem
    induction l with
    | nil => cases mem
    | cons s l ih =>
      obtain ⟨fresh, nodup⟩ := List.nodup_cons.mp nodup
      simp only [List.map_cons, List.sum_cons]
      rcases List.mem_cons.mp mem with rfl | later
      · have others : (l.map fun s => if key s = key r then f s else s) = l := by
          refine (List.map_congr_left fun s hs => ?_).trans (List.map_id l)
          have other : key s ≠ key r := fun same => fresh (same ▸ List.mem_map_of_mem hs)
          exact if_neg other
        rw [if_pos rfl, raised, others]
        omega
      · have other : key s ≠ key r := fun same => fresh (same ▸ List.mem_map_of_mem later)
        rw [if_neg other, ih nodup later, Nat.add_assoc]
  exact rows t.rows t.nodup mem

/-- `INSERT`; a row whose key is taken is refused. -/
def insert (t : Table ρ) (r : ρ) : Table ρ :=
  if h : key r ∈ t.rows.map key then t
  else
    { rows := t.rows ++ [r]
      nodup := by
        rw [List.map_append, List.map_singleton]
        exact List.Nodup.append t.nodup (List.nodup_singleton _)
          (List.disjoint_singleton.mpr h) }

theorem rows_insert_of_fresh (t : Table ρ) {r : ρ} (h : t.find? (key r) = none) :
    (t.insert r).rows = t.rows ++ [r] := by
  have fresh : key r ∉ t.rows.map key := by
    rw [List.mem_map]
    rintro ⟨s, hs, same⟩
    exact t.find?_eq_none_iff.mp h s hs same
  simp only [insert, dif_neg fresh]

theorem insert_of_taken (t : Table ρ) {r s : ρ} (h : t.find? (key r) = some s) :
    t.insert r = t := by
  have taken : key r ∈ t.rows.map key :=
    List.mem_map.mpr ⟨s, t.mem_of_find? h, t.key_of_find? h⟩
  simp only [insert, dif_pos taken]

theorem find?_insert (t : Table ρ) (r : ρ) (k : κ) :
    (t.insert r).find? k = (t.find? k).or (if key r = k then some r else none) := by
  cases taken : t.find? (key r) with
  | some s =>
    rw [t.insert_of_taken taken]
    by_cases h : key r = k
    · subst h; simp [taken]
    · simp [h]
  | none =>
    unfold find?
    rw [t.rows_insert_of_fresh taken, List.find?_append]
    by_cases h : key r = k <;> simp [h]

theorem mem_of_mem_insert (t : Table ρ) {r s : ρ} (h : s ∈ (t.insert r).rows) :
    s ∈ t.rows ∨ s = r := by
  cases taken : t.find? (key r) with
  | some u => rw [t.insert_of_taken taken] at h; exact Or.inl h
  | none => simpa [t.rows_insert_of_fresh taken] using h

theorem mem_insert_self (t : Table ρ) {r : ρ} (h : t.find? (key r) = none) :
    r ∈ (t.insert r).rows := by
  simp [t.rows_insert_of_fresh h]

theorem rows_subset_insert (t : Table ρ) (r : ρ) : t.rows ⊆ (t.insert r).rows := by
  cases taken : t.find? (key r) with
  | some s => rw [t.insert_of_taken taken]; exact List.Subset.refl _
  | none => rw [t.rows_insert_of_fresh taken]; exact List.subset_append_left _ _

/-- What holds of every row and of a new one holds after the insertion. -/
theorem forall_insert (t : Table ρ) {P : ρ → Prop} (rows : ∀ s ∈ t.rows, P s) {r : ρ} (new : P r) :
    ∀ s ∈ (t.insert r).rows, P s := by
  intro s hs
  rcases t.mem_of_mem_insert hs with old | rfl
  · exact rows s old
  · exact new

/-- What an update keeps of every row holds after the update of one of them. -/
theorem forall_modify (t : Table ρ) {P : ρ → Prop} (rows : ∀ s ∈ t.rows, P s) {k : κ} {f : ρ → ρ}
    (hf : ∀ r, key (f r) = key r) (kept : ∀ s, P s → P (f s)) :
    ∀ s ∈ (t.modify k f hf).rows, P s := by
  intro s hs
  obtain ⟨r, hr, rfl⟩ := t.mem_modify.mp hs
  split
  · exact kept r (rows r hr)
  · exact rows r hr

theorem find?_insert_self (t : Table ρ) {r : ρ} (h : t.find? (key r) = none) :
    (t.insert r).find? (key r) = some r := by
  simp [find?_insert, h]

end Lookup

/-- The keys of appended rows are new. -/
theorem key_notMem_of_append {t u : Table ρ} {new : List ρ} (rows : u.rows = t.rows ++ new) {r : ρ}
    (mem : r ∈ new) : key r ∉ t.rows.map key := by
  have nodup := u.nodup
  rw [rows, List.map_append] at nodup
  exact fun old => List.disjoint_of_nodup_append nodup old (List.mem_map_of_mem mem)

/-- Changing some rows for which `q` holds into rows for which it does not lowers the count by
their number. -/
theorem countP_map_of_batch (t : Table ρ) {q : ρ → Bool} {f : ρ → ρ} {batch : List ρ}
    [DecidableEq ρ] (nodup : batch.Nodup) (stored : ∀ r ∈ batch, r ∈ t.rows ∧ q r = true)
    (gone : ∀ r ∈ batch, q (f r) = false) :
    (t.rows.map fun r => if r ∈ batch then f r else r).countP q + batch.length =
      t.rows.countP q := by
  have kept : (t.rows.map fun r => if r ∈ batch then f r else r).countP q =
      (t.rows.filter q).countP fun r => decide (r ∉ batch) := by
    rw [List.countP_map, List.countP_filter]
    refine List.countP_congr fun r _ => ?_
    by_cases inside : r ∈ batch
    · simp [inside, gone r inside]
    · simp [inside]
  have lost : (t.rows.filter q).countP (fun r => decide (r ∈ batch)) = batch.length := by
    have rows : t.rows.Nodup := t.nodup.of_map key
    have same : ((t.rows.filter q).filter fun r => decide (r ∈ batch)).Perm batch := by
      refine (List.perm_ext_iff_of_nodup ((rows.filter _).filter _) nodup).mpr fun r => ?_
      simp only [List.mem_filter, decide_eq_true_eq]
      exact ⟨fun h => h.2, fun h => ⟨stored r h, h⟩⟩
    rw [List.countP_eq_length_filter, same.length_eq]
  have split := (t.rows.filter q).length_eq_countP_add_countP fun r => decide (r ∈ batch)
  rw [kept, List.countP_eq_length_filter (p := q), split, lost, Nat.add_comm]
  simp

section Serial

variable {τ : Type*} [Keyed τ Nat]

/-- The integer key a database assigns next: one past the largest in use. -/
def nextId (t : Table τ) : Nat := (t.rows.map key).foldr max 0 + 1

theorem key_lt_nextId (t : Table τ) {r : τ} (h : r ∈ t.rows) : key r < t.nextId := by
  have le : ∀ (ks : List Nat) (k : Nat), k ∈ ks → k ≤ ks.foldr max 0 := by
    intro ks
    induction ks with
    | nil => simp
    | cons j ks ih =>
      intro k hk
      rcases List.mem_cons.mp hk with rfl | hk
      · exact Nat.le_max_left _ _
      · exact (ih k hk).trans (Nat.le_max_right _ _)
  exact Nat.lt_succ_of_le (le _ _ (List.mem_map_of_mem h))

theorem find?_nextId (t : Table τ) : t.find? t.nextId = none :=
  t.find?_eq_none_iff.mpr fun _ h => (t.key_lt_nextId h).ne

end Serial

/-- `SELECT … ORDER BY … LIMIT n`, rows that the order leaves equal in storage order. -/
def select (t : Table ρ) (p : ρ → Bool) (le : ρ → ρ → Prop) [DecidableRel le] (n : Nat) :
    List ρ :=
  ((t.rows.filter p).insertionSort le).take n

theorem mem_of_mem_select (t : Table ρ) {p : ρ → Bool} {le : ρ → ρ → Prop} [DecidableRel le]
    {n : Nat} {r : ρ} (h : r ∈ t.select p le n) : r ∈ t.rows ∧ p r = true := by
  have := List.mem_of_mem_take h
  rwa [List.mem_insertionSort, List.mem_filter] at this

theorem nodup_sorted (t : Table ρ) (p : ρ → Bool) (le : ρ → ρ → Prop) [DecidableRel le] :
    (((t.rows.filter p).insertionSort le).map key).Nodup := by
  have whole : ((t.rows.filter p).map key).Nodup :=
    t.nodup.sublist (List.filter_sublist.map key)
  exact ((List.perm_insertionSort le _).map key).nodup_iff.mpr whole

theorem nodup_select (t : Table ρ) (p : ρ → Bool) (le : ρ → ρ → Prop) [DecidableRel le]
    (n : Nat) : ((t.select p le n).map key).Nodup :=
  (t.nodup_sorted p le).sublist ((List.take_sublist n _).map key)

/-- A selection that its limit did not cut short has every row that satisfies the condition. -/
theorem mem_select_of_room (t : Table ρ) {p : ρ → Bool} {le : ρ → ρ → Prop} [DecidableRel le]
    {n : Nat} (room : (t.select p le n).length < n ∨ t.rows.length ≤ n) {r : ρ}
    (mem : r ∈ t.rows) (selected : p r = true) : r ∈ t.select p le n := by
  have sorted : r ∈ (t.rows.filter p).insertionSort le :=
    (List.mem_insertionSort le).mpr (List.mem_filter.mpr ⟨mem, selected⟩)
  have fits : ((t.rows.filter p).insertionSort le).length ≤ n := by
    rcases room with short | all
    · rw [select, List.length_take] at short
      omega
    · rw [List.length_insertionSort]
      exact (List.length_filter_le p t.rows).trans all
  rwa [select, List.take_of_length_le fits]

/-- A condition and an order that agree on the rows select the same. -/
theorem select_congr (t : Table ρ) {p q : ρ → Bool} {le le' : ρ → ρ → Prop} [DecidableRel le]
    [DecidableRel le'] (condition : ∀ r ∈ t.rows, p r = q r)
    (order : ∀ r ∈ t.rows, ∀ s ∈ t.rows, le r s ↔ le' r s) (n : Nat) :
    t.select p le n = t.select q le' n := by
  have sorted := List.map_insertionSort le le' id (t.rows.filter q) fun r hr s hs =>
    order r (List.mem_of_mem_filter hr) s (List.mem_of_mem_filter hs)
  rw [List.map_id, List.map_id] at sorted
  rw [select, select, List.filter_congr condition, sorted]

/-- What `SELECT … WHERE … ORDER BY … LIMIT n` may return: the first `n` of the rows that satisfy
the condition, in an order in which equal rows can stand either way. -/
def FirstOf (t : Table ρ) (p : ρ → Prop) (le : ρ → ρ → Prop) (n : Nat) (rows : List ρ) : Prop :=
  ∃ queue : List ρ, (queue.map key).Nodup ∧ (∀ r, r ∈ queue ↔ r ∈ t.rows ∧ p r) ∧
    queue.Pairwise le ∧ rows = queue.take n

theorem firstOf_select (t : Table ρ) {p : ρ → Bool} {P : ρ → Prop} {le : ρ → ρ → Prop}
    [DecidableRel le] [Std.Total le] [IsTrans ρ le] (condition : ∀ r, p r = true ↔ P r) (n : Nat) :
    t.FirstOf P le n (t.select p le n) := by
  refine ⟨(t.rows.filter p).insertionSort le, t.nodup_sorted p le, fun r => ?_,
    List.pairwise_insertionSort le _, rfl⟩
  rw [List.mem_insertionSort, List.mem_filter, condition]

theorem FirstOf.mono {t : Table ρ} {p : ρ → Prop} {le le' : ρ → ρ → Prop} {n : Nat}
    {rows : List ρ} (weaker : ∀ r s, le r s → le' r s) (first : t.FirstOf p le n rows) :
    t.FirstOf p le' n rows := by
  obtain ⟨queue, nodup, complete, sorted, rfl⟩ := first
  exact ⟨queue, nodup, complete, sorted.imp (weaker _ _), rfl⟩

section Ties

variable [DecidableEq κ] (t : Table ρ) {p : ρ → Bool} {P : ρ → Prop} {le : ρ → ρ → Prop}
  [DecidableRel le] [Std.Total le] [IsTrans ρ le]

/-- Whichever way equal rows stand, the first of them are selected. -/
theorem firstOf_select_tied (condition : ∀ r, p r = true ↔ P r) (ties : List κ) (n : Nat) :
    t.FirstOf P le n (t.select p (tied key ties le) n) :=
  have first : t.FirstOf P (tied key ties le) n (t.select p (tied key ties le) n) :=
    t.firstOf_select condition n
  first.mono fun _ _ => And.left

/-- Every way in which equal rows can stand is that of some list of keys. -/
theorem exists_ties (condition : ∀ r, p r = true ↔ P r) {n : Nat} {rows : List ρ}
    (first : t.FirstOf P le n rows) :
    ∃ ties : List κ, t.select p (tied key ties le) n = rows := by
  obtain ⟨queue, nodup, complete, sorted, rfl⟩ := first
  have places : queue.Pairwise fun r s => (queue.map key).idxOf (key r) ≤
      (queue.map key).idxOf (key s) := by
    rw [List.pairwise_iff_getElem]
    intro i j hi hj before
    have place (k : Nat) (hk : k < queue.length) :
        (queue.map key).idxOf (key (queue[k])) = k := by
      have := nodup.idxOf_getElem k (by rwa [List.length_map])
      rwa [List.getElem_map] at this
    rw [place i hi, place j hj]
    exact before.le
  have arranged : queue.Pairwise (tied key (queue.map key) le) :=
    (sorted.and places).imp fun h => ⟨h.1, fun _ => h.2⟩
  have same : ((t.rows.filter p).insertionSort (tied key (queue.map key) le)).Perm queue := by
    have stored : (t.rows.filter p).Nodup :=
      (t.nodup.sublist (List.filter_sublist.map key)).of_map key
    refine (List.perm_insertionSort _ _).trans
      ((List.perm_ext_iff_of_nodup stored (nodup.of_map key)).mpr fun r => ?_)
    rw [complete, List.mem_filter, condition]
  -- rows that stand either way have one place among the keys
  have antisymm : ∀ r s, r ∈ (t.rows.filter p).insertionSort (tied key (queue.map key) le) →
      s ∈ queue → tied key (queue.map key) le r s → tied key (queue.map key) le s r → r = s := by
    intro r s hr hs there back
    have place := (there.2 back.1).antisymm (back.2 there.1)
    have hr := same.subset hr
    exact List.inj_on_of_nodup_map nodup hr hs
      ((List.idxOf_inj (List.mem_map_of_mem hr)).mp place)
  exact ⟨queue.map key, congrArg (List.take n)
    (same.eq_of_pairwise antisymm (List.pairwise_insertionSort _ _) arranged)⟩

end Ties

/-- A row that waits while others are selected is behind all of them, and they fill the limit. -/
theorem FirstOf.before_of_waiting {t : Table ρ} {p : ρ → Prop} {le : ρ → ρ → Prop} {n : Nat}
    {rows : List ρ} (first : t.FirstOf p le n rows) {r : ρ} (mem : r ∈ t.rows) (waiting : p r)
    (left : r ∉ rows) : rows.length = n ∧ ∀ s ∈ rows, le s r := by
  obtain ⟨queue, -, complete, sorted, rfl⟩ := first
  have queued : r ∈ queue.take n ++ queue.drop n := by
    rw [List.take_append_drop, complete]
    exact ⟨mem, waiting⟩
  have later : r ∈ queue.drop n := (List.mem_append.mp queued).resolve_left left
  refine ⟨?_, fun s hs => ?_⟩
  · have long : n < queue.length := by
      by_contra short
      rw [List.drop_eq_nil_of_le (Nat.not_lt.mp short)] at later
      cases later
    rw [List.length_take, Nat.min_eq_left long.le]
  · rw [← List.take_append_drop n queue] at sorted
    exact (List.pairwise_append.mp sorted).2.2 s hs r later

section First

variable (t : Table ρ) {p : ρ → Bool} {le : ρ → ρ → Prop} [DecidableRel le]

/-- Nothing is selected where nothing satisfies the condition. -/
theorem select_eq_nil {n : Nat} (positive : 0 < n) :
    t.select p le n = [] ↔ ∀ r ∈ t.rows, p r = false := by
  have empty : t.select p le n = [] ↔ t.rows.filter p = [] := by
    rw [select, List.take_eq_nil_iff, or_iff_right positive.ne']
    simp [← List.length_eq_zero_iff, List.length_insertionSort]
  rw [empty, List.filter_eq_nil_iff]
  simp

theorem select_one_eq_none : (t.select p le 1).head? = none ↔ ∀ r ∈ t.rows, p r = false := by
  rw [List.head?_eq_none_iff, t.select_eq_nil Nat.one_pos]

theorem isSome_select_one : (t.select p le 1).head?.isSome = t.rows.any p := by
  rw [Bool.eq_iff_iff, Option.isSome_iff_ne_none, Ne, t.select_one_eq_none, List.any_eq_true]
  simp

/-- The one selected row is first among the rows that satisfy the condition. -/
theorem le_of_select_one [Std.Total le] [IsTrans ρ le] {r s : ρ}
    (h : (t.select p le 1).head? = some r) (mem : s ∈ t.rows) (hs : p s = true) : le r s := by
  have sorted := List.pairwise_insertionSort le (t.rows.filter p)
  have selected : s ∈ (t.rows.filter p).insertionSort le :=
    (List.mem_insertionSort le).mpr (List.mem_filter.mpr ⟨mem, hs⟩)
  unfold select at h
  cases rows : (t.rows.filter p).insertionSort le with
  | nil => rw [rows] at selected; cases selected
  | cons x xs =>
    rw [rows] at h sorted selected
    obtain rfl : x = r := by simpa using h
    rcases List.mem_cons.mp selected with rfl | later
    · exact (Std.Total.total s s).elim id id
    · exact (List.pairwise_cons.mp sorted).1 s later

end First

end Table

end SupportOps.Library
