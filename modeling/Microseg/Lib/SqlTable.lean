import Mathlib.Data.List.Sort
import Microseg.Lib.KeyedList
/-!
# SQL tables with a primary key, column by column

A row gives every column a value. A statement is the data it is written with: the columns it lists, the
column it compares, the terms it orders by. `Table.upsert` is `INSERT … ON CONFLICT(pk) DO UPDATE`,
`Table.deleteWhere` is `DELETE … WHERE c = ?` with the number of affected rows, `Table.select` is
`SELECT … ORDER BY`. The primary key is a field: no two rows of a table share it.
-/
namespace SqlTable
open KeyedList

/-- A value by its storage class. -/
inductive Value where
  | null
  | integer (i : Int)
  | text (s : String)
deriving DecidableEq, Repr

/-- `ORDER BY`: NULL, then the integers, then the texts. -/
def Value.lt : Value → Value → Bool
  | .null, .null => false
  | .null, _ => true
  | .integer i, .integer j => i < j
  | .integer _, .text _ => true
  | .text s, .text t => s < t
  | _, _ => false

/-- One term of an `ORDER BY`. -/
structure OrderTerm (γ : Type) where
  column : γ
  desc : Bool

abbrev Row (γ : Type) := γ → Value

variable {γ : Type} [DecidableEq γ]

/-- A row may stand before another: by the first term they differ in. -/
def inOrder : List (OrderTerm γ) → Row γ → Row γ → Bool
  | [], _, _ => true
  | o :: os, r, r' =>
    if r o.column = r' o.column then inOrder os r r'
    else if o.desc then (r' o.column).lt (r o.column)
    else (r o.column).lt (r' o.column)

/-- `INSERT INTO … (columns) VALUES (args)`: the other columns get their defaults. -/
def insertRow (default : Row γ) (columns : List γ) (args : List Value) : Row γ := fun c =>
  ((columns.zip args).lookup c).getD (default c)

/-- `INSERT INTO … (columns) VALUES (?, …) ON CONFLICT(pk) DO UPDATE SET c = excluded.c, …, c = CURRENT_TIMESTAMP, …`. -/
structure Upsert (γ : Type) (pk : γ) where
  columns : List γ
  excluded : List γ
  stamped : List γ
  keeps : pk ∉ excluded ∧ pk ∉ stamped

/-- What the conflict clause makes of the row that is there. -/
def Upsert.merge {pk : γ} (u : Upsert γ pk) (now : Value) (new old : Row γ) : Row γ := fun c =>
  if c ∈ u.excluded then new c
  else if c ∈ u.stamped then now
  else old c

structure Table (γ : Type) (pk : γ) where
  rows : List (Row γ)
  nodup : (rows.map fun r => r pk).Nodup

namespace Table

variable {pk : γ}

def empty : Table γ pk := ⟨[], List.nodup_nil⟩

theorem merge_key (u : Upsert γ pk) (now : Value) (new old : Row γ) : u.merge now new old pk = old pk := by
  rw [Upsert.merge, if_neg u.keeps.1, if_neg u.keeps.2]

def upsert (t : Table γ pk) (u : Upsert γ pk) (default : Row γ) (now : Value) (args : List Value) : Table γ pk where
  rows := upsertWith (fun r => r pk) (insertRow default u.columns args) (u.merge now (insertRow default u.columns args)) t.rows
  nodup := nodup_upsertWith (fun old h => (merge_key u now _ old).trans h) t.nodup

/-- The table without the rows whose column `c` has the value, and how many these are. -/
def deleteWhere (t : Table γ pk) (c : γ) (v : Value) : Table γ pk × Nat :=
  (⟨t.rows.filter fun r => r c ≠ v, t.nodup.sublist (List.filter_sublist.map _)⟩, t.rows.countP fun r => r c = v)

/-- `SELECT columns FROM … ORDER BY order`. -/
def select (t : Table γ pk) (columns : List γ) (order : List (OrderTerm γ)) : List (List Value) :=
  (t.rows.insertionSort fun r r' => inOrder order r r' = true).map fun r => columns.map r

/-- `SELECT COUNT(*)`. -/
def count (t : Table γ pk) : Nat := t.rows.length

omit [DecidableEq γ] in
/-- A delete that affects no row changes nothing. -/
theorem deleteWhere_of_unaffected {t : Table γ pk} {c : γ} {v : Value} (h : (t.deleteWhere c v).2 = 0) :
    (t.deleteWhere c v).1 = t := by
  have hrows : t.rows.filter (fun r => r c ≠ v) = t.rows := by
    refine List.filter_eq_self.2 fun r hr => decide_eq_true fun hv => ?_
    exact List.countP_eq_zero.1 h r hr (decide_eq_true hv)
  obtain ⟨rows, nodup⟩ := t
  simp only [deleteWhere] at hrows ⊢
  congr

omit [DecidableEq γ] in
theorem affected_add_length (t : Table γ pk) (c : γ) (v : Value) :
    (t.deleteWhere c v).2 + (t.deleteWhere c v).1.rows.length = t.rows.length := by
  have hsplit := List.length_eq_length_filter_add (l := t.rows) fun r => decide (r c = v)
  simpa [deleteWhere, List.countP_eq_length_filter] using hsplit.symm

end Table

/-- Lists that are related element by element and ordered alike are so when sorted. -/
theorem forall₂_insertionSort {α β : Type} {R : α → β → Prop} {r : α → α → Prop} {s : β → β → Prop} [DecidableRel r]
    [DecidableRel s] (hrs : ∀ a a' b b', R a b → R a' b' → (r a a' ↔ s b b')) {l : List α} {l' : List β}
    (h : List.Forall₂ R l l') : List.Forall₂ R (l.insertionSort r) (l'.insertionSort s) := by
  have hinsert : ∀ {a b}, R a b → ∀ {l l'}, List.Forall₂ R l l' →
      List.Forall₂ R (l.orderedInsert r a) (l'.orderedInsert s b) := by
    intro a b hab l l' h
    induction h with
    | nil => exact .cons hab .nil
    | @cons a' b' l l' hab' hrest ih =>
      by_cases hr : r a a'
      · rw [List.orderedInsert_cons_of_le r l hr, List.orderedInsert_cons_of_le s l' ((hrs _ _ _ _ hab hab').1 hr)]
        exact .cons hab (.cons hab' hrest)
      · rw [List.orderedInsert_of_not_le r l hr,
          List.orderedInsert_of_not_le s l' fun hs => hr ((hrs _ _ _ _ hab hab').2 hs)]
        exact .cons hab' ih
  induction h with
  | nil => exact .nil
  | cons hab _ ih => exact hinsert hab ih

end SqlTable
