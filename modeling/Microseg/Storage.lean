import Mathlib.Data.List.Sort
import Microseg.Lib.KeyedList
import Microseg.Policy
/-!
# Persistent storage (`src/agent/pkg/policy/storage.go`)

The table `policies` is its rows, one per `rule_id`: the primary key is the field `nodup`. Each method
is one SQL statement; `up` says whether statements succeed. The table column by column is in `Columns`. The
texts of the driver's own errors are left out.
-/
namespace Microseg
open KeyedList

/-- `SQLiteStorage` (`:28`) and its database. -/
structure SQLiteStorage where
  rows : List Policy
  nodup : (rows.map Policy.ruleID).Nodup
  up : Bool

namespace SQLiteStorage

/-- A database after `initSchema` (`:52`). -/
def empty : SQLiteStorage := ⟨[], List.nodup_nil, true⟩

/-- `SavePolicy` (`:82`): `INSERT … ON CONFLICT(rule_id) DO UPDATE`. -/
def savePolicy (p : Policy) (s : SQLiteStorage) : SQLiteStorage × Except Err Unit :=
  if s.up then ({ s with rows := upsert Policy.ruleID p s.rows, nodup := nodup_upsert s.nodup }, .ok ())
  else (s, .error (.wrap "failed to save policy" .sql))

/-- `DeletePolicy` (`:117`); an error when no row was affected. -/
def deletePolicy (ruleID : Words.U32) (s : SQLiteStorage) : SQLiteStorage × Except Err Unit :=
  if s.up then
    let rows := s.rows.filter fun p => p.ruleID ≠ ruleID
    let affected := s.rows.length - rows.length
    ({ s with rows, nodup := s.nodup.sublist (List.filter_sublist.map Policy.ruleID) },
      if affected = 0 then .error (.errorf ("policy not found: rule_id=" ++ toString ruleID.toNat)) else .ok ())
  else (s, .error (.wrap "failed to delete policy" .sql))

/-- `ORDER BY priority DESC, rule_id ASC`. -/
def Before (p q : Policy) : Prop :=
  q.priority.toNat < p.priority.toNat ∨ (p.priority = q.priority ∧ p.ruleID.toNat ≤ q.ruleID.toNat)

instance : DecidableRel Before := fun _ _ => inferInstanceAs (Decidable (_ ∨ _))

/-- `LoadPolicies` (`:139`). -/
def loadPolicies (s : SQLiteStorage) : Except Err (List Policy) :=
  if s.up then .ok (s.rows.insertionSort Before) else .error (.wrap "failed to query policies" .sql)

/-- `GetPolicyCount` (`:188`). -/
def getPolicyCount (s : SQLiteStorage) : Except Err Nat :=
  if s.up then .ok s.rows.length else .error (.wrap "failed to get policy count" .sql)

/-- `ClearAll` (`:201`). -/
def clearAll (s : SQLiteStorage) : SQLiteStorage × Except Err Unit :=
  if s.up then ({ s with rows := [], nodup := List.nodup_nil }, .ok ())
  else (s, .error (.wrap "failed to clear policies" .sql))

instance : Std.Total Before where
  total p q := by
    rcases Nat.lt_trichotomy p.priority.toNat q.priority.toNat with h | h | h
    · exact Or.inr (Or.inl h)
    · have he : p.priority = q.priority := BitVec.eq_of_toNat_eq h
      rcases Nat.le_total p.ruleID.toNat q.ruleID.toNat with hi | hi
      · exact Or.inl (Or.inr ⟨he, hi⟩)
      · exact Or.inr (Or.inr ⟨he.symm, hi⟩)
    · exact Or.inl (Or.inl h)

instance : IsTrans Policy Before where
  trans p q r hpq hqr := by
    rcases hpq with h1 | ⟨e1, h1⟩ <;> rcases hqr with h2 | ⟨e2, h2⟩
    · exact Or.inl (h2.trans h1)
    · exact Or.inl (e2 ▸ h1)
    · exact Or.inl (e1 ▸ h2)
    · exact Or.inr ⟨e1.trans e2, h1.trans h2⟩

/-- Loading gives the rows, each once, in the order of the query. -/
theorem loadPolicies_eq {s : SQLiteStorage} (h : s.up = true) :
    ∃ ps, s.loadPolicies = .ok ps ∧ ps.Perm s.rows ∧ ps.Pairwise Before :=
  ⟨_, by simp [loadPolicies, h], List.perm_insertionSort _ _, List.pairwise_insertionSort _ _⟩

end SQLiteStorage

end Microseg
