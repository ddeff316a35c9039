import Microseg.Lib.GoNet
import Microseg.Lib.Runs
import Microseg.Lib.SqlTable
import Microseg.Storage
/-!
# The columns of the storage (`src/agent/pkg/policy/storage.go:58-211`)

`SQLiteStorage` keeps policies as they are. Here is the table below it: `SavePolicy` binds eight arguments to
eight columns, its conflict clause names seven of them once more, and `LoadPolicies` scans eight columns into
eight fields. A column that is missing from one of these lists, or stands in another place, would lose a field.

| here | there |
|---|---|
| `Column`, `defaults` | `CREATE TABLE policies` (`:58`) |
| `saveStatement`, `Policy.args` | the query of `SavePolicy` and its arguments (`:83-106`) |
| `loadColumns`, `loadOrder`, `scanPolicy` | the query of `LoadPolicies` and `rows.Scan` (`:140-166`) |

`PolicyDB.Refines` relates a table to the policies it holds; every method commutes with it (`Refines.call`,
`Refines.loadPolicies`), so what holds of the policies holds of the table (`storage_keeps_latest`).
-/
namespace Microseg
open Words GoNet KeyedList SqlTable Runs

/-! ## The table -/

inductive Column where
  | ruleId
  | srcIp
  | dstIp
  | srcPort
  | dstPort
  | protocol
  | action
  | priority
  | createdAt
  | updatedAt
deriving DecidableEq, Repr

/-- What a column gets that an `INSERT` does not list; `now` is `CURRENT_TIMESTAMP`. -/
def defaults (now : Value) : Row Column
  | .createdAt => now
  | .updatedAt => now
  | _ => .null

/-- The query of `SavePolicy`. -/
def saveStatement : Upsert Column .ruleId where
  columns := [.ruleId, .srcIp, .dstIp, .srcPort, .dstPort, .protocol, .action, .priority]
  excluded := [.srcIp, .dstIp, .srcPort, .dstPort, .protocol, .action, .priority]
  stamped := [.updatedAt]
  keeps := by decide

/-- The arguments of its `Exec`, as the driver passes them on. -/
def Policy.args (p : Policy) : List Value :=
  [.integer p.ruleID.toNat, .text p.srcIP, .text p.dstIP, .integer p.srcPort.toNat, .integer p.dstPort.toNat,
    .text p.protocol, .text p.action, .integer p.priority.toNat]

/-- The columns of the query of `LoadPolicies`. -/
def loadColumns : List Column := [.ruleId, .srcIp, .dstIp, .srcPort, .dstPort, .protocol, .action, .priority]

/-- `ORDER BY priority DESC, rule_id ASC`. -/
def loadOrder : List (OrderTerm Column) := [⟨.priority, true⟩, ⟨.ruleId, false⟩]

/-- A number that fits into `w` bits. -/
def fitUint (w n : Nat) : Option (BitVec w) := if n < 2 ^ w then some (BitVec.ofNat w n) else none

/-- `Scan` into an unsigned integer: `strconv.ParseUint` of the value's decimal text. -/
def scanUint (w : Nat) : Value → Option (BitVec w)
  | .null => none
  | .integer i => if 0 ≤ i then fitUint w i.toNat else none
  | .text s => if s.toList ≠ [] ∧ s.toList.all Char.isDigit then fitUint w (decimalFrom 0 s.toList) else none

/-- `Scan` into a string. -/
def scanString : Value → Option String
  | .null => none
  | .integer i => some (toString i)
  | .text s => some s

/-- `rows.Scan` of one row (`:155-164`), destination by destination. -/
def scanColumns : List Value → Option Policy
  | [v₀, v₁, v₂, v₃, v₄, v₅, v₆, v₇] => do
    let ruleID ← scanUint 32 v₀
    let srcIP ← scanString v₁
    let dstIP ← scanString v₂
    let srcPort ← scanUint 16 v₃
    let dstPort ← scanUint 16 v₄
    let protocol ← scanString v₅
    let action ← scanString v₆
    let priority ← scanUint 16 v₇
    return { ruleID, srcIP, dstIP, srcPort, dstPort, protocol, action, priority }
  | _ => none

def scanPolicy (vs : List Value) : Except Err Policy :=
  match scanColumns vs with
  | none => .error (.wrap "failed to scan policy" .sql)
  | some p => .ok p

/-! ## The methods -/

/-- The database; `up` says whether statements succeed. -/
structure PolicyDB where
  policies : Table Column .ruleId
  up : Bool

namespace PolicyDB

/-- A new database after `initSchema`. -/
def empty : PolicyDB := ⟨.empty, true⟩

/-- `SavePolicy` (`:82`) at the time `now`. -/
def savePolicy (p : Policy) (now : String) (db : PolicyDB) : PolicyDB × Except Err Unit :=
  if db.up then
    ({ db with policies := db.policies.upsert saveStatement (defaults (.text now)) (.text now) p.args }, .ok ())
  else (db, .error (.wrap "failed to save policy" .sql))

/-- `DeletePolicy` (`:117`). -/
def deletePolicy (ruleID : U32) (db : PolicyDB) : PolicyDB × Except Err Unit :=
  if db.up then
    let (policies, rows) := db.policies.deleteWhere .ruleId (.integer ruleID.toNat)
    ({ db with policies },
      if rows = 0 then .error (.errorf ("policy not found: rule_id=" ++ toString ruleID.toNat)) else .ok ())
  else (db, .error (.wrap "failed to delete policy" .sql))

/-- `LoadPolicies` (`:139`). -/
def loadPolicies (db : PolicyDB) : Except Err (List Policy) :=
  if db.up then (db.policies.select loadColumns loadOrder).mapM scanPolicy
  else .error (.wrap "failed to query policies" .sql)

/-- `GetPolicyCount` (`:188`). -/
def getPolicyCount (db : PolicyDB) : Except Err Nat :=
  if db.up then .ok db.policies.count else .error (.wrap "failed to get policy count" .sql)

/-- `ClearAll` (`:201`). -/
def clearAll (db : PolicyDB) : PolicyDB × Except Err Unit :=
  if db.up then ({ db with policies := .empty }, .ok ())
  else (db, .error (.wrap "failed to clear policies" .sql))

end PolicyDB

/-! ## What a row holds -/

/-- The columns that are loaded are the arguments of the policy, one by one. -/
def HoldsPolicy (r : Row Column) (p : Policy) : Prop := loadColumns.map r = p.args

theorem fitUint_toNat {w : Nat} (v : BitVec w) : fitUint w v.toNat = some v := by
  rw [fitUint, if_pos v.isLt, BitVec.ofNat_toNat, BitVec.setWidth_eq]

theorem scanUint_toNat {w : Nat} (v : BitVec w) : scanUint w (.integer v.toNat) = some v := by
  rw [scanUint, if_pos (Int.natCast_nonneg _), Int.toNat_natCast, fitUint_toNat]

/-- **Scan after bind**: every field comes back. -/
theorem scanPolicy_args (p : Policy) : scanPolicy p.args = .ok p := by
  simp only [scanPolicy, scanColumns, Policy.args, scanUint_toNat, scanString]
  rfl

/-- The insert branch carries every column. -/
theorem holds_insertRow (p : Policy) (now : Value) : HoldsPolicy (insertRow (defaults now) saveStatement.columns p.args) p := rfl

/-- The conflict branch carries every column but the key, which is the same. -/
theorem holds_merge {p : Policy} {now now' : Value} {old : Row Column} (h : old .ruleId = .integer p.ruleID.toNat) :
    HoldsPolicy (saveStatement.merge now (insertRow (defaults now') saveStatement.columns p.args) old) p := by
  have hkey : saveStatement.merge now (insertRow (defaults now') saveStatement.columns p.args) old .ruleId =
      .integer p.ruleID.toNat := h
  rw [HoldsPolicy, loadColumns, List.map_cons, hkey]
  rfl

/-! ## Calls -/

/-- A call that may change the table; `now` is the time the driver reads. -/
inductive StorageCall where
  | savePolicy (p : Policy) (now : String)
  | deletePolicy (ruleID : U32)
  | clearAll

namespace PolicyDB

def call (db : PolicyDB) : StorageCall → PolicyDB × Except Err Unit
  | .savePolicy p now => db.savePolicy p now
  | .deletePolicy ruleID => db.deletePolicy ruleID
  | .clearAll => db.clearAll

def step (db : PolicyDB) (c : StorageCall) : PolicyDB := (db.call c).1

/-- The call is answered without an error. -/
def accepts (db : PolicyDB) (c : StorageCall) : Bool := (db.call c).2.isOk

end PolicyDB

namespace SQLiteStorage

def call (s : SQLiteStorage) : StorageCall → SQLiteStorage × Except Err Unit
  | .savePolicy p _ => s.savePolicy p
  | .deletePolicy ruleID => s.deletePolicy ruleID
  | .clearAll => s.clearAll

def step (s : SQLiteStorage) (c : StorageCall) : SQLiteStorage := (s.call c).1

def accepts (s : SQLiteStorage) (c : StorageCall) : Bool := (s.call c).2.isOk

end SQLiteStorage

/-- The calls that may change what is stored under a rule id. -/
def StorageCall.concerns (ruleID : U32) : StorageCall → Bool
  | .savePolicy p _ => p.ruleID = ruleID
  | .deletePolicy id => id = ruleID
  | .clearAll => true

/-- A new database after some calls. -/
def PolicyDB.after (calls : List StorageCall) : PolicyDB := run step empty calls

/-- The last operation on a rule id that took effect there. -/
def lastEffective (calls : List StorageCall) (ruleID : U32) : Option StorageCall :=
  ((taken PolicyDB.step PolicyDB.accepts .empty calls).filter (StorageCall.concerns ruleID)).getLast?

/-! ## The policies behind the rows -/

/-- The table holds the policies, row by row. -/
structure PolicyDB.Refines (db : PolicyDB) (s : SQLiteStorage) : Prop where
  up : db.up = s.up
  rows : List.Forall₂ HoldsPolicy db.policies.rows s.rows

theorem HoldsPolicy.ruleId {r : Row Column} {p : Policy} (h : HoldsPolicy r p) : r .ruleId = .integer p.ruleID.toNat := by
  simp only [HoldsPolicy, loadColumns, Policy.args, List.map_cons, List.cons.injEq] at h
  exact h.1

theorem HoldsPolicy.priority {r : Row Column} {p : Policy} (h : HoldsPolicy r p) :
    r .priority = .integer p.priority.toNat := by
  simp only [HoldsPolicy, loadColumns, Policy.args, List.map_cons, List.cons.injEq] at h
  exact h.2.2.2.2.2.2.2.1

theorem HoldsPolicy.ruleId_eq_iff {r : Row Column} {p : Policy} (h : HoldsPolicy r p) (ruleID : U32) :
    r .ruleId = .integer ruleID.toNat ↔ p.ruleID = ruleID := by
  rw [h.ruleId, Value.integer.injEq, Int.natCast_inj, BitVec.toNat_inj]

/-- The terms of the query order the rows as the policies are ordered. -/
theorem HoldsPolicy.inOrder_iff {r r' : Row Column} {p p' : Policy} (h : HoldsPolicy r p) (h' : HoldsPolicy r' p') :
    inOrder loadOrder r r' = true ↔ SQLiteStorage.Before p p' := by
  simp only [inOrder, loadOrder, h.ruleId, h.priority, h'.ruleId, h'.priority, Value.integer.injEq, Int.natCast_inj,
    BitVec.toNat_inj, Value.lt, SQLiteStorage.Before]
  by_cases hp : p.priority = p'.priority
  · by_cases hi : p.ruleID = p'.ruleID
    · simp [hp, hi]
    · have hne : p.ruleID.toNat ≠ p'.ruleID.toNat := mt BitVec.eq_of_toNat_eq hi
      simp only [hp, hi, ↓reduceIte, decide_eq_true_eq, Bool.false_eq_true, lt_irrefl, true_and, false_or]
      omega
  · simp [hp]

/-- The rows of a query are scanned into the policies they hold. -/
theorem mapM_scanPolicy {rows : List (Row Column)} {ps : List Policy} (h : List.Forall₂ HoldsPolicy rows ps) :
    (rows.map fun r => loadColumns.map r).mapM scanPolicy = .ok ps := by
  induction h with
  | nil => rfl
  | @cons r p rs ps hr _ ih =>
    have hone : scanPolicy (loadColumns.map r) = .ok p := by rw [show loadColumns.map r = p.args from hr, scanPolicy_args]
    rw [List.map_cons, List.mapM_cons, hone, ih]
    rfl

namespace PolicyDB.Refines

theorem savePolicy {db : PolicyDB} {s : SQLiteStorage} (h : db.Refines s) (p : Policy) (now : String) :
    (db.savePolicy p now).1.Refines (s.savePolicy p).1 ∧ (db.savePolicy p now).2 = (s.savePolicy p).2 := by
  rw [PolicyDB.savePolicy, SQLiteStorage.savePolicy, h.up]
  cases hup : s.up with
  | false => exact ⟨h, rfl⟩
  | true =>
    refine ⟨⟨rfl, ?_⟩, rfl⟩
    refine forall₂_upsertWith (fun r q hq => hq.ruleId_eq_iff p.ruleID) (holds_insertRow p _) (fun r q _ hr => ?_) h.rows
    exact holds_merge hr

theorem deletePolicy {db : PolicyDB} {s : SQLiteStorage} (h : db.Refines s) (ruleID : U32) :
    (db.deletePolicy ruleID).1.Refines (s.deletePolicy ruleID).1 ∧
      (db.deletePolicy ruleID).2 = (s.deletePolicy ruleID).2 := by
  have hrows : List.Forall₂ HoldsPolicy (db.policies.deleteWhere .ruleId (.integer ruleID.toNat)).1.rows
      (s.rows.filter fun p => p.ruleID ≠ ruleID) := by
    refine List.rel_filter (fun r p hp => ?_) h.rows
    simp [hp.ruleId_eq_iff]
  -- as many rows are affected as policies are lost
  have haffected : (db.policies.deleteWhere .ruleId (.integer ruleID.toNat)).2 =
      s.rows.length - (s.rows.filter fun p => p.ruleID ≠ ruleID).length := by
    have hsum := Table.affected_add_length db.policies .ruleId (.integer ruleID.toNat)
    rw [hrows.length_eq, h.rows.length_eq] at hsum
    omega
  rw [PolicyDB.deletePolicy, SQLiteStorage.deletePolicy, h.up]
  cases hup : s.up with
  | false => exact ⟨h, rfl⟩
  | true => exact ⟨⟨rfl, hrows⟩, by simp only [↓reduceIte, haffected]⟩

theorem clearAll {db : PolicyDB} {s : SQLiteStorage} (h : db.Refines s) :
    db.clearAll.1.Refines s.clearAll.1 ∧ db.clearAll.2 = s.clearAll.2 := by
  rw [PolicyDB.clearAll, SQLiteStorage.clearAll, h.up]
  cases hup : s.up with
  | false => exact ⟨h, rfl⟩
  | true => exact ⟨⟨rfl, .nil⟩, rfl⟩

/-- **Every call commutes** with the policies behind the rows, its answer included. -/
theorem call {db : PolicyDB} {s : SQLiteStorage} (h : db.Refines s) (c : StorageCall) :
    (db.step c).Refines (s.step c) ∧ (db.call c).2 = (s.call c).2 := by
  cases c with
  | savePolicy p now => exact h.savePolicy p now
  | deletePolicy ruleID => exact h.deletePolicy ruleID
  | clearAll => exact h.clearAll

theorem loadPolicies {db : PolicyDB} {s : SQLiteStorage} (h : db.Refines s) : db.loadPolicies = s.loadPolicies := by
  have hsorted : List.Forall₂ HoldsPolicy (db.policies.rows.insertionSort fun r r' => inOrder loadOrder r r' = true)
      (s.rows.insertionSort SQLiteStorage.Before) :=
    forall₂_insertionSort (fun _ _ _ _ hr hr' => hr.inOrder_iff hr') h.rows
  rw [PolicyDB.loadPolicies, SQLiteStorage.loadPolicies, h.up, Table.select, mapM_scanPolicy hsorted]

theorem getPolicyCount {db : PolicyDB} {s : SQLiteStorage} (h : db.Refines s) : db.getPolicyCount = s.getPolicyCount := by
  rw [PolicyDB.getPolicyCount, SQLiteStorage.getPolicyCount, h.up, Table.count, h.rows.length_eq]

end PolicyDB.Refines

/-! ## What a sequence of calls leaves -/

theorem isOk_eq_false_iff {α : Type} {r : Except Err α} : r.isOk = false ↔ ∃ e, r = .error e := by
  cases r <;> simp [Except.isOk, Except.toBool]

namespace SQLiteStorage

/-- A delete fails exactly when nothing is stored under the id. -/
theorem deletePolicy_fails_iff {s : SQLiteStorage} (hup : s.up = true) (ruleID : U32) :
    (∃ e, (s.deletePolicy ruleID).2 = .error e) ↔ ruleID ∉ s.rows.map Policy.ruleID := by
  have hlen : s.rows.length - (s.rows.filter fun p => p.ruleID ≠ ruleID).length = 0 ↔ ruleID ∉ s.rows.map Policy.ruleID := by
    rw [Nat.sub_eq_zero_iff_le, ← not_lt, List.length_filter_lt_length_iff_exists]
    simp
  rw [← hlen, deletePolicy, if_pos hup]
  dsimp only
  split
  · next h => exact iff_of_true ⟨_, rfl⟩ h
  · next h => exact iff_of_false (by rintro ⟨e, he⟩; cases he) h

/-- A database that is down refuses every call and stays as it is. -/
theorem call_of_down {s : SQLiteStorage} (hdown : s.up = false) (c : StorageCall) : ∃ e, s.call c = (s, .error e) := by
  have hnot : ¬ s.up = true := by rw [hdown]; exact Bool.false_ne_true
  cases c with
  | savePolicy p now => exact ⟨_, if_neg hnot⟩
  | deletePolicy ruleID => exact ⟨_, if_neg hnot⟩
  | clearAll => exact ⟨_, if_neg hnot⟩

/-- One that is up refuses nothing but the delete of an id that is not stored. -/
theorem refused_iff {s : SQLiteStorage} (hup : s.up = true) {c : StorageCall} :
    s.accepts c = false ↔ ∃ ruleID, c = .deletePolicy ruleID ∧ ruleID ∉ s.rows.map Policy.ruleID := by
  rw [accepts, isOk_eq_false_iff]
  cases c with
  | savePolicy p now => simp [call, savePolicy, hup]
  | clearAll => simp [call, clearAll, hup]
  | deletePolicy ruleID => rw [call, deletePolicy_fails_iff hup]; simp

/-- A refused call changes nothing. -/
theorem step_of_refused {s : SQLiteStorage} {c : StorageCall} (h : s.accepts c = false) : (s.step c).rows = s.rows := by
  cases hup : s.up with
  | false =>
    obtain ⟨e, he⟩ := call_of_down hup c
    rw [step, he]
  | true =>
    obtain ⟨ruleID, rfl, habsent⟩ := (refused_iff hup).1 h
    rw [step, call, deletePolicy, if_pos hup]
    refine List.filter_eq_self.2 fun p hp => decide_eq_true fun he => habsent ?_
    exact List.mem_map.2 ⟨p, hp, he⟩

/-- A call that does not concern a rule id leaves what is stored under it. -/
theorem mem_step_of_other {s : SQLiteStorage} {c : StorageCall} {p : Policy} (h : c.concerns p.ruleID = false) :
    p ∈ (s.step c).rows ↔ p ∈ s.rows := by
  cases hup : s.up with
  | false =>
    obtain ⟨e, he⟩ := call_of_down hup c
    rw [step, he]
  | true =>
    cases c with
    | savePolicy q now =>
      have hne : q.ruleID ≠ p.ruleID := of_decide_eq_false h
      have hpq : p ≠ q := fun he => hne (congrArg Policy.ruleID he).symm
      simp [step, call, savePolicy, hup, mem_upsert s.nodup, hpq, Ne.symm hne]
    | deletePolicy ruleID =>
      have hne : ruleID ≠ p.ruleID := of_decide_eq_false h
      simp [step, call, deletePolicy, hup, Ne.symm hne]
    | clearAll => cases h

/-- A call that concerns a rule id and takes effect decides what is stored under it. -/
theorem mem_step_of_concerned {s : SQLiteStorage} {c : StorageCall} {p : Policy} (ha : s.accepts c = true)
    (hc : c.concerns p.ruleID = true) : p ∈ (s.step c).rows ↔ ∃ now, c = .savePolicy p now := by
  cases hup : s.up with
  | false =>
    obtain ⟨e, he⟩ := call_of_down hup c
    rw [accepts, he] at ha
    cases ha
  | true =>
    cases c with
    | savePolicy q now =>
      have hid : q.ruleID = p.ruleID := of_decide_eq_true hc
      simp [step, call, savePolicy, hup, mem_upsert s.nodup, hid, eq_comm]
    | deletePolicy ruleID =>
      have hid : ruleID = p.ruleID := of_decide_eq_true hc
      simp [step, call, deletePolicy, hup, hid]
    | clearAll => simp [step, call, clearAll, hup]

theorem up_step {s : SQLiteStorage} (hup : s.up = true) (c : StorageCall) : (s.step c).up = true := by
  cases c with
  | savePolicy p now => rw [step, call, savePolicy, if_pos hup]; exact hup
  | deletePolicy ruleID => rw [step, call, deletePolicy, if_pos hup]; exact hup
  | clearAll => rw [step, call, clearAll, if_pos hup]; exact hup

theorem up_run (calls : List StorageCall) : (run step empty calls).up = true :=
  run_keeps (I := fun s : SQLiteStorage => s.up = true) (E := fun _ => True) (fun _ c h _ => up_step h c) rfl
    fun _ _ => trivial

/-- The rows after a run are the policies that were saved last. -/
theorem mem_run_iff (calls : List StorageCall) (p : Policy) :
    p ∈ (run step empty calls).rows ↔
      ∃ now, ((taken step accepts empty calls).filter (StorageCall.concerns p.ruleID)).getLast? =
        some (.savePolicy p now) := by
  have hkeep : ∀ s c, accepts s c = false ∨ StorageCall.concerns p.ruleID c = false →
      (p ∈ (step s c).rows ↔ p ∈ s.rows) := by
    rintro s c (hrefused | hother)
    · rw [step_of_refused hrefused]
    · exact mem_step_of_other hother
  have hwrite : ∀ s c, accepts s c = true → StorageCall.concerns p.ruleID c = true →
      (p ∈ (step s c).rows ↔ ∃ now, c = .savePolicy p now) := fun s c => mem_step_of_concerned
  have hstart : p ∉ empty.rows := List.not_mem_nil
  rw [last_taken_iff (fun s : SQLiteStorage => p ∈ s.rows) hkeep hwrite hstart calls]
  constructor
  · rintro ⟨_, hlast, now, rfl⟩
    exact ⟨now, hlast⟩
  · rintro ⟨now, hlast⟩
    exact ⟨_, hlast, now, rfl⟩

end SQLiteStorage

namespace PolicyDB

theorem refines_after (calls : List StorageCall) : (after calls).Refines (run SQLiteStorage.step .empty calls) := by
  refine run_related (E := Eq) (fun db s c c' h hc => ?_) ⟨rfl, .nil⟩ (List.forall₂_eq_eq_eq ▸ rfl)
  rw [← hc]
  exact (h.call c).1

theorem lastEffective_eq (calls : List StorageCall) (ruleID : U32) :
    lastEffective calls ruleID =
      ((taken SQLiteStorage.step SQLiteStorage.accepts .empty calls).filter (StorageCall.concerns ruleID)).getLast? := by
  have hstep : ∀ db s c, Refines db s → (step db c).Refines (s.step c) := fun _ _ c h => (h.call c).1
  have hok : ∀ db s c, Refines db s → accepts db c = s.accepts c := fun _ _ c h => congrArg Except.isOk (h.call c).2
  have hstart : empty.Refines .empty := ⟨rfl, .nil⟩
  rw [lastEffective, taken_related hstep hok hstart]

/-- A delete that fails leaves the table as it is. -/
theorem deletePolicy_of_error {db : PolicyDB} {ruleID : U32} {e : Err} (h : (db.deletePolicy ruleID).2 = .error e) :
    (db.deletePolicy ruleID).1 = db := by
  unfold deletePolicy at h ⊢
  cases hup : db.up with
  | false => rfl
  | true =>
    simp only [hup, ↓reduceIte] at h ⊢
    have hnone : (db.policies.deleteWhere .ruleId (.integer ruleID.toNat)).2 = 0 := by
      by_contra hsome
      rw [if_neg hsome] at h
      cases h
    rw [Table.deleteWhere_of_unaffected hnone, ← hup]

end PolicyDB

/-- **`storage_keeps_latest`**: after any calls on a new database, the policies that are loaded are the ones saved
last under each rule id, in the order of the query. -/
theorem storage_keeps_latest (calls : List StorageCall) :
    ∃ ps, (PolicyDB.after calls).loadPolicies = .ok ps ∧
      ps.Pairwise (fun p q => q.priority < p.priority ∨ (p.priority = q.priority ∧ p.ruleID < q.ruleID)) ∧
      (∀ p, p ∈ ps ↔ ∃ now, lastEffective calls p.ruleID = some (.savePolicy p now)) ∧
      (PolicyDB.after calls).getPolicyCount = .ok ps.length ∧
      ∀ ruleID, ((∃ e, ((PolicyDB.after calls).deletePolicy ruleID).2 = .error e) ↔ ruleID ∉ ps.map Policy.ruleID) ∧
        (ruleID ∉ ps.map Policy.ruleID → ((PolicyDB.after calls).deletePolicy ruleID).1 = PolicyDB.after calls) := by
  have href := PolicyDB.refines_after calls
  have hup := SQLiteStorage.up_run calls
  have hmem := SQLiteStorage.mem_run_iff calls
  obtain ⟨ps, hload, hperm, hsort⟩ := SQLiteStorage.loadPolicies_eq hup
  have hids : ∀ ruleID, ruleID ∉ ps.map Policy.ruleID ↔ _ := fun ruleID => not_congr (hperm.map Policy.ruleID).mem_iff
  refine ⟨ps, by rw [href.loadPolicies, hload], ?_, fun p => ?_, ?_, fun ruleID => ⟨?_, fun habsent => ?_⟩⟩
  · -- no two policies share an id, so the order is strict
    have hnodup : (ps.map Policy.ruleID).Nodup := (hperm.map Policy.ruleID).nodup_iff.2 (SQLiteStorage.nodup _)
    refine (hsort.and (List.pairwise_map.1 hnodup)).imp fun {p q} ⟨hpq, hne⟩ => hpq.imp id fun ⟨he, hle⟩ => ⟨he, ?_⟩
    exact lt_of_le_of_ne hle (mt BitVec.eq_of_toNat_eq hne)
  · rw [hperm.mem_iff, hmem, PolicyDB.lastEffective_eq]
  · rw [href.getPolicyCount, SQLiteStorage.getPolicyCount, if_pos hup, hperm.length_eq]
  · rw [(href.deletePolicy ruleID).2, SQLiteStorage.deletePolicy_fails_iff hup, hids]
  · obtain ⟨e, he⟩ := (SQLiteStorage.deletePolicy_fails_iff hup ruleID).2 ((hids ruleID).1 habsent)
    exact PolicyDB.deletePolicy_of_error ((href.deletePolicy ruleID).2.trans he)

end Microseg
