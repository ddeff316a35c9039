import Microseg.Lib.Atomic
import Microseg.Storage
/-!
# The policy manager (`src/agent/pkg/policy/policy.go`)

Every access to a kernel map or to the database is one atomic operation, and the methods are programs
of such operations, so that they can be interleaved with packets and with each other. Run alone, a
method is a function of the maps: `PolicyMaps.add` and `PolicyMaps.remove` are `addPolicyToMap` and the
map part of `DeletePolicy` in one step (`addPolicyToMap_run`, `deletePolicy_run`).

| here | there |
| --- | --- |
| `policyMapPut`, `wildcardPolicyMapLookup`, … | `ebpf.Map.Put`, `Lookup`, `Delete` |
| `addToSlot` | the slot loop of `addWildcardPolicy` (`policy.go:430-473`) |
| `slotFor` | the slot that loop stops at |

Log lines are left out. `ListPolicies` walks the map in the kernel's order, which is a parameter.
-/
namespace Microseg
open Words KernelMap Atomic

/-- `PolicyManager` (`policy.go:27`): the two maps and the storage behind its handles. -/
structure PolicyManager where
  maps : PolicyMaps
  storage : Option SQLiteStorage

/-- A program of the manager. -/
abbrev Op (α : Type) := Prog PolicyManager α

/-! ## Atomic operations -/

def policyMapPut (key : PolicyKey) (value : PolicyValue) : Op (Except Err Unit) :=
  Prog.act fun pm =>
    match pm.maps.policyMap.put key value with
    | none => (pm, .error .tooBig)
    | some policyMap => ({ pm with maps.policyMap := policyMap }, .ok ())

def policyMapDelete (key : PolicyKey) : Op (Except Err Unit) :=
  Prog.act fun pm =>
    match pm.maps.policyMap.delete key with
    | none => (pm, .error .keyNotExist)
    | some policyMap => ({ pm with maps.policyMap := policyMap }, .ok ())

def wildcardPolicyMapLookup (i : Nat) : Op (Option WildcardPolicy) :=
  Prog.act fun pm => (pm, pm.maps.wildcardPolicyMap.lookup i)

def wildcardPolicyMapPut (i : Nat) (wildcard : WildcardPolicy) : Op (Except Err Unit) :=
  Prog.act fun pm =>
    match pm.maps.wildcardPolicyMap.put i wildcard with
    | none => (pm, .error .tooBig)
    | some wildcardPolicyMap => ({ pm with maps.wildcardPolicyMap := wildcardPolicyMap }, .ok ())

/-- A statement on the storage, when there is one (`:90`, `:245`). -/
def withStorage (f : SQLiteStorage → SQLiteStorage × Except Err Unit) : Op (Except Err Unit) :=
  Prog.act fun pm =>
    match pm.storage with
    | none => (pm, .ok ())
    | some storage => ({ pm with storage := some (f storage).1 }, (f storage).2)

/-! ## Methods -/

/-- `addExactPolicy` (`:131`). -/
def addExactPolicy (p : Policy) : Op (Except Err Unit) :=
  match exactEntry p with
  | .error e => pure (.error e)
  | .ok (key, value) => do
    let r ← policyMapPut key value
    return wrapErr "failed to add policy to map" r

/-- The loop of `addWildcardPolicy` (`:430-473`) from slot `i` on, with `n` slots to go. -/
def addToSlot (p : Policy) (wildcard : WildcardPolicy) : Nat → Nat → Op (Except Err Unit)
  | 0, _ => pure (.error (.errorf "wildcard policy map is full (max 1000 entries)"))
  | n + 1, i => do
    let existing ← wildcardPolicyMapLookup i
    if existing.elim true fun e => e.ruleId = 0 then
      let r ← wildcardPolicyMapPut i wildcard
      return wrapErr ("failed to add wildcard policy to map slot " ++ toString i) r
    else if existing.elim false fun e => e.ruleId = p.ruleID then
      let r ← wildcardPolicyMapPut i wildcard
      return wrapErr ("failed to update wildcard policy at slot " ++ toString i) r
    else addToSlot p wildcard n (i + 1)

/-- `addWildcardPolicy` (`:374`). -/
def addWildcardPolicy (p : Policy) : Op (Except Err Unit) :=
  match wildcardEntry p with
  | .error e => pure (.error e)
  | .ok wildcard => addToSlot p wildcard 1000 0

/-- `addPolicyToMap` (`:122`). -/
def addPolicyToMap (p : Policy) : Op (Except Err Unit) :=
  if hasWildcard p then addWildcardPolicy p else addExactPolicy p

/-- `AddPolicy` (`:83`); a failing storage is only logged. -/
def addPolicy (p : Policy) : Op (Except Err Unit) := do
  let r ← addPolicyToMap p
  match r with
  | .error e => return .error e
  | .ok () =>
    let _ ← withStorage (SQLiteStorage.savePolicy p)
    return .ok ()

/-- One call of `AddPolicy` after another, with the answer of each. -/
def addPolicies : List Policy → Op (List (Except Err Unit))
  | [] => pure []
  | p :: ps => do
    let r ← addPolicy p
    let rs ← addPolicies ps
    return r :: rs

/-- `DeletePolicy` (`:204`). -/
def deletePolicy (p : Policy) : Op (Except Err Unit) :=
  match policyKey p with
  | .error e => pure (.error e)
  | .ok key => do
    let r ← policyMapDelete key
    match r with
    | .error e => return .error (.wrap "failed to delete policy from map" e)
    | .ok () =>
      let _ ← withStorage (SQLiteStorage.deletePolicy p.ruleID)
      return .ok ()

/-- `ListPolicies` (`:257`). -/
def listPolicies (iter : Iteration PolicyKey PolicyValue maxEntriesPolicy) : Op (List Policy) :=
  Prog.act fun pm => (pm, (iter.visit pm.maps.policyMap).map fun kv => listedPolicy kv.1 kv.2)

/-- The loop of `LoadPersisted` (`:70-76`): a policy that fails is skipped. -/
def restoreAll : List Policy → Op Unit
  | [] => pure ()
  | p :: ps => do
    let _ ← addPolicyToMap p
    restoreAll ps

/-- `LoadPersisted` (`:58`). -/
def loadPersisted : Op (Except Err Unit) := do
  let loaded ← Prog.act fun pm => (pm, pm.storage.map SQLiteStorage.loadPolicies)
  match loaded with
  | none => return .error (.errorf "no storage configured")
  | some (.error e) => return .error (.wrap "failed to load policies from storage" e)
  | some (.ok policies) => do
    restoreAll policies
    return .ok ()

/-! ## The methods alone -/

/-- The first of the `n` slots from `i` on that is free or already holds the rule id. -/
def slotFrom (m : ArrayMap WildcardPolicy maxEntriesWildcardPolicy) (ruleID : U32) (i n : Nat) : Option Nat :=
  (List.range' i n).find? fun j => (m.lookup j).elim true fun e => e.ruleId = 0 ∨ e.ruleId = ruleID

def slotFor (m : ArrayMap WildcardPolicy maxEntriesWildcardPolicy) (ruleID : U32) : Option Nat :=
  slotFrom m ruleID 0 maxEntriesWildcardPolicy

/-- Writing the slot the search found. -/
def PolicyMaps.writeSlot (m : PolicyMaps) (slot : Option Nat) (wildcard : WildcardPolicy) : Except Err PolicyMaps :=
  match slot.bind fun i => m.wildcardPolicyMap.put i wildcard with
  | none => .error (.errorf "wildcard policy map is full (max 1000 entries)")
  | some wildcardPolicyMap => .ok { m with wildcardPolicyMap }

/-- `addPolicyToMap` as a function of the maps. -/
def PolicyMaps.add (m : PolicyMaps) (p : Policy) : Except Err PolicyMaps :=
  if hasWildcard p then
    match wildcardEntry p with
    | .error e => .error e
    | .ok wildcard => m.writeSlot (slotFor m.wildcardPolicyMap p.ruleID) wildcard
  else
    match exactEntry p with
    | .error e => .error e
    | .ok (key, value) =>
      match m.policyMap.put key value with
      | none => .error (.wrap "failed to add policy to map" .tooBig)
      | some policyMap => .ok { m with policyMap }

/-! What a method does once the policy is parsed. Unfolding it would have Lean run the parser. -/

theorem addExactPolicy_of_error {p : Policy} {e : Err} (h : exactEntry p = .error e) :
    addExactPolicy p = pure (.error e) := by
  delta addExactPolicy
  simp only [h]

theorem addExactPolicy_of_ok {p : Policy} {key : PolicyKey} {value : PolicyValue} (h : exactEntry p = .ok (key, value)) :
    addExactPolicy p = policyMapPut key value >>= fun r => pure (wrapErr "failed to add policy to map" r) := by
  delta addExactPolicy
  simp only [h]

theorem addWildcardPolicy_of_error {p : Policy} {e : Err} (h : wildcardEntry p = .error e) :
    addWildcardPolicy p = pure (.error e) := by
  delta addWildcardPolicy
  simp only [h]

theorem addWildcardPolicy_of_ok {p : Policy} {wildcard : WildcardPolicy} (h : wildcardEntry p = .ok wildcard) :
    addWildcardPolicy p = addToSlot p wildcard 1000 0 := by
  delta addWildcardPolicy
  simp only [h]

theorem deletePolicy_of_error {p : Policy} {e : Err} (h : policyKey p = .error e) : deletePolicy p = pure (.error e) := by
  delta deletePolicy
  simp only [h]

theorem deletePolicy_of_ok {p : Policy} {key : PolicyKey} (h : policyKey p = .ok key) :
    deletePolicy p = policyMapDelete key >>= fun r =>
      match r with
      | .error e => pure (.error (.wrap "failed to delete policy from map" e))
      | .ok () => withStorage (SQLiteStorage.deletePolicy p.ruleID) >>= fun _ => pure (.ok ()) := by
  delta deletePolicy
  simp only [h]

theorem add_wildcard_ok {m m' : PolicyMaps} {p : Policy} (hw : hasWildcard p = true) :
    m.add p = .ok m' ↔ ∃ (t : Parsed p) (i : Nat), slotFor m.wildcardPolicyMap p.ruleID = some i ∧
      m.wildcardPolicyMap.put i t.wildcard = some m'.wildcardPolicyMap ∧ m'.policyMap = m.policyMap := by
  obtain ⟨x', a'⟩ := m'
  constructor
  · intro h
    rcases parsed_cases p with ⟨⟨t⟩⟩ | ⟨e, _, he⟩
    · simp only [PolicyMaps.add, hw, ↓reduceIte, t.wildcardEntry_eq, PolicyMaps.writeSlot] at h
      split at h
      · cases h
      · next a ha =>
        obtain ⟨i, hi, hput⟩ := Option.bind_eq_some_iff.1 ha
        cases h
        exact ⟨t, i, hi, hput, rfl⟩
    · simp [PolicyMaps.add, hw, he] at h
  · rintro ⟨t, i, hi, hput, rfl⟩
    simp [PolicyMaps.add, hw, t.wildcardEntry_eq, PolicyMaps.writeSlot, hi, hput]

theorem add_exact_ok {m m' : PolicyMaps} {p : Policy} (hw : hasWildcard p = false) :
    m.add p = .ok m' ↔ ∃ t : Parsed p, m.policyMap.put t.key t.value = some m'.policyMap ∧
      m'.wildcardPolicyMap = m.wildcardPolicyMap := by
  obtain ⟨x', a'⟩ := m'
  constructor
  · intro h
    rcases parsed_cases p with ⟨⟨t⟩⟩ | ⟨e, he, _⟩
    · simp only [PolicyMaps.add, hw, Bool.false_eq_true, ↓reduceIte, t.exactEntry_eq] at h
      split at h
      · cases h
      · next x hx =>
        cases h
        exact ⟨t, hx, rfl⟩
    · simp [PolicyMaps.add, hw, he] at h
  · rintro ⟨t, hput, rfl⟩
    simp [PolicyMaps.add, hw, t.exactEntry_eq, hput]

/-- A policy that was added parses. -/
theorem parsed_of_add {m m' : PolicyMaps} {p : Policy} (h : m.add p = .ok m') : Nonempty (Parsed p) := by
  cases hw : hasWildcard p with
  | true =>
    obtain ⟨t, _⟩ := (add_wildcard_ok hw).1 h
    exact ⟨t⟩
  | false =>
    obtain ⟨t, _⟩ := (add_exact_ok hw).1 h
    exact ⟨t⟩

/-- A wildcard policy that parses is added as soon as the search finds a slot. -/
theorem exists_add_of_slotFor {m : PolicyMaps} {p : Policy} (hw : hasWildcard p = true) (t : Parsed p) {i : Nat}
    (hi : slotFor m.wildcardPolicyMap p.ruleID = some i) : ∃ m', m.add p = .ok m' := by
  have hlt : i < maxEntriesWildcardPolicy :=
    (List.mem_range'_1.1 (List.mem_of_find?_eq_some hi)).2.trans_eq (Nat.zero_add _)
  obtain ⟨a, ha⟩ := m.wildcardPolicyMap.exists_put hlt t.wildcard
  exact ⟨⟨m.policyMap, a⟩, (add_wildcard_ok hw).2 ⟨t, i, hi, ha, rfl⟩⟩

/-- An exact policy that parses is added if its key is there or the map has room. -/
theorem exists_add_of_room {m : PolicyMaps} {p : Policy} (hw : hasWildcard p = false) (t : Parsed p)
    (hroom : (m.policyMap.lookup t.key).isSome ∨ m.policyMap.size < maxEntriesPolicy) : ∃ m', m.add p = .ok m' := by
  obtain ⟨x, hx⟩ := HashMap.exists_put hroom t.value
  exact ⟨⟨x, m.wildcardPolicyMap⟩, (add_exact_ok hw).2 ⟨t, hx, rfl⟩⟩

/-- The map part of `DeletePolicy` as a function of the maps. -/
def PolicyMaps.remove (m : PolicyMaps) (p : Policy) : Except Err PolicyMaps :=
  match policyKey p with
  | .error e => .error e
  | .ok key =>
    match m.policyMap.delete key with
    | none => .error (.wrap "failed to delete policy from map" .keyNotExist)
    | some policyMap => .ok { m with policyMap }

theorem remove_of_error {p : Policy} {e : Err} (h : policyKey p = .error e) (m : PolicyMaps) : m.remove p = .error e := by
  delta PolicyMaps.remove
  simp only [h]

theorem remove_of_ok {p : Policy} {key : PolicyKey} (h : policyKey p = .ok key) (m : PolicyMaps) :
    m.remove p = match m.policyMap.delete key with
      | none => .error (.wrap "failed to delete policy from map" .keyNotExist)
      | some policyMap => .ok { m with policyMap } := by
  delta PolicyMaps.remove
  simp only [h]

/-- Maps and answer of an operation that leaves the maps alone when it fails. -/
def PolicyManager.settle (pm : PolicyManager) : Except Err PolicyMaps → PolicyManager × Except Err Unit
  | .error e => (pm, .error e)
  | .ok maps => ({ pm with maps }, .ok ())

theorem addToSlot_run (p : Policy) (w : WildcardPolicy) (pm : PolicyManager) (n i : Nat)
    (h : i + n = maxEntriesWildcardPolicy) : (addToSlot p w n i).run pm =
      pm.settle (pm.maps.writeSlot (slotFrom pm.maps.wildcardPolicyMap p.ruleID i n) w) := by
  induction n generalizing i with
  | zero => rfl
  | succ n ih =>
    have ih := ih (i + 1) (by omega)
    have hi : i < maxEntriesWildcardPolicy := by omega
    obtain ⟨e, he⟩ := pm.maps.wildcardPolicyMap.exists_lookup hi
    obtain ⟨m, hm⟩ := pm.maps.wildcardPolicyMap.exists_put hi w
    by_cases h0 : e.ruleId = 0#32
    · simp [addToSlot, wildcardPolicyMapLookup, wildcardPolicyMapPut, slotFrom, List.range'_succ,
        PolicyMaps.writeSlot, he, hm, h0, wrapErr, PolicyManager.settle]
    by_cases h1 : e.ruleId = p.ruleID
    · have h0' : ¬ p.ruleID = 0#32 := h1 ▸ h0
      simp [addToSlot, wildcardPolicyMapLookup, wildcardPolicyMapPut, slotFrom, List.range'_succ,
        PolicyMaps.writeSlot, he, hm, h0', h1, wrapErr, PolicyManager.settle]
    · have hs : slotFrom pm.maps.wildcardPolicyMap p.ruleID i (n + 1) =
          slotFrom pm.maps.wildcardPolicyMap p.ruleID (i + 1) n := by
        simp [slotFrom, List.range'_succ, he, h0, h1]
      simp [addToSlot, wildcardPolicyMapLookup, he, h0, h1, ih, hs]

/-- **`addPolicyToMap` alone** is `PolicyMaps.add`; on an error nothing has changed. -/
theorem addPolicyToMap_run (p : Policy) (pm : PolicyManager) :
    (addPolicyToMap p).run pm = pm.settle (pm.maps.add p) := by
  unfold addPolicyToMap PolicyMaps.add
  split
  · cases hw : wildcardEntry p with
    | error e => simp [addWildcardPolicy_of_error hw, PolicyManager.settle]
    | ok w =>
      rw [addWildcardPolicy_of_ok hw]
      exact addToSlot_run p w pm 1000 0 rfl
  · cases hx : exactEntry p with
    | error e => simp [addExactPolicy_of_error hx, PolicyManager.settle]
    | ok kv =>
      obtain ⟨key, value⟩ := kv
      cases hput : pm.maps.policyMap.put key value <;>
        simp [addExactPolicy_of_ok hx, policyMapPut, hput, wrapErr, PolicyManager.settle]

/-- The storage after a statement. -/
def PolicyManager.stored (pm : PolicyManager) (f : SQLiteStorage → SQLiteStorage × Except Err Unit) : PolicyManager :=
  { pm with storage := pm.storage.map fun s => (f s).1 }

theorem withStorage_run (f : SQLiteStorage → SQLiteStorage × Except Err Unit) (pm : PolicyManager) :
    ((withStorage f).run pm).1 = pm.stored f := by
  obtain ⟨maps, storage⟩ := pm
  cases storage <;> rfl

theorem addPolicy_run (p : Policy) (pm : PolicyManager) :
    (addPolicy p).run pm = match pm.maps.add p with
      | .error e => (pm, .error e)
      | .ok maps => (PolicyManager.stored { pm with maps } (SQLiteStorage.savePolicy p), .ok ()) := by
  cases h : pm.maps.add p <;> simp [addPolicy, addPolicyToMap_run, h, PolicyManager.settle, withStorage_run]

theorem deletePolicy_run (p : Policy) (pm : PolicyManager) :
    (deletePolicy p).run pm = match pm.maps.remove p with
      | .error e => (pm, .error e)
      | .ok maps => (PolicyManager.stored { pm with maps } (SQLiteStorage.deletePolicy p.ruleID), .ok ()) := by
  cases hk : policyKey p with
  | error e => simp [deletePolicy_of_error hk, remove_of_error hk]
  | ok key =>
    cases hd : pm.maps.policyMap.delete key <;>
      simp [deletePolicy_of_ok hk, remove_of_ok hk, policyMapDelete, hd, withStorage_run]

/-- A deletion changes nothing, or takes an entry out of the exact map and a row out of the storage. -/
theorem deletePolicy_cases (p : Policy) (pm : PolicyManager) :
    (((deletePolicy p).run pm).1 = pm ∧ ∀ key, policyKey p = .ok key → pm.maps.policyMap.lookup key = none) ∨
    ∃ key v, policyKey p = .ok key ∧ pm.maps.policyMap.lookup key = some v ∧
      ((deletePolicy p).run pm).1 =
        PolicyManager.stored { pm with maps.policyMap := pm.maps.policyMap.erase key } (SQLiteStorage.deletePolicy p.ruleID) := by
  rw [deletePolicy_run]
  cases hk : policyKey p with
  | error e =>
    rw [remove_of_error hk]
    exact Or.inl ⟨rfl, fun key h => by cases h⟩
  | ok key =>
    rw [remove_of_ok hk]
    cases hv : pm.maps.policyMap.lookup key with
    | none =>
      refine Or.inl ⟨?_, fun key' h => by cases h; exact hv⟩
      simp only [HashMap.delete, hv, Option.isSome_none, Bool.false_eq_true, ↓reduceIte]
    | some v =>
      refine Or.inr ⟨key, v, rfl, hv, ?_⟩
      simp only [HashMap.delete, hv, Option.isSome_some, ↓reduceIte]

theorem addPolicy_ok_iff {p : Policy} {pm : PolicyManager} :
    ((addPolicy p).run pm).2 = .ok () ↔ ∃ m, pm.maps.add p = .ok m := by
  rw [addPolicy_run]
  cases pm.maps.add p <;> simp

theorem addPolicy_eq_ok {p : Policy} {pm pm' : PolicyManager} (h : (addPolicy p).run pm = (pm', .ok ())) :
    pm.maps.add p = .ok pm'.maps := by
  rw [addPolicy_run] at h
  cases hadd : pm.maps.add p with
  | error e => rw [hadd] at h; cases h
  | ok m => rw [hadd] at h; cases h; rfl

theorem addPolicy_maps (p : Policy) (pm : PolicyManager) :
    ((addPolicy p).run pm).1.maps = (pm.maps.add p).toOption.getD pm.maps := by
  rw [addPolicy_run]
  cases pm.maps.add p <;> rfl

/-- Adding a policy changes the exact map at its own key, or nowhere. -/
theorem addPolicy_lookup (p : Policy) (pm : PolicyManager) (k : PolicyKey) :
    ((addPolicy p).run pm).1.maps.policyMap.lookup k = pm.maps.policyMap.lookup k ∨
    (hasWildcard p = false ∧ ∃ t : Parsed p, k = t.key ∧
      ((addPolicy p).run pm).1.maps.policyMap.lookup k = some t.value) := by
  rw [addPolicy_maps]
  cases hadd : pm.maps.add p with
  | error e => exact Or.inl rfl
  | ok m' =>
    cases hw : hasWildcard p with
    | true =>
      obtain ⟨_, _, _, _, hsame⟩ := (add_wildcard_ok hw).1 hadd
      exact Or.inl (by rw [Except.toOption, Option.getD_some, hsame])
    | false =>
      obtain ⟨t, hput, _⟩ := (add_exact_ok hw).1 hadd
      have hlook := HashMap.lookup_put hput k
      by_cases hk : k = t.key
      · exact Or.inr ⟨rfl, t, hk, hlook.trans (if_pos hk)⟩
      · exact Or.inl (hlook.trans (if_neg hk))

theorem deletePolicy_maps (p : Policy) (pm : PolicyManager) :
    ((deletePolicy p).run pm).1.maps = (pm.maps.remove p).toOption.getD pm.maps := by
  rw [deletePolicy_run]
  cases pm.maps.remove p <;> rfl

/-- The manager after a sequence of `AddPolicy` calls. -/
def PolicyManager.after (pm : PolicyManager) (ps : List Policy) : PolicyManager := ((addPolicies ps).run pm).1

@[simp] theorem after_nil (pm : PolicyManager) : pm.after [] = pm := rfl

@[simp] theorem after_cons (pm : PolicyManager) (p : Policy) (ps : List Policy) :
    pm.after (p :: ps) = PolicyManager.after ((addPolicy p).run pm).1 ps := by
  simp [PolicyManager.after, addPolicies]

theorem after_append (pm : PolicyManager) (ps qs : List Policy) : pm.after (ps ++ qs) = (pm.after ps).after qs := by
  induction ps generalizing pm with
  | nil => rfl
  | cons p ps ih => rw [List.cons_append, after_cons, after_cons, ih]

/-- A manager with empty maps and no storage (`NewManager`, `:40`). -/
def PolicyManager.fresh : PolicyManager := ⟨.empty, none⟩

end Microseg
