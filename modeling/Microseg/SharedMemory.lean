import Microseg.Lib.Projection
import Microseg.Memory
import Microseg.System
/-!
# Agent and program on the same bytes (`policy.go:131-254`, `tc_microsegment.bpf.c`)

The methods of the manager use the maps through handles. `Handles` is what they use, so that one and the same code runs
on maps of records (`recordHandles`, where it is the methods of `Manager.lean`) and on maps of bytes, where each
access goes through the Go declaration of the record (`byteHandles`). The running system on bytes is then the
running system of `System.lean`, whatever is done in whatever order (`memory_refines`): what the agent writes by
its declarations is what the program reads by those of the header, and what the program counts in place is what the
agent lists.

| here | there |
| --- | --- |
| `Handles` | `policyMap`, `wildcardPolicyMap`, `storage` of `PolicyManager` (`policy.go:27-31`) |
| `byteHandles` | `Put(&key, &value)`, `Lookup(&i, &existing)`, `Delete(&key)` (`:189`, `:237`, `:451`, `:456`) |
| `rawListing` | the loop of `ListPolicies` (`:278-292`) |
-/
namespace Microseg
open Words Layout KernelMap Atomic Runs Projection

/-! ## The methods over handles -/

/-- What the methods use. -/
structure Handles (σ : Type) where
  policyMapPut : PolicyKey → PolicyValue → Prog σ (Except Err Unit)
  policyMapDelete : PolicyKey → Prog σ (Except Err Unit)
  wildcardPolicyMapLookup : Nat → Prog σ (Option WildcardPolicy)
  wildcardPolicyMapPut : Nat → WildcardPolicy → Prog σ (Except Err Unit)
  withStorage : (SQLiteStorage → SQLiteStorage × Except Err Unit) → Prog σ (Except Err Unit)

namespace Handles

variable {σ τ : Type} (h : Handles σ)

def addExactPolicy (p : Policy) : Prog σ (Except Err Unit) :=
  match exactEntry p with
  | .error e => pure (.error e)
  | .ok (key, value) => do
    let r ← h.policyMapPut key value
    return wrapErr "failed to add policy to map" r

def addToSlot (p : Policy) (wildcard : WildcardPolicy) : Nat → Nat → Prog σ (Except Err Unit)
  | 0, _ => pure (.error (.errorf "wildcard policy map is full (max 1000 entries)"))
  | n + 1, i => do
    let existing ← h.wildcardPolicyMapLookup i
    if existing.elim true fun e => e.ruleId = 0 then
      let r ← h.wildcardPolicyMapPut i wildcard
      return wrapErr ("failed to add wildcard policy to map slot " ++ toString i) r
    else if existing.elim false fun e => e.ruleId = p.ruleID then
      let r ← h.wildcardPolicyMapPut i wildcard
      return wrapErr ("failed to update wildcard policy at slot " ++ toString i) r
    else addToSlot p wildcard n (i + 1)

def addWildcardPolicy (p : Policy) : Prog σ (Except Err Unit) :=
  match wildcardEntry p with
  | .error e => pure (.error e)
  | .ok wildcard => h.addToSlot p wildcard 1000 0

def addPolicyToMap (p : Policy) : Prog σ (Except Err Unit) :=
  if hasWildcard p then h.addWildcardPolicy p else h.addExactPolicy p

def addPolicy (p : Policy) : Prog σ (Except Err Unit) := do
  let r ← h.addPolicyToMap p
  match r with
  | .error e => return .error e
  | .ok () =>
    let _ ← h.withStorage (SQLiteStorage.savePolicy p)
    return .ok ()

def deletePolicy (p : Policy) : Prog σ (Except Err Unit) :=
  match policyKey p with
  | .error e => pure (.error e)
  | .ok key => do
    let r ← h.policyMapDelete key
    match r with
    | .error e => return .error (.wrap "failed to delete policy from map" e)
    | .ok () =>
      let _ ← h.withStorage (SQLiteStorage.deletePolicy p.ruleID)
      return .ok ()

def replacePolicy (p : PolicyRequest) : Prog σ Response := do
  let _ ← h.deletePolicy p
  let r ← h.addPolicy p
  match r with
  | .error e => return policyError "Failed to update policy" e
  | .ok () => return ⟨200, .policy p⟩

def updatePolicy (id : String) (body : Option PolicyRequest) : Prog σ Response :=
  match parseUint32 id with
  | .error e => pure (invalidRuleID e)
  | .ok ruleID =>
    match shouldBindJSON body with
    | .error e => pure (invalidBody e)
    | .ok p =>
      if p.ruleID ≠ ruleID then
        pure ⟨400, .error "validation_error" "Rule ID in URL does not match rule ID in request body" .none⟩
      else h.replacePolicy p

def program : Call → Prog σ Unit
  | .addPolicy p => do
    let _ ← h.addPolicy p
  | .deletePolicy p => do
    let _ ← h.deletePolicy p
  | .updatePolicy id body => do
    let _ ← h.updatePolicy id body

/-! ### Handles on two representations -/

/-- Handle by handle, the operations simulate each other. -/
structure Simulates (R : σ → τ → Prop) (h : Handles σ) (h' : Handles τ) : Prop where
  put : ∀ key value, (h.policyMapPut key value).Simulates R (h'.policyMapPut key value)
  delete : ∀ key, (h.policyMapDelete key).Simulates R (h'.policyMapDelete key)
  lookup : ∀ i, (h.wildcardPolicyMapLookup i).Simulates R (h'.wildcardPolicyMapLookup i)
  putSlot : ∀ i wildcard, (h.wildcardPolicyMapPut i wildcard).Simulates R (h'.wildcardPolicyMapPut i wildcard)
  storage : ∀ f, (h.withStorage f).Simulates R (h'.withStorage f)

namespace Simulates

variable {R : σ → τ → Prop} {h : Handles σ} {h' : Handles τ} (hh : h.Simulates R h')

include hh

theorem addToSlot (p : Policy) (wildcard : WildcardPolicy) (n i : Nat) :
    (h.addToSlot p wildcard n i).Simulates R (h'.addToSlot p wildcard n i) := by
  induction n generalizing i with
  | zero => exact .done _
  | succ n ih =>
    refine Prog.simulates_bind (hh.lookup i) fun existing => ?_
    split
    · exact Prog.simulates_bind (hh.putSlot i wildcard) fun r => .done _
    · split
      · exact Prog.simulates_bind (hh.putSlot i wildcard) fun r => .done _
      · exact ih (i + 1)

theorem addPolicyToMap (p : Policy) : (h.addPolicyToMap p).Simulates R (h'.addPolicyToMap p) := by
  delta Handles.addPolicyToMap Handles.addWildcardPolicy Handles.addExactPolicy
  split
  · cases wildcardEntry p with
    | error e => exact .done _
    | ok wildcard => exact hh.addToSlot p wildcard 1000 0
  · cases exactEntry p with
    | error e => exact .done _
    | ok entry => exact Prog.simulates_bind (hh.put entry.1 entry.2) fun r => .done _

theorem addPolicy (p : Policy) : (h.addPolicy p).Simulates R (h'.addPolicy p) := by
  refine Prog.simulates_bind (hh.addPolicyToMap p) fun r => ?_
  cases r with
  | error e => exact .done _
  | ok u => exact Prog.simulates_bind (hh.storage _) fun _ => .done _

theorem deletePolicy (p : Policy) : (h.deletePolicy p).Simulates R (h'.deletePolicy p) := by
  delta Handles.deletePolicy
  cases policyKey p with
  | error e => exact .done _
  | ok key =>
    refine Prog.simulates_bind (hh.delete key) fun r => ?_
    cases r with
    | error e => exact .done _
    | ok u => exact Prog.simulates_bind (hh.storage _) fun _ => .done _

theorem updatePolicy (id : String) (body : Option PolicyRequest) :
    (h.updatePolicy id body).Simulates R (h'.updatePolicy id body) := by
  unfold Handles.updatePolicy
  cases parseUint32 id with
  | error e => exact .done _
  | ok ruleID =>
    cases shouldBindJSON body with
    | error e => exact .done _
    | ok p =>
      simp only
      split
      · exact .done _
      · refine Prog.simulates_bind (hh.deletePolicy p) fun _ => Prog.simulates_bind (hh.addPolicy p) fun r => ?_
        cases r with
        | error e => exact .done _
        | ok u => exact .done _

/-- **Every call** does the same on both. -/
theorem program (c : Call) : (h.program c).Simulates R (h'.program c) := by
  cases c with
  | addPolicy p => exact Prog.simulates_bind (hh.addPolicy p) fun _ => .done _
  | deletePolicy p => exact Prog.simulates_bind (hh.deletePolicy p) fun _ => .done _
  | updatePolicy id body => exact Prog.simulates_bind (hh.updatePolicy id body) fun _ => .done _

end Simulates

end Handles

/-! ## Handles on records -/

def recordHandles : Handles PolicyManager where
  policyMapPut := policyMapPut
  policyMapDelete := policyMapDelete
  wildcardPolicyMapLookup := wildcardPolicyMapLookup
  wildcardPolicyMapPut := wildcardPolicyMapPut
  withStorage := withStorage

theorem addToSlot_record (p : Policy) (wildcard : WildcardPolicy) (n i : Nat) :
    recordHandles.addToSlot p wildcard n i = addToSlot p wildcard n i := by
  induction n generalizing i with
  | zero => rfl
  | succ n ih =>
    rw [Handles.addToSlot, addToSlot]
    simp only [ih]
    rfl

theorem addPolicyToMap_record (p : Policy) : recordHandles.addPolicyToMap p = addPolicyToMap p := by
  delta Handles.addPolicyToMap addPolicyToMap Handles.addWildcardPolicy addWildcardPolicy
  simp only [addToSlot_record]
  rfl

/-- On records the methods are those of the manager. -/
theorem program_record (c : Call) : recordHandles.program c = c.program := by
  have hadd : ∀ p, recordHandles.addPolicy p = addPolicy p := fun p => by
    delta Handles.addPolicy addPolicy
    rw [addPolicyToMap_record]
    rfl
  cases c with
  | addPolicy p => exact congrArg (· >>= fun _ => pure ()) (hadd p)
  | deletePolicy p => rfl
  | updatePolicy id body =>
    have hreplace : ∀ p, recordHandles.replacePolicy p = Api.replacePolicy p := fun p => by
      delta Handles.replacePolicy Api.replacePolicy
      rw [hadd]
      rfl
    have hupdate : recordHandles.updatePolicy id body = Api.updatePolicy id body := by
      delta Handles.updatePolicy Api.updatePolicy
      cases parseUint32 id with
      | error e => rfl
      | ok ruleID =>
        cases shouldBindJSON body with
        | error e => rfl
        | ok p => exact congrArg (ite _ _) (hreplace p)
    exact congrArg (· >>= fun _ => pure ()) hupdate

/-! ## Handles on bytes -/

/-- The manager with the kernel's maps behind its handles. -/
structure RawManager where
  maps : RawMaps
  storage : Option SQLiteStorage

/-- Each access goes through the Go declarations, in one of the two ways the library has. -/
def byteHandles (packed : Bool) : Handles RawManager where
  policyMapPut key value := Prog.act fun pm =>
    match pm.maps.policyMap.put ((goPolicyKeyCodec packed).store key) ((goPolicyValueCodec packed).store value) with
    | none => (pm, .error .tooBig)
    | some policyMap => ({ pm with maps.policyMap := policyMap }, .ok ())
  policyMapDelete key := Prog.act fun pm =>
    match pm.maps.policyMap.delete ((goPolicyKeyCodec packed).store key) with
    | none => (pm, .error .keyNotExist)
    | some policyMap => ({ pm with maps.policyMap := policyMap }, .ok ())
  wildcardPolicyMapLookup i := Prog.act fun pm =>
    (pm, (pm.maps.wildcardPolicyMap.lookup i).map (goWildcardPolicyCodec packed).read)
  wildcardPolicyMapPut i wildcard := Prog.act fun pm =>
    match pm.maps.wildcardPolicyMap.put i ((goWildcardPolicyCodec packed).store wildcard) with
    | none => (pm, .error .tooBig)
    | some wildcardPolicyMap => ({ pm with maps.wildcardPolicyMap := wildcardPolicyMap }, .ok ())
  withStorage f := Prog.act fun pm =>
    match pm.storage with
    | none => (pm, .ok ())
    | some storage => ({ pm with storage := some (f storage).1 }, (f storage).2)

/-- What `ListPolicies` makes of a walk through the map. -/
def rawListing (packed : Bool) (iter : Iteration (List U8) (List U8) maxEntriesPolicy) (m : RawMaps) : List Policy :=
  (iter.visit m.policyMap).map fun kv =>
    listedPolicy ((goPolicyKeyCodec packed).read kv.1) ((goPolicyValueCodec packed).read kv.2)

structure RawManager.Represents (raw : RawManager) (pm : PolicyManager) : Prop where
  maps : raw.maps.Represents pm.maps
  storage : raw.storage = pm.storage

/-- **Handle by handle**: what goes through the Go declarations is what the header declares. -/
theorem byteHandles_simulate (packed : Bool) :
    (byteHandles packed).Simulates RawManager.Represents recordHandles where
  put key value := by
    refine Prog.simulates_act fun raw pm h => ?_
    rw [goPolicyKeyCodec, goPolicyValueCodec, Codec.store_congr, Codec.store_congr]
    rcases encodes_put h.maps.exact flowKeyCodec.store_injective key (policyValueCodec.holds_store value) with
      ⟨hraw, hm⟩ | ⟨raw', m', hraw, hm, hnew⟩
    · rw [hraw, hm]
      exact ⟨h, rfl⟩
    · rw [hraw, hm]
      exact ⟨⟨⟨hnew, h.maps.wildcard⟩, h.storage⟩, rfl⟩
  delete key := by
    refine Prog.simulates_act fun raw pm h => ?_
    rw [goPolicyKeyCodec, Codec.store_congr]
    rcases encodes_delete h.maps.exact flowKeyCodec.store_injective key with ⟨hraw, hm⟩ | ⟨raw', m', hraw, hm, hnew⟩
    · rw [hraw, hm]
      exact ⟨h, rfl⟩
    · rw [hraw, hm]
      exact ⟨⟨⟨hnew, h.maps.wildcard⟩, h.storage⟩, rfl⟩
  lookup i := by
    refine Prog.simulates_act fun raw pm h => ⟨h, ?_⟩
    simp only
    rw [h.maps.wildcard, ArrayMap.lookup_map, Option.map_map]
    cases pm.maps.wildcardPolicyMap.lookup i with
    | none => rfl
    | some w => exact congrArg some (wildcardPolicyCodec.read_congr_store (goWildcardPolicy_agrees packed) w)
  putSlot i wildcard := by
    refine Prog.simulates_act fun raw pm h => ?_
    rw [goWildcardPolicyCodec, Codec.store_congr, h.maps.wildcard, ArrayMap.map_put]
    cases pm.maps.wildcardPolicyMap.put i wildcard with
    | none => exact ⟨h, rfl⟩
    | some m => exact ⟨⟨⟨h.maps.exact, rfl⟩, h.storage⟩, rfl⟩
  storage f := by
    refine Prog.simulates_act fun raw pm h => ?_
    rw [h.storage]
    cases hs : pm.storage with
    | none => exact ⟨h, rfl⟩
    | some storage => exact ⟨⟨h.maps, rfl⟩, rfl⟩

/-! ## The running system on bytes -/

structure RawSys where
  bpf : RawBpf
  storage : Option SQLiteStorage
  calls : List (Prog RawManager Unit)

/-- One event, with what a record reserved meanwhile has in its padding. -/
def rawStep (packed : Bool) (s : RawSys) (e : Event × U16) : RawSys :=
  match e.1 with
  | .packet x skb => { s with bpf := (rawFilter x e.2 skb s.bpf).1 }
  | .evict key => { s with bpf := { s.bpf with sessionMap := s.bpf.sessionMap.erase (flowKeyCodec.store key) } }
  | .call c => { s with calls := s.calls ++ [(byteHandles packed).program c] }
  | .op i =>
    match s.calls[i]? with
    | none => s
    | some p =>
      let (p, pm) := Prog.step (p, RawManager.mk s.bpf.maps s.storage)
      { s with bpf := { s.bpf with maps := pm.maps }, storage := pm.storage, calls := s.calls.set i p }

/-- The verdicts on bytes. -/
def RawSys.verdicts (s : RawSys) (e : Event × U16) : List Int :=
  match e.1 with
  | .packet x skb => [(rawFilter x e.2 skb s.bpf).2]
  | _ => []

def Sys.verdicts (s : Sys) : Event → List Int
  | .packet x skb => [(tcMicrosegmentFilter x skb s.bpf).2]
  | _ => []

/-- The kernel's maps as they are created, all zeros. -/
def RawSys.start (storage : Option SQLiteStorage) : RawSys :=
  ⟨⟨.empty, ⟨.empty, .replicate (List.replicate 32 0)⟩, fun _ _ => 0, []⟩, storage, []⟩

def Sys.start (storage : Option SQLiteStorage) : Sys := ⟨⟨.empty, .empty, fun _ _ => 0, []⟩, storage, []⟩

structure RawSys.Represents (raw : RawSys) (s : Sys) : Prop where
  bpf : raw.bpf.Represents s.bpf
  storage : raw.storage = s.storage
  calls : List.Forall₂ (Prog.Simulates RawManager.Represents) raw.calls s.calls

/-- A slot of zeros is the empty entry. -/
theorem store_zero : wildcardPolicyCodec.store .zero = List.replicate 32 0 := by decide

theorem start_represents (storage : Option SQLiteStorage) : (RawSys.start storage).Represents (Sys.start storage) where
  bpf := ⟨encodes_empty, ⟨encodes_empty, congrArg ArrayMap.replicate store_zero.symm⟩, rfl, .nil⟩
  storage := rfl
  calls := .nil

/-- **One event** on bytes is the event on records. -/
theorem represents_step (packed : Bool) (raw : RawSys) (s : Sys) (e : Event × U16) (h : raw.Represents s) :
    (rawStep packed raw e).Represents (step s e.1) ∧ List.Forall₂ Eq (raw.verdicts e) (s.verdicts e.1) := by
  obtain ⟨e, pad⟩ := e
  cases e with
  | packet x skb =>
    obtain ⟨hnext, hverdict⟩ := h.bpf.filter x pad skb
    exact ⟨⟨hnext, h.storage, h.calls⟩, .cons hverdict .nil⟩
  | evict key =>
    have herased := encodes_erase h.bpf.session flowKeyCodec.store_injective key
    exact ⟨⟨⟨herased, h.bpf.maps, h.bpf.stats, h.bpf.events⟩, h.storage, h.calls⟩, .nil⟩
  | call c =>
    have hcall := (byteHandles_simulate packed).program c
    rw [program_record] at hcall
    exact ⟨⟨h.bpf, h.storage, List.rel_append h.calls (.cons hcall .nil)⟩, .nil⟩
  | op i =>
    refine ⟨?_, .nil⟩
    simp only [rawStep, step]
    cases hraw : raw.calls[i]? with
    | none =>
      have hnone : s.calls[i]? = none := by
        rw [List.getElem?_eq_none_iff, ← h.calls.length_eq, ← List.getElem?_eq_none_iff, hraw]
      rw [hnone]
      exact h
    | some p =>
      obtain ⟨q, hq, hpq⟩ := forall₂_getElem? h.calls hraw
      rw [hq]
      obtain ⟨hrest, hpm⟩ := Prog.simulates_step hpq (s := RawManager.mk raw.bpf.maps raw.storage) (t := s.manager)
        ⟨h.bpf.maps, h.storage⟩
      exact ⟨⟨h.bpf.session, hpm.maps, h.bpf.stats, h.bpf.events⟩, hpm.storage, forall₂_set h.calls i hrest⟩

/-- What the agent lists are the entries of the map, each once. -/
theorem rawListing_perm {raw : RawMaps} {m : PolicyMaps} (h : raw.Represents m) (packed : Bool)
    (rawIter : Iteration (List U8) (List U8) maxEntriesPolicy) (iter : Iteration PolicyKey PolicyValue maxEntriesPolicy) :
    (rawListing packed rawIter raw).Perm ((iter.visit m.policyMap).map fun kv => listedPolicy kv.1 kv.2) := by
  obtain ⟨l, hl, hentries⟩ := encodes_visit h.exact flowKeyCodec.store_injective rawIter iter
  have hlisted : rawListing packed rawIter raw = l.map fun kv => listedPolicy kv.1 kv.2 := by
    rw [rawListing, ← List.forall₂_eq_eq_eq, List.forall₂_map_left_iff, List.forall₂_map_right_iff]
    refine hentries.flip.imp fun kv' kv hkv => ?_
    obtain ⟨hkey, hvalue⟩ := hkv
    rw [← hkey, hvalue, goPolicyKeyCodec, goPolicyValueCodec, Codec.read_congr_store, Codec.read_congr_store]
  rw [hlisted]
  exact hl.map _

/-- **Shared memory.** From the maps as the kernel creates them and any storage, whatever packets, evictions, calls and
single operations of calls follow in whatever order: the system on bytes gives the verdicts of the system on records
and leaves the bytes of its records; and what `ListPolicies` makes of the bytes, in any order it meets them, are the
policies of the entries, each once. -/
theorem memory_refines (packed : Bool) (storage : Option SQLiteStorage) (es : List (Event × U16)) :
    let raw := run (rawStep packed) (RawSys.start storage) es
    let s := run step (Sys.start storage) (es.map Prod.fst)
    raw.Represents s ∧
    outputs (rawStep packed) RawSys.verdicts (RawSys.start storage) es =
      outputs step Sys.verdicts (Sys.start storage) (es.map Prod.fst) ∧
    ∀ rawIter (iter : Iteration _ _ _), (rawListing packed rawIter raw.bpf.maps).Perm
      ((iter.visit s.bpf.maps.policyMap).map fun kv => listedPolicy kv.1 kv.2) := by
  obtain ⟨hrun, hverdicts⟩ := outputs_related (E := fun _ => True) (fun raw s e h _ => represents_step packed raw s e h)
    (start_represents storage) fun e (_ : e ∈ es) => trivial
  exact ⟨hrun, List.forall₂_eq_eq_eq ▸ hverdicts, fun rawIter iter => rawListing_perm hrun.bpf.maps packed rawIter iter⟩

end Microseg
