import Microseg.Lib.Linear
import Microseg.Mirror
/-!
# Calls side by side on the exact map (`policy.go:82-98`, `:131-200`, `:203-254`)

`AddPolicy` and `DeletePolicy` take no lock. What either does to the exact map is one `Put` or one `Delete`: before it
the call only parses, after it only the storage is written. So calls of any kind that run side by side leave the
exact map as they would one after another, in some order, and each call on it is answered as it is then
(`calls_linearize`). A wildcard policy leaves the exact map alone; what becomes of its slot is another matter
(`Creates.lean`).
-/
namespace Microseg
open Words KernelMap Atomic

/-- A call as a program. -/
def PolicyCall.program : PolicyCall → Op (Except Err Unit)
  | .add p => addPolicy p
  | .delete p => deletePolicy p

/-- The call is about the exact map. -/
def PolicyCall.Exact : PolicyCall → Prop
  | .add p => hasWildcard p = false
  | .delete _ => True

def PolicyManager.exactMap (pm : PolicyManager) : HashMap PolicyKey PolicyValue maxEntriesPolicy := pm.maps.policyMap

/-- What a call does to the exact map, and its answer. -/
def PolicyCall.spec : PolicyCall → Spec (HashMap PolicyKey PolicyValue maxEntriesPolicy) (Except Err Unit)
  | .add p =>
    if hasWildcard p then ⟨id, fun _ _ => True⟩
    else
      match exactEntry p with
      | .error e => ⟨id, fun _ r => r = .error e⟩
      | .ok (key, value) =>
        { eff := fun m => (m.put key value).getD m
          Answers := fun m r => r = if (m.put key value).isSome then .ok () else .error (.wrap "failed to add policy to map" .tooBig) }
  | .delete p =>
    match policyKey p with
    | .error e => ⟨id, fun _ r => r = .error e⟩
    | .ok key =>
      { eff := fun m => (m.delete key).getD m
        Answers := fun m r =>
          r = if (m.delete key).isSome then .ok () else .error (.wrap "failed to delete policy from map" .keyNotExist) }

/-! ## Calls take effect at once -/

theorem withStorage_settled (f : SQLiteStorage → SQLiteStorage × Except Err Unit) :
    Settled PolicyManager.exactMap (fun _ => True) (withStorage f) := by
  refine .act fun pm => ⟨?_, trivial⟩
  cases pm.storage <;> rfl

/-- The rest of `AddPolicy` after the map. -/
theorem save_settled (p : Policy) (r : Except Err Unit) : Settled PolicyManager.exactMap (fun r' => r' = r)
    (match r with
      | .error e => pure (.error e)
      | .ok () => withStorage (SQLiteStorage.savePolicy p) >>= fun _ => pure (.ok ()) : Op (Except Err Unit)) := by
  cases r with
  | error e => exact .done rfl
  | ok u => exact (withStorage_settled _).bind fun _ _ => .done rfl

/-- The rest of `DeletePolicy` after the map. -/
theorem unsave_settled (p : Policy) (r : Except Err Unit) : Settled PolicyManager.exactMap
    (fun r' => r' = match r with
      | .error e => .error (.wrap "failed to delete policy from map" e)
      | .ok () => .ok ())
    (match r with
      | .error e => pure (.error (.wrap "failed to delete policy from map" e))
      | .ok () => withStorage (SQLiteStorage.deletePolicy p.ruleID) >>= fun _ => pure (.ok ()) : Op (Except Err Unit)) := by
  cases r with
  | error e => exact .done rfl
  | ok u => exact (withStorage_settled _).bind fun _ _ => .done rfl

/-! The slot loop works on the wildcard array alone. -/

section Slots

variable {V : Type} {view : PolicyManager → V} (hview : ∀ pm a, view { pm with maps.wildcardPolicyMap := a } = view pm)

include hview

theorem putSlot_settled (i : Nat) (w : WildcardPolicy) (context : String) : Settled view (fun _ => True)
    (wildcardPolicyMapPut i w >>= fun r => pure (wrapErr context r)) := by
  refine Settled.bind (A := fun _ => True) (.act fun pm => ⟨?_, trivial⟩) fun _ _ => .done trivial
  cases pm.maps.wildcardPolicyMap.put i w with
  | none => rfl
  | some a => exact hview pm a

theorem addToSlot_settled (p : Policy) (w : WildcardPolicy) (n i : Nat) :
    Settled view (fun _ => True) (addToSlot p w n i) := by
  induction n generalizing i with
  | zero => exact .done trivial
  | succ n ih =>
    refine Settled.bind (A := fun _ => True) (.act fun pm => ⟨rfl, trivial⟩) fun existing _ => ?_
    split
    · exact putSlot_settled hview i w _
    · split
      · exact putSlot_settled hview i w _
      · exact ih (i + 1)

theorem addWildcardPolicy_settled (p : Policy) : Settled view (fun _ => True) (addWildcardPolicy p) := by
  cases hw : wildcardEntry p with
  | error e =>
    rw [addWildcardPolicy_of_error hw]
    exact .done trivial
  | ok w =>
    rw [addWildcardPolicy_of_ok hw]
    exact addToSlot_settled hview p w 1000 0

end Slots

/-- **A call takes effect at once**, if at all. -/
theorem program_oneShot (c : PolicyCall) : OneShot PolicyManager.exactMap c.spec c.program := by
  cases c with
  | add p =>
    simp only [PolicyCall.spec, PolicyCall.program, addPolicy, addPolicyToMap]
    split
    · exact .idle (fun _ => rfl) fun _ =>
        (addWildcardPolicy_settled (fun _ _ => rfl) p).bind fun r _ => (save_settled p r).mono fun _ _ => trivial
    · cases hx : exactEntry p with
      | error e =>
        rw [addExactPolicy_of_error hx]
        exact .idle (fun _ => rfl) fun _ => .done rfl
      | ok kv =>
        obtain ⟨key, value⟩ := kv
        rw [addExactPolicy_of_ok hx]
        refine .point (fun pm => ?_) fun pm => ?_
        · simp only [PolicyManager.exactMap]
          cases pm.maps.policyMap.put key value <;> rfl
        · refine (save_settled p (wrapErr "failed to add policy to map" ((policyMapPut key value).run pm).2)).mono
            fun r hr => hr.trans ?_
          rw [policyMapPut, Prog.run_act, PolicyManager.exactMap]
          cases pm.maps.policyMap.put key value <;> rfl
  | delete p =>
    simp only [PolicyCall.spec, PolicyCall.program]
    cases hk : policyKey p with
    | error e =>
      rw [deletePolicy_of_error hk]
      exact .idle (fun _ => rfl) fun _ => .done rfl
    | ok key =>
      rw [deletePolicy_of_ok hk]
      refine .point (fun pm => ?_) fun pm => ?_
      · simp only [PolicyManager.exactMap]
        cases pm.maps.policyMap.delete key <;> rfl
      · refine (unsave_settled p ((policyMapDelete key).run pm).2).mono fun r hr => hr.trans ?_
        rw [policyMapDelete, Prog.run_act, PolicyManager.exactMap]
        cases pm.maps.policyMap.delete key <;> rfl

/-- A call on the exact map has one answer. -/
theorem spec_answer {c : PolicyCall} (h : c.Exact) {m : HashMap PolicyKey PolicyValue maxEntriesPolicy}
    {r r' : Except Err Unit} (hr : c.spec.Answers m r) (hr' : c.spec.Answers m r') : r = r' := by
  cases c with
  | add p =>
    have hw : hasWildcard p = false := h
    simp only [PolicyCall.spec, hw, Bool.false_eq_true, ↓reduceIte] at hr hr'
    cases hx : exactEntry p <;> rw [hx] at hr hr' <;> exact hr.trans hr'.symm
  | delete p =>
    simp only [PolicyCall.spec] at hr hr'
    cases hk : policyKey p <;> rw [hk] at hr hr' <;> exact hr.trans hr'.symm

/-! ## Side by side -/

/-- **Linearization of the exact map.** Any calls of `AddPolicy` and `DeletePolicy`, started side by side from any state
and interleaved operation by operation, leave the exact map that they leave one after another in some order; and each
call on the exact map has answered as it answers at its turn. -/
theorem calls_linearize (pm : PolicyManager) (cs : List PolicyCall) (schedule : List Nat)
    (hdone : ∀ q ∈ (Runs.run (poolStep Prog.step) (cs.map PolicyCall.program, pm) schedule).1, q.result.isSome) :
    ∃ order : List Nat, order.Perm (List.range cs.length) ∧
      (Runs.run (poolStep Prog.step) (cs.map PolicyCall.program, pm) schedule).2.maps.policyMap =
        (inTurn (cs.map PolicyCall.program) pm order).maps.policyMap ∧
      ∀ j c, cs[j]? = some c → c.Exact → ∃ pre post, order = pre ++ j :: post ∧
        (Runs.run (poolStep Prog.step) (cs.map PolicyCall.program, pm) schedule).1[j]? =
          some (.done (c.program.run (inTurn (cs.map PolicyCall.program) pm pre)).2) := by
  have hshots : List.Forall₂ (OneShot PolicyManager.exactMap) (cs.map PolicyCall.spec) (cs.map PolicyCall.program) := by
    rw [List.forall₂_map_left_iff, List.forall₂_map_right_iff, List.forall₂_same]
    exact fun c _ => program_oneShot c
  obtain ⟨order, hperm, hmap, hanswers⟩ := linearize hshots pm schedule hdone
  rw [List.length_map] at hperm
  refine ⟨order, hperm, hmap, fun j c hj hc => ?_⟩
  obtain ⟨pre, post, a, hsplit, ha, hanswer⟩ := hanswers j c.spec (by rw [List.getElem?_map, hj]; rfl)
  have halone := ((program_oneShot c).run (inTurn (cs.map PolicyCall.program) pm pre)).2
  rw [spec_answer hc hanswer halone] at ha
  exact ⟨pre, post, hsplit, ha⟩

/-- A rule is deleted before the call that adds it has returned, while a wildcard rule looks for its slot. -/
def opposedCalls : List PolicyCall := [.add denyPort443, .delete denyPort443, .add denyHost]

theorem opposed_linearize : ∃ order : List Nat, order.Perm (List.range 3) ∧
    (Runs.run (poolStep Prog.step) (opposedCalls.map PolicyCall.program, PolicyManager.fresh) [0, 2, 1, 0, 1, 2, 2]).2.maps.policyMap =
      (inTurn (opposedCalls.map PolicyCall.program) .fresh order).maps.policyMap ∧
    ∀ j c, opposedCalls[j]? = some c → c.Exact → ∃ pre post, order = pre ++ j :: post ∧
      (Runs.run (poolStep Prog.step) (opposedCalls.map PolicyCall.program, PolicyManager.fresh) [0, 2, 1, 0, 1, 2, 2]).1[j]? =
        some (.done (c.program.run (inTurn (opposedCalls.map PolicyCall.program) .fresh pre)).2) :=
  calls_linearize .fresh opposedCalls [0, 2, 1, 0, 1, 2, 2] (by decide +kernel)

end Microseg
