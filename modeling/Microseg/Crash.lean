import Microseg.Concurrency
import Microseg.Restart
import Microseg.System
/-!
# Crashes (`policy.go:58-98`, `:203-254`, `handlers/policy.go:174-256`)

The maps go with the process, the database stays. A call changes the database in one statement, after the map, and a
restart reads the database only. So an agent that dies in the middle of `AddPolicy` or `DeletePolicy` comes back as
if the call had not been made or as if it had returned; in the middle of an update, it may also come back without
the rule, between the deletion of the old one and the addition of the new one. Dying again while it
comes back changes nothing (`crash_consistent`).

This is about managers with a storage (`NewManagerWithStorage`, `policy.go:49`), as the end-to-end tests build them.
The agent of `cmd/main.go:66` builds its manager without one: it comes back with empty maps.

| here | there |
| --- | --- |
| `PolicyManager.stoppedIn` | the process is gone after some of a call's map and storage operations |
| `PolicyManager.restarted` | `LoadPersisted` of a fresh manager (`policy.go:58`) |
-/
namespace Microseg
open KernelMap Atomic

/-- A manager that is stopped after `n` operations of a program. -/
def PolicyManager.stoppedIn {α : Type} (pm : PolicyManager) (p : Op α) (n : Nat) : PolicyManager := (Prog.advance n (p, pm)).2

/-- A restart that is itself stopped after `n` operations. -/
def PolicyManager.stoppedRestart (pm : PolicyManager) (n : Nat) : PolicyManager :=
  PolicyManager.stoppedIn ⟨.empty, pm.storage⟩ loadPersisted n

/-! ## The database during a call -/

theorem addPolicyToMap_keeps (p : Policy) : Settled PolicyManager.storage (fun _ => True) (addPolicyToMap p) := by
  unfold addPolicyToMap
  split
  · exact addWildcardPolicy_settled (fun _ _ => rfl) p
  · cases hx : exactEntry p with
    | error e =>
      rw [addExactPolicy_of_error hx]
      exact .done trivial
    | ok kv =>
      obtain ⟨key, value⟩ := kv
      rw [addExactPolicy_of_ok hx]
      refine Settled.bind (A := fun _ => True) (.act fun pm => ⟨?_, trivial⟩) fun _ _ => .done trivial
      cases pm.maps.policyMap.put key value <;> rfl

theorem addPolicy_once (p : Policy) : AtMostOnce PolicyManager.storage (addPolicy p) := by
  refine .bind (addPolicyToMap_keeps p) fun r => ?_
  cases r with
  | error e => exact .never (.done trivial)
  | ok u => exact .point fun _ => .done trivial

theorem deletePolicy_once (p : Policy) : AtMostOnce PolicyManager.storage (deletePolicy p) := by
  cases hk : policyKey p with
  | error e =>
    rw [deletePolicy_of_error hk]
    exact .never (.done trivial)
  | ok key =>
    rw [deletePolicy_of_ok hk]
    refine .bind (.act fun pm => ⟨?_, trivial⟩) fun r => ?_
    · cases pm.maps.policyMap.delete key <;> rfl
    · cases r with
      | error e => exact .never (.done trivial)
      | ok u => exact .point fun _ => .done trivial

theorem restoreAll_keeps (ps : List Policy) : Settled PolicyManager.storage (fun _ => True) (restoreAll ps) := by
  induction ps with
  | nil => exact .done trivial
  | cons p ps ih => exact (addPolicyToMap_keeps p).bind fun _ _ => ih

theorem loadPersisted_keeps : Settled PolicyManager.storage (fun _ => True) loadPersisted := by
  refine Settled.bind (A := fun _ => True) (.act fun pm => ⟨rfl, trivial⟩) fun loaded _ => ?_
  cases loaded with
  | none => exact .done trivial
  | some r =>
    cases r with
    | error e => exact .done trivial
    | ok policies => exact (restoreAll_keeps policies).bind fun _ _ => .done trivial

/-! ## Coming back -/

/-- An update is refused before it does anything, or replaces the rule of its body. -/
theorem updatePolicy_cases (id : String) (body : Option PolicyRequest) :
    (∃ r, Api.updatePolicy id body = pure r) ∨ ∃ p, body = some p ∧ Api.updatePolicy id body = Api.replacePolicy p := by
  unfold Api.updatePolicy
  cases parseUint32 id with
  | error e => exact Or.inl ⟨_, rfl⟩
  | ok ruleID =>
    cases hb : shouldBindJSON body with
    | error e => exact Or.inl ⟨_, rfl⟩
    | ok p =>
      simp only
      split
      · exact Or.inl ⟨_, rfl⟩
      · exact Or.inr ⟨p, (shouldBindJSON_ok hb).1, rfl⟩

/-- A restart reads the database only. -/
theorem restarted_congr {pm pm' : PolicyManager} (h : pm.storage = pm'.storage) : pm.restarted = pm'.restarted := by
  rw [PolicyManager.restarted, PolicyManager.restarted, h]

/-- A restart that is cut short is as good as none. -/
theorem stoppedRestart_restarted (cuts : List Nat) (pm : PolicyManager) :
    (cuts.foldl PolicyManager.stoppedRestart pm).restarted = pm.restarted := by
  induction cuts generalizing pm with
  | nil => rfl
  | cons n cuts ih =>
    rw [List.foldl_cons, ih]
    exact restarted_congr (Prog.visits_advance n (c := (loadPersisted, ⟨.empty, pm.storage⟩)) (loadPersisted_keeps.visits _))

/-- The database at any moment of an update is that before it, after its deletion, or after it. -/
theorem replacePolicy_visits (p : Policy) (pm : PolicyManager) : (Api.replacePolicy p).Visits (fun t =>
    t.storage = pm.storage ∨ t.storage = ((deletePolicy p).run pm).1.storage ∨
      t.storage = ((Api.replacePolicy p).run pm).1.storage) pm := by
  delta Api.replacePolicy
  refine (deletePolicy_once p).visits_bind (fun _ => (addPolicy_once p).then fun r => ?_) pm
  cases r <;> exact .done trivial

/-- **Crash consistency**, for a manager with a storage. In any state, an agent that dies after any number of operations
of a call, and then any number of times while it restarts, comes back as it would have before the call, or as it would
have after it, or, if the call is an update, as it would have after the deletion of the old rule. -/
theorem crash_consistent (pm : PolicyManager) (c : Call) (n : Nat) (cuts : List Nat) :
    let back := (cuts.foldl PolicyManager.stoppedRestart (pm.stoppedIn c.program n)).restarted
    back = pm.restarted ∨ back = (c.program.run pm).1.restarted ∨
      ∃ id p, c = .updatePolicy id (some p) ∧ back = ((deletePolicy p).run pm).1.restarted := by
  simp only [stoppedRestart_restarted]
  have honce : AtMostOnce PolicyManager.storage c.program →
      (pm.stoppedIn c.program n).restarted = pm.restarted ∨
      (pm.stoppedIn c.program n).restarted = (c.program.run pm).1.restarted := fun h =>
    (Prog.visits_advance n (c := (c.program, pm)) (h.visits pm)).imp restarted_congr restarted_congr
  cases c with
  | addPolicy p => exact (honce ((addPolicy_once p).then fun _ => .done trivial)).imp id Or.inl
  | deletePolicy p => exact (honce ((deletePolicy_once p).then fun _ => .done trivial)).imp id Or.inl
  | updatePolicy id body =>
    rcases updatePolicy_cases id body with ⟨r, he⟩ | ⟨p, rfl, he⟩
    · refine (honce (.never ?_)).imp_right Or.inl
      rw [Call.program, he]
      exact .done trivial
    · have hprogram : (Call.updatePolicy id (some p)).program = Api.replacePolicy p >>= fun _ => pure () :=
        congrArg (· >>= fun _ => pure ()) he
      have hrun : (Prog.run (Api.replacePolicy p >>= fun _ => pure ()) pm).1 = ((Api.replacePolicy p).run pm).1 := by
        rw [Prog.run_bind, Prog.run_pure]
      have hvisits := Prog.visits_bind (f := fun _ => (pure () : Op Unit)) (replacePolicy_visits p pm)
        (Or.inr (Or.inr rfl))
      have hnow := Prog.visits_advance n (c := (Api.replacePolicy p >>= fun _ => pure (), pm)) hvisits
      rw [hprogram, hrun, PolicyManager.stoppedIn]
      rcases hnow with h | h | h
      · exact Or.inl (restarted_congr h)
      · exact Or.inr (Or.inr ⟨id, p, rfl, restarted_congr h⟩)
      · exact Or.inr (Or.inl (restarted_congr h))

end Microseg
