import Microseg.Denote
/-!
# Deleting what was added (`policy.go:204-254`)

`DeletePolicy` knows the exact map only: it recomputes the policy's key and deletes it there. A policy
that `AddPolicy` stored under that key is taken back exactly; one that went to the wildcard array stays,
and the call reports that the key does not exist (`delete_undoes_add_iff`).
-/
namespace Microseg
open Words KernelMap

/-- No entry of either map has the rule id. -/
structure NotInstalled (m : PolicyMaps) (r : U32) : Prop where
  exact : ∀ k v, m.policyMap.lookup k = some v → v.ruleId ≠ r
  wildcard : ∀ i w, m.wildcardPolicyMap.lookup i = some w → w.ruleId ≠ r

/-- `DeletePolicy` succeeds exactly when the exact map has the policy's key, and takes that entry out. -/
theorem remove_parsed {m : PolicyMaps} {p : Policy} (t : Parsed p) :
    m.remove p = if (m.policyMap.lookup t.key).isSome then .ok { m with policyMap := m.policyMap.erase t.key }
      else .error (.wrap "failed to delete policy from map" .keyNotExist) := by
  by_cases h : (m.policyMap.lookup t.key).isSome <;> simp [remove_of_ok t.policyKey_eq, HashMap.delete, h]

/-- Whatever the call answers, the exact map has lost the policy's key and nothing else. -/
theorem remove_maps {m : PolicyMaps} {p : Policy} (t : Parsed p) :
    (m.remove p).toOption.getD m = { m with policyMap := m.policyMap.erase t.key } := by
  rw [remove_parsed t]
  split
  · rfl
  · next h =>
    rw [HashMap.erase_of_lookup_none (by simpa using h)]; rfl

theorem deletePolicy_ok_iff {p : Policy} {pm : PolicyManager} :
    ((deletePolicy p).run pm).2 = .ok () ↔ ∃ m, pm.maps.remove p = .ok m := by
  rw [deletePolicy_run]
  cases pm.maps.remove p <;> simp

/-- **Deletion undoes addition** for a policy whose rule id is not installed and whose exact key, if it goes
to the exact map, is free: adding it and deleting it again succeeds and leaves both maps as they were
iff the policy goes to the exact map. -/
theorem delete_undoes_add_iff {pm : PolicyManager} {p : Policy} (hnew : NotInstalled pm.maps p.ruleID)
    (hkey : hasWildcard p = false → ∀ key, policyKey p = .ok key → pm.maps.policyMap.lookup key = none)
    (hok : ((addPolicy p).run pm).2 = .ok ()) :
    (((deletePolicy p).run ((addPolicy p).run pm).1).2 = .ok () ∧
      ((deletePolicy p).run ((addPolicy p).run pm).1).1.maps = pm.maps) ↔ hasWildcard p = false := by
  obtain ⟨m', hadd⟩ := addPolicy_ok_iff.1 hok
  have hm' : ((addPolicy p).run pm).1.maps = m' := by rw [addPolicy_maps, hadd]; rfl
  rw [deletePolicy_ok_iff, deletePolicy_maps, hm']
  cases hw : hasWildcard p with
  | false =>
    obtain ⟨t, hput, hwm⟩ := (add_exact_ok hw).1 hadd
    have hfree := hkey hw t.key t.policyKey_eq
    have hthere : (m'.policyMap.lookup t.key).isSome := by rw [HashMap.lookup_put hput, if_pos rfl]; rfl
    refine iff_of_true ⟨⟨_, by rw [remove_parsed t, if_pos hthere]⟩, ?_⟩ rfl
    rw [remove_maps t, HashMap.erase_put hfree hput, hwm]
  | true =>
    obtain ⟨t, i, _, hput, _⟩ := (add_wildcard_ok hw).1 hadd
    -- the slot that was written still holds the new rule id
    refine iff_of_false (fun h => ?_) Bool.noConfusion
    have hslot : pm.maps.wildcardPolicyMap.lookup i = some t.wildcard := by
      rw [← h.2, remove_maps t]
      exact (ArrayMap.lookup_put hput i).trans (if_pos rfl)
    exact hnew.wildcard i t.wildcard hslot rfl

/-- A call that adds another rule does not install this one. -/
theorem NotInstalled.add {m m' : PolicyMaps} {r : U32} (h : NotInstalled m r) {p : Policy} (hp : p.ruleID ≠ r)
    (hadd : m.add p = .ok m') : NotInstalled m' r := by
  cases hw : hasWildcard p with
  | false =>
    obtain ⟨t, hput, hwm⟩ := (add_exact_ok hw).1 hadd
    refine ⟨fun k v hv => ?_, fun i w => by rw [hwm]; exact h.wildcard i w⟩
    rw [HashMap.lookup_put hput] at hv
    split at hv
    · cases hv; exact hp
    · exact h.exact k v hv
  | true =>
    obtain ⟨t, i, _, hput, hpm⟩ := (add_wildcard_ok hw).1 hadd
    refine ⟨fun k v => by rw [hpm]; exact h.exact k v, fun j w hv => ?_⟩
    rw [ArrayMap.lookup_put hput] at hv
    split at hv
    · cases hv; exact hp
    · exact h.wildcard j w hv

theorem NotInstalled.after {pm : PolicyManager} {r : U32} (h : NotInstalled pm.maps r) {ps : List Policy}
    (hps : ∀ p ∈ ps, p.ruleID ≠ r) : NotInstalled (pm.after ps).maps r := by
  induction ps generalizing pm with
  | nil => exact h
  | cons p ps ih =>
    rw [after_cons]
    refine ih ?_ fun q hq => hps q (by simp [hq])
    rw [addPolicy_maps]
    cases hadd : pm.maps.add p with
    | error e => exact h
    | ok m' => exact h.add (hps p (by simp)) hadd

/-! ### The documented example -/

/-- The policy that the package documentation adds and deletes (`doc.go:29-37`). -/
def docExample : Policy := ⟨1001, "0.0.0.0/0", "10.0.0.5", 0, 443, "tcp", "allow", 100⟩

theorem notInstalled_empty {r : U32} (h : r ≠ 0) : NotInstalled .empty r where
  exact k v hv := by rw [PolicyMaps.empty, HashMap.lookup_empty] at hv; cases hv
  wildcard i w hw := by
    rw [PolicyMaps.empty, ArrayMap.lookup_replicate] at hw
    split at hw
    · cases hw; exact h.symm
    · cases hw

/-- It is accepted, its deletion fails, and the rule stays in force. -/
theorem docExample_not_deleted : NotInstalled PolicyManager.fresh.maps docExample.ruleID ∧
    ((addPolicy docExample).run .fresh).2 = .ok () ∧
    ((deletePolicy docExample).run ((addPolicy docExample).run .fresh).1).2 =
      .error (.wrap "failed to delete policy from map" .keyNotExist) ∧
    decision ((deletePolicy docExample).run ((addPolicy docExample).run .fresh).1).1.maps toPort443.key =
      (PolicyAction.allow.code, 1001) :=
  ⟨notInstalled_empty (by decide), by decide, by decide, by decide +kernel⟩

/-- Rule 2, which matches the same connection, and rule 3 for another one. -/
def otherRules : List Policy := [allowHost, { denyPort443 with ruleID := 3, dstPort := 8443 }]

/-- A manager with the two rules. -/
def PolicyManager.others : PolicyManager := PolicyManager.fresh.after otherRules

theorem notInstalled_others : NotInstalled PolicyManager.others.maps denyPort443.ruleID :=
  (notInstalled_empty (by decide) : NotInstalled PolicyManager.fresh.maps denyPort443.ruleID).after (by decide)

theorem flow_among_others_undone :
    (((deletePolicy denyPort443).run ((addPolicy denyPort443).run .others).1).2 = .ok () ∧
      ((deletePolicy denyPort443).run ((addPolicy denyPort443).run .others).1).1.maps = PolicyManager.others.maps) ↔
    hasWildcard denyPort443 = false :=
  delete_undoes_add_iff notInstalled_others (fun _ key hkey => by cases hkey; decide +kernel) (by decide +kernel)

end Microseg
