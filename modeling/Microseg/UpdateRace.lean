import Microseg.Traffic
import Microseg.Update
/-!
# Packets during an update

Between the `Delete` and the `Put` of an update the exact map has no entry under the new policy's key.
Packets change nothing the update can see but hit counts (`PolicyMaps.SameButHits`), so at every moment of
every interleaving the maps are those of the update running alone (`Prog.inter_zoom_visits`): the old ones,
the old ones without that key, or the new ones (`visits_replacePolicy`). A flow that the rule denies before
and after the update is let through in between exactly when its key is the one deleted and the wildcard
array alone would not deny it (`no_hole_iff`).
-/
namespace Microseg
open Words KernelMap SlotArray Atomic

/-! ## Interference -/

/-- What the control plane can tell apart. -/
def PolicyManager.Alike (pm pm' : PolicyManager) : Prop := pm.maps.SameButHits pm'.maps ∧ pm.storage = pm'.storage

/-! ## The update cannot see packets -/

theorem respects_policyMapPut (key : PolicyKey) (value : PolicyValue) :
    (policyMapPut key value).Respects PolicyManager.Alike := by
  refine Prog.respects_act fun s t ⟨hm, hst⟩ => ?_
  have hsome : (s.maps.policyMap.put key value).isSome = (t.maps.policyMap.put key value).isSome := by
    rw [Bool.eq_iff_iff, HashMap.put_isSome, HashMap.put_isSome, lookup_isSome_congr hm, size_congr hm]
  cases hs : s.maps.policyMap.put key value with
  | none =>
    have ht : t.maps.policyMap.put key value = none := by rw [hs] at hsome; simpa using hsome.symm
    simp only [ht]
    exact ⟨⟨hm, hst⟩, trivial⟩
  | some a =>
    obtain ⟨b, ht⟩ := Option.isSome_iff_exists.1 (by rw [← hsome, hs]; rfl : (t.maps.policyMap.put key value).isSome)
    simp only [ht]
    refine ⟨⟨⟨fun k => ?_, hm.wildcardPolicyMap⟩, hst⟩, trivial⟩
    simp only [HashMap.lookup_put hs, HashMap.lookup_put ht]
    split
    · rfl
    · exact hm.policyMap k

theorem respects_policyMapDelete (key : PolicyKey) : (policyMapDelete key).Respects PolicyManager.Alike := by
  refine Prog.respects_act fun s t ⟨hm, hst⟩ => ?_
  have hsome := lookup_isSome_congr hm key
  by_cases hs : (s.maps.policyMap.lookup key).isSome
  · have ht : (t.maps.policyMap.lookup key).isSome := hsome ▸ hs
    simp only [HashMap.delete, hs, ht, ↓reduceIte]
    refine ⟨⟨⟨fun k => ?_, hm.wildcardPolicyMap⟩, hst⟩, trivial⟩
    simp only [HashMap.lookup_erase]
    split
    · rfl
    · exact hm.policyMap k
  · have ht : ¬ (t.maps.policyMap.lookup key).isSome := hsome ▸ hs
    simp only [HashMap.delete, hs, ht, Bool.false_eq_true, ↓reduceIte]
    exact ⟨⟨hm, hst⟩, trivial⟩

theorem respects_wildcardPolicyMapLookup (i : Nat) : (wildcardPolicyMapLookup i).Respects PolicyManager.Alike :=
  Prog.respects_act fun _ _ h => ⟨h, by rw [h.1.wildcardPolicyMap]⟩

theorem respects_wildcardPolicyMapPut (i : Nat) (w : WildcardPolicy) :
    (wildcardPolicyMapPut i w).Respects PolicyManager.Alike := by
  refine Prog.respects_act fun s t ⟨hm, hst⟩ => ?_
  simp only [← hm.wildcardPolicyMap]
  cases s.maps.wildcardPolicyMap.put i w with
  | none => exact ⟨⟨hm, hst⟩, rfl⟩
  | some a => exact ⟨⟨⟨hm.policyMap, rfl⟩, hst⟩, rfl⟩

theorem respects_withStorage (f : SQLiteStorage → SQLiteStorage × Except Err Unit) :
    (withStorage f).Respects PolicyManager.Alike := by
  refine Prog.respects_act fun s t ⟨hm, hst⟩ => ?_
  simp only [← hst]
  cases s.storage with
  | none => exact ⟨⟨hm, hst⟩, rfl⟩
  | some a => exact ⟨⟨hm, rfl⟩, rfl⟩

theorem respects_addToSlot (p : Policy) (w : WildcardPolicy) (n i : Nat) :
    (addToSlot p w n i).Respects PolicyManager.Alike := by
  induction n generalizing i with
  | zero => trivial
  | succ n ih =>
    refine Prog.respects_bind (respects_wildcardPolicyMapLookup i) fun existing => ?_
    have hput : ∀ context, (do
        let r ← wildcardPolicyMapPut i w
        return wrapErr context r : Op (Except Err Unit)).Respects PolicyManager.Alike := fun _ =>
      Prog.respects_bind (respects_wildcardPolicyMapPut i w) fun _ => trivial
    split
    · exact hput _
    · split
      · exact hput _
      · exact ih (i + 1)

theorem respects_addPolicyToMap (p : Policy) : (addPolicyToMap p).Respects PolicyManager.Alike := by
  unfold addPolicyToMap
  split
  · cases hw : wildcardEntry p with
    | error e => rw [addWildcardPolicy_of_error hw]; trivial
    | ok w => rw [addWildcardPolicy_of_ok hw]; exact respects_addToSlot p w 1000 0
  · cases hx : exactEntry p with
    | error e => rw [addExactPolicy_of_error hx]; trivial
    | ok kv =>
      rw [addExactPolicy_of_ok hx]
      exact Prog.respects_bind (respects_policyMapPut _ _) fun _ => trivial

theorem respects_addPolicy (p : Policy) : (addPolicy p).Respects PolicyManager.Alike := by
  refine Prog.respects_bind (respects_addPolicyToMap p) fun r => ?_
  cases r with
  | error e => trivial
  | ok u => exact Prog.respects_bind (respects_withStorage _) fun _ => trivial

theorem respects_deletePolicy (p : Policy) : (deletePolicy p).Respects PolicyManager.Alike := by
  cases hk : policyKey p with
  | error e => rw [deletePolicy_of_error hk]; trivial
  | ok key =>
    rw [deletePolicy_of_ok hk]
    refine Prog.respects_bind (respects_policyMapDelete key) fun r => ?_
    cases r with
    | error e => trivial
    | ok u => exact Prog.respects_bind (respects_withStorage _) fun _ => trivial

theorem respects_replacePolicy (p : Policy) : (Api.replacePolicy p).Respects PolicyManager.Alike := by
  refine Prog.respects_bind (respects_deletePolicy p) fun _ => ?_
  refine Prog.respects_bind (respects_addPolicy p) fun r => ?_
  cases r <;> trivial

/-! ## The maps an update goes through -/

theorem policyMapDelete_maps (key : PolicyKey) (pm : PolicyManager) :
    ((policyMapDelete key).run pm).1.maps = { pm.maps with policyMap := pm.maps.policyMap.erase key } := by
  simp only [policyMapDelete, Prog.run_act, HashMap.delete]
  cases h : pm.maps.policyMap.lookup key with
  | none => rw [HashMap.erase_of_lookup_none h]; rfl
  | some v => rfl

theorem deletePolicy_erases {p : Policy} {key : PolicyKey} (hk : policyKey p = .ok key) (pm : PolicyManager) :
    ((deletePolicy p).run pm).1.maps = { pm.maps with policyMap := pm.maps.policyMap.erase key } := by
  rw [← policyMapDelete_maps, deletePolicy_maps, remove_of_ok hk]
  simp only [policyMapDelete, Prog.run_act]
  cases pm.maps.policyMap.delete key <;> rfl

/-- Without the entry of its key a flow is left to the wildcard array. -/
theorem decision_erase (m : PolicyMaps) (key k : FlowKey) :
    decision { m with policyMap := m.policyMap.erase k } key =
      if key = k then answer (bestMatch key m.wildcardPolicyMap) else decision m key := by
  split
  · next h => rw [decision_scan (by rw [HashMap.lookup_erase, if_pos h])]
  · next h => rw [decision, decision, HashMap.lookup_erase, if_neg h]

section Visits

variable {Q : PolicyMaps → Prop} {p : Policy} {pm : PolicyManager}

/-- The tail of both methods: a statement on the storage leaves the maps alone. -/
theorem visits_withStorage {f : SQLiteStorage → SQLiteStorage × Except Err Unit} {a : Except Err Unit}
    (h : Q pm.maps) : (do
      let _ ← withStorage f
      return a : Op (Except Err Unit)).Visits (fun pm => Q pm.maps) pm := by
  have hrun : Q ((withStorage f).run pm).1.maps := by rw [withStorage_run]; exact h
  exact Prog.visits_bind (Prog.visits_act h hrun) hrun

theorem visits_deletePolicy (h : Q pm.maps) (h' : Q ((deletePolicy p).run pm).1.maps) :
    (deletePolicy p).Visits (fun pm => Q pm.maps) pm := by
  cases hk : policyKey p with
  | error e => rw [deletePolicy_of_error hk]; exact h
  | ok key =>
    have hdel : Q ((policyMapDelete key).run pm).1.maps := by
      rw [policyMapDelete_maps, ← deletePolicy_erases hk]; exact h'
    rw [deletePolicy_of_ok hk]
    refine Prog.visits_bind (Prog.visits_act h hdel) ?_
    cases ((policyMapDelete key).run pm).2 with
    | error e => exact hdel
    | ok u => exact visits_withStorage hdel

/-- The slot loop reads until it writes. -/
theorem visits_addToSlot {w : WildcardPolicy} (h : Q pm.maps) (n i : Nat)
    (h' : Q ((addToSlot p w n i).run pm).1.maps) : (addToSlot p w n i).Visits (fun pm => Q pm.maps) pm := by
  induction n generalizing i with
  | zero => exact h
  | succ n ih =>
    refine Prog.visits_bind (Prog.visits_act h h) ?_
    rw [addToSlot, Prog.run_bind] at h'
    change Q (Prog.run (ite _ _ _) pm).1.maps at h'
    split_ifs at h' ⊢ with h0 h1
    · exact Prog.visits_bind (Prog.visits_act h h') h'
    · exact Prog.visits_bind (Prog.visits_act h h') h'
    · exact ih (i + 1) h'

theorem visits_addPolicyToMap (h : Q pm.maps) (h' : Q ((addPolicyToMap p).run pm).1.maps) :
    (addPolicyToMap p).Visits (fun pm => Q pm.maps) pm := by
  unfold addPolicyToMap at h' ⊢
  split_ifs at h' ⊢
  · cases hw : wildcardEntry p with
    | error e => rw [addWildcardPolicy_of_error hw]; exact h
    | ok w => rw [addWildcardPolicy_of_ok hw] at h' ⊢; exact visits_addToSlot h 1000 0 h'
  · cases hx : exactEntry p with
    | error e => rw [addExactPolicy_of_error hx]; exact h
    | ok kv => rw [addExactPolicy_of_ok hx] at h' ⊢; exact Prog.visits_bind (Prog.visits_act h h') h'

theorem visits_addPolicy (h : Q pm.maps) (h' : Q ((addPolicy p).run pm).1.maps) :
    (addPolicy p).Visits (fun pm => Q pm.maps) pm := by
  have hadd : Q ((addPolicyToMap p).run pm).1.maps := by
    rw [addPolicy_maps] at h'
    rw [addPolicyToMap_run]
    cases hm : pm.maps.add p <;> rw [hm] at h' <;> exact h'
  refine Prog.visits_bind (visits_addPolicyToMap h hadd) ?_
  cases ((addPolicyToMap p).run pm).2 with
  | error e => exact hadd
  | ok u => exact visits_withStorage hadd

/-- **An update alone** meets the maps it found, those after its delete, and those it leaves. -/
theorem visits_replacePolicy (h : Q pm.maps) (hdel : Q ((deletePolicy p).run pm).1.maps)
    (hadd : Q ((Api.replacePolicy p).run pm).1.maps) : (Api.replacePolicy p).Visits (fun pm => Q pm.maps) pm := by
  have hadd' : Q ((addPolicy p).run ((deletePolicy p).run pm).1).1.maps := by
    simp only [Api.replacePolicy, Prog.run_bind] at hadd
    cases hr : ((addPolicy p).run ((deletePolicy p).run pm).1).2 <;> rw [hr] at hadd <;> exact hadd
  refine Prog.visits_bind (visits_deletePolicy h hdel) (Prog.visits_bind (visits_addPolicy hdel hadd') ?_)
  cases ((addPolicy p).run ((deletePolicy p).run pm).1).2 <;> exact hadd'

end Visits

/-! ## The update among packets -/

/-- What goes on meanwhile: packets of any flows, and evictions by the session map. -/
inductive Traffic (s : Sys) : Sys → Prop
  | packet (x : Exec) (skb : SkBuff) : Traffic s (step s (.packet x skb))
  | evict (key : FlowKey) : Traffic s (step s (.evict key))

/-- A policy update as one of the system's calls. -/
def updateCall (id : String) (body : Option PolicyRequest) : Prog Sys Response :=
  (Api.updatePolicy id body).zoom Sys.manager fun pm s => s.setManager pm

theorem manager_setManager (pm : PolicyManager) (s : Sys) : (s.setManager pm).manager = pm := rfl

/-- A packet of the flow that finds no session is dropped, and no packet makes an ALLOW session for it. -/
def Sealed (key : FlowKey) (s : Sys) : Prop :=
  s.bpf.sessionMap.lookup key = none → ∀ x skb,
    (extractFlowKey skb = some (some key) → (tcMicrosegmentFilter x skb s.bpf).2 = tcActShot) ∧
      (step s (.packet x skb)).action key ≠ some PolicyAction.allow.code

theorem sealed_of_deny {key : FlowKey} {s : Sys} (h : (decision s.bpf.maps key).1 = PolicyAction.deny.code) :
    Sealed key s := by
  refine fun hnone x skb => ⟨fun hp => ?_, fun ha => ?_⟩
  · rw [filter_verdict hp, verdict_eq_shot, enforced, hnone]
    exact h
  · rcases action_step key s _ _ ha with hs | ⟨_, _, _, _, _, hd⟩
    · rw [Sys.action, hnone] at hs; cases hs
    · rw [h] at hd; cases hd

theorem traffic_alike {r s t : Sys} (h : r.manager.Alike s.manager) (ht : Traffic s t) :
    r.manager.Alike t.manager := by
  cases ht with
  | packet x skb => exact ⟨h.1.trans (sameButHits_filter x skb s.bpf), h.2⟩
  | evict key => exact h

section Race

variable {id : String} {body : Option PolicyRequest} {p : Policy} (hput : ValidPut id body p)

include hput

/-- **Every interleaving** of an update with traffic stays, up to hit counts, within the maps that the
update goes through alone. -/
theorem inter_maps {Q : PolicyMaps → Prop} (hQ : ∀ m m', m.SameButHits m' → Q m → Q m') {s₀ : Sys}
    (h : Q s₀.bpf.maps) (hdel : Q ((deletePolicy p).run s₀.manager).1.maps)
    (hadd : Q ((Api.updatePolicy id body).run s₀.manager).1.maps) {c : Prog Sys Response × Sys}
    (hc : Prog.Inter Traffic (updateCall id body, s₀) c) : Q c.2.bpf.maps := by
  rw [updateCall, hput.updatePolicy_eq] at hc
  rw [hput.updatePolicy_eq] at hadd
  have hsee : ∀ pm pm' : PolicyManager, pm.Alike pm' → Q pm.maps → Q pm'.maps := fun pm pm' halike =>
    hQ pm.maps pm'.maps halike.1
  have hrefl : ∀ pm : PolicyManager, pm.Alike pm := fun pm => ⟨sameButHits_refl _, rfl⟩
  have henv : ∀ r s t : Sys, r.manager.Alike s.manager → Traffic s t → r.manager.Alike t.manager :=
    fun _ _ _ => traffic_alike
  exact Prog.inter_zoom_visits manager_setManager hsee hrefl henv (respects_replacePolicy p)
    (@visits_replacePolicy Q p s₀.manager h hdel hadd) hc

/-- The first operation of an update deletes the new policy's exact key. -/
theorem step_update {key : PolicyKey} (hk : policyKey p = .ok key) (s : Sys) :
    (Prog.step (updateCall id body, s)).2 = s.setManager ((policyMapDelete key).run s.manager).1 := by
  rw [updateCall, hput.updatePolicy_eq, Api.replacePolicy, deletePolicy_of_ok hk]
  rfl

/-- **Update never opens a hole**, exactly: let the maps before a valid PUT and the maps it leaves decide a
flow by the PUT's rule with DENY. The flow stays sealed through every interleaving of the update with
packets and evictions iff the update does not delete the flow's own key, or there is nothing under that
key, or the wildcard array alone denies the flow. -/
theorem no_hole_iff {s₀ : Sys} {f : Flow}
    (hbefore : decision s₀.bpf.maps f.key = (PolicyAction.deny.code, p.ruleID))
    (hafter : decision ((Api.updatePolicy id body).run s₀.manager).1.maps f.key = (PolicyAction.deny.code, p.ruleID)) :
    (∀ c, Prog.Inter Traffic (updateCall id body, s₀) c → Sealed f.key c.2) ↔
      (policyKey p = .ok f.key → (s₀.bpf.maps.policyMap.lookup f.key).isSome →
        (answer (bestMatch f.key s₀.bpf.maps.wildcardPolicyMap)).1 = PolicyAction.deny.code) := by
  constructor
  · intro h hk _
    -- the flow has no session, its key is deleted, and then its packet comes
    have hseal := h _ (.own (.env (.refl _) (.evict f.key)))
    rw [step_update hput hk] at hseal
    have hnone : (step s₀ (.evict f.key)).bpf.sessionMap.lookup f.key = none := by
      simp only [step, HashMap.lookup_erase, ↓reduceIte]
    have hshot := (hseal hnone ⟨0, 0, true, true⟩ ⟨f.frame.bytes, 0⟩).1 (extractFlowKey_frame f 0)
    rw [filter_verdict (extractFlowKey_frame f 0), verdict_eq_shot] at hshot
    have hmaps : ((step s₀ (.evict f.key)).setManager
        ((policyMapDelete f.key).run (step s₀ (.evict f.key)).manager).1).bpf.maps =
          { s₀.bpf.maps with policyMap := s₀.bpf.maps.policyMap.erase f.key } := policyMapDelete_maps _ _
    have hno : ((step s₀ (.evict f.key)).setManager
        ((policyMapDelete f.key).run (step s₀ (.evict f.key)).manager).1).bpf.sessionMap.lookup f.key = none := hnone
    rwa [enforced, hno, hmaps, decision_erase, if_pos rfl] at hshot
  · intro h c hc
    refine sealed_of_deny (inter_maps hput (Q := fun m => (decision m f.key).1 = PolicyAction.deny.code)
      (fun m m' hm hd => by rw [← decision_congr hm]; exact hd) (by rw [hbefore]) ?_ (by rw [hafter]) hc)
    -- the maps between the delete and the put
    cases hk : policyKey p with
    | error e =>
      rw [deletePolicy_maps, remove_of_error hk]
      exact congrArg Prod.fst hbefore
    | ok k =>
      rw [deletePolicy_erases hk, decision_erase]
      split
      · next hkey =>
        subst hkey
        cases hx : s₀.bpf.maps.policyMap.lookup f.key with
        | some v => exact h hk (by rw [hx]; rfl)
        | none =>
          have hscan : decision s₀.bpf.maps f.key = _ := decision_scan hx
          exact (congrArg Prod.fst hscan).symm.trans (congrArg Prod.fst hbefore)
      · exact congrArg Prod.fst hbefore

end Race

/-! ### A changed priority -/

/-- Rule 1, a single connection that is denied, was created through the API; there are no sessions. -/
def createdSys : Sys := ⟨⟨.empty, created.maps, fun _ _ => 0, []⟩, created.storage, []⟩

/-- The connection's packet falls between the delete and the put: it passes, and so will all later ones. -/
theorem raised_priority_lets_through :
    Reachable createdSys.manager ∧ ValidPut "1" (some denyPort443Raised) denyPort443Raised ∧
    decision createdSys.bpf.maps toPort443.key = (PolicyAction.deny.code, 1) ∧
    decision ((Api.updatePolicy "1" (some denyPort443Raised)).run createdSys.manager).1.maps toPort443.key =
      (PolicyAction.deny.code, 1) ∧
    ∃ c, Prog.Inter Traffic (updateCall "1" (some denyPort443Raised), createdSys) c ∧
      c.2.bpf.sessionMap.lookup toPort443.key = none ∧
      (tcMicrosegmentFilter ⟨0, 1, true, true⟩ packet443 c.2.bpf).2 = tcActOk ∧
      (step c.2 (.packet ⟨0, 1, true, true⟩ packet443)).action toPort443.key = some PolicyAction.allow.code :=
  ⟨created_reachable, ⟨by decide, by decide⟩, by decide +kernel, by decide +kernel, _, .own (.refl _),
    by decide +kernel, by decide +kernel, by decide +kernel⟩

/-- A rule for one server, in the wildcard array. -/
def denyServer : Policy := ⟨1, "0.0.0.0/0", "10.0.0.5", 0, 443, "tcp", "deny", 100⟩

def denyServerSys : Sys := ⟨⟨.empty, (PolicyManager.fresh.after [denyServer]).maps, fun _ _ => 0, []⟩, none, []⟩

def denyServerRaised : Policy := { denyServer with priority := 200 }

theorem wildcard_rule_sealed :
    decision denyServerSys.bpf.maps toPort443.key = (PolicyAction.deny.code, 1) ∧
    ∀ c, Prog.Inter Traffic (updateCall "1" (some denyServerRaised), denyServerSys) c → Sealed toPort443.key c.2 :=
  ⟨by decide +kernel, (no_hole_iff (p := denyServerRaised) ⟨by decide, by decide⟩ (by decide +kernel)
    (by decide +kernel)).2 fun hk => absurd hk (by decide +kernel)⟩

end Microseg
