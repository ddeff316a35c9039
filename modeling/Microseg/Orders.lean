import Microseg.Restart
/-!
# The order of installation (`policy.go:82-201`, `:428-476`, `tc_microsegment.bpf.c:154-206`)

The slots of the wildcard array are given out in the order of the calls, and the scan breaks ties by slot.
Where priorities are distinct there is no tie: the maps hold the same policies after either order
(`Installed`), the best of the matching ones is the same in any order (`argmax_perm`), and so is every
decision (`order_independent`).
-/
namespace Microseg
open Words KernelMap KeyedList SlotArray

/-! ## Every call succeeds -/

/-- Policies that parse are all added while the maps have room for all of them. -/
theorem allAdded_of_room {done : List Policy} (ps : List Policy) {pm : PolicyManager} (h : Installed pm.maps done)
    (hd : Distinct (done ++ ps)) (hparsed : ∀ p ∈ ps, Nonempty (Parsed p)) (hfit : Fits (done ++ ps)) : AllAdded pm ps := by
  induction ps generalizing pm done with
  | nil => exact fun r hr => by cases hr
  | cons p ps ih =>
    rw [← List.singleton_append, ← List.append_assoc] at hd hfit
    obtain ⟨m', hadd, hnext⟩ := h.exists_next hd (hparsed p (by simp)) hfit
    have hm' : Installed ((addPolicy p).run pm).1.maps (done ++ [p]) := by
      rw [addPolicy_maps, hadd]; exact hnext
    exact allAdded_cons.2 ⟨addPolicy_ok_iff.2 ⟨m', hadd⟩, ih hm' hd (fun q hq => hparsed q (by simp [hq])) hfit⟩

/-! ## Either order -/

/-- The policies of the wildcard array have distinct priorities. -/
def DistinctPriorities (ps : List Policy) : Prop := ((ps.filter hasWildcard).map Policy.priority).Nodup

theorem priorities_nodup {ps : List Policy} (h : DistinctPriorities ps) (hparsed : ∀ p ∈ ps, Nonempty (Parsed p)) :
    ((wildcards ps).map fun w => w.priority.toNat).Nodup := by
  have hmap : (wildcards ps).map WildcardPolicy.priority = (ps.filter hasWildcard).map Policy.priority := by
    clear h
    induction ps with
    | nil => rfl
    | cons p ps ih =>
      have ih := ih fun q hq => hparsed q (by simp [hq])
      obtain ⟨t⟩ := hparsed p (by simp)
      cases hw : hasWildcard p with
      | true => simpa [wildcards, wildcardOf_parsed t, hw, Parsed.wildcard] using ih
      | false => simpa [wildcards, wildcardOf_parsed t, hw] using ih
  have hnodup : ((wildcards ps).map WildcardPolicy.priority).Nodup := hmap ▸ h
  have := hnodup.map (f := BitVec.toNat) fun _ _ => BitVec.eq_of_toNat_eq
  rwa [List.map_map] at this

/-- **Maps that hold the same policies** decide alike, whatever the order, when no two wildcard priorities are equal. -/
theorem Installed.decision_eq {m m' : PolicyMaps} {ps qs : List Policy} (h : Installed m ps) (h' : Installed m' qs)
    (hp : ps.Perm qs) (hlen : (wildcards ps).length ≤ scanLimit) (hprio : DistinctPriorities ps) (key : FlowKey) :
    decision m key = decision m' key := by
  by_cases hx : key ∈ (exacts ps).map Prod.fst
  · exact (h.decision_perm h' hp hlen (Or.inl hx)).symm
  · have hx' : key ∉ (exacts qs).map Prod.fst := fun hmem => hx (((exacts_perm hp).map Prod.fst).mem_iff.2 hmem)
    have hlen' : (wildcards qs).length ≤ scanLimit := (wildcards_perm hp).length_eq ▸ hlen
    have hnodup : (((wildcards ps).filter (matchesWildcard key)).map fun w => w.priority.toNat).Nodup :=
      (priorities_nodup hprio h.parsed).sublist (List.filter_sublist.map _)
    rw [h.decision_scan hlen hx, h'.decision_scan hlen' hx',
      argmax_perm ((wildcards_perm hp).filter (matchesWildcard key)) hnodup]

/-- **Order independence.** Policies that parse, with distinct non-zero rule ids, distinct exact keys, at most 10000
exact ones, and at most 100 wildcard ones of distinct priorities, are all added to empty maps in any two
orders, and the lookup then answers every flow key alike. -/
theorem order_independent {ps qs : List Policy} (hperm : ps.Perm qs) (hd : Distinct ps)
    (hprio : DistinctPriorities ps) (hparsed : ∀ p ∈ ps, Nonempty (Parsed p))
    (hexact : ps.countP (fun p => !hasWildcard p) ≤ 10000) (hwild : ps.countP hasWildcard ≤ 100)
    {pm pm' : PolicyManager} (hm : pm.maps = .empty) (hm' : pm'.maps = .empty) :
    AllAdded pm ps ∧ AllAdded pm' qs ∧
    ∀ (s s' : Bpf) (cpu : Nat) (key : FlowKey), s.maps = (pm.after ps).maps → s'.maps = (pm'.after qs).maps →
      (lookupPolicyAction cpu key s).2 = (lookupPolicyAction cpu key s').2 := by
  have hlen : (wildcards ps).length ≤ scanLimit := (length_wildcards_le ps).trans hwild
  have hfit : Fits ps := ⟨(length_exacts_le ps).trans hexact, hlen.trans (by decide)⟩
  have hempty : Installed pm.maps [] := hm ▸ installed_empty
  have hempty' : Installed pm'.maps [] := hm' ▸ installed_empty
  have hok : AllAdded pm ps := allAdded_of_room ps hempty hd hparsed hfit
  have hok' : AllAdded pm' qs :=
    allAdded_of_room qs hempty' (hd.perm hperm) (fun q hq => hparsed q (hperm.mem_iff.2 hq)) (hfit.perm hperm)
  have h : Installed (pm.after ps).maps ps := installed_after ps hempty hd hok
  have h' : Installed (pm'.after qs).maps qs := installed_after qs hempty' (hd.perm hperm) hok'
  refine ⟨hok, hok', fun s s' cpu key hs hs' => ?_⟩
  rw [lookupPolicyAction_eq, lookupPolicyAction_eq, hs, hs']
  exact h.decision_eq h' hperm hlen hprio key

/-- Two rules that overlap, with different verdicts, and an exact one. -/
def overlapping : List Policy := [denyHost, { allowHost with priority := 200 }, { denyPort443 with ruleID := 3 }]

theorem overlapping_parsed : ∀ p ∈ overlapping, Nonempty (Parsed p) := by
  intro p hp
  have hentry : ∀ p ∈ overlapping, (exactEntry p).toOption.isSome = true := by decide
  rcases parsed_cases p with h | ⟨e, he, _⟩
  · exact h
  · have hsome := hentry p hp
    rw [he] at hsome; cases hsome

theorem overlapping_in_reverse :
    AllAdded .fresh overlapping ∧ AllAdded .fresh overlapping.reverse ∧
    ∀ (s s' : Bpf) (cpu : Nat) (key : FlowKey), s.maps = (PolicyManager.fresh.after overlapping).maps →
      s'.maps = (PolicyManager.fresh.after overlapping.reverse).maps →
      (lookupPolicyAction cpu key s).2 = (lookupPolicyAction cpu key s').2 :=
  order_independent (List.reverse_perm overlapping).symm ⟨by decide, by decide, by decide⟩
    (by decide : ((overlapping.filter hasWildcard).map Policy.priority).Nodup) overlapping_parsed (by decide) (by decide) rfl rfl

end Microseg
