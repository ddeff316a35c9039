import Microseg.Install
import Microseg.Priority
import Microseg.Api
/-!
# The default rule of the agent (`src/agent/cmd/main.go:65-79`)

`runAgent` adds "default allow-all policy" as rule 1 before the API is served. It leaves the priority out,
so the rule sits in slot 0 with priority 0, and the scan gives a tie to the earlier slot: a user's
wildcard rule of priority 0, the value of an omitted JSON field, never wins against it
(`user_rule_decides_iff`).
-/
namespace Microseg
open Words KernelMap KeyedList SlotArray Atomic

/-- The default policy (`main.go:69-76`). -/
def defaultPolicy : Policy := ⟨1, "0.0.0.0/0", "0.0.0.0/0", 0, 0, "any", "allow", 0⟩

/-- What `runAgent` does with the manager (`main.go:66-79`); a failure is only logged. -/
def runAgent : Op Unit := do
  let _ ← addPolicy defaultPolicy
  return ()

/-- The manager when the API starts. -/
def PolicyManager.started : PolicyManager := (runAgent.run .fresh).1

/-- The default rule's entry: it matches everything, with the lowest priority. -/
def defaultEntry : WildcardPolicy := { WildcardPolicy.zero with ruleId := 1 }

theorem started_holds : PolicyManager.started.maps.Holds [defaultEntry] := by
  have h := @holds_addPolicy .fresh [] holds_empty defaultPolicy (by decide)
  have hplace : place [] defaultPolicy = [defaultEntry] := by decide
  rw [hplace] at h
  exact h

theorem started_policyMap (k : PolicyKey) : PolicyManager.started.maps.policyMap.lookup k = none := by
  have h := policyMap_after [defaultPolicy] .fresh (by decide)
  have hs : PolicyManager.started.maps.policyMap = PolicyManager.fresh.maps.policyMap := h
  rw [hs]; exact HashMap.lookup_empty k

/-- Placing another rule leaves the first entry alone. -/
theorem place_cons {d : WildcardPolicy} (l : List WildcardPolicy) {p : Policy} (h : p.ruleID ≠ d.ruleId) :
    ∃ l', place (d :: l) p = d :: l' ∧ l'.length ≤ l.length + (if hasWildcard p then 1 else 0) ∧
      ∀ w ∈ l', w ∈ l ∨ w.ruleId = p.ruleID := by
  cases hw : hasWildcard p with
  | false => exact ⟨l, by simp only [place, hw], by simp, fun w hwl => Or.inl hwl⟩
  | true =>
    cases he : wildcardEntry p with
    | error e => exact ⟨l, by simp only [place, hw, he], by simp, fun w hwl => Or.inl hwl⟩
    | ok w =>
      have hid := wildcardEntry_ruleId he
      simp only [place, hw, he]
      split
      · refine ⟨upsert WildcardPolicy.ruleId w l, ?_, length_upsert_le _ _ _, fun x hx => ?_⟩
        · rw [upsert, if_neg fun hd => h (hid.symm.trans hd.symm)]
        · rcases mem_of_mem_upsert hx with rfl | hx
          · exact Or.inr hid
          · exact Or.inl hx
      · exact ⟨l, rfl, by simp, fun w hwl => Or.inl hwl⟩

/-- The array is the default entry and, behind it, entries of the user's rules. -/
theorem foldl_place_cons (ps : List Policy) {d : WildcardPolicy} (l : List WildcardPolicy)
    (h : ∀ p ∈ ps, p.ruleID ≠ d.ruleId) : ∃ l', ps.foldl place (d :: l) = d :: l' ∧
      l'.length ≤ l.length + ps.countP hasWildcard ∧ ∀ w ∈ l', w ∈ l ∨ ∃ p ∈ ps, w.ruleId = p.ruleID := by
  induction ps generalizing l with
  | nil => exact ⟨l, rfl, by simp, fun w hw => Or.inl hw⟩
  | cons p ps ih =>
    obtain ⟨l₁, h1, hlen1, hmem1⟩ := place_cons l (h p (by simp))
    obtain ⟨l₂, h2, hlen2, hmem2⟩ := ih l₁ fun q hq => h q (by simp [hq])
    refine ⟨l₂, by rw [List.foldl_cons, h1, h2], by rw [List.countP_cons]; omega, fun w hw => ?_⟩
    rcases hmem2 w hw with hw | ⟨q, hq, hid⟩
    · exact (hmem1 w hw).imp_right fun hid => ⟨p, by simp, hid⟩
    · exact Or.inr ⟨q, by simp [hq], hid⟩

/-- Entries of the exact map come from the calls. -/
theorem exact_after (ps : List Policy) {pm : PolicyManager} {k : PolicyKey} {v : PolicyValue}
    (h : (pm.after ps).maps.policyMap.lookup k = some v) :
    pm.maps.policyMap.lookup k = some v ∨ ∃ p ∈ ps, v.ruleId = p.ruleID := by
  induction ps generalizing pm with
  | nil => exact Or.inl h
  | cons p ps ih =>
    rw [after_cons] at h
    rcases ih h with h | ⟨q, hq, hid⟩
    · rcases addPolicy_lookup p pm k with hsame | ⟨_, t, _, hnew⟩
      · exact Or.inl (hsame ▸ h)
      · rw [hnew] at h
        cases h; exact Or.inr ⟨p, by simp, rfl⟩
    · exact Or.inr ⟨q, by simp [hq], hid⟩

/-- The default entry matches every key. -/
theorem matches_default (key : FlowKey) : matchesWildcard key defaultEntry = true :=
  matchesWildcard_iff.2 (by simp [defaultEntry, WildcardPolicy.zero])

/-- **When the default rule gives way**: after any creations of rules with ids other than 0 and 1, at most 99 of
them wildcard rules, the lookup answers with a user's rule id iff there is an exact entry for the key or
some matching wildcard entry has a priority other than 0. -/
theorem user_rule_decides_iff {ps : List Policy} (hids : ∀ p ∈ ps, p.ruleID ≠ 0 ∧ p.ruleID ≠ 1)
    (hcount : ps.countP hasWildcard ≤ 99) (cpu : Nat) (key : FlowKey) {s : Bpf}
    (hs : s.maps = (PolicyManager.started.after ps).maps) :
    (∃ p ∈ ps, (lookupPolicyAction cpu key s).2.2 = p.ruleID) ↔
      (s.maps.policyMap.lookup key).isSome ∨ ∃ i w, MatchAt s.maps.wildcardPolicyMap key i w ∧ w.priority ≠ 0 := by
  obtain ⟨l, hl, hlen, hmem⟩ := foldl_place_cons ps (d := defaultEntry) [] fun p hp => (hids p hp).2
  have hm : s.maps.Holds (defaultEntry :: l) := by
    rw [hs, ← hl]
    exact holds_after ps started_holds fun p hp => (hids p hp).1
  have hslots : (defaultEntry :: l).length ≤ scanLimit := by
    have h100 : scanLimit = 100 := rfl
    simp only [List.length_cons, List.length_nil] at hlen ⊢
    omega
  have hzero : MatchAt s.maps.wildcardPolicyMap key 0 defaultEntry :=
    ⟨hm.lookup_of_getElem? rfl, by decide, matches_default key⟩
  rw [lookupPolicyAction_eq]
  cases hx : s.maps.policyMap.lookup key with
  | some v =>
    refine iff_of_true ?_ (Or.inl rfl)
    rw [decision_exact hx]
    rw [hs] at hx
    rcases exact_after ps hx with hstart | hv
    · rw [started_policyMap] at hstart; cases hstart
    · exact hv
  | none =>
    obtain ⟨b, hb⟩ := bestMatch_isSome (by decide) hzero.1 hzero.2.1 hzero.2.2
    obtain ⟨i, hi, hbi, hbeats⟩ := bestMatch_eq_some_iff.1 hb
    simp only [decision_scan hx, hb, answer, Option.isSome_none, Bool.false_eq_true, false_or]
    have hbl := hm.getElem?_of_lookup hbi.1 hbi.2.1
    cases i with
    | zero =>
      -- the default entry wins, so no match has a priority above its own
      cases hbl
      refine iff_of_false ?_ ?_
      · rintro ⟨p, hp, hid⟩
        exact (hids p hp).2 hid.symm
      · rintro ⟨j, w, hw, hpos⟩
        have hj : j < scanLimit := by
          have hjl := hm.getElem?_of_lookup hw.1 hw.2.1
          exact (List.getElem?_eq_some_iff.1 hjl).1.trans_le hslots
        have hprio : defaultEntry.priority.toNat = 0 := rfl
        have hle := hbeats j hj w hw
        exact hpos (BitVec.eq_of_toNat_eq (by rw [hprio] at hle; simpa using hle))
    | succ i =>
      refine iff_of_true ?_ ⟨i + 1, b, hbi, fun h0 => ?_⟩
      · rcases hmem b (List.mem_of_getElem? hbl) with hnil | hid
        · cases hnil
        · exact hid
      · have hprio : b.priority.toNat = 0 := by rw [h0]; rfl
        have hle := hbeats 0 (by decide) defaultEntry hzero
        omega

/-! ### An omitted priority -/

/-- "Deny TCP from and to 10.0.0.5, port 443", as a request without the field `priority`. -/
def denyUnranked : Policy := ⟨2, "10.0.0.5", "10.0.0.5", 0, 443, "tcp", "deny", 0⟩

/-- The maps after that request, and after the same one with priority 10. -/
def unranked : Bpf := ⟨.empty, (PolicyManager.started.after [denyUnranked]).maps, fun _ _ => 0, []⟩
def rankedTen : Bpf :=
  ⟨.empty, (PolicyManager.started.after [{ denyUnranked with priority := 10 }]).maps, fun _ _ => 0, []⟩

/-- The request is valid and answered with 201, its entry matches the flow, and the lookup answers with rule 1. -/
theorem omitted_priority_loses : validate denyUnranked = [] ∧
    ((Api.createPolicy (some denyUnranked)).run .started).2.status = 201 ∧
    (∃ w, MatchAt unranked.maps.wildcardPolicyMap toPort443.key 1 w ∧ w.ruleId = denyUnranked.ruleID) ∧
    (lookupPolicyAction 0 toPort443.key unranked).2 = (PolicyAction.allow.code, 1) := by
  refine ⟨by decide, by decide, ⟨⟨0x0500000a, 0xFFFFFFFF, 0x0500000a, 0xFFFFFFFF, 0, htons 443, 6, 1, 0, 0, 2⟩, ?_, rfl⟩,
    by decide +kernel⟩
  exact ⟨by decide, by decide, by decide⟩

theorem ranked_rule_wins :
    (∃ p ∈ [{ denyUnranked with priority := 10 }], (lookupPolicyAction 0 toPort443.key rankedTen).2.2 = p.ruleID) ↔
      (rankedTen.maps.policyMap.lookup toPort443.key).isSome ∨
        ∃ i w, MatchAt rankedTen.maps.wildcardPolicyMap toPort443.key i w ∧ w.priority ≠ 0 :=
  user_rule_decides_iff (by decide) (by decide) 0 toPort443.key rfl

end Microseg
