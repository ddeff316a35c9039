import Mathlib.Data.List.MinMax
import Mathlib.Tactic.SplitIfs
import Microseg.Types
/-!
# `matches_wildcard` and `lookup_policy_action` (`tc_microsegment.bpf.c:124-206`)

The lookup tries the exact map, then scans the first 100 slots of the wildcard array keeping the best
match and its priority. `decision` is its answer as a function of the two policy maps alone, and
`lookupPolicyAction_eq` says what the lookup returns and which counters it moves. The scan computes
the earliest candidate of highest priority (`bestMatch_eq_argmax`): Mathlib's `List.argmax` over the
occupied matching slots in slot order.
-/
namespace Microseg
open Words KernelMap

/-! ## The program -/

/-- `update_stats` (`:63`): one per-CPU counter, wrapping. -/
def updateStats (cpu : Nat) (key : StatsKey) (s : Bpf) : Bpf :=
  { s with statsMap := fun c k => if c = cpu ∧ k = key then s.statsMap c k + 1 else s.statsMap c k }

/-- `matches_wildcard` (`:124`). -/
def matchesWildcard (key : FlowKey) (wildcard : WildcardPolicy) : Bool :=
  if key.srcIp &&& wildcard.srcIpMask ≠ wildcard.srcIp &&& wildcard.srcIpMask then false
  else if key.dstIp &&& wildcard.dstIpMask ≠ wildcard.dstIp &&& wildcard.dstIpMask then false
  else if wildcard.srcPort ≠ 0 ∧ key.srcPort ≠ wildcard.srcPort then false
  else if wildcard.dstPort ≠ 0 ∧ key.dstPort ≠ wildcard.dstPort then false
  else if wildcard.protocol ≠ 0 ∧ key.protocol ≠ wildcard.protocol then false
  else true

theorem matchesWildcard_iff {key : FlowKey} {w : WildcardPolicy} : matchesWildcard key w = true ↔
    key.srcIp &&& w.srcIpMask = w.srcIp &&& w.srcIpMask ∧ key.dstIp &&& w.dstIpMask = w.dstIp &&& w.dstIpMask ∧
      (w.srcPort = 0 ∨ key.srcPort = w.srcPort) ∧ (w.dstPort = 0 ∨ key.dstPort = w.dstPort) ∧
      (w.protocol = 0 ∨ key.protocol = w.protocol) := by
  unfold matchesWildcard
  split_ifs with h1 h2 h3 h4 h5
  · exact iff_of_false nofun fun h => h1 h.1
  · exact iff_of_false nofun fun h => h2 h.2.1
  · exact iff_of_false nofun fun h => h.2.2.1.elim h3.1 h3.2
  · exact iff_of_false nofun fun h => h.2.2.2.1.elim h4.1 h4.2
  · exact iff_of_false nofun fun h => h.2.2.2.2.elim h5.1 h5.2
  · refine iff_of_true rfl ⟨not_not.1 h1, not_not.1 h2, ?_, ?_, ?_⟩
    · exact or_iff_not_imp_left.2 fun h => not_not.1 fun h' => h3 ⟨h, h'⟩
    · exact or_iff_not_imp_left.2 fun h => not_not.1 fun h' => h4 ⟨h, h'⟩
    · exact or_iff_not_imp_left.2 fun h => not_not.1 fun h' => h5 ⟨h, h'⟩

/-- The bound of the unrolled loop (`:174`). -/
def scanLimit : Nat := 100

/-- What the loop carries: `best_match` and `best_priority`. -/
abbrev Best := Option WildcardPolicy × U16

/-- The body of the loop for slot `i` (`:179-194`). -/
def scanSlot (key : FlowKey) (m : ArrayMap WildcardPolicy maxEntriesWildcardPolicy) (i : Nat) (best : Best) : Best :=
  match m.lookup i with
  | none => best
  | some wildcard =>
    if wildcard.ruleId = 0 then best
    else if matchesWildcard key wildcard then
      if best.1.isNone ∨ wildcard.priority > best.2 then (some wildcard, wildcard.priority) else best
    else best

/-- The loop (`:174-195`), over the indices that are left. -/
def scan (key : FlowKey) (m : ArrayMap WildcardPolicy maxEntriesWildcardPolicy) : List Nat → Best → Best
  | [], best => best
  | i :: is, best => if i ≥ maxEntriesWildcardPolicy then best else scan key m is (scanSlot key m i best)

def bestMatch (key : FlowKey) (m : ArrayMap WildcardPolicy maxEntriesWildcardPolicy) : Option WildcardPolicy :=
  (scan key m (List.range scanLimit) (none, 0)).1

/-- `lookup_policy_action` (`:154`): the new state, the action and `*rule_id`. -/
def lookupPolicyAction (cpu : Nat) (key : FlowKey) (s : Bpf) : Bpf × U8 × U32 :=
  match s.maps.policyMap.lookup key with
  | some policy =>
    let s := { s with maps.policyMap := s.maps.policyMap.modify key fun v => { v with hitCount := v.hitCount + 1 } }
    (updateStats cpu .policyHits s, policy.action, policy.ruleId)
  | none =>
    match bestMatch key s.maps.wildcardPolicyMap with
    | some best => (updateStats cpu .policyHits s, best.action, best.ruleId)
    | none => (updateStats cpu .policyMisses s, PolicyAction.allow.code, 0)

/-! ## The decision -/

/-- Action and rule id the two maps give a key. -/
def decision (m : PolicyMaps) (key : FlowKey) : U8 × U32 :=
  match m.policyMap.lookup key with
  | some policy => (policy.action, policy.ruleId)
  | none =>
    match bestMatch key m.wildcardPolicyMap with
    | some best => (best.action, best.ruleId)
    | none => (PolicyAction.allow.code, 0)

theorem decision_exact {m : PolicyMaps} {key : FlowKey} {v : PolicyValue} (h : m.policyMap.lookup key = some v) :
    decision m key = (v.action, v.ruleId) := by
  simp [decision, h]

/-- What the scan's result means. -/
def answer : Option WildcardPolicy → U8 × U32
  | some best => (best.action, best.ruleId)
  | none => (PolicyAction.allow.code, 0)

theorem decision_scan {m : PolicyMaps} {key : FlowKey} (h : m.policyMap.lookup key = none) :
    decision m key = answer (bestMatch key m.wildcardPolicyMap) := by
  simp only [decision, h]
  cases bestMatch key m.wildcardPolicyMap <;> rfl

/-- The state after a lookup: a hit of the exact map moves that entry's `hit_count`. -/
def countHit (m : PolicyMaps) (key : FlowKey) : PolicyMaps :=
  { m with policyMap := m.policyMap.modify key fun v => { v with hitCount := v.hitCount + 1 } }

def Hit (m : PolicyMaps) (key : FlowKey) : Prop :=
  (m.policyMap.lookup key).isSome ∨ (bestMatch key m.wildcardPolicyMap).isSome

instance (m : PolicyMaps) (key : FlowKey) : Decidable (Hit m key) := inferInstanceAs (Decidable (_ ∨ _))

theorem countHit_of_none {m : PolicyMaps} {key : FlowKey} (h : m.policyMap.lookup key = none) :
    countHit m key = m := by
  have he : m.policyMap.modify key (fun v => { v with hitCount := v.hitCount + 1 }) = m.policyMap := by
    apply HashMap.ext_lookup
    intro x
    rw [HashMap.lookup_modify, h]
    split
    · next hx => rw [hx, h]; rfl
    · rfl
  rw [countHit, he]

/-- **`lookup_policy_action`** returns the decision of the maps, counts one hit or one miss, and
otherwise touches at most the hit count of the entry it found. -/
theorem lookupPolicyAction_eq (cpu : Nat) (key : FlowKey) (s : Bpf) :
    lookupPolicyAction cpu key s =
      (updateStats cpu (if Hit s.maps key then .policyHits else .policyMisses)
        { s with maps := countHit s.maps key }, decision s.maps key) := by
  unfold lookupPolicyAction
  cases hx : s.maps.policyMap.lookup key with
  | some v => simp [Hit, hx, decision, countHit]
  | none =>
    rw [countHit_of_none hx]
    cases hb : bestMatch key s.maps.wildcardPolicyMap <;> simp [Hit, hx, hb, decision]

/-! ## The scan is an argmax -/

/-- Slots the scan considers, in order: occupied and matching. -/
def candidates (key : FlowKey) (m : ArrayMap WildcardPolicy maxEntriesWildcardPolicy) (is : List Nat) :
    List WildcardPolicy :=
  (is.filterMap m.lookup).filter fun w => w.ruleId ≠ 0 ∧ matchesWildcard key w = true

theorem mem_candidates {key : FlowKey} {m : ArrayMap WildcardPolicy maxEntriesWildcardPolicy} {is : List Nat}
    {w : WildcardPolicy} :
    w ∈ candidates key m is ↔ ∃ i ∈ is, m.lookup i = some w ∧ w.ruleId ≠ 0 ∧ matchesWildcard key w = true := by
  simp only [candidates, List.mem_filter, List.mem_filterMap, decide_eq_true_eq]
  constructor
  · rintro ⟨⟨i, hi, hw⟩, h⟩; exact ⟨i, hi, hw, h⟩
  · rintro ⟨i, hi, hw, h⟩; exact ⟨⟨i, hi, hw⟩, h⟩

/-- `best_priority` is the priority of `best_match`. -/
def Best.Ok (b : Best) : Prop := ∀ w, b.1 = some w → b.2 = w.priority

theorem scan_eq_foldl (key : FlowKey) (m : ArrayMap WildcardPolicy maxEntriesWildcardPolicy) :
    ∀ (is : List Nat) (b : Best), (∀ i ∈ is, i < maxEntriesWildcardPolicy) → b.Ok →
      (scan key m is b).1 =
        (candidates key m is).foldl (List.argAux fun x y => y.priority.toNat < x.priority.toNat) b.1
  | [], _, _, _ => rfl
  | i :: is, b, hi, hb => by
    have hlt : ¬ i ≥ maxEntriesWildcardPolicy := by have := hi i (by simp); omega
    have ih := fun b' hb' => scan_eq_foldl key m is b' (fun j hj => hi j (by simp [hj])) hb'
    obtain ⟨w, hw⟩ := m.exists_lookup (Nat.lt_of_not_le hlt)
    simp only [scan, hlt, ↓reduceIte]
    by_cases hc : w.ruleId ≠ 0 ∧ matchesWildcard key w = true
    · have h0 : ¬ w.ruleId = 0#32 := hc.1
      have hm := hc.2
      have hcand : candidates key m (i :: is) = w :: candidates key m is := by simp [candidates, hw, h0, hm]
      rw [hcand, List.foldl_cons]
      have hslot : (scanSlot key m i b).Ok ∧
          (scanSlot key m i b).1 = List.argAux (fun x y => y.priority.toNat < x.priority.toNat) b.1 w := by
        obtain ⟨o, bp⟩ := b
        cases o with
        | none => simp [scanSlot, hw, h0, hm, List.argAux, Best.Ok]
        | some c =>
          have hbp : bp = c.priority := hb c rfl
          subst hbp
          by_cases hgt : w.priority > c.priority
          · have h' : c.priority.toNat < w.priority.toNat := hgt
            simp [scanSlot, hw, h0, hm, List.argAux, Best.Ok, h', hgt]
          · have h' : ¬ c.priority.toNat < w.priority.toNat := hgt
            simp [scanSlot, hw, h0, hm, List.argAux, Best.Ok, h', hgt]
      rw [ih _ hslot.1, hslot.2]
    · have hcand : candidates key m (i :: is) = candidates key m is := by
        simp only [candidates, List.filterMap_cons, hw, List.filter_cons, hc, decide_false, Bool.false_eq_true,
          ↓reduceIte]
      have hslot : scanSlot key m i b = b := by
        simp only [not_and_or, not_not] at hc
        rcases hc with hc | hc <;> simp [scanSlot, hw, hc]
      rw [hcand, hslot, ih b hb]

/-- **The scan** picks the earliest of the matching occupied slots below 100 with the highest priority. -/
theorem bestMatch_eq_argmax (key : FlowKey) (m : ArrayMap WildcardPolicy maxEntriesWildcardPolicy) :
    bestMatch key m = (candidates key m (List.range scanLimit)).argmax fun w => w.priority.toNat :=
  scan_eq_foldl key m _ (none, 0) (fun i hi => by
    have h100 : scanLimit < maxEntriesWildcardPolicy := by decide
    exact (List.mem_range.1 hi).trans h100) (fun w h => by cases h)

theorem bestMatch_mem {key : FlowKey} {m : ArrayMap WildcardPolicy maxEntriesWildcardPolicy} {w : WildcardPolicy}
    (h : bestMatch key m = some w) :
    ∃ i < scanLimit, m.lookup i = some w ∧ w.ruleId ≠ 0 ∧ matchesWildcard key w = true := by
  rw [bestMatch_eq_argmax] at h
  obtain ⟨i, hi, hw⟩ := mem_candidates.1 (List.argmax_mem h)
  exact ⟨i, List.mem_range.1 hi, hw⟩

theorem bestMatch_isSome {key : FlowKey} {m : ArrayMap WildcardPolicy maxEntriesWildcardPolicy} {i : Nat}
    {w : WildcardPolicy} (hi : i < scanLimit) (hw : m.lookup i = some w) (h0 : w.ruleId ≠ 0)
    (hm : matchesWildcard key w = true) : ∃ b, bestMatch key m = some b := by
  have hmem : w ∈ candidates key m (List.range scanLimit) :=
    mem_candidates.2 ⟨i, List.mem_range.2 hi, hw, h0, hm⟩
  cases hb : bestMatch key m with
  | some b => exact ⟨b, rfl⟩
  | none =>
    rw [bestMatch_eq_argmax, List.argmax_eq_none] at hb
    rw [hb] at hmem; cases hmem

/-- The only matching entry among the scanned slots is the best match. -/
theorem bestMatch_of_unique {key : FlowKey} {m : ArrayMap WildcardPolicy maxEntriesWildcardPolicy} {i : Nat}
    {w : WildcardPolicy} (hi : i < scanLimit) (hw : m.lookup i = some w) (h0 : w.ruleId ≠ 0)
    (hm : matchesWildcard key w = true)
    (huniq : ∀ j < scanLimit, ∀ w', m.lookup j = some w' → w'.ruleId ≠ 0 → matchesWildcard key w' = true → w' = w) :
    bestMatch key m = some w := by
  obtain ⟨b, hb⟩ := bestMatch_isSome hi hw h0 hm
  obtain ⟨j, hj, hjb, hb0, hbm⟩ := bestMatch_mem hb
  rw [hb, huniq j hj b hjb hb0 hbm]

end Microseg
