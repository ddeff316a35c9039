import Microseg.Lookup
/-!
# Priorities across the two maps (`tc_microsegment.bpf.c:151-206`)

The scan picks the highest priority, the earliest slot among equals (`bestMatch_eq_some_iff`). The exact
map stands in front of it and is not compared: "First, try exact match (fast path, O(1))" (`:155`). So an
exact entry decides its flow whatever its priority, and the lookup is the maximum over both maps exactly
where no scanned match has a higher priority than the exact entry (`lookup_priority`).
-/
namespace Microseg
open Words KernelMap

/-! ## The winner of the scan -/

/-- Slot `i` holds an entry in use that matches the key. -/
def MatchAt (m : ArrayMap WildcardPolicy maxEntriesWildcardPolicy) (key : FlowKey) (i : Nat) (w : WildcardPolicy) : Prop :=
  m.lookup i = some w ∧ w.ruleId ≠ 0 ∧ matchesWildcard key w = true

/-- No match of the first `n` slots has a higher priority than `w`, and none before slot `i` has the same. -/
def Beats (m : ArrayMap WildcardPolicy maxEntriesWildcardPolicy) (key : FlowKey) (n i : Nat) (w : WildcardPolicy) : Prop :=
  ∀ j < n, ∀ w', MatchAt m key j w' →
    w'.priority.toNat < w.priority.toNat ∨ (i ≤ j ∧ w'.priority.toNat = w.priority.toNat)

variable {m : ArrayMap WildcardPolicy maxEntriesWildcardPolicy} {key : FlowKey}

theorem mem_candidates_range {n : Nat} {w : WildcardPolicy} :
    w ∈ candidates key m (List.range n) ↔ ∃ i < n, MatchAt m key i w := by
  simp only [mem_candidates, List.mem_range, MatchAt]

/-- One more slot adds its entry to the candidates, if it is one. -/
theorem candidates_range_succ (n : Nat) : candidates key m (List.range (n + 1)) =
    candidates key m (List.range n) ++ candidates key m [n] := by
  rw [List.range_succ, candidates, List.filterMap_append, List.filter_append]; rfl

theorem candidates_singleton (n : Nat) : candidates key m [n] = [] ∨ ∃ w, MatchAt m key n w ∧ candidates key m [n] = [w] := by
  cases hl : m.lookup n with
  | none => exact Or.inl (by simp [candidates, hl])
  | some w =>
    by_cases hc : w.ruleId ≠ 0 ∧ matchesWildcard key w = true
    · have h0 : ¬ w.ruleId = 0#32 := hc.1
      exact Or.inr ⟨w, ⟨hl, hc⟩, by simp [candidates, hl, h0, hc.2]⟩
    · refine Or.inl ?_
      simp only [candidates, List.filterMap_cons, hl, List.filterMap_nil, List.filter_cons, hc, decide_false,
        Bool.false_eq_true, ↓reduceIte, List.filter_nil]

theorem matchAt_singleton {n : Nat} {w : WildcardPolicy} : w ∈ candidates key m [n] ↔ MatchAt m key n w := by
  simp only [mem_candidates, List.mem_singleton, exists_eq_left, MatchAt]

/-- A new slot joins the comparison at the end. -/
theorem Beats.succ {n i : Nat} {w : WildcardPolicy} (h : Beats m key n i w) (hi : i ≤ n)
    (hn : ∀ w', MatchAt m key n w' → w'.priority.toNat ≤ w.priority.toNat) : Beats m key (n + 1) i w := by
  intro j hj w' hw'
  rcases Nat.lt_succ_iff_lt_or_eq.1 hj with hj | rfl
  · exact h j hj w' hw'
  · rcases Nat.lt_or_eq_of_le (hn w' hw') with hlt | heq
    · exact Or.inl hlt
    · exact Or.inr ⟨hi, heq⟩

/-- The best of the first `n` slots beats them all. -/
theorem beats_of_argmax (n : Nat) {w : WildcardPolicy}
    (h : (candidates key m (List.range n)).argmax (fun w => w.priority.toNat) = some w) :
    ∃ i < n, MatchAt m key i w ∧ Beats m key n i w := by
  induction n generalizing w with
  | zero => cases h
  | succ n ih =>
    rw [candidates_range_succ] at h
    rcases @candidates_singleton m key n with hn | ⟨x, hx, hn⟩
    · -- the new slot is no candidate
      rw [hn, List.append_nil] at h
      obtain ⟨i, hi, hw, hb⟩ := ih h
      refine ⟨i, hi.trans (Nat.lt_succ_self n), hw, hb.succ hi.le fun w' hw' => ?_⟩
      have hmem := matchAt_singleton.2 hw'
      rw [hn] at hmem; cases hmem
    · rw [hn, List.argmax_concat] at h
      cases hbest : (candidates key m (List.range n)).argmax fun w => w.priority.toNat with
      | none =>
        rw [hbest] at h
        cases h
        have hempty := List.argmax_eq_none.1 hbest
        refine ⟨n, Nat.lt_succ_self n, hx, fun j hj w' hw' => ?_⟩
        rcases Nat.lt_succ_iff_lt_or_eq.1 hj with hj | rfl
        · have hmem := mem_candidates_range.2 ⟨j, hj, hw'⟩
          rw [hempty] at hmem; cases hmem
        · exact Or.inr ⟨le_rfl, by rw [Option.some.inj (hw'.1.symm.trans hx.1)]⟩
      | some c =>
        rw [hbest] at h
        have hmax : ∀ w' ∈ candidates key m (List.range n), w'.priority.toNat ≤ c.priority.toNat := fun w' hw' =>
          List.le_of_mem_argmax (f := fun w : WildcardPolicy => w.priority.toNat) hw' hbest
        by_cases hlt : c.priority.toNat < x.priority.toNat
        · -- it takes over
          simp only [hlt, ↓reduceIte, Option.some.injEq] at h
          subst h
          refine ⟨n, Nat.lt_succ_self n, hx, fun j hj w' hw' => ?_⟩
          rcases Nat.lt_succ_iff_lt_or_eq.1 hj with hj | rfl
          · have hle := hmax w' (mem_candidates_range.2 ⟨j, hj, hw'⟩)
            exact Or.inl (hle.trans_lt hlt)
          · exact Or.inr ⟨le_rfl, by rw [Option.some.inj (hw'.1.symm.trans hx.1)]⟩
        · simp only [hlt, ↓reduceIte, Option.some.injEq] at h
          subst h
          obtain ⟨i, hi, hw, hb⟩ := ih hbest
          refine ⟨i, hi.trans (Nat.lt_succ_self n), hw, hb.succ hi.le fun w' hw' => ?_⟩
          rw [Option.some.inj (hw'.1.symm.trans hx.1)]
          exact Nat.le_of_not_lt hlt

/-- **The scan's answer** is the match that beats every other one below slot 100. -/
theorem bestMatch_eq_some_iff {w : WildcardPolicy} :
    bestMatch key m = some w ↔ ∃ i < scanLimit, MatchAt m key i w ∧ Beats m key scanLimit i w := by
  have hsound : ∀ {w}, bestMatch key m = some w → ∃ i < scanLimit, MatchAt m key i w ∧ Beats m key scanLimit i w :=
    fun h => beats_of_argmax scanLimit (by rwa [bestMatch_eq_argmax] at h)
  refine ⟨hsound, fun ⟨i, hi, hw, hb⟩ => ?_⟩
  obtain ⟨b, hbest⟩ := bestMatch_isSome hi hw.1 hw.2.1 hw.2.2
  obtain ⟨j, hj, hbj, hbb⟩ := hsound hbest
  -- two matches that beat each other are in one slot
  have h1 := hb j hj b hbj
  have h2 := hbb i hi w hw
  have hij : i = j := by omega
  subst hij
  rw [hbest, Option.some.inj (hbj.1.symm.trans hw.1)]

/-- The answer depends on the matches only. -/
theorem bestMatch_congr {m' : ArrayMap WildcardPolicy maxEntriesWildcardPolicy}
    (h : ∀ j w, MatchAt m key j w ↔ MatchAt m' key j w) : bestMatch key m = bestMatch key m' := by
  apply Option.ext
  intro w
  rw [bestMatch_eq_some_iff, bestMatch_eq_some_iff]
  simp only [Beats, h]

/-- The decision depends on the key's exact entry and the matches only. -/
theorem decision_eq_of_matches {m m' : PolicyMaps} {key : FlowKey}
    (hx : m'.policyMap.lookup key = m.policyMap.lookup key)
    (hm : ∀ j w, MatchAt m'.wildcardPolicyMap key j w ↔ MatchAt m.wildcardPolicyMap key j w) :
    decision m' key = decision m key := by
  rw [decision, decision, hx, bestMatch_congr hm]

/-! ## The lookup, case by case -/

/-- `s'` is `s` with one more in a counter of the CPU, and possibly another `policy_map`. -/
structure Counts (cpu : Nat) (k : StatsKey) (s s' : Bpf) : Prop where
  statsMap : ∀ c j, s'.statsMap c j = if c = cpu ∧ j = k then s.statsMap c j + 1 else s.statsMap c j
  wildcardPolicyMap : s'.maps.wildcardPolicyMap = s.maps.wildcardPolicyMap
  sessionMap : s'.sessionMap = s.sessionMap
  flowEvents : s'.flowEvents = s.flowEvents

theorem counts_lookup (cpu : Nat) (key : FlowKey) (s : Bpf) :
    Counts cpu (if Hit s.maps key then .policyHits else .policyMisses) s (lookupPolicyAction cpu key s).1 := by
  rw [lookupPolicyAction_eq]
  exact ⟨fun _ _ => rfl, rfl, rfl, rfl⟩

/-- Nothing matches exactly when the scan finds nothing. -/
theorem bestMatch_eq_none_iff : bestMatch key m = none ↔ ∀ i < scanLimit, ∀ w, ¬ MatchAt m key i w := by
  constructor
  · intro hb i hi w hw
    obtain ⟨b, hbest⟩ := bestMatch_isSome hi hw.1 hw.2.1 hw.2.2
    rw [hb] at hbest; cases hbest
  · intro hno
    cases hb : bestMatch key m with
    | none => rfl
    | some b =>
      obtain ⟨i, hi, hw⟩ := bestMatch_mem hb
      exact absurd hw (hno i hi b)

/-- **Exact, then the maximum.** For every content of the two maps and every key, the lookup returns the exact
entry under the key and counts a hit in it; without one, the entry of the lowest slot below 100 among the
occupied matching ones of maximal priority; without any, ALLOW with rule id 0. It counts one hit, or one
miss in the last case, and changes nothing else. -/
theorem lookup_exact_then_argmax (cpu : Nat) (key : FlowKey) (s : Bpf) :
    (∃ v, s.maps.policyMap.lookup key = some v ∧ (lookupPolicyAction cpu key s).2 = (v.action, v.ruleId) ∧
      Counts cpu .policyHits s (lookupPolicyAction cpu key s).1 ∧
      ∀ k, (lookupPolicyAction cpu key s).1.maps.policyMap.lookup k =
        if k = key then some { v with hitCount := v.hitCount + 1 } else s.maps.policyMap.lookup k) ∨
    (s.maps.policyMap.lookup key = none ∧ Counts cpu .policyHits s (lookupPolicyAction cpu key s).1 ∧
      (lookupPolicyAction cpu key s).1.maps.policyMap = s.maps.policyMap ∧
      ∃ i w, i < 100 ∧ MatchAt s.maps.wildcardPolicyMap key i w ∧ Beats s.maps.wildcardPolicyMap key 100 i w ∧
        (lookupPolicyAction cpu key s).2 = (w.action, w.ruleId)) ∨
    (s.maps.policyMap.lookup key = none ∧ Counts cpu .policyMisses s (lookupPolicyAction cpu key s).1 ∧
      (lookupPolicyAction cpu key s).1.maps.policyMap = s.maps.policyMap ∧
      (∀ i < 100, ∀ w, ¬ MatchAt s.maps.wildcardPolicyMap key i w) ∧
      (lookupPolicyAction cpu key s).2 = (PolicyAction.allow.code, 0)) := by
  have hcounts := counts_lookup cpu key s
  have hanswer : (lookupPolicyAction cpu key s).2 = decision s.maps key := by rw [lookupPolicyAction_eq]
  have hmaps : (lookupPolicyAction cpu key s).1.maps = countHit s.maps key := by rw [lookupPolicyAction_eq]; rfl
  cases hx : s.maps.policyMap.lookup key with
  | some v =>
    have hhit : Hit s.maps key := Or.inl (by rw [hx]; rfl)
    rw [if_pos hhit] at hcounts
    refine Or.inl ⟨v, rfl, hanswer.trans (decision_exact hx), hcounts, fun k => ?_⟩
    rw [hmaps, countHit, HashMap.lookup_modify, hx]; rfl
  | none =>
    have hsame : (lookupPolicyAction cpu key s).1.maps.policyMap = s.maps.policyMap := by
      rw [hmaps, countHit_of_none hx]
    rw [decision_scan hx] at hanswer
    cases hb : bestMatch key s.maps.wildcardPolicyMap with
    | some w =>
      have hhit : Hit s.maps key := Or.inr (by rw [hb]; rfl)
      rw [if_pos hhit] at hcounts
      obtain ⟨i, hi, hw, hbeats⟩ := bestMatch_eq_some_iff.1 hb
      rw [hb] at hanswer
      exact Or.inr (Or.inl ⟨rfl, hcounts, hsame, i, w, hi, hw, hbeats, hanswer⟩)
    | none =>
      have hmiss : ¬ Hit s.maps key := by simp [Hit, hx, hb]
      rw [if_neg hmiss] at hcounts
      rw [hb] at hanswer
      exact Or.inr (Or.inr ⟨rfl, hcounts, hsame, bestMatch_eq_none_iff.1 hb, hanswer⟩)

/-! ## Both maps -/

/-- An entry as the comparison sees it. -/
structure Ranked where
  action : U8
  ruleId : U32
  priority : U16

/-- The matching entries of both maps: the exact entry under the key, and the matches of the scanned slots. -/
inductive Candidate (m : PolicyMaps) (key : FlowKey) : Ranked → Prop
  | exact {v : PolicyValue} : m.policyMap.lookup key = some v → Candidate m key ⟨v.action, v.ruleId, v.priority⟩
  | scanned {i : Nat} {w : WildcardPolicy} : i < scanLimit → MatchAt m.wildcardPolicyMap key i w →
      Candidate m key ⟨w.action, w.ruleId, w.priority⟩

/-- "Higher = more important" (`common_types.h:97`): the answer is that of a matching entry of maximal priority,
and ALLOW with rule id 0 when nothing matches. -/
structure FollowsPriority (m : PolicyMaps) (key : FlowKey) (a : U8 × U32) : Prop where
  matched : ∀ r₀, Candidate m key r₀ → ∃ r, Candidate m key r ∧
    (∀ r', Candidate m key r' → r'.priority.toNat ≤ r.priority.toNat) ∧ a = (r.action, r.ruleId)
  unmatched : (∀ r, ¬ Candidate m key r) → a = (PolicyAction.allow.code, 0)

/-- No match of the scanned slots is more important than the exact entry, if there is one. -/
def ExactOutranks (m : PolicyMaps) (key : FlowKey) : Prop :=
  ∀ v, m.policyMap.lookup key = some v → ∀ i < scanLimit, ∀ w, MatchAt m.wildcardPolicyMap key i w →
    w.priority.toNat ≤ v.priority.toNat

theorem decision_followsPriority {m : PolicyMaps} {key : FlowKey} (h : ExactOutranks m key) :
    FollowsPriority m key (decision m key) := by
  cases hx : m.policyMap.lookup key with
  | some v =>
    rw [decision_exact hx]
    refine ⟨fun _ _ => ⟨_, .exact hx, fun r' hr' => ?_, rfl⟩, fun hno => absurd (.exact hx) (hno _)⟩
    cases hr' with
    | exact hv => rw [Option.some.inj (hv.symm.trans hx)]
    | scanned hi hw => exact h v hx _ hi _ hw
  | none =>
    rw [decision_scan hx]
    cases hb : bestMatch key m.wildcardPolicyMap with
    | some w =>
      obtain ⟨i, hi, hw, hbeats⟩ := bestMatch_eq_some_iff.1 hb
      refine ⟨fun _ _ => ⟨_, .scanned hi hw, fun r' hr' => ?_, rfl⟩, fun hno => absurd (.scanned hi hw) (hno _)⟩
      cases hr' with
      | exact hv => rw [hx] at hv; cases hv
      | scanned hj hw' =>
        rcases hbeats _ hj _ hw' with hlt | ⟨_, heq⟩
        · exact hlt.le
        · exact heq.le
    | none =>
      refine ⟨fun r₀ hr₀ => ?_, fun _ => rfl⟩
      cases hr₀ with
      | exact hv => rw [hx] at hv; cases hv
      | scanned hi hw => exact absurd hw (bestMatch_eq_none_iff.1 hb _ hi _)

/-! ## One rule in either map -/

/-- The wildcard entry of a fully specified rule. -/
def fullySpecified (key : FlowKey) (v : PolicyValue) : WildcardPolicy where
  srcIp := key.srcIp
  srcIpMask := 0xFFFFFFFF
  dstIp := key.dstIp
  dstIpMask := 0xFFFFFFFF
  srcPort := key.srcPort
  dstPort := key.dstPort
  protocol := key.protocol
  action := v.action
  logEnabled := v.logEnabled
  priority := v.priority
  ruleId := v.ruleId

/-- From `m`, the rule `v` for the flow of `key` is stored in the exact map (`m₁`) or in the free scanned slot
`i` (`m₂`). -/
structure StoredEither (m m₁ m₂ : PolicyMaps) (key : FlowKey) (v : PolicyValue) (i : Nat) : Prop where
  specified : key.srcPort ≠ 0 ∧ key.dstPort ≠ 0 ∧ key.protocol ≠ 0 ∧ key.pad = 0
  rule : v.ruleId ≠ 0
  keyFree : m.policyMap.lookup key = none
  exact : m.policyMap.put key v = some m₁.policyMap
  exactRest : m₁.wildcardPolicyMap = m.wildcardPolicyMap
  scannedSlot : i < scanLimit
  slotFree : ∀ w, m.wildcardPolicyMap.lookup i = some w → w.ruleId = 0
  scanned : m.wildcardPolicyMap.put i (fullySpecified key v) = some m₂.wildcardPolicyMap
  scannedRest : m₂.policyMap = m.policyMap

theorem matches_fullySpecified {key k : FlowKey} {v : PolicyValue} (h : key.srcPort ≠ 0 ∧ key.dstPort ≠ 0 ∧
    key.protocol ≠ 0 ∧ key.pad = 0) (hk : k.pad = 0) : matchesWildcard k (fullySpecified key v) = true ↔ k = key := by
  obtain ⟨h1, h2, h3, h4⟩ := h
  have hall : ∀ x : U32, x &&& 0xFFFFFFFF = x := fun x => BitVec.and_allOnes
  obtain ⟨a, b, c, d, e, f⟩ := k
  obtain ⟨a', b', c', d', e', f'⟩ := key
  simp only [matchesWildcard_iff, fullySpecified, hall, FlowKey.mk.injEq] at *
  subst hk h4
  simp only [h1, h2, h3, false_or, and_true]

namespace StoredEither

variable {m m₁ m₂ : PolicyMaps} {v : PolicyValue} {i : Nat} (h : StoredEither m m₁ m₂ key v i)

include h

theorem decision_exact_key : decision m₁ key = (v.action, v.ruleId) :=
  decision_exact (by rw [HashMap.lookup_put h.exact, if_pos rfl])

/-- The matches of a flow with the rule in the array. -/
theorem matchAt_scanned {k : FlowKey} (hpad : k.pad = 0) {j : Nat} {w : WildcardPolicy} :
    MatchAt m₂.wildcardPolicyMap k j w ↔
      (j = i ∧ k = key ∧ w = fullySpecified key v) ∨ MatchAt m.wildcardPolicyMap k j w := by
  have hspec := @matches_fullySpecified key k v h.specified hpad
  have hrule : (fullySpecified key v).ruleId ≠ 0 := h.rule
  rw [MatchAt, ArrayMap.lookup_put h.scanned]
  split
  · next hj =>
    subst hj
    have hnot : ¬ MatchAt m.wildcardPolicyMap k j w := fun hw => hw.2.1 (h.slotFree w hw.1)
    constructor
    · rintro ⟨hw, _, hm⟩
      cases hw
      exact Or.inl ⟨rfl, hspec.1 hm, rfl⟩
    · rintro (⟨_, hk, rfl⟩ | hw)
      · exact ⟨rfl, hrule, hspec.2 hk⟩
      · exact absurd hw hnot
  · next hj => simp only [hj, false_and, false_or, MatchAt]

/-- A flow of another key does not see the rule in either map. -/
theorem decision_other {k : FlowKey} (hpad : k.pad = 0) (hk : k ≠ key) : decision m₁ k = decision m₂ k := by
  have hlook : m₁.policyMap.lookup k = m₂.policyMap.lookup k := by
    rw [HashMap.lookup_put h.exact, if_neg hk, h.scannedRest]
  refine decision_eq_of_matches hlook fun j w => ?_
  rw [h.exactRest, h.matchAt_scanned hpad]
  simp only [hk, false_and, and_false, false_or]

/-- In the array, the rule decides its flow when it beats the other matches of the flow. -/
theorem decision_scanned_key (hb : Beats m.wildcardPolicyMap key scanLimit i (fullySpecified key v)) :
    decision m₂ key = (v.action, v.ruleId) := by
  have hbest : bestMatch key m₂.wildcardPolicyMap = some (fullySpecified key v) := by
    refine bestMatch_eq_some_iff.2 ⟨i, h.scannedSlot, (h.matchAt_scanned h.specified.2.2.2).2 (Or.inl ⟨rfl, rfl, rfl⟩), ?_⟩
    intro j hj w' hw'
    rcases (h.matchAt_scanned h.specified.2.2.2).1 hw' with ⟨rfl, _, rfl⟩ | hw'
    · exact Or.inr ⟨le_rfl, rfl⟩
    · exact hb j hj w' hw'
  rw [decision_scan (by rw [h.scannedRest]; exact h.keyFree), hbest]; rfl

/-- **Either map**: every flow gets the same decision as long as the rule beats the other matches of its own
flow, and only then when no other match has its rule id. -/
theorem decision_eq :
    (Beats m.wildcardPolicyMap key scanLimit i (fullySpecified key v) → ∀ f : FlowKey, f.pad = 0 →
      decision m₁ f = decision m₂ f) ∧
    ((∀ j < scanLimit, ∀ w, MatchAt m.wildcardPolicyMap key j w → w.ruleId ≠ v.ruleId) →
      decision m₁ key = decision m₂ key → Beats m.wildcardPolicyMap key scanLimit i (fullySpecified key v)) := by
  constructor
  · intro hb f hpad
    by_cases hf : f = key
    · rw [hf, h.decision_exact_key, h.decision_scanned_key hb]
    · exact h.decision_other hpad hf
  · intro hnew heq
    rw [h.decision_exact_key, decision_scan (by rw [h.scannedRest]; exact h.keyFree)] at heq
    cases hbest : bestMatch key m₂.wildcardPolicyMap with
    | none =>
      rw [hbest] at heq
      exact absurd (congrArg Prod.snd heq) h.rule
    | some b =>
      rw [hbest] at heq
      have hid : v.ruleId = b.ruleId := congrArg Prod.snd heq
      obtain ⟨j, hj, hw, hb⟩ := bestMatch_eq_some_iff.1 hbest
      rcases (h.matchAt_scanned h.specified.2.2.2).1 hw with ⟨rfl, _, rfl⟩ | hold
      · exact fun j' hj' w' hw' => hb j' hj' w' ((h.matchAt_scanned h.specified.2.2.2).2 (Or.inr hw'))
      · exact absurd hid.symm (hnew j hj b hold)

end StoredEither

example : StoredEither .empty ⟨(HashMap.empty.put ⟨1, 2, 3, 4, 6, 0⟩ ⟨1, 0, 5, 11, 0⟩).getD .empty, .replicate .zero⟩
    ⟨.empty, ((ArrayMap.replicate .zero).put 3 (fullySpecified ⟨1, 2, 3, 4, 6, 0⟩ ⟨1, 0, 5, 11, 0⟩)).getD (.replicate .zero)⟩
    ⟨1, 2, 3, 4, 6, 0⟩ ⟨1, 0, 5, 11, 0⟩ 3 :=
  ⟨by decide, by decide, rfl, rfl, rfl, by decide, fun w h => by cases h; rfl, rfl, rfl⟩

/-- **The fast path and the priorities.** For every content of the maps and every key: an exact entry gives the
answer whatever the priorities; the answer is that of a matching entry of maximal priority over both maps
when no scanned match is more important than the exact entry; and a fully specified rule decides alike
from the exact map and from a free slot of the array when it beats the other matches of its flow, and, its
rule id being new to that flow, only then. -/
theorem lookup_priority (cpu : Nat) (key : FlowKey) (s : Bpf) :
    (∀ v, s.maps.policyMap.lookup key = some v → (lookupPolicyAction cpu key s).2 = (v.action, v.ruleId)) ∧
    (ExactOutranks s.maps key → FollowsPriority s.maps key (lookupPolicyAction cpu key s).2) ∧
    ∀ s₁ s₂ v i, StoredEither s.maps s₁.maps s₂.maps key v i →
      (Beats s.maps.wildcardPolicyMap key scanLimit i (fullySpecified key v) → ∀ f : FlowKey, f.pad = 0 →
        (lookupPolicyAction cpu f s₁).2 = (lookupPolicyAction cpu f s₂).2) ∧
      ((∀ j < scanLimit, ∀ w, MatchAt s.maps.wildcardPolicyMap key j w → w.ruleId ≠ v.ruleId) →
        (lookupPolicyAction cpu key s₁).2 = (lookupPolicyAction cpu key s₂).2 →
        Beats s.maps.wildcardPolicyMap key scanLimit i (fullySpecified key v)) := by
  simp only [lookupPolicyAction_eq]
  exact ⟨fun v hv => decision_exact hv, decision_followsPriority, fun _ _ _ _ h => h.decision_eq⟩

/-! ### An outranked exact entry -/

/-- A flow with an exact DENY entry of priority 5, and an ALLOW entry for everything of priority 10. -/
def outranked : Bpf where
  sessionMap := .empty
  maps := ⟨(HashMap.empty.put ⟨1, 2, 3, 4, 6, 0⟩ ⟨1, 0, 5, 11, 0⟩).getD .empty,
    ⟨fun i => if i.val = 0 then { WildcardPolicy.zero with priority := 10, ruleId := 12 } else .zero⟩⟩
  statsMap := fun _ _ => 0
  flowEvents := []

/-- The less important entry decides. -/
theorem outranked_entry_decides : (lookupPolicyAction 0 ⟨1, 2, 3, 4, 6, 0⟩ outranked).2 = (1, 11) ∧
    ¬ FollowsPriority outranked.maps ⟨1, 2, 3, 4, 6, 0⟩ (lookupPolicyAction 0 ⟨1, 2, 3, 4, 6, 0⟩ outranked).2 := by
  have hexact : outranked.maps.policyMap.lookup ⟨1, 2, 3, 4, 6, 0⟩ = some ⟨1, 0, 5, 11, 0⟩ := by decide
  have hslot : MatchAt outranked.maps.wildcardPolicyMap ⟨1, 2, 3, 4, 6, 0⟩ 0
      { WildcardPolicy.zero with priority := 10, ruleId := 12 } := ⟨rfl, by decide, by decide⟩
  have hanswer : (lookupPolicyAction 0 ⟨1, 2, 3, 4, 6, 0⟩ outranked).2 = (1, 11) := by decide
  refine ⟨hanswer, fun hfollows => ?_⟩
  rw [hanswer] at hfollows
  obtain ⟨r, hr, hmax, hrule⟩ := hfollows.matched _ (.exact hexact)
  have h10 := hmax _ (.scanned (by decide) hslot)
  cases hr with
  | exact hv =>
    rw [hexact] at hv
    cases hv
    exact absurd h10 (by decide)
  | @scanned i w hi hw =>
    have hid : 11#32 = w.ruleId := congrArg Prod.snd hrule
    have hlt : i < maxEntriesWildcardPolicy := Nat.lt_trans hi (by decide)
    have hlook := hw.1
    simp only [outranked, ArrayMap.lookup, hlt, ↓reduceDIte, Option.some.injEq] at hlook
    -- slot 0 holds rule 12, the others none
    subst hlook
    revert hid
    split <;> decide

end Microseg
