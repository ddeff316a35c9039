import Microseg.Traffic
/-!
# Which frames the program decides at all

`tc_microsegment_filter` passes a packet uncounted when the parser gives up (`tc_microsegment.bpf.c:254`,
"Pass non-IP packets"). The parser also gives up on an IPv4 frame whose TCP or UDP header is not
complete below `data_end`, so such frames pass a rule set that denies everything
(`truncated_tcp_passes`). `denyAll_enforced_iff` is the exact extent of that hole.
-/
namespace Microseg
open Words KernelMap

/-- An entry that denies every flow: a non-empty slot, no mask bits, no ports, no protocol. -/
def WildcardPolicy.DeniesEverything (w : WildcardPolicy) : Prop :=
  w.ruleId ≠ 0 ∧ w.srcIpMask = 0 ∧ w.dstIpMask = 0 ∧ w.srcPort = 0 ∧ w.dstPort = 0 ∧ w.protocol = 0 ∧
    w.action = PolicyAction.deny.code

instance (w : WildcardPolicy) : Decidable w.DeniesEverything := inferInstanceAs (Decidable (_ ∧ _))

/-- No exact entries, and a single occupied slot among the scanned ones, which denies everything. -/
structure DenyAllOnly (m : PolicyMaps) (i : Nat) (w : WildcardPolicy) : Prop where
  noExact : ∀ k, m.policyMap.lookup k = none
  scanned : i < scanLimit
  slot : m.wildcardPolicyMap.lookup i = some w
  denies : w.DeniesEverything
  others : ∀ j < scanLimit, j ≠ i → ∀ w', m.wildcardPolicyMap.lookup j = some w' → w'.ruleId = 0

theorem matches_of_deniesEverything {w : WildcardPolicy} (h : w.DeniesEverything) (key : FlowKey) :
    matchesWildcard key w = true := by
  obtain ⟨_, h1, h2, h3, h4, h5, _⟩ := h
  simp [matchesWildcard, h1, h2, h3, h4, h5]

theorem decision_denyAll {m : PolicyMaps} {i : Nat} {w : WildcardPolicy} (h : DenyAllOnly m i w) (key : FlowKey) :
    decision m key = (PolicyAction.deny.code, w.ruleId) := by
  have hb : bestMatch key m.wildcardPolicyMap = some w := by
    refine bestMatch_of_unique h.scanned h.slot h.denies.1 (matches_of_deniesEverything h.denies key) ?_
    intro j hj w' hw' h0 _
    by_cases hji : j = i
    · subst hji; exact Option.some.inj (hw'.symm.trans h.slot)
    · exact absurd (h.others j hj hji w' hw') h0
  rw [decision_scan (h.noExact key), hb]
  exact Prod.ext h.denies.2.2.2.2.2.2 rfl

/-! ## Counting -/

/-- A packet on the slow path is counted once in `STATS_TOTAL_PACKETS`. -/
theorem slowPath_total (x : Exec) (skb : SkBuff) (key : FlowKey) (s : Bpf) :
    (slowPath x skb key s).statsMap x.cpu .totalPackets = s.statsMap x.cpu .totalPackets + 1 := by
  rw [slowPath_statsMap, if_pos rfl]
  rfl

/-! ## The extent of enforcement -/

/-- **Deny-all is enforced on an IPv4 frame iff its transport header is complete**: with no sessions and
a single scanned entry that denies everything, the frame is dropped and counted exactly when the
protocol is neither TCP nor UDP or that header ends below `data_end`. -/
theorem denyAll_enforced_iff {s : Bpf} {i : Nat} {w : WildcardPolicy} (hs : ∀ k, s.sessionMap.lookup k = none)
    (hd : DenyAllOnly s.maps i w) (x : Exec) {skb : SkBuff} (hip : IsIpv4 skb.data) :
    ((tcMicrosegmentFilter x skb s).2 = tcActShot ∧
      (tcMicrosegmentFilter x skb s).1.statsMap x.cpu .totalPackets = s.statsMap x.cpu .totalPackets + 1) ↔
    L4Complete skb.data := by
  rcases filter_cases x skb s with ⟨h, e⟩ | ⟨k, v, _, hv, _⟩ | ⟨k, h, _, e⟩
  · -- the parser gave up: the packet passes
    have hl : ¬ L4Complete skb.data := fun hl => by
      obtain ⟨f, hf⟩ := extractFlowKey_accepts hip hl
      rw [h] at hf; cases hf
    have hne : tcActOk ≠ tcActShot := by decide
    rw [e]
    exact ⟨fun hshot => absurd hshot.1 hne, fun hl' => absurd hl' hl⟩
  · rw [hs k] at hv; cases hv
  · have hl : L4Complete skb.data := by
      by_contra hl
      rw [extractFlowKey_rejects hl] at h; cases h
    rw [e, decision_denyAll hd]
    exact ⟨fun _ => hl, fun _ => ⟨verdict_eq_shot.2 rfl, slowPath_total x skb k s⟩⟩

/-! ### A frame that escapes -/

/-- A fresh data plane whose only rule denies everything. -/
def denyAllBpf : Bpf where
  sessionMap := .empty
  maps := ⟨.empty, ⟨fun i => if i.val = 0 then
    { WildcardPolicy.zero with ruleId := 7, action := PolicyAction.deny.code } else .zero⟩⟩
  statsMap := fun _ _ => 0
  flowEvents := []

theorem denyAllBpf_only : DenyAllOnly denyAllBpf.maps 0
    { WildcardPolicy.zero with ruleId := 7, action := PolicyAction.deny.code } where
  noExact := HashMap.lookup_empty
  scanned := by decide
  slot := rfl
  denies := by decide
  others j hj hne w' h := by
    have hlt : j < maxEntriesWildcardPolicy := Nat.lt_trans hj (by decide)
    simp only [denyAllBpf, ArrayMap.lookup, hlt, ↓reduceDIte, hne, ↓reduceIte, Option.some.injEq] at h
    rw [← h]; rfl

/-- Ethernet and IPv4 header of a TCP segment, cut off behind the IP header. -/
def truncatedTcp : SkBuff :=
  ⟨(Flow.frame ⟨0x0a000001, 0x0a000002, 1234, 22, ipprotoTcp, fun h => absurd rfl h⟩).header, 34⟩

/-- A complete frame of the same flow. -/
def completeTcp : SkBuff :=
  ⟨(Flow.frame ⟨0x0a000001, 0x0a000002, 1234, 22, ipprotoTcp, fun h => absurd rfl h⟩).bytes, 54⟩

/-- An IPv4 frame passes, uncounted, although everything is denied. -/
theorem truncated_tcp_passes :
    (∀ k, denyAllBpf.sessionMap.lookup k = none) ∧
    (∃ i w, DenyAllOnly denyAllBpf.maps i w) ∧ IsIpv4 truncatedTcp.data ∧
    (tcMicrosegmentFilter ⟨0, 0, true, true⟩ truncatedTcp denyAllBpf).2 = tcActOk ∧
    (tcMicrosegmentFilter ⟨0, 0, true, true⟩ truncatedTcp denyAllBpf).1.statsMap 0 .totalPackets = 0 := by
  exact ⟨HashMap.lookup_empty, ⟨0, _, denyAllBpf_only⟩, ⟨by decide, by decide⟩, by decide, by decide⟩

/-- The complete frame is dropped and counted. -/
theorem complete_tcp_dropped :
    ((tcMicrosegmentFilter ⟨0, 0, true, true⟩ completeTcp denyAllBpf).2 = tcActShot ∧
      (tcMicrosegmentFilter ⟨0, 0, true, true⟩ completeTcp denyAllBpf).1.statsMap 0 .totalPackets =
        denyAllBpf.statsMap 0 .totalPackets + 1) ↔ L4Complete completeTcp.data :=
  denyAll_enforced_iff HashMap.lookup_empty denyAllBpf_only ⟨0, 0, true, true⟩
    ⟨by decide, by decide⟩

end Microseg
