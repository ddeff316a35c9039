import Microseg.Filter
/-!
# What of a payload chooses the policy (`tc_microsegment.bpf.c:100-121`)

`extract_flow_key` never reads the fragment field: the four bytes behind the IP header are ports in every
TCP or UDP frame that is long enough for the whole transport header, a later fragment of a datagram
included. So two frames with the same headers are treated alike exactly when the parser takes the same
ports from both bodies, or takes none from either (`sameTreatment_iff`).
-/
namespace Microseg
open Words

/-- Another frame with the same Ethernet and IP header. -/
def Ipv4Frame.withBody (fr : Ipv4Frame) (body : List U8) : Ipv4Frame := { fr with body }

/-- The parser asks for a transport header. -/
def Ipv4Frame.HasPorts (fr : Ipv4Frame) : Prop := fr.protocol = ipprotoTcp ∨ fr.protocol = ipprotoUdp

/-- One flow key, and one verdict from every state, on every CPU and whatever the kernel answers. -/
structure SameTreatment (data data' : List U8) : Prop where
  key : ∀ len len', extractFlowKey ⟨data, len⟩ = extractFlowKey ⟨data', len'⟩
  verdict : ∀ x x' len len' s,
    (tcMicrosegmentFilter x ⟨data, len⟩ s).2 = (tcMicrosegmentFilter x' ⟨data', len'⟩ s).2

/-- The verdict follows the key. -/
theorem sameTreatment_of_key {data data' : List U8}
    (h : ∀ len len', extractFlowKey ⟨data, len⟩ = extractFlowKey ⟨data', len'⟩) : SameTreatment data data' where
  key := h
  verdict x x' len len' s := by rw [filter_verdict_of_key, filter_verdict_of_key, h len len']

/-! ## The bytes the parser reads -/

theorem l4Complete_bytes (fr : Ipv4Frame) : L4Complete fr.bytes ↔ fr.Complete := by
  have hlen := length_bytes fr
  have hl4 := l4Offset_frame fr
  constructor
  · intro h
    have h' := h _ _ (load8_protocol fr) (load8_verIhl fr)
    exact ⟨fun ht => by have := h'.1 ht; omega, fun hu => by have := h'.2 hu; omega⟩
  · intro h p v hp hv
    rw [load8_protocol] at hp
    rw [load8_verIhl] at hv
    cases hp; cases hv
    exact ⟨fun ht => by have := h.1 ht; omega, fun hu => by have := h.2 hu; omega⟩

theorem extractFlowKey_incomplete {fr : Ipv4Frame} (h : ¬ fr.Complete) (len : U32) :
    extractFlowKey ⟨fr.bytes, len⟩ = some none :=
  extractFlowKey_rejects (mt (l4Complete_bytes fr).1 h)

theorem complete_of_not_hasPorts {fr : Ipv4Frame} (h : ¬ fr.HasPorts) : fr.Complete :=
  ⟨fun ht => absurd (Or.inl ht) h, fun hu => absurd (Or.inr hu) h⟩

theorem four_le_of_complete {fr : Ipv4Frame} (hp : fr.HasPorts) (hc : fr.Complete) : 4 ≤ fr.body.length := by
  rcases hp with h | h
  · exact (by decide : 4 ≤ 20).trans (hc.1 h)
  · exact (by decide : 4 ≤ 8).trans (hc.2 h)

/-- The flow of a frame depends on the first four bytes of its body, and on these only when it has ports. -/
theorem flow_withBody_iff {fr : Ipv4Frame} {b b' : List U8} (hc : (fr.withBody b).Complete)
    (hc' : (fr.withBody b').Complete) :
    (fr.withBody b).flow = (fr.withBody b').flow ↔ (fr.HasPorts → b.take 4 = b'.take 4) := by
  by_cases hp : fr.HasPorts
  · have hb : 4 ≤ b.length := @four_le_of_complete (fr.withBody b) hp hc
    have hb' : 4 ≤ b'.length := @four_le_of_complete (fr.withBody b') hp hc'
    have hports : fr.protocol = ipprotoTcp ∨ fr.protocol = ipprotoUdp := hp
    rw [take_four_eq_iff hb hb']
    simp [Ipv4Frame.flow, Ipv4Frame.withBody, hports, hp]
  · have hports : ¬ (fr.protocol = ipprotoTcp ∨ fr.protocol = ipprotoUdp) := hp
    simp [Ipv4Frame.flow, Ipv4Frame.withBody, hports, hp]

/-- Two frames with one header get one key exactly when neither is complete, or both are and have one flow. -/
theorem sameTreatment_withBody_iff (fr : Ipv4Frame) (b b' : List U8) :
    SameTreatment (fr.withBody b).bytes (fr.withBody b').bytes ↔
      (¬ (fr.withBody b).Complete ∧ ¬ (fr.withBody b').Complete) ∨
        ((fr.withBody b).Complete ∧ (fr.withBody b').Complete ∧ (fr.withBody b).flow = (fr.withBody b').flow) := by
  by_cases hc : (fr.withBody b).Complete <;> by_cases hc' : (fr.withBody b').Complete
  · simp only [hc, hc', not_true_eq_false, and_self, true_and, false_or]
    constructor
    · intro h
      have hkey := h.key 0 0
      rw [extractFlowKey_bytes _ hc, extractFlowKey_bytes _ hc'] at hkey
      exact Flow.key_inj.1 (Option.some.inj (Option.some.inj hkey))
    · intro h
      refine sameTreatment_of_key fun len len' => ?_
      rw [extractFlowKey_bytes _ hc, extractFlowKey_bytes _ hc', h]
  · simp only [hc, hc', not_true_eq_false, not_false_eq_true, and_true, false_and, and_false, or_false, iff_false]
    intro h
    have hkey := h.key 0 0
    rw [extractFlowKey_bytes _ hc, extractFlowKey_incomplete hc'] at hkey
    cases hkey
  · simp only [hc, hc', not_true_eq_false, not_false_eq_true, and_false, false_and, or_false, iff_false]
    intro h
    have hkey := h.key 0 0
    rw [extractFlowKey_incomplete hc, extractFlowKey_bytes _ hc'] at hkey
    cases hkey
  · refine iff_of_true (sameTreatment_of_key fun len len' => ?_) (Or.inl ⟨hc, hc'⟩)
    rw [extractFlowKey_incomplete hc, extractFlowKey_incomplete hc']

/-- **Which payloads are told apart**: two frames with the same Ethernet and IP header, of whatever fragment
offset, have one flow key and one verdict from every state iff the protocol has no ports, or neither
holds a whole transport header, or both do and their bodies start with the same four bytes. These bytes
are the ports in the key of every TCP or UDP frame the parser accepts. -/
theorem sameTreatment_iff (fr : Ipv4Frame) (b b' : List U8) :
    (SameTreatment (fr.withBody b).bytes (fr.withBody b').bytes ↔
      ¬ fr.HasPorts ∨ (¬ (fr.withBody b).Complete ∧ ¬ (fr.withBody b').Complete) ∨
        ((fr.withBody b).Complete ∧ (fr.withBody b').Complete ∧ b.take 4 = b'.take 4)) ∧
    (fr.HasPorts → (fr.withBody b).Complete → ∀ len, extractFlowKey ⟨(fr.withBody b).bytes, len⟩ =
      some (some ⟨swap32 fr.saddr, swap32 fr.daddr, swap16 (be16 b), swap16 (be16 (b.drop 2)), fr.protocol, 0⟩)) := by
  constructor
  · rw [sameTreatment_withBody_iff]
    by_cases hp : fr.HasPorts
    · simp only [hp, not_true_eq_false, false_or]
      refine or_congr_right (and_congr_right fun hc => and_congr_right fun hc' => ?_)
      rw [flow_withBody_iff hc hc']
      exact ⟨fun h => h hp, fun h _ => h⟩
    · have hc : (fr.withBody b).Complete := complete_of_not_hasPorts hp
      have hc' : (fr.withBody b').Complete := complete_of_not_hasPorts hp
      exact iff_of_true (Or.inr ⟨hc, hc', (flow_withBody_iff hc hc').2 fun h => absurd h hp⟩) (Or.inl hp)
  · intro hp hc len
    have hports : fr.protocol = ipprotoTcp ∨ fr.protocol = ipprotoUdp := hp
    rw [extractFlowKey_bytes _ hc]
    simp [Ipv4Frame.flow, Ipv4Frame.withBody, Flow.key, hports]

/-! ### A later fragment of a datagram -/

/-- The header of the second fragment of a UDP datagram. -/
def secondFragment : Ipv4Frame :=
  { Flow.frame ⟨0x0a000001, 0x0a000002, 0, 0, ipprotoUdp, fun _ h => absurd rfl h⟩ with fragOff := 185 }

/-- Payload whose third and fourth byte are `b`. -/
def payload (b : U8) : List U8 := [0, 0, 0, b, 0, 0, 0, 0]

/-- A data plane that denies one port. -/
def denyPort53 : Bpf where
  sessionMap := .empty
  maps := ⟨.empty, ⟨fun i => if i.val = 0 then
    { WildcardPolicy.zero with ruleId := 7, dstPort := bpfHtons 53, action := PolicyAction.deny.code } else .zero⟩⟩
  statsMap := fun _ _ => 0
  flowEvents := []

/-- Two second fragments with the same headers: the payload byte chooses the key, and with it the verdict. -/
theorem fragment_payload_chooses : secondFragment.fragOff ≠ 0 ∧
    ¬ SameTreatment (secondFragment.withBody (payload 53)).bytes (secondFragment.withBody (payload 54)).bytes ∧
    (tcMicrosegmentFilter ⟨0, 0, true, true⟩ ⟨(secondFragment.withBody (payload 53)).bytes, 42⟩ denyPort53).2 =
      tcActShot ∧
    (tcMicrosegmentFilter ⟨0, 0, true, true⟩ ⟨(secondFragment.withBody (payload 54)).bytes, 42⟩ denyPort53).2 =
      tcActOk := by
  refine ⟨by decide, fun h => ?_, by decide +kernel, by decide +kernel⟩
  have hkey := h.key 0 0
  revert hkey
  decide

end Microseg
