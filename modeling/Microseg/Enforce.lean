import Microseg.Filter
import Microseg.Install
/-!
# From policy texts to packet verdicts

The documented semantics of a rule set is two-staged: a fully specified rule for the packet's 5-tuple
decides, else the matching wildcard rule of highest priority, else the packet is allowed. `reference` is
this semantics on policies and flows, without maps, entries or byte orders. `filter_enforces_reference`
runs the whole chain against it: texts are parsed, routed and encoded by the agent, slots are allocated,
the frame is parsed and looked up by the program.

The rules are those whose entries mean what they say (`Denote.lean`): single hosts for the exact map, and
for the wildcard array blocks of one address or of all addresses.
-/
namespace Microseg
open Words KernelMap GoNet

/-! ## Rules -/

/-- A policy with IPv4 addresses. -/
structure Rule where
  policy : Policy
  src : Ipv4Text
  dst : Ipv4Text
  src_eq : policy.srcIP = src.text
  dst_eq : policy.dstIP = dst.text

namespace Rule

def Denotes (q : Rule) (f : Flow) : Prop := Microseg.Denotes q.policy q.src q.dst f

/-- Both addresses single hosts, both ports given, and a protocol. -/
structure SingleHost (q : Rule) : Prop where
  src : q.src.prefixLen = 32
  dst : q.dst.prefixLen = 32
  srcPort : q.policy.srcPort ≠ 0
  dstPort : q.policy.dstPort ≠ 0
  protocol : toLower q.policy.protocol = "tcp" ∨ toLower q.policy.protocol = "udp" ∨ toLower q.policy.protocol = "icmp"

/-- A rule with a wildcard field whose addresses are single hosts or any. -/
structure HostOrAny (q : Rule) : Prop where
  wildcard : hasWildcard q.policy = true
  src : WholeOrNone q.src
  dst : WholeOrNone q.dst

/-- The rule drops what it decides. -/
def Denies (q : Rule) : Prop := toLower q.policy.action = "deny"

instance (t : Ipv4Text) : Decidable (WholeOrNone t) := inferInstanceAs (Decidable (_ ∨ _))

instance (name : String) (v : U8) : Decidable (protocolAdmits name v) := inferInstanceAs (Decidable (_ ∨ _))

instance (q : Rule) (f : Flow) : Decidable (q.Denotes f) :=
  decidable_of_iff (q.src.Contains f.srcIP ∧ q.dst.Contains f.dstIP ∧ (q.policy.srcPort = 0 ∨ f.srcPort = q.policy.srcPort) ∧
    (q.policy.dstPort = 0 ∨ f.dstPort = q.policy.dstPort) ∧ protocolAdmits q.policy.protocol f.protocol)
    ⟨fun ⟨a, b, c, d, e⟩ => ⟨a, b, c, d, e⟩, fun ⟨a, b, c, d, e⟩ => ⟨a, b, c, d, e⟩⟩

instance (q : Rule) : Decidable q.SingleHost :=
  decidable_of_iff (q.src.prefixLen = 32 ∧ q.dst.prefixLen = 32 ∧ q.policy.srcPort ≠ 0 ∧ q.policy.dstPort ≠ 0 ∧
    (toLower q.policy.protocol = "tcp" ∨ toLower q.policy.protocol = "udp" ∨ toLower q.policy.protocol = "icmp"))
    ⟨fun ⟨a, b, c, d, e⟩ => ⟨a, b, c, d, e⟩, fun ⟨a, b, c, d, e⟩ => ⟨a, b, c, d, e⟩⟩

end Rule

/-- The rule that decides a flow: the single-host rule for it, else the earliest matching wildcard rule of
highest priority. -/
def reference (qs : List Rule) (f : Flow) : Option Rule :=
  match qs.find? fun q => q.SingleHost ∧ q.Denotes f with
  | some q => some q
  | none => (qs.filter fun q => hasWildcard q.policy ∧ q.Denotes f).argmax fun q => q.policy.priority.toNat

/-! ## Single-host rules go to the exact map -/

theorem cidr_ne_any (t : Ipv4Text) (h : t.prefixLen = 32) : t.text ≠ "0.0.0.0/0" ∧ t.text ≠ "::/0" := by
  have hmask : ∀ s ip mask, parseCIDR s = .ok (ip, mask) → t.text = s → mask = cidrMask 32 32 := by
    rintro s ip mask hs rfl
    rw [parseCIDR_text, h] at hs
    cases hs; rfl
  refine ⟨fun he => ?_, fun he => ?_⟩
  · exact absurd (hmask "0.0.0.0/0" (v4InV6Prefix ++ [0, 0, 0, 0]) (cidrMask 0 32) (by decide) he) (by decide)
  · exact absurd (hmask "::/0" (List.replicate 16 0) (cidrMask 0 128) (by decide) he) (by decide)

theorem Rule.SingleHost.exact {q : Rule} (h : q.SingleHost) : hasWildcard q.policy = false := by
  have hs := cidr_ne_any q.src h.src
  have hd := cidr_ne_any q.dst h.dst
  have hp : ¬ toLower q.policy.protocol = "any" := by
    rcases h.protocol with e | e | e <;> rw [e] <;> decide
  have h0 : ¬ q.policy.srcPort = 0#16 := h.srcPort
  simp [hasWildcard, h0, q.src_eq, q.dst_eq, hs, hd, hp]

/-- The flow of a single-host rule is the one with its key. -/
theorem Rule.SingleHost.denotes_iff {q : Rule} (h : q.SingleHost) (t : Parsed q.policy) (f : Flow) :
    q.Denotes f ↔ f.key = t.key := by
  have hv : t.proto ≠ 0 := by
    intro h0
    rcases (proto_eq_zero_iff t.hproto).1 h0 with e | e <;> rcases h.protocol with e' | e' | e' <;>
      exact absurd (e.symm.trans e') (by decide)
  rw [flow_key_eq_iff t q.src_eq q.dst_eq]
  constructor
  · intro hd
    exact ⟨(contains_single h.src).1 hd.src, (contains_single h.dst).1 hd.dst, hd.srcPort.resolve_left h.srcPort,
      hd.dstPort.resolve_left h.dstPort, ((admits_iff t.hproto _).1 hd.protocol).resolve_left hv⟩
  · rintro ⟨h1, h2, h3, h4, h5⟩
    exact ⟨(contains_single h.src).2 h1, (contains_single h.dst).2 h2, Or.inr h3, Or.inr h4,
      (admits_iff t.hproto _).2 (Or.inr h5)⟩

/-- A host-or-any rule's entry matches exactly its flows. -/
theorem Rule.HostOrAny.matches_iff {q : Rule} (h : q.HostOrAny) (t : Parsed q.policy) (f : Flow) :
    matchesWildcard f.key t.wildcard = true ↔ q.Denotes f :=
  (entry_matches_denoted_iff t q.src_eq q.dst_eq).2 (Or.inl ⟨h.src, h.dst⟩) f

theorem denies_iff {q : Rule} (t : Parsed q.policy) : t.action = PolicyAction.deny.code ↔ q.Denies := by
  have ha := t.haction
  unfold parseAction at ha
  unfold Rule.Denies
  split_ifs at ha with h1 h2 h3 <;> rw [← Except.ok.inj ha]
  · rw [h1]; decide
  · rw [h2]; decide
  · rw [h3]; decide

/-! ## The scan and the reference -/

/-- An order-preserving partial map commutes with `argmax` where it is defined. -/
theorem argmax_filterMap {α β : Type} {g : α → Option β} {f : α → Nat} {f' : β → Nat} (l : List α)
    (h : ∀ a ∈ l, ∃ b, g a = some b ∧ f' b = f a) : (l.filterMap g).argmax f' = (l.argmax f).bind g := by
  induction l using List.reverseRecOn with
  | nil => rfl
  | append_singleton l a ih =>
    obtain ⟨b, hb, hba⟩ := h a (by simp)
    have ih := ih fun x hx => h x (by simp [hx])
    have hone : List.filterMap g [a] = [b] := by simp [hb]
    rw [List.filterMap_append, hone, List.argmax_concat, List.argmax_concat, ih]
    cases hm : l.argmax f with
    | none => simp [hb]
    | some c =>
      obtain ⟨d, hd, hdc⟩ := h c (List.mem_append_left _ (List.argmax_mem hm))
      simp only [Option.bind_some, hd, hba, hdc]
      split <;> simp [hb, hd]

/-- The matching entries are those of the wildcard rules that denote the flow. -/
theorem wildcards_filter {qs : List Rule} {f : Flow} (hp : ∀ q ∈ qs, Nonempty (Parsed q.policy))
    (hq : ∀ q ∈ qs, q.SingleHost ∨ q.HostOrAny) :
    (wildcards (qs.map Rule.policy)).filter (matchesWildcard f.key) =
      (qs.filter fun q => hasWildcard q.policy ∧ q.Denotes f).filterMap fun q => wildcardOf q.policy := by
  induction qs with
  | nil => rfl
  | cons q qs ih =>
    have ih := ih (fun r hr => hp r (by simp [hr])) fun r hr => hq r (by simp [hr])
    obtain ⟨t⟩ := hp q (by simp)
    rw [wildcards, List.map_cons, List.filterMap_cons, wildcardOf_parsed t, List.filter_cons]
    rw [wildcards] at ih
    rcases hq q (by simp) with h | h
    · simpa [h.exact] using ih
    · have hm := h.matches_iff t f
      by_cases hd : q.Denotes f
      · simpa [h.wildcard, hd, hm.2 hd, wildcardOf_parsed t] using ih
      · have hm' : matchesWildcard f.key t.wildcard = false := by
          rw [Bool.eq_false_iff]; exact fun h' => hd (hm.1 h')
        simpa [h.wildcard, hd, hm'] using ih

/-- The reference decides by what the rule's texts parse to. -/
theorem decision_reference {qs : List Rule} {m : PolicyMaps} (h : Installed m (qs.map Rule.policy))
    (hlen : (wildcards (qs.map Rule.policy)).length ≤ scanLimit) (hq : ∀ q ∈ qs, q.SingleHost ∨ q.HostOrAny) (f : Flow) :
    (decision m f.key).1 = PolicyAction.deny.code ↔ ∃ q, reference qs f = some q ∧ q.Denies := by
  have hp : ∀ q ∈ qs, Nonempty (Parsed q.policy) := fun q hq => h.parsed _ (List.mem_map_of_mem hq)
  unfold reference
  cases hfind : qs.find? fun q => q.SingleHost ∧ q.Denotes f with
  | some q =>
    -- stage one: the exact entry
    have hmem := List.mem_of_find?_eq_some hfind
    obtain ⟨hsh, hden⟩ : q.SingleHost ∧ q.Denotes f := by simpa using List.find?_some hfind
    obtain ⟨t⟩ := hp q hmem
    have hex : (f.key, t.value) ∈ exacts (qs.map Rule.policy) := by
      refine List.mem_filterMap.2 ⟨q.policy, List.mem_map_of_mem hmem, ?_⟩
      rw [exactOf_parsed t, hsh.exact, (hsh.denotes_iff t f).1 hden]; rfl
    rw [h.decision_exact hex]
    exact (denies_iff t).trans ⟨fun hd => ⟨q, rfl, hd⟩, fun ⟨_, he, hd⟩ => Option.some.inj he ▸ hd⟩
  | none =>
    -- stage two: no exact entry has the key, the scan decides
    have hk : f.key ∉ (exacts (qs.map Rule.policy)).map Prod.fst := by
      intro hkey
      obtain ⟨kv, hkv, hfst⟩ := List.mem_map.1 hkey
      obtain ⟨p, hp', hex⟩ := List.mem_filterMap.1 hkv
      obtain ⟨q, hqm, rfl⟩ := List.mem_map.1 hp'
      obtain ⟨t⟩ := hp q hqm
      rw [exactOf_parsed t] at hex
      rcases hq q hqm with hsh | hw
      · rw [hsh.exact] at hex
        cases hex
        have := List.find?_eq_none.1 hfind q hqm
        exact this (by simpa using ⟨hsh, (hsh.denotes_iff t f).2 hfst.symm⟩)
      · rw [hw.wildcard] at hex; cases hex
    have hprio : ∀ q ∈ qs.filter (fun q => hasWildcard q.policy ∧ q.Denotes f),
        ∃ w, wildcardOf q.policy = some w ∧ w.priority.toNat = q.policy.priority.toNat := by
      intro q hqf
      obtain ⟨hqm, hqw⟩ := List.mem_filter.1 hqf
      obtain ⟨t⟩ := hp q hqm
      have hw : hasWildcard q.policy = true := (of_decide_eq_true hqw).1
      exact ⟨t.wildcard, by rw [wildcardOf_parsed t, hw]; rfl, rfl⟩
    rw [h.decision_scan hlen hk, wildcards_filter hp hq, argmax_filterMap _ hprio]
    cases hb : (qs.filter fun q => hasWildcard q.policy ∧ q.Denotes f).argmax fun q => q.policy.priority.toNat with
    | none =>
      have hallow : (answer none).1 ≠ PolicyAction.deny.code := by decide
      rw [Option.bind_none]
      refine iff_of_false hallow ?_
      rintro ⟨q, he, _⟩
      cases he
    | some q =>
      obtain ⟨hqm, hqw⟩ := List.mem_filter.1 (List.argmax_mem hb)
      obtain ⟨t⟩ := hp q hqm
      have hw : hasWildcard q.policy = true := (of_decide_eq_true hqw).1
      have hansw : (answer (some t.wildcard)).1 = t.action := rfl
      rw [Option.bind_some, wildcardOf_parsed t, hw, if_pos rfl, hansw]
      exact (denies_iff t).trans ⟨fun hd => ⟨q, rfl, hd⟩, fun ⟨_, he, hd⟩ => Option.some.inj he ▸ hd⟩

/-- **End-to-end enforcement**: after successful calls on empty maps for single-host rules with distinct
5-tuples and at most 100 host-or-any rules, with distinct non-zero rule ids, a complete IPv4 frame whose
flow has no session is dropped iff the reference semantics denies its flow. -/
theorem filter_enforces_reference {pm : PolicyManager} (hm : pm.maps = .empty) {qs : List Rule}
    (hd : Distinct (qs.map Rule.policy)) (hok : AllAdded pm (qs.map Rule.policy))
    (hq : ∀ q ∈ qs, q.SingleHost ∨ q.HostOrAny) (hlen : qs.countP (fun q => hasWildcard q.policy) ≤ 100)
    {s : Bpf} (hs : s.maps = (pm.after (qs.map Rule.policy)).maps) {fr : Ipv4Frame} (hc : fr.Complete)
    (hno : s.sessionMap.lookup fr.flow.key = none) (x : Exec) (len : U32) :
    (tcMicrosegmentFilter x ⟨fr.bytes, len⟩ s).2 = tcActShot ↔ ∃ q, reference qs fr.flow = some q ∧ q.Denies := by
  have hempty : Installed pm.maps [] := hm ▸ installed_empty
  have hinst : Installed s.maps (qs.map Rule.policy) := hs ▸ installed_after _ hempty hd hok
  have hle : (wildcards (qs.map Rule.policy)).length ≤ scanLimit := by
    refine (length_wildcards_le _).trans ?_
    rw [List.countP_map]
    exact hlen
  rw [filter_verdict (extractFlowKey_bytes fr hc len), verdict_eq_shot, enforced, hno]
  exact decision_reference hinst hle hq fr.flow

/-! ### A deny for one connection over an allow for its host -/

/-- One exact rule and one wildcard rule for the same connection. -/
def denyOverAllow : List Rule :=
  [⟨allowHost, host5, host5, by decide, by decide⟩, ⟨denyPort443, host5, host5, by decide, by decide⟩]

example : (reference denyOverAllow toPort443).map (fun q => q.policy.ruleID) = some 1 := by decide

/-- The data plane once both rules are installed. -/
def denyOverAllowBpf : Bpf where
  sessionMap := .empty
  maps := (PolicyManager.fresh.after (denyOverAllow.map Rule.policy)).maps
  statsMap := fun _ _ => 0
  flowEvents := []

theorem connection_enforced :
    (tcMicrosegmentFilter ⟨0, 0, true, true⟩ ⟨toPort443.frame.bytes, 54⟩ denyOverAllowBpf).2 = tcActShot ↔
      ∃ q, reference denyOverAllow toPort443.frame.flow = some q ∧ q.Denies := by
  have hadded : AllAdded .fresh (denyOverAllow.map Rule.policy) :=
    (by decide : ∀ r ∈ ((addPolicies (denyOverAllow.map Rule.policy)).run .fresh).2, r = .ok ())
  have hrules : ∀ q ∈ denyOverAllow, q.SingleHost ∨ q.HostOrAny := by
    intro q hq
    rcases List.mem_cons.1 hq with rfl | hq
    · exact Or.inr ⟨by decide, by decide, by decide⟩
    · rw [List.mem_singleton.1 hq]; exact Or.inl (by decide)
  exact filter_enforces_reference rfl ⟨by decide, by decide, by decide⟩ hadded hrules (by decide) rfl
    (frame_complete toPort443) (HashMap.lookup_empty _) ⟨0, 0, true, true⟩ 54

end Microseg
