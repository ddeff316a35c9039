import Microseg.Denote
import Microseg.Listed
import Microseg.Priority
/-!
# Addresses that the maps cannot hold (`policy.go:131-190`, `:303-371`)

The maps store IPv4 addresses. An IPv6 address parses, and then `ipToUint32` makes it 0 and `maskToUint32`
makes its mask all ones: the policy is installed for the address 0.0.0.0. The specification asks for a
validation error ("IP 地址格式验证"). Nothing in `AddPolicy` looks at the family, so such a policy is
kept out only by what keeps out any other (`ipv6_unenforced_iff`).
-/
namespace Microseg
open Words KernelMap GoNet

/-! ## What an addition changes -/

/-- The call returns an error. -/
def Refused (p : Policy) (pm : PolicyManager) : Prop := ∃ e, ((addPolicy p).run pm).2 = .error e

/-- Every flow gets the decision it got before. -/
def SameDecisions (p : Policy) (pm : PolicyManager) : Prop :=
  ∀ f : Flow, decision ((addPolicy p).run pm).1.maps f.key = decision pm.maps f.key

/-- After a call that returned nil, the policy's entry is in its map. -/
def Installs (p : Policy) (pm : PolicyManager) : Prop :=
  ((addPolicy p).run pm).2 = .ok () ∧ ∃ e ∈ ((addPolicy p).run pm).1.maps.entries, encoding p = some e

/-- The entry of the policy is a free slot: rule id 0 in the array. -/
def LeavesFree (p : Policy) : Prop := hasWildcard p = true ∧ p.ruleID = 0

/-- The policy goes to the exact map with a source port, and its protocol has none. -/
def ExactWithoutPorts (p : Policy) : Prop :=
  hasWildcard p = false ∧ toLower p.protocol ≠ "tcp" ∧ toLower p.protocol ≠ "udp"

section Addition

variable {p : Policy}

theorem refused_or_added (p : Policy) (pm : PolicyManager) :
    Refused p pm ∨ ∃ m', pm.maps.add p = .ok m' ∧ ((addPolicy p).run pm).2 = .ok () ∧ ((addPolicy p).run pm).1.maps = m' := by
  cases hadd : pm.maps.add p with
  | error e => exact Or.inl ⟨e, by rw [addPolicy_run, hadd]⟩
  | ok m' => exact Or.inr ⟨m', rfl, addPolicy_ok_iff.2 ⟨m', hadd⟩, by rw [addPolicy_maps, hadd]; rfl⟩

theorem not_refused {pm : PolicyManager} (hok : ((addPolicy p).run pm).2 = .ok ()) : ¬ Refused p pm := by
  rintro ⟨e, he⟩
  rw [hok] at he; cases he

/-- An addition that goes through and changes a decision. -/
theorem changes_of_add {pm : PolicyManager} {m' : PolicyMaps} (hadd : pm.maps.add p = .ok m') {f : Flow}
    (hne : decision m' f.key ≠ decision pm.maps f.key) : ¬ (Refused p pm ∨ SameDecisions p pm) := by
  rintro (hr | hsame)
  · exact not_refused (addPolicy_ok_iff.2 ⟨m', hadd⟩) hr
  · have hmaps : ((addPolicy p).run pm).1.maps = m' := by rw [addPolicy_maps, hadd]; rfl
    exact hne (hmaps ▸ hsame f)

theorem refused_of_not_parsed (h : ¬ Nonempty (Parsed p)) (pm : PolicyManager) : Refused p pm := by
  rcases refused_or_added p pm with hr | ⟨m', hadd, _⟩
  · exact hr
  · exact absurd (parsed_of_add hadd) h

/-- Only TCP and UDP have ports. -/
theorem proto_ports (t : Parsed p) :
    (t.proto = ipprotoTcp ∨ t.proto = ipprotoUdp) ↔ toLower p.protocol = "tcp" ∨ toLower p.protocol = "udp" := by
  rcases parseProtocol_cases t.hproto with ⟨e, hv⟩ | ⟨e, hv⟩ | ⟨e, hv⟩ | ⟨e | e, hv⟩ <;> rw [e, hv] <;> decide

/-- Whether the key of an exact policy is that of a flow. -/
theorem exists_flow_key_iff (t : Parsed p) (hw : hasWildcard p = false) :
    (∃ f : Flow, f.key = t.key) ↔ toLower p.protocol = "tcp" ∨ toLower p.protocol = "udp" := by
  rw [← proto_ports t]
  constructor
  · rintro ⟨f, hf⟩
    by_contra hno
    rw [not_or] at hno
    have hproto : f.protocol = t.proto := congrArg FlowKey.protocol hf
    have hport : swap16 f.srcPort = htons p.srcPort := congrArg FlowKey.srcPort hf
    obtain ⟨hs, _⟩ := f.noPorts (hproto ▸ hno.1) (hproto ▸ hno.2)
    -- an exact policy has a source port
    rw [hs, htons_eq_swap16, swap16_inj] at hport
    rw [hasWildcard, if_pos hport.symm] at hw
    cases hw
  · exact fun h => exists_flow _ _ _ _ fun h1 h2 => absurd h (not_or.2 ⟨h1, h2⟩)

theorem size_empty_lt : (HashMap.empty : HashMap PolicyKey PolicyValue maxEntriesPolicy).size < maxEntriesPolicy := by decide

theorem add_one_ne (a : U8) : a + 1 ≠ a := by
  revert a; decide

/-- An exact policy changes the decision of its key where another action stood before. -/
theorem exists_change_exact (t : Parsed p) (hw : hasWildcard p = false) {f : Flow} (hf : f.key = t.key) :
    ∃ pm, ¬ (Refused p pm ∨ SameDecisions p pm) := by
  obtain ⟨x, hx⟩ := HashMap.exists_put (Or.inr size_empty_lt) { t.value with action := t.action + 1 }
  have hold : x.lookup t.key = some { t.value with action := t.action + 1 } := by
    rw [HashMap.lookup_put hx, if_pos rfl]
  obtain ⟨m', hadd⟩ := @exists_add_of_room ⟨x, .replicate .zero⟩ p hw t (Or.inl (by rw [hold]; rfl))
  refine ⟨⟨⟨x, .replicate .zero⟩, none⟩, changes_of_add (f := f) hadd fun hdec => ?_⟩
  obtain ⟨t', hput, _⟩ := (add_exact_ok hw).1 hadd
  obtain rfl := t.unique t'
  have hnew : m'.policyMap.lookup t.key = some t.value := by rw [HashMap.lookup_put hput, if_pos rfl]
  rw [hf, decision_exact hnew, decision_exact hold] at hdec
  exact add_one_ne t.action (congrArg Prod.fst hdec).symm

/-- No flow has the key of a policy for ports of a protocol without ports. -/
theorem same_of_exactWithoutPorts (h : ExactWithoutPorts p) (pm : PolicyManager) : Refused p pm ∨ SameDecisions p pm := by
  obtain ⟨hw, htcp, hudp⟩ := h
  rcases refused_or_added p pm with hr | ⟨m', hadd, _, hmaps⟩
  · exact Or.inl hr
  · obtain ⟨t, hput, hsame⟩ := (add_exact_ok hw).1 hadd
    refine Or.inr fun f => ?_
    have hne : f.key ≠ t.key := fun he => absurd ((exists_flow_key_iff t hw).1 ⟨f, he⟩) (not_or.2 ⟨htcp, hudp⟩)
    rw [hmaps]
    exact decision_eq_of_matches (by rw [HashMap.lookup_put hput, if_neg hne]) fun j w => by rw [hsame]

/-- An entry of rule id 0 leaves its slot as free as it was. -/
theorem same_of_leavesFree (h : LeavesFree p) (pm : PolicyManager) : Refused p pm ∨ SameDecisions p pm := by
  obtain ⟨hw, h0⟩ := h
  rcases refused_or_added p pm with hr | ⟨m', hadd, _, hmaps⟩
  · exact Or.inl hr
  · obtain ⟨t, i, hi, hput, hsame⟩ := (add_wildcard_ok hw).1 hadd
    have hfree : ∀ w, pm.maps.wildcardPolicyMap.lookup i = some w → w.ruleId = 0 := by
      intro w hw
      have hfit := List.find?_some hi
      rw [hw, h0] at hfit
      exact (of_decide_eq_true hfit).elim id id
    refine Or.inr fun f => ?_
    rw [hmaps]
    refine decision_eq_of_matches (by rw [hsame]) fun j w => ?_
    rw [MatchAt, MatchAt, ArrayMap.lookup_put hput]
    split
    · next hj =>
      refine iff_of_false ?_ ?_
      · rintro ⟨he, hne, _⟩
        cases he
        exact hne h0
      · rintro ⟨he, hne, _⟩
        exact hne (hfree w (hj ▸ he))
    · rfl

/-- The search stops at slot 0 if that is free or the rule's own. -/
theorem slotFor_first {a : ArrayMap WildcardPolicy maxEntriesWildcardPolicy} {ruleID : U32}
    (h : ∀ e, a.lookup 0 = some e → e.ruleId = 0 ∨ e.ruleId = ruleID) : slotFor a ruleID = some 0 := by
  refine List.find?_range'_eq_some.2 ⟨?_, by decide, fun j _ hj => absurd hj (Nat.not_lt_zero j)⟩
  cases he : a.lookup 0 with
  | none => rfl
  | some e => exact decide_eq_true (h e he)

/-- A wildcard policy takes the place of what its rule id did before. -/
theorem exists_change_wildcard (t : Parsed p) (hw : hasWildcard p = true) (h0 : p.ruleID ≠ 0) :
    ∃ pm, ¬ (Refused p pm ∨ SameDecisions p pm) := by
  -- slot 0 has the rule for all traffic, with another action
  obtain ⟨a, ha⟩ := ArrayMap.exists_put (.replicate .zero : ArrayMap WildcardPolicy maxEntriesWildcardPolicy)
    (by decide : 0 < maxEntriesWildcardPolicy) { WildcardPolicy.zero with action := t.action + 1, ruleId := p.ruleID }
  have hlook := ArrayMap.lookup_put ha
  have hslot : slotFor a p.ruleID = some 0 := slotFor_first fun e he => by
    rw [hlook, if_pos rfl] at he
    cases he
    exact Or.inr rfl
  obtain ⟨m', hadd⟩ := @exists_add_of_slotFor ⟨.empty, a⟩ p hw t 0 hslot
  refine ⟨⟨⟨.empty, a⟩, none⟩, changes_of_add (f := toPort443) hadd fun hdec => ?_⟩
  obtain ⟨t', i, hi, hput, hx⟩ := (add_wildcard_ok hw).1 hadd
  obtain rfl := t.unique t'
  have hi0 : i = 0 := Option.some.inj (hi.symm.trans hslot)
  rw [hi0] at hput
  have hnew := ArrayMap.lookup_put hput
  have hnone : m'.policyMap.lookup toPort443.key = none := by rw [hx]; exact HashMap.lookup_empty _
  have hbefore : bestMatch toPort443.key a =
      some { WildcardPolicy.zero with action := t.action + 1, ruleId := p.ruleID } := by
    refine bestMatch_of_unique (by decide : 0 < scanLimit) (by rw [hlook, if_pos rfl]) h0 ?_ fun j _ w hj hne _ => ?_
    · exact matchesWildcard_iff.2 ⟨by simp [WildcardPolicy.zero], by simp [WildcardPolicy.zero], Or.inl rfl, Or.inl rfl, Or.inl rfl⟩
    · rw [hlook] at hj
      split at hj
      · exact (Option.some.inj hj).symm
      · rw [ArrayMap.lookup_replicate] at hj
        split at hj
        · cases hj; exact absurd rfl hne
        · cases hj
  rw [decision_scan hnone, decision_scan (HashMap.lookup_empty _), hbefore] at hdec
  cases hb : bestMatch toPort443.key m'.wildcardPolicyMap with
  | none =>
    rw [hb] at hdec
    exact h0 (congrArg Prod.snd hdec).symm
  | some b =>
    obtain ⟨j, _, hj, hne, _⟩ := bestMatch_mem hb
    rw [hnew] at hj
    split at hj
    · cases hj
      rw [hb] at hdec
      exact add_one_ne t.action (congrArg Prod.fst hdec).symm
    · rw [hlook, if_neg (by assumption), ArrayMap.lookup_replicate] at hj
      split at hj
      · cases hj; exact hne rfl
      · cases hj

/-- **An addition never changes a decision** exactly when it is always refused, or has a key that no flow has, or writes
a free slot. -/
theorem never_changes_iff : (∀ pm, Refused p pm ∨ SameDecisions p pm) ↔
    ¬ Nonempty (Parsed p) ∨ ExactWithoutPorts p ∨ LeavesFree p := by
  constructor
  · intro h
    by_cases hp : Nonempty (Parsed p)
    · obtain ⟨t⟩ := hp
      refine Or.inr ?_
      cases hw : hasWildcard p with
      | false =>
        refine Or.inl ⟨hw, not_or.1 fun hports => ?_⟩
        obtain ⟨f, hf⟩ := (exists_flow_key_iff t hw).2 hports
        obtain ⟨pm, hpm⟩ := exists_change_exact t hw hf
        exact hpm (h pm)
      | true =>
        refine Or.inr ⟨hw, by_contra fun h0 => ?_⟩
        obtain ⟨pm, hpm⟩ := exists_change_wildcard t hw h0
        exact hpm (h pm)
    · exact Or.inl hp
  · rintro (hp | hx | hf) pm
    · exact Or.inl (refused_of_not_parsed hp pm)
    · exact same_of_exactWithoutPorts hx pm
    · exact same_of_leavesFree hf pm

theorem exists_add_empty (t : Parsed p) : ∃ m', PolicyMaps.empty.add p = .ok m' := by
  cases hw : hasWildcard p with
  | false => exact exists_add_of_room hw t (Or.inr size_empty_lt)
  | true =>
    refine exists_add_of_slotFor hw t (slotFor_first fun e he => ?_)
    rw [PolicyMaps.empty, ArrayMap.lookup_replicate, if_pos (by decide)] at he
    cases he
    exact Or.inl rfl

/-- What was added is there, unless the slot is still free. -/
theorem mem_entries_of_add (t : Parsed p) (hfree : ¬ LeavesFree p) {m m' : PolicyMaps} (hadd : m.add p = .ok m') :
    (if hasWildcard p then Entry.wildcard t.wildcard else .exact t.key t.value) ∈ m'.entries := by
  cases hw : hasWildcard p with
  | false =>
    obtain ⟨t', hput, _⟩ := (add_exact_ok hw).1 hadd
    obtain rfl := t.unique t'
    exact exact_mem_entries.2 (by rw [HashMap.lookup_put hput, if_pos rfl])
  | true =>
    obtain ⟨t', i, _, hput, _⟩ := (add_wildcard_ok hw).1 hadd
    obtain rfl := t.unique t'
    exact wildcard_mem_entries.2 ⟨i, by rw [ArrayMap.lookup_put hput, if_pos rfl], fun h0 => hfree ⟨hw, h0⟩⟩

/-- **An addition never installs its policy** exactly when it is always refused or writes a free slot. -/
theorem never_installs_iff : (∀ pm, ¬ Installs p pm) ↔ ¬ Nonempty (Parsed p) ∨ LeavesFree p := by
  constructor
  · intro h
    by_cases hp : Nonempty (Parsed p)
    · obtain ⟨t⟩ := hp
      refine Or.inr (by_contra fun hfree => ?_)
      obtain ⟨m', hadd⟩ := exists_add_empty t
      have hok : ((addPolicy p).run .fresh).2 = .ok () := addPolicy_ok_iff.2 ⟨m', hadd⟩
      have hmaps : ((addPolicy p).run .fresh).1.maps = m' := by
        rw [addPolicy_maps, PolicyManager.fresh, hadd]; rfl
      exact h .fresh ⟨hok, _, hmaps ▸ mem_entries_of_add t hfree hadd, encoding_parsed t⟩
    · exact Or.inl hp
  · rintro (hp | ⟨hw, h0⟩) pm ⟨hok, e, he, henc⟩
    · exact not_refused hok (refused_of_not_parsed hp pm)
    · rcases parsed_cases p with ⟨⟨t⟩⟩ | ⟨err, hx, hwild⟩
      · rw [encoding_parsed t, hw] at henc
        cases henc
        obtain ⟨_, _, hne⟩ := wildcard_mem_entries.1 he
        exact hne h0
      · rw [encoding, hw, hwild] at henc
        cases henc

end Addition

/-! ## IPv6 texts -/

/-- The text is an IPv6 address or prefix, and not an IPv4 address in IPv6 notation. -/
def NamesIPv6 (cidr : String) : Prop := ∃ t : Ipv6Text, cidr = t.text

/-- The prefix length that `parseCIDR` writes behind a bare address. -/
def ipv6Len32 : Ipv6PrefixLen := ⟨len32.text, len32.nonempty, len32.digits, by decide⟩

/-- A bare IPv6 address is read as a prefix of 32 bits. -/
theorem parseCIDR_ipv6 (t : Ipv6Text) :
    parseCIDR t.text = .ok (t.bytes, cidrMask (decimalFrom 0 (t.len.getD ipv6Len32).text) 128) := by
  obtain ⟨addr, bytes, reads, length_eq, notMapped, noSlash, len⟩ := t
  cases len with
  | none =>
    have hno : '/' ∉ addr := fun h => noSlash _ h rfl
    have happ : String.ofList addr ++ "/32" = String.ofList (addr ++ '/' :: ipv6Len32.text) := by
      rw [String.ofList_append]; rfl
    simp only [parseCIDR, Ipv6Text.text, String.toList_ofList, hno, ↓reduceIte, happ]
    rw [Ipv6Text.parseCIDR_slash ⟨addr, bytes, reads, length_eq, notMapped, noSlash, none⟩ ipv6Len32]; rfl
  | some n =>
    have hyes : '/' ∈ addr ++ '/' :: n.text := by simp
    simp only [parseCIDR, Ipv6Text.text, String.toList_ofList, hyes, ↓reduceIte]
    rw [Ipv6Text.parseCIDR_slash ⟨addr, bytes, reads, length_eq, notMapped, noSlash, some n⟩ n]; rfl

/-- It is stored as 0.0.0.0, with a mask of all ones. -/
theorem stored_ipv6 {cidr : String} (h : NamesIPv6 cidr) {ip : IP} {mask : IPMask} (hp : parseCIDR cidr = .ok (ip, mask)) :
    ipToUint32 ip = 0 ∧ maskToUint32 mask = 0xFFFFFFFF := by
  obtain ⟨t, rfl⟩ := h
  rw [parseCIDR_ipv6] at hp
  cases hp
  have hlen := (cidrMask_128 (t.len.getD ipv6Len32).le).1
  exact ⟨by rw [ipToUint32, t.to4_bytes], by rw [maskToUint32, if_pos (by rw [hlen]; decide)]⟩

/-- **IPv6 addresses.** For a policy with an IPv6 source or destination: in every state `AddPolicy` refuses it or leaves
all decisions as they were, exactly when it does not parse for another reason, or names a source port of a
protocol without ports, or is a wildcard policy of rule id 0; in no state its entry is installed, exactly
when it does not parse or is a wildcard policy of rule id 0; and what is installed otherwise has the
address 0.0.0.0 in the place of the IPv6 address. -/
theorem ipv6_unenforced_iff {p : Policy} (h : NamesIPv6 p.srcIP ∨ NamesIPv6 p.dstIP) :
    ((∀ pm, Refused p pm ∨ SameDecisions p pm) ↔ ¬ Nonempty (Parsed p) ∨ ExactWithoutPorts p ∨ LeavesFree p) ∧
    ((∀ pm, ¬ Installs p pm) ↔ ¬ Nonempty (Parsed p) ∨ LeavesFree p) ∧
    ∀ t : Parsed p,
      (NamesIPv6 p.srcIP ∧ t.key.srcIp = 0 ∧ t.wildcard.srcIp = 0 ∧ t.wildcard.srcIpMask = 0xFFFFFFFF) ∨
      (NamesIPv6 p.dstIP ∧ t.key.dstIp = 0 ∧ t.wildcard.dstIp = 0 ∧ t.wildcard.dstIpMask = 0xFFFFFFFF) := by
  refine ⟨never_changes_iff, never_installs_iff, fun t => ?_⟩
  rcases h with h | h
  · obtain ⟨hip, hmask⟩ := stored_ipv6 h t.hsrc
    exact Or.inl ⟨h, hip, hip, hmask⟩
  · obtain ⟨hip, hmask⟩ := stored_ipv6 h t.hdst
    exact Or.inr ⟨h, hip, hip, hmask⟩

/-! ### A documentation address -/

def ipv6Doc : Ipv6Text where
  addr := "2001:db8::1".toList
  bytes := [0x20, 0x01, 0x0d, 0xb8, 0, 0, 0, 0, 0, 0, 0, 0, 0, 0, 0, 1]
  reads := rfl
  length_eq := rfl
  notMapped := by decide
  noSlash := by simp
  len := none

/-- "Deny HTTPS from 2001:db8::1 to 10.0.0.5". -/
def denyIPv6 : Policy := ⟨1, "2001:db8::1", "10.0.0.5", 40000, 443, "tcp", "deny", 100⟩

/-- The connection of the host 0.0.0.0. -/
def fromZero : Flow := { toPort443 with srcIP := 0 }

/-- The policy is accepted and denies the connection of another host. -/
theorem ipv6_denies_zero : NamesIPv6 denyIPv6.srcIP ∧ ((addPolicy denyIPv6).run .fresh).2 = .ok () ∧
    decision PolicyManager.fresh.maps fromZero.key = (PolicyAction.allow.code, 0) ∧
    decision ((addPolicy denyIPv6).run .fresh).1.maps fromZero.key = (PolicyAction.deny.code, 1) :=
  ⟨⟨ipv6Doc, by decide⟩, by decide, by decide, by decide⟩

theorem denyIPv6_iff : (∀ pm, Refused denyIPv6 pm ∨ SameDecisions denyIPv6 pm) ↔
    ¬ Nonempty (Parsed denyIPv6) ∨ ExactWithoutPorts denyIPv6 ∨ LeavesFree denyIPv6 :=
  (@ipv6_unenforced_iff denyIPv6 (Or.inl ⟨ipv6Doc, by decide⟩)).1

end Microseg
