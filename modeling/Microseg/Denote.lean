import Microseg.Packet
import Microseg.Lookup
import Microseg.Manager
/-!
# What a policy means, and what its entry matches

A policy is a 5-tuple of CIDR blocks, ports (0 for any) and a protocol (`doc.go:9-16`); `Denotes` is the
set of flows it stands for. Its entry in the wildcard array is written by the agent and read by
`matches_wildcard`, and the two do not agree on the byte order of a mask: `ipToUint32` reads the address
as the kernel does, `maskToUint32` reads the mask the other way round (`policy.go:344-371`). So an
entry matches the block of its policy only where the order does not matter (`cidr_enforced_iff`).

A policy stored under one exact key is found only for that key; `exact_found_iff` says when this is all
the policy denotes.
-/
namespace Microseg
open Words KernelMap GoNet

/-! ## IPv4 texts -/

/-- The text of an IPv4 block: a dotted quad with or without a prefix length. -/
structure Ipv4Text where
  addr : Ipv4Addr
  len : Option PrefixLen

namespace Ipv4Text

def text (t : Ipv4Text) : String :=
  match t.len with
  | none => String.ofList t.addr.text
  | some n => String.ofList (t.addr.text ++ '/' :: n.text)

/-- The written prefix length; a plain address is a single host. -/
def prefixLen (t : Ipv4Text) : Nat := t.len.elim 32 PrefixLen.val

/-- The address, in host form. -/
def host (t : Ipv4Text) : U32 := t.addr.val

theorem prefixLen_le (t : Ipv4Text) : t.prefixLen ≤ 32 := by
  obtain ⟨a, n⟩ := t
  cases n with
  | none => exact Nat.le_refl 32
  | some n => exact n.le

/-- The addresses of the block: those with the same first bits. -/
def Contains (t : Ipv4Text) (x : U32) : Prop := x >>> (32 - t.prefixLen) = t.host >>> (32 - t.prefixLen)

instance (t : Ipv4Text) (x : U32) : Decidable (t.Contains x) := inferInstanceAs (Decidable (_ = _))

theorem contains_host (t : Ipv4Text) : t.Contains t.host := rfl

theorem contains_iff (t : Ipv4Text) (x : U32) :
    t.Contains x ↔ x &&& prefixMask 32 t.prefixLen = t.host &&& prefixMask 32 t.prefixLen :=
  (and_prefixMask_eq_iff x t.host).symm

end Ipv4Text

/-- `/32` as `parseCIDR` appends it. -/
def len32 : PrefixLen := ⟨['3', '2'], by simp, by simp, by decide⟩

theorem parseCIDR_text (t : Ipv4Text) :
    parseCIDR t.text = .ok (v4InV6Prefix ++ t.addr.bytes, cidrMask t.prefixLen 32) := by
  obtain ⟨a, n⟩ := t
  cases n with
  | none =>
    have hno : '/' ∉ a.text := fun h => no_slash a _ h rfl
    have happ : String.ofList a.text ++ "/32" = String.ofList (a.text ++ '/' :: len32.text) := by
      rw [String.ofList_append]; rfl
    simp only [parseCIDR, Ipv4Text.text, String.toList_ofList, hno, ↓reduceIte, happ, parseCIDR_ipv4]
    rfl
  | some n =>
    have hyes : '/' ∈ a.text ++ '/' :: n.text := by simp
    simp only [parseCIDR, Ipv4Text.text, String.toList_ofList, hyes, ↓reduceIte, parseCIDR_ipv4]
    rfl

theorem ipToUint32_text (t : Ipv4Text) : ipToUint32 (v4InV6Prefix ++ t.addr.bytes) = swap32 t.host := by
  have h : ipToUint32 (v4InV6Prefix ++ t.addr.bytes) = le32 t.addr.bytes := by
    rw [ipToUint32, Ipv4Addr.bytes, to4_mapped]
  rw [h, Ipv4Addr.bytes, le32_eq_swap32_be32]; rfl

theorem maskToUint32_text (t : Ipv4Text) : maskToUint32 (cidrMask t.prefixLen 32) = prefixMask 32 t.prefixLen := by
  obtain ⟨h, hl⟩ := be32_cidrMask t.prefixLen_le
  simp [maskToUint32, hl, h]

theorem htons_eq_swap16 (v : U16) : htons v = swap16 v := by
  refine ext_bytes16 fun j hj => ?_
  obtain ⟨h0, h1⟩ := getLsbD_swap16 v hj
  have hmask : ∀ i < 16, (0xff00 : U16).getLsbD i = decide (8 ≤ i) := by decide
  -- below, the shift to the left has nothing; above, the shift to the right has nothing
  constructor
  · rw [h0, htons, BitVec.getLsbD_or, BitVec.getLsbD_and, hmask j (by omega), BitVec.getLsbD_shiftLeft,
      BitVec.getLsbD_ushiftRight]
    simp [hj, Nat.not_le.2 hj]
  · rw [h1, htons, BitVec.getLsbD_or, BitVec.getLsbD_and, hmask (8 + j) (by omega), BitVec.getLsbD_shiftLeft,
      BitVec.getLsbD_ushiftRight, BitVec.getLsbD_of_ge v (8 + (8 + j)) (by omega)]
    simp [show 8 + j < 16 by omega]

/-! ## The flows of a policy -/

/-- The protocols a policy's text names, in any letter case. -/
def protocolAdmits (name : String) (protocol : U8) : Prop :=
  (toLower name = "any" ∨ toLower name = "") ∨ (toLower name = "tcp" ∧ protocol = ipprotoTcp) ∨
    (toLower name = "udp" ∧ protocol = ipprotoUdp) ∨ (toLower name = "icmp" ∧ protocol = 1)

/-- The flows a policy with addresses `s` and `d` denotes. -/
structure Denotes (p : Policy) (s d : Ipv4Text) (f : Flow) : Prop where
  src : s.Contains f.srcIP
  dst : d.Contains f.dstIP
  srcPort : p.srcPort = 0 ∨ f.srcPort = p.srcPort
  dstPort : p.dstPort = 0 ∨ f.dstPort = p.dstPort
  protocol : protocolAdmits p.protocol f.protocol

theorem admits_iff {name : String} {v : U8} (h : parseProtocol name = .ok v) (x : U8) :
    protocolAdmits name x ↔ v = 0 ∨ x = v := by
  unfold parseProtocol at h
  split_ifs at h with h1 h2 h3 h4 <;> cases h
  · simp [protocolAdmits, h1, ipprotoTcp]
  · simp [protocolAdmits, h2, ipprotoUdp]
  · simp [protocolAdmits, h3]
  · simp [protocolAdmits, h4]

/-- The protocol numbers a policy can have. -/
theorem parseProtocol_cases {name : String} {v : U8} (h : parseProtocol name = .ok v) :
    (toLower name = "tcp" ∧ v = 6) ∨ (toLower name = "udp" ∧ v = 17) ∨ (toLower name = "icmp" ∧ v = 1) ∨
      ((toLower name = "any" ∨ toLower name = "") ∧ v = 0) := by
  unfold parseProtocol at h
  split_ifs at h with h1 h2 h3 h4 <;> cases h
  · exact Or.inl ⟨h1, rfl⟩
  · exact Or.inr (Or.inl ⟨h2, rfl⟩)
  · exact Or.inr (Or.inr (Or.inl ⟨h3, rfl⟩))
  · exact Or.inr (Or.inr (Or.inr ⟨h4, rfl⟩))

theorem proto_eq_zero_iff {name : String} {v : U8} (h : parseProtocol name = .ok v) :
    v = 0 ↔ toLower name = "any" ∨ toLower name = "" := by
  rcases parseProtocol_cases h with ⟨e, rfl⟩ | ⟨e, rfl⟩ | ⟨e, rfl⟩ | ⟨e, rfl⟩
  · rw [e]; decide
  · rw [e]; decide
  · rw [e]; decide
  · exact iff_of_true rfl e

theorem proto_eq_icmp_iff {name : String} {v : U8} (h : parseProtocol name = .ok v) :
    v = 1 ↔ toLower name = "icmp" := by
  rcases parseProtocol_cases h with ⟨e, rfl⟩ | ⟨e, rfl⟩ | ⟨e, rfl⟩ | ⟨e | e, rfl⟩ <;> rw [e] <;> decide

/-- A packet can carry any addresses, ports and an admitted protocol, except that ICMP has no ports. -/
theorem exists_flow_admitted {name : String} {v : U8} (h : parseProtocol name = .ok v) (x y : U32) (sp dp : U16)
    (hports : v = 1 → sp = 0 ∧ dp = 0) :
    ∃ f : Flow, f.srcIP = x ∧ f.dstIP = y ∧ f.srcPort = sp ∧ f.dstPort = dp ∧ protocolAdmits name f.protocol := by
  have hadm := admits_iff h
  rcases parseProtocol_cases h with ⟨_, rfl⟩ | ⟨_, rfl⟩ | ⟨_, rfl⟩ | ⟨_, rfl⟩
  · exact ⟨⟨x, y, sp, dp, 6, fun h _ => absurd rfl h⟩, rfl, rfl, rfl, rfl, (hadm 6).2 (Or.inr rfl)⟩
  · exact ⟨⟨x, y, sp, dp, 17, fun _ h => absurd rfl h⟩, rfl, rfl, rfl, rfl, (hadm 17).2 (Or.inr rfl)⟩
  · exact ⟨⟨x, y, sp, dp, 1, fun _ _ => hports rfl⟩, rfl, rfl, rfl, rfl, (hadm 1).2 (Or.inr rfl)⟩
  · exact ⟨⟨x, y, sp, dp, 6, fun h _ => absurd rfl h⟩, rfl, rfl, rfl, rfl, (hadm 6).2 (Or.inl rfl)⟩

/-- A flow of protocol ICMP has no ports. -/
theorem icmp_noPorts {name : String} {v : U8} (h : parseProtocol name = .ok v) (hv : v = 1) {f : Flow}
    (ha : protocolAdmits name f.protocol) : f.srcPort = 0 ∧ f.dstPort = 0 := by
  have hf : f.protocol = 1 := ((admits_iff h _).1 ha).elim (fun h0 => absurd (hv.symm.trans h0) (by decide)) (·.trans hv)
  exact f.noPorts (hf ▸ by decide) (hf ▸ by decide)

/-! ## What an entry matches -/

/-- **`matches_wildcard` on the entry of an IPv4 policy**: the addresses are compared under the byte swap of
the written masks, ports and protocol as written. -/
theorem matches_entry_iff {p : Policy} (t : Parsed p) {s d : Ipv4Text} (hs : p.srcIP = s.text)
    (hd : p.dstIP = d.text) (f : Flow) : matchesWildcard f.key t.wildcard = true ↔
      f.srcIP &&& swap32 (prefixMask 32 s.prefixLen) = s.host &&& swap32 (prefixMask 32 s.prefixLen) ∧
      f.dstIP &&& swap32 (prefixMask 32 d.prefixLen) = d.host &&& swap32 (prefixMask 32 d.prefixLen) ∧
      (p.srcPort = 0 ∨ f.srcPort = p.srcPort) ∧ (p.dstPort = 0 ∨ f.dstPort = p.dstPort) ∧
      protocolAdmits p.protocol f.protocol := by
  have hsrc := t.hsrc
  have hdst := t.hdst
  rw [hs, parseCIDR_text] at hsrc
  rw [hd, parseCIDR_text] at hdst
  have hmask : ∀ x a m : U32, swap32 x &&& m = swap32 a &&& m ↔ x &&& swap32 m = a &&& swap32 m := by
    intro x a m
    rw [← swap32_inj, swap32_and, swap32_and, swap32_swap32, swap32_swap32]
  have hzero : ∀ v : U16, swap16 v = 0 ↔ v = 0 := fun _ => swap16_eq_zero
  rw [matchesWildcard_iff, admits_iff t.hproto]
  simp only [Parsed.wildcard, Flow.key, ← Except.ok.inj hsrc, ← Except.ok.inj hdst, ipToUint32_text,
    maskToUint32_text, hmask, htons_eq_swap16, swap16_inj, hzero]

/-- A written block is what the swapped mask compares only for the whole address or none of it. -/
theorem contains_iff_swapped {t : Ipv4Text} (h : t.prefixLen = 0 ∨ t.prefixLen = 32) (x : U32) :
    x &&& swap32 (prefixMask 32 t.prefixLen) = t.host &&& swap32 (prefixMask 32 t.prefixLen) ↔ t.Contains x := by
  rw [swap32_prefixMask h, t.contains_iff]

theorem exists_contained_not_matched {t : Ipv4Text} (h0 : t.prefixLen ≠ 0) (h32 : t.prefixLen ≠ 32) :
    ∃ x, t.Contains x ∧
      x &&& swap32 (prefixMask 32 t.prefixLen) ≠ t.host &&& swap32 (prefixMask 32 t.prefixLen) := by
  have hle := t.prefixLen_le
  obtain ⟨d, hd, hd'⟩ := exists_bit_in_swapped_mask h0 (by omega : t.prefixLen < 32)
  exact ⟨t.host ^^^ d, (t.contains_iff _).2 ((xor_and_eq_iff _ _ _).2 hd), fun h => hd' ((xor_and_eq_iff _ _ _).1 h)⟩

/-- The lengths for which the byte order of a mask does not matter. -/
def WholeOrNone (t : Ipv4Text) : Prop := t.prefixLen = 0 ∨ t.prefixLen = 32

/-- The policy names ICMP and a port: no packet is in it. -/
def IcmpWithPort (p : Policy) : Prop := toLower p.protocol = "icmp" ∧ (p.srcPort ≠ 0 ∨ p.dstPort ≠ 0)

theorem icmpWithPort_iff {p : Policy} (t : Parsed p) : IcmpWithPort p ↔ t.proto = 1 ∧ (p.srcPort ≠ 0 ∨ p.dstPort ≠ 0) := by
  rw [IcmpWithPort, proto_eq_icmp_iff t.hproto]

/-- A packet of protocol ICMP has no ports, so none has what such a policy asks for. -/
theorem not_admitted_of_icmpWithPort {p : Policy} (t : Parsed p) (h : IcmpWithPort p) (f : Flow) :
    ¬ ((p.srcPort = 0 ∨ f.srcPort = p.srcPort) ∧ (p.dstPort = 0 ∨ f.dstPort = p.dstPort) ∧
      protocolAdmits p.protocol f.protocol) := by
  obtain ⟨hv, hport⟩ := (icmpWithPort_iff t).1 h
  rintro ⟨hsp, hdp, ha⟩
  obtain ⟨h1, h2⟩ := icmp_noPorts t.hproto hv ha
  rw [h1] at hsp
  rw [h2] at hdp
  exact hport.elim (fun h => h (hsp.elim id Eq.symm)) fun h => h (hdp.elim id Eq.symm)

/-- A packet with the given addresses that has everything else the policy asks for. -/
theorem exists_flow_of_not_icmpWithPort {p : Policy} (t : Parsed p) (h : ¬ IcmpWithPort p) (x y : U32) :
    ∃ f : Flow, f.srcIP = x ∧ f.dstIP = y ∧ (p.srcPort = 0 ∨ f.srcPort = p.srcPort) ∧
      (p.dstPort = 0 ∨ f.dstPort = p.dstPort) ∧ protocolAdmits p.protocol f.protocol := by
  rw [icmpWithPort_iff t, not_and_or, not_or, not_not, not_not] at h
  obtain ⟨f, hx, hy, hsp, hdp, ha⟩ := exists_flow_admitted t.hproto x y p.srcPort p.dstPort
    fun h1 => h.resolve_left fun h' => h' h1
  exact ⟨f, hx, hy, Or.inr hsp, Or.inr hdp, ha⟩

theorem entry_matches_denoted_iff {p : Policy} (t : Parsed p) {s d : Ipv4Text} (hs : p.srcIP = s.text)
    (hd : p.dstIP = d.text) : (∀ f : Flow, matchesWildcard f.key t.wildcard = true ↔ Denotes p s d f) ↔
      (WholeOrNone s ∧ WholeOrNone d) ∨ IcmpWithPort p := by
  constructor
  · intro h
    by_contra hc
    rw [not_or, not_and_or] at hc
    obtain ⟨hlen, hicmp⟩ := hc
    -- an address of the block that the swapped mask tells from the written one, on the side that goes wrong
    rcases hlen with hlen | hlen <;> rw [WholeOrNone, not_or] at hlen
    · obtain ⟨x, hx, hx'⟩ := exists_contained_not_matched hlen.1 hlen.2
      obtain ⟨f, rfl, hy, hsp, hdp, ha⟩ := exists_flow_of_not_icmpWithPort t hicmp x d.host
      have hden : Denotes p s d f := ⟨hx, hy ▸ d.contains_host, hsp, hdp, ha⟩
      exact hx' ((matches_entry_iff t hs hd f).1 ((h f).2 hden)).1
    · obtain ⟨y, hy, hy'⟩ := exists_contained_not_matched hlen.1 hlen.2
      obtain ⟨f, hx, rfl, hsp, hdp, ha⟩ := exists_flow_of_not_icmpWithPort t hicmp s.host y
      have hden : Denotes p s d f := ⟨hx ▸ s.contains_host, hy, hsp, hdp, ha⟩
      exact hy' ((matches_entry_iff t hs hd f).1 ((h f).2 hden)).2.1
  · rintro (⟨h1, h2⟩ | hicmp) f
    · rw [matches_entry_iff t hs hd, contains_iff_swapped h1, contains_iff_swapped h2]
      exact ⟨fun ⟨a, b, c, e, g⟩ => ⟨a, b, c, e, g⟩, fun ⟨a, b, c, e, g⟩ => ⟨a, b, c, e, g⟩⟩
    · -- neither side holds
      have hno := not_admitted_of_icmpWithPort t hicmp f
      rw [matches_entry_iff t hs hd]
      exact iff_of_false (fun h => hno h.2.2) fun h => hno ⟨h.srcPort, h.dstPort, h.protocol⟩

/-- **CIDR enforcement**: an accepted IPv4 policy routed to the wildcard array is stored in the slot the
search stopped at, and its entry matches exactly the flows of the policy iff both written prefix lengths
are 0 or 32, or no packet can be in the policy at all. -/
theorem cidr_enforced_iff {p : Policy} {s d : Ipv4Text} (hs : p.srcIP = s.text) (hd : p.dstIP = d.text)
    (hw : hasWildcard p = true) {pm pm' : PolicyManager} (hadd : (addPolicy p).run pm = (pm', .ok ())) :
    ∃ i w, slotFor pm.maps.wildcardPolicyMap p.ruleID = some i ∧ pm'.maps.wildcardPolicyMap.lookup i = some w ∧
      ((∀ f : Flow, matchesWildcard f.key w = true ↔ Denotes p s d f) ↔
        (WholeOrNone s ∧ WholeOrNone d) ∨ IcmpWithPort p) := by
  obtain ⟨t, i, hi, hput, _⟩ := (add_wildcard_ok hw).1 (addPolicy_eq_ok hadd)
  refine ⟨i, t.wildcard, hi, ?_, entry_matches_denoted_iff t hs hd⟩
  rw [ArrayMap.lookup_put hput, if_pos rfl]

/-! ### A subnet that is not matched -/

def octet0 : Octet := ⟨'0', [], by simp, by decide, by decide⟩
def octet5 : Octet := ⟨'5', [], by simp, by decide, by decide⟩
def octet10 : Octet := ⟨'1', ['0'], by simp, by decide, by decide⟩

/-- `10.0.0.0/8`. -/
def net10 : Ipv4Text := ⟨⟨octet10, octet0, octet0, octet0⟩, some ⟨['8'], by decide, by simp, by decide⟩⟩

/-- `10.0.0.5`. -/
def host5 : Ipv4Text := ⟨⟨octet10, octet0, octet0, octet5⟩, none⟩

/-- "Deny HTTPS from 10.0.0.0/8 to 10.0.0.5." -/
def denySubnet : Policy := ⟨1, "10.0.0.0/8", "10.0.0.5", 0, 443, "tcp", "deny", 100⟩

/-- A connection from 10.1.2.3. -/
def fromSubnet : Flow := ⟨0x0a010203, 0x0a000005, 40000, 443, ipprotoTcp, fun h => absurd rfl h⟩

/-- The policy is accepted and denotes the connection; its entry does not match it. -/
theorem subnet_not_matched :
    denySubnet.srcIP = net10.text ∧ denySubnet.dstIP = host5.text ∧ hasWildcard denySubnet = true ∧
    ((addPolicy denySubnet).run .fresh).2 = .ok () ∧ Denotes denySubnet net10 host5 fromSubnet ∧
    ∃ w, wildcardEntry denySubnet = .ok w ∧ matchesWildcard fromSubnet.key w = false := by
  refine ⟨by decide, by decide, by decide, by decide, ⟨by decide, by decide, Or.inl rfl, Or.inr rfl, ?_⟩, _, rfl, ?_⟩
  · exact Or.inr (Or.inl ⟨by decide, rfl⟩)
  · decide

/-- The same rule for a single source host. -/
def denyHost : Policy := ⟨1, "10.0.0.5", "10.0.0.5", 0, 443, "tcp", "deny", 100⟩

/-- Rule 2 allows what `denyHost` denies, with the same priority. -/
def allowHost : Policy := ⟨2, "10.0.0.5", "10.0.0.5", 0, 443, "tcp", "allow", 100⟩

theorem host_enforced : ∃ i w, slotFor PolicyManager.fresh.maps.wildcardPolicyMap denyHost.ruleID = some i ∧
    ((addPolicy denyHost).run .fresh).1.maps.wildcardPolicyMap.lookup i = some w ∧
    ((∀ f : Flow, matchesWildcard f.key w = true ↔ Denotes denyHost host5 host5 f) ↔
      (WholeOrNone host5 ∧ WholeOrNone host5) ∨ IcmpWithPort denyHost) :=
  cidr_enforced_iff (by decide) (by decide) (by decide)
    (Prod.ext rfl (by decide : ((addPolicy denyHost).run .fresh).2 = .ok ()))

/-! ## One exact key for a policy -/

/-- The exact key of an IPv4 policy, in host terms. -/
theorem key_ipv4 {p : Policy} (t : Parsed p) {s d : Ipv4Text} (hs : p.srcIP = s.text) (hd : p.dstIP = d.text) :
    t.key = ⟨swap32 s.host, swap32 d.host, swap16 p.srcPort, swap16 p.dstPort, t.proto, 0⟩ := by
  have hsrc := t.hsrc
  have hdst := t.hdst
  rw [hs, parseCIDR_text] at hsrc
  rw [hd, parseCIDR_text] at hdst
  simp only [Parsed.key, ← Except.ok.inj hsrc, ← Except.ok.inj hdst, ipToUint32_text, htons_eq_swap16]

theorem flow_key_eq_iff {p : Policy} (t : Parsed p) {s d : Ipv4Text} (hs : p.srcIP = s.text) (hd : p.dstIP = d.text)
    (f : Flow) : f.key = t.key ↔ f.srcIP = s.host ∧ f.dstIP = d.host ∧ f.srcPort = p.srcPort ∧
      f.dstPort = p.dstPort ∧ f.protocol = t.proto := by
  rw [key_ipv4 t hs hd]
  simp [Flow.key]

theorem contains_single {t : Ipv4Text} (h : t.prefixLen = 32) {x : U32} : t.Contains x ↔ x = t.host := by
  simp [Ipv4Text.Contains, h]

/-- A block shorter than /32 has a second address. -/
theorem exists_other_address {t : Ipv4Text} (h : t.prefixLen ≠ 32) : ∃ x, t.Contains x ∧ x ≠ t.host := by
  have hle := t.prefixLen_le
  have hlow : ∀ n < 32, 1#32 &&& prefixMask 32 n = 0#32 := by decide
  refine ⟨t.host ^^^ 1#32, (t.contains_iff _).2 ((xor_and_eq_iff _ _ _).2 (hlow _ (by omega))), fun he => ?_⟩
  have h1 : t.host ^^^ 1#32 = t.host ^^^ 0#32 := by rw [he, BitVec.xor_zero]
  exact absurd ((BitVec.xor_right_inj _).1 h1) (by decide)

/-- The policy names a single flow: hosts, a destination port, a protocol. -/
structure SingleFlow (p : Policy) (s d : Ipv4Text) : Prop where
  src : s.prefixLen = 32
  dst : d.prefixLen = 32
  dstPort : p.dstPort ≠ 0
  protocol : toLower p.protocol ≠ ""

theorem hasWildcard_eq_false {p : Policy} (h : hasWildcard p = false) : p.srcPort ≠ 0 ∧ toLower p.protocol ≠ "any" := by
  unfold hasWildcard at h
  split_ifs at h with h1 h2 h3 h4
  exact ⟨h1, h4⟩

theorem denoted_have_key_iff {p : Policy} (t : Parsed p) {s d : Ipv4Text} (hs : p.srcIP = s.text)
    (hd : p.dstIP = d.text) (hx : hasWildcard p = false) :
    (∀ f : Flow, Denotes p s d f → f.key = t.key) ↔ SingleFlow p s d ∨ toLower p.protocol = "icmp" := by
  obtain ⟨hsp, hany⟩ := hasWildcard_eq_false hx
  constructor
  · intro h
    by_cases hi : toLower p.protocol = "icmp"
    · exact Or.inr hi
    have hp1 : t.proto ≠ 1 := mt (proto_eq_icmp_iff t.hproto).1 hi
    -- a denoted flow with any admitted addresses and destination port; its key is the policy's
    have hkey : ∀ x y dp, s.Contains x → d.Contains y → (p.dstPort = 0 ∨ dp = p.dstPort) →
        x = s.host ∧ y = d.host ∧ dp = p.dstPort := by
      intro x y dp hx hy hdp
      obtain ⟨f, rfl, rfl, hfs, rfl, ha⟩ := exists_flow_admitted t.hproto x y p.srcPort dp
        fun h1 => absurd h1 hp1
      have hden : Denotes p s d f := ⟨hx, hy, Or.inr hfs, hdp, ha⟩
      obtain ⟨h1, h2, _, h4, _⟩ := (flow_key_eq_iff t hs hd f).1 (h f hden)
      exact ⟨h1, h2, h4⟩
    refine Or.inl ⟨?_, ?_, ?_, ?_⟩
    · by_contra hne
      obtain ⟨x, hx, hx'⟩ := exists_other_address hne
      exact hx' (hkey x d.host p.dstPort hx d.contains_host (Or.inr rfl)).1
    · by_contra hne
      obtain ⟨y, hy, hy'⟩ := exists_other_address hne
      exact hy' (hkey s.host y p.dstPort s.contains_host hy (Or.inr rfl)).2.1
    · intro h0
      have h1 := (hkey s.host d.host 1 s.contains_host d.contains_host (Or.inl h0)).2.2
      rw [h0] at h1
      exact absurd h1 (by decide)
    · -- an empty protocol admits TCP and UDP alike
      intro he
      have hadm : ∀ x, protocolAdmits p.protocol x := fun _ => Or.inl (Or.inr he)
      let tcp : Flow := ⟨s.host, d.host, p.srcPort, p.dstPort, ipprotoTcp, fun h _ => absurd rfl h⟩
      have hden : Denotes p s d tcp := ⟨s.contains_host, d.contains_host, Or.inr rfl, Or.inr rfl, hadm _⟩
      have h0 : t.proto = 0 := (proto_eq_zero_iff t.hproto).2 (Or.inr he)
      have h5 := ((flow_key_eq_iff t hs hd tcp).1 (h tcp hden)).2.2.2.2
      exact absurd (h5.trans h0) (by decide : ipprotoTcp ≠ 0)
  · rintro (hf | hi) f hden
    · have hv : t.proto ≠ 0 := fun h0 => ((proto_eq_zero_iff t.hproto).1 h0).elim hany hf.protocol
      refine (flow_key_eq_iff t hs hd f).2 ⟨(contains_single hf.src).1 hden.src, (contains_single hf.dst).1 hden.dst,
        hden.srcPort.resolve_left hsp, hden.dstPort.resolve_left hf.dstPort, ?_⟩
      exact ((admits_iff t.hproto _).1 hden.protocol).resolve_left hv
    · -- a packet of protocol ICMP has no source port, the policy asks for one
      have hv : t.proto = 1 := (proto_eq_icmp_iff t.hproto).2 hi
      have h0 := (icmp_noPorts t.hproto hv hden.protocol).1
      rcases hden.srcPort with h | h
      · exact absurd h hsp
      · exact absurd (h.symm.trans h0) hsp

/-- **Routing soundness**: an accepted IPv4 policy that goes to the exact map is stored under one key, and
that key is the one looked up for every flow of the policy iff the policy names a single flow, or is
for ICMP (whose packets lack the source port it must have had). -/
theorem exact_found_iff {p : Policy} {s d : Ipv4Text} (hs : p.srcIP = s.text) (hd : p.dstIP = d.text)
    (hx : hasWildcard p = false) {pm pm' : PolicyManager} (hadd : (addPolicy p).run pm = (pm', .ok ())) :
    ∃ key value, exactEntry p = .ok (key, value) ∧ pm'.maps.policyMap.lookup key = some value ∧
      ((∀ f : Flow, Denotes p s d f → f.key = key) ↔ SingleFlow p s d ∨ toLower p.protocol = "icmp") := by
  obtain ⟨t, hput, _⟩ := (add_exact_ok hx).1 (addPolicy_eq_ok hadd)
  refine ⟨t.key, t.value, t.exactEntry_eq, ?_, denoted_have_key_iff t hs hd hx⟩
  rw [HashMap.lookup_put hput, if_pos rfl]

/-! ### A policy for any destination port -/

/-- "Deny TCP from port 40000 of 10.0.0.5 to any port of 10.0.0.5." -/
def denyAnyPort : Policy := ⟨1, "10.0.0.5", "10.0.0.5", 40000, 0, "tcp", "deny", 100⟩

def toPort443 : Flow := ⟨0x0a000005, 0x0a000005, 40000, 443, ipprotoTcp, fun h => absurd rfl h⟩

/-- The policy is accepted, stored under an exact key and denotes a flow with another key; the lookup
for that flow finds nothing and allows it. -/
theorem any_port_not_found :
    denyAnyPort.srcIP = host5.text ∧ denyAnyPort.dstIP = host5.text ∧ hasWildcard denyAnyPort = false ∧
    ((addPolicy denyAnyPort).run .fresh).2 = .ok () ∧ Denotes denyAnyPort host5 host5 toPort443 ∧
    (∃ key value, exactEntry denyAnyPort = .ok (key, value) ∧ toPort443.key ≠ key) ∧
    decision ((addPolicy denyAnyPort).run .fresh).1.maps toPort443.key = (PolicyAction.allow.code, 0) := by
  refine ⟨by decide, by decide, by decide, by decide, ⟨by decide, by decide, Or.inr rfl, Or.inl rfl, ?_⟩,
    ⟨_, _, rfl, by decide⟩, by decide⟩
  exact Or.inr (Or.inl ⟨by decide, rfl⟩)

def denyPort443 : Policy := ⟨1, "10.0.0.5", "10.0.0.5", 40000, 443, "tcp", "deny", 100⟩

theorem single_flow_found : ∃ key value, exactEntry denyPort443 = .ok (key, value) ∧
    ((addPolicy denyPort443).run .fresh).1.maps.policyMap.lookup key = some value ∧
    ((∀ f : Flow, Denotes denyPort443 host5 host5 f → f.key = key) ↔
      SingleFlow denyPort443 host5 host5 ∨ toLower denyPort443.protocol = "icmp") :=
  exact_found_iff (by decide) (by decide) (by decide)
    (Prod.ext rfl (by decide : ((addPolicy denyPort443).run .fresh).2 = .ok ()))

end Microseg
