import Microseg.Lib.IPNet
import Microseg.Traffic
import Microseg.Update
/-!
# What the API shows of a rule (`policy.go:256-299`, `handlers/policy.go:80-171`, `:257-319`)

`ListPolicies` walks the exact map alone, and makes a policy of each key: addresses without a prefix, the
protocol and the action by their names. A rule of the wildcard array is therefore never listed, and a listed
rule stands for single addresses. `visible_iff` says when a created rule is seen as it was created.

| here | there |
| --- | --- |
| `InBlock`, `DenotesFlow` | the policy's 5-tuple (`doc.go:9-16`) with blocks as `net.IPNet` contains them |
| `Spares`, `Later` | requests that name neither the rule nor its 5-tuple, packets, the database |
-/
namespace Microseg
open Words KernelMap GoNet Atomic

/-! ## Flows of any accepted policy -/

/-- The address is in the block a text stands for. -/
def InBlock (cidr : String) (x : U32) : Prop := ∃ ip mask, parseCIDR cidr = .ok (ip, mask) ∧ contains ip mask x = true

/-- The text stands for a single IPv4 address. -/
def SingleHost (cidr : String) : Prop := ∃! x, InBlock cidr x

/-- The flow is one the policy denotes, IPv4 texts or not. -/
structure DenotesFlow (p : Policy) (f : Flow) : Prop where
  src : InBlock p.srcIP f.srcIP
  dst : InBlock p.dstIP f.dstIP
  srcPort : p.srcPort = 0 ∨ f.srcPort = p.srcPort
  dstPort : p.dstPort = 0 ∨ f.dstPort = p.dstPort
  protocol : protocolAdmits p.protocol f.protocol

/-- The block of an IPv4 text. -/
theorem inBlock_text (t : Ipv4Text) (x : U32) : InBlock t.text x ↔ t.Contains x := by
  have hmask := be32_cidrMask t.prefixLen_le
  have hcontains : contains (v4InV6Prefix ++ t.addr.bytes) (cidrMask t.prefixLen 32) x = true ↔ t.Contains x := by
    rw [contains_ipv4 rfl hmask.2, hmask.1, t.contains_iff]; rfl
  rw [← hcontains]
  constructor
  · rintro ⟨ip, mask, h, hx⟩
    rw [parseCIDR_text] at h
    cases h; exact hx
  · exact fun hx => ⟨_, _, parseCIDR_text t, hx⟩

/-- For IPv4 texts the flows are those of `Denotes`. -/
theorem denotesFlow_iff {p : Policy} {s d : Ipv4Text} (hs : p.srcIP = s.text) (hd : p.dstIP = d.text) (f : Flow) :
    DenotesFlow p f ↔ Denotes p s d f := by
  have hsrc := inBlock_text s f.srcIP
  have hdst := inBlock_text d f.dstIP
  rw [← hs] at hsrc
  rw [← hd] at hdst
  exact ⟨fun h => ⟨hsrc.1 h.src, hdst.1 h.dst, h.srcPort, h.dstPort, h.protocol⟩,
    fun h => ⟨hsrc.2 h.src, hdst.2 h.dst, h.srcPort, h.dstPort, h.protocol⟩⟩

/-- The address stored for a text is in its block, if the block has an IPv4 address at all. -/
theorem inBlock_stored {cidr : String} {ip : IP} {mask : IPMask} (h : parseCIDR cidr = .ok (ip, mask)) {x : U32}
    (hx : InBlock cidr x) : InBlock cidr (swap32 (ipToUint32 ip)) := by
  obtain ⟨ip', mask', h', hin⟩ := hx
  rw [h] at h'
  cases h'
  have hparse : ∃ s, GoNet.parseCIDR s = .ok (ip, mask) := by
    unfold parseCIDR at h
    dsimp only at h
    split at h
    · cases h
    · next e => cases h; exact ⟨_, e⟩
  obtain ⟨s, hs⟩ := hparse
  obtain ⟨host, m, hto4, hall⟩ := host_of_contains hs hin
  have hhost : swap32 (ipToUint32 ip) = host := by rw [ipToUint32, hto4]; exact swap32_swap32 host
  exact ⟨ip, mask, h, (hall _).2 (by rw [hhost])⟩

/-! ## Listing an entry -/

/-- A listed address is the text of the stored one. -/
theorem exists_listed_text (w : U32) : ∃ t : Ipv4Text, uint32ToIP w = t.text ∧ t.prefixLen = 32 ∧ t.host = swap32 w := by
  obtain ⟨addr, htext, hbytes⟩ := exists_ipv4Addr (w.extractLsb' 0 8) (w.extractLsb' 8 8) (w.extractLsb' 16 8)
    (w.extractLsb' 24 8)
  exact ⟨⟨addr, none⟩, htext, rfl, by rw [Ipv4Text.host, Ipv4Addr.val, hbytes]; rfl⟩

theorem inBlock_listed (w x : U32) : InBlock (uint32ToIP w) x ↔ x = swap32 w := by
  obtain ⟨t, htext, hlen, hhost⟩ := exists_listed_text w
  rw [htext, inBlock_text, Ipv4Text.Contains, hlen, hhost, Nat.sub_self, BitVec.ushiftRight_zero, BitVec.ushiftRight_zero]

theorem htons_ntohs (v : U16) : htons (ntohs v) = v := by
  rw [ntohs, ← htons, htons_eq_swap16, htons_eq_swap16, swap16_swap16]

theorem ntohs_htons (v : U16) : ntohs (htons v) = v := htons_ntohs v

/-- The keys that policies are stored under: a known protocol, and no padding. -/
def KnownKey (k : PolicyKey) : Prop := parseProtocol (protoToString k.protocol) = .ok k.protocol ∧ k.pad = 0

theorem parseProtocol_listed {name : String} {v : U8} (h : parseProtocol name = .ok v) :
    parseProtocol (protoToString v) = .ok v := by
  rcases parseProtocol_cases h with ⟨_, rfl⟩ | ⟨_, rfl⟩ | ⟨_, rfl⟩ | ⟨_, rfl⟩ <;> decide

theorem knownKey_parsed {p : Policy} (t : Parsed p) : KnownKey t.key := ⟨parseProtocol_listed t.hproto, rfl⟩

/-- **A listed policy leads back to its key.** -/
theorem policyKey_listed {k : PolicyKey} (hk : KnownKey k) (v : PolicyValue) : policyKey (listedPolicy k v) = .ok k := by
  obtain ⟨hproto, hpad⟩ := hk
  have haddr : ∀ w : U32, ∃ mask, ∃ ip, parseCIDR (uint32ToIP w) = .ok (ip, mask) ∧ ipToUint32 ip = w := fun w => by
    obtain ⟨t, htext, _, hhost⟩ := exists_listed_text w
    exact ⟨_, _, by rw [htext]; exact parseCIDR_text t, by rw [ipToUint32_text, hhost, swap32_swap32]⟩
  obtain ⟨smask, sip, hs, hsrc⟩ := haddr k.srcIp
  obtain ⟨dmask, dip, hd, hdst⟩ := haddr k.dstIp
  have hkey : policyKey (listedPolicy k v) = .ok ⟨ipToUint32 sip, ipToUint32 dip, htons (ntohs k.srcPort),
      htons (ntohs k.dstPort), k.protocol, 0⟩ := by
    simp [policyKey, listedPolicy, hs, hd, hproto, wrapErr, bind, Except.bind, pure, Except.pure]
  rw [hkey, hsrc, hdst, htons_ntohs, htons_ntohs, ← hpad]

/-! ## Whether a listed policy denotes the same flows -/

section Flows

variable {q : Policy} (t : Parsed q) (v : PolicyValue)

/-- The flows of a listed policy: the stored addresses, with the ports and protocol of the policy. -/
theorem denotesFlow_listed (f : Flow) : DenotesFlow (listedPolicy t.key v) f ↔
    f.srcIP = swap32 t.key.srcIp ∧ f.dstIP = swap32 t.key.dstIp ∧ (q.srcPort = 0 ∨ f.srcPort = q.srcPort) ∧
      (q.dstPort = 0 ∨ f.dstPort = q.dstPort) ∧ protocolAdmits q.protocol f.protocol := by
  have hsrc := inBlock_listed t.key.srcIp f.srcIP
  have hdst := inBlock_listed t.key.dstIp f.dstIP
  have hsp : (listedPolicy t.key v).srcPort = q.srcPort := ntohs_htons q.srcPort
  have hdp : (listedPolicy t.key v).dstPort = q.dstPort := ntohs_htons q.dstPort
  have hproto : protocolAdmits (listedPolicy t.key v).protocol f.protocol ↔ protocolAdmits q.protocol f.protocol :=
    (admits_iff (parseProtocol_listed t.hproto) _).trans (admits_iff t.hproto _).symm
  constructor
  · intro h
    exact ⟨hsrc.1 h.src, hdst.1 h.dst, hsp ▸ h.srcPort, hdp ▸ h.dstPort, hproto.1 h.protocol⟩
  · rintro ⟨h1, h2, h3, h4, h5⟩
    exact ⟨hsrc.2 h1, hdst.2 h2, hsp.symm ▸ h3, hdp.symm ▸ h4, hproto.2 h5⟩

/-- A single host is the stored address. -/
theorem inBlock_single {cidr : String} {ip : IP} {mask : IPMask} (h : parseCIDR cidr = .ok (ip, mask))
    (hone : SingleHost cidr) (x : U32) : InBlock cidr x ↔ x = swap32 (ipToUint32 ip) := by
  obtain ⟨a, ha, honly⟩ := hone
  have hstored := honly _ (inBlock_stored h ha)
  rw [hstored]
  exact ⟨honly x, fun hx => hx ▸ ha⟩

/-- **A listed policy denotes what the policy does** iff both blocks are single hosts, or nothing is denoted at all. -/
theorem same_flows_iff : (∀ f, DenotesFlow (listedPolicy t.key v) f ↔ DenotesFlow q f) ↔
    IcmpWithPort q ∨ (SingleHost q.srcIP ∧ SingleHost q.dstIP) := by
  constructor
  · intro h
    by_cases hicmp : IcmpWithPort q
    · exact Or.inl hicmp
    -- a flow between the stored addresses is listed, so both are in their blocks
    have hflow : ∀ x y, ∃ f : Flow, f.srcIP = x ∧ f.dstIP = y ∧
        (DenotesFlow (listedPolicy t.key v) f ↔ x = swap32 t.key.srcIp ∧ y = swap32 t.key.dstIp) ∧
        (DenotesFlow q f ↔ InBlock q.srcIP x ∧ InBlock q.dstIP y) := by
      intro x y
      obtain ⟨f, rfl, rfl, hsp, hdp, ha⟩ := exists_flow_of_not_icmpWithPort t hicmp x y
      refine ⟨f, rfl, rfl, ?_, fun h => ⟨h.src, h.dst⟩, fun ⟨hs, hd⟩ => ⟨hs, hd, hsp, hdp, ha⟩⟩
      rw [denotesFlow_listed]
      exact ⟨fun h => ⟨h.1, h.2.1⟩, fun ⟨hs, hd⟩ => ⟨hs, hd, hsp, hdp, ha⟩⟩
    have hpair : ∀ x y, (x = swap32 t.key.srcIp ∧ y = swap32 t.key.dstIp) ↔ (InBlock q.srcIP x ∧ InBlock q.dstIP y) := by
      intro x y
      obtain ⟨f, _, _, hlisted, hden⟩ := hflow x y
      rw [← hlisted, ← hden, h f]
    obtain ⟨hsrc, hdst⟩ := (hpair _ _).1 ⟨rfl, rfl⟩
    exact Or.inr ⟨⟨_, hsrc, fun x hx => ((hpair x _).2 ⟨hx, hdst⟩).1⟩, ⟨_, hdst, fun y hy => ((hpair _ y).2 ⟨hsrc, hy⟩).2⟩⟩
  · rintro (hicmp | ⟨hsrc, hdst⟩) f
    · have hno := not_admitted_of_icmpWithPort t hicmp f
      rw [denotesFlow_listed]
      exact iff_of_false (fun h => hno h.2.2) fun h => hno ⟨h.srcPort, h.dstPort, h.protocol⟩
    · have hs : InBlock q.srcIP f.srcIP ↔ f.srcIP = swap32 t.key.srcIp := inBlock_single t.hsrc hsrc _
      have hd : InBlock q.dstIP f.dstIP ↔ f.dstIP = swap32 t.key.dstIp := inBlock_single t.hdst hdst _
      rw [denotesFlow_listed, ← hs, ← hd]
      exact ⟨fun ⟨a, b, c, e, g⟩ => ⟨a, b, c, e, g⟩, fun h => ⟨h.src, h.dst, h.srcPort, h.dstPort, h.protocol⟩⟩

end Flows

/-! ## What later requests leave alone -/

/-- Deleting a policy takes its key out of the exact map, and nothing else. -/
theorem deletePolicy_lookup (p : Policy) (pm : PolicyManager) (k : PolicyKey) :
    ((deletePolicy p).run pm).1.maps.policyMap.lookup k =
      if policyKey p = .ok k then none else pm.maps.policyMap.lookup k := by
  rcases deletePolicy_cases p pm with ⟨hsame, hnone⟩ | ⟨key, v, hkey, _, hdel⟩
  · rw [hsame]
    split
    · next hk => exact hnone k hk
    · rfl
  · have hk : policyKey p = .ok k ↔ k = key := by rw [hkey, Except.ok.injEq, eq_comm]
    simp only [hdel, hk]
    exact HashMap.lookup_erase _ _ _

/-- In every reachable state the exact map has keys of policies only. -/
theorem reachable_knownKey {pm : PolicyManager} (h : Reachable pm) {k : PolicyKey} {v : PolicyValue}
    (hv : pm.maps.policyMap.lookup k = some v) : KnownKey k := by
  have hadd : ∀ {p : Policy} {pm : PolicyManager}, (∀ v, pm.maps.policyMap.lookup k = some v → KnownKey k) →
      ∀ v, ((addPolicy p).run pm).1.maps.policyMap.lookup k = some v → KnownKey k := by
    intro p pm hpm v hv
    rcases addPolicy_lookup p pm k with hsame | ⟨_, t, rfl, _⟩
    · exact hpm v (hsame ▸ hv)
    · exact knownKey_parsed t
  have hdel : ∀ {p : Policy} {pm : PolicyManager}, (∀ v, pm.maps.policyMap.lookup k = some v → KnownKey k) →
      ∀ v, ((deletePolicy p).run pm).1.maps.policyMap.lookup k = some v → KnownKey k := by
    intro p pm hpm v hv
    rw [deletePolicy_lookup] at hv
    split at hv
    · cases hv
    · exact hpm v hv
  induction h generalizing v with
  | start storage => rw [PolicyMaps.empty, HashMap.lookup_empty] at hv; cases hv
  | @request pm iter req _ ih =>
    have hpm : ∀ v, pm.maps.policyMap.lookup k = some v → KnownKey k := fun v => ih
    rcases serve_cases iter req pm with he | ⟨p, _, _, he⟩ | ⟨id, p, _, _, he⟩ | ⟨id, k', v', _, _, _, he⟩ <;> rw [he] at hv
    · exact ih hv
    · exact hadd hpm v hv
    · exact hadd (hdel hpm) v hv
    · exact hdel hpm v hv
  | @traffic pm key _ ih =>
    have hsome := lookup_isSome_congr (sameButHits_countHit pm.maps key) k
    obtain ⟨v', hv'⟩ := Option.isSome_iff_exists.1 (hsome.trans (by rw [hv]; rfl))
    exact ih hv'
  | database up _ ih => exact ih hv

/-- The request names neither the policy's rule nor its 5-tuple. -/
def Spares (q : Policy) : Api.Request → Prop
  | .create body => ∀ p, body = some p → p.ruleID ≠ q.ruleID ∧ policyKey p ≠ policyKey q
  | .list => True
  | .get _ => True
  | .update id body =>
    parseUint32 id ≠ .ok q.ruleID ∧ ∀ p, body = some p → p.ruleID ≠ q.ruleID ∧ policyKey p ≠ policyKey q
  | .delete id => parseUint32 id ≠ .ok q.ruleID

/-- A later state: requests that spare the policy, packets, and a database that comes and goes. -/
inductive Later (q : Policy) (pm : PolicyManager) : PolicyManager → Prop
  | refl : Later q pm pm
  | request {pm' : PolicyManager} (iter : Iteration PolicyKey PolicyValue maxEntriesPolicy) (req : Api.Request) :
    Later q pm pm' → Spares q req → Later q pm ((Api.serve iter req).run pm').1
  | traffic {pm' : PolicyManager} (key : FlowKey) : Later q pm pm' → Later q pm { pm' with maps := countHit pm'.maps key }
  | database {pm' : PolicyManager} (up : Bool) : Later q pm pm' →
    Later q pm { pm' with storage := pm'.storage.map fun s => { s with up } }

theorem reachable_later {q : Policy} {pm pm' : PolicyManager} (h : Later q pm pm') (hpm : Reachable pm) : Reachable pm' := by
  induction h with
  | refl => exact hpm
  | request iter req _ _ ih => exact .request iter req ih
  | traffic key _ ih => exact .traffic key ih
  | database up _ ih => exact .database up ih

/-- The exact map has the policy's entry if the policy goes there, and no other entry of its rule. -/
structure Stored (q : Policy) (m : PolicyMaps) : Prop where
  only : ∀ k v, m.policyMap.lookup k = some v → v.ruleId = q.ruleID → hasWildcard q = false ∧ policyKey q = .ok k
  there : hasWildcard q = false → ∃ k v, policyKey q = .ok k ∧ m.policyMap.lookup k = some v ∧
    v.ruleId = q.ruleID ∧ parseAction q.action = .ok v.action ∧ v.priority = q.priority

section Stored

variable {q p : Policy} {pm : PolicyManager}

theorem stored_create {m' : PolicyMaps} (hnew : NotInstalled pm.maps q.ruleID) (hadd : pm.maps.add q = .ok m') :
    Stored q m' := by
  cases hw : hasWildcard q with
  | true =>
    obtain ⟨_, _, _, _, hsame⟩ := (add_wildcard_ok hw).1 hadd
    refine ⟨fun k v hv hid => absurd hid (hnew.exact k v (hsame ▸ hv)), fun h => ?_⟩
    rw [hw] at h; cases h
  | false =>
    obtain ⟨t, hput, _⟩ := (add_exact_ok hw).1 hadd
    refine ⟨fun k v hv hid => ⟨hw, ?_⟩, fun _ => ⟨t.key, t.value, t.policyKey_eq, ?_, rfl, t.haction, rfl⟩⟩
    · rw [HashMap.lookup_put hput] at hv
      split at hv
      · next hk => rw [hk, t.policyKey_eq]
      · exact absurd hid (hnew.exact k v hv)
    · rw [HashMap.lookup_put hput, if_pos rfl]

theorem stored_add (h : Stored q pm.maps) (hid : p.ruleID ≠ q.ruleID) (hkey : policyKey p ≠ policyKey q) :
    Stored q ((addPolicy p).run pm).1.maps := by
  constructor
  · intro k v hv hr
    rcases addPolicy_lookup p pm k with hsame | ⟨_, t, _, hnew⟩
    · exact h.only k v (hsame ▸ hv) hr
    · rw [hnew] at hv
      cases hv
      exact absurd hr hid
  · intro hw
    obtain ⟨k, v, hk, hv, hrest⟩ := h.there hw
    refine ⟨k, v, hk, ?_, hrest⟩
    rcases addPolicy_lookup p pm k with hsame | ⟨_, t, rfl, _⟩
    · rw [hsame, hv]
    · exact absurd (t.policyKey_eq.trans hk.symm) hkey

theorem stored_delete (h : Stored q pm.maps) (hkey : hasWildcard q = false → policyKey p ≠ policyKey q) :
    Stored q ((deletePolicy p).run pm).1.maps := by
  constructor
  · intro k v hv hr
    rw [deletePolicy_lookup] at hv
    split at hv
    · cases hv
    · exact h.only k v hv hr
  · intro hw
    obtain ⟨k, v, hk, hv, hrest⟩ := h.there hw
    refine ⟨k, v, hk, ?_, hrest⟩
    rw [deletePolicy_lookup, if_neg fun hp => hkey hw (hp.trans hk.symm), hv]

theorem stored_sameButHits {m m' : PolicyMaps} (h : Stored q m) (hm : m.SameButHits m') : Stored q m' := by
  -- an entry is the same but for its hit count
  have hback : ∀ {k : PolicyKey} {v' : PolicyValue}, m'.policyMap.lookup k = some v' →
      ∃ v, m.policyMap.lookup k = some v ∧ stripHits v = stripHits v' := by
    intro k v' hv'
    obtain ⟨v, hv, he⟩ := Option.map_eq_some_iff.1 ((hm.policyMap k).trans (by rw [hv']; rfl))
    exact ⟨v, hv, he⟩
  constructor
  · intro k v' hv' hr
    obtain ⟨v, hv, he⟩ := hback hv'
    exact h.only k v hv ((congrArg PolicyValue.ruleId he).trans hr)
  · intro hw
    obtain ⟨k, v, hk, hv, hr, ha, hprio⟩ := h.there hw
    obtain ⟨v', hv'⟩ := Option.isSome_iff_exists.1 ((lookup_isSome_congr hm k).symm.trans (by rw [hv]; rfl))
    obtain ⟨v₀, hv₀, he⟩ := hback hv'
    rw [hv] at hv₀
    cases hv₀
    have hid : v.ruleId = v'.ruleId := (congrArg PolicyValue.ruleId he :)
    have haction : v.action = v'.action := (congrArg PolicyValue.action he :)
    have hpriority : v.priority = v'.priority := (congrArg PolicyValue.priority he :)
    exact ⟨k, v', hk, hv', hid ▸ hr, haction ▸ ha, hpriority ▸ hprio⟩

/-- **In every later state** the policy is stored as it was. -/
theorem stored_later {pm' : PolicyManager} (h : Later q pm pm') (hpm : Reachable pm) (hq : Stored q pm.maps) :
    Stored q pm'.maps := by
  induction h with
  | refl => exact hq
  | @request pm' iter req hlater hspares ih =>
    rcases serve_cases iter req pm' with he | ⟨p, rfl, _, he⟩ | ⟨id, p, rfl, _, he⟩ | ⟨id, k, v, rfl, hid, hv, he⟩ <;>
      rw [he]
    · exact ih
    · obtain ⟨hr, hk⟩ := hspares p rfl
      exact stored_add ih hr hk
    · obtain ⟨hr, hk⟩ := hspares.2 p rfl
      exact stored_add (stored_delete ih fun _ => hk) hr hk
    · -- the entry that goes is another rule's
      refine stored_delete ih fun hw hk => ?_
      rw [policyKey_listed (reachable_knownKey (reachable_later hlater hpm) hv)] at hk
      obtain ⟨k', v', hk', hv', hr', _⟩ := ih.there hw
      rw [hk'] at hk
      cases hk
      rw [hv] at hv'
      cases hv'
      exact hspares (by rw [hid, hr'])
  | traffic key _ ih => exact stored_sameButHits ih (sameButHits_countHit _ key)
  | database up _ ih => exact ih

end Stored

/-! ## What the API answers -/

variable (iter : Iteration PolicyKey PolicyValue maxEntriesPolicy)

/-- The listing of the maps. -/
def listing (m : PolicyMaps) : List Policy := (iter.visit m.policyMap).map fun kv => listedPolicy kv.1 kv.2

/-- A rule with one entry is listed once. -/
theorem listing_single {m : PolicyMaps} {r : U32} {k : PolicyKey} {v : PolicyValue} (hv : m.policyMap.lookup k = some v)
    (hr : v.ruleId = r) (honly : ∀ k' v', m.policyMap.lookup k' = some v' → v'.ruleId = r → k' = k) :
    (listing iter m).filter (fun p => p.ruleID = r) = [listedPolicy k v] := by
  have hin : (k, v) ∈ iter.visit m.policyMap := (iter.mem_visit _ k v).2 hv
  have hpred : ∀ kv ∈ iter.visit m.policyMap,
      ((fun p : Policy => decide (p.ruleID = r)) ∘ fun kv => listedPolicy kv.1 kv.2) kv = decide (kv = (k, v)) := by
    rintro ⟨k', v'⟩ hin'
    have hv' := (iter.mem_visit _ k' v').1 hin'
    refine decide_eq_decide.2 ⟨fun h => ?_, fun h => ?_⟩
    · have hk := honly k' v' hv' h
      subst hk
      rw [hv] at hv'
      cases hv'; rfl
    · cases h; exact hr
  rw [listing, List.filter_map, List.filter_congr hpred, List.filter_eq,
    List.count_eq_one_of_mem (iter.nodup _).of_map hin]
  rfl

theorem listing_none {m : PolicyMaps} {r : U32} (hnone : ∀ k v, m.policyMap.lookup k = some v → v.ruleId ≠ r) :
    (listing iter m).filter (fun p => p.ruleID = r) = [] := by
  rw [List.filter_eq_nil_iff]
  intro p hp
  obtain ⟨⟨k, v⟩, hin, rfl⟩ := List.mem_map.1 hp
  exact fun h => hnone k v ((iter.mem_visit _ k v).1 hin) (of_decide_eq_true h)

/-- GET answers 200 with a policy of the same flows, action and priority, LIST has it once and nothing else of the
rule, and DELETE finds it. -/
def Visible (id : String) (q : Policy) (pm : PolicyManager) : Prop :=
  ∃ p ps, ((Api.getPolicy iter id).run pm).2 = ⟨200, .policy p⟩ ∧
    (∀ f, DenotesFlow p f ↔ DenotesFlow q f) ∧ p.action = q.action ∧ p.priority = q.priority ∧
    ((Api.listPolicies iter).run pm).2 = ⟨200, .list ps⟩ ∧ ps.filter (fun p => p.ruleID = q.ruleID) = [p] ∧
    ((Api.deletePolicy iter id).run pm).2.status ≠ 404

theorem listPolicies_run (pm : PolicyManager) : ((Api.listPolicies iter).run pm).2 = ⟨200, .list (listing iter pm.maps)⟩ :=
  rfl

theorem find?_listing (m : PolicyMaps) (r : U32) :
    (listing iter m).find? (fun p => p.ruleID = r) = ((listing iter m).filter fun p => p.ruleID = r).head? :=
  List.head?_filter.symm

/-- GET and DELETE look the rule up in the listing. -/
theorem getPolicy_run {id : String} {r : U32} (hid : parseUint32 id = .ok r) (pm : PolicyManager) :
    ((Api.getPolicy iter id).run pm).2 =
      match ((listing iter pm.maps).filter fun p => p.ruleID = r).head? with
      | some p => ⟨200, .policy p⟩
      | none => notFound r := by
  rw [← find?_listing]
  simp only [Api.getPolicy, hid, Prog.run_bind, listPolicies, Prog.run_act, listing]
  cases ((iter.visit pm.maps.policyMap).map fun kv => listedPolicy kv.1 kv.2).find? fun p => p.ruleID = r <;> rfl

theorem deletePolicy_found {id : String} {r : U32} (hid : parseUint32 id = .ok r) {pm : PolicyManager} {p : Policy}
    {ps : List Policy} (hfilter : (listing iter pm.maps).filter (fun p => p.ruleID = r) = p :: ps) :
    ((Api.deletePolicy iter id).run pm).2.status ≠ 404 := by
  have hfind : (listing iter pm.maps).find? (fun p => p.ruleID = r) = some p := by rw [find?_listing, hfilter]; rfl
  rw [listing] at hfind
  simp only [Api.deletePolicy, hid, Prog.run_bind, listPolicies, Prog.run_act, hfind]
  cases ((deletePolicy p).run pm).2 with
  | error e => exact (by decide : (500 : Nat) ≠ 404)
  | ok u => exact (by decide : (200 : Nat) ≠ 404)

theorem actionToString_parsed {q : Policy} (hv : validate q = []) {a : U8} (ha : parseAction q.action = .ok a) :
    actionToString a = q.action := by
  have haction := (validate_eq_nil hv).2.2
  simp only [List.mem_cons, List.not_mem_nil, or_false] at haction
  rcases haction with h | h | h <;> rw [h] at ha ⊢ <;> cases ha <;> decide

/-- What is stored of a policy decides what the API shows of it. -/
theorem visible_of_stored {q : Policy} {pm : PolicyManager} (hq : Stored q pm.maps) (hv : validate q = []) (t : Parsed q)
    {id : String} (hid : parseUint32 id = .ok q.ruleID) : Visible iter id q pm ↔
      hasWildcard q = false ∧ (IcmpWithPort q ∨ (SingleHost q.srcIP ∧ SingleHost q.dstIP)) := by
  cases hw : hasWildcard q with
  | true =>
    -- the listing has nothing of the rule
    have hfilter := listing_none iter fun k v hk hr => by
      have := (hq.only k v hk hr).1
      rw [hw] at this; cases this
    refine iff_of_false ?_ fun h => Bool.noConfusion h.1
    rintro ⟨p, ps, hget, _⟩
    rw [getPolicy_run iter hid, hfilter] at hget
    cases hget
  | false =>
    obtain ⟨k, v, hk, hlook, hr, ha, hprio⟩ := hq.there hw
    have hkey : k = t.key := Except.ok.inj (hk.symm.trans t.policyKey_eq)
    subst hkey
    have hfilter := listing_single iter hlook hr fun k' v' hv' hr' =>
      Except.ok.inj ((hq.only k' v' hv' hr').2.symm.trans hk)
    have hget : ((Api.getPolicy iter id).run pm).2 = ⟨200, .policy (listedPolicy t.key v)⟩ := by
      rw [getPolicy_run iter hid, hfilter]; rfl
    rw [← same_flows_iff t v]
    constructor
    · rintro ⟨p, ps, hget', hsame, _⟩
      rw [hget] at hget'
      cases hget'
      exact ⟨rfl, hsame⟩
    · rintro ⟨_, hsame⟩
      exact ⟨_, _, hget, hsame, actionToString_parsed hv ha, hprio, listPolicies_run iter pm, hfilter,
        deletePolicy_found iter hid hfilter⟩

/-- **The API sees a created rule as it was created** iff it is not a wildcard rule and each of its addresses is a
single host (or it names ICMP and a port, and denotes no flow): in every state reachable by requests, for
every creation answered with 201 of a rule that was not installed, and in every later state that requests
sparing the rule and its 5-tuple lead to. -/
theorem visible_iff {pm pm' : PolicyManager} (hpm : Reachable pm) {q : Policy} (hnew : NotInstalled pm.maps q.ruleID)
    (hok : ((Api.createPolicy (some q)).run pm).2.status = 201)
    (hlater : Later q ((Api.createPolicy (some q)).run pm).1 pm') {id : String} (hid : parseUint32 id = .ok q.ruleID) :
    Visible iter id q pm' ↔
      hasWildcard q = false ∧ (IcmpWithPort q ∨ (SingleHost q.srcIP ∧ SingleHost q.dstIP)) := by
  have hstart : Reachable ((Api.createPolicy (some q)).run pm).1 := Reachable.request iter (.create (some q)) hpm
  cases hb : shouldBindJSON (some q) with
  | error e =>
    simp only [Api.createPolicy, hb, Prog.run_pure, invalidBody] at hok
    exact absurd hok (by decide)
  | ok p =>
    obtain ⟨he, hv⟩ := shouldBindJSON_ok hb
    cases he
    cases hadd : pm.maps.add q with
    | error e =>
      simp only [Api.createPolicy, hb, Prog.run_bind, addPolicy_run, hadd, Prog.run_pure, policyError] at hok
      exact absurd hok (by decide)
    | ok m' =>
      have hmaps : ((Api.createPolicy (some q)).run pm).1.maps = m' := by
        simp only [Api.createPolicy, hb, Prog.run_bind, addPolicy_run, hadd, Prog.run_pure, PolicyManager.stored]
      have hstored : Stored q ((Api.createPolicy (some q)).run pm).1.maps := hmaps ▸ stored_create hnew hadd
      obtain ⟨t⟩ := parsed_of_add hadd
      exact visible_of_stored iter (stored_later hlater hstart hstored) hv t hid

/-! ### A rule for any source port -/

/-- Rule 1 is created with 201 and is in force, and no listing has it. -/
theorem wildcard_rule_hidden : Reachable .fresh ∧ NotInstalled PolicyManager.fresh.maps denyHost.ruleID ∧
    ((Api.createPolicy (some denyHost)).run .fresh).2.status = 201 ∧ parseUint32 "1" = .ok denyHost.ruleID ∧
    ∀ iter, ¬ Visible iter "1" denyHost ((Api.createPolicy (some denyHost)).run .fresh).1 := by
  refine ⟨.start none, notInstalled_empty (by decide), by decide, by decide, fun iter => ?_⟩
  rintro ⟨p, ps, hget, _⟩
  have hempty : ((Api.createPolicy (some denyHost)).run .fresh).1.maps.policyMap = .empty := rfl
  have hfilter := listing_none iter fun k v (hk : ((Api.createPolicy (some denyHost)).run
      .fresh).1.maps.policyMap.lookup k = some v) (_ : v.ruleId = denyHost.ruleID) => by
    rw [hempty, HashMap.lookup_empty] at hk; cases hk
  rw [getPolicy_run iter (by decide : parseUint32 "1" = .ok denyHost.ruleID), hfilter] at hget
  cases hget

/-- Rule 1 is created beside rules 2 and 3; then rule 4 is created, a packet hits rule 1, rule 3 is deleted and the
database stops. -/
def sparing (iter : Iteration PolicyKey PolicyValue maxEntriesPolicy) : PolicyManager :=
  let created := ((Api.createPolicy (some denyPort443)).run .others).1
  let joined := ((Api.serve iter (.create (some { denyPort8443 with ruleID := 4 }))).run created).1
  let left := ((Api.serve iter (.delete "3")).run { joined with maps := countHit joined.maps toPort443.key }).1
  { left with storage := left.storage.map fun s => { s with up := false } }

theorem later_sparing (iter : Iteration PolicyKey PolicyValue maxEntriesPolicy) :
    Later denyPort443 ((Api.createPolicy (some denyPort443)).run .others).1 (sparing iter) := by
  have hcreated : Later denyPort443 ((Api.createPolicy (some denyPort443)).run .others).1 _ := .refl
  have hjoined := hcreated.request iter (.create (some { denyPort8443 with ruleID := 4 })) fun p hp => by cases hp; decide
  have hleft : parseUint32 "3" ≠ .ok denyPort443.ruleID := by decide
  exact ((hjoined.traffic toPort443.key).request iter (.delete "3") hleft).database false

theorem connection_among_others_visible : ∃ iter,
    Visible iter "1" denyPort443 (sparing iter) ↔
      hasWildcard denyPort443 = false ∧
        (IcmpWithPort denyPort443 ∨ (SingleHost denyPort443.srcIP ∧ SingleHost denyPort443.dstIP)) := by
  obtain ⟨iter⟩ := Iteration.nonempty PolicyKey PolicyValue maxEntriesPolicy
  exact ⟨iter, visible_iff iter (reachable_after otherRules (.start none) (by decide)) notInstalled_others (by decide)
    (later_sparing iter) (by decide)⟩

end Microseg
