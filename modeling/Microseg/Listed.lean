import Microseg.Mirror
import Microseg.Visible
/-!
# Listing and storing are inverse (`policy.go:131-190`, `:203-299`, `:303-354`)

`ListPolicies` decodes every key of the exact map, and `DeletePolicy` encodes the policy it is given. In every
state that calls of `AddPolicy` and `DeletePolicy` reach, a listed policy encodes to the key it was read from,
so it deletes that entry and no other. What it does not give back is the text of the policy as it was
added; for single hosts it does so up to letter case and "/32" (`exact_map_listed`).
-/
namespace Microseg
open Words KernelMap GoNet Atomic Runs

/-! ## The last call under a key -/

/-- The call succeeds and writes or removes the exact entry under the key. -/
def PolicyManager.Touches (pm : PolicyManager) (key : PolicyKey) : PolicyCall → Prop
  | .add p => ((addPolicy p).run pm).2 = .ok () ∧ hasWildcard p = false ∧ policyKey p = .ok key
  | .delete p => ((deletePolicy p).run pm).2 = .ok () ∧ policyKey p = .ok key

/-- Deleting succeeds exactly when the key is there. -/
theorem deletePolicy_ok_iff_lookup {p : Policy} {pm : PolicyManager} {key : PolicyKey} (hk : policyKey p = .ok key) :
    ((deletePolicy p).run pm).2 = .ok () ↔ (pm.maps.policyMap.lookup key).isSome := by
  rw [deletePolicy_run, remove_of_ok hk]
  simp only [HashMap.delete]
  cases pm.maps.policyMap.lookup key <;> simp

theorem call_keeps_lookup {pm : PolicyManager} {key : PolicyKey} {c : PolicyCall} (h : ¬ pm.Touches key c) :
    (pm.call c).maps.policyMap.lookup key = pm.maps.policyMap.lookup key := by
  cases c with
  | add p =>
    cases hadd : pm.maps.add p with
    | error e => rw [PolicyManager.call, addPolicy_run, hadd]
    | ok m' =>
      rcases addPolicy_lookup p pm key with hsame | ⟨hw, t, rfl, _⟩
      · exact hsame
      · exact absurd ⟨addPolicy_ok_iff.2 ⟨m', hadd⟩, hw, t.policyKey_eq⟩ h
  | delete p =>
    rw [PolicyManager.call, deletePolicy_lookup]
    split
    · next hk =>
      cases hl : pm.maps.policyMap.lookup key with
      | none => rfl
      | some v => exact absurd ⟨(deletePolicy_ok_iff_lookup hk).2 (by rw [hl]; rfl), hk⟩ h
    · rfl

/-- A call that touches the key leaves the policy's entry there, or none. -/
theorem lookup_of_touches {pm : PolicyManager} {key : PolicyKey} {v : PolicyValue} {c : PolicyCall}
    (h : pm.Touches key c) (hv : (pm.call c).maps.policyMap.lookup key = some v) :
    ∃ (q : Policy) (t : Parsed q), c = .add q ∧ hasWildcard q = false ∧ t.key = key ∧ t.value = v := by
  cases c with
  | add q =>
    obtain ⟨hok, hw, hk⟩ := h
    obtain ⟨m', hadd⟩ := addPolicy_ok_iff.1 hok
    obtain ⟨t, hput, _⟩ := (add_exact_ok hw).1 hadd
    have hkey : t.key = key := Except.ok.inj (t.policyKey_eq.symm.trans hk)
    rw [PolicyManager.call, addPolicy_maps, hadd, Except.toOption, Option.getD_some, HashMap.lookup_put hput,
      if_pos hkey.symm] at hv
    exact ⟨q, t, rfl, hw, hkey, Option.some.inj hv⟩
  | delete q =>
    rw [PolicyManager.call, deletePolicy_lookup, if_pos h.2] at hv
    cases hv

/-! ## Texts -/

/-- An IPv4 address, alone or with "/32". -/
def HostText (cidr : String) : Prop :=
  ∃ a : Ipv4Addr, cidr = String.ofList a.text ∨ cidr = String.ofList a.text ++ "/32"

/-- A policy for two hosts, a source port and one of the protocols by name. -/
structure NamesHosts (q : Policy) : Prop where
  src : HostText q.srcIP
  dst : HostText q.dstIP
  srcPort : q.srcPort ≠ 0
  protocol : toLower q.protocol = "tcp" ∨ toLower q.protocol = "udp" ∨ toLower q.protocol = "icmp"

/-- The listed policy `p` is `q` up to letter case and "/32". -/
structure ListedAs (p q : Policy) : Prop where
  ruleID : p.ruleID = q.ruleID
  srcIP : q.srcIP = p.srcIP ∨ q.srcIP = p.srcIP ++ "/32"
  dstIP : q.dstIP = p.dstIP ∨ q.dstIP = p.dstIP ++ "/32"
  srcPort : p.srcPort = q.srcPort
  dstPort : p.dstPort = q.dstPort
  protocol : toLower p.protocol = toLower q.protocol
  action : toLower p.action = toLower q.action
  priority : p.priority = q.priority

/-- What `uint32ToIP` prints is the address in memory. -/
theorem uint32ToIP_eq {w : U32} {a b c d : U8} (h : store32 w = [a, b, c, d]) : uint32ToIP w = ipv4String a b c d := by
  simp only [store32, List.cons.injEq, and_true] at h
  obtain ⟨rfl, rfl, rfl, rfl⟩ := h
  rfl

/-- A host is listed as its address. -/
theorem listed_host {cidr : String} (h : HostText cidr) {ip : IP} {mask : IPMask} (hp : parseCIDR cidr = .ok (ip, mask)) :
    cidr = uint32ToIP (ipToUint32 ip) ∨ cidr = uint32ToIP (ipToUint32 ip) ++ "/32" := by
  obtain ⟨a, ha⟩ := h
  have hparse : parseCIDR cidr = .ok (v4InV6Prefix ++ a.bytes, cidrMask 32 32) := by
    rcases ha with rfl | rfl
    · exact parseCIDR_text ⟨a, none⟩
    · have hslash : "/32".toList = '/' :: len32.text := by decide
      have htext : String.ofList a.text ++ "/32" = (⟨a, some len32⟩ : Ipv4Text).text := by
        apply String.ext
        rw [String.toList_append, hslash, Ipv4Text.text, String.toList_ofList, String.toList_ofList]
      rw [htext, parseCIDR_text]; rfl
  rw [hparse] at hp
  cases hp
  have hprinted : uint32ToIP (ipToUint32 (v4InV6Prefix ++ a.bytes)) = String.ofList a.text := by
    rw [← ipv4String_text]
    apply uint32ToIP_eq
    rw [ipToUint32_text ⟨a, none⟩, store32_swap32]
    exact bytes32_be32 _ _ _ _
  rw [hprinted]
  exact ha

theorem listed_protocol {name : String} {v : U8} (h : parseProtocol name = .ok v)
    (hname : toLower name = "tcp" ∨ toLower name = "udp" ∨ toLower name = "icmp") :
    toLower (protoToString v) = toLower name := by
  rcases parseProtocol_cases h with ⟨e, rfl⟩ | ⟨e, rfl⟩ | ⟨e, rfl⟩ | ⟨e, rfl⟩
  · rw [e]; decide
  · rw [e]; decide
  · rw [e]; decide
  · exfalso
    rcases e with e | e <;> rw [e] at hname <;> revert hname <;> decide

theorem listed_action {name : String} {v : U8} (h : parseAction name = .ok v) :
    toLower (actionToString v) = toLower name ∧ parseAction (actionToString v) = .ok v := by
  unfold parseAction at h
  split_ifs at h with h1 h2 h3 <;> cases h
  · rw [h1]; decide
  · rw [h2]; decide
  · rw [h3]; decide

/-- **The listed policy of a host-to-host rule** is the rule. -/
theorem listedAs {q : Policy} (t : Parsed q) (h : NamesHosts q) : ListedAs (listedPolicy t.key t.value) q where
  ruleID := rfl
  srcIP := listed_host h.src t.hsrc
  dstIP := listed_host h.dst t.hdst
  srcPort := ntohs_htons q.srcPort
  dstPort := ntohs_htons q.dstPort
  protocol := listed_protocol t.hproto h.protocol
  action := (listed_action t.haction).1
  priority := rfl

/-! ## The listing -/

/-- The policy is a faithful listing of an entry: it encodes to the key, keeps action, priority and rule id, and
deletes the entry and nothing else. -/
structure Lists (pm : PolicyManager) (kv : PolicyKey × PolicyValue) (p : Policy) : Prop where
  key : policyKey p = .ok kv.1
  action : parseAction p.action = .ok kv.2.action
  priority : p.priority = kv.2.priority
  ruleID : p.ruleID = kv.2.ruleId
  deletes : ((deletePolicy p).run pm).2 = .ok ()
  exactly : ∀ k, ((deletePolicy p).run pm).1.maps.policyMap.lookup k =
    if k = kv.1 then none else pm.maps.policyMap.lookup k
  array : ((deletePolicy p).run pm).1.maps.wildcardPolicyMap = pm.maps.wildcardPolicyMap

/-- The last call that touched the key added the policy. -/
def LastAdded (pm : PolicyManager) (calls : List PolicyCall) (key : PolicyKey) (q : Policy) : Prop :=
  ∃ pre post, calls = pre ++ .add q :: post ∧ (run PolicyManager.call pm pre).Touches key (.add q) ∧
    ∀ mid c rest, post = mid ++ c :: rest → ¬ (run PolicyManager.call pm (pre ++ .add q :: mid)).Touches key c

theorem lists_entry {pm : PolicyManager} {q : Policy} (t : Parsed q) (hv : pm.maps.policyMap.lookup t.key = some t.value) :
    Lists pm (t.key, t.value) (listedPolicy t.key t.value) := by
  have hkey := policyKey_listed (knownKey_parsed t) t.value
  refine ⟨hkey, (listed_action t.haction).2, rfl, rfl, (deletePolicy_ok_iff_lookup hkey).2 (by rw [hv]; rfl), fun k => ?_,
    deletePolicy_wildcardPolicyMap _ _⟩
  rw [deletePolicy_lookup, hkey]
  simp only [Except.ok.injEq, eq_comm]

/-- **Listing the exact map.** In every state that calls of `AddPolicy` and `DeletePolicy` reach from an empty exact
map, and in whatever order the map is walked, there is one listed policy for each entry, which encodes to
its key, has its action, priority and rule id, and deletes it and no other; and it is the last policy added
under the key up to letter case and "/32", if that one names single hosts, a source port and TCP, UDP or ICMP. -/
theorem exact_map_listed {pm : PolicyManager} (h0 : pm.maps.policyMap = .empty) (calls : List PolicyCall)
    (iter : Iteration PolicyKey PolicyValue maxEntriesPolicy) {pm' : PolicyManager}
    (hpm' : pm' = run PolicyManager.call pm calls) :
    ∃ kvs : List (PolicyKey × PolicyValue), (∀ k v, (k, v) ∈ kvs ↔ pm'.maps.policyMap.lookup k = some v) ∧
      (kvs.map Prod.fst).Nodup ∧
      List.Forall₂ (fun kv p => Lists pm' kv p ∧
          ∃ q, LastAdded pm calls kv.1 q ∧ (NamesHosts q → ListedAs p q))
        kvs ((listPolicies iter).run pm').2 := by
  subst hpm'
  refine ⟨iter.visit (run PolicyManager.call pm calls).maps.policyMap, iter.mem_visit _, iter.nodup _, ?_⟩
  have hlist : ((listPolicies iter).run (run PolicyManager.call pm calls)).2 =
      (iter.visit (run PolicyManager.call pm calls).maps.policyMap).map fun kv => listedPolicy kv.1 kv.2 := rfl
  rw [hlist, List.forall₂_map_right_iff, List.forall₂_same]
  rintro ⟨k, v⟩ hin
  have hv := (iter.mem_visit _ k v).1 hin
  have hstart : pm.maps.policyMap.lookup k = none := by rw [h0, HashMap.lookup_empty]
  obtain ⟨pre, c, post, hsplit, htouch, hwritten, hsince⟩ :=
    exists_last_write (fun pm : PolicyManager => pm.maps.policyMap.lookup k) (fun _ _ h => call_keeps_lookup h) hstart calls hv
  obtain ⟨q, t, rfl, _, rfl, rfl⟩ := lookup_of_touches htouch hwritten
  exact ⟨lists_entry t hv, q, ⟨pre, post, hsplit, htouch, hsince⟩, listedAs t⟩

/-- A host-to-host rule, added and replaced, in any walk through the map. -/
theorem replaced_rule_listed : ∃ kvs : List (PolicyKey × PolicyValue),
    List.Forall₂ (fun kv p => Lists (run PolicyManager.call .fresh [.add denyPort443, .add denyPort443Raised]) kv p ∧
        ∃ q, LastAdded .fresh [.add denyPort443, .add denyPort443Raised] kv.1 q ∧ (NamesHosts q → ListedAs p q))
      kvs ((listPolicies (Iteration.nonempty _ _ _).some).run
        (run PolicyManager.call .fresh [.add denyPort443, .add denyPort443Raised])).2 :=
  let ⟨kvs, _, _, h⟩ := @exact_map_listed .fresh rfl [.add denyPort443, .add denyPort443Raised] (Iteration.nonempty _ _ _).some
    _ rfl
  ⟨kvs, h⟩

end Microseg
