import Microseg.Lib.Encoded
import Microseg.Lib.Projection
import Microseg.Listed
import Microseg.Traffic
import Microseg.UpdateError
import Microseg.Visible
/-!
# The policy endpoints as a store of rules (`handlers/policy.go`, `policy.go:83-299`)

Behind the endpoints is a map from 5-tuples to entries, and no map from rule ids: GET and DELETE look for the id in a
walk through all entries, and PUT deletes one tuple and adds another. A client that keeps to one tuple for each rule
id, and to one rule id for each tuple (`Disciplined`), never sees this: to it the endpoints are a store of rules by
their ids (`RuleStore`), in which PUT is an upsert, and new connections are decided by the rules in the store
(`api_refines`).

| here | in the agent |
| --- | --- |
| `RuleStore.rules` | the exact map, each rule as `ListPolicies` shows it |
| `RuleStore.save` | `AddPolicy`, after `DeletePolicy` or not |
| `RuleStore.serve` | the routes (`router.go:25-29`) |
| `ApiEvent` | requests one at a time, packets, evictions of sessions, a database that comes and goes |
-/
namespace Microseg
open Words KernelMap Atomic Runs Projection

/-! ## The store -/

/-- Rules under their ids, at most as many as the exact map takes. -/
structure RuleStore where
  rules : HashMap U32 Policy maxEntriesPolicy
  own : ∀ r q, rules.lookup r = some q → q.ruleID = r

namespace RuleStore

def empty : RuleStore := ⟨.empty, fun r q h => by rw [HashMap.lookup_empty] at h; cases h⟩

theorem own_put {s : RuleStore} {q : Policy} {rules : HashMap U32 Policy maxEntriesPolicy}
    (h : s.rules.put q.ruleID q = some rules) (r : U32) (q' : Policy) (hq : rules.lookup r = some q') :
    q'.ruleID = r := by
  rw [HashMap.lookup_put h] at hq
  split at hq
  · next hr => rw [hr, ← Option.some.inj hq]
  · exact s.own r q' hq

/-- In the place of the rule with its id, or in a new place if there is one. -/
def put (q : Policy) (s : RuleStore) : Option RuleStore :=
  match h : s.rules.put q.ruleID q with
  | none => none
  | some rules => some ⟨rules, own_put h⟩

def erase (r : U32) (s : RuleStore) : RuleStore where
  rules := s.rules.erase r
  own r' q h := by
    rw [HashMap.lookup_erase] at h
    split at h
    · cases h
    · exact s.own r' q h

/-- A request's rule goes in as the listing will show it. -/
def save (failed : String) (status : Nat) (p : PolicyRequest) (s : RuleStore) : RuleStore × Response :=
  match exactEntry p with
  | .error e => (s, policyError failed e)
  | .ok (key, value) =>
    match s.put (listedPolicy key value) with
    | none => (s, policyError failed (.wrap "failed to add policy to map" .tooBig))
    | some s => (s, ⟨status, .policy p⟩)

variable (iter : Iteration U32 Policy maxEntriesPolicy)

def serve (s : RuleStore) : Api.Request → RuleStore × Response
  | .create body =>
    match shouldBindJSON body with
    | .error e => (s, invalidBody e)
    | .ok p => s.save "Failed to add policy" 201 p
  | .list => (s, ⟨200, .list ((iter.visit s.rules).map Prod.snd)⟩)
  | .get id =>
    match parseUint32 id with
    | .error e => (s, invalidRuleID e)
    | .ok ruleID =>
      match s.rules.lookup ruleID with
      | none => (s, notFound ruleID)
      | some q => (s, ⟨200, .policy q⟩)
  | .update id body =>
    match parseUint32 id with
    | .error e => (s, invalidRuleID e)
    | .ok ruleID =>
      match shouldBindJSON body with
      | .error e => (s, invalidBody e)
      | .ok p =>
        if p.ruleID ≠ ruleID then
          (s, ⟨400, .error "validation_error" "Rule ID in URL does not match rule ID in request body" .none⟩)
        else s.save "Failed to update policy" 200 p
  | .delete id =>
    match parseUint32 id with
    | .error e => (s, invalidRuleID e)
    | .ok ruleID =>
      match s.rules.lookup ruleID with
      | none => (s, notFound ruleID)
      | some _ =>
        (s.erase ruleID, ⟨200, .message ("Policy with rule ID " ++ toString ruleID.toNat ++ " deleted successfully")⟩)

/-! A put into the store is a put into the map of its rules. -/

theorem put_of_none {s : RuleStore} {q : Policy} (h : s.rules.put q.ruleID q = none) : s.put q = none := by
  unfold put
  split
  · rfl
  · next hsome => rw [h] at hsome; cases hsome

theorem put_of_some {s : RuleStore} {q : Policy} {rules : HashMap U32 Policy maxEntriesPolicy}
    (h : s.rules.put q.ruleID q = some rules) : s.put q = some ⟨rules, own_put h⟩ := by
  unfold put
  split
  · next hnone => rw [h] at hnone; cases hnone
  · next rules' hsome => cases h.symm.trans hsome; rfl

theorem lookup_put {s s' : RuleStore} {q : Policy} (h : s.put q = some s') (r : U32) :
    s'.rules.lookup r = if r = q.ruleID then some q else s.rules.lookup r := by
  unfold put at h
  split at h
  · cases h
  · next hrules =>
    cases h
    exact HashMap.lookup_put hrules r

end RuleStore

/-! ## Requests to the agent -/

variable (iter : Iteration PolicyKey PolicyValue maxEntriesPolicy)

/-- A request to the running agent. -/
def Sys.serve (s : Sys) (req : Api.Request) : Sys × Response :=
  let (pm, response) := (Api.serve iter req).run s.manager
  (s.setManager pm, response)

/-- What happens to an agent with an API. -/
inductive ApiEvent where
  | request (req : Api.Request)
  | packet (x : Exec) (skb : SkBuff)
  | evict (key : FlowKey)
  /-- The database stops or starts answering. -/
  | database (up : Bool)

namespace ApiEvent

def step (s : Sys) : ApiEvent → Sys
  | .request req => (s.serve iter req).1
  | .packet x skb => { s with bpf := (tcMicrosegmentFilter x skb s.bpf).1 }
  | .evict key => { s with bpf := { s.bpf with sessionMap := s.bpf.sessionMap.erase key } }
  | .database up => { s with storage := s.storage.map fun d => { d with up } }

def responses (s : Sys) : ApiEvent → List Response
  | .request req => [(s.serve iter req).2]
  | _ => []

/-- The valid rule in the body of a request. -/
def rule : ApiEvent → Option Policy
  | .request (.create body) => body.filter fun p => validate p = []
  | .request (.update _ body) => body.filter fun p => validate p = []
  | _ => none

/-- The rules that a run asks for. -/
def rules (es : List ApiEvent) : List Policy := es.filterMap rule

end ApiEvent

namespace RuleStore

variable (iter : Iteration U32 Policy maxEntriesPolicy)

def step (s : RuleStore) : ApiEvent → RuleStore
  | .request req => (s.serve iter req).1
  | _ => s

def responses (s : RuleStore) : ApiEvent → List Response
  | .request req => [(s.serve iter req).2]
  | _ => []

end RuleStore

/-! ## A tuple for each rule id -/

/-- Exact rules, whose ids and 5-tuples determine each other. -/
structure Disciplined (ps : List Policy) : Prop where
  exact : ∀ p ∈ ps, hasWildcard p = false
  paired : ∀ p ∈ ps, ∀ q ∈ ps, ∀ k l, policyKey p = .ok k → policyKey q = .ok l → (p.ruleID = q.ruleID ↔ k = l)

theorem Disciplined.sublist {ps qs : List Policy} (h : Disciplined ps) (hqs : qs.Sublist ps) : Disciplined qs where
  exact p hp := h.exact p (hqs.subset hp)
  paired p hp q hq := h.paired p (hqs.subset hp) q (hqs.subset hq)

/-- The tuple that the rules use an id for; an id they do not use has a key that is no rule's. -/
def tupleOf (ps : List Policy) (r : U32) : PolicyKey :=
  (ps.findSome? fun p => if p.ruleID = r then (policyKey p).toOption else none).getD ⟨r, 0, 0, 0, 0, 1⟩

theorem tupleOf_cases (ps : List Policy) (r : U32) :
    (∃ p ∈ ps, p.ruleID = r ∧ policyKey p = .ok (tupleOf ps r)) ∨
    (tupleOf ps r = ⟨r, 0, 0, 0, 0, 1⟩ ∧ ∀ p ∈ ps, p.ruleID = r → ∀ k, policyKey p ≠ .ok k) := by
  unfold tupleOf
  cases hfind : ps.findSome? fun p => if p.ruleID = r then (policyKey p).toOption else none with
  | none =>
    refine Or.inr ⟨rfl, fun p hp hr k hk => ?_⟩
    have hnone := List.findSome?_eq_none_iff.1 hfind p hp
    rw [if_pos hr, hk] at hnone
    cases hnone
  | some k =>
    obtain ⟨p, hp, hk⟩ := List.exists_of_findSome?_eq_some hfind
    split at hk
    · next hr =>
      refine Or.inl ⟨p, hp, hr, ?_⟩
      cases hkey : policyKey p with
      | error e => rw [hkey] at hk; cases hk
      | ok l => rw [hkey] at hk; cases hk; rfl
    · cases hk

section Tuples

variable {ps : List Policy} (h : Disciplined ps)

include h

theorem tupleOf_eq {p : Policy} (hp : p ∈ ps) {k : PolicyKey} (hk : policyKey p = .ok k) : tupleOf ps p.ruleID = k := by
  rcases tupleOf_cases ps p.ruleID with ⟨q, hq, hr, hl⟩ | ⟨_, hnone⟩
  · exact (h.paired q hq p hp _ _ hl hk).1 hr
  · exact absurd hk (hnone p hp rfl k)

theorem tupleOf_injective (hv : ∀ p ∈ ps, validate p = []) : Function.Injective (tupleOf ps) := by
  -- a rule's key has no padding, the keys made up for other ids have some
  have hpad : ∀ p ∈ ps, ∀ r : U32, policyKey p ≠ .ok ⟨r, 0, 0, 0, 0, 1⟩ := fun p hp r hk => by
    obtain ⟨t⟩ := parsed_of_policyKey (hv p hp) hk
    have hzero : (0 : BitVec 24) = 1 := congrArg FlowKey.pad (Except.ok.inj (t.policyKey_eq.symm.trans hk))
    exact absurd hzero (by decide)
  intro r r' heq
  rcases tupleOf_cases ps r with ⟨p, hp, hr, hk⟩ | ⟨hr, _⟩ <;>
    rcases tupleOf_cases ps r' with ⟨q, hq, hr', hl⟩ | ⟨hr', _⟩
  · rw [← hr, ← hr']
    exact (h.paired p hp q hq _ _ hk hl).2 heq
  · exact absurd (by rw [hk, heq, hr']) (hpad p hp r')
  · exact absurd (by rw [hl, ← heq, hr]) (hpad q hq r)
  · exact congrArg FlowKey.srcIp (hr.symm.trans (heq.trans hr'))

/-- What the requests' rules promise: they are valid and exact, and each has its tuple from its id. -/
structure Assigns (ps : List Policy) (tuple : U32 → PolicyKey) : Prop where
  injective : Function.Injective tuple
  valid : ∀ p ∈ ps, validate p = []
  exact : ∀ p ∈ ps, hasWildcard p = false
  key : ∀ p ∈ ps, ∀ k, policyKey p = .ok k → tuple p.ruleID = k

theorem tupleOf_assigns (hv : ∀ p ∈ ps, validate p = []) : Assigns ps (tupleOf ps) where
  injective := tupleOf_injective h hv
  valid := hv
  exact := h.exact
  key _ hp _ := tupleOf_eq h hp

end Tuples

/-! ## The exact map as a store -/

/-- The entry's rule, which leads back to the entry's key and action. -/
structure Shows (tuple : U32 → PolicyKey) (q : Policy) (v : PolicyValue) : Prop where
  listed : q = listedPolicy (tuple v.ruleId) v
  key : policyKey q = .ok (tuple v.ruleId)
  action : parseAction q.action = .ok v.action

/-- A rule that parses is shown by its entry. -/
theorem shows_parsed {tuple : U32 → PolicyKey} {p : Policy} (t : Parsed p) (htuple : tuple p.ruleID = t.key) :
    Shows tuple (listedPolicy t.key t.value) t.value := by
  have hvalue : tuple t.value.ruleId = t.key := htuple
  exact ⟨by rw [hvalue], by rw [hvalue]; exact policyKey_listed (knownKey_parsed t) _, (listed_action t.haction).2⟩

/-- The exact map has the store's rules, each under the tuple of its id, and nothing else; no wildcard rule comes or
goes; and `K` holds of the database. -/
structure Represents (tuple : U32 → PolicyKey) (wildcards : ArrayMap WildcardPolicy maxEntriesWildcardPolicy)
    (K : Option SQLiteStorage → RuleStore → Prop) (pm : PolicyManager) (s : RuleStore) : Prop where
  exact : Encodes tuple (Shows tuple) pm.maps.policyMap s.rules
  wildcards : pm.maps.wildcardPolicyMap = wildcards
  storage : K pm.storage s

/-- What is said of the database keeps up with the store when a rule is saved in both, or deleted from both. -/
structure Follows (ps : List Policy) (K : Option SQLiteStorage → RuleStore → Prop) : Prop where
  save : ∀ {d s s' p}, p ∈ ps → ∀ t : Parsed p, s.put (listedPolicy t.key t.value) = some s' → K d s →
    K (d.map fun d => (d.savePolicy p).1) s'
  delete : ∀ {d s} r, K d s → K (d.map fun d => (d.deletePolicy r).1) (s.erase r)

variable {ps : List Policy} {tuple : U32 → PolicyKey} {wildcards : ArrayMap WildcardPolicy maxEntriesWildcardPolicy}
  {K : Option SQLiteStorage → RuleStore → Prop}

section Represents

variable {pm : PolicyManager} {s : RuleStore} (h : Represents tuple wildcards K pm s)

include h

/-- A rule of the store has its entry. -/
theorem entry_of_rule {r : U32} {q : Policy} (hq : s.rules.lookup r = some q) :
    ∃ v, pm.maps.policyMap.lookup (tuple r) = some v ∧ v.ruleId = r ∧ Shows tuple q v := by
  rcases h.exact.cases r with ⟨hnone, _⟩ | ⟨q', v, hq', hv, hshows⟩
  · rw [hq] at hnone; cases hnone
  · cases hq.symm.trans hq'
    refine ⟨v, hv, ?_, hshows⟩
    rw [← s.own r q hq, hshows.listed]
    rfl

/-- An entry has its rule in the store. -/
theorem rule_of_entry {k : PolicyKey} {v : PolicyValue} (hv : pm.maps.policyMap.lookup k = some v) :
    ∃ q, tuple v.ruleId = k ∧ s.rules.lookup v.ruleId = some q ∧ Shows tuple q v := by
  obtain ⟨r, rfl⟩ := h.exact.onto k (by rw [hv]; rfl)
  rcases h.exact.cases r with ⟨_, hnone⟩ | ⟨q, v', hq, hv', hshows⟩
  · rw [hv] at hnone; cases hnone
  · cases hv.symm.trans hv'
    have hr : v.ruleId = r := by
      rw [← s.own r q hq, hshows.listed]
      rfl
    exact ⟨q, congrArg tuple hr, hr ▸ hq, hshows⟩

/-- Hit counts do not show. -/
theorem represents_sameButHits {m : PolicyMaps} (hm : pm.maps.SameButHits m) :
    Represents tuple wildcards K { pm with maps := m } s where
  exact.lookup r := by
    have hsame := hm.policyMap (tuple r)
    rcases h.exact.cases r with ⟨hr, hk⟩ | ⟨q, v, hr, hk, hq⟩ <;> rw [hr] <;> rw [hk] at hsame
    · rw [Option.map_eq_none_iff.1 hsame.symm]
      exact .none
    · obtain ⟨v', hv', hstrip⟩ := Option.map_eq_some_iff.1 hsame.symm
      have hshows : Shows tuple q (stripHits v) := ⟨hq.listed, hq.key, hq.action⟩
      rw [← hstrip] at hshows
      rw [hv']
      exact .some ⟨hshows.listed, hshows.key, hshows.action⟩
  exact.onto k hk := h.exact.onto k (by rwa [lookup_isSome_congr hm])
  exact.size := (size_congr hm).symm.trans h.exact.size
  wildcards := hm.wildcardPolicyMap.symm.trans h.wildcards
  storage := h.storage

/-- GET and DELETE find the rule of the store. -/
theorem find_refines (iter : Iteration PolicyKey PolicyValue maxEntriesPolicy) (r : U32) :
    (listing iter pm.maps).find? (fun p => p.ruleID = r) = s.rules.lookup r := by
  rw [find?_listing]
  cases hr : s.rules.lookup r with
  | none =>
    rw [listing_none iter fun k v hv hid => ?_]
    · rfl
    · obtain ⟨q, _, hq, _⟩ := rule_of_entry h hv
      rw [hid, hr] at hq
      cases hq
  | some q =>
    obtain ⟨v, hv, hid, hshows⟩ := entry_of_rule h hr
    rw [listing_single iter hv hid fun k' v' hv' hid' => ?_]
    · rw [hshows.listed, hid]
      rfl
    · obtain ⟨_, hk, _⟩ := rule_of_entry h hv'
      rw [← hk, hid']

end Represents

/-! ## One request -/

/-- The response to a rule, once `AddPolicy` has taken it or not. -/
def saveResponse (failed : String) (status : Nat) (p : PolicyRequest) : Except Err Unit → Response
  | .error e => policyError failed e
  | .ok () => ⟨status, .policy p⟩

theorem createPolicy_save {body : Option PolicyRequest} {p : PolicyRequest} (hb : shouldBindJSON body = .ok p)
    (pm : PolicyManager) : (Api.createPolicy body).run pm =
      (((addPolicy p).run pm).1, saveResponse "Failed to add policy" 201 p ((addPolicy p).run pm).2) := by
  simp only [Api.createPolicy, hb, Prog.run_bind]
  cases ((addPolicy p).run pm).2 <;> rfl

theorem replacePolicy_save (p : PolicyRequest) (pm : PolicyManager) : (Api.replacePolicy p).run pm =
    (((addPolicy p).run ((deletePolicy p).run pm).1).1,
      saveResponse "Failed to update policy" 200 p ((addPolicy p).run ((deletePolicy p).run pm).1).2) := by
  simp only [Api.replacePolicy, Prog.run_bind]
  cases ((addPolicy p).run ((deletePolicy p).run pm).1).2 <;> rfl

/-- The same response, but for the order of a list. -/
inductive Response.Alike : Response → Response → Prop
  | same (r : Response) : Alike r r
  | listed (status : Nat) {ps qs : List PolicyResponse} (h : ps.Perm qs) : Alike ⟨status, .list ps⟩ ⟨status, .list qs⟩

/-- A rule that is in the store may leave it before it comes back. -/
theorem RuleStore.erase_save {s : RuleStore} {p : Policy} (t : Parsed p) (hin : (s.rules.lookup p.ruleID).isSome)
    (failed : String) (status : Nat) : (s.erase p.ruleID).save failed status p = s.save failed status p := by
  obtain ⟨rules, hrules⟩ := HashMap.exists_put (Or.inl hin) (listedPolicy t.key t.value)
  have hput := put_of_some (q := listedPolicy t.key t.value) hrules
  have hback := put_of_some (s := s.erase p.ruleID) (q := listedPolicy t.key t.value)
    ((HashMap.put_erase hin _).trans hrules)
  simp only [save, t.exactEntry_eq, hput, hback]

section Requests

variable (ht : Assigns ps tuple) (hK : Follows ps K) {pm : PolicyManager} {s : RuleStore}
  (h : Represents tuple wildcards K pm s) {p : Policy} (hp : p ∈ ps)

include ht h

/-- A walk meets the rules of the store, each once. -/
theorem listing_perm (iter : Iteration PolicyKey PolicyValue maxEntriesPolicy)
    (rulesIter : Iteration U32 Policy maxEntriesPolicy) :
    (listing iter pm.maps).Perm ((rulesIter.visit s.rules).map Prod.snd) := by
  obtain ⟨l, hl, hentries⟩ := encodes_visit h.exact ht.injective iter rulesIter
  have hown : ∀ rq ∈ l, rq.2.ruleID = rq.1 := fun rq hrq => s.own _ _ ((rulesIter.mem_visit _ _ _).1 (hl.subset hrq))
  have hlisted : listing iter pm.maps = l.map Prod.snd := by
    rw [listing, ← List.forall₂_eq_eq_eq, List.forall₂_map_left_iff, List.forall₂_map_right_iff]
    refine ((List.forall₂_and_left _ _).2 ⟨hown, hentries⟩).flip.imp fun kv rq hkv => ?_
    obtain ⟨hr, hkey, hshows⟩ := hkv
    have hid : kv.2.ruleId = rq.1 := by
      rw [← hr, hshows.listed]
      rfl
    rw [← hkey, ← hid]
    exact hshows.listed.symm
  rw [hlisted]
  exact hl.map _

include hK hp

/-- `AddPolicy` of a rule. -/
theorem save_refines (failed : String) (status : Nat) :
    Represents tuple wildcards K ((addPolicy p).run pm).1 (s.save failed status p).1 ∧
      saveResponse failed status p ((addPolicy p).run pm).2 = (s.save failed status p).2 := by
  have hw := ht.exact p hp
  rcases parsed_cases p with ⟨⟨t⟩⟩ | ⟨e, he, _⟩
  · have htup : tuple p.ruleID = t.key := ht.key p hp _ t.policyKey_eq
    rcases encodes_put h.exact ht.injective p.ruleID (shows_parsed t htup) with
      ⟨hraw, hrules⟩ | ⟨x, rules, hraw, hrules, henc⟩ <;> rw [htup] at hraw
    · have hadd : pm.maps.add p = .error (.wrap "failed to add policy to map" .tooBig) := by
        simp [PolicyMaps.add, hw, t.exactEntry_eq, hraw]
      have hput := RuleStore.put_of_none (q := listedPolicy t.key t.value) hrules
      have hsave : s.save failed status p = (s, policyError failed (.wrap "failed to add policy to map" .tooBig)) := by
        simp only [RuleStore.save, t.exactEntry_eq, hput]
      rw [addPolicy_run, hadd, hsave]
      exact ⟨h, rfl⟩
    · have hadd : pm.maps.add p = .ok { pm.maps with policyMap := x } := (add_exact_ok hw).2 ⟨t, hraw, rfl⟩
      obtain ⟨s', hput, rfl⟩ : ∃ s', s.put (listedPolicy t.key t.value) = some s' ∧ s'.rules = rules :=
        ⟨_, RuleStore.put_of_some (q := listedPolicy t.key t.value) hrules, rfl⟩
      have hsave : s.save failed status p = (s', ⟨status, .policy p⟩) := by
        simp only [RuleStore.save, t.exactEntry_eq, hput]
      rw [addPolicy_run, hadd, hsave]
      exact ⟨⟨henc, h.wildcards, hK.save hp t hput h.storage⟩, rfl⟩
  · have hadd : pm.maps.add p = .error e := by simp [PolicyMaps.add, hw, he]
    have hsave : s.save failed status p = (s, policyError failed e) := by simp only [RuleStore.save, he]
    rw [addPolicy_run, hadd, hsave]
    exact ⟨h, rfl⟩

/-- PUT is an upsert. -/
theorem replace_refines :
    Represents tuple wildcards K ((Api.replacePolicy p).run pm).1 (s.save "Failed to update policy" 200 p).1 ∧
      ((Api.replacePolicy p).run pm).2 = (s.save "Failed to update policy" 200 p).2 := by
  rw [replacePolicy_save]
  rcases deletePolicy_cases p pm with ⟨hsame, _⟩ | ⟨k, v, hk, hlook, hdel⟩
  · rw [hsame]
    exact save_refines ht hK h hp _ _
  · obtain ⟨t⟩ := parsed_of_policyKey (ht.valid p hp) hk
    have htup := ht.key p hp k hk
    have hdeleted : Represents tuple wildcards K ((deletePolicy p).run pm).1 (s.erase p.ruleID) := by
      have herased := encodes_erase h.exact ht.injective p.ruleID
      rw [htup] at herased
      rw [hdel]
      exact ⟨herased, h.wildcards, hK.delete p.ruleID h.storage⟩
    have hin : (s.rules.lookup p.ruleID).isSome := by
      rw [← h.exact.isSome, htup, hlook]
      rfl
    rw [← RuleStore.erase_save t hin]
    exact save_refines ht hK hdeleted hp _ _

omit hp

/-- **One request**: the answer of the store, up to the order of a list, and the rules that the store has then. -/
theorem serve_refines (iter : Iteration PolicyKey PolicyValue maxEntriesPolicy)
    (rulesIter : Iteration U32 Policy maxEntriesPolicy) (req : Api.Request)
    (hreq : ∀ p, (ApiEvent.request req).rule = some p → p ∈ ps) :
    Represents tuple wildcards K ((Api.serve iter req).run pm).1 (s.serve rulesIter req).1 ∧
      ((Api.serve iter req).run pm).2.Alike (s.serve rulesIter req).2 := by
  cases req with
  | create body =>
    simp only [Api.serve, RuleStore.serve]
    cases hb : shouldBindJSON body with
    | error e =>
      simp only [Api.createPolicy, hb, Prog.run_pure]
      exact ⟨h, .same _⟩
    | ok p =>
      obtain ⟨rfl, hv⟩ := shouldBindJSON_ok hb
      have hp := hreq p (by simp [ApiEvent.rule, hv])
      obtain ⟨hmaps, hresponse⟩ := save_refines ht hK h hp "Failed to add policy" 201
      rw [createPolicy_save hb, ← hresponse]
      exact ⟨hmaps, .same _⟩
  | list => exact ⟨h, .listed 200 (listing_perm ht h iter rulesIter)⟩
  | get id =>
    simp only [Api.serve, Api.getPolicy, RuleStore.serve]
    cases hid : parseUint32 id with
    | error e => exact ⟨h, .same _⟩
    | ok r =>
      have hfind := find_refines h iter r
      rw [listing] at hfind
      simp only [Prog.run_bind, listPolicies, Prog.run_act, hfind]
      cases s.rules.lookup r with
      | none => exact ⟨h, .same _⟩
      | some q => exact ⟨h, .same _⟩
  | update id body =>
    simp only [Api.serve, Api.updatePolicy, RuleStore.serve]
    cases hid : parseUint32 id with
    | error e => exact ⟨h, .same _⟩
    | ok r =>
      cases hb : shouldBindJSON body with
      | error e => exact ⟨h, .same _⟩
      | ok p =>
        obtain ⟨rfl, hv⟩ := shouldBindJSON_ok hb
        simp only
        split
        · exact ⟨h, .same _⟩
        · have hp := hreq p (by simp [ApiEvent.rule, hv])
          obtain ⟨hmaps, hresponse⟩ := replace_refines ht hK h hp
          rw [← hresponse]
          exact ⟨hmaps, .same _⟩
  | delete id =>
    simp only [Api.serve, Api.deletePolicy, RuleStore.serve]
    cases hid : parseUint32 id with
    | error e => exact ⟨h, .same _⟩
    | ok r =>
      have hfind := find_refines h iter r
      rw [listing] at hfind
      simp only [Prog.run_bind, listPolicies, Prog.run_act, hfind]
      cases hr : s.rules.lookup r with
      | none => exact ⟨h, .same _⟩
      | some q =>
        obtain ⟨v, hv, hid, hshows⟩ := entry_of_rule h hr
        have hkey : policyKey q = .ok (tuple r) := hid ▸ hshows.key
        have hdel : (deletePolicy q).run pm =
            (PolicyManager.stored { pm with maps.policyMap := pm.maps.policyMap.erase (tuple r) }
              (SQLiteStorage.deletePolicy q.ruleID), .ok ()) := by
          rw [deletePolicy_run, remove_of_ok hkey]
          simp only [HashMap.delete, hv, Option.isSome_some, ↓reduceIte]
        simp only [Prog.run_bind, hdel, Prog.run_pure]
        have hown := s.own r q hr
        exact ⟨⟨encodes_erase h.exact ht.injective r, h.wildcards, hown ▸ hK.delete q.ruleID h.storage⟩, .same _⟩

end Requests

/-! ## A run -/

/-- A packet that finds no session meets the rule of the store for its tuple, and the wildcard rules if there is none. -/
structure Enforces (wildcards : ArrayMap WildcardPolicy maxEntriesWildcardPolicy) (s : Sys) (store : RuleStore) : Prop where
  keyed : ∀ r q, store.rules.lookup r = some q → ∃ key, policyKey q = .ok key
  matched : ∀ x skb key r q, extractFlowKey skb = some (some key) → s.bpf.sessionMap.lookup key = none →
    store.rules.lookup r = some q → policyKey q = .ok key →
    (tcMicrosegmentFilter x skb s.bpf).2 = if q.action = "deny" then tcActShot else tcActOk
  unmatched : ∀ x skb key, extractFlowKey skb = some (some key) → s.bpf.sessionMap.lookup key = none →
    (∀ r q, store.rules.lookup r = some q → policyKey q ≠ .ok key) →
    (tcMicrosegmentFilter x skb s.bpf).2 = verdict (answer (bestMatch key wildcards)).1

theorem enforces_of_represents {s : Sys} {store : RuleStore} (h : Represents tuple wildcards K s.manager store) :
    Enforces wildcards s store where
  keyed r q hq := by
    obtain ⟨v, _, _, hshows⟩ := entry_of_rule h hq
    exact ⟨_, hshows.key⟩
  matched x skb key r q hkey hnew hq hk := by
    obtain ⟨v, hv, hr, hshows⟩ := entry_of_rule h hq
    have htuple : tuple r = key := by
      rw [← hr]
      exact Except.ok.inj (hshows.key.symm.trans hk)
    rw [htuple] at hv
    have hdeny : v.action = PolicyAction.deny.code ↔ q.action = "deny" := by
      constructor
      · intro ha
        rw [hshows.listed, listedPolicy, ha]
        rfl
      · intro ha
        have haction := hshows.action
        rw [ha] at haction
        exact (Except.ok.inj haction).symm
    have hdecision : decision s.bpf.maps key = (v.action, v.ruleId) := decision_exact hv
    rw [filter_verdict hkey, enforced, hnew, hdecision, verdict]
    simp only [hdeny]
  unmatched x skb key hkey hnew hnone := by
    have hv : s.manager.maps.policyMap.lookup key = none := by
      cases hv : s.manager.maps.policyMap.lookup key with
      | none => rfl
      | some v =>
        obtain ⟨q, hk, hq, hshows⟩ := rule_of_entry h hv
        exact absurd (hk ▸ hshows.key) (hnone _ q hq)
    rw [filter_verdict hkey, enforced, hnew, ← h.wildcards]
    exact congrArg (fun d => verdict d.1) (decision_scan hv)

/-- A run's rules are those of its requests, and valid. -/
theorem mem_rules {es : List ApiEvent} {p : Policy} (h : p ∈ ApiEvent.rules es) : validate p = [] := by
  obtain ⟨e, _, he⟩ := List.mem_filterMap.1 h
  have hbody : ∀ body : Option Policy, body.filter (fun p => validate p = []) = some p → validate p = [] := by
    intro body hb
    obtain ⟨_, hv⟩ := Option.filter_eq_some_iff.1 hb
    exact of_decide_eq_true hv
  cases e with
  | request req =>
    cases req with
    | create body => exact hbody body he
    | update id body => exact hbody body he
    | list => cases he
    | get id => cases he
    | delete id => cases he
  | packet x skb => cases he
  | evict key => cases he
  | database up => cases he

/-- **One event** keeps the agent and the store together, and has the same responses. -/
theorem event_refines (iter : Iteration PolicyKey PolicyValue maxEntriesPolicy)
    (rulesIter : Iteration U32 Policy maxEntriesPolicy) (ht : Assigns ps tuple) (hK : Follows ps K) {s : Sys}
    {store : RuleStore} (h : Represents tuple wildcards K s.manager store) {e : ApiEvent}
    (he : ∀ p, e.rule = some p → p ∈ ps)
    (hdb : ∀ up, e = .database up → K (s.storage.map fun d => { d with up }) store) :
    Represents tuple wildcards K (e.step iter s).manager (store.step rulesIter e) ∧
      List.Forall₂ Response.Alike (e.responses iter s) (store.responses rulesIter e) := by
  cases e with
  | request req =>
    obtain ⟨hmanager, hresponse⟩ := serve_refines ht hK h iter rulesIter req he
    exact ⟨hmanager, .cons hresponse .nil⟩
  | packet x skb => exact ⟨represents_sameButHits h (sameButHits_filter x skb s.bpf), .nil⟩
  | evict key => exact ⟨h, .nil⟩
  | database up => exact ⟨⟨h.exact, h.wildcards, hdb up rfl⟩, .nil⟩

/-- Two rules are created, one is raised and the other deleted, with packets and a failing database in between. -/
def twoRules : List ApiEvent :=
  [.request (.create (some denyPort443)), .request (.create (some { denyPort443 with ruleID := 2, dstPort := 8443 })),
    .packet ⟨0, 1, true, true⟩ packet443, .database false, .request (.update "1" (some denyPort443Raised)),
    .evict toPort443.key, .request (.delete "2"), .request (.get "2"), .request .list,
    .packet ⟨1, 2, true, true⟩ packet443]

theorem twoRules_disciplined : Disciplined (ApiEvent.rules twoRules) := by
  have hrules : ApiEvent.rules twoRules =
      [denyPort443, { denyPort443 with ruleID := 2, dstPort := 8443 }, denyPort443Raised] := by decide
  have hpaired : ∀ p ∈ ApiEvent.rules twoRules, ∀ q ∈ ApiEvent.rules twoRules,
      (p.ruleID = q.ruleID ↔ policyKey p = policyKey q) := by
    rw [hrules]
    decide
  refine ⟨by rw [hrules]; decide, fun p hp q hq k l hk hl => ?_⟩
  rw [hpaired p hp q hq, hk, hl, Except.ok.injEq]

/-- An agent with nothing in its maps and a database. -/
def idleSys : Sys := ⟨⟨.empty, .empty, fun _ _ => 0, []⟩, some .empty, []⟩

end Microseg
