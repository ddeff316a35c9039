import Microseg.Allocator
import Microseg.Api
import Microseg.Delete
/-!
# Updating a rule (`handlers/policy.go:174-255`)

`UpdatePolicy` deletes by the new policy's 5-tuple and then adds the new policy; the rule id in the URL is
compared with the body and not used otherwise. So the old entry of the rule goes away only where the two
tuples, and the maps they lead to, happen to coincide: `update_replaces_iff` says exactly when an update
replaces its own rule and touches no other.

The states are those reached by requests, packets and database failures from empty maps (`Reachable`); in
all of them the wildcard array is a keyed list (`reachable_holds`).
-/
namespace Microseg
open Words KernelMap KeyedList SlotArray Atomic

/-! ## Reachable states -/

inductive Reachable : PolicyManager → Prop
  | start (storage : Option SQLiteStorage) : Reachable ⟨.empty, storage⟩
  | request {pm : PolicyManager} (iter : Iteration PolicyKey PolicyValue maxEntriesPolicy) (req : Api.Request) :
    Reachable pm → Reachable ((Api.serve iter req).run pm).1
  /-- A packet hits an exact entry. -/
  | traffic {pm : PolicyManager} (key : FlowKey) : Reachable pm → Reachable { pm with maps := countHit pm.maps key }
  /-- The database starts or stops answering. -/
  | database {pm : PolicyManager} (up : Bool) : Reachable pm →
    Reachable { pm with storage := pm.storage.map fun s => { s with up } }

theorem reachable_create {pm : PolicyManager} (h : Reachable pm) {p : Policy} (hv : validate p = []) :
    Reachable ((addPolicy p).run pm).1 := by
  obtain ⟨iter⟩ := Iteration.nonempty PolicyKey PolicyValue maxEntriesPolicy
  have hnext := Reachable.request iter (.create (some p)) h
  have hb : shouldBindJSON (some p) = .ok p := by rw [shouldBindJSON, if_pos hv]
  simp only [Api.serve, Api.createPolicy, hb, Prog.run_bind] at hnext
  cases hr : ((addPolicy p).run pm).2 <;> rw [hr] at hnext <;> exact hnext

/-- Creating rules through the API. -/
theorem reachable_after (ps : List Policy) {pm : PolicyManager} (h : Reachable pm) (hv : ∀ p ∈ ps, validate p = []) :
    Reachable (pm.after ps) := by
  induction ps generalizing pm with
  | nil => exact h
  | cons p ps ih =>
    rw [after_cons]
    exact ih (reachable_create h (hv p (by simp))) fun q hq => hv q (by simp [hq])

theorem deletePolicy_wildcardPolicyMap (p : Policy) (pm : PolicyManager) :
    ((deletePolicy p).run pm).1.maps.wildcardPolicyMap = pm.maps.wildcardPolicyMap := by
  rcases deletePolicy_cases p pm with ⟨hsame, _⟩ | ⟨key, v, _, _, hdel⟩
  · rw [hsame]
  · rw [hdel]; rfl

/-- **What a request can do**: nothing, or add a valid policy, or delete it and add it, or delete a listed one. -/
theorem serve_cases (iter : Iteration PolicyKey PolicyValue maxEntriesPolicy) (req : Api.Request) (pm : PolicyManager) :
    ((Api.serve iter req).run pm).1 = pm ∨
    (∃ p, req = .create (some p) ∧ validate p = [] ∧ ((Api.serve iter req).run pm).1 = ((addPolicy p).run pm).1) ∨
    (∃ id p, req = .update id (some p) ∧ validate p = [] ∧
      ((Api.serve iter req).run pm).1 = ((addPolicy p).run ((deletePolicy p).run pm).1).1) ∨
    ∃ id k v, req = .delete id ∧ parseUint32 id = .ok v.ruleId ∧ pm.maps.policyMap.lookup k = some v ∧
      ((Api.serve iter req).run pm).1 = ((deletePolicy (listedPolicy k v)).run pm).1 := by
  cases req with
  | create body =>
    cases hb : shouldBindJSON body with
    | error e => exact Or.inl (by simp only [Api.serve, Api.createPolicy, hb, Prog.run_pure])
    | ok p =>
      obtain ⟨rfl, hv⟩ := shouldBindJSON_ok hb
      refine Or.inr (Or.inl ⟨p, rfl, hv, ?_⟩)
      simp only [Api.serve, Api.createPolicy, hb, Prog.run_bind]
      cases ((addPolicy p).run pm).2 <;> rfl
  | list => exact Or.inl rfl
  | get id =>
    refine Or.inl ?_
    simp only [Api.serve, Api.getPolicy]
    cases parseUint32 id with
    | error e => rfl
    | ok r =>
      simp only [Prog.run_bind]
      split <;> rfl
  | update id body =>
    simp only [Api.serve, Api.updatePolicy]
    cases parseUint32 id with
    | error e => exact Or.inl rfl
    | ok r =>
      cases hb : shouldBindJSON body with
      | error e => exact Or.inl rfl
      | ok p =>
        by_cases hr : p.ruleID = r
        · obtain ⟨rfl, hv⟩ := shouldBindJSON_ok hb
          refine Or.inr (Or.inr (Or.inl ⟨id, p, rfl, hv, ?_⟩))
          simp only [hr, ne_eq, not_true_eq_false, ↓reduceIte, Api.replacePolicy, Prog.run_bind]
          cases ((addPolicy p).run ((deletePolicy p).run pm).1).2 <;> rfl
        · exact Or.inl (by simp only [ne_eq, hr, not_false_eq_true, ↓reduceIte, Prog.run_pure])
  | delete id =>
    simp only [Api.serve, Api.deletePolicy]
    cases hid : parseUint32 id with
    | error e => exact Or.inl rfl
    | ok ruleID =>
      simp only [Prog.run_bind, listPolicies, Prog.run_act]
      split
      · exact Or.inl rfl
      · next p hfind =>
        simp only [Prog.run_bind]
        obtain ⟨⟨k, v⟩, hin, hp⟩ := List.mem_map.1 (List.mem_of_find?_eq_some hfind)
        have hfound := List.find?_some hfind
        have hr : p.ruleID = ruleID := of_decide_eq_true hfound
        have hv : v.ruleId = ruleID := by rw [← hr, ← hp]; rfl
        refine Or.inr (Or.inr (Or.inr ⟨id, k, v, rfl, by rw [hv]; exact hid, (iter.mem_visit _ k v).1 hin, ?_⟩))
        rw [show listedPolicy k v = p from hp]
        cases ((deletePolicy p).run pm).2 with
        | error e => simp only [Prog.run_pure]
        | ok u => simp only [Prog.run_pure]

/-- A request changes the wildcard array by at most one `AddPolicy` of a non-zero rule id. -/
theorem holds_serve {pm : PolicyManager} {l : List WildcardPolicy} (h : pm.maps.Holds l)
    (iter : Iteration PolicyKey PolicyValue maxEntriesPolicy) (req : Api.Request) :
    ∃ l', ((Api.serve iter req).run pm).1.maps.Holds l' := by
  have hdel : ∀ p, ((deletePolicy p).run pm).1.maps.Holds l := fun p => by
    rw [PolicyMaps.Holds, deletePolicy_wildcardPolicyMap]; exact h
  rcases serve_cases iter req pm with he | ⟨p, _, hv, he⟩ | ⟨id, p, _, hv, he⟩ | ⟨id, k, v, _, _, _, he⟩
  · rw [he]; exact ⟨l, h⟩
  · rw [he]; exact ⟨_, holds_addPolicy h (validate_eq_nil hv).1⟩
  · rw [he]; exact ⟨_, holds_addPolicy (hdel p) (validate_eq_nil hv).1⟩
  · rw [he]; exact ⟨l, hdel _⟩

/-- **In every reachable state** the wildcard array is a list of entries with distinct non-zero rule ids. -/
theorem reachable_holds {pm : PolicyManager} (h : Reachable pm) : ∃ l, pm.maps.Holds l := by
  induction h with
  | start storage => exact ⟨[], holds_empty⟩
  | request iter req _ ih =>
    obtain ⟨l, hl⟩ := ih
    exact holds_serve hl iter req
  | traffic key _ ih => exact ih
  | database up _ ih => exact ih

/-! ## Where a rule is -/

/-- A place for an entry: a key of the exact map or a slot of the array. -/
inductive Place where
  | exact (key : PolicyKey)
  | slot (i : Nat)
deriving DecidableEq

/-- The entry at the place is one of rule `r`. -/
def At (m : PolicyMaps) (r : U32) : Place → Prop
  | .exact key => ∃ v, m.policyMap.lookup key = some v ∧ v.ruleId = r
  | .slot i => ∃ w, m.wildcardPolicyMap.lookup i = some w ∧ w.ruleId = r

/-- The only entry of the policy's rule id is the encoding of the policy. -/
def OnlyEncoding (m : PolicyMaps) (p : Policy) : Prop :=
  if hasWildcard p then
    ∃ i w, wildcardEntry p = .ok w ∧ m.wildcardPolicyMap.lookup i = some w ∧ ∀ pl, At m p.ruleID pl → pl = .slot i
  else
    ∃ k v, exactEntry p = .ok (k, v) ∧ m.policyMap.lookup k = some v ∧ ∀ pl, At m p.ruleID pl → pl = .exact k

/-- The entries of all other rules are the same before and after. -/
structure OthersKept (m m' : PolicyMaps) (r : U32) : Prop where
  exact : ∀ k v, v.ruleId ≠ r → (m'.policyMap.lookup k = some v ↔ m.policyMap.lookup k = some v)
  slot : ∀ i w, w.ruleId ≠ r → w.ruleId ≠ 0 →
    (m'.wildcardPolicyMap.lookup i = some w ↔ m.wildcardPolicyMap.lookup i = some w)

/-- The update's own rule is where the update looks for it: under the new policy's exact key, or in the
array it writes to, with nothing else under that key. -/
def FindsOwn (m : PolicyMaps) (p : Policy) : Prop :=
  (∃ key v, policyKey p = .ok key ∧ m.policyMap.lookup key = some v ∧ v.ruleId = p.ruleID) ∨
    (hasWildcard p = true ∧ (∃ i, At m p.ruleID (.slot i)) ∧
      ∀ key, policyKey p = .ok key → m.policyMap.lookup key = none)

section Replace

variable {m m' : PolicyMaps} {p : Policy} (t : Parsed p)

theorem at_exact_congr {r : U32} {k : PolicyKey} (h : m'.policyMap.lookup k = m.policyMap.lookup k) :
    At m' r (.exact k) ↔ At m r (.exact k) := by
  rw [At, At, h]

/-- Deleting a key takes an entry from another rule unless the entry under it is the rule's own. -/
theorem erase_keeps_others_iff {x : HashMap PolicyKey PolicyValue maxEntriesPolicy} {key : PolicyKey} {r : U32} :
    (∀ k v, v.ruleId ≠ r → ((x.erase key).lookup k = some v ↔ x.lookup k = some v)) ↔
      ∀ v, x.lookup key = some v → v.ruleId = r := by
  constructor
  · intro hkept v hv
    by_contra hr
    have hgone := (hkept key v hr).2 hv
    rw [HashMap.lookup_erase, if_pos rfl] at hgone
    cases hgone
  · intro hown k v hr
    rw [HashMap.lookup_erase]
    split
    · next hk => exact iff_of_false (fun h => by cases h) fun h => hr (hown v (hk ▸ h))
    · rfl

/-- Putting an entry of the rule under a key takes an entry from another rule unless the old one is the
rule's own. -/
theorem put_keeps_others_iff {x x' : HashMap PolicyKey PolicyValue maxEntriesPolicy} {key : PolicyKey} {value : PolicyValue}
    (hput : (x.erase key).put key value = some x') :
    (∀ k v, v.ruleId ≠ value.ruleId → (x'.lookup k = some v ↔ x.lookup k = some v)) ↔
      ∀ v, x.lookup key = some v → v.ruleId = value.ruleId := by
  rw [← erase_keeps_others_iff]
  refine forall₃_congr fun k v hr => ?_
  rw [HashMap.lookup_put hput, HashMap.lookup_erase]
  by_cases hk : k = key
  · have hno : ¬ value = v := fun he => hr (congrArg PolicyValue.ruleId he).symm
    simp [hk, hno]
  · simp [hk]

/-- Deleting the new key and putting the new entry under it. -/
theorem replace_exact_iff (hw : hasWildcard p = false) (honce : ∃! pl, At m p.ruleID pl)
    (hput : (m.policyMap.erase t.key).put t.key t.value = some m'.policyMap)
    (hsame : m'.wildcardPolicyMap = m.wildcardPolicyMap) :
    OnlyEncoding m' p ∧ OthersKept m m' p.ruleID ↔ ∃ v, m.policyMap.lookup t.key = some v ∧ v.ruleId = p.ruleID := by
  have hnew : m'.policyMap.lookup t.key = some t.value := by rw [HashMap.lookup_put hput, if_pos rfl]
  have hold : ∀ k, k ≠ t.key → m'.policyMap.lookup k = m.policyMap.lookup k := by
    intro k hk
    rw [HashMap.lookup_put hput, HashMap.lookup_erase, if_neg hk, if_neg hk]
  obtain ⟨pl, hpl, huniq⟩ := honce
  constructor
  · rintro ⟨honly, _⟩
    rw [OnlyEncoding, hw, if_neg Bool.false_ne_true] at honly
    obtain ⟨k, v, hkv, _, honly⟩ := honly
    have hk : k = t.key := by rw [t.exactEntry_eq] at hkv; cases hkv; rfl
    cases pl with
    | slot i =>
      have hslot : At m' p.ruleID (.slot i) := by rw [At, hsame]; exact hpl
      cases honly _ hslot
    | exact k' =>
      by_cases hk' : k' = t.key
      · exact hk' ▸ hpl
      · have hstays := honly _ ((at_exact_congr (hold k' hk')).2 hpl)
        exact absurd ((Place.exact.inj hstays).trans hk) hk'
  · intro hown
    have honlyOld : ∀ pl', At m p.ruleID pl' → pl' = .exact t.key := fun pl' h' =>
      (huniq pl' h').trans (huniq (.exact t.key) hown).symm
    obtain ⟨v, hv, hr⟩ := hown
    refine ⟨?_, (put_keeps_others_iff hput).2 fun v' hv' => ?_, fun i w _ _ => by rw [hsame]⟩
    · rw [OnlyEncoding, hw, if_neg Bool.false_ne_true]
      refine ⟨t.key, t.value, t.exactEntry_eq, hnew, fun pl' h' => ?_⟩
      cases pl' with
      | slot i => exact honlyOld _ (by rw [At, hsame] at h'; exact h')
      | exact k =>
        by_cases hk : k = t.key
        · rw [hk]
        · exact honlyOld _ ((at_exact_congr (hold k hk)).1 h')
    · rw [hv] at hv'
      cases hv'
      exact hr

/-- The slot the search stops at is free or the rule's own, so writing it keeps the entries of all other rules. -/
theorem put_slot_keeps_others {i : Nat} (hi : slotFor m.wildcardPolicyMap p.ruleID = some i)
    (hput : m.wildcardPolicyMap.put i t.wildcard = some m'.wildcardPolicyMap) {j : Nat} {w : WildcardPolicy}
    (hr : w.ruleId ≠ p.ruleID) (h0 : w.ruleId ≠ 0) :
    m'.wildcardPolicyMap.lookup j = some w ↔ m.wildcardPolicyMap.lookup j = some w := by
  rw [ArrayMap.lookup_put hput]
  split
  · next hj =>
    subst hj
    refine iff_of_false (fun h => hr ?_) fun h => ?_
    · cases h; rfl
    · have hfree := List.find?_some hi
      rw [h, Option.elim_some, decide_eq_true_eq] at hfree
      exact hfree.elim h0 hr
  · rfl

/-- Deleting the new key and writing the slot the search stops at. -/
theorem replace_wildcard_iff {l : List WildcardPolicy} (hm : m.Holds l) (h0 : p.ruleID ≠ 0) (hw : hasWildcard p = true)
    (honce : ∃! pl, At m p.ruleID pl) {i : Nat}
    (hi : slotFor m.wildcardPolicyMap p.ruleID = some i)
    (hput : m.wildcardPolicyMap.put i t.wildcard = some m'.wildcardPolicyMap)
    (herase : m'.policyMap = m.policyMap.erase t.key) :
    OnlyEncoding m' p ∧ OthersKept m m' p.ruleID ↔
      (∃ v, m.policyMap.lookup t.key = some v ∧ v.ruleId = p.ruleID) ∨
        ((∃ j, At m p.ruleID (.slot j)) ∧ m.policyMap.lookup t.key = none) := by
  have hgone : m'.policyMap.lookup t.key = none := by rw [herase, HashMap.lookup_erase, if_pos rfl]
  have hold : ∀ k, k ≠ t.key → m'.policyMap.lookup k = m.policyMap.lookup k := by
    intro k hk
    rw [herase, HashMap.lookup_erase, if_neg hk]
  have hslot := ArrayMap.lookup_put hput
  have hpos : ∀ j, At m p.ruleID (.slot j) → j = i := by
    rintro j ⟨w, hwj, hr⟩
    have hu : wildcardLayout.key w ≠ wildcardLayout.free := by rw [← hr] at h0; exact h0
    exact hm.slot_eq hwj hu (by rw [← hi, ← hr]; rfl)
  obtain ⟨pl, hpl, huniq⟩ := honce
  constructor
  · rintro ⟨honly, hkept⟩
    rw [OnlyEncoding, if_pos hw] at honly
    obtain ⟨_, _, _, _, honly⟩ := honly
    have hown := erase_keeps_others_iff.1 fun k v hr => herase ▸ hkept.exact k v hr
    cases pl with
    | exact k =>
      by_cases hk : k = t.key
      · exact Or.inl (hk ▸ hpl)
      · cases honly _ ((at_exact_congr (hold k hk)).2 hpl)
    | slot j =>
      cases hx : m.policyMap.lookup t.key with
      | none => exact Or.inr ⟨⟨j, hpl⟩, rfl⟩
      | some v => exact Or.inl ⟨v, rfl, hown v hx⟩
  · intro hcase
    have hown : ∀ v, m.policyMap.lookup t.key = some v → v.ruleId = p.ruleID := by
      intro v hv
      rcases hcase with ⟨v', hv', hr'⟩ | ⟨_, hnone⟩
      · rw [hv] at hv'; cases hv'; exact hr'
      · rw [hv] at hnone; cases hnone
    -- what the case says is where the rule's only entry is, so no other key has one
    have hnoExact : ∀ k, k ≠ t.key → ¬ At m p.ruleID (.exact k) := by
      intro k hk h'
      rcases hcase with hexact | ⟨⟨j, hj⟩, _⟩
      · exact hk (Place.exact.inj ((huniq _ h').trans (huniq (.exact t.key) hexact).symm))
      · cases (huniq _ h').trans (huniq _ hj).symm
    refine ⟨?_, herase ▸ erase_keeps_others_iff.2 hown, fun j w => put_slot_keeps_others t hi hput⟩
    rw [OnlyEncoding, if_pos hw]
    refine ⟨i, t.wildcard, t.wildcardEntry_eq, by rw [hslot, if_pos rfl], fun pl' h' => ?_⟩
    cases pl' with
    | exact k =>
      by_cases hk : k = t.key
      · obtain ⟨v, hv, _⟩ := h'
        rw [hk, hgone] at hv; cases hv
      · exact absurd ((at_exact_congr (hold k hk)).1 h') (hnoExact k hk)
    | slot j =>
      obtain ⟨w, hwj, hr⟩ := h'
      rw [hslot] at hwj
      split at hwj
      · next hj => rw [hj]
      · rw [hpos j ⟨w, hwj, hr⟩]

end Replace

/-! ## The request -/

/-- A valid `PUT /policies/:id`: the URL holds a rule id, the body binds and has the same rule id. -/
structure ValidPut (id : String) (body : Option PolicyRequest) (p : Policy) : Prop where
  url : parseUint32 id = .ok p.ruleID
  body : shouldBindJSON body = .ok p

theorem ValidPut.ruleID_ne_zero {id : String} {body : Option PolicyRequest} {p : Policy} (h : ValidPut id body p) :
    p.ruleID ≠ 0 := (validate_eq_nil (shouldBindJSON_ok h.body).2).1

theorem ValidPut.updatePolicy_eq {id : String} {body : Option PolicyRequest} {p : Policy} (h : ValidPut id body p) :
    Api.updatePolicy id body = Api.replacePolicy p := by
  simp only [Api.updatePolicy, h.url, h.body, ne_eq, not_true_eq_false, ↓reduceIte]

/-- A successful update, as a function of the maps. -/
theorem ValidPut.run_ok {id : String} {body : Option PolicyRequest} {p : Policy} (h : ValidPut id body p)
    {pm : PolicyManager} (hok : ((Api.updatePolicy id body).run pm).2.status = 200) :
    ((pm.maps.remove p).toOption.getD pm.maps).add p = .ok ((Api.updatePolicy id body).run pm).1.maps := by
  rw [h.updatePolicy_eq] at hok ⊢
  simp only [Api.replacePolicy, Prog.run_bind] at hok ⊢
  rw [← deletePolicy_maps]
  cases hr : (addPolicy p).run ((deletePolicy p).run pm).1 with
  | mk pm' r =>
    cases r with
    | error e => rw [hr] at hok; cases hok
    | ok u => exact addPolicy_eq_ok hr

/-- **Update replaces exactly one rule**: in every reachable state in which the rule of a valid PUT is
installed exactly once, an update answered with 200 leaves the encoding of the new policy as the only
entry of the rule, and every entry of every other rule as it was, iff the old entry is under the new
policy's exact key, or the new policy and the old entry are in the wildcard array and the new exact key
is free. -/
theorem update_replaces_iff {pm : PolicyManager} (hpm : Reachable pm) {id : String} {body : Option PolicyRequest}
    {p : Policy} (hput : ValidPut id body p) (honce : ∃! pl, At pm.maps p.ruleID pl)
    (hok : ((Api.updatePolicy id body).run pm).2.status = 200) :
    OnlyEncoding ((Api.updatePolicy id body).run pm).1.maps p ∧
        OthersKept pm.maps ((Api.updatePolicy id body).run pm).1.maps p.ruleID ↔
      FindsOwn pm.maps p := by
  obtain ⟨l, hl⟩ := reachable_holds hpm
  have hadd := hput.run_ok hok
  generalize ((Api.updatePolicy id body).run pm).1.maps = m' at hadd ⊢
  cases hw : hasWildcard p with
  | false =>
    obtain ⟨t, hp, hsame⟩ := (add_exact_ok hw).1 hadd
    rw [remove_maps t] at hp hsame
    rw [replace_exact_iff t hw honce hp hsame]
    constructor
    · rintro ⟨v, hv, hr⟩
      exact Or.inl ⟨t.key, v, t.policyKey_eq, hv, hr⟩
    · rintro (⟨k, v, hk, hv, hr⟩ | ⟨hw', _⟩)
      · rw [t.policyKey_eq] at hk; cases hk
        exact ⟨v, hv, hr⟩
      · rw [hw] at hw'; cases hw'
  | true =>
    obtain ⟨t, i, hi, hp, herase⟩ := (add_wildcard_ok hw).1 hadd
    rw [remove_maps t] at hi hp herase
    rw [replace_wildcard_iff t hl hput.ruleID_ne_zero hw honce hi hp herase]
    constructor
    · rintro (⟨v, hv, hr⟩ | ⟨hslot, hnone⟩)
      · exact Or.inl ⟨t.key, v, t.policyKey_eq, hv, hr⟩
      · refine Or.inr ⟨hw, hslot, fun key hk => ?_⟩
        rw [t.policyKey_eq] at hk; cases hk
        exact hnone
    · rintro (⟨k, v, hk, hv, hr⟩ | ⟨_, hslot, hnone⟩)
      · rw [t.policyKey_eq] at hk; cases hk
        exact Or.inl ⟨v, hv, hr⟩
      · exact Or.inr ⟨hslot, hnone t.key t.policyKey_eq⟩

/-! ### A changed destination port -/

/-- A rule whose id is new is installed exactly once after it is added to the exact map. -/
theorem at_after_add {m m' : PolicyMaps} {p : Policy} (hnew : NotInstalled m p.ruleID) (hw : hasWildcard p = false)
    (hadd : m.add p = .ok m') : ∃! pl, At m' p.ruleID pl := by
  obtain ⟨t, hput, hsame⟩ := (add_exact_ok hw).1 hadd
  refine ⟨.exact t.key, ⟨t.value, by rw [HashMap.lookup_put hput, if_pos rfl], rfl⟩, fun pl h => ?_⟩
  cases pl with
  | exact k =>
    obtain ⟨v, hv, hr⟩ := h
    rw [HashMap.lookup_put hput] at hv
    split at hv
    · next hk => rw [hk]
    · exact absurd hr (hnew.exact k v hv)
  | slot i =>
    obtain ⟨w, hwi, hr⟩ := h
    rw [hsame] at hwi
    exact absurd hr (hnew.wildcard i w hwi)

/-- The manager after rule 1, a single connection, was created through the API. -/
def created : PolicyManager := ((Api.createPolicy (some denyPort443)).run .fresh).1

theorem created_reachable : Reachable created := by
  obtain ⟨iter⟩ := Iteration.nonempty PolicyKey PolicyValue maxEntriesPolicy
  exact .request iter (.create (some denyPort443)) (.start none)

theorem created_once : ∃! pl, At created.maps 1 pl := by
  have hadd : PolicyMaps.empty.add denyPort443 = .ok created.maps :=
    @addPolicy_eq_ok denyPort443 .fresh created (Prod.ext rfl (by decide))
  exact at_after_add (notInstalled_empty (by decide)) (by decide) hadd

/-- Rule 1 for another destination port. -/
def denyPort8443 : Policy := ⟨1, "10.0.0.5", "10.0.0.5", 40000, 8443, "tcp", "deny", 100⟩

/-- The update is answered with 200 and leaves the old entry of the rule beside the new one. -/
theorem changed_port_installed_twice : Reachable created ∧ ValidPut "1" (some denyPort8443) denyPort8443 ∧
    (∃! pl, At created.maps denyPort8443.ruleID pl) ∧
    ((Api.updatePolicy "1" (some denyPort8443)).run created).2.status = 200 ∧
    ¬ (OnlyEncoding ((Api.updatePolicy "1" (some denyPort8443)).run created).1.maps denyPort8443 ∧
      OthersKept created.maps ((Api.updatePolicy "1" (some denyPort8443)).run created).1.maps denyPort8443.ruleID) := by
  refine ⟨created_reachable, ⟨by decide, by decide⟩, created_once, by decide, fun ⟨honly, _⟩ => ?_⟩
  rw [OnlyEncoding, if_neg (by decide)] at honly
  obtain ⟨k, _, _, _, honly⟩ := honly
  have h443 := honly (.exact toPort443.key) ⟨⟨1, 0, 100, 1, 0⟩, by decide, rfl⟩
  have h8443 := honly (.exact { toPort443.key with dstPort := htons 8443 }) ⟨⟨1, 0, 100, 1, 0⟩, by decide, rfl⟩
  exact absurd (h443.trans h8443.symm) (by decide)

/-- Rule 1 with another priority. -/
def denyPort443Raised : Policy := { denyPort443 with priority := 200 }

theorem raised_priority_replaces :
    OnlyEncoding ((Api.updatePolicy "1" (some denyPort443Raised)).run created).1.maps denyPort443Raised ∧
        OthersKept created.maps ((Api.updatePolicy "1" (some denyPort443Raised)).run created).1.maps
          denyPort443Raised.ruleID ↔
      FindsOwn created.maps denyPort443Raised :=
  update_replaces_iff created_reachable ⟨by decide, by decide⟩ created_once (by decide)

end Microseg
