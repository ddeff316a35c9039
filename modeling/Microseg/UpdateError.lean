import Microseg.Update
/-!
# Updates that fail (`handlers/policy.go:224-240`)

"Atomic update" is a delete followed by an add. A request that does not bind, or whose policy does not
parse, changes nothing; a delete that took effect frees the room an exact entry needs. What is left is a
policy that has become a wildcard rule: its entry needs a slot of the array, and when there is none the old
exact entry is gone all the same (`failed_update_unchanged_iff`).
-/
namespace Microseg
open Words KernelMap KeyedList SlotArray Atomic

/-! ## When adding fails -/

/-- A bound request has an action that parses. -/
theorem parsed_of_policyKey {p : Policy} (hv : validate p = []) {key : PolicyKey} (hk : policyKey p = .ok key) :
    Nonempty (Parsed p) := by
  have haction : ∃ a, parseAction p.action = .ok a := by
    have h := (validate_eq_nil hv).2.2
    simp only [List.mem_cons, List.not_mem_nil, or_false] at h
    rcases h with h | h | h <;> rw [h]
    · exact ⟨0, by decide⟩
    · exact ⟨1, by decide⟩
    · exact ⟨2, by decide⟩
  obtain ⟨a, ha⟩ := haction
  unfold policyKey at hk
  cases hs : parseCIDR p.srcIP with
  | error e => rw [hs] at hk; cases hk
  | ok s =>
    cases hd : parseCIDR p.dstIP with
    | error e => rw [hs, hd] at hk; cases hk
    | ok d =>
      cases hp : parseProtocol p.protocol with
      | error e => rw [hs, hd, hp] at hk; cases hk
      | ok proto => exact ⟨⟨s, d, proto, a, hs, hd, hp, ha⟩⟩

/-- Adding a policy fails after its key was deleted exactly when it needs a slot and there is none. -/
theorem add_erased_error_iff {m : PolicyMaps} {p : Policy} (t : Parsed p) (hk : (m.policyMap.lookup t.key).isSome) :
    (∃ e, PolicyMaps.add { m with policyMap := m.policyMap.erase t.key } p = .error e) ↔
      hasWildcard p = true ∧ slotFor m.wildcardPolicyMap p.ruleID = none := by
  cases hw : hasWildcard p with
  | false =>
    refine iff_of_false ?_ fun h => Bool.noConfusion h.1
    rintro ⟨e, he⟩
    -- the key that was erased left room
    obtain ⟨m', hok⟩ := exists_add_of_room (m := { m with policyMap := m.policyMap.erase t.key }) hw t
      (Or.inr ((HashMap.size_erase_lt hk).trans_le m.policyMap.card_le))
    rw [hok] at he; cases he
  | true =>
    cases hs : slotFor m.wildcardPolicyMap p.ruleID with
    | none => simp [PolicyMaps.add, hw, t.wildcardEntry_eq, PolicyMaps.writeSlot, hs]
    | some i =>
      refine iff_of_false ?_ fun h => by cases h.2
      rintro ⟨e, he⟩
      obtain ⟨m', hok⟩ := exists_add_of_slotFor (m := { m with policyMap := m.policyMap.erase t.key }) hw t hs
      rw [hok] at he; cases he

/-! ## The request -/

/-- The update leaves the exact map without the policy's entry and cannot place the new one. -/
def LosesEntry (pm : PolicyManager) (p : Policy) : Prop :=
  hasWildcard p = true ∧ slotFor pm.maps.wildcardPolicyMap p.ruleID = none ∧
    ∃ key, policyKey p = .ok key ∧ (pm.maps.policyMap.lookup key).isSome

theorem replacePolicy_run (p : Policy) (pm : PolicyManager) : (Api.replacePolicy p).run pm =
    match ((deletePolicy p).run pm).1.maps.add p with
    | .error e => (((deletePolicy p).run pm).1, policyError "Failed to update policy" e)
    | .ok maps => (PolicyManager.stored { ((deletePolicy p).run pm).1 with maps } (SQLiteStorage.savePolicy p),
        ⟨200, .policy p⟩) := by
  simp only [Api.replacePolicy, Prog.run_bind, addPolicy_run]
  cases ((deletePolicy p).run pm).1.maps.add p <;> rfl

/-- A delete that finds nothing changes nothing. -/
theorem deletePolicy_absent {p : Policy} {pm : PolicyManager}
    (h : ∀ key, policyKey p = .ok key → pm.maps.policyMap.lookup key = none) : ((deletePolicy p).run pm).1 = pm := by
  rcases deletePolicy_cases p pm with ⟨hsame, _⟩ | ⟨key, v, hkey, hv, _⟩
  · exact hsame
  · rw [h key hkey] at hv; cases hv

/-- **The answer of a replacement**: 200, or an error and the manager as it was, or an error and an entry lost. -/
theorem replacePolicy_cases {p : Policy} (hv : validate p = []) (pm : PolicyManager) :
    (((Api.replacePolicy p).run pm).2.status = 200 ∧ ¬ LosesEntry pm p) ∨
    (((Api.replacePolicy p).run pm).1 = pm ∧ ¬ LosesEntry pm p) ∨
    (((Api.replacePolicy p).run pm).2.status ≠ 200 ∧ ((Api.replacePolicy p).run pm).1 ≠ pm ∧ LosesEntry pm p) := by
  rw [replacePolicy_run]
  by_cases hthere : ∃ key, policyKey p = .ok key ∧ (pm.maps.policyMap.lookup key).isSome
  · obtain ⟨key, hk, hin⟩ := hthere
    obtain ⟨t⟩ := parsed_of_policyKey hv hk
    have hkey : key = t.key := Except.ok.inj (hk.symm.trans t.policyKey_eq)
    subst hkey
    have hmaps : ((deletePolicy p).run pm).1.maps = { pm.maps with policyMap := pm.maps.policyMap.erase t.key } := by
      rw [deletePolicy_maps, remove_maps t]
    have hfails := add_erased_error_iff t hin
    rw [← hmaps] at hfails
    cases hadd : ((deletePolicy p).run pm).1.maps.add p with
    | ok maps =>
      refine Or.inl ⟨rfl, fun hlose => ?_⟩
      obtain ⟨e, he⟩ := hfails.2 ⟨hlose.1, hlose.2.1⟩
      rw [hadd] at he; cases he
    | error e =>
      obtain ⟨hw, hslot⟩ := hfails.1 ⟨e, hadd⟩
      refine Or.inr (Or.inr ⟨(by decide : (500 : Nat) ≠ 200), fun hsame => ?_, hw, hslot, t.key, t.policyKey_eq, hin⟩)
      -- the deleted key is missing
      have hgone : ((deletePolicy p).run pm).1.maps.policyMap.lookup t.key = none := by
        rw [hmaps]
        exact (HashMap.lookup_erase _ _ _).trans (if_pos rfl)
      have hstate : ((deletePolicy p).run pm).1 = pm := hsame
      rw [hstate] at hgone
      rw [hgone] at hin; cases hin
  · have hnot : ¬ LosesEntry pm p := fun h => hthere h.2.2
    have habsent := @deletePolicy_absent p pm fun key hk => by
      cases hl : pm.maps.policyMap.lookup key with
      | none => rfl
      | some v => exact absurd ⟨key, hk, by rw [hl]; rfl⟩ hthere
    rw [habsent]
    cases pm.maps.add p with
    | ok maps => exact Or.inl ⟨rfl, hnot⟩
    | error e => exact Or.inr (Or.inl ⟨rfl, hnot⟩)

/-- **A failed update changes nothing**, in any state and for any request, iff the request is not a valid one for
a wildcard policy without a slot whose key the exact map has. -/
theorem failed_update_unchanged_iff (pm : PolicyManager) (id : String) (body : Option PolicyRequest) :
    (((Api.updatePolicy id body).run pm).2.status ≠ 200 → ((Api.updatePolicy id body).run pm).1 = pm) ↔
      ∀ p, ValidPut id body p → ¬ LosesEntry pm p := by
  by_cases hvalid : ∃ p, ValidPut id body p
  · obtain ⟨p, hput⟩ := hvalid
    have honly : ∀ q, ValidPut id body q → q = p := fun q hq => Except.ok.inj (hq.body.symm.trans hput.body)
    rw [hput.updatePolicy_eq]
    rcases replacePolicy_cases (shouldBindJSON_ok hput.body).2 pm with ⟨h200, hnot⟩ | ⟨hsame, hnot⟩ | ⟨hne, hchanged, hlose⟩
    · exact ⟨fun _ q hq => honly q hq ▸ hnot, fun _ hne => absurd h200 hne⟩
    · exact ⟨fun _ q hq => honly q hq ▸ hnot, fun _ _ => hsame⟩
    · exact ⟨fun h => absurd (h hne) hchanged, fun h => absurd hlose (h p hput)⟩
  · refine iff_of_true (fun _ => ?_) fun p hp => absurd ⟨p, hp⟩ hvalid
    unfold Api.updatePolicy
    cases hid : parseUint32 id with
    | error e => rfl
    | ok r =>
      cases hb : shouldBindJSON body with
      | error e => rfl
      | ok p =>
        by_cases hr : p.ruleID = r
        · exact absurd ⟨p, by rw [hid, hr], hb⟩ hvalid
        · simp only [ne_eq, hr, not_false_eq_true, ↓reduceIte, Prog.run_pure]

/-! ### A rule widened while the array is full -/

theorem validate_numbered {i : Nat} (hi : i < 1000) : validate (numbered i) = [] := by
  have h0 : ¬ BitVec.ofNat 32 (i + 1) = 0#32 := numbered_ruleID_ne_zero hi
  simp [validate, numbered, h0, requiredOneOf]

/-- Rule 2000 for connections from 0.0.0.0, and for connections from anywhere. -/
def fromUnspecified : Policy := ⟨2000, "0.0.0.0", "10.0.0.5", 40000, 443, "tcp", "deny", 100⟩
def fromAnywhere : Policy := { fromUnspecified with srcIP := "0.0.0.0/0" }

/-- Rule 2000, and every slot of the array taken. -/
def fullArray : PolicyManager := (((addPolicy fromUnspecified).run .fresh).1).after ((List.range 1000).map numbered)

theorem fullArray_reachable : Reachable fullArray :=
  reachable_after _ (reachable_create (.start none) (by decide)) fun p hp => by
    obtain ⟨i, hi, rfl⟩ := List.mem_map.1 hp
    exact validate_numbered (List.mem_range.1 hi)

/-- Numbered rules fill an array without entries from the front. -/
theorem holds_numbered {pm : PolicyManager} (h : pm.maps.Holds []) {n : Nat} (hn : n ≤ 1000) :
    (pm.after ((List.range n).map numbered)).maps.Holds ((List.range n).map fun i => (numberedParsed i).wildcard) := by
  rw [← placed_numbered n hn]
  refine holds_after _ h fun p hp => ?_
  obtain ⟨i, hi, rfl⟩ := List.mem_map.1 hp
  exact numbered_ruleID_ne_zero (by have := List.mem_range.1 hi; omega)

theorem policyMap_numbered (pm : PolicyManager) (n : Nat) :
    (pm.after ((List.range n).map numbered)).maps.policyMap = pm.maps.policyMap :=
  policyMap_after _ pm fun q hq => by obtain ⟨i, _, rfl⟩ := List.mem_map.1 hq; rfl

/-- A full array has no slot for another rule. -/
theorem slotFor_numbered {m : PolicyMaps} {n : Nat} (h : m.Holds ((List.range n).map fun i => (numberedParsed i).wildcard))
    (hn : maxEntriesWildcardPolicy ≤ n) {r : U32} (hr : ∀ i < n, (numbered i).ruleID ≠ r) :
    slotFor m.wildcardPolicyMap r = none := by
  have hslot := h.firstSlot_isSome (k := r)
  rw [← Option.not_isSome_iff_eq_none]
  intro hsome
  rcases hslot.1 hsome with hmem | hlt
  · obtain ⟨w, hw, hid⟩ := List.mem_map.1 hmem
    obtain ⟨i, hi, rfl⟩ := List.mem_map.1 hw
    exact hr i (List.mem_range.1 hi) hid
  · rw [List.length_map, List.length_range] at hlt
    omega

theorem fullArray_loses : LosesEntry fullArray fromAnywhere := by
  have hstart : ((addPolicy fromUnspecified).run .fresh).1.maps.Holds [] :=
    @holds_addPolicy .fresh [] holds_empty fromUnspecified (by decide)
  have hlook : fullArray.maps.policyMap = ((addPolicy fromUnspecified).run .fresh).1.maps.policyMap := by
    rw [fullArray, policyMap_numbered]
  have hslot := slotFor_numbered (r := fromAnywhere.ruleID) (holds_numbered hstart (Nat.le_refl 1000)) (Nat.le_refl 1000)
    fun i hi he => by
      have hnat := congrArg BitVec.toNat he
      have h2000 : fromAnywhere.ruleID.toNat = 2000 := by decide
      simp only [h2000, numbered, BitVec.toNat_ofNat] at hnat
      omega
  refine ⟨by decide, ?_, ⟨0, 0x0500000a, htons 40000, htons 443, 6, 0⟩, by decide, by rw [hlook]; decide⟩
  rw [fullArray]
  exact hslot

/-- The update is valid and answered with 500, and rule 2000 is no longer there. -/
theorem widened_rule_lost : Reachable fullArray ∧ ValidPut "2000" (some fromAnywhere) fromAnywhere ∧
    ¬ (((Api.updatePolicy "2000" (some fromAnywhere)).run fullArray).2.status ≠ 200 →
      ((Api.updatePolicy "2000" (some fromAnywhere)).run fullArray).1 = fullArray) := by
  have hput : ValidPut "2000" (some fromAnywhere) fromAnywhere := ⟨by decide, by decide⟩
  refine ⟨fullArray_reachable, hput, ?_⟩
  rw [hput.updatePolicy_eq]
  rcases replacePolicy_cases (shouldBindJSON_ok hput.body).2 fullArray with ⟨_, hnot⟩ | ⟨_, hnot⟩ | ⟨hne, hchanged, _⟩
  · exact absurd fullArray_loses hnot
  · exact absurd fullArray_loses hnot
  · exact fun h => hchanged (h hne)

end Microseg
