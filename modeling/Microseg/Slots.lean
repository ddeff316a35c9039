import Microseg.Mirror
/-!
# The slot allocator of the wildcard array (`policy.go:373-476`, `WILDCARD_POLICY_FIX.md:241-246`)

The search of `addWildcardPolicy` stops at the first empty slot, so a rule is updated in place only if no
slot before its own is empty. No call of the manager empties a slot or fills one behind an empty one: in
every state that calls reach, the occupied slots are the first `n`, with distinct rule ids (`Packed`), and a
further call writes the slot of its rule, else slot `n`, else none (`wildcard_allocator`).
-/
namespace Microseg
open Words KernelMap KeyedList SlotArray Atomic Runs

/-- The occupied slots are the first `n`, each with a rule id of its own. -/
structure Packed (m : ArrayMap WildcardPolicy maxEntriesWildcardPolicy) (n : Nat) : Prop where
  le : n ≤ maxEntriesWildcardPolicy
  occupied : ∀ i w, m.lookup i = some w → (w.ruleId ≠ 0 ↔ i < n)
  distinct : ∀ i < n, ∀ j < n, ∀ w w', m.lookup i = some w → m.lookup j = some w' → w.ruleId = w'.ruleId → i = j

/-- The rule of slot `i`. -/
def HasRule (m : ArrayMap WildcardPolicy maxEntriesWildcardPolicy) (i : Nat) (r : U32) : Prop :=
  ∃ w, m.lookup i = some w ∧ w.ruleId = r

/-- The entry is written to slot `i`, and nothing else changes. -/
structure WritesSlot (pm pm' : PolicyManager) (i : Nat) (w : WildcardPolicy) : Prop where
  slot : pm'.maps.wildcardPolicyMap.lookup i = some w
  others : ∀ j, j ≠ i → pm'.maps.wildcardPolicyMap.lookup j = pm.maps.wildcardPolicyMap.lookup j
  policyMap : pm'.maps.policyMap = pm.maps.policyMap
  storage : pm'.storage = pm.storage

/-! ## The invariant -/

theorem packed_of_holds {m : PolicyMaps} {l : List WildcardPolicy} (h : m.Holds l) :
    Packed m.wildcardPolicyMap l.length := by
  refine ⟨h.length_le, fun i w hw => ⟨fun h0 => ?_, fun hi => ?_⟩, fun i hi j hj w w' hw hw' he => ?_⟩
  · exact (List.getElem?_eq_some_iff.1 (h.getElem?_of_lookup hw h0)).1
  · have hl := List.getElem?_eq_getElem hi
    have hsame := h.lookup_of_getElem? hl
    rw [hw] at hsame
    rw [Option.some.inj hsame]
    exact h.used _ (List.getElem_mem hi)
  · have hu : ∀ {k : Nat} {x : WildcardPolicy}, k < l.length → m.wildcardPolicyMap.lookup k = some x → l[k]? = some x := by
      intro k x hk hx
      have hl := List.getElem?_eq_getElem hk
      rw [h.lookup_of_getElem? hl] at hx
      rw [hl, hx]
    have hpos : position WildcardPolicy.ruleId w.ruleId l = i := position_of_getElem? h.nodup (hu hi hw)
    have hpos' : position WildcardPolicy.ruleId w'.ruleId l = j := position_of_getElem? h.nodup (hu hj hw')
    rw [← hpos, ← hpos', he]

/-- Neither call of the manager breaks the list, as long as what is added has a rule id. -/
theorem holds_call {pm : PolicyManager} {c : PolicyCall} (h : ∃ l, pm.maps.Holds l)
    (h0 : ∀ p, c = .add p → p.ruleID ≠ 0) : ∃ l, (pm.call c).maps.Holds l := by
  obtain ⟨l, hl⟩ := h
  cases c with
  | add p => exact ⟨_, holds_addPolicy hl (h0 p rfl)⟩
  | delete p => exact ⟨l, by rw [PolicyManager.call, PolicyMaps.Holds, deletePolicy_wildcardPolicyMap]; exact hl⟩

/-! ## A further call -/

section Call

variable {pm pm' : PolicyManager} {p : Policy} (t : Parsed p)

/-- Writing an entry over itself changes nothing. -/
theorem WritesSlot.again {i : Nat} {w : WildcardPolicy} (h : WritesSlot pm pm' i w)
    (hw : pm.maps.wildcardPolicyMap.lookup i = some w) : pm' = pm := by
  obtain ⟨⟨x, a⟩, s⟩ := pm
  obtain ⟨⟨x', a'⟩, s'⟩ := pm'
  have hx : x' = x := h.policyMap
  have hs : s' = s := h.storage
  have ha : a' = a := by
    apply ArrayMap.ext_lookup
    intro j
    by_cases hj : j = i
    · rw [hj]; exact h.slot.trans hw.symm
    · exact h.others j hj
  rw [hx, hs, ha]

include t

theorem addWildcardPolicy_run : (addWildcardPolicy p).run pm =
    pm.settle (pm.maps.writeSlot (slotFor pm.maps.wildcardPolicyMap p.ruleID) t.wildcard) := by
  rw [addWildcardPolicy_of_ok t.wildcardEntry_eq]
  exact addToSlot_run p t.wildcard pm 1000 0 rfl

/-- The call writes the slot the search stops at. -/
theorem writes_slotFor {i : Nat} (hi : slotFor pm.maps.wildcardPolicyMap p.ruleID = some i) :
    ((addWildcardPolicy p).run pm).2 = .ok () ∧ WritesSlot pm ((addWildcardPolicy p).run pm).1 i t.wildcard ∧
    slotFor ((addWildcardPolicy p).run pm).1.maps.wildcardPolicyMap p.ruleID = some i := by
  have hlt : i < maxEntriesWildcardPolicy :=
    (List.mem_range'_1.1 (List.mem_of_find?_eq_some hi)).2.trans_eq (Nat.zero_add _)
  obtain ⟨a, ha⟩ := pm.maps.wildcardPolicyMap.exists_put hlt t.wildcard
  have hrun : (addWildcardPolicy p).run pm = ({ pm with maps.wildcardPolicyMap := a }, .ok ()) := by
    rw [addWildcardPolicy_run t, PolicyMaps.writeSlot, hi, Option.bind_some, ha]; rfl
  rw [hrun]
  have hlook := ArrayMap.lookup_put ha
  exact ⟨rfl, ⟨(hlook i).trans (if_pos rfl), fun j hj => (hlook j).trans (if_neg hj), rfl, rfl⟩,
    firstSlot_put (L := wildcardLayout) hi rfl ha⟩

/-- Without a slot the call fails and changes nothing. -/
theorem fails_of_no_slot (hnone : slotFor pm.maps.wildcardPolicyMap p.ruleID = none) :
    (∃ e, ((addWildcardPolicy p).run pm).2 = .error e) ∧ ((addWildcardPolicy p).run pm).1 = pm := by
  rw [addWildcardPolicy_run t, hnone]
  exact ⟨⟨_, rfl⟩, rfl⟩

/-- A second call finds the slot of the first and writes the same entry. -/
theorem addWildcardPolicy_twice :
    (addWildcardPolicy p).run ((addWildcardPolicy p).run pm).1 = (addWildcardPolicy p).run pm := by
  cases hi : slotFor pm.maps.wildcardPolicyMap p.ruleID with
  | none => rw [(fails_of_no_slot t hi).2]
  | some i =>
    obtain ⟨hok, hw, hi'⟩ := writes_slotFor t hi
    obtain ⟨hok', hw', _⟩ := writes_slotFor t hi'
    exact Prod.ext (hw'.again hw.slot) (hok'.trans hok.symm)

/-- **A further call** writes the slot of its rule, else slot `n`, else none. -/
theorem addWildcardPolicy_cases {n : Nat} {l : List WildcardPolicy} (h : pm.maps.Holds l) (hn : l.length = n) :
    (∃ i < n, HasRule pm.maps.wildcardPolicyMap i p.ruleID ∧ ((addWildcardPolicy p).run pm).2 = .ok () ∧
      WritesSlot pm ((addWildcardPolicy p).run pm).1 i t.wildcard) ∨
    ((∀ i < n, ¬ HasRule pm.maps.wildcardPolicyMap i p.ruleID) ∧ n < 1000 ∧ ((addWildcardPolicy p).run pm).2 = .ok () ∧
      WritesSlot pm ((addWildcardPolicy p).run pm).1 n t.wildcard) ∨
    ((∀ i < n, ¬ HasRule pm.maps.wildcardPolicyMap i p.ruleID) ∧ n = 1000 ∧
      (∃ e, ((addWildcardPolicy p).run pm).2 = .error e) ∧ ((addWildcardPolicy p).run pm).1 = pm) := by
  subst hn
  by_cases hmem : p.ruleID ∈ l.map WildcardPolicy.ruleId
  · obtain ⟨w, hw, hid⟩ := List.mem_map.1 hmem
    obtain ⟨i, hi⟩ := List.getElem?_of_mem hw
    have hslot : slotFor pm.maps.wildcardPolicyMap p.ruleID = some i := hid ▸ h.firstSlot_of_getElem? hi
    obtain ⟨hok, hwrites, _⟩ := writes_slotFor t hslot
    exact Or.inl ⟨i, (List.getElem?_eq_some_iff.1 hi).1, ⟨w, h.lookup_of_getElem? hi, hid⟩, hok, hwrites⟩
  · have hno : ∀ i < l.length, ¬ HasRule pm.maps.wildcardPolicyMap i p.ruleID := by
      rintro i hi ⟨w, hw, hid⟩
      have hl := List.getElem?_eq_getElem hi
      rw [h.lookup_of_getElem? hl] at hw
      exact hmem (hid ▸ Option.some.inj hw ▸ List.mem_map_of_mem (List.getElem_mem hi))
    have hslot : slotFor pm.maps.wildcardPolicyMap p.ruleID = if l.length < 1000 then some l.length else none :=
      h.firstSlot_of_not_mem hmem
    have hle : l.length ≤ 1000 := h.length_le
    by_cases hlt : l.length < 1000
    · rw [if_pos hlt] at hslot
      obtain ⟨hok, hwrites, _⟩ := writes_slotFor t hslot
      exact Or.inr (Or.inl ⟨hno, hlt, hok, hwrites⟩)
    · rw [if_neg hlt] at hslot
      exact Or.inr (Or.inr ⟨hno, by omega, fails_of_no_slot t hslot⟩)

end Call

/-- **The allocator.** After any calls of `AddPolicy` with non-zero rule ids and of `DeletePolicy`, from an array of
zeros, the occupied slots are the first `n`, with distinct rule ids; adding a policy that parses overwrites
the slot of its rule, or writes slot `n`, or fails with all 1000 slots in use, and changes nothing else;
and adding it again changes nothing more. -/
theorem wildcard_allocator {pm : PolicyManager} (h0 : pm.maps.wildcardPolicyMap = .replicate .zero)
    {calls : List PolicyCall} (hids : ∀ p, PolicyCall.add p ∈ calls → p.ruleID ≠ 0) {pm' : PolicyManager}
    (hpm' : pm' = run PolicyManager.call pm calls) :
    ∃ n, Packed pm'.maps.wildcardPolicyMap n ∧ ∀ (p : Policy) (t : Parsed p),
      ((∃ i < n, HasRule pm'.maps.wildcardPolicyMap i p.ruleID ∧ ((addWildcardPolicy p).run pm').2 = .ok () ∧
          WritesSlot pm' ((addWildcardPolicy p).run pm').1 i t.wildcard) ∨
        ((∀ i < n, ¬ HasRule pm'.maps.wildcardPolicyMap i p.ruleID) ∧ n < 1000 ∧
          ((addWildcardPolicy p).run pm').2 = .ok () ∧ WritesSlot pm' ((addWildcardPolicy p).run pm').1 n t.wildcard) ∨
        ((∀ i < n, ¬ HasRule pm'.maps.wildcardPolicyMap i p.ruleID) ∧ n = 1000 ∧
          (∃ e, ((addWildcardPolicy p).run pm').2 = .error e) ∧ ((addWildcardPolicy p).run pm').1 = pm')) ∧
      (addWildcardPolicy p).run ((addWildcardPolicy p).run pm').1 = (addWildcardPolicy p).run pm' := by
  have hstart : ∃ l, pm.maps.Holds l := ⟨[], by rw [PolicyMaps.Holds, h0]; exact holds_replicate⟩
  have hend : ∃ l, (run PolicyManager.call pm calls).maps.Holds l :=
    run_keeps (I := fun pm : PolicyManager => ∃ l, pm.maps.Holds l)
      (E := fun c : PolicyCall => ∀ p, c = .add p → p.ruleID ≠ 0)
      (fun _ _ h hc => holds_call h hc) hstart fun c hc p he => hids p (by rwa [he] at hc)
  obtain ⟨l, hl⟩ := hend
  subst hpm'
  exact ⟨l.length, packed_of_holds hl, fun p t => ⟨addWildcardPolicy_cases t hl rfl, addWildcardPolicy_twice t⟩⟩

/-- Two wildcard rules, one of them added again after a deletion. -/
theorem allocator_run : ∃ n, Packed
    (run PolicyManager.call .fresh [.add denyHost, .add allowHost, .delete denyHost, .add denyHost]).maps.wildcardPolicyMap n :=
  let ⟨n, h, _⟩ := @wildcard_allocator .fresh rfl [.add denyHost, .add allowHost, .delete denyHost, .add denyHost]
    (by simp [denyHost, allowHost]) _ rfl
  ⟨n, h⟩

end Microseg
