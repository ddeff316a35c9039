import Microseg.Allocator
/-!
# Rule sets that install cleanly

When every `AddPolicy` call of a sequence succeeds, rule ids are distinct and non-zero and no two policies
share an exact key, the maps hold exactly what the policies encode: each exact entry under its key, and
the wildcard entries in the order of the calls (`Installed`). The decision is then that of the policies
themselves: the exact entry if there is one, else the earliest matching wildcard entry of highest
priority (`Installed.decision_scan`). Whether a further policy can be added depends on the number of
entries alone (`Installed.exists_add`).
-/
namespace Microseg
open Words KernelMap KeyedList SlotArray

/-! ## The entries of a sequence of policies -/

def exactOf (p : Policy) : Option (PolicyKey × PolicyValue) :=
  if hasWildcard p then none else (exactEntry p).toOption

def wildcardOf (p : Policy) : Option WildcardPolicy :=
  if hasWildcard p then (wildcardEntry p).toOption else none

/-- Keys and values of the policies that go to the exact map. -/
def exacts (ps : List Policy) : List (PolicyKey × PolicyValue) := ps.filterMap exactOf

/-- Entries of the policies that go to the wildcard array. -/
def wildcards (ps : List Policy) : List WildcardPolicy := ps.filterMap wildcardOf

theorem exacts_perm {ps qs : List Policy} (h : ps.Perm qs) : (exacts ps).Perm (exacts qs) := h.filterMap exactOf

theorem wildcards_perm {ps qs : List Policy} (h : ps.Perm qs) : (wildcards ps).Perm (wildcards qs) :=
  h.filterMap wildcardOf

theorem exactOf_parsed {p : Policy} (t : Parsed p) : exactOf p = if hasWildcard p then none else some (t.key, t.value) := by
  rw [exactOf, t.exactEntry_eq]; rfl

theorem wildcardOf_parsed {p : Policy} (t : Parsed p) : wildcardOf p = if hasWildcard p then some t.wildcard else none := by
  rw [wildcardOf, t.wildcardEntry_eq]; rfl

theorem wildcardOf_eq_some {p : Policy} {w : WildcardPolicy} :
    wildcardOf p = some w ↔ hasWildcard p = true ∧ wildcardEntry p = .ok w := by
  unfold wildcardOf
  cases hw : hasWildcard p <;> cases he : wildcardEntry p <;> simp [Except.toOption]

theorem wildcardOf_ruleId {p : Policy} {w : WildcardPolicy} (h : wildcardOf p = some w) : w.ruleId = p.ruleID :=
  wildcardEntry_ruleId (wildcardOf_eq_some.1 h).2

theorem wildcardOf_priority {p : Policy} {w : WildcardPolicy} (h : wildcardOf p = some w) : w.priority = p.priority :=
  wildcardEntry_priority (wildcardOf_eq_some.1 h).2

theorem length_wildcards_le (ps : List Policy) : (wildcards ps).length ≤ ps.countP hasWildcard := by
  rw [wildcards, List.length_filterMap_eq_countP]
  refine List.countP_mono_left fun p _ hp => ?_
  by_contra hw
  simp [wildcardOf, hw] at hp

theorem length_exacts_le (ps : List Policy) : (exacts ps).length ≤ ps.countP fun p => !hasWildcard p := by
  rw [exacts, List.length_filterMap_eq_countP]
  refine List.countP_mono_left fun p _ hp => ?_
  by_contra hw
  rw [Bool.not_eq_true, Bool.not_eq_false'] at hw
  simp [exactOf, hw] at hp

/-- Rule ids are distinct and non-zero, exact keys are distinct. -/
structure Distinct (ps : List Policy) : Prop where
  ruleIDs : (ps.map Policy.ruleID).Nodup
  nonzero : ∀ p ∈ ps, p.ruleID ≠ 0
  keys : ((exacts ps).map Prod.fst).Nodup

theorem Distinct.of_append {ps qs : List Policy} (h : Distinct (ps ++ qs)) : Distinct ps where
  ruleIDs := (List.nodup_append.1 (List.map_append ▸ h.ruleIDs)).1
  nonzero p hp := h.nonzero p (List.mem_append_left _ hp)
  keys := by
    have := h.keys
    rw [exacts, List.filterMap_append, List.map_append] at this
    exact (List.nodup_append.1 this).1

theorem Distinct.perm {ps qs : List Policy} (h : Distinct ps) (hp : ps.Perm qs) : Distinct qs where
  ruleIDs := (hp.map _).nodup_iff.1 h.ruleIDs
  nonzero p hq := h.nonzero p (hp.mem_iff.2 hq)
  keys := ((exacts_perm hp).map Prod.fst).nodup_iff.1 h.keys

/-- The maps have room for all of the policies. -/
structure Fits (ps : List Policy) : Prop where
  exact_le : (exacts ps).length ≤ maxEntriesPolicy
  wildcard_le : (wildcards ps).length ≤ maxEntriesWildcardPolicy

theorem Fits.of_append {ps qs : List Policy} (h : Fits (ps ++ qs)) : Fits ps where
  exact_le := by
    have := h.exact_le
    rw [exacts, List.filterMap_append, List.length_append] at this
    exact Nat.le_of_add_right_le this
  wildcard_le := by
    have := h.wildcard_le
    rw [wildcards, List.filterMap_append, List.length_append] at this
    exact Nat.le_of_add_right_le this

theorem Fits.perm {ps qs : List Policy} (h : Fits ps) (hp : ps.Perm qs) : Fits qs :=
  ⟨(exacts_perm hp).length_eq ▸ h.exact_le, (wildcards_perm hp).length_eq ▸ h.wildcard_le⟩

/-! ## Maps that hold a sequence of policies -/

/-- The maps hold exactly the entries of `ps`, the wildcard ones in order. -/
structure Installed (m : PolicyMaps) (ps : List Policy) : Prop where
  parsed : ∀ p ∈ ps, Nonempty (Parsed p)
  exact : ∀ k v, m.policyMap.lookup k = some v ↔ (k, v) ∈ exacts ps
  wildcard : m.Holds (wildcards ps)

theorem installed_empty : Installed .empty [] where
  parsed p hp := by cases hp
  exact k v := by simp [PolicyMaps.empty, exacts]
  wildcard := holds_empty

theorem Installed.lookup_eq_none {m : PolicyMaps} {ps : List Policy} (h : Installed m ps) {k : PolicyKey} :
    m.policyMap.lookup k = none ↔ k ∉ (exacts ps).map Prod.fst := by
  constructor
  · intro hnone hmem
    obtain ⟨⟨k, v⟩, hkv, rfl⟩ := List.mem_map.1 hmem
    rw [(h.exact k v).2 hkv] at hnone
    cases hnone
  · intro hk
    cases hl : m.policyMap.lookup k with
    | none => rfl
    | some v => exact absurd (List.mem_map_of_mem ((h.exact k v).1 hl)) hk

/-- **One more policy**: a successful call on a new rule id and a new key adds the policy's entry. -/
theorem Installed.add {m m' : PolicyMaps} {ps : List Policy} (h : Installed m ps) {p : Policy}
    (hd : Distinct (ps ++ [p])) (hadd : m.add p = .ok m') : Installed m' (ps ++ [p]) := by
  have hex : exacts (ps ++ [p]) = exacts ps ++ (exactOf p).toList := by
    rw [exacts, List.filterMap_append]; cases hp : exactOf p <;> simp [exacts, hp]
  have hwi : wildcards (ps ++ [p]) = wildcards ps ++ (wildcardOf p).toList := by
    rw [wildcards, List.filterMap_append]; cases hp : wildcardOf p <;> simp [wildcards, hp]
  have hparsed : ∀ t : Parsed p, ∀ q ∈ ps ++ [p], Nonempty (Parsed q) := by
    intro t q hq
    rcases List.mem_append.1 hq with hq | hq
    · exact h.parsed q hq
    · rw [List.mem_singleton.1 hq]; exact ⟨t⟩
  have h0 : p.ruleID ≠ 0 := hd.nonzero p (by simp)
  cases hw : hasWildcard p with
  | true =>
    obtain ⟨t, hplace, hm'⟩ := holds_add_wildcard h.wildcard h0 hw hadd
    obtain ⟨_, _, _, _, hpm⟩ := (add_wildcard_ok hw).1 hadd
    -- the rule id is new, so the entry goes behind the others
    have hnew : t.wildcard.ruleId ∉ (wildcards ps).map WildcardPolicy.ruleId := by
      intro hmem
      obtain ⟨w, hwm, he⟩ := List.mem_map.1 hmem
      obtain ⟨q, hq, hqw⟩ := List.mem_filterMap.1 hwm
      have hids := hd.ruleIDs
      rw [List.map_append, List.nodup_append] at hids
      exact hids.2.2 q.ruleID (List.mem_map_of_mem hq) p.ruleID (by simp) ((wildcardOf_ruleId hqw).symm.trans he)
    refine ⟨hparsed t, fun k v => ?_, ?_⟩
    · rw [hpm, h.exact, hex, exactOf_parsed t, hw]; simp
    · rw [hwi, wildcardOf_parsed t, hw]
      rw [hplace, upsert_new hnew] at hm'
      exact hm'
  | false =>
    obtain ⟨t, hput, hwm⟩ := (add_exact_ok hw).1 hadd
    have hkeys := hd.keys
    rw [hex, exactOf_parsed t, hw, List.map_append, List.nodup_append] at hkeys
    have hnew : t.key ∉ (exacts ps).map Prod.fst := fun hmem => hkeys.2.2 _ hmem t.key (by simp) rfl
    refine ⟨hparsed t, fun k v => ?_, ?_⟩
    · rw [HashMap.lookup_put hput, hex, exactOf_parsed t, hw]
      by_cases hk : k = t.key
      · subst hk
        have hno : (t.key, v) ∉ exacts ps := fun hmem => hnew (List.mem_map_of_mem hmem)
        simp [hno, eq_comm]
      · simp [hk, h.exact]
    · rw [hwi, wildcardOf_parsed t, hw, PolicyMaps.Holds, hwm]
      simpa using h.wildcard

/-! ## Room -/

/-- The exact map has as many keys as there are exact entries. -/
theorem Installed.size_eq {m : PolicyMaps} {ps : List Policy} (h : Installed m ps) (hd : Distinct ps) :
    m.policyMap.size = (exacts ps).length := by
  have hkeys : m.policyMap.entries.keys = ((exacts ps).map Prod.fst).toFinset := by
    ext k
    rw [HashMap.mem_keys_iff, List.mem_toFinset, List.mem_map]
    constructor
    · intro hk
      obtain ⟨v, hv⟩ := Option.isSome_iff_exists.1 hk
      exact ⟨(k, v), (h.exact k v).1 hv, rfl⟩
    · rintro ⟨⟨k, v⟩, hmem, rfl⟩
      rw [(h.exact k v).2 hmem]; rfl
  rw [HashMap.size, hkeys, List.toFinset_card_of_nodup hd.keys, List.length_map]

/-- A policy that parses can be added while its map has room for another entry. -/
theorem Installed.exists_add {m : PolicyMaps} {ps : List Policy} (h : Installed m ps) (hd : Distinct ps) {p : Policy}
    (t : Parsed p) (hfit : Fits (ps ++ [p])) : ∃ m', m.add p = .ok m' := by
  obtain ⟨hx, hw⟩ := hfit
  cases hp : hasWildcard p with
  | true =>
    have hlen : (wildcards (ps ++ [p])).length = (wildcards ps).length + 1 := by
      simp [wildcards, wildcardOf_parsed t, hp]
    exact exists_add_wildcard h.wildcard t hp (Or.inr (by omega))
  | false =>
    have hlen : (exacts (ps ++ [p])).length = (exacts ps).length + 1 := by
      simp [exacts, exactOf_parsed t, hp]
    have hsize := h.size_eq hd
    exact exists_add_of_room hp t (Or.inr (by omega))

/-- The next of the policies still to come goes in behind those already there. -/
theorem Installed.exists_next {m : PolicyMaps} {done ps : List Policy} (h : Installed m done) {p : Policy}
    (hd : Distinct (done ++ [p] ++ ps)) (hp : Nonempty (Parsed p)) (hfit : Fits (done ++ [p] ++ ps)) :
    ∃ m', m.add p = .ok m' ∧ Installed m' (done ++ [p]) := by
  obtain ⟨t⟩ := hp
  obtain ⟨m', hadd⟩ := h.exists_add hd.of_append.of_append t hfit.of_append
  exact ⟨m', hadd, h.add hd.of_append hadd⟩

/-! ## Decisions -/

theorem Installed.decision_exact {m : PolicyMaps} {ps : List Policy} (h : Installed m ps) {k : PolicyKey}
    {v : PolicyValue} (hk : (k, v) ∈ exacts ps) : decision m k = (v.action, v.ruleId) :=
  Microseg.decision_exact ((h.exact k v).2 hk)

/-- With at most 100 wildcard policies the scan is an argmax over the policies' entries. -/
theorem Installed.decision_scan {m : PolicyMaps} {ps : List Policy} (h : Installed m ps)
    (hlen : (wildcards ps).length ≤ scanLimit) {k : PolicyKey} (hk : k ∉ (exacts ps).map Prod.fst) :
    decision m k = answer (((wildcards ps).filter (matchesWildcard k)).argmax fun w => w.priority.toNat) := by
  rw [Microseg.decision_scan (h.lookup_eq_none.2 hk), bestMatch_holds h.wildcard, List.take_of_length_le hlen]

/-! ## Successful calls -/

/-- Every call of the sequence returned nil. -/
def AllAdded (pm : PolicyManager) (ps : List Policy) : Prop := ∀ r ∈ ((addPolicies ps).run pm).2, r = .ok ()

theorem allAdded_cons {pm : PolicyManager} {p : Policy} {ps : List Policy} :
    AllAdded pm (p :: ps) ↔ ((addPolicy p).run pm).2 = .ok () ∧ AllAdded ((addPolicy p).run pm).1 ps := by
  simp [AllAdded, addPolicies]

/-- **A sequence of successful calls** installs its policies behind those already there. -/
theorem installed_after {done : List Policy} (ps : List Policy) {pm : PolicyManager} (h : Installed pm.maps done)
    (hd : Distinct (done ++ ps)) (hok : AllAdded pm ps) : Installed (pm.after ps).maps (done ++ ps) := by
  induction ps generalizing pm done with
  | nil => simpa using h
  | cons p ps ih =>
    obtain ⟨hp, hps⟩ := allAdded_cons.1 hok
    obtain ⟨m', hadd⟩ := addPolicy_ok_iff.1 hp
    rw [← List.singleton_append, ← List.append_assoc] at hd ⊢
    have hm' : Installed ((addPolicy p).run pm).1.maps (done ++ [p]) := by
      rw [addPolicy_maps, hadd]; exact h.add hd.of_append hadd
    rw [List.singleton_append, after_cons]
    exact ih hm' hd hps

end Microseg
