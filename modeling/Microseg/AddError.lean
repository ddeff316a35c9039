import Microseg.Mirror
/-!
# Additions that fail (`policy.go:82-201`, `:303-342`, `:374-476`)

`addExactPolicy` and `addWildcardPolicy` parse the four texts of a policy in the same order and write only
after all of them parsed; what may fail then is the write itself, for want of room in the map that
`hasWildcard` chose. A failed call leaves everything as it was, a successful one writes to that map and saves
the policy's row (`addPolicy_error_iff`).
-/
namespace Microseg
open Words KernelMap KeyedList SlotArray Atomic

/-- One of the addresses, the protocol or the action does not parse. -/
def Unparsable (p : Policy) : Prop :=
  (∃ e, parseCIDR p.srcIP = .error e) ∨ (∃ e, parseCIDR p.dstIP = .error e) ∨
    (∃ e, parseProtocol p.protocol = .error e) ∨ ∃ e, parseAction p.action = .error e

/-- All slots are taken by other rule ids; the exact map is full and does not have the key. -/
def NoRoom (m : PolicyMaps) (p : Policy) : Prop :=
  if hasWildcard p then
    ∀ i < 1000, ∃ w, m.wildcardPolicyMap.lookup i = some w ∧ w.ruleId ≠ 0 ∧ w.ruleId ≠ p.ruleID
  else m.policyMap.size = 10000 ∧ ∀ key, policyKey p = .ok key → m.policyMap.lookup key = none

/-- The storage has the policy as the row of its rule, unless it is down, and its other rows as before. -/
structure SavesRow (p : Policy) (s s' : SQLiteStorage) : Prop where
  others : s'.rows.filter (fun row => row.ruleID ≠ p.ruleID) = s.rows.filter fun row => row.ruleID ≠ p.ruleID
  saved : s.up = true → p ∈ s'.rows
  down : s.up = false → s'.rows = s.rows
  up : s'.up = s.up

/-- Only the map `hasWildcard` chose and the policy's row differ. -/
structure AddsOnly (p : Policy) (pm pm' : PolicyManager) : Prop where
  policyMap : hasWildcard p = true → pm'.maps.policyMap = pm.maps.policyMap
  wildcardPolicyMap : hasWildcard p = false → pm'.maps.wildcardPolicyMap = pm.maps.wildcardPolicyMap
  noStorage : pm.storage = none → pm'.storage = none
  storage : ∀ s, pm.storage = some s → ∃ s', pm'.storage = some s' ∧ SavesRow p s s'

theorem parsed_iff {p : Policy} : Nonempty (Parsed p) ↔ ¬ Unparsable p := by
  constructor
  · rintro ⟨t⟩ (⟨e, h⟩ | ⟨e, h⟩ | ⟨e, h⟩ | ⟨e, h⟩)
    · rw [t.hsrc] at h; cases h
    · rw [t.hdst] at h; cases h
    · rw [t.hproto] at h; cases h
    · rw [t.haction] at h; cases h
  · intro h
    simp only [Unparsable, not_or] at h
    cases hs : parseCIDR p.srcIP with
    | error e => exact absurd ⟨e, hs⟩ h.1
    | ok src =>
      cases hd : parseCIDR p.dstIP with
      | error e => exact absurd ⟨e, hd⟩ h.2.1
      | ok dst =>
        cases hp : parseProtocol p.protocol with
        | error e => exact absurd ⟨e, hp⟩ h.2.2.1
        | ok proto =>
          cases ha : parseAction p.action with
          | error e => exact absurd ⟨e, ha⟩ h.2.2.2
          | ok action => exact ⟨⟨src, dst, proto, action, hs, hd, hp, ha⟩⟩

/-- A policy that parses is accepted exactly where there is room. -/
theorem accepts_iff_room {m : PolicyMaps} {p : Policy} (t : Parsed p) : Accepts m p ↔ ¬ NoRoom m p := by
  rw [Accepts, NoRoom, and_iff_right ⟨t⟩]
  cases hw : hasWildcard p with
  | true =>
    simp only [↓reduceIte]
    constructor
    · rintro ⟨i, w, hi, hfit⟩ hall
      have hlt : i < maxEntriesWildcardPolicy := ArrayMap.lookup_isSome.1 (by rw [hi]; rfl)
      obtain ⟨w', hi', h0, hr⟩ := hall i hlt
      rw [hi] at hi'
      cases hi'
      exact hfit.elim h0 hr
    · intro hno
      push Not at hno
      obtain ⟨i, hlt, hfit⟩ := hno
      obtain ⟨w, hi⟩ := m.wildcardPolicyMap.exists_lookup hlt
      exact ⟨i, w, hi, or_iff_not_imp_left.2 (hfit w hi)⟩
  | false =>
    have hcap : m.policyMap.size ≤ maxEntriesPolicy := m.policyMap.card_le
    simp only [Bool.false_eq_true, ↓reduceIte, t.policyKey_eq, Except.ok.injEq, exists_eq_left', forall_eq']
    cases hl : m.policyMap.lookup t.key with
    | some v => simp
    | none =>
      simp only [Option.isSome_none, Bool.false_eq_true, false_or, and_true]
      exact ⟨Nat.ne_of_lt, fun hne => Nat.lt_of_le_of_ne hcap hne⟩

theorem savesRow_savePolicy (p : Policy) (s : SQLiteStorage) : SavesRow p s (s.savePolicy p).1 := by
  unfold SQLiteStorage.savePolicy
  split
  · next hup =>
    refine ⟨filter_upsert s.rows, fun _ => (mem_upsert s.nodup).2 (Or.inl rfl), fun hdown => ?_, rfl⟩
    rw [hup] at hdown; cases hdown
  · next hdown => exact ⟨rfl, fun hup => absurd hup hdown, fun _ => rfl, rfl⟩

theorem addsOnly_of_add {p : Policy} {pm : PolicyManager} {m' : PolicyMaps} (hadd : pm.maps.add p = .ok m') :
    AddsOnly p pm (PolicyManager.stored { pm with maps := m' } (SQLiteStorage.savePolicy p)) := by
  refine ⟨fun hw => ?_, fun hw => ?_, fun hs => ?_, fun s hs => ⟨(s.savePolicy p).1, ?_, savesRow_savePolicy p s⟩⟩
  · obtain ⟨_, _, _, _, hsame⟩ := (add_wildcard_ok hw).1 hadd
    exact hsame
  · obtain ⟨_, _, hsame⟩ := (add_exact_ok hw).1 hadd
    exact hsame
  · rw [PolicyManager.stored, hs]; rfl
  · rw [PolicyManager.stored, hs]; rfl

/-- **A failed addition changes nothing.** In every state of the maps and the storage, `AddPolicy` fails exactly when
the policy does not parse or the map chosen for it has no room; then nothing has changed, and otherwise only
that map and the policy's row have. -/
theorem addPolicy_error_iff (p : Policy) (pm : PolicyManager) :
    ((∃ e, ((addPolicy p).run pm).2 = .error e) ↔ Unparsable p ∨ NoRoom pm.maps p) ∧
    (∀ e, ((addPolicy p).run pm).2 = .error e → ((addPolicy p).run pm).1 = pm) ∧
    (((addPolicy p).run pm).2 = .ok () → AddsOnly p pm ((addPolicy p).run pm).1) := by
  have hfails : (∃ m', pm.maps.add p = .ok m') ↔ ¬ (Unparsable p ∨ NoRoom pm.maps p) := by
    rw [← accepts_iff, not_or, ← parsed_iff]
    constructor
    · exact fun h => ⟨h.1, h.1.elim fun t => (accepts_iff_room t).1 h⟩
    · rintro ⟨⟨t⟩, hroom⟩
      exact (accepts_iff_room t).2 hroom
  rw [addPolicy_run]
  cases hadd : pm.maps.add p with
  | error e =>
    refine ⟨iff_of_true ⟨e, rfl⟩ (not_not.1 (mt hfails.2 ?_)), fun _ _ => rfl, fun h => by cases h⟩
    rintro ⟨m', hok⟩
    rw [hadd] at hok; cases hok
  | ok m' =>
    refine ⟨iff_of_false ?_ (hfails.1 ⟨m', hadd⟩), ?_, fun _ => addsOnly_of_add hadd⟩
    · rintro ⟨e, h⟩
      cases h
    · intro e h
      cases h

end Microseg
