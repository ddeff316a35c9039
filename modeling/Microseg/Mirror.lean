import Microseg.Lib.Runs
import Microseg.Insert
/-!
# The storage as a mirror of the maps (`policy.go:82-98`, `:203-254`, `storage.go:81-136`)

`AddPolicy` writes the policy's entry to a map and its row to the database, `DeletePolicy` takes both back.
The rows are keyed by rule id, the exact map by 5-tuple. A call keeps the two in step exactly when it is
an insertion by rule id (`Placeable`), or a deletion that finds its own rule under its tuple
(`mirrored_call_iff`); a run is mirrored throughout exactly when all its calls are such (`mirrored_iff`).

Managers with a storage only (`NewManagerWithStorage`, `policy.go:49`); `cmd/main.go:66` builds one without.
-/
namespace Microseg
open Words KernelMap KeyedList SlotArray Atomic Runs

/-! ## Calls -/

/-- A call of the manager. -/
inductive PolicyCall where
  | add (p : Policy)
  | delete (p : Policy)
deriving DecidableEq

def PolicyCall.policy : PolicyCall → Policy
  | .add p => p
  | .delete p => p

def PolicyManager.call (pm : PolicyManager) : PolicyCall → PolicyManager
  | .add p => ((addPolicy p).run pm).1
  | .delete p => ((deletePolicy p).run pm).1

/-- Empty maps and an empty database that works. -/
def PolicyManager.stocked : PolicyManager := ⟨.empty, some .empty⟩

/-! ## The mirror -/

/-- The rules with a row are those with an entry, and a row encodes to its rule's entry. -/
structure Mirrors (m : PolicyMaps) (rows : List Policy) : Prop where
  ids : ∀ r, (∃ row ∈ rows, row.ruleID = r) ↔ ∃ e ∈ m.entries, e.ruleId = r
  encodes : ∀ row ∈ rows, ∀ e ∈ m.entries, e.ruleId = row.ruleID → encoding row = some e

/-- The manager's storage mirrors its maps. -/
def PolicyManager.Mirrored (pm : PolicyManager) : Prop := ∃ s, pm.storage = some s ∧ Mirrors pm.maps s.rows

/-- What the rows encode to. -/
def encodings (rows : List Policy) : Set Entry := {e | ∃ row ∈ rows, encoding row = some e}

/-- The mirror as an equation of sets. -/
theorem mirrors_iff {m : PolicyMaps} {rows : List Policy} (hn : (rows.map Policy.ruleID).Nodup) :
    Mirrors m rows ↔ m.entries = encodings rows ∧ ∀ row ∈ rows, ∃ e, encoding row = some e := by
  constructor
  · intro h
    have hrow : ∀ row ∈ rows, ∃ e ∈ m.entries, encoding row = some e := fun row hr => by
      obtain ⟨e, hin, hid⟩ := (h.ids row.ruleID).1 ⟨row, hr, rfl⟩
      exact ⟨e, hin, h.encodes row hr e hin hid⟩
    refine ⟨Set.ext fun e => ⟨fun hin => ?_, ?_⟩, fun row hr => ?_⟩
    · obtain ⟨row, hr, hid⟩ := (h.ids e.ruleId).2 ⟨e, hin, rfl⟩
      exact ⟨row, hr, h.encodes row hr e hin hid.symm⟩
    · rintro ⟨row, hr, he⟩
      obtain ⟨e', hin, he'⟩ := hrow row hr
      rw [he] at he'
      cases he'; exact hin
    · obtain ⟨e, _, he⟩ := hrow row hr
      exact ⟨e, he⟩
  · rintro ⟨hset, hall⟩
    refine ⟨fun r => ⟨?_, ?_⟩, fun row hr e hin hid => ?_⟩
    · rintro ⟨row, hr, rfl⟩
      obtain ⟨e, he⟩ := hall row hr
      exact ⟨e, hset ▸ ⟨row, hr, he⟩, encoding_ruleId he⟩
    · rintro ⟨e, hin, rfl⟩
      rw [hset] at hin
      obtain ⟨row, hr, he⟩ := hin
      exact ⟨row, hr, (encoding_ruleId he).symm⟩
    · rw [hset] at hin
      obtain ⟨row', hr', he⟩ := hin
      -- one row per rule id
      have hsame : row' = row := List.inj_on_of_nodup_map hn hr' hr ((encoding_ruleId he).symm.trans hid)
      rw [← hsame, he]

/-! ## Which calls keep it -/

/-- The policy parses, and there is room for it where it goes. -/
def Accepts (m : PolicyMaps) (p : Policy) : Prop :=
  Nonempty (Parsed p) ∧
    if hasWildcard p then ∃ i w, m.wildcardPolicyMap.lookup i = some w ∧ (w.ruleId = 0 ∨ w.ruleId = p.ruleID)
    else ∃ key, policyKey p = .ok key ∧ ((m.policyMap.lookup key).isSome ∨ m.policyMap.size < maxEntriesPolicy)

/-- An accepted policy is placeable; a deletion that finds an entry finds its own rule. -/
def CallKeeps (m : PolicyMaps) : PolicyCall → Prop
  | .add p => Accepts m p → Placeable m p
  | .delete p => ∀ key v, policyKey p = .ok key → m.policyMap.lookup key = some v → v.ruleId = p.ruleID

theorem accepts_iff {m : PolicyMaps} {p : Policy} : Accepts m p ↔ ∃ m', m.add p = .ok m' := by
  cases hw : hasWildcard p with
  | true =>
    rw [Accepts, if_pos hw]
    constructor
    · rintro ⟨⟨t⟩, i, w, hi, hfit⟩
      have hlt : i < maxEntriesWildcardPolicy := ArrayMap.lookup_isSome.1 (by rw [hi]; rfl)
      have hsome : (slotFor m.wildcardPolicyMap p.ruleID).isSome :=
        List.find?_isSome.2 ⟨i, List.mem_range'_1.2 ⟨Nat.zero_le i, by omega⟩, by simpa [hi] using hfit⟩
      obtain ⟨j, hj⟩ := Option.isSome_iff_exists.1 hsome
      exact exists_add_of_slotFor hw t hj
    · rintro ⟨m', hadd⟩
      obtain ⟨t, i, hi, hput, _⟩ := (add_wildcard_ok hw).1 hadd
      have hlt : i < maxEntriesWildcardPolicy := ArrayMap.put_isSome.1 (by rw [hput]; rfl)
      obtain ⟨w, hlook⟩ := m.wildcardPolicyMap.exists_lookup hlt
      have hfit := List.find?_some hi
      rw [hlook] at hfit
      exact ⟨⟨t⟩, i, w, hlook, of_decide_eq_true hfit⟩
  | false =>
    rw [Accepts, if_neg (by rw [hw]; exact Bool.false_ne_true)]
    constructor
    · rintro ⟨⟨t⟩, key, hkey, hroom⟩
      have hk : t.key = key := Except.ok.inj (t.policyKey_eq.symm.trans hkey)
      exact exists_add_of_room hw t (hk ▸ hroom)
    · rintro ⟨m', hadd⟩
      obtain ⟨t, hput, _⟩ := (add_exact_ok hw).1 hadd
      exact ⟨⟨t⟩, t.key, t.policyKey_eq, HashMap.put_isSome.1 (by rw [hput]; rfl)⟩

section Step

variable {m m' : PolicyMaps} {rows : List Policy} {p : Policy}

/-- Saving a policy replaces the encoding of its rule. -/
theorem encodings_upsert (hn : (rows.map Policy.ruleID).Nodup) {e : Entry} (he : encoding p = some e) :
    encodings (upsert Policy.ruleID p rows) = insert e {x | x ∈ encodings rows ∧ x.ruleId ≠ p.ruleID} := by
  ext x
  constructor
  · rintro ⟨row, hr, hx⟩
    rcases (mem_upsert hn).1 hr with rfl | ⟨hr, hne⟩
    · rw [he] at hx
      exact Or.inl (Option.some.inj hx).symm
    · exact Or.inr ⟨⟨row, hr, hx⟩, encoding_ruleId hx ▸ hne⟩
  · rintro (rfl | ⟨⟨row, hr, hx⟩, hne⟩)
    · exact ⟨p, (mem_upsert hn).2 (Or.inl rfl), he⟩
    · exact ⟨row, (mem_upsert hn).2 (Or.inr ⟨hr, encoding_ruleId hx ▸ hne⟩), hx⟩

/-- Deleting a row takes the encoding of its rule away. -/
theorem encodings_filter (r : U32) :
    encodings (rows.filter fun row => row.ruleID ≠ r) = {x | x ∈ encodings rows ∧ x.ruleId ≠ r} := by
  ext x
  constructor
  · rintro ⟨row, hr, hx⟩
    obtain ⟨hr, hne⟩ := List.mem_filter.1 hr
    exact ⟨⟨row, hr, hx⟩, encoding_ruleId hx ▸ of_decide_eq_true hne⟩
  · rintro ⟨⟨row, hr, hx⟩, hne⟩
    exact ⟨row, List.mem_filter.2 ⟨hr, decide_eq_true (encoding_ruleId hx ▸ hne)⟩, hx⟩

/-- Saved and added, a policy is mirrored iff it was inserted by rule id. -/
theorem mirrors_add_iff {l : List WildcardPolicy} (hl : m.Holds l) (hn : (rows.map Policy.ruleID).Nodup)
    (h : Mirrors m rows) (hadd : m.add p = .ok m') :
    Mirrors m' (upsert Policy.ruleID p rows) ↔ Placeable m p := by
  obtain ⟨hset, hall⟩ := (mirrors_iff hn).1 h
  obtain ⟨t⟩ := parsed_of_add hadd
  have he := encoding_parsed t
  have hnew : ∀ row ∈ upsert Policy.ruleID p rows, ∃ e, encoding row = some e := fun row hr => by
    rcases mem_of_mem_upsert hr with rfl | hr
    · exact ⟨_, he⟩
    · exact hall row hr
  rw [mirrors_iff (nodup_upsert hn), encodings_upsert hn he, ← hset, ← insertsEntry_iff hl hadd]
  constructor
  · exact fun h => ⟨_, he, h.1⟩
  · rintro ⟨e, he', hins⟩
    rw [he] at he'
    cases he'
    exact ⟨hins, hnew⟩

theorem mem_entries_erase {k : PolicyKey} (e : Entry) :
    e ∈ PolicyMaps.entries { m with policyMap := m.policyMap.erase k } ↔ e ∈ m.entries ∧ ∀ v, e ≠ .exact k v := by
  cases e with
  | exact k' v =>
    rw [exact_mem_entries, exact_mem_entries, HashMap.lookup_erase]
    by_cases hk : k' = k <;> simp [hk]
  | wildcard w => simp [wildcard_mem_entries]

/-- Deleted from both, a rule is mirrored iff the entry under the key was its own. -/
theorem mirrors_delete_iff (hn : (rows.map Policy.ruleID).Nodup) (h : Mirrors m rows) {k : PolicyKey} {v : PolicyValue}
    (hv : m.policyMap.lookup k = some v) {r : U32} :
    Mirrors { m with policyMap := m.policyMap.erase k } (rows.filter fun row => row.ruleID ≠ r) ↔ v.ruleId = r := by
  obtain ⟨hset, hall⟩ := (mirrors_iff hn).1 h
  have hin : Entry.exact k v ∈ m.entries := exact_mem_entries.2 hv
  have hsub : ∀ row ∈ rows.filter fun row => row.ruleID ≠ r, ∃ e, encoding row = some e :=
    fun row hr => hall row (List.mem_filter.1 hr).1
  rw [mirrors_iff (hn.sublist (List.filter_sublist.map Policy.ruleID)), encodings_filter, ← hset]
  constructor
  · rintro ⟨hsame, _⟩
    by_contra hne
    have hkept : Entry.exact k v ∈ PolicyMaps.entries { m with policyMap := m.policyMap.erase k } := by
      rw [hsame]
      exact ⟨hin, hne⟩
    exact ((mem_entries_erase _).1 hkept).2 v rfl
  · rintro rfl
    refine ⟨Set.ext fun e => ?_, hsub⟩
    rw [mem_entries_erase]
    refine and_congr_right fun hein => ⟨fun hk hid => ?_, fun hid v' he => ?_⟩
    · -- the rule has one row, and so one entry
      obtain ⟨row, hr, hrow⟩ := (h.ids v.ruleId).2 ⟨_, hin, rfl⟩
      have h1 := h.encodes row hr _ hin hrow.symm
      rw [h.encodes row hr e hein (hid.trans hrow.symm)] at h1
      exact hk v (Option.some.inj h1)
    · subst he
      have hv' := exact_mem_entries.1 hein
      rw [hv] at hv'
      cases hv'
      exact hid rfl

end Step

/-! ## Calls and runs -/

/-- The array is a keyed list and the database works. -/
def PolicyManager.Serviceable (pm : PolicyManager) : Prop :=
  (∃ l, pm.maps.Holds l) ∧ ∃ s, pm.storage = some s ∧ s.up = true

theorem serviceable_call {pm : PolicyManager} (h : pm.Serviceable) {c : PolicyCall} (h0 : c.policy.ruleID ≠ 0) :
    (pm.call c).Serviceable := by
  obtain ⟨⟨l, hl⟩, s, hs, hup⟩ := h
  cases c with
  | add p =>
    refine ⟨⟨_, holds_addPolicy hl h0⟩, ?_⟩
    rw [PolicyManager.call, addPolicy_run]
    cases pm.maps.add p with
    | error e => exact ⟨s, hs, hup⟩
    | ok m' =>
      refine ⟨(SQLiteStorage.savePolicy p s).1, ?_, by rw [SQLiteStorage.savePolicy, if_pos hup]; exact hup⟩
      simp only [PolicyManager.stored, hs, Option.map_some]
  | delete p =>
    refine ⟨⟨l, by rw [PolicyManager.call, PolicyMaps.Holds, deletePolicy_wildcardPolicyMap]; exact hl⟩, ?_⟩
    rw [PolicyManager.call]
    rcases deletePolicy_cases p pm with ⟨hsame, _⟩ | ⟨_, _, _, _, hdel⟩
    · exact hsame.symm ▸ ⟨s, hs, hup⟩
    · refine ⟨(SQLiteStorage.deletePolicy p.ruleID s).1, ?_, by rw [SQLiteStorage.deletePolicy, if_pos hup]; exact hup⟩
      rw [hdel, PolicyManager.stored, hs, Option.map_some]

/-- **One call keeps the mirror** iff it adds a placeable policy or deletes its own rule. -/
theorem mirrored_call_iff {pm : PolicyManager} (h : pm.Serviceable) {c : PolicyCall} (hm : pm.Mirrored) :
    (pm.call c).Mirrored ↔ CallKeeps pm.maps c := by
  obtain ⟨⟨l, hl⟩, s, hs, hup⟩ := h
  obtain ⟨s', hs', hrows⟩ := hm
  rw [hs] at hs'
  cases hs'
  cases c with
  | add p =>
    rw [PolicyManager.call, addPolicy_run, CallKeeps, accepts_iff]
    cases hadd : pm.maps.add p with
    | error e => exact iff_of_true ⟨s, hs, hrows⟩ fun h => by obtain ⟨_, h⟩ := h; cases h
    | ok m' =>
      rw [← mirrors_add_iff hl s.nodup hrows hadd]
      simp only [PolicyManager.Mirrored, PolicyManager.stored, hs, Option.map_some, Option.some.injEq, exists_eq_left',
        SQLiteStorage.savePolicy, hup, ↓reduceIte, Except.ok.injEq, exists_eq', forall_const]
  | delete p =>
    rw [PolicyManager.call, CallKeeps]
    rcases deletePolicy_cases p pm with ⟨hsame, hnone⟩ | ⟨key, v, hkey, hv, hdel⟩
    · rw [hsame]
      refine iff_of_true ⟨s, hs, hrows⟩ fun key v hkey hv => ?_
      rw [hnone key hkey] at hv; cases hv
    · rw [hdel]
      have hiff := @mirrors_delete_iff pm.maps s.rows s.nodup hrows key v hv p.ruleID
      simp only [PolicyManager.Mirrored, PolicyManager.stored, hs, Option.map_some, Option.some.injEq, exists_eq_left',
        SQLiteStorage.deletePolicy, hup, ↓reduceIte, hiff]
      constructor
      · intro h key' v' hkey' hv'
        rw [hkey] at hkey'
        cases hkey'
        rw [hv] at hv'
        cases hv'; exact h
      · exact fun h => h key v hkey hv

theorem mirrored_stocked : PolicyManager.stocked.Mirrored := by
  refine ⟨.empty, rfl, (mirrors_iff SQLiteStorage.empty.nodup).2 ⟨Set.ext fun e => ?_, fun row h => by cases h⟩⟩
  refine iff_of_false (fun hin => ?_) fun h => by obtain ⟨row, h, _⟩ := h; cases h
  cases e with
  | exact k v =>
    have hk := exact_mem_entries.1 hin
    rw [PolicyManager.stocked, PolicyMaps.empty, HashMap.lookup_empty] at hk
    cases hk
  | wildcard w =>
    obtain ⟨i, hi, h0⟩ := wildcard_mem_entries.1 hin
    rw [PolicyManager.stocked, PolicyMaps.empty, ArrayMap.lookup_replicate] at hi
    split at hi
    · cases hi; exact h0 rfl
    · cases hi

/-- **The storage mirrors the installed rules** throughout a run of calls with non-zero rule ids, from empty maps and
an empty database, iff every call adds a placeable policy, or none, or deletes no entry but its own. -/
theorem mirrored_iff {calls : List PolicyCall} (hids : ∀ c ∈ calls, c.policy.ruleID ≠ 0) :
    (∀ pre post, calls = pre ++ post → (run PolicyManager.call .stocked pre).Mirrored) ↔
      ∀ pre c post, calls = pre ++ c :: post → CallKeeps (run PolicyManager.call .stocked pre).maps c :=
  throughout_iff (fun _ _ h h0 => serviceable_call h h0) (fun _ _ h _ hm => mirrored_call_iff h hm)
    ⟨⟨[], holds_empty⟩, .empty, rfl, rfl⟩ mirrored_stocked hids

/-! ### A 5-tuple of two rules -/

/-- Rule 2 takes over the entry of rule 1, whose row stays. -/
theorem overwritten_row_stays :
    (∀ c ∈ [PolicyCall.add denyPort443, .add rule2Port443], c.policy.ruleID ≠ 0) ∧
    ¬ (run PolicyManager.call .stocked [.add denyPort443, .add rule2Port443]).Mirrored := by
  refine ⟨by decide, ?_⟩
  rintro ⟨s, hs, hm⟩
  cases hs
  have hrow : denyPort443 ∈ [denyPort443, rule2Port443] := by decide
  obtain ⟨e, hin, hid⟩ := (hm.ids 1).1 ⟨denyPort443, hrow, rfl⟩
  -- the row of rule 1 encodes to an entry that is gone
  have hrow1 := hm.encodes denyPort443 hrow e hin hid
  have hentry : encoding denyPort443 = some (.exact toPort443.key ⟨1, 0, 100, 1, 0⟩) := by decide
  rw [hentry] at hrow1
  cases hrow1
  exact absurd (exact_mem_entries.1 hin) (by decide)

/-- Rules 1 and 2; rule 1 is deleted and added again, and rule 2 replaced. -/
def readded : List PolicyCall :=
  [.add denyPort443, .add allowHost, .delete denyPort443, .add denyPort443, .add { allowHost with priority := 10 }]

theorem readded_mirrored_iff :
    (∀ pre post, readded = pre ++ post → (run PolicyManager.call .stocked pre).Mirrored) ↔
      ∀ pre c post, readded = pre ++ c :: post → CallKeeps (run PolicyManager.call .stocked pre).maps c :=
  mirrored_iff (by decide)

end Microseg
