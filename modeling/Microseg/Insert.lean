import Mathlib.Data.Set.Insert
import Microseg.Update
/-!
# Adding a policy as an insertion (`policy.go:82-201`, `:374-476`)

What the maps hold is a set of entries (`PolicyMaps.entries`), and the specification wants `AddPolicy` to
insert by rule id: the policy's entry in, every other entry of its rule id out, the rest untouched
(`Inserted`). The array is keyed by rule id, the exact map by 5-tuple, and neither looks at the other, so
this is what happens exactly when the rule has no entry anywhere but where the new one is written, and
nothing else is there (`inserted_iff`).
-/
namespace Microseg
open Words KernelMap KeyedList SlotArray Atomic

/-! ## Entries -/

/-- An entry of either map. -/
inductive Entry where
  | exact (key : PolicyKey) (value : PolicyValue)
  | wildcard (w : WildcardPolicy)
deriving DecidableEq

def Entry.ruleId : Entry → U32
  | .exact _ v => v.ruleId
  | .wildcard w => w.ruleId

/-- The entry at a place; a slot of rule id 0 is free. -/
def PolicyMaps.entryAt (m : PolicyMaps) : Place → Option Entry
  | .exact key => (m.policyMap.lookup key).map (Entry.exact key)
  | .slot i => ((m.wildcardPolicyMap.lookup i).filter fun w => w.ruleId ≠ 0).map Entry.wildcard

/-- The installed entries. -/
def PolicyMaps.entries (m : PolicyMaps) : Set Entry := {e | ∃ pl, m.entryAt pl = some e}

/-- The entry a policy is encoded as. -/
def encoding (p : Policy) : Option Entry :=
  if hasWildcard p then (wildcardEntry p).toOption.map Entry.wildcard
  else (exactEntry p).toOption.map fun kv => Entry.exact kv.1 kv.2

theorem entryAt_exact {m : PolicyMaps} {k : PolicyKey} {e : Entry} :
    m.entryAt (.exact k) = some e ↔ ∃ v, m.policyMap.lookup k = some v ∧ e = .exact k v := by
  rw [PolicyMaps.entryAt, Option.map_eq_some_iff]
  exact exists_congr fun v => and_congr_right fun _ => eq_comm

theorem entryAt_slot {m : PolicyMaps} {i : Nat} {e : Entry} : m.entryAt (.slot i) = some e ↔
    ∃ w, m.wildcardPolicyMap.lookup i = some w ∧ w.ruleId ≠ 0 ∧ e = .wildcard w := by
  rw [PolicyMaps.entryAt, Option.map_eq_some_iff]
  refine exists_congr fun w => ?_
  rw [Option.filter_eq_some_iff, decide_eq_true_eq, and_assoc, @eq_comm _ e]

theorem exact_mem_entries {m : PolicyMaps} {k : PolicyKey} {v : PolicyValue} :
    Entry.exact k v ∈ m.entries ↔ m.policyMap.lookup k = some v := by
  constructor
  · rintro ⟨pl, h⟩
    cases pl with
    | exact key =>
      obtain ⟨v', hv, he⟩ := entryAt_exact.1 h
      cases he; exact hv
    | slot i =>
      obtain ⟨w, _, _, he⟩ := entryAt_slot.1 h
      cases he
  · exact fun h => ⟨.exact k, entryAt_exact.2 ⟨v, h, rfl⟩⟩

theorem wildcard_mem_entries {m : PolicyMaps} {w : WildcardPolicy} :
    Entry.wildcard w ∈ m.entries ↔ ∃ i, m.wildcardPolicyMap.lookup i = some w ∧ w.ruleId ≠ 0 := by
  constructor
  · rintro ⟨pl, h⟩
    cases pl with
    | exact key =>
      obtain ⟨v, _, he⟩ := entryAt_exact.1 h
      cases he
    | slot i =>
      obtain ⟨w', hi, h0, he⟩ := entryAt_slot.1 h
      cases he; exact ⟨i, hi, h0⟩
  · rintro ⟨i, hi, h0⟩
    exact ⟨.slot i, entryAt_slot.2 ⟨w, hi, h0, rfl⟩⟩

/-- An entry stands at one place only. -/
theorem entryAt_inj {m : PolicyMaps} {l : List WildcardPolicy} (hl : m.Holds l) {pl pl' : Place} {e : Entry}
    (h : m.entryAt pl = some e) (h' : m.entryAt pl' = some e) : pl = pl' := by
  cases pl with
  | exact k =>
    obtain ⟨v, _, rfl⟩ := entryAt_exact.1 h
    cases pl' with
    | exact k' =>
      obtain ⟨v', _, he⟩ := entryAt_exact.1 h'
      cases he; rfl
    | slot i =>
      obtain ⟨w, _, _, he⟩ := entryAt_slot.1 h'
      cases he
  | slot i =>
    obtain ⟨w, hi, h0, rfl⟩ := entryAt_slot.1 h
    cases pl' with
    | exact k =>
      obtain ⟨v, _, he⟩ := entryAt_exact.1 h'
      cases he
    | slot j =>
      obtain ⟨w', hj, _, he⟩ := entryAt_slot.1 h'
      cases he
      rw [← position_of_getElem? hl.nodup (hl.getElem?_of_lookup hi h0),
        ← position_of_getElem? hl.nodup (hl.getElem?_of_lookup hj h0)]

theorem encoding_parsed {p : Policy} (t : Parsed p) :
    encoding p = some (if hasWildcard p then .wildcard t.wildcard else .exact t.key t.value) := by
  rw [encoding, t.wildcardEntry_eq, t.exactEntry_eq]
  cases hasWildcard p <;> rfl

theorem encoding_ruleId {p : Policy} {e : Entry} (h : encoding p = some e) : e.ruleId = p.ruleID := by
  rcases parsed_cases p with ⟨⟨t⟩⟩ | ⟨err, hx, hw⟩
  · rw [encoding_parsed t] at h
    cases h
    cases hasWildcard p <;> rfl
  · rw [encoding, hx, hw] at h
    split at h <;> cases h

/-! ## What a call does to the entries -/

section Add

variable {m m' : PolicyMaps} {p : Policy} (t : Parsed p)

/-- An exact policy replaces what is under its key. -/
theorem mem_entries_put (hput : m.policyMap.put t.key t.value = some m'.policyMap)
    (hsame : m'.wildcardPolicyMap = m.wildcardPolicyMap) (e : Entry) :
    e ∈ m'.entries ↔ e = .exact t.key t.value ∨ (e ∈ m.entries ∧ ∀ v, e ≠ .exact t.key v) := by
  cases e with
  | exact k v =>
    rw [exact_mem_entries, exact_mem_entries, HashMap.lookup_put hput]
    by_cases hk : k = t.key
    · subst hk
      simp [eq_comm]
    · simp [hk]
  | wildcard w => simp [wildcard_mem_entries, hsame]

/-- A wildcard policy replaces what the array has of its rule. -/
theorem mem_entries_slot {l : List WildcardPolicy} (hl : m.Holds l) (h0 : p.ruleID ≠ 0) {i : Nat}
    (hi : slotFor m.wildcardPolicyMap p.ruleID = some i)
    (hput : m.wildcardPolicyMap.put i t.wildcard = some m'.wildcardPolicyMap) (hsame : m'.policyMap = m.policyMap)
    (e : Entry) : e ∈ m'.entries ↔
      e = .wildcard t.wildcard ∨ (e ∈ m.entries ∧ ∀ w, e = .wildcard w → w.ruleId ≠ p.ruleID) := by
  cases e with
  | exact k v => simp [exact_mem_entries, hsame]
  | wildcard w =>
    rw [wildcard_mem_entries, wildcard_mem_entries]
    constructor
    · rintro ⟨j, hj, hw0⟩
      rw [ArrayMap.lookup_put hput] at hj
      split at hj
      · exact Or.inl (by rw [Option.some.inj hj])
      · next hne =>
        refine Or.inr ⟨⟨j, hj, hw0⟩, fun w' he hid => ?_⟩
        cases he
        rw [← hid] at hi
        exact hne (hl.slot_eq hj hw0 hi)
    · rintro (he | ⟨⟨j, hj, hw0⟩, hid⟩)
      · cases he
        exact ⟨i, by rw [ArrayMap.lookup_put hput, if_pos rfl], h0⟩
      · exact ⟨j, (put_slot_keeps_others t hi hput (hid w rfl) hw0).2 hj, hw0⟩

end Add

/-! ## Insertion by rule id -/

/-- The entries of `m'` are those of `m` without the policy's rule, and the policy's encoding. -/
def InsertsEntry (m m' : PolicyMaps) (p : Policy) : Prop :=
  ∃ e, encoding p = some e ∧ m'.entries = insert e {x | x ∈ m.entries ∧ x.ruleId ≠ p.ruleID}

/-- The rule has no entry but where the policy is written, and no other rule is there. -/
def Placeable (m : PolicyMaps) (p : Policy) : Prop :=
  if hasWildcard p then p.ruleID ≠ 0 ∧ ∀ k v, Entry.exact k v ∈ m.entries → v.ruleId ≠ p.ruleID
  else (∀ w, Entry.wildcard w ∈ m.entries → w.ruleId ≠ p.ruleID) ∧
    ∀ k v, Entry.exact k v ∈ m.entries → (v.ruleId = p.ruleID ↔ policyKey p = .ok k)

section Insert

variable {m m' : PolicyMaps} {p : Policy}

/-- A call that writes the encoding and keeps the entries with `Kept` inserts by rule id when the entries kept beside
it are those of the other rules. -/
theorem insertsEntry_iff_kept {e₀ : Entry} {Kept : Entry → Prop} (henc : encoding p = some e₀)
    (hafter : ∀ e, e ∈ m'.entries ↔ e = e₀ ∨ (e ∈ m.entries ∧ Kept e)) :
    InsertsEntry m m' p ↔ ∀ e ∈ m.entries, e ≠ e₀ → (Kept e ↔ e.ruleId ≠ p.ruleID) := by
  constructor
  · rintro ⟨e₁, he₁, hset⟩ e hin hne
    rw [henc] at he₁
    cases he₁
    have h := hafter e
    rw [hset, Set.mem_insert_iff, Set.mem_ofPred_eq, or_iff_right hne, or_iff_right hne, and_iff_right hin,
      and_iff_right hin] at h
    exact h.symm
  · intro h
    refine ⟨e₀, henc, Set.ext fun e => ?_⟩
    rw [hafter, Set.mem_insert_iff, Set.mem_ofPred_eq]
    by_cases he : e = e₀
    · simp only [he, true_or]
    · exact or_congr_right (and_congr_right fun hin => h e hin he)

theorem insertsEntry_exact_iff (hw : hasWildcard p = false) (hadd : m.add p = .ok m') :
    InsertsEntry m m' p ↔ Placeable m p := by
  obtain ⟨t, hput, hsame⟩ := (add_exact_ok hw).1 hadd
  have hkey : ∀ k, policyKey p = .ok k ↔ k = t.key := fun k => by rw [t.policyKey_eq, Except.ok.injEq, eq_comm]
  have hencoding : encoding p = some (.exact t.key t.value) := by rw [encoding_parsed t, hw]; rfl
  rw [Placeable, if_neg (by rw [hw]; exact Bool.false_ne_true), insertsEntry_iff_kept hencoding (mem_entries_put t hput hsame)]
  simp only [hkey]
  constructor
  · intro h
    refine ⟨fun w hin => (h _ hin Entry.noConfusion).1 fun v => Entry.noConfusion, fun k v hin => ?_⟩
    by_cases he : Entry.exact k v = .exact t.key t.value
    · cases he
      exact iff_of_true rfl rfl
    · -- under the key it is overwritten, under another one it stays
      have hkept : (∀ v', Entry.exact k v ≠ .exact t.key v') ↔ k ≠ t.key :=
        ⟨fun hne hk => hne v (by rw [hk]), fun hk v' heq => hk (Entry.exact.inj heq).1⟩
      exact not_iff_not.1 ((h _ hin he).symm.trans hkept)
  · rintro ⟨hwild, hexact⟩ e hin -
    cases e with
    | wildcard w => exact iff_of_true (fun v => Entry.noConfusion) (hwild w hin)
    | exact k v =>
      rw [Entry.ruleId, Ne, hexact k v hin]
      exact ⟨fun hne hk => hne v (by rw [hk]), fun hk v' he => hk (Entry.exact.inj he).1⟩

theorem insertsEntry_wildcard_iff {l : List WildcardPolicy} (hl : m.Holds l) (hw : hasWildcard p = true)
    (hadd : m.add p = .ok m') : InsertsEntry m m' p ↔ Placeable m p := by
  obtain ⟨t, i, hi, hput, hsame⟩ := (add_wildcard_ok hw).1 hadd
  have hencoding : encoding p = some (.wildcard t.wildcard) := by rw [encoding_parsed t, hw]; rfl
  rw [Placeable, if_pos hw]
  by_cases h0 : p.ruleID = 0
  · -- an entry of rule id 0 is a free slot
    refine iff_of_false ?_ fun h => h.1 h0
    rintro ⟨e, he, hset⟩
    rw [hencoding] at he
    cases he
    have hin : Entry.wildcard t.wildcard ∈ m'.entries := by
      rw [hset]
      exact Or.inl rfl
    obtain ⟨_, _, hne⟩ := wildcard_mem_entries.1 hin
    exact hne h0
  rw [insertsEntry_iff_kept hencoding (mem_entries_slot t hl h0 hi hput hsame)]
  constructor
  · intro h
    exact ⟨h0, fun k v hin => (h _ hin Entry.noConfusion).1 fun w => Entry.noConfusion⟩
  · rintro ⟨_, hexact⟩ e hin -
    cases e with
    | exact k v => exact iff_of_true (fun w => Entry.noConfusion) (hexact k v hin)
    | wildcard w => exact ⟨fun h => h w rfl, fun h w' he => (Entry.wildcard.inj he) ▸ h⟩

/-- **One call inserts by rule id** exactly when the policy is placeable. -/
theorem insertsEntry_iff {l : List WildcardPolicy} (hl : m.Holds l) (hadd : m.add p = .ok m') :
    InsertsEntry m m' p ↔ Placeable m p := by
  cases hw : hasWildcard p with
  | false => exact insertsEntry_exact_iff hw hadd
  | true => exact insertsEntry_wildcard_iff hl hw hadd

end Insert

/-- The rule id occurs at exactly one place. -/
def OccursOnce (m : PolicyMaps) (r : U32) : Prop := ∃! pl, ∃ e, m.entryAt pl = some e ∧ e.ruleId = r

theorem occursOnce_of_insertsEntry {m m' : PolicyMaps} {p : Policy} {l : List WildcardPolicy} (hl : m'.Holds l)
    (h : InsertsEntry m m' p) : OccursOnce m' p.ruleID := by
  obtain ⟨e, he, hset⟩ := h
  -- every entry of the rule is the policy's
  have honly : ∀ pl x, m'.entryAt pl = some x → x.ruleId = p.ruleID → m'.entryAt pl = some e := by
    intro pl x hx hid
    have hin : x ∈ m'.entries := ⟨pl, hx⟩
    rw [hset] at hin
    rcases hin with rfl | ⟨_, hne⟩
    · exact hx
    · exact absurd hid hne
  have hin : e ∈ m'.entries := by
    rw [hset]
    exact Set.mem_insert _ _
  obtain ⟨pl, hpl⟩ := hin
  exact ⟨pl, ⟨e, hpl, encoding_ruleId he⟩, fun pl' ⟨x, hx, hid⟩ => entryAt_inj hl (honly pl' x hx hid) hpl⟩

/-- **`AddPolicy` inserts by rule id** iff the policy is placeable: in every state that calls with non-zero rule ids
reach from empty maps, a call that returns nil replaces the entries of its rule by the policy's encoding,
which then occurs once, and leaves all others alone, exactly when the rule has no entry but where the new
one goes and no other rule is there. -/
theorem addPolicy_inserts_iff {pm : PolicyManager} (hpm : pm.maps = .empty) {ps : List Policy}
    (hids : ∀ q ∈ ps, q.ruleID ≠ 0) {p : Policy} (hok : ((addPolicy p).run (pm.after ps)).2 = .ok ()) :
    (InsertsEntry (pm.after ps).maps ((addPolicy p).run (pm.after ps)).1.maps p ∧
        OccursOnce ((addPolicy p).run (pm.after ps)).1.maps p.ruleID) ↔
      Placeable (pm.after ps).maps p := by
  have hl : (pm.after ps).maps.Holds (placed ps) := holds_after ps (hpm ▸ holds_empty) hids
  obtain ⟨m', hadd⟩ := addPolicy_ok_iff.1 hok
  have hm' : ((addPolicy p).run (pm.after ps)).1.maps = m' := by rw [addPolicy_maps, hadd]; rfl
  rw [hm', ← insertsEntry_iff hl hadd]
  refine ⟨fun h => h.1, fun h => ⟨h, ?_⟩⟩
  by_cases h0 : p.ruleID = 0
  · -- then the policy is exact, and the array as it was
    cases hw : hasWildcard p with
    | false =>
      obtain ⟨_, _, hsame⟩ := (add_exact_ok hw).1 hadd
      exact occursOnce_of_insertsEntry (l := placed ps) (by rw [PolicyMaps.Holds, hsame]; exact hl) h
    | true =>
      have hplace := (insertsEntry_iff hl hadd).1 h
      rw [Placeable, if_pos hw] at hplace
      exact absurd h0 hplace.1
  · exact occursOnce_of_insertsEntry (hm' ▸ holds_addPolicy hl h0) h

/-! ### A 5-tuple used twice -/

/-- Rule 2 for the connection of rule 1. -/
def rule2Port443 : Policy := { denyPort443 with ruleID := 2 }

/-- The call returns nil, and the entry of rule 1 is gone. -/
theorem same_tuple_overwrites : (∀ q ∈ [denyPort443], q.ruleID ≠ 0) ∧
    ((addPolicy rule2Port443).run (PolicyManager.fresh.after [denyPort443])).2 = .ok () ∧
    ¬ (InsertsEntry (PolicyManager.fresh.after [denyPort443]).maps
        ((addPolicy rule2Port443).run (PolicyManager.fresh.after [denyPort443])).1.maps rule2Port443 ∧
      OccursOnce ((addPolicy rule2Port443).run (PolicyManager.fresh.after [denyPort443])).1.maps
        rule2Port443.ruleID) := by
  refine ⟨by decide, by decide, ?_⟩
  rintro ⟨⟨e, he, hset⟩, _⟩
  have hbefore : Entry.exact toPort443.key ⟨1, 0, 100, 1, 0⟩ ∈ (PolicyManager.fresh.after [denyPort443]).maps.entries :=
    exact_mem_entries.2 (by decide)
  have hafter : Entry.exact toPort443.key ⟨1, 0, 100, 1, 0⟩ ∈
      ((addPolicy rule2Port443).run (PolicyManager.fresh.after [denyPort443])).1.maps.entries := by
    rw [hset]
    exact Or.inr ⟨hbefore, by decide⟩
  exact absurd (exact_mem_entries.1 hafter) (by decide)

theorem raised_priority_inserted :
    (InsertsEntry (PolicyManager.fresh.after [denyPort443]).maps
        ((addPolicy denyPort443Raised).run (PolicyManager.fresh.after [denyPort443])).1.maps denyPort443Raised ∧
      OccursOnce ((addPolicy denyPort443Raised).run (PolicyManager.fresh.after [denyPort443])).1.maps
        denyPort443Raised.ruleID) ↔ Placeable (PolicyManager.fresh.after [denyPort443]).maps denyPort443Raised :=
  addPolicy_inserts_iff rfl (by decide) (by decide)

end Microseg
