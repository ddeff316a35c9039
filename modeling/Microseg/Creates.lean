import Microseg.Lib.SlotRace
import Microseg.Api
import Microseg.Insert
/-!
# Concurrent creations (`handlers/policy.go:26-78`, `policy.go:428-476`)

gin serves requests side by side, and neither the handler nor the manager takes a lock. A creation of a
wildcard rule is a client of the race for slots (`Performs`): it looks one slot up after another, and writes
the first that was free when it looked. So no rule is lost exactly when no request writes a slot that another
one has taken in between (`creates_kept_iff`).

| here | there |
| --- | --- |
| `concurrently` | the requests' map and storage operations in the order of a schedule |
| `afterSlot` | what follows the slot loop, in `AddPolicy` and in the handler |
-/
namespace Microseg
open Words KernelMap SlotArray Atomic Runs SlotRace

/-! ## Requests side by side -/

/-- Creation requests served concurrently: the schedule names the request that does the next operation. -/
def concurrently (pm : PolicyManager) (ps : List PolicyRequest) (schedule : List Nat) :
    List (Op Response) × PolicyManager :=
  run (poolStep Prog.step) (ps.map fun p => Api.createPolicy (some p), pm) schedule

/-- Every request has answered 201. -/
def AllCreated (c : List (Op Response) × PolicyManager) : Prop :=
  ∀ q ∈ c.1, q.result.map Response.status = some 201

instance (c : List (Op Response) × PolicyManager) : Decidable (AllCreated c) := inferInstanceAs (Decidable (∀ _ ∈ _, _))

/-- If the next operation of request `k` is a `Put`, the slot is free. -/
def PutsFree (c : List (Op Response) × PolicyManager) (k : Nat) : Prop :=
  ∀ (i : Nat) (w e : WildcardPolicy) (f : Except Err Unit → Op Response), c.1[k]? = some (wildcardPolicyMapPut i w >>= f) →
    c.2.maps.wildcardPolicyMap.lookup i = some e → e.ruleId = 0

/-! ## A creation as a client -/

/-- What follows the slot loop: the storage, then the answer. -/
def afterSlot (p : Policy) (r : Except Err Unit) : Op Response := do
  let r ← (match r with
    | .error e => return .error e
    | .ok () => do
      let _ ← withStorage (SQLiteStorage.savePolicy p)
      return .ok () : Op (Except Err Unit))
  match r with
  | .error e => return policyError "Failed to add policy" e
  | .ok () => return ⟨201, .policy p⟩

theorem createPolicy_wildcard {p : Policy} (hv : validate p = []) (hw : hasWildcard p = true) (t : Parsed p) :
    Api.createPolicy (some p) = addToSlot p t.wildcard maxEntriesWildcardPolicy 0 >>= afterSlot p := by
  have hb : shouldBindJSON (some p) = .ok p := by rw [shouldBindJSON, if_pos hv]
  simp only [Api.createPolicy, hb, addPolicy, addPolicyToMap, hw, ↓reduceIte,
    addWildcardPolicy_of_ok t.wildcardEntry_eq]
  exact Prog.bind_assoc _ _ _

/-- The program is a creation at the client's stage. -/
inductive Performs : Client WildcardPolicy → Op Response → Prop
  | reading {p : Policy} (t : Parsed p) {n i : Nat} (h : i + n = maxEntriesWildcardPolicy) :
    Performs ⟨t.wildcard, .reading i⟩ (addToSlot p t.wildcard n i >>= afterSlot p)
  | writing {p : Policy} (t : Parsed p) {i : Nat} (h : i < maxEntriesWildcardPolicy) (context : String) :
    Performs ⟨t.wildcard, .writing i⟩ (wildcardPolicyMapPut i t.wildcard >>= fun r => afterSlot p (wrapErr context r))
  | saving {p : Policy} (t : Parsed p) :
    Performs ⟨t.wildcard, .placed⟩ (withStorage (SQLiteStorage.savePolicy p) >>= fun _ => pure ⟨201, .policy p⟩)
  | answered {p : Policy} (t : Parsed p) : Performs ⟨t.wildcard, .placed⟩ (pure ⟨201, .policy p⟩)

/-- The array of the race is the manager's; the exact map stays as it is. -/
def Shares (policyMap : HashMap PolicyKey PolicyValue maxEntriesPolicy)
    (m : ArrayMap WildcardPolicy maxEntriesWildcardPolicy) (pm : PolicyManager) : Prop :=
  pm.maps = ⟨policyMap, m⟩

/-- The lookup of a slot, and what is left to do. -/
theorem step_reading (p : Policy) (w : WildcardPolicy) (n i : Nat) {pm : PolicyManager} {y : WildcardPolicy}
    (hy : pm.maps.wildcardPolicyMap.lookup i = some y) : Prog.step (addToSlot p w (n + 1) i >>= afterSlot p, pm) =
      (if y.ruleId = 0 then
        wildcardPolicyMapPut i w >>= fun r =>
          afterSlot p (wrapErr ("failed to add wildcard policy to map slot " ++ toString i) r)
      else if y.ruleId = p.ruleID then
        wildcardPolicyMapPut i w >>= fun r =>
          afterSlot p (wrapErr ("failed to update wildcard policy at slot " ++ toString i) r)
      else addToSlot p w n (i + 1) >>= afterSlot p, pm) := by
  have hstep : Prog.step (addToSlot p w (n + 1) i >>= afterSlot p, pm) =
      ((if (pm.maps.wildcardPolicyMap.lookup i).elim true fun e => e.ruleId = 0 then do
          let r ← wildcardPolicyMapPut i w
          return wrapErr ("failed to add wildcard policy to map slot " ++ toString i) r
        else if (pm.maps.wildcardPolicyMap.lookup i).elim false fun e => e.ruleId = p.ruleID then do
          let r ← wildcardPolicyMapPut i w
          return wrapErr ("failed to update wildcard policy at slot " ++ toString i) r
        else addToSlot p w n (i + 1)) >>= afterSlot p, pm) := rfl
  rw [hstep, hy]
  simp only [Option.elim_some, decide_eq_true_eq]
  split_ifs <;> rfl

theorem step_writing {i : Nat} {w : WildcardPolicy} {f : Except Err Unit → Op Response} {pm : PolicyManager}
    {m' : ArrayMap WildcardPolicy maxEntriesWildcardPolicy} (hput : pm.maps.wildcardPolicyMap.put i w = some m') :
    Prog.step (wildcardPolicyMapPut i w >>= f, pm) = (f (.ok ()), { pm with maps.wildcardPolicyMap := m' }) := by
  have hstep : Prog.step (wildcardPolicyMapPut i w >>= f, pm) =
      (f ((wildcardPolicyMapPut i w).run pm).2, ((wildcardPolicyMapPut i w).run pm).1) := rfl
  rw [hstep, wildcardPolicyMapPut, Prog.run_act, hput]

theorem step_saving {g : SQLiteStorage → SQLiteStorage × Except Err Unit} {f : Except Err Unit → Op Response}
    (pm : PolicyManager) : Prog.step (withStorage g >>= f, pm) = (f ((withStorage g).run pm).2, pm.stored g) :=
  Prod.ext rfl (withStorage_run g pm)

/-- **One operation of a creation** is a move of its client. -/
theorem performs_step {x : HashMap PolicyKey PolicyValue maxEntriesPolicy} {l : Client WildcardPolicy} {q : Op Response}
    {m : ArrayMap WildcardPolicy maxEntriesWildcardPolicy} {pm : PolicyManager} (h : Performs l q) (hm : Shares x m pm) :
    Performs (move wildcardLayout (l, m)).1 (Prog.step (q, pm)).1 ∧
      Shares x (move wildcardLayout (l, m)).2 (Prog.step (q, pm)).2 := by
  have hmap : pm.maps.wildcardPolicyMap = m := by rw [hm]
  cases h with
  | @reading p t n i hn =>
    cases n with
    | zero =>
      -- every slot has been looked up: the answer is an error
      have hout : m.lookup i = none := by
        rw [← Option.not_isSome_iff_eq_none, ArrayMap.lookup_isSome]; omega
      simp only [move, hout]
      exact ⟨Performs.reading t hn, hm⟩
    | succ n =>
      have hi : i < maxEntriesWildcardPolicy := by omega
      obtain ⟨y, hy⟩ := m.exists_lookup hi
      rw [step_reading p t.wildcard n i (hmap ▸ hy)]
      simp only [move, hy]
      refine ⟨?_, hm⟩
      by_cases hfree : wildcardLayout.key y = wildcardLayout.free
      · rw [if_pos (show y.ruleId = 0 from hfree), if_pos (Or.inl hfree)]
        exact Performs.writing t hi _
      by_cases hown : wildcardLayout.key y = wildcardLayout.key t.wildcard
      · rw [if_neg (show ¬ y.ruleId = 0 from hfree), if_pos (show y.ruleId = p.ruleID from hown), if_pos (Or.inr hown)]
        exact Performs.writing t hi _
      · rw [if_neg (show ¬ y.ruleId = 0 from hfree), if_neg (show ¬ y.ruleId = p.ruleID from hown),
          if_neg (not_or.2 ⟨hfree, hown⟩)]
        exact Performs.reading t (by omega)
  | @writing p t i hi context =>
    obtain ⟨m', hput⟩ := m.exists_put hi t.wildcard
    rw [step_writing (hmap.symm ▸ hput)]
    simp only [move, hput]
    exact ⟨Performs.saving t, by rw [Shares, hm]⟩
  | saving t =>
    rw [step_saving]
    exact ⟨Performs.answered t, hm⟩
  | answered t => exact ⟨Performs.answered t, hm⟩

/-- A program whose next operation is a `Put` of a slot is a creation that writes this slot. -/
theorem stage_of_put {l : Client WildcardPolicy} {q : Op Response} (h : Performs l q) {i : Nat}
    (hi : i < maxEntriesWildcardPolicy) {w : WildcardPolicy} {f : Except Err Unit → Op Response}
    (hq : q = wildcardPolicyMapPut i w >>= f) : l.stage = .writing i := by
  -- on an array without `w`, only a write to the slot puts something else there
  let pm : PolicyManager := ⟨⟨.empty, .replicate { w with ruleId := w.ruleId + 1 }⟩, none⟩
  have hold : pm.maps.wildcardPolicyMap.lookup i = some { w with ruleId := w.ruleId + 1 } := by
    rw [ArrayMap.lookup_replicate, if_pos hi]
  obtain ⟨m', hput⟩ := pm.maps.wildcardPolicyMap.exists_put hi w
  have hnew : (Prog.step (q, pm)).2.maps.wildcardPolicyMap.lookup i = some w := by
    rw [hq, step_writing hput]
    exact (ArrayMap.lookup_put hput i).trans (if_pos rfl)
  have hne : pm.maps.wildcardPolicyMap.lookup i ≠ some w := by
    rw [hold]
    intro he
    have hid := congrArg WildcardPolicy.ruleId (Option.some.inj he)
    simp at hid
  cases h with
  | @reading p t n j hn =>
    cases n with
    | zero => exact absurd hnew hne
    | succ n => exact absurd hnew hne
  | @writing p t j hj context =>
    by_cases hij : i = j
    · rw [hij]
    · obtain ⟨m'', hput'⟩ := pm.maps.wildcardPolicyMap.exists_put hj t.wildcard
      rw [step_writing hput'] at hnew
      exact absurd ((ArrayMap.lookup_put hput' i).symm.trans hnew) (by rwa [if_neg hij])
  | saving t =>
    rw [step_saving] at hnew
    exact absurd hnew hne
  | answered t => exact absurd hnew hne

/-! ## The race of the requests -/

/-- The entry of a policy that parses. -/
def slotEntry (p : Policy) : WildcardPolicy := (wildcardEntry p).toOption.getD .zero

theorem slotEntry_parsed {p : Policy} (t : Parsed p) : slotEntry p = t.wildcard := by
  rw [slotEntry, t.wildcardEntry_eq]; rfl

/-- A creation of a wildcard rule that is valid and parses, or one that has its error already. -/
theorem createPolicy_cases {p : Policy} (hw : hasWildcard p = true) :
    (validate p = [] ∧ Nonempty (Parsed p)) ∨
      ∃ r, Api.createPolicy (some p) = .done r ∧ r.status ≠ 201 := by
  by_cases hv : validate p = []
  · have hb : shouldBindJSON (some p) = .ok p := by rw [shouldBindJSON, if_pos hv]
    rcases parsed_cases p with ht | ⟨e, _, he⟩
    · exact Or.inl ⟨hv, ht⟩
    · refine Or.inr ⟨policyError "Failed to add policy" e, ?_, (by decide : (500 : Nat) ≠ 201)⟩
      simp only [Api.createPolicy, hb, addPolicy, addPolicyToMap, hw, ↓reduceIte,
        addWildcardPolicy_of_error he]
      rfl
  · refine Or.inr ⟨invalidBody (.validation (validate p)), ?_, (by decide : (400 : Nat) ≠ 201)⟩
    simp only [Api.createPolicy, shouldBindJSON, hv, ↓reduceIte]
    rfl

section Requests

variable {pm : PolicyManager} {ps : List PolicyRequest} {schedule : List Nat}

/-- Only valid requests that parse can be answered with 201. -/
theorem created_parsed (hw : ∀ p ∈ ps, hasWildcard p = true) (hdone : AllCreated (concurrently pm ps schedule)) :
    ∀ p ∈ ps, validate p = [] ∧ Nonempty (Parsed p) := by
  intro p hp
  rcases createPolicy_cases (hw p hp) with hvalid | ⟨r, hr, hne⟩
  · exact hvalid
  · obtain ⟨j, hj⟩ := List.mem_iff_getElem?.1 hp
    have hstart : (ps.map fun p => Api.createPolicy (some p))[j]? = some (.done r) := by
      rw [List.getElem?_map, hj, Option.map_some, hr]
    have hend : (concurrently pm ps schedule).1[j]? = some (.done r) :=
      run_keeps (I := fun c : List (Op Response) × PolicyManager => c.1[j]? = some (.done r)) (E := fun _ => True)
        (fun c k h _ => poolStep_done h k) hstart fun _ _ => trivial
    exact absurd (Option.some.inj (hdone _ (List.mem_of_getElem? hend))) hne

/-- The race that the requests run. -/
def raceOf (pm : PolicyManager) (ps : List PolicyRequest) (schedule : List Nat) :
    Race WildcardPolicy maxEntriesWildcardPolicy :=
  run (poolStep (move wildcardLayout)) (start (ps.map slotEntry), pm.maps.wildcardPolicyMap) schedule

/-- **The requests simulate the race**, whatever the schedule. -/
theorem concurrently_related (hw : ∀ p ∈ ps, hasWildcard p = true) (hps : ∀ p ∈ ps, validate p = [] ∧ Nonempty (Parsed p))
    (schedule : List Nat) :
    List.Forall₂ Performs (raceOf pm ps schedule).1 (concurrently pm ps schedule).1 ∧
      Shares pm.maps.policyMap (raceOf pm ps schedule).2 (concurrently pm ps schedule).2 := by
  unfold raceOf concurrently
  refine run_related (R := fun (c : Race WildcardPolicy maxEntriesWildcardPolicy) (d : List (Op Response) × PolicyManager) =>
      List.Forall₂ Performs c.1 d.1 ∧ Shares pm.maps.policyMap c.2 d.2) (E := Eq)
    (fun c d k k' h he => ?_) ?_ (List.forall₂_same.2 fun _ _ => rfl)
  · subst he
    exact poolStep_related (fun l q m pm' hl hm => performs_step hl hm) h k
  · refine ⟨?_, rfl⟩
    rw [start, List.map_map, List.forall₂_map_left_iff, List.forall₂_map_right_iff, List.forall₂_same]
    intro p hp
    obtain ⟨hv, ⟨t⟩⟩ := hps p hp
    rw [createPolicy_wildcard hv (hw p hp) t, Function.comp_apply, slotEntry_parsed t]
    exact Performs.reading t (Nat.zero_add _)

/-- A `Put` of a request is a write of its client. -/
theorem putsFree_iff {x : HashMap PolicyKey PolicyValue maxEntriesPolicy} {c : Race WildcardPolicy maxEntriesWildcardPolicy}
    {d : List (Op Response) × PolicyManager} (h : List.Forall₂ Performs c.1 d.1 ∧ Shares x c.2 d.2) (k : Nat) :
    WritesFree wildcardLayout c k ↔ PutsFree d k := by
  obtain ⟨hclients, hshared⟩ := h
  have hmap : d.2.maps.wildcardPolicyMap = c.2 := by rw [hshared]
  constructor
  · intro hfree i w e f hq he
    obtain ⟨l, hl, hperf⟩ := forall₂_getElem? hclients.flip hq
    have hi : i < maxEntriesWildcardPolicy := ArrayMap.lookup_isSome.1 (by rw [he]; rfl)
    exact hfree l i e hl (stage_of_put hperf hi rfl) (hmap ▸ he)
  · intro hfree l i y hl hst hy
    obtain ⟨q, hq, hperf⟩ := forall₂_getElem? hclients hl
    cases hperf with
    | reading t hn => cases hst
    | writing t hi context =>
      cases hst
      exact hfree i t.wildcard y _ hq (hmap.symm ▸ hy)
    | saving t => cases hst
    | answered t => cases hst

/-- A client whose request has answered 201 has written. -/
theorem placed_of_created {l : Client WildcardPolicy} {q : Op Response} (h : Performs l q)
    (hq : q.result.map Response.status = some 201) : l.stage = .placed := by
  cases h with
  | @reading p t n i hn =>
    cases n with
    | zero =>
      have herr : (addToSlot p t.wildcard 0 i >>= afterSlot p).result.map Response.status = some 500 := rfl
      rw [herr] at hq
      exact absurd (Option.some.inj hq) (by decide)
    | succ n => cases hq
  | writing t hi context => cases hq
  | saving t => rfl
  | answered t => rfl

/-- Distinct new rules start a race with nothing lost. -/
theorem sound_requests (hps : ∀ p ∈ ps, validate p = [] ∧ Nonempty (Parsed p)) (hids : (ps.map Policy.ruleID).Nodup)
    (hnew : ∀ p ∈ ps, NotInstalled pm.maps p.ruleID) :
    Sound wildcardLayout pm.maps.wildcardPolicyMap (start (ps.map slotEntry), pm.maps.wildcardPolicyMap) := by
  have hkey : ∀ p ∈ ps, (slotEntry p).ruleId = p.ruleID := fun p hp => by
    obtain ⟨_, ⟨t⟩⟩ := hps p hp
    rw [slotEntry_parsed t]; rfl
  refine sound_start ?_ ?_ ?_
  · have hmap : (ps.map slotEntry).map wildcardLayout.key = ps.map Policy.ruleID := by
      rw [List.map_map]
      exact List.map_congr_left hkey
    rw [hmap]; exact hids
  · intro w hin
    obtain ⟨p, hp, rfl⟩ := List.mem_map.1 hin
    exact fun h0 => (validate_eq_nil (hps p hp).1).1 ((hkey p hp).symm.trans h0)
  · intro w hin i y hy
    obtain ⟨p, hp, rfl⟩ := List.mem_map.1 hin
    exact fun he => (hnew p hp).wildcard i y hy (he.trans (hkey p hp))

/-- What was installed is there in any case. -/
theorem entries_kept (hw : ∀ p ∈ ps, hasWildcard p = true) (hps : ∀ p ∈ ps, validate p = [] ∧ Nonempty (Parsed p))
    (hsound : Sound wildcardLayout pm.maps.wildcardPolicyMap (start (ps.map slotEntry), pm.maps.wildcardPolicyMap)) :
    pm.maps.entries ⊆ (concurrently pm ps schedule).2.maps.entries := by
  obtain ⟨_, hshared⟩ := concurrently_related hw hps schedule
  have hrace : Sound wildcardLayout pm.maps.wildcardPolicyMap (raceOf pm ps schedule) := sound_run hsound schedule
  intro e he
  rw [hshared]
  cases e with
  | exact k v => exact exact_mem_entries.2 (exact_mem_entries.1 he : pm.maps.policyMap.lookup k = some v)
  | wildcard w =>
    obtain ⟨i, hi, h0⟩ := wildcard_mem_entries.1 he
    exact wildcard_mem_entries.2 ⟨i, hrace.kept hi h0, h0⟩

/-- Once all have answered 201, every rule is in a slot iff the race has lost none. -/
theorem present_iff_noneLost (hw : ∀ p ∈ ps, hasWildcard p = true) (hps : ∀ p ∈ ps, validate p = [] ∧ Nonempty (Parsed p))
    (hdone : AllCreated (concurrently pm ps schedule)) : (∀ p ∈ ps, ∃ i w, wildcardEntry p = .ok w ∧
      (concurrently pm ps schedule).2.maps.wildcardPolicyMap.lookup i = some w) ↔ NoneLost (raceOf pm ps schedule) := by
  obtain ⟨hclients, hshared⟩ := concurrently_related hw hps schedule
  have hplaced : ∀ l ∈ (raceOf pm ps schedule).1, l.stage = .placed := by
    intro l hl
    obtain ⟨j, hj⟩ := List.mem_iff_getElem?.1 hl
    obtain ⟨q, hq, hperf⟩ := forall₂_getElem? hclients hj
    exact placed_of_created hperf (hdone q (List.mem_of_getElem? hq))
  have hentries : (raceOf pm ps schedule).1.map Client.entry = ps.map slotEntry := by
    rw [raceOf, entries_run, start, List.map_map]
    exact List.map_id _
  rw [noneLost_iff_present hplaced, hentries, List.forall_mem_map, hshared]
  refine forall₂_congr fun p hp => exists_congr fun i => ?_
  obtain ⟨_, ⟨t⟩⟩ := hps p hp
  simp only [slotEntry_parsed t, t.wildcardEntry_eq, Except.ok.injEq, exists_eq_left']

/-- **Concurrent creations lose no rule** iff no request ever writes a slot that another has taken since it looked:
for wildcard rules with distinct ids that are not installed, in any state and under any schedule after which all
requests have answered 201, each rule is in a slot and what was installed is still there exactly when every
`Put` of the schedule goes to a slot that is free at that moment. -/
theorem creates_kept_iff (hw : ∀ p ∈ ps, hasWildcard p = true) (hids : (ps.map Policy.ruleID).Nodup)
    (hnew : ∀ p ∈ ps, NotInstalled pm.maps p.ruleID) (hdone : AllCreated (concurrently pm ps schedule)) :
    ((∀ p ∈ ps, ∃ i w, wildcardEntry p = .ok w ∧
        (concurrently pm ps schedule).2.maps.wildcardPolicyMap.lookup i = some w) ∧
      pm.maps.entries ⊆ (concurrently pm ps schedule).2.maps.entries) ↔
    ∀ pre k post, schedule = pre ++ k :: post → PutsFree (concurrently pm ps pre) k := by
  have hps := created_parsed hw hdone
  have hsound := sound_requests hps hids hnew
  have hsteps : ∀ pre k, WritesFree wildcardLayout (raceOf pm ps pre) k ↔ PutsFree (concurrently pm ps pre) k :=
    fun pre k => putsFree_iff (concurrently_related hw hps pre) k
  rw [and_iff_left (entries_kept hw hps hsound), present_iff_noneLost hw hps hdone]
  simp only [← hsteps]
  exact noneLost_iff hsound

end Requests

/-! ### Two creations, one slot -/

/-- Both requests look slot 0 up before either writes it; both are answered 201, and rule 1 is nowhere. -/
theorem interleaved_rule_lost : Reachable .fresh ∧
    (∀ p ∈ [denyHost, allowHost], hasWildcard p = true) ∧ ([denyHost, allowHost].map Policy.ruleID).Nodup ∧
    (∀ p ∈ [denyHost, allowHost], NotInstalled PolicyManager.fresh.maps p.ruleID) ∧
    AllCreated (concurrently .fresh [denyHost, allowHost] [0, 1, 0, 1, 0, 1]) ∧
    ¬ ((∀ p ∈ [denyHost, allowHost], ∃ i w, wildcardEntry p = .ok w ∧
        (concurrently .fresh [denyHost, allowHost] [0, 1, 0, 1, 0, 1]).2.maps.wildcardPolicyMap.lookup i = some w) ∧
      PolicyManager.fresh.maps.entries ⊆
        (concurrently .fresh [denyHost, allowHost] [0, 1, 0, 1, 0, 1]).2.maps.entries) := by
  refine ⟨.start none, by decide, by decide, ?_, by decide, ?_⟩
  · intro p hp
    exact notInstalled_empty (by revert p; decide)
  · rintro ⟨h, _⟩
    obtain ⟨i, w, hw, hi⟩ := h denyHost (by simp)
    have hid : w.ruleId = 1 := wildcardEntry_ruleId hw
    -- slot 0 is written twice
    have hfirst : PolicyMaps.empty.wildcardPolicyMap.put 0 (slotEntry denyHost) =
        some (concurrently .fresh [denyHost, allowHost] [0, 1, 0]).2.maps.wildcardPolicyMap := rfl
    have hsecond : (concurrently .fresh [denyHost, allowHost] [0, 1, 0]).2.maps.wildcardPolicyMap.put 0
        (slotEntry allowHost) =
        some (concurrently .fresh [denyHost, allowHost] [0, 1, 0, 1, 0, 1]).2.maps.wildcardPolicyMap := rfl
    rw [ArrayMap.lookup_put hsecond] at hi
    split at hi
    · cases hi
      exact absurd hid (by decide)
    · next hne =>
      rw [ArrayMap.lookup_put hfirst, if_neg hne, PolicyMaps.empty, ArrayMap.lookup_replicate] at hi
      split at hi <;> cases hi
      exact absurd hid (by decide)

/-- Two rules created beside rule 2, which has slot 0. -/
def sideBySide : List Policy := [denyHost, { allowHost with ruleID := 5 }]

/-- Both requests look slot 0 up, and the second one looks slot 1 up after the first one has written it. -/
def staggered : List Nat := [0, 1, 0, 0, 1, 0, 1, 1, 1]

theorem staggered_rules_kept :
    ((∀ p ∈ sideBySide, ∃ i w, wildcardEntry p = .ok w ∧
        (concurrently .others sideBySide staggered).2.maps.wildcardPolicyMap.lookup i = some w) ∧
      PolicyManager.others.maps.entries ⊆ (concurrently .others sideBySide staggered).2.maps.entries) ↔
    ∀ pre k post, staggered = pre ++ k :: post → PutsFree (concurrently .others sideBySide pre) k :=
  creates_kept_iff (by decide) (by decide)
    (fun p hp => (notInstalled_empty (by revert p; decide) : NotInstalled PolicyManager.fresh.maps p.ruleID).after
      (by revert p; decide)) (by decide +kernel)

/-- The rules take slots 1 and 2. -/
example : (concurrently .others sideBySide staggered).2.maps.wildcardPolicyMap.lookup 1 = some (slotEntry denyHost) ∧
    ((concurrently .others sideBySide staggered).2.maps.wildcardPolicyMap.lookup 2).map WildcardPolicy.ruleId = some 5 := by
  decide +kernel

end Microseg
