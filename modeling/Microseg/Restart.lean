import Microseg.Install
/-!
# Restarting on the persisted rules (`policy.go:58-80`, `storage.go:139-177`)

A fresh manager reads the rows back by priority (highest first) and rule id (lowest first) and adds them
to empty maps. The rows are the policies added before the restart (`storage_after`), so both managers
hold the same entries and differ only in the order of the wildcard array. That order matters for a tie:
the scan keeps the earliest of the matching entries of highest priority, which is the one added first
before the restart and the one with the smallest rule id after it (`restart_decision`).

Managers with a storage only (`NewManagerWithStorage`, `policy.go:49`); `cmd/main.go:66` builds one without.
-/
namespace Microseg
open Words KernelMap KeyedList SlotArray Atomic

/-! ## What is stored -/

/-- Successful calls with new rule ids append their policies to the table. -/
theorem storage_after (ps : List Policy) {pm : PolicyManager} {s : SQLiteStorage} (hs : pm.storage = some s)
    (hup : s.up = true) (hids : ((s.rows ++ ps).map Policy.ruleID).Nodup) (hok : AllAdded pm ps) :
    ∃ s', (pm.after ps).storage = some s' ∧ s'.rows = s.rows ++ ps ∧ s'.up = true := by
  induction ps generalizing pm s with
  | nil => exact ⟨s, hs, by simp, hup⟩
  | cons p ps ih =>
    obtain ⟨hp, hps⟩ := allAdded_cons.1 hok
    obtain ⟨m', hadd⟩ := addPolicy_ok_iff.1 hp
    have hnew : p.ruleID ∉ s.rows.map Policy.ruleID := by
      intro hmem
      rw [List.map_append, List.nodup_append] at hids
      exact hids.2.2 _ hmem p.ruleID (by simp) rfl
    have hstored : ((addPolicy p).run pm).1.storage = some (s.savePolicy p).1 := by
      rw [addPolicy_run, hadd]; simp [PolicyManager.stored, hs]
    have hrows : (s.savePolicy p).1.rows = s.rows ++ [p] := by
      simp [SQLiteStorage.savePolicy, hup, upsert_new hnew]
    have hup' : (s.savePolicy p).1.up = true := by simp [SQLiteStorage.savePolicy, hup]
    obtain ⟨s', h1, h2, h3⟩ := ih hstored hup' (by rw [hrows]; simpa using hids) hps
    exact ⟨s', by rw [after_cons, h1], by rw [h2, hrows]; simp, h3⟩

/-! ## What is restored -/

/-- Policies that parse and fit are all restored, behind those already there. -/
theorem installed_restoreAll (qs : List Policy) {pm : PolicyManager} {done : List Policy} (h : Installed pm.maps done)
    (hd : Distinct (done ++ qs)) (hparsed : ∀ q ∈ qs, Nonempty (Parsed q)) (hfit : Fits (done ++ qs)) :
    Installed ((restoreAll qs).run pm).1.maps (done ++ qs) := by
  induction qs generalizing pm done with
  | nil => simpa [restoreAll] using h
  | cons q qs ih =>
    rw [← List.singleton_append, ← List.append_assoc] at hd hfit ⊢
    obtain ⟨m', hadd, hnext⟩ := h.exists_next hd (hparsed q (by simp)) hfit
    have hrun : ((addPolicyToMap q).run pm).1.maps = m' := by
      rw [addPolicyToMap_run, hadd]; rfl
    have hm' : Installed ((addPolicyToMap q).run pm).1.maps (done ++ [q]) := hrun ▸ hnext
    simp only [List.singleton_append, restoreAll, Prog.run_bind]
    exact ih hm' hd (fun r hr => hparsed r (by simp [hr])) hfit

theorem loadPersisted_run {pm : PolicyManager} {s : SQLiteStorage} (hs : pm.storage = some s) (hup : s.up = true) :
    loadPersisted.run pm = (((restoreAll (s.rows.insertionSort SQLiteStorage.Before)).run pm).1, .ok ()) := by
  simp [loadPersisted, hs, SQLiteStorage.loadPolicies, hup]

/-- The manager a restart leaves: empty maps, the old storage, and `LoadPersisted`. -/
def PolicyManager.restarted (pm : PolicyManager) : PolicyManager := (loadPersisted.run ⟨.empty, pm.storage⟩).1

/-- **A restart** installs the rows of the storage in the order of the query. -/
theorem installed_restarted {ps : List Policy} {pm : PolicyManager} (h : Installed pm.maps ps) (hd : Distinct ps)
    {s : SQLiteStorage} (hs : pm.storage = some s) (hup : s.up = true) (hrows : s.rows = ps) :
    Installed pm.restarted.maps (ps.insertionSort SQLiteStorage.Before) := by
  have hperm := List.perm_insertionSort SQLiteStorage.Before ps
  have hfit : Fits ps := ⟨h.size_eq hd ▸ pm.maps.policyMap.card_le, h.wildcard.length_le⟩
  have hs0 : PolicyManager.storage ⟨.empty, pm.storage⟩ = some s := hs
  have hempty : Installed (PolicyManager.maps ⟨.empty, pm.storage⟩) [] := installed_empty
  rw [PolicyManager.restarted, loadPersisted_run hs0 hup, hrows]
  exact installed_restoreAll (ps.insertionSort SQLiteStorage.Before) hempty (hd.perm hperm.symm)
    (fun q hq => h.parsed q (hperm.mem_iff.1 hq)) (hfit.perm hperm.symm)

/-! ## Ties -/

/-- The matching entries of highest priority. -/
def Top (l : List WildcardPolicy) (key : FlowKey) (w : WildcardPolicy) : Prop :=
  w ∈ l ∧ matchesWildcard key w = true ∧
    ∀ w' ∈ l, matchesWildcard key w' = true → w'.priority.toNat ≤ w.priority.toNat

theorem top_perm {l l' : List WildcardPolicy} (h : l.Perm l') {key : FlowKey} {w : WildcardPolicy} :
    Top l key w ↔ Top l' key w := by
  simp only [Top, h.mem_iff]

/-- The scan's winner is one of the top entries, the earliest. -/
theorem argmax_top {l : List WildcardPolicy} {key : FlowKey} {b : WildcardPolicy} :
    (l.filter (matchesWildcard key)).argmax (fun w => w.priority.toNat) = some b ↔
      Top l key b ∧ ∀ w, Top l key w →
        (l.filter (matchesWildcard key)).idxOf b ≤ (l.filter (matchesWildcard key)).idxOf w := by
  simp only [List.argmax_eq_some_iff, List.mem_filter, Top]
  constructor
  · rintro ⟨⟨hm, hk⟩, hle, hfirst⟩
    exact ⟨⟨hm, hk, fun w' h h' => hle w' ⟨h, h'⟩⟩, fun w ⟨h, h', h''⟩ => hfirst w ⟨h, h'⟩ (h'' b hm hk)⟩
  · rintro ⟨⟨hm, hk, hle⟩, hfirst⟩
    refine ⟨⟨hm, hk⟩, fun w ⟨h, h'⟩ => hle w h h', fun w ⟨h, h'⟩ hge => hfirst w ⟨h, h', fun w' hw hw' => ?_⟩⟩
    exact (hle w' hw hw').trans hge

theorem wildcards_sorted {ps : List Policy} (h : ps.Pairwise SQLiteStorage.Before) :
    (wildcards ps).Pairwise fun w w' => w.priority = w'.priority → w.ruleId.toNat ≤ w'.ruleId.toNat := by
  refine List.Pairwise.filterMap wildcardOf (fun p q hpq w hw w' hw' hprio => ?_) h
  rw [wildcardOf_ruleId hw, wildcardOf_ruleId hw']
  rcases hpq with hlt | ⟨_, hle⟩
  · rw [← wildcardOf_priority hw, ← wildcardOf_priority hw', hprio] at hlt
    exact absurd hlt (Nat.lt_irrefl _)
  · exact hle

/-- In the order of the query the earliest top entry is the one with the smallest rule id. -/
theorem argmax_sorted {l : List WildcardPolicy} {key : FlowKey} {w : WildcardPolicy}
    (hsort : l.Pairwise fun w w' => w.priority = w'.priority → w.ruleId.toNat ≤ w'.ruleId.toNat)
    (hids : (l.map WildcardPolicy.ruleId).Nodup) (hw : Top l key w)
    (hmin : ∀ w', Top l key w' → w.ruleId.toNat ≤ w'.ruleId.toNat) :
    (l.filter (matchesWildcard key)).argmax (fun w => w.priority.toNat) = some w := by
  cases hb : (l.filter (matchesWildcard key)).argmax fun w => w.priority.toNat with
  | none =>
    rw [List.argmax_eq_none, List.filter_eq_nil_iff] at hb
    exact absurd hw.2.1 (hb w hw.1)
  | some b =>
    obtain ⟨hbt, hfirst⟩ := argmax_top.1 hb
    have hprio : b.priority = w.priority :=
      BitVec.eq_of_toNat_eq (Nat.le_antisymm (hw.2.2 b hbt.1 hbt.2.1) (hbt.2.2 w hw.1 hw.2.1))
    have hbl : b ∈ l.filter (matchesWildcard key) := List.mem_filter.2 ⟨hbt.1, hbt.2.1⟩
    have hwl : w ∈ l.filter (matchesWildcard key) := List.mem_filter.2 ⟨hw.1, hw.2.1⟩
    have hle : b.ruleId.toNat ≤ w.ruleId.toNat := by
      rcases Nat.eq_or_lt_of_le (hfirst w hw) with he | hlt
      · rw [(List.idxOf_inj hbl).1 he]
      · have hs := List.pairwise_iff_getElem.1 (hsort.filter (matchesWildcard key)) _ _ (List.idxOf_lt_length_of_mem hbl)
          (List.idxOf_lt_length_of_mem hwl) hlt
        rw [List.getElem_idxOf, List.getElem_idxOf] at hs
        exact hs hprio
    have hid : b.ruleId = w.ruleId := BitVec.eq_of_toNat_eq (Nat.le_antisymm hle (hmin b hbt))
    exact congrArg some (List.inj_on_of_nodup_map hids hbt.1 hw.1 hid)

/-- In maps that hold policies in the order of the query, a tie goes to the smallest rule id. -/
theorem Installed.decision_sorted {m : PolicyMaps} {ps : List Policy} (h : Installed m ps)
    (hsort : ps.Pairwise SQLiteStorage.Before) (hlen : (wildcards ps).length ≤ scanLimit) {key : FlowKey}
    (hx : key ∉ (exacts ps).map Prod.fst) {w : WildcardPolicy} (hw : Top (wildcards ps) key w)
    (hmin : ∀ w', Top (wildcards ps) key w' → w.ruleId.toNat ≤ w'.ruleId.toNat) :
    decision m key = (w.action, w.ruleId) := by
  rw [h.decision_scan hlen hx, argmax_sorted (wildcards_sorted hsort) h.wildcard.nodup hw hmin, answer]

/-- Maps that hold the same policies in two orders decide alike where an exact entry has the key, and
where nothing matches. -/
theorem Installed.decision_perm {m m' : PolicyMaps} {ps ps' : List Policy} (h : Installed m ps) (h' : Installed m' ps')
    (hp : ps.Perm ps') (hlen : (wildcards ps).length ≤ scanLimit) {key : FlowKey}
    (hk : key ∈ (exacts ps).map Prod.fst ∨ ∀ w, ¬ Top (wildcards ps) key w) : decision m' key = decision m key := by
  by_cases hx : key ∈ (exacts ps).map Prod.fst
  · obtain ⟨⟨k, v⟩, hkv, rfl⟩ := List.mem_map.1 hx
    rw [h.decision_exact hkv, h'.decision_exact ((exacts_perm hp).mem_iff.1 hkv)]
  · have hx' : key ∉ (exacts ps').map Prod.fst := fun hmem => hx (((exacts_perm hp).map Prod.fst).mem_iff.2 hmem)
    have hlen' : (wildcards ps').length ≤ scanLimit := (wildcards_perm hp).length_eq ▸ hlen
    have hnone := hk.resolve_left hx
    have hno : (wildcards ps).filter (matchesWildcard key) = [] := by
      cases hb : ((wildcards ps).filter (matchesWildcard key)).argmax fun w => w.priority.toNat with
      | none => exact List.argmax_eq_none.1 hb
      | some b => exact absurd (argmax_top.1 hb).1 (hnone b)
    have hno' : (wildcards ps').filter (matchesWildcard key) = [] :=
      List.Perm.nil_eq (hno ▸ (wildcards_perm hp).filter (matchesWildcard key)) |>.symm
    rw [h.decision_scan hlen hx, h'.decision_scan hlen' hx', hno, hno']

/-- **Restart preserves enforcement up to ties**: after successful calls with distinct non-zero rule ids and
distinct exact keys, with at most 100 wildcard policies, a restart changes no decision that is made by an
exact entry or by a single matching wildcard entry of highest priority; among several such entries it
picks the one with the smallest rule id. -/
theorem restart_decision {pm : PolicyManager} (hm : pm.maps = .empty) (hs : pm.storage = some .empty)
    {ps : List Policy} (hd : Distinct ps) (hok : AllAdded pm ps) (hlen : ps.countP hasWildcard ≤ 100) (key : FlowKey) :
    (((pm.after ps).maps.policyMap.lookup key).isSome ∨
        (∀ w w', Top (wildcards ps) key w → Top (wildcards ps) key w' → w = w') →
      decision (pm.after ps).restarted.maps key = decision (pm.after ps).maps key) ∧
    ∀ w, (pm.after ps).maps.policyMap.lookup key = none → Top (wildcards ps) key w →
      (∀ w', Top (wildcards ps) key w' → w.ruleId.toNat ≤ w'.ruleId.toNat) →
      decision (pm.after ps).restarted.maps key = (w.action, w.ruleId) := by
  have hempty : Installed pm.maps [] := hm ▸ installed_empty
  have h : Installed (pm.after ps).maps ps := installed_after ps hempty hd hok
  obtain ⟨s, hs', hrows, hup⟩ := storage_after ps hs rfl (by simpa [SQLiteStorage.empty] using hd.ruleIDs) hok
  have hr := installed_restarted h hd hs' hup hrows
  have hperm := List.perm_insertionSort SQLiteStorage.Before ps
  have hle : (wildcards ps).length ≤ scanLimit := (length_wildcards_le ps).trans hlen
  have hle' : (wildcards (ps.insertionSort SQLiteStorage.Before)).length ≤ scanLimit :=
    (wildcards_perm hperm).length_eq.trans_le hle
  have hmin : ∀ w, (pm.after ps).maps.policyMap.lookup key = none → Top (wildcards ps) key w →
      (∀ w', Top (wildcards ps) key w' → w.ruleId.toNat ≤ w'.ruleId.toNat) →
      decision (pm.after ps).restarted.maps key = (w.action, w.ruleId) := by
    intro w hx hw hwmin
    have hx' : key ∉ (exacts (ps.insertionSort SQLiteStorage.Before)).map Prod.fst := fun hmem =>
      h.lookup_eq_none.1 hx (((exacts_perm hperm).map Prod.fst).mem_iff.1 hmem)
    exact hr.decision_sorted (List.pairwise_insertionSort SQLiteStorage.Before ps) hle' hx'
      ((top_perm (wildcards_perm hperm)).2 hw) fun w' hw' => hwmin w' ((top_perm (wildcards_perm hperm)).1 hw')
  refine ⟨fun hcase => ?_, hmin⟩
  by_cases hk : key ∈ (exacts ps).map Prod.fst
  · exact h.decision_perm hr hperm.symm hle (Or.inl hk)
  · have hx := h.lookup_eq_none.2 hk
    have huniq := hcase.resolve_left (by rw [hx]; exact Bool.false_ne_true)
    cases hb : ((wildcards ps).filter (matchesWildcard key)).argmax fun w => w.priority.toNat with
    | some b =>
      have hbt := (argmax_top.1 hb).1
      rw [h.decision_scan hle hk, hb]
      exact hmin b hx hbt fun w' hw' => (huniq b w' hbt hw') ▸ Nat.le_refl _
    | none =>
      refine h.decision_perm hr hperm.symm hle (Or.inr fun w hw => ?_)
      have hnil := List.filter_eq_nil_iff.1 (List.argmax_eq_none.1 hb)
      exact hnil w hw.1 hw.2.1

/-! ### Two rules of one priority -/

/-- A manager with an empty database. -/
def PolicyManager.persistent : PolicyManager := ⟨.empty, some .empty⟩

theorem allowHost_denyHost_distinct : Distinct [allowHost, denyHost] := ⟨by decide, by decide, by decide⟩

theorem allowHost_denyHost_added : AllAdded .persistent [allowHost, denyHost] :=
  (by decide : ∀ r ∈ ((addPolicies [allowHost, denyHost]).run .persistent).2, r = .ok ())

/-- Rule 2, added first, decides before the restart; rule 1 decides after it. -/
theorem tie_changes_winner : Distinct [allowHost, denyHost] ∧ AllAdded .persistent [allowHost, denyHost] ∧
    [allowHost, denyHost].countP hasWildcard ≤ 100 ∧
    decision (PolicyManager.persistent.after [allowHost, denyHost]).maps toPort443.key = (PolicyAction.allow.code, 2) ∧
    decision (PolicyManager.persistent.after [allowHost, denyHost]).restarted.maps toPort443.key =
      (PolicyAction.deny.code, 1) :=
  ⟨allowHost_denyHost_distinct, allowHost_denyHost_added, by decide, by decide +kernel, by decide +kernel⟩

/-- The two rules again, for the connection that both match. -/
theorem restart_tie_decided :
    (((PolicyManager.persistent.after [allowHost, denyHost]).maps.policyMap.lookup toPort443.key).isSome ∨
        (∀ w w', Top (wildcards [allowHost, denyHost]) toPort443.key w →
          Top (wildcards [allowHost, denyHost]) toPort443.key w' → w = w') →
      decision (PolicyManager.persistent.after [allowHost, denyHost]).restarted.maps toPort443.key =
        decision (PolicyManager.persistent.after [allowHost, denyHost]).maps toPort443.key) ∧
    ∀ w, (PolicyManager.persistent.after [allowHost, denyHost]).maps.policyMap.lookup toPort443.key = none →
      Top (wildcards [allowHost, denyHost]) toPort443.key w →
      (∀ w', Top (wildcards [allowHost, denyHost]) toPort443.key w' → w.ruleId.toNat ≤ w'.ruleId.toNat) →
      decision (PolicyManager.persistent.after [allowHost, denyHost]).restarted.maps toPort443.key = (w.action, w.ruleId) :=
  restart_decision rfl rfl allowHost_denyHost_distinct allowHost_denyHost_added (by decide) toPort443.key

end Microseg
