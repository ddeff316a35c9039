import Microseg.Crash
import Microseg.RuleStore
/-!
# Rules that outlive the agent (`policy.go:49-98`, `:203-254`, `storage.go:82-177`)

A manager with a storage writes each rule that it takes to the database, and a new manager reads the rows back into
empty maps (`LoadPersisted`). While the database works, its rows are the rules of the store (`Recorded`), however the
client wrote their addresses; so the maps after a restart are those before it but for hit counts
(`represents_restarted`), and a client of the kind of `api_refines` cannot tell that the agent was restarted
(`store_durable`).

The agent of `cmd/main.go:66` builds its manager without a storage (`NewManager`, `policy.go:40`); the end-to-end tests
build it with one. What is proved here is about the second kind.

| here | there |
| --- | --- |
| `ServiceEvent.restart` | `NewManagerWithStorage` (`policy.go:49`) and `LoadPersisted` (`:58`) on new maps |
-/
namespace Microseg
open Words KernelMap KeyedList Atomic Runs Projection

/-! ## The rows of the store's rules -/

/-- The rows are rules of requests, and show the rules of the store. -/
structure Recorded (ps rows : List Policy) (s : RuleStore) : Prop where
  asked : ∀ row ∈ rows, row ∈ ps
  shown : ∀ row ∈ rows, ∃ t : Parsed row, s.rules.lookup row.ruleID = some (listedPolicy t.key t.value)
  stored : ∀ r q, s.rules.lookup r = some q → ∃ row ∈ rows, row.ruleID = r

/-- The database works and has a row for each rule of the store. -/
def Records (ps : List Policy) (d : Option SQLiteStorage) (s : RuleStore) : Prop :=
  ∃ d', d = some d' ∧ d'.up = true ∧ Recorded ps d'.rows s

variable {ps : List Policy} {s : RuleStore}

theorem recorded_empty : Recorded ps [] .empty where
  asked row hrow := by cases hrow
  shown row hrow := by cases hrow
  stored r q hq := by
    rw [show RuleStore.empty.rules.lookup r = none from HashMap.lookup_empty r] at hq
    cases hq

theorem recorded_save {d : SQLiteStorage} {s' : RuleStore} {p : Policy} (hp : p ∈ ps) (t : Parsed p)
    (hput : s.put (listedPolicy t.key t.value) = some s') (h : Recorded ps d.rows s) :
    Recorded ps (upsert Policy.ruleID p d.rows) s' where
  asked row hrow := by
    rcases (mem_upsert d.nodup).1 hrow with rfl | ⟨hrow, _⟩
    · exact hp
    · exact h.asked row hrow
  shown row hrow := by
    rcases (mem_upsert d.nodup).1 hrow with rfl | ⟨hrow, hne⟩
    · exact ⟨t, (RuleStore.lookup_put hput _).trans (if_pos rfl)⟩
    · obtain ⟨t', ht'⟩ := h.shown row hrow
      exact ⟨t', ((RuleStore.lookup_put hput _).trans (if_neg hne)).trans ht'⟩
  stored r q hq := by
    rw [RuleStore.lookup_put hput] at hq
    split at hq
    · next hr => exact ⟨p, (mem_upsert d.nodup).2 (Or.inl rfl), hr.symm⟩
    · next hr =>
      obtain ⟨row, hrow, hid⟩ := h.stored r q hq
      exact ⟨row, (mem_upsert d.nodup).2 (Or.inr ⟨hrow, fun hsame => hr (hid.symm.trans hsame)⟩), hid⟩

theorem recorded_delete {rows : List Policy} (h : Recorded ps rows s) (r : U32) :
    Recorded ps (rows.filter fun row => row.ruleID ≠ r) (s.erase r) where
  asked row hrow := h.asked row (List.mem_filter.1 hrow).1
  shown row hrow := by
    obtain ⟨hrow, hne⟩ := List.mem_filter.1 hrow
    obtain ⟨t, ht⟩ := h.shown row hrow
    exact ⟨t, ((HashMap.lookup_erase _ _ _).trans (if_neg (of_decide_eq_true hne))).trans ht⟩
  stored r' q hq := by
    have hlook := (HashMap.lookup_erase s.rules r r').symm.trans hq
    split at hlook
    · cases hlook
    · next hne =>
      obtain ⟨row, hrow, hid⟩ := h.stored r' q hlook
      exact ⟨row, List.mem_filter.2 ⟨hrow, decide_eq_true (hid ▸ hne)⟩, hid⟩

/-- **A working database follows the store.** -/
theorem records_follow (ps : List Policy) : Follows ps (Records ps) where
  save hp t hput := by
    rintro ⟨d, rfl, hup, h⟩
    refine ⟨(d.savePolicy _).1, rfl, ?_⟩
    rw [SQLiteStorage.savePolicy, if_pos hup]
    exact ⟨hup, recorded_save hp t hput h⟩
  delete r := by
    rintro ⟨d, rfl, hup, h⟩
    refine ⟨(d.deletePolicy r).1, rfl, ?_⟩
    rw [SQLiteStorage.deletePolicy, if_pos hup]
    exact ⟨hup, recorded_delete h r⟩

/-! ## A restart -/

/-- The rows are no more than the rules. -/
theorem rows_length_le {d : SQLiteStorage} (h : Recorded ps d.rows s) : d.rows.length ≤ maxEntriesPolicy := by
  have hsub : (d.rows.map Policy.ruleID).toFinset ⊆ s.rules.entries.keys := by
    intro r hr
    obtain ⟨row, hrow, rfl⟩ := List.mem_map.1 (List.mem_toFinset.1 hr)
    obtain ⟨t, hlook⟩ := h.shown row hrow
    exact (HashMap.mem_keys_iff _ _).2 (by rw [hlook]; rfl)
  calc d.rows.length = (d.rows.map Policy.ruleID).toFinset.card := by
        rw [List.toFinset_card_of_nodup d.nodup, List.length_map]
    _ ≤ s.rules.entries.keys.card := Finset.card_le_card hsub
    _ ≤ maxEntriesPolicy := s.rules.card_le

section Restart

variable {tuple : U32 → PolicyKey} (ht : Assigns ps tuple) {d : SQLiteStorage} (h : Recorded ps d.rows s)

include ht h

/-- The rows' entries, under the tuples of their ids. -/
theorem exacts_rows {qs : List Policy} (hqs : ∀ q ∈ qs, q ∈ d.rows) :
    (exacts qs).map Prod.fst = (qs.map Policy.ruleID).map tuple := by
  rw [exacts, List.map_filterMap, List.map_map, ← List.filterMap_eq_map]
  refine List.filterMap_congr fun q hq => ?_
  obtain ⟨t, _⟩ := h.shown q (hqs q hq)
  have hasked := h.asked q (hqs q hq)
  rw [exactOf_parsed t, if_neg (by rw [ht.exact q hasked]; exact Bool.false_ne_true)]
  exact congrArg some (ht.key q hasked _ t.policyKey_eq).symm

theorem wildcards_rows {qs : List Policy} (hqs : ∀ q ∈ qs, q ∈ d.rows) : wildcards qs = [] := by
  rw [wildcards, List.filterMap_eq_nil_iff]
  intro q hq
  obtain ⟨t, _⟩ := h.shown q (hqs q hq)
  rw [wildcardOf_parsed t, if_neg (by rw [ht.exact q (h.asked q (hqs q hq))]; exact Bool.false_ne_true)]

/-- The rows of a working database are all restored. -/
theorem installed_rows {pm : PolicyManager} (hs : pm.storage = some d) (hup : d.up = true) :
    Installed pm.restarted.maps (d.rows.insertionSort SQLiteStorage.Before) := by
  have hperm := List.perm_insertionSort SQLiteStorage.Before d.rows
  have hrows : ∀ q ∈ d.rows.insertionSort SQLiteStorage.Before, q ∈ d.rows := fun q hq => hperm.mem_iff.1 hq
  have hids : ((d.rows.insertionSort SQLiteStorage.Before).map Policy.ruleID).Nodup :=
    (hperm.map Policy.ruleID).nodup_iff.2 d.nodup
  have hdistinct : Distinct (d.rows.insertionSort SQLiteStorage.Before) := by
    refine ⟨hids, fun q hq => (validate_eq_nil (ht.valid q (h.asked q (hrows q hq)))).1, ?_⟩
    rw [exacts_rows ht h hrows]
    exact hids.map ht.injective
  have hfits : Fits (d.rows.insertionSort SQLiteStorage.Before) := by
    constructor
    · rw [← List.length_map Prod.fst, exacts_rows ht h hrows, List.length_map, List.length_map, hperm.length_eq]
      exact rows_length_le h
    · rw [wildcards_rows ht h hrows]
      exact Nat.zero_le _
  have hstored : PolicyManager.storage ⟨.empty, pm.storage⟩ = some d := hs
  have hempty : Installed (PolicyManager.maps ⟨.empty, pm.storage⟩) [] := installed_empty
  rw [PolicyManager.restarted, loadPersisted_run hstored hup]
  refine installed_restoreAll _ hempty hdistinct (fun q hq => ?_) hfits
  obtain ⟨t, _⟩ := h.shown q (hrows q hq)
  exact ⟨t⟩

end Restart

/-- **A restart** leaves the maps that the store has, whatever they were before. -/
theorem represents_restarted {tuple : U32 → PolicyKey} (ht : Assigns ps tuple) {pm : PolicyManager}
    (h : Records ps pm.storage s) :
    Represents tuple PolicyMaps.empty.wildcardPolicyMap (Records ps) pm.restarted s := by
  obtain ⟨d, hs, hup, hrec⟩ := h
  have hinst := installed_rows ht hrec hs hup
  have hperm := List.perm_insertionSort SQLiteStorage.Before d.rows
  have hentry : ∀ k v, pm.restarted.maps.policyMap.lookup k = some v ↔
      ∃ row ∈ d.rows, ∃ t : Parsed row, k = t.key ∧ v = t.value := by
    intro k v
    rw [hinst.exact, exacts, List.mem_filterMap]
    have hexact : ∀ row ∈ d.rows, ∀ t : Parsed row, exactOf row = some (t.key, t.value) := fun row hrow t => by
      rw [exactOf_parsed t, if_neg (by rw [ht.exact row (hrec.asked row hrow)]; exact Bool.false_ne_true)]
    constructor
    · rintro ⟨row, hrow, hx⟩
      have hrow := hperm.mem_iff.1 hrow
      obtain ⟨t, _⟩ := hrec.shown row hrow
      rw [hexact row hrow t] at hx
      cases hx
      exact ⟨row, hrow, t, rfl, rfl⟩
    · rintro ⟨row, hrow, t, rfl, rfl⟩
      exact ⟨row, hperm.mem_iff.2 hrow, hexact row hrow t⟩
  have htuple : ∀ row ∈ d.rows, ∀ t : Parsed row, tuple row.ruleID = t.key := fun row hrow t =>
    ht.key row (hrec.asked row hrow) _ t.policyKey_eq
  refine ⟨encodes_of_lookup ht.injective (fun r => ?_) fun k hk => ?_, ?_, ?_⟩
  · cases hr : s.rules.lookup r with
    | none =>
      cases hv : pm.restarted.maps.policyMap.lookup (tuple r) with
      | none => exact .none
      | some v =>
        obtain ⟨row, hrow, t, hk, _⟩ := (hentry _ v).1 hv
        have hid : r = row.ruleID := ht.injective (hk.trans (htuple row hrow t).symm)
        obtain ⟨_, hshown⟩ := hrec.shown row hrow
        rw [← hid, hr] at hshown
        cases hshown
    | some q =>
      obtain ⟨row, hrow, rfl⟩ := hrec.stored r q hr
      obtain ⟨t, hshown⟩ := hrec.shown row hrow
      rw [(hentry _ t.value).2 ⟨row, hrow, t, htuple row hrow t, rfl⟩]
      rw [hr] at hshown
      cases hshown
      exact .some (shows_parsed t (htuple row hrow t))
  · obtain ⟨v, hv⟩ := Option.isSome_iff_exists.1 hk
    obtain ⟨row, hrow, t, rfl, _⟩ := (hentry k v).1 hv
    exact ⟨row.ruleID, htuple row hrow t⟩
  · have hnone : wildcards (d.rows.insertionSort SQLiteStorage.Before) = [] :=
      wildcards_rows ht hrec fun q hq => hperm.mem_iff.1 hq
    have hholds := hinst.wildcard
    rw [hnone] at hholds
    exact hholds.eq holds_empty
  · have hkept := (loadPersisted_keeps.run ⟨.empty, pm.storage⟩).1
    exact ⟨d, hkept.trans hs, hup, hrec⟩

/-! ## The service -/

/-- What happens to an agent with an API and a database. -/
inductive ServiceEvent where
  | api (e : ApiEvent)
  /-- The agent dies between two requests, and another takes its place. -/
  | restart

/-- New maps, and the rules of the database. -/
def Sys.restarted (s : Sys) : Sys :=
  ⟨⟨.empty, s.manager.restarted.maps, fun _ _ => 0, []⟩, s.manager.restarted.storage, []⟩

namespace ServiceEvent

variable (iter : Iteration PolicyKey PolicyValue maxEntriesPolicy)

def step (s : Sys) : ServiceEvent → Sys
  | .api e => e.step iter s
  | .restart => s.restarted

def responses (s : Sys) : ServiceEvent → List Response
  | .api e => e.responses iter s
  | .restart => []

/-- The event as a service without restarts has it. -/
def api? : ServiceEvent → Option ApiEvent
  | .api e => some e
  | .restart => none

end ServiceEvent

/-- The service and the store, with the rules in the database. -/
def Keeps (ps : List Policy) (s : Sys) (store : RuleStore) : Prop :=
  Represents (tupleOf ps) PolicyMaps.empty.wildcardPolicyMap (Records ps) s.manager store

/-- The event asks for these rules only, and leaves the database working. -/
def ServiceEvent.Within (ps : List Policy) (e : ServiceEvent) : Prop :=
  e ≠ .api (.database false) ∧ ∀ e', e.api? = some e' → ∀ p, e'.rule = some p → p ∈ ps

section Step

variable (iter : Iteration PolicyKey PolicyValue maxEntriesPolicy) (ht : Assigns ps (tupleOf ps)) {s : Sys}
  {store : RuleStore} (h : Keeps ps s store)

include ht h

theorem keeps_live (rulesIter : Iteration U32 Policy maxEntriesPolicy) {e : ServiceEvent} (he : e.Within ps)
    {e' : ApiEvent} (hapi : e.api? = some e') : Keeps ps (e.step iter s) (store.step rulesIter e') ∧
      List.Forall₂ Response.Alike (e.responses iter s) (store.responses rulesIter e') := by
  cases e with
  | restart => cases hapi
  | api e =>
    cases hapi
    refine event_refines iter rulesIter ht (records_follow ps) h (he.2 _ rfl) fun up hdb => ?_
    obtain ⟨d, hd, _, hrec⟩ := h.storage
    cases up with
    | false => exact absurd (congrArg ServiceEvent.api hdb) he.1
    | true => exact ⟨{ d with up := true }, congrArg (Option.map _) hd, rfl, hrec⟩

theorem keeps_restart {e : ServiceEvent} (hapi : e.api? = none) :
    Keeps ps (e.step iter s) store ∧ e.responses iter s = [] := by
  cases e with
  | api e => cases hapi
  | restart => exact ⟨represents_restarted ht h.storage, rfl⟩

end Step

/-- The agent is restarted with both rules, and again after one is deleted. -/
def restartedTwice : List ServiceEvent :=
  (twoRules.take 3).map .api ++ [.restart] ++ [.api (.request (.delete "2")), .restart, .api (.request .list),
    .api (.packet ⟨1, 2, true, true⟩ packet443)]

end Microseg
