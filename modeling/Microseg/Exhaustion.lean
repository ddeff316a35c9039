import Mathlib.Data.BitVec
import Microseg.Traffic
/-!
# Enforcement under resource exhaustion (`tc_microsegment.bpf.c:208-320`)

Sessions are a cache of decisions, and events a report. A run with fixed policies that starts without
sessions keeps every cached action equal to the decision of the policies (`Cached`), so whatever inserts
fail and sessions are evicted, each packet gets the verdict of the lookup (`verdicts_eq`) and moves the
same enforcement counters (`run_counter`). The ring buffer has no influence on anything but the events.
-/
namespace Microseg
open Words KernelMap Runs

/-! ## What a run shows -/

/-- The event leaves the policies alone. -/
def BpfEvent.Quiet (e : BpfEvent) : Prop := ∀ maps, e ≠ .policies maps

/-- The packets of a run, with the CPU that processed each. -/
def packets : List BpfEvent → List (Nat × SkBuff)
  | [] => []
  | .packet x skb :: es => (x.cpu, skb) :: packets es
  | _ :: es => packets es

/-- The verdicts of a run, packet by packet. -/
def verdicts : Bpf → List BpfEvent → List Int
  | _, [] => []
  | s, .packet x skb :: es => (tcMicrosegmentFilter x skb s).2 :: verdicts (s.step (.packet x skb)) es
  | s, e :: es => verdicts (s.step e) es

/-- The verdict that the lookup gives a packet: "Pass non-IP packets" (`:255`), else the policies'. -/
def lookupVerdict (s : Bpf) (p : Nat × SkBuff) : Int :=
  match (extractFlowKey p.2).join with
  | none => tcActOk
  | some key => verdict (lookupPolicyAction p.1 key s).2.1

/-- `STATS_TOTAL_PACKETS`, `STATS_ALLOWED_PACKETS` and `STATS_DENIED_PACKETS`. -/
def StatsKey.IsVerdict (k : StatsKey) : Prop := k = .totalPackets ∨ k = .allowedPackets ∨ k = .deniedPackets

/-- The event, whether or not the ring buffer has room. -/
def BpfEvent.anyReserve : BpfEvent → BpfEvent
  | .packet x skb => .packet { x with reserveOk := true } skb
  | e => e

/-- The event submits the record. -/
def Submits (s : Bpf) (e : BpfEvent) (r : FlowEvent) : Prop := (s.step e).flowEvents = s.flowEvents ++ [r]

/-! ## The cache -/

/-- The policies decide as `m₀` does, and so do the sessions. -/
structure Cached (m₀ : PolicyMaps) (s : Bpf) : Prop where
  policies : ∀ key, decision s.maps key = decision m₀ key
  sessions : ∀ key v, s.sessionMap.lookup key = some v → v.policyAction = (decision m₀ key).1

theorem cached_step {m₀ : PolicyMaps} {s : Bpf} (h : Cached m₀ s) {e : BpfEvent} (he : e.Quiet) :
    Cached m₀ (s.step e) := by
  cases e with
  | policies maps => exact absurd rfl (he maps)
  | evict k =>
    refine ⟨h.policies, fun key v hv => ?_⟩
    simp only [Bpf.step, HashMap.lookup_erase] at hv
    split at hv
    · cases hv
    · exact h.sessions key v hv
  | packet x skb =>
    refine ⟨fun key => ?_, fun key v hv => ?_⟩
    · rw [← h.policies]
      exact (decision_congr (sameButHits_filter x skb s) key).symm
    · rcases filter_cases x skb s with ⟨_, e⟩ | ⟨k, v₀, _, hv₀, e⟩ | ⟨k, _, _, e⟩ <;> rw [Bpf.step, e] at hv
      · exact h.sessions key v hv
      · rw [fastPath_sessionMap, HashMap.lookup_modify] at hv
        split at hv
        · next hk =>
          rw [hv₀] at hv
          cases hv
          rw [hk]
          exact h.sessions k v₀ hv₀
        · exact h.sessions key v hv
      · rw [slowPath_sessionMap] at hv
        cases hi : inserted x skb k s with
        | none =>
          rw [hi] at hv
          exact h.sessions key v hv
        | some m =>
          rw [hi, Option.getD_some, inserted_eq_some hi] at hv
          split at hv
          · next hk =>
            cases hv
            rw [hk, ← h.policies]; rfl
          · exact h.sessions key v hv

/-- A cached decision is the decision. -/
theorem Cached.enforced_eq {m₀ : PolicyMaps} {s : Bpf} (h : Cached m₀ s) (key : FlowKey) :
    enforced s key = (decision m₀ key).1 := by
  unfold enforced
  split
  · next v hv => exact h.sessions key v hv
  · rw [h.policies]

theorem Cached.verdict_eq {s₀ s : Bpf} (h : Cached s₀.maps s) (x : Exec) (skb : SkBuff) :
    (tcMicrosegmentFilter x skb s).2 = lookupVerdict s₀ (x.cpu, skb) := by
  rw [filter_verdict_of_key, lookupVerdict]
  cases extractFlowKey skb with
  | none => rfl
  | some o =>
    cases o with
    | none => rfl
    | some key => simp only [Option.join_some, lookupPolicyAction_eq, h.enforced_eq]

theorem verdicts_eq {s₀ s : Bpf} (h : Cached s₀.maps s) {es : List BpfEvent} (hes : ∀ e ∈ es, e.Quiet) :
    verdicts s es = (packets es).map (lookupVerdict s₀) := by
  induction es generalizing s with
  | nil => rfl
  | cons e es ih =>
    have hnext := cached_step h (hes e (by simp))
    have ih := ih hnext fun e' he' => hes e' (by simp [he'])
    cases e with
    | packet x skb => rw [verdicts, packets, List.map_cons, h.verdict_eq, ih]
    | evict k => exact ih
    | policies maps => exact ih

/-! ## The enforcement counters -/

/-- What a packet adds to a counter of CPU `c`. -/
def share (m₀ : PolicyMaps) (c : Nat) (k : StatsKey) (p : Nat × SkBuff) : Nat :=
  match (extractFlowKey p.2).join with
  | none => 0
  | some key => if p.1 = c then fastGains (decision m₀ key).1 k else 0

theorem slowGains_of_isVerdict {k : StatsKey} (h : k.IsVerdict) (a : U8) (hit new : Bool) :
    slowGains a hit new k = fastGains a k := by
  rcases h with rfl | rfl | rfl <;> rfl

theorem step_counter {m₀ : PolicyMaps} {s : Bpf} (h : Cached m₀ s) (x : Exec) (skb : SkBuff) (c : Nat) {k : StatsKey}
    (hk : k.IsVerdict) :
    (s.step (.packet x skb)).statsMap c k = s.statsMap c k + BitVec.ofNat 64 (share m₀ c k (x.cpu, skb)) := by
  rw [step_statsMap]
  congr 2
  simp only [BpfEvent.cpu, Option.some.injEq, gains, share, BpfEvent.key]
  cases (extractFlowKey skb).join with
  | none => exact ite_self 0
  | some key =>
    dsimp only
    cases hl : s.sessionMap.lookup key with
    | some v => simp only [h.sessions key v hl]
    | none => simp only [slowGains_of_isVerdict hk, h.policies]

/-- **The enforcement counters** of a run are a sum over its packets. -/
theorem run_counter {m₀ : PolicyMaps} {s : Bpf} (h : Cached m₀ s) {es : List BpfEvent} (hes : ∀ e ∈ es, e.Quiet)
    (c : Nat) {k : StatsKey} (hk : k.IsVerdict) : (run Bpf.step s es).statsMap c k =
      s.statsMap c k + BitVec.ofNat 64 ((packets es).map (share m₀ c k)).sum := by
  induction es generalizing s with
  | nil => simp [packets]
  | cons e es ih =>
    have ih := ih (cached_step h (hes e (by simp))) fun e' he' => hes e' (by simp [he'])
    cases e with
    | evict key => exact ih
    | policies maps => exact absurd rfl (hes _ (by simp) maps)
    | packet x skb =>
      rw [packets, List.map_cons, List.sum_cons, BitVec.ofNat_add, ← BitVec.add_assoc, ← step_counter h x skb c hk]
      exact ih

/-! ## The ring buffer -/

theorem alike_of_anyReserve {e f : BpfEvent} (h : e.anyReserve = f.anyReserve) : e.Alike f ∧ e.cpu = f.cpu := by
  have hmap : ∀ e : BpfEvent, e.anyReserve = e.mapExec fun x => { x with reserveOk := true } := fun e => by cases e <;> rfl
  have hcpu : ∀ e : BpfEvent, e.anyReserve.cpu = e.cpu := fun e => by cases e <;> rfl
  refine ⟨alike_of_mapExec (fun x y hx => ?_) ((hmap e).symm.trans (h.trans (hmap f))), by rw [← hcpu e, h, hcpu f]⟩
  obtain ⟨_, hk, hi, _⟩ := Exec.mk.inj hx
  exact ⟨hi, hk⟩

/-- Everything but the events. -/
structure Bpf.SameButEvents (s t : Bpf) : Prop extends s.SameSessions t where
  statsMap : s.statsMap = t.statsMap

theorem step_anyReserve {e f : BpfEvent} (h : e.anyReserve = f.anyReserve) {s t : Bpf} (hst : s.SameButEvents t) :
    (s.step e).SameButEvents (t.step f) := by
  obtain ⟨halike, hcpu⟩ := alike_of_anyReserve h
  obtain ⟨hnext, hgains⟩ := step_congr halike hst.toSameSessions
  refine ⟨hnext, ?_⟩
  funext c k
  rw [step_statsMap, step_statsMap, hcpu, hgains, hst.statsMap]

theorem run_anyReserve {s t : Bpf} (hst : s.SameButEvents t) {es fs : List BpfEvent}
    (h : es.map BpfEvent.anyReserve = fs.map BpfEvent.anyReserve) :
    (run Bpf.step s es).SameButEvents (run Bpf.step t fs) :=
  run_related (R := Bpf.SameButEvents) (E := fun e f => BpfEvent.anyReserve e = BpfEvent.anyReserve f)
    (fun _ _ _ _ hst hef => step_anyReserve hef hst) hst (forall₂_of_map_eq h)

/-! ## Events -/

/-- A packet without a session whose insert succeeds, with an action that is reported and room in the ring buffer. -/
def Reports (s : Bpf) (e : BpfEvent) (key : FlowKey) : Prop :=
  ∃ x skb, e = .packet x skb ∧ e.key = some key ∧ s.sessionMap.lookup key = none ∧
    ((s.step e).sessionMap.lookup key).isSome ∧ Reported (decision s.maps key).1 ∧ x.reserveOk = true

theorem report_of_not {x : Exec} {key : FlowKey} {a : U8} {ts : U64} {len : U32}
    (h : ¬ (Reported a ∧ x.reserveOk = true)) : x.report key a ts len = [] := by
  rw [Exec.report, if_neg h]

/-- Events that submit nothing. -/
theorem flowEvents_of_not_reports {s : Bpf} {e : BpfEvent} (h : ∀ key, ¬ Reports s e key) :
    (s.step e).flowEvents = s.flowEvents := by
  cases e with
  | evict k => rfl
  | policies maps => rfl
  | packet x skb =>
    rcases event_cases s (.packet x skb) with ⟨hk, _⟩ | ⟨_, _, key, v, he, hk, hv, e, _⟩ | ⟨_, _, key, he, hk, hv, e, _⟩
    · simp only [Bpf.step, filter_eq, hk]
    · cases he
      rw [Bpf.step, e]; rfl
    · cases he
      rw [Bpf.step, e, slowPath_flowEvents]
      cases hi : inserted x skb key s with
      | none => exact List.append_nil _
      | some m =>
        have hnot : ¬ (Reported (decision s.maps key).1 ∧ x.reserveOk = true) := by
          rintro ⟨ha, hr⟩
          refine h key ⟨x, skb, rfl, hk, hv, ?_, ha, hr⟩
          rw [Bpf.step, e, slowPath_sessionMap, hi, Option.getD_some, inserted_eq_some hi, if_pos rfl]; rfl
        rw [report_of_not hnot]
        exact List.append_nil _

theorem submits_of_reports {s : Bpf} {e : BpfEvent} {key : FlowKey} (h : Reports s e key) :
    ∃ r, Submits s e r ∧ r.key = key := by
  obtain ⟨x, skb, rfl, hk, hv, hnew, ha, hr⟩ := h
  have e : tcMicrosegmentFilter x skb s = (slowPath x skb key s, verdict (decision s.maps key).1) := by
    simp only [filter_eq, hk, hv]
  rw [Bpf.step, e, slowPath_sessionMap] at hnew
  refine ⟨⟨key, x.ktime, 1, skb.len.setWidth 64, (decision s.maps key).1, 0⟩, ?_, rfl⟩
  rw [Submits, Bpf.step, e, slowPath_flowEvents]
  cases hi : inserted x skb key s with
  | none =>
    rw [hi, Option.getD_none, hv] at hnew
    cases hnew
  | some m =>
    rw [Option.isSome_some, if_pos rfl, Exec.report, if_pos ⟨ha, hr⟩]

/-- **An event is submitted** exactly by such a packet, and it is one for the packet's key. -/
theorem submits_iff {s : Bpf} {e : BpfEvent} {key : FlowKey} : (∃ r, Submits s e r ∧ r.key = key) ↔ Reports s e key := by
  refine ⟨fun ⟨r, hr, hkey⟩ => ?_, submits_of_reports⟩
  by_cases h : ∃ k, Reports s e k
  · obtain ⟨k, hk⟩ := h
    obtain ⟨r', hr', hkey'⟩ := submits_of_reports hk
    have hsame : r' = r := by
      have happ := hr'.symm.trans hr
      exact List.singleton_injective (List.append_cancel_left happ)
    rwa [← hkey, ← hsame, hkey']
  · have hnone := flowEvents_of_not_reports fun k hk => h ⟨k, hk⟩
    rw [Submits, hnone] at hr
    exact absurd (List.self_eq_append_right.1 hr) (by simp)

/-- A session stays until it is evicted. -/
theorem session_kept {s : Bpf} {e : BpfEvent} {key : FlowKey} (h : (s.sessionMap.lookup key).isSome)
    (he : e ≠ .evict key) : ((s.step e).sessionMap.lookup key).isSome := by
  rcases session_cases s e key with ⟨_, hsame | ⟨hevict, _⟩⟩ | ⟨_, _, _, _, _, _, hcredited⟩ | ⟨_, _, _, _, hnone, _⟩
  · rw [hsame]
    exact h
  · exact absurd hevict he
  · rw [hcredited]; rfl
  · rw [hnone] at h; cases h

theorem session_kept_run {s : Bpf} {key : FlowKey} (es : List BpfEvent) (h : (s.sessionMap.lookup key).isSome)
    (hes : BpfEvent.evict key ∉ es) : ((run Bpf.step s es).sessionMap.lookup key).isSome := by
  induction es generalizing s with
  | nil => exact h
  | cons e es ih =>
    exact ih (session_kept h fun he => hes (by simp [he])) fun hmem => hes (by simp [hmem])

/-- Between two reports of a key its session was evicted. -/
theorem evicted_between {s : Bpf} {e₁ e₂ : BpfEvent} {mid : List BpfEvent} {key : FlowKey} (h₁ : Reports s e₁ key)
    (h₂ : Reports (run Bpf.step s (e₁ :: mid)) e₂ key) : BpfEvent.evict key ∈ mid := by
  by_contra hmid
  obtain ⟨_, _, _, _, _, hnew, _⟩ := h₁
  obtain ⟨_, _, _, _, hnone, _⟩ := h₂
  have hkept := session_kept_run mid hnew hmid
  have hrun : run Bpf.step s (e₁ :: mid) = run Bpf.step (s.step e₁) mid := rfl
  rw [hrun] at hnone
  rw [hnone] at hkept
  cases hkept

/-! ## Independence -/

theorem cached_start {s₀ : Bpf} (h₀ : ∀ k, s₀.sessionMap.lookup k = none) : Cached s₀.maps s₀ where
  policies _ := rfl
  sessions key v hv := by rw [h₀] at hv; cases hv

/-- **Enforcement is independent of resource exhaustion**: two runs of the same packets against fixed policies from
no sessions, with any failing inserts and reservations and any evictions, give every packet the verdict of
the lookup, and have the same enforcement counters. If they differ in the ring buffer only, sessions,
policies and counters are the same throughout. Each event submits one record at most, exactly for a new
session with a reported action and room in the ring buffer, so once until the session is evicted. -/
theorem exhaustion_independent {s₀ : Bpf} (h₀ : ∀ k, s₀.sessionMap.lookup k = none) {es fs : List BpfEvent}
    (hes : ∀ e ∈ es, e.Quiet) (hfs : ∀ e ∈ fs, e.Quiet) (hp : packets es = packets fs) :
    (verdicts s₀ es = (packets es).map (lookupVerdict s₀) ∧ verdicts s₀ fs = verdicts s₀ es ∧
      ∀ c k, StatsKey.IsVerdict k → (run Bpf.step s₀ es).statsMap c k = (run Bpf.step s₀ fs).statsMap c k) ∧
    (es.map BpfEvent.anyReserve = fs.map BpfEvent.anyReserve →
      ∀ n, (run Bpf.step s₀ (es.take n)).SameButEvents (run Bpf.step s₀ (fs.take n))) ∧
    (∀ pre e post, es = pre ++ e :: post →
      ((run Bpf.step s₀ (pre ++ [e])).flowEvents = (run Bpf.step s₀ pre).flowEvents ∨
        ∃ r, Submits (run Bpf.step s₀ pre) e r) ∧
      ∀ key, (∃ r, Submits (run Bpf.step s₀ pre) e r ∧ r.key = key) ↔ Reports (run Bpf.step s₀ pre) e key) ∧
    ∀ pre e₁ mid e₂ post key, es = pre ++ e₁ :: mid ++ e₂ :: post →
      (∃ r, Submits (run Bpf.step s₀ pre) e₁ r ∧ r.key = key) →
      (∃ r, Submits (run Bpf.step s₀ (pre ++ e₁ :: mid)) e₂ r ∧ r.key = key) → BpfEvent.evict key ∈ mid := by
  have hcached := cached_start h₀
  refine ⟨⟨verdicts_eq hcached hes, ?_, fun c k hk => ?_⟩, fun hmap n => ?_, fun pre e post _ => ⟨?_, fun key => submits_iff⟩,
    fun pre e₁ mid e₂ post key _ h₁ h₂ => ?_⟩
  · rw [verdicts_eq hcached hes, verdicts_eq hcached hfs, hp]
  · rw [run_counter hcached hes c hk, run_counter hcached hfs c hk, hp]
  · exact run_anyReserve ⟨⟨rfl, rfl⟩, rfl⟩ (by rw [List.map_take, List.map_take, hmap])
  · rw [run_concat]
    by_cases h : ∃ key, Reports (run Bpf.step s₀ pre) e key
    · obtain ⟨key, hkey⟩ := h
      obtain ⟨r, hr, _⟩ := submits_of_reports hkey
      exact Or.inr ⟨r, hr⟩
    · exact Or.inl (flowEvents_of_not_reports fun key hkey => h ⟨key, hkey⟩)
  · rw [run_append] at h₂
    exact evicted_between (submits_iff.1 h₁) (submits_iff.1 h₂)

/-! ### A denied connection, with and without its session -/

/-- Both packets of the connection are processed in peace. -/
def calm : List BpfEvent := [.packet ⟨0, 1, true, true⟩ packet443, .packet ⟨0, 2, true, true⟩ packet443]

/-- The first session is evicted, the second not created, and no event has room. -/
def exhausted : List BpfEvent :=
  [.packet ⟨0, 1, true, false⟩ packet443, .evict toPort443.key, .packet ⟨0, 9, false, false⟩ packet443]

theorem calm_exhausted_agree :
    (verdicts deniedSys.bpf calm = (packets calm).map (lookupVerdict deniedSys.bpf) ∧
      verdicts deniedSys.bpf exhausted = verdicts deniedSys.bpf calm ∧
      ∀ c k, StatsKey.IsVerdict k →
        (run Bpf.step deniedSys.bpf calm).statsMap c k = (run Bpf.step deniedSys.bpf exhausted).statsMap c k) ∧
    (calm.map BpfEvent.anyReserve = exhausted.map BpfEvent.anyReserve →
      ∀ n, (run Bpf.step deniedSys.bpf (calm.take n)).SameButEvents (run Bpf.step deniedSys.bpf (exhausted.take n))) ∧
    (∀ pre e post, calm = pre ++ e :: post →
      ((run Bpf.step deniedSys.bpf (pre ++ [e])).flowEvents = (run Bpf.step deniedSys.bpf pre).flowEvents ∨
        ∃ r, Submits (run Bpf.step deniedSys.bpf pre) e r) ∧
      ∀ key, (∃ r, Submits (run Bpf.step deniedSys.bpf pre) e r ∧ r.key = key) ↔
        Reports (run Bpf.step deniedSys.bpf pre) e key) ∧
    ∀ pre e₁ mid e₂ post key, calm = pre ++ e₁ :: mid ++ e₂ :: post →
      (∃ r, Submits (run Bpf.step deniedSys.bpf pre) e₁ r ∧ r.key = key) →
      (∃ r, Submits (run Bpf.step deniedSys.bpf (pre ++ e₁ :: mid)) e₂ r ∧ r.key = key) → BpfEvent.evict key ∈ mid :=
  exhaustion_independent HashMap.lookup_empty (by simp [calm, BpfEvent.Quiet]) (by simp [exhausted, BpfEvent.Quiet]) rfl

end Microseg
