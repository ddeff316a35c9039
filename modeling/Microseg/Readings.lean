import Mathlib.Tactic.Linarith
import Microseg.HitCounts
import Microseg.Snapshot
/-!
# Readings of the counters while packets arrive (`statistics.go`, `tools/perf-test/main.go:197-208`)

Each of the eight lookups of `GetStatistics` cuts the events of the call's schedule (`reading`). The statistics of
sessions and policies do not suffer from this as those of packets do (`Microseg.Snapshot`): a new session is looked
up before the hits and misses, and the program counts it after them, so a call never reports more new sessions
than lookups, and its hit rate is one, up to rounding (`policyStats_consistent`). The difference of two calls counts
for each counter the packets between its own two lookups, even when the counter has wrapped in between (`delta_exact`).

| here | there |
| --- | --- |
| `StatsKey.lookupIndex` | the order of the lookups in `GetStatistics` (`dataplane.go:216`) |
| `calculateDelta` | `calculateDelta` (`tools/perf-test/main.go:197`) |
-/
namespace Microseg
open Words KernelMap Runs Atomic

/-- `calculateDelta` (`tools/perf-test/main.go:197`); the active sessions are the current ones. -/
def calculateDelta (current previous : Statistics) : Statistics where
  totalPackets := current.totalPackets - previous.totalPackets
  allowedPackets := current.allowedPackets - previous.allowedPackets
  deniedPackets := current.deniedPackets - previous.deniedPackets
  newSessions := current.newSessions - previous.newSessions
  closedSessions := current.closedSessions - previous.closedSessions
  activeSessions := current.activeSessions
  policyHits := current.policyHits - previous.policyHits
  policyMisses := current.policyMisses - previous.policyMisses

/-- The field of a counter. -/
def Statistics.get (stats : Statistics) : StatsKey → U64
  | .totalPackets => stats.totalPackets
  | .allowedPackets => stats.allowedPackets
  | .deniedPackets => stats.deniedPackets
  | .newSessions => stats.newSessions
  | .closedSessions => stats.closedSessions
  | .activeSessions => stats.activeSessions
  | .policyHits => stats.policyHits
  | .policyMisses => stats.policyMisses

/-! ## The lookups of a call -/

/-- The number of a counter's lookup in a call. -/
def StatsKey.lookupIndex : StatsKey → Nat
  | .totalPackets => 0
  | .allowedPackets => 1
  | .deniedPackets => 2
  | .newSessions => 3
  | .closedSessions => 4
  | .activeSessions => 5
  | .policyHits => 6
  | .policyMisses => 7

/-- **Each lookup** of a call that returns reads what the events before it have left. -/
theorem reading {ncpu : Nat} {s₀ : Bpf} {os : List (Option BpfEvent)} {st : Statistics}
    (hdone : interleaved ncpu s₀ os = some st) (k : StatsKey) :
    st.get k = readStat ncpu (run Bpf.step s₀ (eventsBefore k.lookupIndex os)) k := by
  obtain ⟨e₁, os, rfl, h₁⟩ := Prog.exists_turn hdone
  obtain ⟨e₂, os, rfl, h₂⟩ := Prog.exists_turn h₁
  obtain ⟨e₃, os, rfl, h₃⟩ := Prog.exists_turn h₂
  obtain ⟨e₄, os, rfl, h₄⟩ := Prog.exists_turn h₃
  obtain ⟨e₅, os, rfl, h₅⟩ := Prog.exists_turn h₄
  obtain ⟨e₆, os, rfl, h₆⟩ := Prog.exists_turn h₅
  obtain ⟨e₇, os, rfl, h₇⟩ := Prog.exists_turn h₆
  obtain ⟨e₈, rest, rfl, h₈⟩ := Prog.exists_turn h₇
  refine Prog.turn_returns (P := fun st : Statistics => st.get k = _) ?_ h₈
  cases k <;> simp only [StatsKey.lookupIndex, eventsBefore_map_append, eventsBefore_none_succ, eventsBefore_none_zero,
    run_append, List.append_nil] <;> rfl

theorem mem_of_mem_eventsBefore {n : Nat} {os : List (Option BpfEvent)} {e : BpfEvent} (he : e ∈ eventsBefore n os) :
    some e ∈ os := by
  rw [← List.reduceOption_mem_iff, ← eventsBefore_append_eventsAfter n]
  exact List.mem_append_left _ he

theorem mem_of_mem_eventsAfter {n : Nat} {os : List (Option BpfEvent)} {e : BpfEvent} (he : e ∈ eventsAfter n os) :
    some e ∈ os := by
  rw [← List.reduceOption_mem_iff, ← eventsBefore_append_eventsAfter n]
  exact List.mem_append_right _ he

/-- A counter at its lookup, as long as it has not wrapped. -/
theorem reading_toNat {ncpu : Nat} {s₀ : Bpf} (hz : ∀ c k, s₀.statsMap c k = 0) {os : List (Option BpfEvent)}
    (hcpu : ∀ e, some e ∈ os → e.OnCpus ncpu) {st : Statistics} (hdone : interleaved ncpu s₀ os = some st) {k : StatsKey}
    (hlt : gained k s₀ (eventsBefore k.lookupIndex os) < 2 ^ 64) :
    (st.get k).toNat = gained k s₀ (eventsBefore k.lookupIndex os) := by
  rw [reading hdone k]
  exact readStat_toNat hz (fun e he => hcpu e (mem_of_mem_eventsBefore he)) hlt

/-! ## Sessions and policies -/

/-- The program never counts a session as closed or active. -/
theorem inactive_gains (s : Bpf) (e : BpfEvent) : gains s e .closedSessions = 0 ∧ gains s e .activeSessions = 0 := by
  rcases event_cases s e with ⟨_, hg⟩ | ⟨_, _, _, v, _, _, _, _, hg⟩ | ⟨x, skb, key, _, _, _, _, hg⟩ <;>
    rw [hg, hg] <;> exact ⟨rfl, rfl⟩

theorem gained_inactive (s : Bpf) (es : List BpfEvent) :
    gained .closedSessions s es = 0 ∧ gained .activeSessions s es = 0 :=
  ⟨tally_eq_zero (I := fun _ => True) (fun _ _ _ => trivial) (fun s e _ => (inactive_gains s e).1) trivial es,
    tally_eq_zero (I := fun _ => True) (fun _ _ _ => trivial) (fun s e _ => (inactive_gains s e).2) trivial es⟩

/-- A session is created by a packet that finds none. -/
theorem newSessions_le (s : Bpf) (e : BpfEvent) :
    gains s e .newSessions ≤ gains s e .policyHits + gains s e .policyMisses := by
  rw [created_gains, lookup_gains, sessionCreated, sessionless]
  cases e.key with
  | none => exact Nat.le_refl 0
  | some key =>
    rw [Option.any_some, Option.any_some]
    cases (s.sessionMap.lookup key).isNone
    · exact Nat.le_refl 0
    · exact Bool.toNat_le _

theorem gained_lookups (s : Bpf) (es : List BpfEvent) :
    gained .policyHits s es + gained .policyMisses s es = countEvents sessionless s es := by
  simp only [gained, ← tally_add, lookup_gains, countEvents]

theorem gained_newSessions_le (s : Bpf) (es : List BpfEvent) :
    gained .newSessions s es ≤ gained .policyHits s es + gained .policyMisses s es := by
  have hle : tally Bpf.step (fun s e => gains s e .newSessions) s es ≤
      tally Bpf.step (fun s e => gains s e .policyHits + gains s e .policyMisses) s es := tally_le newSessions_le s es
  rw [tally_add] at hle
  simpa [gained] using hle

/-- The hit rate is the share of the hits, up to rounding. -/
structure PolicyStatsResponse.RateAccurate (response : PolicyStatsResponse) : Prop where
  share :
    |response.hitRate.val - response.policyHits.toNat / (response.policyHits.toNat + response.policyMisses.toNat) * 100| ≤
      response.policyHits.toNat / (response.policyHits.toNat + response.policyMisses.toNat) * 100 / 2 ^ 50
  nonneg : 0 ≤ response.hitRate.val
  le : response.hitRate.val ≤ 100

/-- What a call reports of sessions and policies is consistent. -/
structure Statistics.LookupsConsistent (st : Statistics) : Prop where
  sessions : (getSessionStats st).newSessions.toNat ≤
    (getPolicyStats st).policyHits.toNat + (getPolicyStats st).policyMisses.toNat
  lookups : (st.policyHits + st.policyMisses).toNat = st.policyHits.toNat + st.policyMisses.toNat
  rate : (getPolicyStats st).RateAccurate
  inactive : (getSessionStats st).closedSessions = 0 ∧ (getSessionStats st).activeSessions = 0

/-- The hit rate of lookups that have not wrapped. -/
theorem rateAccurate_of_lookups {st : Statistics}
    (h : (st.policyHits + st.policyMisses).toNat = st.policyHits.toNat + st.policyMisses.toNat) :
    (getPolicyStats st).RateAccurate := by
  by_cases hpos : 0 < st.policyHits + st.policyMisses
  · have hle : st.policyHits.toNat ≤ (st.policyHits + st.policyMisses).toNat := by omega
    have herror := abs_percentage_sub_le st.policyHits hpos
    rw [h, Nat.cast_add] at herror
    constructor <;> simp only [getPolicyStats, if_pos hpos]
    · exact herror
    · exact percentage_nonneg _ _
    · exact percentage_le hle hpos
  · -- no lookup yet: the rate is the constant zero
    have hnone : ¬ 0 < (st.policyHits + st.policyMisses).toNat := hpos
    have hhits : st.policyHits.toNat = 0 := by omega
    constructor <;> simp only [getPolicyStats, if_neg hpos, zero_val, hhits] <;> norm_num

/-- **Session and policy statistics** are consistent under any interleaving of packets with the lookups of a call: it
reports at most as many new sessions as policy lookups, and the share of the hits among these, from 0 to 100. -/
theorem policyStats_consistent {ncpu : Nat} {s₀ : Bpf} (hz : ∀ c k, s₀.statsMap c k = 0) {os : List (Option BpfEvent)}
    (hcpu : ∀ e, some e ∈ os → e.OnCpus ncpu) (hwrap : countEvents sessionless s₀ os.reduceOption < 2 ^ 64)
    {st : Statistics} (hdone : interleaved ncpu s₀ os = some st) : st.LookupsConsistent := by
  obtain ⟨mid, hmid⟩ := eventsBefore_le
    (m := StatsKey.newSessions.lookupIndex) (n := StatsKey.policyHits.lookupIndex) (by decide) os
  obtain ⟨mid', hmid'⟩ := eventsBefore_le
    (m := StatsKey.policyHits.lookupIndex) (n := StatsKey.policyMisses.lookupIndex) (by decide) os
  have hrest := (eventsBefore_append_eventsAfter StatsKey.policyMisses.lookupIndex os).symm
  -- the lookups of the whole schedule bound those that each reading has seen
  have hall := gained_lookups s₀ os.reduceOption
  have hnew := gained_newSessions_le s₀ (eventsBefore StatsKey.newSessions.lookupIndex os)
  have hhits := gained_append .policyHits s₀ (eventsBefore StatsKey.newSessions.lookupIndex os) mid
  have hhits' := gained_append .policyHits s₀ (eventsBefore StatsKey.policyHits.lookupIndex os) mid'
  have hhits'' := gained_append .policyHits s₀ (eventsBefore StatsKey.policyMisses.lookupIndex os)
    (eventsAfter StatsKey.policyMisses.lookupIndex os)
  have hmisses := gained_append .policyMisses s₀ (eventsBefore StatsKey.newSessions.lookupIndex os) mid
  have hmisses' := gained_append .policyMisses s₀ (eventsBefore StatsKey.policyHits.lookupIndex os) mid'
  have hmisses'' := gained_append .policyMisses s₀ (eventsBefore StatsKey.policyMisses.lookupIndex os)
    (eventsAfter StatsKey.policyMisses.lookupIndex os)
  rw [← hmid] at hhits hmisses
  rw [← hmid'] at hhits' hmisses'
  rw [← hrest] at hhits'' hmisses''
  have hn := reading_toNat hz hcpu hdone (k := .newSessions) (by omega)
  have hh := reading_toNat hz hcpu hdone (k := .policyHits) (by omega)
  have hm := reading_toNat hz hcpu hdone (k := .policyMisses) (by omega)
  have hc := reading_toNat hz hcpu hdone (k := .closedSessions) (by rw [(gained_inactive _ _).1]; decide)
  have ha := reading_toNat hz hcpu hdone (k := .activeSessions) (by rw [(gained_inactive _ _).2]; decide)
  rw [(gained_inactive _ _).1] at hc
  rw [(gained_inactive _ _).2] at ha
  simp only [Statistics.get] at hn hh hm hc ha
  have hlookups : (st.policyHits + st.policyMisses).toNat = st.policyHits.toNat + st.policyMisses.toNat := by
    rw [BitVec.toNat_add, Nat.mod_eq_of_lt (by omega)]
  refine ⟨?_, hlookups, rateAccurate_of_lookups hlookups, BitVec.eq_of_toNat_eq hc, BitVec.eq_of_toNat_eq ha⟩
  simp only [getSessionStats, getPolicyStats]
  omega

/-- The call that counts a packet in its verdict and not in its total. -/
theorem straddled_lookups : straddledStatistics.LookupsConsistent :=
  @policyStats_consistent 2 deniedSys.bpf (fun _ _ => rfl) straddled (by simp [straddled, BpfEvent.OnCpus, BpfEvent.cpu])
    (by decide +kernel) straddledStatistics (by decide)

/-! ## The difference of two calls -/

/-- What the counter of a key stands for, in the events of a run. -/
def counted : StatsKey → Bpf → BpfEvent → Nat
  | .totalPackets, s, e => (parsed s e).toNat
  | .allowedPackets, s, e => (parsed s e && !shot s e).toNat
  | .deniedPackets, s, e => (shot s e).toNat
  | .newSessions, s, e => (sessionCreated s e).toNat
  | .closedSessions, _, _ => 0
  | .activeSessions, _, _ => 0
  | .policyHits, s, e => (exactHit s e).toNat + (scanHit s e).toNat
  | .policyMisses, s, e => (sessionless s e && !exactHit s e && !scanHit s e).toNat

/-- A dropped packet was parsed. -/
theorem parsed_of_shot {s : Bpf} {e : BpfEvent} (h : shot s e = true) : parsed s e = true := by
  have hdenied := shot_gains s e
  have htotal := verdict_gains s e
  rw [parsed_gains, hdenied, h] at htotal
  cases hp : parsed s e with
  | true => rfl
  | false =>
    rw [hp, Bool.toNat_false, Bool.toNat_true] at htotal
    omega

/-- **Every counter** moves by what it stands for. -/
theorem gains_eq_counted (s : Bpf) (e : BpfEvent) (k : StatsKey) : gains s e k = counted k s e := by
  have htotal := verdict_gains s e
  have hlookups := lookup_gains s e
  rw [parsed_gains, shot_gains] at htotal
  rw [hit_gains] at hlookups
  cases k with
  | totalPackets => exact parsed_gains s e
  | deniedPackets => exact shot_gains s e
  | newSessions => exact created_gains s e
  | closedSessions => exact (inactive_gains s e).1
  | activeSessions => exact (inactive_gains s e).2
  | policyHits => exact hit_gains s e
  | allowedPackets =>
    rw [counted]
    cases hs : shot s e with
    | true =>
      rw [parsed_of_shot hs] at htotal ⊢
      rw [hs] at htotal
      simp only [Bool.toNat_true] at htotal
      simp only [Bool.not_true, Bool.and_false, Bool.toNat_false]
      omega
    | false =>
      rw [hs] at htotal
      simp only [Bool.toNat_false] at htotal
      simp only [Bool.not_false, Bool.and_true]
      omega
  | policyMisses =>
    rw [counted]
    cases hx : exactHit s e <;> cases hw : scanHit s e <;> cases hl : sessionless s e <;>
      simp only [hx, hw, hl, Bool.toNat_true, Bool.toNat_false] at hlookups <;> simp <;> omega

/-- The statistics of the packets between two calls: each counter from its own lookup in the one to that in the other. -/
structure DeltaExact (ncpu : Nat) (s₀ : Bpf) (os os' : List (Option BpfEvent)) (previous current : Statistics) :
    Prop where
  reading : ∀ k, previous.get k = readStat ncpu (run Bpf.step s₀ (eventsBefore k.lookupIndex os)) k
  exact : ∀ k, k ≠ .activeSessions → (calculateDelta current previous).get k =
    BitVec.ofNat 64 (tally Bpf.step (counted k) (run Bpf.step s₀ (eventsBefore k.lookupIndex os))
      (eventsAfter k.lookupIndex os ++ eventsBefore k.lookupIndex os'))
  active : (calculateDelta current previous).get .activeSessions =
    readStat ncpu (run Bpf.step s₀ (os.reduceOption ++ eventsBefore StatsKey.activeSessions.lookupIndex os'))
      .activeSessions
  telescopes : ∀ next k, k ≠ .activeSessions → (calculateDelta next previous).get k =
    (calculateDelta next current).get k + (calculateDelta current previous).get k

theorem delta_get {current previous : Statistics} {k : StatsKey} (h : k ≠ .activeSessions) :
    (calculateDelta current previous).get k = current.get k - previous.get k := by
  cases k <;> first | rfl | exact absurd rfl h

/-- **The difference of two calls** that follow each other, with packets in between and among their lookups, counts for
each counter what happened between its two lookups, modulo 2^64 and whether or not the counter wrapped; and
differences of successive calls add up. -/
theorem delta_exact {ncpu : Nat} {s₀ : Bpf} {os os' : List (Option BpfEvent)}
    (hcpu : ∀ e, some e ∈ os ++ os' → e.OnCpus ncpu) {previous current : Statistics}
    (hprev : interleaved ncpu s₀ os = some previous)
    (hcur : interleaved ncpu (run Bpf.step s₀ os.reduceOption) os' = some current) :
    DeltaExact ncpu s₀ os os' previous current := by
  refine ⟨reading hprev, fun k hk => ?_, ?_, fun next k hk => ?_⟩
  · have hmem : ∀ e ∈ eventsAfter k.lookupIndex os ++ eventsBefore k.lookupIndex os', e.OnCpus ncpu := by
      intro e he
      refine hcpu e ?_
      rcases List.mem_append.1 he with hafter | hbefore
      · exact List.mem_append_left _ (mem_of_mem_eventsAfter hafter)
      · exact List.mem_append_right _ (mem_of_mem_eventsBefore hbefore)
    have hmid : run Bpf.step (run Bpf.step s₀ os.reduceOption) (eventsBefore k.lookupIndex os') =
        run Bpf.step (run Bpf.step s₀ (eventsBefore k.lookupIndex os))
          (eventsAfter k.lookupIndex os ++ eventsBefore k.lookupIndex os') := by
      rw [← eventsBefore_append_eventsAfter k.lookupIndex os, run_append, run_append]
    rw [delta_get hk, reading hprev k, reading hcur k, hmid, readStat_run _ hmem, add_sub_cancel_left]
    simp only [gains_eq_counted, BitVec.natCast_eq_ofNat]
  · rw [run_append]
    exact reading hcur .activeSessions
  · rw [delta_get hk, delta_get hk, delta_get hk, sub_add_sub_cancel]

/-- A call in a pause, and another one with a packet between its first two lookups. -/
theorem paused_delta :
    DeltaExact 2 deniedSys.bpf paused (none :: some (.packet ⟨0, 3, true, true⟩ packet443) :: List.replicate 7 none)
      ⟨1, 0, 1, 1, 0, 0, 1, 0⟩ ⟨2, 0, 3, 1, 0, 0, 1, 0⟩ :=
  delta_exact (by simp [paused, BpfEvent.OnCpus, BpfEvent.cpu]) (by decide +kernel) (by decide +kernel)

end Microseg
