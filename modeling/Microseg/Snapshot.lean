import Mathlib.Data.List.ReduceOption
import Microseg.Lib.Atomic
import Microseg.Rates
/-!
# A snapshot while packets arrive (`src/agent/pkg/dataplane/dataplane.go:215-244`)

`GetStatistics` looks the eight counters up one after another, and packets may be processed before, between
and after the lookups. A schedule says in which order: `none` is the next lookup, `some e` an event.

The program counts a packet in the total before it counts the verdict, and the call reads the total before the
verdicts. So a packet between the lookups is missing from the total and present in its verdict:
`snapshot_excess` gives the surplus exactly, and `snapshot_consistent_iff` says when there is none.
-/
namespace Microseg
open Words KernelMap Runs Atomic

/-! ## The call -/

/-- `readStat` as an operation on the shared maps: one lookup, which returns the values of all CPUs. -/
def readStatOp (ncpu : Nat) (key : StatsKey) : Prog Bpf U64 := Prog.act fun s => (s, readStat ncpu s key)

/-- `GetStatistics` (`:216`), lookup by lookup. -/
def getStatisticsProg (ncpu : Nat) : Prog Bpf Statistics := do
  let totalPackets ← readStatOp ncpu .totalPackets
  let allowedPackets ← readStatOp ncpu .allowedPackets
  let deniedPackets ← readStatOp ncpu .deniedPackets
  let newSessions ← readStatOp ncpu .newSessions
  let closedSessions ← readStatOp ncpu .closedSessions
  let activeSessions ← readStatOp ncpu .activeSessions
  let policyHits ← readStatOp ncpu .policyHits
  let policyMisses ← readStatOp ncpu .policyMisses
  return { totalPackets, allowedPackets, deniedPackets, newSessions, closedSessions, activeSessions, policyHits, policyMisses }

/-- Undisturbed, the call returns the counters of the state it finds. -/
theorem getStatisticsProg_run (ncpu : Nat) (s : Bpf) : (getStatisticsProg ncpu).run s = (s, getStatistics ncpu s) := rfl

/-- The call among the events of a schedule. -/
def interleaved (ncpu : Nat) (s : Bpf) (os : List (Option BpfEvent)) : Option Statistics :=
  (run (Prog.turn Bpf.step) (getStatisticsProg ncpu, s) os).1.result

/-! ## What the lookups miss -/

/-- A parsed packet that the program drops: its session's action, or without one the policies', is DENY. -/
def denies (s : Bpf) (e : BpfEvent) : Bool := e.key.any fun key => enforced s key = PolicyAction.deny.code

/-- The lookups done and the maps, along a schedule. -/
def progress (c : Nat × Bpf) : Option BpfEvent → Nat × Bpf
  | none => (c.1 + 1, c.2)
  | some e => (c.1, c.2.step e)

/-- A packet whose verdict is still to be read although the total was read without it. -/
def late (c : Nat × Bpf) : Option BpfEvent → Nat
  | none => 0
  | some e =>
    -- between the lookups of total and allowed both verdicts are open, then only denied
    if c.1 = 1 then (parsed c.2 e).toNat
    else if c.1 = 2 then (denies c.2 e).toNat
    else 0

/-- The packets of a schedule that a call counts in a verdict and not in the total. -/
def skew (s₀ : Bpf) (os : List (Option BpfEvent)) : Nat := tally progress late (0, s₀) os

theorem shot_eq_denies (s : Bpf) (e : BpfEvent) : shot s e = denies s e := by
  cases e with
  | evict key => rfl
  | policies maps => rfl
  | packet x skb =>
    rw [shot, filter_verdict_of_key, denies, BpfEvent.key]
    rcases extractFlowKey skb with _ | _ | key
    · rfl
    · rfl
    · simp [verdict_eq_shot]

theorem denies_gains (s : Bpf) (e : BpfEvent) : gains s e .deniedPackets = (denies s e).toNat := by
  rw [shot_gains, shot_eq_denies]

/-- Up to the next lookup a schedule is a run of the program's maps. -/
theorem tally_late (n : Nat) (s : Bpf) (es : List BpfEvent) (rest : List (Option BpfEvent)) :
    tally progress late (n, s) (es.map some ++ none :: rest) =
      tally Bpf.step (fun s e => late (n, s) (some e)) s es + tally progress late (n + 1, run Bpf.step s es) rest := by
  induction es generalizing s with
  | nil => simp [tally, late, progress]
  | cons e es ih =>
    rw [List.map_cons, List.cons_append, tally, tally, progress, ih, Nat.add_assoc]; rfl

/-- After the lookup of the denied packets nothing is late. -/
theorem tally_late_done {n : Nat} (hn : 3 ≤ n) (s : Bpf) (os : List (Option BpfEvent)) :
    tally progress late (n, s) os = 0 := by
  refine tally_eq_zero (I := fun c => 3 ≤ c.1) (fun c o hc => ?_) (fun c o hc => ?_) hn os
  · cases o with
    | none => exact Nat.le_succ_of_le hc
    | some e => exact hc
  · cases o with
    | none => rfl
    | some e =>
      have h1 : c.1 ≠ 1 := by omega
      have h2 : c.1 ≠ 2 := by omega
      simp only [late, h1, h2, ↓reduceIte]

/-- How far a run moves a counter. -/
def gained (key : StatsKey) (s : Bpf) (es : List BpfEvent) : Nat := tally Bpf.step (fun s e => gains s e key) s es

theorem gained_append (key : StatsKey) (s : Bpf) (es fs : List BpfEvent) :
    gained key s (es ++ fs) = gained key s es + gained key (run Bpf.step s es) fs := tally_append _ s es fs

theorem gained_total (s : Bpf) (es : List BpfEvent) : gained .totalPackets s es = countEvents parsed s es := by
  simp only [gained, countEvents, parsed_gains]

/-- Every parsed packet of a run has its verdict. -/
theorem gained_verdicts (s : Bpf) (es : List BpfEvent) :
    countEvents parsed s es = gained .allowedPackets s es + gained .deniedPackets s es := by
  rw [← gained_total, gained, gained, gained, ← tally_add]
  simp only [verdict_gains]

/-- The first three lookups of a call cut its schedule; the other five leave what they read alone. -/
theorem exists_lookups {ncpu : Nat} {s₀ : Bpf} {os : List (Option BpfEvent)} {st : Statistics}
    (hdone : interleaved ncpu s₀ os = some st) :
    ∃ before first second rest,
      os = before.map some ++ none :: (first.map some ++ none :: (second.map some ++ none :: rest)) ∧
      st.totalPackets = readStat ncpu (run Bpf.step s₀ before) .totalPackets ∧
      st.allowedPackets = readStat ncpu (run Bpf.step s₀ (before ++ first)) .allowedPackets ∧
      st.deniedPackets = readStat ncpu (run Bpf.step s₀ (before ++ first ++ second)) .deniedPackets := by
  obtain ⟨before, os₁, rfl, h₁⟩ := Prog.exists_turn hdone
  obtain ⟨first, os₂, rfl, h₂⟩ := Prog.exists_turn h₁
  obtain ⟨second, rest, rfl, h₃⟩ := Prog.exists_turn h₂
  refine ⟨before, first, second, rest, rfl, ?_⟩
  rw [run_append _ _ (before ++ first), run_append]
  refine Prog.turn_returns (P := fun st : Statistics => st.totalPackets = readStat ncpu (run Bpf.step s₀ before) .totalPackets ∧
    st.allowedPackets = readStat ncpu (run Bpf.step (run Bpf.step s₀ before) first) .allowedPackets ∧
    st.deniedPackets = readStat ncpu (run Bpf.step (run Bpf.step (run Bpf.step s₀ before) first) second) .deniedPackets) ?_ h₃
  exact fun _ _ _ _ _ => ⟨rfl, rfl, rfl⟩

/-- The skew, cut at the lookups. -/
theorem skew_eq (s₀ : Bpf) (before first second : List BpfEvent) (rest : List (Option BpfEvent)) :
    skew s₀ (before.map some ++ none :: (first.map some ++ none :: (second.map some ++ none :: rest))) =
      countEvents parsed (run Bpf.step s₀ before) first +
        gained .deniedPackets (run Bpf.step s₀ (before ++ first)) second := by
  have hnone : tally Bpf.step (fun s e => late (0, s) (some e)) s₀ before = 0 :=
    tally_eq_zero (I := fun _ => True) (fun _ _ _ => trivial) (fun _ _ _ => rfl) trivial before
  rw [skew, tally_late, tally_late, tally_late, hnone, tally_late_done (Nat.le_refl 3), Nat.zero_add, Nat.add_zero, run_append]
  simp only [gained, denies_gains]
  rfl

/-- What a counter holds after a run from zeroed counters, as long as it has not wrapped. -/
theorem readStat_toNat {ncpu : Nat} {s₀ : Bpf} (hz : ∀ c k, s₀.statsMap c k = 0) {es : List BpfEvent}
    (hes : ∀ e ∈ es, e.OnCpus ncpu) {key : StatsKey} (hlt : gained key s₀ es < 2 ^ 64) :
    (readStat ncpu (run Bpf.step s₀ es) key).toNat = gained key s₀ es := by
  have hrun := readStat_run s₀ hes key
  rw [readStat_zero hz, zero_add, BitVec.natCast_eq_ofNat] at hrun
  rw [hrun, BitVec.toNat_ofNat]
  exact Nat.mod_eq_of_lt hlt

/-- **The surplus**: the verdicts of a snapshot exceed its total by the packets that the lookups straddled. -/
theorem snapshot_excess {ncpu : Nat} {s₀ : Bpf} (hz : ∀ c k, s₀.statsMap c k = 0) {os : List (Option BpfEvent)}
    (hcpu : ∀ e, some e ∈ os → e.OnCpus ncpu) (hwrap : countEvents parsed s₀ os.reduceOption < 2 ^ 64) {st : Statistics}
    (hdone : interleaved ncpu s₀ os = some st) :
    st.allowedPackets.toNat + st.deniedPackets.toNat = st.totalPackets.toNat + skew s₀ os := by
  obtain ⟨before, first, second, rest, rfl, htotal, hallowed, hdenied⟩ := exists_lookups hdone
  have hmem : ∀ e ∈ before ++ first ++ second, e.OnCpus ncpu := by
    intro e he
    refine hcpu e ?_
    simp only [List.mem_append, List.mem_cons, List.mem_map] at he ⊢
    grind
  have hevents : (before.map some ++ none :: (first.map some ++ none :: (second.map some ++ none :: rest))).reduceOption =
      before ++ first ++ second ++ rest.reduceOption := by
    simp [List.reduceOption]
  rw [hevents, countEvents_append, countEvents_append, countEvents_append] at hwrap
  -- the parsed packets of each stretch by verdict, and the stretches that each lookup has seen
  have hbefore := gained_verdicts s₀ before
  have hfirst := gained_verdicts (run Bpf.step s₀ before) first
  have hsecond := gained_verdicts (run Bpf.step s₀ (before ++ first)) second
  have htotalSum := gained_total s₀ before
  have hallowedSum := gained_append .allowedPackets s₀ before first
  have hdeniedSum := gained_append .deniedPackets s₀ before first
  have hdeniedSum' := gained_append .deniedPackets s₀ (before ++ first) second
  have htwo : ∀ e ∈ before ++ first, e.OnCpus ncpu := fun e he => hmem e (List.mem_append_left second he)
  have hone : ∀ e ∈ before, e.OnCpus ncpu := fun e he => htwo e (List.mem_append_left first he)
  rw [skew_eq, htotal, hallowed, hdenied, readStat_toNat hz hone (by omega), readStat_toNat hz htwo (by omega),
    readStat_toNat hz hmem (by omega)]
  omega

/-- **A consistent snapshot** takes exactly a pause in the traffic: none of the packets processed between the lookups of
the total and of the allowed packets is parsed, and none processed between the lookups of the allowed and of the
denied packets is dropped. Then the percentages of the response make a whole, up to the rounding of `float64`. -/
theorem snapshot_consistent_iff {ncpu : Nat} {s₀ : Bpf} (hz : ∀ c k, s₀.statsMap c k = 0) {os : List (Option BpfEvent)}
    (hcpu : ∀ e, some e ∈ os → e.OnCpus ncpu) (hwrap : countEvents parsed s₀ os.reduceOption < 2 ^ 64) {st : Statistics}
    (hdone : interleaved ncpu s₀ os = some st) :
    (st.Consistent ↔ skew s₀ os = 0) ∧ (st.Consistent → (getPacketStats st).RatesBounded) := by
  have hexcess := snapshot_excess hz hcpu hwrap hdone
  refine ⟨?_, ratesBounded_of_consistent⟩
  rw [Statistics.Consistent, hexcess]
  omega

/-- A denied packet before the call, and one after it has looked the verdicts up. -/
def paused : List (Option BpfEvent) :=
  some (.packet ⟨0, 1, true, true⟩ packet443) :: none :: none :: none :: some (.packet ⟨1, 2, true, true⟩ packet443) ::
    List.replicate 5 none

theorem paused_consistent_iff :
    (Statistics.Consistent ⟨1, 0, 1, 1, 0, 0, 1, 0⟩ ↔ skew deniedSys.bpf paused = 0) ∧
      (Statistics.Consistent ⟨1, 0, 1, 1, 0, 0, 1, 0⟩ → (getPacketStats ⟨1, 0, 1, 1, 0, 0, 1, 0⟩).RatesBounded) :=
  @snapshot_consistent_iff 2 deniedSys.bpf (fun _ _ => rfl) paused (by simp [paused, BpfEvent.OnCpus, BpfEvent.cpu])
    (by decide +kernel) ⟨1, 0, 1, 1, 0, 0, 1, 0⟩ (by decide +kernel)

/-- A denied packet before the call and one between its first two lookups. -/
def straddled : List (Option BpfEvent) :=
  some (.packet ⟨0, 1, true, true⟩ packet443) :: none :: some (.packet ⟨1, 2, true, true⟩ packet443) :: List.replicate 7 none

/-- What the call returns. -/
def straddledStatistics : Statistics := ⟨1, 0, 2, 1, 0, 0, 1, 0⟩

theorem straddled_overfull :
    (∀ c k, deniedSys.bpf.statsMap c k = 0) ∧ (∀ e, some e ∈ straddled → e.OnCpus 2) ∧
      countEvents parsed deniedSys.bpf straddled.reduceOption < 2 ^ 64 ∧
      interleaved 2 deniedSys.bpf straddled = some straddledStatistics ∧ ¬ straddledStatistics.Consistent ∧
      (getPacketStats straddledStatistics).allowRate.val + (getPacketStats straddledStatistics).denyRate.val = 200 := by
  refine ⟨fun _ _ => rfl, ?_, ?_, ?_, ?_, ?_⟩
  · simp [straddled, BpfEvent.OnCpus, BpfEvent.cpu]
  · decide +kernel
  · decide +kernel
  · decide
  · decide +kernel

end Microseg
