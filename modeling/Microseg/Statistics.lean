import Mathlib.Data.BitVec
import Mathlib.Algebra.BigOperators.Group.List.Basic
import Mathlib.Tactic.Abel
import Microseg.Traffic
/-!
# Statistics (`src/agent/pkg/dataplane/dataplane.go:215-244`)

`GetStatistics` adds up each per-CPU counter over the CPUs, with wrap-around. Every event adds its `gains`
to the counters of one CPU (`step_statsMap`), so over a run the sums have grown by the gains of the run
(`readStat_run`), wherever the packets were processed. `statistics_conserved` reads the balance equations
of the counters off the gains.
-/
namespace Microseg
open Words KernelMap Runs

/-- `Statistics`. -/
structure Statistics where
  totalPackets : U64
  allowedPackets : U64
  deniedPackets : U64
  newSessions : U64
  closedSessions : U64
  activeSessions : U64
  policyHits : U64
  policyMisses : U64
deriving DecidableEq, Repr

/-- `readStat` (`:220`): the kernel returns one value for each of the `ncpu` possible CPUs; every key is in range. -/
def readStat (ncpu : Nat) (s : Bpf) (key : StatsKey) : U64 :=
  ((List.range ncpu).map fun cpu => s.statsMap cpu key).foldl (fun total v => total + v) 0

/-- `GetStatistics` (`:216`). -/
def getStatistics (ncpu : Nat) (s : Bpf) : Statistics where
  totalPackets := readStat ncpu s .totalPackets
  allowedPackets := readStat ncpu s .allowedPackets
  deniedPackets := readStat ncpu s .deniedPackets
  newSessions := readStat ncpu s .newSessions
  closedSessions := readStat ncpu s .closedSessions
  activeSessions := readStat ncpu s .activeSessions
  policyHits := readStat ncpu s .policyHits
  policyMisses := readStat ncpu s .policyMisses

/-! ## What is counted -/

/-- `extract_flow_key` succeeded. -/
def parsed (_ : Bpf) (e : BpfEvent) : Bool := e.key.isSome

/-- The verdict is `TC_ACT_SHOT`. -/
def shot (s : Bpf) : BpfEvent → Bool
  | .packet x skb => (tcMicrosegmentFilter x skb s).2 = tcActShot
  | _ => false

/-- A parsed packet that finds no session. -/
def sessionless (s : Bpf) (e : BpfEvent) : Bool := e.key.any fun key => (s.sessionMap.lookup key).isNone

/-- A parsed packet that finds no session and leaves one. -/
def sessionCreated (s : Bpf) (e : BpfEvent) : Bool :=
  e.key.any fun key => (s.sessionMap.lookup key).isNone && ((s.step e).sessionMap.lookup key).isSome

/-- How many events of a run have a property, each in the state it finds. -/
def countEvents (p : Bpf → BpfEvent → Bool) (s : Bpf) (es : List BpfEvent) : Nat :=
  tally Bpf.step (fun s e => (p s e).toNat) s es

theorem countEvents_append (p : Bpf → BpfEvent → Bool) (s : Bpf) (es fs : List BpfEvent) :
    countEvents p s (es ++ fs) = countEvents p s es + countEvents p (run Bpf.step s es) fs := tally_append _ s es fs

/-- The event does not run on a CPU beyond the possible ones. -/
def BpfEvent.OnCpus (ncpu : Nat) (e : BpfEvent) : Prop := ∀ c, e.cpu = some c → c < ncpu

/-- The event, wherever it is processed. -/
def BpfEvent.anyCpu : BpfEvent → BpfEvent
  | .packet x skb => .packet { x with cpu := 0 } skb
  | e => e

/-! ## Sums over the CPUs -/

/-- Moving one counter moves the sum. -/
theorem sum_bump {M : Type} [AddCommMonoid M] (f : Nat → M) (cpu : Nat) (a : M) (n : Nat) :
    ((List.range n).map fun c => f c + if cpu = c then a else 0).sum =
      ((List.range n).map f).sum + if cpu < n then a else 0 := by
  induction n with
  | zero => simp
  | succ n ih =>
    simp only [List.range_succ, List.map_append, List.map_cons, List.map_nil, List.sum_append, List.sum_singleton, ih]
    rcases Nat.lt_trichotomy cpu n with h | h | h
    · have hne : cpu ≠ n := h.ne
      have hlt : cpu < n + 1 := by omega
      simp only [h, hne, hlt, ↓reduceIte]
      abel
    · subst h
      simp only [lt_self_iff_false, Nat.lt_add_one, ↓reduceIte]
      abel
    · have hne : cpu ≠ n := h.ne'
      have hge : ¬ cpu < n := by omega
      have hge' : ¬ cpu < n + 1 := by omega
      simp only [hne, hge, hge', ↓reduceIte]
      abel

theorem readStat_eq_sum (ncpu : Nat) (s : Bpf) (key : StatsKey) :
    readStat ncpu s key = ((List.range ncpu).map fun cpu => s.statsMap cpu key).sum := by
  rw [readStat, List.sum_eq_foldl]

theorem readStat_zero {ncpu : Nat} {s : Bpf} (h : ∀ c k, s.statsMap c k = 0) (key : StatsKey) : readStat ncpu s key = 0 := by
  rw [readStat_eq_sum]
  refine List.sum_eq_zero fun v hv => ?_
  obtain ⟨c, _, rfl⟩ := List.mem_map.1 hv
  exact h c key

/-- **One event** moves each sum by its gains, whatever its CPU. -/
theorem readStat_step {ncpu : Nat} {e : BpfEvent} (h : e.OnCpus ncpu) (s : Bpf) (key : StatsKey) :
    readStat ncpu (s.step e) key = readStat ncpu s key + (gains s e key : U64) := by
  rw [readStat_eq_sum, readStat_eq_sum]
  cases e with
  | evict k => simp [Bpf.step, gains]
  | policies maps => simp [Bpf.step, gains]
  | packet x skb =>
    have hcpu : x.cpu < ncpu := h x.cpu rfl
    have hbump := sum_bump (fun c => s.statsMap c key) x.cpu (gains s (.packet x skb) key) ncpu
    rw [if_pos hcpu] at hbump
    rw [← hbump]
    congr 2
    funext c
    rw [step_statsMap, BpfEvent.cpu, BitVec.natCast_eq_ofNat]
    by_cases hc : x.cpu = c
    · rw [if_pos hc, if_pos (congrArg some hc)]
    · rw [if_neg hc, if_neg fun h => hc (Option.some.inj h)]; rfl

/-- **A run** moves each sum by the gains of its events. -/
theorem readStat_run {ncpu : Nat} (s : Bpf) {es : List BpfEvent} (h : ∀ e ∈ es, e.OnCpus ncpu) (key : StatsKey) :
    readStat ncpu (run Bpf.step s es) key =
      readStat ncpu s key + (tally Bpf.step (fun s e => gains s e key) s es : U64) :=
  run_eq_add_tally (readStat ncpu · key) (fun s _ he => readStat_step he s key) s h

/-! ## Conservation -/

theorem parsed_gains (s : Bpf) (e : BpfEvent) : gains s e .totalPackets = (parsed s e).toNat := by
  rcases event_cases s e with ⟨hk, hg⟩ | ⟨x, skb, key, v, _, hk, _, _, hg⟩ | ⟨x, skb, key, _, hk, _, _, hg⟩ <;>
    rw [hg, parsed, hk] <;> rfl

/-- Each parsed packet is allowed or denied. -/
theorem verdict_gains (s : Bpf) (e : BpfEvent) :
    gains s e .totalPackets = gains s e .allowedPackets + gains s e .deniedPackets := by
  have hfast : ∀ a : U8, fastGains a .totalPackets = fastGains a .allowedPackets + fastGains a .deniedPackets := by
    intro a
    by_cases ha : a = PolicyAction.deny.code <;> simp [fastGains, ha]
  rcases event_cases s e with ⟨hk, hg⟩ | ⟨x, skb, key, v, _, hk, _, _, hg⟩ | ⟨x, skb, key, _, hk, _, _, hg⟩ <;>
    rw [hg, hg, hg]
  · exact hfast v.policyAction
  · exact hfast (decision s.maps key).1

theorem shot_gains (s : Bpf) (e : BpfEvent) : gains s e .deniedPackets = (shot s e).toNat := by
  have hverdict : ∀ a : U8, fastGains a .deniedPackets = (decide (verdict a = tcActShot)).toNat := by
    intro a
    by_cases ha : a = PolicyAction.deny.code <;> simp [fastGains, verdict_eq_shot, ha]
  rcases event_cases s e with ⟨hk, hg⟩ | ⟨x, skb, key, v, rfl, hk, _, e, hg⟩ | ⟨x, skb, key, rfl, hk, _, e, hg⟩
  · rw [hg]
    cases e with
    | evict k => rfl
    | policies maps => rfl
    | packet x skb => rw [shot, filter_eq, hk]; rfl
  · rw [hg, shot, e]
    exact hverdict v.policyAction
  · rw [hg, shot, e]
    exact hverdict (decision s.maps key).1

/-- Each parsed packet without a session is a hit or a miss. -/
theorem lookup_gains (s : Bpf) (e : BpfEvent) :
    gains s e .policyHits + gains s e .policyMisses = (sessionless s e).toNat := by
  rcases event_cases s e with ⟨hk, hg⟩ | ⟨x, skb, key, v, _, hk, hv, _, hg⟩ | ⟨x, skb, key, _, hk, hv, _, hg⟩
  · rw [hg, hg, sessionless, hk]; rfl
  · rw [hg, hg, sessionless, hk, Option.any_some, hv]; rfl
  · rw [hg, hg, sessionless, hk, Option.any_some, hv]
    by_cases hh : Hit s.maps key <;> simp [slowGains, hh]

theorem created_gains (s : Bpf) (e : BpfEvent) : gains s e .newSessions = (sessionCreated s e).toNat := by
  rcases event_cases s e with ⟨hk, hg⟩ | ⟨x, skb, key, v, _, hk, hv, _, hg⟩ | ⟨x, skb, key, rfl, hk, hv, e, hg⟩
  · rw [hg, sessionCreated, hk]; rfl
  · rw [hg, sessionCreated, hk, Option.any_some, hv]; rfl
  · rw [hg, sessionCreated, hk, Option.any_some, hv, Bpf.step, e, slowPath_sessionMap]
    cases hi : inserted x skb key s with
    | none => rw [Option.getD_none, hv]; rfl
    | some m => rw [Option.getD_some, inserted_eq_some hi, if_pos rfl]; rfl

/-! ## The processing CPU -/

theorem alike_of_anyCpu {e f : BpfEvent} (h : e.anyCpu = f.anyCpu) : e.Alike f := by
  have hmap : ∀ e : BpfEvent, e.anyCpu = e.mapExec fun x => { x with cpu := 0 } := fun e => by cases e <;> rfl
  refine alike_of_mapExec (fun x y hx => ?_) ((hmap e).symm.trans (h.trans (hmap f)))
  obtain ⟨_, hk, hi, _⟩ := Exec.mk.inj hx
  exact ⟨hi, hk⟩

/-- Runs that differ in the CPUs only have the same gains. -/
theorem tally_anyCpu (s : Bpf) {es fs : List BpfEvent} (h : es.map BpfEvent.anyCpu = fs.map BpfEvent.anyCpu) (k : StatsKey) :
    tally Bpf.step (fun s e => gains s e k) s es = tally Bpf.step (fun s e => gains s e k) s fs := by
  have hes : List.Forall₂ BpfEvent.Alike es fs := (forall₂_of_map_eq h).imp fun _ _ => alike_of_anyCpu
  exact tally_related (R := Bpf.SameSessions) (E := BpfEvent.Alike) (fun _ _ _ _ hst hef => (step_congr hef hst).1)
    (fun _ _ _ _ hst hef => (step_congr hef hst).2 k) ⟨rfl, rfl⟩ hes

/-! ## The statistics of a run -/

/-- The balance of the counters after a run. -/
structure Balanced (st : Statistics) (s₀ : Bpf) (es : List BpfEvent) : Prop where
  verdicts : st.totalPackets = st.allowedPackets + st.deniedPackets
  total : st.totalPackets = BitVec.ofNat 64 (countEvents parsed s₀ es)
  denied : st.deniedPackets = BitVec.ofNat 64 (countEvents shot s₀ es)
  lookups : st.policyHits + st.policyMisses = BitVec.ofNat 64 (countEvents sessionless s₀ es)
  sessions : st.newSessions = BitVec.ofNat 64 (countEvents sessionCreated s₀ es)

/-- **Counter conservation**: after any run of packets on any of the possible CPUs, evictions, failed inserts and
policy changes from zeroed counters, the statistics balance modulo 2^64, and they are the same for every
distribution of the packets over the CPUs. -/
theorem statistics_conserved {ncpu : Nat} {s₀ : Bpf} (h₀ : ∀ c k, s₀.statsMap c k = 0) {es : List BpfEvent}
    (hes : ∀ e ∈ es, e.OnCpus ncpu) :
    Balanced (getStatistics ncpu (run Bpf.step s₀ es)) s₀ es ∧
      ∀ fs, (∀ e ∈ fs, e.OnCpus ncpu) → fs.map BpfEvent.anyCpu = es.map BpfEvent.anyCpu →
        getStatistics ncpu (run Bpf.step s₀ fs) = getStatistics ncpu (run Bpf.step s₀ es) := by
  have hstat : ∀ fs, (∀ e ∈ fs, e.OnCpus ncpu) → ∀ k, readStat ncpu (run Bpf.step s₀ fs) k =
      (tally Bpf.step (fun s e => gains s e k) s₀ fs : U64) := by
    intro fs hfs k
    rw [readStat_run s₀ hfs, readStat_zero h₀, zero_add]
  have hcount : ∀ {k p}, (∀ s e, gains s e k = (p s e).toNat) →
      readStat ncpu (run Bpf.step s₀ es) k = BitVec.ofNat 64 (countEvents p s₀ es) := by
    intro k p hp
    rw [hstat es hes, BitVec.natCast_eq_ofNat, countEvents]
    simp only [hp]
  refine ⟨⟨?_, hcount parsed_gains, hcount shot_gains, ?_, hcount created_gains⟩, fun fs hfs hmap => ?_⟩
  · simp only [getStatistics, hstat es hes]
    rw [← Nat.cast_add, ← tally_add]
    simp only [verdict_gains]
  · simp only [getStatistics, hstat es hes]
    rw [← Nat.cast_add, ← tally_add]
    simp only [lookup_gains, countEvents, BitVec.natCast_eq_ofNat]
  · simp only [getStatistics, hstat es hes, hstat fs hfs, tally_anyCpu s₀ hmap]

/-- Two packets of a denied connection, on two CPUs; the first insert fails. -/
def deniedTwice : List BpfEvent :=
  [.packet ⟨1, 1, false, true⟩ packet443, .evict toPort443.key, .packet ⟨0, 2, true, false⟩ packet443]

theorem deniedTwice_balanced :
    Balanced (getStatistics 2 (run Bpf.step deniedSys.bpf deniedTwice)) deniedSys.bpf deniedTwice ∧
      ∀ fs, (∀ e ∈ fs, e.OnCpus 2) → fs.map BpfEvent.anyCpu = deniedTwice.map BpfEvent.anyCpu →
        getStatistics 2 (run Bpf.step deniedSys.bpf fs) = getStatistics 2 (run Bpf.step deniedSys.bpf deniedTwice) :=
  statistics_conserved (fun _ _ => rfl) (by simp [deniedTwice, BpfEvent.OnCpus, BpfEvent.cpu])

end Microseg
