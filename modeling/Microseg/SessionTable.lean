import Microseg.Readings
/-!
# The session table (`tc_microsegment.bpf.c:208-305`, `common_types.h:20-64`)

`struct session_value` has a state, a TCP state, counters for the way back and flags, and the statistics have
counters for closed and active sessions. The program initialises the former and never writes them again, and never
counts the latter: every session stays new in every run (`fresh_step`), and the number of live sessions is that of
the created ones less the evicted ones, which no counter reports (`sessions_counted`).
-/
namespace Microseg
open Words KernelMap Runs

/-- A session as it was created, but for the packets to the server. -/
structure SessionValue.Fresh (v : SessionValue) : Prop where
  state : v.state = sessionStateNew
  tcpState : v.tcpState = tcpStateClosed
  packetsToClient : v.packetsToClient = 0
  bytesToClient : v.bytesToClient = 0
  flags : v.flags = 0

/-- The LRU map drops a session. -/
def evictsLive (s : Bpf) : BpfEvent → Bool
  | .evict key => (s.sessionMap.lookup key).isSome
  | _ => false

theorem fresh_new (action : U8) (ts : U64) (packetLen : U32) : (newSession action ts packetLen).Fresh :=
  ⟨rfl, rfl, rfl, rfl, rfl⟩

theorem SessionValue.Fresh.touch {v : SessionValue} (h : v.Fresh) (x : Exec) (len : U32) : (touch x len v).Fresh :=
  ⟨h.state, h.tcpState, h.packetsToClient, h.bytesToClient, h.flags⟩

/-- **One event** leaves every session as it was created. -/
theorem fresh_step {s : Bpf} {e : BpfEvent} (h : ∀ key v, s.sessionMap.lookup key = some v → v.Fresh) :
    ∀ key v, (s.step e).sessionMap.lookup key = some v → v.Fresh := by
  intro key v hv
  rcases session_cases s e key with ⟨_, hkept | ⟨_, hgone⟩⟩ | ⟨x, skb, w, _, _, hw, hcredited⟩ |
    ⟨x, skb, _, _, _, hfailed | hnew⟩
  · exact h key v (hkept ▸ hv)
  · rw [hgone] at hv; cases hv
  · rw [hcredited] at hv
    cases hv
    exact (h key w hw).touch x skb.len
  · rw [hfailed] at hv; cases hv
  · rw [hnew] at hv
    cases hv
    exact fresh_new _ _ _

/-- **The table grows** by a created session and shrinks by an evicted one. -/
theorem size_step (s : Bpf) (e : BpfEvent) :
    (s.step e).sessionMap.size + (evictsLive s e).toNat = s.sessionMap.size + (sessionCreated s e).toNat := by
  cases e with
  | policies maps => rfl
  | evict key =>
    have hoff : (s.sessionMap.erase key).size + (s.sessionMap.lookup key).isSome.toNat =
        s.sessionMap.size + ((s.sessionMap.erase key).lookup key).isSome.toNat :=
      HashMap.size_off fun x hx => by rw [HashMap.lookup_erase, if_neg hx]
    rw [HashMap.lookup_erase, if_pos rfl] at hoff
    exact hoff
  | packet x skb =>
    cases hk : (BpfEvent.packet x skb).key with
    | none =>
      have hstep : s.step (.packet x skb) = s := by rw [Bpf.step, filter_eq, hk]
      simp only [hstep, evictsLive, sessionCreated, hk]
      rfl
    | some key =>
      have hoff : (s.step (.packet x skb)).sessionMap.size + (s.sessionMap.lookup key).isSome.toNat =
          s.sessionMap.size + ((s.step (.packet x skb)).sessionMap.lookup key).isSome.toNat :=
        HashMap.size_off fun k hne => session_other (by rw [hk]; simp [Ne.symm hne])
      have hcreated : sessionCreated s (.packet x skb) =
          ((s.sessionMap.lookup key).isNone && ((s.step (.packet x skb)).sessionMap.lookup key).isSome) := by
        rw [sessionCreated, hk, Option.any_some]
      have hnone : evictsLive s (.packet x skb) = false := rfl
      rw [hnone, hcreated]
      -- a session that was there stays
      rcases session_cases s (.packet x skb) key with ⟨hne, _⟩ | ⟨y, b, v, _, _, hv, hv'⟩ | ⟨y, b, _, _, hv, hv' | hv'⟩
      · exact absurd hk hne
      · rw [hv, hv'] at hoff ⊢
        simpa using hoff
      · rw [hv, hv'] at hoff ⊢
        simpa using hoff
      · rw [hv, hv'] at hoff ⊢
        simpa using hoff

theorem size_run (s : Bpf) (es : List BpfEvent) : (run Bpf.step s es).sessionMap.size + countEvents evictsLive s es =
    s.sessionMap.size + countEvents sessionCreated s es := by
  have hstep : ∀ s e, (sessionCreated s e).toNat + s.sessionMap.size =
      (s.step e).sessionMap.size + (evictsLive s e).toNat := fun s e => by
    rw [size_step, Nat.add_comm]
  have hrun := tally_add_eq (fun s : Bpf => s.sessionMap.size) hstep s es
  exact hrun.symm.trans (Nat.add_comm _ _)

/-- The sessions of a run, and what the statistics say of them. -/
structure SessionsCounted (ncpu : Nat) (s₀ : Bpf) (es : List BpfEvent) : Prop where
  fresh : ∀ key v, (run Bpf.step s₀ es).sessionMap.lookup key = some v → v.Fresh
  live : (run Bpf.step s₀ es).sessionMap.size + countEvents evictsLive s₀ es = countEvents sessionCreated s₀ es
  reported : getSessionStats (getStatistics ncpu (run Bpf.step s₀ es)) =
    ⟨BitVec.ofNat 64 ((run Bpf.step s₀ es).sessionMap.size + countEvents evictsLive s₀ es), 0, 0⟩
  bound : (run Bpf.step s₀ es).sessionMap.size ≤ maxEntriesSession

/-- **The session table**: after any run of packets, evictions and policy changes from an empty table and zeroed
counters, every live session is still new, closed as to TCP, and without traffic to the client; the live sessions
are those created and not evicted; and the session statistics report those created, of which none is ever counted
as closed or active. -/
theorem sessions_counted {ncpu : Nat} {s₀ : Bpf} (h₀ : ∀ k, s₀.sessionMap.lookup k = none)
    (hz : ∀ c k, s₀.statsMap c k = 0) {es : List BpfEvent} (hes : ∀ e ∈ es, e.OnCpus ncpu) :
    SessionsCounted ncpu s₀ es := by
  have hempty : s₀.sessionMap = .empty := HashMap.ext_lookup fun k => by rw [h₀, HashMap.lookup_empty]
  have hsize := size_run s₀ es
  have hzero : s₀.sessionMap.size = 0 := by rw [hempty]; rfl
  rw [hzero, Nat.zero_add] at hsize
  have hread : ∀ k, readStat ncpu (run Bpf.step s₀ es) k = BitVec.ofNat 64 (gained k s₀ es) := fun k => by
    rw [readStat_run s₀ hes, readStat_zero hz, zero_add, BitVec.natCast_eq_ofNat, gained]
  have hnew : gained .newSessions s₀ es = countEvents sessionCreated s₀ es := by
    simp only [gained, countEvents, created_gains]
  refine ⟨run_keeps (I := fun s : Bpf => ∀ key v, s.sessionMap.lookup key = some v → v.Fresh) (E := fun _ => True)
    (fun _ _ h _ => fresh_step h) (fun key v hv => by rw [h₀] at hv; cases hv) fun _ _ => trivial, hsize, ?_,
    (run Bpf.step s₀ es).sessionMap.card_le⟩
  obtain ⟨hclosed, hactive⟩ := gained_inactive s₀ es
  simp only [getSessionStats, getStatistics, hread, hnew, hclosed, hactive, hsize]
  rfl

/-- A connection whose session is hit once, evicted, refused once and recreated. -/
theorem recreated_counted : SessionsCounted 2 deniedSys.bpf recreated :=
  sessions_counted HashMap.lookup_empty (fun _ _ => rfl) (by simp [recreated, BpfEvent.OnCpus, BpfEvent.cpu])

end Microseg
