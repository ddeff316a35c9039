import Microseg.Accounting
import Microseg.Events
import Microseg.FlowMachine
/-!
# The event log of a run (`tc_microsegment.bpf.c:209-243`, `dataplane.go:246-288`)

A record is submitted by the packet that creates a session, if the action is DENY or LOG and the ring buffer has
room. So the records of a run are those of its created sessions, in order, but for the allowed ones (`silent`)
and for those that found no room (`dropped`), which nothing else counts: the program ignores a failing
reservation. `events_accounted` is the balance with `STATS_NEW_SESSIONS`, and what the agent logs when it reads the
ring buffer until it is closed.
-/
namespace Microseg
open Words GoNet KernelMap Runs Projection

/-! ## What is submitted -/

/-- The reservation of the execution finds room. -/
def BpfEvent.reserveOk : BpfEvent → Bool
  | .packet x _ => x.reserveOk
  | _ => false

/-- The new session's action is one that is reported. -/
def reportable (s : Bpf) (e : BpfEvent) : Bool := e.key.any fun key => Reported (decision s.maps key).1

/-- A session is created and not reported, as its action is not. -/
def silent (s : Bpf) (e : BpfEvent) : Bool := sessionCreated s e && !reportable s e

/-- A session is created whose record finds no room. -/
def dropped (s : Bpf) (e : BpfEvent) : Bool := sessionCreated s e && reportable s e && !e.reserveOk

/-- The record of a packet that creates a session. -/
def recordOf (key : FlowKey) (x : Exec) (skb : SkBuff) (action : U8) : FlowEvent :=
  ⟨key, x.ktime, 1, skb.len.setWidth 64, action, 0⟩

/-- **One event** creates no session and submits nothing, or creates one and submits what is to be reported of it. -/
theorem submitted_cases (s : Bpf) (e : BpfEvent) :
    ((s.step e).flowEvents = s.flowEvents ∧ sessionCreated s e = false) ∨
    ∃ x skb key, e = .packet x skb ∧ e.key = some key ∧ s.sessionMap.lookup key = none ∧ sessionCreated s e = true ∧
      (s.step e).flowEvents = s.flowEvents ++ x.report key (decision s.maps key).1 x.ktime skb.len := by
  have hcreated := created_gains s e
  rcases event_cases s e with ⟨hk, hg⟩ | ⟨x, skb, key, v, rfl, hk, hv, h, hg⟩ | ⟨x, skb, key, rfl, hk, hv, h, hg⟩ <;>
    rw [hg] at hcreated
  · refine Or.inl ⟨?_, Bool.toNat_eq_zero.1 hcreated.symm⟩
    cases e with
    | evict key => rfl
    | policies maps => rfl
    | packet x skb => rw [Bpf.step, filter_eq, hk]
  · refine Or.inl ⟨?_, Bool.toNat_eq_zero.1 hcreated.symm⟩
    rw [Bpf.step, h]; rfl
  · cases hi : inserted x skb key s with
    | none =>
      rw [hi] at hcreated
      refine Or.inl ⟨?_, Bool.toNat_eq_zero.1 hcreated.symm⟩
      rw [Bpf.step, h, slowPath_flowEvents, hi]
      exact List.append_nil _
    | some m =>
      rw [hi] at hcreated
      refine Or.inr ⟨x, skb, key, rfl, hk, hv, Bool.toNat_eq_one.1 hcreated.symm, ?_⟩
      rw [Bpf.step, h, slowPath_flowEvents, hi]; rfl

theorem flowEvents_step (s : Bpf) (e : BpfEvent) : (s.step e).flowEvents = s.flowEvents ++ submitted s e := by
  rw [submitted]
  rcases submitted_cases s e with ⟨h, _⟩ | ⟨x, skb, key, _, _, _, _, h⟩
  · rw [h, List.drop_length, List.append_nil]
  · rw [h, List.drop_left]

/-- A submitted record is that of the session created. -/
theorem mem_submitted {s : Bpf} {e : BpfEvent} {r : FlowEvent} (h : r ∈ submitted s e) :
    ∃ x skb key, e = .packet x skb ∧ e.key = some key ∧ s.sessionMap.lookup key = none ∧
      Reported (decision s.maps key).1 ∧ r = recordOf key x skb (decision s.maps key).1 := by
  rw [submitted] at h
  rcases submitted_cases s e with ⟨hsame, _⟩ | ⟨x, skb, key, he, hk, hv, _, happ⟩
  · rw [hsame, List.drop_length] at h
    cases h
  · rw [happ, List.drop_left, Exec.report] at h
    split at h
    · next hr => exact ⟨x, skb, key, he, hk, hv, hr.1, List.mem_singleton.1 h⟩
    · cases h

/-- **A created session** is recorded, silent or dropped. -/
theorem created_balance (s : Bpf) (e : BpfEvent) :
    (submitted s e).length + (dropped s e).toNat + (silent s e).toNat = (sessionCreated s e).toNat := by
  rw [submitted, dropped, silent]
  rcases submitted_cases s e with ⟨hsame, hc⟩ | ⟨x, skb, key, rfl, hk, _, hc, happ⟩
  · rw [hsame, hc, List.drop_length]; rfl
  · have hr : reportable s (.packet x skb) = decide (Reported (decision s.maps key).1) := by
      rw [reportable, hk, Option.any_some]
    rw [happ, hc, List.drop_left, hr, BpfEvent.reserveOk, Exec.report]
    by_cases ha : Reported (decision s.maps key).1 <;> cases x.reserveOk <;> simp [ha]

/-! ## The log -/

/-- The records of a run, in order. -/
def records (s : Bpf) (es : List BpfEvent) : List FlowEvent := outputs Bpf.step submitted s es

theorem flowEvents_run (s : Bpf) (es : List BpfEvent) : (run Bpf.step s es).flowEvents = s.flowEvents ++ records s es := by
  induction es generalizing s with
  | nil => exact (List.append_nil _).symm
  | cons e es ih =>
    have hrun : run Bpf.step s (e :: es) = run Bpf.step (s.step e) es := rfl
    rw [hrun, ih, flowEvents_step, List.append_assoc]; rfl

/-- The timestamp is the time of the execution. -/
theorem submitted_timestamp (s : Bpf) (e : BpfEvent) :
    ((submitted s e).map FlowEvent.timestamp).Sublist e.ktime.toList := by
  rw [submitted]
  rcases submitted_cases s e with ⟨hsame, _⟩ | ⟨x, skb, key, rfl, _, _, _, happ⟩
  · rw [hsame, List.drop_length]
    exact List.nil_sublist _
  · rw [happ, List.drop_left, Exec.report]
    split
    · exact List.Sublist.refl _
    · exact List.nil_sublist _

/-- The line of a record: the addresses of its key, and the ports and the protocol as they stand there. -/
def FlowEvent.logLine (r : FlowEvent) : LogLine :=
  .info (ParsedEvent.line ⟨intToIP r.key.srcIp, r.key.srcPort, intToIP r.key.dstIp, r.key.dstPort, r.key.protocol⟩)

/-- The agent logs a line for each record until the ring buffer is closed. -/
theorem monitor_records {rs : List FlowEvent} {raws : List (List U8)}
    (h : List.Forall₂ (fun r raw => ∃ pad, raw = FlowEvent.store r pad) rs raws) :
    monitorFlowEvents (raws.map ReadResult.record ++ [.closed]) =
      .info "Starting flow event monitoring" :: rs.map FlowEvent.logLine ++ [.info "Ring buffer closed"] := by
  have hclosed : ReadResult.closed ∉ raws.map ReadResult.record := by
    intro hmem
    obtain ⟨raw, _, hraw⟩ := List.mem_map.1 hmem
    cases hraw
  rw [monitorFlowEvents, monitorLoop_append _ _ hclosed, List.map_map]
  refine congrArg (_ :: ·) (congrArg (· ++ _) ?_)
  clear hclosed
  induction h with
  | nil => rfl
  | @cons r raw rs raws hr _ ih =>
    obtain ⟨pad, rfl⟩ := hr
    rw [List.map_cons, List.map_cons, ih, Function.comp_apply, ReadResult.line, parseFlowEvent_store]; rfl

/-- The events of a run. -/
structure EventBooks (s₀ : Bpf) (es : List BpfEvent) : Prop where
  submitted : (run Bpf.step s₀ es).flowEvents = s₀.flowEvents ++ records s₀ es
  balance : (records s₀ es).length + countEvents dropped s₀ es + countEvents silent s₀ es =
    countEvents sessionCreated s₀ es
  each : ∀ r ∈ records s₀ es, ∃ pre x skb key post, es = pre ++ .packet x skb :: post ∧
    (BpfEvent.packet x skb).key = some key ∧ (run Bpf.step s₀ pre).sessionMap.lookup key = none ∧
    Reported (decision (run Bpf.step s₀ pre).maps key).1 ∧
    r = recordOf key x skb (decision (run Bpf.step s₀ pre).maps key).1
  ordered : ClockMonotone es → ((records s₀ es).map FlowEvent.timestamp).Pairwise (· ≤ ·)
  logged : ∀ raws, List.Forall₂ (fun r raw => ∃ pad, raw = FlowEvent.store r pad) (records s₀ es) raws →
    monitorFlowEvents (raws.map ReadResult.record ++ [.closed]) =
      .info "Starting flow event monitoring" :: (records s₀ es).map FlowEvent.logLine ++ [.info "Ring buffer closed"]

/-- **The event log**: over any run from any state, the records are those of the sessions created, one each, less the
allowed sessions and those without room in the ring buffer; each carries the key, time, length and action of the
packet that created the session, they come in the order of their timestamps, and an agent that reads them all logs
one line for each in this order. -/
theorem events_accounted (s₀ : Bpf) (es : List BpfEvent) : EventBooks s₀ es where
  submitted := flowEvents_run s₀ es
  balance := by
    rw [records, length_outputs, countEvents, countEvents, countEvents, ← tally_add, ← tally_add]
    simp only [created_balance]
  each r hr := by
    obtain ⟨pre, e, post, rfl, he⟩ := mem_outputs hr
    obtain ⟨x, skb, key, rfl, hk, hv, ha, rfl⟩ := mem_submitted he
    exact ⟨pre, x, skb, key, post, rfl, hk, hv, ha, rfl⟩
  ordered hclock := List.Pairwise.sublist (outputs_sublist submitted_timestamp s₀ es) hclock
  logged _ h := monitor_records h

end Microseg
