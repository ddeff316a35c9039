import Microseg.Exhaustion
import Microseg.Statistics
import Microseg.Lib.RelyGuarantee
/-!
# The TC program on several CPUs at once (`tc_microsegment.bpf.c:63-320`)

Every CPU runs the program on its own packets, over one `session_map` and one pair of policy maps. Here an execution is
no longer one step: each lookup, load, store, insert and submission is an operation of its own (`Atomic.Prog`), and the
CPUs take turns at them in any order. Counters in a map element (`packets_to_server`, `hit_count`) are loaded and stored
without a lock, so two CPUs may lose an increment.

| here | source |
|---|---|
| `loadSession`, `storeSession` | accesses through `session` (`:270-277`) |
| `loadPolicy`, `storePolicy` | accesses through `policy` (`:156-163`) |
| `scan` | one lookup of `wildcard_policy_map` for each slot (`:174-195`) |
| `serve` | the packets of one CPU, one after another |

An element is never taken out of its map here: evictions and the control plane stand still. A wildcard slot is only
read, so its lookup and the comparison are one operation. `tcMicrosegmentFilter_run`: alone, the operations add up to
the execution of `Microseg.Filter`.
-/
namespace Microseg.Multicore
open Words KernelMap Atomic Prog

/-! ## The program, access by access -/

/-- The load and the store of `*count += 1` (`:67`). -/
def loadStat (cpu : Nat) (key : StatsKey) : Prog Bpf U64 := act fun s => (s, s.statsMap cpu key)

def setStat (cpu : Nat) (key : StatsKey) (count : U64) (s : Bpf) : Bpf :=
  { s with statsMap := fun c k => if c = cpu ∧ k = key then count else s.statsMap c k }

def storeStat (cpu : Nat) (key : StatsKey) (count : U64) : Prog Bpf Unit := act fun s => (setStat cpu key count s, ())

/-- `update_stats` (`:63`). -/
def updateStats (cpu : Nat) (key : StatsKey) : Prog Bpf Unit := do
  let count ← loadStat cpu key
  storeStat cpu key (count + 1)

/-- `bpf_map_lookup_elem(&session_map, key)`: a pointer, with what it points at for want of an element. -/
def sessionLookup (key : FlowKey) : Prog Bpf (Option SessionValue) := act fun s => (s, s.sessionMap.lookup key)

def loadSession {α : Type} (key : FlowKey) (session : SessionValue) (field : SessionValue → α) : Prog Bpf α :=
  act fun s => (s, field ((s.sessionMap.lookup key).getD session))

def storeSession (key : FlowKey) (field : SessionValue → SessionValue) : Prog Bpf Unit :=
  act fun s => ({ s with sessionMap := s.sessionMap.modify key field }, ())

/-- `bpf_map_lookup_elem(&policy_map, key)`. -/
def policyLookup (key : FlowKey) : Prog Bpf (Option PolicyValue) := act fun s => (s, s.maps.policyMap.lookup key)

def loadPolicy {α : Type} (key : FlowKey) (policy : PolicyValue) (field : PolicyValue → α) : Prog Bpf α :=
  act fun s => (s, field ((s.maps.policyMap.lookup key).getD policy))

def storePolicy (key : FlowKey) (field : PolicyValue → PolicyValue) : Prog Bpf Unit :=
  act fun s => ({ s with maps.policyMap := s.maps.policyMap.modify key field }, ())

/-- The loop (`:174-195`), over the indices that are left. -/
def scan (key : FlowKey) : List Nat → Best → Prog Bpf Best
  | [], best => pure best
  | i :: is, best =>
    if i ≥ maxEntriesWildcardPolicy then pure best
    else do
      let best ← act fun s => (s, scanSlot key s.maps.wildcardPolicyMap i best)
      scan key is best

/-- `lookup_policy_action` (`:154`). -/
def lookupPolicyAction (cpu : Nat) (key : FlowKey) : Prog Bpf (U8 × U32) := do
  match ← policyLookup key with
  | some policy =>
    let hitCount ← loadPolicy key policy PolicyValue.hitCount
    storePolicy key fun v => { v with hitCount := hitCount + 1 }
    updateStats cpu .policyHits
    let ruleId ← loadPolicy key policy PolicyValue.ruleId
    let action ← loadPolicy key policy PolicyValue.action
    pure (action, ruleId)
  | none =>
    let best ← scan key (List.range scanLimit) (none, 0)
    match best.1 with
    | some best =>
      updateStats cpu .policyHits
      pure (best.action, best.ruleId)
    | none =>
      updateStats cpu .policyMisses
      pure (PolicyAction.allow.code, 0)

/-- `bpf_map_update_elem(&session_map, key, &new_session, BPF_NOEXIST)`, which the kernel does under the bucket's lock. -/
def sessionInsert (x : Exec) (key : FlowKey) (session : SessionValue) : Prog Bpf Bool :=
  act fun s =>
    match x.insert key session s.sessionMap with
    | none => (s, false)
    | some sessionMap => ({ s with sessionMap }, true)

def submit (event : FlowEvent) : Prog Bpf Unit := act fun s => ({ s with flowEvents := s.flowEvents ++ [event] }, ())

/-- `create_session` (`:209`). -/
def createSession (x : Exec) (key : FlowKey) (action : U8) (ts : U64) (packetLen : U32) : Prog Bpf Bool := do
  let created ← sessionInsert x key (newSession action ts packetLen)
  if created then
    updateStats x.cpu .newSessions
    if Reported action ∧ x.reserveOk = true then
      submit ⟨key, ts, 1, packetLen.setWidth 64, action, 0⟩
  pure created

/-- The verdict, counted (`:280-289`, `:311-319`). -/
def enforce (cpu : Nat) (action : U8) : Prog Bpf Int :=
  if action = PolicyAction.deny.code then do
    updateStats cpu .deniedPackets
    pure tcActShot
  else do
    updateStats cpu .allowedPackets
    pure tcActOk

/-- `tc_microsegment_filter` (`:247`). -/
def tcMicrosegmentFilter (x : Exec) (skb : SkBuff) : Prog Bpf Int :=
  match extractFlowKey skb with
  | some (some key) => do
    updateStats x.cpu .totalPackets
    match ← sessionLookup key with
    | some session =>
      let action ← loadSession key session SessionValue.policyAction
      storeSession key fun v => { v with lastSeenTs := x.ktime }
      let packets ← loadSession key session SessionValue.packetsToServer
      storeSession key fun v => { v with packetsToServer := packets + 1 }
      let bytes ← loadSession key session SessionValue.bytesToServer
      storeSession key fun v => { v with bytesToServer := bytes + skb.len.setWidth 64 }
      enforce x.cpu action
    | none =>
      let (action, _) ← lookupPolicyAction x.cpu key
      let _ ← createSession x key action x.ktime skb.len
      enforce x.cpu action
  | _ => pure tcActOk

/-- The packets of one CPU: one execution ends before the next begins. -/
def serve : List (Exec × SkBuff) → Prog Bpf (List Int)
  | [] => pure []
  | (x, skb) :: packets => do
    let verdict ← tcMicrosegmentFilter x skb
    let verdicts ← serve packets
    pure (verdict :: verdicts)

/-! ## Alone -/

@[simp] theorem updateStats_run (cpu : Nat) (key : StatsKey) (s : Bpf) :
    (updateStats cpu key).run s = (Microseg.updateStats cpu key s, ()) := by
  have hcount : setStat cpu key (s.statsMap cpu key + 1) s = Microseg.updateStats cpu key s := by
    simp only [setStat, Microseg.updateStats]
    congr 1
    funext c k
    by_cases hc : c = cpu ∧ k = key
    · rw [if_pos hc, if_pos hc, hc.1, hc.2]
    · rw [if_neg hc, if_neg hc]
  simp only [updateStats, loadStat, storeStat, run_bind, run_act, hcount]

theorem scan_run (key : FlowKey) (is : List Nat) (best : Best) (s : Bpf) :
    (scan key is best).run s = (s, Microseg.scan key s.maps.wildcardPolicyMap is best) := by
  induction is generalizing best with
  | nil => rfl
  | cons i is ih =>
    rw [scan, Microseg.scan]
    split
    · rfl
    · rw [run_bind, run_act, ih]

theorem lookupPolicyAction_run (cpu : Nat) (key : FlowKey) (s : Bpf) :
    (lookupPolicyAction cpu key).run s = Microseg.lookupPolicyAction cpu key s := by
  simp only [lookupPolicyAction, policyLookup, run_bind, run_act, Microseg.lookupPolicyAction]
  cases hp : s.maps.policyMap.lookup key with
  | some policy =>
    have hmodify : s.maps.policyMap.modify key (fun v => { v with hitCount := policy.hitCount + 1 }) =
        s.maps.policyMap.modify key fun v => { v with hitCount := v.hitCount + 1 } := HashMap.modify_congr hp rfl
    simp only [loadPolicy, storePolicy, run_bind, run_act, run_pure, updateStats_run, hp, Option.getD_some, hmodify,
      updateStats_maps, HashMap.lookup_modify, if_true, Option.map_some]
  | none =>
    simp only [run_bind, scan_run, bestMatch]
    cases (Microseg.scan key s.maps.wildcardPolicyMap (List.range scanLimit) (none, 0)).1 <;>
      simp only [run_bind, run_pure, updateStats_run]

theorem createSession_run (x : Exec) (key : FlowKey) (action : U8) (ts : U64) (packetLen : U32) (s : Bpf) :
    (createSession x key action ts packetLen).run s = Microseg.createSession x key action ts packetLen s := by
  rw [createSession_eq, createSession, sessionInsert, run_bind, run_act]
  cases x.insert key (newSession action ts packetLen) s.sessionMap with
  | none => rfl
  | some sessionMap =>
    by_cases hr : Reported action ∧ x.reserveOk = true
    · simp only [if_true, if_pos hr, run_bind, run_pure, updateStats_run, submit, run_act, Exec.report, Microseg.updateStats]
    · simp only [if_true, if_neg hr, run_bind, run_pure, updateStats_run, Exec.report, Microseg.updateStats, List.append_nil]

theorem enforce_run (cpu : Nat) (action : U8) (s : Bpf) :
    (enforce cpu action).run s = (countVerdict cpu action s, verdict action) := by
  unfold enforce countVerdict verdict
  split <;> simp only [run_bind, run_pure, updateStats_run]

/-- The three stores to a session of which nobody else knows. -/
theorem touch_modify {m : HashMap FlowKey SessionValue maxEntriesSession} {key : FlowKey} {v : SessionValue}
    (hv : m.lookup key = some v) (x : Exec) (len : U32) :
    ((m.modify key fun w => { w with lastSeenTs := x.ktime }).modify key
      fun w => { w with packetsToServer := v.packetsToServer + 1 }).modify key
        (fun w => { w with bytesToServer := v.bytesToServer + len.setWidth 64 }) = m.modify key (touch x len) := by
  rw [HashMap.modify_modify, HashMap.modify_modify]
  exact HashMap.modify_congr hv rfl

/-- **Alone**, the operations of one execution add up to the execution. -/
theorem tcMicrosegmentFilter_run (x : Exec) (skb : SkBuff) (s : Bpf) :
    (tcMicrosegmentFilter x skb).run s = Microseg.tcMicrosegmentFilter x skb s := by
  rcases filter_cases x skb s with ⟨hk, he⟩ | ⟨key, v, hk, hv, he⟩ | ⟨key, hk, hv, he⟩
  · simp only [tcMicrosegmentFilter, hk, he, run_pure]
  · have hv' : (Microseg.updateStats x.cpu .totalPackets s).sessionMap.lookup key = some v := hv
    simp only [tcMicrosegmentFilter, hk, he, run_bind, updateStats_run, sessionLookup, run_act, hv', loadSession,
      storeSession, enforce_run, fastPath, Option.getD_some, HashMap.lookup_modify, if_true, Option.map_some,
      touch_modify hv']
    rfl
  · have hv' : (Microseg.updateStats x.cpu .totalPackets s).sessionMap.lookup key = none := hv
    have hlook : Microseg.lookupPolicyAction x.cpu key (Microseg.updateStats x.cpu .totalPackets s) =
        (lookedUp x key s, decision s.maps key) := Microseg.lookupPolicyAction_eq x.cpu key _
    simp only [tcMicrosegmentFilter, hk, he, run_bind, updateStats_run, sessionLookup, run_act, hv',
      lookupPolicyAction_run, createSession_run, enforce_run, slowPath, hlook]

/-! ## How long it takes -/

/-- No execution makes more accesses: the scan of every slot, and what is around it. -/
def maxAccesses : Nat := 112

theorem updateStats_within (cpu : Nat) (key : StatsKey) : Within 2 (updateStats cpu key) :=
  (within_act _).bind fun _ => within_act _

theorem scan_within (key : FlowKey) (is : List Nat) (best : Best) : Within is.length (scan key is best) := by
  induction is generalizing best with
  | nil => exact within_pure _ _
  | cons i is ih =>
    rw [scan]
    split
    · exact within_pure _ _
    · exact ((within_act _).bind fun best => ih best).mono (by rw [List.length_cons, Nat.add_comm])

theorem lookupPolicyAction_within (cpu : Nat) (key : FlowKey) : Within 103 (lookupPolicyAction cpu key) := by
  refine (within_act _).bind (n := 102) fun policy => ?_
  cases policy with
  | some policy =>
    refine Within.mono (m := 6) ?_ (by decide)
    exact (within_act _).bind fun _ => (within_act _).bind (n := 4) fun _ => (updateStats_within _ _).bind (n := 2) fun _ =>
      (within_act _).bind (n := 1) fun _ => (within_act _).bind (n := 0) fun _ => within_pure _ _
  | none =>
    refine (scan_within key (List.range scanLimit) (none, 0)).bind (n := 2) fun best => ?_
    cases best.1 with
    | some best => exact (updateStats_within _ _).bind (n := 0) fun _ => within_pure _ _
    | none => exact (updateStats_within _ _).bind (n := 0) fun _ => within_pure _ _

theorem createSession_within (x : Exec) (key : FlowKey) (action : U8) (ts : U64) (packetLen : U32) :
    Within 4 (createSession x key action ts packetLen) := by
  refine (within_act _).bind (n := 3) fun created => ?_
  cases created with
  | false => exact within_pure _ _
  | true =>
    refine (updateStats_within _ _).bind (n := 1) fun _ => ?_
    dsimp only
    split
    · exact (within_act _).bind (n := 0) fun _ => within_pure _ _
    · exact within_pure _ _

theorem enforce_within (cpu : Nat) (action : U8) : Within 2 (enforce cpu action) := by
  unfold enforce
  split
  · exact (updateStats_within _ _).bind (n := 0) fun _ => within_pure _ _
  · exact (updateStats_within _ _).bind (n := 0) fun _ => within_pure _ _

theorem filter_within (x : Exec) (skb : SkBuff) : Within maxAccesses (tcMicrosegmentFilter x skb) := by
  unfold tcMicrosegmentFilter
  split
  · refine (updateStats_within _ _).bind (n := 110) fun _ => (within_act _).bind (n := 109) fun session => ?_
    cases session with
    | some session =>
      refine Within.mono (m := 8) ?_ (by decide)
      exact (within_act _).bind (n := 7) fun _ => (within_act _).bind (n := 6) fun _ => (within_act _).bind (n := 5) fun _ =>
        (within_act _).bind (n := 4) fun _ => (within_act _).bind (n := 3) fun _ => (within_act _).bind fun _ =>
          enforce_within _ _
    | none =>
      exact (lookupPolicyAction_within _ _).bind (n := 6) fun _ => (createSession_within _ _ _ _ _).bind fun _ =>
        enforce_within _ _
  · exact within_pure _ _

/-- The accesses of a queue are bounded, whatever the other CPUs do. -/
theorem serve_within (packets : List (Exec × SkBuff)) : Within (maxAccesses * packets.length) (serve packets) := by
  induction packets with
  | nil => exact within_pure _ _
  | cons p packets ih =>
    refine ((filter_within p.1 p.2).bind fun _ => ih.bind (n := 0) fun _ => within_pure _ _).mono ?_
    rw [List.length_cons, Nat.mul_succ]
    omega

end Microseg.Multicore
