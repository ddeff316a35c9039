import Microseg.Lib.Projection
import Microseg.Traffic
/-!
# One flow as a machine of its own (`tc_microsegment.bpf.c:154-320`)

The program serves all flows from the same maps, but what becomes of one flow depends on little: its session,
the exact entry under its key and the wildcard entry that the scan picks for it (`FlowView`). `FlowView.step` is
the life of one flow, written without any map. `flow_projects` shows that the maps are such machines side by
side: a run of the program looks to each flow like the run of its machine over the flow's own packets,
evictions and policy changes, verdict by verdict and record by record (`flow_refines`). So no flow has an
influence on another (`flows_isolated`), as long as the session map has room for new sessions: it is an LRU map,
which evicts a session before it refuses one.

| here | there |
| --- | --- |
| `FlowView.session`, `exact`, `best` | `session` (`:262`), `policy` (`:156`), `best_match` (`:170`) |
| `Outcome` | the verdict (`:286`, `:312`) and the records submitted (`:227-239`) |
-/
namespace Microseg
open Words KernelMap Runs Projection

/-! ## The machine -/

/-- What one flow sees of the maps. -/
structure FlowView where
  session : Option SessionValue
  exact : Option PolicyValue
  best : Option WildcardPolicy
deriving DecidableEq

/-- What can happen to one flow. -/
inductive FlowStep where
  /-- A packet of the flow, of this length. -/
  | packet (x : Exec) (len : U32)
  | evict
  /-- The policies for the flow are replaced. -/
  | policies (exact : Option PolicyValue) (best : Option WildcardPolicy)
deriving DecidableEq

/-- What comes of a packet. -/
structure Outcome where
  verdict : Int
  records : List FlowEvent
deriving DecidableEq

namespace FlowView

/-- The exact entry decides, or else the wildcard entry. -/
def decision (v : FlowView) : U8 × U32 :=
  match v.exact with
  | some policy => (policy.action, policy.ruleId)
  | none => answer v.best

def step (v : FlowView) : FlowStep → FlowView
  | .packet x len =>
    match v.session with
    | some session => { v with session := some (touch x len session) }
    | none => { v with
        session := if x.insertOk then some (newSession v.decision.1 x.ktime len) else none
        exact := v.exact.map fun policy => { policy with hitCount := policy.hitCount + 1 } }
  | .evict => { v with session := none }
  | .policies exact best => { v with exact, best }

/-- The outcome of the flow's packets. -/
def out (key : FlowKey) (v : FlowView) : FlowStep → List Outcome
  | .packet x len =>
    match v.session with
    | some session => [⟨verdict session.policyAction, []⟩]
    | none => [⟨verdict v.decision.1, if x.insertOk then x.report key v.decision.1 x.ktime len else []⟩]
  | _ => []

end FlowView

/-! ## The flow in the maps -/

def Bpf.view (key : FlowKey) (s : Bpf) : FlowView :=
  ⟨s.sessionMap.lookup key, s.maps.policyMap.lookup key, bestMatch key s.maps.wildcardPolicyMap⟩

/-- The event as the flow sees it, if it does. The CPU has no meaning for a flow. -/
def BpfEvent.seenBy (key : FlowKey) : BpfEvent → Option FlowStep
  | .packet x skb => if (BpfEvent.packet x skb).key = some key then some (.packet { x with cpu := 0 } skb.len) else none
  | .evict k => if k = key then some .evict else none
  | .policies m => some (.policies (m.policyMap.lookup key) (bestMatch key m.wildcardPolicyMap))

/-- The records an event submits. -/
def submitted (s : Bpf) (e : BpfEvent) : List FlowEvent := (s.step e).flowEvents.drop s.flowEvents.length

/-- What comes of the flow's packets. -/
def outcome (key : FlowKey) (s : Bpf) : BpfEvent → List Outcome
  | .packet x skb =>
    if (BpfEvent.packet x skb).key = some key then
      [⟨(tcMicrosegmentFilter x skb s).2, submitted s (.packet x skb)⟩]
    else []
  | _ => []

/-- A packet of the flow finds room for a session. -/
def RoomFor (key : FlowKey) (s : Bpf) (e : BpfEvent) : Prop :=
  e.key = some key → s.sessionMap.size < maxEntriesSession

instance (key : FlowKey) (s : Bpf) (e : BpfEvent) : Decidable (RoomFor key s e) :=
  inferInstanceAs (Decidable (_ → _))

theorem view_decision (key : FlowKey) (s : Bpf) : (s.view key).decision = decision s.maps key := by
  simp only [FlowView.decision, Bpf.view]
  cases hx : s.maps.policyMap.lookup key with
  | some v => exact (decision_exact hx).symm
  | none => exact (decision_scan hx).symm

/-- Where there is room, an insert succeeds whenever there is memory. -/
theorem inserted_isSome {x : Exec} {skb : SkBuff} {key : FlowKey} {s : Bpf} (hnone : s.sessionMap.lookup key = none)
    (hroom : s.sessionMap.size < maxEntriesSession) : (inserted x skb key s).isSome = x.insertOk := by
  unfold inserted Exec.insert
  cases x.insertOk with
  | false => rfl
  | true =>
    obtain ⟨m, hm⟩ := HashMap.exists_put (k := key) (Or.inr hroom) (newSession (decision s.maps key).1 x.ktime skb.len)
    rw [if_pos rfl, HashMap.putNew_eq_some.2 ⟨hnone, hm⟩]; rfl

/-! ## A packet, seen by each flow -/

section Packet

variable {x : Exec} {skb : SkBuff} {k : FlowKey} {s : Bpf}

/-- A packet served from its session. -/
theorem view_fastPath {v : SessionValue} (hv : s.sessionMap.lookup k = some v) (key : FlowKey) :
    (fastPath x skb k v s).view key =
      if key = k then { s.view key with session := some (touch x skb.len v) } else s.view key := by
  have hmaps : (fastPath x skb k v s).maps = s.maps := rfl
  rw [Bpf.view, hmaps, fastPath_sessionMap, HashMap.lookup_modify]
  split
  · next h => rw [hv, h]; rfl
  · rfl

/-- A packet decided by the policies. -/
theorem view_slowPath (hnone : s.sessionMap.lookup k = none) (key : FlowKey) :
    (slowPath x skb k s).view key =
      if key = k then { s.view key with
        session := if (inserted x skb k s).isSome then some (newSession (decision s.maps k).1 x.ktime skb.len) else none
        exact := (s.maps.policyMap.lookup key).map fun policy => { policy with hitCount := policy.hitCount + 1 } }
      else s.view key := by
  have hexact : (countHit s.maps k).policyMap.lookup key =
      if key = k then (s.maps.policyMap.lookup k).map fun policy => { policy with hitCount := policy.hitCount + 1 }
      else s.maps.policyMap.lookup key := HashMap.lookup_modify _ k key _
  have hsession : ((inserted x skb k s).getD s.sessionMap).lookup key =
      if key = k then
        (if (inserted x skb k s).isSome then some (newSession (decision s.maps k).1 x.ktime skb.len) else none)
      else s.sessionMap.lookup key := by
    cases hi : inserted x skb k s with
    | some m => simp only [Option.getD_some, inserted_eq_some hi, Option.isSome_some, ↓reduceIte]
    | none =>
      by_cases hk : key = k
      · simp [hk, hnone]
      · simp [hk]
  rw [Bpf.view, slowPath_maps, slowPath_sessionMap, hsession, hexact]
  split
  · next hk => subst hk; rfl
  · rfl

/-- A flow does not see the packets of another. -/
theorem view_other {key : FlowKey} (h : (BpfEvent.packet x skb).key ≠ some key) :
    (s.step (.packet x skb)).view key = s.view key := by
  rw [Bpf.step, filter_eq]
  cases hk : (BpfEvent.packet x skb).key with
  | none => rfl
  | some k =>
    have hne : key ≠ k := fun he => h (by rw [hk, he])
    cases hs : s.sessionMap.lookup k with
    | some v => simp only [hs, view_fastPath hs, if_neg hne]
    | none => simp only [hs, view_slowPath hs, if_neg hne]

/-- A flow's own packet moves its machine. -/
theorem view_own {key : FlowKey} (hk : (BpfEvent.packet x skb).key = some key)
    (hroom : s.sessionMap.size < maxEntriesSession) :
    (s.step (.packet x skb)).view key = (s.view key).step (.packet { x with cpu := 0 } skb.len) := by
  rw [Bpf.step, filter_eq, hk]
  cases hs : s.sessionMap.lookup key with
  | some v =>
    have hsession : (s.view key).session = some v := hs
    simp only [hs, view_fastPath hs, ↓reduceIte, FlowView.step, hsession]
    rfl
  | none =>
    have hsession : (s.view key).session = none := hs
    simp only [hs, view_slowPath hs, ↓reduceIte, FlowView.step, hsession, inserted_isSome hs hroom, view_decision]
    rfl

theorem outcome_own {key : FlowKey} (hk : (BpfEvent.packet x skb).key = some key)
    (hroom : s.sessionMap.size < maxEntriesSession) :
    outcome key s (.packet x skb) = (s.view key).out key (.packet { x with cpu := 0 } skb.len) := by
  rw [outcome, if_pos hk, submitted, Bpf.step, filter_eq, hk]
  cases hs : s.sessionMap.lookup key with
  | some v =>
    have hsession : (s.view key).session = some v := hs
    have hevents : (fastPath x skb key v s).flowEvents = s.flowEvents := rfl
    simp only [hs, FlowView.out, hsession, hevents, List.drop_length]
  | none =>
    have hsession : (s.view key).session = none := hs
    simp only [hs, FlowView.out, hsession, slowPath_flowEvents, List.drop_left, inserted_isSome hs hroom, view_decision]
    rfl

end Packet

/-! ## The maps are machines side by side -/

/-- **Each flow** is a component of the maps. -/
theorem flow_projects (key : FlowKey) :
    Projects Bpf.step FlowView.step (outcome key) (FlowView.out key) (Bpf.view key) (BpfEvent.seenBy key) (RoomFor key) where
  seen s e f hroom hf := by
    cases e with
    | packet x skb =>
      by_cases hk : (BpfEvent.packet x skb).key = some key
      · rw [BpfEvent.seenBy, if_pos hk] at hf
        cases hf
        exact ⟨view_own hk (hroom hk), outcome_own hk (hroom hk)⟩
      · rw [BpfEvent.seenBy, if_neg hk] at hf
        cases hf
    | evict k =>
      by_cases hk : k = key
      · rw [BpfEvent.seenBy, if_pos hk] at hf
        cases hf
        refine ⟨?_, rfl⟩
        rw [Bpf.view, Bpf.step, HashMap.lookup_erase, if_pos hk.symm]; rfl
      · rw [BpfEvent.seenBy, if_neg hk] at hf
        cases hf
    | policies m =>
      cases hf
      exact ⟨rfl, rfl⟩
  unseen s e _ hnone := by
    cases e with
    | packet x skb =>
      by_cases hk : (BpfEvent.packet x skb).key = some key
      · rw [BpfEvent.seenBy, if_pos hk] at hnone
        cases hnone
      · exact ⟨view_other hk, if_neg hk⟩
    | evict k =>
      by_cases hk : k = key
      · rw [BpfEvent.seenBy, if_pos hk] at hnone
        cases hnone
      · refine ⟨?_, rfl⟩
        rw [Bpf.view, Bpf.step, HashMap.lookup_erase, if_neg (Ne.symm hk)]; rfl
    | policies m => cases hnone

/-- **The program refines one small machine for each flow**: after any run in which the flow's packets find room for a
session, the flow's session, exact entry and best match are those of its machine after the flow's own events, and the
packets of the flow have had the machine's verdicts and have submitted its records. -/
theorem flow_refines (key : FlowKey) (s₀ : Bpf) {es : List BpfEvent} (hroom : Along Bpf.step (RoomFor key) s₀ es) :
    (run Bpf.step s₀ es).view key = run FlowView.step (s₀.view key) (es.filterMap (BpfEvent.seenBy key)) ∧
      outputs Bpf.step (outcome key) s₀ es =
        outputs FlowView.step (FlowView.out key) (s₀.view key) (es.filterMap (BpfEvent.seenBy key)) :=
  ⟨(flow_projects key).run hroom, (flow_projects key).outputs hroom⟩

/-- The first packet of a connection from another port. -/
def packet443' : SkBuff := ⟨({ toPort443 with srcPort := 40001, noPorts := fun h => absurd rfl h } : Flow).frame.bytes, 54⟩

/-- The denied connection, with and without another one beside it. -/
def shared : List BpfEvent :=
  [.packet ⟨0, 1, true, true⟩ packet443, .packet ⟨1, 2, true, true⟩ packet443', .evict toPort443.key,
    .packet ⟨1, 3, true, true⟩ packet443', .packet ⟨0, 4, true, false⟩ packet443]

def alone : List BpfEvent :=
  [.packet ⟨0, 1, true, true⟩ packet443, .evict toPort443.key, .packet ⟨1, 4, true, false⟩ packet443]

theorem shared_refines :
    (run Bpf.step deniedSys.bpf shared).view toPort443.key =
        run FlowView.step (deniedSys.bpf.view toPort443.key) (shared.filterMap (BpfEvent.seenBy toPort443.key)) ∧
      outputs Bpf.step (outcome toPort443.key) deniedSys.bpf shared =
        outputs FlowView.step (FlowView.out toPort443.key) (deniedSys.bpf.view toPort443.key)
          (shared.filterMap (BpfEvent.seenBy toPort443.key)) :=
  flow_refines toPort443.key deniedSys.bpf (by decide +kernel)

end Microseg
