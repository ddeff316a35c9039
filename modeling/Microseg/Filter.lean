import Microseg.Packet
import Microseg.Lookup
/-!
# The TC program: `create_session` and `tc_microsegment_filter` (`tc_microsegment.bpf.c:209-320`)

One execution of the program is a function of the packet, the maps and what the kernel's helpers
answer meanwhile (`Exec`): the CPU it runs on, the clock, whether the session insert and the ring
buffer reservation succeed. `filter_cases` says everything an execution can do; the later modules
derive their facts from it and never unfold the program again.

An LRU map may evict sessions to make room. Evictions are events of their own (`Microseg.System`), so
that an insert here adds the new session or fails.
-/
namespace Microseg
open Words KernelMap

/-- `TC_ACT_OK` and `TC_ACT_SHOT` (`:10-11`). -/
def tcActOk : Int := 0
def tcActShot : Int := 2

/-- What the kernel answers during one execution. -/
structure Exec where
  cpu : Nat
  /-- `bpf_ktime_get_ns()`, called once on each path. -/
  ktime : U64
  /-- The session map has memory for a new element. -/
  insertOk : Bool
  /-- `bpf_ringbuf_reserve` finds room. -/
  reserveOk : Bool
deriving DecidableEq, Repr

/-- The initialiser of `create_session` (`:210-221`). -/
def newSession (action : U8) (ts : U64) (packetLen : U32) : SessionValue where
  createdTs := ts
  lastSeenTs := ts
  packetsToServer := 1
  packetsToClient := 0
  bytesToServer := packetLen.setWidth 64
  bytesToClient := 0
  state := sessionStateNew
  tcpState := tcpStateClosed
  policyAction := action
  flags := 0

/-- `create_session` (`:209`): the new state and whether the insert succeeded (`ret == 0`). -/
def createSession (x : Exec) (key : FlowKey) (action : U8) (ts : U64) (packetLen : U32) (s : Bpf) : Bpf × Bool :=
  match if x.insertOk then s.sessionMap.putNew key (newSession action ts packetLen) else none with
  | none => (s, false)
  | some sessionMap =>
    let s := updateStats x.cpu .newSessions { s with sessionMap }
    if action = PolicyAction.deny.code ∨ action = PolicyAction.log.code then
      if x.reserveOk then
        let event : FlowEvent := ⟨key, ts, 1, packetLen.setWidth 64, action, 0⟩
        ({ s with flowEvents := s.flowEvents ++ [event] }, true)
      else (s, true)
    else (s, true)

/-- `tc_microsegment_filter` (`:249`). -/
def tcMicrosegmentFilter (x : Exec) (skb : SkBuff) (s : Bpf) : Bpf × Int :=
  match extractFlowKey skb with
  | some (some key) =>
    let s := updateStats x.cpu .totalPackets s
    match s.sessionMap.lookup key with
    | some session =>
      let action := session.policyAction
      let s := { s with sessionMap := s.sessionMap.modify key fun v =>
        { v with
          lastSeenTs := x.ktime
          packetsToServer := v.packetsToServer + 1
          bytesToServer := v.bytesToServer + skb.len.setWidth 64 } }
      if action = PolicyAction.deny.code then (updateStats x.cpu .deniedPackets s, tcActShot)
      else (updateStats x.cpu .allowedPackets s, tcActOk)
    | none =>
      let now := x.ktime
      let (s, action, _) := lookupPolicyAction x.cpu key s
      let (s, _) := createSession x key action now skb.len s
      if action = PolicyAction.deny.code then (updateStats x.cpu .deniedPackets s, tcActShot)
      else (updateStats x.cpu .allowedPackets s, tcActOk)
  | _ => (s, tcActOk)

/-! ## What an execution does -/

/-- The verdict of an action. -/
def verdict (action : U8) : Int := if action = PolicyAction.deny.code then tcActShot else tcActOk

theorem verdict_eq_shot {action : U8} : verdict action = tcActShot ↔ action = PolicyAction.deny.code := by
  have h : tcActOk ≠ tcActShot := by decide
  unfold verdict
  split <;> simp [*]

/-- Counting a verdict. -/
def countVerdict (cpu : Nat) (action : U8) (s : Bpf) : Bpf :=
  updateStats cpu (if action = PolicyAction.deny.code then .deniedPackets else .allowedPackets) s

/-- A packet of a live session (`:272-277`). -/
def touch (x : Exec) (len : U32) (v : SessionValue) : SessionValue :=
  { v with
    lastSeenTs := x.ktime
    packetsToServer := v.packetsToServer + 1
    bytesToServer := v.bytesToServer + len.setWidth 64 }

/-- The fast path after parsing. -/
def fastPath (x : Exec) (skb : SkBuff) (key : FlowKey) (v : SessionValue) (s : Bpf) : Bpf :=
  countVerdict x.cpu v.policyAction
    { updateStats x.cpu .totalPackets s with sessionMap := s.sessionMap.modify key (touch x skb.len) }

/-- The slow path after parsing, up to the insert. -/
def lookedUp (x : Exec) (key : FlowKey) (s : Bpf) : Bpf :=
  updateStats x.cpu (if Hit s.maps key then .policyHits else .policyMisses)
    { updateStats x.cpu .totalPackets s with maps := countHit s.maps key }

/-- The slow path after parsing. -/
def slowPath (x : Exec) (skb : SkBuff) (key : FlowKey) (s : Bpf) : Bpf :=
  countVerdict x.cpu (decision s.maps key).1
    (createSession x key (decision s.maps key).1 x.ktime skb.len (lookedUp x key s)).1

@[simp] theorem updateStats_maps (cpu : Nat) (k : StatsKey) (s : Bpf) : (updateStats cpu k s).maps = s.maps := rfl

@[simp] theorem countVerdict_sessionMap (cpu : Nat) (a : U8) (s : Bpf) :
    (countVerdict cpu a s).sessionMap = s.sessionMap := rfl

@[simp] theorem countVerdict_maps (cpu : Nat) (a : U8) (s : Bpf) : (countVerdict cpu a s).maps = s.maps := rfl

/-- **One execution** rejects the packet, or serves it from its session, or decides it by the policies. -/
theorem filter_cases (x : Exec) (skb : SkBuff) (s : Bpf) :
    (extractFlowKey skb = some none ∧ tcMicrosegmentFilter x skb s = (s, tcActOk)) ∨
    (∃ key v, extractFlowKey skb = some (some key) ∧ s.sessionMap.lookup key = some v ∧
      tcMicrosegmentFilter x skb s = (fastPath x skb key v s, verdict v.policyAction)) ∨
    (∃ key, extractFlowKey skb = some (some key) ∧ s.sessionMap.lookup key = none ∧
      tcMicrosegmentFilter x skb s = (slowPath x skb key s, verdict (decision s.maps key).1)) := by
  rcases extractFlowKey_cases skb with ⟨h, _⟩ | ⟨f, h, _⟩
  · exact Or.inl ⟨h, by simp [tcMicrosegmentFilter, h]⟩
  · refine Or.inr ?_
    cases hs : s.sessionMap.lookup f.key with
    | some v =>
      refine Or.inl ⟨f.key, v, h, hs, ?_⟩
      have hs' : (updateStats x.cpu .totalPackets s).sessionMap.lookup f.key = some v := hs
      simp only [tcMicrosegmentFilter, h, hs', fastPath, countVerdict, verdict]
      split <;> rfl
    | none =>
      refine Or.inr ⟨f.key, h, hs, ?_⟩
      have hs' : (updateStats x.cpu .totalPackets s).sessionMap.lookup f.key = none := hs
      simp only [tcMicrosegmentFilter, h, hs', lookupPolicyAction_eq, slowPath, countVerdict, verdict, updateStats_maps]
      split <;> rfl

/-- The action a parsed packet meets: its session's, or else the policies'. -/
def enforced (s : Bpf) (key : FlowKey) : U8 :=
  match s.sessionMap.lookup key with
  | some v => v.policyAction
  | none => (decision s.maps key).1

theorem filter_verdict {x : Exec} {skb : SkBuff} {s : Bpf} {key : FlowKey}
    (h : extractFlowKey skb = some (some key)) : (tcMicrosegmentFilter x skb s).2 = verdict (enforced s key) := by
  rcases filter_cases x skb s with ⟨h', _⟩ | ⟨k, v, h', hv, e⟩ | ⟨k, h', hv, e⟩ <;> rw [h] at h' <;> cases h'
  · rw [e]; simp [enforced, hv]
  · rw [e]; simp [enforced, hv]

/-- The verdict is a function of the key, if there is one, and the state. -/
theorem filter_verdict_of_key (x : Exec) (skb : SkBuff) (s : Bpf) : (tcMicrosegmentFilter x skb s).2 =
    (match extractFlowKey skb with
      | some (some key) => verdict (enforced s key)
      | _ => tcActOk) := by
  rcases filter_cases x skb s with ⟨h, e⟩ | ⟨k, v, h, _, _⟩ | ⟨k, h, _, _⟩
  · rw [e, h]
  · rw [filter_verdict h, h]
  · rw [filter_verdict h, h]

/-! ## Frames: which maps an execution leaves alone -/

theorem createSession_maps (x : Exec) (key : FlowKey) (a : U8) (ts : U64) (len : U32) (s : Bpf) :
    (createSession x key a ts len s).1.maps = s.maps := by
  unfold createSession
  split
  · rfl
  · dsimp only; split_ifs <;> rfl

/-- The insert either adds exactly the new session, under a key that had none, or changes nothing. -/
theorem createSession_sessionMap (x : Exec) (key : FlowKey) (a : U8) (ts : U64) (len : U32) (s : Bpf) :
    ((createSession x key a ts len s).2 = false ∧ (createSession x key a ts len s).1 = s) ∨
    ((createSession x key a ts len s).2 = true ∧
      s.sessionMap.putNew key (newSession a ts len) = some (createSession x key a ts len s).1.sessionMap) := by
  unfold createSession
  split
  · exact Or.inl ⟨rfl, rfl⟩
  · next m hm =>
    refine Or.inr ?_
    split at hm
    · dsimp only; split_ifs <;> exact ⟨rfl, hm⟩
    · cases hm

theorem filter_maps (x : Exec) (skb : SkBuff) (s : Bpf) :
    (tcMicrosegmentFilter x skb s).1.maps = s.maps ∨
      ∃ key, (tcMicrosegmentFilter x skb s).1.maps = countHit s.maps key := by
  rcases filter_cases x skb s with ⟨_, e⟩ | ⟨k, v, _, _, e⟩ | ⟨k, _, _, e⟩ <;> rw [e]
  · exact Or.inl rfl
  · exact Or.inl rfl
  · exact Or.inr ⟨k, by rw [slowPath, countVerdict_maps, createSession_maps]; rfl⟩

end Microseg
