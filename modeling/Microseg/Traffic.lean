import Microseg.System
/-!
# The program's maps over time

From the program's side a run is packets, evictions by the session map, and whatever the control plane
makes of the policies in between (`BpfEvent`); every run of the system is one of these (`system_run`).

An execution changes the policies in hit counts only (`sameButHits_filter`). What it does to the other maps
is said once, as an equation for the insert (`createSession_eq`) and one for each map after a packet; the
counters and the two-run results are derived from these.
-/
namespace Microseg
open Words KernelMap Runs

/-! ## What packets change -/

def stripHits (v : PolicyValue) : PolicyValue := { v with hitCount := 0 }

/-- Equal up to hit counts. -/
structure PolicyMaps.SameButHits (m m' : PolicyMaps) : Prop where
  policyMap : ∀ k, (m.policyMap.lookup k).map stripHits = (m'.policyMap.lookup k).map stripHits
  wildcardPolicyMap : m.wildcardPolicyMap = m'.wildcardPolicyMap

theorem sameButHits_refl (m : PolicyMaps) : m.SameButHits m := ⟨fun _ => rfl, rfl⟩

theorem PolicyMaps.SameButHits.trans {m m' m'' : PolicyMaps} (h : m.SameButHits m') (h' : m'.SameButHits m'') :
    m.SameButHits m'' :=
  ⟨fun k => (h.policyMap k).trans (h'.policyMap k), h.wildcardPolicyMap.trans h'.wildcardPolicyMap⟩

theorem sameButHits_countHit (m : PolicyMaps) (key : FlowKey) : m.SameButHits (countHit m key) where
  policyMap k := by
    rw [countHit, HashMap.lookup_modify]
    split
    · next h => rw [h, Option.map_map]; rfl
    · rfl
  wildcardPolicyMap := rfl

theorem sameButHits_filter (x : Exec) (skb : SkBuff) (s : Bpf) :
    s.maps.SameButHits (tcMicrosegmentFilter x skb s).1.maps := by
  rcases filter_maps x skb s with h | ⟨key, h⟩ <;> rw [h]
  · exact sameButHits_refl _
  · exact sameButHits_countHit _ key

section SameButHits

variable {m m' : PolicyMaps} (h : m.SameButHits m')

include h

theorem lookup_isSome_congr (k : PolicyKey) : (m.policyMap.lookup k).isSome = (m'.policyMap.lookup k).isSome := by
  have := congrArg Option.isSome (h.policyMap k)
  rwa [Option.isSome_map, Option.isSome_map] at this

theorem size_congr : m.policyMap.size = m'.policyMap.size := by
  have hkeys : m.policyMap.entries.keys = m'.policyMap.entries.keys := by
    ext k
    rw [HashMap.mem_keys_iff, HashMap.mem_keys_iff, lookup_isSome_congr h]
  rw [HashMap.size, HashMap.size, hkeys]

/-- The decision does not depend on hit counts. -/
theorem decision_congr (key : FlowKey) : decision m key = decision m' key := by
  have hk := h.policyMap key
  cases hm : m.policyMap.lookup key with
  | none =>
    rw [hm] at hk
    have hm' : m'.policyMap.lookup key = none := Option.map_eq_none_iff.1 hk.symm
    rw [decision_scan hm, decision_scan hm', h.wildcardPolicyMap]
  | some v =>
    rw [hm] at hk
    obtain ⟨v', hm', hv⟩ := Option.map_eq_some_iff.1 hk.symm
    have ha : (stripHits v').action = (stripHits v).action := congrArg _ hv
    have hr : (stripHits v').ruleId = (stripHits v).ruleId := congrArg _ hv
    rw [decision_exact hm, decision_exact hm']
    exact Prod.ext ha.symm hr.symm

end SameButHits

/-! ## Events -/

/-- What can happen to the program's maps. -/
inductive BpfEvent where
  | packet (x : Exec) (skb : SkBuff)
  | evict (key : FlowKey)
  /-- The control plane writes the policies. -/
  | policies (maps : PolicyMaps)

def Bpf.step (s : Bpf) : BpfEvent → Bpf
  | .packet x skb => (tcMicrosegmentFilter x skb s).1
  | .evict key => { s with sessionMap := s.sessionMap.erase key }
  | .policies maps => { s with maps }

/-- The system's event as the program sees it. -/
def Event.seen (s : Sys) : Event → BpfEvent
  | .packet x skb => .packet x skb
  | .evict key => .evict key
  | e => .policies (Microseg.step s e).bpf.maps

theorem step_bpf (s : Sys) (e : Event) : (Microseg.step s e).bpf = s.bpf.step (e.seen s) := by
  cases e with
  | packet x skb => rfl
  | evict key => rfl
  | call c => rfl
  | op i =>
    simp only [Event.seen, Microseg.step, Bpf.step]
    cases s.calls[i]? <;> rfl

/-- The events of a run of the system, as the program sees them. -/
def seenRun : Sys → List Event → List BpfEvent
  | _, [] => []
  | s, e :: es => e.seen s :: seenRun (Microseg.step s e) es

/-- **Every run of the system** is a run of the program's maps. -/
theorem system_run (s : Sys) (es : List Event) : (run Microseg.step s es).bpf = run Bpf.step s.bpf (seenRun s es) := by
  induction es generalizing s with
  | nil => rfl
  | cons e es ih =>
    calc (run Microseg.step s (e :: es)).bpf = run Bpf.step (Microseg.step s e).bpf (seenRun (Microseg.step s e) es) := ih _
      _ = run Bpf.step s.bpf (seenRun s (e :: es)) := by rw [step_bpf]; rfl

/-! ## The insert -/

/-- The insert of a session, when there is memory for it. -/
def Exec.insert (x : Exec) (key : FlowKey) (v : SessionValue) (m : HashMap FlowKey SessionValue maxEntriesSession) :
    Option (HashMap FlowKey SessionValue maxEntriesSession) :=
  if x.insertOk then m.putNew key v else none

/-- Actions that are reported (`:229`). -/
def Reported (action : U8) : Prop := action = PolicyAction.deny.code ∨ action = PolicyAction.log.code

instance (action : U8) : Decidable (Reported action) := inferInstanceAs (Decidable (_ ∨ _))

/-- The record of a new session, when it is reported and there is room for it. -/
def Exec.report (x : Exec) (key : FlowKey) (action : U8) (ts : U64) (packetLen : U32) : List FlowEvent :=
  if Reported action ∧ x.reserveOk = true then [⟨key, ts, 1, packetLen.setWidth 64, action, 0⟩] else []

/-- `create_session` changes nothing, or adds the session, counts it and reports it. -/
theorem createSession_eq (x : Exec) (key : FlowKey) (action : U8) (ts : U64) (packetLen : U32) (s : Bpf) :
    createSession x key action ts packetLen s =
      match x.insert key (newSession action ts packetLen) s.sessionMap with
      | none => (s, false)
      | some sessionMap => ({ updateStats x.cpu .newSessions s with
          sessionMap, flowEvents := s.flowEvents ++ x.report key action ts packetLen }, true) := by
  unfold createSession Exec.insert Exec.report Reported
  cases (if x.insertOk then s.sessionMap.putNew key (newSession action ts packetLen) else none) with
  | none => rfl
  | some m =>
    by_cases ha : action = PolicyAction.deny.code ∨ action = PolicyAction.log.code
    · cases hr : x.reserveOk <;> simp [ha, updateStats]
    · simp [ha, updateStats]

/-- The insert of a packet's session. -/
def inserted (x : Exec) (skb : SkBuff) (key : FlowKey) (s : Bpf) : Option (HashMap FlowKey SessionValue maxEntriesSession) :=
  x.insert key (newSession (decision s.maps key).1 x.ktime skb.len) s.sessionMap

theorem inserted_eq_some {x : Exec} {skb : SkBuff} {key : FlowKey} {s : Bpf}
    {m : HashMap FlowKey SessionValue maxEntriesSession} (h : inserted x skb key s = some m) (k : FlowKey) :
    m.lookup k = if k = key then some (newSession (decision s.maps key).1 x.ktime skb.len) else s.sessionMap.lookup k := by
  unfold inserted Exec.insert at h
  split at h
  · exact HashMap.lookup_put (HashMap.putNew_eq_some.1 h).2 k
  · cases h

/-! ## Each map after a packet -/

section Paths

variable (x : Exec) (skb : SkBuff) (key : FlowKey) (v : SessionValue) (s : Bpf)

theorem createSession_slow : createSession x key (decision s.maps key).1 x.ktime skb.len (lookedUp x key s) =
    match inserted x skb key s with
    | none => (lookedUp x key s, false)
    | some sessionMap => ({ updateStats x.cpu .newSessions (lookedUp x key s) with
        sessionMap, flowEvents := s.flowEvents ++ x.report key (decision s.maps key).1 x.ktime skb.len }, true) :=
  createSession_eq x key (decision s.maps key).1 x.ktime skb.len (lookedUp x key s)

@[simp] theorem slowPath_sessionMap : (slowPath x skb key s).sessionMap = (inserted x skb key s).getD s.sessionMap := by
  rw [slowPath, countVerdict_sessionMap, createSession_slow]
  cases inserted x skb key s <;> rfl

@[simp] theorem slowPath_maps : (slowPath x skb key s).maps = countHit s.maps key := by
  rw [slowPath, countVerdict_maps, createSession_maps]; rfl

@[simp] theorem slowPath_flowEvents : (slowPath x skb key s).flowEvents = s.flowEvents ++
    if (inserted x skb key s).isSome then x.report key (decision s.maps key).1 x.ktime skb.len else [] := by
  have hcount : ∀ (a : U8) (t : Bpf), (countVerdict x.cpu a t).flowEvents = t.flowEvents := fun _ _ => rfl
  rw [slowPath, hcount, createSession_slow]
  cases inserted x skb key s with
  | none => exact (List.append_nil _).symm
  | some m => rfl

@[simp] theorem fastPath_sessionMap :
    (fastPath x skb key v s).sessionMap = s.sessionMap.modify key (touch x skb.len) := rfl

/-- The counters a packet with a session moves. -/
def fastGains (action : U8) : StatsKey → Nat
  | .totalPackets => 1
  | .allowedPackets => if action = PolicyAction.deny.code then 0 else 1
  | .deniedPackets => if action = PolicyAction.deny.code then 1 else 0
  | _ => 0

/-- The counters a packet without a session moves. -/
def slowGains (action : U8) (hit new : Bool) : StatsKey → Nat
  | .newSessions => if new then 1 else 0
  | .policyHits => if hit then 1 else 0
  | .policyMisses => if hit then 0 else 1
  | k => fastGains action k

/-- One update, as a sum. -/
theorem updateStats_statsMap (cpu : Nat) (counter : StatsKey) (c : Nat) (k : StatsKey) :
    (updateStats cpu counter s).statsMap c k =
      s.statsMap c k + BitVec.ofNat 64 (if c = cpu then (if k = counter then 1 else 0) else 0) := by
  by_cases hc : c = cpu <;> by_cases hk : k = counter <;> simp [updateStats, hc, hk]

/-- The fast path makes two updates. -/
theorem fastGains_eq (action : U8) (k : StatsKey) :
    fastGains action k = (if k = .totalPackets then 1 else 0) +
      if k = (if action = PolicyAction.deny.code then .deniedPackets else .allowedPackets) then 1 else 0 := by
  by_cases ha : action = PolicyAction.deny.code <;> cases k <;> simp [fastGains, ha]

/-- The slow path makes three, and one more for a new session. -/
theorem slowGains_eq (action : U8) (hit new : Bool) (k : StatsKey) :
    slowGains action hit new k = (if k = .totalPackets then 1 else 0) +
      (if k = (if hit then .policyHits else .policyMisses) then 1 else 0) + (if new ∧ k = .newSessions then 1 else 0) +
      if k = (if action = PolicyAction.deny.code then .deniedPackets else .allowedPackets) then 1 else 0 := by
  by_cases ha : action = PolicyAction.deny.code <;> cases hit <;> cases new <;> cases k <;>
    simp [slowGains, fastGains, ha]

theorem fastPath_statsMap (c : Nat) (k : StatsKey) : (fastPath x skb key v s).statsMap c k =
    s.statsMap c k + BitVec.ofNat 64 (if c = x.cpu then fastGains v.policyAction k else 0) := by
  rw [fastPath, countVerdict, updateStats_statsMap, updateStats_statsMap, fastGains_eq, BitVec.add_assoc,
    ← BitVec.ofNat_add]
  split <;> rfl

theorem lookedUp_statsMap (c : Nat) (k : StatsKey) : (lookedUp x key s).statsMap c k =
    s.statsMap c k + BitVec.ofNat 64 (if c = x.cpu then (if k = .totalPackets then 1 else 0) +
      if k = (if Hit s.maps key then .policyHits else .policyMisses) then 1 else 0 else 0) := by
  rw [lookedUp, updateStats_statsMap, updateStats_statsMap, BitVec.add_assoc, ← BitVec.ofNat_add]
  split <;> rfl

theorem slowPath_statsMap (c : Nat) (k : StatsKey) : (slowPath x skb key s).statsMap c k =
    s.statsMap c k + BitVec.ofNat 64 (if c = x.cpu then
      slowGains (decision s.maps key).1 (Hit s.maps key) (inserted x skb key s).isSome k else 0) := by
  rw [slowPath, countVerdict, updateStats_statsMap, createSession_slow, slowGains_eq]
  cases inserted x skb key s with
  | none =>
    rw [lookedUp_statsMap, BitVec.add_assoc, ← BitVec.ofNat_add]
    split <;> simp
  | some m =>
    -- the session is counted between the lookup and the verdict
    rw [updateStats_statsMap, lookedUp_statsMap, BitVec.add_assoc, BitVec.add_assoc, ← BitVec.ofNat_add,
      ← BitVec.ofNat_add]
    split <;> simp [Nat.add_assoc]

end Paths

/-! ## Counters along a run -/

/-- The flow key of a packet the parser accepts. -/
def BpfEvent.key : BpfEvent → Option FlowKey
  | .packet _ skb => (extractFlowKey skb).join
  | _ => none

/-- How far an event moves each counter, on the CPU it runs on. -/
def gains (s : Bpf) : BpfEvent → StatsKey → Nat
  | .packet x skb, k =>
    match (BpfEvent.packet x skb).key with
    | none => 0
    | some key =>
      match s.sessionMap.lookup key with
      | some v => fastGains v.policyAction k
      | none => slowGains (decision s.maps key).1 (Hit s.maps key) (inserted x skb key s).isSome k
  | _, _ => 0

/-- The CPU of an execution; other events have none. -/
def BpfEvent.cpu : BpfEvent → Option Nat
  | .packet x _ => some x.cpu
  | _ => none

/-- What an execution does, by key and session. -/
theorem filter_eq (x : Exec) (skb : SkBuff) (s : Bpf) : tcMicrosegmentFilter x skb s =
    match (BpfEvent.packet x skb).key with
    | none => (s, tcActOk)
    | some key =>
      match s.sessionMap.lookup key with
      | some v => (fastPath x skb key v s, verdict v.policyAction)
      | none => (slowPath x skb key s, verdict (decision s.maps key).1) := by
  rcases filter_cases x skb s with ⟨h, e⟩ | ⟨k, v, h, hv, e⟩ | ⟨k, h, hv, e⟩
  · simp only [BpfEvent.key, h, Option.join_some, e]
  · simp only [BpfEvent.key, h, Option.join_some, hv, e]
  · simp only [BpfEvent.key, h, Option.join_some, hv, e]

/-- **One event** parses no key and moves no counter, or is a packet served from its session, or is a packet
decided by the policies. -/
theorem event_cases (s : Bpf) (e : BpfEvent) :
    (e.key = none ∧ ∀ k, gains s e k = 0) ∨
    (∃ x skb key v, e = .packet x skb ∧ e.key = some key ∧ s.sessionMap.lookup key = some v ∧
      tcMicrosegmentFilter x skb s = (fastPath x skb key v s, verdict v.policyAction) ∧
      ∀ k, gains s e k = fastGains v.policyAction k) ∨
    (∃ x skb key, e = .packet x skb ∧ e.key = some key ∧ s.sessionMap.lookup key = none ∧
      tcMicrosegmentFilter x skb s = (slowPath x skb key s, verdict (decision s.maps key).1) ∧
      ∀ k, gains s e k = slowGains (decision s.maps key).1 (Hit s.maps key) (inserted x skb key s).isSome k) := by
  cases e with
  | evict key => exact Or.inl ⟨rfl, fun _ => rfl⟩
  | policies maps => exact Or.inl ⟨rfl, fun _ => rfl⟩
  | packet x skb =>
    rcases filter_cases x skb s with ⟨h, _⟩ | ⟨key, v, h, hv, e⟩ | ⟨key, h, hv, e⟩
    · have hkey : (BpfEvent.packet x skb).key = none := by rw [BpfEvent.key, h]; rfl
      exact Or.inl ⟨hkey, fun k => by simp only [gains, hkey]⟩
    · have hkey : (BpfEvent.packet x skb).key = some key := by rw [BpfEvent.key, h]; rfl
      exact Or.inr (Or.inl ⟨x, skb, key, v, rfl, hkey, hv, e, fun k => by simp only [gains, hkey, hv]⟩)
    · have hkey : (BpfEvent.packet x skb).key = some key := by rw [BpfEvent.key, h]; rfl
      exact Or.inr (Or.inr ⟨x, skb, key, rfl, hkey, hv, e, fun k => by simp only [gains, hkey, hv]⟩)

/-- **What an event does to the session of one key**: one that is no packet with the key leaves it or evicts it; a packet
with the key credits it, or adds it if the insert succeeds. -/
theorem session_cases (s : Bpf) (e : BpfEvent) (key : FlowKey) :
    (e.key ≠ some key ∧ ((s.step e).sessionMap.lookup key = s.sessionMap.lookup key ∨
      (e = .evict key ∧ (s.step e).sessionMap.lookup key = none))) ∨
    (∃ x skb v, e = .packet x skb ∧ e.key = some key ∧ s.sessionMap.lookup key = some v ∧
      (s.step e).sessionMap.lookup key = some (touch x skb.len v)) ∨
    (∃ x skb, e = .packet x skb ∧ e.key = some key ∧ s.sessionMap.lookup key = none ∧
      ((s.step e).sessionMap.lookup key = none ∨
        (s.step e).sessionMap.lookup key = some (newSession (decision s.maps key).1 x.ktime skb.len))) := by
  rcases event_cases s e with ⟨hk, _⟩ | ⟨x, skb, k, v, rfl, hk, hv, he, _⟩ | ⟨x, skb, k, rfl, hk, hv, he, _⟩
  · refine Or.inl ⟨by rw [hk]; simp, ?_⟩
    cases e with
    | policies maps => exact Or.inl rfl
    | packet x skb => rw [Bpf.step, filter_eq, hk]; exact Or.inl rfl
    | evict k =>
      simp only [Bpf.step, HashMap.lookup_erase]
      by_cases h : key = k
      · subst h; simp
      · simp [h]
  · simp only [Bpf.step, he, fastPath_sessionMap, HashMap.lookup_modify]
    by_cases h : key = k
    · subst h
      exact Or.inr (Or.inl ⟨x, skb, v, rfl, hk, hv, by simp [hv]⟩)
    · exact Or.inl ⟨by simp [hk, Ne.symm h], by simp [h]⟩
  · simp only [Bpf.step, he, slowPath_sessionMap]
    by_cases h : key = k
    · subst h
      refine Or.inr (Or.inr ⟨x, skb, rfl, hk, hv, ?_⟩)
      cases hi : inserted x skb key s with
      | none => exact Or.inl hv
      | some m => exact Or.inr (by rw [Option.getD_some, inserted_eq_some hi, if_pos rfl])
    · refine Or.inl ⟨by simp [hk, Ne.symm h], Or.inl ?_⟩
      cases hi : inserted x skb k s with
      | none => rfl
      | some m => rw [Option.getD_some, inserted_eq_some hi, if_neg h]

/-- **Counters**: an event adds its gains on its CPU and leaves the others. -/
theorem step_statsMap (s : Bpf) (e : BpfEvent) (c : Nat) (k : StatsKey) :
    (s.step e).statsMap c k = s.statsMap c k + BitVec.ofNat 64 (if e.cpu = some c then gains s e k else 0) := by
  cases e with
  | evict key => simp [Bpf.step, BpfEvent.cpu]
  | policies maps => simp [Bpf.step, BpfEvent.cpu]
  | packet x skb =>
    have hcpu : (BpfEvent.packet x skb).cpu = some c ↔ c = x.cpu := by
      rw [BpfEvent.cpu, Option.some.injEq, eq_comm]
    simp only [Bpf.step, filter_eq, gains, hcpu]
    cases (BpfEvent.packet x skb).key with
    | none => simp
    | some key =>
      dsimp only
      cases s.sessionMap.lookup key with
      | some v => exact fastPath_statsMap x skb key v s c k
      | none => exact slowPath_statsMap x skb key s c k

/-- Two executions on the same packet, up to the CPU and the ring buffer. -/
structure Exec.SameSession (x y : Exec) : Prop where
  insertOk : x.insertOk = y.insertOk
  ktime : x.ktime = y.ktime

/-- The maps that the sessions and the verdicts come from. -/
structure Bpf.SameSessions (s t : Bpf) : Prop where
  sessionMap : s.sessionMap = t.sessionMap
  maps : s.maps = t.maps

theorem inserted_congr {x y : Exec} {s t : Bpf} (hx : x.SameSession y) (h : s.SameSessions t) (skb : SkBuff)
    (key : FlowKey) : inserted x skb key s = inserted y skb key t := by
  simp only [inserted, Exec.insert, hx.insertOk, hx.ktime, h.sessionMap, h.maps]

/-- Neither the CPU nor the ring buffer has an influence on sessions, policies or gains. -/
theorem packet_congr {x y : Exec} {s t : Bpf} (hx : x.SameSession y) (h : s.SameSessions t) (skb : SkBuff) :
    (s.step (.packet x skb)).SameSessions (t.step (.packet y skb)) ∧
      ∀ k, gains s (.packet x skb) k = gains t (.packet y skb) k := by
  have hkey : (BpfEvent.packet x skb).key = (BpfEvent.packet y skb).key := rfl
  simp only [Bpf.step, filter_eq, gains, hkey, h.sessionMap]
  cases (BpfEvent.packet y skb).key with
  | none => exact ⟨h, fun _ => rfl⟩
  | some key =>
    dsimp only
    cases t.sessionMap.lookup key with
    | some v =>
      have htouch : touch x skb.len = touch y skb.len := funext fun v => by rw [touch, touch, hx.ktime]
      exact ⟨⟨by rw [fastPath_sessionMap, fastPath_sessionMap, h.sessionMap, htouch], h.maps⟩, fun _ => rfl⟩
    | none =>
      refine ⟨⟨?_, ?_⟩, fun k => ?_⟩
      · rw [slowPath_sessionMap, slowPath_sessionMap, inserted_congr hx h, h.sessionMap]
      · rw [slowPath_maps, slowPath_maps, h.maps]
      · simp only [inserted_congr hx h, h.maps]

/-- Events that do the same to sessions and policies. -/
inductive BpfEvent.Alike : BpfEvent → BpfEvent → Prop
  | packet {x y : Exec} (skb : SkBuff) : x.SameSession y → Alike (.packet x skb) (.packet y skb)
  | evict (key : FlowKey) : Alike (.evict key) (.evict key)
  | policies (maps : PolicyMaps) : Alike (.policies maps) (.policies maps)

/-- The event with something of its execution forgotten. -/
def BpfEvent.mapExec (forget : Exec → Exec) : BpfEvent → BpfEvent
  | .packet x skb => .packet (forget x) skb
  | e => e

/-- Events that differ only in what sessions do not depend on are alike. -/
theorem alike_of_mapExec {forget : Exec → Exec} (hforget : ∀ x y, forget x = forget y → x.SameSession y) {e f : BpfEvent}
    (h : e.mapExec forget = f.mapExec forget) : e.Alike f := by
  cases e with
  | packet x skb =>
    cases f with
    | packet y skb' =>
      obtain ⟨hx, rfl⟩ := BpfEvent.packet.inj h
      exact .packet skb (hforget x y hx)
    | evict key => cases h
    | policies maps => cases h
  | evict key =>
    cases f with
    | evict key' => cases h; exact .evict key
    | packet y skb => cases h
    | policies maps => cases h
  | policies maps =>
    cases f with
    | policies maps' => cases h; exact .policies maps
    | packet y skb => cases h
    | evict key => cases h

theorem step_congr {e f : BpfEvent} (h : e.Alike f) {s t : Bpf} (hst : s.SameSessions t) :
    (s.step e).SameSessions (t.step f) ∧ ∀ k, gains s e k = gains t f k := by
  cases h with
  | packet skb hx => exact packet_congr hx hst skb
  | evict key => exact ⟨⟨by rw [Bpf.step, Bpf.step, hst.sessionMap], hst.maps⟩, fun _ => rfl⟩
  | policies maps => exact ⟨⟨hst.sessionMap, rfl⟩, fun _ => rfl⟩

end Microseg
