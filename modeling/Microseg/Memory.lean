import Microseg.Abi
import Microseg.Events
import Microseg.Lib.Encoded
/-!
# The program on bytes (`tc_microsegment.bpf.c:23-320`)

A map in the kernel holds bytes. The program reaches a value by a pointer, reads its fields at the offsets of
`common_types.h`, and moves its counters in place. Here is the program once more, over maps of bytes, and
`raw_filter` says that it is the program over records: the verdict is the same, and the bytes it leaves hold the
records the other leaves (`RawBpf.Represents`).

| here | there |
| --- | --- |
| `rawLookupPolicyAction` | `lookup_policy_action` (`:154`), `policy->hit_count += 1` (`:159`) |
| `rawCreateSession` | `create_session` (`:209`) |
| `rawFilter` | `tc_microsegment_filter` (`:249`), `session->last_seen_ts = …` (`:273-275`) |
-/
namespace Microseg
open Words Layout KernelMap

/-! ## The program -/

/-- The two maps the agent writes. -/
structure RawMaps where
  policyMap : HashMap (List U8) (List U8) maxEntriesPolicy
  wildcardPolicyMap : ArrayMap (List U8) maxEntriesWildcardPolicy

/-- All maps of the program. The counters are 64-bit words already. -/
structure RawBpf where
  sessionMap : HashMap (List U8) (List U8) maxEntriesSession
  maps : RawMaps
  statsMap : Nat → StatsKey → U64
  flowEvents : List (List U8)

def rawUpdateStats (cpu : Nat) (key : StatsKey) (s : RawBpf) : RawBpf :=
  { s with statsMap := fun c k => if c = cpu ∧ k = key then s.statsMap c k + 1 else s.statsMap c k }

/-- The scan reads each slot by the declaration of `struct wildcard_policy`. -/
def RawMaps.bestMatch (m : RawMaps) (key : FlowKey) : Option WildcardPolicy :=
  Microseg.bestMatch key (m.wildcardPolicyMap.map wildcardPolicyCodec.read)

def rawLookupPolicyAction (cpu : Nat) (key : FlowKey) (s : RawBpf) : RawBpf × U8 × U32 :=
  match s.maps.policyMap.lookup (flowKeyCodec.store key) with
  | some policy =>
    let s := { s with maps.policyMap :=
      s.maps.policyMap.modify (flowKeyCodec.store key) (addField C.policyValue "hit_count" 1) }
    (rawUpdateStats cpu .policyHits s, (policyValueCodec.read policy).action, (policyValueCodec.read policy).ruleId)
  | none =>
    match s.maps.bestMatch key with
    | some best => (rawUpdateStats cpu .policyHits s, best.action, best.ruleId)
    | none => (rawUpdateStats cpu .policyMisses s, PolicyAction.allow.code, 0)

/-- `pad` is what the reserved record has where no one writes. -/
def rawCreateSession (x : Exec) (pad : U16) (key : FlowKey) (action : U8) (ts : U64) (packetLen : U32) (s : RawBpf) :
    RawBpf × Bool :=
  match if x.insertOk then
      s.sessionMap.putNew (flowKeyCodec.store key) (sessionValueCodec.store (newSession action ts packetLen))
    else none with
  | none => (s, false)
  | some sessionMap =>
    let s := rawUpdateStats x.cpu .newSessions { s with sessionMap }
    if action = PolicyAction.deny.code ∨ action = PolicyAction.log.code then
      if x.reserveOk then
        let event : FlowEvent := ⟨key, ts, 1, packetLen.setWidth 64, action, 0⟩
        ({ s with flowEvents := s.flowEvents ++ [event.store pad] }, true)
      else (s, true)
    else (s, true)

/-- The three stores to a live session. -/
def rawTouch (x : Exec) (len : U32) (session : List U8) : List U8 :=
  addField C.sessionValue "bytes_to_server" (len.setWidth 64)
    (addField C.sessionValue "packets_to_server" 1
      (setField C.sessionValue "last_seen_ts" (store64 x.ktime) session))

def rawFilter (x : Exec) (pad : U16) (skb : SkBuff) (s : RawBpf) : RawBpf × Int :=
  match extractFlowKey skb with
  | some (some key) =>
    let s := rawUpdateStats x.cpu .totalPackets s
    match s.sessionMap.lookup (flowKeyCodec.store key) with
    | some session =>
      let action := (sessionValueCodec.read session).policyAction
      let s := { s with sessionMap := s.sessionMap.modify (flowKeyCodec.store key) (rawTouch x skb.len) }
      if action = PolicyAction.deny.code then (rawUpdateStats x.cpu .deniedPackets s, tcActShot)
      else (rawUpdateStats x.cpu .allowedPackets s, tcActOk)
    | none =>
      let now := x.ktime
      let (s, action, _) := rawLookupPolicyAction x.cpu key s
      let (s, _) := rawCreateSession x pad key action now skb.len s
      if action = PolicyAction.deny.code then (rawUpdateStats x.cpu .deniedPackets s, tcActShot)
      else (rawUpdateStats x.cpu .allowedPackets s, tcActOk)
  | _ => (s, tcActOk)

/-! ## Fields in place -/

theorem addField_hitCount (v : PolicyValue) : addField C.policyValue "hit_count" 1 (policyValueCodec.store v) =
    policyValueCodec.store { v with hitCount := v.hitCount + 1 } :=
  Codec.addField_store (i := 4) (by decide) rfl rfl rfl rfl

theorem rawTouch_store (x : Exec) (len : U32) (v : SessionValue) :
    rawTouch x len (sessionValueCodec.store v) = sessionValueCodec.store (touch x len v) := by
  have hseen : setField C.sessionValue "last_seen_ts" (store64 x.ktime) (sessionValueCodec.store v) =
      sessionValueCodec.store { v with lastSeenTs := x.ktime } :=
    Codec.setField_store (i := 1) (by decide) rfl rfl rfl
  have hpackets : addField C.sessionValue "packets_to_server" 1 (sessionValueCodec.store { v with lastSeenTs := x.ktime }) =
      sessionValueCodec.store { v with lastSeenTs := x.ktime, packetsToServer := v.packetsToServer + 1 } :=
    Codec.addField_store (i := 2) (by decide) rfl rfl rfl rfl
  have hbytes : addField C.sessionValue "bytes_to_server" (len.setWidth 64)
      (sessionValueCodec.store { v with lastSeenTs := x.ktime, packetsToServer := v.packetsToServer + 1 }) =
      sessionValueCodec.store (touch x len v) :=
    Codec.addField_store (i := 4) (by decide) rfl rfl rfl rfl
  rw [rawTouch, hseen, hpackets, hbytes]

/-- A record is laid out as the header declares it. -/
theorem store_eq_image (e : FlowEvent) (pad : U16) : e.store pad =
    C.flowEvent.image [flowKeyCodec.store e.key, store64 e.timestamp, store64 e.packets, store64 e.bytes, [e.action],
      [e.eventType], store16 pad] := rfl

/-! ## Bytes that hold records -/

/-- The bytes are those of the records, and there are no others. -/
structure RawMaps.Represents (raw : RawMaps) (m : PolicyMaps) : Prop where
  exact : Encodes flowKeyCodec.store policyValueCodec.Holds raw.policyMap m.policyMap
  wildcard : raw.wildcardPolicyMap = m.wildcardPolicyMap.map wildcardPolicyCodec.store

structure RawBpf.Represents (raw : RawBpf) (s : Bpf) : Prop where
  session : Encodes flowKeyCodec.store sessionValueCodec.Holds raw.sessionMap s.sessionMap
  maps : raw.maps.Represents s.maps
  stats : raw.statsMap = s.statsMap
  events : List.Forall₂ (fun b e => ∃ pad, b = FlowEvent.store e pad) raw.flowEvents s.flowEvents

theorem RawMaps.Represents.bestMatch_eq {raw : RawMaps} {m : PolicyMaps} (h : raw.Represents m) (key : FlowKey) :
    raw.bestMatch key = Microseg.bestMatch key m.wildcardPolicyMap := by
  rw [RawMaps.bestMatch, h.wildcard, ArrayMap.map_map_of_leftInverse wildcardPolicyCodec.read_store]

namespace RawBpf.Represents

variable {raw : RawBpf} {s : Bpf} (h : raw.Represents s)

include h

theorem updateStats (cpu : Nat) (k : StatsKey) : (rawUpdateStats cpu k raw).Represents (Microseg.updateStats cpu k s) where
  session := h.session
  maps := h.maps
  stats := by
    rw [rawUpdateStats, Microseg.updateStats, h.stats]
  events := h.events

theorem lookupPolicyAction (cpu : Nat) (key : FlowKey) :
    (rawLookupPolicyAction cpu key raw).1.Represents (Microseg.lookupPolicyAction cpu key s).1 ∧
    (rawLookupPolicyAction cpu key raw).2 = (Microseg.lookupPolicyAction cpu key s).2 := by
  unfold rawLookupPolicyAction Microseg.lookupPolicyAction
  rcases h.maps.exact.cases key with ⟨hm, hraw⟩ | ⟨policy, _, hm, hraw, rfl⟩
  · rw [hm, hraw, h.maps.bestMatch_eq]
    cases Microseg.bestMatch key s.maps.wildcardPolicyMap with
    | some best => exact ⟨h.updateStats cpu .policyHits, rfl⟩
    | none => exact ⟨h.updateStats cpu .policyMisses, rfl⟩
  · have hnew : RawBpf.Represents
        { raw with maps.policyMap :=
            raw.maps.policyMap.modify (flowKeyCodec.store key) (addField C.policyValue "hit_count" 1) }
        { s with maps := countHit s.maps key } :=
      ⟨h.session, ⟨encodes_modify h.maps.exact flowKeyCodec.store_injective (fun v _ hv => hv ▸ addField_hitCount v) key,
        h.maps.wildcard⟩, h.stats, h.events⟩
    rw [hm, hraw]
    simp only [Codec.read_store]
    exact ⟨hnew.updateStats cpu .policyHits, trivial⟩

theorem createSession (x : Exec) (pad : U16) (key : FlowKey) (action : U8) (ts : U64) (packetLen : U32) :
    (rawCreateSession x pad key action ts packetLen raw).1.Represents
      (Microseg.createSession x key action ts packetLen s).1 := by
  unfold rawCreateSession Microseg.createSession
  cases x.insertOk with
  | false => exact h
  | true =>
    simp only [↓reduceIte]
    rcases encodes_putNew h.session flowKeyCodec.store_injective key
      (sessionValueCodec.holds_store (newSession action ts packetLen)) with ⟨hraw, hm⟩ | ⟨rawMap, m, hraw, hm, hmap⟩
    · rw [hraw, hm]
      exact h
    · rw [hraw, hm]
      have hnew : RawBpf.Represents { raw with sessionMap := rawMap } { s with sessionMap := m } :=
        ⟨hmap, h.maps, h.stats, h.events⟩
      have hcounted := hnew.updateStats x.cpu .newSessions
      simp only
      split
      · split
        · exact ⟨hcounted.session, hcounted.maps, hcounted.stats, List.rel_append hcounted.events (.cons ⟨pad, rfl⟩ .nil)⟩
        · exact hcounted
      · exact hcounted

theorem touch (x : Exec) (len : U32) (key : FlowKey) : RawBpf.Represents
    { raw with sessionMap := raw.sessionMap.modify (flowKeyCodec.store key) (rawTouch x len) }
    { s with sessionMap := s.sessionMap.modify key (Microseg.touch x len) } :=
  ⟨encodes_modify h.session flowKeyCodec.store_injective (fun v _ hv => hv ▸ rawTouch_store x len v) key, h.maps, h.stats,
    h.events⟩

/-- **One execution** on bytes gives the verdict of the one on records, and leaves its records in memory. -/
theorem filter (x : Exec) (pad : U16) (skb : SkBuff) :
    (rawFilter x pad skb raw).1.Represents (tcMicrosegmentFilter x skb s).1 ∧
    (rawFilter x pad skb raw).2 = (tcMicrosegmentFilter x skb s).2 := by
  have htotal := h.updateStats x.cpu .totalPackets
  unfold rawFilter tcMicrosegmentFilter
  rcases extractFlowKey skb with _ | _ | key
  · exact ⟨h, rfl⟩
  · exact ⟨h, rfl⟩
  simp only
  rcases htotal.session.cases key with ⟨hs, hraw⟩ | ⟨session, _, hs, hraw, rfl⟩ <;> rw [hs, hraw]
  · obtain ⟨hlooked, hanswer⟩ := htotal.lookupPolicyAction x.cpu key
    generalize rawLookupPolicyAction x.cpu key (rawUpdateStats x.cpu .totalPackets raw) = r at hlooked hanswer ⊢
    generalize Microseg.lookupPolicyAction x.cpu key (Microseg.updateStats x.cpu .totalPackets s) = t at hlooked hanswer ⊢
    obtain ⟨raw', action, ruleId⟩ := r
    obtain ⟨s', action', ruleId'⟩ := t
    cases hanswer
    have hcreated := RawBpf.Represents.createSession hlooked x pad key action x.ktime skb.len
    simp only
    split
    · exact ⟨hcreated.updateStats x.cpu .deniedPackets, rfl⟩
    · exact ⟨hcreated.updateStats x.cpu .allowedPackets, rfl⟩
  · have htouched := htotal.touch x skb.len key
    simp only [Codec.read_store]
    split
    · exact ⟨htouched.updateStats x.cpu .deniedPackets, rfl⟩
    · exact ⟨htouched.updateStats x.cpu .allowedPackets, rfl⟩

end RawBpf.Represents

end Microseg
