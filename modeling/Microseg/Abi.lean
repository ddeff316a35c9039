import Microseg.Types
import Microseg.Lib.Layout
/-!
# The declarations of the shared records (`common_types.h`, `policy.go`, `bpf_x86_bpfel.go`)

The program declares the keys and values of its maps in C, some of them packed, and the agent again in Go, as
anonymous structs in each method that reads or writes a map. Nothing checks that the two agree but the size of the
whole. `goPolicyKey_agrees`, `goPolicyValue_agrees` and `goWildcardPolicy_agrees` say that they put every field in the
same place, whether the library hands a Go struct to the kernel as it is in memory (`packed := false`) or field after
field.

| here | there |
| --- | --- |
| `C.flowKey`, `C.policyKey`, … | `struct flow_key`, `struct policy_key`, … (`common_types.h:12-124`) |
| `Go.policyKey` | the `key` of `addExactPolicy`, `DeletePolicy`, `ListPolicies` (`policy.go:157`, `:219`, `:261`) and `bpfPolicyKey` |
| `Go.policyValue` | the `value` of `addExactPolicy`, `ListPolicies` (`:174`, `:270`) and `bpfPolicyValue` |
| `Go.wildcardPolicy` | `wildcard` and `existing` of `addWildcardPolicy` (`:400`, `:434`) and `bpfWildcardPolicy` |
-/
namespace Microseg
open Words Layout

/-! ## In C -/

namespace C

def flowKey : Struct :=
  ⟨true, [u32 "src_ip", u32 "dst_ip", u16 "src_port", u16 "dst_port", u8 "protocol", bytes "pad" 3]⟩

def policyKey : Struct :=
  ⟨true, [u32 "src_ip", u32 "dst_ip", u16 "src_port", u16 "dst_port", u8 "protocol", bytes "pad" 3]⟩

def policyValue : Struct :=
  ⟨false, [u8 "action", u8 "log_enabled", u16 "priority", u32 "rule_id", u64 "hit_count"]⟩

def wildcardPolicy : Struct :=
  ⟨true, [u32 "src_ip", u32 "src_ip_mask", u32 "dst_ip", u32 "dst_ip_mask", u16 "src_port", u16 "dst_port", u8 "protocol",
    u8 "action", u8 "log_enabled", u8 "pad1", u16 "priority", u16 "pad2", u32 "rule_id"]⟩

def sessionValue : Struct :=
  ⟨false, [u64 "created_ts", u64 "last_seen_ts", u64 "packets_to_server", u64 "packets_to_client", u64 "bytes_to_server",
    u64 "bytes_to_client", u8 "state", u8 "tcp_state", u8 "policy_action", u8 "flags", u32 "pad"]⟩

/-- The key in it is a packed struct of sixteen bytes. -/
def flowEvent : Struct :=
  ⟨true, [bytes "key" 16, u64 "timestamp", u64 "packets", u64 "bytes", u8 "action", u8 "event_type", u16 "pad"]⟩

end C

/-! ## In Go -/

namespace Go

variable (packed : Bool)

def policyKey : Struct :=
  ⟨packed, [u32 "SrcIp", u32 "DstIp", u16 "SrcPort", u16 "DstPort", u8 "Protocol", bytes "Pad" 3]⟩

def policyValue : Struct :=
  ⟨packed, [u8 "Action", u8 "LogEnabled", u16 "Priority", u32 "RuleID", u64 "HitCount"]⟩

def wildcardPolicy : Struct :=
  ⟨packed, [u32 "SrcIP", u32 "SrcIPMask", u32 "DstIP", u32 "DstIPMask", u16 "SrcPort", u16 "DstPort", u8 "Protocol",
    u8 "Action", u8 "LogEnabled", u8 "Pad1", u16 "Priority", u16 "Pad2", u32 "RuleID"]⟩

end Go

/-! ## They agree -/

/-- The program looks its flow key up in the policy map. -/
theorem policyKey_agrees : Agrees C.flowKey C.policyKey := by decide

theorem goPolicyKey_agrees (packed : Bool) : Agrees C.flowKey (Go.policyKey packed) := by
  cases packed <;> decide

theorem goPolicyValue_agrees (packed : Bool) : Agrees C.policyValue (Go.policyValue packed) := by
  cases packed <;> decide

theorem goWildcardPolicy_agrees (packed : Bool) : Agrees C.wildcardPolicy (Go.wildcardPolicy packed) := by
  cases packed <;> decide

/-! ## Fields and values -/

/-- The first three bytes as a little-endian word. -/
def le24 : List U8 → BitVec 24
  | b0 :: b1 :: b2 :: _ => b2 ++ b1 ++ b0
  | _ => 0

def store24 (x : BitVec 24) : List U8 := [x.extractLsb' 0 8, x.extractLsb' 8 8, x.extractLsb' 16 8]

theorem le24_store24 (x : BitVec 24) : le24 (store24 x) = x := by
  have hhigh : x.extractLsb' 16 8 ++ x.extractLsb' 8 8 = x.extractLsb' 8 (8 + 8) :=
    BitVec.extractLsb'_append_extractLsb'_eq_extractLsb' rfl
  have hwhole : x.extractLsb' 8 (8 + 8) ++ x.extractLsb' 0 8 = x.extractLsb' 0 (8 + 8 + 8) :=
    BitVec.extractLsb'_append_extractLsb'_eq_extractLsb' (Nat.zero_add 8).symm
  rw [store24, le24, hhigh]
  exact hwhole.trans BitVec.extractLsb'_eq_self

@[simp] theorem le16_store (x : U16) : le16 (store16 x) = x := by simpa using le16_store16 x []

@[simp] theorem le32_store (x : U32) : le32 (store32 x) = x := by simpa using le32_store32 x []

@[simp] theorem le64_store (x : U64) : le64 (store64 x) = x := by simpa using le64_store64 x []

def flowKeyCodec : Codec C.flowKey FlowKey where
  fields k := [store32 k.srcIp, store32 k.dstIp, store16 k.srcPort, store16 k.dstPort, [k.protocol], store24 k.pad]
  value
    | [srcIp, dstIp, srcPort, dstPort, protocol, pad] =>
      ⟨le32 srcIp, le32 dstIp, le16 srcPort, le16 dstPort, protocol.headD 0, le24 pad⟩
    | _ => ⟨0, 0, 0, 0, 0, 0⟩
  fits k := by repeat' constructor
  value_fields k := by simp [le24_store24]

def policyValueCodec : Codec C.policyValue PolicyValue where
  fields v := [[v.action], [v.logEnabled], store16 v.priority, store32 v.ruleId, store64 v.hitCount]
  value
    | [action, logEnabled, priority, ruleId, hitCount] =>
      ⟨action.headD 0, logEnabled.headD 0, le16 priority, le32 ruleId, le64 hitCount⟩
    | _ => ⟨0, 0, 0, 0, 0⟩
  fits v := by repeat' constructor
  value_fields v := by simp

/-- No one writes anything but zeros to the padding. -/
def wildcardPolicyCodec : Codec C.wildcardPolicy WildcardPolicy where
  fields w := [store32 w.srcIp, store32 w.srcIpMask, store32 w.dstIp, store32 w.dstIpMask, store16 w.srcPort,
    store16 w.dstPort, [w.protocol], [w.action], [w.logEnabled], [0], store16 w.priority, store16 0, store32 w.ruleId]
  value
    | [srcIp, srcIpMask, dstIp, dstIpMask, srcPort, dstPort, protocol, action, logEnabled, _, priority, _, ruleId] =>
      ⟨le32 srcIp, le32 srcIpMask, le32 dstIp, le32 dstIpMask, le16 srcPort, le16 dstPort, protocol.headD 0,
        action.headD 0, logEnabled.headD 0, le16 priority, le32 ruleId⟩
    | _ => .zero
  fits w := by repeat' constructor
  value_fields w := by simp

def sessionValueCodec : Codec C.sessionValue SessionValue where
  fields v := [store64 v.createdTs, store64 v.lastSeenTs, store64 v.packetsToServer, store64 v.packetsToClient,
    store64 v.bytesToServer, store64 v.bytesToClient, [v.state], [v.tcpState], [v.policyAction], [v.flags], store32 0]
  value
    | [createdTs, lastSeenTs, packetsToServer, packetsToClient, bytesToServer, bytesToClient, state, tcpState,
        policyAction, flags, _] =>
      ⟨le64 createdTs, le64 lastSeenTs, le64 packetsToServer, le64 packetsToClient, le64 bytesToServer, le64 bytesToClient,
        state.headD 0, tcpState.headD 0, policyAction.headD 0, flags.headD 0⟩
    | _ => ⟨0, 0, 0, 0, 0, 0, 0, 0, 0, 0⟩
  fits v := by repeat' constructor
  value_fields v := by simp

def goPolicyKeyCodec (packed : Bool) : Codec (Go.policyKey packed) PolicyKey := flowKeyCodec.congr (goPolicyKey_agrees packed)

def goPolicyValueCodec (packed : Bool) : Codec (Go.policyValue packed) PolicyValue :=
  policyValueCodec.congr (goPolicyValue_agrees packed)

def goWildcardPolicyCodec (packed : Bool) : Codec (Go.wildcardPolicy packed) WildcardPolicy :=
  wildcardPolicyCodec.congr (goWildcardPolicy_agrees packed)

end Microseg
