import Microseg.Lib.Words
import Microseg.Lib.KernelMap
/-!
# The types shared by the eBPF program and the agent (`src/bpf/headers/common_types.h`)

| here | there |
| --- | --- |
| `FlowKey`, `PolicyKey` | `struct flow_key` (`common_types.h:12`), `struct policy_key` (`:67`): the same sixteen packed bytes, so the program looks its flow key up in the policy map (`tc_microsegment.bpf.c:156`) |
| `SessionValue`, `PolicyValue`, `WildcardPolicy`, `FlowEvent` | the map values and the ring buffer record (`:52`, `:76`, `:86`, `:116`) |
| `StatsKey` | `enum stats_key` (`:103`) |
| `PolicyMaps`, `Bpf` | the maps of the program (`tc_microsegment.bpf.c:23-60`) |

Integers are those of a little-endian host: a field that holds bytes in network order is the word a
little-endian load gives. Padding that no code reads or writes is left out, except that of the keys,
which the maps compare.
-/
namespace Microseg
open Words KernelMap

def maxEntriesSession : Nat := 100000
def maxEntriesPolicy : Nat := 10000
def maxEntriesWildcardPolicy : Nat := 1000

/-- `struct flow_key`. -/
structure FlowKey where
  srcIp : U32
  dstIp : U32
  srcPort : U16
  dstPort : U16
  protocol : U8
  pad : BitVec 24
deriving DecidableEq, Repr

/-- `struct policy_key`: the layout of `struct flow_key`. -/
abbrev PolicyKey := FlowKey

/-- `enum policy_action`. -/
inductive PolicyAction where
  | allow | deny | log
deriving DecidableEq, Repr

/-- The `__u8` the maps store. -/
def PolicyAction.code : PolicyAction → U8
  | .allow => 0
  | .deny => 1
  | .log => 2

/-- `struct session_value`. -/
structure SessionValue where
  createdTs : U64
  lastSeenTs : U64
  packetsToServer : U64
  packetsToClient : U64
  bytesToServer : U64
  bytesToClient : U64
  state : U8
  tcpState : U8
  policyAction : U8
  flags : U8
deriving DecidableEq, Repr

/-- `SESSION_STATE_NEW` and `TCP_STATE_CLOSED`, the only states the program writes. -/
def sessionStateNew : U8 := 0
def tcpStateClosed : U8 := 0

/-- `struct policy_value`. -/
structure PolicyValue where
  action : U8
  logEnabled : U8
  priority : U16
  ruleId : U32
  hitCount : U64
deriving DecidableEq, Repr

/-- `struct wildcard_policy`. -/
structure WildcardPolicy where
  srcIp : U32
  srcIpMask : U32
  dstIp : U32
  dstIpMask : U32
  srcPort : U16
  dstPort : U16
  protocol : U8
  action : U8
  logEnabled : U8
  priority : U16
  ruleId : U32
deriving DecidableEq, Repr

/-- The all-zero value every slot of the array starts with. -/
def WildcardPolicy.zero : WildcardPolicy := ⟨0, 0, 0, 0, 0, 0, 0, 0, 0, 0, 0⟩

/-- `enum stats_key`. -/
inductive StatsKey where
  | totalPackets | allowedPackets | deniedPackets | newSessions
  | closedSessions | activeSessions | policyHits | policyMisses
deriving DecidableEq, Repr

/-- `struct flow_event`. -/
structure FlowEvent where
  key : FlowKey
  timestamp : U64
  packets : U64
  bytes : U64
  action : U8
  eventType : U8
deriving DecidableEq, Repr

/-- The two maps the agent writes: `policy_map` and `wildcard_policy_map`. -/
structure PolicyMaps where
  policyMap : HashMap PolicyKey PolicyValue maxEntriesPolicy
  wildcardPolicyMap : ArrayMap WildcardPolicy maxEntriesWildcardPolicy

/-- The maps as the kernel creates them. -/
def PolicyMaps.empty : PolicyMaps := ⟨.empty, .replicate .zero⟩

/-- All maps of the program. `statsMap` is per CPU; `flowEvents` are the records submitted so far. -/
structure Bpf where
  sessionMap : HashMap FlowKey SessionValue maxEntriesSession
  maps : PolicyMaps
  statsMap : Nat → StatsKey → U64
  flowEvents : List FlowEvent

end Microseg
