import Mathlib.Tactic.SplitIfs
import Microseg.Types
import Microseg.Lib.GoNet
/-!
# Policies and their map entries (`src/agent/pkg/policy/policy.go`)

The pure half of the policy manager: parsing the texts of a policy, routing, and building the key and
value of the exact map (`exactEntry`) or the entry of the wildcard array (`wildcardEntry`). The
operations on the maps are in `Manager.lean`.

`Parsed p` is what the four texts of `p` parse to. Both kinds of entry exist exactly for a policy that
parses, and fail with the same error otherwise (`parsed_cases`).
-/
namespace Microseg
open Words GoNet

/-- `Policy` (`policy.go:15`). -/
structure Policy where
  ruleID : U32
  srcIP : String
  dstIP : String
  srcPort : U16
  dstPort : U16
  protocol : String
  action : String
  priority : U16
deriving DecidableEq, Repr

/-- The errors of the manager and its storage. -/
inductive Err where
  | parse (e : ParseError)
  | errorf (text : String)
  /-- `fmt.Errorf("context: %w", err)`. -/
  | wrap (context : String) (err : Err)
  /-- The kernel's answer when a map has no room, or no such index. -/
  | tooBig
  | keyNotExist
  /-- A failing SQL statement. -/
  | sql
deriving DecidableEq, Repr

/-- `fmt.Errorf` around a failure. -/
def wrapErr {α : Type} (context : String) : Except Err α → Except Err α
  | .ok a => .ok a
  | .error e => .error (.wrap context e)

/-! ## Parsing (`:303-369`) -/

/-- `strings.ToLower`, character by character: outside ASCII only two letters have an ASCII lower case. -/
def lowerChar (c : Char) : Char :=
  if c.toNat = 0x130 then 'i' else if c.toNat = 0x212a then 'k' else c.toLower

def toLower (s : String) : String := String.ofList (s.toList.map lowerChar)

/-- `parseCIDR` (`:303`). -/
def parseCIDR (cidr : String) : Except Err (IP × IPMask) :=
  let cidr := if '/' ∈ cidr.toList then cidr else cidr ++ "/32"
  match GoNet.parseCIDR cidr with
  | .error e => .error (.parse e)
  | .ok ipnet => .ok ipnet

/-- `parseProtocol` (`:316`). -/
def parseProtocol (proto : String) : Except Err U8 :=
  if toLower proto = "tcp" then .ok 6
  else if toLower proto = "udp" then .ok 17
  else if toLower proto = "icmp" then .ok 1
  else if toLower proto = "any" ∨ toLower proto = "" then .ok 0
  else .error (.errorf ("unknown protocol: " ++ proto))

/-- `parseAction` (`:331`). -/
def parseAction (action : String) : Except Err U8 :=
  if toLower action = "allow" then .ok 0
  else if toLower action = "deny" then .ok 1
  else if toLower action = "log" then .ok 2
  else .error (.errorf ("unknown action: " ++ action))

/-- `ipToUint32` (`:344`). -/
def ipToUint32 (ip : IP) : U32 :=
  match ip.to4 with
  | none => 0
  | some ip => le32 ip

/-- `htons` (`:352`) and `ntohs` (`:484`), the same expression. -/
def htons (v : U16) : U16 := (v <<< 8) &&& (0xff00 : U16) ||| v >>> 8
def ntohs (v : U16) : U16 := (v <<< 8) &&& (0xff00 : U16) ||| v >>> 8

/-- `boolToUint8` (`:356`). -/
def boolToUint8 (b : Bool) : U8 := if b then 1 else 0

/-- `maskToUint32` (`:363`); no caller passes nil. -/
def maskToUint32 (mask : IPMask) : U32 := if mask.length ≠ 4 then 0xFFFFFFFF else be32 mask

/-- `hasWildcard` (`:101`). -/
def hasWildcard (p : Policy) : Bool :=
  if p.srcPort = 0 then true
  else if p.srcIP = "0.0.0.0/0" ∨ p.srcIP = "::/0" then true
  else if p.dstIP = "0.0.0.0/0" ∨ p.dstIP = "::/0" then true
  else if toLower p.protocol = "any" then true
  else false

/-! ## Entries -/

/-- The key built by `DeletePolicy` (`:206-233`). -/
def policyKey (p : Policy) : Except Err PolicyKey := do
  let (srcIP, _) ← wrapErr "invalid source IP" (parseCIDR p.srcIP)
  let (dstIP, _) ← wrapErr "invalid destination IP" (parseCIDR p.dstIP)
  let proto ← wrapErr "invalid protocol" (parseProtocol p.protocol)
  return ⟨ipToUint32 srcIP, ipToUint32 dstIP, htons p.srcPort, htons p.dstPort, proto, 0⟩

/-- Key and value built by `addExactPolicy` (`:133-185`). -/
def exactEntry (p : Policy) : Except Err (PolicyKey × PolicyValue) := do
  let (srcIP, _) ← wrapErr "invalid source IP" (parseCIDR p.srcIP)
  let (dstIP, _) ← wrapErr "invalid destination IP" (parseCIDR p.dstIP)
  let proto ← wrapErr "invalid protocol" (parseProtocol p.protocol)
  let action ← wrapErr "invalid action" (parseAction p.action)
  let key : PolicyKey := ⟨ipToUint32 srcIP, ipToUint32 dstIP, htons p.srcPort, htons p.dstPort, proto, 0⟩
  let value : PolicyValue := ⟨action, boolToUint8 (p.action = "log"), p.priority, p.ruleID, 0⟩
  return (key, value)

/-- The entry built by `addWildcardPolicy` (`:376-426`). -/
def wildcardEntry (p : Policy) : Except Err WildcardPolicy := do
  let (srcIP, srcMask) ← wrapErr "invalid source IP" (parseCIDR p.srcIP)
  let (dstIP, dstMask) ← wrapErr "invalid destination IP" (parseCIDR p.dstIP)
  let proto ← wrapErr "invalid protocol" (parseProtocol p.protocol)
  let action ← wrapErr "invalid action" (parseAction p.action)
  return {
    srcIp := ipToUint32 srcIP
    srcIpMask := maskToUint32 srcMask
    dstIp := ipToUint32 dstIP
    dstIpMask := maskToUint32 dstMask
    srcPort := htons p.srcPort
    dstPort := htons p.dstPort
    protocol := proto
    action := action
    logEnabled := boolToUint8 (p.action = "log")
    priority := p.priority
    ruleId := p.ruleID }

/-- What the four texts of a policy parse to. -/
structure Parsed (p : Policy) where
  src : IP × IPMask
  dst : IP × IPMask
  proto : U8
  action : U8
  hsrc : parseCIDR p.srcIP = .ok src
  hdst : parseCIDR p.dstIP = .ok dst
  hproto : parseProtocol p.protocol = .ok proto
  haction : parseAction p.action = .ok action

namespace Parsed

/-- The fields parse in one way only. -/
theorem unique {p : Policy} (t t' : Parsed p) : t = t' := by
  obtain ⟨_, _, _, _, hsrc, hdst, hproto, haction⟩ := t
  obtain ⟨_, _, _, _, hsrc', hdst', hproto', haction'⟩ := t'
  cases hsrc.symm.trans hsrc'
  cases hdst.symm.trans hdst'
  cases hproto.symm.trans hproto'
  cases haction.symm.trans haction'
  rfl

variable {p : Policy} (t : Parsed p)

def key : PolicyKey :=
  ⟨ipToUint32 t.src.1, ipToUint32 t.dst.1, htons p.srcPort, htons p.dstPort, t.proto, 0⟩

def value : PolicyValue := ⟨t.action, boolToUint8 (p.action = "log"), p.priority, p.ruleID, 0⟩

def wildcard : WildcardPolicy where
  srcIp := ipToUint32 t.src.1
  srcIpMask := maskToUint32 t.src.2
  dstIp := ipToUint32 t.dst.1
  dstIpMask := maskToUint32 t.dst.2
  srcPort := htons p.srcPort
  dstPort := htons p.dstPort
  protocol := t.proto
  action := t.action
  logEnabled := boolToUint8 (p.action = "log")
  priority := p.priority
  ruleId := p.ruleID

theorem policyKey_eq : policyKey p = .ok t.key := by
  simp [policyKey, t.hsrc, t.hdst, t.hproto, wrapErr, key, bind, Except.bind, pure, Except.pure]

theorem exactEntry_eq : exactEntry p = .ok (t.key, t.value) := by
  simp [exactEntry, t.hsrc, t.hdst, t.hproto, t.haction, wrapErr, key, value, bind, Except.bind, pure, Except.pure]

theorem wildcardEntry_eq : wildcardEntry p = .ok t.wildcard := by
  simp [wildcardEntry, t.hsrc, t.hdst, t.hproto, t.haction, wrapErr, wildcard, bind, Except.bind, pure, Except.pure]

end Parsed

/-- An entry exists only for a policy whose four texts parse; both kinds of entry fail together. -/
theorem parsed_cases (p : Policy) :
    Nonempty (Parsed p) ∨ ∃ e, exactEntry p = .error e ∧ wildcardEntry p = .error e := by
  cases hs : parseCIDR p.srcIP with
  | error e => exact Or.inr ⟨_, by simp only [exactEntry, hs]; rfl, by simp only [wildcardEntry, hs]; rfl⟩
  | ok s =>
    cases hd : parseCIDR p.dstIP with
    | error e => exact Or.inr ⟨_, by simp only [exactEntry, hs, hd]; rfl, by simp only [wildcardEntry, hs, hd]; rfl⟩
    | ok d =>
      cases hp : parseProtocol p.protocol with
      | error e =>
        exact Or.inr ⟨_, by simp only [exactEntry, hs, hd, hp]; rfl, by simp only [wildcardEntry, hs, hd, hp]; rfl⟩
      | ok proto =>
        cases ha : parseAction p.action with
        | error e =>
          exact Or.inr ⟨_, by simp only [exactEntry, hs, hd, hp, ha]; rfl,
            by simp only [wildcardEntry, hs, hd, hp, ha]; rfl⟩
        | ok action => exact Or.inl ⟨⟨s, d, proto, action, hs, hd, hp, ha⟩⟩

theorem parsed_of_wildcardEntry {p : Policy} {w : WildcardPolicy} (h : wildcardEntry p = .ok w) :
    ∃ t : Parsed p, w = t.wildcard := by
  rcases parsed_cases p with ⟨⟨t⟩⟩ | ⟨e, _, he⟩
  · exact ⟨t, Except.ok.inj (h.symm.trans t.wildcardEntry_eq)⟩
  · rw [h] at he; cases he

theorem wildcardEntry_ruleId {p : Policy} {w : WildcardPolicy} (h : wildcardEntry p = .ok w) :
    w.ruleId = p.ruleID := by
  obtain ⟨t, rfl⟩ := parsed_of_wildcardEntry h; rfl

theorem wildcardEntry_priority {p : Policy} {w : WildcardPolicy} (h : wildcardEntry p = .ok w) :
    w.priority = p.priority := by
  obtain ⟨t, rfl⟩ := parsed_of_wildcardEntry h; rfl

/-! ## Listing (`:257-292`, `:478-514`) -/

/-- `uint32ToIP` (`:478`). -/
def uint32ToIP (ip : U32) : String :=
  ipv4String (ip.extractLsb' 0 8) (ip.extractLsb' 8 8) (ip.extractLsb' 16 8) (ip.extractLsb' 24 8)

/-- `protoToString` (`:488`). -/
def protoToString (proto : U8) : String :=
  if proto = 6 then "tcp" else if proto = 17 then "udp" else if proto = 1 then "icmp"
  else if proto = 0 then "any" else toString proto.toNat

/-- `actionToString` (`:503`). -/
def actionToString (action : U8) : String :=
  if action = 0 then "allow" else if action = 1 then "deny" else if action = 2 then "log"
  else toString action.toNat

/-- The policy `ListPolicies` makes of an entry (`:281-290`). -/
def listedPolicy (key : PolicyKey) (value : PolicyValue) : Policy where
  ruleID := value.ruleId
  srcIP := uint32ToIP key.srcIp
  dstIP := uint32ToIP key.dstIp
  srcPort := ntohs key.srcPort
  dstPort := ntohs key.dstPort
  protocol := protoToString key.protocol
  action := actionToString value.action
  priority := value.priority

end Microseg
