import Microseg.Policy
import Microseg.Traffic
/-!
# Flow events from the program to the log (`tc_microsegment.bpf.c:227-239`, `dataplane.go:246-288`)

The ring buffer carries `struct flow_event` as 44 packed bytes, and the agent reads it back with offsets of
its own. The addresses come out as they were in the packet. The ports are in network order in the record
and are read as little-endian numbers, and a record passes as complete from 32 bytes on
(`flowEvent_decoded_iff`).

| here | there |
| --- | --- |
| `FlowKey.store`, `FlowEvent.store` | `struct flow_key`, `struct flow_event` (`common_types.h:12`, `:116`) in memory |
| `parseFlowEvent` | the body of the loop of `MonitorFlowEvents` (`dataplane.go:263-276`) |
| `ReadResult` | what `rbReader.Read` answers |
| `LogLine` | a line of the log, by level |
-/
namespace Microseg
open Words GoNet KernelMap

/-! ## Records -/

/-- `sizeof(struct flow_event)`. -/
def sizeofFlowEvent : Nat := 44

def FlowKey.store (k : FlowKey) : List U8 :=
  store32 k.srcIp ++ (store32 k.dstIp ++ (store16 k.srcPort ++ (store16 k.dstPort ++
    [k.protocol, k.pad.extractLsb' 0 8, k.pad.extractLsb' 8 8, k.pad.extractLsb' 16 8])))

/-- The record as it is submitted. No one writes the last two bytes, so they are whatever was there. -/
def FlowEvent.store (e : FlowEvent) (pad : U16) : List U8 :=
  e.key.store ++ (store64 e.timestamp ++ (store64 e.packets ++ (store64 e.bytes ++ ([e.action, e.eventType] ++ store16 pad))))

theorem length_store (e : FlowEvent) (pad : U16) : (e.store pad).length = sizeofFlowEvent := rfl

/-! ## The agent's side -/

/-- `intToIP` (`dataplane.go:286`), through `net.IPv4`. -/
def intToIP (ip : U32) : IP :=
  v4InV6Prefix ++ [ip.extractLsb' 0 8, ip.extractLsb' 8 8, ip.extractLsb' 16 8, ip.extractLsb' 24 8]

/-- What the agent takes from a record. -/
structure ParsedEvent where
  srcIP : IP
  srcPort : U16
  dstIP : IP
  dstPort : U16
  protocol : U8
deriving DecidableEq

/-- `b[lo:hi]`. -/
def slice (b : List U8) (lo hi : Nat) : List U8 := (b.take hi).drop lo

/-- The parsing of one record; `none` is an incomplete one. -/
def parseFlowEvent (rawSample : List U8) : Option ParsedEvent :=
  if rawSample.length < 32 then none
  else
    let srcIP := le32 (slice rawSample 0 4)
    let dstIP := le32 (slice rawSample 4 8)
    let srcPort := le16 (slice rawSample 8 10)
    let dstPort := le16 (slice rawSample 10 12)
    let protocol := rawSample.getD 12 0
    some ⟨intToIP srcIP, srcPort, intToIP dstIP, dstPort, protocol⟩

inductive ReadResult where
  | record (rawSample : List U8)
  | closed
  | failed (err : String)

inductive LogLine where
  | info (text : String)
  | warn (text : String)
  | error (text : String)
deriving DecidableEq

/-- `%s` of an IPv4 address. -/
def ipText (ip : IP) : String :=
  match ip.to4 with
  | some [a, b, c, d] => ipv4String a b c d
  | _ => "<nil>"

/-- "[FLOW EVENT] %s:%d -> %s:%d proto=%d" (`:278`). -/
def ParsedEvent.line (e : ParsedEvent) : String :=
  "[FLOW EVENT] " ++ ipText e.srcIP ++ ":" ++ toString e.srcPort.toNat ++ " -> " ++ ipText e.dstIP ++ ":" ++
    toString e.dstPort.toNat ++ " proto=" ++ toString e.protocol.toNat

/-- What a round of the loop logs. -/
def ReadResult.line : ReadResult → LogLine
  | .closed => .info "Ring buffer closed"
  | .failed err => .error ("Reading from ring buffer: " ++ err)
  | .record rawSample =>
    match parseFlowEvent rawSample with
    | none => .warn "Received incomplete flow event"
    | some e => .info e.line

/-- The loop of `MonitorFlowEvents` (`:250-282`), over what is read. -/
def monitorLoop : List ReadResult → List LogLine
  | [] => []
  | .closed :: _ => [ReadResult.closed.line]
  | r :: rs => r.line :: monitorLoop rs

/-- `MonitorFlowEvents` (`:247`). -/
def monitorFlowEvents (reads : List ReadResult) : List LogLine :=
  .info "Starting flow event monitoring" :: monitorLoop reads

/-- Until the ring buffer is closed, each round logs the line of what it read. -/
theorem monitorLoop_append (pre post : List ReadResult) (h : .closed ∉ pre) :
    monitorLoop (pre ++ post) = pre.map ReadResult.line ++ monitorLoop post := by
  induction pre with
  | nil => rfl
  | cons r pre ih =>
    have ih := ih fun hmem => h (List.mem_cons_of_mem _ hmem)
    cases r with
    | closed => exact absurd (List.mem_cons_self ..) h
    | record raw => simp [monitorLoop, ih]
    | failed err => simp [monitorLoop, ih]

/-! ## From the flow to the log -/

theorem intToIP_swap32 (x : U32) : intToIP (swap32 x) = v4InV6Prefix ++ bytes32 x := by
  rw [← store32_swap32]; rfl

/-- A whole record gives back what the program stored. -/
theorem parseFlowEvent_store (e : FlowEvent) (pad : U16) : parseFlowEvent (e.store pad) =
    some ⟨intToIP e.key.srcIp, e.key.srcPort, intToIP e.key.dstIp, e.key.dstPort, e.key.protocol⟩ := by
  have hlen : ¬ (e.store pad).length < 32 := by rw [length_store]; decide
  rw [parseFlowEvent, if_neg hlen]
  have hs : le32 (slice (e.store pad) 0 4) = e.key.srcIp := le32_store32 e.key.srcIp []
  have hd : le32 (slice (e.store pad) 4 8) = e.key.dstIp := le32_store32 e.key.dstIp []
  have hsp : le16 (slice (e.store pad) 8 10) = e.key.srcPort := le16_store16 e.key.srcPort []
  have hdp : le16 (slice (e.store pad) 10 12) = e.key.dstPort := le16_store16 e.key.dstPort []
  have hp : (e.store pad).getD 12 0 = e.key.protocol := rfl
  rw [hs, hd, hsp, hdp, hp]

/-- A flow in host form, as the agent shows it. -/
def Flow.parsedEvent (f : Flow) : ParsedEvent :=
  ⟨v4InV6Prefix ++ bytes32 f.srcIP, f.srcPort, v4InV6Prefix ++ bytes32 f.dstIP, f.dstPort, f.protocol⟩

/-- The record `create_session` submits is that of its key. -/
theorem createSession_event {x : Exec} {key : FlowKey} {action : U8} {ts : U64} {packetLen : U32} {s : Bpf} {e : FlowEvent}
    (h : (createSession x key action ts packetLen s).1.flowEvents = s.flowEvents ++ [e]) :
    Reported action ∧ e = ⟨key, ts, 1, packetLen.setWidth 64, action, 0⟩ := by
  rw [createSession_eq] at h
  cases hi : x.insert key (newSession action ts packetLen) s.sessionMap with
  | none =>
    rw [hi] at h
    exact absurd h.symm (by simp)
  | some m =>
    rw [hi] at h
    have hreport : x.report key action ts packetLen = [e] := List.append_cancel_left h
    unfold Exec.report at hreport
    split at hreport
    · next hr => exact ⟨hr.1, (List.singleton_inj.1 hreport).symm⟩
    · cases hreport

/-- **Flow events.** The record submitted for a new session of a flow is read back as that flow exactly when both its
ports are the same number in either byte order; and a record of a given length that does not hold a whole
`struct flow_event` is rejected exactly below 32 bytes. -/
theorem flowEvent_decoded_iff {x : Exec} {f : Flow} {action : U8} {ts : U64} {packetLen : U32} {s : Bpf} {e : FlowEvent}
    (hsub : (createSession x f.key action ts packetLen s).1.flowEvents = s.flowEvents ++ [e]) (pad : U16) :
    (parseFlowEvent (e.store pad) = some f.parsedEvent ↔ swap16 f.srcPort = f.srcPort ∧ swap16 f.dstPort = f.dstPort) ∧
    ∀ rawSample : List U8, (rawSample.length < sizeofFlowEvent → parseFlowEvent rawSample = none) ↔
      (rawSample.length < 32 ∨ 44 ≤ rawSample.length) := by
  obtain ⟨_, rfl⟩ := createSession_event hsub
  refine ⟨?_, fun rawSample => ?_⟩
  · rw [parseFlowEvent_store]
    simp only [Flow.key, intToIP_swap32, Flow.parsedEvent, Option.some.injEq, ParsedEvent.mk.injEq, true_and, and_true]
  · have hshort : parseFlowEvent rawSample = none ↔ rawSample.length < 32 := by
      unfold parseFlowEvent
      split <;> simp [*]
    rw [hshort, sizeofFlowEvent]
    omega

/-! ### An HTTPS connection -/

/-- The first packet of a denied connection to port 443, from a map without sessions. -/
def denied443 : FlowEvent := ⟨toPort443.key, 1, 1, 60, PolicyAction.deny.code, 0⟩

/-- Its port is logged as 47873, and a record of 32 bytes passes for a flow event. -/
theorem port443_logged_swapped :
    (createSession ⟨0, 1, true, true⟩ toPort443.key PolicyAction.deny.code 1 60 deniedSys.bpf).1.flowEvents =
      deniedSys.bpf.flowEvents ++ [denied443] ∧
    (parseFlowEvent (denied443.store 0)).map ParsedEvent.dstPort = some 47873 ∧
    parseFlowEvent (denied443.store 0) ≠ some toPort443.parsedEvent ∧
    (List.replicate 32 (0 : U8)).length < sizeofFlowEvent ∧ parseFlowEvent (List.replicate 32 0) ≠ none := by
  decide

theorem port443_decoded_iff :
    (parseFlowEvent (denied443.store 0) = some toPort443.parsedEvent ↔
      swap16 toPort443.srcPort = toPort443.srcPort ∧ swap16 toPort443.dstPort = toPort443.dstPort) ∧
    ∀ rawSample : List U8, (rawSample.length < sizeofFlowEvent → parseFlowEvent rawSample = none) ↔
      (rawSample.length < 32 ∨ 44 ≤ rawSample.length) :=
  @flowEvent_decoded_iff ⟨0, 1, true, true⟩ toPort443 PolicyAction.deny.code 1 60 deniedSys.bpf denied443 (by decide) 0

end Microseg
