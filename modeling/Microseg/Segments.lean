import Microseg.Packet
/-!
# Frames with their transport header (`tc_microsegment.bpf.c:77-121`, `common_types.h:11-19`)

A datagram is an unfragmented IPv4 frame whose body is a TCP or UDP segment given field by field, or the
payload of another protocol. The parser gives back its 5-tuple, whatever else the headers, the options
and the payload say, so it tells two datagrams apart exactly by their 5-tuples (`datagram_key`).

| here | there |
| --- | --- |
| `TcpHeader`, `UdpHeader` | `struct tcphdr` and `struct udphdr` as they are on the wire |
| `Datagram.tuple` | "Session identification by 5-tuple" (`specs/session-tracking/spec.md:18`) |
-/
namespace Microseg
open Words

/-- The 20 bytes of a TCP header; its options count as payload here. -/
structure TcpHeader where
  source : U16
  dest : U16
  seq : U32
  ackSeq : U32
  doff : BitVec 4
  res1 : BitVec 4
  flags : U8
  window : U16
  check : U16
  urgPtr : U16

def TcpHeader.bytes (h : TcpHeader) : List U8 :=
  bytes16 h.source ++ (bytes16 h.dest ++ (bytes32 h.seq ++ bytes32 h.ackSeq ++ [h.doff ++ h.res1, h.flags] ++
    bytes16 h.window ++ bytes16 h.check ++ bytes16 h.urgPtr))

/-- The 8 bytes of a UDP header. -/
structure UdpHeader where
  source : U16
  dest : U16
  len : U16
  check : U16

def UdpHeader.bytes (h : UdpHeader) : List U8 :=
  bytes16 h.source ++ (bytes16 h.dest ++ (bytes16 h.len ++ bytes16 h.check))

/-- What an IP packet carries. -/
inductive Segment where
  | tcp (header : TcpHeader) (payload : List U8)
  | udp (header : UdpHeader) (payload : List U8)
  | other (protocol : U8) (notTcp : protocol ≠ ipprotoTcp) (notUdp : protocol ≠ ipprotoUdp) (payload : List U8)

namespace Segment

def protocol : Segment → U8
  | tcp _ _ => ipprotoTcp
  | udp _ _ => ipprotoUdp
  | other protocol _ _ _ => protocol

def bytes : Segment → List U8
  | tcp header payload => header.bytes ++ payload
  | udp header payload => header.bytes ++ payload
  | other _ _ _ payload => payload

/-- Source and destination port; other protocols have none. -/
def ports : Segment → U16 × U16
  | tcp header _ => (header.source, header.dest)
  | udp header _ => (header.source, header.dest)
  | other _ _ _ _ => (0, 0)

end Segment

/-- An unfragmented frame that carries a segment. -/
structure Datagram extends Ipv4Frame where
  segment : Segment
  protocol_eq : protocol = segment.protocol
  body_eq : body = segment.bytes
  fragOff_eq : fragOff = 0

namespace Datagram

variable (d : Datagram)

/-- The 5-tuple the datagram was made from. -/
def tuple : U32 × U32 × U16 × U16 × U8 :=
  (d.saddr, d.daddr, d.segment.ports.1, d.segment.ports.2, d.protocol)

/-- The header of the segment is whole. -/
theorem complete : d.Complete := by
  have hne : ipprotoTcp ≠ ipprotoUdp := by decide
  obtain ⟨fr, segment, hproto, hbody, _⟩ := d
  cases segment with
  | tcp header payload =>
    refine ⟨fun _ => ?_, fun hu => absurd (hproto.symm.trans hu) hne⟩
    rw [hbody]
    simp [Segment.bytes, TcpHeader.bytes]; omega
  | udp header payload =>
    refine ⟨fun ht => absurd (hproto.symm.trans ht) hne.symm, fun _ => ?_⟩
    rw [hbody]
    simp [Segment.bytes, UdpHeader.bytes]; omega
  | other protocol notTcp notUdp payload =>
    exact ⟨fun ht => absurd (hproto.symm.trans ht) notTcp, fun hu => absurd (hproto.symm.trans hu) notUdp⟩

/-- The ports of the frame's flow are those of the segment. -/
theorem flow_ports : d.flow.srcPort = d.segment.ports.1 ∧ d.flow.dstPort = d.segment.ports.2 := by
  obtain ⟨fr, segment, hproto, hbody, _⟩ := d
  simp only [Ipv4Frame.flow, hproto, hbody]
  cases segment with
  | tcp header payload =>
    simp only [Segment.protocol, true_or, ↓reduceIte, Segment.bytes, TcpHeader.bytes, List.append_assoc, be16_bytes16]
    exact ⟨rfl, be16_bytes16 _ _⟩
  | udp header payload =>
    simp only [Segment.protocol, or_true, ↓reduceIte, Segment.bytes, UdpHeader.bytes, List.append_assoc, be16_bytes16]
    exact ⟨rfl, be16_bytes16 _ _⟩
  | other protocol notTcp notUdp payload =>
    simp [Segment.protocol, notTcp, notUdp, Segment.ports]

/-- The key of a datagram, each field as its bytes on the wire are loaded. -/
theorem key_eq : d.flow.key = ⟨le32 (bytes32 d.saddr), le32 (bytes32 d.daddr), le16 (bytes16 d.segment.ports.1),
    le16 (bytes16 d.segment.ports.2), d.protocol, 0⟩ := by
  rw [Flow.key, d.flow_ports.1, d.flow_ports.2]; rfl

/-- One key is one tuple. -/
theorem key_eq_iff {d d' : Datagram} : d.flow.key = d'.flow.key ↔ d.tuple = d'.tuple := by
  have h32 : ∀ x y : U32, le32 (bytes32 x) = le32 (bytes32 y) ↔ x = y := fun _ _ => swap32_inj
  have h16 : ∀ x y : U16, le16 (bytes16 x) = le16 (bytes16 y) ↔ x = y := fun _ _ => swap16_inj
  rw [d.key_eq, d'.key_eq]
  simp only [tuple, FlowKey.mk.injEq, Prod.mk.injEq, h32, h16, and_true]

end Datagram

/-- **The parser inverts serialisation.** From every datagram it builds, without a load outside the frame, the key of
its addresses, ports and protocol in network byte order with zero padding, the ports 0 unless the protocol
is TCP or UDP; two datagrams have one key exactly when they have one 5-tuple. -/
theorem datagram_key (d : Datagram) (len : U32) :
    (∃ key : FlowKey, extractFlowKey ⟨d.bytes, len⟩ = some (some key) ∧
      key = ⟨le32 (bytes32 d.saddr), le32 (bytes32 d.daddr), le16 (bytes16 d.segment.ports.1),
        le16 (bytes16 d.segment.ports.2), d.protocol, 0⟩ ∧
      (d.protocol ≠ ipprotoTcp → d.protocol ≠ ipprotoUdp → key.srcPort = 0 ∧ key.dstPort = 0)) ∧
    ∀ (d' : Datagram) (len' : U32),
      extractFlowKey ⟨d.bytes, len⟩ = extractFlowKey ⟨d'.bytes, len'⟩ ↔ d.tuple = d'.tuple := by
  have hkey := fun (d : Datagram) len => extractFlowKey_bytes d.toIpv4Frame d.complete len
  refine ⟨⟨d.flow.key, hkey d len, d.key_eq, fun ht hu => ?_⟩, fun d' len' => ?_⟩
  · obtain ⟨hs, hd⟩ := d.flow.noPorts ht hu
    exact ⟨swap16_eq_zero.2 hs, swap16_eq_zero.2 hd⟩
  · rw [hkey, hkey, Option.some.injEq, Option.some.injEq, Datagram.key_eq_iff]

/-- Opens a connection to port 443, with two words of IP options and a maximum segment size. -/
def synWithOptions : Datagram where
  ethDst := 0x02420a000005
  ethSrc := 0x02420a000001
  version := 4
  ihl := 7
  tos := 0
  totLen := 52
  id := 1
  flags := 2
  fragOff := 0
  ttl := 64
  protocol := ipprotoTcp
  check := 0
  saddr := 0x0a000001
  daddr := 0x0a000005
  options := [0x94, 4, 0, 0, 1, 1, 1, 0]
  body := TcpHeader.bytes ⟨40000, 443, 1000, 0, 6, 0, 2, 64240, 0, 0⟩ ++ [2, 4, 5, 0xb4]
  ihl_ge := by decide
  options_length := rfl
  segment := .tcp ⟨40000, 443, 1000, 0, 6, 0, 2, 64240, 0, 0⟩ [2, 4, 5, 0xb4]
  protocol_eq := rfl
  body_eq := rfl
  fragOff_eq := rfl

/-- Its key, and the datagrams that share it. -/
theorem synWithOptions_key :
    (∃ key : FlowKey, extractFlowKey ⟨synWithOptions.bytes, 66⟩ = some (some key) ∧
      key = ⟨le32 (bytes32 0x0a000001), le32 (bytes32 0x0a000005), le16 (bytes16 40000), le16 (bytes16 443), ipprotoTcp, 0⟩ ∧
      (ipprotoTcp ≠ ipprotoTcp → ipprotoTcp ≠ ipprotoUdp → key.srcPort = 0 ∧ key.dstPort = 0)) ∧
    ∀ (d' : Datagram) (len' : U32), extractFlowKey ⟨synWithOptions.bytes, 66⟩ = extractFlowKey ⟨d'.bytes, len'⟩ ↔
      (0x0a000001, 0x0a000005, 40000, 443, ipprotoTcp) = d'.tuple :=
  datagram_key synWithOptions 66

end Microseg
