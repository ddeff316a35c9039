import Microseg.Types
/-!
# `extract_flow_key` (`tc_microsegment.bpf.c:77`)

The parser reads the linear data of the packet through loads that fail when a byte is not below
`data_end`; its own bounds checks make every load succeed (`extractFlowKey_inBounds`). A flow key it
builds has zero padding, and zero ports unless the protocol is TCP or UDP; `Flow` is such a 5-tuple in
host form, and the keys the parser builds are exactly the keys of flows (`extractFlowKey_sound`,
`extractFlowKey_bytes`).
-/
namespace Microseg
open Words

/-- What the program sees of `struct __sk_buff`: the bytes of `[data, data_end)` and `len`. -/
structure SkBuff where
  data : List U8
  len : U32
deriving DecidableEq, Repr

/-! ## Loads -/

def load8 (data : List U8) (off : Nat) : Option U8 := data[off]?

def load16 (data : List U8) (off : Nat) : Option U16 := do
  let b0 ← data[off]?
  let b1 ← data[off + 1]?
  return le16 [b0, b1]

def load32 (data : List U8) (off : Nat) : Option U32 := do
  let b0 ← data[off]?
  let b1 ← data[off + 1]?
  let b2 ← data[off + 2]?
  let b3 ← data[off + 3]?
  return le32 [b0, b1, b2, b3]

theorem load8_isSome (data : List U8) (off : Nat) (h : off + 1 ≤ data.length) :
    ∃ v, load8 data off = some v := ⟨_, List.getElem?_eq_getElem (by omega)⟩

theorem load16_isSome (data : List U8) (off : Nat) (h : off + 2 ≤ data.length) :
    ∃ v, load16 data off = some v := by
  have h0 := List.getElem?_eq_getElem (l := data) (i := off) (by omega)
  have h1 := List.getElem?_eq_getElem (l := data) (i := off + 1) (by omega)
  exact ⟨_, by simp only [load16, h0, h1]; rfl⟩

theorem load32_isSome (data : List U8) (off : Nat) (h : off + 4 ≤ data.length) :
    ∃ v, load32 data off = some v := by
  have h0 := List.getElem?_eq_getElem (l := data) (i := off) (by omega)
  have h1 := List.getElem?_eq_getElem (l := data) (i := off + 1) (by omega)
  have h2 := List.getElem?_eq_getElem (l := data) (i := off + 2) (by omega)
  have h3 := List.getElem?_eq_getElem (l := data) (i := off + 3) (by omega)
  exact ⟨_, by simp only [load32, h0, h1, h2, h3]; rfl⟩

/-! ## The parser -/

/-- `ETH_P_IP` (`tc_microsegment.bpf.c:14`). -/
def ethPIp : U16 := 0x0800
def ipprotoTcp : U8 := 6
def ipprotoUdp : U8 := 17

/-- `bpf_htons` on a little-endian host. -/
def bpfHtons (v : U16) : U16 := swap16 v

/-- Offset of the transport header: the IP header starts at 14, `ihl` counts four-byte words and is
the low nibble of its first byte. -/
def l4Offset (verIhl : U8) : Nat := 14 + (verIhl &&& 0x0f).toNat * 4

/-- `extract_flow_key` (`tc_microsegment.bpf.c:77-121`). The outer `none` is a load past `data_end`,
the inner one the function's `-1`. -/
def extractFlowKey (skb : SkBuff) : Option (Option FlowKey) := do
  let data := skb.data
  if data.length < 14 then return none
  let hProto ← load16 data 12
  if hProto ≠ bpfHtons ethPIp then return none
  if data.length < 34 then return none
  let saddr ← load32 data 26
  let daddr ← load32 data 30
  let protocol ← load8 data 23
  let verIhl ← load8 data 14
  let l4 := l4Offset verIhl
  if protocol = ipprotoTcp then
    if data.length < l4 + 20 then return none
    let source ← load16 data l4
    let dest ← load16 data (l4 + 2)
    return some ⟨saddr, daddr, source, dest, protocol, 0⟩
  else if protocol = ipprotoUdp then
    if data.length < l4 + 8 then return none
    let source ← load16 data l4
    let dest ← load16 data (l4 + 2)
    return some ⟨saddr, daddr, source, dest, protocol, 0⟩
  else
    return some ⟨saddr, daddr, 0, 0, protocol, 0⟩

/-! ## Flows -/

/-- A 5-tuple in host form, as a packet can have it: only TCP and UDP have ports. -/
structure Flow where
  srcIP : U32
  dstIP : U32
  srcPort : U16
  dstPort : U16
  protocol : U8
  noPorts : protocol ≠ ipprotoTcp → protocol ≠ ipprotoUdp → srcPort = 0 ∧ dstPort = 0
deriving DecidableEq

/-- The key of a flow: addresses and ports in network byte order, padding zero. -/
def Flow.key (f : Flow) : FlowKey :=
  ⟨swap32 f.srcIP, swap32 f.dstIP, swap16 f.srcPort, swap16 f.dstPort, f.protocol, 0⟩

theorem Flow.key_inj {f g : Flow} : f.key = g.key ↔ f = g := by
  cases f; cases g
  simp [Flow.key]

/-- Any parsed fields are the key of a flow, if they have ports only for TCP and UDP. -/
theorem exists_flow (src dst : U32) (sp dp : U16) {proto : U8}
    (h : proto ≠ ipprotoTcp → proto ≠ ipprotoUdp → sp = 0 ∧ dp = 0) :
    ∃ f : Flow, f.key = ⟨src, dst, sp, dp, proto, 0⟩ :=
  ⟨⟨swap32 src, swap32 dst, swap16 sp, swap16 dp, proto, fun h1 h2 => by simpa using h h1 h2⟩, by simp [Flow.key]⟩

/-! ## What the parser accepts -/

/-- An Ethernet frame of type IPv4 whose linear data holds the Ethernet and a 20-byte IP header. -/
def IsIpv4 (data : List U8) : Prop := 34 ≤ data.length ∧ load16 data 12 = some (bpfHtons ethPIp)

/-- The TCP or UDP header, if the protocol asks for one, ends below `data_end`. -/
def L4Complete (data : List U8) : Prop :=
  ∀ protocol verIhl, load8 data 23 = some protocol → load8 data 14 = some verIhl →
    (protocol = ipprotoTcp → l4Offset verIhl + 20 ≤ data.length) ∧
    (protocol = ipprotoUdp → l4Offset verIhl + 8 ≤ data.length)

/-- Everything the parser can do: it rejects what is not a complete IPv4 frame and builds the key of a
flow from every other frame. -/
theorem extractFlowKey_cases (skb : SkBuff) :
    (extractFlowKey skb = some none ∧ ¬ (IsIpv4 skb.data ∧ L4Complete skb.data)) ∨
    (∃ f : Flow, extractFlowKey skb = some (some f.key) ∧ IsIpv4 skb.data ∧ L4Complete skb.data) := by
  obtain ⟨data, len⟩ := skb
  by_cases h14 : data.length < 14
  · exact Or.inl ⟨by simp [extractFlowKey, h14], fun h => by have := h.1.1; simp only at this; omega⟩
  obtain ⟨ty, hty⟩ := load16_isSome data 12 (by omega)
  by_cases hip : ty = bpfHtons ethPIp
  swap
  · refine Or.inl ⟨by simp [extractFlowKey, h14, hty, hip], fun h => hip ?_⟩
    exact Option.some.inj (hty.symm.trans h.1.2)
  by_cases h34 : data.length < 34
  · exact Or.inl ⟨by simp [extractFlowKey, h14, hty, hip, h34], fun h => by have := h.1.1; simp only at this; omega⟩
  obtain ⟨saddr, hs⟩ := load32_isSome data 26 (by omega)
  obtain ⟨daddr, hd⟩ := load32_isSome data 30 (by omega)
  obtain ⟨proto, hp⟩ := load8_isSome data 23 (by omega)
  obtain ⟨vi, hv⟩ := load8_isSome data 14 (by omega)
  have hIp : IsIpv4 data := ⟨by omega, by rw [hty, hip]⟩
  have hL4 : L4Complete data ↔
      (proto = ipprotoTcp → l4Offset vi + 20 ≤ data.length) ∧ (proto = ipprotoUdp → l4Offset vi + 8 ≤ data.length) :=
    ⟨fun h => h _ _ hp hv, fun h p v hp' hv' => by
      rw [hp] at hp'; rw [hv] at hv'; cases hp'; cases hv'; exact h⟩
  rw [hL4]
  by_cases ht : proto = ipprotoTcp
  · by_cases hl : data.length < l4Offset vi + 20
    · exact Or.inl ⟨by simp [extractFlowKey, h14, hty, hip, h34, hs, hd, hp, hv, ht, hl],
        fun h => by have := h.2.1 ht; omega⟩
    obtain ⟨sp, hsp⟩ := load16_isSome data (l4Offset vi) (by omega)
    obtain ⟨dp, hdp⟩ := load16_isSome data (l4Offset vi + 2) (by omega)
    obtain ⟨f, hf⟩ := exists_flow saddr daddr sp dp fun h _ => absurd ht h
    exact Or.inr ⟨f, by simp [extractFlowKey, h14, hty, hip, h34, hs, hd, hp, hv, ht, hl, hsp, hdp, hf], hIp,
      fun _ => by omega, fun hu => absurd (ht.symm.trans hu) (by decide)⟩
  have hne : ipprotoUdp ≠ ipprotoTcp := by decide
  by_cases hu : proto = ipprotoUdp
  · by_cases hl : data.length < l4Offset vi + 8
    · exact Or.inl ⟨by simp [extractFlowKey, h14, hty, hip, h34, hs, hd, hp, hv, hu, hl, hne],
        fun h => by have := h.2.2 hu; omega⟩
    obtain ⟨sp, hsp⟩ := load16_isSome data (l4Offset vi) (by omega)
    obtain ⟨dp, hdp⟩ := load16_isSome data (l4Offset vi + 2) (by omega)
    obtain ⟨f, hf⟩ := exists_flow saddr daddr sp dp fun _ h => absurd hu h
    exact Or.inr ⟨f, by simp [extractFlowKey, h14, hty, hip, h34, hs, hd, hp, hv, hu, hl, hsp, hdp, hf, hne], hIp,
      fun h => absurd h ht, fun _ => by omega⟩
  · obtain ⟨f, hf⟩ := exists_flow saddr daddr 0 0 fun (_ : proto ≠ _) _ => ⟨rfl, rfl⟩
    exact Or.inr ⟨f, by simp [extractFlowKey, h14, hty, hip, h34, hs, hd, hp, hv, ht, hu, hf], hIp,
      fun h => absurd h ht, fun h => absurd h hu⟩

/-- No load of the parser leaves the linear data. -/
theorem extractFlowKey_inBounds (skb : SkBuff) : (extractFlowKey skb).isSome := by
  rcases extractFlowKey_cases skb with ⟨h, _⟩ | ⟨f, h, _⟩ <;> simp [h]

/-- A key the parser builds is the key of a flow. -/
theorem extractFlowKey_sound {skb : SkBuff} {k : FlowKey} (h : extractFlowKey skb = some (some k)) :
    ∃ f : Flow, f.key = k := by
  rcases extractFlowKey_cases skb with ⟨h', _⟩ | ⟨f, h', _⟩ <;> rw [h] at h'
  · cases h'
  · cases h'; exact ⟨f, rfl⟩

theorem extractFlowKey_accepts {skb : SkBuff} (h : IsIpv4 skb.data) (hl : L4Complete skb.data) :
    ∃ f : Flow, extractFlowKey skb = some (some f.key) := by
  rcases extractFlowKey_cases skb with ⟨_, h'⟩ | ⟨f, h', _⟩
  · exact absurd ⟨h, hl⟩ h'
  · exact ⟨f, h'⟩

theorem extractFlowKey_rejects {skb : SkBuff} (h : ¬ L4Complete skb.data) : extractFlowKey skb = some none := by
  rcases extractFlowKey_cases skb with ⟨h', _⟩ | ⟨f, _, _, hl⟩
  · exact h'
  · exact absurd hl h

/-! ## Frames -/

/-- An IPv4 frame field by field: `ihl - 5` words of options and a body of any bytes, which for TCP and
UDP starts with the ports. -/
structure Ipv4Frame where
  ethDst : BitVec 48
  ethSrc : BitVec 48
  version : BitVec 4
  ihl : BitVec 4
  tos : U8
  totLen : U16
  id : U16
  flags : BitVec 3
  fragOff : BitVec 13
  ttl : U8
  protocol : U8
  check : U16
  saddr : U32
  daddr : U32
  options : List U8
  body : List U8
  ihl_ge : 5 ≤ ihl.toNat
  options_length : options.length = 4 * (ihl.toNat - 5)

def bytes48 (x : BitVec 48) : List U8 :=
  [x.extractLsb' 40 8, x.extractLsb' 32 8, x.extractLsb' 24 8, x.extractLsb' 16 8, x.extractLsb' 8 8,
    x.extractLsb' 0 8]

/-- Ethernet and IP header without options. -/
def Ipv4Frame.header (fr : Ipv4Frame) : List U8 :=
  bytes48 fr.ethDst ++ bytes48 fr.ethSrc ++ bytes16 ethPIp ++
    [fr.version ++ fr.ihl, fr.tos] ++ bytes16 fr.totLen ++ bytes16 fr.id ++ bytes16 (fr.flags ++ fr.fragOff) ++
    [fr.ttl, fr.protocol] ++ bytes16 fr.check ++ bytes32 fr.saddr ++ bytes32 fr.daddr

/-- The frame on the wire. -/
def Ipv4Frame.bytes (fr : Ipv4Frame) : List U8 := fr.header ++ (fr.options ++ fr.body)

/-- A whole TCP or UDP header, when the protocol says so. -/
def Ipv4Frame.Complete (fr : Ipv4Frame) : Prop :=
  (fr.protocol = ipprotoTcp → 20 ≤ fr.body.length) ∧ (fr.protocol = ipprotoUdp → 8 ≤ fr.body.length)

/-- The 5-tuple the frame's headers carry. -/
def Ipv4Frame.flow (fr : Ipv4Frame) : Flow where
  srcIP := fr.saddr
  dstIP := fr.daddr
  srcPort := if fr.protocol = ipprotoTcp ∨ fr.protocol = ipprotoUdp then be16 fr.body else 0
  dstPort := if fr.protocol = ipprotoTcp ∨ fr.protocol = ipprotoUdp then be16 (fr.body.drop 2) else 0
  protocol := fr.protocol
  noPorts h1 h2 := by simp [h1, h2]

theorem l4Offset_frame (fr : Ipv4Frame) : l4Offset (fr.version ++ fr.ihl) = 34 + fr.options.length := by
  have h : fr.version ++ fr.ihl &&& 0x0f = fr.ihl.setWidth 8 := by
    apply BitVec.eq_of_getLsbD_eq
    intro i hi
    rw [BitVec.getLsbD_and, BitVec.getLsbD_append, BitVec.getLsbD_setWidth]
    by_cases h4 : i < 4
    · rcases (by omega : i = 0 ∨ i = 1 ∨ i = 2 ∨ i = 3) with rfl | rfl | rfl | rfl <;> simp
    · rw [BitVec.getLsbD_of_ge fr.ihl i (by omega)]
      rcases (by omega : i = 4 ∨ i = 5 ∨ i = 6 ∨ i = 7) with rfl | rfl | rfl | rfl <;> simp
  have hge := fr.ihl_ge
  have hlt := fr.ihl.isLt
  rw [l4Offset, h, fr.options_length, BitVec.toNat_setWidth, Nat.mod_eq_of_lt (by omega)]
  omega

theorem length_header (fr : Ipv4Frame) : fr.header.length = 34 := by
  simp [Ipv4Frame.header, bytes48]

theorem length_bytes (fr : Ipv4Frame) : fr.bytes.length = 34 + fr.options.length + fr.body.length := by
  rw [Ipv4Frame.bytes, List.length_append, length_header, List.length_append]; omega

theorem load8_protocol (fr : Ipv4Frame) : load8 fr.bytes 23 = some fr.protocol := by
  simp [load8, Ipv4Frame.bytes, Ipv4Frame.header, bytes48, bytes16, bytes32]

theorem load8_verIhl (fr : Ipv4Frame) : load8 fr.bytes 14 = some (fr.version ++ fr.ihl) := by
  simp [load8, Ipv4Frame.bytes, Ipv4Frame.header, bytes48, bytes16, bytes32]

/-- Two bytes of the body, read behind the headers and the options. -/
theorem load16_body (fr : Ipv4Frame) {n : Nat} (h : n + 2 ≤ fr.body.length) :
    load16 fr.bytes (34 + fr.options.length + n) = some (swap16 (be16 (fr.body.drop n))) := by
  have hb : ∀ i, fr.bytes[34 + fr.options.length + i]? = fr.body[i]? := by
    intro i
    rw [Ipv4Frame.bytes, List.getElem?_append_right (by rw [length_header]; omega), length_header,
      List.getElem?_append_right (by omega)]
    congr 1; omega
  rw [load16, hb, Nat.add_assoc _ n 1, hb, List.getElem?_eq_getElem (by omega), List.getElem?_eq_getElem (by omega),
    List.drop_eq_getElem_cons (by omega), List.drop_eq_getElem_cons (by omega), ← le16_eq_swap16_be16]
  rfl

/-- **The parser inverts serialisation**: on a complete frame it builds the key of the frame's flow. -/
theorem extractFlowKey_bytes (fr : Ipv4Frame) (hc : fr.Complete) (len : U32) :
    extractFlowKey ⟨fr.bytes, len⟩ = some (some fr.flow.key) := by
  have hl4 := l4Offset_frame fr
  have hlen := length_bytes fr
  have h12 : load16 fr.bytes 12 = some (bpfHtons ethPIp) := by
    simp [load16, Ipv4Frame.bytes, Ipv4Frame.header, bytes48, bytes16, bytes32, bpfHtons, swap16]
  have hs : load32 fr.bytes 26 = some (swap32 fr.saddr) := by
    simp [load32, Ipv4Frame.bytes, Ipv4Frame.header, bytes48, bytes16, bytes32, swap32]
  have hd : load32 fr.bytes 30 = some (swap32 fr.daddr) := by
    simp [load32, Ipv4Frame.bytes, Ipv4Frame.header, bytes48, bytes16, bytes32, swap32]
  have hp := load8_protocol fr
  have hv := load8_verIhl fr
  have h14 : ¬ fr.bytes.length < 14 := by omega
  have h34 : ¬ fr.bytes.length < 34 := by omega
  have hne : ipprotoUdp ≠ ipprotoTcp := by decide
  by_cases ht : fr.protocol = ipprotoTcp
  · have hb := hc.1 ht
    have hsp := load16_body fr (n := 0) (by omega)
    have hdp := load16_body fr (n := 2) (by omega)
    have hl : ¬ fr.bytes.length < 34 + fr.options.length + 20 := by omega
    simp only [Nat.add_zero, List.drop_zero] at hsp
    simp [extractFlowKey, h14, h12, h34, hs, hd, hp, hv, ht, hl4, hl, hsp, hdp, Flow.key, Ipv4Frame.flow]
  by_cases hu : fr.protocol = ipprotoUdp
  · have hb := hc.2 hu
    have hsp := load16_body fr (n := 0) (by omega)
    have hdp := load16_body fr (n := 2) (by omega)
    have hl : ¬ fr.bytes.length < 34 + fr.options.length + 8 := by omega
    simp only [Nat.add_zero, List.drop_zero] at hsp
    simp [extractFlowKey, h14, h12, h34, hs, hd, hp, hv, hu, hl4, hl, hsp, hdp, Flow.key, Ipv4Frame.flow, hne]
  · have hz : swap16 0#16 = 0#16 := by decide
    simp [extractFlowKey, h14, h12, h34, hs, hd, hp, hv, ht, hu, Flow.key, Ipv4Frame.flow, hz]

/-- The plainest frame of a flow: no options, a zeroed rest of the TCP header. -/
def Flow.frame (f : Flow) : Ipv4Frame where
  ethDst := 0
  ethSrc := 0
  version := 4
  ihl := 5
  tos := 0
  totLen := 40
  id := 0
  flags := 0
  fragOff := 0
  ttl := 64
  protocol := f.protocol
  check := 0
  saddr := f.srcIP
  daddr := f.dstIP
  options := []
  body := bytes16 f.srcPort ++ (bytes16 f.dstPort ++ List.replicate 16 0)
  ihl_ge := by decide
  options_length := rfl

theorem flow_frame (f : Flow) : f.frame.flow = f := by
  have hs : be16 f.frame.body = f.srcPort := be16_bytes16 _ _
  have hd : be16 (f.frame.body.drop 2) = f.dstPort := be16_bytes16 _ _
  have hp : f.frame.protocol = f.protocol := rfl
  rw [← Flow.key_inj, Flow.key, Flow.key]
  by_cases h : f.protocol = ipprotoTcp ∨ f.protocol = ipprotoUdp
  · simp [Ipv4Frame.flow, hs, hd, hp, h]
    exact ⟨rfl, rfl⟩
  · have h0 := f.noPorts (fun e => h (Or.inl e)) fun e => h (Or.inr e)
    simp [Ipv4Frame.flow, hp, h, h0]
    exact ⟨rfl, rfl⟩

theorem frame_complete (f : Flow) : f.frame.Complete :=
  ⟨fun _ => by simp [Flow.frame], fun _ => by simp [Flow.frame]⟩

/-- Every flow's key is one the parser builds. -/
theorem extractFlowKey_frame (f : Flow) (len : U32) :
    extractFlowKey ⟨f.frame.bytes, len⟩ = some (some f.key) := by
  rw [extractFlowKey_bytes _ (frame_complete f), flow_frame]

end Microseg
