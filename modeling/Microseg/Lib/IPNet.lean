import Mathlib.Tactic.SplitIfs
import Mathlib.Data.List.Induction
import Microseg.Lib.GoNet
/-!
# Networks as Go's standard library reads them

`net.ParseCIDR` gives an address and the network it is in; `contains` is `IPNet.Contains` of that network,
for IPv4 addresses. A text that is accepted has an address of sixteen bytes and a mask of its family
(`parseCIDR_shape`), and the network of an IPv6 text contains IPv4 addresses only if it lies within those
that are mapped (`host_of_contains`). Printing is the way back: the text of an `Ipv4Addr` is
what its bytes are printed as (`ipv4String_text`), and any bytes are those of one (`exists_ipv4Addr`).

| here | there |
| --- | --- |
| `IP.mask`, `networkNumberAndMask`, `contains` | `net`: `IP.Mask`, `networkNumberAndMask`, `IPNet.Contains` |
-/
namespace GoNet
open Words

/-! ## Networks -/

/-- `IP.Mask`; the empty list is nil. -/
def IP.mask (ip : IP) (mask : IPMask) : IP :=
  let mask := if mask.length = 16 ∧ ip.length = 4 ∧ mask.take 12 = List.replicate 12 0xff then mask.drop 12 else mask
  let ip := if mask.length = 4 ∧ ip.length = 16 ∧ ip.take 12 = v4InV6Prefix then ip.drop 12 else ip
  if ip.length ≠ mask.length then [] else List.zipWith (· &&& ·) ip mask

/-- `networkNumberAndMask`. -/
def networkNumberAndMask (ip : IP) (mask : IPMask) : Option (IP × IPMask) := do
  let number ← ip.to4 <|> if ip.length ≠ 16 then none else some ip
  if mask.length = 4 then
    if number.length ≠ 4 then none else return (number, mask)
  else if mask.length = 16 then return (number, if number.length = 4 then mask.drop 12 else mask)
  else none

/-- `IPNet.Contains`, for an IPv4 address and the network that `net.ParseCIDR` makes of `ip` and `mask`. -/
def contains (ip : IP) (mask : IPMask) (x : U32) : Bool :=
  match networkNumberAndMask (ip.mask mask) mask with
  | none => false
  | some (nn, m) => nn.length = 4 ∧ List.zipWith (· &&& ·) nn m = List.zipWith (· &&& ·) (bytes32 x) m

/-! ## What `net.ParseCIDR` returns -/

theorem length_parseIPv4Fields : ∀ (s : List Char) (fields : List U8) (val digLen : Nat) {out : List U8},
    fields.length ≤ 3 → parseIPv4Fields fields val digLen s = some out → out.length = 4
  | [], fields, val, digLen, out, hf, h => by
    unfold parseIPv4Fields at h
    split at h
    · cases h
    · cases h
      rw [List.length_append, List.length_singleton]; omega
  | c :: s, fields, val, digLen, out, hf, h => by
    unfold parseIPv4Fields at h
    split at h
    · split at h
      · cases h
      · split at h
        · cases h
        · exact length_parseIPv4Fields s fields _ _ hf h
    · split at h
      · split at h
        · cases h
        · split at h
          · cases h
          · refine length_parseIPv4Fields s _ _ _ ?_ h
            rw [List.length_append, List.length_singleton]; omega
      · cases h

theorem length_parseGroups (n : Nat) {ip out : List U8} {ellipsis ellipsis' : Option Nat} {s rest : List Char}
    (hip : ip.length + 2 * n ≤ 16) (h : parseGroups n ip ellipsis s = some (out, ellipsis', rest)) : out.length ≤ 16 := by
  induction n generalizing ip ellipsis s with
  | zero => cases h; exact hip
  | succ n ih =>
    have hgroup : ∀ acc : Nat, (ip ++ [BitVec.ofNat 8 (acc / 256), BitVec.ofNat 8 acc]).length + 2 * n ≤ 16 := fun acc => by
      rw [List.length_append, List.length_cons, List.length_singleton]; omega
    unfold parseGroups at h
    obtain ⟨⟨off, acc, tail⟩, _, h⟩ := Option.bind_eq_some_iff.1 h
    dsimp only at h
    by_cases hoff : off = 0
    · rw [if_pos hoff] at h; cases h
    rw [if_neg hoff] at h
    by_cases hdot : tail.head? = some '.'
    · -- an IPv4 address at the end
      rw [if_pos hdot] at h
      split_ifs at h with _ hroom
      obtain ⟨fields, hfields, h⟩ := Option.bind_eq_some_iff.1 h
      cases h
      rw [List.length_append, length_parseIPv4Fields s [] 0 0 (by simp) hfields]
      omega
    rw [if_neg hdot] at h
    have hlast := Nat.le_trans (Nat.le_add_right _ _) (hgroup acc)
    cases tail with
    | nil => cases h; exact hlast
    | cons c s =>
      dsimp only at h
      by_cases hcolon : c ≠ ':'
      · rw [if_pos hcolon] at h; cases h
      rw [if_neg hcolon] at h
      split at h
      · cases h
      · split_ifs at h with _ hnil
        · cases h; exact hlast
        · exact ih (hgroup acc) h
      · exact ih (hgroup acc) h

theorem length_parseIPv6 {s : List Char} {a : Addr} (h : parseIPv6 s = some a) : a.bytes.length = 16 := by
  unfold parseIPv6 at h
  dsimp only at h
  by_cases hzone : '%' ∈ s ∧ (s.dropWhile (· ≠ '%')).drop 1 = []
  · rw [if_pos hzone] at h; cases h
  rw [if_neg hzone] at h
  generalize (if (s.takeWhile (· ≠ '%')).take 2 = [':', ':'] then (s.takeWhile (· ≠ '%')).drop 2
    else s.takeWhile (· ≠ '%')) = groups at h
  generalize (if (s.takeWhile (· ≠ '%')).take 2 = [':', ':'] then some 0 else none) = leading at h
  by_cases hempty : (s.takeWhile (· ≠ '%')).take 2 = [':', ':'] ∧ groups = []
  · rw [if_pos hempty] at h
    cases h
    exact List.length_replicate
  rw [if_neg hempty] at h
  obtain ⟨⟨ip, ellipsis, rest⟩, hgroups, h⟩ := Option.bind_eq_some_iff.1 h
  have hle : ip.length ≤ 16 := length_parseGroups 8 (by simp) hgroups
  dsimp only at h
  by_cases hrest : rest ≠ []
  · rw [if_pos hrest] at h; cases h
  rw [if_neg hrest] at h
  split_ifs at h with hshort hnone
  · -- the zeros that `::` stands for
    obtain ⟨e, _, h⟩ := Option.bind_eq_some_iff.1 h
    cases h
    simp only [List.length_append, List.length_take, List.length_replicate, List.length_drop]
    omega
  · cases h
    exact Nat.le_antisymm hle (Nat.not_lt.1 hshort)

theorem length_parseAddr {s : List Char} {a : Addr} (h : parseAddr s = some a) :
    a.bytes.length = 4 ∨ a.bytes.length = 16 := by
  unfold parseAddr at h
  split at h
  · obtain ⟨fields, hfields, rfl⟩ := Option.map_eq_some_iff.1 h
    exact Or.inl (length_parseIPv4Fields s [] 0 0 (by simp) hfields)
  · exact Or.inr (length_parseIPv6 h)
  · cases h

/-- **An accepted text** has an IPv4 address and a mask of 32 bits, or sixteen bytes and a mask of 128. -/
theorem parseCIDR_shape {s : String} {ip : IP} {mask : IPMask} (h : parseCIDR s = .ok (ip, mask)) :
    (∃ b, b.length = 4 ∧ ip = v4InV6Prefix ++ b ∧ ∃ n ≤ 32, mask = cidrMask n 32) ∨
      (ip.length = 16 ∧ ∃ n ≤ 128, mask = cidrMask n 128) := by
  unfold parseCIDR at h
  dsimp only at h
  split at h
  · cases h
  · split at h
    · cases h
    · next a ha =>
      split_ifs at h with hzone hlen
      cases h
      have hbits := (not_or.1 (not_or.1 hlen).2).2
      rcases length_parseAddr ha with h4 | h16
      · refine Or.inl ⟨a.bytes, h4, by rw [Addr.as16, if_pos h4], _, ?_, by rw [Addr.bitLen, h4]⟩
        rw [Addr.bitLen, h4] at hbits
        exact Nat.not_lt.1 hbits
      · refine Or.inr ⟨by rw [Addr.as16, if_neg (by omega), h16], _, ?_, by rw [Addr.bitLen, h16]⟩
        rw [Addr.bitLen, h16] at hbits
        exact Nat.not_lt.1 hbits

/-! ## What a network contains -/

theorem bytes32_inj {x y : U32} : bytes32 x = bytes32 y ↔ x = y :=
  ⟨fun h => swap32_inj.1 (congrArg le32 h), fun h => by rw [h]⟩

theorem bytes32_and (x y : U32) : bytes32 (x &&& y) = List.zipWith (· &&& ·) (bytes32 x) (bytes32 y) := by
  simp [bytes32, BitVec.extractLsb'_and]

theorem exists_four {b : List U8} (h : b.length = 4) : ∃ b0 b1 b2 b3, b = [b0, b1, b2, b3] := by
  rcases b with _ | ⟨b0, _ | ⟨b1, _ | ⟨b2, _ | ⟨b3, _ | ⟨b4, b⟩⟩⟩⟩⟩
  · cases h
  · cases h
  · cases h
  · cases h
  · exact ⟨b0, b1, b2, b3, rfl⟩
  · simp at h

theorem bytes32_be32_of_length {b : List U8} (h : b.length = 4) : bytes32 (be32 b) = b := by
  obtain ⟨b0, b1, b2, b3, rfl⟩ := exists_four h
  exact bytes32_be32 b0 b1 b2 b3

theorem zipWith_and_mask : ∀ b m : List U8,
    List.zipWith (· &&& ·) (List.zipWith (· &&& ·) b m) m = List.zipWith (· &&& ·) b m
  | [], _ => rfl
  | _ :: _, [] => rfl
  | x :: b, y :: m => by
    rw [List.zipWith_cons_cons, List.zipWith_cons_cons, zipWith_and_mask b m, BitVec.and_assoc, BitVec.and_self]

theorem zipWith_and_ones : ∀ b : List U8, List.zipWith (· &&& ·) b (List.replicate b.length 0xff) = b
  | [] => rfl
  | x :: b => by
    rw [List.length_cons, List.replicate_succ, List.zipWith_cons_cons, zipWith_and_ones b]
    exact congrArg (· :: b) BitVec.and_allOnes

/-- Comparing four bytes under a mask is comparing words. -/
theorem masked_eq_iff {b m : List U8} (hb : b.length = 4) (hm : m.length = 4) (x : U32) :
    List.zipWith (· &&& ·) (List.zipWith (· &&& ·) b m) m = List.zipWith (· &&& ·) (bytes32 x) m ↔
      x &&& be32 m = be32 b &&& be32 m := by
  rw [zipWith_and_mask, ← bytes32_inj, bytes32_and, bytes32_and, bytes32_be32_of_length hb, bytes32_be32_of_length hm,
    eq_comm]

/-- The network of an IPv4 text. -/
theorem contains_ipv4 {b m : List U8} (hb : b.length = 4) (hm : m.length = 4) (x : U32) :
    contains (v4InV6Prefix ++ b) m x = true ↔ x &&& be32 m = be32 b &&& be32 m := by
  have hnet : IP.mask (v4InV6Prefix ++ b) m = List.zipWith (· &&& ·) b m := by
    obtain ⟨b0, b1, b2, b3, rfl⟩ := exists_four hb
    obtain ⟨m0, m1, m2, m3, rfl⟩ := exists_four hm
    rfl
  have hlen : (List.zipWith (· &&& ·) b m).length = 4 := by rw [List.length_zipWith, hb, hm]; rfl
  have hnumber : networkNumberAndMask (IP.mask (v4InV6Prefix ++ b) m) m = some (List.zipWith (· &&& ·) b m, m) := by
    simp [networkNumberAndMask, hnet, IP.to4, hlen, hm]
  rw [contains, hnumber, ← masked_eq_iff hb hm]
  simp [hlen]

theorem cidrMask_128 {n : Nat} (hn : n ≤ 128) : (cidrMask n 128).length = 16 ∧
    ((cidrMask n 128)[11]? = some 0xff → (cidrMask n 128).take 12 = List.replicate 12 0xff) := by
  have hall : ∀ n < 129, (cidrMask n 128).length = 16 ∧
      ((cidrMask n 128)[11]? = some 0xff → (cidrMask n 128).take 12 = List.replicate 12 0xff) := by decide
  exact hall n (by omega)

/-- A masked address starts with the bytes of the mapped ones only if the address does. -/
theorem take_of_masked {ip : IP} (hip : ip.length = 16) {n : Nat} (hn : n ≤ 128)
    (h : (List.zipWith (· &&& ·) ip (cidrMask n 128)).take 12 = v4InV6Prefix) : ip.take 12 = v4InV6Prefix := by
  obtain ⟨hm, hones⟩ := cidrMask_128 hn
  have hlast : (List.zipWith (· &&& ·) ip (cidrMask n 128))[11]? = some 0xff := by
    have h11 := congrArg (·[11]?) h
    rwa [List.getElem?_take_of_lt (by omega)] at h11
  have hmask : (cidrMask n 128)[11]? = some 0xff := by
    have hi := List.getElem?_eq_getElem (l := ip) (i := 11) (by omega)
    have hj := List.getElem?_eq_getElem (l := cidrMask n 128) (i := 11) (by omega)
    rw [List.getElem?_zipWith, hi, hj] at hlast
    rw [hj]
    exact congrArg some (BitVec.and_eq_allOnes_iff.1 (Option.some.inj hlast)).2
  have htake : (ip.take 12).length = 12 := by rw [List.length_take, hip]; rfl
  have hsame := zipWith_and_ones (ip.take 12)
  rw [htake] at hsame
  rw [List.take_zipWith, hones hmask, hsame] at h
  exact h

/-- The network of an IPv6 text contains IPv4 addresses only among those it maps. -/
theorem contains_ipv6 {ip : IP} (hip : ip.length = 16) {n : Nat} (hn : n ≤ 128) {x : U32}
    (hx : contains ip (cidrMask n 128) x = true) : ∃ b, b.length = 4 ∧ ip = v4InV6Prefix ++ b ∧
      ∀ y, contains ip (cidrMask n 128) y = true ↔
        y &&& be32 ((cidrMask n 128).drop 12) = be32 b &&& be32 ((cidrMask n 128).drop 12) := by
  obtain ⟨hm, _⟩ := cidrMask_128 hn
  have htake := @take_of_masked ip hip n hn
  generalize cidrMask n 128 = m at hx hm htake ⊢
  have hlen : (List.zipWith (· &&& ·) ip m).length = 16 := by rw [List.length_zipWith, hip, hm]; rfl
  have hnet : IP.mask ip m = List.zipWith (· &&& ·) ip m := by simp [IP.mask, hip, hm]
  by_cases hpre : (List.zipWith (· &&& ·) ip m).take 12 = v4InV6Prefix
  · have hb : (ip.drop 12).length = 4 := by rw [List.length_drop, hip]
    have hm' : (m.drop 12).length = 4 := by rw [List.length_drop, hm]
    have hnumber : networkNumberAndMask (IP.mask ip m) m =
        some (List.zipWith (· &&& ·) (ip.drop 12) (m.drop 12), m.drop 12) := by
      simp [networkNumberAndMask, hnet, IP.to4, hlen, hpre, hm, List.drop_zipWith, hip]
    refine ⟨ip.drop 12, hb, by rw [← htake hpre, List.take_append_drop], fun y => ?_⟩
    rw [contains, hnumber, ← masked_eq_iff hb hm']
    simp [hip, hm]
  · have hnumber : networkNumberAndMask (IP.mask ip m) m = some (List.zipWith (· &&& ·) ip m, m) := by
      simp [networkNumberAndMask, hnet, IP.to4, hlen, hpre, hm]
    rw [contains, hnumber] at hx
    simp [hip, hm] at hx

/-- **The host of a network**: where an accepted text's network contains an IPv4 address at all, its own address is
one, and containment compares with that address under a mask. -/
theorem host_of_contains {s : String} {ip : IP} {mask : IPMask} (h : parseCIDR s = .ok (ip, mask)) {x : U32}
    (hx : contains ip mask x = true) : ∃ host m : U32, ip.to4 = some (bytes32 host) ∧
      ∀ y, contains ip mask y = true ↔ y &&& m = host &&& m := by
  have hto4 : ∀ {b : List U8}, b.length = 4 → IP.to4 (v4InV6Prefix ++ b) = some (bytes32 (be32 b)) := by
    intro b hb
    rw [bytes32_be32_of_length hb]
    obtain ⟨b0, b1, b2, b3, rfl⟩ := exists_four hb
    exact to4_mapped
  rcases parseCIDR_shape h with ⟨b, hb, rfl, n, hn, rfl⟩ | ⟨hip, n, hn, rfl⟩
  · exact ⟨be32 b, _, hto4 hb, contains_ipv4 hb (be32_cidrMask hn).2⟩
  · obtain ⟨b, hb, rfl, hall⟩ := contains_ipv6 hip hn hx
    exact ⟨be32 b, _, hto4 hb, hall⟩

/-! ## IPv6 texts -/

/-- The text of a prefix length of at most 128. -/
structure Ipv6PrefixLen where
  text : List Char
  nonempty : text ≠ []
  digits : ∀ c ∈ text, c.isDigit
  le : decimalFrom 0 text ≤ 128

/-- An IPv6 address that is not IPv4-mapped, alone or with a prefix length. -/
structure Ipv6Text where
  addr : List Char
  bytes : List U8
  reads : parseAddr addr = some ⟨bytes, []⟩
  length_eq : bytes.length = 16
  notMapped : bytes.take 12 ≠ v4InV6Prefix
  noSlash : ∀ c ∈ addr, c ≠ '/'
  len : Option Ipv6PrefixLen

def Ipv6Text.text (t : Ipv6Text) : String :=
  match t.len with
  | none => String.ofList t.addr
  | some n => String.ofList (t.addr ++ '/' :: n.text)

/-- It is not an IPv4 address in another notation. -/
theorem Ipv6Text.to4_bytes (t : Ipv6Text) : IP.to4 t.bytes = none := by
  simp [IP.to4, t.length_eq, t.notMapped]

/-- With a slash and a prefix length, `net.ParseCIDR` accepts it. -/
theorem Ipv6Text.parseCIDR_slash (t : Ipv6Text) (n : Ipv6PrefixLen) :
    parseCIDR (String.ofList (t.addr ++ '/' :: n.text)) = .ok (t.bytes, cidrMask (decimalFrom 0 n.text) 128) := by
  have hbits : Addr.bitLen ⟨t.bytes, []⟩ = 128 := by rw [Addr.bitLen, t.length_eq]
  have has : Addr.as16 ⟨t.bytes, []⟩ = t.bytes := by simp [Addr.as16, t.length_eq]
  rw [GoNet.parseCIDR_slash t.reads rfl t.noSlash n.nonempty n.digits (hbits ▸ n.le)
    (Nat.lt_of_le_of_lt n.le (by decide)), hbits, has]

/-! ## Printed addresses -/

/-- `digitVal` and `decimalFrom` read digits as the core library does. -/
theorem decimalFrom_eq (ds : List Char) (n : Nat) : decimalFrom n ds = Nat.ofDigitChars 10 ds n := by
  induction ds generalizing n with
  | nil => rw [decimalFrom_nil, Nat.ofDigitChars_nil]
  | cons c ds ih => rw [decimalFrom_cons, ih, Nat.ofDigitChars_cons, Nat.mul_comm, digitVal]

theorem decimalFrom_toDigits (n : Nat) : decimalFrom 0 (Nat.toDigits 10 n) = n := by
  rw [decimalFrom_eq, Nat.ofDigitChars_ten_toDigits]

/-- A number is printed without leading zeros. -/
theorem toDigits_canonical (n : Nat) {ds : List Char} (h : Nat.toDigits 10 n = '0' :: ds) : ds = [] := by
  induction n using Nat.strongRecOn generalizing ds with
  | ind n ih =>
    by_cases hn : n < 10
    · rw [Nat.toDigits_of_lt_base hn] at h
      exact (List.cons.inj h).2.symm
    · rw [Nat.toDigits_of_base_le (by decide) (Nat.not_lt.1 hn)] at h
      have hvalue := decimalFrom_toDigits (n / 10)
      cases hc : Nat.toDigits 10 (n / 10) with
      | nil => exact absurd hc Nat.toDigits_ne_nil
      | cons c tail =>
        -- by induction the digits before the last would be the one digit 0, but they stand for `n / 10`
        rw [hc, List.cons_append] at h
        have h0 := (List.cons.inj h).1
        rw [h0] at hc
        rw [hc, ih (n / 10) (by omega) hc] at hvalue
        have h10 : decimalFrom 0 ['0'] = 0 := rfl
        omega

/-- Every byte is the value of an octet. -/
theorem exists_octet (x : U8) : ∃ o : Octet, o.val = x := by
  have hdigits : ∀ c ∈ Nat.toDigits 10 x.toNat, c.isDigit := fun c hc =>
    Nat.isDigit_of_mem_toDigits (by decide) (by decide) hc
  have hvalue := decimalFrom_toDigits x.toNat
  cases he : Nat.toDigits 10 x.toNat with
  | nil => exact absurd he Nat.toDigits_ne_nil
  | cons c ds =>
    rw [he] at hdigits hvalue
    refine ⟨⟨c, ds, hdigits, fun h0 => toDigits_canonical x.toNat (h0 ▸ he), by have := x.isLt; omega⟩, ?_⟩
    rw [Octet.val, Octet.text, hvalue, BitVec.ofNat_toNat, BitVec.setWidth_eq]

theorem digitChar_digitVal {d : Char} (hd : d.isDigit) : digitVal d < 10 ∧ Nat.digitChar (digitVal d) = d := by
  have hrange : 48 ≤ d.toNat ∧ d.toNat ≤ 57 := by
    simp only [Char.isDigit, Bool.and_eq_true, decide_eq_true_eq, UInt32.le_iff_toNat_le] at hd
    exact hd
  have hval : digitVal d = d.toNat - 48 := rfl
  refine ⟨by omega, ?_⟩
  have hall : ∀ k < 10, Nat.digitChar k = Char.ofNat (48 + k) := by decide
  rw [hall _ (by omega), hval, Nat.add_sub_cancel' hrange.1, Char.ofNat_toNat]

/-- **Reading and printing**: digits without a leading zero are the text of the number they stand for. -/
theorem toDigits_decimalFrom {c : Char} {ds : List Char} (hd : ∀ d ∈ c :: ds, d.isDigit) (h0 : c = '0' → ds = []) :
    Nat.toDigits 10 (decimalFrom 0 (c :: ds)) = c :: ds := by
  induction ds using List.reverseRecOn with
  | nil =>
    obtain ⟨hlt, hchar⟩ := digitChar_digitVal (hd c (by simp))
    have hval : decimalFrom 0 [c] = digitVal c := by simp [decimalFrom]
    rw [hval, Nat.toDigits_of_lt_base hlt, hchar]
  | append_singleton ds d ih =>
    have hc : c ≠ '0' := fun h => by simpa using h0 h
    have ih := ih (fun x hx => hd x (by rw [← List.cons_append]; exact List.mem_append_left _ hx)) fun h => absurd h hc
    obtain ⟨hlt, hchar⟩ := digitChar_digitVal (hd d (by simp))
    have hpos : 0 < decimalFrom 0 (c :: ds) := by
      have hle := le_decimalFrom ds (0 * 10 + digitVal c)
      have hdig := digitVal_pos (hd c (by simp)) hc
      have hcons : decimalFrom 0 (c :: ds) = decimalFrom (0 * 10 + digitVal c) ds := rfl
      omega
    have hval : decimalFrom 0 (c :: (ds ++ [d])) = decimalFrom 0 (c :: ds) * 10 + digitVal d := by
      simp [decimalFrom, List.foldl_append]
    have hdiv : (decimalFrom 0 (c :: ds) * 10 + digitVal d) / 10 = decimalFrom 0 (c :: ds) := by omega
    have hmod : (decimalFrom 0 (c :: ds) * 10 + digitVal d) % 10 = digitVal d := by omega
    rw [hval, Nat.toDigits_of_base_le (by decide) (by omega), hdiv, hmod, ih, hchar]; rfl

theorem octet_text (o : Octet) : (toString o.val.toNat).toList = o.text := by
  have hle : decimalFrom 0 o.text ≤ 255 := o.le
  have hval : o.val.toNat = decimalFrom 0 o.text := by
    rw [Octet.val, BitVec.toNat_ofNat]; omega
  have htext : (toString o.val.toNat).toList = Nat.toDigits 10 o.val.toNat := Nat.toList_repr
  rw [htext, hval]
  exact toDigits_decimalFrom o.digits o.canonical

/-- Printing an address gives the text it was read from. -/
theorem ipv4String_text (a : Ipv4Addr) : ipv4String a.o0.val a.o1.val a.o2.val a.o3.val = String.ofList a.text := by
  have hjoin : ∀ s t u v : String, String.intercalate "." [s, t, u, v] = s ++ "." ++ t ++ "." ++ u ++ "." ++ v :=
    fun _ _ _ _ => rfl
  have hdot : ".".toList = ['.'] := by decide
  apply String.ext
  simp only [ipv4String, List.map_cons, List.map_nil, hjoin, String.toList_append, octet_text, hdot, String.toList_ofList,
    Ipv4Addr.text, List.append_assoc, List.cons_append, List.nil_append]

/-- **Printing and parsing**: a printed address is the text of an address of the same bytes. -/
theorem exists_ipv4Addr (a b c d : U8) :
    ∃ addr : Ipv4Addr, ipv4String a b c d = String.ofList addr.text ∧ addr.bytes = [a, b, c, d] := by
  obtain ⟨oa, rfl⟩ := exists_octet a
  obtain ⟨ob, rfl⟩ := exists_octet b
  obtain ⟨oc, rfl⟩ := exists_octet c
  obtain ⟨od, rfl⟩ := exists_octet d
  exact ⟨⟨oa, ob, oc, od⟩, ipv4String_text ⟨oa, ob, oc, od⟩, rfl⟩

end GoNet
