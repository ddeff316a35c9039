import Microseg.Lib.Words
/-!
# Addresses as Go's standard library reads and writes them

`netip.ParseAddr` with both of its parsers, `net.ParseCIDR`, `net.CIDRMask`, `IP.To4` and the dotted
decimal rendering, over lists of characters: every character that is not ASCII is rejected by the
parsers just as its bytes are.

| here | there |
| --- | --- |
| `parseIPv4Fields`, `parseIPv6`, `parseAddr` | `net/netip`: `parseIPv4Fields`, `parseIPv6`, `ParseAddr` |
| `dtoi`, `cidrMask`, `parseCIDR`, `IP.to4` | `net`: `dtoi`, `CIDRMask`, `ParseCIDR`, `IP.To4` |
| `ipv4String` | `net.IPv4(a, b, c, d).String()` |

`Ipv4Addr` and `PrefixLen` are the texts of an IPv4 block, and `parseCIDR_ipv4` says what
`net.ParseCIDR` makes of them: the written address and the mask of the written length.
-/
namespace GoNet
open Words

/-- `net.IP` and `net.IPMask` are slices of bytes, of length 4 or 16. -/
abbrev IP := List U8
abbrev IPMask := List U8

/-! ## Numbers -/

def digitVal (c : Char) : Nat := c.toNat - '0'.toNat

/-- The number that `n` becomes when the digits `ds` are appended to it. -/
def decimalFrom (n : Nat) (ds : List Char) : Nat := ds.foldl (fun v c => v * 10 + digitVal c) n

@[simp] theorem decimalFrom_nil (n : Nat) : decimalFrom n [] = n := rfl

@[simp] theorem decimalFrom_cons (n : Nat) (c : Char) (ds : List Char) :
    decimalFrom n (c :: ds) = decimalFrom (n * 10 + digitVal c) ds := by
  simp only [decimalFrom, List.foldl_cons]

theorem le_decimalFrom : ∀ (ds : List Char) (n : Nat), n ≤ decimalFrom n ds
  | [], _ => Nat.le_refl _
  | c :: ds, n => by
    have h := le_decimalFrom ds (n * 10 + digitVal c)
    simp only [decimalFrom_cons]; omega

theorem isDigit_ne {c d : Char} (hc : c.isDigit) (hd : d.isDigit = false) : c ≠ d := by
  rintro rfl; rw [hc] at hd; cases hd

theorem digitVal_pos {c : Char} (hc : c.isDigit) (h0 : c ≠ '0') : 0 < digitVal c := by
  have h1 : 48 ≤ c.toNat := by
    simp only [Char.isDigit, Bool.and_eq_true, decide_eq_true_eq] at hc
    exact hc.1
  have h2 : c.toNat ≠ 48 := fun h => h0 (Char.toNat_inj.1 h)
  have h3 : '0'.toNat = 48 := rfl
  rw [digitVal, h3]; omega

/-- The bound of `dtoi`. -/
def big : Nat := 0xFFFFFF

/-- `dtoi`: the number, how many characters it took, and whether there was one. -/
def dtoi (n i : Nat) : List Char → Nat × Nat × Bool
  | [] => (n, i, i ≠ 0)
  | c :: s =>
    if c.isDigit then
      if n * 10 + digitVal c ≥ big then (big, i, false) else dtoi (n * 10 + digitVal c) (i + 1) s
    else (n, i, i ≠ 0)

theorem dtoi_digits : ∀ (ds : List Char) (n i : Nat), (∀ c ∈ ds, c.isDigit) → decimalFrom n ds < big →
    dtoi n i ds = (decimalFrom n ds, i + ds.length, decide (i + ds.length ≠ 0))
  | [], _, _, _, _ => rfl
  | c :: ds, n, i, hd, hlt => by
    have hc : c.isDigit := hd c (by simp)
    have hle := le_decimalFrom ds (n * 10 + digitVal c)
    rw [decimalFrom_cons] at hlt
    have hn : ¬ n * 10 + digitVal c ≥ big := by omega
    have ih := dtoi_digits ds (n * 10 + digitVal c) (i + 1) (fun x hx => hd x (by simp [hx])) hlt
    rw [dtoi, if_pos hc, if_neg hn, ih, decimalFrom_cons, List.length_cons,
      (by omega : i + 1 + ds.length = i + (ds.length + 1))]

/-! ## Addresses -/

/-- `netip.Addr`: four or sixteen bytes and a zone. -/
structure Addr where
  bytes : List U8
  zone : List Char

def Addr.bitLen (a : Addr) : Nat := 8 * a.bytes.length

/-- The first twelve bytes of an IPv4-mapped IPv6 address. -/
def v4InV6Prefix : List U8 := [0, 0, 0, 0, 0, 0, 0, 0, 0, 0, 0xff, 0xff]

def Addr.as16 (a : Addr) : IP := if a.bytes.length = 4 then v4InV6Prefix ++ a.bytes else a.bytes

/-- `parseIPv4Fields`, with the fields stored so far, `val` and `digLen`: no digit since the start or
the last dot is `digLen = 0`. -/
def parseIPv4Fields (fields : List U8) (val digLen : Nat) : List Char → Option (List U8)
  | [] => if fields.length < 3 then none else some (fields ++ [BitVec.ofNat 8 val])
  | c :: s =>
    if c.isDigit then
      if digLen = 1 ∧ val = 0 then none
      else if val * 10 + digitVal c > 255 then none
      else parseIPv4Fields fields (val * 10 + digitVal c) (digLen + 1) s
    else if c = '.' then
      if digLen = 0 ∨ s = [] then none
      else if fields.length = 3 then none
      else parseIPv4Fields (fields ++ [BitVec.ofNat 8 val]) 0 0 s
    else none

def hexVal (c : Char) : Option Nat :=
  if c.isDigit then some (digitVal c)
  else if 'a' ≤ c ∧ c ≤ 'f' then some (c.toNat - 'a'.toNat + 10)
  else if 'A' ≤ c ∧ c ≤ 'F' then some (c.toNat - 'A'.toNat + 10)
  else none

/-- The hex number of one group: digits read, value, rest. -/
def hexGroup (off acc : Nat) : List Char → Option (Nat × Nat × List Char)
  | [] => some (off, acc, [])
  | c :: s =>
    match hexVal c with
    | none => some (off, acc, c :: s)
    | some d =>
      if off > 3 then none
      else if acc * 16 + d > 0xffff then none
      else hexGroup (off + 1) (acc * 16 + d) s

/-- The loop of `parseIPv6` with room for `n` more groups: `ip` holds the bytes so far, `ellipsis` the
position of a `::`. It ends with what is left of the text. -/
def parseGroups : Nat → List U8 → Option Nat → List Char → Option (List U8 × Option Nat × List Char)
  | 0, ip, ellipsis, s => some (ip, ellipsis, s)
  | n + 1, ip, ellipsis, s => do
    let (off, acc, rest) ← hexGroup 0 0 s
    if off = 0 then none
    else if rest.head? = some '.' then
      -- might be a trailing IPv4 address
      if ellipsis = none ∧ ip.length ≠ 12 then none
      else if ip.length + 4 > 16 then none
      else
        let fields ← parseIPv4Fields [] 0 0 s
        return (ip ++ fields, ellipsis, [])
    else
      let ip := ip ++ [BitVec.ofNat 8 (acc / 256), BitVec.ofNat 8 acc]
      match rest with
      | [] => return (ip, ellipsis, [])
      | c :: s =>
        if c ≠ ':' then none
        else
          match s with
          | [] => none
          | ':' :: s' =>
            if ellipsis.isSome then none
            else if s' = [] then return (ip, some ip.length, [])
            else parseGroups n ip (some ip.length) s'
          | s => parseGroups n ip ellipsis s

/-- `parseIPv6`. -/
def parseIPv6 (s : List Char) : Option Addr := do
  let zone := (s.dropWhile (· ≠ '%')).drop 1
  if '%' ∈ s ∧ zone = [] then none
  let s := s.takeWhile (· ≠ '%')
  let leading := s.take 2 = [':', ':']
  let s := if leading then s.drop 2 else s
  if leading ∧ s = [] then return ⟨List.replicate 16 0, zone⟩
  let (ip, ellipsis, rest) ← parseGroups 8 [] (if leading then some 0 else none) s
  if rest ≠ [] then none
  if ip.length < 16 then
    let e ← ellipsis
    return ⟨ip.take e ++ List.replicate (16 - ip.length) 0 ++ ip.drop e, zone⟩
  else if ellipsis.isSome then none
  else return ⟨ip, zone⟩

/-- `netip.ParseAddr`: the first of the three characters decides what the text is. -/
def parseAddr (s : List Char) : Option Addr :=
  match s.find? fun c => c = '.' ∨ c = ':' ∨ c = '%' with
  | some '.' => (parseIPv4Fields [] 0 0 s).map fun fields => ⟨fields, []⟩
  | some ':' => parseIPv6 s
  | _ => none

/-- `net.CIDRMask`, byte by byte. -/
def maskBytes : Nat → Nat → IPMask
  | 0, _ => []
  | l + 1, n => if n ≥ 8 then 0xff :: maskBytes l (n - 8) else ~~~(0xff#8 >>> n) :: maskBytes l 0

def cidrMask (ones bits : Nat) : IPMask :=
  if bits ≠ 32 ∧ bits ≠ 128 then [] else if ones > bits then [] else maskBytes (bits / 8) ones

/-- `net.ParseError`. -/
structure ParseError where
  typ : String
  text : String
deriving DecidableEq, Repr

/-- `net.ParseCIDR`: the address in sixteen bytes, and the mask of the network. -/
def parseCIDR (s : String) : Except ParseError (IP × IPMask) :=
  let fail := .error ⟨"CIDR address", s⟩
  match s.toList.dropWhile (· ≠ '/') with
  | [] => fail
  | _ :: mask =>
    match parseAddr (s.toList.takeWhile (· ≠ '/')) with
    | none => fail
    | some ipAddr =>
      if ipAddr.zone ≠ [] then fail
      else
        let (n, i, ok) := dtoi 0 0 mask
        if ok = false ∨ i ≠ mask.length ∨ n > ipAddr.bitLen then fail
        else .ok (ipAddr.as16, cidrMask n ipAddr.bitLen)

/-- `IP.To4`. -/
def IP.to4 (ip : IP) : Option IP :=
  if ip.length = 4 then some ip
  else if ip.length = 16 ∧ ip.take 12 = v4InV6Prefix then some (ip.drop 12)
  else none

/-- `net.IPv4(a, b, c, d).String()`. -/
def ipv4String (a b c d : U8) : String :=
  String.intercalate "." ([a, b, c, d].map fun x => toString x.toNat)

/-! ## IPv4 texts -/

/-- The decimal text of a byte, without leading zeros. -/
structure Octet where
  first : Char
  rest : List Char
  digits : ∀ c ∈ first :: rest, c.isDigit
  canonical : first = '0' → rest = []
  le : decimalFrom 0 (first :: rest) ≤ 255

def Octet.text (o : Octet) : List Char := o.first :: o.rest

def Octet.val (o : Octet) : U8 := BitVec.ofNat 8 (decimalFrom 0 o.text)

/-- A dotted quad. -/
structure Ipv4Addr where
  o0 : Octet
  o1 : Octet
  o2 : Octet
  o3 : Octet

def Ipv4Addr.text (a : Ipv4Addr) : List Char :=
  a.o0.text ++ '.' :: (a.o1.text ++ '.' :: (a.o2.text ++ '.' :: a.o3.text))

def Ipv4Addr.bytes (a : Ipv4Addr) : List U8 := [a.o0.val, a.o1.val, a.o2.val, a.o3.val]

/-- The address, in host form. -/
def Ipv4Addr.val (a : Ipv4Addr) : U32 := be32 a.bytes

/-- The text of a prefix length of at most 32, leading zeros allowed. -/
structure PrefixLen where
  text : List Char
  nonempty : text ≠ []
  digits : ∀ c ∈ text, c.isDigit
  le : decimalFrom 0 text ≤ 32

def PrefixLen.val (n : PrefixLen) : Nat := decimalFrom 0 n.text

theorem digits_run : ∀ (ds : List Char) (fields : List U8) (val digLen : Nat) (s : List Char),
    (∀ c ∈ ds, c.isDigit) → decimalFrom val ds ≤ 255 → (ds = [] ∨ 0 < val) →
    parseIPv4Fields fields val digLen (ds ++ s) = parseIPv4Fields fields (decimalFrom val ds) (digLen + ds.length) s
  | [], _, _, _, _, _, _, _ => rfl
  | c :: ds, fields, val, digLen, s, hd, hle, h0 => by
    have hc : c.isDigit := hd c (by simp)
    have hv : 0 < val := h0.resolve_left (by simp)
    have hmono := le_decimalFrom ds (val * 10 + digitVal c)
    rw [decimalFrom_cons] at hle
    have ih := digits_run ds fields (val * 10 + digitVal c) (digLen + 1) s (fun x hx => hd x (by simp [hx])) hle
      (Or.inr (by omega))
    rw [List.cons_append, parseIPv4Fields, if_pos hc, if_neg (by omega), if_neg (by omega), ih, decimalFrom_cons,
      List.length_cons, (by omega : digLen + 1 + ds.length = digLen + (ds.length + 1))]

/-- Reading one octet. -/
theorem octet_run (o : Octet) (fields : List U8) (s : List Char) :
    parseIPv4Fields fields 0 0 (o.text ++ s) = parseIPv4Fields fields (decimalFrom 0 o.text) o.text.length s := by
  have hc : o.first.isDigit := o.digits _ (by simp)
  have hle := o.le
  have hmono := le_decimalFrom o.rest (0 * 10 + digitVal o.first)
  rw [decimalFrom_cons] at hle
  have hrest : o.rest = [] ∨ 0 < 0 * 10 + digitVal o.first := by
    by_cases h : o.first = '0'
    · exact Or.inl (o.canonical h)
    · exact Or.inr (by have := digitVal_pos hc h; omega)
  have hrun := digits_run o.rest fields (0 * 10 + digitVal o.first) 1 s (fun c h => o.digits c (by simp [h])) hle hrest
  rw [Octet.text, List.cons_append, parseIPv4Fields, if_pos hc, if_neg (by omega), if_neg (by omega), hrun,
    decimalFrom_cons, List.length_cons, (by omega : 1 + o.rest.length = o.rest.length + 1)]

theorem octet_dot_run (o : Octet) {fields : List U8} {s : List Char} (hs : s ≠ []) (hf : fields.length < 3) :
    parseIPv4Fields fields 0 0 (o.text ++ '.' :: s) = parseIPv4Fields (fields ++ [o.val]) 0 0 s := by
  have hdot : ¬ ('.'.isDigit = true) := by decide
  have hlen : o.text.length ≠ 0 := by simp [Octet.text]
  rw [octet_run, parseIPv4Fields, if_neg hdot, if_pos rfl, if_neg (by simp [hs, hlen]), if_neg (by omega), Octet.val]

theorem Octet.text_ne_nil (o : Octet) : o.text ≠ [] := by simp [Octet.text]

theorem parseIPv4Fields_text (a : Ipv4Addr) : parseIPv4Fields [] 0 0 a.text = some a.bytes := by
  have hlast : parseIPv4Fields ([] ++ [a.o0.val] ++ [a.o1.val] ++ [a.o2.val]) 0 0 (a.o3.text ++ []) = some a.bytes := by
    rw [octet_run, parseIPv4Fields, if_neg (by simp)]; rfl
  rw [Ipv4Addr.text, octet_dot_run _ (by simp [Octet.text]) (by simp), octet_dot_run _ (by simp [Octet.text]) (by simp),
    octet_dot_run _ a.o3.text_ne_nil (by simp), ← hlast, List.append_nil]

theorem parseAddr_text (a : Ipv4Addr) : parseAddr a.text = some ⟨a.bytes, []⟩ := by
  have hd : ∀ c ∈ a.o0.text, ¬ (c = '.' ∨ c = ':' ∨ c = '%') := by
    intro c hc h
    have hc' : c.isDigit := a.o0.digits c hc
    rcases h with h | h | h <;> exact isDigit_ne hc' (by decide) h
  have hfind : a.text.find? (fun c => decide (c = '.' ∨ c = ':' ∨ c = '%')) = some '.' := by
    have hnone : a.o0.text.find? (fun c => decide (c = '.' ∨ c = ':' ∨ c = '%')) = none :=
      List.find?_eq_none.2 fun c hc => by simpa using hd c hc
    rw [Ipv4Addr.text, List.find?_append, hnone]; rfl
  rw [parseAddr, hfind]
  simp [parseIPv4Fields_text]

theorem no_slash (a : Ipv4Addr) : ∀ c ∈ a.text, c ≠ '/' := by
  have ho : ∀ o : Octet, '/' ∉ o.text := fun o h => isDigit_ne (o.digits _ h) (by decide) rfl
  rintro c hc rfl
  simp [Ipv4Addr.text, ho] at hc

/-- An address, a slash and a prefix length that fits are what `net.ParseCIDR` accepts. -/
theorem parseCIDR_slash {addr : List Char} {a : Addr} (haddr : parseAddr addr = some a) (hzone : a.zone = [])
    (hslash : ∀ c ∈ addr, c ≠ '/') {len : List Char} (hne : len ≠ []) (hdigits : ∀ c ∈ len, c.isDigit)
    (hle : decimalFrom 0 len ≤ a.bitLen) (hbig : decimalFrom 0 len < big) :
    parseCIDR (String.ofList (addr ++ '/' :: len)) = .ok (a.as16, cidrMask (decimalFrom 0 len) a.bitLen) := by
  have htake : (addr ++ '/' :: len).takeWhile (· ≠ '/') = addr := by
    rw [List.takeWhile_append_of_pos (by simpa using hslash)]; simp
  have hdrop : (addr ++ '/' :: len).dropWhile (· ≠ '/') = '/' :: len := by
    rw [List.dropWhile_append_of_pos (by simpa using hslash)]; simp
  have hdtoi := dtoi_digits len 0 0 hdigits hbig
  have hlen : len.length ≠ 0 := by simpa using hne
  simp only [parseCIDR, String.toList_ofList, htake, hdrop, haddr, hdtoi, hzone]
  simp [hlen, Nat.not_lt.2 hle]

/-- **`net.ParseCIDR` of an IPv4 text** is the written address and the mask of the written length. -/
theorem parseCIDR_ipv4 (a : Ipv4Addr) (n : PrefixLen) :
    parseCIDR (String.ofList (a.text ++ '/' :: n.text)) = .ok (v4InV6Prefix ++ a.bytes, cidrMask n.val 32) :=
  parseCIDR_slash (parseAddr_text a) rfl (no_slash a) n.nonempty n.digits n.le (Nat.lt_of_le_of_lt n.le (by decide))

theorem to4_mapped {b0 b1 b2 b3 : U8} : IP.to4 (v4InV6Prefix ++ [b0, b1, b2, b3]) = some [b0, b1, b2, b3] := rfl

/-- Read as a big-endian word, the mask of length `n` is the word with its top `n` bits set. -/
theorem be32_cidrMask {n : Nat} (h : n ≤ 32) : be32 (cidrMask n 32) = prefixMask 32 n ∧ (cidrMask n 32).length = 4 := by
  have hall : ∀ n < 33, be32 (cidrMask n 32) = prefixMask 32 n ∧ (cidrMask n 32).length = 4 := by decide
  exact hall n (by omega)

end GoNet
