/-!
# Machine words, byte order and prefix masks

Fixed-width words are `BitVec`s, memory is a list of bytes. `le32` / `be32` read four bytes as a
little- / big-endian word, `bytes32` writes a word most significant byte first (network order), and
`swap32` is the byte swap that relates the two. `prefixMask w n` has its top `n` bits set; masking
with it compares the first `n` bits of two words (`and_prefixMask_eq_iff`).
-/
namespace Words

abbrev U8 := BitVec 8
abbrev U16 := BitVec 16
abbrev U32 := BitVec 32
abbrev U64 := BitVec 64

/-! ## Reading and writing bytes -/

/-- The first four bytes as a little-endian word. -/
def le32 : List U8 → U32
  | b0 :: b1 :: b2 :: b3 :: _ => b3 ++ b2 ++ b1 ++ b0
  | _ => 0

/-- The first four bytes as a big-endian word. -/
def be32 : List U8 → U32
  | b0 :: b1 :: b2 :: b3 :: _ => b0 ++ b1 ++ b2 ++ b3
  | _ => 0

/-- The first eight bytes as a little-endian word. -/
def le64 (b : List U8) : U64 := le32 (b.drop 4) ++ le32 b

/-- The first two bytes as a little-endian word. -/
def le16 : List U8 → U16
  | b0 :: b1 :: _ => b1 ++ b0
  | _ => 0

/-- The first two bytes as a big-endian word. -/
def be16 : List U8 → U16
  | b0 :: b1 :: _ => b0 ++ b1
  | _ => 0

/-- A word's bytes, most significant first. -/
def bytes32 (x : U32) : List U8 :=
  [x.extractLsb' 24 8, x.extractLsb' 16 8, x.extractLsb' 8 8, x.extractLsb' 0 8]

def bytes16 (x : U16) : List U8 := [x.extractLsb' 8 8, x.extractLsb' 0 8]

/-- A word's bytes, least significant first. -/
def store16 (x : U16) : List U8 := [x.extractLsb' 0 8, x.extractLsb' 8 8]

def store32 (x : U32) : List U8 :=
  [x.extractLsb' 0 8, x.extractLsb' 8 8, x.extractLsb' 16 8, x.extractLsb' 24 8]

def store64 (x : U64) : List U8 := store32 (x.extractLsb' 0 32) ++ store32 (x.extractLsb' 32 32)

def swap32 (x : U32) : U32 := le32 (bytes32 x)

def swap16 (x : U16) : U16 := le16 (bytes16 x)

/-! ## Bits of bytes -/

theorem byte_cases {i : Nat} (hi : i < 32) : ∃ j < 8, i = j ∨ i = 8 + j ∨ i = 16 + j ∨ i = 24 + j := by
  refine ⟨i % 8, Nat.mod_lt i (by omega), ?_⟩
  omega

/-- Words with the same four bytes are equal. -/
theorem ext_bytes {x y : U32} (h : ∀ j < 8, x.getLsbD j = y.getLsbD j ∧ x.getLsbD (8 + j) = y.getLsbD (8 + j) ∧
    x.getLsbD (16 + j) = y.getLsbD (16 + j) ∧ x.getLsbD (24 + j) = y.getLsbD (24 + j)) : x = y := by
  apply BitVec.eq_of_getLsbD_eq
  intro i hi
  obtain ⟨j, hj, rfl | rfl | rfl | rfl⟩ := byte_cases hi
  · exact (h i hj).1
  · exact (h j hj).2.1
  · exact (h j hj).2.2.1
  · exact (h j hj).2.2.2

theorem ext_bytes16 {x y : U16} (h : ∀ j < 8, x.getLsbD j = y.getLsbD j ∧ x.getLsbD (8 + j) = y.getLsbD (8 + j)) :
    x = y := by
  apply BitVec.eq_of_getLsbD_eq
  intro i hi
  rcases Nat.lt_or_ge i 8 with hlt | hge
  · exact (h i hlt).1
  · have hsplit : 8 + (i - 8) = i := by omega
    rw [← hsplit]
    exact (h (i - 8) (by omega)).2

theorem getLsbD_append2 (b1 b0 : U8) {j : Nat} (hj : j < 8) :
    (b1 ++ b0 : U16).getLsbD j = b0.getLsbD j ∧ (b1 ++ b0 : U16).getLsbD (8 + j) = b1.getLsbD j := by
  simp only [BitVec.getLsbD_append]
  refine ⟨?_, ?_⟩ <;> grind

theorem getLsbD_append4 (b3 b2 b1 b0 : U8) {j : Nat} (hj : j < 8) :
    (b3 ++ b2 ++ b1 ++ b0).getLsbD j = b0.getLsbD j ∧ (b3 ++ b2 ++ b1 ++ b0).getLsbD (8 + j) = b1.getLsbD j ∧
    (b3 ++ b2 ++ b1 ++ b0).getLsbD (16 + j) = b2.getLsbD j ∧
    (b3 ++ b2 ++ b1 ++ b0).getLsbD (24 + j) = b3.getLsbD j := by
  simp only [BitVec.getLsbD_append]
  refine ⟨?_, ?_, ?_, ?_⟩ <;> grind

theorem getLsbD_byte {w : Nat} (x : BitVec w) (k : Nat) {j : Nat} (hj : j < 8) :
    (x.extractLsb' k 8).getLsbD j = x.getLsbD (k + j) := by
  rw [BitVec.getLsbD_extractLsb', decide_eq_true hj, Bool.true_and]

/-- A word of two bytes determines them. -/
theorem append_inj {x y x' y' : U8} : (x ++ y : U16) = x' ++ y' ↔ x = x' ∧ y = y' := by
  constructor
  · intro h
    have hx := congrArg (BitVec.extractLsb' 8 8) h
    have hy := congrArg (BitVec.extractLsb' 0 8) h
    rw [BitVec.extractLsb'_append_eq_left, BitVec.extractLsb'_append_eq_left] at hx
    rw [BitVec.extractLsb'_append_eq_right, BitVec.extractLsb'_append_eq_right] at hy
    exact ⟨hx, hy⟩
  · rintro ⟨rfl, rfl⟩; rfl

/-- The swap exchanges the outer and the inner bytes. -/
theorem getLsbD_swap32 (x : U32) {j : Nat} (hj : j < 8) :
    (swap32 x).getLsbD j = x.getLsbD (24 + j) ∧ (swap32 x).getLsbD (8 + j) = x.getLsbD (16 + j) ∧
    (swap32 x).getLsbD (16 + j) = x.getLsbD (8 + j) ∧ (swap32 x).getLsbD (24 + j) = x.getLsbD j := by
  have h := getLsbD_append4 (x.extractLsb' 0 8) (x.extractLsb' 8 8) (x.extractLsb' 16 8) (x.extractLsb' 24 8) hj
  simp only [getLsbD_byte _ _ hj, Nat.zero_add] at h
  exact h

theorem getLsbD_swap16 (x : U16) {j : Nat} (hj : j < 8) :
    (swap16 x).getLsbD j = x.getLsbD (8 + j) ∧ (swap16 x).getLsbD (8 + j) = x.getLsbD j := by
  have h := getLsbD_append2 (x.extractLsb' 0 8) (x.extractLsb' 8 8) hj
  simp only [getLsbD_byte _ _ hj, Nat.zero_add] at h
  exact h

@[simp] theorem swap32_swap32 (x : U32) : swap32 (swap32 x) = x := by
  refine ext_bytes fun j hj => ?_
  obtain ⟨h0, h1, h2, h3⟩ := getLsbD_swap32 (swap32 x) hj
  obtain ⟨g0, g1, g2, g3⟩ := getLsbD_swap32 x hj
  exact ⟨h0.trans g3, h1.trans g2, h2.trans g1, h3.trans g0⟩

@[simp] theorem swap16_swap16 (x : U16) : swap16 (swap16 x) = x := by
  refine ext_bytes16 fun j hj => ?_
  obtain ⟨h0, h1⟩ := getLsbD_swap16 (swap16 x) hj
  obtain ⟨g0, g1⟩ := getLsbD_swap16 x hj
  exact ⟨h0.trans g1, h1.trans g0⟩

@[simp] theorem swap32_inj {x y : U32} : swap32 x = swap32 y ↔ x = y :=
  ⟨fun h => by rw [← swap32_swap32 x, h, swap32_swap32], fun h => by rw [h]⟩

@[simp] theorem swap16_inj {x y : U16} : swap16 x = swap16 y ↔ x = y :=
  ⟨fun h => by rw [← swap16_swap16 x, h, swap16_swap16], fun h => by rw [h]⟩

@[simp] theorem swap16_eq_zero {x : U16} : swap16 x = 0#16 ↔ x = 0#16 :=
  (swap16_inj : swap16 x = swap16 0#16 ↔ x = 0#16)

theorem swap32_and (x y : U32) : swap32 (x &&& y) = swap32 x &&& swap32 y := by
  refine ext_bytes fun j hj => ?_
  simp only [BitVec.getLsbD_and, getLsbD_swap32 _ hj, and_self]

@[simp] theorem length_bytes32 (x : U32) : (bytes32 x).length = 4 := rfl

@[simp] theorem length_bytes16 (x : U16) : (bytes16 x).length = 2 := rfl

theorem bytes32_be32 (b0 b1 b2 b3 : U8) : bytes32 (be32 [b0, b1, b2, b3]) = [b0, b1, b2, b3] := by
  have hbyte : ∀ (k : Nat) (b : U8), (∀ j < 8, (b0 ++ b1 ++ b2 ++ b3).getLsbD (k + j) = b.getLsbD j) →
      (b0 ++ b1 ++ b2 ++ b3).extractLsb' k 8 = b := by
    intro k b h
    apply BitVec.eq_of_getLsbD_eq
    intro j hj
    rw [getLsbD_byte _ _ hj, h j hj]
  have h := fun j hj => @getLsbD_append4 b0 b1 b2 b3 j hj
  simp only [bytes32, be32]
  rw [hbyte 24 b0 fun j hj => (h j hj).2.2.2, hbyte 16 b1 fun j hj => (h j hj).2.2.1,
    hbyte 8 b2 fun j hj => (h j hj).2.1, hbyte 0 b3 fun j hj => by rw [Nat.zero_add]; exact (h j hj).1]

/-- Four bytes in network order read little-endian are the swap of the big-endian word. -/
theorem le32_eq_swap32_be32 (b0 b1 b2 b3 : U8) :
    le32 [b0, b1, b2, b3] = swap32 (be32 [b0, b1, b2, b3]) := by
  rw [swap32, bytes32_be32]

theorem be16_bytes16 (x : U16) (l : List U8) : be16 (bytes16 x ++ l) = x := by
  refine ext_bytes16 fun j hj => ?_
  have h := getLsbD_append2 (x.extractLsb' 8 8) (x.extractLsb' 0 8) hj
  simp only [getLsbD_byte _ _ hj, Nat.zero_add] at h
  exact h

theorem le16_eq_swap16_be16 (b0 b1 : U8) (l : List U8) : le16 [b0, b1] = swap16 (be16 (b0 :: b1 :: l)) := by
  refine ext_bytes16 fun j hj => ?_
  obtain ⟨h0, h1⟩ := getLsbD_append2 b1 b0 hj
  obtain ⟨g0, g1⟩ := getLsbD_append2 b0 b1 hj
  obtain ⟨s0, s1⟩ := getLsbD_swap16 (be16 (b0 :: b1 :: l)) hj
  exact ⟨h0.trans (s0.trans g1).symm, h1.trans (s1.trans g0).symm⟩

theorem le16_store16 (x : U16) (l : List U8) : le16 (store16 x ++ l) = x := by
  refine ext_bytes16 fun j hj => ?_
  have h := getLsbD_append2 (x.extractLsb' 8 8) (x.extractLsb' 0 8) hj
  simp only [getLsbD_byte _ _ hj, Nat.zero_add] at h
  exact h

theorem le32_store32 (x : U32) (l : List U8) : le32 (store32 x ++ l) = x := by
  refine ext_bytes fun j hj => ?_
  have h := getLsbD_append4 (x.extractLsb' 24 8) (x.extractLsb' 16 8) (x.extractLsb' 8 8) (x.extractLsb' 0 8) hj
  simp only [getLsbD_byte _ _ hj, Nat.zero_add] at h
  exact h

theorem le64_store64 (x : U64) (l : List U8) : le64 (store64 x ++ l) = x := by
  have hlow := le32_store32 (x.extractLsb' 0 32) (store32 (x.extractLsb' 32 32) ++ l)
  have hhigh := le32_store32 (x.extractLsb' 32 32) l
  rw [← List.append_assoc] at hlow
  have hdrop : (store64 x ++ l).drop 4 = store32 (x.extractLsb' 32 32) ++ l := rfl
  have hwhole : x.extractLsb' 32 32 ++ x.extractLsb' 0 32 = x.extractLsb' 0 (32 + 32) :=
    BitVec.extractLsb'_append_extractLsb'_eq_extractLsb' (Nat.zero_add 32).symm
  rw [le64, hdrop, hhigh]
  refine (congrArg (x.extractLsb' 32 32 ++ ·) hlow).trans ?_
  rw [hwhole]
  exact BitVec.extractLsb'_eq_self

/-- A word in network order, stored by a little-endian host, has its bytes most significant first. -/
theorem store32_swap32 (x : U32) : store32 (swap32 x) = bytes32 x := by
  have hbyte : ∀ (k k' : Nat), (∀ j < 8, (swap32 x).getLsbD (k + j) = x.getLsbD (k' + j)) →
      (swap32 x).extractLsb' k 8 = x.extractLsb' k' 8 := by
    intro k k' h
    apply BitVec.eq_of_getLsbD_eq
    intro j hj
    rw [getLsbD_byte _ _ hj, getLsbD_byte _ _ hj, h j hj]
  have h := fun j hj => @getLsbD_swap32 x j hj
  rw [store32, bytes32, hbyte 0 24 fun j hj => by rw [Nat.zero_add]; exact (h j hj).1, hbyte 8 16 fun j hj => (h j hj).2.1,
    hbyte 16 8 fun j hj => (h j hj).2.2.1, hbyte 24 0 fun j hj => by rw [Nat.zero_add]; exact (h j hj).2.2.2]

/-- Four bytes are two words of two bytes. -/
theorem take_four_eq_iff {b b' : List U8} (hb : 4 ≤ b.length) (hb' : 4 ≤ b'.length) :
    b.take 4 = b'.take 4 ↔ be16 b = be16 b' ∧ be16 (b.drop 2) = be16 (b'.drop 2) := by
  have hcons : ∀ {l : List U8}, 4 ≤ l.length → ∃ x0 x1 x2 x3 t, l = x0 :: x1 :: x2 :: x3 :: t := by
    intro l hl
    rcases l with _ | ⟨x0, _ | ⟨x1, _ | ⟨x2, _ | ⟨x3, t⟩⟩⟩⟩
    · cases hl
    · simp at hl
    · simp at hl
    · simp at hl
    · exact ⟨x0, x1, x2, x3, t, rfl⟩
  obtain ⟨x0, x1, x2, x3, b, rfl⟩ := hcons hb
  obtain ⟨y0, y1, y2, y3, b', rfl⟩ := hcons hb'
  simp [be16, append_inj, and_assoc]

/-! ## Prefix masks -/

/-- The word whose top `n` bits are set. -/
def prefixMask (w n : Nat) : BitVec w := BitVec.allOnes w <<< (w - n)

theorem getLsbD_prefixMask {w n i : Nat} (hi : i < w) : (prefixMask w n).getLsbD i = decide (w - n ≤ i) := by
  rw [prefixMask, BitVec.getLsbD_shiftLeft]
  by_cases h : w - n ≤ i
  · have hlt : i - (w - n) < w := by omega
    simp [hi, h, Nat.not_lt.2 h, hlt]
  · simp [h, Nat.not_le.1 h]

/-- Masking with the top `n` bits compares exactly those bits. -/
theorem and_prefixMask_eq_iff {w n : Nat} (x y : BitVec w) :
    x &&& prefixMask w n = y &&& prefixMask w n ↔ x >>> (w - n) = y >>> (w - n) := by
  constructor
  · intro h
    apply BitVec.eq_of_getLsbD_eq
    intro i hi
    rw [BitVec.getLsbD_ushiftRight, BitVec.getLsbD_ushiftRight]
    by_cases hw : w - n + i < w
    · have hb := congrArg (fun z => z.getLsbD (w - n + i)) h
      simpa [BitVec.getLsbD_and, getLsbD_prefixMask hw] using hb
    · rw [BitVec.getLsbD_of_ge _ _ (by omega), BitVec.getLsbD_of_ge _ _ (by omega)]
  · intro h
    apply BitVec.eq_of_getLsbD_eq
    intro i hi
    rw [BitVec.getLsbD_and, BitVec.getLsbD_and, getLsbD_prefixMask hi]
    by_cases hn : w - n ≤ i
    · have hb := congrArg (fun z => z.getLsbD (i - (w - n))) h
      simp only [BitVec.getLsbD_ushiftRight, Nat.add_sub_cancel' hn] at hb
      rw [hb]
    · simp [hn]

/-- Flipping the bits `d` of `x` is invisible under a mask exactly when the mask has none of them. -/
theorem xor_and_eq_iff {w : Nat} (x d m : BitVec w) : (x ^^^ d) &&& m = x &&& m ↔ d &&& m = 0#w := by
  have hdist : (x ^^^ d) &&& m = (x &&& m) ^^^ (d &&& m) := by
    apply BitVec.eq_of_getLsbD_eq
    intro i _
    simp only [BitVec.getLsbD_and, BitVec.getLsbD_xor]
    cases m.getLsbD i <;> simp
  calc (x ^^^ d) &&& m = x &&& m ↔ (x &&& m) ^^^ (d &&& m) = (x &&& m) ^^^ 0#w := by rw [hdist, BitVec.xor_zero]
    _ ↔ d &&& m = 0#w := BitVec.xor_right_inj _

/-- The byte swap of a mask of 1 to 31 bits is no longer that mask: some bit it ignores is in the swap. -/
theorem exists_bit_in_swapped_mask {n : Nat} (h0 : n ≠ 0) (h32 : n < 32) :
    ∃ d : U32, d &&& prefixMask 32 n = 0#32 ∧ d &&& swap32 (prefixMask 32 n) ≠ 0#32 := by
  -- the lowest bit is ignored; it is in the swap as soon as the mask covers the whole first byte
  have hlow : ∀ n < 32, 8 ≤ n → 1#32 &&& prefixMask 32 n = 0#32 ∧ 1#32 &&& swap32 (prefixMask 32 n) ≠ 0#32 := by
    decide
  have hhigh : ∀ n < 8, n ≠ 0 →
      0x80#32 &&& prefixMask 32 n = 0#32 ∧ 0x80#32 &&& swap32 (prefixMask 32 n) ≠ 0#32 := by decide
  rcases Nat.lt_or_ge n 8 with h | h
  · exact ⟨_, hhigh n h h0⟩
  · exact ⟨_, hlow n h32 h⟩

theorem swap32_prefixMask {n : Nat} (h : n = 0 ∨ n = 32) : swap32 (prefixMask 32 n) = prefixMask 32 n := by
  rcases h with rfl | rfl <;> decide

end Words
