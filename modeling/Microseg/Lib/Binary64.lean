import Mathlib.Algebra.Order.Field.Power
import Mathlib.Data.Int.Log
import Mathlib.Data.Rat.Floor
import Mathlib.Tactic.Linarith
import Mathlib.Tactic.Positivity
import Mathlib.Tactic.Ring
/-!
# binary64 arithmetic of rationals

A number of 53 significant bits (`Binary64`) is an integer of that size times a power of two. An operation of the
arithmetic takes the exact result to the nearest such number, of two equally near ones to that with the even
significand (`rounded`). The power of two is unbounded here: what stays between the smallest and the largest normal
number is the same with the bounded one.

Rounding is monotone (`rounded_le`) and leaves representable numbers alone (`rounded_of_representable`). How far some
operations go astray is counted in roundings: `Within k x y` bounds the quotient of two numbers either way by the `k`th
power of what one rounding does at most, and it composes along products and quotients.
-/

/-- `m * 2 ^ e` with at most 53 bits in `m`. -/
def Representable (q : ℚ) : Prop := ∃ m e : ℤ, |m| ≤ 2 ^ 53 ∧ q = m * 2 ^ e

/-- The finite numbers of the format, without a bound on the exponent. -/
structure Binary64 where
  val : ℚ
  representable : Representable val
deriving DecidableEq

namespace Binary64

/-! ## Rounding -/

/-- The nearest integer, the even one of two. -/
def roundEven (q : ℚ) : ℤ :=
  if q - ⌊q⌋ < 1 / 2 then ⌊q⌋
  else if 1 / 2 < q - ⌊q⌋ then ⌊q⌋ + 1
  else ⌊q⌋ + ⌊q⌋ % 2

/-- The unit in the last place of the 53 bits at a number. -/
def ulp (q : ℚ) : ℚ := 2 ^ (Int.log 2 |q| - 52)

/-- The number rounded to 53 bits. -/
def rounded (q : ℚ) : ℚ := roundEven (q / ulp q) * ulp q

theorem roundEven_intCast (n : ℤ) : roundEven n = n := by
  rw [roundEven, Int.floor_intCast, sub_self, if_pos (by norm_num)]

/-- The two integers around a number, and which of them is nearer. -/
theorem roundEven_cases (q : ℚ) :
    (roundEven q = ⌊q⌋ ∧ q - ⌊q⌋ ≤ 1 / 2) ∨ (roundEven q = ⌊q⌋ + 1 ∧ 1 / 2 ≤ q - ⌊q⌋) := by
  unfold roundEven
  split_ifs with hlow hhigh
  · exact Or.inl ⟨rfl, hlow.le⟩
  · exact Or.inr ⟨rfl, hhigh.le⟩
  · rcases Int.emod_two_eq ⌊q⌋ with hparity | hparity
    · exact Or.inl ⟨by rw [hparity, add_zero], not_lt.1 hhigh⟩
    · exact Or.inr ⟨by rw [hparity], not_lt.1 hlow⟩

theorem abs_roundEven_sub_le (q : ℚ) : |(roundEven q : ℚ) - q| ≤ 1 / 2 := by
  have hlower := Int.floor_le q
  have hupper := Int.lt_floor_add_one q
  rw [abs_le]
  rcases roundEven_cases q with ⟨heq, hfrac⟩ | ⟨heq, hfrac⟩ <;> rw [heq]
  · constructor <;> linarith
  · push_cast
    constructor <;> linarith

theorem roundEven_mono {p q : ℚ} (hpq : p ≤ q) : roundEven p ≤ roundEven q := by
  rcases (Int.floor_le_floor hpq).lt_or_eq with hlt | heq
  · -- an integer lies between the two
    have hp : roundEven p ≤ ⌊p⌋ + 1 := by
      rcases roundEven_cases p with ⟨h, _⟩ | ⟨h, _⟩ <;> omega
    have hq : ⌊q⌋ ≤ roundEven q := by
      rcases roundEven_cases q with ⟨h, _⟩ | ⟨h, _⟩ <;> omega
    omega
  · have hfrac : p - ⌊p⌋ ≤ q - ⌊q⌋ := by
      rw [heq]
      exact sub_le_sub_right hpq _
    have hparity := Int.emod_two_eq ⌊p⌋
    unfold roundEven
    rw [← heq] at hfrac ⊢
    by_cases hlow : q - ⌊p⌋ < 1 / 2
    · rw [if_pos hlow, if_pos (hfrac.trans_lt hlow)]
    by_cases hhigh : 1 / 2 < p - ⌊p⌋
    · rw [if_neg hlow, if_pos (hhigh.trans_le hfrac), if_neg hhigh.not_gt, if_pos hhigh]
    · rw [if_neg hlow, if_neg hhigh]
      split_ifs <;> omega

theorem le_roundEven {n : ℤ} {q : ℚ} (h : n ≤ q) : n ≤ roundEven q := by
  have hmono := roundEven_mono h
  rwa [roundEven_intCast] at hmono

theorem roundEven_le {n : ℤ} {q : ℚ} (h : q ≤ n) : roundEven q ≤ n := by
  have hmono := roundEven_mono h
  rwa [roundEven_intCast] at hmono

theorem ulp_pos (q : ℚ) : 0 < ulp q := zpow_pos two_pos _

theorem pow_mul_ulp (k : ℕ) (q : ℚ) : 2 ^ k * ulp q = 2 ^ (Int.log 2 |q| + k - 52) := by
  rw [ulp, ← zpow_natCast, ← zpow_add₀ two_ne_zero, add_comm, add_sub_right_comm]

theorem abs_lt_ulp (q : ℚ) : |q| < 2 ^ 53 * ulp q := by
  have hupper := Int.lt_zpow_succ_log_self (b := 2) one_lt_two |q|
  rw [Nat.cast_ofNat] at hupper
  rwa [pow_mul_ulp, Nat.cast_ofNat, add_sub_assoc]

theorem ulp_le_abs {q : ℚ} (hq : q ≠ 0) : 2 ^ 52 * ulp q ≤ |q| := by
  have hlower := Int.zpow_log_le_self (b := 2) one_lt_two (abs_pos.2 hq)
  rw [Nat.cast_ofNat] at hlower
  rwa [pow_mul_ulp, Nat.cast_ofNat, add_sub_cancel_right]

/-- The grid gets coarser upwards. -/
theorem ulp_le {p q : ℚ} (hp : p ≠ 0) (hpq : |p| ≤ |q|) : ulp p ≤ ulp q := by
  have hlog := Int.log_mono_right (b := 2) (abs_pos.2 hp) hpq
  exact zpow_le_zpow_right₀ one_le_two (by omega)

/-- A coarser grid is at least twice as coarse. -/
theorem two_mul_ulp_le {p q : ℚ} (h : ulp p < ulp q) : 2 * ulp p ≤ ulp q := by
  have hexp := (zpow_lt_zpow_iff_right₀ (one_lt_two (α := ℚ))).1 h
  rw [ulp, ulp, ← zpow_one_add₀ two_ne_zero]
  exact zpow_le_zpow_right₀ one_le_two (by omega)

theorem rounded_zero : rounded 0 = 0 := by
  have hzero : roundEven 0 = 0 := roundEven_intCast 0
  rw [rounded, zero_div, hzero, Int.cast_zero, zero_mul]

theorem rounded_nonneg {q : ℚ} (hq : 0 ≤ q) : 0 ≤ rounded q := by
  have hdiv : ((0 : ℤ) : ℚ) ≤ q / ulp q := by
    rw [Int.cast_zero]
    exact div_nonneg hq (ulp_pos q).le
  exact mul_nonneg (by exact_mod_cast le_roundEven hdiv) (ulp_pos q).le

/-- A positive number is not rounded below the power of two under it. -/
theorem ulp_le_rounded {q : ℚ} (hq : 0 < q) : 2 ^ 52 * ulp q ≤ rounded q := by
  have hlower := ulp_le_abs hq.ne'
  rw [abs_of_pos hq, ← le_div_iff₀ (ulp_pos q)] at hlower
  have hround : 2 ^ 52 ≤ roundEven (q / ulp q) := le_roundEven (by exact_mod_cast hlower)
  exact mul_le_mul_of_nonneg_right (by exact_mod_cast hround) (ulp_pos q).le

theorem abs_roundEven_div_ulp_le (q : ℚ) : |roundEven (q / ulp q)| ≤ 2 ^ 53 := by
  have hupper : |q / ulp q| ≤ 2 ^ 53 := by
    rw [abs_div, abs_of_pos (ulp_pos q), div_le_iff₀ (ulp_pos q)]
    exact (abs_lt_ulp q).le
  rw [abs_le] at hupper
  exact abs_le.2 ⟨le_roundEven (by exact_mod_cast hupper.1), roundEven_le (by exact_mod_cast hupper.2)⟩

/-- A number is not rounded above the power of two over it. -/
theorem rounded_le_ulp (q : ℚ) : rounded q ≤ 2 ^ 53 * ulp q := by
  have hround := (abs_le.1 (abs_roundEven_div_ulp_le q)).2
  exact mul_le_mul_of_nonneg_right (by exact_mod_cast hround) (ulp_pos q).le

/-- **Monotone**: of numbers that are not negative the larger one is not rounded below the smaller one. -/
theorem rounded_le {p q : ℚ} (hp : 0 ≤ p) (hpq : p ≤ q) : rounded p ≤ rounded q := by
  rcases hp.eq_or_lt with rfl | hpos
  · rw [rounded_zero]
    exact rounded_nonneg hpq
  have hq := hpos.trans_le hpq
  rcases (ulp_le hpos.ne' (abs_le_abs_of_nonneg hp hpq)).eq_or_lt with heq | hlt
  · -- the same grid for both
    rw [rounded, rounded, heq]
    have hdiv : p / ulp q ≤ q / ulp q := div_le_div_of_nonneg_right hpq (ulp_pos q).le
    exact mul_le_mul_of_nonneg_right (by exact_mod_cast roundEven_mono hdiv) (ulp_pos q).le
  · -- a power of two between the two
    calc rounded p ≤ 2 ^ 53 * ulp p := rounded_le_ulp p
      _ = 2 ^ 52 * (2 * ulp p) := by ring
      _ ≤ 2 ^ 52 * ulp q := mul_le_mul_of_nonneg_left (two_mul_ulp_le hlt) (by positivity)
      _ ≤ rounded q := ulp_le_rounded hq

/-- **The error** of a rounding, half a unit in the last place, relative to the number. -/
theorem abs_rounded_sub_le {q : ℚ} (hq : q ≠ 0) : |rounded q - q| ≤ |q| / 2 ^ 53 := by
  have hu := ulp_pos q
  have hsplit : rounded q - q = (roundEven (q / ulp q) - q / ulp q) * ulp q := by
    rw [rounded, sub_mul, div_mul_cancel₀ _ hu.ne']
  have herror := mul_le_mul_of_nonneg_right (abs_roundEven_sub_le (q / ulp q)) hu.le
  have hlower := ulp_le_abs hq
  rw [hsplit, abs_mul, abs_of_pos hu, le_div_iff₀ (by positivity)]
  linarith

theorem rounded_of_mul_ulp {q : ℚ} {n : ℤ} (h : q = n * ulp q) : rounded q = q := by
  have hdiv : q / ulp q = n := by rw [div_eq_iff (ulp_pos q).ne', ← h]
  rw [rounded, hdiv, roundEven_intCast, ← h]

/-- **Exact**: a number of 53 bits stays as it is. -/
theorem rounded_of_representable {q : ℚ} (h : Representable q) : rounded q = q := by
  obtain ⟨m, e, hm, heq⟩ := h
  by_cases hq : q = 0
  · rw [hq, rounded_zero]
  have htwo : (0 : ℚ) < 2 ^ e := zpow_pos two_pos _
  have habs : |q| = |m| * 2 ^ e := by rw [heq, abs_mul, abs_of_pos htwo, Int.cast_abs]
  have hlower := ulp_le_abs hq
  by_cases he : Int.log 2 |q| - 52 ≤ e
  · -- the unit in the last place divides the power of two
    obtain ⟨k, hk⟩ := Int.le.dest he
    refine rounded_of_mul_ulp (n := m * 2 ^ k) ?_
    rw [ulp, Int.cast_mul, Int.cast_pow, Int.cast_ofNat, mul_assoc, ← zpow_natCast, ← zpow_add₀ two_ne_zero,
      add_comm (k : ℤ), hk, heq]
  · -- only the power of two 2^53 * 2^e has its last place above e
    have hexp : (2 : ℚ) ^ 53 * 2 ^ e ≤ 2 ^ 52 * ulp q := by
      rw [pow_mul_ulp, ← zpow_natCast, ← zpow_add₀ two_ne_zero]
      exact zpow_le_zpow_right₀ one_le_two (by push_cast; omega)
    have hm' : (|m| : ℚ) ≤ 2 ^ 53 := by exact_mod_cast hm
    have hle : |q| ≤ 2 ^ 53 * 2 ^ e := by
      rw [habs, Int.cast_abs]
      exact mul_le_mul_of_nonneg_right hm' htwo.le
    have hpow : |q| = 2 ^ 52 * ulp q := le_antisymm (hle.trans hexp) hlower
    rcases abs_choice q with hsign | hsign
    · exact rounded_of_mul_ulp (n := 2 ^ 52) (by rw [Int.cast_pow, Int.cast_ofNat, ← hpow, hsign])
    · exact rounded_of_mul_ulp (n := -2 ^ 52) (by
        rw [Int.cast_neg, Int.cast_pow, Int.cast_ofNat, neg_mul, ← hpow, hsign, neg_neg])

theorem rounded_le_of_representable {p q : ℚ} (hp : 0 ≤ p) (hpq : p ≤ q) (hq : Representable q) : rounded p ≤ q :=
  (rounded_le hp hpq).trans (rounded_of_representable hq).le

theorem le_rounded_of_representable {p q : ℚ} (hp : 0 ≤ p) (hpq : p ≤ q) (h : Representable p) : p ≤ rounded q :=
  (rounded_of_representable h).ge.trans (rounded_le hp hpq)

/-! ## The numbers -/

theorem representable_rounded (q : ℚ) : Representable (rounded q) :=
  ⟨roundEven (q / ulp q), Int.log 2 |q| - 52, abs_roundEven_div_ulp_le q, rfl⟩

/-- The number for an exact result. -/
def ofRat (q : ℚ) : Binary64 := ⟨rounded q, representable_rounded q⟩

/-- The number for an integer. -/
def ofNat (n : ℕ) : Binary64 := ofRat n

instance : Mul Binary64 := ⟨fun x y => ofRat (x.val * y.val)⟩

instance : Div Binary64 := ⟨fun x y => ofRat (x.val / y.val)⟩

theorem mul_val (x y : Binary64) : (x * y).val = rounded (x.val * y.val) := rfl

theorem div_val (x y : Binary64) : (x / y).val = rounded (x.val / y.val) := rfl

theorem ofNat_val (n : ℕ) : (ofNat n).val = rounded n := rfl

/-! ## Counting roundings -/

/-- The most that one rounding changes a number by, as a factor. -/
def slack : ℚ := 2 ^ 53 / (2 ^ 53 - 1)

theorem one_le_slack_pow (k : ℕ) : 1 ≤ slack ^ k := one_le_pow₀ (by rw [slack]; norm_num)

/-- Two numbers are at most `k` roundings apart. -/
structure Within (k : ℕ) (x y : ℚ) : Prop where
  upper : x ≤ y * slack ^ k
  lower : y ≤ x * slack ^ k

theorem within_rounded {q : ℚ} (hq : 0 ≤ q) : Within 1 (rounded q) q := by
  rcases hq.eq_or_lt with rfl | hpos
  · rw [rounded_zero]
    constructor <;> simp
  have herror := abs_rounded_sub_le hpos.ne'
  rw [abs_of_pos hpos, abs_le] at herror
  constructor <;> rw [pow_one, slack] <;> linarith

namespace Within

variable {j k : ℕ} {x y z x' y' : ℚ}

theorem refl (x : ℚ) : Within 0 x x := by constructor <;> simp

theorem trans (h : Within j x y) (h' : Within k y z) : Within (j + k) x z := by
  have hj : (0 : ℚ) ≤ slack ^ j := zero_le_one.trans (one_le_slack_pow j)
  have hk : (0 : ℚ) ≤ slack ^ k := zero_le_one.trans (one_le_slack_pow k)
  constructor
  · calc x ≤ y * slack ^ j := h.upper
      _ ≤ z * slack ^ k * slack ^ j := mul_le_mul_of_nonneg_right h'.upper hj
      _ = z * slack ^ (j + k) := by ring
  · calc z ≤ y * slack ^ k := h'.lower
      _ ≤ x * slack ^ j * slack ^ k := mul_le_mul_of_nonneg_right h.lower hk
      _ = x * slack ^ (j + k) := by ring

theorem mul (h : Within j x y) (h' : Within k x' y') (hx : 0 ≤ x) (hy : 0 ≤ y) (hx' : 0 ≤ x') (hy' : 0 ≤ y') :
    Within (j + k) (x * x') (y * y') := by
  constructor
  · calc x * x' ≤ (y * slack ^ j) * (y' * slack ^ k) := mul_le_mul h.upper h'.upper hx' (hx.trans h.upper)
      _ = y * y' * slack ^ (j + k) := by ring
  · calc y * y' ≤ (x * slack ^ j) * (x' * slack ^ k) := mul_le_mul h.lower h'.lower hy' (hy.trans h.lower)
      _ = x * x' * slack ^ (j + k) := by ring

/-- A quotient is as far off as its parts together: the denominators trade places. -/
theorem inv (h : Within k x y) (hx : 0 < x) (hy : 0 < y) : Within k x⁻¹ y⁻¹ := by
  constructor
  · rw [inv_mul_eq_div, le_div_iff₀ hy, inv_mul_le_iff₀ hx]
    exact h.lower
  · rw [inv_mul_eq_div, le_div_iff₀ hx, inv_mul_le_iff₀ hy]
    exact h.upper

theorem div (h : Within j x y) (h' : Within k x' y') (hx : 0 ≤ x) (hy : 0 ≤ y) (hx' : 0 < x') (hy' : 0 < y') :
    Within (j + k) (x / x') (y / y') := by
  rw [div_eq_mul_inv, div_eq_mul_inv]
  exact h.mul (h'.inv hx' hy') hx hy (inv_nonneg.2 hx'.le) (inv_nonneg.2 hy'.le)

/-- **The relative error** of `k` roundings. -/
theorem abs_sub_le (h : Within k x y) (hy : 0 ≤ y) : |x - y| ≤ y * (slack ^ k - 1) := by
  have hone := one_le_slack_pow k
  have hupper := h.upper
  -- 2 - c ≤ 1 / c for a factor c
  have hlower : y * (2 - slack ^ k) ≤ x := by
    have hpos := zero_lt_one.trans_le hone
    have hfactor : (2 - slack ^ k) * slack ^ k ≤ 1 := by nlinarith [sq_nonneg (slack ^ k - 1)]
    refine le_of_mul_le_mul_right ?_ hpos
    calc y * (2 - slack ^ k) * slack ^ k = y * ((2 - slack ^ k) * slack ^ k) := by ring
      _ ≤ y := mul_le_of_le_one_right hy hfactor
      _ ≤ x * slack ^ k := h.lower
  rw [abs_le]
  constructor <;> linarith

end Within

end Binary64
