import Microseg.Lib.Binary64
import Microseg.Statistics
/-!
# The statistics handlers (`src/agent/pkg/api/handlers/statistics.go`)

The handlers turn one snapshot of the counters into counts and percentages, which they compute in `float64`. A
percentage of a part of at most the whole is at most 100, because each rounding is monotone; but two percentages
that make a whole may make slightly more than 100, because each of them is rounded by itself (`percentages_le`).

| here | there |
| --- | --- |
| `getPacketStats`, `getSessionStats`, `getPolicyStats` | the methods of `StatisticsHandler` (`:41`, `:64`, `:77`) |
| `percentage` | the expression of `:48`, `:49` and `:84` |
-/
namespace Microseg
open Words

/-! ## Percentages -/

/-- `float64(part) / float64(total) * 100`. -/
def percentage (part total : U64) : Binary64 := .ofNat part.toNat / .ofNat total.toNat * .ofNat 100

theorem representable_hundred : Representable 100 := ⟨100, 0, by decide, by norm_num⟩

theorem hundred_val : (Binary64.ofNat 100).val = 100 := Binary64.rounded_of_representable representable_hundred

theorem representable_zpow (e : ℤ) : Representable (2 ^ e) := ⟨1, e, by decide, by rw [Int.cast_one, one_mul]⟩

theorem percentage_val (part total : U64) :
    (percentage part total).val = Binary64.rounded ((Binary64.ofNat part.toNat / .ofNat total.toNat).val * 100) := by
  rw [percentage, Binary64.mul_val, hundred_val]

theorem count_nonneg (n : U64) : 0 ≤ (Binary64.ofNat n.toNat).val := Binary64.rounded_nonneg (Nat.cast_nonneg _)

theorem quotient_nonneg (part total : U64) : 0 ≤ (Binary64.ofNat part.toNat / .ofNat total.toNat).val :=
  Binary64.rounded_nonneg (div_nonneg (count_nonneg part) (count_nonneg total))

/-- A count that is not zero stays between 1 and 2^64. -/
theorem count_bounds {n : U64} (hn : 0 < n) :
    1 ≤ (Binary64.ofNat n.toNat).val ∧ (Binary64.ofNat n.toNat).val ≤ 2 ^ 64 := by
  have hpos : (1 : ℚ) ≤ n.toNat := by exact_mod_cast Nat.succ_le_of_lt (show 0 < n.toNat from hn)
  have hlt : (n.toNat : ℚ) ≤ 2 ^ 64 := by exact_mod_cast n.isLt.le
  exact ⟨Binary64.le_rounded_of_representable zero_le_one hpos (representable_zpow 0),
    Binary64.rounded_le_of_representable (by positivity) hlt (representable_zpow 64)⟩

theorem quotient_bounds {part total : U64} (hpart : 0 < part) (htotal : 0 < total) :
    2 ^ (-64 : ℤ) ≤ (Binary64.ofNat part.toNat / .ofNat total.toNat).val ∧
      (Binary64.ofNat part.toNat / .ofNat total.toNat).val ≤ 2 ^ (64 : ℤ) := by
  obtain ⟨hp, hp'⟩ := count_bounds hpart
  obtain ⟨ht, ht'⟩ := count_bounds htotal
  have htpos := zero_lt_one.trans_le ht
  rw [Binary64.div_val]
  constructor
  · refine Binary64.le_rounded_of_representable (by positivity) ?_ (representable_zpow (-64))
    rw [le_div_iff₀ htpos, zpow_neg, inv_mul_le_iff₀ (by positivity)]
    exact ht'.trans (le_mul_of_one_le_right (by positivity) hp)
  · refine Binary64.rounded_le_of_representable (by positivity) ?_ (representable_zpow 64)
    rw [div_le_iff₀ htpos]
    exact hp'.trans (le_mul_of_one_le_right (by positivity) ht)

/-- **In range**: no step of a percentage of a part that is not zero comes near the smallest or the largest normal
number, whatever the counts are. -/
theorem percentage_in_range {part total : U64} (hpart : 0 < part) (htotal : 0 < total) :
    ∀ x ∈ [.ofNat part.toNat, .ofNat total.toNat, .ofNat part.toNat / .ofNat total.toNat, percentage part total],
      2 ^ (-64 : ℤ) ≤ x.val ∧ x.val ≤ 2 ^ (71 : ℤ) := by
  have hwiden {x : ℚ} (hlower : 1 ≤ x) (hupper : x ≤ 2 ^ 64) : 2 ^ (-64 : ℤ) ≤ x ∧ x ≤ 2 ^ (71 : ℤ) :=
    ⟨le_trans (by norm_num) hlower, hupper.trans (by norm_num)⟩
  obtain ⟨hp, hp'⟩ := count_bounds hpart
  obtain ⟨ht, ht'⟩ := count_bounds htotal
  obtain ⟨hq, hq'⟩ := quotient_bounds hpart htotal
  have hqpos := quotient_nonneg part total
  simp only [List.forall_mem_cons, List.not_mem_nil, false_implies, implies_true, and_true]
  refine ⟨hwiden hp hp', hwiden ht ht', ⟨hq, hq'.trans (zpow_le_zpow_right₀ one_le_two (by decide))⟩, ?_, ?_⟩
  · rw [percentage_val]
    exact Binary64.le_rounded_of_representable (by positivity) (by linarith) (representable_zpow (-64))
  · rw [percentage_val]
    refine Binary64.rounded_le_of_representable (by positivity) ?_ (representable_zpow 71)
    calc _ ≤ (2 : ℚ) ^ (64 : ℤ) * 100 := mul_le_mul_of_nonneg_right hq' (by norm_num)
      _ ≤ 2 ^ (71 : ℤ) := by norm_num

theorem percentage_nonneg (part total : U64) : 0 ≤ (percentage part total).val := by
  rw [percentage_val]
  exact Binary64.rounded_nonneg (mul_nonneg (quotient_nonneg part total) (by norm_num))

/-- **A part of at most the whole** is at most 100 percent, for rounding is monotone. -/
theorem percentage_le {part total : U64} (hle : part.toNat ≤ total.toNat) (htotal : 0 < total) :
    (percentage part total).val ≤ 100 := by
  have hp := count_nonneg part
  have hcounts : (Binary64.ofNat part.toNat).val ≤ (Binary64.ofNat total.toNat).val :=
    Binary64.rounded_le (Nat.cast_nonneg _) (by exact_mod_cast hle)
  have htpos := zero_lt_one.trans_le (count_bounds htotal).1
  have hquotient : (Binary64.ofNat part.toNat / .ofNat total.toNat).val ≤ 1 := by
    rw [Binary64.div_val]
    exact Binary64.rounded_le_of_representable (by positivity) ((div_le_one htpos).2 hcounts) (representable_zpow 0)
  have hnonneg := quotient_nonneg part total
  rw [percentage_val]
  exact Binary64.rounded_le_of_representable (by positivity) (by linarith) representable_hundred

/-- A percentage is four roundings off: one for each count, one for the quotient and one for the product. -/
theorem percentage_within {part total : U64} (htotal : 0 < total) :
    Binary64.Within 4 (percentage part total).val (part.toNat / total.toNat * 100) := by
  have htpos := zero_lt_one.trans_le (count_bounds htotal).1
  have htpos' : (0 : ℚ) < total.toNat := by exact_mod_cast (show 0 < total.toNat from htotal)
  have hp := count_nonneg part
  have hcounts := (Binary64.within_rounded (Nat.cast_nonneg part.toNat)).div
    (Binary64.within_rounded (Nat.cast_nonneg total.toNat)) hp (Nat.cast_nonneg _) htpos htpos'
  have hquotient := (Binary64.within_rounded (div_nonneg hp htpos.le)).trans hcounts
  have hnonneg := quotient_nonneg part total
  have hproduct := hquotient.mul (.refl 100) hnonneg (by positivity) (by norm_num) (by norm_num)
  have hrounded := (Binary64.within_rounded (by positivity)).trans hproduct
  rw [percentage_val]
  exact hrounded

theorem slack_pow_four : Binary64.slack ^ 4 ≤ 1 + 1 / 2 ^ 50 := by
  rw [Binary64.slack]
  norm_num

/-- **The error** of a percentage, relative to the exact one. -/
theorem abs_percentage_sub_le (part : U64) {total : U64} (htotal : 0 < total) :
    |(percentage part total).val - part.toNat / total.toNat * 100| ≤ part.toNat / total.toNat * 100 / 2 ^ 50 := by
  have hslack := slack_pow_four
  have hexact : (0 : ℚ) ≤ part.toNat / total.toNat * 100 := by positivity
  calc _ ≤ (part.toNat / total.toNat * 100 : ℚ) * (Binary64.slack ^ 4 - 1) :=
        (percentage_within htotal).abs_sub_le hexact
    _ ≤ part.toNat / total.toNat * 100 * (1 / 2 ^ 50) := mul_le_mul_of_nonneg_left (by linarith) hexact
    _ = _ := mul_one_div _ _

/-- **Two parts** of at most the whole, by themselves and together. -/
theorem percentages_le {part part' total : U64} (hle : part.toNat + part'.toNat ≤ total.toNat) (htotal : 0 < total) :
    (percentage part total).val + (percentage part' total).val ≤ 100 * (1 + 1 / 2 ^ 50) := by
  have hsum : (part.toNat : ℚ) + part'.toNat ≤ total.toNat := by exact_mod_cast hle
  have htpos : (0 : ℚ) < total.toNat := by exact_mod_cast (show 0 < total.toNat from htotal)
  have hexact : (part.toNat / total.toNat * 100 : ℚ) + part'.toNat / total.toNat * 100 ≤ 100 := by
    rw [← add_mul, ← add_div]
    have hratio := (div_le_one htpos).2 hsum
    linarith
  have herror := (abs_le.1 (abs_percentage_sub_le part htotal)).2
  have herror' := (abs_le.1 (abs_percentage_sub_le part' htotal)).2
  linarith

/-- Two of eleven packets and the other nine: the percentages of a whole, and more than 100. -/
example : 100 < (percentage 2 11).val + (percentage 9 11).val := by decide +kernel

/-! ## The handlers -/

/-- `PacketStatsResponse`. -/
structure PacketStatsResponse where
  totalPackets : U64
  allowedPackets : U64
  deniedPackets : U64
  allowRate : Binary64
  denyRate : Binary64
deriving DecidableEq

/-- `GetPacketStats` (`:41`). -/
def getPacketStats (stats : Statistics) : PacketStatsResponse where
  totalPackets := stats.totalPackets
  allowedPackets := stats.allowedPackets
  deniedPackets := stats.deniedPackets
  allowRate := if 0 < stats.totalPackets then percentage stats.allowedPackets stats.totalPackets else .ofNat 0
  denyRate := if 0 < stats.totalPackets then percentage stats.deniedPackets stats.totalPackets else .ofNat 0

/-- `SessionStatsResponse`. -/
structure SessionStatsResponse where
  newSessions : U64
  closedSessions : U64
  activeSessions : U64
deriving DecidableEq

/-- `GetSessionStats` (`:64`). -/
def getSessionStats (stats : Statistics) : SessionStatsResponse :=
  ⟨stats.newSessions, stats.closedSessions, stats.activeSessions⟩

/-- `PolicyStatsResponse`. -/
structure PolicyStatsResponse where
  policyHits : U64
  policyMisses : U64
  hitRate : Binary64
deriving DecidableEq

/-- `GetPolicyStats` (`:77`). -/
def getPolicyStats (stats : Statistics) : PolicyStatsResponse :=
  let totalLookups := stats.policyHits + stats.policyMisses
  { policyHits := stats.policyHits
    policyMisses := stats.policyMisses
    hitRate := if 0 < totalLookups then percentage stats.policyHits totalLookups else .ofNat 0 }

/-- No more verdicts than packets. -/
def Statistics.Consistent (stats : Statistics) : Prop :=
  stats.allowedPackets.toNat + stats.deniedPackets.toNat ≤ stats.totalPackets.toNat

instance (stats : Statistics) : Decidable stats.Consistent := inferInstanceAs (Decidable (_ ≤ _))

/-- The rates are at most a whole each, and together as well up to their rounding. -/
structure PacketStatsResponse.RatesBounded (response : PacketStatsResponse) : Prop where
  allow : response.allowRate.val ≤ 100
  deny : response.denyRate.val ≤ 100
  sum : response.allowRate.val + response.denyRate.val ≤ 100 * (1 + 1 / 2 ^ 50)

theorem zero_val : (Binary64.ofNat 0).val = 0 := by
  rw [Binary64.ofNat_val, Nat.cast_zero, Binary64.rounded_zero]

/-- **The rates of a consistent snapshot** are bounded. -/
theorem ratesBounded_of_consistent {stats : Statistics} (h : stats.Consistent) :
    (getPacketStats stats).RatesBounded := by
  rw [Statistics.Consistent] at h
  by_cases hpos : 0 < stats.totalPackets
  · have hallow : stats.allowedPackets.toNat ≤ stats.totalPackets.toNat := by omega
    have hdeny : stats.deniedPackets.toNat ≤ stats.totalPackets.toNat := by omega
    constructor <;> simp only [getPacketStats, if_pos hpos]
    · exact percentage_le hallow hpos
    · exact percentage_le hdeny hpos
    · exact percentages_le h hpos
  · constructor <;> simp only [getPacketStats, if_neg hpos, zero_val] <;> norm_num

end Microseg
