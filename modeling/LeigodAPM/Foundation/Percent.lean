import LeigodAPM.Foundation.Spacing

/-!
# Percentages in binary64

A part of a whole is divided, multiplied by 100, perhaps added to other percentages, and shown
with one decimal.

* `percent_of_parts`: the percentage of a part is off by a rounding error only.
* `shown_percent`: what is shown of a number that is off by a small error.
-/

namespace LeigodAPM.Foundation

open Binary64 (abs_sub_round_le)

/-- The sum of two numbers below a power of two, with its error. -/
theorem add_error {x y : ℚ} {j : ℕ} (hj : j ≤ 53) (hx : 0 ≤ x) (hy : 0 ≤ y)
    (hSum : x + y < 2 ^ j) :
    ∃ z, binary64.add (.fin x) (.fin y) = .fin z ∧ 0 ≤ z ∧ |z - (x + y)| ≤ 2 ^ ((j : ℤ) - 54) := by
  have h0 : binary64.Holds 0 := binary64_holdsNats.zero
  have hNonneg : 0 ≤ x + y := add_nonneg hx hy
  obtain ⟨hFinite, hNear⟩ := Binary64.ofRat_near hj (abs_of_nonneg hNonneg ▸ hSum)
  exact ⟨_, hFinite, FloatFormat.le_round h0.1 hNonneg, hNear⟩

/-- A part of a whole in percent. -/
theorem percent_of_parts {s t : ℕ} (hst : s ≤ t) (ht : 0 < t) :
    ∃ x, binary64.mul (binary64.div (.fin s) (.fin t)) (.fin 100) = .fin x ∧ 0 ≤ x ∧ x ≤ 100 ∧
      |x - 100 * (s / t)| ≤ 2 ^ (-45 : ℤ) := by
  have h0 : binary64.Holds 0 := binary64_holdsNats.zero
  have h1 : binary64.Holds 1 := binary64_holdsNats.one
  have h100 : binary64.Holds 100 := by exact_mod_cast binary64_holdsNats 100 (by norm_num)
  have htQ : (0 : ℚ) < t := by exact_mod_cast ht
  have hLow : (0 : ℚ) ≤ s / t := by positivity
  have hHigh : (s : ℚ) / t ≤ 1 := by
    rw [div_le_one htQ]
    exact_mod_cast hst
  have hRoundLow : 0 ≤ binary64.round (s / t) := FloatFormat.le_round h0.1 hLow
  have hRoundHigh : binary64.round (s / t) ≤ 1 := FloatFormat.round_le h1.1 hHigh
  have hFirst : |(s : ℚ) / t - binary64.round (s / t)| ≤ 2 ^ ((1 : ℤ) - 54) := by
    refine abs_sub_round_le (by norm_num) ?_
    rw [abs_of_nonneg hLow, zpow_one]
    linarith
  have hProductLow : 0 ≤ binary64.round (s / t) * 100 := by linarith
  have hProductHigh : binary64.round (s / t) * 100 ≤ 100 := by linarith
  have hSecond : |binary64.round (s / t) * 100 - binary64.round (binary64.round (s / t) * 100)| ≤
      2 ^ ((7 : ℤ) - 54) := by
    refine abs_sub_round_le (by norm_num) ?_
    rw [abs_of_nonneg hProductLow]
    norm_num
    linarith
  refine ⟨binary64.round (binary64.round (s / t) * 100), ?_,
    FloatFormat.le_round h0.1 hProductLow, FloatFormat.round_le h100.1 hProductHigh, ?_⟩
  · rw [FloatFormat.div_fin htQ.ne', FloatFormat.ofRat_of_between h0 h1 hLow hHigh,
      FloatFormat.mul_fin, FloatFormat.ofRat_of_between h0 h100 hProductLow hProductHigh]
  · norm_num [abs_le] at hFirst hSecond ⊢
    exact ⟨by linarith [hFirst.1, hFirst.2, hSecond.1, hSecond.2],
      by linarith [hFirst.1, hFirst.2, hSecond.1, hSecond.2]⟩

/-- **Shown percentages.** A number near an exact percentage is shown as a number between 0 and
100 that is off by half a tenth and that error. -/
theorem shown_percent {p exact δ : ℚ} (hp : 0 ≤ p) (hExact : exact ≤ 100) (hδ : δ ≤ 1 / 100)
    (hNear : |p - exact| ≤ δ) (rest : List Char) :
    ∃ v, readDecimal (oneDecimal p ++ rest) = some (v, rest) ∧ 0 ≤ v ∧ v ≤ 100 ∧
      |v - exact| ≤ 1 / 20 + δ := by
  have hTenths := abs_sub_tenths hp
  obtain ⟨hNearLow, hNearHigh⟩ := abs_le.mp hNear
  obtain ⟨hLow, hHigh⟩ := abs_le.mp hTenths
  have hMost : tenths p ≤ 1000 := by
    have hLt : (tenths p : ℚ) < 1001 := by linarith
    have hNat : tenths p < 1001 := by exact_mod_cast hLt
    omega
  refine ⟨tenths p / 10, readDecimal_oneDecimal hp rest, by positivity, ?_, ?_⟩
  · have hMostQ : (tenths p : ℚ) ≤ 1000 := by exact_mod_cast hMost
    linarith
  · rw [abs_le]
    exact ⟨by linarith, by linarith⟩

end LeigodAPM.Foundation
