import LeigodAPM.Foundation.Double
import Mathlib.Algebra.Order.Field.Power
import Mathlib.Data.Int.Log
import Mathlib.Tactic.FieldSimp
import Mathlib.Tactic.Positivity
import Mathlib.Tactic.Ring

/-!
# The format binary64

Representable are the multiples `m * 2 ^ e` with `|m| ≤ 2 ^ 53` and `-1074 ≤ e`. Rounding
scales by the quantum of the argument, takes a nearest integer, the even one of two, and
scales back.

* `binary64`: the format, whose rounding is to a nearest representable number.
* `binary64_holdsNats`: it holds the natural numbers up to `2 ^ 53`.
-/

namespace LeigodAPM.Foundation

namespace Binary64

/-- A nearest integer, the even one of two. -/
def roundEven (x : ℚ) : ℤ :=
  if Int.fract x < 1 / 2 ∨ (Int.fract x = 1 / 2 ∧ Even ⌊x⌋) then ⌊x⌋ else ⌊x⌋ + 1

def quantumExponent (x : ℚ) : ℤ := max (Int.log 2 |x| - 52) (-1074)

/-- The distance of the representable numbers around a nonzero `x`. -/
def quantum (x : ℚ) : ℚ := 2 ^ quantumExponent x

def round (x : ℚ) : ℚ := roundEven (x / quantum x) * quantum x

def Representable (x : ℚ) : Prop :=
  ∃ m e : ℤ, |m| ≤ 2 ^ 53 ∧ -1074 ≤ e ∧ x = m * 2 ^ e

/-! ## Nearest integers -/

theorem roundEven_nearest (x : ℚ) (k : ℤ) : |x - roundEven x| ≤ |x - k| := by
  have hFloor : (⌊x⌋ : ℚ) = x - Int.fract x := (Int.self_sub_fract x).symm
  have hNonneg := Int.fract_nonneg x
  have hLt := Int.fract_lt_one x
  -- An integer is at most the floor or at least its successor.
  have hk : min (Int.fract x) (1 - Int.fract x) ≤ |x - k| := by
    rcases lt_or_ge ⌊x⌋ k with h | h
    · have hk' : ((⌊x⌋ + 1 : ℤ) : ℚ) ≤ k := by exact_mod_cast h
      push_cast at hk'
      exact le_trans (min_le_right _ _) (le_abs.mpr (Or.inr (by linarith)))
    · have hk' : (k : ℚ) ≤ ⌊x⌋ := by exact_mod_cast h
      exact le_trans (min_le_left _ _) (le_abs.mpr (Or.inl (by linarith)))
  refine le_trans ?_ hk
  unfold roundEven
  split
  · rename_i hDown
    have hHalf : Int.fract x ≤ 1 / 2 := by
      rcases hDown with h | ⟨h, -⟩
      · exact h.le
      · exact h.le
    rw [hFloor, abs_of_nonneg (by linarith), le_min_iff]
    constructor <;> linarith
  · rename_i hUp
    have hHalf : 1 / 2 ≤ Int.fract x := by
      by_contra hNot
      exact hUp (Or.inl (not_le.mp hNot))
    push_cast
    rw [hFloor, abs_of_nonpos (by linarith), le_min_iff]
    constructor <;> linarith

theorem roundEven_abs_le {x : ℚ} {n : ℤ} (h : |x| ≤ n) : |roundEven x| ≤ n := by
  obtain ⟨h1, h2⟩ := abs_le.mp h
  have hLow : -n ≤ ⌊x⌋ := Int.le_floor.mpr (by push_cast; exact h1)
  have hHigh : ⌊x⌋ ≤ n := by
    have hFloor : (⌊x⌋ : ℚ) ≤ n := (Int.floor_le x).trans h2
    exact_mod_cast hFloor
  rw [abs_le]
  unfold roundEven
  split
  · exact ⟨hLow, hHigh⟩
  · rename_i hUp
    refine ⟨by omega, ?_⟩
    -- At the upper bound the argument is the bound itself, which is not rounded up.
    by_contra hNot
    have hEq : ⌊x⌋ = n := by omega
    have hFract : Int.fract x = 0 := by
      have hSum := Int.self_sub_fract x
      rw [hEq] at hSum
      have hNonneg := Int.fract_nonneg x
      linarith
    exact hUp (Or.inl (by rw [hFract]; norm_num))

/-! ## Rounding -/

theorem quantum_pos (x : ℚ) : 0 < quantum x := by
  unfold quantum
  positivity

theorem abs_lt_quantum (x : ℚ) : |x| < 2 ^ 53 * quantum x := by
  have hLog : |x| < 2 ^ (Int.log 2 |x| + 1) := by
    simpa using Int.lt_zpow_succ_log_self (b := 2) (by norm_num) |x|
  have hExp : Int.log 2 |x| + 1 ≤ 53 + quantumExponent x := by
    have h := le_max_left (Int.log 2 |x| - 52) (-1074)
    unfold quantumExponent
    omega
  calc |x| < 2 ^ (Int.log 2 |x| + 1) := hLog
    _ ≤ 2 ^ (53 + quantumExponent x) := zpow_le_zpow_right₀ (by norm_num) hExp
    _ = 2 ^ 53 * quantum x := by rw [zpow_add₀ (by norm_num), quantum]; norm_num

theorem round_representable (x : ℚ) : Representable (round x) := by
  refine ⟨roundEven (x / quantum x), quantumExponent x, ?_, le_max_right _ _, rfl⟩
  apply roundEven_abs_le
  rw [abs_div, abs_of_pos (quantum_pos x), div_le_iff₀ (quantum_pos x)]
  exact_mod_cast (abs_lt_quantum x).le

/-- Rounding is to a nearest multiple of the quantum. -/
theorem round_nearest_multiple (x : ℚ) (k : ℤ) : |x - round x| ≤ |x - k * quantum x| := by
  have hPos := quantum_pos x
  have hScale : ∀ j : ℤ, |x - j * quantum x| = |x / quantum x - j| * quantum x := by
    intro j
    rw [← abs_of_pos hPos, ← abs_mul, abs_of_pos hPos]
    congr 1
    field_simp
  rw [round, hScale, hScale]
  exact mul_le_mul_of_nonneg_right (roundEven_nearest _ k) hPos.le

/-- A multiple of a larger power of two is a multiple of a smaller one. -/
theorem exists_multiple {e f : ℤ} (h : f ≤ e) (m : ℤ) : ∃ k : ℤ, (m : ℚ) * 2 ^ e = k * 2 ^ f := by
  refine ⟨m * 2 ^ (e - f).toNat, ?_⟩
  have hExp : (2 : ℚ) ^ e = 2 ^ (e - f).toNat * 2 ^ f := by
    rw [← zpow_natCast, Int.toNat_of_nonneg (by omega), ← zpow_add₀ (by norm_num)]
    congr 1
    omega
  push_cast
  rw [hExp, mul_assoc]

theorem round_nearest (x y : ℚ) (hy : Representable y) : |x - round x| ≤ |x - y| := by
  obtain ⟨m, e, hm, he, rfl⟩ := hy
  by_cases hNe : x = 0
  · subst hNe
    have hZero : |(0 : ℚ) - round 0| ≤ 0 := by simpa using round_nearest_multiple 0 0
    exact hZero.trans (abs_nonneg _)
  rcases lt_or_ge e (quantumExponent x) with hLt | hGe
  · -- Numbers on a finer grid end at the power of two below `x`, which is on the grid of `x`.
    have hExp : quantumExponent x = Int.log 2 |x| - 52 := by
      unfold quantumExponent at hLt ⊢
      omega
    have hPower : (2 : ℚ) ^ 52 * quantum x ≤ |x| := by
      have hLog := Int.zpow_log_le_self (b := 2) (by norm_num) (abs_pos.mpr hNe)
      have hEq : (2 : ℚ) ^ 52 * quantum x = 2 ^ Int.log 2 |x| := by
        rw [quantum, hExp, ← zpow_natCast, ← zpow_add₀ (by norm_num)]
        congr 1
        omega
      rw [hEq]
      exact_mod_cast hLog
    have hSmall : |(m : ℚ) * 2 ^ e| ≤ 2 ^ 52 * quantum x := by
      have hmQ : |(m : ℚ)| ≤ 2 ^ 53 := by exact_mod_cast hm
      have hTwo : (0 : ℚ) < 2 ^ e := by positivity
      calc |(m : ℚ) * 2 ^ e| = |(m : ℚ)| * 2 ^ e := by rw [abs_mul, abs_of_pos hTwo]
        _ ≤ 2 ^ 53 * 2 ^ e := mul_le_mul_of_nonneg_right hmQ hTwo.le
        _ = 2 ^ 52 * 2 ^ (e + 1) := by rw [zpow_add₀ (by norm_num)]; ring
        _ ≤ 2 ^ 52 * quantum x := by
          refine mul_le_mul_of_nonneg_left ?_ (by norm_num)
          exact zpow_le_zpow_right₀ (by norm_num) (by omega)
    obtain ⟨hLow, hHigh⟩ := abs_le.mp hSmall
    rcases le_total 0 x with hx | hx
    · rw [abs_of_nonneg hx] at hPower
      apply (round_nearest_multiple x (2 ^ 52)).trans
      push_cast
      rw [abs_of_nonneg (by linarith), abs_of_nonneg (by linarith)]
      linarith
    · rw [abs_of_nonpos hx] at hPower
      apply (round_nearest_multiple x (-2 ^ 52)).trans
      push_cast
      rw [abs_of_nonpos (by linarith), abs_of_nonpos (by linarith)]
      linarith
  · obtain ⟨k, hk⟩ := exists_multiple hGe m
    rw [hk]
    exact round_nearest_multiple x k

end Binary64

/-- IEEE 754 double precision, rounding to nearest, ties to even. -/
def binary64 : FloatFormat where
  Representable := Binary64.Representable
  max := ((2 ^ 53 - 1) * 2 ^ 971 : ℚ)
  round := Binary64.round
  round_representable := Binary64.round_representable
  round_nearest := Binary64.round_nearest

theorem binary64_holdsNats : binary64.HoldsNats := by
  intro n h
  have hn : (n : ℚ) ≤ 2 ^ 53 := by exact_mod_cast h
  refine ⟨⟨n, 0, ?_, by norm_num, by simp⟩, ?_⟩
  · rw [abs_of_nonneg (by positivity)]
    exact_mod_cast h
  · rw [abs_of_nonneg (by positivity)]
    have hPow : (2 : ℚ) ^ 1 ≤ 2 ^ 971 := pow_le_pow_right₀ (by norm_num) (by norm_num)
    refine WithTop.coe_le_coe.mpr (hn.trans ?_)
    calc (2 : ℚ) ^ 53 ≤ (2 ^ 53 - 1) * 2 ^ 1 := by norm_num
      _ ≤ (2 ^ 53 - 1) * 2 ^ 971 := mul_le_mul_of_nonneg_left hPow (by norm_num)

end LeigodAPM.Foundation
