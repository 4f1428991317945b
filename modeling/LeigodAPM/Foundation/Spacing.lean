import LeigodAPM.Foundation.Tenths

/-!
# The spacing of binary64

The error of a rounding is at most half of the quantum, which grows with the argument, and the
numbers around a representable one keep a distance from it.

* `abs_sub_round_le`: the error of rounding a number below a power of two.
* `ofRat_near`: a result below a power of two is finite, and off by this error.
* `round_eq_of_near`: what is rounded to a number that is near enough.
-/

namespace LeigodAPM.Foundation

/-- A result between two numbers of the format is finite. -/
theorem FloatFormat.ofRat_of_between {F : FloatFormat} {a b x : ℚ} (ha : F.Holds a)
    (hb : F.Holds b) (hax : a ≤ x) (hxb : x ≤ b) : F.ofRat x = .fin (F.round x) := by
  obtain ⟨y, -, hEq⟩ := F.exists_ofRat ha hb hax hxb
  rw [ofRat] at hEq ⊢
  split_ifs at hEq ⊢
  rfl

namespace Binary64

/-! ## Errors -/

theorem abs_sub_round_le_quantum (x : ℚ) : |x - round x| ≤ quantum x / 2 := by
  have hPos := quantum_pos x
  have hScale : x - round x = (x / quantum x - roundEven (x / quantum x)) * quantum x := by
    rw [round, sub_mul, div_mul_cancel₀ x hPos.ne']
  rw [hScale, abs_mul, abs_of_pos hPos]
  calc |x / quantum x - roundEven (x / quantum x)| * quantum x
      ≤ 1 / 2 * quantum x := mul_le_mul_of_nonneg_right (abs_sub_roundEven _) hPos.le
    _ = quantum x / 2 := by ring

theorem representable_zero : Representable 0 := ⟨0, 0, by norm_num, by norm_num, by norm_num⟩

theorem abs_sub_round_le {x : ℚ} {j : ℤ} (hj : -1021 ≤ j) (hx : |x| < 2 ^ j) :
    |x - round x| ≤ 2 ^ (j - 54) := by
  by_cases hZero : x = 0
  · have hRound : round x = x := by
      rw [hZero]
      exact FloatFormat.round_of_representable (F := binary64) representable_zero
    rw [hRound, sub_self, abs_zero]
    positivity
  · have hLog : Int.log 2 |x| < j := by
      refine (Int.lt_zpow_iff_log_lt (by norm_num) (abs_pos.mpr hZero)).mp ?_
      exact_mod_cast hx
    have hExp : quantumExponent x ≤ j - 53 := by
      unfold quantumExponent
      omega
    calc |x - round x| ≤ quantum x / 2 := abs_sub_round_le_quantum x
      _ ≤ 2 ^ (j - 53) / 2 := by
        have hQuantum : quantum x ≤ 2 ^ (j - 53) := zpow_le_zpow_right₀ (by norm_num) hExp
        linarith
      _ = 2 ^ (j - 54) := by
        have hSplit : (2 : ℚ) ^ (j - 53) = 2 ^ (j - 54) * 2 := by
          rw [← zpow_add_one₀ (by norm_num)]
          congr 1
          omega
        rw [hSplit]
        ring

theorem two_zpow_sub (k j : ℕ) : (2 : ℚ) ^ ((k : ℤ) - j) = 2 ^ k / 2 ^ j := by
  rw [zpow_sub₀ (by norm_num), zpow_natCast, zpow_natCast]

theorem representable_natCast {n : ℕ} (h : n ≤ 2 ^ 53) : Representable n :=
  (binary64_holdsNats n h).1

/-- A result that is not too large is finite, and off by a rounding error. -/
theorem ofRat_near {x : ℚ} {j : ℕ} (hj : j ≤ 53) (hx : |x| < 2 ^ j) :
    binary64.ofRat x = .fin (round x) ∧ |round x - x| ≤ 2 ^ ((j : ℤ) - 54) := by
  have hPower : binary64.Holds ((2 ^ j : ℕ) : ℚ) :=
    binary64_holdsNats (2 ^ j) (Nat.pow_le_pow_right (by norm_num) hj)
  have hNegative : binary64.Holds (-((2 ^ j : ℕ) : ℚ)) := by
    refine ⟨⟨-2 ^ j, 0, ?_, by norm_num, by push_cast; ring⟩, ?_⟩
    · rw [abs_neg, abs_of_nonneg (by positivity)]
      exact_mod_cast Nat.pow_le_pow_right (by norm_num : 0 < 2) hj
    · rw [abs_neg]
      exact hPower.2
  push_cast at hPower hNegative
  obtain ⟨hLow, hHigh⟩ := abs_lt.mp hx
  refine ⟨FloatFormat.ofRat_of_between hNegative hPower hLow.le hHigh.le, ?_⟩
  rw [abs_sub_comm]
  exact abs_sub_round_le (by omega) (by exact_mod_cast hx)

theorem exists_ofRat_near {x : ℚ} {j : ℕ} (hj : j ≤ 53) (hx : |x| < 2 ^ j) :
    ∃ y, binary64.ofRat x = .fin y ∧ |y - x| ≤ 2 ^ ((j : ℤ) - 54) := ⟨_, ofRat_near hj hx⟩

/-! ## Distances -/

/-- A representable number keeps a distance of `2 ^ q` from a multiple of it that is large
enough. -/
theorem le_abs_sub {r b : ℚ} {q n : ℤ} (hb : b = n * 2 ^ q) (hBig : 2 ^ (q + 52) + 2 ^ q ≤ b)
    (hr : Representable r) (hNe : r ≠ b) : 2 ^ q ≤ |r - b| := by
  obtain ⟨m, e, hm, -, rfl⟩ := hr
  have hPos : (0 : ℚ) < 2 ^ q := by positivity
  rcases le_or_gt q e with hLe | hGt
  · -- Both are multiples.
    obtain ⟨k, hk⟩ := exists_multiple hLe m
    rw [hk, hb] at hNe ⊢
    have hDiff : k - n ≠ 0 := fun hEq => hNe (by rw [sub_eq_zero.mp hEq])
    have hOne : (1 : ℚ) ≤ |((k - n : ℤ) : ℚ)| := by exact_mod_cast Int.one_le_abs hDiff
    rw [← sub_mul, abs_mul, abs_of_pos hPos]
    push_cast at hOne
    calc (2 : ℚ) ^ q = 1 * 2 ^ q := (one_mul _).symm
      _ ≤ |(k : ℚ) - n| * 2 ^ q := mul_le_mul_of_nonneg_right hOne hPos.le
  · -- A number on a finer grid is too small.
    have hSmall : (m : ℚ) * 2 ^ e ≤ 2 ^ (q + 52) := by
      have hmQ : (m : ℚ) ≤ 2 ^ 53 := by exact_mod_cast (le_abs_self m).trans hm
      calc (m : ℚ) * 2 ^ e ≤ 2 ^ 53 * 2 ^ e := mul_le_mul_of_nonneg_right hmQ (by positivity)
        _ = 2 ^ (53 + e) := by
          rw [zpow_add₀ (by norm_num)]
          norm_num
        _ ≤ 2 ^ (q + 52) := zpow_le_zpow_right₀ (by norm_num) (by omega)
    exact le_abs.mpr (Or.inr (by linarith))

/-- Within half of that distance everything is rounded to `b`. -/
theorem round_eq_of_near {x b : ℚ} {q n : ℤ} (hb : b = n * 2 ^ q)
    (hBig : 2 ^ (q + 52) + 2 ^ q ≤ b) (hRep : Representable b) (hNear : |x - b| < 2 ^ q / 2) :
    round x = b := by
  by_contra hNe
  have hFar := le_abs_sub hb hBig (round_representable x) hNe
  have hNearest := round_nearest x b hRep
  have hTriangle : |round x - b| ≤ |x - round x| + |x - b| := by
    have hSum := abs_sub_le (round x) x b
    rwa [abs_sub_comm (round x) x] at hSum
  linarith

end Binary64

end LeigodAPM.Foundation
