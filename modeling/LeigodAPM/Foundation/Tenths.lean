import LeigodAPM.Foundation.Binary64

/-!
# Numbers with one decimal

A nonnegative number is rounded to tenths, a nearest one and the even one of two, and written
with one digit after the point. Large numbers are written in units that are powers of a base,
each for the numbers above the unit and up to the next one.

* `readDecimal_oneDecimal`: the text is read back as the number of tenths.
* `shownIn_error`, `shownIn_mono`: in its unit a number is off by at most half a tenth, and
  the order of numbers is kept across the units.
-/

namespace LeigodAPM.Foundation

open Binary64 (roundEven roundEven_nearest)

/-! ## Tenths -/

def tenths (x : ℚ) : ℕ := (roundEven (10 * x)).toNat

theorem abs_sub_roundEven (x : ℚ) : |x - roundEven x| ≤ 1 / 2 :=
  (roundEven_nearest x (round x)).trans (abs_sub_round x)

/-- Only between equal numbers could a nearest integer go down. -/
theorem roundEven_mono {x y : ℚ} (hxy : x ≤ y) : roundEven x ≤ roundEven y := by
  by_contra hNot
  have hLess : (roundEven y : ℚ) + 1 ≤ roundEven x := by exact_mod_cast not_le.mp hNot
  have hx := (abs_le.mp (abs_sub_roundEven x)).1
  have hy := (abs_le.mp (abs_sub_roundEven y)).2
  have hEq : x = y := by linarith
  exact hNot (by rw [hEq])

theorem roundEven_intCast (n : ℤ) : roundEven n = n := by
  have hNear := roundEven_nearest (n : ℚ) n
  rw [sub_self, abs_zero] at hNear
  have hZero := abs_eq_zero.mp (le_antisymm hNear (abs_nonneg _))
  exact_mod_cast (sub_eq_zero.mp hZero).symm

theorem tenths_mono {x y : ℚ} (hxy : x ≤ y) : tenths x ≤ tenths y :=
  Int.toNat_le_toNat (roundEven_mono (by linarith))

theorem tenths_natCast (n : ℕ) : tenths n = 10 * n := by
  have hScale : (10 * n : ℚ) = ((10 * n : ℕ) : ℤ) := by push_cast; rfl
  rw [tenths, hScale, roundEven_intCast, Int.toNat_natCast]

/-- The tenths of a nonnegative number are a nearest integer. -/
theorem abs_sub_tenths {x : ℚ} (hx : 0 ≤ x) : |10 * x - tenths x| ≤ 1 / 2 := by
  have hNonneg : 0 ≤ roundEven (10 * x) := by
    have hMono := roundEven_mono (show ((0 : ℤ) : ℚ) ≤ 10 * x by push_cast; linarith)
    rwa [roundEven_intCast] at hMono
  have hCast : (tenths x : ℚ) = roundEven (10 * x) := by
    exact_mod_cast Int.toNat_of_nonneg hNonneg
  rw [hCast]
  exact abs_sub_roundEven (10 * x)

/-! ## Text -/

/-- `"%.1f"`. -/
def oneDecimal (x : ℚ) : List Char :=
  let n := tenths |x|
  (if x < 0 then ['-'] else []) ++ Nat.toDigits 10 (n / 10) ++ ['.', (n % 10).digitChar]

/-- Reads a number with one decimal, and returns what comes after it. -/
def readDecimal (text : List Char) : Option (ℚ × List Char) :=
  let whole := text.takeWhile Char.isDigit
  match text.dropWhile Char.isDigit with
  | '.' :: decimal :: rest =>
    if whole ≠ [] ∧ decimal.isDigit = true then
      some (Nat.ofDigitChars 10 whole 0 + Nat.ofDigitChars 10 [decimal] 0 / 10, rest)
    else none
  | _ => none

/-- **Reading back.** The text of a number denotes its tenths. -/
theorem readDecimal_oneDecimal {x : ℚ} (hx : 0 ≤ x) (rest : List Char) :
    readDecimal (oneDecimal x ++ rest) = some ((tenths x : ℚ) / 10, rest) := by
  have hDigits : ∀ c ∈ Nat.toDigits 10 (tenths x / 10), c.isDigit = true :=
    fun c hc => Nat.isDigit_of_mem_toDigits (by omega) (by omega) hc
  have hText : oneDecimal x ++ rest =
      Nat.toDigits 10 (tenths x / 10) ++ '.' :: (tenths x % 10).digitChar :: rest := by
    simp [oneDecimal, not_lt.mpr hx, abs_of_nonneg hx]
  have hLast : (tenths x % 10).digitChar.isDigit = true := by
    rw [Nat.isDigit_digitChar, decide_eq_true (Nat.mod_lt _ (by omega))]
  have hPoint : Char.isDigit '.' = false := by decide
  have hWhole : (oneDecimal x ++ rest).takeWhile Char.isDigit =
      Nat.toDigits 10 (tenths x / 10) := by
    rw [hText, List.takeWhile_append_of_pos hDigits, List.takeWhile_cons, hPoint]
    simp
  have hAfter : (oneDecimal x ++ rest).dropWhile Char.isDigit =
      '.' :: (tenths x % 10).digitChar :: rest := by
    rw [hText, List.dropWhile_append_of_pos hDigits, List.dropWhile_cons, hPoint]
    simp
  have hValue : ((tenths x / 10 : ℕ) : ℚ) + (tenths x % 10 : ℕ) / 10 = tenths x / 10 := by
    have hSplit : ((10 * (tenths x / 10) + tenths x % 10 : ℕ) : ℚ) = tenths x := by
      rw [Nat.div_add_mod]
    push_cast at hSplit
    linarith
  have hDecimal : Nat.ofDigitChars 10 [(tenths x % 10).digitChar] 0 = tenths x % 10 := by
    rw [Nat.ofDigitChars_cons_digitChar_of_lt_ten (Nat.mod_lt _ (by omega)), Nat.ofDigitChars_nil]
    omega
  simp only [readDecimal, hWhole, hAfter, Nat.toDigits_ne_nil, hLast, ne_eq, not_false_eq_true,
    and_self, if_true, Nat.ofDigitChars_ten_toDigits, hDecimal, hValue]

/-! ## Units -/

/-- What a reader takes for `x` when it is written with one decimal in the unit `b ^ k`. -/
def shownIn (b k : ℕ) (x : ℚ) : ℚ := tenths (x / b ^ k) / 10 * b ^ k

/-- The unit `b ^ k` is the one for `x`, where `b ^ top` is the largest. -/
structure UnitOf (b top k : ℕ) (x : ℚ) : Prop where
  le_top : k ≤ top
  above : k = 0 ∨ (b : ℚ) ^ k < x
  upTo : k = top ∨ x ≤ (b : ℚ) ^ (k + 1)

section Units

variable {b top j k : ℕ} {x y : ℚ}

/-- Half a tenth of the unit is the largest error. -/
theorem shownIn_error (hb : 0 < b) (hx : 0 ≤ x) : |shownIn b k x - x| ≤ 1 / 20 * b ^ k := by
  have hUnit : (0 : ℚ) < b ^ k := by positivity
  have hNear := abs_sub_tenths (div_nonneg hx hUnit.le)
  have hScale : shownIn b k x - x = (tenths (x / b ^ k) - 10 * (x / b ^ k)) * (b ^ k / 10) := by
    rw [shownIn]
    field_simp
  rw [hScale, abs_mul, abs_sub_comm, abs_of_pos (by positivity : (0 : ℚ) < b ^ k / 10)]
  calc |10 * (x / b ^ k) - tenths (x / b ^ k)| * (b ^ k / 10)
      ≤ 1 / 2 * (b ^ k / 10) := mul_le_mul_of_nonneg_right hNear (by positivity)
    _ = 1 / 20 * b ^ k := by ring

/-- In one unit the order is kept. -/
theorem shownIn_mono_unit (hxy : x ≤ y) : shownIn b k x ≤ shownIn b k y := by
  have hUnit : (0 : ℚ) ≤ b ^ k := by positivity
  have hTenths : tenths (x / b ^ k) ≤ tenths (y / b ^ k) :=
    tenths_mono (div_le_div_of_nonneg_right hxy hUnit)
  have hCast : (tenths (x / b ^ k) : ℚ) ≤ tenths (y / b ^ k) := by exact_mod_cast hTenths
  exact mul_le_mul_of_nonneg_right (by linarith) hUnit

/-- Whole multiples of the unit are shown as they are. -/
theorem shownIn_natCast_mul (hb : 0 < b) (n : ℕ) : shownIn b k (n * b ^ k) = n * b ^ k := by
  have hUnit : (b : ℚ) ^ k ≠ 0 := by positivity
  rw [shownIn, mul_div_assoc, div_self hUnit, mul_one, tenths_natCast]
  push_cast
  ring

/-- **Order across units.** The number before the next unit may be rounded up to it, but no
further, and nothing above a unit is rounded below it. -/
theorem shownIn_mono (hb : 1 < b) (hx : UnitOf b top j x) (hy : UnitOf b top k y)
    (hxy : x ≤ y) : shownIn b j x ≤ shownIn b k y := by
  have hPos : 0 < b := by omega
  have hBase : (1 : ℚ) ≤ b := by exact_mod_cast hb.le
  have hj := hx.le_top
  have hk := hy.le_top
  rcases lt_trichotomy j k with hLess | hEq | hMore
  · have hLow : shownIn b j x ≤ (b : ℚ) ^ (j + 1) := by
      have hMono := shownIn_mono_unit (b := b) (k := j) (hx.upTo.resolve_left (by omega))
      rwa [pow_succ', shownIn_natCast_mul hPos, ← pow_succ'] at hMono
    have hHigh : (b : ℚ) ^ k ≤ shownIn b k y := by
      have hMono := shownIn_mono_unit (b := b) (k := k) (hy.above.resolve_left (by omega)).le
      have hOne := shownIn_natCast_mul (b := b) (k := k) hPos 1
      rw [Nat.cast_one, one_mul] at hOne
      rwa [hOne] at hMono
    calc shownIn b j x ≤ (b : ℚ) ^ (j + 1) := hLow
      _ ≤ (b : ℚ) ^ k := pow_le_pow_right₀ hBase hLess
      _ ≤ shownIn b k y := hHigh
  · subst hEq
    exact shownIn_mono_unit hxy
  · -- A smaller number does not have the larger unit.
    have hUnits : (b : ℚ) ^ (k + 1) ≤ (b : ℚ) ^ j := pow_le_pow_right₀ hBase hMore
    have hAbove := hx.above.resolve_left (by omega)
    have hUpTo := hy.upTo.resolve_left (by omega)
    linarith

end Units

end LeigodAPM.Foundation
