import LeigodAPM.Foundation.Spacing
import LeigodAPM.UIColor

/-!
# Colours in floating point

A colour divides the bytes of an integer by 255, and `rgba` multiplies by 255 and drops the
fraction. In binary64 both operations round, and a product just below a byte would lose one.

* `round_byte`: dividing a byte by 255 and multiplying again gives the byte.
* `hexString_double`: a colour that was made from an integer is written with the same text as in
  exact arithmetic, and read back as the integer modulo `2 ^ 24`.
-/

namespace LeigodAPM

open Foundation

namespace UIColor

open Binary64 hiding round

/-! ## Bytes -/

/-- A number divided by 255 and multiplied again, with both roundings. -/
def divMul (x : ℚ) : ℚ := Binary64.round (Binary64.round (x / 255) * 255)

theorem abs_scaled (x y : ℚ) : |y * 255 - x| = |x / 255 - y| * 255 := by
  have hPos : (0 : ℚ) < 255 := by norm_num
  rw [abs_sub_comm, ← abs_of_pos hPos, ← abs_mul, abs_of_pos hPos]
  congr 1
  ring

/-- A power of two, whose quotient is near a number with few digits. -/
theorem round_power {k : ℕ} (hk : k ≤ 7) : divMul (2 ^ k) = 2 ^ k := by
  have hPow : (2 : ℚ) ^ k ≤ 2 ^ 7 := pow_le_pow_right₀ (by norm_num) hk
  have hOne : (1 : ℚ) ≤ 2 ^ k := one_le_pow₀ (by norm_num)
  have hUnit : (2 : ℚ) ^ ((k : ℤ) - 56) = 2 ^ k / 2 ^ 56 := by exact_mod_cast two_zpow_sub k 56
  have hGrid : (2 : ℚ) ^ ((k : ℤ) - 53) = 2 ^ k / 2 ^ 53 := by exact_mod_cast two_zpow_sub k 53
  have hShort : Representable (282578800148737 * 2 ^ ((k : ℤ) - 56)) :=
    ⟨282578800148737, (k : ℤ) - 56, by norm_num, by omega, by push_cast; rfl⟩
  have hNear := round_nearest (2 ^ k / 255) _ hShort
  have hError : |(2 : ℚ) ^ k / 255 - 282578800148737 * 2 ^ ((k : ℤ) - 56)| =
      2 ^ k / 255 / 2 ^ 56 := by
    rw [hUnit, abs_of_nonneg]
    · ring
    · linarith
  rw [hError] at hNear
  have hRep : Representable ((2 : ℚ) ^ k) := by
    have hNat : (2 : ℕ) ^ k ≤ 2 ^ 53 := Nat.pow_le_pow_right (by norm_num) (by omega)
    exact_mod_cast representable_natCast hNat
  refine round_eq_of_near (q := (k : ℤ) - 53) (n := 2 ^ 53) ?_ ?_ hRep ?_
  · rw [hGrid]
    push_cast
    ring
  · have hBelow : (2 : ℚ) ^ ((k : ℤ) - 53 + 52) = 2 ^ k / 2 := by
      have hExp : (k : ℤ) - 53 + 52 = (k : ℤ) - (1 : ℕ) := by omega
      rw [hExp, two_zpow_sub, pow_one]
    rw [hBelow, hGrid]
    linarith
  · rw [hGrid]
    rw [abs_scaled]
    linarith

/-- A byte between two powers of two, where the error of the quotient is small enough. -/
theorem round_between {k b : ℕ} (hk : k ≤ 7) (hLow : 2 ^ k < b) (hHigh : b < 2 ^ (k + 1))
    (hb : b < 255) : divMul b = b := by
  have hPow : (2 : ℚ) ^ k ≤ 2 ^ 7 := pow_le_pow_right₀ (by norm_num) hk
  have hLowQ : (2 : ℚ) ^ k + 1 ≤ b := by exact_mod_cast hLow
  have hHighQ : (b : ℚ) + 1 ≤ 2 * 2 ^ k := by
    rw [← pow_succ']
    exact_mod_cast hHigh
  have hbQ : (b : ℚ) + 1 ≤ 255 := by exact_mod_cast hb
  have hTop : (2 : ℚ) ^ ((k : ℤ) - 7) = 2 ^ k / 2 ^ 7 := by exact_mod_cast two_zpow_sub k 7
  have hUnit : (2 : ℚ) ^ ((k : ℤ) - 7 - 54) = 2 ^ k / 2 ^ 61 := by
    have hExp : (k : ℤ) - 7 - 54 = (k : ℤ) - (61 : ℕ) := by omega
    rw [hExp, two_zpow_sub]
  have hGrid : (2 : ℚ) ^ ((k : ℤ) - 52) = 2 ^ k / 2 ^ 52 := by exact_mod_cast two_zpow_sub k 52
  have hSmall : (b : ℚ) < 255 * (2 ^ k / 2 ^ 7) := by
    rcases Nat.lt_or_ge k 7 with hLess | hSeven
    · have hHalf : (2 : ℚ) ^ k ≤ 2 ^ 6 := pow_le_pow_right₀ (by norm_num) (by omega)
      linarith
    · obtain rfl : k = 7 := by omega
      norm_num
      linarith
  have hError : |(b : ℚ) / 255 - Binary64.round (b / 255)| ≤ 2 ^ ((k : ℤ) - 7 - 54) := by
    refine abs_sub_round_le (by omega) ?_
    rw [abs_of_nonneg (by positivity), hTop, div_lt_iff₀ (by norm_num)]
    linarith
  rw [hUnit] at hError
  refine round_eq_of_near (q := (k : ℤ) - 52) (n := b * 2 ^ (52 - k)) ?_ ?_
    (representable_natCast (n := b) (by omega)) ?_
  · have hSplit : (2 : ℚ) ^ (52 - k) * 2 ^ k = 2 ^ 52 := by
      rw [← pow_add]
      congr 1
      omega
    rw [hGrid]
    push_cast
    rw [mul_assoc, mul_div_assoc', hSplit, div_self (by norm_num), mul_one]
  · have hBelow : (2 : ℚ) ^ ((k : ℤ) - 52 + 52) = 2 ^ k := by
      rw [sub_add_cancel, zpow_natCast]
    rw [hBelow, hGrid]
    linarith
  · rw [hGrid, abs_scaled]
    linarith

/-- **Bytes.** Dividing by 255 and multiplying again gives the byte, without a loss. -/
theorem round_byte {b : ℕ} (hb : b < 256) : divMul b = b := by
  rcases Nat.eq_zero_or_pos b with rfl | hPos
  · have hZero : Binary64.round 0 = 0 :=
      FloatFormat.round_of_representable (F := binary64) representable_zero
    simp [divMul, hZero]
  · rcases Nat.lt_or_ge b 255 with hLess | hTop
    · have hLow := Nat.log2_self_le hPos.ne'
      have hHigh := Nat.lt_log2_self (n := b)
      have hk : b.log2 ≤ 7 := by
        have hLog := (Nat.log2_lt hPos.ne').mpr (show b < 2 ^ 8 by omega)
        omega
      rcases hLow.eq_or_lt with hEq | hLt
      · have hPower := round_power hk
        have hCast : (2 : ℚ) ^ b.log2 = b := by exact_mod_cast hEq
        rwa [hCast] at hPower
      · exact round_between hk hLt hHigh hLess
    · obtain rfl : b = 255 := by omega
      have hOne : Binary64.round 1 = 1 := FloatFormat.round_of_representable (F := binary64)
        (by exact_mod_cast representable_natCast (n := 1) (by norm_num))
      have h255 : Binary64.round 255 = 255 := FloatFormat.round_of_representable (F := binary64)
        (by exact_mod_cast representable_natCast (n := 255) (by norm_num))
      norm_num [divMul, hOne, h255]

/-! ## The program -/

/-- The components of a colour as the program computes them. -/
structure Components where
  red : Double
  green : Double
  blue : Double
  alpha : Double

/-- `init(nnhex:alpha:)` -/
def nnhexDouble (F : FloatFormat) (nnhex : Int64) (alpha : Double) : Components where
  red := F.div (F.ofRat ((nnhex &&& 0xFF0000) >>> 16).toInt) (.fin 255)
  green := F.div (F.ofRat ((nnhex &&& 0x00FF00) >>> 8).toInt) (.fin 255)
  blue := F.div (F.ofRat (nnhex &&& 0x0000FF).toInt) (.fin 255)
  alpha := alpha

/-- `Int(x)`, which traps on what is not finite. -/
def intOfDouble : Double → Option Int64
  | .fin x => intOf x
  | _ => none

namespace Components

def rgba (F : FloatFormat) (color : Components) : Option (Int64 × Int64 × Int64 × Double) :=
  rgbaOf (fun x => intOfDouble (F.mul x (.fin 255))) color.red color.green color.blue color.alpha

def hexString (F : FloatFormat) (color : Components) (leading : String) : Option String :=
  textOf (color.rgba F) leading

def hex (F : FloatFormat) (color : Components) : Option (Option Int64) :=
  numberOf (color.hexString F "")

end Components

/-- The quotient of a byte lies between 0 and 1. -/
theorem quotient_mem {b : ℕ} (hb : b < 256) : (0 : ℚ) ≤ b / 255 ∧ (b : ℚ) / 255 ≤ 1 := by
  have hbQ : (b : ℚ) ≤ 255 := by exact_mod_cast Nat.lt_succ_iff.mp hb
  refine ⟨by positivity, ?_⟩
  rw [div_le_one (by norm_num)]
  exact hbQ

/-- The quotient of a byte is finite. -/
theorem div_byte {b : ℕ} (hb : b < 256) :
    binary64.div (binary64.ofRat b) (.fin 255) = .fin (Binary64.round (b / 255)) := by
  obtain ⟨hLow, hHigh⟩ := quotient_mem hb
  rw [FloatFormat.ofRat_of_holds (binary64_holdsNats b (by omega)),
    FloatFormat.div_fin (by norm_num),
    FloatFormat.ofRat_of_between binary64_holdsNats.zero binary64_holdsNats.one hLow hHigh]
  rfl

/-- The product of the quotient with 255 is the byte. -/
theorem mul_div_byte {b : ℕ} (hb : b < 256) :
    binary64.mul (binary64.div (binary64.ofRat b) (.fin 255)) (.fin 255) = .fin b := by
  have hByte : binary64.round (Binary64.round (b / 255) * 255) = b := round_byte hb
  have hMax : ((|(b : ℚ)| : ℚ) : WithTop ℚ) ≤ binary64.max :=
    (binary64_holdsNats b (by omega)).2
  rw [div_byte hb, FloatFormat.mul_fin, FloatFormat.ofRat, hByte, if_pos hMax]

theorem intOf_natCast {b : ℕ} (hb : b < 256) : intOf b = some (Int64.ofInt b) := by
  have hScale := intOf_byte hb
  rwa [div_mul_cancel₀ _ (by norm_num)] at hScale

theorem rgba_double (n : Int64) (alpha : Double) : (nnhexDouble binary64 n alpha).rgba binary64 =
    some (Int64.ofInt (byteAt n 16), Int64.ofInt (byteAt n 8), Int64.ofInt (byteAt n 0),
      alpha) := by
  obtain ⟨hRed, hGreen, hBlue⟩ := components_eq n
  simp only [Components.rgba, rgbaOf, nnhexDouble, hRed, hGreen, hBlue, Int.cast_natCast,
    mul_div_byte (byteAt_lt n 16), mul_div_byte (byteAt_lt n 8), mul_div_byte (byteAt_lt n 0),
    intOfDouble, intOf_natCast (byteAt_lt n 16), intOf_natCast (byteAt_lt n 8),
    intOf_natCast (byteAt_lt n 0)]
  rfl

/-- The text of a colour that was made from an integer is that in exact arithmetic. -/
theorem hexString_nnhexDouble (n : Int64) (alpha : Double) (leading : String) :
    (nnhexDouble binary64 n alpha).hexString binary64 leading = (nnhex n 1).hexString leading := by
  rw [Components.hexString, rgba_double, hexString_nnhex]
  exact textOf_bytes (byteAt_lt n 16) (byteAt_lt n 8) (byteAt_lt n 0) alpha leading

theorem hex_double (n : Int64) (alpha : Double) :
    ∃ m, (nnhexDouble binary64 n alpha).hex binary64 = some (some m) ∧
      m.toInt = n.toInt % 2 ^ 24 := by
  rw [Components.hex, hexString_nnhexDouble]
  exact hex_nnhex n 1

/-- **Floating point.** The text of a colour that was made from an integer is the text in exact
arithmetic, and it is read back as the integer modulo `2 ^ 24`. -/
theorem hexString_double (n : Int64) (alpha : Double) (leading : String) :
    (nnhexDouble binary64 n alpha).hexString binary64 leading = (nnhex n 1).hexString leading ∧
      ∃ m, (nnhexDouble binary64 n alpha).hex binary64 = some (some m) ∧
        m.toInt = n.toInt % 2 ^ 24 :=
  ⟨hexString_nnhexDouble n alpha leading, hex_double n alpha⟩

end UIColor

end LeigodAPM
