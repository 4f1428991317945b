import LeigodAPM.UIColorDouble

/-!
# Colours that have a text

Components can lie outside of 0 to 1, and they need not be numbers at all. A component is written
as two digits only when its product with 255, rounded and without the fraction, is a byte.

* `readsBack_iff`: the text of a colour denotes a colour near it, with the same text, exactly
  when all components are in the gamut.
* `gradient_readsBack`: between two colours with components from 0 to 1 every colour of the
  gradient is in the gamut, with bytes between theirs up to one.
-/

namespace LeigodAPM

open Foundation

namespace UIColor

/-- A component of a gradient. -/
def mix (F : FloatFormat) (startC endC fraction : Double) : Double :=
  F.add startC (F.mul (F.sub endC startC) fraction)

/-- `gradient(startColor:endColor:fraction:)` -/
def gradient (F : FloatFormat) (startColor endColor : Components) (fraction : Double) :
    Components :=
  let resultA := mix F startColor.alpha endColor.alpha fraction
  let resultR := mix F startColor.red endColor.red fraction
  let resultG := mix F startColor.green endColor.green fraction
  let resultB := mix F startColor.blue endColor.blue fraction
  ⟨resultR, resultG, resultB, resultA⟩

/-! ## Numbers that are written as bytes -/

section Byte

variable {y : ℚ}

theorem floor_lt (hHigh : y < 256) : ⌊y⌋ < 256 := Int.floor_lt.mpr (by exact_mod_cast hHigh)

theorem intOf_of_byte (hLow : -1 < y) (hHigh : y < 256) :
    intOf y = some (Int64.ofInt ⌊y⌋.toNat) := by
  have hFloor := floor_lt hHigh
  by_cases hSign : 0 ≤ y
  · have hNonneg : 0 ≤ ⌊y⌋ := Int.floor_nonneg.mpr hSign
    rw [intOf, if_pos hSign, Int.toNat_of_nonneg hNonneg]
    exact if_pos ⟨by omega, by omega⟩
  · -- A small negative number is written as zero.
    have hCeil : ⌈y⌉ = 0 := by
      rw [Int.ceil_eq_zero_iff]
      exact ⟨hLow, (not_le.mp hSign).le⟩
    have hNeg : ⌊y⌋ < 0 := Int.floor_lt.mpr (by exact_mod_cast not_le.mp hSign)
    have hByte : ⌊y⌋.toNat = 0 := by omega
    rw [intOf, if_neg hSign, hCeil, hByte]
    exact if_pos ⟨by norm_num, by norm_num⟩

theorem abs_byte_sub_lt (hLow : -1 < y) : |(⌊y⌋.toNat : ℚ) - y| < 1 := by
  by_cases hSign : 0 ≤ y
  · have hByte : (⌊y⌋.toNat : ℤ) = ⌊y⌋ := Int.toNat_of_nonneg (Int.floor_nonneg.mpr hSign)
    have hCast : (⌊y⌋.toNat : ℚ) = ⌊y⌋ := by exact_mod_cast hByte
    have hLe := Int.floor_le y
    have hLt := Int.lt_floor_add_one y
    rw [hCast, abs_lt]
    exact ⟨by linarith, by linarith⟩
  · have hNeg : ⌊y⌋ < 0 := Int.floor_lt.mpr (by exact_mod_cast not_le.mp hSign)
    have hByte : ⌊y⌋.toNat = 0 := by omega
    rw [hByte, abs_lt]
    push_cast
    exact ⟨by linarith, by linarith⟩

/-- A component has at least two digits. -/
theorem two_le_length_string (component : Int64) : 2 ≤ (string component).length := by
  simp only [string]
  split_ifs with hNone hOne
  · exact le_rfl
  · exact le_of_eq (congrArg Nat.succ hOne).symm
  · omega

/-- Of the numbers near the bytes only those that are cut to a byte have two digits. -/
theorem byte_of_string {r : Int64} (hLow : -2 < y) (hHigh : y < 257) (hInt : intOf y = some r)
    (hLength : (string r).length ≤ 2) : -1 < y ∧ y < 256 := by
  have hSmall : r.toBitVec.toNat % 2 ^ 32 < 256 := by
    refine (Nat.length_toDigits_le_iff (b := 16) (k := 2) (by norm_num) (by norm_num)).mp ?_
    simp only [string] at hLength
    split_ifs at hLength with hNone hOne
    · omega
    · omega
    · exact hLength
  rw [intOf] at hInt
  split_ifs at hInt with hSign hFits hFits
  · obtain rfl := Option.some.inj hInt
    refine ⟨by linarith, ?_⟩
    by_contra hNot
    have hFloor : ⌊y⌋ = 256 := by
      rw [Int.floor_eq_iff]
      push_cast
      exact ⟨not_lt.mp hNot, by linarith⟩
    rw [hFloor] at hSmall
    revert hSmall
    decide
  · obtain rfl := Option.some.inj hInt
    refine ⟨?_, by linarith⟩
    by_contra hNot
    have hCeil : ⌈y⌉ = -1 := by
      rw [Int.ceil_eq_iff]
      push_cast
      exact ⟨by linarith, not_lt.mp hNot⟩
    rw [hCeil] at hSmall
    revert hSmall
    decide

end Byte

/-! ## Bytes of components -/

/-- The component is written as a byte. -/
def InGamut (c : Double) : Prop := ∃ y, binary64.mul c (.fin 255) = .fin y ∧ -1 < y ∧ y < 256

/-- The byte of a component in the gamut. -/
def byteOf (c : Double) : ℕ :=
  match binary64.mul c (.fin 255) with
  | .fin y => ⌊y⌋.toNat
  | _ => 0

/-- Two components that differ by hardly more than one step of a byte. -/
def Near (c d : Double) : Prop := ∃ x y, c = .fin x ∧ d = .fin y ∧ |x - y| < 1 / 254

section Component

variable {c : Double}

theorem byteOf_eq {y : ℚ} (hy : binary64.mul c (.fin 255) = .fin y) : byteOf c = ⌊y⌋.toNat := by
  rw [byteOf, hy]

theorem byteOf_lt (hc : InGamut c) : byteOf c < 256 := by
  obtain ⟨y, hy, -, hHigh⟩ := hc
  have hFloor := floor_lt hHigh
  rw [byteOf_eq hy]
  omega

theorem intOf_inGamut (hc : InGamut c) :
    intOfDouble (binary64.mul c (.fin 255)) = some (Int64.ofInt (byteOf c)) := by
  obtain ⟨y, hy, hLow, hHigh⟩ := hc
  rw [byteOf_eq hy, hy]
  exact intOf_of_byte hLow hHigh

/-- The product of a component with 255. -/
theorem exists_scaled {x : ℚ} {j : ℕ} (hj : j ≤ 53) (hx : |x * 255| < 2 ^ j) :
    ∃ y, binary64.mul (.fin x) (.fin 255) = .fin y ∧ |y - x * 255| ≤ 2 ^ ((j : ℤ) - 54) := by
  rw [FloatFormat.mul_fin]
  exact Binary64.exists_ofRat_near hj hx

/-- A component in the gamut is a number, and the product is off by a rounding error. -/
theorem exists_of_inGamut (hc : InGamut c) : ∃ x y, c = .fin x ∧
    binary64.mul c (.fin 255) = .fin y ∧ -1 < y ∧ y < 256 ∧ |y - x * 255| ≤ 2 ^ (-46 : ℤ) := by
  obtain ⟨y, hy, hLow, hHigh⟩ := hc
  cases c with
  | nan => cases hy
  | inf negative =>
    rw [FloatFormat.mul] at hy
    split_ifs at hy
  | fin x =>
    rw [FloatFormat.mul_fin, FloatFormat.ofRat] at hy
    split_ifs at hy
    obtain rfl := Double.fin.inj hy
    have h256 : binary64.Representable 256 := by
      exact_mod_cast Binary64.representable_natCast (n := 256) (by norm_num)
    have hOne : binary64.Representable (-1) := ⟨-1, 0, by norm_num, by norm_num, by norm_num⟩
    have hBelow : x * 255 < 256 := by
      by_contra hNot
      have hLe : 256 ≤ binary64.round (x * 255) := FloatFormat.le_round h256 (not_lt.mp hNot)
      linarith
    have hAbove : -1 < x * 255 := by
      by_contra hNot
      have hLe : binary64.round (x * 255) ≤ -1 := FloatFormat.round_le hOne (not_lt.mp hNot)
      linarith
    have hPower : (2 : ℚ) ^ (8 : ℤ) = 256 := by norm_num
    have hBound : |x * 255| < 2 ^ (8 : ℤ) := by
      rw [hPower, abs_lt]
      exact ⟨by linarith, hBelow⟩
    refine ⟨x, _, rfl, FloatFormat.mul_fin x 255 |>.trans (by rw [FloatFormat.ofRat, if_pos ‹_›]),
      hLow, hHigh, ?_⟩
    rw [abs_sub_comm]
    exact Binary64.abs_sub_round_le (j := 8) (by norm_num) hBound

/-- The quotient of a byte, with its rounding error. -/
theorem abs_quotient_sub_le {b : ℕ} (hb : b < 256) :
    |Binary64.round (b / 255) - b / 255| ≤ 2 ^ (-53 : ℤ) := by
  have hbQ : (b : ℚ) + 1 ≤ 256 := by exact_mod_cast hb
  rw [abs_sub_comm]
  refine Binary64.abs_sub_round_le (j := 1) (by norm_num) ?_
  rw [abs_of_nonneg (by positivity), div_lt_iff₀ (by norm_num), zpow_one]
  linarith

theorem near_byteOf (hc : InGamut c) :
    Near (binary64.div (binary64.ofRat (byteOf c)) (.fin 255)) c := by
  obtain ⟨x, y, hx, hy, hLow, hHigh, hScaled⟩ := exists_of_inGamut hc
  refine ⟨_, x, div_byte (byteOf_lt hc), hx, ?_⟩
  have hQuotient := abs_quotient_sub_le (byteOf_lt hc)
  have hByte := abs_byte_sub_lt hLow
  rw [byteOf_eq hy] at hQuotient ⊢
  norm_num [abs_le] at hQuotient hScaled
  rw [abs_lt] at hByte ⊢
  exact ⟨by linarith [hQuotient.1, hScaled.1, hByte.1],
    by linarith [hQuotient.2, hScaled.2, hByte.2]⟩

/-- The product of a component near a byte. -/
theorem scaled_of_near {b : ℕ} (hb : b < 256)
    (hNear : Near (binary64.div (binary64.ofRat b) (.fin 255)) c) :
    ∃ y, binary64.mul c (.fin 255) = .fin y ∧ -2 < y ∧ y < 257 := by
  obtain ⟨q, x, hq, rfl, hNear⟩ := hNear
  have hEq : q = Binary64.round (b / 255) := Double.fin.inj (hq.symm.trans (div_byte hb))
  have hQuotient := abs_quotient_sub_le hb
  have hbQ : (b : ℚ) + 1 ≤ 256 := by exact_mod_cast hb
  have hNonneg : (0 : ℚ) ≤ b := by positivity
  rw [← hEq] at hQuotient
  norm_num [abs_le] at hQuotient
  rw [abs_lt] at hNear
  have hPower : (2 : ℚ) ^ 9 = 512 := by norm_num
  have hBound : |x * 255| < 2 ^ 9 := by
    rw [hPower, abs_lt]
    exact ⟨by linarith [hQuotient.1, hNear.2], by linarith [hQuotient.2, hNear.1]⟩
  obtain ⟨y, hy, hScaled⟩ := exists_scaled (by norm_num) hBound
  norm_num [abs_le] at hScaled
  exact ⟨y, hy, by linarith [hScaled.1, hQuotient.1, hNear.2],
    by linarith [hScaled.2, hQuotient.2, hNear.1]⟩

end Component

/-! ## Whole colours -/

/-- The integer whose colour has these bytes. -/
def codeOf (color : Components) : Int64 :=
  Int64.ofInt (byteOf color.red * 65536 + byteOf color.green * 256 + byteOf color.blue : ℕ)

structure AllInGamut (color : Components) : Prop where
  red : InGamut color.red
  green : InGamut color.green
  blue : InGamut color.blue

/-- The text of the colour denotes `n`, whose colour is near it and has the same text. -/
structure ReadsBack (color : Components) (n : Int64) : Prop where
  hex : color.hex binary64 = some (some n)
  red : Near (nnhexDouble binary64 n color.alpha).red color.red
  green : Near (nnhexDouble binary64 n color.alpha).green color.green
  blue : Near (nnhexDouble binary64 n color.alpha).blue color.blue
  again : ∀ leading, (nnhexDouble binary64 n color.alpha).hexString binary64 leading =
    color.hexString binary64 leading

section Colour

variable {color : Components} {n : Int64}

/-- The components of the colour of an integer. -/
theorem nnhexDouble_eq (n : Int64) (alpha : Double) : nnhexDouble binary64 n alpha =
    ⟨binary64.div (binary64.ofRat (byteAt n 16)) (.fin 255),
      binary64.div (binary64.ofRat (byteAt n 8)) (.fin 255),
      binary64.div (binary64.ofRat (byteAt n 0)) (.fin 255), alpha⟩ := by
  obtain ⟨hRed, hGreen, hBlue⟩ := components_eq n
  rw [nnhexDouble, hRed, hGreen, hBlue]
  rfl

theorem byteAt_codeOf (hGamut : AllInGamut color) : byteAt (codeOf color) 16 = byteOf color.red ∧
    byteAt (codeOf color) 8 = byteOf color.green ∧ byteAt (codeOf color) 0 = byteOf color.blue := by
  have hRed := byteOf_lt hGamut.red
  have hGreen := byteOf_lt hGamut.green
  have hBlue := byteOf_lt hGamut.blue
  have hNat : (codeOf color).toBitVec.toNat =
      byteOf color.red * 65536 + byteOf color.green * 256 + byteOf color.blue := by
    rw [codeOf, Int64.toBitVec_ofInt, BitVec.toNat_ofInt]
    omega
  unfold byteAt
  rw [hNat]
  omega

theorem codeOf_toInt (hGamut : AllInGamut color) :
    0 ≤ (codeOf color).toInt ∧ (codeOf color).toInt < 2 ^ 24 := by
  have hRed := byteOf_lt hGamut.red
  have hGreen := byteOf_lt hGamut.green
  have hBlue := byteOf_lt hGamut.blue
  rw [codeOf, Int64.toInt_ofInt_of_le (by omega) (by omega)]
  omega

theorem rgba_codeOf (hGamut : AllInGamut color) :
    (nnhexDouble binary64 (codeOf color) color.alpha).rgba binary64 = color.rgba binary64 := by
  obtain ⟨hRed, hGreen, hBlue⟩ := byteAt_codeOf hGamut
  rw [rgba_double, hRed, hGreen, hBlue, Components.rgba, rgbaOf, intOf_inGamut hGamut.red,
    intOf_inGamut hGamut.green, intOf_inGamut hGamut.blue]
  rfl

theorem readsBack_codeOf (hGamut : AllInGamut color) : ReadsBack color (codeOf color) := by
  obtain ⟨hRed, hGreen, hBlue⟩ := byteAt_codeOf hGamut
  have hText (leading : String) :
      (nnhexDouble binary64 (codeOf color) color.alpha).hexString binary64 leading =
        color.hexString binary64 leading := by
    rw [Components.hexString, Components.hexString, rgba_codeOf hGamut]
  refine ⟨?_, ?_, ?_, ?_, hText⟩
  · obtain ⟨m, hHex, hMod⟩ := hex_double (codeOf color) color.alpha
    obtain ⟨hNonneg, hLt⟩ := codeOf_toInt hGamut
    rw [Int.emod_eq_of_lt hNonneg hLt] at hMod
    rw [Components.hex, hText] at hHex
    rw [← Int64.toInt_inj.mp hMod]
    exact hHex
  · rw [nnhexDouble_eq, hRed]
    exact near_byteOf hGamut.red
  · rw [nnhexDouble_eq, hGreen]
    exact near_byteOf hGamut.green
  · rw [nnhexDouble_eq, hBlue]
    exact near_byteOf hGamut.blue

/-- A number near the bytes has a whole part. -/
theorem exists_intOf {y : ℚ} (hLow : -2 < y) (hHigh : y < 257) : ∃ r, intOf y = some r := by
  refine ⟨_, if_pos ?_⟩
  split_ifs with hSign
  · have hNonneg : 0 ≤ ⌊y⌋ := Int.floor_nonneg.mpr hSign
    have hFloor : ⌊y⌋ < 257 := Int.floor_lt.mpr (by exact_mod_cast hHigh)
    omega
  · have hCeil : ⌈y⌉ ≤ 0 := Int.ceil_le.mpr (by push_cast; linarith)
    have hAbove : -2 < ⌈y⌉ := Int.lt_ceil.mpr (by push_cast; exact hLow)
    omega

/-- A colour near that of an integer, with the same text, is in the gamut. -/
theorem ReadsBack.allInGamut (hBack : ReadsBack color n) : AllInGamut color := by
  have hNear := hBack.red
  have hNear' := hBack.green
  have hNear'' := hBack.blue
  rw [nnhexDouble_eq] at hNear hNear' hNear''
  obtain ⟨y, hy, hLow, hHigh⟩ := scaled_of_near (byteAt_lt n 16) hNear
  obtain ⟨y', hy', hLow', hHigh'⟩ := scaled_of_near (byteAt_lt n 8) hNear'
  obtain ⟨y'', hy'', hLow'', hHigh''⟩ := scaled_of_near (byteAt_lt n 0) hNear''
  obtain ⟨r, hr⟩ := exists_intOf hLow hHigh
  obtain ⟨g, hg⟩ := exists_intOf hLow' hHigh'
  obtain ⟨b, hb⟩ := exists_intOf hLow'' hHigh''
  -- Both texts are of six characters, so each component has two digits.
  have hRgba : color.rgba binary64 = some (r, g, b, color.alpha) := by
    rw [Components.rgba, rgbaOf, hy, hy', hy'']
    simp only [intOfDouble, hr, hg, hb]
    rfl
  have hAgain := hBack.again ""
  rw [Components.hexString, rgba_double, textOf_bytes (byteAt_lt n 16) (byteAt_lt n 8)
    (byteAt_lt n 0), Components.hexString, hRgba] at hAgain
  have hLength := congrArg (fun text => text.elim 0 fun s => s.toList.length) hAgain
  have hSix : (string r ++ string g ++ string b).length = 6 := by
    simpa [textOf, byteDigits] using hLength.symm
  rw [List.length_append, List.length_append] at hSix
  have hr2 := two_le_length_string r
  have hg2 := two_le_length_string g
  have hb2 := two_le_length_string b
  exact ⟨⟨y, hy, byte_of_string hLow hHigh hr (by omega)⟩,
    ⟨y', hy', byte_of_string hLow' hHigh' hg (by omega)⟩,
    ⟨y'', hy'', byte_of_string hLow'' hHigh'' hb (by omega)⟩⟩

/-- **Reading back.** The text of a colour denotes a colour near it, with the same text, exactly
when each component is written as a byte. -/
theorem readsBack_iff (color : Components) : (∃ n, ReadsBack color n) ↔ AllInGamut color := by
  constructor
  · rintro ⟨n, hBack⟩
    exact hBack.allInGamut
  · intro hGamut
    exact ⟨codeOf color, readsBack_codeOf hGamut⟩

end Colour

/-! ## Gradients -/

/-- A number from 0 to 1. -/
def InUnit (c : Double) : Prop := ∃ x, c = .fin x ∧ 0 ≤ x ∧ x ≤ 1

structure AllInUnit (color : Components) : Prop where
  red : InUnit color.red
  green : InUnit color.green
  blue : InUnit color.blue

section Gradient

variable {c d fraction : Double} {x y : ℚ}

/-- Without rounding a component of the gradient lies between the two components. -/
theorem between (h0 : 0 ≤ y) (h1 : y ≤ 1) (u v : ℚ) :
    min u v ≤ u + (v - u) * y ∧ u + (v - u) * y ≤ max u v := by
  rcases le_total u v with hLe | hLe
  · have hStep : 0 ≤ (v - u) * y := mul_nonneg (by linarith) h0
    have hWhole : (v - u) * y ≤ v - u := mul_le_of_le_one_right (by linarith) h1
    rw [min_eq_left hLe, max_eq_right hLe]
    exact ⟨by linarith, by linarith⟩
  · have hStep : 0 ≤ (u - v) * y := mul_nonneg (by linarith) h0
    have hWhole : (u - v) * y ≤ u - v := mul_le_of_le_one_right (by linarith) h1
    rw [min_eq_right hLe, max_eq_left hLe]
    exact ⟨by linarith, by linarith⟩

/-- The three roundings of a component of the gradient. -/
theorem mix_near {u v s : ℚ} (hu : 0 ≤ u ∧ u ≤ 1) (hv : 0 ≤ v ∧ v ≤ 1) (hs : 0 ≤ s ∧ s ≤ 1) :
    ∃ z, mix binary64 (.fin u) (.fin v) (.fin s) = .fin z ∧
      |z - (u + (v - u) * s)| ≤ 2 ^ (-51 : ℤ) := by
  have hDifference : |v - u| < 2 ^ 1 := by
    rw [abs_lt]
    exact ⟨by linarith, by linarith⟩
  obtain ⟨p, hp, hpNear⟩ := Binary64.exists_ofRat_near (by norm_num) hDifference
  have hScaled : |p * s - (v - u) * s| ≤ 2 ^ (((1 : ℕ) : ℤ) - 54) := by
    rw [← sub_mul, abs_mul, abs_of_nonneg hs.1]
    exact (mul_le_of_le_one_right (abs_nonneg _) hs.2).trans hpNear
  obtain ⟨hLow, hHigh⟩ := between hs.1 hs.2 u v
  have hMin : 0 ≤ min u v := le_min hu.1 hv.1
  have hMax : max u v ≤ 1 := max_le hu.2 hv.2
  norm_num [abs_le] at hScaled
  have hProduct : |p * s| < 2 ^ 1 := by
    rw [abs_lt]
    exact ⟨by linarith [hScaled.1], by linarith [hScaled.2]⟩
  obtain ⟨q, hq, hqNear⟩ := Binary64.exists_ofRat_near (by norm_num) hProduct
  norm_num [abs_le] at hqNear
  have hSum : |u + q| < 2 ^ 2 := by
    rw [abs_lt]
    exact ⟨by linarith [hScaled.1, hqNear.1], by linarith [hScaled.2, hqNear.2]⟩
  obtain ⟨z, hz, hzNear⟩ := Binary64.exists_ofRat_near (by norm_num) hSum
  norm_num [abs_le] at hzNear
  refine ⟨z, ?_, ?_⟩
  · show binary64.add (.fin u) (binary64.mul (binary64.ofRat (v - u)) (.fin s)) = .fin z
    rw [hp, FloatFormat.mul_fin, hq, FloatFormat.add_fin, hz]
  · norm_num [abs_le]
    exact ⟨by linarith [hScaled.1, hqNear.1, hzNear.1], by linarith [hScaled.2, hqNear.2, hzNear.2]⟩

/-- The product with 255 of a number that is hardly outside of 0 to 1. -/
theorem scaled_of_unit (hLow : -1 / 256 ≤ x) (hHigh : x ≤ 257 / 256) :
    ∃ y, binary64.mul (.fin x) (.fin 255) = .fin y ∧ |y - x * 255| ≤ 2 ^ (-46 : ℤ) := by
  have hPower : (2 : ℚ) ^ 8 = 256 := by norm_num
  have hBound : |x * 255| < 2 ^ 8 := by
    rw [hPower, abs_lt]
    exact ⟨by linarith, by linarith⟩
  exact exists_scaled (j := 8) (by norm_num) hBound

theorem inGamut_of_unit (hLow : -1 / 256 ≤ x) (hHigh : x ≤ 257 / 256) : InGamut (.fin x) := by
  obtain ⟨y, hy, hNear⟩ := scaled_of_unit hLow hHigh
  norm_num [abs_le] at hNear
  exact ⟨y, hy, by linarith [hNear.1], by linarith [hNear.2]⟩

theorem InUnit.inGamut (hc : InUnit c) : InGamut c := by
  obtain ⟨x, rfl, h0, h1⟩ := hc
  exact inGamut_of_unit (by linarith) (by linarith)

/-- A component that is not much larger has a byte that is larger by at most one. -/
theorem byteOf_le_succ {u v : ℚ} (hu : -1 / 256 ≤ u) (hu' : u ≤ 257 / 256) (hv : -1 / 256 ≤ v)
    (hv' : v ≤ 257 / 256) (hNear : u ≤ v + 1 / 512) : byteOf (.fin u) ≤ byteOf (.fin v) + 1 := by
  obtain ⟨x, hx, hxNear⟩ := scaled_of_unit hu hu'
  obtain ⟨y, hy, hyNear⟩ := scaled_of_unit hv hv'
  norm_num [abs_le] at hxNear hyNear
  have hLe : x ≤ y + 1 := by linarith [hxNear.2, hyNear.1]
  have hFloor : ⌊x⌋ ≤ ⌊y⌋ + 1 := by
    rw [← Int.floor_add_one]
    exact Int.floor_le_floor hLe
  rw [byteOf_eq hx, byteOf_eq hy]
  omega

/-- The byte of a component of the gradient lies between the two bytes, up to one. -/
theorem mix_spec (hc : InUnit c) (hd : InUnit d) (hFraction : InUnit fraction) :
    InGamut (mix binary64 c d fraction) ∧
      min (byteOf c) (byteOf d) ≤ byteOf (mix binary64 c d fraction) + 1 ∧
      byteOf (mix binary64 c d fraction) ≤ max (byteOf c) (byteOf d) + 1 := by
  obtain ⟨u, rfl, hu⟩ := hc
  obtain ⟨v, rfl, hv⟩ := hd
  obtain ⟨s, rfl, hs⟩ := hFraction
  obtain ⟨z, hz, hNear⟩ := mix_near hu hv hs
  obtain ⟨hLow, hHigh⟩ := between hs.1 hs.2 u v
  have hMin : 0 ≤ min u v := le_min hu.1 hv.1
  have hMax : max u v ≤ 1 := max_le hu.2 hv.2
  norm_num [abs_le] at hNear
  have hzLow : -1 / 256 ≤ z := by linarith [hNear.1]
  have hzHigh : z ≤ 257 / 256 := by linarith [hNear.2]
  rw [hz]
  refine ⟨inGamut_of_unit hzLow hzHigh, ?_, ?_⟩
  · rcases min_choice u v with hEq | hEq
    · rw [hEq] at hLow
      exact (min_le_left _ _).trans (byteOf_le_succ (by linarith) (by linarith) hzLow hzHigh
        (by linarith [hNear.1]))
    · rw [hEq] at hLow
      exact (min_le_right _ _).trans (byteOf_le_succ (by linarith) (by linarith) hzLow hzHigh
        (by linarith [hNear.1]))
  · rcases max_choice u v with hEq | hEq
    · rw [hEq] at hHigh
      exact (byteOf_le_succ hzLow hzHigh (by linarith) (by linarith)
        (by linarith [hNear.2])).trans (Nat.succ_le_succ (le_max_left _ _))
    · rw [hEq] at hHigh
      exact (byteOf_le_succ hzLow hzHigh (by linarith) (by linarith)
        (by linarith [hNear.2])).trans (Nat.succ_le_succ (le_max_right _ _))

/-- **Gradients.** Two colours with components from 0 to 1 and every colour of the gradient
between them are read back, and each byte of the gradient lies between those of the two colours,
up to one. -/
theorem gradient_readsBack (startColor endColor : Components) (hStart : AllInUnit startColor)
    (hEnd : AllInUnit endColor) (hFraction : InUnit fraction) :
    ∃ n m k, ReadsBack startColor n ∧
      ReadsBack (gradient binary64 startColor endColor fraction) m ∧ ReadsBack endColor k ∧
      ∀ j ∈ [16, 8, 0], min (byteAt n j) (byteAt k j) ≤ byteAt m j + 1 ∧
        byteAt m j ≤ max (byteAt n j) (byteAt k j) + 1 := by
  obtain ⟨hRed, hRedBytes⟩ := mix_spec hStart.red hEnd.red hFraction
  obtain ⟨hGreen, hGreenBytes⟩ := mix_spec hStart.green hEnd.green hFraction
  obtain ⟨hBlue, hBlueBytes⟩ := mix_spec hStart.blue hEnd.blue hFraction
  have hStartGamut : AllInGamut startColor :=
    ⟨hStart.red.inGamut, hStart.green.inGamut, hStart.blue.inGamut⟩
  have hEndGamut : AllInGamut endColor := ⟨hEnd.red.inGamut, hEnd.green.inGamut, hEnd.blue.inGamut⟩
  have hGamut : AllInGamut (gradient binary64 startColor endColor fraction) :=
    ⟨hRed, hGreen, hBlue⟩
  refine ⟨codeOf startColor, codeOf (gradient binary64 startColor endColor fraction),
    codeOf endColor, readsBack_codeOf hStartGamut, readsBack_codeOf hGamut,
    readsBack_codeOf hEndGamut, ?_⟩
  obtain ⟨hn16, hn8, hn0⟩ := byteAt_codeOf hStartGamut
  obtain ⟨hm16, hm8, hm0⟩ := byteAt_codeOf hGamut
  obtain ⟨hk16, hk8, hk0⟩ := byteAt_codeOf hEndGamut
  simp only [List.mem_cons, List.not_mem_nil, or_false]
  rintro j (rfl | rfl | rfl)
  · rw [hn16, hm16, hk16]
    exact hRedBytes
  · rw [hn8, hm8, hk8]
    exact hGreenBytes
  · rw [hn0, hm0, hk0]
    exact hBlueBytes

/-- The quotient of a byte is a component from 0 to 1. -/
theorem inUnit_byte {b : ℕ} (hb : b < 256) :
    InUnit (binary64.div (binary64.ofRat b) (.fin 255)) := by
  obtain ⟨hLow, hHigh⟩ := quotient_mem hb
  exact ⟨_, div_byte hb, FloatFormat.le_round binary64_holdsNats.zero.1 hLow,
    FloatFormat.round_le binary64_holdsNats.one.1 hHigh⟩

theorem allInUnit_nnhex (n : Int64) (alpha : Double) :
    AllInUnit (nnhexDouble binary64 n alpha) := by
  rw [nnhexDouble_eq]
  exact ⟨inUnit_byte (byteAt_lt n 16), inUnit_byte (byteAt_lt n 8), inUnit_byte (byteAt_lt n 0)⟩

/-- The end of the gradient from `#232323` to `#010101`. -/
theorem gradient_readsBack_end :
    ∃ n m k, ReadsBack (nnhexDouble binary64 0x232323 (.fin 1)) n ∧
      ReadsBack (gradient binary64 (nnhexDouble binary64 0x232323 (.fin 1))
        (nnhexDouble binary64 0x010101 (.fin 1)) (.fin 1)) m ∧
      ReadsBack (nnhexDouble binary64 0x010101 (.fin 1)) k ∧
      ∀ j ∈ [16, 8, 0], min (byteAt n j) (byteAt k j) ≤ byteAt m j + 1 ∧
        byteAt m j ≤ max (byteAt n j) (byteAt k j) + 1 := by
  have hOne : InUnit (.fin 1) := ⟨1, rfl, by norm_num, le_rfl⟩
  exact gradient_readsBack (nnhexDouble binary64 0x232323 (.fin 1))
    (nnhexDouble binary64 0x010101 (.fin 1)) (allInUnit_nnhex _ _) (allInUnit_nnhex _ _) hOne

end Gradient

end UIColor

end LeigodAPM
