import LeigodAPM.Foundation.HexText
import Mathlib.Data.Rat.Floor
import Mathlib.Tactic.Linarith

/-!
# Colours from hexadecimal numbers

A colour is made of three bytes of an integer, and written as six hexadecimal digits after
a prefix of the caller's choice. The initialiser from a text removes the prefixes "0x" and
"#" and reads the number, but its last statement is `return nil`, also after a number has
been read.

* `hexString_encodes`: the text of a colour is read back as the integer modulo `2 ^ 24`.
* `decodes_iff`: the initialiser agrees with the number that a text denotes exactly when it
  denotes none, and no colour comes back from its own text.
-/

namespace LeigodAPM

open Foundation

structure UIColor where
  red : ℚ
  green : ℚ
  blue : ℚ
  alpha : ℚ
  deriving DecidableEq

namespace UIColor

def nnhex (nnhex : Int64) (alpha : ℚ) : UIColor where
  red := ((nnhex &&& 0xFF0000) >>> 16).toInt / 255
  green := ((nnhex &&& 0x00FF00) >>> 8).toInt / 255
  blue := (nnhex &&& 0x0000FF).toInt / 255
  alpha := alpha

/-- The text without its prefixes. -/
def formatted (nnhexString : String) : List Char :=
  removeOccurrences '#' [] (removeOccurrences '0' ['x'] nnhexString.toList)

/-- `init?(nnhexString:alpha:)`; `none` is `nil`. -/
def nnhexString (nnhexString : String) (alpha : ℚ) : Option UIColor :=
  match intOfHex (formatted nnhexString) with
  | some hex =>
    -- The `return nil` after the `if let` is reached in this case too.
    let _delegated := nnhex hex alpha
    none
  | none => none

/-- `Int(x)` drops the fraction; `none` is the trap of a value that does not fit. -/
def intOf (x : ℚ) : Option Int64 :=
  let whole := if 0 ≤ x then ⌊x⌋ else ⌈x⌉
  if -2 ^ 63 ≤ whole ∧ whole < 2 ^ 63 then some (Int64.ofInt whole) else none

/-- The three bytes and the alpha of a colour, whose components are scaled to a byte by `scale`. -/
def rgbaOf {α : Type} (scale : α → Option Int64) (red green blue alpha : α) :
    Option (Int64 × Int64 × Int64 × α) := do
  let r ← scale red
  let g ← scale green
  let b ← scale blue
  pure (r, g, b, alpha)

def rgba (color : UIColor) : Option (Int64 × Int64 × Int64 × ℚ) :=
  rgbaOf (fun x => intOf (x * 255)) color.red color.green color.blue color.alpha

/-- `%x` prints the low 32 bits. -/
def string (component : Int64) : List Char :=
  let result := Nat.toDigits 16 (component.toBitVec.toNat % 2 ^ 32)
  if result.length = 0 then ['0', '0']
  else if result.length = 1 then '0' :: result
  else result

/-- The text of three bytes after a prefix. -/
def textOf {α : Type} (rgba : Option (Int64 × Int64 × Int64 × α)) (leading : String) :
    Option String := do
  let (r, g, b, _) ← rgba
  let result := string r ++ string g ++ string b
  pure (leading ++ String.ofList (result.map Char.toUpper))

/-- `hexString(prefix:)`. -/
def hexString (color : UIColor) (leading : String) : Option String := textOf color.rgba leading

/-- The number that a text denotes, inside the trap of the text. -/
def numberOf (text : Option String) : Option (Option Int64) :=
  text.map fun text => intOfHex text.toList

/-- `hex()` -/
def hex (color : UIColor) : Option (Option Int64) := numberOf (color.hexString "")

/-! ## Bytes -/

/-- The byte of the two's complement form that starts at bit `k`. -/
def byteAt (n : Int64) (k : ℕ) : ℕ := n.toBitVec.toNat / 2 ^ k % 256

theorem byteAt_lt (n : Int64) (k : ℕ) : byteAt n k < 256 := Nat.mod_lt _ (by decide)

theorem toInt_and (n : Int64) {mask : Int64} (hMask : mask.toBitVec.toNat < 2 ^ 63) :
    (n &&& mask).toBitVec.toInt = (n.toBitVec.toNat &&& mask.toBitVec.toNat : ℕ) := by
  have hLe : n.toBitVec.toNat &&& mask.toBitVec.toNat ≤ mask.toBitVec.toNat := Nat.and_le_right
  rw [Int64.toBitVec_and, BitVec.toInt_eq_toNat_of_lt]
  · rw [BitVec.toNat_and]
  · rw [BitVec.toNat_and]
    omega

/-- A mask of one byte, shifted down. -/
theorem and_shiftRight (x k : ℕ) : (x &&& 255 * 2 ^ k) >>> k = x / 2 ^ k % 256 := by
  have hMask : (255 * 2 ^ k) >>> k = 2 ^ 8 - 1 := by
    rw [Nat.shiftRight_eq_div_pow, Nat.mul_div_cancel _ (Nat.two_pow_pos k)]
    rfl
  rw [Nat.shiftRight_and_distrib, hMask, Nat.and_two_pow_sub_one_eq_mod, Nat.shiftRight_eq_div_pow]

theorem toInt_and_shiftRight (n : Int64) {mask shift : Int64} {k : ℕ}
    (hMask : mask.toBitVec.toNat = 255 * 2 ^ k) (hSmall : mask.toBitVec.toNat < 2 ^ 63)
    (hShift : (shift.toBitVec.smod 64).toNat = k) :
    ((n &&& mask) >>> shift).toInt = byteAt n k := by
  rw [← Int64.toInt_toBitVec, Int64.toBitVec_shiftRight, BitVec.toInt_sshiftRight', hShift,
    toInt_and n hSmall, hMask, byteAt, ← and_shiftRight]
  rfl

/-- The three numbers that `init(nnhex:alpha:)` divides by 255. -/
theorem components_eq (n : Int64) : ((n &&& 0xFF0000) >>> 16).toInt = byteAt n 16 ∧
    ((n &&& 0x00FF00) >>> 8).toInt = byteAt n 8 ∧ (n &&& 0x0000FF).toInt = byteAt n 0 := by
  refine ⟨toInt_and_shiftRight n (by decide) (by decide) (by decide),
    toInt_and_shiftRight n (by decide) (by decide) (by decide), ?_⟩
  rw [← Int64.toInt_toBitVec, toInt_and n (by decide), byteAt, ← and_shiftRight]
  rfl

theorem nnhex_eq (n : Int64) (alpha : ℚ) : nnhex n alpha =
    ⟨(byteAt n 16 : ℚ) / 255, (byteAt n 8 : ℚ) / 255, (byteAt n 0 : ℚ) / 255, alpha⟩ := by
  obtain ⟨hRed, hGreen, hBlue⟩ := components_eq n
  rw [nnhex, hRed, hGreen, hBlue]
  rfl

/-- The three bytes make up the integer modulo `2 ^ 24`. -/
theorem bytes_eq (n : Int64) : ((byteAt n 16 * 65536 + byteAt n 8 * 256 + byteAt n 0 : ℕ) : ℤ) =
    n.toInt % 2 ^ 24 := by
  have hLt := n.toBitVec.isLt
  have hInt : n.toInt = n.toBitVec.toNat ∨ n.toInt = n.toBitVec.toNat - 2 ^ 64 := by
    rw [← Int64.toInt_toBitVec, BitVec.toInt_eq_toNat_cond]
    split
    · exact Or.inl rfl
    · exact Or.inr rfl
  unfold byteAt
  omega

/-! ## Writing -/

/-- Scaling a byte to a component and back loses nothing. -/
theorem intOf_byte {b : ℕ} (hb : b < 256) :
    intOf ((b : ℚ) / 255 * 255) = some (Int64.ofInt b) := by
  have hScale : (b : ℚ) / 255 * 255 = b := by ring
  have hNonneg : (0 : ℚ) ≤ b := by positivity
  rw [intOf, hScale, if_pos hNonneg, Int.floor_natCast]
  exact if_pos ⟨by omega, by omega⟩

theorem rgba_nnhex (n : Int64) (alpha : ℚ) : (nnhex n alpha).rgba =
    some (Int64.ofInt (byteAt n 16), Int64.ofInt (byteAt n 8), Int64.ofInt (byteAt n 0),
      alpha) := by
  rw [nnhex_eq, rgba, rgbaOf, intOf_byte (byteAt_lt n 16), intOf_byte (byteAt_lt n 8),
    intOf_byte (byteAt_lt n 0)]
  rfl

/-- A byte is written with two digits. -/
theorem string_byte {b : ℕ} (hb : b < 256) :
    (string (Int64.ofInt b)).map Char.toUpper = byteDigits b := by
  have hLow : (Int64.ofInt (b : ℤ)).toBitVec.toNat % 2 ^ 32 = b := by
    rw [Int64.toBitVec_ofInt, BitVec.toNat_ofInt]
    omega
  rw [string, hLow]
  by_cases hSmall : b < 16
  · rw [Nat.toDigits_of_lt_base hSmall, byteDigits, Nat.div_eq_of_lt hSmall,
      Nat.mod_eq_of_lt hSmall]
    rfl
  · have hHigh : b / 16 < 16 := by omega
    have hDigits : Nat.toDigits 16 b = [(b / 16).digitChar, (b % 16).digitChar] := by
      have hAppend := Nat.toDigits_append_toDigits (b := 16) (n := b / 16) (d := b % 16)
        (by decide) (by omega) (by omega)
      rw [Nat.toDigits_of_lt_base hHigh, Nat.toDigits_of_lt_base (by omega), Nat.div_add_mod]
        at hAppend
      exact hAppend.symm
    rw [hDigits]
    rfl

/-- The text of three bytes: the prefix and their digits. -/
theorem textOf_bytes {α : Type} {r g b : ℕ} (hr : r < 256) (hg : g < 256) (hb : b < 256)
    (alpha : α) (leading : String) :
    textOf (some (Int64.ofInt r, Int64.ofInt g, Int64.ofInt b, alpha)) leading =
      some (leading ++ String.ofList ([r, g, b].flatMap byteDigits)) := by
  show some (leading ++ String.ofList ((string (Int64.ofInt r) ++ string (Int64.ofInt g) ++
    string (Int64.ofInt b)).map Char.toUpper)) = _
  rw [List.map_append, List.map_append, string_byte hr, string_byte hg, string_byte hb]
  simp

theorem hexString_nnhex (n : Int64) (alpha : ℚ) (leading : String) :
    (nnhex n alpha).hexString leading = some (leading ++ String.ofList
      ([byteAt n 16, byteAt n 8, byteAt n 0].flatMap byteDigits)) := by
  rw [hexString, rgba_nnhex]
  exact textOf_bytes (byteAt_lt n 16) (byteAt_lt n 8) (byteAt_lt n 0) alpha leading

/-! ## Reading -/

/-- The prefixes a colour can be written with. -/
inductive HexPrefix
  | empty
  | sharp
  | zeroX

def HexPrefix.text : HexPrefix → String
  | .empty => ""
  | .sharp => "#"
  | .zeroX => "0x"

/-- Digits are neither of the characters that mark a prefix. -/
theorem upperDigit_ne {d : ℕ} (hd : d < 16) : upperDigit d ≠ 'x' ∧ upperDigit d ≠ '#' := by
  have hValue := digitValue_upperDigit d hd
  constructor
  · intro hEq
    rw [hEq] at hValue
    cases hValue
  · intro hEq
    rw [hEq] at hValue
    cases hValue

theorem not_mem_flatMap_byteDigits {bytes : List ℕ} (hBytes : ∀ b ∈ bytes, b < 256) :
    'x' ∉ bytes.flatMap byteDigits ∧ '#' ∉ bytes.flatMap byteDigits := by
  have hDigit : ∀ c ∈ bytes.flatMap byteDigits, c ≠ 'x' ∧ c ≠ '#' := by
    intro c hc
    obtain ⟨b, hb, hDigits⟩ := List.mem_flatMap.mp hc
    have hByte := hBytes b hb
    rcases List.mem_pair.mp hDigits with rfl | rfl
    · exact upperDigit_ne (by omega)
    · exact upperDigit_ne (by omega)
  exact ⟨fun h => (hDigit _ h).1 rfl, fun h => (hDigit _ h).2 rfl⟩

/-- Whatever the prefix, the digits remain. -/
theorem formatted_append (p : HexPrefix) {bytes : List ℕ} (hBytes : ∀ b ∈ bytes, b < 256) :
    formatted (p.text ++ String.ofList (bytes.flatMap byteDigits)) =
      bytes.flatMap byteDigits := by
  obtain ⟨hX, hSharp⟩ := not_mem_flatMap_byteDigits hBytes
  have hKeepX := removeOccurrences_of_not_mem '0' ['x'] (by simp) hX
  have hKeepSharp := removeOccurrences_of_not_mem '#' [] (by simp) hSharp
  rw [formatted, String.toList_append, String.toList_ofList]
  cases p with
  | empty =>
    have hText : HexPrefix.empty.text.toList = [] := rfl
    rw [hText, List.nil_append, hKeepX, hKeepSharp]
  | sharp =>
    have hText : HexPrefix.sharp.text.toList = ['#'] := rfl
    have hNe : 'x' ≠ '#' := by decide
    have hKeep := removeOccurrences_of_not_mem '0' ['x'] (by simp)
      (List.not_mem_cons_of_ne_of_not_mem hNe hX)
    rw [hText, List.singleton_append, hKeep]
    exact (removeOccurrences_append '#' [] _).trans hKeepSharp
  | zeroX =>
    have hText : HexPrefix.zeroX.text.toList = ['0', 'x'] := rfl
    rw [hText, removeOccurrences_append '0' ['x'], hKeepX, hKeepSharp]

/-- The digits of a colour denote the integer modulo `2 ^ 24`. -/
theorem intOfHex_digits (n : Int64) :
    ∃ m, intOfHex ([byteAt n 16, byteAt n 8, byteAt n 0].flatMap byteDigits) = some m ∧
      m.toInt = n.toInt % 2 ^ 24 := by
  have hRed := byteAt_lt n 16
  have hGreen := byteAt_lt n 8
  have hBlue := byteAt_lt n 0
  have hParse := parseDigits_flatMap [byteAt n 16, byteAt n 8, byteAt n 0]
    (by simp [hRed, hGreen, hBlue]) 0
  have hFirst := digitValue_upperDigit (byteAt n 16 / 16) (by omega)
  have hValue : [byteAt n 16, byteAt n 8, byteAt n 0].foldl (fun n b => 256 * n + b) 0 =
      byteAt n 16 * 65536 + byteAt n 8 * 256 + byteAt n 0 := by
    simp only [List.foldl_cons, List.foldl_nil]
    omega
  rw [hValue] at hParse
  refine ⟨_, intOfHex_of_digits hFirst hParse (by omega), ?_⟩
  rw [Int64.toInt_ofInt_of_le (by omega) (by omega), bytes_eq]

/-- The colour depends on the last 24 bits only. -/
theorem nnhex_congr {m n : Int64} (hMod : m.toInt = n.toInt % 2 ^ 24) (alpha : ℚ) :
    nnhex m alpha = nnhex n alpha := by
  have hm := bytes_eq m
  have hn := bytes_eq n
  have hBytes : byteAt m 16 = byteAt n 16 ∧ byteAt m 8 = byteAt n 8 ∧ byteAt m 0 = byteAt n 0 := by
    have h1 := byteAt_lt m 8
    have h2 := byteAt_lt m 0
    have h3 := byteAt_lt n 8
    have h4 := byteAt_lt n 0
    omega
  rw [nnhex_eq, nnhex_eq, hBytes.1, hBytes.2.1, hBytes.2.2]

/-- **Encoding.** The text of a colour, whatever its prefix, denotes the integer modulo
`2 ^ 24`, and that integer the colour. -/
theorem hexString_encodes (n : Int64) (alpha : ℚ) (p : HexPrefix) :
    ∃ text m, (nnhex n alpha).hexString p.text = some text ∧
      intOfHex (formatted text) = some m ∧ m.toInt = n.toInt % 2 ^ 24 ∧
      nnhex m alpha = nnhex n alpha := by
  obtain ⟨m, hParse, hMod⟩ := intOfHex_digits n
  refine ⟨_, m, hexString_nnhex n alpha p.text, ?_, hMod, nnhex_congr hMod alpha⟩
  rw [formatted_append p (by simp [byteAt_lt]), hParse]

theorem hex_nnhex (n : Int64) (alpha : ℚ) :
    ∃ m, (nnhex n alpha).hex = some (some m) ∧ m.toInt = n.toInt % 2 ^ 24 := by
  obtain ⟨m, hParse, hMod⟩ := intOfHex_digits n
  refine ⟨m, ?_, hMod⟩
  have hEmpty : "".toList = [] := rfl
  rw [hex, hexString_nnhex, numberOf, Option.map_some, String.toList_append, hEmpty,
    List.nil_append, String.toList_ofList, hParse]

/-! ## The round trip -/

/-- The initialiser agrees with the integer that the text denotes. -/
def Decodes (text : String) (alpha : ℚ) : Prop :=
  nnhexString text alpha = (intOfHex (formatted text)).map fun hex => nnhex hex alpha

/-- The colour of `n` comes back from its own text. -/
def RoundTrips (n : Int64) (p : HexPrefix) : Prop :=
  ∃ text color, (nnhex n 1).hexString p.text = some text ∧ nnhexString text 1 = some color ∧
    color.red = (nnhex n 1).red ∧ color.green = (nnhex n 1).green ∧
    color.blue = (nnhex n 1).blue ∧
    ∃ m, color.hex = some (some m) ∧ m.toInt = n.toInt % 2 ^ 24

/-- Every path of the initialiser ends in `return nil`. -/
theorem nnhexString_eq (text : String) (alpha : ℚ) : nnhexString text alpha = none := by
  unfold nnhexString
  split <;> rfl

/-- **Decoding.** The initialiser agrees with the integer that a text denotes exactly when the
text denotes none. The text of a colour denotes the colour, whatever its prefix, and still no
colour comes back from its own text. -/
theorem decodes_iff (text : String) (alpha : ℚ) (n : Int64) (p : HexPrefix) :
    (Decodes text alpha ↔ intOfHex (formatted text) = none) ∧
      (∃ text m, (nnhex n 1).hexString p.text = some text ∧
        intOfHex (formatted text) = some m ∧ m.toInt = n.toInt % 2 ^ 24 ∧
        nnhex m 1 = nnhex n 1) ∧
      ¬ RoundTrips n p := by
  refine ⟨?_, hexString_encodes n 1 p, ?_⟩
  · rw [Decodes, nnhexString_eq, eq_comm, Option.map_eq_none_iff]
  · intro hRound
    obtain ⟨text, color, -, hColor, -⟩ := hRound
    rw [nnhexString_eq] at hColor
    cases hColor

/-- The text "FF0000" denotes an integer, but the initialiser returns `nil`. -/
theorem red_not_decoded : intOfHex (formatted "FF0000") = some 0xFF0000 ∧
    nnhexString "FF0000" 1 = none ∧ ¬ Decodes "FF0000" 1 := by
  have hParse : intOfHex (formatted "FF0000") = some 0xFF0000 := by decide +kernel
  refine ⟨hParse, rfl, fun hDecodes => ?_⟩
  rw [Decodes, hParse, nnhexString_eq] at hDecodes
  cases hDecodes

end UIColor

end LeigodAPM
