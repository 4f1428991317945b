import Mathlib.Algebra.Group.Nat.Defs
import Mathlib.Data.List.Basic

/-!
# Hexadecimal text

Texts are lists of characters here. `removeOccurrences` removes a pattern from left to
right; `intOfHex` reads a 64-bit integer in base 16, with an optional sign.

* `removeOccurrences_of_not_mem`, `removeOccurrences_append`: what is removed.
* `parseDigits_flatMap`: the digits of bytes, two for each, are read back as the number the
  bytes make up.
-/

namespace LeigodAPM.Foundation

/-! ## Removing a pattern -/

/-- Skips `skip` characters, and removes the pattern `first :: rest` from what follows. -/
def removeFrom (first : Char) (rest : List Char) : ℕ → List Char → List Char
  | _, [] => []
  | skip + 1, _ :: l => removeFrom first rest skip l
  | 0, c :: l =>
    if (first :: rest).isPrefixOf (c :: l) = true then removeFrom first rest rest.length l
    else c :: removeFrom first rest 0 l

def removeOccurrences (first : Char) (rest l : List Char) : List Char :=
  removeFrom first rest 0 l

section Remove

variable {first : Char} {rest l : List Char}

theorem removeFrom_append (skipped : List Char) :
    removeFrom first rest skipped.length (skipped ++ l) = removeFrom first rest 0 l := by
  induction skipped with
  | nil => rfl
  | cons c skipped ih => exact ih

/-- The pattern at the front goes. -/
theorem removeOccurrences_append (first : Char) (rest l : List Char) :
    removeOccurrences first rest (first :: rest ++ l) = removeOccurrences first rest l := by
  rw [removeOccurrences, List.cons_append, removeFrom, if_pos, removeFrom_append]
  · rfl
  · rw [← List.cons_append]
    simp

/-- A text without some character of the pattern stays. -/
theorem removeOccurrences_of_not_mem (first : Char) (rest : List Char) {x : Char}
    (hx : x ∈ first :: rest) (hl : x ∉ l) : removeOccurrences first rest l = l := by
  rw [removeOccurrences]
  induction l with
  | nil => rfl
  | cons c l ih =>
    have hNot : ¬ (first :: rest).isPrefixOf (c :: l) = true := by
      intro hOccurs
      have hFront := List.isPrefixOf_iff_prefix.mp hOccurs
      exact hl (hFront.subset hx)
    rw [removeFrom, if_neg hNot, ih fun h => hl (List.mem_cons_of_mem c h)]

end Remove

/-! ## Digits -/

def digitValue (c : Char) : Option ℕ :=
  if '0' ≤ c ∧ c ≤ '9' then some (c.toNat - '0'.toNat)
  else if 'a' ≤ c ∧ c ≤ 'f' then some (c.toNat - 'a'.toNat + 10)
  else if 'A' ≤ c ∧ c ≤ 'F' then some (c.toNat - 'A'.toNat + 10)
  else none

/-- Reads digits after a number that has been read already. -/
def parseDigits : List Char → ℕ → Option ℕ
  | [], n => some n
  | c :: l, n =>
    match digitValue c with
    | some d => parseDigits l (16 * n + d)
    | none => none

def upperDigit (d : ℕ) : Char := d.digitChar.toUpper

/-- The two digits of a byte. -/
def byteDigits (b : ℕ) : List Char := [upperDigit (b / 16), upperDigit (b % 16)]

theorem digitValue_upperDigit : ∀ d < 16, digitValue (upperDigit d) = some d := by decide

theorem parseDigits_byteDigits {b : ℕ} (hb : b < 256) (l : List Char) (n : ℕ) :
    parseDigits (byteDigits b ++ l) n = parseDigits l (256 * n + b) := by
  have hHigh := digitValue_upperDigit (b / 16) (by omega)
  have hLow := digitValue_upperDigit (b % 16) (by omega)
  have hValue : 16 * (16 * n + b / 16) + b % 16 = 256 * n + b := by omega
  simp only [byteDigits, List.cons_append, List.nil_append, parseDigits, hHigh, hLow, hValue]

/-- **Digits of bytes.** They are read back as the number that the bytes make up. -/
theorem parseDigits_flatMap (bytes : List ℕ) (hBytes : ∀ b ∈ bytes, b < 256) (n : ℕ) :
    parseDigits (bytes.flatMap byteDigits) n =
      some (bytes.foldl (fun n b => 256 * n + b) n) := by
  induction bytes generalizing n with
  | nil => rfl
  | cons b bytes ih =>
    rw [List.flatMap_cons, parseDigits_byteDigits (hBytes b (by simp)),
      ih fun x hx => hBytes x (List.mem_cons_of_mem b hx), List.foldl_cons]

/-! ## Integers -/

/-- The digits of a magnitude; there has to be one. -/
def magnitude (l : List Char) : Option ℕ := if l = [] then none else parseDigits l 0

/-- `Int(text, radix: 16)`; `none` also when the value does not fit. -/
def intOfHex (l : List Char) : Option Int64 :=
  if l.head? = some '-' then
    (magnitude l.tail).bind fun n => if n ≤ 2 ^ 63 then some (Int64.ofInt (-n)) else none
  else
    (magnitude (if l.head? = some '+' then l.tail else l)).bind fun n =>
      if n < 2 ^ 63 then some (Int64.ofInt n) else none

/-- A text of digits without a sign. -/
theorem intOfHex_of_digits {c : Char} {l : List Char} {d n : ℕ} (hDigit : digitValue c = some d)
    (hParse : parseDigits (c :: l) 0 = some n) (hSmall : n < 2 ^ 63) :
    intOfHex (c :: l) = some (Int64.ofInt n) := by
  have hMinus : ¬ (c :: l).head? = some '-' := by
    intro hEq
    obtain rfl : c = '-' := Option.some.inj hEq
    cases hDigit
  have hPlus : ¬ (c :: l).head? = some '+' := by
    intro hEq
    obtain rfl : c = '+' := Option.some.inj hEq
    cases hDigit
  rw [intOfHex, if_neg hMinus, if_neg hPlus, magnitude, if_neg (by simp), hParse]
  exact if_pos hSmall

end LeigodAPM.Foundation
