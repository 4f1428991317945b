import Mathlib.Algebra.Order.Ring.Abs
import Mathlib.Algebra.Order.Ring.Rat
import Mathlib.Data.Rat.Floor
import Mathlib.Order.Interval.Set.Defs
import Mathlib.Order.WithBot
import Mathlib.Tactic.Linarith

/-!
# Floating-point numbers over a format

A format says which rationals are representable and how an exact result is rounded to one
of them. The operations on `Double` compute exactly and round once, and they return `inf`
and `nan` where they leave the finite numbers. Both zeros are `fin 0`, so that a division
by zero takes the sign of its numerator.

* `FloatFormat.round_le`, `FloatFormat.le_round`: rounding never crosses a representable
  number.
* `FloatFormat.exists_ofRat`: a result between two numbers that the format holds stays
  between them.
* `exact` is the format in which every rational is representable.
-/

namespace LeigodAPM.Foundation

/-- A format, with its rounding to a nearest representable number. `max` bounds the finite
values; it does not bound the exponents of the representable ones. -/
structure FloatFormat where
  Representable : ℚ → Prop
  max : WithTop ℚ
  round : ℚ → ℚ
  round_representable : ∀ x, Representable (round x)
  round_nearest : ∀ x y, Representable y → |x - round x| ≤ |x - y|

inductive Double
  | nan
  | inf (negative : Bool)
  | fin (x : ℚ)
  deriving DecidableEq

/-- `x ≤ y`; a comparison with `nan` is false. -/
def Double.le : Double → Double → Bool
  | .fin x, .fin y => x ≤ y
  | .inf s, .inf t => s || !t
  | .inf s, .fin _ => s
  | .fin _, .inf s => !s
  | _, _ => false

/-- The nearest integer, of two the one away from zero. -/
def Double.round : Double → Double
  | .fin x => .fin (if 0 ≤ x then ⌊x + 1 / 2⌋ else ⌈x - 1 / 2⌉)
  | d => d

namespace FloatFormat

variable {F : FloatFormat}

/-- `x` is a finite value of the format. -/
def Holds (F : FloatFormat) (x : ℚ) : Prop := F.Representable x ∧ (|x| : ℚ) ≤ F.max

/-- The format holds every natural number up to `2 ^ 53`. -/
def HoldsNats (F : FloatFormat) : Prop := ∀ n : ℕ, n ≤ 2 ^ 53 → F.Holds n

theorem HoldsNats.zero (hF : F.HoldsNats) : F.Holds 0 := by
  simpa using hF 0 (Nat.zero_le _)

theorem HoldsNats.one (hF : F.HoldsNats) : F.Holds 1 := by
  simpa using hF 1 (Nat.one_le_two_pow)

/-! ## Rounding -/

theorem round_of_representable {x : ℚ} (hx : F.Representable x) : F.round x = x := by
  have h := F.round_nearest x x hx
  rw [sub_self, abs_zero] at h
  have hZero : x - F.round x = 0 := abs_eq_zero.mp (le_antisymm h (abs_nonneg _))
  linarith

theorem round_le {x y : ℚ} (hy : F.Representable y) (h : x ≤ y) : F.round x ≤ y := by
  by_contra hNot
  have hLt : y < F.round x := not_le.mp hNot
  have hNear := F.round_nearest x y hy
  rw [abs_of_nonpos (by linarith), abs_of_nonpos (by linarith)] at hNear
  linarith

theorem le_round {x y : ℚ} (hx : F.Representable x) (h : x ≤ y) : x ≤ F.round y := by
  by_contra hNot
  have hLt : F.round y < x := not_le.mp hNot
  have hNear := F.round_nearest y x hx
  rw [abs_of_nonneg (by linarith), abs_of_nonneg (by linarith)] at hNear
  linarith

/-- The value of an operation whose exact result is `x`. -/
def ofRat (F : FloatFormat) (x : ℚ) : Double :=
  if (|F.round x| : ℚ) ≤ F.max then .fin (F.round x) else .inf (x < 0)

theorem ofRat_of_holds {x : ℚ} (hx : F.Holds x) : F.ofRat x = .fin x := by
  rw [ofRat, round_of_representable hx.1, if_pos hx.2]

theorem exists_ofRat {a b x : ℚ} (ha : F.Holds a) (hb : F.Holds b) (hax : a ≤ x) (hxb : x ≤ b) :
    ∃ y ∈ Set.Icc a b, F.ofRat x = .fin y := by
  have h1 : a ≤ F.round x := le_round ha.1 hax
  have h2 : F.round x ≤ b := round_le hb.1 hxb
  refine ⟨F.round x, ⟨h1, h2⟩, if_pos ?_⟩
  rcases le_max_iff.mp (abs_le_max_abs_abs h1 h2) with h | h
  · exact le_trans (WithTop.coe_le_coe.mpr h) ha.2
  · exact le_trans (WithTop.coe_le_coe.mpr h) hb.2

/-! ## Operations -/

def add (F : FloatFormat) : Double → Double → Double
  | .fin x, .fin y => F.ofRat (x + y)
  | .inf s, .inf t => if s = t then .inf s else .nan
  | .inf s, .fin _ => .inf s
  | .fin _, .inf s => .inf s
  | _, _ => .nan

def sub (F : FloatFormat) : Double → Double → Double
  | .fin x, .fin y => F.ofRat (x - y)
  | .inf s, .inf t => if s = t then .nan else .inf s
  | .inf s, .fin _ => .inf s
  | .fin _, .inf s => .inf (!s)
  | _, _ => .nan

def mul (F : FloatFormat) : Double → Double → Double
  | .fin x, .fin y => F.ofRat (x * y)
  | .inf s, .inf t => .inf (s != t)
  | .inf s, .fin x => if x = 0 then .nan else .inf (s != decide (x < 0))
  | .fin x, .inf s => if x = 0 then .nan else .inf (s != decide (x < 0))
  | _, _ => .nan

def div (F : FloatFormat) : Double → Double → Double
  | .fin x, .fin y =>
    if y = 0 then if x = 0 then .nan else .inf (x < 0) else F.ofRat (x / y)
  | .inf s, .fin x => .inf (s != decide (x < 0))
  | .fin _, .inf _ => .fin 0
  | _, _ => .nan

@[simp] theorem add_fin (x y : ℚ) : F.add (.fin x) (.fin y) = F.ofRat (x + y) := rfl

@[simp] theorem mul_fin (x y : ℚ) : F.mul (.fin x) (.fin y) = F.ofRat (x * y) := rfl

theorem div_fin {x y : ℚ} (hy : y ≠ 0) : F.div (.fin x) (.fin y) = F.ofRat (x / y) := if_neg hy

/-! ## Exact arithmetic -/

/-- Every rational is representable and nothing is rounded. -/
def exact : FloatFormat where
  Representable _ := True
  max := ⊤
  round := id
  round_representable _ := trivial
  round_nearest x y _ := by simp

theorem exact_holds (x : ℚ) : exact.Holds x := ⟨trivial, le_top⟩

theorem exact_holdsNats : exact.HoldsNats := fun n _ => exact_holds n

@[simp] theorem ofRat_exact (x : ℚ) : exact.ofRat x = .fin x := ofRat_of_holds (exact_holds x)

end FloatFormat

end LeigodAPM.Foundation
