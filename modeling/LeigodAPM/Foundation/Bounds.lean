import Mathlib.Data.List.Basic
import Mathlib.Order.Basic
import Mathlib.Order.Lattice

/-!
# Checked and clamped values

In Swift `a - b` on unsigned integers stops the program when `b` exceeds `a`, and `a * b`
does when the product does not fit. The checked operations return `none` there.

A clamp replaces a value below the lower bound by it, and otherwise one above the upper
bound by that. The bounds may cross.

* `clamp_clamp_iff`: clamping again changes nothing exactly when the bounds do not cross.
* `clamp_within_iff`: when the result lies in an interval inside the bounds.
-/

namespace LeigodAPM.Foundation

/-! ## Checked arithmetic -/

/-- `a - b` on 32-bit unsigned integers; `none` is the trap on underflow. -/
def checkedSub (a b : UInt32) : Option UInt32 := if b ≤ a then some (a - b) else none

theorem checkedSub_of_le {a b : UInt32} (h : b ≤ a) : checkedSub a b = some (a - b) :=
  if_pos h

theorem checkedSub_eq_none {a b : UInt32} : checkedSub a b = none ↔ ¬ b ≤ a := by
  simp [checkedSub]

theorem toNat_sub_of_le {a b : UInt32} (h : b ≤ a) : (a - b).toNat = a.toNat - b.toNat :=
  UInt32.toNat_sub_of_le a b h

/-- `a * b` on 32-bit unsigned integers; `none` is the trap on overflow. -/
def checkedMul (a b : UInt32) : Option UInt32 :=
  if a.toNat * b.toNat < UInt32.size then some (a * b) else none

theorem checkedMul_of_lt {a b : UInt32} (h : a.toNat * b.toNat < UInt32.size) :
    ∃ c, checkedMul a b = some c ∧ c.toNat = a.toNat * b.toNat :=
  ⟨a * b, if_pos h, (UInt32.toNat_mul a b).trans (Nat.mod_eq_of_lt h)⟩

theorem checkedMul_eq_none {a b : UInt32} (h : ¬ a.toNat * b.toNat < UInt32.size) :
    checkedMul a b = none := if_neg h

/-! ## Clamping -/

section Clamp

variable {α : Type*} [LinearOrder α] {lo hi a b y : α}

def clamp (lo hi y : α) : α := if y < lo then lo else if y > hi then hi else y

theorem le_clamp (hBounds : lo ≤ hi) (y : α) : lo ≤ clamp lo hi y := by
  rw [clamp]
  split_ifs with hLow hHigh
  · exact le_rfl
  · exact hBounds
  · exact not_lt.mp hLow

theorem clamp_le (hBounds : lo ≤ hi) (y : α) : clamp lo hi y ≤ hi := by
  rw [clamp]
  split_ifs with hLow hHigh
  · exact hBounds
  · exact le_rfl
  · exact not_lt.mp hHigh

theorem clamp_of_mem (hLow : lo ≤ y) (hHigh : y ≤ hi) : clamp lo hi y = y := by
  rw [clamp, if_neg (not_lt.mpr hLow), if_neg (not_lt.mpr hHigh)]

/-- Crossed bounds swap at every application. -/
theorem clamp_clamp_iff (y : α) : clamp lo hi (clamp lo hi y) = clamp lo hi y ↔ lo ≤ hi := by
  constructor
  · intro hAgain
    by_contra hCrossed
    have hLt : hi < lo := not_le.mp hCrossed
    have hLo : clamp lo hi lo = hi := by rw [clamp, if_neg (lt_irrefl lo), if_pos hLt]
    have hHi : clamp lo hi hi = lo := by rw [clamp, if_pos hLt]
    by_cases hLow : y < lo
    · have hOnce : clamp lo hi y = lo := if_pos hLow
      rw [hOnce, hLo] at hAgain
      exact hLt.ne hAgain
    · have hOnce : clamp lo hi y = hi := by
        rw [clamp, if_neg hLow, if_pos (hLt.trans_le (not_lt.mp hLow))]
      rw [hOnce, hHi] at hAgain
      exact hLt.ne hAgain.symm
  · intro hBounds
    exact clamp_of_mem (le_clamp hBounds y) (clamp_le hBounds y)

/-- The bounds themselves are outside the interval, so only a value inside it gets there. -/
theorem clamp_within_iff (hLow : lo < a) (hHigh : b < hi) :
    a ≤ clamp lo hi y ∧ clamp lo hi y ≤ b ↔ a ≤ y ∧ y ≤ b := by
  constructor
  · intro hClamp
    rw [clamp] at hClamp
    split_ifs at hClamp with hBelow hAbove
    · exact absurd hClamp.1 (not_le.mpr hLow)
    · exact absurd hClamp.2 (not_le.mpr hHigh)
    · exact hClamp
  · intro hMem
    rwa [clamp_of_mem (hLow.le.trans hMem.1) (hMem.2.trans hHigh.le)]

end Clamp

end LeigodAPM.Foundation
