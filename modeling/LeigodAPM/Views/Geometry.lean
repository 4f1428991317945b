import Mathlib.Algebra.Order.Ring.Rat
import Mathlib.Data.Rat.Defs

/-!
# Points, sizes and rectangles

Coordinates are exact. The edges of a rectangle are those of the standardized one, whose
width and height are not negative.
-/

namespace LeigodAPM

structure CGPoint where
  x : ℚ
  y : ℚ
  deriving DecidableEq

structure CGSize where
  width : ℚ
  height : ℚ
  deriving DecidableEq

structure CGRect where
  origin : CGPoint
  size : CGSize
  deriving DecidableEq

namespace CGRect

def zero : CGRect := ⟨⟨0, 0⟩, ⟨0, 0⟩⟩

def minX (rect : CGRect) : ℚ := min rect.origin.x (rect.origin.x + rect.size.width)

def maxX (rect : CGRect) : ℚ := max rect.origin.x (rect.origin.x + rect.size.width)

def minY (rect : CGRect) : ℚ := min rect.origin.y (rect.origin.y + rect.size.height)

def maxY (rect : CGRect) : ℚ := max rect.origin.y (rect.origin.y + rect.size.height)

end CGRect

end LeigodAPM
