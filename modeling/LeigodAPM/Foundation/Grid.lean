import Mathlib.Algebra.Order.Floor.Semiring
import Mathlib.Tactic.Linarith

/-!
# Grids of equal cells

The cells of a grid are numbered row by row. The interval of a cell contains its lower and left
edge, and not the other two.

* `inCell_iff`: a point of the grid lies in the cell whose number is computed from it.
* `filter_zipIdx`: of a numbered list, the entries with one number.
-/

namespace LeigodAPM.Foundation

/-! ## Parts and cells -/

section Cells

variable {α : Type*} [Field α] [LinearOrder α] [IsStrictOrderedRing α]

/-- `x` lies in the `i`-th interval of length `a`. -/
def InPart (a : α) (i : ℕ) (x : α) : Prop := a * i ≤ x ∧ x < a * i + a

/-- The point lies in the `i`-th cell of a grid with `k` columns. -/
def InCell (k : ℕ) (a b : α) (i : ℕ) (x y : α) : Prop := InPart a (i % k) x ∧ InPart b (i / k) y

variable [FloorSemiring α] {k i : ℕ} {a b x y : α}

def cellOf (k : ℕ) (a b x y : α) : ℕ := k * ⌊y / b⌋₊ + ⌊x / a⌋₊

theorem inPart_iff (ha : 0 < a) (hx : 0 ≤ x) : InPart a i x ↔ ⌊x / a⌋₊ = i := by
  rw [Nat.floor_eq_iff (div_nonneg hx ha.le), le_div_iff₀ ha, div_lt_iff₀ ha, InPart, add_mul,
    one_mul, mul_comm a]

theorem floor_div_lt (ha : 0 < a) (hx : 0 ≤ x) (hk : x < a * k) : ⌊x / a⌋₊ < k := by
  rw [Nat.floor_lt (div_nonneg hx ha.le), div_lt_iff₀ ha, mul_comm]
  exact hk

/-- The cell of a point of the grid. -/
theorem inCell_iff (ha : 0 < a) (hb : 0 < b) (hx : 0 ≤ x) (hk : x < a * k) (hy : 0 ≤ y) :
    InCell k a b i x y ↔ i = cellOf k a b x y := by
  have hColumn := floor_div_lt ha hx hk
  have hPos : 0 < k := by omega
  rw [InCell, inPart_iff ha hx, inPart_iff hb hy, cellOf]
  constructor
  · rintro ⟨hMod, hDiv⟩
    rw [hMod, hDiv, Nat.div_add_mod]
  · rintro rfl
    rw [Nat.mul_add_mod, Nat.mod_eq_of_lt hColumn, Nat.mul_add_div hPos,
      Nat.div_eq_of_lt hColumn]
    exact ⟨rfl, rfl⟩

/-- Which points lie in the first `r` rows. -/
theorem cellOf_lt_iff (ha : 0 < a) (hb : 0 < b) (hx : 0 ≤ x) (hk : x < a * k) (hy : 0 ≤ y)
    (r : ℕ) : cellOf k a b x y < k * r ↔ y < b * r := by
  have hColumn := floor_div_lt ha hx hk
  have hRow : ⌊y / b⌋₊ < r ↔ y < b * r := by
    rw [Nat.floor_lt (div_nonneg hy hb.le), div_lt_iff₀ hb, mul_comm]
  rw [← hRow, cellOf]
  constructor
  · intro hLt
    by_contra hNot
    have hRows : k * r ≤ k * ⌊y / b⌋₊ := Nat.mul_le_mul_left k (not_lt.mp hNot)
    omega
  · intro hLt
    have hRows : k * (⌊y / b⌋₊ + 1) ≤ k * r := Nat.mul_le_mul_left k hLt
    rw [Nat.mul_add, Nat.mul_one] at hRows
    omega

end Cells

/-! ## Numbered lists -/

theorem filter_zipIdx {β : Type*} (l : List β) (c n : ℕ) :
    (l.zipIdx n).filter (fun q => q.2 = n + c) = (l[c]?.map fun t => (t, n + c)).toList := by
  induction l generalizing c n with
  | nil => rfl
  | cons t l ih =>
    rw [List.zipIdx_cons, List.filter_cons]
    cases c with
    | zero =>
      have hRest : (l.zipIdx (n + 1)).filter (fun q => q.2 = n + 0) = [] := by
        refine List.filter_eq_nil_iff.mpr fun q hq => ?_
        have hLe := (List.mem_zipIdx hq).1
        simp only [decide_eq_true_eq]
        omega
      rw [hRest]
      simp
    | succ c =>
      have hSum : n + (c + 1) = n + 1 + c := by omega
      rw [if_neg (by simp), hSum, ih]
      rfl

end LeigodAPM.Foundation
