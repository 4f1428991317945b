import Mathlib.Algebra.BigOperators.Group.Finset.Piecewise
import Mathlib.Algebra.Order.BigOperators.Group.Finset
import Mathlib.Algebra.Order.Group.Int

/-!
# Parties that move one at a time

Each of finitely many parties is at a place. A shared counter often stands for a sum over the
parties, where each counts by its place.

* `total_update`, `occupied_update`: what the move of one party does to the sum.
* `occupied_pos_iff`, `eq_of_occupied_le_one`: the number of parties at some places.
-/

namespace LeigodAPM.Foundation

variable {T P : Type*} [Fintype T]

/-- The sum over the parties of what counts at their places. -/
def total (weight : P → ℤ) (place : T → P) : ℤ := ∑ t, weight (place t)

/-- The number of parties at the places that `p` is true of. -/
def occupied (p : P → Bool) (place : T → P) : ℤ := total (fun x => if p x then 1 else 0) place

section Total

variable {weight : P → ℤ} {place : T → P}

theorem total_update [DecidableEq T] (weight : P → ℤ) (place : T → P) (t : T) (x : P) :
    total weight (Function.update place t x) =
      total weight place - weight (place t) + weight x := by
  have hNew := Finset.sum_update_of_mem (Finset.mem_univ t) (fun u => weight (place u)) (weight x)
  have hOld := Finset.sum_update_of_mem (Finset.mem_univ t) (fun u => weight (place u))
    (weight (place t))
  have hSame : Function.update (fun u => weight (place u)) t (weight (place t)) =
      fun u => weight (place u) := Function.update_eq_self t _
  have hMove : (fun u => weight (Function.update place t x u)) =
      Function.update (fun u => weight (place u)) t (weight x) := by
    funext u
    exact Function.apply_update (fun _ => weight) place t x u
  rw [hSame] at hOld
  rw [total, total, hMove, hNew, hOld]
  omega

/-- When all move at once to places that count the same. -/
theorem total_map {f : P → P} (h : ∀ x, weight (f x) = weight x) (place : T → P) :
    total weight (fun t => f (place t)) = total weight place :=
  Finset.sum_congr rfl fun t _ => h (place t)

theorem total_add (v w : P → ℤ) (place : T → P) :
    total (fun x => v x + w x) place = total v place + total w place :=
  Finset.sum_add_distrib

theorem total_congr {v w : P → ℤ} (h : ∀ t, v (place t) = w (place t)) :
    total v place = total w place :=
  Finset.sum_congr rfl fun t _ => h t

theorem total_eq_zero (h : ∀ t, weight (place t) = 0) : total weight place = 0 :=
  Finset.sum_eq_zero fun t _ => h t

end Total

section Occupied

variable {p : P → Bool} {place : T → P}

theorem occupied_update [DecidableEq T] (p : P → Bool) (place : T → P) (t : T) (x : P) :
    occupied p (Function.update place t x) =
      occupied p place - (if p (place t) then 1 else 0) + if p x then 1 else 0 :=
  total_update _ place t x

theorem occupied_map {f : P → P} (h : ∀ x, p (f x) = p x) (place : T → P) :
    occupied p (fun t => f (place t)) = occupied p place :=
  total_map (fun x => by rw [h x]) place

theorem occupied_nonneg (p : P → Bool) (place : T → P) : 0 ≤ occupied p place :=
  Finset.sum_nonneg fun t _ => by
    by_cases h : p (place t) <;> simp [h]

/-- One party is at most all the parties. -/
theorem one_le_occupied {t : T} (h : p (place t) = true) : 1 ≤ occupied p place := by
  have hLe := Finset.single_le_sum (f := fun u => if p (place u) then (1 : ℤ) else 0)
    (fun u _ => by by_cases hu : p (place u) <;> simp [hu]) (Finset.mem_univ t)
  rw [if_pos h] at hLe
  exact hLe

theorem occupied_pos_iff : 0 < occupied p place ↔ ∃ t, p (place t) = true := by
  constructor
  · intro hPos
    by_contra hNone
    push Not at hNone
    have hZero : occupied p place = 0 := total_eq_zero fun t => if_neg (hNone t)
    omega
  · rintro ⟨t, ht⟩
    have := one_le_occupied ht
    omega

theorem occupied_eq_zero_iff : occupied p place = 0 ↔ ∀ t, p (place t) = false := by
  constructor
  · intro hZero t
    by_contra ht
    have := one_le_occupied (Bool.eq_true_of_not_eq_false ht)
    omega
  · exact fun hNone => total_eq_zero fun t => by rw [hNone t]; rfl

theorem eq_of_occupied_le_one (h : occupied p place ≤ 1) {t u : T} (ht : p (place t) = true)
    (hu : p (place u) = true) : t = u := by
  classical
  by_contra hNe
  have hPair : ∑ x ∈ {t, u}, (if p (place x) then (1 : ℤ) else 0) ≤ occupied p place :=
    Finset.sum_le_sum_of_subset_of_nonneg (Finset.subset_univ _)
      fun x _ _ => by by_cases hx : p (place x) <;> simp [hx]
  rw [Finset.sum_pair hNe, if_pos ht, if_pos hu] at hPair
  omega

end Occupied

end LeigodAPM.Foundation
