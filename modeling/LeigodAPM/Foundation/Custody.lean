import Mathlib.Data.List.Nodup
import Mathlib.Logic.Function.Basic

/-!
# Items that are free or held

Items are numbered as they are made. Each lies in a list of free items or is held by one of
several parties, and a party holds at most one.

* `Custody.take`, `Custody.give`, `Custody.make`, `Custody.drop`, `Custody.clear`: taking an item
  from the list, putting it back, making a new one and throwing items away all keep it that no
  item is at two places.
-/

namespace LeigodAPM.Foundation

open Function

variable {T : Type*}

/-- Of the `n` items made so far none is at two places. -/
structure Custody (n : ℕ) (free : List ℕ) (holds : T → Option ℕ) : Prop where
  nodup : free.Nodup
  apart : ∀ t i, holds t = some i → i ∉ free
  unique : ∀ t u i, holds t = some i → holds u = some i → t = u
  free_lt : ∀ i ∈ free, i < n
  held_lt : ∀ t i, holds t = some i → i < n

namespace Custody

variable {n i : ℕ} {free : List ℕ} {holds : T → Option ℕ} {t : T}

theorem clear (h : Custody n free holds) : Custody n [] holds where
  nodup := List.nodup_nil
  apart _ _ _ := List.not_mem_nil
  unique := h.unique
  free_lt _ hi := absurd hi List.not_mem_nil
  held_lt := h.held_lt

/-- The first free item leaves the list. -/
theorem rest (h : Custody n (i :: free) holds) : Custody n free holds where
  nodup := h.nodup.of_cons
  apart t j ht hj := h.apart t j ht (List.mem_cons_of_mem i hj)
  unique := h.unique
  free_lt j hj := h.free_lt j (List.mem_cons_of_mem i hj)
  held_lt := h.held_lt

/-- An item that nobody holds comes into the list. -/
theorem push (h : Custody n free holds) (hNew : i ∉ free) (hLt : i < n)
    (hNobody : ∀ t, holds t ≠ some i) : Custody n (i :: free) holds where
  nodup := List.nodup_cons.mpr ⟨hNew, h.nodup⟩
  apart t j ht hj := by
    rcases List.mem_cons.mp hj with rfl | hOld
    · exact hNobody t ht
    · exact h.apart t j ht hOld
  unique := h.unique
  free_lt j hj := by
    rcases List.mem_cons.mp hj with rfl | hOld
    · exact hLt
    · exact h.free_lt j hOld
  held_lt := h.held_lt

/-- One more item is made. -/
theorem more (h : Custody n free holds) : Custody (n + 1) free holds where
  nodup := h.nodup
  apart := h.apart
  unique := h.unique
  free_lt j hj := Nat.lt_succ_of_lt (h.free_lt j hj)
  held_lt t j ht := Nat.lt_succ_of_lt (h.held_lt t j ht)

variable [DecidableEq T]

/-- What a party holds after some party holds nothing any more. -/
theorem of_update_none {u : T} {j : ℕ} (hu : update holds t none u = some j) :
    holds u = some j := by
  rw [update_apply] at hu
  split_ifs at hu with hEq
  exact hu

theorem drop (h : Custody n free holds) : Custody n free (update holds t none) where
  nodup := h.nodup
  apart u j hu := h.apart u j (of_update_none hu)
  unique u v j hu hv := h.unique u v j (of_update_none hu) (of_update_none hv)
  free_lt := h.free_lt
  held_lt u j hu := h.held_lt u j (of_update_none hu)

/-- A party comes to hold an item that nobody holds. -/
theorem hold (h : Custody n free holds) (hNew : i ∉ free) (hLt : i < n)
    (hNobody : ∀ u, holds u ≠ some i) : Custody n free (update holds t (some i)) := by
  have hHeld (u : T) (j : ℕ) (hu : update holds t (some i) u = some j) :
      (u = t ∧ j = i) ∨ holds u = some j := by
    rw [update_apply] at hu
    split_ifs at hu with hEq
    · exact Or.inl ⟨hEq, (Option.some.inj hu).symm⟩
    · exact Or.inr hu
  refine ⟨h.nodup, fun u j hu => ?_, fun u v j hu hv => ?_, h.free_lt, fun u j hu => ?_⟩
  · rcases hHeld u j hu with ⟨-, rfl⟩ | hOld
    · exact hNew
    · exact h.apart u j hOld
  · rcases hHeld u j hu with ⟨rfl, rfl⟩ | hOld
    · rcases hHeld v j hv with ⟨rfl, -⟩ | hOld'
      · rfl
      · exact absurd hOld' (hNobody v)
    · rcases hHeld v j hv with ⟨rfl, rfl⟩ | hOld'
      · exact absurd hOld (hNobody u)
      · exact h.unique u v j hOld hOld'
  · rcases hHeld u j hu with ⟨-, rfl⟩ | hOld
    · exact hLt
    · exact h.held_lt u j hOld

theorem take (h : Custody n (i :: free) holds) : Custody n free (update holds t (some i)) :=
  h.rest.hold h.nodup.notMem (h.free_lt i List.mem_cons_self)
    fun u hu => h.apart u i hu List.mem_cons_self

theorem give (h : Custody n free holds) (ht : holds t = some i) :
    Custody n (i :: free) (update holds t none) := by
  refine h.drop.push (h.apart t i ht) (h.held_lt t i ht) fun u hu => ?_
  obtain rfl := h.unique u t i (of_update_none hu) ht
  rw [update_self] at hu
  cases hu

theorem make (h : Custody n free holds) : Custody (n + 1) free (update holds t (some n)) := by
  refine h.more.hold (fun hn => Nat.lt_irrefl n (h.free_lt n hn)) n.lt_succ_self fun u hu => ?_
  exact Nat.lt_irrefl n (h.held_lt u n hu)

end Custody

end LeigodAPM.Foundation
