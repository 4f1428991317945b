import Mathlib.Logic.Function.Basic

/-!
# Open handles and their holders

A table says which handles are open. `Exclusive` says that the open handles are those that
somebody holds, and that nobody shares one. Opening a handle that was closed keeps it, and so
does closing a handle that one holds.
-/

namespace LeigodAPM.Foundation

open Function

variable {ι κ : Type*}

structure Exclusive (isOpen : ι → Bool) (holds : κ → ι → Prop) : Prop where
  held : ∀ i, isOpen i = true ↔ ∃ o, holds o i
  unique : ∀ o o' i, holds o i → holds o' i → o = o'

namespace Exclusive

variable {isOpen : ι → Bool} {holds holds' : κ → ι → Prop} {a : κ} {i : ι}

theorem congr (h : Exclusive isOpen holds) (hSame : ∀ o j, holds' o j ↔ holds o j) :
    Exclusive isOpen holds' where
  held j := (h.held j).trans (exists_congr fun o => (hSame o j).symm)
  unique o o' j ho ho' := h.unique o o' j ((hSame o j).mp ho) ((hSame o' j).mp ho')

variable [DecidableEq ι]

theorem acquire (h : Exclusive isOpen holds) (hClosed : isOpen i = false)
    (hNew : ∀ o j, holds' o j ↔ holds o j ∨ (o = a ∧ j = i)) :
    Exclusive (update isOpen i true) holds' := by
  have hNobody (o : κ) : ¬ holds o i := fun ho => by
    rw [(h.held i).mpr ⟨o, ho⟩] at hClosed
    cases hClosed
  constructor
  · intro j
    by_cases hEq : j = i
    · subst hEq
      rw [update_self]
      exact iff_of_true rfl ⟨a, (hNew a j).mpr (Or.inr ⟨rfl, rfl⟩)⟩
    · rw [update_of_ne hEq, h.held]
      refine exists_congr fun o => ?_
      rw [hNew]
      simp [hEq]
  · intro o o' j ho ho'
    rcases (hNew o j).mp ho with hOld | ⟨rfl, rfl⟩
    · rcases (hNew o' j).mp ho' with hOld' | ⟨rfl, rfl⟩
      · exact h.unique o o' j hOld hOld'
      · exact absurd hOld (hNobody o)
    · rcases (hNew o' j).mp ho' with hOld' | ⟨rfl, -⟩
      · exact absurd hOld' (hNobody o')
      · rfl

theorem release (h : Exclusive isOpen holds) (hHeld : holds a i)
    (hNew : ∀ o j, holds' o j ↔ holds o j ∧ ¬ (o = a ∧ j = i)) :
    Exclusive (update isOpen i false) holds' where
  held j := by
    by_cases hEq : j = i
    · subst hEq
      rw [update_self]
      refine iff_of_false (by simp) ?_
      rintro ⟨o, ho⟩
      obtain ⟨hOld, hNot⟩ := (hNew o j).mp ho
      exact hNot ⟨h.unique o a j hOld hHeld, rfl⟩
    · rw [update_of_ne hEq, h.held]
      refine exists_congr fun o => ?_
      rw [hNew]
      simp [hEq]
  unique o o' j ho ho' := h.unique o o' j ((hNew o j).mp ho).1 ((hNew o' j).mp ho').1

end Exclusive

end LeigodAPM.Foundation
