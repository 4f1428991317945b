import Mathlib.Data.Bool.Basic
import Mathlib.Logic.Relation
import LeigodAPM.Foundation.Hooks

/-!
# Searching along a chain

Every element has at most one next element. A search goes from an element to the next one
until it meets an element with a property, or the end of the chain.

* `exists_seek`: on a chain that ends, the search ends, with the first such element.
* `First.split`: the search for a narrower property goes through the first element with the
  wider one.
-/

namespace LeigodAPM.Foundation

variable {α : Type*} {next : α → Option α} {p q : α → Bool} {a b c : α}

/-- `b` has the property, and the elements from `a` to it have not. -/
def First (next : α → Option α) (p : α → Bool) (a b : α) : Prop :=
  Relation.ReflTransGen (fun x y => next x = some y ∧ p x = false) a b ∧ p b = true

/-- The search, whose result is `none` inside when the chain ends without the property. -/
def seek (next : α → Option α) (p : α → Bool) : ℕ → Option α → Option (Option α)
  | 0, _ => none
  | _ + 1, none => some none
  | n + 1, some a => if p a then some (some a) else seek next p n (next a)

namespace First

theorem refl (h : p a = true) : First next p a a := ⟨.refl, h⟩

/-- From an element with the property the search goes no further. -/
theorem eq_of_pos (hFirst : First next p a b) (h : p a = true) : b = a := by
  rcases hFirst.1.cases_head with hEq | ⟨x, ⟨-, hNot⟩, -⟩
  · exact hEq.symm
  · rw [h] at hNot
    cases hNot

theorem iff_next (h : p a = false) :
    First next p a b ↔ ∃ x, next a = some x ∧ First next p x b := by
  constructor
  · rintro ⟨hPath, hb⟩
    rcases hPath.cases_head with hEq | ⟨x, ⟨hNext, -⟩, hRest⟩
    · rw [← hEq, h] at hb
      cases hb
    · exact ⟨x, hNext, hRest, hb⟩
  · rintro ⟨x, hNext, hRest, hb⟩
    exact ⟨.head ⟨hNext, h⟩ hRest, hb⟩

/-- Of two properties, one of which implies the other. -/
theorem split (hpq : ∀ x, p x = true → q x = true) :
    First next p a c ↔ ∃ b, First next q a b ∧ First next p b c := by
  constructor
  · rintro ⟨hPath, hc⟩
    induction hPath using Relation.ReflTransGen.head_induction_on with
    | refl => exact ⟨c, refl (hpq c hc), refl hc⟩
    | @head x y hEdge hPath ih =>
      by_cases hx : q x = true
      · exact ⟨x, refl hx, .head hEdge hPath, hc⟩
      · obtain ⟨b, hFirst, hRest⟩ := ih
        exact ⟨b, (iff_next (Bool.not_eq_true _ ▸ hx)).mpr ⟨y, hEdge.1, hFirst⟩, hRest⟩
  · rintro ⟨b, hFirst, hRest⟩
    refine ⟨(Relation.ReflTransGen.mono ?_ _ _ hFirst.1).trans hRest.1, hRest.2⟩
    rintro x y ⟨hNext, hx⟩
    refine ⟨hNext, Bool.eq_false_of_not_eq_true fun hp => ?_⟩
    rw [hpq x hp] at hx
    cases hx

end First

/-- The search ends, and finds the first element with the property if there is one. -/
theorem exists_seek (hEnds : Chain.Ends next a) (p : α → Bool) :
    ∃ result n, (∀ m, n ≤ m → seek next p m (some a) = some result) ∧
      ∀ b, result = some b ↔ First next p a b := by
  obtain ⟨length, l, hFollow⟩ := hEnds
  induction length generalizing a l with
  | zero => cases hFollow
  | succ length ih =>
    have hFuel (n m : ℕ) (hm : n + 1 ≤ m) : ∃ k, n ≤ k ∧ m = k + 1 := by
      obtain ⟨k, rfl⟩ := Nat.exists_eq_add_of_le hm
      exact ⟨n + k, Nat.le_add_right n k, Nat.add_right_comm n 1 k⟩
    by_cases ha : p a = true
    · refine ⟨some a, 1, fun m hm => ?_, fun b => ?_⟩
      · obtain ⟨k, -, rfl⟩ := hFuel 0 m hm
        rw [seek, if_pos ha]
      · rw [Option.some_inj]
        exact ⟨fun hEq => hEq ▸ First.refl ha, fun hFirst => (hFirst.eq_of_pos ha).symm⟩
    · have hNot : p a = false := Bool.eq_false_of_not_eq_true ha
      cases hNext : next a with
      | none =>
        refine ⟨none, 2, fun m hm => ?_, fun b => ?_⟩
        · obtain ⟨k, hk, rfl⟩ := hFuel 1 m hm
          obtain ⟨j, -, rfl⟩ := hFuel 0 k hk
          rw [seek, if_neg ha, hNext, seek]
        · rw [First.iff_next hNot, hNext]
          simp
      | some x =>
        rw [Chain.follow_succ_some hNext, Option.map_eq_some_iff] at hFollow
        obtain ⟨l', hRest, -⟩ := hFollow
        obtain ⟨result, n, hSeek, hResult⟩ := ih l' hRest
        refine ⟨result, n + 1, fun m hm => ?_, fun b => ?_⟩
        · obtain ⟨k, hk, rfl⟩ := hFuel n m hm
          rw [seek, if_neg ha, hNext]
          exact hSeek k hk
        · rw [hResult, First.iff_next hNot, hNext]
          simp

end LeigodAPM.Foundation
