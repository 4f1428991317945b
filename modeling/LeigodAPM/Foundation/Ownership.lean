import Mathlib.Data.List.Basic

/-!
# Reference-counted objects

An object lives as long as somebody who lives holds a strong reference to it, or the system
does. When references go away, objects that nobody holds are freed, which takes away the
references that they held, and so on. Objects that hold each other in a circle stay.

* `mem_collect_iff`: what is left is the largest set of the objects in which every one is held
  by the system or by another one.
-/

namespace LeigodAPM.Foundation

variable {O : Type*} {root : O → Prop} {holds : O → O → Prop}

/-- Every member is held by the system or by a member. -/
def Supported (root : O → Prop) (holds : O → O → Prop) (S : O → Prop) : Prop :=
  ∀ o, S o → root o ∨ ∃ p, S p ∧ holds p o

variable [DecidablePred root] [∀ p o, Decidable (holds p o)]

/-- One round: the objects that nobody holds are freed. -/
def sweep (root : O → Prop) (holds : O → O → Prop) [DecidablePred root]
    [∀ p o, Decidable (holds p o)] (live : List O) : List O :=
  live.filter fun o => root o ∨ ∃ p ∈ live, holds p o

def sweeps (root : O → Prop) (holds : O → O → Prop) [DecidablePred root]
    [∀ p o, Decidable (holds p o)] : ℕ → List O → List O
  | 0, live => live
  | n + 1, live => sweeps root holds n (sweep root holds live)

/-- Each round frees an object or is the last one. -/
def collect (root : O → Prop) (holds : O → O → Prop) [DecidablePred root]
    [∀ p o, Decidable (holds p o)] (live : List O) : List O :=
  sweeps root holds live.length live

theorem mem_sweep {live : List O} {o : O} :
    o ∈ sweep root holds live ↔ o ∈ live ∧ (root o ∨ ∃ p ∈ live, holds p o) := by
  rw [sweep, List.mem_filter, decide_eq_true_iff]

theorem sweeps_of_fixed {live : List O} (hFixed : sweep root holds live = live) (n : ℕ) :
    sweeps root holds n live = live := by
  induction n with
  | zero => rfl
  | succ n ih => rw [sweeps, hFixed, ih]

/-- After as many rounds as there were objects nothing more is freed. -/
theorem sweep_sweeps {n : ℕ} {live : List O} (hLength : live.length ≤ n) :
    sweep root holds (sweeps root holds n live) = sweeps root holds n live := by
  induction n generalizing live with
  | zero =>
    obtain rfl := List.length_eq_zero_iff.mp (Nat.le_zero.mp hLength)
    rfl
  | succ n ih =>
    have hLe : (sweep root holds live).length ≤ live.length := List.length_filter_le _ _
    rcases Nat.eq_or_lt_of_le hLe with hEq | hLt
    · have hFixed : sweep root holds live = live :=
        List.filter_sublist.eq_of_length hEq
      rw [sweeps_of_fixed hFixed, hFixed]
    · rw [sweeps]
      exact ih (by omega)

/-- A supported set loses nothing. -/
theorem mem_sweeps_of_supported {S : O → Prop} (hS : Supported root holds S) (n : ℕ)
    {live : List O} (hLive : ∀ o, S o → o ∈ live) {o : O} (ho : S o) :
    o ∈ sweeps root holds n live := by
  induction n generalizing live with
  | zero => exact hLive o ho
  | succ n ih =>
    refine ih fun x hx => mem_sweep.mpr ⟨hLive x hx, ?_⟩
    rcases hS x hx with hRoot | ⟨p, hp, hHolds⟩
    · exact Or.inl hRoot
    · exact Or.inr ⟨p, hLive p hp, hHolds⟩

theorem sweeps_subset (n : ℕ) {live : List O} {o : O} (ho : o ∈ sweeps root holds n live) :
    o ∈ live := by
  induction n generalizing live with
  | zero => exact ho
  | succ n ih => exact (mem_sweep.mp (ih ho)).1

theorem supported_collect (live : List O) : Supported root holds (· ∈ collect root holds live) := by
  intro o ho
  have hFixed : sweep root holds (sweeps root holds live.length live) =
      sweeps root holds live.length live := sweep_sweeps (Nat.le_refl live.length)
  rw [collect, ← hFixed] at ho
  exact (mem_sweep.mp ho).2

theorem mem_collect_iff {live : List O} {o : O} : o ∈ collect root holds live ↔
    ∃ S : O → Prop, Supported root holds S ∧ (∀ x, S x → x ∈ live) ∧ S o := by
  constructor
  · intro ho
    exact ⟨_, supported_collect live, fun x hx => sweeps_subset _ hx, ho⟩
  · rintro ⟨S, hS, hLive, ho⟩
    exact mem_sweeps_of_supported hS _ hLive ho

end LeigodAPM.Foundation
