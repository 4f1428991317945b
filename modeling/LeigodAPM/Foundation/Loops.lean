import Mathlib.Algebra.BigOperators.Group.List.Basic
import Mathlib.Algebra.Ring.Nat
import Mathlib.Data.List.Basic
import Mathlib.Data.List.Induction

/-!
# Loops over a list

A loop over a list is `List.foldlM` in a monad with a state and errors. The body of a
guarded loop fails, with one error, on the items that break the guard, and is a pure
function on the others. Other loops add a part of each item to a 32-bit counter, or
configure a view with each item, which overwrites the one before it.

* `Guarded.foldlM_pass`, `Guarded.foldlM_fail`: the loop fails exactly when some item
  breaks the guard, and is otherwise the pure loop.
* `foldl_last_write`, `foldl_showing`: of the writes to one variable, or of the
  configurations of one view, the last one stays.
* `Tallies.foldl_toNat`: a counter is the sum of the parts modulo `2 ^ 32`.
* `tally_perm`, `tally_append`, `tally_insert`: the sum does not depend on the order of the
  items, nor on the items without a part.
-/

namespace LeigodAPM.Foundation

/-! ## Loops that may fail -/

section Failing

variable {σ ε α β : Type}

/-- `body` is `next` on the items that meet `guard` and throws `fault` on the others. -/
structure Guarded (body : β → α → StateT σ (Except ε) β) (guard : α → Prop)
    (next : β → α → β) (fault : ε) : Prop where
  pass : ∀ b a s, guard a → body b a s = .ok (next b a, s)
  fail : ∀ b a s, ¬ guard a → body b a s = .error fault

theorem foldlM_cons_apply (body : β → α → StateT σ (Except ε) β) (b : β) (a : α) (l : List α)
    (s : σ) : (a :: l).foldlM body b s = (body b a s).bind fun p => l.foldlM body p.1 p.2 := rfl

section Guarded

variable {body : β → α → StateT σ (Except ε) β} {guard : α → Prop} {next : β → α → β} {fault : ε}
  {l : List α}

theorem Guarded.foldlM_pass (hBody : Guarded body guard next fault) (hAll : ∀ a ∈ l, guard a)
    (b : β) (s : σ) : l.foldlM body b s = .ok (l.foldl next b, s) := by
  induction l generalizing b with
  | nil => rfl
  | cons a l ih =>
    rw [foldlM_cons_apply, hBody.pass b a s (hAll a List.mem_cons_self)]
    exact ih (fun x hx => hAll x (List.mem_cons_of_mem a hx)) (next b a)

theorem Guarded.foldlM_fail (hBody : Guarded body guard next fault) (hNot : ¬ ∀ a ∈ l, guard a)
    (b : β) (s : σ) : l.foldlM body b s = .error fault := by
  induction l generalizing b with
  | nil => exact absurd nofun hNot
  | cons a l ih =>
    rw [foldlM_cons_apply]
    by_cases hGuard : guard a
    · rw [hBody.pass b a s hGuard]
      exact ih (fun hRest => hNot (List.forall_mem_cons.mpr ⟨hGuard, hRest⟩)) (next b a)
    · rw [hBody.fail b a s hGuard]
      rfl

end Guarded

/-- The last write stays, or the value before the loop when there is none. -/
theorem foldl_last_write {γ : Type} (write : α → Option γ) (value : γ → β) (l : List α) (b : β) :
    l.foldl (fun b a => (write a).elim b value) b =
      ((l.filterMap write).getLast?).elim b value := by
  induction l using List.reverseRecOn with
  | nil => rfl
  | append_singleton l a ih =>
    rw [List.foldl_append, ih, List.filterMap_append]
    cases hWrite : write a with
    | none => simp [hWrite]
    | some v => simp [hWrite]

end Failing

/-! ## Views that show a last value -/

section Showing

variable {V A : Type*} {configure : V → A → V}

/-- A later configuration leaves nothing of an earlier one. -/
def Overwrites (configure : V → A → V) : Prop :=
  ∀ v a b, configure (configure v a) b = configure v b

/-- What a view shows after it has been configured with the values in order. -/
def showing (configure : V → A → V) (initial : V) (values : List A) : V :=
  match values.getLast? with
  | some a => configure initial a
  | none => initial

@[simp] theorem showing_nil (initial : V) : showing configure initial [] = initial := rfl

theorem showing_concat (hOver : Overwrites configure) (initial : V) (values : List A) (a : A) :
    showing configure initial (values ++ [a]) = configure (showing configure initial values) a := by
  rw [showing, List.getLast?_concat, showing]
  cases values.getLast? with
  | none => rfl
  | some b => exact (hOver initial b a).symm

theorem foldl_showing (hOver : Overwrites configure) (initial : V) (values more : List A) :
    more.foldl configure (showing configure initial values) =
      showing configure initial (values ++ more) := by
  induction more using List.reverseRecOn with
  | nil => rw [List.foldl_nil, List.append_nil]
  | append_singleton more a ih =>
    rw [List.foldl_append, ih, ← List.append_assoc, showing_concat hOver]
    rfl

end Showing

/-! ## Wrapping counters -/

section Counters

variable {α β : Type}

/-- `next` adds the part of the item to the counter `get`. -/
def Tallies (next : β → α → β) (get : β → UInt32) (part : α → Option UInt32) : Prop :=
  ∀ b a, get (next b a) = get b + (part a).getD 0

/-- The sum of the parts, as a natural number. -/
def tally (part : α → Option UInt32) (l : List α) : ℕ :=
  ((l.filterMap part).map UInt32.toNat).sum

section Tally

variable {part : α → Option UInt32}

theorem tally_cons (a : α) (l : List α) :
    tally part (a :: l) = ((part a).getD 0).toNat + tally part l := by
  cases hPart : part a with
  | none => simp [tally, hPart]
  | some n => simp [tally, hPart]

theorem tally_append (l l' : List α) : tally part (l ++ l') = tally part l + tally part l' := by
  simp [tally]

theorem tally_perm {l l' : List α} (hPerm : l.Perm l') : tally part l = tally part l' :=
  ((hPerm.filterMap part).map UInt32.toNat).sum_eq

/-- An item without a part can be inserted and removed. -/
theorem tally_insert {a : α} (hPart : part a = none) (l l' : List α) :
    tally part (l ++ a :: l') = tally part (l ++ l') := by
  simp [tally, hPart]

theorem Tallies.foldl_toNat {next : β → α → β} {get : β → UInt32}
    (hNext : Tallies next get part) (l : List α) (b : β) :
    (get (l.foldl next b)).toNat = ((get b).toNat + tally part l) % UInt32.size := by
  induction l generalizing b with
  | nil => exact (Nat.mod_eq_of_lt (get b).toNat_lt).symm
  | cons a l ih =>
    have hSum : (get (next b a)).toNat =
        ((get b).toNat + ((part a).getD 0).toNat) % UInt32.size := by
      rw [hNext b a]
      exact UInt32.toNat_add _ _
    rw [List.foldl_cons, ih, hSum, Nat.mod_add_mod, Nat.add_assoc, tally_cons]

end Tally

end Counters

end LeigodAPM.Foundation
