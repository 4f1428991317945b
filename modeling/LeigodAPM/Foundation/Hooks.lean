import Mathlib.Data.List.Nodup
import Mathlib.Logic.Function.Basic
import Mathlib.Logic.Relation

/-!
# Hooks that save and restore their predecessor

Several parties share one slot that holds the current hook. Installing a hook reads the
slot, saves what it finds and writes the hook; uninstalling writes the saved hook back;
a hook that runs calls the one it saved. The saved hooks form chains.

* `Chain.follow` runs along a chain with fuel; `Chain.Ends` says that it comes to an
  end. A chain that ends visits no hook twice (`Chain.follow_nodup`).
* `Hooks.install_acyclic`: installing a hook that is not on the chain of the current one
  keeps every chain finite, whatever the order of earlier uninstalls.
* `Hooks.install_cyclic`: installing a hook that is already on the chain of the current
  one makes the new chain endless.
-/

namespace LeigodAPM.Foundation

namespace Chain

variable {α : Type*} {next : α → Option α}

/-- The elements from `a` to the end of its chain; `none` when the fuel is spent first. -/
def follow (next : α → Option α) : ℕ → α → Option (List α)
  | 0, _ => none
  | n + 1, a =>
    match next a with
    | none => some [a]
    | some b => (follow next n b).map (a :: ·)

/-- The chain of `a` is finite. -/
def Ends (next : α → Option α) (a : α) : Prop := ∃ n l, follow next n a = some l

/-- Some number of pointers leads from `a` to `b`. -/
def Leads (next : α → Option α) (a b : α) : Prop :=
  Relation.ReflTransGen (fun x y => next x = some y) a b

theorem follow_succ_none {a : α} (h : next a = none) (n : ℕ) :
    follow next (n + 1) a = some [a] := by
  simp [follow, h]

theorem follow_succ_some {a b : α} (h : next a = some b) (n : ℕ) :
    follow next (n + 1) a = (follow next n b).map (a :: ·) := by
  simp [follow, h]

theorem ends_of_none {a : α} (h : next a = none) : Ends next a :=
  ⟨1, [a], follow_succ_none h 0⟩

theorem ends_of_some {a b : α} (h : next a = some b) (hb : Ends next b) : Ends next a := by
  obtain ⟨n, l, hl⟩ := hb
  exact ⟨n + 1, a :: l, by rw [follow_succ_some h, hl]; rfl⟩

/-- Fuel that suffices for `a` suffices for everything further down its chain. -/
theorem follow_of_leads {a b : α} (h : Leads next a b) :
    ∀ {n l}, follow next n a = some l →
      ∃ m l', m ≤ n ∧ follow next m b = some l' := by
  induction h using Relation.ReflTransGen.head_induction_on with
  | refl => intro n l hl; exact ⟨n, l, Nat.le_refl n, hl⟩
  | @head x y hxy _ ih =>
    intro n l hl
    cases n with
    | zero => cases hl
    | succ n =>
      rw [follow_succ_some hxy] at hl
      obtain ⟨l', hl', _⟩ := Option.map_eq_some_iff.mp hl
      obtain ⟨m, k, hm, hk⟩ := ih hl'
      exact ⟨m, k, by omega, hk⟩

/-- A chain that comes back to its start is endless. The induction is on the fuel: going
once around the cycle would need less of it. -/
theorem follow_cycle {a b : α} (hab : next a = some b) (hba : Leads next b a) (n : ℕ) :
    follow next n a = none := by
  induction n using Nat.strongRecOn with
  | ind n ih =>
    cases n with
    | zero => rfl
    | succ n =>
      rw [follow_succ_some hab, Option.map_eq_none_iff]
      by_contra hne
      obtain ⟨l, hl⟩ := Option.ne_none_iff_exists'.mp hne
      obtain ⟨m, l', hm, hl'⟩ := follow_of_leads hba hl
      rw [ih m (by omega)] at hl'
      cases hl'

theorem not_ends_of_cycle {a b : α} (hab : next a = some b) (hba : Leads next b a) :
    ¬ Ends next a := by
  rintro ⟨n, l, hl⟩
  rw [follow_cycle hab hba n] at hl
  cases hl

theorem leads_of_mem_follow {n : ℕ} {a b : α} {l : List α} (hl : follow next n a = some l)
    (hb : b ∈ l) : Leads next a b := by
  induction n generalizing a l with
  | zero => cases hl
  | succ n ih =>
    cases hNext : next a with
    | none =>
      rw [follow_succ_none hNext] at hl
      cases hl
      obtain rfl : b = a := by simpa using hb
      exact .refl
    | some c =>
      rw [follow_succ_some hNext] at hl
      obtain ⟨l', hl', rfl⟩ := Option.map_eq_some_iff.mp hl
      rcases List.mem_cons.mp hb with rfl | hb
      · exact .refl
      · exact .head hNext (ih hl' hb)

/-- A finite chain visits nothing twice. -/
theorem follow_nodup {n : ℕ} {a : α} {l : List α} (hl : follow next n a = some l) :
    l.Nodup := by
  induction n generalizing a l with
  | zero => cases hl
  | succ n ih =>
    cases hNext : next a with
    | none =>
      rw [follow_succ_none hNext] at hl
      cases hl
      simp
    | some b =>
      have hEnds : Ends next a := ⟨n + 1, l, hl⟩
      rw [follow_succ_some hNext] at hl
      obtain ⟨l', hl', rfl⟩ := Option.map_eq_some_iff.mp hl
      refine List.nodup_cons.mpr ⟨fun ha => ?_, ih hl'⟩
      exact not_ends_of_cycle hNext (leads_of_mem_follow hl' ha) hEnds

/-! ## Redirecting one pointer -/

section Update

variable [DecidableEq α] {a b : α}

/-- Chains that never reach `a` do not see its pointer change. -/
theorem ends_update_of_not_leads {o : Option α} {x : α} (hx : Ends next x)
    (hxa : ¬ Leads next x a) : Ends (Function.update next a o) x := by
  obtain ⟨n, l, hl⟩ := hx
  induction n generalizing x l with
  | zero => cases hl
  | succ n ih =>
    have hne : x ≠ a := by
      rintro rfl
      exact hxa .refl
    cases hNext : next x with
    | none => exact ends_of_none (by rw [Function.update_of_ne hne, hNext])
    | some y =>
      rw [follow_succ_some hNext] at hl
      obtain ⟨l', hl', _⟩ := Option.map_eq_some_iff.mp hl
      refine ends_of_some (b := y) (by rw [Function.update_of_ne hne, hNext]) (ih ?_ l' hl')
      exact fun hya => hxa (.head hNext hya)

/-- Pointing `a` at something that does not lead back to `a` keeps all chains finite. -/
theorem ends_update {o : Option α} (hEnds : ∀ x, Ends next x)
    (ho : ∀ b, o = some b → ¬ Leads next b a) (x : α) :
    Ends (Function.update next a o) x := by
  have ha : Ends (Function.update next a o) a := by
    cases hb : o with
    | none => exact ends_of_none (by simp)
    | some b =>
      subst hb
      exact ends_of_some (b := b) (by simp)
        (ends_update_of_not_leads (hEnds b) (ho b rfl))
  obtain ⟨n, l, hl⟩ := hEnds x
  induction n generalizing x l with
  | zero => cases hl
  | succ n ih =>
    by_cases hxa : x = a
    · exact hxa ▸ ha
    · cases hNext : next x with
      | none => exact ends_of_none (by rw [Function.update_of_ne hxa, hNext])
      | some y =>
        rw [follow_succ_some hNext] at hl
        obtain ⟨l', hl', _⟩ := Option.map_eq_some_iff.mp hl
        exact ends_of_some (b := y) (by rw [Function.update_of_ne hxa, hNext]) (ih y l' hl')

/-- A path to `a` does not use the pointer of `a`, so it survives when that changes. -/
theorem leads_update {o : Option α} (h : Leads next b a) :
    Leads (Function.update next a o) b a := by
  induction h using Relation.ReflTransGen.head_induction_on with
  | refl => exact .refl
  | @head x y hxy _ ih =>
    by_cases hxa : x = a
    · subst hxa
      exact .refl
    · exact .head (by rw [Function.update_of_ne hxa, hxy]) ih

end Update

end Chain

/-! ## The shared slot -/

/-- The slot, the hook each party saved when it last installed its own, and the parties
that count themselves as installed. -/
structure Hooks (α : Type*) where
  current : Option α
  saved : α → Option α
  installed : α → Bool

namespace Hooks

open Chain

variable {α : Type*} [DecidableEq α]

/-- Save the current hook and become the current one; nothing when already installed. -/
def install (s : Hooks α) (a : α) : Hooks α :=
  if s.installed a then s
  else
    { current := some a
      saved := Function.update s.saved a s.current
      installed := Function.update s.installed a true }

/-- Write the saved hook back, whoever is current; nothing when not installed. -/
def uninstall (s : Hooks α) (a : α) : Hooks α :=
  if s.installed a then
    { s with
      current := s.saved a
      installed := Function.update s.installed a false }
  else s

/-- Every chain of saved hooks is finite. -/
def Acyclic (s : Hooks α) : Prop := ∀ a, Ends s.saved a

/-- `a` is one of the hooks that run when the current hook runs. -/
def OnChain (s : Hooks α) (a : α) : Prop := ∃ b, s.current = some b ∧ Leads s.saved b a

theorem uninstall_acyclic {s : Hooks α} (h : s.Acyclic) (a : α) : (s.uninstall a).Acyclic := by
  unfold uninstall
  split
  · exact h
  · exact h

/-- Installing a hook that is not on the current chain keeps every chain finite. -/
theorem install_acyclic {s : Hooks α} (h : s.Acyclic) {a : α}
    (ha : s.installed a = false → ¬ s.OnChain a) : (s.install a).Acyclic := by
  unfold install
  split
  · exact h
  · rename_i hInst
    apply ends_update h
    intro b hb hLeads
    exact ha (by simpa using hInst) ⟨b, hb, hLeads⟩

/-- Installing a hook that is on the current chain puts a cycle in the slot. -/
theorem install_cyclic {s : Hooks α} {a : α} (hInst : s.installed a = false)
    (ha : s.OnChain a) : (s.install a).current = some a ∧ ¬ Ends (s.install a).saved a := by
  obtain ⟨b, hb, hLeads⟩ := ha
  have hEq : s.install a =
      { current := some a
        saved := Function.update s.saved a s.current
        installed := Function.update s.installed a true } := by
    simp [install, hInst]
  rw [hEq]
  refine ⟨rfl, not_ends_of_cycle (b := b) (by simp [hb]) (leads_update hLeads)⟩

end Hooks

end LeigodAPM.Foundation
