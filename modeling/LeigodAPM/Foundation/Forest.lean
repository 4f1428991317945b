import Mathlib.Data.List.Dedup
import Mathlib.Logic.Function.Basic
import Mathlib.Logic.Relation
import Mathlib.Order.WellFounded

/-!
# Forests that change

Nodes know their parent and their children in order. A node can be detached from its parent,
and attached to a node that is not below it.

* `exists_climb`: going up from a node ends at the root above it.
* `WellFormed.detach`, `WellFormed.attach`: both keep the forest well formed.
* `attachAll_parent`, `attachAll_children`, `detachAll_children`: what attaching and detaching
  many nodes does to every node.
-/

namespace LeigodAPM.Foundation

open Function

variable {V : Type*}

structure Forest (V : Type*) where
  parent : V → Option V
  children : V → List V

namespace Forest

/-- From a node up to another one or to itself. -/
def Below (F : Forest V) : V → V → Prop := Relation.ReflTransGen fun v p => F.parent v = some p

structure WellFormed (F : Forest V) : Prop where
  mem_children : ∀ p v, v ∈ F.children p ↔ F.parent v = some p
  nodup : ∀ p, (F.children p).Nodup
  acyclic : WellFounded fun p v => F.parent v = some p

/-! ## Roots -/

/-- Go up as far as possible; `none` when the fuel is spent before. -/
def climb (parent : V → Option V) : ℕ → V → Option V
  | 0, _ => none
  | n + 1, v =>
    match parent v with
    | none => some v
    | some p => climb parent n p

/-- Above a node there is one root, and with enough fuel `climb` finds it. -/
theorem exists_climb {F : Forest V} (hF : F.WellFormed) (v : V) :
    ∃ r n, F.Below v r ∧ F.parent r = none ∧ ∀ m, n ≤ m → climb F.parent m v = some r := by
  induction v using hF.acyclic.induction with
  | _ v ih =>
    cases hParent : F.parent v with
    | none =>
      refine ⟨v, 1, .refl, hParent, fun m hm => ?_⟩
      obtain ⟨k, rfl⟩ := Nat.exists_eq_add_of_le' hm
      simp only [climb, hParent]
    | some p =>
      obtain ⟨r, n, hBelow, hRoot, hClimb⟩ := ih p hParent
      refine ⟨r, n + 1, .head hParent hBelow, hRoot, fun m hm => ?_⟩
      obtain ⟨k, rfl⟩ := Nat.exists_eq_add_of_le hm
      rw [Nat.add_right_comm]
      simp only [climb, hParent]
      exact hClimb (n + k) (Nat.le_add_right n k)

/-! ## One node -/

variable [DecidableEq V]

def detach (F : Forest V) (v : V) : Forest V where
  parent := update F.parent v none
  children :=
    match F.parent v with
    | none => F.children
    | some p => update F.children p ((F.children p).erase v)

def attach (F : Forest V) (p v : V) : Forest V :=
  let F := F.detach v
  ⟨update F.parent v (some p), update F.children p (F.children p ++ [v])⟩

section One

variable {F : Forest V} {p v : V}

theorem detach_parent (F : Forest V) (v : V) : (F.detach v).parent = update F.parent v none := rfl

theorem detach_children (hF : F.WellFormed) (v q : V) :
    (F.detach v).children q = (F.children q).filter (· ≠ v) := by
  have hOther (hq : F.parent v ≠ some q) : (F.children q).filter (· ≠ v) = F.children q := by
    refine List.filter_eq_self.mpr fun x hx => decide_eq_true ?_
    rintro rfl
    exact hq ((hF.mem_children q x).mp hx)
  have hChildren : (F.detach v).children = match F.parent v with
      | none => F.children
      | some p => update F.children p ((F.children p).erase v) := rfl
  cases hParent : F.parent v with
  | none =>
    rw [hChildren, hParent]
    exact (hOther (by simp [hParent])).symm
  | some p =>
    simp only [hParent] at hChildren
    rw [hChildren]
    by_cases hEq : q = p
    · subst hEq
      rw [update_self, (hF.nodup q).erase_eq_filter]
      simp [bne, beq_eq_decide]
    · rw [update_of_ne hEq]
      exact (hOther (by simp [hParent, Ne.symm hEq])).symm

theorem attach_parent (F : Forest V) (p v : V) :
    (F.attach p v).parent = update F.parent v (some p) := by
  rw [attach, detach_parent, update_idem]

theorem attach_children (hF : F.WellFormed) (p v q : V) : (F.attach p v).children q =
    (F.children q).filter (· ≠ v) ++ if q = p then [v] else [] := by
  have hChildren : (F.attach p v).children =
      update (F.detach v).children p ((F.detach v).children p ++ [v]) := rfl
  rw [hChildren]
  by_cases hEq : q = p
  · subst hEq
    rw [update_self, detach_children hF, if_pos rfl]
  · rw [update_of_ne hEq, detach_children hF, if_neg hEq, List.append_nil]

theorem WellFormed.detach (hF : F.WellFormed) (v : V) : (F.detach v).WellFormed where
  mem_children q x := by
    rw [detach_children hF, detach_parent, List.mem_filter, hF.mem_children]
    by_cases hEq : x = v
    · simp [hEq]
    · simp [hEq]
  nodup q := by
    rw [detach_children hF]
    exact (hF.nodup q).filter _
  acyclic := by
    refine Subrelation.wf (fun {q x} hParent => ?_) hF.acyclic
    rw [detach_parent] at hParent
    by_cases hEq : x = v
    · simp [hEq] at hParent
    · rwa [update_of_ne hEq] at hParent

/-- Nothing above `p` changes, and what is below `v` comes to lie below `p`. -/
theorem acyclic_attach (hF : F.WellFormed) (hBelow : ¬ F.Below p v) :
    WellFounded fun q x => (F.attach p v).parent x = some q := by
  have hUp : ∀ x, ¬ F.Below x v → Acc (fun q x => (F.attach p v).parent x = some q) x := by
    intro x
    induction x using hF.acyclic.induction with
    | _ x ih =>
      intro hx
      have hNe : x ≠ v := fun hEq => hx (hEq ▸ .refl)
      refine Acc.intro x fun q hq => ?_
      rw [attach_parent, update_of_ne hNe] at hq
      exact ih q hq fun hqv => hx (.head hq hqv)
  have hv : Acc (fun q x => (F.attach p v).parent x = some q) v := by
    refine Acc.intro v fun q hq => ?_
    rw [attach_parent, update_self] at hq
    obtain rfl := Option.some.inj hq
    exact hUp p hBelow
  refine ⟨fun x => ?_⟩
  induction x using hF.acyclic.induction with
  | _ x ih =>
    by_cases hEq : x = v
    · rw [hEq]
      exact hv
    · refine Acc.intro x fun q hq => ?_
      rw [attach_parent, update_of_ne hEq] at hq
      exact ih q hq

theorem WellFormed.attach (hF : F.WellFormed) (hBelow : ¬ F.Below p v) :
    (F.attach p v).WellFormed where
  mem_children q x := by
    rw [attach_children hF, attach_parent, List.mem_append, List.mem_filter, hF.mem_children]
    by_cases hEq : x = v
    · by_cases hqp : q = p
      · simp [hEq, hqp]
      · simp [hEq, hqp, Ne.symm hqp]
    · by_cases hqp : q = p
      · simp [hEq, hqp]
      · simp [hEq, hqp]
  nodup q := by
    rw [attach_children hF]
    have hOld := (hF.nodup q).filter fun x => decide (x ≠ v)
    by_cases hqp : q = p
    · rw [if_pos hqp]
      refine List.nodup_append.mpr ⟨hOld, List.nodup_singleton v, ?_⟩
      intro x hx y hy hEq
      rw [hEq, List.mem_singleton.mp hy] at hx
      simp at hx
    · rwa [if_neg hqp, List.append_nil]
  acyclic := acyclic_attach hF hBelow

end One

/-! ## Many nodes -/

def detachAll (F : Forest V) (l : List V) : Forest V := l.foldl detach F

def attachAll (F : Forest V) (p : V) (l : List V) : Forest V := l.foldl (attach · p) F

section Many

variable {F : Forest V} {p : V} {l : List V}

theorem filter_ne_filter_notMem (v : V) (l m : List V) :
    (m.filter (· ≠ v)).filter (· ∉ l) = m.filter (· ∉ v :: l) := by
  rw [List.filter_filter]
  refine List.filter_congr fun x hx => ?_
  simp [Bool.and_comm]

theorem WellFormed.detachAll (hF : F.WellFormed) (l : List V) : (F.detachAll l).WellFormed := by
  induction l generalizing F with
  | nil => exact hF
  | cons v l ih => exact ih (hF.detach v)

theorem detachAll_parent (F : Forest V) (l : List V) (x : V) :
    (F.detachAll l).parent x = if x ∈ l then none else F.parent x := by
  induction l generalizing F with
  | nil => simp [Forest.detachAll]
  | cons v l ih =>
    rw [Forest.detachAll, List.foldl_cons, ← Forest.detachAll, ih, detach_parent]
    by_cases hEq : x = v
    · simp [hEq]
    · simp [hEq]

theorem detachAll_children (hF : F.WellFormed) (l : List V) (q : V) :
    (F.detachAll l).children q = (F.children q).filter (· ∉ l) := by
  induction l generalizing F with
  | nil => simp [Forest.detachAll]
  | cons v l ih =>
    rw [Forest.detachAll, List.foldl_cons, ← Forest.detachAll, ih (hF.detach v),
      detach_children hF, filter_ne_filter_notMem]

/-- Attaching a node to `p` keeps what is above `p`. -/
theorem below_attach {v w : V} (hBelow : ¬ F.Below p v) (hAbove : (F.attach p v).Below p w) :
    F.Below p w := by
  induction hAbove with
  | refl => exact .refl
  | @tail x w hPath hEdge ih =>
    have hNe : x ≠ v := fun hEq => hBelow (hEq ▸ ih)
    rw [attach_parent, update_of_ne hNe] at hEdge
    exact .tail ih hEdge

theorem WellFormed.attachAll (hF : F.WellFormed) (hBelow : ∀ v ∈ l, ¬ F.Below p v) :
    (F.attachAll p l).WellFormed := by
  induction l generalizing F with
  | nil => exact hF
  | cons v l ih =>
    have hv := hBelow v List.mem_cons_self
    exact ih (hF.attach hv) fun w hw hAbove =>
      hBelow w (List.mem_cons_of_mem v hw) (below_attach hv hAbove)

theorem attachAll_parent (F : Forest V) (p : V) (l : List V) (x : V) :
    (F.attachAll p l).parent x = if x ∈ l then some p else F.parent x := by
  induction l generalizing F with
  | nil => simp [Forest.attachAll]
  | cons v l ih =>
    rw [Forest.attachAll, List.foldl_cons, ← Forest.attachAll, ih, attach_parent]
    by_cases hEq : x = v
    · simp [hEq]
    · simp [hEq]

/-- Of a node that is attached more than once the last time counts. -/
theorem attachAll_children (hF : F.WellFormed) (hBelow : ∀ v ∈ l, ¬ F.Below p v) (q : V) :
    (F.attachAll p l).children q =
      (F.children q).filter (· ∉ l) ++ if q = p then l.dedup else [] := by
  induction l generalizing F with
  | nil => simp [Forest.attachAll]
  | cons v l ih =>
    have hv := hBelow v List.mem_cons_self
    have hRest : ∀ w ∈ l, ¬ (F.attach p v).Below p w := fun w hw hAbove =>
      hBelow w (List.mem_cons_of_mem v hw) (below_attach hv hAbove)
    rw [Forest.attachAll, List.foldl_cons, ← Forest.attachAll, ih (hF.attach hv) hRest,
      attach_children hF, List.filter_append, filter_ne_filter_notMem, List.append_assoc]
    congr 1
    by_cases hqp : q = p
    · by_cases hMem : v ∈ l
      · simp [hqp, hMem]
      · simp [hqp, hMem]
    · simp [hqp]

end Many

end Forest

end LeigodAPM.Foundation
