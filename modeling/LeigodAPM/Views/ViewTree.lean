import LeigodAPM.Foundation.Forest
import LeigodAPM.Foundation.Run

/-!
# The view hierarchy

The extension of `UIView` adds and removes whole lists of views and looks for the root view.
UIKit raises an exception when a view is added to itself or to a view below it; the extension
does not check that.

* `execute_spec`: what one operation does to every view.
* `hierarchy_of_run`: as long as UIKit does not raise, the views form a forest and `rootView`
  returns the root.
-/

namespace LeigodAPM

open Foundation Machine

/-- The views; `parent` is `superview`, `children` is `subviews`. -/
abbrev ViewTree (V : Type*) := Forest V

namespace ViewTree

section Queries

variable {V : Type}

/-- `isT` says which views are of the type. -/
def isExistView (t : ViewTree V) (self : V) (isT : V → Bool) : Bool :=
  ((t.children self).filter isT).foldl (fun _ _ => true) false

/-- `rootView()`; `none` when the fuel is spent before it returns. -/
def rootView (t : ViewTree V) : ℕ → V → Option V
  | 0, _ => none
  | n + 1, self =>
    match t.parent self with
    | none => some self
    | some parentView => rootView t n parentView

theorem rootView_eq_climb (t : ViewTree V) (n : ℕ) (v : V) :
    rootView t n v = Forest.climb t.parent n v := by
  induction n generalizing v with
  | zero => rfl
  | succ n ih =>
    rw [rootView, Forest.climb]
    cases t.parent v with
    | none => rfl
    | some p => exact ih p

theorem isExistView_iff (t : ViewTree V) (self : V) (isT : V → Bool) :
    isExistView t self isT = true ↔ ∃ v ∈ t.children self, isT v = true := by
  have hFold (l : List V) (b : Bool) : l.foldl (fun _ _ => true) b = true ↔ b = true ∨ l ≠ [] := by
    cases l with
    | nil => simp
    | cons v l =>
      have hTrue : ∀ l : List V, l.foldl (fun _ _ => true) true = true := fun l => by
        induction l with
        | nil => rfl
        | cons _ _ ih => exact ih
      simp [hTrue l]
  rw [isExistView, hFold]
  simp [List.filter_eq_nil_iff]

/-- A well-formed hierarchy, in which `rootView` returns the root above every view. -/
structure Hierarchy (t : ViewTree V) : Prop where
  wellFormed : Forest.WellFormed t
  rootView : ∀ v, ∃ r n, Forest.Below t v r ∧ t.parent r = none ∧
    ∀ m, n ≤ m → ViewTree.rootView t m v = some r

theorem hierarchy_of_wellFormed {t : ViewTree V} (hTree : Forest.WellFormed t) : Hierarchy t where
  wellFormed := hTree
  rootView v := by
    obtain ⟨r, n, hBelow, hRoot, hClimb⟩ := Forest.exists_climb hTree v
    exact ⟨r, n, hBelow, hRoot, fun m hm => (rootView_eq_climb t m v).trans (hClimb m hm)⟩

end Queries

section Operations

variable {V : Type} [DecidableEq V]

def addSubview (t : ViewTree V) (self v : V) : ViewTree V := t.attach self v

def removeFromSuperview (t : ViewTree V) (v : V) : ViewTree V := t.detach v

/-- `add(subViews:)` -/
def add (t : ViewTree V) (self : V) (subViews : List V) : ViewTree V :=
  subViews.foldl (fun t v => addSubview t self v) t

def addSubviews (t : ViewTree V) (self : V) (views : List V) : ViewTree V :=
  views.foldl (fun t eachView => addSubview t self eachView) t

/-- `remove(subViews:)`, which does not look at the superviews. -/
def remove (t : ViewTree V) (subViews : List V) : ViewTree V :=
  subViews.foldl removeFromSuperview t

def removeSubviews (t : ViewTree V) (views : List V) : ViewTree V :=
  views.foldl removeFromSuperview t

def removeAllSubviews (t : ViewTree V) (self : V) : ViewTree V :=
  (t.children self).foldl removeFromSuperview t

def removeTargetView (t : ViewTree V) (self : V) (isT : V → Bool) : ViewTree V :=
  ((t.children self).filter isT).foldl removeFromSuperview t

inductive Operation (V : Type)
  | addSubview (self v : V)
  | removeFromSuperview (v : V)
  | add (self : V) (subViews : List V)
  | addSubviews (self : V) (views : List V)
  | remove (subViews : List V)
  | removeSubviews (views : List V)
  | removeAllSubviews (self : V)
  | removeTargetView (self : V) (isT : V → Bool)

def execute (t : ViewTree V) : Operation V → ViewTree V
  | .addSubview self v => addSubview t self v
  | .removeFromSuperview v => removeFromSuperview t v
  | .add self subViews => add t self subViews
  | .addSubviews self views => addSubviews t self views
  | .remove subViews => remove t subViews
  | .removeSubviews views => removeSubviews t views
  | .removeAllSubviews self => removeAllSubviews t self
  | .removeTargetView self isT => removeTargetView t self isT

def step : Machine (ViewTree V) (Operation V) := fun t op => some (execute t op)

/-- The views that are added, and to which view. -/
def Operation.adds : Operation V → Option (V × List V)
  | .addSubview self v => some (self, [v])
  | .add self subViews => some (self, subViews)
  | .addSubviews self views => some (self, views)
  | _ => none

/-- The views that are removed. -/
def Operation.removes (t : ViewTree V) : Operation V → List V
  | .removeFromSuperview v => [v]
  | .remove subViews => subViews
  | .removeSubviews views => views
  | .removeAllSubviews self => t.children self
  | .removeTargetView self isT => (t.children self).filter isT
  | _ => []

/-- UIKit raises no exception: no view is added to itself or to a view below it. -/
def Operation.Legal (t : ViewTree V) (op : Operation V) : Prop :=
  ∀ self views, op.adds = some (self, views) → ∀ v ∈ views, ¬ Forest.Below t self v

/-- An operation attaches all views or detaches all views. -/
theorem execute_cases (t : ViewTree V) (op : Operation V) :
    (∃ self views, op.adds = some (self, views) ∧ op.removes t = [] ∧
      execute t op = Forest.attachAll t self views) ∨
    (op.adds = none ∧ execute t op = Forest.detachAll t (op.removes t)) := by
  cases op with
  | addSubview self v => exact Or.inl ⟨self, [v], rfl, rfl, rfl⟩
  | add self subViews => exact Or.inl ⟨self, subViews, rfl, rfl, rfl⟩
  | addSubviews self views => exact Or.inl ⟨self, views, rfl, rfl, rfl⟩
  | _ => exact Or.inr ⟨rfl, rfl⟩

variable {t : ViewTree V} {op : Operation V}

theorem wellFormed_execute (hTree : Forest.WellFormed t) (hLegal : op.Legal t) :
    Forest.WellFormed (execute t op) := by
  rcases execute_cases t op with ⟨self, views, hAdds, -, hEq⟩ | ⟨-, hEq⟩
  · rw [hEq]
    exact hTree.attachAll (hLegal self views hAdds)
  · rw [hEq]
    exact hTree.detachAll _

/-- The superview of every view after an operation. -/
def Operation.superview (t : ViewTree V) (op : Operation V) (x : V) : Option V :=
  match op.adds with
  | some (self, views) => if x ∈ views then some self else t.parent x
  | none => if x ∈ op.removes t then none else t.parent x

/-- The subviews of every view after an operation: the views that are moved go, those that are
added come last, each where it was named last. -/
def Operation.subviews (t : ViewTree V) (op : Operation V) (x : V) : List V :=
  match op.adds with
  | some (self, views) =>
    (t.children x).filter (· ∉ views) ++ if x = self then views.dedup else []
  | none => (t.children x).filter (· ∉ op.removes t)

/-- **Operations.** An operation moves the views that it names and no others. -/
theorem execute_spec (hTree : Forest.WellFormed t) (hLegal : op.Legal t) (x : V) :
    (execute t op).parent x = op.superview t x ∧ (execute t op).children x = op.subviews t x := by
  rcases execute_cases t op with ⟨self, views, hAdds, -, hEq⟩ | ⟨hAdds, hEq⟩
  · simp only [Operation.superview, Operation.subviews, hAdds, hEq]
    exact ⟨Forest.attachAll_parent t self views x,
      Forest.attachAll_children hTree (hLegal self views hAdds) x⟩
  · simp only [Operation.superview, Operation.subviews, hAdds, hEq]
    exact ⟨Forest.detachAll_parent t _ x, Forest.detachAll_children hTree _ x⟩

/-! ## Runs -/

/-- After `removeTargetView` no subview of the type is left. -/
theorem isExistView_removeTargetView (hTree : Forest.WellFormed t) (self : V) (isT : V → Bool) :
    isExistView (removeTargetView t self isT) self isT = false := by
  have hChildren : (removeTargetView t self isT).children self =
      (t.children self).filter (· ∉ (t.children self).filter isT) :=
    Forest.detachAll_children hTree _ self
  rw [← Bool.not_eq_true, isExistView_iff, hChildren]
  rintro ⟨v, hv, hT⟩
  simp_all [List.mem_filter]

/-- An operation moves the views that it names, and no others. -/
structure Moves (t : ViewTree V) (op : Operation V) (t' : ViewTree V) : Prop where
  superview : ∀ x, t'.parent x = op.superview t x
  subviews : ∀ x, t'.children x = op.subviews t x
  removed : ∀ self isT, op = .removeTargetView self isT → isExistView t' self isT = false

theorem moves_execute (hTree : Forest.WellFormed t) (hLegal : op.Legal t) :
    Moves t op (execute t op) where
  superview x := (execute_spec hTree hLegal x).1
  subviews x := (execute_spec hTree hLegal x).2
  removed self isT hEq := by
    subst hEq
    exact isExistView_removeTargetView hTree self isT

/-- **The hierarchy.** As long as UIKit raises no exception, every state of a run is a forest in
which `rootView` returns the root above a view, and every step moves the views that it names
and no others. -/
theorem hierarchy_of_run (start : ViewTree V) (ops : List (Operation V))
    (hStart : Forest.WellFormed start)
    (hLegal : step.EachAttempt (fun t op => op.Legal t) start ops) :
    step.Always (fun _ t => Hierarchy t) start ops ∧
      step.EachStep (fun _ t op => Moves t op (execute t op)) start ops := by
  have hAlways : step.Always (fun _ t => Forest.WellFormed t) start ops := by
    refine always_of_eachStep (C := fun _ t op => op.Legal t) hStart ?_ ?_
    · intro h t op t' hTree hOp hStep
      obtain rfl := Option.some.inj hStep
      exact wellFormed_execute hTree hOp
    · exact fun h op t t' hh hRun _ => hLegal h op t hh hRun
  refine ⟨hAlways.mono fun h t hTree => hierarchy_of_wellFormed hTree, ?_⟩
  intro h op t t' hh hRun _
  exact moves_execute (hAlways h t ((List.prefix_append h [op]).trans hh) hRun)
    (hLegal h op t hh hRun)

/-- Two views under a root, one of which goes again. -/
theorem hierarchy_of_run_two_views :
    step.Always (fun _ t => Hierarchy t) ⟨fun _ => none, fun _ => []⟩
        [.add 0 [1, 2], .removeTargetView 0 (· == 2)] ∧
      step.EachStep (fun _ t op => Moves t op (execute t op)) ⟨fun _ => none, fun _ => []⟩
        [.add 0 [1, 2], .removeTargetView 0 (· == 2)] := by
  refine hierarchy_of_run ⟨fun _ => none, fun _ => []⟩ _ ⟨by simp, by simp, ?_⟩ ?_
  · exact ⟨fun v => Acc.intro v fun p hp => by cases hp⟩
  · refine eachAttempt_cons.mpr ⟨?_, fun t _ => eachAttempt_cons.mpr ⟨?_, fun t _ => by simp⟩⟩
    · rintro self views hAdds v hv hBelow
      obtain ⟨rfl, rfl⟩ := Prod.mk.inj (Option.some.inj hAdds)
      rcases hBelow.cases_head with hEq | ⟨p, hp, -⟩
      · subst hEq
        simp at hv
      · cases hp
    · intro self views hAdds
      cases hAdds

end Operations

end ViewTree

end LeigodAPM
