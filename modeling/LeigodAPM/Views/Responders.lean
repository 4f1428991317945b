import LeigodAPM.Foundation.Chain
import LeigodAPM.Views.ViewTree

/-!
# The responder chain

The next responder of a view is the controller whose root view it is, else its superview. The
next one of a controller is the controller that presents it, else the superview of its root
view. Three methods of `UIView` follow the chain to a controller of some class.

* `controllers_of_view`: the three searches end. The first controller is the one of the nearest
  view that has one, and the other two searches go on from it.
-/

namespace LeigodAPM

open Foundation

/-- The subclasses of `UIViewController` that the searches tell apart. -/
inductive ControllerClass
  | viewController
  | navigationController
  | tabBarController
  deriving DecidableEq

inductive UIResponder (V C : Type)
  | view (v : V)
  | controller (c : C)

/-- Views and controllers, as UIKit relates them. -/
structure Responders (V C : Type) where
  tree : ViewTree V
  /-- The controller whose root view a view is. -/
  controller : V → Option C
  rootView : C → V
  presenting : C → Option C
  classOf : C → ControllerClass

namespace Responders

variable {V C : Type} (s : Responders V C)

/-- `next` -/
def next : UIResponder V C → Option (UIResponder V C)
  | .view v =>
    match s.controller v with
    | some c => some (.controller c)
    | none => (s.tree.parent v).map .view
  | .controller c =>
    match s.presenting c with
    | some p => some (.controller p)
    | none => (s.tree.parent (s.rootView c)).map .view

/-- `obj as? UIViewController`, where `isClass` says which subclasses are meant. -/
def cast (isClass : ControllerClass → Bool) : UIResponder V C → Bool
  | .view _ => false
  | .controller c => isClass (s.classOf c)

/-- `obj as? UIViewController` -/
def isViewController : UIResponder V C → Bool := s.cast fun _ => true

/-- `obj as? UINavigationController` -/
def isNavigationController : UIResponder V C → Bool := s.cast (· == .navigationController)

/-- `obj as? UITabBarController` -/
def isTabBarController : UIResponder V C → Bool := s.cast (· == .tabBarController)

/-! The methods; `none` when the fuel is spent before they return. -/

def getNavigationController (n : ℕ) (self : V) : Option (Option (UIResponder V C)) :=
  seek s.next s.isNavigationController n (s.next (.view self))

def getTabBarController (n : ℕ) (self : V) : Option (Option (UIResponder V C)) :=
  seek s.next s.isTabBarController n (s.next (.view self))

def getViewController (n : ℕ) (self : V) : Option (Option (UIResponder V C)) :=
  seek s.next s.isViewController n (s.next (.view self))

/-! ## The nearest controller -/

/-- `c` is the controller of `v` or of the nearest view above it that has one. -/
def Nearest (v : V) (c : C) : Prop :=
  ∃ x, Relation.ReflTransGen (fun x y => s.tree.parent x = some y ∧ s.controller x = none) v x ∧
    s.controller x = some c

/-- What the three searches return for a view. -/
structure Found (v : V) (vc nav tab : Option (UIResponder V C)) : Prop where
  viewController : ∀ r, vc = some r ↔ ∃ c, r = .controller c ∧ s.Nearest v c
  navigationController : ∀ r, nav = some r ↔
    ∃ c, vc = some c ∧ First s.next s.isNavigationController c r
  tabBarController : ∀ r, tab = some r ↔
    ∃ c, vc = some c ∧ First s.next s.isTabBarController c r

variable {s}

theorem next_view_of_controller {v : V} {c : C} (h : s.controller v = some c) :
    s.next (.view v) = some (.controller c) := by
  simp only [next, h]

theorem next_view_of_none {v : V} (h : s.controller v = none) :
    s.next (.view v) = (s.tree.parent v).map .view := by
  simp only [next, h]

/-- The first controller of the chain of a view is the nearest one. -/
theorem first_iff_nearest (v : V) (r : UIResponder V C) :
    First s.next s.isViewController (.view v) r ↔ ∃ c, r = .controller c ∧ s.Nearest v c := by
  constructor
  · rintro ⟨hPath, hr⟩
    have hFrom (a : UIResponder V C)
        (hPath : Relation.ReflTransGen
          (fun x y => s.next x = some y ∧ s.isViewController x = false) a r) :
        ∀ v, a = .view v → ∃ c, r = .controller c ∧ s.Nearest v c := by
      induction hPath using Relation.ReflTransGen.head_induction_on with
      | refl =>
        rintro v rfl
        cases hr
      | @head a b hEdge hRest ih =>
        rintro v rfl
        cases hController : s.controller v with
        | some c =>
          have hb := hEdge.1
          rw [next_view_of_controller hController] at hb
          obtain rfl := Option.some.inj hb
          exact ⟨c, First.eq_of_pos ⟨hRest, hr⟩ rfl, v, .refl, hController⟩
        | none =>
          have hb := hEdge.1
          rw [next_view_of_none hController, Option.map_eq_some_iff] at hb
          obtain ⟨p, hParent, rfl⟩ := hb
          obtain ⟨c, hc, x, hAbove, hx⟩ := ih p rfl
          exact ⟨c, hc, x, .head ⟨hParent, hController⟩ hAbove, hx⟩
    exact hFrom (.view v) hPath v rfl
  · rintro ⟨c, rfl, x, hAbove, hx⟩
    induction hAbove using Relation.ReflTransGen.head_induction_on with
    | refl =>
      exact (First.iff_next rfl).mpr ⟨.controller c, next_view_of_controller hx, First.refl rfl⟩
    | @head v p hEdge hRest ih =>
      refine (First.iff_next rfl).mpr ⟨.view p, ?_, ih⟩
      rw [next_view_of_none hEdge.2, hEdge.1, Option.map_some]

/-- The search of a method, which begins at the next responder, as one from the view. -/
theorem exists_seek_view {v : V} (hEnds : Chain.Ends s.next (.view v))
    (isClass : ControllerClass → Bool) :
    ∃ result n, (∀ m, n ≤ m → seek s.next (s.cast isClass) m (s.next (.view v)) = some result) ∧
      ∀ r, result = some r ↔ First s.next (s.cast isClass) (.view v) r := by
  obtain ⟨result, n, hSeek, hResult⟩ := exists_seek hEnds (s.cast isClass)
  exact ⟨result, n, fun m hm => hSeek (m + 1) (Nat.le_succ_of_le hm), hResult⟩

/-- A subclass is found by going on from the first controller. -/
theorem subclass_iff {vc : Option (UIResponder V C)} {v : V}
    (hvc : ∀ r, vc = some r ↔ First s.next s.isViewController (.view v) r)
    (isClass : ControllerClass → Bool) (r : UIResponder V C) :
    First s.next (s.cast isClass) (.view v) r ↔
      ∃ c, vc = some c ∧ First s.next (s.cast isClass) c r := by
  have hClass (x : UIResponder V C) (hx : s.cast isClass x = true) :
      s.isViewController x = true := by
    cases x with
    | view _ => cases hx
    | controller _ => rfl
  rw [First.split hClass]
  exact exists_congr fun c => and_congr_left fun _ => (hvc c).symm

/-- **Controllers of a view.** When the responder chain of a view ends, the searches
return the controller of the nearest view that has one, and from it the first navigation
controller and the first tab bar controller. -/
theorem controllers_of_view (s : Responders V C) (v : V)
    (hEnds : Chain.Ends s.next (.view v)) :
    ∃ vc nav tab n, (∀ m, n ≤ m → s.getViewController m v = some vc ∧
      s.getNavigationController m v = some nav ∧ s.getTabBarController m v = some tab) ∧
      s.Found v vc nav tab := by
  obtain ⟨vc, n, hSeekVc, hvc⟩ := exists_seek_view hEnds fun _ => true
  obtain ⟨nav, k, hSeekNav, hNav⟩ := exists_seek_view hEnds (· == .navigationController)
  obtain ⟨tab, j, hSeekTab, hTab⟩ := exists_seek_view hEnds (· == .tabBarController)
  refine ⟨vc, nav, tab, n + k + j, fun m hm => ⟨?_, ?_, ?_⟩, ?_, ?_, ?_⟩
  · exact hSeekVc m (by omega)
  · exact hSeekNav m (by omega)
  · exact hSeekTab m (by omega)
  · exact fun r => (hvc r).trans (first_iff_nearest v r)
  · exact fun r => (hNav r).trans (subclass_iff hvc _ r)
  · exact fun r => (hTab r).trans (subclass_iff hvc _ r)

/-- A view `true` in the root view `false` of a navigation controller. -/
def inNavigation : Responders Bool Unit where
  tree := ⟨fun v => if v then some false else none, fun v => if v then [] else [true]⟩
  controller v := if v then none else some ()
  rootView _ := false
  presenting _ := none
  classOf _ := .navigationController

/-- A view in the root view of a navigation controller. -/
theorem controllers_of_view_navigation :
    ∃ vc nav tab n, (∀ m, n ≤ m → inNavigation.getViewController m true = some vc ∧
      inNavigation.getNavigationController m true = some nav ∧
      inNavigation.getTabBarController m true = some tab) ∧
      inNavigation.Found true vc nav tab :=
  controllers_of_view inNavigation true
    ⟨3, [.view true, .view false, .controller ()], rfl⟩

end Responders

end LeigodAPM
