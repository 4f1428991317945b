import LeigodAPM.Foundation.MainQueue
import LeigodAPM.UIColor
import LeigodAPM.Views.Geometry

/-!
# Corners and borders of a view

`addCorner(cornerRadii:bounds:borderWith:borderColor:)` and `addCornerBorder` first remove the
sublayers that carry the name of the view's class, and then add a layer of their own. The
border layer carries that name, but the layer that `addCorner` adds has no name: only the mask
has, and the mask is not a sublayer.

* `Decorated.execute`: what is there after any calls.
* `replaced_iff`: once the queued blocks have run, the last call's layer is the only one
  exactly when no earlier call is `addCorner`.
-/

namespace LeigodAPM

open Foundation

/-! ## Layers -/

structure CornerRadii where
  topLeft : ℚ
  topRight : ℚ
  bottomLeft : ℚ
  bottomRight : ℚ
  deriving DecidableEq

/-- The angles are multiples of `π`. -/
structure Arc where
  center : CGPoint
  radius : ℚ
  startAngle : ℚ
  endAngle : ℚ
  clockwise : Bool
  deriving DecidableEq

/-- The raw value of an option set. -/
abbrev UIRectCorner := UInt64

inductive CGPath
  | closed (arcs : List Arc)
  | roundedRect (rect : CGRect) (byRoundingCorners : UIRectCorner) (cornerRadii : CGSize)
  deriving DecidableEq

/-- A layer, with the defaults of a shape layer; `path` is `none` for any other layer. -/
structure CALayer where
  name : Option String := none
  frame : CGRect := .zero
  path : Option CGPath := none
  lineWidth : ℚ := 1
  strokeColor : Option UIColor := none
  fillColor : Option UIColor := some ⟨0, 0, 0, 1⟩
  deriving DecidableEq

/-- A view with the sublayers of its layer, each next to its number as an object, and with
the sublayers that were added to it so far. -/
structure UIView where
  className : String
  bounds : CGRect
  sublayers : List (ℕ × CALayer)
  mask : Option CALayer
  allocated : ℕ
  created : List (ℕ × CALayer)

namespace UIView

/-- A view whose sublayers come from elsewhere. -/
def new (className : String) (bounds : CGRect) (sublayers : List CALayer) : UIView where
  className := className
  bounds := bounds
  sublayers := sublayers.zipIdx.map Prod.swap
  mask := none
  allocated := sublayers.length
  created := []

def createCornerRadii (bounds : CGRect) (cornerRadii : CornerRadii) : CGPath :=
  let topLeft : CGPoint := ⟨bounds.minX + cornerRadii.topLeft, bounds.minY + cornerRadii.topLeft⟩
  let topRight : CGPoint :=
    ⟨bounds.maxX - cornerRadii.topRight, bounds.minY + cornerRadii.topRight⟩
  let bottomLeft : CGPoint :=
    ⟨bounds.minX + cornerRadii.bottomLeft, bounds.maxY - cornerRadii.bottomLeft⟩
  let bottomRight : CGPoint :=
    ⟨bounds.maxX - cornerRadii.bottomRight, bounds.maxY - cornerRadii.bottomRight⟩
  .closed [⟨topLeft, cornerRadii.topLeft, 1, 3 / 2, false⟩,
    ⟨topRight, cornerRadii.topRight, 3 / 2, 0, false⟩,
    ⟨bottomRight, cornerRadii.bottomRight, 0, 1 / 2, false⟩,
    ⟨bottomLeft, cornerRadii.bottomLeft, 1 / 2, 1, false⟩]

/-- The loop over the sublayers: those with the name of the class go. -/
def removeNamed (v : UIView) : UIView :=
  { v with sublayers := v.sublayers.filter fun layer => layer.2.name ≠ some v.className }

def addSublayer (v : UIView) (layer : CALayer) : UIView :=
  { v with
    sublayers := v.sublayers ++ [(v.allocated, layer)]
    allocated := v.allocated + 1
    created := v.created ++ [(v.allocated, layer)] }

/-- `insertSublayer(_:at: 0)` -/
def insertSublayer (v : UIView) (layer : CALayer) : UIView :=
  { v with
    sublayers := (v.allocated, layer) :: v.sublayers
    allocated := v.allocated + 1
    created := v.created ++ [(v.allocated, layer)] }

/-- The block of `addCorner(cornerRadii:bounds:borderWith:borderColor:)`, which does not read
its argument `bounds`. -/
def addCorner (v : UIView) (cornerRadii : CornerRadii) (borderWith : ℚ) (borderColor : UIColor) :
    UIView :=
  let v := v.removeNamed
  let maskPath := createCornerRadii v.bounds cornerRadii
  let v := { v with
    mask := some { frame := v.bounds, name := some v.className, path := some maskPath } }
  v.addSublayer
    { lineWidth := borderWith, strokeColor := some borderColor, fillColor := none,
      path := some maskPath }

/-- The block of `addCornerBorder`. -/
def addCornerBorder (v : UIView) (radius : ℚ) (conrners : UIRectCorner) (borderColor : UIColor)
    (borderWidth : ℚ) (fillColor : UIColor) : UIView :=
  let v := v.removeNamed
  let width := v.bounds.maxX - v.bounds.minX
  let height := v.bounds.maxY - v.bounds.minY
  let tempRect : CGRect := ⟨⟨0, borderWidth * (1 / 2)⟩, ⟨width, height - borderWidth⟩⟩
  v.insertSublayer
    { name := some v.className, frame := v.bounds,
      path := some (.roundedRect tempRect conrners ⟨radius, radius⟩),
      strokeColor := some borderColor, lineWidth := borderWidth, fillColor := some fillColor }

/-- The calls that decorate a view. -/
inductive Decoration
  | addCorner (cornerRadii : CornerRadii) (borderWith : ℚ) (borderColor : UIColor)
  | addCornerBorder (radius : ℚ) (conrners : UIRectCorner) (borderColor : UIColor)
      (borderWidth : ℚ) (fillColor : UIColor)

def execute (v : UIView) : Decoration → UIView
  | .addCorner cornerRadii borderWith borderColor =>
    v.addCorner cornerRadii borderWith borderColor
  | .addCornerBorder radius conrners borderColor borderWidth fillColor =>
    v.addCornerBorder radius conrners borderColor borderWidth fillColor

def Decoration.isCorner : Decoration → Bool
  | .addCorner _ _ _ => true
  | .addCornerBorder _ _ _ _ _ => false

/-- The layer that the last call added is the only one of the calls, and the other sublayers
are those of before, in their order. -/
structure Replaced (before v : UIView) : Prop where
  created : v.sublayers.filter (· ∈ v.created) = v.created.getLast?.toList
  others : v.sublayers.filter (· ∉ v.created) = before.sublayers

/-! ## What the calls leave -/

def Unnamed (layer : ℕ × CALayer) : Prop := layer.2.name = none

instance : DecidablePred Unnamed := fun _ => inferInstanceAs (Decidable (_ = none))

/-- The last layer, if it is a border. -/
def top (v : UIView) : List (ℕ × CALayer) :=
  (v.created.getLast?.filter fun layer => ¬ Unnamed layer).toList

/-- The last border lies below the sublayers of before, and above them are all the layers of
`addCorner`. -/
structure Decorated (before : UIView) (calls : List Decoration) (v : UIView) : Prop where
  className : v.className = before.className
  sublayers : v.sublayers = v.top ++ before.sublayers ++ v.created.filter Unnamed
  names : ∀ layer ∈ v.created, Unnamed layer ∨ layer.2.name = some v.className
  calls : v.created.map (fun layer => decide (Unnamed layer)) = calls.map Decoration.isCorner
  fresh : ∀ layer ∈ before.sublayers, layer.1 < v.allocated ∧ layer ∉ v.created

section Decorations

variable {before v : UIView} {calls : List Decoration}

/-- The last item is all that is left exactly when none before it is kept. -/
theorem getLast?_filter_append_filter {α : Type} (p : α → Prop) [DecidablePred p] (l : List α) :
    (l.getLast?.filter fun a => ¬ p a).toList ++ l.filter p = l.getLast?.toList ↔
      ∀ a ∈ l.dropLast, ¬ p a := by
  rcases List.eq_nil_or_concat l with rfl | ⟨l, a, rfl⟩
  · simp
  · rw [List.concat_eq_append, List.getLast?_concat, List.dropLast_concat, List.filter_append]
    by_cases ha : p a
    · simp [Option.filter, ha]
    · simp [Option.filter, ha]

theorem mem_created_of_mem_top {layer : ℕ × CALayer} (hMem : layer ∈ v.top) :
    layer ∈ v.created ∧ ¬ Unnamed layer := by
  rw [top, Option.mem_toList, Option.filter_eq_some_iff] at hMem
  exact ⟨List.mem_of_getLast? hMem.1, by simpa using hMem.2⟩

/-- The loop removes the border, and nothing else. -/
theorem Decorated.removeNamed (hDecorated : Decorated before calls v)
    (hNames : ∀ layer ∈ before.sublayers, layer.2.name ≠ some before.className) :
    v.removeNamed.sublayers = before.sublayers ++ v.created.filter Unnamed := by
  have hTop : v.top.filter (fun layer => layer.2.name ≠ some v.className) = [] := by
    apply List.filter_eq_nil_iff.mpr
    intro layer hMem
    obtain ⟨hCreated, hNamed⟩ := mem_created_of_mem_top hMem
    have hName := (hDecorated.names layer hCreated).resolve_left hNamed
    simpa using hName
  have hBefore : before.sublayers.filter (fun layer => layer.2.name ≠ some v.className) =
      before.sublayers := by
    apply List.filter_eq_self.mpr
    intro layer hMem
    rw [hDecorated.className]
    exact decide_eq_true (hNames layer hMem)
  have hCorners : (v.created.filter Unnamed).filter
      (fun layer => layer.2.name ≠ some v.className) = v.created.filter Unnamed := by
    apply List.filter_eq_self.mpr
    intro layer hMem
    have hUnnamed : layer.2.name = none := of_decide_eq_true (List.mem_filter.mp hMem).2
    rw [hUnnamed]
    rfl
  rw [UIView.removeNamed, hDecorated.sublayers, List.filter_append, List.filter_append, hTop,
    hBefore, hCorners, List.nil_append]

/-- The sublayers after one more layer. -/
theorem sublayers_of_concat {v' : UIView} {l : ℕ × CALayer} (before : UIView)
    (hCreated : v'.created = v.created ++ [l]) :
    v'.top ++ before.sublayers ++ v'.created.filter Unnamed =
      if Unnamed l then before.sublayers ++ v.created.filter Unnamed ++ [l]
      else l :: (before.sublayers ++ v.created.filter Unnamed) := by
  rw [top, hCreated, List.getLast?_concat, List.filter_append]
  by_cases hUnnamed : Unnamed l
  · simp [Option.filter, hUnnamed]
  · simp [Option.filter, hUnnamed]

/-- One more layer: a corner layer without a name on top, or a border with the name of the
class below all others. -/
theorem Decorated.add (hDecorated : Decorated before calls v)
    (hNames : ∀ layer ∈ before.sublayers, layer.2.name ≠ some before.className)
    {v' : UIView} {layer : CALayer} {call : Decoration} (hClass : v'.className = v.className)
    (hCreated : v'.created = v.created ++ [(v.allocated, layer)])
    (hAllocated : v'.allocated = v.allocated + 1)
    (hName : layer.name = if call.isCorner = true then none else some v.className)
    (hSublayers : v'.sublayers =
      if call.isCorner = true then v.removeNamed.sublayers ++ [(v.allocated, layer)]
      else (v.allocated, layer) :: v.removeNamed.sublayers) :
    Decorated before (calls ++ [call]) v' := by
  have hUnnamed : Unnamed (v.allocated, layer) ↔ call.isCorner = true := by
    rw [Unnamed, hName]
    cases call.isCorner <;> simp
  refine ⟨hClass.trans hDecorated.className, ?_, ?_, ?_, ?_⟩
  · rw [sublayers_of_concat before hCreated, hSublayers, hDecorated.removeNamed hNames]
    simp only [hUnnamed]
  · intro l hMem
    rw [hCreated] at hMem
    rw [hClass]
    rcases List.mem_append.mp hMem with hOld | hNew
    · exact hDecorated.names l hOld
    · rw [List.mem_singleton.mp hNew, Unnamed, hName]
      cases call.isCorner <;> simp
  · rw [hCreated, List.map_append, List.map_append, hDecorated.calls]
    simp [hUnnamed]
  · intro l hMem
    obtain ⟨hLt, hNot⟩ := hDecorated.fresh l hMem
    refine ⟨by omega, ?_⟩
    rw [hCreated]
    intro hIn
    rcases List.mem_append.mp hIn with hOld | hNew
    · exact hNot hOld
    · rw [List.mem_singleton.mp hNew] at hLt
      exact absurd hLt (lt_irrefl _)

theorem Decorated.execute (hDecorated : Decorated before calls v)
    (hNames : ∀ layer ∈ before.sublayers, layer.2.name ≠ some before.className)
    (call : Decoration) : Decorated before (calls ++ [call]) (v.execute call) := by
  cases call with
  | addCorner cornerRadii borderWith borderColor =>
    exact hDecorated.add hNames rfl rfl rfl rfl rfl
  | addCornerBorder radius conrners borderColor borderWidth fillColor =>
    exact hDecorated.add hNames rfl rfl rfl rfl rfl

theorem Decorated.foldl (calls : List Decoration)
    (hNames : ∀ layer ∈ before.sublayers, layer.2.name ≠ some before.className)
    (hNew : Decorated before [] before) :
    Decorated before calls (calls.foldl UIView.execute before) := by
  induction calls using List.reverseRecOn with
  | nil => exact hNew
  | append_singleton calls call ih =>
    rw [List.foldl_append]
    exact ih.execute hNames call

theorem filter_of_forall {α : Type} (p : α → Prop) [DecidablePred p] {l : List α}
    (hAll : ∀ a ∈ l, p a) : l.filter p = l ∧ l.filter (fun a => ¬ p a) = [] :=
  ⟨List.filter_eq_self.mpr fun a ha => decide_eq_true (hAll a ha),
    List.filter_eq_nil_iff.mpr fun a ha => by simpa using hAll a ha⟩

theorem filter_of_forall_not {α : Type} (p : α → Prop) [DecidablePred p] {l : List α}
    (hNone : ∀ a ∈ l, ¬ p a) : l.filter p = [] ∧ l.filter (fun a => ¬ p a) = l :=
  ⟨List.filter_eq_nil_iff.mpr fun a ha => by simpa using hNone a ha,
    List.filter_eq_self.mpr fun a ha => decide_eq_true (hNone a ha)⟩

/-- Which of the sublayers the calls have added. -/
theorem Decorated.filter_created (hDecorated : Decorated before calls v) :
    v.sublayers.filter (· ∈ v.created) = v.top ++ v.created.filter Unnamed ∧
      v.sublayers.filter (· ∉ v.created) = before.sublayers := by
  obtain ⟨hTop, hTop'⟩ := filter_of_forall (· ∈ v.created) (l := v.top)
    fun l hMem => (mem_created_of_mem_top hMem).1
  obtain ⟨hCorners, hCorners'⟩ := filter_of_forall (· ∈ v.created)
    (l := v.created.filter Unnamed) fun l hMem => List.mem_of_mem_filter hMem
  obtain ⟨hBefore, hBefore'⟩ := filter_of_forall_not (· ∈ v.created) (l := before.sublayers)
    fun l hMem => (hDecorated.fresh l hMem).2
  rw [hDecorated.sublayers, List.filter_append, List.filter_append, List.filter_append,
    List.filter_append, hTop, hTop', hBefore, hBefore', hCorners, hCorners', List.append_nil,
    List.append_nil, List.nil_append]
  exact ⟨rfl, rfl⟩

/-- Only the last call may add a corner layer. -/
theorem Decorated.replaced_iff_borders (hDecorated : Decorated before calls v) :
    Replaced before v ↔ ∀ call ∈ calls.dropLast, call.isCorner = false := by
  obtain ⟨hCreated, hOthers⟩ := hDecorated.filter_created
  have hCalls : (∀ l ∈ v.created.dropLast, ¬ Unnamed l) ↔
      ∀ call ∈ calls.dropLast, call.isCorner = false := by
    have hMap := congrArg List.dropLast hDecorated.calls
    rw [← List.map_dropLast, ← List.map_dropLast] at hMap
    have hAll : (∀ b ∈ v.created.dropLast.map (fun l => decide (Unnamed l)), b = false) ↔
        ∀ b ∈ calls.dropLast.map Decoration.isCorner, b = false := by rw [hMap]
    simpa only [List.forall_mem_map, decide_eq_false_iff_not] using hAll
  rw [← hCalls, ← getLast?_filter_append_filter]
  constructor
  · intro hReplaced
    exact hCreated.symm.trans hReplaced.created
  · intro hLast
    exact ⟨hCreated.trans hLast, hOthers⟩

/-- Before the calls all sublayers come from elsewhere. -/
theorem decorated_new (className : String) (bounds : CGRect) (sublayers : List CALayer) :
    Decorated (new className bounds sublayers) [] (new className bounds sublayers) where
  className := rfl
  sublayers := (List.append_nil _).symm
  names _ hMem := absurd hMem List.not_mem_nil
  calls := rfl
  fresh layer hMem := by
    refine ⟨?_, List.not_mem_nil⟩
    obtain ⟨p, hp, rfl⟩ := List.mem_map.mp hMem
    exact List.snd_lt_of_mem_zipIdx hp

end Decorations

/-- **Decorating again.** Once the queue of the blocks is empty, the last call's layer is the
only one of the calls and the other sublayers are as before, exactly when every call before
the last one is `addCornerBorder`. -/
theorem replaced_iff (className : String) (bounds : CGRect) (sublayers : List CALayer)
    (hNames : ∀ layer ∈ sublayers, layer.name ≠ some className)
    (events : List (QueueEvent Decoration)) (q : MainQueue UIView Decoration)
    (hRun : (MainQueue.step execute).run ⟨new className bounds sublayers, []⟩ events = some q)
    (hEmpty : q.blocks = []) :
    Replaced (new className bounds sublayers) q.state ↔
      ∀ call ∈ (MainQueue.posted events).dropLast, call.isCorner = false := by
  have hNames' : ∀ layer ∈ (new className bounds sublayers).sublayers,
      layer.2.name ≠ some className := by
    intro layer hMem
    obtain ⟨p, hp, rfl⟩ := List.mem_map.mp hMem
    exact hNames p.1 (List.fst_mem_of_mem_zipIdx hp)
  rw [MainQueue.state_of_run _ hRun hEmpty]
  have hNew := decorated_new className bounds sublayers
  exact (Decorated.foldl (MainQueue.posted events) hNames' hNew).replaced_iff_borders

/-- A cell with one sublayer of its own gets a border and then rounded corners. -/
theorem replaced_iff_border_corner :
    ∃ q, (MainQueue.step execute).run ⟨new "Cell" .zero [{ lineWidth := 2 }], []⟩
        [.async (.addCornerBorder 4 15 ⟨1, 0, 0, 1⟩ 1 ⟨0, 0, 0, 1⟩), .runNext,
          .async (.addCorner ⟨4, 4, 4, 4⟩ 1 ⟨1, 0, 0, 1⟩), .runNext] = some q ∧
      (Replaced (new "Cell" .zero [{ lineWidth := 2 }]) q.state ↔
        ∀ call ∈ [Decoration.addCornerBorder 4 15 ⟨1, 0, 0, 1⟩ 1 ⟨0, 0, 0, 1⟩],
          call.isCorner = false) := by
  refine ⟨_, rfl, ?_⟩
  exact replaced_iff "Cell" .zero [{ lineWidth := 2 }] (by decide)
    [.async (.addCornerBorder 4 15 ⟨1, 0, 0, 1⟩ 1 ⟨0, 0, 0, 1⟩), .runNext,
      .async (.addCorner ⟨4, 4, 4, 4⟩ 1 ⟨1, 0, 0, 1⟩), .runNext] _ rfl rfl

/-- The corners of a reused cell are rounded twice. -/
theorem corner_layers_accumulate :
    ∃ q, (MainQueue.step execute).run ⟨new "Cell" .zero [], []⟩
        [.async (.addCorner ⟨4, 4, 4, 4⟩ 1 ⟨1, 0, 0, 1⟩), .runNext,
          .async (.addCorner ⟨4, 4, 4, 4⟩ 1 ⟨1, 0, 0, 1⟩), .runNext] = some q ∧
      q.blocks = [] ∧ ¬ Replaced (new "Cell" .zero []) q.state := by
  refine ⟨_, rfl, rfl, fun hReplaced => ?_⟩
  have hLength := congrArg List.length hReplaced.created
  exact absurd hLength (by decide +kernel)

end UIView

end LeigodAPM
