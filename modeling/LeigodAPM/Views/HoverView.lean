import LeigodAPM.Foundation.Bounds
import LeigodAPM.Views.Geometry
import Mathlib.Algebra.BigOperators.Group.List.Basic
import Mathlib.Data.List.Induction
import Mathlib.Tactic.Linarith
import Mathlib.Tactic.NormNum
import Mathlib.Tactic.Ring

/-!
# Dragging the floating view

A touch moves the center of the view by its offsets. At the end of a drag `correctLocation`
places the center at a distance from the edges that is made of a margin and half of `size`,
a constant of the class that need not be the size of the view.

* `moved_eq`: during a drag the center is the first one plus the offsets.
* `settles_iff`: every drag settles the view at its margins exactly when the view is as wide
  as `size`, the screen has room for `size`, and a higher view is dragged to a place between
  its margins.
-/

namespace LeigodAPM

open Foundation

/-- A touch, in the coordinates of the view. -/
structure UITouch where
  location : CGPoint
  previousLocation : CGPoint

structure NNHoverView where
  screenW : ℚ
  screenH : ℚ
  /-- The size of the frame. -/
  bounds : CGSize
  center : CGPoint
  beginPoint : CGPoint
  /-- How often `handle` was called. -/
  handled : ℕ

namespace NNHoverView

def size : CGSize := ⟨100, 100⟩
def topMinMargin : ℚ := 88
def bottomMinMargin : ℚ := 88
def leftMinMargin : ℚ := 20
def rightMinMargin : ℚ := 20

/-- `init(frame:)` on a screen. -/
def new (screen : CGSize) (frame : CGRect) : NNHoverView where
  screenW := screen.width
  screenH := screen.height
  bounds := frame.size
  center := ⟨frame.origin.x + frame.size.width / 2, frame.origin.y + frame.size.height / 2⟩
  beginPoint := ⟨0, 0⟩
  handled := 0

/-- The view of `EyesManager`. -/
def settingView (screen : CGSize) : NNHoverView :=
  new screen ⟨⟨screen.width - 50, 100⟩, ⟨50, 50⟩⟩

/-- The rectangle around the center. -/
def frame (v : NNHoverView) : CGRect :=
  ⟨⟨v.center.x - v.bounds.width / 2, v.center.y - v.bounds.height / 2⟩, v.bounds⟩

def offset (touch : UITouch) : CGPoint :=
  ⟨touch.location.x - touch.previousLocation.x, touch.location.y - touch.previousLocation.y⟩

/-- The center moved by the offset of a touch. -/
def centerAfter (v : NNHoverView) (touch : UITouch) : CGPoint :=
  ⟨(offset touch).x + v.center.x, (offset touch).y + v.center.y⟩

/-- The argument is `touches.first`. -/
def touchesBegan (v : NNHoverView) : Option UITouch → NNHoverView
  | some touch => { v with beginPoint := v.centerAfter touch }
  | none => v

def touchesMoved (v : NNHoverView) : Option UITouch → NNHoverView
  | some touch => { v with center := v.centerAfter touch }
  | none => v

/-- The state after the animation. -/
def correctLocation (v : NNHoverView) : NNHoverView :=
  let x := if v.center.x > v.screenW * (1 / 2) then
      v.screenW - (rightMinMargin + size.width * (1 / 2))
    else leftMinMargin + size.width * (1 / 2)
  let y := if v.center.y < topMinMargin + size.height * (1 / 2) then
      topMinMargin + size.height * (1 / 2)
    else if v.center.y > v.screenH - (bottomMinMargin + size.height * (1 / 2)) then
      v.screenH - (bottomMinMargin + size.height * (1 / 2))
    else v.center.y
  { v with center := ⟨x, y⟩ }

def touchesEnded (v : NNHoverView) : Option UITouch → NNHoverView
  | some touch =>
    if v.centerAfter touch = v.beginPoint then { v with handled := v.handled + 1 }
    else v.correctLocation
  | none => v

/-! ## Gestures -/

/-- The state at the end of the moves of a gesture. -/
def moved (v : NNHoverView) (began : UITouch) (moves : List UITouch) : NNHoverView :=
  moves.foldl (fun v touch => v.touchesMoved (some touch)) (v.touchesBegan (some began))

/-- The sum of the offsets of the moves. -/
def sumX (moves : List UITouch) : ℚ := (moves.map fun touch => (offset touch).x).sum
def sumY (moves : List UITouch) : ℚ := (moves.map fun touch => (offset touch).y).sum

/-- The view has a size that fits between the margins of the screen. -/
structure Fits (v : NNHoverView) : Prop where
  width_nonneg : 0 ≤ v.bounds.width
  height_nonneg : 0 ≤ v.bounds.height
  width : leftMinMargin + v.bounds.width + rightMinMargin ≤ v.screenW
  height : topMinMargin + v.bounds.height + bottomMinMargin ≤ v.screenH

/-- The view that ended with its center at `center` lies at the margin of that half, between
the other margins, and is not moved by another correction. -/
structure Settled (center : CGPoint) (v : NNHoverView) : Prop where
  right : center.x > v.screenW / 2 → v.frame.maxX = v.screenW - rightMinMargin
  left : ¬ center.x > v.screenW / 2 → v.frame.minX = leftMinMargin
  top : topMinMargin ≤ v.frame.minY
  bottom : v.frame.maxY ≤ v.screenH - bottomMinMargin
  again : v.correctLocation = v

/-- A whole gesture: the center follows the moves, and the end of a drag settles the view. -/
structure Settles (v : NNHoverView) (began : UITouch) (moves : List UITouch)
    (ended : UITouch) : Prop where
  follows : ∀ part, part <+: moves →
    (v.moved began part).center = ⟨v.center.x + sumX part, v.center.y + sumY part⟩
  settled : (v.moved began moves).centerAfter ended ≠ (v.moved began moves).beginPoint →
    Settled (v.moved began moves).center ((v.moved began moves).touchesEnded (some ended))

/-- The end of the gesture is where it began. -/
def IsTap (began : UITouch) (moves : List UITouch) (ended : UITouch) : Prop :=
  sumX moves + (offset ended).x = (offset began).x ∧
    sumY moves + (offset ended).y = (offset began).y

/-- The view is as wide as the code takes it to be, the screen has room for a view of `size`,
and a higher view that ends at `y` ends between its margins. -/
structure Suits (v : NNHoverView) (y : ℚ) : Prop where
  width : v.bounds.width = size.width
  screen : topMinMargin + size.height + bottomMinMargin ≤ v.screenH
  height : v.bounds.height ≤ size.height ∨
    (topMinMargin + v.bounds.height / 2 ≤ y ∧
      y ≤ v.screenH - (bottomMinMargin + v.bounds.height / 2))

/-- What the beginning and the moves of a gesture leave. -/
theorem moved_eq (v : NNHoverView) (began : UITouch) (moves : List UITouch) :
    v.moved began moves =
      { v with
        center := ⟨v.center.x + sumX moves, v.center.y + sumY moves⟩
        beginPoint := v.centerAfter began } := by
  induction moves using List.reverseRecOn with
  | nil => simp [moved, touchesBegan, sumX, sumY]
  | append_singleton moves touch ih =>
    have hLast : v.moved began (moves ++ [touch]) =
        (v.moved began moves).touchesMoved (some touch) := by
      rw [moved, List.foldl_append]
      rfl
    have hX : sumX (moves ++ [touch]) = sumX moves + (offset touch).x := by simp [sumX]
    have hY : sumY (moves ++ [touch]) = sumY moves + (offset touch).y := by simp [sumY]
    rw [hLast, ih, hX, hY]
    simp only [touchesMoved, centerAfter]
    rw [add_comm (offset touch).x, add_comm (offset touch).y, add_assoc, add_assoc]

/-- The tap of the code is the gesture whose offsets cancel out. -/
theorem isTap_iff (v : NNHoverView) (began ended : UITouch) (moves : List UITouch) :
    (v.moved began moves).centerAfter ended = (v.moved began moves).beginPoint ↔
      IsTap began moves ended := by
  rw [moved_eq, centerAfter, centerAfter, CGPoint.mk.injEq, IsTap]
  constructor
  · intro hSame
    exact ⟨by linarith [hSame.1], by linarith [hSame.2]⟩
  · intro hTap
    exact ⟨by linarith [hTap.1], by linarith [hTap.2]⟩

section Frame

variable {v : NNHoverView}

theorem frame_minX (hWidth : 0 ≤ v.bounds.width) :
    v.frame.minX = v.center.x - v.bounds.width / 2 :=
  min_eq_left (le_add_of_nonneg_right hWidth)

theorem frame_maxX (hWidth : 0 ≤ v.bounds.width) :
    v.frame.maxX = v.center.x + v.bounds.width / 2 := by
  have hMax : v.frame.maxX = v.center.x - v.bounds.width / 2 + v.bounds.width :=
    max_eq_right (le_add_of_nonneg_right hWidth)
  rw [hMax]
  ring

theorem frame_minY (hHeight : 0 ≤ v.bounds.height) :
    v.frame.minY = v.center.y - v.bounds.height / 2 :=
  min_eq_left (le_add_of_nonneg_right hHeight)

theorem frame_maxY (hHeight : 0 ≤ v.bounds.height) :
    v.frame.maxY = v.center.y + v.bounds.height / 2 := by
  have hMax : v.frame.maxY = v.center.y - v.bounds.height / 2 + v.bounds.height :=
    max_eq_right (le_add_of_nonneg_right hHeight)
  rw [hMax]
  ring

end Frame

section Correction

variable {v : NNHoverView}

/-- The horizontal place: at one of the edges, for the half of the center. -/
def side (v : NNHoverView) : ℚ :=
  if v.center.x > v.screenW / 2 then v.screenW - (rightMinMargin + size.width / 2)
  else leftMinMargin + size.width / 2

/-- The vertical place: the center is clamped. -/
def level (v : NNHoverView) : ℚ :=
  clamp (topMinMargin + size.height / 2) (v.screenH - (bottomMinMargin + size.height / 2))
    v.center.y

theorem correctLocation_eq (v : NNHoverView) :
    v.correctLocation = { v with center := ⟨v.side, v.level⟩ } := by
  simp only [correctLocation, side, level, clamp, mul_one_div]

/-- Both places are in their own half of a screen that is wide enough for `size`. -/
theorem side_again (hScreen : leftMinMargin + size.width + rightMinMargin ≤ v.screenW) :
    v.correctLocation.side = v.side := by
  have hSide : v.correctLocation.side =
      if v.side > v.screenW / 2 then v.screenW - (rightMinMargin + size.width / 2)
      else leftMinMargin + size.width / 2 := by
    rw [correctLocation_eq]
    rfl
  have hWide : 140 ≤ v.screenW := by
    norm_num [leftMinMargin, rightMinMargin, size] at hScreen
    exact hScreen
  rw [hSide, side]
  norm_num [leftMinMargin, rightMinMargin, size]
  split_ifs with hHalf hPlace hPlace
  · rfl
  · -- the screen is so narrow that both places are the same
    linarith
  · linarith
  · rfl

theorem level_again_iff (v : NNHoverView) : v.correctLocation.level = v.level ↔
    topMinMargin + size.height + bottomMinMargin ≤ v.screenH := by
  have hLevel : v.correctLocation.level =
      clamp (topMinMargin + size.height / 2) (v.screenH - (bottomMinMargin + size.height / 2))
        v.level := by
    rw [correctLocation_eq]
    rfl
  rw [hLevel, level, clamp_clamp_iff]
  constructor
  · intro hBounds
    linarith
  · intro hRoom
    linarith

theorem correctLocation_again_iff
    (hScreen : leftMinMargin + size.width + rightMinMargin ≤ v.screenW) :
    v.correctLocation.correctLocation = v.correctLocation ↔
      topMinMargin + size.height + bottomMinMargin ≤ v.screenH := by
  rw [← level_again_iff v]
  constructor
  · intro hAgain
    have hCenter := congrArg NNHoverView.center hAgain
    rw [correctLocation_eq v.correctLocation, correctLocation_eq v] at hCenter
    rw [correctLocation_eq v]
    exact congrArg CGPoint.y hCenter
  · intro hLevel
    rw [correctLocation_eq v.correctLocation, side_again hScreen, hLevel, correctLocation_eq v]

/-- The frame is at the margin of its half only for the width that the code takes it to have. -/
theorem margin_iff (hWidth : 0 ≤ v.bounds.width) :
    ((v.center.x > v.screenW / 2 → v.correctLocation.frame.maxX = v.screenW - rightMinMargin) ∧
      (¬ v.center.x > v.screenW / 2 → v.correctLocation.frame.minX = leftMinMargin)) ↔
      v.bounds.width = size.width := by
  have hMax : v.correctLocation.frame.maxX = v.side + v.bounds.width / 2 := by
    rw [correctLocation_eq]
    exact frame_maxX hWidth
  have hMin : v.correctLocation.frame.minX = v.side - v.bounds.width / 2 := by
    rw [correctLocation_eq]
    exact frame_minX hWidth
  rw [hMax, hMin, side]
  by_cases hHalf : v.center.x > v.screenW / 2
  · rw [if_pos hHalf]
    constructor
    · intro hMargins
      linarith [hMargins.1 hHalf]
    · intro hSame
      exact ⟨fun _ => by linarith, fun hLeft => absurd hHalf hLeft⟩
  · rw [if_neg hHalf]
    constructor
    · intro hMargins
      linarith [hMargins.2 hHalf]
    · intro hSame
      exact ⟨fun hRight => absurd hRight hHalf, fun _ => by linarith⟩

/-- A view lower than `size` is inside the bounds of the clamp, a higher one has to be between
its own margins before. -/
theorem between_iff (hHeight : 0 ≤ v.bounds.height)
    (hScreen : topMinMargin + size.height + bottomMinMargin ≤ v.screenH) :
    (topMinMargin ≤ v.correctLocation.frame.minY ∧
      v.correctLocation.frame.maxY ≤ v.screenH - bottomMinMargin) ↔
      v.bounds.height ≤ size.height ∨
        (topMinMargin + v.bounds.height / 2 ≤ v.center.y ∧
          v.center.y ≤ v.screenH - (bottomMinMargin + v.bounds.height / 2)) := by
  have hMin : v.correctLocation.frame.minY = v.level - v.bounds.height / 2 := by
    rw [correctLocation_eq]
    exact frame_minY hHeight
  have hMax : v.correctLocation.frame.maxY = v.level + v.bounds.height / 2 := by
    rw [correctLocation_eq]
    exact frame_maxY hHeight
  have hEdges : (topMinMargin ≤ v.level - v.bounds.height / 2 ∧
      v.level + v.bounds.height / 2 ≤ v.screenH - bottomMinMargin) ↔
      (topMinMargin + v.bounds.height / 2 ≤ v.level ∧
        v.level ≤ v.screenH - (bottomMinMargin + v.bounds.height / 2)) := by
    refine and_congr le_sub_iff_add_le ?_
    rw [← sub_sub, le_sub_iff_add_le (b := v.bounds.height / 2)]
  rw [hMin, hMax, hEdges]
  by_cases hLow : v.bounds.height ≤ size.height
  · have hBounds : topMinMargin + size.height / 2 ≤
        v.screenH - (bottomMinMargin + size.height / 2) := by linarith
    have hAbove := le_clamp hBounds v.center.y
    have hBelow := clamp_le hBounds v.center.y
    exact iff_of_true ⟨by rw [level]; linarith, by rw [level]; linarith⟩ (Or.inl hLow)
  · rw [or_iff_right hLow]
    have hHigh : size.height < v.bounds.height := not_le.mp hLow
    exact clamp_within_iff (by linarith) (by linarith)

/-- When the end of a drag settles a view. -/
theorem settled_iff (hFits : Fits v) :
    Settled v.center v.correctLocation ↔ Suits v v.center.y := by
  constructor
  · intro hSettled
    have hWidth := (margin_iff hFits.width_nonneg).mp ⟨hSettled.right, hSettled.left⟩
    have hScreen := (correctLocation_again_iff (hWidth ▸ hFits.width)).mp hSettled.again
    exact ⟨hWidth, hScreen,
      (between_iff hFits.height_nonneg hScreen).mp ⟨hSettled.top, hSettled.bottom⟩⟩
  · intro hSuits
    obtain ⟨hRight, hLeft⟩ := (margin_iff hFits.width_nonneg).mpr hSuits.width
    obtain ⟨hTop, hBottom⟩ := (between_iff hFits.height_nonneg hSuits.screen).mpr hSuits.height
    exact ⟨hRight, hLeft, hTop, hBottom,
      (correctLocation_again_iff (hSuits.width ▸ hFits.width)).mpr hSuits.screen⟩

end Correction

/-- The correction depends on the moves by the place where they end. -/
theorem settled_moved_iff (v : NNHoverView) (hFits : Fits v) (began : UITouch)
    (moves : List UITouch) :
    Settled (v.moved began moves).center (v.moved began moves).correctLocation ↔
      Suits v (v.center.y + sumY moves) := by
  have hMovedFits : Fits (v.moved began moves) := by
    rw [moved_eq]
    exact ⟨hFits.width_nonneg, hFits.height_nonneg, hFits.width, hFits.height⟩
  rw [settled_iff hMovedFits, moved_eq]
  constructor
  · intro hSuits
    exact ⟨hSuits.width, hSuits.screen, hSuits.height⟩
  · intro hSuits
    exact ⟨hSuits.width, hSuits.screen, hSuits.height⟩

theorem touchesEnded_of_drag (v : NNHoverView) {began ended : UITouch} {moves : List UITouch}
    (hDrag : ¬ IsTap began moves ended) :
    (v.moved began moves).touchesEnded (some ended) = (v.moved began moves).correctLocation := by
  rw [← isTap_iff v] at hDrag
  exact if_neg hDrag

/-- The center always follows, and a gesture that is no tap settles a view that suits. -/
theorem settles_iff (v : NNHoverView) (hFits : Fits v) (began ended : UITouch)
    (moves : List UITouch) :
    Settles v began moves ended ↔ IsTap began moves ended ∨ Suits v (v.center.y + sumY moves) := by
  have hFollows : ∀ part, part <+: moves →
      (v.moved began part).center = ⟨v.center.x + sumX part, v.center.y + sumY part⟩ := by
    intro part _
    rw [moved_eq]
  by_cases hTap : IsTap began moves ended
  · refine iff_of_true ⟨hFollows, fun hDrag => ?_⟩ (Or.inl hTap)
    exact absurd ((isTap_iff v began ended moves).mpr hTap) hDrag
  · rw [or_iff_right hTap, ← settled_moved_iff v hFits began moves, ← touchesEnded_of_drag v hTap]
    constructor
    · intro hSettles
      exact hSettles.settled ((isTap_iff v began ended moves).not.mpr hTap)
    · intro hSettled
      exact ⟨hFollows, fun _ => hSettled⟩

/-- A view of the size that the code takes it to have, dragged to the left. -/
theorem settles_of_size :
    Settles (new ⟨375, 667⟩ ⟨⟨275, 100⟩, size⟩) ⟨⟨50, 50⟩, ⟨50, 50⟩⟩
      [⟨⟨10, 50⟩, ⟨50, 50⟩⟩] ⟨⟨50, 50⟩, ⟨50, 50⟩⟩ := by
  refine (settles_iff (new ⟨375, 667⟩ ⟨⟨275, 100⟩, size⟩) ⟨?_, ?_, ?_, ?_⟩ _ _ _).mpr
    (Or.inr ⟨rfl, ?_, Or.inl le_rfl⟩)
  all_goals norm_num [new, size, topMinMargin, bottomMinMargin, leftMinMargin, rightMinMargin]

/-- The view of `EyesManager` is half as wide as `size`. -/
theorem settingView_not_suits (screen : CGSize) (y : ℚ) : ¬ Suits (settingView screen) y := by
  intro hSuits
  have hWidth := hSuits.width
  norm_num [settingView, new, size] at hWidth

/-- It does not settle when it is dragged by 10 to the left, on a screen with room for it. -/
theorem settingView_off_margin :
    Fits (settingView ⟨375, 667⟩) ∧
      ¬ Settles (settingView ⟨375, 667⟩) ⟨⟨25, 25⟩, ⟨25, 25⟩⟩
        [⟨⟨15, 25⟩, ⟨25, 25⟩⟩] ⟨⟨25, 25⟩, ⟨25, 25⟩⟩ := by
  have hFits : Fits (settingView ⟨375, 667⟩) := by
    constructor <;>
      norm_num [settingView, new, topMinMargin, bottomMinMargin, leftMinMargin, rightMinMargin]
  have hDrag : ¬ IsTap ⟨⟨25, 25⟩, ⟨25, 25⟩⟩ [⟨⟨15, 25⟩, ⟨25, 25⟩⟩] ⟨⟨25, 25⟩, ⟨25, 25⟩⟩ := by
    norm_num [IsTap, sumX, sumY, offset]
  refine ⟨hFits, fun hSettles => ?_⟩
  have hSettled := hSettles.settled ((isTap_iff _ _ _ _).not.mpr hDrag)
  rw [touchesEnded_of_drag _ hDrag, settled_moved_iff _ hFits] at hSettled
  exact settingView_not_suits _ _ hSettled

end NNHoverView

end LeigodAPM
