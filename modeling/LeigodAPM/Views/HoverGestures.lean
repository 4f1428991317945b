import LeigodAPM.Foundation.Run
import LeigodAPM.Views.HoverView

/-!
# Many gestures on the floating view

A gesture is a touch that begins, moves and ends, or that the system cancels without a word to
the view. A gesture that ends where it began is a tap; any other end corrects the location.

* `gestures_of_run`: after any gestures the taps have been handled, and the view is where the
  last drag left it, moved on by the taps and the cancelled gestures since.
* `settingView_on_screen`: the view of `EyesManager` is inside the screen, unless a gesture has
  been cancelled since the last drag.
-/

namespace LeigodAPM

open Foundation Machine

structure Gesture where
  began : UITouch
  moves : List UITouch
  /-- `none` when the system cancels the touch. -/
  ended : Option UITouch

namespace NNHoverView

instance (began : UITouch) (moves : List UITouch) (ended : UITouch) :
    Decidable (IsTap began moves ended) := inferInstanceAs (Decidable (_ ∧ _))

def isTap (g : Gesture) : Bool :=
  match g.ended with
  | some ended => decide (IsTap g.began g.moves ended)
  | none => false

def isDrag (g : Gesture) : Bool :=
  match g.ended with
  | some ended => !decide (IsTap g.began g.moves ended)
  | none => false

def perform (v : NNHoverView) (g : Gesture) : NNHoverView :=
  match g.ended with
  | some ended => (v.moved g.began g.moves).touchesEnded (some ended)
  | none => v.moved g.began g.moves

def gestures : Machine NNHoverView Gesture := fun v g => some (v.perform g)

/-- The moves of some gestures together. -/
def carriedX (h : List Gesture) : ℚ := (h.map fun g => sumX g.moves).sum
def carriedY (h : List Gesture) : ℚ := (h.map fun g => sumY g.moves).sum

/-- What gestures without a drag make of a view. -/
def carried (v : NNHoverView) (h : List Gesture) (beginPoint : CGPoint) : NNHoverView :=
  { v with
    center := ⟨v.center.x + carriedX h, v.center.y + carriedY h⟩
    beginPoint := beginPoint
    handled := v.handled + h.countP isTap }

/-! ## One gesture -/

variable {g : Gesture}

theorem isTap_of_not_drag (hDrag : isDrag g = false) : isTap g = g.ended.isSome := by
  unfold isDrag at hDrag
  unfold isTap
  cases hEnded : g.ended with
  | none => rfl
  | some ended =>
    rw [hEnded] at hDrag
    simpa using hDrag

theorem perform_of_not_drag (v : NNHoverView) (hDrag : isDrag g = false) :
    v.perform g = v.carried [g] (v.centerAfter g.began) := by
  have hTap := isTap_of_not_drag hDrag
  unfold isTap at hTap
  cases hEnded : g.ended with
  | none =>
    simp [perform, hEnded, moved_eq, carried, carriedX, carriedY, isTap]
  | some ended =>
    rw [hEnded] at hTap
    have hSame : (v.moved g.began g.moves).centerAfter ended =
        (v.moved g.began g.moves).beginPoint := by
      rw [isTap_iff]
      simpa using hTap
    have hEnd : v.perform g = { v.moved g.began g.moves with
        handled := (v.moved g.began g.moves).handled + 1 } := by
      rw [perform, hEnded]
      exact if_pos hSame
    rw [hEnd, moved_eq]
    simp [carried, carriedX, carriedY, isTap, hEnded, of_decide_eq_true hTap]

theorem perform_of_drag (v : NNHoverView) (hDrag : isDrag g = true) :
    v.perform g = (v.moved g.began g.moves).correctLocation ∧ isTap g = false := by
  unfold isDrag at hDrag
  cases hEnded : g.ended with
  | none =>
    rw [hEnded] at hDrag
    cases hDrag
  | some ended =>
    rw [hEnded] at hDrag
    have hNot : ¬ IsTap g.began g.moves ended := by simpa using hDrag
    constructor
    · rw [perform, hEnded]
      exact touchesEnded_of_drag v hNot
    · rw [isTap, hEnded]
      exact decide_eq_false hNot

/-! ## Runs -/

/-- After the gestures `h` the view is where the last drag left it, moved on since. -/
structure Placed (start : NNHoverView) (h : List Gesture) (v : NNHoverView) : Prop where
  screen : v.screenW = start.screenW ∧ v.screenH = start.screenH ∧ v.bounds = start.bounds
  handled : v.handled = start.handled + h.countP isTap
  undragged : (∀ g ∈ h, isDrag g = false) →
    v.center = ⟨start.center.x + carriedX h, start.center.y + carriedY h⟩
  dragged : ∀ before g after, h = before ++ g :: after → isDrag g = true →
    (∀ a ∈ after, isDrag a = false) → ∃ u, gestures.run start before = some u ∧
      v.center = ⟨(u.moved g.began g.moves).side + carriedX after,
        (u.moved g.began g.moves).level + carriedY after⟩

section Runs

variable {v u : NNHoverView} {h : List Gesture}

theorem carried_carried (v : NNHoverView) (g : Gesture) (h : List Gesture) (b b' : CGPoint) :
    (v.carried [g] b).carried h b' = v.carried (g :: h) b' := by
  simp only [carried, carriedX, carriedY, List.map_cons, List.map_nil, List.sum_cons, List.sum_nil,
    List.countP_cons, List.countP_nil, add_zero, zero_add, add_assoc]
  rw [add_comm (List.countP isTap h)]

theorem run_of_not_drag (v : NNHoverView) (hNone : ∀ g ∈ h, isDrag g = false) :
    ∃ b, gestures.run v h = some (v.carried h b) := by
  induction h generalizing v with
  | nil => exact ⟨v.beginPoint, by simp [carried, carriedX, carriedY]⟩
  | cons g h ih =>
    have hFirst := perform_of_not_drag v (hNone g List.mem_cons_self)
    obtain ⟨b, hRun⟩ := ih (v.perform g) fun a ha => hNone a (List.mem_cons_of_mem g ha)
    refine ⟨b, ?_⟩
    have hCons : gestures.run v (g :: h) = gestures.run (v.perform g) h := rfl
    rw [hCons, hRun, hFirst, carried_carried]

theorem perform_handled (v : NNHoverView) (g : Gesture) :
    (v.perform g).handled = v.handled + [g].countP isTap := by
  by_cases hDrag : isDrag g = true
  · obtain ⟨hEnd, hTap⟩ := perform_of_drag v hDrag
    rw [hEnd, correctLocation_eq, moved_eq]
    simp [hTap]
  · rw [perform_of_not_drag v (Bool.eq_false_of_not_eq_true hDrag)]
    rfl

theorem perform_screen (v : NNHoverView) (g : Gesture) : (v.perform g).screenW = v.screenW ∧
    (v.perform g).screenH = v.screenH ∧ (v.perform g).bounds = v.bounds := by
  by_cases hDrag : isDrag g = true
  · rw [(perform_of_drag v hDrag).1, correctLocation_eq, moved_eq]
    exact ⟨rfl, rfl, rfl⟩
  · rw [perform_of_not_drag v (Bool.eq_false_of_not_eq_true hDrag)]
    exact ⟨rfl, rfl, rfl⟩

/-- What a drag and the gestures after it leave. -/
theorem run_of_last_drag {before after : List Gesture} {g : Gesture} (hDrag : isDrag g = true)
    (hRest : ∀ a ∈ after, isDrag a = false)
    (hRun : gestures.run v (before ++ g :: after) = some u) :
    ∃ w, gestures.run v before = some w ∧
      ∃ b, u = (w.moved g.began g.moves).correctLocation.carried after b := by
  rw [run_append] at hRun
  obtain ⟨w, hBefore, hAfter⟩ := Option.bind_eq_some_iff.mp hRun
  obtain ⟨b, hCarried⟩ := run_of_not_drag (w.perform g) hRest
  have hCons : gestures.run w (g :: after) = gestures.run (w.perform g) after := rfl
  rw [hCons, hCarried] at hAfter
  refine ⟨w, hBefore, b, ?_⟩
  rw [← (perform_of_drag w hDrag).1]
  exact (Option.some.inj hAfter).symm

/-- **Gestures.** The taps are counted, and the center is the one that the last drag settled,
moved on by the taps and cancelled gestures since. -/
theorem gestures_of_run (start : NNHoverView) (gs : List Gesture) :
    gestures.Always (Placed start) start gs := by
  have hKept : gestures.Always (fun h v => (v.screenW = start.screenW ∧
      v.screenH = start.screenH ∧ v.bounds = start.bounds) ∧
      v.handled = start.handled + h.countP isTap) start gs := by
    refine always_of_step ⟨⟨rfl, rfl, rfl⟩, rfl⟩ ?_
    rintro h v g v' ⟨⟨hW, hH, hBounds⟩, hHandled⟩ hStep
    obtain rfl := Option.some.inj hStep
    obtain ⟨hW', hH', hBounds'⟩ := perform_screen v g
    refine ⟨⟨hW'.trans hW, hH'.trans hH, hBounds'.trans hBounds⟩, ?_⟩
    rw [perform_handled, hHandled, List.countP_append, add_assoc]
  intro h v hh hRun
  obtain ⟨hScreen, hHandled⟩ := hKept h v hh hRun
  refine ⟨hScreen, hHandled, fun hNone => ?_, fun before g after hEq hDrag hRest => ?_⟩
  · obtain ⟨b, hCarried⟩ := run_of_not_drag start hNone
    rw [hRun] at hCarried
    rw [Option.some.inj hCarried]
    rfl
  · rw [hEq] at hRun
    obtain ⟨w, hBefore, b, rfl⟩ := run_of_last_drag hDrag hRest hRun
    refine ⟨w, hBefore, ?_⟩
    rw [correctLocation_eq]
    rfl

end Runs

/-! ## The view of `EyesManager` -/

def IsCancelled (g : Gesture) : Prop := g.ended = none

/-- The finger does not move in the moments in which it is put down and lifted. -/
def Rests (g : Gesture) : Prop :=
  offset g.began = ⟨0, 0⟩ ∧ ∀ ended, g.ended = some ended → offset ended = ⟨0, 0⟩

/-- The frame is inside the screen. -/
structure OnScreen (v : NNHoverView) : Prop where
  left : 0 ≤ v.frame.minX
  right : v.frame.maxX ≤ v.screenW
  top : 0 ≤ v.frame.minY
  bottom : v.frame.maxY ≤ v.screenH

/-- The last drag came after every cancelled gesture. -/
def Undisturbed (h : List Gesture) : Prop :=
  Since (isDrag · = true) IsCancelled h ∨ ∀ g ∈ h, ¬ IsCancelled g

/-- A view of the size of that of `EyesManager`. -/
structure IsSettingView (screen : CGSize) (v : NNHoverView) : Prop where
  screenW : v.screenW = screen.width
  screenH : v.screenH = screen.height
  bounds : v.bounds = ⟨50, 50⟩

section Setting

variable {screen : CGSize} {v : NNHoverView} {g : Gesture}

theorem onScreen_iff (hSetting : IsSettingView screen v) : OnScreen v ↔
    (25 ≤ v.center.x ∧ v.center.x + 25 ≤ screen.width) ∧
      25 ≤ v.center.y ∧ v.center.y + 25 ≤ screen.height := by
  have hWidth : v.bounds.width = 50 := by rw [hSetting.bounds]
  have hHeight : v.bounds.height = 50 := by rw [hSetting.bounds]
  have hMinX := frame_minX (v := v) (by rw [hWidth]; norm_num)
  have hMaxX := frame_maxX (v := v) (by rw [hWidth]; norm_num)
  have hMinY := frame_minY (v := v) (by rw [hHeight]; norm_num)
  have hMaxY := frame_maxY (v := v) (by rw [hHeight]; norm_num)
  rw [hWidth] at hMinX hMaxX
  rw [hHeight] at hMinY hMaxY
  constructor
  · rintro ⟨hLeft, hRight, hTop, hBottom⟩
    rw [hMinX] at hLeft
    rw [hMaxX, hSetting.screenW] at hRight
    rw [hMinY] at hTop
    rw [hMaxY, hSetting.screenH] at hBottom
    exact ⟨⟨by linarith, by linarith⟩, by linarith, by linarith⟩
  · rintro ⟨⟨hLeft, hRight⟩, hTop, hBottom⟩
    refine ⟨?_, ?_, ?_, ?_⟩
    · rw [hMinX]
      linarith
    · rw [hMaxX, hSetting.screenW]
      linarith
    · rw [hMinY]
      linarith
    · rw [hMaxY, hSetting.screenH]
      linarith

/-- A correction ends inside a screen with room for the view between the places at its edges. -/
theorem onScreen_correctLocation (hSetting : IsSettingView screen v)
    (hWidth : 95 ≤ screen.width) (hHeight : 163 ≤ screen.height) :
    OnScreen v.correctLocation := by
  have hCorrected : IsSettingView screen v.correctLocation := by
    rw [correctLocation_eq]
    exact ⟨hSetting.screenW, hSetting.screenH, hSetting.bounds⟩
  rw [onScreen_iff hCorrected, correctLocation_eq]
  constructor
  · simp only [side, hSetting.screenW, leftMinMargin, rightMinMargin, size]
    split_ifs with hHalf
    · exact ⟨by linarith, by linarith⟩
    · exact ⟨by linarith, by linarith⟩
  · simp only [level, clamp, hSetting.screenH, topMinMargin, bottomMinMargin, size]
    split_ifs with hLow hHigh
    · exact ⟨by linarith, by linarith⟩
    · exact ⟨by linarith, by linarith⟩
    · exact ⟨by linarith, by linarith⟩

theorem IsSettingView.perform (hSetting : IsSettingView screen v) (g : Gesture) :
    IsSettingView screen (v.perform g) := by
  obtain ⟨hW, hH, hBounds⟩ := perform_screen v g
  exact ⟨hW.trans hSetting.screenW, hH.trans hSetting.screenH, hBounds.trans hSetting.bounds⟩

/-- A tap leaves the view where it is. -/
theorem perform_center_of_tap (hRests : Rests g) (hDrag : isDrag g = false)
    (hCancelled : ¬ IsCancelled g) : (v.perform g).center = v.center := by
  obtain ⟨ended, hEnded⟩ := Option.ne_none_iff_exists'.mp hCancelled
  have hTap : IsTap g.began g.moves ended := by
    unfold isDrag at hDrag
    rw [hEnded] at hDrag
    simpa using hDrag
  obtain ⟨hX, hY⟩ := hTap
  rw [hRests.2 ended hEnded, hRests.1] at hX hY
  rw [perform_of_not_drag v hDrag]
  simp only [carried, carriedX, carriedY, List.map_cons, List.map_nil, List.sum_cons,
    List.sum_nil, add_zero]
  rw [add_zero] at hX hY
  rw [hX, hY, add_zero, add_zero]

theorem undisturbed_concat {h : List Gesture} (hDrag : isDrag g = false) :
    Undisturbed (h ++ [g]) ↔ Undisturbed h ∧ ¬ IsCancelled g := by
  have hAll : (∀ a ∈ h ++ [g], ¬ IsCancelled a) ↔ (∀ a ∈ h, ¬ IsCancelled a) ∧ ¬ IsCancelled g := by
    simp only [List.forall_mem_append, List.forall_mem_singleton]
  rw [Undisturbed, Undisturbed, since_concat, hAll, hDrag]
  constructor
  · rintro ((hNo | ⟨hSince, hg⟩) | ⟨hNone, hg⟩)
    · cases hNo
    · exact ⟨Or.inl hSince, hg⟩
    · exact ⟨Or.inr hNone, hg⟩
  · rintro ⟨hSince | hNone, hg⟩
    · exact Or.inl (Or.inr ⟨hSince, hg⟩)
    · exact Or.inr ⟨hNone, hg⟩

/-- **On the screen.** On a screen that is large enough the view of `EyesManager` is inside the
screen at the end of every gesture, as long as none has been cancelled since the last drag. -/
theorem settingView_on_screen (screen : CGSize) (hWidth : 95 ≤ screen.width)
    (hHeight : 163 ≤ screen.height) (gs : List Gesture) (hRests : ∀ g ∈ gs, Rests g) :
    gestures.Always (fun h v => Undisturbed h → OnScreen v) (settingView screen) gs := by
  have hAlways : gestures.Always
      (fun h v => IsSettingView screen v ∧ (Undisturbed h → OnScreen v))
      (settingView screen) gs := by
    refine always_of_eachStep (C := fun _ _ g => Rests g) ?_ ?_ ?_
    · have hStart : IsSettingView screen (settingView screen) := ⟨rfl, rfl, rfl⟩
      refine ⟨hStart, fun _ => (onScreen_iff hStart).mpr ?_⟩
      simp only [settingView, new]
      exact ⟨⟨by linarith, by linarith⟩, by norm_num, by linarith⟩
    · rintro h v g v' ⟨hSetting, hOn⟩ hRest hStep
      obtain rfl := Option.some.inj hStep
      refine ⟨hSetting.perform g, fun hUndisturbed => ?_⟩
      by_cases hDrag : isDrag g = true
      · have hMoved : IsSettingView screen (v.moved g.began g.moves) := by
          rw [moved_eq]
          exact ⟨hSetting.screenW, hSetting.screenH, hSetting.bounds⟩
        rw [(perform_of_drag v hDrag).1]
        exact onScreen_correctLocation hMoved hWidth hHeight
      · have hNot := Bool.eq_false_of_not_eq_true hDrag
        obtain ⟨hBefore, hg⟩ := (undisturbed_concat hNot).mp hUndisturbed
        rw [onScreen_iff (hSetting.perform g), perform_center_of_tap hRest hNot hg]
        exact (onScreen_iff hSetting).mp (hOn hBefore)
    · exact fun h g _ _ hh _ _ => hRests g (hh.subset (by simp))
  exact hAlways.mono fun h v hInv => hInv.2

/-- A drag, a cancelled gesture and another drag. -/
theorem settingView_on_screen_three :
    gestures.Always (fun h v => Undisturbed h → OnScreen v) (settingView ⟨375, 667⟩)
      [⟨⟨⟨25, 25⟩, ⟨25, 25⟩⟩, [⟨⟨-400, 25⟩, ⟨25, 25⟩⟩], some ⟨⟨25, 25⟩, ⟨25, 25⟩⟩⟩,
        ⟨⟨⟨25, 25⟩, ⟨25, 25⟩⟩, [⟨⟨-400, 25⟩, ⟨25, 25⟩⟩], none⟩,
        ⟨⟨⟨25, 25⟩, ⟨25, 25⟩⟩, [⟨⟨25, 90⟩, ⟨25, 25⟩⟩], some ⟨⟨25, 25⟩, ⟨25, 25⟩⟩⟩] := by
  refine settingView_on_screen ⟨375, 667⟩ (by norm_num) (by norm_num) _ fun g hg => ?_
  simp only [List.mem_cons, List.not_mem_nil, or_false] at hg
  rcases hg with rfl | rfl | rfl
  all_goals simp [Rests, offset]

end Setting

end NNHoverView

end LeigodAPM
