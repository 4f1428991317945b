import LeigodAPM.Foundation.Run
import Mathlib.Algebra.Order.Ring.Rat
import Mathlib.Data.Rat.Defs

/-!
# The buttons of the navigation bar

`addNavLeftButtons` and `addNavRightButtons` add buttons with the tags of their side and store
the handler of the side. `removeButtons` would take the buttons away again, but nothing calls
it, and a hide flag reaches only the buttons that are there when it is assigned.

* `step_addNavButtons`, `step_setHide`: what the events do to the bar.
* `always_latest_iff`: each side shows the buttons of its latest call and obeys its flag exactly
  when no call for a side follows one that added buttons, and none adds buttons while the flag
  of the side is set.
-/

namespace LeigodAPM

open Foundation Machine

inductive NNNavBarHandleType
  | left1
  | left2
  | right1
  | right2
  deriving DecidableEq

inductive NNBarButtonType (Image : Type)
  | text (title : String)
  | image (image : Option Image)
  deriving DecidableEq

inductive NavSide
  | left
  | right
  deriving DecidableEq

theorem NavSide.forall_iff {p : NavSide → Prop} : (∀ side, p side) ↔ p .left ∧ p .right := by
  constructor
  · intro hAll
    exact ⟨hAll .left, hAll .right⟩
  · intro hBoth side
    cases side with
    | left => exact hBoth.1
    | right => exact hBoth.2

/-- A button with what it shows and its distance from the edge of its side. -/
structure UIButton (Image : Type) where
  tag : ℤ
  item : NNBarButtonType Image
  margain : ℚ
  isHidden : Bool

def kItemWidth : ℚ := 44
def kLeftTag : ℤ := 800
def kRightTag : ℤ := 900

/-- What is read of the bar and changed; `buttons` are those on `navigationBgView`. -/
structure NNBaseNavigationBar (Image Handle : Type) where
  buttons : List (UIButton Image)
  leftNavBarHandle : Option Handle
  rightNavBarHandle : Option Handle
  leadingLeftMargain : ℚ
  leadingRightMargain : ℚ
  hideNavLeftButton : Bool
  hideNavRightButton : Bool

/-- `viewWithTag`: some view with the tag, if there is one. -/
structure TagSearch where
  viewWithTag : List ℤ → ℤ → Option ℕ
  sound : ∀ tags tag i, viewWithTag tags tag = some i → tags[i]? = some tag
  complete : ∀ tags tag, tag ∈ tags → (viewWithTag tags tag).isSome = true

/-- The search that stops at the first view with the tag. -/
def TagSearch.first : TagSearch where
  viewWithTag tags tag := tags.findIdx? (· = tag)
  sound tags tag i hFind := by
    obtain ⟨hLt, hTag, -⟩ := List.findIdx?_eq_some_iff_getElem.mp hFind
    rw [List.getElem?_eq_getElem hLt, of_decide_eq_true hTag]
  complete tags tag hMem := by
    rw [List.findIdx?_isSome]
    exact List.any_eq_true.mpr ⟨tag, hMem, decide_eq_true rfl⟩

namespace NNBaseNavigationBar

variable {Image Handle : Type}

/-- A bar without buttons. -/
def new (leadingLeftMargain leadingRightMargain : ℚ) : NNBaseNavigationBar Image Handle :=
  ⟨[], none, none, leadingLeftMargain, leadingRightMargain, false, false⟩

def tagOf : NavSide → ℤ
  | .left => kLeftTag
  | .right => kRightTag

def handle (bar : NNBaseNavigationBar Image Handle) : NavSide → Option Handle
  | .left => bar.leftNavBarHandle
  | .right => bar.rightNavBarHandle

def hide (bar : NNBaseNavigationBar Image Handle) : NavSide → Bool
  | .left => bar.hideNavLeftButton
  | .right => bar.hideNavRightButton

def leading (bar : NNBaseNavigationBar Image Handle) : NavSide → ℚ
  | .left => bar.leadingLeftMargain
  | .right => bar.leadingRightMargain

/-- What a button takes of the bar; `width` is the width of a button that fits a title. -/
def itemWidth (width : String → ℚ) : NNBarButtonType Image → ℚ
  | .image _ => kItemWidth
  | .text title => width title

/-- The loop over the buttons of a call. -/
def newButtons (width : String → ℚ) : ℤ → ℚ → List (NNBarButtonType Image) → List (UIButton Image)
  | _, _, [] => []
  | tag, margain, item :: items =>
    ⟨tag, item, margain, false⟩ ::
      newButtons width (tag + 1) (margain + itemWidth width item) items

/-- What the two `addNav...Buttons` share. The line that is brought to the front is no subview. -/
def addNavButtons (width : String → ℚ) (bar : NNBaseNavigationBar Image Handle) (side : NavSide)
    (items : List (NNBarButtonType Image)) (actions : Handle) : NNBaseNavigationBar Image Handle :=
  let buttons := bar.buttons ++ newButtons width (tagOf side) (bar.leading side) items
  match side with
  | .left => { bar with buttons := buttons, leftNavBarHandle := some actions }
  | .right => { bar with buttons := buttons, rightNavBarHandle := some actions }

def addNavLeftButtons (width : String → ℚ) (bar : NNBaseNavigationBar Image Handle)
    (buttons : List (NNBarButtonType Image)) (actions : Handle) :
    NNBaseNavigationBar Image Handle := addNavButtons width bar .left buttons actions

def addNavRightButtons (width : String → ℚ) (bar : NNBaseNavigationBar Image Handle)
    (buttons : List (NNBarButtonType Image)) (actions : Handle) :
    NNBaseNavigationBar Image Handle := addNavButtons width bar .right buttons actions

/-- `viewWithTag(tag)?.isHidden = isHidden` -/
def setHidden (search : TagSearch) (isHidden : Bool) (buttons : List (UIButton Image)) (tag : ℤ) :
    List (UIButton Image) :=
  match search.viewWithTag (buttons.map UIButton.tag) tag with
  | some i => buttons.modify i fun button => { button with isHidden := isHidden }
  | none => buttons

/-- `didSet` of `hideNavLeftButton`. -/
def setHideNavLeftButton (search : TagSearch) (bar : NNBaseNavigationBar Image Handle)
    (isHidden : Bool) : NNBaseNavigationBar Image Handle :=
  let buttons := setHidden search isHidden bar.buttons kLeftTag
  let buttons := setHidden search isHidden buttons (kLeftTag + 1)
  { bar with hideNavLeftButton := isHidden, buttons := buttons }

/-- `didSet` of `hideNavRightButton`. -/
def setHideNavRightButton (search : TagSearch) (bar : NNBaseNavigationBar Image Handle)
    (isHidden : Bool) : NNBaseNavigationBar Image Handle :=
  let buttons := setHidden search isHidden bar.buttons kRightTag
  let buttons := setHidden search isHidden buttons (kRightTag + 1)
  { bar with hideNavRightButton := isHidden, buttons := buttons }

/-- The handler that a tap reaches, and what it is told. -/
def buttonClick (bar : NNBaseNavigationBar Image Handle) (sender : UIButton Image) :
    Option (Handle × NNNavBarHandleType) :=
  if sender.tag = kLeftTag then bar.leftNavBarHandle.map (·, .left1)
  else if sender.tag = kLeftTag + 1 then bar.leftNavBarHandle.map (·, .left2)
  else if sender.tag = kRightTag then bar.rightNavBarHandle.map (·, .right1)
  else if sender.tag = kRightTag + 1 then bar.rightNavBarHandle.map (·, .right2)
  else none

/-! ## Runs -/

/-- The buttons of a call, at most two. -/
abbrev NavButtons (Image : Type) := { items : List (NNBarButtonType Image) // items.length ≤ 2 }

inductive Event (Image Handle : Type)
  | addNavButtons (side : NavSide) (buttons : NavButtons Image) (actions : Handle)
  | setHide (side : NavSide) (isHidden : Bool)

def step (search : TagSearch) (width : String → ℚ) :
    Machine (NNBaseNavigationBar Image Handle) (Event Image Handle)
  | bar, .addNavButtons .left buttons actions => some (addNavLeftButtons width bar buttons actions)
  | bar, .addNavButtons .right buttons actions =>
    some (addNavRightButtons width bar buttons actions)
  | bar, .setHide .left isHidden => some (setHideNavLeftButton search bar isHidden)
  | bar, .setHide .right isHidden => some (setHideNavRightButton search bar isHidden)

/-- The tag is one of the two of the side. -/
def OnSide (side : NavSide) (tag : ℤ) : Prop := tag = tagOf side ∨ tag = tagOf side + 1

instance (side : NavSide) (tag : ℤ) : Decidable (OnSide side tag) :=
  inferInstanceAs (Decidable (_ ∨ _))

/-- The buttons of a side. -/
def sideButtons (bar : NNBaseNavigationBar Image Handle) (side : NavSide) :
    List (UIButton Image) := bar.buttons.filter fun button => OnSide side button.tag

def handleType : NavSide → ℕ → NNNavBarHandleType
  | .left, 0 => .left1
  | .left, _ + 1 => .left2
  | .right, 0 => .right1
  | .right, _ + 1 => .right2

/-- The call that an event makes for a side. -/
def callFor (side : NavSide) : Event Image Handle → Option (NavButtons Image × Handle)
  | .addNavButtons side' buttons actions => if side' = side then some (buttons, actions) else none
  | .setHide _ _ => none

/-- The latest call for a side. -/
def latest (side : NavSide) (h : List (Event Image Handle)) : Option (NavButtons Image × Handle) :=
  (h.filterMap (callFor side)).getLast?

/-- The buttons of all calls for a side. -/
def added (side : NavSide) (h : List (Event Image Handle)) : List (NNBarButtonType Image) :=
  (h.filterMap (callFor side)).flatMap fun call => call.1.val

/-- The side has the buttons of its latest call, a tap on one of them reaches that call's
handler, and all are hidden or none, as the flag says. -/
structure Shows (h : List (Event Image Handle)) (bar : NNBaseNavigationBar Image Handle)
    (side : NavSide) : Prop where
  items : (bar.sideButtons side).map UIButton.item =
    ((latest side h).map fun call => call.1.val).getD []
  taps : ∀ (i : ℕ) button, (bar.sideButtons side)[i]? = some button →
    ∃ call, latest side h = some call ∧
      bar.buttonClick button = some (call.2, handleType side i)
  hidden : ∀ button ∈ bar.sideButtons side, button.isHidden = bar.hide side

/-- A call adds buttons only to a side that has none and is not hidden. -/
def Allowed (h : List (Event Image Handle)) (bar : NNBaseNavigationBar Image Handle) :
    Event Image Handle → Prop
  | .addNavButtons side buttons _ =>
    added side h = [] ∧ (buttons.val = [] ∨ bar.hide side = false)
  | .setHide _ _ => True

/-! ## New buttons -/

section NewButtons

variable {width : String → ℚ} {tag : ℤ} {margain : ℚ} {items : List (NNBarButtonType Image)}

theorem newButtons_item (width : String → ℚ) (tag : ℤ) (margain : ℚ)
    (items : List (NNBarButtonType Image)) :
    (newButtons width tag margain items).map UIButton.item = items := by
  induction items generalizing tag margain with
  | nil => rfl
  | cons item items ih => rw [newButtons, List.map_cons, ih]

/-- The buttons of a call are numbered, and not hidden. -/
theorem newButtons_getElem? {i : ℕ} {button : UIButton Image}
    (hButton : (newButtons width tag margain items)[i]? = some button) :
    i < items.length ∧ button.tag = tag + i ∧ button.isHidden = false := by
  induction items generalizing tag margain i with
  | nil => cases hButton
  | cons item items ih =>
    cases i with
    | zero =>
      obtain rfl := Option.some.inj hButton
      exact ⟨Nat.succ_pos _, (Int.add_zero tag).symm, rfl⟩
    | succ i =>
      obtain ⟨hLt, hTag, hHidden⟩ := ih hButton
      refine ⟨Nat.succ_lt_succ hLt, ?_, hHidden⟩
      push_cast
      omega

theorem mem_newButtons {button : UIButton Image}
    (hMem : button ∈ newButtons width tag margain items) :
    ∃ i, i < items.length ∧ button.tag = tag + i ∧ button.isHidden = false := by
  obtain ⟨i, hi⟩ := List.mem_iff_getElem?.mp hMem
  exact ⟨i, newButtons_getElem? hi⟩

theorem newButtons_tags_nodup :
    ((newButtons width tag margain items).map UIButton.tag).Nodup := by
  induction items generalizing tag margain with
  | nil => exact List.nodup_nil
  | cons item items ih =>
    rw [newButtons, List.map_cons, List.nodup_cons]
    refine ⟨fun hMem => ?_, ih⟩
    obtain ⟨button, hButton, hTag⟩ := List.mem_map.mp hMem
    obtain ⟨i, -, hNext, -⟩ := mem_newButtons hButton
    have hSame : button.tag = tag := hTag
    omega

/-- The tags of the two sides are apart. -/
theorem onSide_iff_eq {side side' : NavSide} {i : ℕ} (hi : i < 2) :
    OnSide side' (tagOf side + i) ↔ side' = side := by
  cases side with
  | left =>
    cases side' with
    | left =>
      simp only [OnSide, tagOf, iff_true]
      omega
    | right =>
      simp only [OnSide, tagOf, kLeftTag, kRightTag, reduceCtorEq, iff_false]
      omega
  | right =>
    cases side' with
    | left =>
      simp only [OnSide, tagOf, kLeftTag, kRightTag, reduceCtorEq, iff_false]
      omega
    | right =>
      simp only [OnSide, tagOf, iff_true]
      omega

theorem OnSide.eq_side {side side' : NavSide} {tag : ℤ} (hOn : OnSide side tag)
    (hOn' : OnSide side' tag) : side' = side := by
  obtain ⟨i, hi, rfl⟩ : ∃ i : ℕ, i < 2 ∧ tag = tagOf side + i := by
    rcases hOn with rfl | rfl
    · exact ⟨0, by omega, by simp⟩
    · exact ⟨1, by omega, by simp⟩
  exact (onSide_iff_eq hi).mp hOn'

/-- At most two buttons stay within the tags of their side. -/
theorem mem_newButtons_onSide {side side' : NavSide} {button : UIButton Image}
    (hTwo : items.length ≤ 2) (hMem : button ∈ newButtons width (tagOf side) margain items) :
    OnSide side' button.tag ↔ side' = side := by
  obtain ⟨i, hLt, hTag, -⟩ := mem_newButtons hMem
  rw [hTag]
  exact onSide_iff_eq (by omega)

theorem newButtons_filter {side : NavSide} (hTwo : items.length ≤ 2) (side' : NavSide) :
    (newButtons width (tagOf side) margain items).filter (fun button => OnSide side' button.tag) =
      if side' = side then newButtons width (tagOf side) margain items else [] := by
  by_cases hSide : side' = side
  · rw [if_pos hSide]
    apply List.filter_eq_self.mpr
    intro button hMem
    exact decide_eq_true ((mem_newButtons_onSide hTwo hMem).mpr hSide)
  · rw [if_neg hSide]
    apply List.filter_eq_nil_iff.mpr
    intro button hMem hOn
    exact hSide ((mem_newButtons_onSide hTwo hMem).mp (of_decide_eq_true hOn))

end NewButtons

/-! ## Hiding -/

section Hiding

variable {search : TagSearch} {isHidden : Bool} {buttons : List (UIButton Image)}

/-- Sets the flag of the buttons whose tag satisfies `p`. -/
def hideTags (isHidden : Bool) (p : ℤ → Prop) [DecidablePred p] (buttons : List (UIButton Image)) :
    List (UIButton Image) :=
  buttons.map fun button => if p button.tag then { button with isHidden := isHidden } else button

/-- Hiding changes no tag. -/
theorem hideTags_tag (p : ℤ → Prop) [DecidablePred p] (buttons : List (UIButton Image)) :
    (hideTags isHidden p buttons).map UIButton.tag = buttons.map UIButton.tag := by
  rw [hideTags, List.map_map]
  apply List.map_congr_left
  intro button _
  simp only [Function.comp_apply]
  split <;> rfl

/-- The search finds the one button with the tag, if there is one. -/
theorem setHidden_eq_hideTags (hNodup : (buttons.map UIButton.tag).Nodup) (tag : ℤ) :
    setHidden search isHidden buttons tag = hideTags isHidden (· = tag) buttons := by
  cases hFind : search.viewWithTag (buttons.map UIButton.tag) tag with
  | none =>
    have hNone : ∀ button ∈ buttons, ¬ button.tag = tag := by
      intro button hMem hTag
      have hSome := search.complete (buttons.map UIButton.tag) tag
        (List.mem_map.mpr ⟨button, hMem, hTag⟩)
      rw [hFind] at hSome
      cases hSome
    have hMap : hideTags isHidden (· = tag) buttons = buttons :=
      (List.map_congr_left fun button hMem => if_neg (hNone button hMem)).trans (List.map_id _)
    rw [setHidden, hFind, hMap]
  | some i =>
    have hTag := search.sound _ _ _ hFind
    rw [setHidden, hFind]
    apply List.ext_getElem?
    intro j
    rw [hideTags, List.getElem?_modify, List.getElem?_map]
    cases hButton : buttons[j]? with
    | none => rfl
    | some button =>
      have hTag' : (buttons.map UIButton.tag)[j]? = some button.tag := by
        rw [List.getElem?_map, hButton]
        rfl
      have hFound : i = j ↔ button.tag = tag := by
        constructor
        · intro hEq
          rw [← hEq, hTag] at hTag'
          exact (Option.some.inj hTag').symm
        · intro hEq
          have hLt : i < (buttons.map UIButton.tag).length := by
            by_contra hNot
            rw [List.getElem?_eq_none (not_lt.mp hNot)] at hTag
            cases hTag
          rw [hEq, ← hTag] at hTag'
          exact (List.getElem?_inj hLt hNodup).mp hTag'.symm
      by_cases hEq : i = j
      · simp [hEq, hFound.mp hEq]
      · simp [hEq, mt hFound.mpr hEq]

/-- The two assignments of a hide flag reach the buttons of the side. -/
theorem setHidden_setHidden (hNodup : (buttons.map UIButton.tag).Nodup) (side : NavSide) :
    setHidden search isHidden (setHidden search isHidden buttons (tagOf side)) (tagOf side + 1) =
      hideTags isHidden (OnSide side) buttons := by
  have hNodup' : ((hideTags isHidden (· = tagOf side) buttons).map UIButton.tag).Nodup := by
    rwa [hideTags_tag]
  rw [setHidden_eq_hideTags hNodup, setHidden_eq_hideTags hNodup', hideTags, hideTags,
    List.map_map]
  apply List.map_congr_left
  intro button _
  simp only [Function.comp_apply]
  by_cases hFirst : button.tag = tagOf side
  · have hOther : ¬ tagOf side = tagOf side + 1 := by omega
    simp [OnSide, hFirst, hOther]
  · simp [OnSide, hFirst]

/-- Hiding a side hides its buttons, and none of the other side. -/
theorem hideTags_filter (side side' : NavSide) :
    (hideTags isHidden (OnSide side) buttons).filter (fun button => OnSide side' button.tag) =
      if side' = side then
        (buttons.filter fun button => OnSide side' button.tag).map
          fun button => { button with isHidden := isHidden }
      else buttons.filter fun button => OnSide side' button.tag := by
  have hTag : ∀ button : UIButton Image, (if OnSide side button.tag then
      { button with isHidden := isHidden } else button).tag = button.tag := by
    intro button
    split <;> rfl
  rw [hideTags, List.filter_map]
  simp only [Function.comp_def, hTag]
  by_cases hSide : side' = side
  · subst hSide
    rw [if_pos rfl]
    apply List.map_congr_left
    intro button hMem
    exact if_pos (of_decide_eq_true (List.mem_filter.mp hMem).2)
  · rw [if_neg hSide]
    refine (List.map_congr_left fun button hMem => ?_).trans (List.map_id _)
    apply if_neg
    intro hOn
    exact hSide (hOn.eq_side (of_decide_eq_true (List.mem_filter.mp hMem).2))

end Hiding

/-! ## Events -/

section Events

variable {search : TagSearch} {width : String → ℚ} {bar bar' : NNBaseNavigationBar Image Handle}
  {h : List (Event Image Handle)} {e : Event Image Handle}

theorem latest_concat (side : NavSide) (h : List (Event Image Handle))
    (e : Event Image Handle) : latest side (h ++ [e]) = (callFor side e).or (latest side h) := by
  rw [latest, List.filterMap_append]
  cases hCall : callFor side e with
  | none => simp [latest, hCall]
  | some call => simp [hCall]

theorem added_concat (side : NavSide) (h : List (Event Image Handle)) (e : Event Image Handle) :
    added side (h ++ [e]) =
      added side h ++ ((callFor side e).map fun call => call.1.val).getD [] := by
  rw [added, List.filterMap_append, List.flatMap_append]
  cases hCall : callFor side e with
  | none => simp [added, hCall]
  | some call => simp [added, hCall]

/-- What a call does to the bar. -/
theorem step_addNavButtons {side : NavSide} {buttons : NavButtons Image} {actions : Handle}
    (hStep : step search width bar (.addNavButtons side buttons actions) = some bar') :
    bar'.buttons = bar.buttons ++
        newButtons width (tagOf side) (bar.leading side) buttons.val ∧
      ∀ side', bar'.hide side' = bar.hide side' ∧
        bar'.handle side' = if side' = side then some actions else bar.handle side' := by
  cases side with
  | left =>
    obtain rfl := Option.some.inj hStep
    exact ⟨rfl, NavSide.forall_iff.mpr ⟨⟨rfl, rfl⟩, ⟨rfl, rfl⟩⟩⟩
  | right =>
    obtain rfl := Option.some.inj hStep
    exact ⟨rfl, NavSide.forall_iff.mpr ⟨⟨rfl, rfl⟩, ⟨rfl, rfl⟩⟩⟩

/-- What an assignment of a hide flag does to the bar. -/
theorem step_setHide {side : NavSide} {isHidden : Bool}
    (hStep : step search width bar (.setHide side isHidden) = some bar') :
    bar'.buttons = setHidden search isHidden
        (setHidden search isHidden bar.buttons (tagOf side)) (tagOf side + 1) ∧
      ∀ side', bar'.handle side' = bar.handle side' ∧
        bar'.hide side' = if side' = side then isHidden else bar.hide side' := by
  cases side with
  | left =>
    obtain rfl := Option.some.inj hStep
    exact ⟨rfl, NavSide.forall_iff.mpr ⟨⟨rfl, rfl⟩, ⟨rfl, rfl⟩⟩⟩
  | right =>
    obtain rfl := Option.some.inj hStep
    exact ⟨rfl, NavSide.forall_iff.mpr ⟨⟨rfl, rfl⟩, ⟨rfl, rfl⟩⟩⟩

/-- The buttons of a side are those of the calls for it, and only the latest of them added
any. -/
structure SideInvariant (h : List (Event Image Handle)) (bar : NNBaseNavigationBar Image Handle)
    (side : NavSide) : Prop where
  items : (bar.sideButtons side).map UIButton.item = added side h
  latest : added side h = ((latest side h).map fun call => call.1.val).getD []
  handle : bar.handle side = (NNBaseNavigationBar.latest side h).map Prod.snd
  tags : ∀ (i : ℕ) button, (bar.sideButtons side)[i]? = some button → button.tag = tagOf side + i
  hidden : ∀ button ∈ bar.sideButtons side, button.isHidden = bar.hide side

structure Invariant (h : List (Event Image Handle)) (bar : NNBaseNavigationBar Image Handle) :
    Prop where
  nodup : (bar.buttons.map UIButton.tag).Nodup
  side : ∀ side, SideInvariant h bar side

/-- A tap finds the handler of the side and the place of the button. -/
theorem buttonClick_of_tag (bar : NNBaseNavigationBar Image Handle) {side : NavSide} {i : ℕ}
    {button : UIButton Image} (hi : i < 2) (hTag : button.tag = tagOf side + i) :
    bar.buttonClick button = (bar.handle side).map (·, handleType side i) := by
  obtain rfl | rfl : i = 0 ∨ i = 1 := by omega
  · cases side with
    | left => simp [buttonClick, hTag, tagOf, handle, handleType]
    | right => simp [buttonClick, hTag, tagOf, handle, handleType, kLeftTag, kRightTag]
  · cases side with
    | left => simp [buttonClick, hTag, tagOf, handle, handleType]
    | right => simp [buttonClick, hTag, tagOf, handle, handleType, kLeftTag, kRightTag]

theorem SideInvariant.shows {side : NavSide} (hInv : SideInvariant h bar side) :
    Shows h bar side where
  items := hInv.items.trans hInv.latest
  hidden := hInv.hidden
  taps i button hButton := by
    have hItem : (added side h)[i]? = some button.item := by
      rw [← hInv.items, List.getElem?_map, hButton]
      rfl
    rw [hInv.latest] at hItem
    cases hCall : NNBaseNavigationBar.latest side h with
    | none =>
      rw [hCall] at hItem
      cases hItem
    | some call =>
      rw [hCall] at hItem
      refine ⟨call, rfl, ?_⟩
      have hTwo : i < 2 := by
        obtain ⟨hLt, -⟩ := List.getElem?_eq_some_iff.mp hItem
        exact hLt.trans_le call.1.property
      rw [buttonClick_of_tag bar hTwo (hInv.tags i button hButton), hInv.handle, hCall]
      rfl

/-- The buttons of the sides after a call. -/
theorem sideButtons_addNavButtons {side : NavSide} {buttons : NavButtons Image} {actions : Handle}
    (hStep : step search width bar (.addNavButtons side buttons actions) = some bar')
    (side' : NavSide) :
    bar'.sideButtons side' = bar.sideButtons side' ++
      if side' = side then newButtons width (tagOf side) (bar.leading side) buttons.val
      else [] := by
  rw [sideButtons, (step_addNavButtons hStep).1, List.filter_append,
    newButtons_filter buttons.property side', sideButtons]

theorem sideButtons_setHide {side : NavSide} {isHidden : Bool}
    (hNodup : (bar.buttons.map UIButton.tag).Nodup)
    (hStep : step search width bar (.setHide side isHidden) = some bar') (side' : NavSide) :
    bar'.sideButtons side' =
      if side' = side then
        (bar.sideButtons side').map fun button => { button with isHidden := isHidden }
      else bar.sideButtons side' := by
  rw [sideButtons, (step_setHide hStep).1, setHidden_setHidden hNodup, hideTags_filter]
  rfl

/-- Nothing but the flags of the buttons changes without a call for the side. -/
theorem SideInvariant.frame {side : NavSide} (hInv : SideInvariant h bar side)
    (hCall : callFor side e = none) (hHandle : bar'.handle side = bar.handle side)
    (hItems : (bar'.sideButtons side).map UIButton.item = (bar.sideButtons side).map UIButton.item)
    (hTags : (bar'.sideButtons side).map UIButton.tag = (bar.sideButtons side).map UIButton.tag)
    (hHidden : ∀ button ∈ bar'.sideButtons side, button.isHidden = bar'.hide side) :
    SideInvariant (h ++ [e]) bar' side := by
  have hAdded : added side (h ++ [e]) = added side h := by
    rw [added_concat, hCall]
    exact List.append_nil _
  have hLatest : NNBaseNavigationBar.latest side (h ++ [e]) =
      NNBaseNavigationBar.latest side h := by
    rw [latest_concat, hCall]
    rfl
  refine ⟨?_, ?_, ?_, ?_, hHidden⟩
  · rw [hItems, hAdded, hInv.items]
  · rw [hAdded, hLatest, hInv.latest]
  · rw [hHandle, hLatest, hInv.handle]
  · intro i button hButton
    have hTag : ((bar.sideButtons side).map UIButton.tag)[i]? = some button.tag := by
      rw [← hTags, List.getElem?_map, hButton]
      rfl
    rw [List.getElem?_map] at hTag
    obtain ⟨old, hOld, hEq⟩ := Option.map_eq_some_iff.mp hTag
    rw [← hEq, hInv.tags i old hOld]

/-- An event for the other side changes nothing on this one. -/
theorem SideInvariant.otherSide {side : NavSide} (hInv : SideInvariant h bar side)
    (hCall : callFor side e = none) (hHandle : bar'.handle side = bar.handle side)
    (hHide : bar'.hide side = bar.hide side)
    (hButtons : bar'.sideButtons side = bar.sideButtons side) :
    SideInvariant (h ++ [e]) bar' side := by
  refine hInv.frame hCall hHandle ?_ ?_ ?_
  · rw [hButtons]
  · rw [hButtons]
  · rw [hButtons, hHide]
    exact hInv.hidden

/-- A call for a side without buttons that is not hidden. -/
theorem SideInvariant.addNavButtons {side side' : NavSide} {buttons : NavButtons Image}
    {actions : Handle} (hInv : SideInvariant h bar side')
    (hAllowed : Allowed h bar (.addNavButtons side buttons actions))
    (hStep : step search width bar (.addNavButtons side buttons actions) = some bar') :
    SideInvariant (h ++ [.addNavButtons side buttons actions]) bar' side' := by
  obtain ⟨-, hFields⟩ := step_addNavButtons hStep
  obtain ⟨hHide, hHandle⟩ := hFields side'
  have hButtons := sideButtons_addNavButtons hStep side'
  by_cases hSide : side' = side
  · subst hSide
    obtain ⟨hEmpty, hShown⟩ := hAllowed
    have hNone : bar.sideButtons side' = [] := by
      rw [← List.map_eq_nil_iff (f := UIButton.item), hInv.items, hEmpty]
    rw [if_pos rfl] at hHandle hButtons
    rw [hNone, List.nil_append] at hButtons
    have hCall : callFor side' (Event.addNavButtons side' buttons actions) =
        some (buttons, actions) := if_pos rfl
    refine ⟨?_, ?_, ?_, ?_, ?_⟩
    · rw [hButtons, newButtons_item, added_concat, hEmpty, hCall]
      rfl
    · rw [added_concat, latest_concat, hEmpty, hCall]
      rfl
    · rw [hHandle, latest_concat, hCall]
      rfl
    · intro i button hButton
      rw [hButtons] at hButton
      exact (newButtons_getElem? hButton).2.1
    · intro button hMem
      rw [hButtons] at hMem
      obtain ⟨i, hLt, -, hHidden⟩ := mem_newButtons hMem
      have hFlag := hShown.resolve_left (List.ne_nil_of_length_pos (Nat.zero_lt_of_lt hLt))
      rw [hHidden, hHide, hFlag]
  · have hSide' : ¬ side = side' := fun hEq => hSide hEq.symm
    rw [if_neg hSide] at hHandle hButtons
    rw [List.append_nil] at hButtons
    exact hInv.otherSide (if_neg hSide') hHandle hHide hButtons

theorem SideInvariant.setHide {side side' : NavSide} {isHidden : Bool}
    (hNodup : (bar.buttons.map UIButton.tag).Nodup) (hInv : SideInvariant h bar side')
    (hStep : step search width bar (.setHide side isHidden) = some bar') :
    SideInvariant (h ++ [.setHide side isHidden]) bar' side' := by
  obtain ⟨-, hFields⟩ := step_setHide hStep
  obtain ⟨hHandle, hHide⟩ := hFields side'
  have hButtons := sideButtons_setHide hNodup hStep side'
  by_cases hSide : side' = side
  · rw [if_pos hSide] at hHide hButtons
    refine hInv.frame rfl hHandle ?_ ?_ ?_
    · rw [hButtons, List.map_map]
      rfl
    · rw [hButtons, List.map_map]
      rfl
    · intro button hMem
      rw [hButtons] at hMem
      obtain ⟨old, -, rfl⟩ := List.mem_map.mp hMem
      exact hHide.symm
  · rw [if_neg hSide] at hHide hButtons
    exact hInv.otherSide rfl hHandle hHide hButtons

/-- The tags of all buttons stay apart. -/
theorem Invariant.nodup_step (hInv : Invariant h bar) (hAllowed : Allowed h bar e)
    (hStep : step search width bar e = some bar') : (bar'.buttons.map UIButton.tag).Nodup := by
  cases e with
  | addNavButtons side buttons actions =>
    rw [(step_addNavButtons hStep).1, List.map_append]
    refine List.nodup_append.mpr ⟨hInv.nodup, newButtons_tags_nodup, ?_⟩
    intro tag hOld tag' hNew hEq
    obtain ⟨button, hMem, rfl⟩ := List.mem_map.mp hOld
    obtain ⟨button', hMem', hTag⟩ := List.mem_map.mp hNew
    -- The side had no button before.
    have hOn : OnSide side button.tag := by
      rw [hEq, ← hTag]
      exact (mem_newButtons_onSide buttons.property hMem').mpr rfl
    have hSideMem : button ∈ bar.sideButtons side := List.mem_filter.mpr ⟨hMem, decide_eq_true hOn⟩
    have hItem := List.mem_map_of_mem (f := UIButton.item) hSideMem
    rw [(hInv.side side).items, hAllowed.1] at hItem
    exact absurd hItem List.not_mem_nil
  | setHide side isHidden =>
    rw [(step_setHide hStep).1, setHidden_setHidden hInv.nodup, hideTags_tag]
    exact hInv.nodup

theorem Invariant.step (hInv : Invariant h bar) (hAllowed : Allowed h bar e)
    (hStep : NNBaseNavigationBar.step search width bar e = some bar') :
    Invariant (h ++ [e]) bar' := by
  refine ⟨hInv.nodup_step hAllowed hStep, fun side => ?_⟩
  cases e with
  | addNavButtons side' buttons actions => exact (hInv.side side).addNavButtons hAllowed hStep
  | setHide side' isHidden => exact (hInv.side side).setHide hInv.nodup hStep

/-- Buttons are added next to others, or to a side that is hidden. -/
theorem Invariant.not_step (hInv : Invariant h bar) (hNot : ¬ Allowed h bar e)
    (hStep : NNBaseNavigationBar.step search width bar e = some bar') :
    ¬ ∀ side, Shows (h ++ [e]) bar' side := by
  intro hShows
  cases e with
  | setHide side isHidden => exact hNot trivial
  | addNavButtons side buttons actions =>
    have hShown := hShows side
    have hItems := hShown.items
    have hButtons := sideButtons_addNavButtons hStep side
    have hCall : callFor side (Event.addNavButtons side buttons actions) =
        some (buttons, actions) := if_pos rfl
    rw [if_pos rfl] at hButtons
    rw [hButtons, List.map_append, newButtons_item, (hInv.side side).items, latest_concat, hCall]
      at hItems
    have hEmpty : added side h = [] := List.append_left_eq_self.mp hItems
    refine hNot ⟨hEmpty, ?_⟩
    by_cases hNone : buttons.val = []
    · exact Or.inl hNone
    · right
      obtain ⟨item, items, hCons⟩ := List.exists_cons_of_ne_nil hNone
      have hNew : (⟨tagOf side, item, bar.leading side, false⟩ : UIButton Image) ∈
          bar'.sideButtons side := by
        rw [hButtons, hCons, newButtons]
        exact List.mem_append_right _ List.mem_cons_self
      rw [← ((step_addNavButtons hStep).2 side).1]
      exact (hShown.hidden _ hNew).symm

end Events

/-- **The navigation bar.** After every event each side shows the buttons of its latest call,
whose handler a tap reaches, and obeys its hide flag, exactly when buttons are only ever added
to a side that has none and whose flag is not set. -/
theorem always_latest_iff (search : TagSearch) (width : String → ℚ) (left right : ℚ)
    (events : List (Event Image Handle)) :
    (step search width).Always (fun h bar => ∀ side, Shows h bar side) (new left right) events ↔
      (step search width).EachStep Allowed (new left right) events := by
  refine always_iff_eachStep (I := Invariant) ?_ ?_ ?_ ?_
  · refine ⟨List.nodup_nil, fun side => ⟨rfl, rfl, ?_, ?_, ?_⟩⟩
    · cases side with
      | left => rfl
      | right => rfl
    · intro i button hButton
      cases hButton
    · intro button hMem
      exact absurd hMem List.not_mem_nil
  · intro h bar hInv side
    exact (hInv.side side).shows
  · intro h bar e bar' hInv hAllowed hStep
    exact hInv.step hAllowed hStep
  · intro h bar e bar' hInv hNot hStep
    exact hInv.not_step hNot hStep

/-- A second call for the left side. -/
theorem second_call_keeps_buttons :
    ¬ (step .first fun _ => 0).Always (fun h bar => ∀ side, Shows h bar side)
      (new 0 10 : NNBaseNavigationBar Unit Unit)
      [.addNavButtons .left ⟨[.image none], by decide⟩ (),
        .addNavButtons .left ⟨[.image none], by decide⟩ ()] := by
  intro hAlways
  have hShows := hAlways _ _ (List.prefix_refl _) rfl .left
  exact absurd (congrArg List.length hShows.items) (by decide)

end NNBaseNavigationBar

end LeigodAPM
