import LeigodAPM.Foundation.Run

/-!
# The cells of the crash table

`tableView(_:cellForRowAt:)` takes a recycled cell or a new one and adds a long-press
recognizer to it. The closure that sets up only a new cell is empty, so that a recycled cell
gets a second recognizer.

* `Press.effects_eq`: when a press presents an alert.
* `always_one_iff`: every cell carries one recognizer, and a long press presents one alert,
  exactly when no request is answered with a recycled cell.
-/

namespace LeigodAPM

open Foundation Machine

/-- A long-press recognizer with its target and action. -/
structure UILongPressGestureRecognizer (Obj : Type) where
  target : Obj
  action : String
  deriving DecidableEq

structure RecordTableViewCell (Obj : Type) where
  gestureRecognizers : List (UILongPressGestureRecognizer Obj)

namespace RecordTableViewCell

variable {Obj : Type}

/-- `init(style:reuseIdentifier:)` -/
def new : RecordTableViewCell Obj := ⟨[]⟩

def addGestureRecognizer (cell : RecordTableViewCell Obj)
    (recognizer : UILongPressGestureRecognizer Obj) : RecordTableViewCell Obj :=
  ⟨cell.gestureRecognizers ++ [recognizer]⟩

end RecordTableViewCell

/-- All cells of the table, in the order of their creation, and those that the table view has
for reuse, by number. -/
structure RecordTableView (Obj : Type) where
  cells : List (RecordTableViewCell Obj)
  reusable : List ℕ

namespace RecordTableView

variable {Obj : Type}

def new : RecordTableView Obj := ⟨[], []⟩

/-- `dequeueReusableCell(style:identifier:_:)`. The table view answers with one of the cells
that it has for reuse or with none; only a new cell is configured. -/
def dequeueReusableCell (t : RecordTableView Obj) (answer : Option ℕ)
    (configure : RecordTableViewCell Obj → RecordTableViewCell Obj) :
    Option (RecordTableView Obj × ℕ) :=
  match answer with
  | some i => if i ∈ t.reusable then some (⟨t.cells, t.reusable.erase i⟩, i) else none
  | none => some (⟨t.cells ++ [configure .new], t.reusable⟩, t.cells.length)

/-- The recognizer that the data source adds. -/
def longPress (dataSource : Obj) : UILongPressGestureRecognizer Obj :=
  ⟨dataSource, "handleLongPress:"⟩

/-- `tableView(_:cellForRowAt:)`, with the number of the cell that it returns. -/
def cellForRowAt (dataSource : Obj) (t : RecordTableView Obj) (answer : Option ℕ) :
    Option (RecordTableView Obj × ℕ) :=
  (t.dequeueReusableCell answer fun cell => cell).map fun (t, i) =>
    ({ t with cells := t.cells.modify i (·.addGestureRecognizer (longPress dataSource)) }, i)

inductive Event
  | cellForRowAt (answer : Option ℕ)
  | recycle (cell : ℕ)
  deriving DecidableEq

/-- The table view recycles cells that are not displayed any more. -/
def step (dataSource : Obj) : Machine (RecordTableView Obj) Event
  | t, .cellForRowAt answer => (cellForRowAt dataSource t answer).map Prod.fst
  | t, .recycle i =>
    if i < t.cells.length ∧ i ∉ t.reusable then some { t with reusable := t.reusable ++ [i] }
    else none

/-! ## Long presses -/

inductive State
  | began
  | changed
  | ended
  | cancelled
  deriving DecidableEq

/-- What the handler asks for. -/
inductive Effect
  | copy (text : String)
  | present (message : String)
  | dismissAfter (seconds : ℕ)
  deriving DecidableEq

/-- What a table view answers about a point: the row there, and the text of its cell. -/
structure Rows (Point IndexPath : Type) where
  indexPathForRow : Point → Option IndexPath
  cellForRow : IndexPath → Option String

variable {Point IndexPath : Type}

def handleLongPress (tableView : Option (Rows Point IndexPath)) (location : Point)
    (state : State) : List Effect :=
  if state = .began then
    match tableView with
    | none => []
    | some tableView =>
      match (tableView.indexPathForRow location).bind tableView.cellForRow with
      | none => []
      | some textToCopy => [.copy textToCopy, .present "已复制", .dismissAfter 1]
  else []

/-- A press on a row that shows a cell; a recognizer begins once. -/
structure Press (Point IndexPath : Type) where
  tableView : Rows Point IndexPath
  location : Point
  indexPath : IndexPath
  text : String
  later : List State
  onRow : tableView.indexPathForRow location = some indexPath
  shows : tableView.cellForRow indexPath = some text
  once : .began ∉ later

/-- Which of the recognizers of a view recognize a press: some of them, if there are any. -/
structure Recognition (Obj : Type) where
  recognizing : List (UILongPressGestureRecognizer Obj) → List (UILongPressGestureRecognizer Obj)
  sublist : ∀ l, (recognizing l).Sublist l
  nonempty : ∀ l, l ≠ [] → recognizing l ≠ []

/-- What one recognizer of the handler causes during a press. -/
def Press.effects (press : Press Point IndexPath) : List Effect :=
  (.began :: press.later).flatMap (handleLongPress (some press.tableView) press.location)

/-- What a press on a cell causes. -/
def pressEffects (recognition : Recognition Obj) (press : Press Point IndexPath)
    (cell : RecordTableViewCell Obj) : List Effect :=
  (recognition.recognizing cell.gestureRecognizers).flatMap fun recognizer =>
    if recognizer.action = "handleLongPress:" then press.effects else []

def Effect.isPresent : Effect → Bool
  | .present _ => true
  | _ => false

/-- The cell has one recognizer of the data source, and a press on it presents one alert. -/
structure PressedOnce [DecidableEq Obj] (dataSource : Obj) (cell : RecordTableViewCell Obj) :
    Prop where
  one : cell.gestureRecognizers.count (longPress dataSource) = 1
  alert : ∀ (Point IndexPath : Type) (recognition : Recognition Obj)
    (press : Press Point IndexPath),
    (pressEffects recognition press cell).filter Effect.isPresent = [.present "已复制"]

theorem handleLongPress_of_ne {tableView : Option (Rows Point IndexPath)} {location : Point}
    {state : State} (hState : state ≠ .began) : handleLongPress tableView location state = [] :=
  if_neg hState

/-- Only the beginning of a press has an effect. -/
theorem Press.effects_eq (press : Press Point IndexPath) :
    press.effects = [.copy press.text, .present "已复制", .dismissAfter 1] := by
  have hBegan : handleLongPress (some press.tableView) press.location .began =
      [.copy press.text, .present "已复制", .dismissAfter 1] := by
    simp only [handleLongPress, if_true, press.onRow, Option.bind_some, press.shows]
  have hLater : press.later.flatMap
      (handleLongPress (some press.tableView) press.location) = [] := by
    apply List.flatMap_eq_nil_iff.mpr
    intro state hMem
    apply handleLongPress_of_ne
    intro hEq
    exact press.once (hEq ▸ hMem)
  rw [effects, List.flatMap_cons, hBegan, hLater, List.append_nil]

/-- A single recognizer is the one that recognizes the press. -/
theorem Recognition.recognizing_singleton (recognition : Recognition Obj)
    (recognizer : UILongPressGestureRecognizer Obj) :
    recognition.recognizing [recognizer] = [recognizer] := by
  rcases List.sublist_singleton.mp (recognition.sublist [recognizer]) with hNil | hOne
  · exact absurd hNil (recognition.nonempty [recognizer] (List.cons_ne_nil _ _))
  · exact hOne

section Events

variable {dataSource : Obj} {t t' : RecordTableView Obj} {e : Event}

/-- Changing the last item. -/
theorem modify_concat {α : Type} (f : α → α) (l : List α) (a : α) :
    (l ++ [a]).modify l.length f = l ++ [f a] := by
  induction l with
  | nil => rfl
  | cons b l ih => exact congrArg (b :: ·) ih

/-- What an event does: a new cell with its recognizer, one more recognizer on a recycled cell,
or one more cell for reuse. -/
theorem step_cases (hStep : step dataSource t e = some t') :
    (e = .cellForRowAt none ∧ t' = ⟨t.cells ++ [⟨[longPress dataSource]⟩], t.reusable⟩) ∨
    (∃ i, i ∈ t.reusable ∧ e = .cellForRowAt (some i) ∧
      t' = ⟨t.cells.modify i (·.addGestureRecognizer (longPress dataSource)), t.reusable.erase i⟩) ∨
    (∃ i, i < t.cells.length ∧ e = .recycle i ∧ t' = ⟨t.cells, t.reusable ++ [i]⟩) := by
  cases e with
  | cellForRowAt answer =>
    cases answer with
    | none =>
      refine Or.inl ⟨rfl, ?_⟩
      obtain rfl := Option.some.inj hStep
      exact congrArg (fun cells => (⟨cells, t.reusable⟩ : RecordTableView Obj))
        (modify_concat _ t.cells .new)
    | some i =>
      refine Or.inr (Or.inl ⟨i, ?_⟩)
      by_cases hReusable : i ∈ t.reusable
      · rw [step, cellForRowAt, dequeueReusableCell, if_pos hReusable] at hStep
        exact ⟨hReusable, rfl, (Option.some.inj hStep).symm⟩
      · rw [step, cellForRowAt, dequeueReusableCell, if_neg hReusable] at hStep
        cases hStep
  | recycle i =>
    refine Or.inr (Or.inr ⟨i, ?_⟩)
    by_cases hDisplayed : i < t.cells.length ∧ i ∉ t.reusable
    · rw [step, if_pos hDisplayed] at hStep
      exact ⟨hDisplayed.1, rfl, (Option.some.inj hStep).symm⟩
    · rw [step, if_neg hDisplayed] at hStep
      cases hStep

/-- Every cell has the one recognizer, and only existing cells are recycled. -/
structure Invariant (dataSource : Obj) (t : RecordTableView Obj) : Prop where
  recognizers : ∀ cell ∈ t.cells, cell.gestureRecognizers = [longPress dataSource]
  reusable : ∀ i ∈ t.reusable, i < t.cells.length

/-- The request is answered with a recycled cell. -/
def Event.reuses : Event → Bool
  | .cellForRowAt answer => answer.isSome
  | .recycle _ => false

theorem Invariant.step (hInv : Invariant dataSource t) (hNew : e.reuses = false)
    (hStep : RecordTableView.step dataSource t e = some t') : Invariant dataSource t' := by
  rcases step_cases hStep with ⟨-, rfl⟩ | ⟨i, -, rfl, -⟩ | ⟨i, hi, -, rfl⟩
  · refine ⟨?_, ?_⟩
    · intro cell hMem
      rcases List.mem_append.mp hMem with hOld | hLast
      · exact hInv.recognizers cell hOld
      · rw [List.mem_singleton.mp hLast]
    · intro j hj
      rw [List.length_append]
      exact Nat.lt_add_right _ (hInv.reusable j hj)
  · cases hNew
  · refine ⟨hInv.recognizers, ?_⟩
    intro j hj
    rcases List.mem_append.mp hj with hOld | hLast
    · exact hInv.reusable j hOld
    · rw [List.mem_singleton.mp hLast]
      exact hi

end Events

section Cells

variable [DecidableEq Obj] {dataSource : Obj} {t t' : RecordTableView Obj} {e : Event}

theorem pressedOnce_of_eq {cell : RecordTableViewCell Obj}
    (hEq : cell.gestureRecognizers = [longPress dataSource]) : PressedOnce dataSource cell where
  one := by rw [hEq, List.count_singleton_self]
  alert _ _ recognition press := by
    rw [pressEffects, hEq, recognition.recognizing_singleton, List.flatMap_singleton,
      press.effects_eq]
    rfl

/-- A recycled cell gets a second recognizer. -/
theorem Invariant.not_step (hInv : Invariant dataSource t) (hReuses : e.reuses = true)
    (hStep : RecordTableView.step dataSource t e = some t') :
    ∃ cell ∈ t'.cells, ¬ PressedOnce dataSource cell := by
  rcases step_cases hStep with ⟨rfl, -⟩ | ⟨i, hi, -, rfl⟩ | ⟨i, -, rfl, -⟩
  · cases hReuses
  · have hLt := hInv.reusable i hi
    have hOld := hInv.recognizers _ (List.getElem_mem hLt)
    refine ⟨t.cells[i].addGestureRecognizer (longPress dataSource), ?_, fun hOnce => ?_⟩
    · refine List.mem_of_getElem? (i := i) ?_
      rw [List.getElem?_modify_eq, List.getElem?_eq_getElem hLt]
      rfl
    · have hCount := hOnce.one
      rw [RecordTableViewCell.addGestureRecognizer, hOld] at hCount
      simp at hCount
  · cases hReuses

end Cells

/-- **Long presses.** Every cell that was ever returned has one recognizer, and a press on it
presents one alert, exactly when no request is answered with a recycled cell. -/
theorem always_one_iff [DecidableEq Obj] (dataSource : Obj) (events : List Event) :
    (step dataSource).Always (fun _ t => ∀ cell ∈ t.cells, PressedOnce dataSource cell) new events ↔
      (step dataSource).EachStep (fun _ _ e => e.reuses = false) new events := by
  refine always_iff_eachStep (I := fun _ t => Invariant dataSource t) ?_ ?_ ?_ ?_
  · exact ⟨fun cell hMem => absurd hMem List.not_mem_nil, fun i hi => absurd hi List.not_mem_nil⟩
  · intro h t hInv cell hMem
    exact pressedOnce_of_eq (hInv.recognizers cell hMem)
  · intro h t e t' hInv hNew hStep
    exact hInv.step hNew hStep
  · intro h t e t' hInv hReuses hStep hAll
    obtain ⟨cell, hMem, hNot⟩ := hInv.not_step (by simpa using hReuses) hStep
    exact hNot (hAll cell hMem)

/-- A cell is displayed, recycled and displayed again. -/
theorem recycled_cell_two_recognizers :
    ¬ (step ()).Always (fun _ t => ∀ cell ∈ t.cells, PressedOnce () cell) new
      [.cellForRowAt none, .recycle 0, .cellForRowAt (some 0)] := by
  intro hAlways
  have hOnce := hAlways _ _ (List.prefix_refl _) rfl ⟨[longPress (), longPress ()]⟩
    List.mem_cons_self
  exact absurd hOnce.one (by decide)

end RecordTableView

end LeigodAPM
