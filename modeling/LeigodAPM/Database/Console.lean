import LeigodAPM.CrashEye.Crash
import LeigodAPM.Database.NNDBManager

/-!
# The crash console

The data source of the console reads the crash table once, when it is created, and keeps
the rows in `dataArray`. `loadData` shows that copy; the delete action clears only what is
on the screen, and ignores whether the rows were deleted.

* `always_shows_iff`: the screen shows the rows of the table after every event exactly when
  the table was empty from the start, or the console does not appear again after the rows
  have been deleted and no deletion fails before one has succeeded.
-/

namespace LeigodAPM

open Foundation Machine

/-- `EyesManager.tabString`. -/
def tabString : String := "CrashRecordModel"

/-- A console with its data source, and the database. -/
structure ConsoleController where
  db : Database CrashRecordModel
  dataArray : List CrashRecordModel
  recordData : List CrashRecordModel

namespace ConsoleController

def new (db : Database CrashRecordModel) : ConsoleController :=
  ⟨db, (NNDBManager.getObjects db tabString).getD [], []⟩

def loadData (s : ConsoleController) : ConsoleController :=
  { s with recordData := s.dataArray.reverse }

def cleanRecord (s : ConsoleController) : ConsoleController := { s with recordData := [] }

/-- The delete action; it has no completion block. -/
def deleteCrashLog (s : ConsoleController) (succeeds : Bool) : ConsoleController :=
  let s := s.cleanRecord
  { s with db := (NNDBManager.deleteFromDb s.db tabString succeeds).1 }

def viewWillAppear (s : ConsoleController) : ConsoleController := s.loadData

@[simp] theorem viewWillAppear_db (s : ConsoleController) : s.viewWillAppear.db = s.db := rfl

@[simp] theorem viewWillAppear_recordData (s : ConsoleController) :
    s.viewWillAppear.recordData = s.dataArray.reverse := rfl

@[simp] theorem deleteCrashLog_rows (s : ConsoleController) (succeeds : Bool) :
    (s.deleteCrashLog succeeds).db.rows tabString =
      if succeeds = true then [] else s.db.rows tabString :=
  NNDBManager.deleteFromDb_rows s.db tabString succeeds

@[simp] theorem deleteCrashLog_recordData (s : ConsoleController) (succeeds : Bool) :
    (s.deleteCrashLog succeeds).recordData = [] := rfl

inductive Event
  | viewWillAppear
  | delete (succeeds : Bool)
  deriving DecidableEq

def step : Machine ConsoleController Event
  | s, .viewWillAppear => some s.viewWillAppear
  | s, .delete succeeds => some (s.deleteCrashLog succeeds)

/-- The screen shows the rows of the table, the last one first. -/
def Shows (s : ConsoleController) : Prop := s.recordData = (s.db.rows tabString).reverse

/-- The console does not appear once rows were deleted, and no deletion fails before. -/
def Allowed (h : List Event) : Event → Prop
  | .viewWillAppear => .delete true ∉ h
  | .delete succeeds => succeeds = true ∨ .delete true ∈ h

/-- The copy is what the table held at first, and the table holds that or nothing. -/
structure Invariant (initial : List CrashRecordModel) (h : List Event) (s : ConsoleController) :
    Prop where
  dataArray : s.dataArray = initial
  rows : s.db.rows tabString = if .delete true ∈ h then [] else initial

section Events

variable {initial : List CrashRecordModel} {h : List Event} {s s' : ConsoleController} {e : Event}

theorem Invariant.step (hInv : Invariant initial h s) (hStep : step s e = some s') :
    Invariant initial (h ++ [e]) s' := by
  cases e with
  | viewWillAppear =>
    obtain rfl := Option.some.inj hStep
    exact ⟨hInv.dataArray, by simpa using hInv.rows⟩
  | delete succeeds =>
    obtain rfl := Option.some.inj hStep
    refine ⟨hInv.dataArray, ?_⟩
    cases succeeds with
    | true => simp
    | false => simpa using hInv.rows

/-- Whether the screen is right after an event depends only on what has happened before. -/
theorem Invariant.shows_iff (hInv : Invariant initial h s)
    (hStep : ConsoleController.step s e = some s') :
    Shows s' ↔ initial = [] ∨ Allowed h e := by
  have hRows := hInv.rows
  cases e with
  | viewWillAppear =>
    obtain rfl := Option.some.inj hStep
    rw [Shows, viewWillAppear_db, viewWillAppear_recordData, hInv.dataArray, hRows]
    by_cases hDeleted : .delete true ∈ h
    · simp [Allowed, hDeleted]
    · simp [Allowed, hDeleted]
  | delete succeeds =>
    obtain rfl := Option.some.inj hStep
    rw [Shows, deleteCrashLog_rows, deleteCrashLog_recordData, hRows]
    cases succeeds with
    | true => simp [Allowed]
    | false =>
      by_cases hDeleted : .delete true ∈ h
      · simp [Allowed, hDeleted]
      · have hEmpty : [] = initial.reverse ↔ initial = [] := by
          rw [eq_comm, List.reverse_eq_nil_iff]
        simp [Allowed, hDeleted, hEmpty]

end Events

/-- **The console.** After every event the screen shows the rows of the table exactly when the
table was empty at first, or no `viewWillAppear` follows a deletion that succeeded and no
deletion fails before one has succeeded. -/
theorem always_shows_iff (db : Database CrashRecordModel) (events : List Event) :
    step.Always (fun h s => h ≠ [] → Shows s) (new db) events ↔
      step.EachStep (fun h _ e => db.rows tabString = [] ∨ Allowed h e) (new db) events := by
  refine always_iff_eachStep (I := fun h s => Invariant (db.rows tabString) h s ∧
    (h ≠ [] → Shows s)) ⟨⟨rfl, rfl⟩, fun h => absurd rfl h⟩ ?_ ?_ ?_
  · intro h s hBoth
    exact hBoth.2
  · intro h s e s' hBoth hAllowed hStep
    obtain ⟨hInv, -⟩ := hBoth
    exact ⟨hInv.step hStep, fun _ => (hInv.shows_iff hStep).mpr hAllowed⟩
  · intro h s e s' hBoth hNot hStep hShows
    obtain ⟨hInv, -⟩ := hBoth
    exact hNot ((hInv.shows_iff hStep).mp (hShows (by simp)))

/-- A deleted record is shown again. -/
theorem deleted_record_reappears :
    ¬ step.Always (fun h s => h ≠ [] → Shows s)
      (new ⟨Database.caseless, fun table => if table = Database.caseless tabString then
        some [⟨1, "SIGSEGV", "", "", "", ""⟩] else none⟩)
      [.viewWillAppear, .delete true, .viewWillAppear] := by
  intro hAlways
  have hShows := hAlways _ _ (List.prefix_refl _) rfl (by simp)
  have hEq : [(⟨1, "SIGSEGV", "", "", "", ""⟩ : CrashRecordModel)] = [] := hShows
  cases hEq

end ConsoleController

end LeigodAPM
