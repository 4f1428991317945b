import LeigodAPM.CrashEye.RecordText
import LeigodAPM.Database.CrashLog

/-!
# The texts of the console

A record goes from the crash handler to the table, from the table to the console, and from the
console as a text to the pasteboard.

* `console_texts_read_back`: the texts that the console shows are read back as the log, the
  last crash first.
-/

namespace LeigodAPM

open Foundation Machine

namespace CrashRecordModel

/-- What is left of a text holds no label that the text does not hold. -/
theorem Clear.cString {label : Separator Char} {text : String} (hClear : Clear label text) :
    Clear label (cString text) := by
  intro hInfix
  rw [LeigodAPM.cString, String.toList_ofList] at hInfix
  exact hClear (hInfix.trans (List.takeWhile_prefix _).isInfix)

theorem Readable.cut {model : CrashRecordModel} (hReadable : model.Readable) :
    model.cut.Readable where
  type := hReadable.type
  name := hReadable.name.cString
  time := hReadable.time.cString
  reason := hReadable.reason.cString
  appinfo := hReadable.appinfo.cString

end CrashRecordModel

namespace Device

variable {F Obj : Type}

/-- What is written into the record of a crash leaves the labels apart. -/
def Event.Legible : Event F Obj → Prop
  | .crash ctx (.exception e) _ => ctx.SingleLine ∧ e.Clear
  | .crash ctx (.signal _ _) _ => ctx.SingleLine
  | _ => True

def Log.Readable (l : Log) : Prop := ∀ row ∈ l.table.getD [], row.Readable

theorem readable_newRows {ctx : CrashContext} {crash : CrashEye.Crash}
    {succeeds : CrashModel → Bool}
    (hLegible : Event.Legible (.crash ctx crash succeeds : Event F Obj)) :
    ∀ row ∈ newRows ctx crash succeeds, row.Readable := by
  intro row hRow
  obtain ⟨m, hm, rfl⟩ := List.mem_map.mp hRow
  have hReport := List.mem_of_mem_filter hm
  cases crash with
  | signal n hooked =>
    obtain rfl := List.mem_singleton.mp hReport
    exact (CrashRecordModel.readable_signalModel hLegible n).cut
  | exception e =>
    rcases List.mem_pair.mp hReport with rfl | rfl
    · exact ((CrashRecordModel.readable_exceptionModel_iff hLegible.1 e).mpr hLegible.2).cut
    · exact (CrashRecordModel.readable_signalModel hLegible.1 SIGABRT).cut

theorem Log.Readable.apply {l : Log} (hReadable : l.Readable) (resolve : String → String)
    {e : Event F Obj} (hLegible : e.Legible) : (l.apply resolve e).Readable := by
  have hNone : Log.Readable ⟨none, l.registered⟩ := by simp [Log.Readable]
  have hEmpty : Log.Readable ⟨l.table.map fun _ => [], l.registered⟩ := by
    cases hTable : l.table <;> simp [Log.Readable]
  cases e with
  | createTable succeeds =>
    simp only [Log.apply]
    split
    · exact hReadable
    · exact hReadable
  | crash ctx crash succeeds =>
    simp only [Log.apply]
    split
    · intro row hRow
      cases hTable : l.table with
      | none => simp [hTable] at hRow
      | some rows =>
        have hMem : row ∈ rows ++ newRows ctx crash succeeds := by simpa [hTable] using hRow
        rcases List.mem_append.mp hMem with hOld | hNew
        · exact hReadable row (by simpa [hTable] using hOld)
        · exact readable_newRows hLegible row hNew
    · exact hReadable
  | deleteCrashLog succeeds =>
    simp only [Log.apply]
    split
    · exact hEmpty
    · exact hReadable
  | dropTable table succeeds =>
    simp only [Log.apply]
    split
    · exact hNone
    · exact hReadable
  | removeDbFile succeeds =>
    simp only [Log.apply]
    split
    · exact hNone
    · exact hReadable
  | _ => exact hReadable

theorem Log.Readable.run {l : Log} {events : List (Event F Obj)} (hReadable : l.Readable)
    (resolve : String → String) (hLegible : ∀ e ∈ events, e.Legible) :
    (events.foldl (Log.apply resolve) l).Readable := by
  induction events generalizing l with
  | nil => exact hReadable
  | cons e events ih =>
    exact ih (hReadable.apply resolve (hLegible e List.mem_cons_self))
      fun e' he' => hLegible e' (List.mem_cons_of_mem e he')

variable [DecidableEq Obj] [NSObjectProtocol Obj]

/-- **Copied records are not lost.** After any events of a device the texts of an opened console
are read back as the rows of the log. -/
theorem console_texts_read_back (manager : Obj) (db : Database CrashRecordModel)
    (events : List (Event F Obj)) (hInitial : ∀ row ∈ db.rows tabString, row.Readable)
    (hOthers : ∀ e ∈ events, e.LeavesManager manager) (hLegible : ∀ e ∈ events, e.Legible)
    {d : Device F Obj} (hRun : (step manager).run ⟨db, none⟩ events = some d) :
    ((ConsoleController.new d.db).viewWillAppear.recordData.map fun row =>
        CrashRecordModel.readRecord row.attributeString) =
      ((events.foldl (Log.apply db.resolve)
        ⟨NNDBManager.getObjects db tabString, false⟩).table.getD []).reverse.map some := by
  have hStart : Logs manager db.resolve (⟨db, none⟩ : Device F Obj)
      ⟨NNDBManager.getObjects db tabString, false⟩ :=
    ⟨rfl, rfl, fun eye hProcess => by cases hProcess⟩
  have hTable := ((refines manager db.resolve).run hStart hOthers hRun).table
  have hReadable := Log.Readable.run (l := ⟨NNDBManager.getObjects db tabString, false⟩) hInitial
    db.resolve hLegible
  have hShown : (ConsoleController.new d.db).viewWillAppear.recordData =
      ((events.foldl (Log.apply db.resolve)
        ⟨NNDBManager.getObjects db tabString, false⟩).table.getD []).reverse := by
    rw [← hTable]
    rfl
  rw [hShown]
  refine List.map_congr_left fun row hRow => ?_
  exact CrashRecordModel.readRecord_attributeString (hReadable row (List.mem_reverse.mp hRow))

theorem console_texts_read_back_two_processes :
    ∃ d, (step ⟨1, 7⟩).run ⟨⟨Database.caseless, fun _ => none⟩, none⟩ twoProcesses = some d ∧
      ((ConsoleController.new d.db).viewWillAppear.recordData.map fun row =>
          CrashRecordModel.readRecord row.attributeString) =
        ((twoProcesses.foldl (Log.apply Database.caseless)
          ⟨none, false⟩).table.getD []).reverse.map some := by
  have hSingleLine : CrashEye.simulatorContext.SingleLine := by constructor <;> decide
  have hClear : NSException.Clear ⟨"NSGenericException", none, []⟩ :=
    ⟨CrashRecordModel.clear_of_notMem (by decide), CrashRecordModel.clear_of_notMem (by decide)⟩
  refine ⟨_, rfl, console_texts_read_back ⟨1, 7⟩ ⟨Database.caseless, fun _ => none⟩
    twoProcesses ?_ ?_ ?_ rfl⟩
  · simp [Database.rows]
  · simp [twoProcesses, Event.LeavesManager, Foreign, NSObjectProtocol.hash]
  · simp [twoProcesses, Event.Legible, hSingleLine, hClear]

end Device

end LeigodAPM
