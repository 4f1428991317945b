import LeigodAPM.CrashEye.Delegates
import LeigodAPM.Database.Console
import LeigodAPM.WCDB.TableCoding

/-!
# The crash recorder and its table

`EyesManager` creates the crash table and registers itself with `CrashEye` when that
succeeded. `NNDBManager` is a database layer for any table: it does not know which of them
has a registered recorder, and drops the crash table, under any name that SQLite takes for it, or
removes the whole file on request.

* `crash_stored_iff`: a crash is stored exactly when the table exists.
* `always_hasTable_iff`: a registered recorder has its table in every state of a run exactly
  when the table is not dropped, and the file not removed, while the recorder is registered.
-/

namespace LeigodAPM

open Foundation Machine

/-- The record up to the null characters of its texts. -/
def CrashRecordModel.cut (model : CrashRecordModel) : CrashRecordModel where
  type := model.type
  name := cString model.name
  reason := cString model.reason
  appinfo := cString model.appinfo
  time := cString model.time
  callStack := cString model.callStack

/-- The lengths of the texts are not passed to SQLite. -/
instance : TableCodable CrashRecordModel where
  stored := CrashRecordModel.cut

/-- The statics of `CrashEye` and the database of a process. -/
structure Recorder (F Obj : Type) where
  crashEye : CrashEye F Obj
  db : Database CrashRecordModel

namespace EyesManager

variable {F Obj : Type}

/-- The callback of a crash; the insertion has no completion block. -/
def crashEyeDidCatchCrash (model : CrashModel) (succeeds : Bool) (s : Recorder F Obj) :
    Recorder F Obj :=
  { s with db := (NNDBManager.insert s.db [CrashRecordModel.ofModel model] tabString succeeds).1 }

/-- A crash is stored exactly when the insertion succeeds and the table exists. -/
theorem crash_stored_iff (model : CrashModel) (succeeds : Bool) (s : Recorder F Obj) :
    (crashEyeDidCatchCrash model succeeds s).db.rows tabString =
        s.db.rows tabString ++ [(CrashRecordModel.ofModel model).cut] ↔
      succeeds = true ∧ s.db.isTableExists tabString = true := by
  rw [crashEyeDidCatchCrash, NNDBManager.insert_rows]
  by_cases hStored : succeeds = true ∧ s.db.isTableExists tabString = true <;>
    simp [hStored, TableCodable.stored]

/-- No crash is lost to a missing table. -/
structure Ready (s : Recorder F Obj) : Prop where
  table : s.db.isTableExists tabString = true
  stored : ∀ model, (crashEyeDidCatchCrash model true s).db.rows tabString =
    s.db.rows tabString ++ [(CrashRecordModel.ofModel model).cut]

theorem ready_iff {s : Recorder F Obj} : Ready s ↔ s.db.isTableExists tabString = true := by
  refine ⟨fun hReady => hReady.table, fun hTable => ⟨hTable, fun model => ?_⟩⟩
  exact (crash_stored_iff model true s).mpr ⟨rfl, hTable⟩

variable [NSObjectProtocol Obj]

/-- The completion block registers the manager when the table was created. -/
def createTable (manager : Obj) (succeeds : Bool) (s : Recorder F Obj) : Recorder F Obj :=
  let (db, value) := NNDBManager.createTable s.db tabString succeeds
  if value = true then ⟨s.crashEye.add manager, db⟩ else ⟨s.crashEye, db⟩

def closeCrashEye (manager : Obj) (s : Recorder F Obj) : Recorder F Obj :=
  { s with crashEye := s.crashEye.remove manager }

/-- The public operations, each with the outcome of the database. -/
inductive Operation
  | eyesCreateTable (succeeds : Bool)
  | closeCrashEye
  | createTable (table : String) (succeeds : Bool)
  | insert (objects : List CrashRecordModel) (table : String) (succeeds : Bool)
  | delete (table : String) (condition : CrashRecordModel → Bool) (succeeds : Bool)
  | dropTable (table : String) (succeeds : Bool)
  | removeDbFile (succeeds : Bool)

def step (manager : Obj) : Machine (Recorder F Obj) Operation
  | s, .eyesCreateTable succeeds => some (createTable manager succeeds s)
  | s, .closeCrashEye => some (closeCrashEye manager s)
  | s, .createTable table succeeds =>
    some { s with db := (NNDBManager.createTable s.db table succeeds).1 }
  | s, .insert objects table succeeds =>
    some { s with db := (NNDBManager.insert s.db objects table succeeds).1 }
  | s, .delete table condition succeeds =>
    some { s with db := (NNDBManager.delete s.db table condition succeeds).1 }
  | s, .dropTable table succeeds =>
    some { s with db := (NNDBManager.dropTable s.db table succeeds).1 }
  | s, .removeDbFile succeeds => some { s with db := (NNDBManager.removeDbFile s.db succeeds).1 }

/-- The manager is registered as a delegate. -/
def IsRegistered (manager : Obj) (s : Recorder F Obj) : Prop := manager ∈ s.crashEye.notified

/-- A registered manager has its table. -/
def HasTable (manager : Obj) (s : Recorder F Obj) : Prop := IsRegistered manager s → Ready s

/-- The operation takes the crash table away: under a name that SQLite takes for it, or with the
whole file. -/
def Operation.drops (db : Database CrashRecordModel) : Operation → Bool
  | .dropTable table succeeds => db.resolve tabString = db.resolve table ∧ succeeds = true
  | .removeDbFile succeeds => succeeds
  | _ => false

/-- The operation makes sure that the crash table exists. -/
def Operation.creates (db : Database CrashRecordModel) : Operation → Bool
  | .eyesCreateTable succeeds => succeeds
  | .createTable table succeeds => db.resolve tabString = db.resolve table ∧ succeeds = true
  | _ => false

section Steps

variable {manager : Obj} {s s' : Recorder F Obj} {op : Operation}

theorem createTable_eq (manager : Obj) (succeeds : Bool) (s : Recorder F Obj) :
    createTable manager succeeds s =
      ⟨if succeeds = true then s.crashEye.add manager else s.crashEye,
        (NNDBManager.createTable s.db tabString succeeds).1⟩ := by
  cases succeeds <;> rfl

/-- What an operation does to the crash table. -/
theorem step_isTableExists (hStep : step manager s op = some s') :
    s'.db.isTableExists tabString =
      (op.creates s.db || (s.db.isTableExists tabString && !op.drops s.db)) := by
  cases op with
  | eyesCreateTable succeeds =>
    obtain rfl := Option.some.inj hStep
    rw [createTable_eq]
    cases succeeds <;>
      simp [NNDBManager.createTable_isTableExists, Operation.creates, Operation.drops]
  | closeCrashEye =>
    obtain rfl := Option.some.inj hStep
    simp [closeCrashEye, Operation.creates, Operation.drops]
  | createTable table succeeds =>
    obtain rfl := Option.some.inj hStep
    by_cases hCreates : s.db.resolve tabString = s.db.resolve table ∧ succeeds = true <;>
      simp [NNDBManager.createTable_isTableExists, Operation.creates, Operation.drops, hCreates]
  | insert objects table succeeds =>
    obtain rfl := Option.some.inj hStep
    simp [NNDBManager.insert_isTableExists, Operation.creates, Operation.drops]
  | delete table condition succeeds =>
    obtain rfl := Option.some.inj hStep
    simp [NNDBManager.delete_isTableExists, Operation.creates, Operation.drops]
  | dropTable table succeeds =>
    obtain rfl := Option.some.inj hStep
    by_cases hDrops : s.db.resolve tabString = s.db.resolve table ∧ succeeds = true <;>
      simp [NNDBManager.dropTable_isTableExists, Operation.creates, Operation.drops, hDrops]
  | removeDbFile succeeds =>
    obtain rfl := Option.some.inj hStep
    cases succeeds <;>
      simp [NNDBManager.removeDbFile_isTableExists, Operation.creates, Operation.drops]

/-- Only `EyesManager.createTable` registers the manager, and only when it succeeds. -/
theorem step_isRegistered (hStep : step manager s op = some s')
    (hRegistered : IsRegistered manager s') : op.creates s.db = true ∨ IsRegistered manager s := by
  cases op with
  | eyesCreateTable succeeds =>
    cases succeeds with
    | true => exact Or.inl rfl
    | false =>
      obtain rfl := Option.some.inj hStep
      exact Or.inr hRegistered
  | closeCrashEye =>
    obtain rfl := Option.some.inj hStep
    rw [IsRegistered, closeCrashEye, CrashEye.notified_remove] at hRegistered
    exact Or.inr (CrashEye.mem_kept.mp hRegistered).1
  | _ =>
    -- The operations of the database leave `CrashEye` alone.
    obtain rfl := Option.some.inj hStep
    exact Or.inr hRegistered

theorem drops_dropTable {db : Database CrashRecordModel} {table : String}
    (hName : db.resolve tabString = db.resolve table) :
    Operation.drops db (.dropTable table true) = true := decide_eq_true ⟨hName, rfl⟩

/-- Taking the table away does not end the registration. -/
theorem step_of_drops (hDrops : op.drops s.db = true) (hStep : step manager s op = some s') :
    s'.crashEye = s.crashEye ∧ s'.db.isTableExists tabString = false := by
  have hExists := step_isTableExists hStep
  cases op with
  | dropTable table succeeds =>
    obtain rfl := Option.some.inj hStep
    exact ⟨rfl, by simpa [Operation.creates, hDrops] using hExists⟩
  | removeDbFile succeeds =>
    obtain rfl := Option.some.inj hStep
    exact ⟨rfl, by simpa [Operation.creates, hDrops] using hExists⟩
  | _ => cases hDrops

end Steps

/-- **The crash table.** In every state of a run a registered manager has its table, exactly
when no operation of the run drops the table or removes the file while it is registered. -/
theorem always_hasTable_iff (manager : Obj) (handler : Option F)
    (disposition : Int32 → Disposition F) (db : Database CrashRecordModel)
    (ops : List Operation) :
    (step manager).Always (fun _ s => HasTable manager s)
        ⟨.launched handler disposition, db⟩ ops ↔
      (step manager).EachStep (fun _ s op => op.drops s.db = true → ¬ IsRegistered manager s)
        ⟨.launched handler disposition, db⟩ ops := by
  refine always_iff_eachStep (I := fun _ s => HasTable manager s) nofun ?_ ?_ ?_
  · intro h s hTable
    exact hTable
  · intro h s op s' hTable hKept hStep hRegistered
    rw [ready_iff, step_isTableExists hStep]
    rcases step_isRegistered hStep hRegistered with hCreates | hBefore
    · rw [hCreates, Bool.true_or]
    · have hKeeps : op.drops s.db = false := by
        by_contra hDrops
        exact hKept (by simpa using hDrops) hBefore
      rw [(hTable hBefore).table, hKeeps]
      simp
  · intro h s op s' hTable hNot hStep hAfter
    obtain ⟨hDrops, hRegistered⟩ := Classical.not_imp.mp hNot
    obtain ⟨hEye, hGone⟩ := step_of_drops hDrops hStep
    have hStill : IsRegistered manager s' := by
      rw [IsRegistered, hEye]
      exact not_not.mp hRegistered
    rw [(hAfter hStill).table] at hGone
    cases hGone

/-- The table is dropped, in small letters, while the manager is registered. -/
theorem dropped_table_of_registered :
    ¬ (step (⟨1, 7⟩ : NSObject)).Always (fun _ s => HasTable ⟨1, 7⟩ s)
      (⟨.launched none fun _ => .sigDfl, ⟨Database.caseless, fun _ => none⟩⟩ :
        Recorder Unit NSObject)
      [.eyesCreateTable true, .dropTable "crashrecordmodel" true] := by
  intro hAlways
  have hRegistered : (⟨1, 7⟩ : NSObject) ∈ [⟨1, 7⟩] := List.mem_cons_self
  have hTable := (hAlways _ _ (List.prefix_refl _) rfl hRegistered).table
  have hName : Database.caseless tabString = Database.caseless "crashrecordmodel" :=
    congrArg String.ofList (by decide)
  let created : Recorder Unit NSObject := createTable ⟨1, 7⟩ true
    ⟨.launched none fun _ => .sigDfl, ⟨Database.caseless, fun _ => none⟩⟩
  have hStep : step ⟨1, 7⟩ created (.dropTable "crashrecordmodel" true) = some _ := rfl
  have hGone := (step_of_drops (drops_dropTable hName) hStep).2
  cases hTable.symm.trans hGone

end EyesManager

end LeigodAPM
