import LeigodAPM.CrashEye.Registrations
import LeigodAPM.Database.EyesManager
import LeigodAPM.Foundation.Run

/-!
# The crash log of a device

Processes come and go, and the database file stays. Each process starts without a delegate,
`EyesManager` registers itself when it has created the crash table, and a crash inserts its
reports before the process dies.

* `deliver_open`, `deliver_closed`: whom a crash is reported to, and what is left.
* `log_refines`: the crash table is the log of a specification that knows neither handlers nor
  delegates: a crash of a registered process appends its reports, and the console shows them.
-/

namespace LeigodAPM

open Foundation Machine

/-- The database of a device and its process, if one is running. -/
structure Device (F Obj : Type) where
  db : Database CrashRecordModel
  process : Option (CrashEye F Obj)

namespace Device

variable {F Obj : Type} [DecidableEq Obj] [NSObjectProtocol Obj]

/-- `createTable` is called by `EyesManager.init` too. The events `other` are the operations of
other components on `CrashEye`; each operation of the database comes with its outcome. -/
inductive Event (F Obj : Type)
  | launch (handler : Option F) (disposition : Int32 → Disposition F)
  | createTable (succeeds : Bool)
  | closeCrashEye
  | other (op : RegistryOp Obj)
  | crash (ctx : CrashContext) (crash : CrashEye.Crash) (succeeds : CrashModel → Bool)
  | deleteCrashLog (succeeds : Bool)
  | dropTable (table : String) (succeeds : Bool)
  | removeDbFile (succeeds : Bool)
  | terminate

/-- The calls of `crashEyeDidCatchCrash` that reach `EyesManager`. -/
def storeReports (manager : Obj) (succeeds : CrashModel → Bool)
    (received : List (Obj × CrashModel)) (s : Recorder F Obj) : Recorder F Obj :=
  received.foldl (fun s report =>
    if report.1 = manager then
      EyesManager.crashEyeDidCatchCrash report.2 (succeeds report.2) s
    else s) s

/-- The calls of a handler end when it and the one it has saved have returned. -/
def crashed (manager : Obj) (ctx : CrashContext) (crash : CrashEye.Crash)
    (succeeds : CrashModel → Bool) (s : Recorder F Obj) : Option (Device F Obj) :=
  (CrashEye.deliver ctx 2 s.crashEye crash).map fun c =>
    ⟨(storeReports manager succeeds c.received s).db, if c.killed = true then none else some c.app⟩

/-- An event in a running process. -/
def processStep (manager : Obj) (s : Recorder F Obj) : Event F Obj → Option (Device F Obj)
  | .launch _ _ => none
  | .createTable succeeds =>
    let s := EyesManager.createTable manager succeeds s
    some ⟨s.db, some s.crashEye⟩
  | .closeCrashEye => some ⟨s.db, some (EyesManager.closeCrashEye manager s).crashEye⟩
  | .other op => (CrashEye.step s.crashEye op).map fun eye => ⟨s.db, some eye⟩
  | .crash ctx crash succeeds => crashed manager ctx crash succeeds s
  | .deleteCrashLog succeeds =>
    some ⟨(NNDBManager.deleteFromDb s.db tabString succeeds).1, some s.crashEye⟩
  | .dropTable table succeeds =>
    some ⟨(NNDBManager.dropTable s.db table succeeds).1, some s.crashEye⟩
  | .removeDbFile succeeds => some ⟨(NNDBManager.removeDbFile s.db succeeds).1, some s.crashEye⟩
  | .terminate => some ⟨s.db, none⟩

def step (manager : Obj) : Machine (Device F Obj) (Event F Obj)
  | ⟨db, none⟩, .launch handler disposition => some ⟨db, some (.launched handler disposition)⟩
  | ⟨_, none⟩, _ => none
  | ⟨db, some eye⟩, e => processStep manager ⟨eye, db⟩ e

/-! ## The specification -/

/-- The crash table, and whether its crashes are recorded. -/
structure Log where
  table : Option (List CrashRecordModel)
  registered : Bool

/-- The reports of one crash. -/
def reports (ctx : CrashContext) : CrashEye.Crash → List CrashModel
  | .exception e => [exceptionModel ctx e, signalModel ctx SIGABRT]
  | .signal n _ => [signalModel ctx n]

/-- The rows of the reports whose insertion succeeds, as they are stored. -/
def newRows (ctx : CrashContext) (crash : CrashEye.Crash) (succeeds : CrashModel → Bool) :
    List CrashRecordModel :=
  ((reports ctx crash).filter succeeds).map fun m => (CrashRecordModel.ofModel m).cut

/-- A table is dropped under each name that SQLite takes for it. -/
def Log.apply (resolve : String → String) (l : Log) : Event F Obj → Log
  | .launch _ _ => { l with registered := false }
  | .createTable succeeds => if succeeds = true then ⟨some (l.table.getD []), true⟩ else l
  | .closeCrashEye => { l with registered := false }
  | .other _ => l
  | .crash ctx crash succeeds =>
    if l.registered = true then { l with table := l.table.map (· ++ newRows ctx crash succeeds) }
    else l
  | .deleteCrashLog succeeds =>
    if succeeds = true then { l with table := l.table.map fun _ => [] } else l
  | .dropTable table succeeds =>
    if resolve tabString = resolve table ∧ succeeds = true then { l with table := none } else l
  | .removeDbFile succeeds => if succeeds = true then { l with table := none } else l
  | .terminate => l

/-- The operation is on an object with another hash than the manager. -/
def Foreign (manager : Obj) (op : RegistryOp Obj) : Prop :=
  ∀ d, (op = .add d ∨ op = .remove d ∨ op = .dealloc d) →
    NSObjectProtocol.hash d ≠ NSObjectProtocol.hash manager

/-- Other components do not touch the registration of the manager. -/
def Event.LeavesManager (manager : Obj) : Event F Obj → Prop
  | .other op => Foreign manager op
  | _ => True

end Device

/-! ## What a crash leaves -/

namespace CrashEye

section Crashes

variable {F Obj : Type*} {handler : Option F} {disposition : Int32 → Disposition F}
  {s : CrashEye F Obj}

/-- A signal in a state that is not open is reported to nobody. -/
theorem raise_closed {c : Crashing F Obj} (ctx : CrashContext) (hClosed : c.app.isOpen = false)
    (n : Int32) : (raise ctx n c).received = c.received ∧ (raise ctx n c).app = c.app := by
  rw [raise]
  split
  · rw [RecieveSignal, if_neg (by simp [hClosed])]
    exact ⟨rfl, rfl⟩
  all_goals exact ⟨rfl, rfl⟩

theorem raise_open {c : Crashing F Obj} (ctx : CrashContext)
    (hSlots : Slots handler disposition c.app) (hOpen : c.app.isOpen = true) {n : Int32}
    (hn : n ∈ crashSignals) : raise ctx n c = killApp (notify (signalModel ctx n) c) := by
  simp [raise, RecieveSignal, hSlots.open_signals hOpen n hn, hOpen]

/-- The exception handler and those it has saved report once. -/
theorem callHandler_open (ctx : CrashContext) (e : NSException)
    (hSlots : Slots handler disposition s) (hOpen : s.isOpen = true) :
    ∃ entered, callHandler (fun _ => none) ctx e 2 .recieveException (.begin s) =
      some (notify (exceptionModel ctx e) ⟨s, entered, [], false⟩) := by
  have hOld : s.oldHandler (fun _ => none) .recieveException = handler.map .foreign :=
    hSlots.open_saved hOpen
  cases handler with
  | none =>
    refine ⟨[.recieveException], ?_⟩
    simp [callHandler, Crashing.begin, hOld, reportException, hOpen]
  | some f =>
    refine ⟨[.recieveException, .foreign f], ?_⟩
    have hEnd : s.oldHandler (fun _ => none) (.foreign f) = none := rfl
    simp [callHandler, Crashing.begin, hOld, hEnd, reportException, hOpen]

/-- The reports of a crash, each to all delegates. -/
theorem deliver_open (ctx : CrashContext) (hSlots : Slots handler disposition s)
    (hOpen : s.isOpen = true) (crash : Crash) :
    ∃ c, deliver ctx 2 s crash = some c ∧ c.killed = true ∧
      c.received = (Device.reports ctx crash).flatMap fun m => s.notified.map fun d => (d, m) := by
  cases crash with
  | signal n hn =>
    refine ⟨_, rfl, ?_⟩
    rw [raise_open ctx (c := .begin s) hSlots hOpen hn]
    exact ⟨rfl, by simp [killApp, notify, Crashing.begin, Device.reports]⟩
  | exception e =>
    obtain ⟨entered, hCall⟩ := callHandler_open ctx e hSlots hOpen
    have hInstalled : (Crashing.begin s).app.uncaughtExceptionHandler = some .recieveException :=
      hSlots.open_handler hOpen
    refine ⟨abort ctx (notify (exceptionModel ctx e) ⟨s, entered, [], false⟩), ?_, rfl, ?_⟩
    · simp only [deliver, uncaughtException, hInstalled, hCall, Option.map_some]
    · have hAbort := raise_open ctx (c := notify (exceptionModel ctx e) ⟨s, entered, [], false⟩)
        hSlots hOpen (show SIGABRT ∈ crashSignals by decide)
      rw [abort, hAbort]
      simp [killApp, notify, Device.reports]

theorem deliver_closed (ctx : CrashContext) (hSlots : Slots handler disposition s)
    (hClosed : s.isOpen = false) (crash : Crash) :
    ∃ c, deliver ctx 2 s crash = some c ∧ c.received = [] ∧ c.app = s := by
  cases crash with
  | signal n hn => exact ⟨_, rfl, raise_closed ctx (c := .begin s) hClosed n⟩
  | exception e =>
    have hInstalled := hSlots.closed_handler hClosed
    cases handler with
    | none =>
      refine ⟨abort ctx (.begin s), ?_, raise_closed ctx (c := .begin s) hClosed SIGABRT⟩
      simp [deliver, uncaughtException, Crashing.begin, hInstalled]
    | some f =>
      have hEnd : s.oldHandler (fun _ => none) (.foreign f) = none := rfl
      refine ⟨abort ctx ⟨s, [.foreign f], [], false⟩, ?_,
        raise_closed ctx (c := ⟨s, [.foreign f], [], false⟩) hClosed SIGABRT⟩
      simp [deliver, uncaughtException, Crashing.begin, hInstalled, callHandler, hEnd]

end Crashes

end CrashEye

/-! ## The crash table -/

namespace NNDBManager

variable {Row : Type} (db : Database Row) (table : String) (succeeds : Bool)

@[simp] theorem resolve_createTable : (createTable db table succeeds).1.resolve = db.resolve := by
  cases succeeds <;> rfl

@[simp] theorem resolve_insert [TableCodable Row] (objects : List Row) :
    (insert db objects table succeeds).1.resolve = db.resolve := by
  cases objects with
  | nil =>
    rw [insert, Database.insert]
    split <;> rfl
  | cons object objects =>
    rw [insert, Database.insert]
    split <;> rfl

@[simp] theorem resolve_deleteFromDb :
    (deleteFromDb db table succeeds).1.resolve = db.resolve := by
  rw [deleteFromDb, Database.delete, catching]
  split <;> rfl

@[simp] theorem resolve_dropTable : (dropTable db table succeeds).1.resolve = db.resolve := by
  cases succeeds <;> rfl

@[simp] theorem resolve_removeDbFile : (removeDbFile db succeeds).1.resolve = db.resolve := by
  cases succeeds <;> rfl

theorem getObjects_createTable : getObjects (createTable db table succeeds).1 table =
    if succeeds = true then some ((getObjects db table).getD []) else getObjects db table := by
  cases succeeds with
  | true => simp [getObjects, createTable, catching, Database.create, Database.set, Database.rows]
  | false => rfl

theorem getObjects_insert [TableCodable Row] (objects : List Row) :
    getObjects (insert db objects table succeeds).1 table =
      if succeeds = true then (getObjects db table).map (· ++ objects.map TableCodable.stored)
      else getObjects db table := by
  cases objects with
  | nil =>
    have hSame : (insert db [] table succeeds).1 = db := by
      rw [insert, Database.insert]
      split <;> rfl
    simp [hSame]
  | cons object objects =>
    rw [getObjects, resolve_insert]
    cases succeeds with
    | true =>
      cases hTable : db.tables (db.resolve table) with
      | none =>
        simp [getObjects, insert, catching, Database.insert, Database.isTableExists, hTable]
      | some rows =>
        simp [getObjects, insert, catching, Database.insert, Database.isTableExists, Database.set,
          Database.rows, hTable]
    | false => simp [getObjects, insert, catching, Database.insert]

theorem getObjects_deleteFromDb : getObjects (deleteFromDb db table succeeds).1 table =
    if succeeds = true then (getObjects db table).map fun _ => [] else getObjects db table := by
  rw [getObjects, resolve_deleteFromDb]
  cases succeeds with
  | true =>
    cases hTable : db.tables (db.resolve table) with
    | none =>
      simp [getObjects, deleteFromDb, catching, Database.delete, Database.isTableExists, hTable]
    | some rows =>
      simp [getObjects, deleteFromDb, catching, Database.delete, Database.isTableExists,
        Database.set, hTable]
  | false => simp [getObjects, deleteFromDb, catching, Database.delete]

theorem getObjects_dropTable (table' : String) :
    getObjects (dropTable db table' succeeds).1 table =
      if db.resolve table = db.resolve table' ∧ succeeds = true then none
      else getObjects db table := by
  cases succeeds with
  | true =>
    simp [getObjects, dropTable, catching, Database.drop, Database.set, Function.update_apply]
  | false => simp [getObjects, dropTable, catching, Database.drop]

theorem getObjects_removeDbFile : getObjects (removeDbFile db succeeds).1 table =
    if succeeds = true then none else getObjects db table := by
  cases succeeds with
  | true => rfl
  | false => rfl

end NNDBManager

namespace Device

section Store

variable {F Obj : Type} [DecidableEq Obj] {manager : Obj} {succeeds : CrashModel → Bool}

theorem storeReports_append (received received' : List (Obj × CrashModel)) (s : Recorder F Obj) :
    storeReports manager succeeds (received ++ received') s =
      storeReports manager succeeds received' (storeReports manager succeeds received s) :=
  List.foldl_append

theorem resolve_storeReports (received : List (Obj × CrashModel)) (s : Recorder F Obj) :
    (storeReports manager succeeds received s).db.resolve = s.db.resolve := by
  induction received generalizing s with
  | nil => rfl
  | cons report received ih =>
    rw [storeReports, List.foldl_cons]
    refine (ih _).trans ?_
    split
    · exact NNDBManager.resolve_insert _ _ _ _
    · rfl

/-- A report to other delegates stores nothing. -/
theorem storeReports_of_not_mem {l : List Obj} (m : CrashModel) (s : Recorder F Obj)
    (hNot : manager ∉ l) : storeReports manager succeeds (l.map fun d => (d, m)) s = s := by
  induction l generalizing s with
  | nil => rfl
  | cons d l ih =>
    have hNe : d ≠ manager := fun hEq => hNot (hEq ▸ List.mem_cons_self)
    rw [List.map_cons, storeReports, List.foldl_cons, if_neg hNe]
    exact ih s fun hMem => hNot (List.mem_cons_of_mem d hMem)

/-- A report to all delegates is stored once. -/
theorem storeReports_of_mem {l : List Obj} (m : CrashModel) (s : Recorder F Obj)
    (hNodup : l.Nodup) (hMem : manager ∈ l) :
    storeReports manager succeeds (l.map fun d => (d, m)) s =
      EyesManager.crashEyeDidCatchCrash m (succeeds m) s := by
  induction l generalizing s with
  | nil => cases hMem
  | cons d l ih =>
    obtain ⟨hNot, hRest⟩ := List.nodup_cons.mp hNodup
    rw [List.map_cons, storeReports, List.foldl_cons]
    by_cases hEq : d = manager
    · rw [if_pos hEq]
      exact storeReports_of_not_mem m _ (hEq ▸ hNot)
    · rw [if_neg hEq]
      exact ih s hRest ((List.mem_cons.mp hMem).resolve_left (Ne.symm hEq))

theorem storeReports_of_forall_not_mem {l : List Obj} (models : List CrashModel)
    (s : Recorder F Obj) (hNot : manager ∉ l) :
    storeReports manager succeeds (models.flatMap fun m => l.map fun d => (d, m)) s = s := by
  induction models generalizing s with
  | nil => rfl
  | cons m models ih =>
    rw [List.flatMap_cons, storeReports_append, storeReports_of_not_mem m s hNot, ih]

/-- The reports of a crash to all delegates, stored one after the other. -/
theorem getObjects_storeReports {l : List Obj} (models : List CrashModel) (s : Recorder F Obj)
    (hNodup : l.Nodup) (hMem : manager ∈ l) :
    NNDBManager.getObjects ((storeReports manager succeeds
      (models.flatMap fun m => l.map fun d => (d, m))
      s).db) tabString =
      (NNDBManager.getObjects s.db tabString).map
        (· ++ (models.filter succeeds).map fun m => (CrashRecordModel.ofModel m).cut) := by
  induction models generalizing s with
  | nil => simp [storeReports]
  | cons m models ih =>
    rw [List.flatMap_cons, storeReports_append, storeReports_of_mem m s hNodup hMem, ih,
      EyesManager.crashEyeDidCatchCrash, NNDBManager.getObjects_insert]
    cases hSucceeds : succeeds m with
    | true =>
      cases NNDBManager.getObjects s.db tabString <;> simp [hSucceeds, TableCodable.stored]
    | false => simp [hSucceeds]

end Store

/-! ## A running process -/

section Process

variable {F Obj : Type} [NSObjectProtocol Obj] {manager : Obj} {l : Log}
  {eye eye' : CrashEye F Obj} {op : RegistryOp Obj}

/-- What the log knows about a running process. -/
structure Running (manager : Obj) (l : Log) (eye : CrashEye F Obj) : Prop where
  slots : ∃ handler disposition, CrashEye.Slots handler disposition eye
  distinct : CrashEye.Distinct eye
  isOpen_iff : eye.isOpen = true ↔ eye.delegates ≠ []
  alive : manager ∉ eye.deallocated
  own_hash : ∀ d ∈ eye.notified,
    NSObjectProtocol.hash d = NSObjectProtocol.hash manager → d = manager
  registered_iff : l.registered = true ↔ manager ∈ eye.notified

/-- A registered process is open. -/
theorem Running.isOpen (hRunning : Running manager l eye) (hRegistered : l.registered = true) :
    eye.isOpen = true := by
  have hMem := hRunning.registered_iff.mp hRegistered
  exact hRunning.isOpen_iff.mpr (CrashEye.notified_ne_nil (List.ne_nil_of_mem hMem))

theorem running_launched (handler : Option F) (disposition : Int32 → Disposition F)
    (manager : Obj) (l : Log) : Running manager { l with registered := false }
      (.launched handler disposition) where
  slots := ⟨handler, disposition, CrashEye.slots_launched⟩
  distinct := List.nodup_nil
  isOpen_iff := by simp [CrashEye.launched]
  alive := List.not_mem_nil
  own_hash d hd := absurd hd List.not_mem_nil
  registered_iff := by simp [CrashEye.launched, CrashEye.notified]

/-- Nothing but the flag of the log is known to the process. -/
theorem Running.congr {l' : Log} (hRunning : Running manager l eye)
    (hRegistered : l'.registered = l.registered) : Running manager l' eye where
  slots := hRunning.slots
  distinct := hRunning.distinct
  isOpen_iff := hRunning.isOpen_iff
  alive := hRunning.alive
  own_hash := hRunning.own_hash
  registered_iff := by rw [hRegistered, hRunning.registered_iff]

/-- The table of the device is that of the log, and a running process agrees with it. -/
structure Logs (manager : Obj) (resolve : String → String) (d : Device F Obj) (l : Log) : Prop where
  resolve_eq : d.db.resolve = resolve
  table : NNDBManager.getObjects d.db tabString = l.table
  running : ∀ eye, d.process = some eye → Running manager l eye

/-- An operation of the database leaves the process alone. -/
theorem logs_of_getObjects {resolve : String → String} {l' : Log}
    {db : Database CrashRecordModel} (hRunning : Running manager l eye)
    (hRegistered : l'.registered = l.registered) (hResolve : db.resolve = resolve)
    (hTable : NNDBManager.getObjects db tabString = l'.table) :
    Logs manager resolve ⟨db, some eye⟩ l' where
  resolve_eq := hResolve
  table := hTable
  running eye' hProcess := by
    obtain rfl := Option.some.inj hProcess
    exact hRunning.congr hRegistered

variable [DecidableEq Obj]

/-- The operation is on the manager, which is not deallocated, or leaves it alone. -/
def Known (manager : Obj) (op : RegistryOp Obj) : Prop :=
  op = .add manager ∨ op = .remove manager ∨ Foreign manager op

/-- Who is registered after an operation. -/
theorem mem_notified_step (hKnown : Known manager op)
    (hOwn : ∀ d ∈ eye.notified, NSObjectProtocol.hash d = NSObjectProtocol.hash manager →
      d = manager) (hStep : CrashEye.step eye op = some eye') :
    manager ∈ eye'.notified ↔
      op = .add manager ∨ (manager ∈ eye.notified ∧ op ≠ .remove manager) := by
  obtain ⟨d, rfl, -, rfl⟩ | ⟨d, rfl, -, rfl⟩ | ⟨d, rfl, -, rfl⟩ := CrashEye.step_cases hStep
  · rw [CrashEye.notified_add]
    by_cases hEq : d = manager
    · subst hEq
      split
      · rename_i hTaken
        obtain ⟨e, he, hHash⟩ := hTaken
        simpa using hOwn e he hHash ▸ he
      · simp
    · split <;> simp [hEq, Ne.symm hEq]
  · rw [CrashEye.notified_remove, CrashEye.mem_kept]
    by_cases hEq : d = manager
    · simp [hEq]
    · have hHash : NSObjectProtocol.hash manager ≠ NSObjectProtocol.hash d := by
        rcases hKnown with hAdd | hRemove | hForeign
        · cases hAdd
        · cases hRemove
          exact absurd rfl hEq
        · exact (hForeign d (Or.inr (Or.inl rfl))).symm
      simp [hEq, hHash]
  · have hNe : manager ≠ d := by
      rcases hKnown with hAdd | hRemove | hForeign
      · cases hAdd
      · cases hRemove
      · exact fun hEq => hForeign d (Or.inr (Or.inr rfl)) (congrArg _ hEq.symm)
    rw [CrashEye.notified_dealloc]
    simp [hNe]

/-- An operation on `CrashEye` in a running process. -/
theorem Running.step (hRunning : Running manager l eye) (hKnown : Known manager op)
    (hStep : CrashEye.step eye op = some eye') {l' : Log}
    (hRegistered : l'.registered = true ↔
      op = .add manager ∨ (l.registered = true ∧ op ≠ .remove manager)) :
    Running manager l' eye' where
  slots := by
    obtain ⟨handler, disposition, hSlots⟩ := hRunning.slots
    exact ⟨handler, disposition, CrashEye.slots_step hSlots hStep⟩
  distinct := CrashEye.distinct_step hRunning.distinct hStep
  isOpen_iff := CrashEye.isOpen_iff_step hRunning.isOpen_iff hStep
  alive := by
    obtain ⟨d, rfl, -, rfl⟩ | ⟨d, rfl, -, rfl⟩ | ⟨d, rfl, -, rfl⟩ := CrashEye.step_cases hStep
    · simpa using hRunning.alive
    · simpa using hRunning.alive
    · have hNe : manager ≠ d := by
        rcases hKnown with hAdd | hRemove | hForeign
        · cases hAdd
        · cases hRemove
        · exact fun hEq => hForeign d (Or.inr (Or.inr rfl)) (congrArg _ hEq.symm)
      simpa [CrashEye.dealloc, hNe] using hRunning.alive
  own_hash := by
    intro e he hHash
    obtain ⟨d, rfl, -, rfl⟩ | ⟨d, rfl, -, rfl⟩ | ⟨d, rfl, -, rfl⟩ := CrashEye.step_cases hStep
    · rw [CrashEye.notified_add] at he
      split at he
      · exact hRunning.own_hash e he hHash
      · rcases List.mem_append.mp he with hOld | hNew
        · exact hRunning.own_hash e hOld hHash
        · obtain rfl := List.mem_singleton.mp hNew
          rcases hKnown with hAdd | hRemove | hForeign
          · exact RegistryOp.add.inj hAdd
          · cases hRemove
          · exact absurd hHash (hForeign e (Or.inl rfl))
    · rw [CrashEye.notified_remove] at he
      exact hRunning.own_hash e (CrashEye.mem_kept.mp he).1 hHash
    · rw [CrashEye.notified_dealloc] at he
      exact hRunning.own_hash e (List.mem_filter.mp he).1 hHash
  registered_iff := by
    rw [hRegistered, hRunning.registered_iff, mem_notified_step hKnown hRunning.own_hash hStep]

/-- The operations of the manager itself are possible, because it is alive. -/
theorem Running.step_add (hRunning : Running manager l eye) :
    CrashEye.step eye (.add manager) = some (eye.add manager) := if_neg hRunning.alive

theorem Running.step_remove (hRunning : Running manager l eye) :
    CrashEye.step eye (.remove manager) = some (eye.remove manager) := if_neg hRunning.alive

/-- A crash of a running process is delivered, and its table is what the log says. -/
theorem Running.crash (hRunning : Running manager l eye) (ctx : CrashContext)
    (crash : CrashEye.Crash) (succeeds : CrashModel → Bool) (db : Database CrashRecordModel) :
    ∃ d, crashed manager ctx crash succeeds ⟨eye, db⟩ = some d ∧
      d.db.resolve = db.resolve ∧
      NNDBManager.getObjects d.db tabString = (if l.registered = true then
        (NNDBManager.getObjects db tabString).map (· ++ newRows ctx crash succeeds)
        else NNDBManager.getObjects db tabString) ∧
      ∀ eye', d.process = some eye' → Running manager l eye' := by
  obtain ⟨handler, disposition, hSlots⟩ := hRunning.slots
  cases hOpen : eye.isOpen with
  | true =>
    obtain ⟨c, hDeliver, hKilled, hReceived⟩ := CrashEye.deliver_open ctx hSlots hOpen crash
    refine ⟨_, by rw [crashed, hDeliver, Option.map_some], resolve_storeReports _ _, ?_, ?_⟩
    · rw [hReceived]
      by_cases hMem : manager ∈ eye.notified
      · rw [if_pos (hRunning.registered_iff.mpr hMem)]
        exact getObjects_storeReports _ _ hRunning.distinct.nodup hMem
      · rw [if_neg fun h => hMem (hRunning.registered_iff.mp h),
          storeReports_of_forall_not_mem _ _ hMem]
    · intro eye' hProcess
      rw [if_pos hKilled] at hProcess
      cases hProcess
  | false =>
    obtain ⟨c, hDeliver, hReceived, hApp⟩ := CrashEye.deliver_closed ctx hSlots hOpen crash
    have hNot : ¬ l.registered = true := by
      intro hRegistered
      rw [hRunning.isOpen hRegistered] at hOpen
      cases hOpen
    refine ⟨_, by rw [crashed, hDeliver, Option.map_some], resolve_storeReports _ _, ?_, ?_⟩
    · rw [hReceived, if_neg hNot]
      rfl
    · intro eye' hProcess
      split at hProcess
      · cases hProcess
      · rw [hApp] at hProcess
        obtain rfl := Option.some.inj hProcess
        exact hRunning

end Process

/-! ## The refinement -/

section Refinement

variable {F Obj : Type} [DecidableEq Obj] [NSObjectProtocol Obj] {manager : Obj} {l : Log}

/-- An event of a running process. -/
theorem processStep_refines {eye : CrashEye F Obj} {db : Database CrashRecordModel}
    {e : Event F Obj} {d : Device F Obj} (hTable : NNDBManager.getObjects db tabString = l.table)
    (hRunning : Running manager l eye) (hEvent : e.LeavesManager manager)
    (hStep : processStep manager ⟨eye, db⟩ e = some d) :
    Logs manager db.resolve d (l.apply db.resolve e) := by
  cases e with
  | launch handler disposition => cases hStep
  | createTable succeeds =>
    obtain rfl := Option.some.inj hStep
    rw [EyesManager.createTable_eq]
    refine ⟨NNDBManager.resolve_createTable _ _ _, ?_, ?_⟩
    · rw [NNDBManager.getObjects_createTable, hTable, Log.apply]
      split <;> rfl
    · intro eye' hProcess
      obtain rfl := Option.some.inj hProcess
      cases succeeds with
      | true => exact hRunning.step (Or.inl rfl) hRunning.step_add (by simp [Log.apply])
      | false => exact hRunning
  | closeCrashEye =>
    obtain rfl := Option.some.inj hStep
    refine ⟨rfl, hTable, ?_⟩
    intro eye' hProcess
    obtain rfl := Option.some.inj hProcess
    exact hRunning.step (Or.inr (Or.inl rfl)) hRunning.step_remove (by simp [Log.apply])
  | other op =>
    obtain ⟨eye', hOp, rfl⟩ := Option.map_eq_some_iff.mp hStep
    refine ⟨rfl, hTable, ?_⟩
    intro eye'' hProcess
    obtain rfl := Option.some.inj hProcess
    refine hRunning.step (Or.inr (Or.inr hEvent)) hOp ?_
    have hAdd : op ≠ .add manager := fun hEq => hEvent manager (Or.inl hEq) rfl
    have hRemove : op ≠ .remove manager := fun hEq => hEvent manager (Or.inr (Or.inl hEq)) rfl
    simp [Log.apply, hAdd, hRemove]
  | crash ctx crash succeeds =>
    obtain ⟨d', hCrashed, hResolve, hRows, hProcess⟩ := hRunning.crash ctx crash succeeds db
    obtain rfl := Option.some.inj (hCrashed.symm.trans hStep)
    rw [Log.apply]
    by_cases hRegistered : l.registered = true
    · rw [if_pos hRegistered, hTable] at hRows
      rw [if_pos hRegistered]
      exact ⟨hResolve, hRows, fun eye' h => (hProcess eye' h).congr rfl⟩
    · rw [if_neg hRegistered, hTable] at hRows
      rw [if_neg hRegistered]
      exact ⟨hResolve, hRows, hProcess⟩
  | terminate =>
    obtain rfl := Option.some.inj hStep
    exact ⟨rfl, hTable, fun eye' hProcess => by cases hProcess⟩
  | deleteCrashLog succeeds =>
    obtain rfl := Option.some.inj hStep
    apply logs_of_getObjects hRunning
    · rw [Log.apply]
      split <;> rfl
    · exact NNDBManager.resolve_deleteFromDb _ _ _
    · rw [NNDBManager.getObjects_deleteFromDb, hTable, Log.apply]
      split <;> rfl
  | dropTable table succeeds =>
    obtain rfl := Option.some.inj hStep
    apply logs_of_getObjects hRunning
    · rw [Log.apply]
      split <;> rfl
    · exact NNDBManager.resolve_dropTable _ _ _
    · rw [NNDBManager.getObjects_dropTable, hTable, Log.apply]
      split <;> rfl
  | removeDbFile succeeds =>
    obtain rfl := Option.some.inj hStep
    apply logs_of_getObjects hRunning
    · rw [Log.apply]
      split <;> rfl
    · exact NNDBManager.resolve_removeDbFile _ _
    · rw [NNDBManager.getObjects_removeDbFile, hTable, Log.apply]
      split <;> rfl

/-- One event on the device is one event on the log. -/
theorem refines (manager : Obj) (resolve : String → String) :
    Refines (step manager) (Log.apply resolve) (Event.LeavesManager manager)
      fun (d : Device F Obj) l => Logs manager resolve d l where
  step := by
    intro d l e d' hLogs hEvent hStep
    obtain ⟨db, process⟩ := d
    cases process with
    | some eye =>
      obtain rfl := hLogs.resolve_eq
      exact processStep_refines hLogs.table (hLogs.running eye rfl) hEvent hStep
    | none =>
      cases e with
      | launch handler disposition =>
        obtain rfl := Option.some.inj hStep
        refine ⟨hLogs.resolve_eq, hLogs.table, fun eye hProcess => ?_⟩
        obtain rfl := Option.some.inj hProcess
        exact running_launched handler disposition manager l
      | _ => cases hStep

/-- **The crash log.** After any events of a device, across any number of processes, the crash
table is that of the log, a console that is opened shows its rows with the last one first, and
a crash of the running process is delivered to its end. -/
theorem log_refines (manager : Obj) (db : Database CrashRecordModel) (events : List (Event F Obj))
    (hOthers : ∀ e ∈ events, e.LeavesManager manager) {d : Device F Obj}
    (hRun : (step manager).run ⟨db, none⟩ events = some d) :
    NNDBManager.getObjects d.db tabString =
        (events.foldl (Log.apply db.resolve) ⟨NNDBManager.getObjects db tabString, false⟩).table ∧
      (ConsoleController.new d.db).viewWillAppear.recordData =
        ((events.foldl (Log.apply db.resolve)
          ⟨NNDBManager.getObjects db tabString, false⟩).table.getD []).reverse ∧
      ∀ ctx crash succeeds, d.process.isSome = true →
        ∃ d', step manager d (.crash ctx crash succeeds) = some d' := by
  have hStart : Logs manager db.resolve (⟨db, none⟩ : Device F Obj)
      ⟨NNDBManager.getObjects db tabString, false⟩ :=
    ⟨rfl, rfl, fun eye hProcess => by cases hProcess⟩
  have hLogs := (refines manager db.resolve).run hStart hOthers hRun
  refine ⟨hLogs.table, ?_, ?_⟩
  · rw [← hLogs.table]
    rfl
  · intro ctx crash succeeds hSome
    obtain ⟨db', process⟩ := d
    obtain ⟨eye, rfl⟩ := Option.isSome_iff_exists.mp hSome
    obtain ⟨d', hCrashed, -, -, -⟩ := (hLogs.running eye rfl).crash ctx crash succeeds db'
    exact ⟨d', hCrashed⟩

/-- A signal in one process, an exception in the next. -/
def twoProcesses : List (Event Unit NSObject) :=
  [.launch none fun _ => .sigDfl, .createTable true, .other (.add ⟨2, 8⟩),
    .crash CrashEye.simulatorContext (.signal SIGSEGV CrashEye.segv_hooked) fun _ => true,
    .launch none fun _ => .sigDfl, .createTable true,
    .crash CrashEye.simulatorContext (.exception ⟨"NSGenericException", none, []⟩) fun _ => true]

theorem log_refines_two_processes :
    ∃ d, (step ⟨1, 7⟩).run ⟨⟨Database.caseless, fun _ => none⟩, none⟩ twoProcesses = some d ∧
      NNDBManager.getObjects d.db tabString =
        (twoProcesses.foldl (Log.apply Database.caseless) ⟨none, false⟩).table ∧
      (ConsoleController.new d.db).viewWillAppear.recordData =
        ((twoProcesses.foldl (Log.apply Database.caseless) ⟨none, false⟩).table.getD []).reverse ∧
      ∀ ctx crash succeeds, d.process.isSome = true →
        ∃ d', step ⟨1, 7⟩ d (.crash ctx crash succeeds) = some d' := by
  refine ⟨_, rfl, log_refines ⟨1, 7⟩ ⟨Database.caseless, fun _ => none⟩ twoProcesses ?_ rfl⟩
  simp [twoProcesses, Event.LeavesManager, Foreign, NSObjectProtocol.hash]

end Refinement

end Device

end LeigodAPM
