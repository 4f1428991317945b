import LeigodAPM.CrashEye.Delegates
import LeigodAPM.CrashEye.Undo
import LeigodAPM.Foundation.Hooks

/-!
# What happens in a crash

Two functions of `CrashEye` run in a crash. `RecieveException` is the uncaught-exception
handler: it calls the handler that was installed before, reports the exception to every
delegate and returns. `RecieveSignal` reports the signal to every delegate and kills the
process. After the exception handler has returned, the runtime aborts, that is it raises
`SIGABRT`.

* `follow_of_callHandler`, `callHandler_of_follow`: calling an exception handler runs the
  chain of saved handlers.
* `oneReport_iff`: every live delegate gets one report of a crash exactly when the crash
  is a signal or there is no live delegate; an uncaught exception is reported by both
  functions.
-/

namespace LeigodAPM

open Foundation

/-! ## Reports -/

inductive CrashModelType
  | signal
  | exception
  deriving DecidableEq

def CrashModelType.rawValue : CrashModelType → Int
  | .signal => 1
  | .exception => 2

structure CrashModel where
  type : CrashModelType
  name : String
  reason : String
  appinfo : String
  callStack : String
  time : String
  deriving DecidableEq

/-- The part of `NSException` that is reported. -/
structure NSException where
  name : String
  reason : Option String
  callStackSymbols : List String

/-- What the handlers read from the system at the time of the crash. The call stack of a
thread inside `RecieveSignal` starts with the two frames of the handler itself. -/
structure CrashContext where
  callStackSymbols : List String
  two_le : 2 ≤ callStackSymbols.length
  /-- The current date as "yyyy-MM-dd HH:mm:ss". -/
  formattedDate : String
  displayName : Option String
  shortVersion : Option String
  version : Option String
  deviceType : String
  deviceSystemName : String
  deviceSystemVersion : String

def CrashContext.appInfo (ctx : CrashContext) : String :=
  "App: " ++ ctx.displayName.getD "" ++ " " ++ ctx.shortVersion.getD "" ++
    "(" ++ ctx.version.getD "" ++ ")\n" ++
    "Device:" ++ ctx.deviceType ++ "\n" ++
    "OS Version:" ++ ctx.deviceSystemName ++ " " ++ ctx.deviceSystemVersion

/-- `CrashEye.name(of:)`, which has no case for `SIGTRAP`. -/
def nameOfSignal (signal : Int32) : String :=
  if signal = SIGABRT then "SIGABRT"
  else if signal = SIGILL then "SIGILL"
  else if signal = SIGSEGV then "SIGSEGV"
  else if signal = SIGFPE then "SIGFPE"
  else if signal = SIGBUS then "SIGBUS"
  else if signal = SIGPIPE then "SIGPIPE"
  else "OTHER"

def exceptionModel (ctx : CrashContext) (exception : NSException) : CrashModel where
  type := .exception
  name := exception.name
  reason := exception.reason.getD ""
  appinfo := ctx.appInfo
  callStack := "\r".intercalate exception.callStackSymbols
  time := ctx.formattedDate

def signalModel (ctx : CrashContext) (signal : Int32) : CrashModel where
  type := .signal
  name := nameOfSignal signal
  reason := "Signal " ++ nameOfSignal signal ++ "(" ++ toString signal ++ ") was raised.\n"
  appinfo := ctx.appInfo
  callStack := "\r".intercalate (ctx.callStackSymbols.drop 2)
  time := ctx.formattedDate

/-! ## The crashing process -/

/-- A process in a crash: the exception handlers entered so far, the calls of
`crashEyeDidCatchCrash` in order, and whether the process is still there. -/
structure Crashing (F Obj : Type*) where
  app : CrashEye F Obj
  entered : List (ExceptionHandler F)
  received : List (Obj × CrashModel)
  killed : Bool

/-- The process at the moment the crash begins. -/
def Crashing.begin {F Obj : Type*} (app : CrashEye F Obj) : Crashing F Obj :=
  ⟨app, [], [], false⟩

namespace CrashEye

variable {F Obj : Type*}

/-- The loop over the delegates. -/
def notify (model : CrashModel) (c : Crashing F Obj) : Crashing F Obj :=
  { c with received := c.received ++ c.app.notified.map fun d => (d, model) }

def killApp (c : Crashing F Obj) : Crashing F Obj :=
  { c with
    app := { c.app with uncaughtExceptionHandler := none }
      |> signal SIGABRT (.other .sigDfl)
      |> signal SIGILL (.other .sigDfl)
      |> signal SIGSEGV (.other .sigDfl)
      |> signal SIGFPE (.other .sigDfl)
      |> signal SIGBUS (.other .sigDfl)
      |> signal SIGPIPE (.other .sigDfl)
    killed := true }

def RecieveSignal (ctx : CrashContext) (n : Int32) (c : Crashing F Obj) : Crashing F Obj :=
  if c.app.isOpen = true then killApp (notify (signalModel ctx n) c) else c

/-- `RecieveException` after the call of the old handler. -/
def reportException (ctx : CrashContext) (exception : NSException) (c : Crashing F Obj) :
    Crashing F Obj :=
  if c.app.isOpen = true then notify (exceptionModel ctx exception) c else c

/-- The handler that a handler calls: `CrashEye` the one it saved in
`app_old_exceptionHandler`, another component the one given by `saved`. -/
def oldHandler (s : CrashEye F Obj) (saved : F → Option (ExceptionHandler F)) :
    ExceptionHandler F → Option (ExceptionHandler F)
  | .recieveException => s.app_old_exceptionHandler
  | .foreign f => saved f

/-- Call an exception handler; `none` when the fuel is spent before the call returns. -/
def callHandler (saved : F → Option (ExceptionHandler F)) (ctx : CrashContext)
    (exception : NSException) : ℕ → ExceptionHandler F → Crashing F Obj → Option (Crashing F Obj)
  | 0, _, _ => none
  | n + 1, handler, c =>
    let c := { c with entered := c.entered ++ [handler] }
    let returned := match c.app.oldHandler saved handler with
      | some old => callHandler saved ctx exception n old c
      | none => some c
    match handler with
    | .recieveException => returned.map (reportException ctx exception)
    | .foreign _ => returned

/-- Raise a signal on the current thread. -/
def raise (ctx : CrashContext) (n : Int32) (c : Crashing F Obj) : Crashing F Obj :=
  match c.app.disposition n with
  | .recieveSignal => RecieveSignal ctx n c
  | .other .sigDfl => { c with killed := true }
  | .other .sigIgn => c
  | .other (.foreign _) => c

/-- `abort()` raises `SIGABRT` and never returns. -/
def abort (ctx : CrashContext) (c : Crashing F Obj) : Crashing F Obj :=
  { raise ctx SIGABRT c with killed := true }

/-- The runtime on an uncaught exception: the installed handler, then `abort()`. -/
def uncaughtException (saved : F → Option (ExceptionHandler F)) (ctx : CrashContext)
    (exception : NSException) (fuel : ℕ) (c : Crashing F Obj) : Option (Crashing F Obj) :=
  (match c.app.uncaughtExceptionHandler with
    | some handler => callHandler saved ctx exception fuel handler c
    | none => some c).map (abort ctx)

/-- A crash: an uncaught exception, or one of the hooked signals. -/
inductive Crash
  | exception (e : NSException)
  | signal (n : Int32) (hooked : n ∈ crashSignals)

/-- The crash of a process in which the handlers of other components just return. -/
def deliver (ctx : CrashContext) (fuel : ℕ) (s : CrashEye F Obj) : Crash → Option (Crashing F Obj)
  | .exception e => uncaughtException (fun _ => none) ctx e fuel (.begin s)
  | .signal n _ => some (raise ctx n (.begin s))

/-! ## The chain of exception handlers -/

section Chain

variable {saved : F → Option (ExceptionHandler F)} {ctx : CrashContext} {exception : NSException}

/-- Calls read one static of `CrashEye` only. -/
theorem oldHandler_congr {s s' : CrashEye F Obj}
    (h : s.app_old_exceptionHandler = s'.app_old_exceptionHandler) :
    s.oldHandler saved = s'.oldHandler saved := by
  funext handler
  cases handler with
  | recieveException => exact h
  | foreign f => rfl

theorem reportException_app (c : Crashing F Obj) :
    (reportException ctx exception c).app = c.app := by
  unfold reportException
  split <;> rfl

theorem reportException_entered (c : Crashing F Obj) :
    (reportException ctx exception c).entered = c.entered := by
  unfold reportException
  split <;> rfl

theorem raise_entered (ctx : CrashContext) (n : Int32) (c : Crashing F Obj) :
    (raise ctx n c).entered = c.entered := by
  unfold raise RecieveSignal
  split
  · split <;> rfl
  all_goals rfl

theorem abort_entered (ctx : CrashContext) (c : Crashing F Obj) :
    (abort ctx c).entered = c.entered := raise_entered ctx SIGABRT c

/-- A call that returns has entered the handlers of the chain in order, and has not
changed what they read. -/
theorem follow_of_callHandler {n : ℕ} {h : ExceptionHandler F} {c c' : Crashing F Obj}
    (hCall : callHandler saved ctx exception n h c = some c') :
    c'.app = c.app ∧ ∃ l, Chain.follow (c.app.oldHandler saved) n h = some l ∧
      c'.entered = c.entered ++ l := by
  induction n generalizing h c c' with
  | zero => cases hCall
  | succ n ih =>
    -- What the old handler leaves behind, whether or not there is one.
    have hOld : ∀ r, (match c.app.oldHandler saved h with
        | some old =>
          callHandler saved ctx exception n old { c with entered := c.entered ++ [h] }
        | none => some { c with entered := c.entered ++ [h] }) = some r →
        r.app = c.app ∧ ∃ l, Chain.follow (c.app.oldHandler saved) (n + 1) h = some l ∧
          r.entered = c.entered ++ l := by
      intro r hr
      cases hNext : c.app.oldHandler saved h with
      | none =>
        rw [hNext] at hr
        obtain rfl := Option.some.inj hr
        exact ⟨rfl, [h], Chain.follow_succ_none hNext n, rfl⟩
      | some old =>
        rw [hNext] at hr
        obtain ⟨hApp, l, hl, hEnt⟩ := ih hr
        refine ⟨hApp, h :: l, ?_, by simp [hEnt]⟩
        rw [Chain.follow_succ_some hNext, hl]
        rfl
    cases h with
    | foreign f => exact hOld c' hCall
    | recieveException =>
      obtain ⟨r, hr, rfl⟩ := Option.map_eq_some_iff.mp hCall
      rw [reportException_app, reportException_entered]
      exact hOld r hr

theorem callHandler_of_follow {n : ℕ} {h : ExceptionHandler F} {c : Crashing F Obj}
    {l : List (ExceptionHandler F)} (hl : Chain.follow (c.app.oldHandler saved) n h = some l) :
    ∃ c', callHandler saved ctx exception n h c = some c' := by
  induction n generalizing h c l with
  | zero => cases hl
  | succ n ih =>
    have hOld : ∃ r, (match c.app.oldHandler saved h with
        | some old =>
          callHandler saved ctx exception n old { c with entered := c.entered ++ [h] }
        | none => some { c with entered := c.entered ++ [h] }) = some r := by
      cases hNext : c.app.oldHandler saved h with
      | none => exact ⟨_, rfl⟩
      | some old =>
        rw [Chain.follow_succ_some hNext] at hl
        obtain ⟨l', hl', -⟩ := Option.map_eq_some_iff.mp hl
        exact ih hl'
    obtain ⟨r, hr⟩ := hOld
    cases h with
    | foreign f => exact ⟨r, hr⟩
    | recieveException =>
      refine ⟨reportException ctx exception r, ?_⟩
      exact Option.map_eq_some_iff.mpr ⟨r, hr, rfl⟩

end Chain

end CrashEye

/-! ## The rows of the crash table -/

/-- A row of the crash table. -/
structure CrashRecordModel where
  type : Int
  name : String
  reason : String
  appinfo : String
  time : String
  callStack : String
  deriving DecidableEq

/-- `CrashRecordModel.init(model:)`. -/
def CrashRecordModel.ofModel (model : CrashModel) : CrashRecordModel where
  type := model.type.rawValue
  name := model.name
  reason := model.reason
  appinfo := model.appinfo
  time := model.time
  callStack := model.callStack

namespace CrashEye

variable {F Obj : Type*}

/-! ## What each crash sends -/

section Deliver

variable {handler : Option F} {disposition : Int32 → Disposition F} {s : CrashEye F Obj}
  (ctx : CrashContext) (exception : NSException)

theorem map_fst_notify (model : CrashModel) (c : Crashing F Obj) :
    (notify model c).received.map Prod.fst = c.received.map Prod.fst ++ c.app.notified := by
  simp [notify, Function.comp_def]

/-- A hooked signal is reported once to the delegates, and the process is killed. -/
theorem raise_of_open {c : Crashing F Obj} (hSlots : Slots handler disposition c.app)
    (hOpen : c.app.isOpen = true) {n : Int32} (hn : n ∈ crashSignals) :
    (raise ctx n c).killed = true ∧
      (raise ctx n c).received.map Prod.fst = c.received.map Prod.fst ++ c.app.notified := by
  have hRaise : raise ctx n c = killApp (notify (signalModel ctx n) c) := by
    simp [raise, RecieveSignal, hSlots.open_signals hOpen n hn, hOpen]
  rw [hRaise]
  exact ⟨rfl, map_fst_notify _ c⟩

/-- The handler of `CrashEye` returns when its old handler does. -/
theorem callHandler_returns (hSlots : Slots handler disposition s) (hOpen : s.isOpen = true) :
    ∃ c, callHandler (fun _ => none) ctx exception 2 .recieveException (.begin s) = some c := by
  have hOld : s.oldHandler (fun _ => none) .recieveException = handler.map .foreign :=
    hSlots.open_saved hOpen
  cases handler with
  | none => exact callHandler_of_follow (Chain.follow_succ_none hOld 1)
  | some f =>
    apply callHandler_of_follow (l := [.recieveException, .foreign f])
    have hEnd : s.oldHandler (fun _ => none) (.foreign f) = none := rfl
    exact (Chain.follow_succ_some hOld 1).trans (by rw [Chain.follow_succ_none hEnd 0]; rfl)

/-- It reports once, after its old handler, and leaves everything installed. -/
theorem callHandler_reports (hSlots : Slots handler disposition s) (hOpen : s.isOpen = true)
    {n : ℕ} {c : Crashing F Obj}
    (hCall : callHandler (fun _ => none) ctx exception n .recieveException (.begin s) = some c) :
    c.app = s ∧ c.received.map Prod.fst = s.notified := by
  refine ⟨(follow_of_callHandler hCall).1, ?_⟩
  -- Whatever the fuel, the old handler is not there or returns at once.
  have hReport : ∀ entered, (reportException ctx exception ⟨s, entered, [], false⟩).received.map
      Prod.fst = s.notified := by
    intro entered
    rw [reportException, if_pos hOpen, map_fst_notify]
    rfl
  have hOld : s.oldHandler (fun _ => none) .recieveException = handler.map .foreign :=
    hSlots.open_saved hOpen
  cases n with
  | zero => cases hCall
  | succ n =>
    simp only [callHandler, Crashing.begin, hOld] at hCall
    cases handler with
    | none =>
      obtain rfl := Option.some.inj hCall
      exact hReport _
    | some f =>
      cases n with
      | zero => cases hCall
      | succ n =>
        obtain rfl := Option.some.inj hCall
        exact hReport _

/-- An uncaught exception is reported twice: by the exception handler, and by the signal
handler when the runtime aborts. -/
theorem deliver_exception (hSlots : Slots handler disposition s) (hOpen : s.isOpen = true)
    {n : ℕ} {c : Crashing F Obj} (hDeliver : deliver ctx n s (.exception exception) = some c) :
    c.received.map Prod.fst = s.notified ++ s.notified := by
  have hInstalled : (Crashing.begin s).app.uncaughtExceptionHandler = some .recieveException :=
    hSlots.open_handler hOpen
  simp only [deliver, uncaughtException, hInstalled] at hDeliver
  obtain ⟨r, hCall, rfl⟩ := Option.map_eq_some_iff.mp hDeliver
  obtain ⟨rfl, hReceived⟩ := callHandler_reports ctx exception hSlots hOpen hCall
  have hRaise := (raise_of_open ctx hSlots hOpen (show SIGABRT ∈ crashSignals by decide)).2
  rw [hReceived] at hRaise
  exact hRaise

theorem exists_deliver_exception (hSlots : Slots handler disposition s)
    (hOpen : s.isOpen = true) :
    ∃ c, deliver ctx 2 s (.exception exception) = some c ∧ c.killed = true := by
  obtain ⟨r, hCall⟩ := callHandler_returns ctx exception hSlots hOpen
  have hInstalled : (Crashing.begin s).app.uncaughtExceptionHandler = some .recieveException :=
    hSlots.open_handler hOpen
  refine ⟨abort ctx r, ?_, rfl⟩
  simp only [deliver, uncaughtException, hInstalled, hCall, Option.map_some]

end Deliver

/-! ## One crash, one report -/

section Report

variable [DecidableEq Obj]

/-- The rows that `EyesManager.crashEyeDidCatchCrash` inserts, one for each call of the
delegate `manager`. -/
def insertedRows (manager : Obj) (c : Crashing F Obj) : List CrashRecordModel :=
  (c.received.filter fun r => r.1 = manager).map fun r => .ofModel r.2

theorem length_insertedRows (manager : Obj) (c : Crashing F Obj) :
    (insertedRows manager c).length = (c.received.map Prod.fst).count manager := by
  rw [insertedRows, List.length_map, List.count, List.countP_map, List.countP_eq_length_filter]
  rfl

/-- When the process has been killed every live delegate has been called once, and a
delegate that is the `EyesManager` has inserted one row. -/
def OneReport (ctx : CrashContext) (s : CrashEye F Obj) (crash : Crash) : Prop :=
  ∃ fuel c, deliver ctx fuel s crash = some c ∧ c.killed = true ∧
    (∀ d ∈ s.notified, (c.received.map Prod.fst).count d = 1) ∧
    ∀ manager ∈ s.notified, (insertedRows manager c).length = 1

/-- The rows follow from the calls. -/
theorem oneReport_of_count {ctx : CrashContext} {s : CrashEye F Obj} {crash : Crash} {fuel : ℕ}
    {c : Crashing F Obj} (hDeliver : deliver ctx fuel s crash = some c) (hKilled : c.killed = true)
    (hCount : ∀ d ∈ s.notified, (c.received.map Prod.fst).count d = 1) :
    OneReport ctx s crash := by
  refine ⟨fuel, c, hDeliver, hKilled, hCount, fun manager hMem => ?_⟩
  rw [length_insertedRows]
  exact hCount manager hMem

/-- **One crash, one report.** In an open state that `add`, `remove` and deallocations
reach, a crash is reported once to every live delegate exactly when it is a signal or
there is no live delegate. -/
theorem oneReport_iff [NSObjectProtocol Obj] (handler : Option F)
    (disposition : Int32 → Disposition F) (ops : List (RegistryOp Obj)) {s : CrashEye F Obj}
    (hRun : step.run (launched handler disposition) ops = some s) (hOpen : s.isOpen = true)
    (ctx : CrashContext) (crash : Crash) :
    OneReport ctx s crash ↔ (∃ n hn, crash = .signal n hn) ∨ s.notified = [] := by
  have hSlots := (always_slots handler disposition ops).last hRun
  have hNodup := ((always_distinct handler disposition ops).last hRun).nodup
  cases crash with
  | signal n hn =>
    refine iff_of_true ?_ (Or.inl ⟨n, hn, rfl⟩)
    obtain ⟨hKilled, hReceived⟩ := raise_of_open ctx (c := .begin s) hSlots hOpen hn
    have hDeliver : deliver ctx 0 s (.signal n hn) = some (raise ctx n (.begin s)) := rfl
    apply oneReport_of_count hDeliver hKilled
    intro d hd
    rw [hReceived]
    simpa [Crashing.begin] using List.count_eq_one_of_mem hNodup hd
  | exception e =>
    constructor
    · rintro ⟨fuel, c, hDeliver, -, hCount, -⟩
      refine Or.inr (List.eq_nil_iff_forall_not_mem.mpr fun d hd => ?_)
      have hTwice := hCount d hd
      rw [deliver_exception ctx e hSlots hOpen hDeliver, List.count_append,
        List.count_eq_one_of_mem hNodup hd] at hTwice
      omega
    · rintro (⟨n, hn, hEq⟩ | hNil)
      · cases hEq
      · obtain ⟨c, hDeliver, hKilled⟩ := exists_deliver_exception ctx e hSlots hOpen
        exact oneReport_of_count hDeliver hKilled (by simp [hNil])

end Report

/-- The context of a crash in a simulator. -/
def simulatorContext : CrashContext where
  callStackSymbols := ["0 CrashEye", "1 CrashEye", "2 _sigtramp"]
  two_le := by decide
  formattedDate := "2024-06-17 10:00:00"
  displayName := none
  shortVersion := none
  version := none
  deviceType := "Simulator"
  deviceSystemName := "iOS"
  deviceSystemVersion := "17.0"

/-- A process in which one object has been added as delegate. -/
def oneDelegate : CrashEye ℕ NSObject := (launched none fun _ => .sigDfl).add ⟨0, 0⟩

theorem run_oneDelegate :
    step.run (launched none fun _ => .sigDfl) [.add (⟨0, 0⟩ : NSObject)] = some oneDelegate := rfl

theorem segv_hooked : SIGSEGV ∈ crashSignals := by decide

theorem oneReport_iff_segv :
    OneReport simulatorContext oneDelegate (.signal SIGSEGV segv_hooked) ↔
      (∃ n hn, Crash.signal SIGSEGV segv_hooked = .signal n hn) ∨ oneDelegate.notified = [] := by
  have hOpen : oneDelegate.isOpen = true := rfl
  exact oneReport_iff _ _ _ run_oneDelegate hOpen simulatorContext (.signal SIGSEGV segv_hooked)

/-- One delegate, no earlier handler, an uncaught exception: it is reported twice. -/
theorem exception_reported_twice :
    ¬ OneReport simulatorContext oneDelegate (.exception ⟨"NSGenericException", none, []⟩) := by
  rintro ⟨fuel, c, hDeliver, -, hCount, -⟩
  have hSlots := (always_slots none (fun _ => .sigDfl) _).last run_oneDelegate
  have hTwice := hCount ⟨0, 0⟩ (by decide)
  rw [deliver_exception _ _ hSlots rfl hDeliver] at hTwice
  revert hTwice
  decide

end CrashEye

end LeigodAPM
